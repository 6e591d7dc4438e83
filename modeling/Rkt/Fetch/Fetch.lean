import Rkt.Num.Decimal
import Rkt.Store.Store

set_option autoImplicit false

namespace Rkt.Fetch

open Conc Prog Store

structure CacheData where
  useCached : Bool
  etag : Str
  maxAge : Int
  deriving DecidableEq, Repr

/-- One directive of a `Cache-Control` header; `maxAge` is the result so far. -/
def directive (maxAge : Int) (part : Str) : Int :=
  let attr := part.takeWhile (· ≠ '=')
  let val := (part.dropWhile (· ≠ '=')).drop 1
  let lowerAttr := attr.map Char.toLower
  if lowerAttr = "no-store".toList then 0
  else if lowerAttr = "no-cache".toList then 0
  else if lowerAttr = "max-age".toList then
    match Decimal.atoi val with
    | none => maxAge
    | some secs =>
      if secs ≠ 0 ∧ val.head? = some '0' then maxAge
      else if secs ≤ 0 then 0
      else secs
  else maxAge

def getMaxAge (headerValue : Str) : Int :=
  if headerValue = [] then 0 else (headerValue.splitOn ' ').foldl directive 0

/-- `Time.Sub`, a number of nanoseconds that saturates at 64 bits. -/
def Time.sub (t u : Time) : Int := max (-2 ^ 63) (min (2 ^ 63 - 1) (t - u))

/-- `useCached`, at the time `now`. -/
def useCached (now downloadTime : Time) (maxAge : Int) : Bool :=
  let freshnessLifetime := (Time.sub now downloadTime).tdiv (10 ^ 9)
  maxAge > 0 ∧ freshnessLifetime < maxAge

inductive HttpErr where
  /-- The request cannot be made, or there is no answer. -/
  | failed
  /-- `errStatusAccepted`. -/
  | accepted
  /-- `bad HTTP status code: %d`. -/
  | status (code : Nat)
  /-- `error copying %s: %v`. -/
  | copying
  /-- `error writing %s: %v`. -/
  | writing
  deriving DecidableEq, Repr

/-- `downloadHTTP`, with the file that is written. -/
def downloadHTTP (url etag : Str) : StoreProg (Except HttpErr (CacheData × File)) := do
  match ← sys (.httpGet url etag) with
  | none => return .error .failed
  | some res =>
    if res.statusCode = 202 then return .error .accepted
    else if res.statusCode = 200 then
      match res.body with
      | none => return .error .copying
      | some file =>
        check (sys .aside) .writing
          (return .ok (⟨false, res.etag, getMaxAge res.cacheControl⟩, file))
    else if res.statusCode = 304 then
      return .ok (⟨true, res.etag, getMaxAge res.cacheControl⟩, none)
    else return .error (.status res.statusCode)

def downloadSignatureFile (url : Str) : StoreProg (Except HttpErr Unit) := do
  match ← downloadHTTP url [] with
  | .error e => return .error e
  | .ok _ => return .ok ()

/-- The part of the `fetcher` struct, and of the global flags, that decides something. -/
structure Fetcher where
  /-- The keystore is not `nil`. -/
  ks : Bool
  insecureSkipVerify : Bool
  isLocal : Bool
  /-- `TrustKeysFromHttps && !InsecureSkipVerify` of the global flags. -/
  trustKeysFromHttps : Bool
  deriving DecidableEq, Repr

structure Args where
  appName : Str
  aciURL : Str
  ascURL : Str
  scheme : Str
  /-- There is a signature file already. -/
  ascFile : Bool
  latest : Bool
  deriving DecidableEq, Repr

inductive FetchErr where
  /-- `signature verification for docker images is not supported (try --insecure-skip-verify)`. -/
  | dockerVerification
  /-- An error of the store. -/
  | store (e : Store.Err)
  /-- `url %s not available in local store`. -/
  | notAvailable (url : Str)
  /-- `error parsing ACI url: %v`. -/
  | parsingACI
  /-- `error parsing ASC url: %v`. -/
  | parsingASC
  /-- An error of a temporary file or directory. -/
  | tmp
  /-- `error converting docker image to ACI: %v` or `error opening squashed ACI file: %v`. -/
  | converting
  /-- `error opening signature file: %v`. -/
  | openingSignature
  /-- `error downloading the signature file: %v`. -/
  | downloadingSignature (e : HttpErr)
  /-- `error seeking signature file: %v`. -/
  | seekingSignature
  /-- `error opening ACI file: %v`. -/
  | openingACI
  /-- `error downloading ACI: %v`. -/
  | downloadingACI (e : HttpErr)
  /-- `error seeking ACI file: %v`. -/
  | seekingACI
  /-- An error of `ManifestFromImage`. -/
  | manifest
  /-- `error when reading the app name: %q expected but %q found`. -/
  | appName (expected found : Str)
  /-- An error of `CheckSignature`. -/
  | checkSignature (e : SigErr)
  deriving DecidableEq, Repr

/-- What `fetch` returns: the file, unless the cached image is to be used. -/
structure Fetched where
  file : File
  cd : Option CacheData
  deriving DecidableEq, Repr

/-- `strings.TrimPrefix`. -/
def trimPrefix (s pre : Str) : Str := if pre.isPrefixOf s then s.drop pre.length else s

def fetchDocker (aciURL : Str) : StoreProg (Except FetchErr Fetched) :=
  check (sys .aside) .tmp <|
  check (sys .aside) .tmp do
    match ← sys (.convert (trimPrefix aciURL "docker://".toList)) with
    | none => return .error .converting
    | some file => return .ok ⟨file, none⟩

/-- The part of `fetch` that gets the signature; `true` if the server put it off. -/
def getSignature (f : Fetcher) (a : Args) : StoreProg (Except FetchErr Bool) := do
  if f.ks ∧ ¬ a.ascFile then
    match ← sys (.parseURL a.ascURL) with
    | none => return .error .parsingASC
    | some scheme =>
      if scheme = "file".toList then
        match ← sys (.openFile a.ascURL) with
        | none => return .error .openingSignature
        | some _ => return .ok false
      else check (sys .aside) .tmp do
        match ← downloadSignatureFile a.ascURL with
        | .ok () => return .ok false
        | .error .accepted => return .ok true
        | .error e => return .error (.downloadingSignature e)
  else return .ok false

/-- The part of `fetch` that looks whether the signer is known at all. -/
def checkSigner (f : Fetcher) (a : Args) (retrySignature : Bool) :
    StoreProg (Except FetchErr Unit) := do
  if ¬ retrySignature ∧ f.ks ∧ a.appName ≠ [] then
    check (sys .aside) .seekingSignature do
      match ← sys (.checkSignature a.appName none) with
      | .error .other => return .error (.checkSignature .other)
      | _ => return .ok ()
  else return .ok ()

def getACI (a : Args) (scheme etag : Str) : StoreProg (Except FetchErr Fetched) := do
  if scheme = "file".toList then
    match ← sys (.openFile a.aciURL) with
    | none => return .error .openingACI
    | some file => return .ok ⟨file, none⟩
  else check (sys .aside) .tmp do
    match ← downloadHTTP a.aciURL etag with
    | .error e => return .error (.downloadingACI e)
    | .ok (cd, file) => return .ok ⟨file, some cd⟩

/-- The part of `fetch` that checks the name and the signature of the image. -/
def verify (f : Fetcher) (a : Args) (file : File) : StoreProg (Except FetchErr Unit) :=
  check (sys .aside) .manifest <|
  match file with
  | none => return .error .manifest
  | some image =>
    if a.appName ≠ [] ∧ image.manifest.name ≠ a.appName then
      return .error (.appName a.appName image.manifest.name)
    else if f.ks then
      check (sys .aside) .seekingACI <|
      check (sys .aside) .seekingSignature do
        match ← sys (.checkSignature image.manifest.name (some image)) with
        | .error e => return .error (.checkSignature e)
        | .ok () => check (sys .aside) .seekingACI (return .ok ())
    else check (sys .aside) .seekingACI (return .ok ())

/-- The second attempt to download a signature, if the server put the first one off. -/
def retryDownload (retrySignature : Bool) (url : Str) : StoreProg (Except HttpErr Unit) :=
  if retrySignature then downloadSignatureFile url else return .ok ()

/-- The part of `fetch` after the image has been downloaded or opened. -/
def verifyFetched (f : Fetcher) (a : Args) (retrySignature : Bool) (fetched : Fetched) :
    StoreProg (Except FetchErr Fetched) := do
  match ← retryDownload retrySignature a.ascURL with
  | .error e => return .error (.downloadingSignature e)
  | .ok () =>
    match ← verify f a fetched.file with
    | .error e => return .error e
    | .ok () => return .ok fetched

/-- The part of `fetch` that adds the keys of the app. -/
def trustKeys (f : Fetcher) (a : Args) : StoreProg Unit :=
  if f.trustKeysFromHttps ∧ a.appName ≠ [] then sys (.trustKeys a.appName) else return ()

def fetch (f : Fetcher) (a : Args) (etag : Str) : StoreProg (Except FetchErr Fetched) := do
  match ← sys (.parseURL a.aciURL) with
  | none => return .error .parsingACI
  | some scheme =>
    if scheme = "docker".toList then fetchDocker a.aciURL
    else
      trustKeys f a
      match ← getSignature f a with
      | .error e => return .error e
      | .ok retrySignature =>
        match ← checkSigner f a retrySignature with
        | .error e => return .error e
        | .ok () =>
          match ← getACI a scheme etag with
          | .error e => return .error e
          | .ok fetched =>
            if fetched.cd.any (·.useCached) then return .ok ⟨none, fetched.cd⟩
            else verifyFetched f a retrySignature fetched

/-- `fetchImageFrom` returns a key. -/
def returnKey (f : Fetcher) (row : Option Remote) (key : Key) :
    StoreProg (Except FetchErr Key) := do
  sys (.returned f.ks row key)
  return .ok key

/-- The row that `fetchImageFrom` writes at time `t`: `NewRemote`, and the assignments to its
fields. -/
def newRow (f : Fetcher) (a : Args) (cd : Option CacheData) (key : Key) (t : Time) : Remote where
  aciURL := a.aciURL
  sigURL := a.ascURL
  etag := (cd.map (·.etag)).getD []
  blobKey := key
  cacheMaxAge := (cd.map (·.maxAge)).getD 0
  downloadTime := t
  verified := f.ks

/-- The part of `fetchImageFrom` that writes a new image and its row. -/
def writeImage (hash : Image → Key) (f : Fetcher) (a : Args) (fetched : Fetched) :
    StoreProg (Except FetchErr Key) := do
  match ← writeACI hash fetched.file a.latest with
  | .error e => return .error (.store e)
  | .ok key =>
    if a.scheme ≠ "file".toList then
      let t : Time ← sys .now
      match ← writeRemote (newRow f a fetched.cd key t) with
      | .error e => return .error (.store e)
      | .ok () => return .ok key
    else return .ok key

def saveImage (hash : Image → Key) (f : Fetcher) (a : Args) (fetched : Fetched) :
    StoreProg (Except FetchErr Key) := do
  sys (.storing (fetched.file.map hash))
  let r ← writeImage hash f a fetched
  sys .stored
  return r

/-- The part of `fetchImageFrom` after a new image has been fetched. -/
def storeImage (hash : Image → Key) (f : Fetcher) (a : Args) (fetched : Fetched) :
    StoreProg (Except FetchErr Key) := do
  match ← saveImage hash f a fetched with
  | .error e => return .error e
  | .ok key => returnKey f none key

/-- The part of `fetchImageFrom` after the row of the URL, if it was looked up. -/
def fetchNew (hash : Image → Key) (f : Fetcher) (a : Args) (rem : Option Remote) :
    StoreProg (Except FetchErr Key) := do
  match ← fetch f a ((rem.map (·.etag)).getD []) with
  | .error e => return .error e
  | .ok fetched =>
    if fetched.cd.any (·.useCached) then
      match rem with
      | some rem => returnKey f (some rem) rem.blobKey
      | none => panic
    else storeImage hash f a fetched

def fetchImageFrom (hash : Image → Key) (f : Fetcher) (a : Args) :
    StoreProg (Except FetchErr Key) := do
  if ¬ f.insecureSkipVerify ∧ a.scheme = "docker".toList then return .error .dockerVerification
  else if (f.isLocal ∧ a.scheme ≠ "file".toList) ∨ (a.scheme ≠ "file".toList ∧ ¬ a.latest) then
    match ← getRemote a.aciURL with
    | .error e => return .error (.store e)
    | .ok (rem, ok) =>
      if ok then
        if f.isLocal then returnKey f (some rem) rem.blobKey
        else
          let now : Time ← sys .now
          if useCached now rem.downloadTime rem.cacheMaxAge then
            returnKey f (some rem) rem.blobKey
          else fetchNew hash f a (some rem)
      else if f.isLocal then return .error (.notAvailable a.aciURL)
      else fetchNew hash f a (some rem)
  else fetchNew hash f a none

inductive Call where
  | fetchImageFrom (f : Fetcher) (a : Args)
  | writeACI (file : File) (latest : Bool)
  | removeACI (key : Key)

abbrev Call.Res : Call → Type
  | .fetchImageFrom _ _ => Except FetchErr Key
  | .writeACI _ _ => Except Store.Err Key
  | .removeACI _ => Except Store.Err Unit

def Call.prog (hash : Image → Key) : (c : Call) → StoreProg c.Res
  | .fetchImageFrom f a => Fetch.fetchImageFrom hash f a
  | .writeACI file latest => Store.writeACI hash file latest
  | .removeACI key => Store.removeACI key

inductive Script where
  | done
  | call (c : Call) (k : c.Res → Script)

def Script.prog (hash : Image → Key) : Script → StoreProg Unit
  | .done => return ()
  | .call c k => do
    let r ← c.prog hash
    (k r).prog hash

def newDatabase (dbVersion : Nat) : Database := ⟨some [dbVersion], [], []⟩

/-- An empty store, and processes that are about to start. -/
def start (hash : Image → Key) (scripts : Pid → Script) :
    Config (dbSig coreSig stmtSig) (DbState Core Database) :=
  ⟨initial Core.empty (newDatabase 2), fun p => (scripts p).prog hash⟩

def exampleImage : Image := ⟨⟨"example.com/app".toList, []⟩, "x".toList⟩

def exampleHash (image : Image) : Key := image.contents

def exampleOutside : Outside where
  reply _ _ := some ⟨200, [], "max-age=100".toList, some (some exampleImage)⟩

def exampleArgs : Args where
  appName := []
  aciURL := "http://example.com/app.aci".toList
  ascURL := "http://example.com/app.aci.asc".toList
  scheme := "http".toList
  ascFile := false
  latest := false

def secureFetcher : Fetcher := ⟨true, false, false, false⟩

def insecureFetcher : Fetcher := ⟨false, true, false, false⟩

end Rkt.Fetch
