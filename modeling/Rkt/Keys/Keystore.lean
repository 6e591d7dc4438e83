import Rkt.Path.Components

set_option autoImplicit false

namespace Rkt.Keys

open Path

def alphanumeric (c : Char) : Bool := ('a' ≤ c && c ≤ 'z') || ('0' ≤ c && c ≤ '9')

def special (c : Char) : Bool := c = '-' || c = '.' || c = '_' || c = '~' || c = '/'

/-- The rest of an identifier; `edge` says that it must go on with a letter or digit. -/
def matchIdentifier : (edge : Bool) → Str → Bool
  | edge, [] => !edge
  | edge, c :: s =>
    if alphanumeric c then matchIdentifier false s
    else special c && !edge && matchIdentifier true s

/-- The regular expression `ValidACIdentifier`: `^[a-z0-9]+([-._~/][a-z0-9]+)*$`. -/
def validACIdentifier (s : Str) : Bool := matchIdentifier true s

/-- `ACIdentifier.assertValid`, the check that `NewACIdentifier` makes. -/
def assertValid (s : Str) : Bool :=
  s ≠ [] && s.all (fun c => alphanumeric c || special c) &&
    !(s.head?.any special) && !(s.getLast?.any special)

/-- The contents of a file: nothing, an armored key ring whose first entity has the
fingerprint `fp`, or something that is no key ring. -/
inductive Content where
  | empty
  | key (fp : Str)
  | unreadable
  deriving DecidableEq, Repr

mutual

inductive Node where
  | file (c : Content)
  | dir (es : Entries)

/-- The entries of a directory, in the order in which they are walked. -/
inductive Entries where
  | nil
  | cons (name : Str) (n : Node) (rest : Entries)

end

/-- Induction over the entries of one directory. -/
@[elab_as_elim]
theorem Entries.ind {P : Entries → Prop} (nil : P .nil)
    (cons : ∀ name n rest, P rest → P (.cons name n rest)) : ∀ es, P es
  | .nil => nil
  | .cons name n rest => cons name n rest (Entries.ind nil cons rest)

def Entries.names : Entries → List Str
  | .nil => []
  | .cons name _ rest => name :: rest.names

def Entries.lookup (name : Str) : Entries → Option Node
  | .nil => none
  | .cons name' n rest => if name' = name then some n else rest.lookup name

def Node.lookup (name : Str) : Node → Option Node
  | .file _ => none
  | .dir es => es.lookup name

mutual

/-- The names in each directory are plain and in ascending order. -/
def Node.wf : Node → Bool
  | .file _ => true
  | .dir es => es.wf

def Entries.wf : Entries → Bool
  | .nil => true
  | .cons name n rest =>
    decide (Plain name) && rest.names.all (fun name' => name < name') && n.wf && rest.wf

end

/-- The `Config` of a keystore: the four paths, by components. -/
structure Config where
  localRootPath : List Str
  localPrefixPath : List Str
  systemRootPath : List Str
  systemPrefixPath : List Str

/-- A keystore: its configuration, and what is there at the four paths. -/
structure Keystore where
  config : Config
  localRoot : Option Node
  localPrefix : Option Node
  systemRoot : Option Node
  systemPrefix : Option Node
  localPrefixPath_plain : ∀ c ∈ config.localPrefixPath, Plain c
  systemPrefixPath_plain : ∀ c ∈ config.systemPrefixPath, Plain c
  localRoot_wf : localRoot.all Node.wf = true
  localPrefix_wf : localPrefix.all Node.wf = true
  systemRoot_wf : systemRoot.all Node.wf = true
  systemPrefix_wf : systemPrefix.all Node.wf = true

inductive Err where
  /-- An error of `NewACIdentifier`. -/
  | identifier
  /-- An error of `openpgp.ReadArmoredKeyRing`. -/
  | keyRing
  /-- `fingerprint mismatch: %q:%q`. -/
  | mismatch (keyFile fingerprint : Str)
  deriving DecidableEq, Repr

/-- `entityFromFile`: the key in a file, whose name must be the fingerprint. -/
def entityFromFile (keyFile : Str) : Content → Except Err Str
  | .key fp => if fp = keyFile then .ok fp else .error (.mismatch keyFile fp)
  | _ => .error .keyRing

def visitFile (name : Str) (c : Content) (trustedKeys : Finset Str) :
    Except Err (Finset Str) :=
  if c = .empty then .ok (trustedKeys.erase name)
  else do
    let fp ← entityFromFile name c
    return insert fp trustedKeys

mutual

/-- The walk below `path`: a directory is entered only if its path is a prefix, as a string, of
`fullPath`. -/
def walk (fullPath : Str) (path : List Str) (name : Str) :
    Node → Finset Str → Except Err (Finset Str)
  | .file c, trustedKeys => visitFile name c trustedKeys
  | .dir es, trustedKeys =>
    if (render path).isPrefixOf fullPath then walkEntries fullPath path es trustedKeys
    else .ok trustedKeys

def walkEntries (fullPath : Str) (path : List Str) :
    Entries → Finset Str → Except Err (Finset Str)
  | .nil, trustedKeys => .ok trustedKeys
  | .cons name n rest, trustedKeys => do
    let trustedKeys ← walk fullPath (path ++ [name]) name n trustedKeys
    walkEntries fullPath path rest trustedKeys

end

/-- `filepath.Walk(root, …)`: a root that does not exist is skipped. -/
def walkRoot (fullPath : Str) (root : List Str) (n : Option Node) (trustedKeys : Finset Str) :
    Except Err (Finset Str) :=
  match n with
  | none => .ok trustedKeys
  | some n => walk fullPath root (root.getLast?.getD []) n trustedKeys

/-- The walks over the four places, for an image name with components `comps`. -/
def walkPaths (ks : Keystore) (comps : List Str) : Except Err (Finset Str) := do
  let root := comps.head?.getD []
  let keys ← walkRoot (render ks.config.systemRootPath) ks.config.systemRootPath ks.systemRoot ∅
  let keys ← walkRoot (render ks.config.localRootPath) ks.config.localRootPath ks.localRoot keys
  let keys ← walkRoot (render (clean (ks.config.systemPrefixPath ++ comps)))
    (ks.config.systemPrefixPath ++ [root]) (ks.systemPrefix.bind (Node.lookup root)) keys
  walkRoot (render (clean (ks.config.localPrefixPath ++ comps)))
    (ks.config.localPrefixPath ++ [root]) (ks.localPrefix.bind (Node.lookup root)) keys

/-- The fingerprints of the keys that may sign images called `id`. -/
def loadKeyring (ks : Keystore) (id : Str) : Except Err (Finset Str) :=
  if assertValid id then walkPaths ks (split id) else .error .identifier

end Rkt.Keys
