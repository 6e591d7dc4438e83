import Rkt.Conc.System

set_option autoImplicit false

namespace Rkt.Tree

open Conc Prog

abbrev Str := List Char

abbrev Key := Str

abbrev Path := Str

abbrev Content := List UInt8

abbrev Files := Path → Option Content

def hashfilename : Path := "hash".toList
def renderedfilename : Path := "rendered".toList
/-- `specaci.ManifestFile`. -/
def manifestFile : Path := "manifest".toList

structure World where
  trees : Key → Option Files
  locks : Key → Option Pid
  dead : Finset Pid
  rendering : Key → List (Path × Content)

def World.empty : World where
  trees _ := none
  locks _ := none
  dead := ∅
  rendering _ := []

inductive Stat where
  | found
  | notExist
  | failed
  deriving DecidableEq, Repr

inductive Op where
  /-- `lock.ExclusiveKeyLock(s.treeStoreLockDir, key)`; blocks while somebody holds the lock. -/
  | lock (key : Key)
  /-- `treeStoreKeyLock.Close`. -/
  | close (key : Key)
  /-- `os.Stat` of the directory. -/
  | statTree (key : Key)
  /-- `os.Stat` of the file `rendered`. -/
  | statRendered (key : Key)
  /-- `os.Remove` of the file `rendered`. -/
  | removeRendered (key : Key)
  /-- `os.RemoveAll` of the directory. -/
  | removeAll (key : Key)
  /-- `os.MkdirAll` of the directory. -/
  | mkdirAll (key : Key)
  /-- `acirenderer.GetRenderedACIWithImageID`: which files are to be extracted. -/
  | render (key : Key)
  /-- `extractFile`. -/
  | extract (key : Key) (path : Path) (c : Content)
  /-- `TreeStore.Hash`. -/
  | hash (key : Key)
  /-- `ioutil.WriteFile` of the file `hash`. -/
  | writeHash (key : Key) (h : Content)
  /-- `os.Create` of the file `rendered`. -/
  | createRendered (key : Key)
  /-- Work that leaves the trees alone and may fail. -/
  | aside
  deriving DecidableEq, Repr

/-- The answers. The failure of a write comes with what is in the file now, if it was
touched; the one of `RemoveAll` with what was removed before. -/
def Op.Res : Op → Type
  | .close _ => Unit
  | .statTree _ | .statRendered _ => Stat
  | .removeAll _ => Option (List Path)
  | .render _ => Option (List (Path × Content))
  | .extract _ _ _ | .writeHash _ _ => Except (Option Content) Unit
  | .hash _ => Option Content
  | _ => Bool

abbrev treeSig : Sig := ⟨Op, Op.Res⟩

abbrev TreeProg := Prog treeSig

abbrev sys (o : Op) : TreeProg o.Res := Prog.call (S := treeSig) o

/-- The files that go into the hash: all but `manifest`, `hash` and `rendered`. -/
def hashed (t : Files) : Files := fun path =>
  if path = manifestFile ∨ path = hashfilename ∨ path = renderedfilename then none else t path

namespace World

def setTree (s : World) (key : Key) (t : Option Files) : World :=
  { s with trees := Function.update s.trees key t }

/-- The lock of `key` is held by `p`, or by nobody. -/
def setLock (s : World) (key : Key) (p : Option Pid) : World :=
  { s with locks := Function.update s.locks key p }

/-- A file of the tree of `key` is written, unless the tree is not there. -/
def write (s : World) (key : Key) (path : Path) (c : Content) : Option World :=
  (s.trees key).map fun t => s.setTree key (some (Function.update t path (some c)))

/-- The death of a process: its locks are released. -/
def die (p : Pid) (s : World) : World :=
  { s with
    dead := insert p s.dead
    locks := fun key => if s.locks key = some p then none else s.locks key }

end World

/-- `rendered` is there. -/
def flagged (t : Option Files) : Bool := t.any fun t => (t renderedfilename).isSome

/-- What an operation of a live process does; `H` is the hash function. -/
def next (H : Files → Content) (p : Pid) : (o : Op) → o.Res → World → Option World
  | .lock key, (ok : Bool), s =>
    if ok then if s.locks key = none then some (s.setLock key (some p)) else none else some s
  | .close key, _, s => some (if s.locks key = some p then s.setLock key none else s)
  | .statTree key, r, s =>
    match r with
    | .found => if (s.trees key).isSome then some s else none
    | .notExist => if (s.trees key).isSome then none else some s
    | .failed => some s
  | .statRendered key, r, s =>
    match r with
    | .found => if flagged (s.trees key) then some s else none
    | .notExist => if flagged (s.trees key) then none else some s
    | .failed => some s
  | .removeRendered key, (ok : Bool), s =>
    if ok then (s.trees key).map fun t =>
      s.setTree key (some (Function.update t renderedfilename none))
    else some s
  | .removeAll key, r, s =>
    match r with
    | none => some (s.setTree key none)
    | some gone => some (s.setTree key
        ((s.trees key).map fun t path => if gone.contains path then none else t path))
  | .mkdirAll key, (ok : Bool), s =>
    some (if ok then s.setTree key (some ((s.trees key).getD fun _ => none)) else s)
  | .render key, r, s =>
    match r with
    | none => some s
    | some files => some { s with rendering := Function.update s.rendering key files }
  | .extract key path c, r, s =>
    match r with
    | .ok () => s.write key path c
    | .error none => some s
    | .error (some part) => s.write key path part
  | .hash key, r, s =>
    match r with
    | none => some s
    | some h => (s.trees key).bind fun t => if h = H (hashed t) then some s else none
  | .writeHash key h, r, s =>
    match r with
    | .ok () => s.write key hashfilename h
    | .error none => some s
    | .error (some part) => s.write key hashfilename part
  | .createRendered key, (ok : Bool), s => if ok then s.write key renderedfilename [] else some s
  | .aside, _, s => some s

/-- The tree store as a machine. A dead process does nothing. -/
def treeMachine (H : Files → Content) : Machine treeSig World where
  next p o r s := if p ∈ s.dead then none else next H p o r s
  die := World.die

inductive Err where
  /-- `error locking tree store: %v`. -/
  | lock
  /-- `cannot determine if tree is already rendered: %v`. -/
  | rendered
  /-- `treestore: failed to open tree store directory: %v`. -/
  | openDir
  /-- An error of `os.Stat`, `syscall.Open` or `os.RemoveAll`, handed on as it is. -/
  | errno
  /-- `treestore: failed to sync tree store directory: %v`. -/
  | syncDir
  /-- `treestore: path %s already exists`. -/
  | alreadyExists (key : Key)
  /-- `treestore: cannot convert key to imageID: %v`. -/
  | imageID
  /-- `treestore: cannot create treestore directory %s: %v`. -/
  | mkdir (key : Key)
  /-- `treestore: cannot render aci: %v`. -/
  | render
  /-- `treestore: cannot calculate tree hash: %v`. -/
  | hash
  /-- `treestore: cannot write hash file: %v`. -/
  | writeHash
  /-- `treestore: failed to sync data: %v`. -/
  | sync
  /-- `treestore: failed to write rendered file: %v`. -/
  | writeRendered
  /-- `error removing the tree store: %v`. -/
  | removing (e : Err)
  deriving DecidableEq, Repr

/-- `renderImage`: extract the files. -/
def extractAll (key : Key) : List (Path × Content) → TreeProg (Except Err Unit)
  | [] => return .ok ()
  | (path, c) :: files => do
    match ← sys (.extract key path c) with
    | .ok () => extractAll key files
    | .error _ => return .error .render

/-- The second half of `TreeStore.Write`: hash the tree and flag it as rendered. -/
def finishTree (key : Key) : TreeProg (Except Err Unit) := do
  match ← sys (.hash key) with
  | none => return .error .hash
  | some h =>
    match ← sys (.writeHash key h) with
    | .error _ => return .error .writeHash
    | .ok () =>
      -- before creating the "rendered" flag file we need to ensure that all data is fsynced
      check (sys .aside) .errno <|
      check (sys .aside) .sync <|
      check (sys (.createRendered key)) .writeRendered <|
      check (sys .aside) .syncDir <| return .ok ()

/-- `aci.RenderACIWithImageID`, and the rest of `TreeStore.Write`. -/
def renderTree (key : Key) : TreeProg (Except Err Unit) := do
  match ← sys (.render key) with
  | none => return .error .render
  | some files =>
    match ← extractAll key files with
    | .error e => return .error e
    | .ok () => finishTree key

/-- `TreeStore.Write`: render the image into a directory that does not exist yet. -/
def write (key : Key) : TreeProg (Except Err Unit) := do
  match ← sys (.statTree key) with
  | .found => return .error (.alreadyExists key)
  | _ =>
    -- types.NewHash
    check (sys .aside) .imageID <|
    check (sys (.mkdirAll key)) (.mkdir key) <| renderTree key

/-- `os.RemoveAll(treepath)`. -/
def removeAll (key : Key) : TreeProg (Except Err Unit) := do
  match ← sys (.removeAll key) with
  | none => return .ok ()
  | some _ => return .error .errno

/-- `TreeStore.Remove`. -/
def remove (key : Key) : TreeProg (Except Err Unit) := do
  match ← sys (.statTree key) with
  | .notExist => return .ok ()
  | .failed => return .error .openDir
  | .found =>
    match ← sys (.statRendered key) with
    | .failed => return .error .errno
    | .notExist => removeAll key
    | .found =>
      -- the error of the removal is shadowed by the one of os.Open
      let _ ← sys (.removeRendered key)
      check (sys .aside) .openDir <|
      check (sys .aside) .syncDir <| removeAll key

/-- `TreeStore.IsRendered`. -/
def isRendered (key : Key) : TreeProg (Except Err Bool) := do
  match ← sys (.statRendered key) with
  | .notExist => return .ok false
  | .failed => return .error .errno
  | .found => return .ok true

def locked (key : Key) (x : TreeProg (Except Err Unit)) : TreeProg (Except Err Unit) :=
  check (sys (.lock key)) .lock do
    let r ← x
    sys (.close key)
    return r

/-- Remove a possible partial tree, then render a new one. -/
def rebuildTree (key : Key) : TreeProg (Except Err Unit) := do
  match ← remove key with
  | .error e => return .error e
  | .ok () => write key

/-- `Store.RenderTreeStore`. -/
def renderTreeStore (key : Key) (rebuild : Bool) : TreeProg (Except Err Unit) :=
  locked key do
    if rebuild then rebuildTree key
    else
      match ← isRendered key with
      | .error _ => return .error .rendered
      | .ok true => return .ok ()
      | .ok false => rebuildTree key

/-- `Store.RemoveTreeStore`. -/
def removeTreeStore (key : Key) : TreeProg (Except Err Unit) :=
  locked key do
    match ← remove key with
    | .error e => return .error (.removing e)
    | .ok () => return .ok ()

inductive Call where
  | render (key : Key) (rebuild : Bool)
  | remove (key : Key)

/-- What a process runs: calls, one after the other. -/
def script : List Call → TreeProg Unit
  | [] => return ()
  | .render key rebuild :: cs => do
    let _ ← renderTreeStore key rebuild
    script cs
  | .remove key :: cs => do
    let _ ← removeTreeStore key
    script cs

/-- Nothing has been rendered and each process is about to make its calls. -/
def start (calls : Pid → List Call) : Config treeSig World :=
  ⟨World.empty, fun p => script (calls p)⟩

end Rkt.Tree
