import Mathlib
import Daimonos.Framework.FileTree
import Daimonos.Framework.Keyed

namespace Daimonos.Snapshot

open Framework

/-- A file name: a text, or bytes that are no UTF-8. -/
inductive OsString where
  | utf8 (s : String)
  | invalid (bytes : List UInt8)
  deriving DecidableEq

/-- A path relative to the root of a walk. -/
abbrev RelPath := List OsString

/-- Files and directories without symbolic links. -/
abbrev Tree := FileTree OsString (List UInt8)

/-- What the walks take from outside. -/
structure WalkEnv where
  /-- the text that stands for a name that is no UTF-8 -/
  replaced : List UInt8 → String
  /-- the ignore rules in a workspace, which may come from files in it and from outside -/
  ignored : Tree → RelPath → Bool
  /-- the rules that the walk over a stored copy keeps to, given the workspace and the copy: all but
  those of `.gitignore` files -/
  hidden : Tree → Tree → RelPath → Bool

namespace WalkEnv

variable (env : WalkEnv)

def toStringLossy : OsString → String
  | .utf8 s => s
  | .invalid bytes => env.replaced bytes

def lossy (p : RelPath) : List String := p.map env.toStringLossy

def reserved (n : OsString) : Bool :=
  env.toStringLossy n == ".daimonos" || env.toStringLossy n == ".git"

/-- The walk over the workspace gets to the path: nothing on the way is filtered or ignored. -/
def visible (t : Tree) (p : RelPath) : Bool :=
  p.all (fun n => !env.reserved n) && p.inits.all fun a => a.isEmpty || !env.ignored t a

/-- The walk over the stored copy gets to the path. -/
def seen (t snap : Tree) (p : RelPath) : Bool :=
  p.inits.all fun a => a.isEmpty || !env.hidden t snap a

end WalkEnv

/-- The copy, and the number and size of the files copied so far. -/
abbrev Copied := Tree × Nat × Nat

def copyEntry (t : Tree) (copied : Copied) (p : RelPath) : Option Copied :=
  let (dest, count, bytes) := copied
  match t.entry p with
  | some .dir => do
    let dest ← dest.createDirAll p
    pure (dest, count, bytes)
  | some (.file c) => do
    let dest ← dest.createDirAll p.dropLast
    let dest ← dest.writeFile p c
    pure (dest, count+1, bytes+c.length)
  | none => some copied

def copyWorkspace (env : WalkEnv) (t : Tree) : Option Copied :=
  (t.paths.filter (env.visible t)).foldlM (copyEntry t) (.empty, 0, 0)

def keyed (env : WalkEnv) (paths : List RelPath) : List (List String × RelPath) :=
  paths.foldl (fun map p => storeKey (env.lossy p) p map) []

def collectRelativePaths (env : WalkEnv) (t snap : Tree) : List (List String × RelPath) :=
  keyed env (snap.paths.filter fun p => env.seen t snap p && decide (snap.IsFile p))

def collectWorkspacePaths (env : WalkEnv) (t : Tree) : List (List String × RelPath) :=
  keyed env (t.paths.filter fun p => env.visible t p && decide (t.IsFile p))

/-- The order in which a hash map is iterated, and that of a walk which has the contents of a
directory before it. -/
structure Orders where
  hash : List (List String × RelPath) → List (List String × RelPath)
  hash_perm : ∀ l, (hash l).Perm l
  contentsFirst : List RelPath → List RelPath
  contentsFirst_perm : ∀ l, (contentsFirst l).Perm l
  contents_before : ∀ l, l.Nodup → (contentsFirst l).Pairwise fun p q => ¬ p <+: q

def removeStale (snapSet : List (List String × RelPath)) (t : Tree)
    (workspaceSet : List (List String × RelPath)) : Tree :=
  workspaceSet.foldl (fun t e =>
    if e.1 ∉ snapSet.map Prod.fst ∧ t.IsFile e.2 then t.removeFile e.2 else t) t

inductive RestoreError where
  | mkdir
  | restore (rel : List String)
  deriving DecidableEq

def destination (rel : List String) : RelPath := rel.map .utf8

def copyFiles (snap : Tree) : Tree → List (List String × RelPath) → Tree × Except RestoreError Unit
  | t, [] => (t, .ok ())
  | t, (rel, src) :: rest =>
    match t.createDirAll (destination rel).dropLast with
    | none => (t, .error .mkdir)
    | some t =>
      match (snap.content? src).bind (t.writeFile (destination rel)) with
      | none => (t, .error (.restore rel))
      | some t => copyFiles snap t rest

/-- The last name of a path is one that the cleaning skips. -/
def reservedName (env : WalkEnv) (p : RelPath) : Bool := p.getLast?.any env.reserved

def cleanEmptyDirs (env : WalkEnv) (orders : Orders) (t : Tree) : Tree :=
  let dirs := (orders.contentsFirst t.paths).filter fun p =>
    !reservedName env p && decide (t.entry p = some .dir)
  dirs.foldl (fun t dir => t.removeDir dir) t

def restoreWorkspace (env : WalkEnv) (orders : Orders) (snap t : Tree) :
    Tree × Except RestoreError Unit :=
  let snapSet := collectRelativePaths env t snap
  let workspaceSet := collectWorkspacePaths env t
  let t := removeStale snapSet t (orders.hash workspaceSet)
  match copyFiles snap t (orders.hash snapSet) with
  | (t, .ok ()) => (cleanEmptyDirs env orders t, .ok ())
  | (t, .error e) => (t, .error e)

end Daimonos.Snapshot
