/-!
# `Scratch/Disk.lean` — the file system below scratch storage

A disk says of each path whether there is a file, a directory or nothing. Only the operations that
scratch storage needs are defined: looking, making directories with all missing parents, writing a
file, and removing a directory with everything in it. An operation that fails changes nothing.

* `entryAt_put`, `entryAt_prune`: what an operation changes, path by path.
-/

set_option autoImplicit false

namespace GeneticRepair

/-- A path: the names from the top directory on. -/
abbrev FilePath := List String

def FilePath.text (p : FilePath) : String := String.intercalate "/" p

/-- The path that a text names. -/
def FilePath.ofText (s : String) : FilePath := s.splitOn "/"

inductive DiskEntry where
  | file
  | directory
deriving DecidableEq, Repr

inductive DiskError where
  | notFound
  /-- A plain file stands where a directory is needed. -/
  | notDirectory
  /-- A file stands at the path to be made. -/
  | alreadyExists
  /-- A directory stands at the path to be written. -/
  | isDirectory
deriving DecidableEq

namespace DiskError

/-- The text of a failure as the operating system gives it. -/
def message : DiskError → String
  | .notFound => "No such file or directory (os error 2)"
  | .notDirectory => "Not a directory (os error 20)"
  | .alreadyExists => "File exists (os error 17)"
  | .isDirectory => "Is a directory (os error 21)"

end DiskError

/-- The files and directories below the top directory. -/
structure Disk where
  /-- The paths that exist, each with what is there. -/
  entries : List (FilePath × DiskEntry)

namespace Disk

def empty : Disk := ⟨[]⟩

instance : Inhabited Disk := ⟨empty⟩

def entryAt (d : Disk) (p : FilePath) : Option DiskEntry :=
  if p.isEmpty then some .directory else d.entries.lookup p

def isDirectory (d : Disk) (p : FilePath) : Bool := d.entryAt p = some .directory

def put (d : Disk) (p : FilePath) (e : DiskEntry) : Disk :=
  ⟨(p, e) :: d.entries.filter (·.1 ≠ p)⟩

/-- Drops everything at and below a path. -/
def prune (d : Disk) (p : FilePath) : Disk := ⟨d.entries.filter fun e => !p.isPrefixOf e.1⟩

/-- Whether a plain file stands on the way from a directory to a path below it. -/
def blocked (d : Disk) (above : FilePath) : FilePath → Bool
  | [] => false
  | [_] => false
  | name :: rest =>
    d.entryAt (above ++ [name]) = some .file || d.blocked (above ++ [name]) rest

/-- Removes a directory and everything in it. -/
def removeTree (d : Disk) (p : FilePath) : Except DiskError Disk :=
  if d.blocked [] p then .error .notDirectory
  else
    match d.entryAt p with
    | none => .error .notFound
    | some .file => .error .notDirectory
    | some .directory => .ok (d.prune p)

/-- Makes the directories from one that exists down to a path below it. -/
def createBelow (above : FilePath) : FilePath → Disk → Except DiskError Disk
  | [], d => .ok d
  | name :: rest, d =>
    let p := above ++ [name]
    match d.entryAt p with
    | some .file => .error (if rest.isEmpty then .alreadyExists else .notDirectory)
    | some .directory => createBelow p rest d
    | none => createBelow p rest (d.put p .directory)

/-- Makes a directory and all its missing parents. -/
def createDirectories (d : Disk) (p : FilePath) : Except DiskError Disk := createBelow [] p d

/-- Writes a file and makes the directories around it. -/
def writeFile (d : Disk) (p : FilePath) : Except DiskError Disk := do
  let d ← d.createDirectories p.dropLast
  if d.isDirectory p then throw .isDirectory
  return d.put p .file

/-! ## What an operation changes -/

theorem lookup_filter_keep (l : List (FilePath × DiskEntry)) (keep : FilePath → Bool)
    (q : FilePath) :
    (l.filter fun e => keep e.1).lookup q = if keep q then l.lookup q else none := by
  induction l with
  | nil => simp
  | cons e l ih =>
    obtain ⟨k, v⟩ := e
    by_cases hq : q = k
    · subst hq
      by_cases hk : keep q <;> simp [hk, ih]
    · have hq : (q == k) = false := by simpa using hq
      by_cases hk : keep k <;> simp [hk, List.lookup_cons, hq, ih]

/-- An entry put at a path is there, and nothing else changes. -/
theorem entryAt_put (d : Disk) (p : FilePath) (e : DiskEntry) (q : FilePath) (hq : q ≠ []) :
    (d.put p e).entryAt q = if q = p then some e else d.entryAt q := by
  have := lookup_filter_keep d.entries (· ≠ p) q
  by_cases h : q = p
  · subst h
    simp [entryAt, put, hq]
  · have h' : (q == p) = false := by simpa using h
    simpa [entryAt, put, List.lookup_cons, h', h, hq] using this

/-- Nothing at or below a pruned path is left, and nothing else changes. -/
theorem entryAt_prune (d : Disk) (p : FilePath) (q : FilePath) (hq : q ≠ []) :
    (d.prune p).entryAt q = if p.isPrefixOf q then none else d.entryAt q := by
  have := lookup_filter_keep d.entries (fun r => !p.isPrefixOf r) q
  simp only [entryAt, prune, List.isEmpty_iff, hq, if_false, this]
  cases p.isPrefixOf q <;> simp

end Disk

end GeneticRepair
