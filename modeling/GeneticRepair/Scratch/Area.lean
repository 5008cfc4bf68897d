import GeneticRepair.Scratch.Disk

/-!
# `Scratch/Area.lean` — scratch folders

Each test run works in a folder of its own below a common root, with a directory for compiled
classes and one for output. Preparing the folder clears what an earlier run left in it; discarding
it removes it with everything inside.
-/

set_option autoImplicit false

namespace GeneticRepair

/-- A failure of scratch storage: where, and why. -/
structure StorageFault where
  path : FilePath
  cause : DiskError
deriving DecidableEq

/-- The folder that holds all scratch folders. -/
structure ScratchArea where
  root : FilePath

/-- The scratch folder of one test run. -/
structure ScratchFolder where
  path : FilePath
deriving DecidableEq

namespace ScratchFolder

/-- Where compiled classes go. -/
def classes (s : ScratchFolder) : FilePath := s.path ++ ["classes"]

/-- Where output goes. -/
def output (s : ScratchFolder) : FilePath := s.path ++ ["output"]

/-- Removes the folder and everything in it. -/
def discard (s : ScratchFolder) (d : Disk) : Except StorageFault Disk :=
  (d.removeTree s.path).mapError (⟨s.path, ·⟩)

end ScratchFolder

namespace ScratchArea

/-- The name of the folder with a number. -/
def folderName (id : Nat) : String := s!"variant-{id}"

def folder (s : ScratchArea) (id : Nat) : ScratchFolder := ⟨s.root ++ [folderName id]⟩

/-- Makes the empty folder with a number; what was there is removed first. -/
def prepare (s : ScratchArea) (id : Nat) (d : Disk) :
    Except StorageFault (ScratchFolder × Disk) := do
  let dir := s.folder id
  let d ← if (d.entryAt dir.path).isSome then dir.discard d else pure d
  let d ← (d.createDirectories dir.classes).mapError (⟨dir.classes, ·⟩)
  let d ← (d.createDirectories dir.output).mapError (⟨dir.output, ·⟩)
  return (dir, d)

end ScratchArea

end GeneticRepair
