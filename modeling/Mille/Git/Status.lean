import Mathlib

/-! Status rows: the letters of the two porcelain columns and one changed path. -/

namespace Mille.Git

instance transString : IsTrans String (· ≤ ·) := inferInstance

instance antisymmString : @Std.Antisymm String (· ≤ ·) := inferInstance

inductive StatusLetter where
  | modified
  | added
  | deleted
  | unmerged
  | renamed
  | copied
  | untracked
  | ignored
deriving DecidableEq, Repr

/-- `T` becomes `M`; `.` and unknown glyphs are no letter. -/
def StatusLetter.fromPorcelain (byte : UInt8) : Option StatusLetter :=
  if byte = 'M'.toUInt8 ∨ byte = 'T'.toUInt8 then some .modified
  else if byte = 'A'.toUInt8 then some .added
  else if byte = 'D'.toUInt8 then some .deleted
  else if byte = 'R'.toUInt8 then some .renamed
  else if byte = 'C'.toUInt8 then some .copied
  else if byte = 'U'.toUInt8 then some .unmerged
  else none

/-- The index column and the worktree column; `none` is a dot. -/
structure StatusXy where
  index : Option StatusLetter
  worktree : Option StatusLetter
deriving DecidableEq, Repr

structure StatusEntry where
  /-- Worktree-relative path; for a rename, the new name. -/
  path : String
  /-- Rename or copy source. -/
  origPath : Option String
  xy : StatusXy
  staged : Bool
  untracked : Bool
  conflicted : Bool
deriving DecidableEq, Repr

namespace StatusEntry

/-- A tracked change. -/
def ofTracked (path : String) (origPath : Option String) (xy : StatusXy) : StatusEntry :=
  { path, origPath, xy, staged := xy.index.isSome, untracked := false, conflicted := false }

/-- An untracked file. -/
def ofUntracked (path : String) : StatusEntry :=
  { path, origPath := none, xy := ⟨none, some .untracked⟩, staged := false, untracked := true
    conflicted := false }

/-- An unmerged path. -/
def ofConflicted (path : String) (xy : StatusXy) : StatusEntry :=
  { path, origPath := none, xy, staged := false, untracked := false, conflicted := true }

/-- The one letter a file tree's badge shows. -/
def collapsedLetter (entry : StatusEntry) : StatusLetter :=
  if entry.conflicted then .unmerged
  else if entry.untracked then .untracked
  else (entry.xy.index.or entry.xy.worktree).getD .modified

end StatusEntry

/-- Above this many hinted paths a full status is cheaper. -/
def maxHintPaths : Nat := 512

end Mille.Git
