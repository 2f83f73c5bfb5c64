import Mille.Lib.Encoding

/-! The unified hunks of a diff, and the patch they are. -/

namespace Mille.Git.Hunks

def contextLines : Nat := 3

def maxLineChars : Nat := 1024

inductive DiffLineKind where
  | ctx
  | add
  | del
deriving DecidableEq

/-- One line of a hunk as it is shown. -/
structure DiffLine where
  kind : DiffLineKind
  text : String
  truncated : Bool
deriving DecidableEq

/-- A unified hunk; the type of its lines is a parameter. -/
structure DiffHunk (L : Type) where
  oldStart : Nat
  oldLines : Nat
  newStart : Nat
  newLines : Nat
  lines : List L
deriving DecidableEq

structure Range where
  start : Nat
  stop : Nat
deriving DecidableEq

/-- A change of the diff: what is deleted and what is added in its place. -/
structure Change where
  before : Range
  after : Range
deriving DecidableEq

/-- A line without its newline, cut if it is long. -/
def line (kind : DiffLineKind) (raw : List UInt8) : DiffLine :=
  let raw := if raw.getLast? = some (utf8.unit '\n') then raw.dropLast else raw
  let text := (fromUtf8Lossy raw).toList
  if maxLineChars < text.length then
    { kind := kind, text := String.ofList (text.take maxLineChars), truncated := true }
  else { kind := kind, text := String.ofList text, truncated := false }

/-- `u32` subtraction, checked. -/
def sub32 (left right : Nat) : Option Nat :=
  if right ≤ left then some (left - right) else none

/-- `u32` addition, checked. -/
def add32 (left right : Nat) : Option Nat :=
  if left + right < 2 ^ 32 then some (left + right) else none

/-- The first token of a hunk's side, as git numbers it: an empty range starts at the
line before it. -/
def hunkStart (begin count : Nat) : Option Nat :=
  if count = 0 then some begin else add32 begin 1

section Grouping

variable {α L : Type} (shown : DiffLineKind → α → L) (before after : List α)

/-- The lines of a range; an index out of bounds is a failure. -/
def rangeLines (kind : DiffLineKind) (tokens : List α) (range : Range) : Option (List L) :=
  (List.range' range.start (range.stop - range.start)).mapM fun k => (tokens[k]?).map (shown kind)

/-- The changes behind one that are close enough for the contexts to touch, and the rest. -/
def closeChanges (last : Change) : List Change → Option (List Change × List Change)
  | [] => some ([], [])
  | next :: rest => do
    let gap ← sub32 next.before.start last.before.stop
    if gap ≤ 2 * contextLines then
      let (more, others) ← closeChanges next rest
      return (next :: more, others)
    else return ([], next :: rest)

/-- The lines of one change, behind the context that leads up to it. -/
def changeLines (state : List L × Nat) (change : Change) : Option (List L × Nat) := do
  let context ← rangeLines shown .ctx before ⟨state.2, change.before.start⟩
  let deleted ← rangeLines shown .del before change.before
  let added ← rangeLines shown .add after change.after
  return (state.1 ++ context ++ deleted ++ added, change.before.stop)

/-- The hunk of a group of changes. -/
def groupHunk (first : Change) (more : List Change) : Option (DiffHunk L) := do
  let last := (first :: more).getLast (List.cons_ne_nil first more)
  let lead := min contextLines first.before.start
  let room ← sub32 (before.length % 2 ^ 32) last.before.stop
  let trail := min contextLines room
  let oldBegin ← sub32 first.before.start lead
  let newBegin ← sub32 first.after.start lead
  let (lines, cursor) ← (first :: more).foldlM (changeLines shown before after) ([], oldBegin)
  let oldEnd ← add32 last.before.stop trail
  let context ← rangeLines shown .ctx before ⟨cursor, oldEnd⟩
  let oldLines ← sub32 oldEnd oldBegin
  let newEnd ← add32 last.after.stop trail
  let newLines ← sub32 newEnd newBegin
  let oldStart ← hunkStart oldBegin oldLines
  let newStart ← hunkStart newBegin newLines
  return {
    oldStart := oldStart
    oldLines := oldLines
    newStart := newStart
    newLines := newLines
    lines := lines ++ context }

/-- The hunks of the changes left, one turn of the loop for each unit of fuel. -/
def hunksFrom : Nat → List Change → Option (List (DiffHunk L))
  | _, [] => some []
  | 0, _ :: _ => none
  | fuel + 1, first :: rest => do
    let (more, others) ← closeChanges first rest
    let hunk ← groupHunk shown before after first more
    let hunks ← hunksFrom fuel others
    return hunk :: hunks

end Grouping

/-- The hunks of a diff; `text` is what the interner holds for a token. -/
def unifiedHunks {α : Type} (text : α → List UInt8) (before after : List α) (changes : List Change) :
    Option (List (DiffHunk DiffLine)) :=
  hunksFrom (fun kind token => line kind (text token)) before after changes.length changes

section Patch

variable {α : Type}

/-- The tokens from one position up to another. -/
def slice (tokens : List α) (start stop : Nat) : List α :=
  (tokens.take stop).drop start

/-- Changes from given positions to the ends, the runs between them equal on both sides. -/
inductive Script (before after : List α) : Nat → Nat → List Change → Prop where
  | done {old new : Nat} (oldBound : old ≤ before.length) (newBound : new ≤ after.length)
      (equal : before.drop old = after.drop new) : Script before after old new []
  | change {old new : Nat} {change : Change} {rest : List Change} (oldSorted : old ≤ change.before.start)
      (oldRange : change.before.start ≤ change.before.stop) (newSorted : new ≤ change.after.start)
      (newRange : change.after.start ≤ change.after.stop)
      (equal : slice before old change.before.start = slice after new change.after.start)
      (oldBound : change.before.stop ≤ before.length) (newBound : change.after.stop ≤ after.length)
      (behind : Script before after change.before.stop change.after.stop rest) :
      Script before after old new (change :: rest)

/-- What a diff of two token lists answers; its positions are `u32`. -/
structure EditScript (before after : List α) (changes : List Change) : Prop where
  oldFits : before.length < 2 ^ 32
  newFits : after.length < 2 ^ 32
  script : Script before after 0 0 changes

abbrev TokenHunk (α : Type) := DiffHunk (DiffLineKind × α)

def DiffHunk.map {L M : Type} (render : L → M) (hunk : DiffHunk L) : DiffHunk M where
  oldStart := hunk.oldStart
  oldLines := hunk.oldLines
  newStart := hunk.newStart
  newLines := hunk.newLines
  lines := hunk.lines.map render

/-- How many lines stand before the hunk, by git's convention. -/
def startOf (start count : Nat) : Nat :=
  if count = 0 then start else start - 1

namespace DiffHunk

def oldBegin {L : Type} (hunk : DiffHunk L) : Nat := startOf hunk.oldStart hunk.oldLines

def newBegin {L : Type} (hunk : DiffHunk L) : Nat := startOf hunk.newStart hunk.newLines

def oldEnd {L : Type} (hunk : DiffHunk L) : Nat := hunk.oldBegin + hunk.oldLines

def newEnd {L : Type} (hunk : DiffHunk L) : Nat := hunk.newBegin + hunk.newLines

end DiffHunk

/-- The tokens of the lines that are not of the given kind. -/
def without (kind : DiffLineKind) (lines : List (DiffLineKind × α)) : List α :=
  (lines.filter (·.1 ≠ kind)).map Prod.snd

/-- The patch applied: the old tokens outside the hunks, context and additions inside. -/
def replay (before : List α) : Nat → List (TokenHunk α) → List α
  | old, [] => before.drop old
  | old, hunk :: rest =>
    slice before old hunk.oldBegin ++ without .del hunk.lines ++ replay before hunk.oldEnd rest

def tagged (kind : DiffLineKind) (tokens : List α) : List (DiffLineKind × α) :=
  tokens.map (kind, ·)

/-- The lines of changes from a position on, with the runs between them. -/
def body (before after : List α) : Nat → List Change → List (DiffLineKind × α)
  | _, [] => []
  | old, change :: rest =>
    tagged .ctx (slice before old change.before.start) ++
      tagged .del (slice before change.before.start change.before.stop) ++
      tagged .add (slice after change.after.start change.after.stop) ++
      body before after change.before.stop rest

/-- What a hunk is to the group of changes it carries. -/
structure HunkOf (before after : List α) (group : List Change) (hunk : TokenHunk α) : Prop where
  oldLines : hunk.oldLines = hunk.lines.countP (·.1 = .ctx) + hunk.lines.countP (·.1 = .del)
  newLines : hunk.newLines = hunk.lines.countP (·.1 = .ctx) + hunk.lines.countP (·.1 = .add)
  oldStart : hunk.oldStart = if hunk.oldLines = 0 then hunk.oldBegin else hunk.oldBegin + 1
  newStart : hunk.newStart = if hunk.newLines = 0 then hunk.newBegin else hunk.newBegin + 1
  old : without .add hunk.lines = slice before hunk.oldBegin hunk.oldEnd
  new : without .del hunk.lines = slice after hunk.newBegin hunk.newEnd
  context : ∃ first more lead trail, group = first :: more ∧ lead.length ≤ contextLines ∧
    trail.length ≤ contextLines ∧ hunk.lines =
      tagged .ctx lead ++ body before after first.before.start group ++ tagged .ctx trail

/-- Hunks from given positions to the ends, equal runs between them. -/
inductive Patch (before after : List α) : Nat → Nat → List (TokenHunk α) → Prop where
  | done {old new : Nat} (equal : before.drop old = after.drop new) : Patch before after old new []
  | hunk {old new : Nat} {hunk : TokenHunk α} {rest : List (TokenHunk α)} (oldSorted : old ≤ hunk.oldBegin)
      (newSorted : new ≤ hunk.newBegin)
      (equal : slice before old hunk.oldBegin = slice after new hunk.newBegin)
      (added : without .del hunk.lines = slice after hunk.newBegin hunk.newEnd)
      (behind : Patch before after hunk.oldEnd hunk.newEnd rest) : Patch before after old new (hunk :: rest)

/-- The hunks are sorted and apart on both sides, with equal runs before, between and
behind them, carry the changes in groups, and lead from one list to the other. -/
structure ExactPatch (before after : List α) (changes : List Change) (hunks : List (TokenHunk α)) : Prop where
  sorted : hunks.Pairwise fun hunk later => hunk.oldEnd ≤ later.oldBegin ∧ hunk.newEnd ≤ later.newBegin
  groups : ∃ groups : List (List Change), groups.flatten = changes ∧
    List.Forall₂ (HunkOf before after) groups hunks
  placed : Patch before after 0 0 hunks
  replayed : replay before 0 hunks = after

end Patch

section Slices

variable {α : Type} {tokens : List α}

theorem length_slice (tokens : List α) (start stop : Nat) :
    (slice tokens start stop).length = min stop tokens.length - start := by
  rw [slice, List.length_drop, List.length_take]

@[simp] theorem slice_self (tokens : List α) (position : Nat) : slice tokens position position = [] := by
  rw [slice, List.drop_take, Nat.sub_self, List.take_zero]

theorem slice_add (tokens : List α) (start count : Nat) :
    slice tokens start (start + count) = (tokens.drop start).take count := by
  rw [slice, List.drop_take, Nat.add_sub_cancel_left]

theorem slice_append_drop (tokens : List α) {start stop : Nat} (order : start ≤ stop) :
    slice tokens start stop ++ tokens.drop stop = tokens.drop start := by
  obtain ⟨count, rfl⟩ := Nat.exists_eq_add_of_le order
  rw [slice_add, ← List.drop_drop, List.take_append_drop]

theorem slice_append (tokens : List α) {start middle stop : Nat} (first : start ≤ middle)
    (second : middle ≤ stop) : slice tokens start middle ++ slice tokens middle stop =
      slice tokens start stop := by
  obtain ⟨count, rfl⟩ := Nat.exists_eq_add_of_le first
  obtain ⟨more, rfl⟩ := Nat.exists_eq_add_of_le second
  rw [Nat.add_assoc, slice_add tokens start, slice_add tokens start (count + more), ← Nat.add_assoc, slice_add,
    List.take_add, List.drop_drop]

theorem rangeLines_eq {L : Type} (shown : DiffLineKind → α → L) (kind : DiffLineKind) (range : Range)
    (bound : range.stop ≤ tokens.length) :
    rangeLines shown kind tokens range =
      some ((slice tokens range.start range.stop).map (shown kind)) := by
  obtain ⟨start, stop⟩ := range
  rw [rangeLines]
  dsimp only at bound ⊢
  induction size : stop - start generalizing start with
  | zero =>
    have none : slice tokens start stop = [] := List.eq_nil_of_length_eq_zero (by rw [length_slice]; omega)
    rw [none]
    rfl
  | succ size ih =>
    have inside : start < (tokens.take stop).length := by
      rw [List.length_take]
      omega
    have here : start < tokens.length := by omega
    have cut : slice tokens start stop = tokens[start] :: slice tokens (start + 1) stop := by
      rw [slice, List.drop_eq_getElem_cons inside, List.getElem_take]
      rfl
    rw [List.range'_succ, List.mapM_cons, ih (start + 1) (by omega), cut, List.getElem?_eq_getElem here]
    rfl

end Slices

section Agreement

variable {α : Type} {before after : List α}

/-- So many tokens are the same from two positions on. -/
structure Agree (before after : List α) (old new count : Nat) : Prop where
  oldBound : old + count ≤ before.length
  newBound : new + count ≤ after.length
  equal : slice before old (old + count) = slice after new (new + count)

theorem Agree.take {old new count fewer : Nat} (agree : Agree before after old new count)
    (order : fewer ≤ count) : Agree before after old new fewer := by
  have equal := congrArg (List.take fewer) agree.equal
  rw [slice_add, slice_add, List.take_take, List.take_take, Nat.min_eq_left order] at equal
  exact ⟨by have := agree.oldBound; omega, by have := agree.newBound; omega, by rw [slice_add, slice_add, equal]⟩

theorem Agree.drop {old new count more : Nat} (agree : Agree before after old new (count + more)) :
    Agree before after (old + count) (new + count) more := by
  have equal := congrArg (List.drop count) agree.equal
  rw [slice_add, slice_add, List.drop_take, List.drop_take, List.drop_drop, List.drop_drop,
    Nat.add_sub_cancel_left] at equal
  have oldBound := agree.oldBound
  have newBound := agree.newBound
  exact ⟨by omega, by omega, by rw [slice_add, slice_add, equal]⟩

theorem Script.gap {old new : Nat} {changes : List Change} (script : Script before after old new changes) :
    ∃ gap, Agree before after old new gap ∧
      (changes = [] → before.length = old + gap ∧ after.length = new + gap) ∧
      ∀ first rest, changes = first :: rest →
        first.before.start = old + gap ∧ first.after.start = new + gap := by
  cases script with
  | done oldBound newBound equal =>
    have lengths := congrArg List.length equal
    rw [List.length_drop, List.length_drop] at lengths
    refine ⟨before.length - old, ⟨by omega, by omega, ?_⟩, ?_, ?_⟩
    · rw [slice_add, slice_add, equal]
    · exact fun _ => ⟨by omega, by omega⟩
    · exact fun first rest empty => by cases empty
  | @change _ _ change rest oldSorted oldRange newSorted newRange equal oldBound newBound behind =>
    have lengths := congrArg List.length equal
    rw [length_slice, length_slice] at lengths
    have oldGap : old + (change.before.start - old) = change.before.start := by omega
    have newGap : new + (change.before.start - old) = change.after.start := by omega
    refine ⟨change.before.start - old, ⟨by omega, by omega, ?_⟩, (fun empty => by cases empty), ?_⟩
    · rw [oldGap, newGap, equal]
    · rintro first others same
      cases same
      exact ⟨by omega, by omega⟩

theorem Script.advance {old new gap : Nat} {changes : List Change}
    (script : Script before after old new changes) (agree : Agree before after old new gap) {count : Nat}
    (order : count ≤ gap) (near : ∀ first rest, changes = first :: rest → first.before.start = old + gap) :
    Script before after (old + count) (new + count) changes := by
  obtain ⟨more, rfl⟩ := Nat.exists_eq_add_of_le order
  have later := agree.drop
  have oldEnd := later.oldBound
  have newEnd := later.newBound
  cases script with
  | done oldBound newBound equal =>
    have cut := congrArg (List.drop count) equal
    rw [List.drop_drop, List.drop_drop] at cut
    exact .done (by omega) (by omega) cut
  | @change _ _ change rest oldSorted oldRange newSorted newRange equal oldBound newBound behind =>
    have oldGap := near change rest rfl
    have lengths := congrArg List.length equal
    rw [length_slice, length_slice] at lengths
    have newGap : change.after.start = new + (count + more) := by omega
    have same := later.equal
    rw [Nat.add_assoc, Nat.add_assoc, ← oldGap, ← newGap] at same
    exact .change (by omega) oldRange (by omega) newRange same oldBound newBound behind

end Agreement

section Sides

variable {α : Type} {before after : List α}

@[simp] theorem without_append (kind : DiffLineKind) (lines more : List (DiffLineKind × α)) :
    without kind (lines ++ more) = without kind lines ++ without kind more := by
  simp [without]

@[simp] theorem without_cons (kind other : DiffLineKind) (token : α) (rest : List (DiffLineKind × α)) :
    without kind ((other, token) :: rest) =
      if other = kind then without kind rest else token :: without kind rest := by
  split_ifs with same <;> simp [without, same]

@[simp] theorem without_tagged (kind other : DiffLineKind) (tokens : List α) :
    without kind (tagged other tokens) = if other = kind then [] else tokens := by
  induction tokens with
  | nil => simp [without, tagged]
  | cons token rest ih =>
    rw [tagged, List.map_cons, without_cons]
    rw [tagged] at ih
    rw [ih]
    split_ifs <;> rfl

theorem length_without (lines : List (DiffLineKind × α)) :
    (without .add lines).length = lines.countP (·.1 = .ctx) + lines.countP (·.1 = .del) ∧
      (without .del lines).length = lines.countP (·.1 = .ctx) + lines.countP (·.1 = .add) := by
  induction lines with
  | nil => exact ⟨rfl, rfl⟩
  | cons head rest ih =>
    obtain ⟨kind, token⟩ := head
    obtain ⟨old, new⟩ := ih
    cases kind <;> simp [old, new] <;> omega

/-- Where changes lead to from two positions. -/
def reach : Nat × Nat → List Change → Nat × Nat
  | position, [] => position
  | _, change :: rest => reach (change.before.stop, change.after.stop) rest

theorem reach_last (position : Nat × Nat) (first : Change) (more : List Change) :
    reach position (first :: more) =
      (((first :: more).getLast (List.cons_ne_nil first more)).before.stop,
        ((first :: more).getLast (List.cons_ne_nil first more)).after.stop) := by
  induction more generalizing first position with
  | nil => rfl
  | cons next rest ih =>
    rw [reach, ih, List.getLast_cons (List.cons_ne_nil next rest)]

theorem Script.behind_of_append {old new : Nat} {group others : List Change}
    (script : Script before after old new (group ++ others)) :
    Script before after (reach (old, new) group).1 (reach (old, new) group).2 others := by
  induction group generalizing old new with
  | nil => exact script
  | cons change rest ih =>
    cases script with
    | change _ _ _ _ _ _ _ behind => exact ih behind

theorem body_sides {old new : Nat} {group others : List Change}
    (script : Script before after old new (group ++ others)) :
    old ≤ (reach (old, new) group).1 ∧ new ≤ (reach (old, new) group).2 ∧
      without .add (body before after old group) = slice before old (reach (old, new) group).1 ∧
      without .del (body before after old group) = slice after new (reach (old, new) group).2 := by
  induction group generalizing old new with
  | nil => simp [reach, body, without]
  | cons change rest ih =>
    cases script with
    | change oldSorted oldRange newSorted newRange equal oldBound newBound behind =>
      obtain ⟨oldOrder, newOrder, oldSide, newSide⟩ := ih behind
      refine ⟨by rw [reach]; omega, by rw [reach]; omega, ?_, ?_⟩
      · have cut := slice_append before (Nat.le_trans oldSorted oldRange) oldOrder
        rw [← slice_append before oldSorted oldRange] at cut
        simpa [body, reach, oldSide] using cut
      · have cut := slice_append after (Nat.le_trans newSorted newRange) newOrder
        rw [← slice_append after newSorted newRange, ← equal] at cut
        simpa [body, reach, newSide] using cut

theorem foldlM_changeLines {L : Type} (shown : DiffLineKind → α → L) {old new : Nat}
    {group others : List Change} (script : Script before after old new (group ++ others)) (cursor : Nat)
    (lines : List L) :
    group.foldlM (changeLines shown before after) (lines, cursor) =
      some (lines ++ (body before after cursor group).map (fun shownLine => shown shownLine.1 shownLine.2),
        (reach (cursor, new) group).1) := by
  induction group generalizing old new cursor lines with
  | nil => simp [reach, body]
  | cons change rest ih =>
    cases script with
    | change oldSorted oldRange newSorted newRange equal oldBound newBound behind =>
      have context := rangeLines_eq shown .ctx ⟨cursor, change.before.start⟩
        (Nat.le_trans oldRange oldBound)
      have deleted := rangeLines_eq shown .del change.before oldBound
      have added := rangeLines_eq shown .add change.after newBound
      rw [List.foldlM_cons, changeLines, context, deleted, added]
      simp only [Option.bind_eq_bind, Option.bind_some, Option.pure_def]
      rw [ih behind]
      simp [body, reach, tagged, Function.comp_def]

theorem body_cons (before after : List α) (cursor : Nat) (first : Change) (more : List Change) :
    body before after cursor (first :: more) =
      tagged .ctx (slice before cursor first.before.start) ++
        body before after first.before.start (first :: more) := by
  simp [body, tagged]

end Sides

section Groups

variable {α L : Type} {before after : List α}

theorem closeChanges_eq {last : Change} {changes : List Change}
    (script : Script before after last.before.stop last.after.stop changes) :
    ∃ more others, closeChanges last changes = some (more, others) ∧ changes = more ++ others ∧
      ∀ next rest, others = next :: rest →
        (reach (last.before.stop, last.after.stop) more).1 + 2 * contextLines < next.before.start := by
  induction changes generalizing last with
  | nil => exact ⟨[], [], rfl, rfl, fun next rest empty => by cases empty⟩
  | cons next rest ih =>
    cases script with
    | change oldSorted _ _ _ _ _ _ behind =>
      have gap : sub32 next.before.start last.before.stop =
          some (next.before.start - last.before.stop) := if_pos oldSorted
      by_cases near : next.before.start - last.before.stop ≤ 2 * contextLines
      · obtain ⟨more, others, found, rfl, far⟩ := ih behind
        refine ⟨next :: more, others, ?_, rfl, far⟩
        simp [closeChanges, gap, near, found]
      · refine ⟨[], next :: rest, ?_, rfl, ?_⟩
        · simp [closeChanges, gap, near]
        · rintro first others same
          cases same
          rw [reach]
          omega

/-- A hunk by where it begins and ends on both sides. -/
def placedHunk (old new : Range) (lines : List L) : DiffHunk L where
  oldStart := if old.stop - old.start = 0 then old.start else old.start + 1
  oldLines := old.stop - old.start
  newStart := if new.stop - new.start = 0 then new.start else new.start + 1
  newLines := new.stop - new.start
  lines := lines

theorem startOf_gitStart (begin count : Nat) :
    startOf (if count = 0 then begin else begin + 1) count = begin := by
  unfold startOf
  split_ifs <;> rfl

theorem placedHunk_begin (old new : Range) (lines : List L) :
    (placedHunk old new lines).oldBegin = old.start ∧ (placedHunk old new lines).newBegin = new.start :=
  ⟨startOf_gitStart _ _, startOf_gitStart _ _⟩

theorem placedHunk_end {old new : Range} (oldOrder : old.start ≤ old.stop) (newOrder : new.start ≤ new.stop)
    (lines : List L) :
    (placedHunk old new lines).oldEnd = old.stop ∧ (placedHunk old new lines).newEnd = new.stop := by
  obtain ⟨oldBegin, newBegin⟩ := placedHunk_begin old new lines
  rw [DiffHunk.oldEnd, DiffHunk.newEnd, oldBegin, newBegin]
  exact ⟨Nat.add_sub_cancel' oldOrder, Nat.add_sub_cancel' newOrder⟩

theorem hunkStart_eq {begin stop length : Nat} (bound : stop ≤ length) (fits : length < 2 ^ 32) :
    hunkStart begin (stop - begin) = some (if stop - begin = 0 then begin else begin + 1) := by
  unfold hunkStart
  split_ifs
  · rfl
  · exact if_pos (by omega)

/-- The hunk of a group that begins at a position and trails off behind another. -/
def tokenHunk (before after : List α) (old new trail : Nat) (stop : Nat × Nat) (group : List Change) :
    TokenHunk α :=
  placedHunk ⟨old, stop.1 + trail⟩ ⟨new, stop.2 + trail⟩
    (body before after old group ++ tagged .ctx (slice before stop.1 (stop.1 + trail)))

variable {old new trail : Nat} {stop : Nat × Nat} {first : Change} {more others : List Change}

theorem tokenHunk_places (oldOrder : old ≤ stop.1) (newOrder : new ≤ stop.2) (group : List Change) :
    (tokenHunk before after old new trail stop group).oldBegin = old ∧
      (tokenHunk before after old new trail stop group).newBegin = new ∧
      (tokenHunk before after old new trail stop group).oldEnd = stop.1 + trail ∧
      (tokenHunk before after old new trail stop group).newEnd = stop.2 + trail := by
  have begins := placedHunk_begin ⟨old, stop.1 + trail⟩ ⟨new, stop.2 + trail⟩
    (body before after old group ++ tagged .ctx (slice before stop.1 (stop.1 + trail)))
  have ends := @placedHunk_end _ ⟨old, stop.1 + trail⟩ ⟨new, stop.2 + trail⟩
    (Nat.le_trans oldOrder (Nat.le_add_right _ _)) (Nat.le_trans newOrder (Nat.le_add_right _ _))
    (body before after old group ++ tagged .ctx (slice before stop.1 (stop.1 + trail)))
  exact ⟨begins.1, begins.2, ends.1, ends.2⟩

theorem groupHunk_eq (shown : DiffLineKind → α → L) (oldFits : before.length < 2 ^ 32)
    (newFits : after.length < 2 ^ 32)
    (script : Script before after old new ((first :: more) ++ others))
    (oldLead : first.before.start = old + min contextLines first.before.start)
    (newLead : first.after.start = new + min contextLines first.before.start)
    (stopped : stop = reach (old, new) (first :: more))
    (room : trail = min contextLines (before.length - stop.1)) (agree : Agree before after stop.1 stop.2 trail) :
    groupHunk shown before after first more =
      some ((tokenHunk before after old new trail stop (first :: more)).map
        fun shownLine => shown shownLine.1 shownLine.2) := by
  have oldBound := agree.oldBound
  have newBound := agree.newBound
  obtain ⟨oldOrder, newOrder, -, -⟩ := body_sides script
  rw [← stopped] at oldOrder newOrder
  have ends := stopped.trans (reach_last (old, new) first more)
  have oldStop : ((first :: more).getLast (List.cons_ne_nil first more)).before.stop = stop.1 :=
    (congrArg Prod.fst ends).symm
  have newStop : ((first :: more).getLast (List.cons_ne_nil first more)).after.stop = stop.2 :=
    (congrArg Prod.snd ends).symm
  have lines := foldlM_changeLines shown script old []
  have reached : (reach (old, new) (first :: more)).1 = stop.1 := by rw [stopped]
  have context := rangeLines_eq shown .ctx ⟨stop.1, stop.1 + trail⟩ oldBound
  have length : before.length % 2 ^ 32 = before.length := Nat.mod_eq_of_lt oldFits
  have oldBegin : sub32 first.before.start (min contextLines first.before.start) = some old := by
    rw [sub32, if_pos (by omega)]
    exact congrArg some (by omega)
  have newBegin : sub32 first.after.start (min contextLines first.before.start) = some new := by
    rw [sub32, if_pos (by omega)]
    exact congrArg some (by omega)
  have oldSize : sub32 (stop.1 + trail) old = some (stop.1 + trail - old) := if_pos (by omega)
  have newSize : sub32 (stop.2 + trail) new = some (stop.2 + trail - new) := if_pos (by omega)
  have space : sub32 before.length stop.1 = some (before.length - stop.1) := if_pos (by omega)
  have oldEnd : add32 stop.1 trail = some (stop.1 + trail) := if_pos (by omega)
  have newEnd : add32 stop.2 trail = some (stop.2 + trail) := if_pos (by omega)
  have oldStart := @hunkStart_eq old _ _ oldBound oldFits
  have newStart := @hunkStart_eq new _ _ newBound newFits
  simp only [groupHunk, oldStop, newStop, length, space, oldBegin, newBegin,
    lines, reached, ← room, oldEnd, newEnd, context, oldSize, newSize, oldStart, newStart,
    Option.bind_eq_bind, Option.bind_some, Option.pure_def]
  simp [tokenHunk, placedHunk, DiffHunk.map, tagged, Function.comp_def]

theorem hunkOf_tokenHunk (script : Script before after old new ((first :: more) ++ others))
    (oldLead : first.before.start = old + min contextLines first.before.start)
    (stopped : stop = reach (old, new) (first :: more)) (bound : trail ≤ contextLines)
    (agree : Agree before after stop.1 stop.2 trail) :
    HunkOf before after (first :: more) (tokenHunk before after old new trail stop (first :: more)) := by
  obtain ⟨oldOrder, newOrder, oldSide, newSide⟩ := body_sides script
  rw [← stopped] at oldOrder newOrder oldSide newSide
  obtain ⟨oldBegin, newBegin, oldEnd, newEnd⟩ :=
    @tokenHunk_places _ before after old new trail stop oldOrder newOrder (first :: more)
  have oldLines : without .add (tokenHunk before after old new trail stop (first :: more)).lines =
      slice before old (stop.1 + trail) := by
    have cut := slice_append before oldOrder (Nat.le_add_right stop.1 trail)
    simpa [tokenHunk, placedHunk, oldSide] using cut
  have newLines : without .del (tokenHunk before after old new trail stop (first :: more)).lines =
      slice after new (stop.2 + trail) := by
    have cut := slice_append after newOrder (Nat.le_add_right stop.2 trail)
    simpa [tokenHunk, placedHunk, newSide, agree.equal] using cut
  have counts := length_without (tokenHunk before after old new trail stop (first :: more)).lines
  rw [oldLines, newLines, length_slice, length_slice, Nat.min_eq_left agree.oldBound,
    Nat.min_eq_left agree.newBound] at counts
  have leading : (slice before old first.before.start).length ≤ contextLines := by
    rw [length_slice]
    omega
  have trailing : (slice before stop.1 (stop.1 + trail)).length ≤ contextLines := by
    rw [length_slice]
    omega
  exact
    { oldLines := counts.1
      newLines := counts.2
      oldStart := by rw [oldBegin]; rfl
      newStart := by rw [newBegin]; rfl
      old := by rw [oldLines, oldBegin, oldEnd]
      new := by rw [newLines, newBegin, newEnd]
      context := ⟨first, more, _, _, rfl, leading, trailing, by rw [← body_cons]; rfl⟩ }

theorem Script.patch_done {taken : Nat} (script : Script before after old new []) :
    Patch before after (old + taken) (new + taken) [] := by
  cases script with
  | done _ _ equal =>
    have cut := congrArg (List.drop taken) equal
    rw [List.drop_drop, List.drop_drop] at cut
    exact .done cut

theorem Script.behind {rest : List Change} (script : Script before after old new (first :: rest)) :
    Script before after first.before.stop first.after.stop rest := by
  cases script with
  | change _ _ _ _ _ _ _ behind => exact behind

/-- The hunks of the changes behind two positions, of which so many tokens are taken
already as context. -/
theorem hunksFrom_eq (shown : DiffLineKind → α → L) (oldFits : before.length < 2 ^ 32)
    (newFits : after.length < 2 ^ 32) (fuel : Nat) {changes : List Change} (enough : changes.length ≤ fuel)
    {taken : Nat} (script : Script before after old new changes) (agree : Agree before after old new taken)
    (far : ∀ first rest, changes = first :: rest →
      old + taken + min contextLines first.before.start ≤ first.before.start) :
    ∃ groups hunks, groups.flatten = changes ∧
      hunksFrom shown before after fuel changes =
        some (hunks.map (·.map fun shownLine => shown shownLine.1 shownLine.2)) ∧
      List.Forall₂ (HunkOf before after) groups hunks ∧
      Patch before after (old + taken) (new + taken) hunks := by
  induction fuel generalizing changes old new taken with
  | zero =>
    cases changes with
    | nil => exact ⟨[], [], rfl, rfl, .nil, script.patch_done⟩
    | cons first rest => cases enough
  | succ fuel ih =>
    cases changes with
    | nil => exact ⟨[], [], rfl, rfl, .nil, script.patch_done⟩
    | cons first rest =>
      obtain ⟨gap, run, -, near⟩ := script.gap
      obtain ⟨oldGap, newGap⟩ := near first rest rfl
      have apart := far first rest rfl
      obtain ⟨more, others, found, rfl, farther⟩ := closeChanges_eq script.behind
      -- The hunk begins so many tokens behind the last change that its lead fits.
      obtain ⟨between, count⟩ : ∃ between, gap = taken + between + min contextLines first.before.start :=
        ⟨gap - taken - min contextLines first.before.start, by omega⟩
      have inside : taken + between ≤ gap := by omega
      have begun : Script before after (old + (taken + between)) (new + (taken + between))
          ((first :: more) ++ others) :=
        script.advance run inside fun next rest same => (near next rest same).1
      obtain ⟨stop, stopped⟩ : ∃ stop,
          stop = reach (old + (taken + between), new + (taken + between)) (first :: more) := ⟨_, rfl⟩
      have left : Script before after stop.1 stop.2 others := by
        rw [stopped]
        exact begun.behind_of_append
      obtain ⟨gap', run', ended, near'⟩ := left.gap
      -- The trail fits into the run before the next change, or before the end.
      have room : min contextLines (before.length - stop.1) ≤ gap' := by
        cases others with
        | nil =>
          have := (ended rfl).1
          omega
        | cons next others =>
          have distance := farther next others rfl
          have position := (near' next others rfl).1
          have same : (reach (first.before.stop, first.after.stop) more).1 = stop.1 := by rw [stopped, reach]
          omega
      have trailing := run'.take room
      have hunk := groupHunk_eq shown oldFits newFits begun (by omega) (by omega) stopped rfl trailing
      have carried := hunkOf_tokenHunk begun (by omega) stopped (Nat.min_le_left _ _) trailing
      obtain ⟨groups, hunks, flat, rest, carries, patch⟩ := ih
        (by simp only [List.length_cons, List.length_append] at enough; omega) left trailing (by
          intro next others' same
          have distance := farther next others' same
          have position := (near' next others' same).1
          have reached : (reach (first.before.stop, first.after.stop) more).1 = stop.1 := by
            rw [stopped, reach]
          omega)
      obtain ⟨oldOrder, newOrder, -, -⟩ := body_sides begun
      rw [← stopped] at oldOrder newOrder
      obtain ⟨oldBegin, newBegin, oldEnd, newEnd⟩ := @tokenHunk_places _ before after _ _
        (min contextLines (before.length - stop.1)) stop oldOrder newOrder (first :: more)
      refine ⟨(first :: more) :: groups, _ :: hunks, ?_, ?_, .cons carried carries, ?_⟩
      · rw [List.flatten_cons, flat]
        rfl
      · simp [hunksFrom, found, hunk, rest]
      · have led := (run.take inside).drop
        apply Patch.hunk
        · rw [oldBegin]
          omega
        · rw [newBegin]
          omega
        · rw [oldBegin, newBegin, ← Nat.add_assoc, ← Nat.add_assoc]
          exact led.equal
        · rw [carried.new]
        · rw [oldEnd, newEnd]
          exact patch

end Groups

section Patched

variable {α : Type} {before after : List α}

theorem Patch.bounds {old new : Nat} {hunks : List (TokenHunk α)} (patch : Patch before after old new hunks) :
    ∀ hunk ∈ hunks, old ≤ hunk.oldBegin ∧ new ≤ hunk.newBegin := by
  induction patch with
  | done equal => exact fun hunk member => absurd member List.not_mem_nil
  | @hunk old new first rest oldSorted newSorted equal added behind ih =>
    intro later member
    rcases List.mem_cons.mp member with rfl | member
    · exact ⟨oldSorted, newSorted⟩
    · obtain ⟨oldLater, newLater⟩ := ih later member
      have oldOrder : first.oldBegin ≤ first.oldEnd := Nat.le_add_right _ _
      have newOrder : first.newBegin ≤ first.newEnd := Nat.le_add_right _ _
      exact ⟨by omega, by omega⟩

theorem Patch.sorted {old new : Nat} {hunks : List (TokenHunk α)} (patch : Patch before after old new hunks) :
    hunks.Pairwise fun hunk later => hunk.oldEnd ≤ later.oldBegin ∧ hunk.newEnd ≤ later.newBegin := by
  induction patch with
  | done equal => exact .nil
  | hunk oldSorted newSorted equal added behind ih => exact .cons behind.bounds ih

theorem Patch.replay {old new : Nat} {hunks : List (TokenHunk α)} (patch : Patch before after old new hunks) :
    replay before old hunks = after.drop new := by
  induction patch with
  | done equal => exact equal
  | @hunk old new first rest oldSorted newSorted equal added behind ih =>
    have newOrder : first.newBegin ≤ first.newEnd := Nat.le_add_right _ _
    rw [Hunks.replay, equal, added, ih, slice_append after newSorted newOrder,
      slice_append_drop after (Nat.le_trans newSorted newOrder)]

end Patched

theorem replaced_edits : EditScript [(1 : UInt8), 2, 3] [1, 4, 3] [⟨⟨1, 2⟩, ⟨1, 2⟩⟩] where
  oldFits := by decide
  newFits := by decide
  script := .change (by decide) (by decide) (by decide) (by decide) rfl (by decide) (by decide)
    (.done (by decide) (by decide) rfl)

end Mille.Git.Hunks
