import Mille.Git.StatusMerge

/-! The pathspecs of a path-limited run, widened by the renames they touch. -/

namespace Mille.Git

/-- One known row, met in the order of the rows. -/
def widenEntry (widened : Finset String) (entry : StatusEntry) : Finset String :=
  match entry.origPath with
  | none => widened
  | some orig =>
    if entry.path ∈ widened ∨ orig ∈ widened then insert orig (insert entry.path widened) else widened

/-- `widen_with_renames`: `none` asks for a full run. -/
def StatusState.widenWithRenames {ι : Type} (state : StatusState ι) (hints : List String) :
    Option (List String) :=
  let widened := state.rows.foldl widenEntry hints.toFinset
  if widened.card ≤ maxHintPaths then some widened.sort else none

/-- Every known rename has both or neither of its names covered. -/
def KeepsRenames (rows : List StatusEntry) (paths : List String) : Prop :=
  ∀ row ∈ rows, ∀ orig, row.origPath = some orig → (covered paths row.path = true ↔ covered paths orig = true)

/-- The two names of a rename. -/
def StatusEntry.renameNames (entry : StatusEntry) : List String :=
  match entry.origPath with
  | none => []
  | some orig => [entry.path, orig]

/-- The renames that a hint leads to, from one to another that stands further down and
shares a name with it. -/
inductive Led (hints : List String) (rows : List StatusEntry) : Nat → Prop where
  | hinted (there : rows[index]? = some row) (names : name ∈ row.renameNames) (hint : name ∈ hints) :
      Led hints rows index
  | shared (led : Led hints rows earlier) (before : earlier < index) (first : rows[earlier]? = some source)
      (there : rows[index]? = some row) (left : name ∈ source.renameNames) (right : name ∈ row.renameNames) :
      Led hints rows index

/-- The hints and the names of the renames they lead to. -/
def Known (hints : List String) (rows : List StatusEntry) (name : String) : Prop :=
  name ∈ hints ∨ ∃ index row, Led hints rows index ∧ rows[index]? = some row ∧ name ∈ row.renameNames

section Walk

variable {hints : List String} {rows : List StatusEntry}

theorem mem_widenEntry {widened : Finset String} {entry : StatusEntry} {name : String} :
    name ∈ widenEntry widened entry ↔ name ∈ widened ∨
      name ∈ entry.renameNames ∧ ∃ touched ∈ entry.renameNames, touched ∈ widened := by
  unfold widenEntry StatusEntry.renameNames
  cases entry.origPath with
  | none => simp
  | some orig =>
    simp only [List.mem_cons, List.not_mem_nil, or_false, exists_eq_or_imp, exists_eq_left]
    split_ifs with touched
    · simp only [Finset.mem_insert, touched, and_true]
      tauto
    · simp [touched]

theorem led_append {more : List StatusEntry} {index : Nat} (inside : index < rows.length) :
    Led hints (rows ++ more) index ↔ Led hints rows index := by
  constructor
  · intro led
    induction led with
    | hinted there names hint =>
      rw [List.getElem?_append_left inside] at there
      exact .hinted there names hint
    | shared led before first there left right ih =>
      rw [List.getElem?_append_left (before.trans inside)] at first
      rw [List.getElem?_append_left inside] at there
      exact .shared (ih (before.trans inside)) before first there left right
  · intro led
    induction led with
    | hinted there names hint =>
      rw [← List.getElem?_append_left inside] at there
      exact .hinted there names hint
    | shared led before first there left right ih =>
      rw [← List.getElem?_append_left (before.trans inside)] at first
      rw [← List.getElem?_append_left inside] at there
      exact .shared (ih (before.trans inside)) before first there left right

theorem led_last {row : StatusEntry} :
    Led hints (rows ++ [row]) rows.length ↔ ∃ name ∈ row.renameNames, Known hints rows name := by
  have last : (rows ++ [row])[rows.length]? = some row := by simp
  constructor
  · intro led
    cases led with
    | hinted there names hint =>
      rw [last] at there
      cases there
      exact ⟨_, names, .inl hint⟩
    | shared led before first there left right =>
      rw [last] at there
      cases there
      rw [List.getElem?_append_left before] at first
      exact ⟨_, right, .inr ⟨_, _, (led_append before).mp led, first, left⟩⟩
  · rintro ⟨name, names, hint | ⟨index, source, led, there, left⟩⟩
    · exact .hinted last names hint
    · have before : index < rows.length := (List.getElem?_eq_some_iff.mp there).1
      refine .shared ((led_append before).mpr led) before ?_ last left names
      rw [List.getElem?_append_left before, there]

theorem known_append {row : StatusEntry} {name : String} :
    Known hints (rows ++ [row]) name ↔ Known hints rows name ∨
      name ∈ row.renameNames ∧ ∃ touched ∈ row.renameNames, Known hints rows touched := by
  rw [← led_last]
  constructor
  · rintro (hint | ⟨index, found, led, there, names⟩)
    · exact .inl (.inl hint)
    · have bound := (List.getElem?_eq_some_iff.mp there).1
      rw [List.length_append, List.length_singleton] at bound
      rcases Nat.lt_succ_iff_lt_or_eq.mp bound with before | rfl
      · rw [List.getElem?_append_left before] at there
        exact .inl (.inr ⟨index, found, (led_append before).mp led, there, names⟩)
      · rw [List.getElem?_append_right le_rfl, Nat.sub_self] at there
        cases there
        exact .inr ⟨names, led⟩
  · rintro ((hint | ⟨index, found, led, there, names⟩) | ⟨names, led⟩)
    · exact .inl hint
    · have before := (List.getElem?_eq_some_iff.mp there).1
      refine .inr ⟨index, found, (led_append before).mpr led, ?_, names⟩
      rw [List.getElem?_append_left before, there]
    · exact .inr ⟨rows.length, row, led, by simp, names⟩

theorem mem_widened {name : String} :
    name ∈ rows.foldl widenEntry hints.toFinset ↔ Known hints rows name := by
  induction rows using List.reverseRecOn generalizing name with
  | nil => simp [Known]
  | append_singleton rows row ih =>
    rw [List.foldl_append, List.foldl_cons, List.foldl_nil, mem_widenEntry, known_append]
    simp only [ih]

end Walk

theorem widenWithRenames_eq_some {ι : Type} {state : StatusState ι} {hints widened : List String} :
    state.widenWithRenames hints = some widened ↔
      (state.rows.foldl widenEntry hints.toFinset).card ≤ maxHintPaths ∧
        (state.rows.foldl widenEntry hints.toFinset).sort = widened := by
  simp [StatusState.widenWithRenames]

theorem covered_sort {names : Finset String} {path : String} :
    covered names.sort path = true ↔ ∃ name ∈ names, Within path name := by
  rw [covered_iff]
  simp only [Finset.mem_sort]

/-- The widened pathspecs keep every known rename whole exactly when no rename that the
hints do not lead to has one name covered and the other not. -/
theorem widenWithRenames_keeps_iff {ι : Type} (state : StatusState ι) (hints : List String) :
    (∀ widened, state.widenWithRenames hints = some widened → KeepsRenames state.rows widened) ↔
      ∀ names : Finset String, (∀ name, name ∈ names ↔ Known hints state.rows name) →
        names.card ≤ maxHintPaths →
          ∀ index row orig, state.rows[index]? = some row → row.origPath = some orig →
            ¬Led hints state.rows index →
              ((∃ name ∈ names, Within row.path name) ↔ ∃ name ∈ names, Within orig name) := by
  constructor
  · intro keeps names exactly small index row orig there origin unled
    have same : names = state.rows.foldl widenEntry hints.toFinset := by
      ext name
      rw [exactly, mem_widened]
    subst same
    have widened := keeps _ (widenWithRenames_eq_some.mpr ⟨small, rfl⟩)
    rw [← covered_sort, ← covered_sort]
    exact widened row (List.mem_of_getElem? there) orig origin
  · intro sides widened given row member orig origin
    obtain ⟨small, rfl⟩ := widenWithRenames_eq_some.mp given
    rw [covered_sort, covered_sort]
    obtain ⟨index, there⟩ := List.getElem?_of_mem member
    by_cases led : Led hints state.rows index
    · have both : ∀ name ∈ row.renameNames, name ∈ state.rows.foldl widenEntry hints.toFinset :=
        fun name names => mem_widened.mpr (.inr ⟨index, row, led, there, names⟩)
      simp only [StatusEntry.renameNames, origin, List.forall_mem_cons] at both
      exact iff_of_true ⟨row.path, both.1, .inl rfl⟩ ⟨orig, both.2.1, .inl rfl⟩
    · exact sides _ (fun name => mem_widened) small index row orig there origin led

section Sample

def renameRow (path orig : String) : StatusEntry := .ofTracked path (some orig) ⟨some .renamed, none⟩

/-- `a` was renamed to `b` and `b` to `c`; `c` is hinted. -/
def chainState : StatusState Unit where
  all := some ⟨"/r", (), [renameRow "b" "a", renameRow "c" "b"], none, 0, false, 1, .cli⟩
  published := none
  generation := 1
  publishedSeq := 0

/-- The row of the first rename is met before the second one brings its new name in. -/
theorem widening_splits_a_chain :
    ¬∀ widened, chainState.widenWithRenames ["c"] = some widened → KeepsRenames chainState.rows widened := by
  intro keeps
  have small : (chainState.rows.foldl widenEntry ["c"].toFinset).card ≤ maxHintPaths := by decide
  have sides := keeps _ (widenWithRenames_eq_some.mpr ⟨small, rfl⟩) (renameRow "b" "a") (by decide) "a" rfl
  rw [covered_sort, covered_sort] at sides
  revert sides
  decide

end Sample

end Mille.Git
