import Mille.Lib.Maps
import Mille.Git.Status

/-! Status sets over time: what a path-limited run changes of the set before it, and
what the cap hides of it. -/

namespace Mille.Git

open Std (ExtTreeMap)

/-- `GIT_ORDER`. -/
def StatusLetter.order : StatusLetter → Nat
  | unmerged => 0
  | modified => 10
  | added => 20
  | deleted => 30
  | renamed => 40
  | copied => 50
  | untracked => 60
  | ignored => 70

inductive StatusBackend where
  | gix
  | cli
deriving DecidableEq

structure StatusSnapshot (ι : Type) where
  worktreePath : String
  identity : ι
  entries : List StatusEntry
  truncated : Option Nat
  tookMs : Nat
  pathLimited : Bool
  generation : Nat
  statusBackend : StatusBackend

/-- Some prefix that ends before a slash is hinted; the path is given backwards. -/
def coveredBehind (hints : List String) : List Char → Bool
  | [] => false
  | '/' :: before => hints.contains (String.ofList before.reverse) || coveredBehind hints before
  | _ :: before => coveredBehind hints before

/-- A hinted path covers itself and everything beneath it. -/
def covered (hints : List String) (path : String) : Bool :=
  hints.contains path || coveredBehind hints path.toList.reverse

/-- By letter, then by path. -/
def StatusEntry.Before (left right : StatusEntry) : Prop :=
  left.collapsedLetter.order < right.collapsedLetter.order ∨
    left.collapsedLetter.order = right.collapsedLetter.order ∧ left.path ≤ right.path

instance : DecidableRel StatusEntry.Before := fun left right =>
  inferInstanceAs (Decidable (left.collapsedLetter.order < right.collapsedLetter.order ∨
    left.collapsedLetter.order = right.collapsedLetter.order ∧ left.path ≤ right.path))

def sortEntries (entries : List StatusEntry) : List StatusEntry :=
  entries.insertionSort StatusEntry.Before

def reported (entries : List StatusEntry) : List String := entries.map (·.path)

/-- The names the rows of a run come from. -/
def renamedAway (entries : List StatusEntry) : List String := entries.filterMap (·.origPath)

/-- The rows of a path-limited run put into the rows before it. -/
def mergeRows (prev run : List StatusEntry) (hints : List String) : List StatusEntry :=
  let kept := (prev.filter fun entry => !(renamedAway run).contains entry.path).filter fun entry =>
    !(covered hints entry.path && !(reported run).contains entry.path)
  let merged : ExtTreeMap String StatusEntry :=
    Maps.insertAll {} (kept.map fun entry => (entry.path, entry))
  (Maps.insertAll merged (run.map fun entry => (entry.path, entry))).toList.map (·.2)

section Snapshots

variable {ι : Type}

/-- Hints too few or too many for a path-limited run. -/
def usableHints (hints : Option (List String)) : Option (List String) :=
  hints.filter fun hints => !hints.isEmpty && decide (hints.length ≤ maxHintPaths)

def mergeStatus (prev : Option (StatusSnapshot ι)) (run : StatusSnapshot ι) (hints : Option (List String)) :
    StatusSnapshot ι :=
  let generation := max ((prev.map (·.generation + 1)).getD run.generation) run.generation
  let (entries, pathLimited) := match usableHints hints, prev with
    | some hints, some prev => (mergeRows prev.entries run.entries hints, true)
    | some _, none => (run.entries, true)
    | none, _ => (run.entries, false)
  { run with entries := sortEntries entries, truncated := none, pathLimited, generation }

def applyRowCap (snapshot : StatusSnapshot ι) (cap : Nat) : StatusSnapshot ι :=
  if snapshot.entries.length > cap then
    { snapshot with truncated := some (snapshot.entries.length - cap), entries := snapshot.entries.take cap }
  else { snapshot with truncated := none }

/-- What a session keeps of its status. -/
structure StatusState (ι : Type) where
  all : Option (StatusSnapshot ι)
  published : Option (StatusSnapshot ι)
  generation : Nat
  publishedSeq : Nat

structure Publication (ι : Type) where
  run : StatusSnapshot ι
  hints : Option (List String)
  sequence : Nat
  cap : Nat

def StatusState.publish (state : StatusState ι) (publication : Publication ι) : StatusState ι :=
  let merged := mergeStatus state.all { publication.run with generation := state.generation + 1 } publication.hints
  { all := some merged
    published := some (applyRowCap merged publication.cap)
    generation := state.generation + 1
    publishedSeq := publication.sequence }

end Snapshots

/-! ### What is covered -/

/-- A path at or below another. -/
def Within (path folder : String) : Prop :=
  path = folder ∨ (folder ++ "/").toList <+: path.toList

instance (path folder : String) : Decidable (Within path folder) :=
  inferInstanceAs (Decidable (path = folder ∨ (folder ++ "/").toList <+: path.toList))

theorem coveredBehind_iff {hints : List String} {chars : List Char} :
    coveredBehind hints chars = true ↔
      ∃ hint ∈ hints, ∃ rest, chars.reverse = hint.toList ++ '/' :: rest := by
  induction chars with
  | nil => simp [coveredBehind]
  | cons char before ih =>
    have step : (∃ hint ∈ hints, ∃ rest, (char :: before).reverse = hint.toList ++ '/' :: rest) ↔
        (char = '/' ∧ String.ofList before.reverse ∈ hints) ∨
          ∃ hint ∈ hints, ∃ rest, before.reverse = hint.toList ++ '/' :: rest := by
      rw [List.reverse_cons]
      constructor
      · rintro ⟨hint, member, rest, split⟩
        rcases List.eq_nil_or_concat rest with rfl | ⟨others, last, rfl⟩
        · obtain ⟨front, same⟩ := List.append_inj' split rfl
          left
          refine ⟨List.singleton_inj.mp same, ?_⟩
          rw [front, String.ofList_toList]
          exact member
        · rw [List.concat_eq_append, ← List.cons_append, ← List.append_assoc] at split
          exact .inr ⟨hint, member, others, (List.append_inj' split rfl).1⟩
      · rintro (⟨rfl, member⟩ | ⟨hint, member, rest, split⟩)
        · exact ⟨_, member, [], by rw [String.toList_ofList]⟩
        · exact ⟨hint, member, rest ++ [char], by rw [split, List.append_assoc]; rfl⟩
    rw [step, ← ih]
    by_cases slash : char = '/'
    · subst slash
      simp [coveredBehind]
    · simp [coveredBehind, slash]

theorem covered_iff {hints : List String} {path : String} :
    covered hints path = true ↔ ∃ hint ∈ hints, Within path hint := by
  rw [covered, Bool.or_eq_true, coveredBehind_iff, List.reverse_reverse, List.contains_iff_mem]
  constructor
  · rintro (member | ⟨hint, member, rest, split⟩)
    · exact ⟨path, member, .inl rfl⟩
    · exact ⟨hint, member, .inr ⟨rest, by rw [split, String.toList_append]; simp⟩⟩
  · rintro ⟨hint, member, rfl | ⟨rest, split⟩⟩
    · exact .inl member
    · exact .inr ⟨hint, member, rest, by rw [← split, String.toList_append]; simp⟩

/-! ### What a merge leaves -/

def UniquePaths (entries : List StatusEntry) : Prop := (reported entries).Nodup

instance (entries : List StatusEntry) : Decidable (UniquePaths entries) :=
  inferInstanceAs (Decidable (reported entries).Nodup)

def StatusEntry.IsRename (entry : StatusEntry) : Prop :=
  entry.xy.index = some .renamed ∨ entry.xy.worktree = some .renamed

instance (entry : StatusEntry) : Decidable entry.IsRename :=
  inferInstanceAs (Decidable (entry.xy.index = some .renamed ∨ entry.xy.worktree = some .renamed))

/-- A run with these hints could not see the row. -/
structure Unseen (run : List StatusEntry) (hints : List String) (entry : StatusEntry) : Prop where
  uncovered : ∀ hint ∈ hints, ¬Within entry.path hint
  unreported : ∀ row ∈ run, row.path ≠ entry.path
  staying : ∀ row ∈ run, row.IsRename → row.origPath ≠ some entry.path

/-- The run's rows and every earlier row the run could not see, in order. -/
structure MergedExactly (prev run : List StatusEntry) (hints : List String) (merged : List StatusEntry) :
    Prop where
  unique : UniquePaths merged
  sorted : merged.Pairwise StatusEntry.Before
  exact : ∀ entry, entry ∈ merged ↔ entry ∈ run ∨ entry ∈ prev ∧ Unseen run hints entry

theorem mem_sortEntries {entries : List StatusEntry} {entry : StatusEntry} :
    entry ∈ sortEntries entries ↔ entry ∈ entries :=
  List.mem_insertionSort _

theorem sortEntries_sorted (entries : List StatusEntry) :
    (sortEntries entries).Pairwise StatusEntry.Before := by
  have total : Std.Total StatusEntry.Before := by
    constructor
    intro left right
    unfold StatusEntry.Before
    rcases lt_trichotomy left.collapsedLetter.order right.collapsedLetter.order with less | same | more
    · exact .inl (.inl less)
    · rcases le_total left.path right.path with le | ge
      · exact .inl (.inr ⟨same, le⟩)
      · exact .inr (.inr ⟨same.symm, ge⟩)
    · exact .inr (.inl more)
  have trans : IsTrans StatusEntry StatusEntry.Before := by
    constructor
    rintro first second third (less | ⟨same, le⟩) (less' | ⟨same', le'⟩)
    · exact .inl (less.trans less')
    · exact .inl (same' ▸ less)
    · exact .inl (same ▸ less')
    · exact .inr ⟨same.trans same', le_trans le le'⟩
  exact List.pairwise_insertionSort _ entries

theorem uniquePaths_sortEntries {entries : List StatusEntry} (unique : UniquePaths entries) :
    UniquePaths (sortEntries entries) := by
  have same : (reported (sortEntries entries)).Perm (reported entries) :=
    (List.perm_insertionSort _ entries).map _
  exact same.nodup_iff.mpr unique

section Rows

variable {prev run : List StatusEntry} {hints : List String} {entry : StatusEntry}

private theorem mem_filed {rows : List StatusEntry} {path : String} :
    (path, entry) ∈ rows.map (fun row => (row.path, row)) ↔ entry ∈ rows ∧ entry.path = path := by
  constructor
  · intro member
    obtain ⟨row, inside, same⟩ := List.mem_map.mp member
    cases same
    exact ⟨inside, rfl⟩
  · rintro ⟨inside, rfl⟩
    exact List.mem_map_of_mem inside

private theorem filed_paths (rows : List StatusEntry) :
    (rows.map fun row => (row.path, row)).map Prod.fst = reported rows := by
  simp [reported]

private theorem UniquePaths.filed {rows : List StatusEntry} (unique : UniquePaths rows) :
    ((rows.map fun row => (row.path, row)).map Prod.fst).Nodup := by
  rw [filed_paths]
  exact unique

theorem UniquePaths.filter (unique : UniquePaths prev) (keep : StatusEntry → Bool) :
    UniquePaths (prev.filter keep) :=
  List.Nodup.sublist (List.filter_sublist.map _) unique

theorem mem_mergeRows (prevUnique : UniquePaths prev) (runUnique : UniquePaths run) :
    entry ∈ mergeRows prev run hints ↔ entry ∈ run ∨ entry ∈ prev ∧ entry.path ∉ renamedAway run ∧
      covered hints entry.path = false ∧ entry.path ∉ reported run := by
  have binding : ∀ {map : ExtTreeMap String StatusEntry},
      entry ∈ map.toList.map (·.2) ↔ ∃ path : String, map[path]? = some entry := by
    intro map
    simp only [List.mem_map, Prod.exists, exists_eq_right, ExtTreeMap.mem_toList_iff_getElem?_eq_some]
  have kept := (prevUnique.filter fun entry => !(renamedAway run).contains entry.path).filter fun entry =>
    !(covered hints entry.path && !(reported run).contains entry.path)
  rw [mergeRows, binding]
  simp only [Maps.lookup_insertAll runUnique.filed, Maps.lookup_insertAll kept.filed, filed_paths, mem_filed,
    ExtTreeMap.getElem?_empty, reduceCtorEq, and_false, or_false]
  constructor
  · rintro ⟨path, ⟨inRun, -⟩ | ⟨fresh, inKept, rfl⟩⟩
    · exact .inl inRun
    · simp only [List.mem_filter, Bool.not_eq_true', List.contains_eq_mem, decide_eq_false_iff_not,
        Bool.and_eq_false_iff, decide_eq_true_eq, Bool.not_eq_false'] at inKept
      obtain ⟨⟨inPrev, away⟩, uncovered | inReport⟩ := inKept
      · exact .inr ⟨inPrev, away, uncovered, fresh⟩
      · exact absurd inReport fresh
  · rintro (inRun | ⟨inPrev, away, uncovered, fresh⟩)
    · exact ⟨entry.path, .inl ⟨inRun, rfl⟩⟩
    · refine ⟨entry.path, .inr ⟨fresh, ?_, rfl⟩⟩
      simp [inPrev, away, uncovered]

theorem uniquePaths_mergeRows (prevUnique : UniquePaths prev) (runUnique : UniquePaths run) :
    UniquePaths (mergeRows prev run hints) := by
  have kept := (prevUnique.filter fun entry => !(renamedAway run).contains entry.path).filter fun entry =>
    !(covered hints entry.path && !(reported run).contains entry.path)
  -- Every row is filed under its own path.
  have own : ∀ binding ∈ (Maps.insertAll (Maps.insertAll {} (List.map (fun row => (row.path, row))
      ((prev.filter fun entry => !(renamedAway run).contains entry.path).filter fun entry =>
        !(covered hints entry.path && !(reported run).contains entry.path))))
      (run.map fun row => (row.path, row)) : ExtTreeMap String StatusEntry).toList,
      binding.2.path = binding.1 := by
    rintro ⟨path, row⟩ member
    have found := ExtTreeMap.mem_toList_iff_getElem?_eq_some.mp member
    simp only [Maps.lookup_insertAll runUnique.filed, Maps.lookup_insertAll kept.filed, filed_paths,
      mem_filed, ExtTreeMap.getElem?_empty, reduceCtorEq, and_false, or_false] at found
    rcases found with ⟨-, same⟩ | ⟨-, -, same⟩
    · exact same
    · exact same
  unfold UniquePaths reported mergeRows
  rw [List.map_map]
  have keys := List.map_congr_left own
  change (List.map (fun binding : String × StatusEntry => binding.2.path) _).Nodup
  rw [keys]
  apply List.pairwise_map.mpr
  exact (ExtTreeMap.distinct_keys_toList).imp fun apart same => apart (by simp [same])

/-- A merge is exact when no row the run could not see is named as the origin of a row
that is no rename. -/
theorem mergedExactly_iff (prevUnique : UniquePaths prev) (runUnique : UniquePaths run) :
    MergedExactly prev run hints (sortEntries (mergeRows prev run hints)) ↔
      ∀ source ∈ prev, Unseen run hints source → ∀ row ∈ run, row.origPath ≠ some source.path := by
  have away : ∀ entry : StatusEntry, entry.path ∉ renamedAway run ↔
      ∀ row ∈ run, row.origPath ≠ some entry.path := by
    intro entry
    simp [renamedAway]
  have fresh : ∀ entry : StatusEntry, entry.path ∉ reported run ↔ ∀ row ∈ run, row.path ≠ entry.path := by
    intro entry
    simp [reported]
  have bare : ∀ entry : StatusEntry, covered hints entry.path = false ↔
      ∀ hint ∈ hints, ¬Within entry.path hint := by
    intro entry
    rw [← Bool.not_eq_true, covered_iff]
    simp
  constructor
  · intro exactly source member unseen row inRun names
    have merged := (exactly.exact source).mpr (.inr ⟨member, unseen⟩)
    rw [mem_sortEntries, mem_mergeRows prevUnique runUnique] at merged
    rcases merged with inReport | ⟨-, notAway, -, -⟩
    · exact unseen.unreported source inReport rfl
    · exact (away source).mp notAway row inRun names
  · intro none
    refine ⟨uniquePaths_sortEntries (uniquePaths_mergeRows prevUnique runUnique), sortEntries_sorted _, ?_⟩
    intro entry
    rw [mem_sortEntries, mem_mergeRows prevUnique runUnique, away, fresh, bare]
    apply or_congr_right
    apply and_congr_right
    intro member
    constructor
    · rintro ⟨notAway, uncovered, unreported⟩
      exact ⟨uncovered, unreported, fun row inRun _ => notAway row inRun⟩
    · intro unseen
      exact ⟨none entry member unseen, unseen.uncovered, unseen.unreported⟩

end Rows

/-! ### Over a sequence of runs -/

section Publishing

variable {ι : Type}

/-- The hints of a path-limited run. -/
def Usable (hints : List String) : Prop := hints ≠ [] ∧ hints.length ≤ maxHintPaths

theorem mergeStatus_entries {prev run : StatusSnapshot ι} {hints : List String} (usable : Usable hints) :
    (mergeStatus (some prev) run (some hints)).entries = sortEntries (mergeRows prev.entries run.entries hints) := by
  have kept : usableHints (some hints) = some hints := by
    simp [usableHints, Option.filter, usable.1, usable.2]
  simp only [mergeStatus, kept]

theorem applyRowCap_entries (snapshot : StatusSnapshot ι) (cap : Nat) :
    (applyRowCap snapshot cap).entries = snapshot.entries.take cap := by
  unfold applyRowCap
  split_ifs with long
  · rfl
  · exact (List.take_of_length_le (not_lt.mp long)).symm

theorem applyRowCap_whole {snapshot : StatusSnapshot ι} {cap : Nat}
    (whole : (applyRowCap snapshot cap).truncated = none) :
    (applyRowCap snapshot cap).entries = snapshot.entries := by
  unfold applyRowCap at whole ⊢
  split_ifs with long
  · simp [long] at whole
  · rfl

/-- A path-limited run that could not see the row. -/
structure Publication.Passes (publication : Publication ι) (entry : StatusEntry) : Prop where
  unique : UniquePaths publication.run.entries
  limited : ∃ hints, publication.hints = some hints ∧ Usable hints ∧
    Unseen publication.run.entries hints entry

/-- The row is in the session's set, whose first rows are published, and is shown whenever
the cap hides none. -/
def StatusState.Retains (state : StatusState ι) (cap : Nat) (entry : StatusEntry) : Prop :=
  ∃ all published, state.all = some all ∧ state.published = some published ∧ entry ∈ all.entries ∧
    published.entries = all.entries.take cap ∧ (published.truncated = none → entry ∈ published.entries)

/-- The rows of a session's set. -/
def StatusState.rows (state : StatusState ι) : List StatusEntry := (state.all.map (·.entries)).getD []

variable {state : StatusState ι} {publication : Publication ι} {entry : StatusEntry}

theorem publish_all_isSome : (state.publish publication).all.isSome = true := rfl

theorem publish_passes (held : state.all.isSome = true) (unique : UniquePaths state.rows)
    (passes : publication.Passes entry) :
    UniquePaths (state.publish publication).rows ∧
      (entry ∈ (state.publish publication).rows ↔ entry ∈ state.rows ∧
        ∀ row ∈ publication.run.entries, row.origPath ≠ some entry.path) := by
  obtain ⟨all, there⟩ := Option.isSome_iff_exists.mp held
  obtain ⟨runUnique, hints, given, usable, unseen⟩ := passes
  have stateRows : state.rows = all.entries := by
    rw [StatusState.rows, there]
    rfl
  have rows : (state.publish publication).rows =
      sortEntries (mergeRows all.entries publication.run.entries hints) := by
    change (mergeStatus state.all _ publication.hints).entries = _
    rw [there, given, mergeStatus_entries usable]
  rw [stateRows] at unique ⊢
  rw [rows]
  refine ⟨uniquePaths_sortEntries (uniquePaths_mergeRows unique runUnique), ?_⟩
  rw [mem_sortEntries, mem_mergeRows unique runUnique]
  constructor
  · rintro (inRun | ⟨member, away, -, -⟩)
    · exact absurd rfl (unseen.unreported entry inRun)
    · exact ⟨member, by simpa [renamedAway] using away⟩
  · rintro ⟨member, away⟩
    refine .inr ⟨member, by simpa [renamedAway] using away, ?_, ?_⟩
    · rw [← Bool.not_eq_true, covered_iff]
      rintro ⟨hint, hinted, within⟩
      exact unseen.uncovered hint hinted within
    · simpa [reported] using unseen.unreported

theorem publishAll_passes (held : state.all.isSome = true) (unique : UniquePaths state.rows)
    (publications : List (Publication ι)) (passes : ∀ publication ∈ publications, publication.Passes entry) :
    UniquePaths (publications.foldl StatusState.publish state).rows ∧
      (entry ∈ (publications.foldl StatusState.publish state).rows ↔ entry ∈ state.rows ∧
        ∀ publication ∈ publications, ∀ row ∈ publication.run.entries, row.origPath ≠ some entry.path) := by
  induction publications generalizing state with
  | nil => exact ⟨unique, by simp⟩
  | cons first rest ih =>
    obtain ⟨here, later⟩ := List.forall_mem_cons.mp passes
    obtain ⟨nextUnique, kept⟩ := publish_passes held unique here
    obtain ⟨lastUnique, whole⟩ := ih publish_all_isSome nextUnique later
    refine ⟨lastUnique, ?_⟩
    rw [List.foldl_cons, whole, kept, List.forall_mem_cons, and_assoc]

theorem retains_publish : (state.publish publication).Retains publication.cap entry ↔
    entry ∈ (state.publish publication).rows := by
  constructor
  · rintro ⟨all, -, there, -, member, -, -⟩
    rw [StatusState.rows, there]
    exact member
  · intro member
    refine ⟨_, _, rfl, rfl, member, applyRowCap_entries _ _, ?_⟩
    intro whole
    rw [applyRowCap_whole whole]
    exact member

/-- A path-limited merge is exact, and a row that later runs cannot see comes through them,
exactly when no row of a run names as its origin a row that the run could not see. -/
theorem mergeStatus_exact_iff :
    (∀ (prev run : StatusSnapshot ι) (hints : List String), UniquePaths prev.entries →
      UniquePaths run.entries → Usable hints →
        (MergedExactly prev.entries run.entries hints (mergeStatus (some prev) run (some hints)).entries ↔
          ∀ source ∈ prev.entries, Unseen run.entries hints source →
            ∀ row ∈ run.entries, row.origPath ≠ some source.path)) ∧
      ∀ (state : StatusState ι) (entry : StatusEntry) (earlier : List (Publication ι)) (last : Publication ι),
        entry ∈ state.rows → UniquePaths state.rows →
          (∀ publication ∈ earlier ++ [last], publication.Passes entry) →
            (((earlier ++ [last]).foldl StatusState.publish state).Retains last.cap entry ↔
              ∀ publication ∈ earlier ++ [last], ∀ row ∈ publication.run.entries,
                row.origPath ≠ some entry.path) := by
  constructor
  · intro prev run hints prevUnique runUnique usable
    rw [mergeStatus_entries usable]
    exact mergedExactly_iff prevUnique runUnique
  · intro state entry earlier last member unique passes
    have held : state.all.isSome = true := by
      cases there : state.all with
      | none => simp [StatusState.rows, there] at member
      | some all => rfl
    rw [List.foldl_append, List.foldl_cons, List.foldl_nil, retains_publish]
    have whole := (publishAll_passes held unique (earlier ++ [last]) passes).2
    rw [List.foldl_append, List.foldl_cons, List.foldl_nil] at whole
    rw [whole]
    exact and_iff_right member

section Samples

def sampleSnapshot (entries : List StatusEntry) : StatusSnapshot Unit :=
  ⟨"/r", (), entries, none, 0, false, 1, .cli⟩

def modifiedRow : StatusEntry := .ofTracked "a" none ⟨none, some .modified⟩

def copyRow : StatusEntry := .ofTracked "b" (some "a") ⟨some .copied, none⟩

/-- A copy is reported, and the row of its source is gone. -/
theorem copied_source_dropped :
    ¬MergedExactly [modifiedRow] [copyRow] ["b"]
      (mergeStatus (some (sampleSnapshot [modifiedRow])) (sampleSnapshot [copyRow]) (some ["b"])).entries := by
  intro exactly
  have gone : modifiedRow ∉
      (mergeStatus (some (sampleSnapshot [modifiedRow])) (sampleSnapshot [copyRow]) (some ["b"])).entries := by
    decide
  have unseen : Unseen [copyRow] ["b"] modifiedRow := ⟨by decide, by decide, by decide⟩
  exact gone ((exactly.exact modifiedRow).mpr (.inr ⟨by decide, unseen⟩))

theorem mergeStatus_exact_iff_sample :
    (MergedExactly [modifiedRow] [copyRow] ["a"]
        (mergeStatus (some (sampleSnapshot [modifiedRow])) (sampleSnapshot [copyRow]) (some ["a"])).entries ↔
      ∀ source ∈ [modifiedRow], Unseen [copyRow] ["a"] source →
        ∀ row ∈ [copyRow], row.origPath ≠ some source.path) ∧
      (StatusState.Retains (([] ++ [⟨sampleSnapshot [], some ["b"], 1, 1⟩] : List (Publication Unit)).foldl
          StatusState.publish ⟨some (sampleSnapshot [modifiedRow]), none, 1, 0⟩) 1 modifiedRow ↔
        ∀ publication ∈ ([] ++ [⟨sampleSnapshot [], some ["b"], 1, 1⟩] : List (Publication Unit)),
          ∀ row ∈ publication.run.entries, row.origPath ≠ some modifiedRow.path) := by
  refine ⟨mergeStatus_exact_iff.1 (sampleSnapshot [modifiedRow]) (sampleSnapshot [copyRow]) ["a"]
    (by decide) (by decide) ⟨by decide, by decide⟩,
    mergeStatus_exact_iff.2 ⟨some (sampleSnapshot [modifiedRow]), none, 1, 0⟩ modifiedRow []
      ⟨sampleSnapshot [], some ["b"], 1, 1⟩ (by decide) (by decide) ?_⟩
  intro publication member
  cases List.mem_singleton.mp member
  exact ⟨by decide, ["b"], rfl, ⟨by decide, by decide⟩, ⟨by decide, by decide, by decide⟩⟩

end Samples

end Publishing

end Mille.Git
