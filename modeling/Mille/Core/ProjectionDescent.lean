import Mille.Core.NestingPlan

/-! Projected children stand below their parents: chains of folders lead down a
forest, and nested files lead nowhere. -/

namespace Mille

open Forest

variable {snapshot : StoreSnapshot} {context : ProjectionContext} {parent : EntryId → Option (Option EntryId)}
variable {includeIgnored : Bool} {id child leaf : EntryId} {hops fuel : Nat} {segments : List String}

namespace StoreSnapshot

/-- The root list and the child lists describe a forest. -/
def IsForest (snapshot : StoreSnapshot) : Prop :=
  ∃ parent, Linked parent snapshot.childrenOf snapshot.roots

/-- Every id that the root list or a child list names. -/
def listed (snapshot : StoreSnapshot) : Finset EntryId :=
  (snapshot.roots ++ snapshot.children.toList.flatMap Prod.snd).toFinset

theorem mem_listed (linked : Linked parent snapshot.childrenOf snapshot.roots)
    (known : (parent id).isSome = true) : id ∈ snapshot.listed := by
  unfold listed
  rw [List.mem_toFinset, List.mem_append]
  obtain ⟨link, here⟩ := Option.isSome_iff_exists.mp known
  cases link with
  | none => exact .inl ((linked.root_iff id).mpr here)
  | some above =>
    right
    have member := (linked.child_iff id above).mpr here
    rw [childrenOf_eq] at member
    cases found : snapshot.children[above]? with
    | none => simp [found] at member
    | some list =>
      rw [found] at member
      exact List.mem_flatMap.mpr
        ⟨(above, list), Std.ExtTreeMap.mem_toList_iff_getElem?_eq_some.mpr found, member⟩

/-- The next folder of a compacted chain. -/
def onlyFolder (snapshot : StoreSnapshot) (includeIgnored : Bool) (id : EntryId) : Option EntryId :=
  match snapshot.shown includeIgnored (snapshot.childrenOf id) with
  | [child] => if snapshot.entries[child]?.any (·.kind = .directory) then some child else none
  | _ => none

theorem onlyFolder_eq_some : snapshot.onlyFolder includeIgnored id = some child ↔
    snapshot.shown includeIgnored (snapshot.childrenOf id) = [child] ∧
      ∃ entry, snapshot.entries[child]? = some entry ∧ entry.kind = .directory := by
  unfold onlyFolder
  split
  · next only found =>
    rw [found, Option.ite_none_right_eq_some, Option.any_eq_true]
    constructor
    · rintro ⟨⟨entry, present, folder⟩, same⟩
      cases same
      exact ⟨rfl, entry, present, of_decide_eq_true folder⟩
    · rintro ⟨same, entry, present, folder⟩
      cases same
      exact ⟨⟨entry, present, decide_eq_true folder⟩, rfl⟩
  · next other =>
    constructor
    · exact fun none => by cases none
    · exact fun found => absurd found.1 (other child)

theorem onlyFolder_mem (only : snapshot.onlyFolder includeIgnored id = some child) :
    child ∈ snapshot.childrenOf id := by
  have single := (onlyFolder_eq_some.mp only).1
  exact List.mem_of_mem_filter (single ▸ List.mem_singleton_self child)

theorem trailingSegments_succ : snapshot.trailingSegments includeIgnored (hops + 1) leaf segments =
    match snapshot.onlyFolder includeIgnored leaf with
    | none => (leaf, segments)
    | some child => snapshot.trailingSegments includeIgnored hops child
        (segments ++ (snapshot.entries[child]?.map (·.name)).toList) := by
  rw [trailingSegments]
  unfold onlyFolder
  rw [childrenOf_eq]
  cases snapshot.children[leaf]? with
  | none => rfl
  | some children =>
    dsimp only [Option.getD_some]
    rcases snapshot.shown includeIgnored children with _ | ⟨only, _ | ⟨other, rest⟩⟩
    · rfl
    · cases present : snapshot.entries[only]? with
      | none => simp [present]
      | some entry =>
        by_cases folder : entry.kind = .directory
        · simp [folder, present]
        · simp [folder, present]
    · rfl

theorem trailingSegments_below (linked : Linked parent snapshot.childrenOf snapshot.roots) :
    Below parent leaf (snapshot.trailingSegments includeIgnored hops leaf segments).1 := by
  induction hops generalizing leaf segments with
  | zero => exact .self
  | succ hops ih =>
    rw [trailingSegments_succ]
    cases only : snapshot.onlyFolder includeIgnored leaf with
    | none => exact .self
    | some child => exact (Below.of_link ((linked.child_iff child leaf).mp (onlyFolder_mem only))).trans ih

theorem projectedEntry_id : (snapshot.projectedEntry id includeIgnored).1 = id ∨
    ∃ entry segments, snapshot.compactFolders = true ∧ snapshot.entries[id]? = some entry ∧
      entry.parentId.isSome = true ∧ entry.kind = .directory ∧
      (snapshot.projectedEntry id includeIgnored).1 =
        (snapshot.trailingSegments includeIgnored 256 id segments).1 := by
  unfold projectedEntry
  split
  · exact .inl rfl
  · next compact =>
    split
    · exact .inl rfl
    · next entry present =>
      split
      · exact .inl rfl
      · next eligible =>
        rw [Bool.or_eq_true, not_or, decide_eq_true_iff, not_not] at eligible
        refine .inr ⟨entry, snapshot.leadingSegments includeIgnored 256 id [entry.name], by simpa using compact,
          present, by simpa [Option.isSome_iff_ne_none] using eligible.1, eligible.2, ?_⟩
        dsimp only
        split
        · next same =>
          rw [Bool.and_eq_true, decide_eq_true_iff] at same
          exact same.1.symm
        · rfl

theorem projectedEntry_below (linked : Linked parent snapshot.childrenOf snapshot.roots) :
    Below parent id (snapshot.projectedEntry id includeIgnored).1 := by
  rcases @projectedEntry_id snapshot includeIgnored id with same | ⟨entry, segments, _, _, _, _, same⟩
  · rw [same]
    exact .self
  · rw [same]
    exact trailingSegments_below linked

theorem projectedEntry_of_file {entry : Entry} (present : snapshot.entries[id]? = some entry)
    (file : entry.kind ≠ .directory) : snapshot.projectedEntry id includeIgnored = (id, none) := by
  unfold projectedEntry
  simp [present, file]

end StoreSnapshot

namespace ProjectionContext

open StoreSnapshot

variable {entry : Entry}

theorem mem_files {ids : List EntryId} : id ∈ context.files ids ↔
    id ∈ ids ∧ ∃ entry, context.snapshot.entries[id]? = some entry ∧ entry.kind = .file := by
  unfold files
  rw [List.mem_filter, Option.any_eq_true]
  simp only [decide_eq_true_iff]

/-- The children of a file are files of its own directory, and have none themselves. -/
theorem childrenOf_file (linked : Linked parent context.snapshot.childrenOf context.snapshot.roots)
    (present : context.snapshot.entries[id]? = some entry) (file : entry.kind = .file)
    (member : child ∈ context.childrenOf id) :
    (∃ other, context.snapshot.entries[child]? = some other ∧ other.kind = .file) ∧
      context.childrenOf child = [] := by
  unfold childrenOf at member
  simp only [present, file, if_true] at member
  split at member
  · cases member
  · next parentId _ =>
    rw [Std.ExtTreeMap.getD_eq_getD_getElem?] at member
    cases found : (context.plan parentId).nested[id]? with
    | none => simp [found] at member
    | some kids =>
      rw [found] at member
      have planned := @plan_planned context parentId
      obtain ⟨visible, other, here, kind⟩ := mem_files.mp (planned.kids_visible id kids found child member)
      refine ⟨⟨other, here, kind⟩, ?_⟩
      unfold childrenOf
      simp only [here, kind, if_true]
      split
      · rfl
      · next directory _ =>
        rw [Std.ExtTreeMap.getD_eq_getD_getElem?]
        cases again : (context.plan directory).nested[child]? with
        | none => rfl
        | some more =>
          -- A nested file belongs to one directory only, where it is no parent.
          have parents := (@plan_planned context directory).parents_rooted child (by simp [again])
          have first := List.mem_of_mem_filter (mem_files.mp parents.2).1
          have second := List.mem_of_mem_filter visible
          have same := ((linked.child_iff child directory).mp first).symm.trans
            ((linked.child_iff child parentId).mp second)
          rw [Option.some.injEq, Option.some.injEq] at same
          subst same
          have none := planned.kids_childless id kids found child member
          rw [none] at again
          cases again

theorem childrenOf_folder (present : context.snapshot.entries[id]? = some entry) (folder : entry.kind ≠ .file)
    (member : child ∈ context.childrenOf id) :
    ∃ head ∈ (context.plan id).roots, (context.snapshot.projectedEntry head context.includeIgnored).1 = child := by
  unfold childrenOf at member
  simp only [present, folder, if_false] at member
  exact List.mem_map.mp member

/-- Rows that may still follow below an id. -/
noncomputable def reach (context : ProjectionContext) (parent : EntryId → Option (Option EntryId)) (id : EntryId) : Nat :=
  open Classical in
  if context.snapshot.entries[id]?.any (·.kind = .file) then if context.childrenOf id = [] then 0 else 1
  else (context.snapshot.listed.filter (Below parent id)).card + 2

theorem reach_of_file (present : context.snapshot.entries[id]? = some entry) (file : entry.kind = .file) :
    context.reach parent id = if context.childrenOf id = [] then 0 else 1 := by
  unfold reach
  simp [present, file]

theorem reach_of_folder (folder : ∀ entry, context.snapshot.entries[id]? = some entry → entry.kind ≠ .file) :
    context.reach parent id =
      open Classical in (context.snapshot.listed.filter (Below parent id)).card + 2 := by
  have other : ¬ context.snapshot.entries[id]?.any (·.kind = .file) = true := by
    rw [Option.any_eq_true]
    exact fun ⟨entry, present, file⟩ => folder entry present (of_decide_eq_true file)
  unfold reach
  rw [if_neg other]

theorem reach_of_file_le (present : context.snapshot.entries[id]? = some entry) (file : entry.kind = .file) :
    context.reach parent id ≤ 1 := by
  rw [reach_of_file present file]
  split <;> omega

theorem childrenOf_below (linked : Linked parent context.snapshot.childrenOf context.snapshot.roots)
    (present : context.snapshot.entries[id]? = some entry) (folder : entry.kind ≠ .file)
    (member : child ∈ context.childrenOf id) :
    ∃ head, parent head = some (some id) ∧ Below parent head child := by
  obtain ⟨head, rooted, rfl⟩ := childrenOf_folder present folder member
  have visible := (@plan_planned context id).roots_sublist.subset rooted
  exact ⟨head, (linked.child_iff head id).mp (List.mem_of_mem_filter visible), projectedEntry_below linked⟩

theorem card_below_lt [DecidablePred (Below parent child)] [DecidablePred (Below parent id)]
    (linked : Linked parent snapshot.childrenOf snapshot.roots) {head : EntryId}
    (link : parent head = some (some id)) (below : Below parent head child) :
    (snapshot.listed.filter (Below parent child)).card < (snapshot.listed.filter (Below parent id)).card :=
  linked.card_below_lt snapshot.listed (fun _ => mem_listed linked) link below

/-- Every child of a shown row has less below it than the id the row stands for. -/
theorem reach_lt (linked : Linked parent context.snapshot.childrenOf context.snapshot.roots)
    (present : context.snapshot.entries[id]? = some entry)
    (member : child ∈ context.childrenOf (context.snapshot.projectedEntry id context.includeIgnored).1) :
    context.reach parent child < context.reach parent id := by
  classical
  by_cases file : entry.kind = .file
  · rw [projectedEntry_of_file present (by simp [file])] at member
    obtain ⟨⟨other, here, kind⟩, childless⟩ := childrenOf_file linked present file member
    rw [reach_of_file here kind, if_pos childless, reach_of_file present file, if_neg]
    · exact Nat.one_pos
    · exact List.ne_nil_of_mem member
  · have wide := @reach_of_folder context parent id (by simp [present, file])
    rw [wide]
    have lower := @projectedEntry_below context.snapshot parent context.includeIgnored id linked
    generalize (context.snapshot.projectedEntry id context.includeIgnored).1 = projected at lower member
    cases standing : context.snapshot.entries[projected]? with
    | none => simp [childrenOf, standing] at member
    | some found =>
      by_cases plain : found.kind = .file
      · obtain ⟨⟨other, here, kind⟩, _⟩ := childrenOf_file linked standing plain member
        have small := @reach_of_file_le context parent child other here kind
        omega
      · obtain ⟨head, link, below⟩ := childrenOf_below linked standing plain member
        by_cases leaf : ∃ other, context.snapshot.entries[child]? = some other ∧ other.kind = .file
        · obtain ⟨other, here, kind⟩ := leaf
          have small := @reach_of_file_le context parent child other here kind
          omega
        · rw [reach_of_folder fun other here kind => leaf ⟨other, here, kind⟩]
          have fewer := card_below_lt linked link below
          have inside : (context.snapshot.listed.filter (Below parent projected)).card ≤
              (context.snapshot.listed.filter (Below parent id)).card :=
            Finset.card_le_card (Finset.monotone_filter_right _ fun low _ path => lower.trans path)
          omega

end ProjectionContext

end Mille
