import Mille.Core.HasChildren

/-! A nesting plan deals the visible children out: each to the roots or to one parent, in
sibling order, by a rule that captures the parent's name. -/

namespace Mille

variable {context : ProjectionContext} {files kids : List EntryId} {nesting : Nesting}
variable {id candidate parentId child : EntryId}

namespace ProjectionContext

theorem sortByRank_eq_filter (distinct : files.Nodup) (nodup : kids.Nodup) (listed : ∀ child ∈ kids, child ∈ files) :
    sortByRank files kids = files.filter (· ∈ kids) := by
  have ranked : files.Pairwise fun left right => files.idxOf left ≤ files.idxOf right := by
    rw [List.pairwise_iff_getElem]
    intro first second inFirst inSecond less
    rw [distinct.idxOf_getElem first inFirst, distinct.idxOf_getElem second inSecond]
    exact less.le
  have sorted : (sortByRank files kids).Pairwise fun left right => files.idxOf left ≤ files.idxOf right := by
    have sorts := @List.pairwise_mergeSort _ (fun left right => decide (files.idxOf left ≤ files.idxOf right))
      (by simp; omega) (by simp; omega) kids
    simp only [decide_eq_true_eq] at sorts
    exact sorts
  have perm : (sortByRank files kids).Perm (files.filter (· ∈ kids)) := by
    rw [List.perm_ext_iff_of_nodup (sortByRank_nodup nodup) (distinct.filter _)]
    intro child
    rw [mem_sortByRank, List.mem_filter, decide_eq_true_iff]
    exact ⟨fun member => ⟨listed child member, member⟩, And.right⟩
  refine perm.eq_of_pairwise ?_ sorted (ranked.filter _)
  intro left right member _ less more
  have inFiles := listed left (mem_sortByRank.mp member)
  exact (List.idxOf_inj inFiles).mp (le_antisymm less more)

/-- A rule captures the parent's name and names the child, up to case where the rules do. -/
def NamedBy (context : ProjectionContext) (parent child : Entry) : Prop :=
  ∃ rule ∈ context.snapshot.fileNesting.rules, ∃ capture,
    rule.capture context.toLowercase parent.name context.snapshot.fileNesting.caseSensitive = some capture ∧
      ∃ template ∈ rule.childTemplates,
        context.snapshot.fileNesting.nameKey context.toLowercase child.name =
          context.snapshot.fileNesting.nameKey context.toLowercase (template.replace "$\x7bcapture\x7d" capture)

theorem matched_named {parent : Entry} (member : id ∈ context.matched files parent) :
    ∃ child, context.snapshot.entries[id]? = some child ∧ context.NamedBy parent child := by
  unfold matched at member
  obtain ⟨rule, listed, inside⟩ := List.mem_flatMap.mp member
  split at inside
  · cases inside
  · next capture captured =>
    obtain ⟨name, named, found⟩ := List.mem_flatMap.mp inside
    obtain ⟨template, inTemplates, rfl⟩ := List.mem_map.mp named
    have key := (List.mem_filter.mp found).2
    rw [decide_eq_true_iff, keyOf] at key
    obtain ⟨child, present, same⟩ := Option.map_eq_some_iff.mp key
    exact ⟨child, present, rule, listed, capture, captured, template, inTemplates, same⟩

/-- What the loop over the candidates has dealt out so far. -/
structure Dealt (context : ProjectionContext) (files : List EntryId) (nesting : Nesting) : Prop where
  claimed : ∀ id ∈ nesting.claimed, ∃ (parent : EntryId) (kids : List EntryId),
    nesting.nested[parent]? = some kids ∧ id ∈ kids
  ordered : ∀ (parent : EntryId) kids, nesting.nested[parent]? = some kids → kids.Sublist files
  named : ∀ (parent : EntryId) kids, nesting.nested[parent]? = some kids →
    ∃ entry, context.snapshot.entries[parent]? = some entry ∧ ∀ child ∈ kids, child ∈ context.matched files entry

theorem nest_elsewhere {other : EntryId} (differs : candidate ≠ other) :
    (context.nest files nesting candidate).nested[other]? = nesting.nested[other]? := by
  unfold nest
  split
  · rfl
  · split
    · rfl
    · dsimp only
      split
      · rfl
      · rw [Maps.lookup_insert, if_neg differs]

/-- A candidate without a list yet deals out what it claims. -/
theorem nest_dealt (distinct : files.Nodup) (dealt : context.Dealt files nesting)
    (fresh : nesting.nested[candidate]? = none) : context.Dealt files (context.nest files nesting candidate) := by
  unfold nest
  split
  · exact dealt
  · split
    · exact dealt
    · next parent present =>
      have start : Taken nesting.claimed nesting.parents candidate (context.matched files parent)
          (nesting.claimed, []) := ⟨List.nodup_nil, by simp, by simp⟩
      have taken := foldl_claim_taken start (fun child member => member)
      generalize (context.matched files parent).foldl (claim nesting.parents candidate) (nesting.claimed, []) =
        result at taken
      obtain ⟨claimed, children⟩ := result
      dsimp only
      split
      · next empty =>
        rw [List.isEmpty_iff] at empty
        refine ⟨fun id member => dealt.claimed id ?_, dealt.ordered, dealt.named⟩
        simpa [empty] using (taken.claimed id).mp member
      · have listed : ∀ child ∈ children, child ∈ files := fun child member =>
          mem_matched (taken.fresh child member).2.2.2
        have now {id : EntryId} {kids : List EntryId}
            (found : (nesting.nested.insert candidate (sortByRank files children))[id]? = some kids) :
            candidate = id ∧ kids = sortByRank files children ∨ nesting.nested[id]? = some kids := by
          rw [Maps.lookup_insert] at found
          split at found
          · next same => exact .inl ⟨same, (Option.some.inj found).symm⟩
          · exact .inr found
        refine ⟨fun id member => ?_, fun id kids found => ?_, fun id kids found => ?_⟩
        · rcases (taken.claimed id).mp member with before | new
          · obtain ⟨above, kids, found, inKids⟩ := dealt.claimed id before
            have differs : candidate ≠ above := by
              rintro rfl
              rw [fresh] at found
              cases found
            exact ⟨above, kids, by rw [Maps.lookup_insert, if_neg differs, found], inKids⟩
          · exact ⟨candidate, _, by rw [Maps.lookup_insert, if_pos rfl], mem_sortByRank.mpr new⟩
        · rcases now found with ⟨_, rfl⟩ | before
          · rw [sortByRank_eq_filter distinct taken.nodup listed]
            exact List.filter_sublist
          · exact dealt.ordered id kids before
        · rcases now found with ⟨rfl, rfl⟩ | before
          · exact ⟨parent, present, fun child member => (taken.fresh child (mem_sortByRank.mp member)).2.2.2⟩
          · exact dealt.named id kids before

theorem foldl_nest_dealt {rest : List EntryId} (distinct : files.Nodup) (dealt : context.Dealt files nesting)
    (once : rest.Nodup) (fresh : ∀ id ∈ rest, nesting.nested[id]? = none) :
    context.Dealt files (rest.foldl (context.nest files) nesting) := by
  induction rest generalizing nesting with
  | nil => exact dealt
  | cons candidate rest ih =>
    rw [List.nodup_cons] at once
    refine ih (nest_dealt distinct dealt (fresh candidate List.mem_cons_self)) once.2 ?_
    intro id member
    have differs : candidate ≠ id := fun same => once.1 (same ▸ member)
    rw [nest_elsewhere differs]
    exact fresh id (List.mem_cons_of_mem _ member)

end ProjectionContext

/-- An id is in the list nested below a parent. -/
def NestingPlan.Nests (plan : NestingPlan) (parent id : EntryId) : Prop :=
  ∃ kids, plan.nested[parent]? = some kids ∧ id ∈ kids

/-- The id of a file. -/
def StoreSnapshot.IsFile (snapshot : StoreSnapshot) (id : EntryId) : Prop :=
  ∃ entry, snapshot.entries[id]? = some entry ∧ entry.kind = .file

/-- A plan deals out the visible children of a directory. -/
structure ProjectionContext.Partition (context : ProjectionContext) (parentId : EntryId) (plan : NestingPlan) :
    Prop where
  /-- No child is visible twice, so none occurs twice in a list that keeps the order. -/
  distinct : (context.visibleChildren parentId).Nodup
  roots_ordered : plan.roots.Sublist (context.visibleChildren parentId)
  nested_ordered : ∀ (parent : EntryId) kids, plan.nested[parent]? = some kids →
    kids.Sublist (context.visibleChildren parentId)
  /-- Each is a root, or below exactly one parent. -/
  once : ∀ id ∈ context.visibleChildren parentId,
    id ∈ plan.roots ∧ (∀ parent, ¬plan.Nests parent id) ∨ id ∉ plan.roots ∧ ∃! parent, plan.Nests parent id
  files : ∀ parent id, plan.Nests parent id → context.snapshot.IsFile parent ∧ context.snapshot.IsFile id
  rooted : ∀ parent : EntryId, plan.nested[parent]?.isSome = true →
    parent ∈ plan.roots ∧ context.snapshot.IsFile parent
  named : ∀ parent id, plan.Nests parent id → ∃ above below,
    context.snapshot.entries[parent]? = some above ∧ context.snapshot.entries[id]? = some below ∧
      context.NamedBy above below

namespace ProjectionContext

theorem isFile_of_mem (member : id ∈ context.files files) : context.snapshot.IsFile id := by
  have file := (List.mem_filter.mp member).2
  rw [Option.any_eq_true] at file
  obtain ⟨entry, present, kind⟩ := file
  exact ⟨entry, present, by simpa using kind⟩

theorem plan_dealt (distinct : (context.visibleChildren parentId).Nodup)
    (ruled : context.snapshot.fileNesting.isEmpty = false) :
    ∃ nesting, context.plan parentId =
        ⟨(context.visibleChildren parentId).filter (· ∉ nesting.claimed), nesting.nested⟩ ∧
      nesting.Sound (context.files (context.visibleChildren parentId)) ∧
      context.Dealt (context.files (context.visibleChildren parentId)) nesting := by
  have files : (context.files (context.visibleChildren parentId)).Nodup := distinct.filter _
  refine ⟨_, by rw [plan, ruled]; rfl, ?_, ?_⟩
  · exact foldl_nest_sound (by refine ⟨?_, ?_, ?_, ?_, ?_, ?_, ?_⟩ <;> simp) (fun id member => member)
  · exact foldl_nest_dealt files (by refine ⟨?_, ?_, ?_⟩ <;> simp) files (by simp)

theorem plan_partition (distinct : (context.visibleChildren parentId).Nodup) :
    context.Partition parentId (context.plan parentId) := by
  have planned := @plan_planned context parentId
  by_cases plain : context.snapshot.fileNesting.isEmpty = true
  · have same : context.plan parentId = ⟨context.visibleChildren parentId, ∅⟩ :=
      StoreSnapshot.plan_of_isEmpty plain context.includeIgnored
    rw [same]
    refine ⟨distinct, List.Sublist.refl _, ?_, ?_, ?_, ?_, ?_⟩ <;> simp [NestingPlan.Nests]
  · obtain ⟨nesting, same, sound, dealt⟩ := plan_dealt distinct (Bool.eq_false_iff.mpr plain)
    have nests {parent id : EntryId} (nested : (context.plan parentId).Nests parent id) :
        id ∈ context.files (context.visibleChildren parentId) := by
      obtain ⟨kids, found, member⟩ := nested
      exact planned.kids_visible parent kids found id member
    constructor
    · exact distinct
    · exact planned.roots_sublist
    · intro parent kids found
      rw [same] at found
      exact (dealt.ordered parent kids found).trans List.filter_sublist
    · intro id visible
      by_cases claimed : id ∈ nesting.claimed
      · obtain ⟨parent, kids, found, member⟩ := dealt.claimed id claimed
        have nested : (context.plan parentId).Nests parent id := ⟨kids, by rw [same]; exact found, member⟩
        refine .inr ⟨?_, parent, nested, ?_⟩
        · rw [same]
          simp [claimed]
        · rintro other ⟨others, foundOther, inOthers⟩
          obtain ⟨kids, found, member⟩ := nested
          exact planned.kids_once other parent others kids foundOther found id inOthers member
      · refine .inl ⟨?_, ?_⟩
        · rw [same]
          exact List.mem_filter.mpr ⟨visible, decide_eq_true claimed⟩
        · rintro parent ⟨kids, found, member⟩
          rw [same] at found
          exact claimed (sound.kids_claimed parent kids found id member)
    · intro parent id nested
      obtain ⟨kids, found, member⟩ := nested
      have rooted := (planned.parents_rooted parent (by rw [found]; rfl)).2
      exact ⟨isFile_of_mem rooted, isFile_of_mem (planned.kids_visible parent kids found id member)⟩
    · intro parent present
      obtain ⟨inRoots, file⟩ := planned.parents_rooted parent present
      exact ⟨inRoots, isFile_of_mem file⟩
    · rintro parent id ⟨kids, found, member⟩
      rw [same] at found
      obtain ⟨above, present, matches_rule⟩ := dealt.named parent kids found
      obtain ⟨below, here, named⟩ := matched_named (matches_rule id member)
      exact ⟨above, below, present, here, named⟩

end ProjectionContext

namespace EntryStore

variable {store : EntryStore}

theorem edits_housed {order : SiblingOrder} {visibility : VisibilityPolicy} {compactFolders : Bool}
    {fileNesting : FileNestingPolicy}
    (run : Run edit (fun _ _ => True) (withProjectionSettings order visibility compactFolders fileNesting) store) :
    store.Housed :=
  run.invariant Housed (empty_housed order visibility compactFolders fileNesting)
    fun _ step housed _ => (edit_published housed.ceiling step).housed housed

/-- In every reachable store, under any nesting rules, the plan of any directory deals its
visible children out. -/
theorem plans_partition {order : SiblingOrder} {visibility : VisibilityPolicy} {compactFolders : Bool}
    {fileNesting : FileNestingPolicy} (toLowercase : String → String) (includeIgnored : Bool) (parentId : EntryId)
    (run : Run edit (fun _ _ => True) (withProjectionSettings order visibility compactFolders fileNesting) store) :
    (ProjectionContext.mk store.inner includeIgnored toLowercase).Partition parentId
      ((ProjectionContext.mk store.inner includeIgnored toLowercase).plan parentId) :=
  ProjectionContext.plan_partition (((edits_housed run).nodup parentId).filter _)

/-- Two sources in a folder, one with its output beside it. -/
def compiled : EntryStore :=
  ((withProjectionSettings default default false ⟨[⟨"", ".ts", true, ["$\x7bcapture\x7d.js"]⟩], true⟩).edit
    (.op (.insert (Path.ofNames ["r"])
      ⟨0, none, "r", .directory, 0, 0, 0, none, none, false, false, false, false⟩))).edit
    (.op (.insertBatch
      [(Path.ofNames ["r", "a.js"], ⟨0, some 0, "a.js", .file, 0, 0, 0, none, none, false, false, false, false⟩),
        (Path.ofNames ["r", "a.ts"], ⟨0, some 0, "a.ts", .file, 0, 0, 0, none, none, false, false, false, false⟩),
        (Path.ofNames ["r", "b.ts"], ⟨0, some 0, "b.ts", .file, 0, 0, 0, none, none, false, false, false,
          false⟩)]))

theorem plans_partition_compiled :
    (ProjectionContext.mk compiled.inner false String.toLower).Partition 0
      ((ProjectionContext.mk compiled.inner false String.toLower).plan 0) :=
  plans_partition String.toLower false 0 ((Run.start.step _ trivial).step _ trivial)

end EntryStore

end Mille
