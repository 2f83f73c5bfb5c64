import Mille.Core.Projection

/-! A nesting plan hands each file to one parent at most: the invariant of the
loop over the parent candidates. -/

namespace Mille

variable {context : ProjectionContext} {files kids : List EntryId} {nesting : Nesting}
variable {id candidate parentId child : EntryId}

/-- What holds between two candidates: files are claimed once, and never by or from a parent. -/
structure Nesting.Sound (files : List EntryId) (nesting : Nesting) : Prop where
  claimed_files : ∀ id ∈ nesting.claimed, id ∈ files
  parents_files : ∀ id ∈ nesting.parents, id ∈ files
  apart : ∀ id ∈ nesting.parents, id ∉ nesting.claimed
  keys : ∀ id : EntryId, nesting.nested[id]?.isSome = true → id ∈ nesting.parents
  kids_claimed : ∀ (id : EntryId) kids, nesting.nested[id]? = some kids → ∀ child ∈ kids, child ∈ nesting.claimed
  kids_nodup : ∀ (id : EntryId) kids, nesting.nested[id]? = some kids → kids.Nodup
  kids_once : ∀ (first second : EntryId) left right, nesting.nested[first]? = some left →
    nesting.nested[second]? = some right → ∀ child ∈ left, child ∈ right → first = second

namespace ProjectionContext

theorem mem_sortByRank : id ∈ sortByRank files kids ↔ id ∈ kids :=
  (List.mergeSort_perm _ _).mem_iff

theorem sortByRank_nodup (nodup : kids.Nodup) : (sortByRank files kids).Nodup :=
  (List.mergeSort_perm _ _).nodup_iff.mpr nodup

/-- What a candidate's matches take. -/
structure Taken (before parents : Finset EntryId) (candidate : EntryId) (found : List EntryId)
    (taken : Finset EntryId × List EntryId) : Prop where
  nodup : taken.2.Nodup
  fresh : ∀ child ∈ taken.2, child ∉ before ∧ child ≠ candidate ∧ child ∉ parents ∧ child ∈ found
  claimed : ∀ child, child ∈ taken.1 ↔ child ∈ before ∨ child ∈ taken.2

theorem claim_taken {before parents : Finset EntryId} {found : List EntryId} {taken : Finset EntryId × List EntryId}
    (sound : Taken before parents candidate found taken) (listed : child ∈ found) :
    Taken before parents candidate found (claim parents candidate taken child) := by
  unfold claim
  split
  · exact sound
  · next free =>
    rw [not_or, not_or] at free
    obtain ⟨other, unclaimed, childless⟩ := free
    rw [sound.claimed, not_or] at unclaimed
    refine ⟨?_, fun id member => ?_, fun id => ?_⟩
    · exact List.nodup_append.mpr ⟨sound.nodup, List.nodup_singleton _,
        fun one here two there => by rw [List.mem_singleton.mp there]; exact fun same => unclaimed.2 (same ▸ here)⟩
    · rcases List.mem_append.mp member with earlier | last
      · exact sound.fresh id earlier
      · rw [List.mem_singleton.mp last]
        exact ⟨unclaimed.1, other, childless, listed⟩
    · rw [Finset.mem_insert, List.mem_append, List.mem_singleton, sound.claimed]
      tauto

theorem foldl_claim_taken {before parents : Finset EntryId} {found rest : List EntryId}
    {taken : Finset EntryId × List EntryId} (sound : Taken before parents candidate found taken)
    (listed : ∀ child ∈ rest, child ∈ found) :
    Taken before parents candidate found (rest.foldl (claim parents candidate) taken) := by
  induction rest generalizing taken with
  | nil => exact sound
  | cons child rest ih =>
    obtain ⟨here, others⟩ := List.forall_mem_cons.mp listed
    exact ih (claim_taken sound here) others

theorem mem_matched {parent : Entry} (member : id ∈ context.matched files parent) : id ∈ files := by
  unfold matched at member
  obtain ⟨rule, _, inside⟩ := List.mem_flatMap.mp member
  split at inside
  · cases inside
  · obtain ⟨name, _, listed⟩ := List.mem_flatMap.mp inside
    exact List.mem_of_mem_filter listed

/-- One candidate keeps the invariant. -/
theorem nest_sound (sound : nesting.Sound files) (listed : candidate ∈ files) :
    (context.nest files nesting candidate).Sound files := by
  unfold nest
  split
  · exact sound
  · next unclaimed =>
    split
    · exact sound
    · next parent _ =>
      have start : Taken nesting.claimed nesting.parents candidate (context.matched files parent)
          (nesting.claimed, []) := ⟨List.nodup_nil, by simp, by simp⟩
      have taken := foldl_claim_taken start (fun child member => member)
      generalize (context.matched files parent).foldl (claim nesting.parents candidate) (nesting.claimed, []) =
        result at taken
      obtain ⟨claimed, children⟩ := result
      have files_of (id : EntryId) (member : id ∈ claimed) : id ∈ files := by
        rcases (taken.claimed id).mp member with before | now
        · exact sound.claimed_files id before
        · exact mem_matched (taken.fresh id now).2.2.2
      have free (id : EntryId) (member : id ∈ nesting.parents) : id ∉ claimed := by
        intro here
        rcases (taken.claimed id).mp here with before | now
        · exact sound.apart id member before
        · exact (taken.fresh id now).2.2.1 member
      have old (child : EntryId) (before : child ∈ nesting.claimed) : child ∈ claimed :=
        (taken.claimed child).mpr (.inl before)
      dsimp only
      split
      · exact ⟨files_of, sound.parents_files, free, sound.keys,
          fun id kids found child member => old child (sound.kids_claimed id kids found child member),
          sound.kids_nodup, sound.kids_once⟩
      · have candidate_free : candidate ∉ claimed := by
          intro here
          rcases (taken.claimed candidate).mp here with before | now
          · exact unclaimed before
          · exact (taken.fresh candidate now).2.1 rfl
        have now {id : EntryId} {kids : List EntryId}
            (found : (nesting.nested.insert candidate (sortByRank files children))[id]? = some kids) :
            candidate = id ∧ kids = sortByRank files children ∨ nesting.nested[id]? = some kids := by
          rw [Maps.lookup_insert] at found
          split at found
          · next same => exact .inl ⟨same, (Option.some.inj found).symm⟩
          · exact .inr found
        have late {id child : EntryId} {kids : List EntryId} (found : nesting.nested[id]? = some kids)
            (member : child ∈ kids) : child ∉ children :=
          fun again => (taken.fresh child again).1 (sound.kids_claimed id kids found child member)
        refine ⟨files_of, fun id member => ?_, fun id member => ?_, fun id present => ?_,
          fun id kids found child member => ?_, fun id kids found => ?_, ?_⟩
        · rcases Finset.mem_insert.mp member with rfl | earlier
          · exact listed
          · exact sound.parents_files id earlier
        · rcases Finset.mem_insert.mp member with rfl | earlier
          · exact candidate_free
          · exact free id earlier
        · obtain ⟨kids, found⟩ := Option.isSome_iff_exists.mp present
          rcases now found with ⟨rfl, _⟩ | before
          · exact Finset.mem_insert_self _ _
          · exact Finset.mem_insert_of_mem (sound.keys id (by simp [before]))
        · rcases now found with ⟨_, rfl⟩ | before
          · exact (taken.claimed child).mpr (.inr (mem_sortByRank.mp member))
          · exact old child (sound.kids_claimed id kids before child member)
        · rcases now found with ⟨_, rfl⟩ | before
          · exact sortByRank_nodup taken.nodup
          · exact sound.kids_nodup id kids before
        · intro first second left right one two child here there
          rcases now one with ⟨rfl, rfl⟩ | before <;> rcases now two with ⟨same, rfl⟩ | earlier
          · exact same
          · exact absurd (mem_sortByRank.mp here) (late earlier there)
          · exact absurd (mem_sortByRank.mp there) (late before here)
          · exact sound.kids_once first second left right before earlier child here there

theorem foldl_nest_sound {rest : List EntryId} (sound : nesting.Sound files) (listed : ∀ id ∈ rest, id ∈ files) :
    (rest.foldl (context.nest files) nesting).Sound files := by
  induction rest generalizing nesting with
  | nil => exact sound
  | cons candidate rest ih =>
    obtain ⟨here, others⟩ := List.forall_mem_cons.mp listed
    exact ih (nest_sound sound here) others

/-- A plan over one directory's visible children. -/
structure Planned (context : ProjectionContext) (parentId : EntryId) (plan : NestingPlan) : Prop where
  /-- Roots keep the sibling order. -/
  roots_sublist : plan.roots.Sublist (context.visibleChildren parentId)
  kids_visible : ∀ (id : EntryId) kids, plan.nested[id]? = some kids →
    ∀ child ∈ kids, child ∈ context.files (context.visibleChildren parentId)
  kids_unrooted : ∀ (id : EntryId) kids, plan.nested[id]? = some kids → ∀ child ∈ kids, child ∉ plan.roots
  kids_childless : ∀ (id : EntryId) kids, plan.nested[id]? = some kids →
    ∀ child ∈ kids, plan.nested[child]? = none
  kids_nodup : ∀ (id : EntryId) kids, plan.nested[id]? = some kids → kids.Nodup
  kids_once : ∀ (first second : EntryId) left right, plan.nested[first]? = some left →
    plan.nested[second]? = some right → ∀ child ∈ left, child ∈ right → first = second
  parents_rooted : ∀ id : EntryId, plan.nested[id]?.isSome = true →
    id ∈ plan.roots ∧ id ∈ context.files (context.visibleChildren parentId)

theorem plan_planned : Planned context parentId (context.plan parentId) := by
  unfold plan
  split
  · refine ⟨List.Sublist.refl _, ?_, ?_, ?_, ?_, ?_, ?_⟩ <;> simp
  · have sound := @foldl_nest_sound context (context.files (context.visibleChildren parentId)) ⟨∅, ∅, ∅⟩
      (context.files (context.visibleChildren parentId))
      (by refine ⟨?_, ?_, ?_, ?_, ?_, ?_, ?_⟩ <;> simp) (fun id member => member)
    dsimp only
    generalize (context.files (context.visibleChildren parentId)).foldl
      (context.nest (context.files (context.visibleChildren parentId))) ⟨∅, ∅, ∅⟩ = nesting at sound
    refine ⟨List.filter_sublist, fun id kids found child member => ?_, fun id kids found child member rooted => ?_,
      fun id kids found child member => ?_, sound.kids_nodup, sound.kids_once, fun id present => ?_⟩
    · exact sound.claimed_files child (sound.kids_claimed id kids found child member)
    · have unclaimed := (List.mem_filter.mp rooted).2
      rw [decide_eq_true_iff] at unclaimed
      exact unclaimed (sound.kids_claimed id kids found child member)
    · rw [← Option.not_isSome_iff_eq_none]
      intro present
      exact sound.apart child (sound.keys child present) (sound.kids_claimed id kids found child member)
    · have parent := sound.keys id present
      have file := sound.parents_files id parent
      refine ⟨List.mem_filter.mpr ⟨List.mem_of_mem_filter file, ?_⟩, file⟩
      exact decide_eq_true (sound.apart id parent)

end ProjectionContext

end Mille
