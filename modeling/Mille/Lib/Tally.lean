import Mille.Lib.Forest

/-! Weights summed over the nodes below each node of a finite forest, and how
the sums move when leaves are added, a branch leaves, a branch hangs elsewhere
or one weight changes. -/

namespace Mille.Forest

open Classical

variable {α : Type} {parent parent' : α → Option (Option α)}
variable {known known' : Finset α} {weight weight' : α → Nat} {node top low above : α}

/-- The total weight of the known nodes at or below `top`. -/
noncomputable def tally (parent : α → Option (Option α)) (known : Finset α) (weight : α → Nat)
    (top : α) : Nat :=
  ∑ low ∈ known with Below parent top low, weight low

theorem tally_congr (same : ∀ low, Below parent' top low ∧ low ∈ known' ↔ Below parent top low ∧ low ∈ known)
    (equal : ∀ low ∈ known, Below parent top low → weight' low = weight low) :
    tally parent' known' weight' top = tally parent known weight top := by
  refine Finset.sum_congr ?_ ?_
  · ext low
    rw [Finset.mem_filter, Finset.mem_filter]
    exact and_comm.trans ((same low).trans and_comm)
  · intro low member
    obtain ⟨here, below⟩ := Finset.mem_filter.mp member
    exact equal low here below

theorem weight_le_tally (member : low ∈ known) (below : Below parent top low) :
    weight low ≤ tally parent known weight top :=
  Finset.single_le_sum (fun _ _ => Nat.zero_le _) (Finset.mem_filter.mpr ⟨member, below⟩)

theorem tally_mono (below : Below parent top node) :
    tally parent known weight node ≤ tally parent known weight top := by
  refine Finset.sum_le_sum_of_subset fun low member => ?_
  obtain ⟨here, lower⟩ := Finset.mem_filter.mp member
  exact Finset.mem_filter.mpr ⟨here, below.trans lower⟩

theorem Below.congr (closed : ∀ node above, node ∈ known → parent node = some (some above) → above ∈ known)
    (agree : ∀ node ∈ known, parent' node = parent node) (here : low ∈ known) :
    Below parent' top low ↔ Below parent top low := by
  constructor
  · intro path
    induction path with
    | self => exact .self
    | child link rest ih =>
      have before := (agree _ here).symm.trans link
      exact .child before (ih (closed _ _ here before))
  · intro path
    induction path with
    | self => exact .self
    | child link rest ih => exact .child ((agree _ here).trans link) (ih (closed _ _ here link))

theorem below_iff_link (strict : low ≠ top) :
    Below parent top low ↔ ∃ above, parent low = some (some above) ∧ Below parent top above := by
  constructor
  · intro path
    cases path with
    | self => exact absurd rfl strict
    | child link rest => exact ⟨_, link, rest⟩
  · rintro ⟨above, link, rest⟩
    exact .child link rest

theorem tally_eq (rooted : ∀ node ∈ known, Rooted parent node) (here : top ∈ known) :
    tally parent known weight top = weight top +
      ∑ low ∈ known, if ∃ above, parent low = some (some above) ∧ Below parent top above then weight low else 0 := by
  unfold tally
  rw [← Finset.sum_filter]
  have split : known.filter (Below parent top) = insert top (known.filter (fun low =>
      ∃ above, parent low = some (some above) ∧ Below parent top above)) := by
    ext low
    simp only [Finset.mem_filter, Finset.mem_insert]
    constructor
    · rintro ⟨member, below⟩
      cases below with
      | self => exact .inl rfl
      | child link rest => exact .inr ⟨member, _, link, rest⟩
    · rintro (rfl | ⟨member, above, link, below⟩)
      · exact ⟨here, .self⟩
      · exact ⟨member, .child link below⟩
  rw [split, Finset.sum_insert]
  intro member
  obtain ⟨_, above, link, below⟩ := Finset.mem_filter.mp member
  exact (rooted top here).no_cycle link below

theorem tally_reweigh (here : node ∈ known) (others : ∀ low ∈ known, low ≠ node → weight' low = weight low) :
    tally parent known weight' top + (if Below parent top node then weight node else 0) =
      tally parent known weight top + (if Below parent top node then weight' node else 0) := by
  have apart : ∑ low ∈ (known.filter (Below parent top)).erase node, weight' low =
      ∑ low ∈ (known.filter (Below parent top)).erase node, weight low := by
    refine Finset.sum_congr rfl fun low member => ?_
    obtain ⟨distinct, inside⟩ := Finset.mem_erase.mp member
    exact others low (Finset.mem_filter.mp inside).1 distinct
  unfold tally
  by_cases below : Below parent top node
  · have inside : node ∈ known.filter (Below parent top) := Finset.mem_filter.mpr ⟨here, below⟩
    rw [if_pos below, if_pos below, ← Finset.sum_erase_add _ _ inside, ← Finset.sum_erase_add _ _ inside, apart]
    omega
  · have outside : node ∉ known.filter (Below parent top) := fun member => below (Finset.mem_filter.mp member).2
    rw [Finset.erase_eq_of_notMem outside] at apart
    rw [if_neg below, if_neg below, apart]

/-- A branch that leaves takes its tally from every node above it. -/
theorem tally_prune (closed : ∀ node above, node ∈ known → parent node = some (some above) → above ∈ known)
    (remaining : ∀ low, low ∈ known' ↔ low ∈ known ∧ ¬ Below parent node low)
    (kept : ∀ low ∈ known', parent' low = parent low) (apart : ¬ Below parent node top) :
    tally parent known weight top = tally parent' known' weight top +
      (if Below parent top node then tally parent known weight node else 0) := by
  have upward (low above : α) (member : low ∈ known') (link : parent low = some (some above)) :
      above ∈ known' := by
    obtain ⟨here, out⟩ := (remaining low).mp member
    exact (remaining above).mpr ⟨closed low above here link, fun below => out (.child link below)⟩
  have rest : tally parent' known' weight top =
      ∑ low ∈ known with Below parent top low ∧ ¬ Below parent node low, weight low := by
    refine Finset.sum_congr ?_ fun _ _ => rfl
    ext low
    rw [Finset.mem_filter, Finset.mem_filter, remaining]
    constructor
    · rintro ⟨member, below⟩
      exact ⟨member.1, (Below.congr upward kept ((remaining low).mpr member)).mp below, member.2⟩
    · rintro ⟨here, below, out⟩
      exact ⟨⟨here, out⟩, (Below.congr upward kept ((remaining low).mpr ⟨here, out⟩)).mpr below⟩
  have gone : ∑ low ∈ known with Below parent top low ∧ Below parent node low, weight low =
      if Below parent top node then tally parent known weight node else 0 := by
    split
    · rename_i covers
      refine Finset.sum_congr ?_ fun _ _ => rfl
      ext low
      rw [Finset.mem_filter, Finset.mem_filter]
      exact and_congr_right fun _ => ⟨And.right, fun below => ⟨covers.trans below, below⟩⟩
    · rename_i beside
      refine Finset.sum_eq_zero fun low member => ?_
      obtain ⟨_, first, second⟩ := Finset.mem_filter.mp member
      exact ((first.linear second).elim beside apart).elim
  rw [rest, ← gone, add_comm]
  unfold tally
  rw [← Finset.sum_filter_add_sum_filter_not (known.filter (Below parent top)) (Below parent node),
    Finset.filter_filter, Finset.filter_filter]

theorem tally_apart (closed : ∀ node above, node ∈ known' → parent node = some (some above) → above ∈ known')
    (remaining : known' ⊆ known) (kept : ∀ low ∈ known', parent' low = parent low)
    (whole : ∀ low ∈ known, Below parent top low → low ∈ known') :
    tally parent' known' weight top = tally parent known weight top := by
  refine tally_congr (fun low => ?_) fun _ _ _ => rfl
  constructor
  · rintro ⟨below, member⟩
    exact ⟨(Below.congr closed kept member).mp below, remaining member⟩
  · rintro ⟨below, member⟩
    have here := whole low member below
    exact ⟨(Below.congr closed kept here).mpr below, here⟩

section Graft

variable {fresh : Finset α}

theorem tally_graft (closed : ∀ node above, node ∈ known → parent node = some (some above) → above ∈ known)
    (kept : ∀ low ∈ known, parent' low = parent low) (new : Disjoint known fresh)
    (all : ∀ low, low ∈ known' ↔ low ∈ known ∨ low ∈ fresh) (equal : ∀ low ∈ known, weight' low = weight low)
    (here : top ∈ known) : tally parent' known' weight' top = tally parent known weight top + ∑ node ∈ fresh,
      if ∃ above, parent' node = some (some above) ∧ Below parent' top above then weight' node else 0 := by
  have union : known' = known ∪ fresh := by
    ext low
    rw [all, Finset.mem_union]
  unfold tally
  rw [union, Finset.filter_union, Finset.sum_union (Finset.disjoint_filter_filter new), ← Finset.sum_filter]
  congr 1
  · refine Finset.sum_congr ?_ fun low member => equal low (Finset.mem_filter.mp member).1
    exact Finset.filter_congr fun low member => Below.congr closed kept member
  · refine Finset.sum_congr (Finset.filter_congr fun node member => ?_) fun _ _ => rfl
    constructor
    · intro below
      cases below with
      | self => exact absurd member (Finset.disjoint_left.mp new here)
      | child link rest => exact ⟨_, link, rest⟩
    · rintro ⟨above, link, below⟩
      exact .child link below

theorem leaf_not_below (closed : ∀ node above, node ∈ known → parent node = some (some above) → above ∈ known)
    (kept : ∀ low ∈ known, parent' low = parent low) (new : Disjoint known fresh) (here : top ∈ fresh)
    (member : low ∈ known) : ¬ Below parent' top low := by
  intro below
  induction below with
  | self => exact Finset.disjoint_left.mp new member here
  | child link rest ih => exact ih (closed _ _ member ((kept _ member).symm.trans link))

theorem tally_leaf (closed : ∀ node above, node ∈ known → parent node = some (some above) → above ∈ known)
    (kept : ∀ low ∈ known, parent' low = parent low) (new : Disjoint known fresh)
    (all : ∀ low, low ∈ known' ↔ low ∈ known ∨ low ∈ fresh)
    (hung : ∀ node ∈ fresh, ∀ above, parent' node = some (some above) → above ∈ known) (here : top ∈ fresh) :
    tally parent' known' weight' top = weight' top := by
  unfold tally
  rw [Finset.sum_eq_single_of_mem top]
  · exact Finset.mem_filter.mpr ⟨(all top).mpr (.inr here), .self⟩
  · intro low member distinct
    obtain ⟨inside, below⟩ := Finset.mem_filter.mp member
    refine (?_ : False).elim
    rcases (all low).mp inside with old | added
    · exact leaf_not_below closed kept new here old below
    · cases below with
      | self => exact distinct rfl
      | child link rest => exact leaf_not_below closed kept new here (hung low added _ link) rest

end Graft

section Regraft

variable (others : ∀ other, other ≠ node → parent' other = parent other)

include others

theorem below_moved : Below parent' node low ↔ Below parent node low := by
  constructor
  · intro path
    induction path with
    | self => exact .self
    | @child low above link rest ih =>
      by_cases same : low = node
      · rw [same]
        exact .self
      · exact .child ((others low same).symm.trans link) ih
  · intro path
    induction path with
    | self => exact .self
    | @child low above link rest ih =>
      by_cases same : low = node
      · rw [same]
        exact .self
      · exact .child ((others low same).trans link) ih

theorem below_unmoved (outside : ¬ Below parent node low) : Below parent' top low ↔ Below parent top low := by
  have distinct {low : α} (outside : ¬ Below parent node low) : low ≠ node := by
    rintro rfl
    exact outside .self
  constructor
  · intro path
    induction path with
    | self => exact .self
    | child link rest ih =>
      have before := (others _ (distinct outside)).symm.trans link
      exact .child before (ih fun below => outside (.child before below))
  · intro path
    induction path with
    | self => exact .self
    | child link rest ih =>
      exact .child ((others _ (distinct outside)).trans link) (ih fun below => outside (.child link below))

theorem below_inside (rooted : Rooted parent node) {new : α} (moved : parent' node = some (some new))
    (outside : ¬ Below parent node new) (inside : Below parent node top) :
    Below parent' top low ↔ Below parent top low := by
  constructor
  · intro path
    induction path with
    | self => exact .self
    | @child low above link rest ih =>
      by_cases same : low = node
      · rw [same, moved] at link
        cases link
        exact absurd (inside.trans ih) outside
      · exact .child ((others low same).symm.trans link) ih
  · intro path
    induction path with
    | self => exact .self
    | @child low above link rest ih =>
      by_cases same : low = node
      · exact absurd (inside.trans rest) (rooted.no_cycle (same ▸ link))
      · exact .child ((others low same).trans link) ih

theorem tally_moved : tally parent' known weight node = tally parent known weight node :=
  tally_congr (fun _ => and_congr_left fun _ => below_moved others) fun _ _ _ => rfl

theorem tally_regraft (closed : ∀ node above, node ∈ known → parent node = some (some above) → above ∈ known)
    {old new : α} (link : parent node = some (some old)) (moved : parent' node = some (some new))
    (target : new ∈ known) (outside : ¬ Below parent node new) (apart : ¬ Below parent node top) :
    tally parent' known weight top + (if Below parent top old then tally parent known weight node else 0) =
      tally parent known weight top + (if Below parent top new then tally parent known weight node else 0) := by
  have strict : node ≠ top := by
    rintro rfl
    exact apart .self
  have closed' (low above : α) (member : low ∈ known) (up : parent' low = some (some above)) : above ∈ known := by
    by_cases same : low = node
    · rw [same, moved] at up
      cases up
      exact target
    · exact closed low above member ((others low same).symm.trans up)
  have remaining (low : α) : low ∈ known.filter (¬ Below parent node ·) ↔
      low ∈ known ∧ ¬ Below parent node low := Finset.mem_filter
  have before := @tally_prune _ parent parent known _ weight node top closed remaining (fun _ _ => rfl) apart
  have after := @tally_prune _ parent' parent known _ weight node top closed'
    (fun low => (remaining low).trans (and_congr_right fun _ => not_congr (below_moved others).symm))
    (fun low member => (others low (by rintro rfl; exact ((remaining low).mp member).2 .self)).symm)
    (fun below => apart ((below_moved others).mp below))
  have leaves : Below parent top node ↔ Below parent top old :=
    ⟨fun path => path.last_step strict link, .child link⟩
  have arrives : Below parent' top node ↔ Below parent top new :=
    Iff.trans ⟨fun path => path.last_step strict moved, .child moved⟩ (below_unmoved others outside)
  rw [tally_moved others] at after
  simp only [leaves] at before
  simp only [arrives] at after
  rw [before, after]
  omega

end Regraft

end Mille.Forest
