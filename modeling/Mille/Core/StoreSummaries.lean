import Mille.Core.StoreChanges
import Mille.Lib.Tally

/-! The ancestor summaries against what they stand for: the visible rows and the
bytes below each entry, summed over the forest. -/

namespace Mille

open Classical Maps Forest

/-- The two summaries a snapshot keeps. -/
inductive Measure where
  | rows | bytes
  deriving DecidableEq

namespace Measure

/-- One past the largest value of the slot's integer type. -/
def limit : Measure → Nat
  | rows => 2 ^ 32
  | bytes => 2 ^ 64

/-- What one entry counts for. -/
def weigh (policy : VisibilityPolicy) (entry : Entry) : Measure → Nat
  | rows => if policy.includes entry then 1 else 0
  | bytes => entry.size.toNat

/-- One of two amounts that travel together. -/
def pick (count : UInt32) (total : UInt64) : Measure → Nat
  | rows => count.toNat
  | bytes => total.toNat

/-- One of two signed differences that travel together. -/
def pickDelta (visible size : Int) : Measure → Int
  | rows => visible
  | bytes => size

end Measure

namespace Summaries

variable {sums : Summaries} {chain ids : List EntryId} {id other : EntryId} {measure : Measure}
variable {policy : VisibilityPolicy} {entry : Entry}

def reading (sums : Summaries) : Measure → EntryId → Nat
  | .rows => sums.visible
  | .bytes => sums.size

theorem reading_lt : sums.reading measure id < measure.limit := by
  cases measure with
  | rows => exact visible_lt
  | bytes => exact size_lt

theorem pick_reading : measure.pick (sums.visibleCounts.getD id 0) (sums.totalSizes.getD id 0) =
    sums.reading measure id := by
  cases measure <;> rfl

theorem seed_reading : (sums.seed id (policy.includes entry) entry.size).reading measure other =
    if id = other then measure.weigh policy entry else sums.reading measure other := by
  cases measure with
  | rows => exact seed_visible _ _
  | bytes => exact seed_size _ _

theorem erase_reading : (sums.erase ids).reading measure other =
    if other ∈ ids then 0 else sums.reading measure other := by
  cases measure with
  | rows => exact erase_visible
  | bytes => exact erase_size

theorem add_reading (count : UInt32) (total : UInt64) :
    (sums.add chain (some count) total).reading measure other =
      (sums.reading measure other + chain.count other * measure.pick count total) % measure.limit := by
  cases measure with
  | rows => exact add_visible count total
  | bytes => exact add_size _ total

theorem add_entry_reading :
    (sums.add chain (if policy.includes entry then some 1 else none) entry.size).reading measure other =
      (sums.reading measure other + chain.count other * measure.weigh policy entry) % measure.limit := by
  cases measure with
  | bytes => exact add_size _ _
  | rows =>
    by_cases counted : policy.includes entry = true
    · simp only [counted, if_true, Measure.weigh]
      exact add_visible 1 _
    · simp only [counted, Measure.weigh]
      refine (add_visible_none _).trans ?_
      simp only [Bool.false_eq_true, if_false, Nat.mul_zero, Nat.add_zero]
      exact (Nat.mod_eq_of_lt visible_lt).symm

theorem sub_reading (count : UInt32) (total : UInt64) : (sums.sub chain count total).reading measure other =
    sums.reading measure other - chain.count other * measure.pick count total := by
  cases measure with
  | rows => exact sub_visible count total
  | bytes => exact sub_size count total

theorem shift_reading_same {visible size : Int} (still : measure.pickDelta visible size = 0 ∨ other ∉ chain) :
    (sums.shift chain visible size).reading measure other = sums.reading measure other := by
  cases measure with
  | rows => exact shift_visible_same still
  | bytes => exact shift_size_same still

theorem shift_reading_moved {visible size : Int} (once : chain.Nodup) (member : other ∈ chain)
    (low : 0 ≤ (sums.reading measure other : Int) + measure.pickDelta visible size)
    (high : (sums.reading measure other : Int) + measure.pickDelta visible size < measure.limit) :
    ((sums.shift chain visible size).reading measure other : Int) =
      sums.reading measure other + measure.pickDelta visible size := by
  cases measure with
  | rows => exact shift_visible_moved once member low high
  | bytes => exact shift_size_moved once member low high

end Summaries

section Chains

variable {entries entries' : IdMap Entry} {fuel : Nat} {link : Option EntryId} {id top : EntryId}
variable {snapshot : StoreSnapshot}

/-- A walk of so many hops comes to an end. -/
def Ends (entries : IdMap Entry) (fuel : Nat) (link : Option EntryId) : Prop :=
  (ancestorChain entries (fuel + 1) link).length ≤ fuel

theorem Ends.up (ends : Ends entries (fuel + 1) (some id)) :
    Ends entries fuel (entries[id]?.bind (·.parentId)) :=
  Nat.le_of_succ_le_succ ends

theorem Ends.mem_iff (ends : Ends snapshot.entries fuel (some id)) :
    top ∈ ancestorChain snapshot.entries fuel (some id) ↔ Below snapshot.parentLink top id := by
  induction fuel generalizing id with
  | zero => exact absurd ends (by simp [Ends, ancestorChain])
  | succ fuel ih =>
    rw [ancestorChain, List.mem_cons]
    constructor
    · rintro (rfl | higher)
      · exact .self
      · cases up : snapshot.entries[id]?.bind (·.parentId) with
        | none => simp [up, ancestorChain] at higher
        | some above =>
          have ends := up ▸ ends.up
          obtain ⟨entry, found, link⟩ := Option.bind_eq_some_iff.mp up
          rw [up] at higher
          exact .child (StoreSnapshot.parentLink_eq_some.mpr ⟨entry, found, link⟩) ((ih ends).mp higher)
    · intro path
      cases path with
      | self => exact .inl rfl
      | @child _ above link rest =>
        obtain ⟨entry, found, parent⟩ := StoreSnapshot.parentLink_eq_some.mp link
        have up : snapshot.entries[id]?.bind (·.parentId) = some above := by simp [found, parent]
        have ends := up ▸ ends.up
        rw [up]
        exact .inr ((ih ends).mpr rest)

theorem Ends.nodup (ends : Ends snapshot.entries fuel (some id)) (rooted : Rooted snapshot.parentLink id) :
    (ancestorChain snapshot.entries fuel (some id)).Nodup := by
  induction fuel generalizing id with
  | zero => exact List.nodup_nil
  | succ fuel ih =>
    rw [ancestorChain]
    cases up : snapshot.entries[id]?.bind (·.parentId) with
    | none => cases fuel <;> simp [ancestorChain]
    | some above =>
      have ends := up ▸ ends.up
      obtain ⟨entry, found, link⟩ := Option.bind_eq_some_iff.mp up
      have upper := StoreSnapshot.parentLink_eq_some.mpr ⟨entry, found, link⟩
      refine List.nodup_cons.mpr ⟨fun again => ?_, ih ends (rooted.up upper)⟩
      exact rooted.no_cycle upper (ends.mem_iff.mp again)

theorem Ends.count (ends : Ends snapshot.entries fuel link)
    (rooted : ∀ start, link = some start → Rooted snapshot.parentLink start) :
    (ancestorChain snapshot.entries fuel link).count top =
      if ∃ start, link = some start ∧ Below snapshot.parentLink top start then 1 else 0 := by
  cases link with
  | none => cases fuel <;> simp [ancestorChain]
  | some start =>
    rw [List.Nodup.count (ends.nodup (rooted start rfl))]
    simp [ends.mem_iff]

end Chains

namespace EntryStore

variable {store after : EntryStore} {id top : EntryId} {measure : Measure} {entry : Entry} {path : Path}

/-- The ids of the published records. -/
def known (store : EntryStore) : Finset EntryId :=
  store.inner.entries.keys.toFinset

/-- What the record of an id counts for. -/
def heft (store : EntryStore) (measure : Measure) (id : EntryId) : Nat :=
  store.inner.entries[id]?.elim 0 (fun entry => measure.weigh store.visibility entry)

/-- The sum over the known subtree of an id. -/
def gathered (store : EntryStore) (measure : Measure) (id : EntryId) : Nat :=
  ((store.inner.subtree [id]).map (store.heft measure)).sum

/-- No entry has more ancestors than a walk visits, and every sum fits its slot. -/
structure Roomy (store : EntryStore) : Prop where
  shallow : ∀ (id : EntryId) (entry : Entry), store.inner.entries[id]? = some entry →
    Ends store.inner.entries maxAncestorWalk entry.parentId
  fits : ∀ measure id, store.Live id → store.gathered measure id < measure.limit

/-- Each summary is the sum over the ids below. -/
def Summed (store : EntryStore) : Prop :=
  ∀ measure id, store.Live id → store.inner.descendants.reading measure id =
    tally store.inner.parentLink store.known (store.heft measure) id

theorem mem_known : id ∈ store.known ↔ store.Live id := by
  unfold known Live
  rw [List.mem_toFinset, Std.ExtTreeMap.mem_keys, ← Std.ExtTreeMap.isSome_getElem?_iff_mem]

theorem Forested.closed (forested : store.Forested) (node above : EntryId) (_ : node ∈ store.known)
    (link : store.inner.parentLink node = some (some above)) : above ∈ store.known :=
  mem_known.mpr (StoreSnapshot.parentLink_isSome.mp (forested.linked.parent_live link))

theorem Forested.rooted (forested : store.Forested) (live : store.Live id) :
    Rooted store.inner.parentLink id :=
  forested.linked.rooted id (StoreSnapshot.parentLink_isSome.mpr live)

theorem Forested.gathered_eq (forested : store.Forested) (live : store.Live id) :
    store.gathered measure id = tally store.inner.parentLink store.known (store.heft measure) id := by
  unfold gathered tally
  rw [← List.sum_toFinset _ (forested.subtree_nodup live)]
  refine Finset.sum_congr ?_ fun _ _ => rfl
  ext low
  rw [List.mem_toFinset, forested.mem_subtree live, Finset.mem_filter, mem_known]
  refine ⟨fun below => ⟨?_, below⟩, And.right⟩
  exact StoreSnapshot.parentLink_isSome.mp (below.live (StoreSnapshot.parentLink_isSome.mpr live))

theorem Roomy.tally_lt (roomy : store.Roomy) (forested : store.Forested) (live : store.Live id) :
    tally store.inner.parentLink store.known (store.heft measure) id < measure.limit := by
  rw [← forested.gathered_eq live]
  exact roomy.fits measure id live

theorem heft_eq (found : store.inner.entries[id]? = some entry) :
    store.heft measure id = measure.weigh store.visibility entry := by
  simp [heft, found]

theorem Roomy.count (roomy : store.Roomy) (forested : store.Forested)
    (found : store.inner.entries[id]? = some entry) :
    (ancestorChain store.inner.entries maxAncestorWalk entry.parentId).count top =
      if ∃ above, store.inner.parentLink id = some (some above) ∧ Below store.inner.parentLink top above
        then 1 else 0 := by
  have link : store.inner.parentLink id = some entry.parentId :=
    StoreSnapshot.parentLink_eq_some.mpr ⟨entry, found, rfl⟩
  rw [(roomy.shallow id entry found).count]
  · rw [link]
    simp only [Option.some.injEq]
  · intro above parent
    exact forested.rooted (forested.parent_live found parent)

section Additions

variable {additions : List Addition} {counter : Nat} {seen : List Path}

theorem addRecords_reading {snapshot : StoreSnapshot} {visibility : VisibilityPolicy} {addition : Addition}
    (distinct : (additions.map (·.id)).Nodup) (present : addition ∈ additions) :
    (snapshot.addRecords visibility additions).descendants.reading measure addition.id =
      measure.weigh visibility addition.entry := by
  unfold StoreSnapshot.addRecords
  induction additions generalizing snapshot with
  | nil => cases present
  | cons head rest ih =>
    obtain ⟨apart, distinct⟩ := List.nodup_cons.mp distinct
    rw [List.foldl_cons]
    rcases List.mem_cons.mp present with rfl | later
    · obtain ⟨visible, size⟩ := @addRecords_sums rest
        (snapshot.addRecord visibility addition.id addition.entry) visibility addition.id apart
      have stays : (rest.foldl (fun snapshot addition => snapshot.addRecord visibility addition.id
          addition.entry) (snapshot.addRecord visibility addition.id addition.entry)).descendants.reading
          measure addition.id = (snapshot.addRecord visibility addition.id
            addition.entry).descendants.reading measure addition.id := by
        cases measure with
        | rows => exact visible
        | bytes => exact size
      rw [stays]
      exact Summaries.seed_reading.trans (if_pos rfl)
    · exact ih distinct later

theorem addRecords_reading_old {snapshot : StoreSnapshot} {visibility : VisibilityPolicy}
    (outside : id ∉ additions.map (·.id)) :
    (snapshot.addRecords visibility additions).descendants.reading measure id =
      snapshot.descendants.reading measure id := by
  obtain ⟨visible, size⟩ := @addRecords_sums additions snapshot visibility id outside
  cases measure with
  | rows => exact visible
  | bytes => exact size

/-- New leaves below live parents, each added along its own walk. -/
theorem Summed.extend (summed : store.Summed) (forested : store.Forested) (after_forested : after.Forested)
    (roomy : after.Roomy) (fresh : store.Fresh seen store.idCounter counter additions)
    (entries : after.inner.entries = insertAll store.inner.entries
      (additions.map (fun addition => (addition.id, addition.entry))))
    (visibility : after.visibility = store.visibility)
    (readings : ∀ measure other, after.inner.descendants.reading measure other =
      ((store.inner.addRecords store.visibility additions).descendants.reading measure other +
        (additions.map (fun addition =>
          (ancestorChain after.inner.entries maxAncestorWalk addition.entry.parentId).count other *
            measure.weigh store.visibility addition.entry)).sum) % measure.limit) : after.Summed := by
  have keys : (additions.map (fun addition => (addition.id, addition.entry))).map Prod.fst =
      additions.map (·.id) := by
    rw [List.map_map]
    rfl
  have recorded (addition : Addition) (present : addition ∈ additions) :
      after.inner.entries[addition.id]? = some addition.entry := by
    rw [entries]
    exact lookup_insertAll_of_mem (keys ▸ fresh.ids) (List.mem_map.mpr ⟨addition, present, rfl⟩)
  have unused (addition : Addition) (present : addition ∈ additions) : ¬ store.Live addition.id :=
    fun live => absurd (forested.bounded addition.id live) (Nat.not_lt.mpr (fresh.range addition present).1)
  have apart : Disjoint store.known (additions.map (·.id)).toFinset := by
    refine Finset.disjoint_left.mpr fun id old new => ?_
    obtain ⟨addition, present, rfl⟩ := List.mem_map.mp (List.mem_toFinset.mp new)
    exact unused addition present (mem_known.mp old)
  have kept (id : EntryId) (old : id ∈ store.known) :
      after.inner.entries[id]? = store.inner.entries[id]? := by
    rw [entries]
    refine lookup_insertAll_of_not_mem ?_
    rw [keys]
    exact fun new => Finset.disjoint_left.mp apart old (List.mem_toFinset.mpr new)
  have all (id : EntryId) : id ∈ after.known ↔
      id ∈ store.known ∨ id ∈ (additions.map (·.id)).toFinset := by
    rw [mem_known, mem_known, List.mem_toFinset, Live, Live, entries, isSome_insertAll, keys, or_comm]
  have links (id : EntryId) (old : id ∈ store.known) :
      after.inner.parentLink id = store.inner.parentLink id := by
    unfold StoreSnapshot.parentLink
    rw [kept id old]
  have hung (id : EntryId) (new : id ∈ (additions.map (·.id)).toFinset) (above : EntryId)
      (link : after.inner.parentLink id = some (some above)) : above ∈ store.known := by
    obtain ⟨addition, present, rfl⟩ := List.mem_map.mp (List.mem_toFinset.mp new)
    obtain ⟨entry, found, parent⟩ := StoreSnapshot.parentLink_eq_some.mp link
    cases (recorded addition present).symm.trans found
    exact mem_known.mpr (fresh.hung addition present above parent)
  have hefts (measure : Measure) (id : EntryId) (old : id ∈ store.known) :
      after.heft measure id = store.heft measure id := by
    unfold heft
    rw [kept id old, visibility]
  intro measure top live
  have room := @Roomy.tally_lt after top measure roomy after_forested live
  rw [readings]
  rcases (all top).mp (mem_known.mpr live) with old | new
  · have grown := tally_graft forested.closed links apart all (hefts measure) old
    have outside : top ∉ additions.map (·.id) :=
      fun new => Finset.disjoint_left.mp apart old (List.mem_toFinset.mpr new)
    rw [List.sum_toFinset _ fresh.ids, List.map_map] at grown
    rw [addRecords_reading_old outside, summed measure top (mem_known.mp old)]
    rw [grown] at room ⊢
    refine (congrArg (fun total => (_ + total) % _) (congrArg List.sum ?_)).trans (Nat.mod_eq_of_lt room)
    refine List.map_congr_left fun addition present => ?_
    rw [roomy.count after_forested (recorded addition present), Function.comp_apply,
      heft_eq (recorded addition present), visibility]
    split <;> simp
  · obtain ⟨addition, present, rfl⟩ := List.mem_map.mp (List.mem_toFinset.mp new)
    have alone : (additions.map (fun other =>
        (ancestorChain after.inner.entries maxAncestorWalk other.entry.parentId).count addition.id *
          measure.weigh store.visibility other.entry)).sum = 0 := by
      refine List.sum_eq_zero fun amount member => ?_
      obtain ⟨other, there, rfl⟩ := List.mem_map.mp member
      rw [roomy.count after_forested (recorded other there), if_neg, Nat.zero_mul]
      rintro ⟨above, link, below⟩
      exact leaf_not_below forested.closed links apart new
        (hung other.id (List.mem_toFinset.mpr (List.mem_map.mpr ⟨other, there, rfl⟩)) above link) below
    rw [tally_leaf forested.closed links apart all hung new] at room ⊢
    rw [alone, Nat.add_zero, addRecords_reading fresh.ids present]
    rw [heft_eq (recorded addition present), visibility] at room ⊢
    exact Nat.mod_eq_of_lt room

theorem installInsert_summed (summed : store.Summed) (forested : store.Forested)
    (unindexed : store.pathToId[path]? = none) (stamped : entry.id = store.idCounter)
    (parent : ∀ parentId, entry.parentId = some parentId → store.Live parentId)
    (after_forested : ({ store with idCounter := store.idCounter + 1 }.installInsert path store.idCounter
      entry).Forested)
    (roomy : ({ store with idCounter := store.idCounter + 1 }.installInsert path store.idCounter entry).Roomy) :
    ({ store with idCounter := store.idCounter + 1 }.installInsert path store.idCounter entry).Summed := by
  have fresh : store.Fresh [] store.idCounter (store.idCounter + 1) [⟨path, store.idCounter, entry⟩] :=
    .cons ⟨path, store.idCounter, entry⟩ List.not_mem_nil unindexed stamped parent (le_refl _) .nil
  have entries := @installInsert_entries { store with idCounter := store.idCounter + 1 } store.idCounter
    entry path
  refine summed.extend forested after_forested roomy fresh entries rfl fun measure other => ?_
  rw [installInsert_descendants, Summaries.add_entry_reading, entries, List.map_singleton,
    List.sum_singleton]
  rfl

theorem foldl_add_reading {visibility : VisibilityPolicy} {chainOf : Addition → List EntryId}
    {sums : Summaries} : (additions.foldl (fun sums addition => sums.add (chainOf addition)
        (if visibility.includes addition.entry then some 1 else none) addition.entry.size) sums).reading
        measure id = (sums.reading measure id + (additions.map (fun addition =>
          (chainOf addition).count id * measure.weigh visibility addition.entry)).sum) % measure.limit := by
  induction additions generalizing sums with
  | nil => exact (Nat.mod_eq_of_lt Summaries.reading_lt).symm
  | cons head rest ih =>
    rw [List.foldl_cons, ih, Summaries.add_entry_reading, Nat.mod_add_mod, List.map_cons, List.sum_cons,
      Nat.add_assoc]

theorem installBatch_summed (summed : store.Summed) (forested : store.Forested)
    (fresh : store.Fresh [] store.idCounter counter additions)
    (after_forested : ({ store with idCounter := counter }.installBatch additions).Forested)
    (roomy : ({ store with idCounter := counter }.installBatch additions).Roomy) :
    ({ store with idCounter := counter }.installBatch additions).Summed :=
  summed.extend forested after_forested roomy fresh StoreSnapshot.addRecords_entries rfl fun _ _ =>
    foldl_add_reading

end Additions

section Removals

variable {gone : List EntryId}

theorem Roomy.chain_eq (roomy : store.Roomy) (forested : store.Forested)
    (found : store.inner.entries[id]? = some entry) {records : IdMap Entry}
    (kept : ∀ other : EntryId, ¬ Below store.inner.parentLink id other →
      records[other]? = store.inner.entries[other]?) :
    ancestorChain records maxAncestorWalk entry.parentId =
      ancestorChain store.inner.entries maxAncestorWalk entry.parentId := by
  refine ancestorChain_congr fun node member => ?_
  rw [kept node fun below => ?_]
  cases parent : entry.parentId with
  | none => simp [parent, maxAncestorWalk, ancestorChain] at member
  | some above =>
    have ends := parent ▸ roomy.shallow id entry found
    rw [parent, ends.mem_iff] at member
    have link := StoreSnapshot.parentLink_eq_some.mpr ⟨entry, found, parent⟩
    exact (forested.rooted (by simp [Live, found])).no_cycle link (below.trans member)

/-- A branch leaves, and its sum is taken along the walk above it. -/
theorem Summed.shrink (summed : store.Summed) (forested : store.Forested) (roomy : store.Roomy)
    (found : store.inner.entries[id]? = some entry)
    (branch : ∀ other, other ∈ gone ↔ Below store.inner.parentLink id other)
    (lookup : ∀ other : EntryId, after.inner.entries[other]? =
      if other ∈ gone then none else store.inner.entries[other]?)
    (visibility : after.visibility = store.visibility)
    (readings : ∀ measure other, other ∉ gone → after.inner.descendants.reading measure other =
      store.inner.descendants.reading measure other -
        (ancestorChain after.inner.entries maxAncestorWalk entry.parentId).count other *
          tally store.inner.parentLink store.known (store.heft measure) id) : after.Summed := by
  intro measure top live
  have outside : top ∉ gone := by
    intro out
    simp [Live, lookup, out] at live
  have before : store.Live top := by simpa [Live, lookup, outside] using live
  have remaining (low : EntryId) : low ∈ after.known ↔ low ∈ store.known ∧ ¬ Below store.inner.parentLink id low := by
    rw [mem_known, mem_known, Live, Live, lookup]
    split <;> simp_all
  have kept (low : EntryId) (member : low ∈ after.known) :
      after.inner.entries[low]? = store.inner.entries[low]? := by
    rw [lookup, if_neg (fun out => ((remaining low).mp member).2 ((branch low).mp out))]
  have pruned := @tally_prune _ store.inner.parentLink after.inner.parentLink store.known after.known
    (store.heft measure) id top forested.closed remaining
    (fun low member => by unfold StoreSnapshot.parentLink; rw [kept low member])
    (fun below => outside ((branch top).mpr below))
  have hefts : tally after.inner.parentLink after.known (after.heft measure) top =
      tally after.inner.parentLink after.known (store.heft measure) top :=
    tally_congr (fun _ => Iff.rfl) fun low member _ => by
      unfold heft
      rw [kept low member, visibility]
  have strict : id ≠ top := by
    rintro rfl
    exact outside ((branch id).mpr .self)
  have chain := @Roomy.chain_eq store id entry roomy forested found after.inner.entries fun other apart => by
    rw [lookup, if_neg (fun out => apart ((branch other).mp out))]
  rw [readings measure top outside, chain, roomy.count forested found, summed measure top before, hefts, pruned]
  simp only [← below_iff_link strict]
  split <;> omega

theorem installRemoval_summed (summed : store.Summed) (forested : store.Forested) (roomy : store.Roomy)
    (found : store.inner.entries[id]? = some entry) :
    (store.installRemoval id entry (store.inner.subtree [id])).Summed := by
  have live : store.Live id := by simp [Live, found]
  have entries := (installRemoval_inner store id entry (store.inner.subtree [id])).1
  refine summed.shrink forested roomy found (fun other => forested.mem_subtree live) (fun other => ?_) rfl
    fun measure other outside => ?_
  · rw [entries]
    exact StoreSnapshot.evict_entries
  · rw [installRemoval_descendants, Summaries.sub_reading, Summaries.erase_reading, if_neg outside, entries,
      Summaries.pick_reading, summed measure id live]

theorem Forested.childless_below (forested : store.Forested) (childless : store.inner.childrenOf id = [])
    {other : EntryId} : Below store.inner.parentLink id other ↔ other = id := by
  constructor
  · intro path
    by_contra strict
    obtain ⟨next, link, _⟩ := path.first_step strict
    have member := (forested.linked.child_iff next id).mpr link
    simp [childless] at member
  · rintro rfl
    exact .self

theorem unindex_visibility (store : EntryStore) (ids : List EntryId) :
    (store.unindex ids).visibility = store.visibility := by
  unfold unindex
  induction ids generalizing store with
  | nil => rfl
  | cons head tail ih =>
    rw [List.foldl_cons, ih]
    split <;> rfl

theorem remove_summed (summed : store.Summed) (forested : store.Forested) (roomy : store.Roomy)
    (found : store.inner.entries[id]? = some entry) (childless : store.inner.childrenOf id = []) :
    (store.remove id).2.Summed := by
  have entries := (remove_inner found).1
  have visibility : (store.remove id).2.visibility = store.visibility := by
    simp only [remove, found, unindex_visibility]
    rfl
  have alone (measure : Measure) : tally store.inner.parentLink store.known (store.heft measure) id =
      measure.weigh store.visibility entry := by
    rw [tally, Finset.sum_eq_single_of_mem id, heft_eq found]
    · exact Finset.mem_filter.mpr ⟨mem_known.mpr (by simp [Live, found]), .self⟩
    · intro other member distinct
      exact absurd ((forested.childless_below childless).mp (Finset.mem_filter.mp member).2) distinct
  have amount (measure : Measure) : measure.pick (if store.visibility.includes entry then (1 : UInt32) else 0)
      entry.size = measure.weigh store.visibility entry := by
    cases measure with
    | rows => simp only [Measure.pick, Measure.weigh, apply_ite UInt32.toNat]; rfl
    | bytes => rfl
  refine @Summed.shrink store _ id entry [id] summed forested roomy found (fun other => ?_) (fun other => ?_)
    visibility fun measure other outside => ?_
  · rw [List.mem_singleton, forested.childless_below childless]
  · rw [entries, lookup_erase]
    simp [eq_comm]
  · rw [remove_descendants found, Summaries.sub_reading, Summaries.erase_reading, if_neg outside, entries, alone,
      amount]

theorem Forested.tally_detach (forested : store.Forested) {weight : EntryId → Nat}
    (closed : ∀ node above, store.inner.parentLink node = some (some above) → above ∈ gone → node ∈ gone)
    (links : ∀ other, after.inner.parentLink other = if other ∈ gone then none else store.inner.parentLink other)
    (isolated : ∀ low ∈ gone, ¬ Below store.inner.parentLink top low) :
    tally after.inner.parentLink after.known weight top = tally store.inner.parentLink store.known weight top := by
  have remaining (low : EntryId) : low ∈ after.known ↔ low ∈ store.known ∧ low ∉ gone := by
    rw [mem_known, mem_known, Live, Live, ← StoreSnapshot.parentLink_isSome, links,
      ← StoreSnapshot.parentLink_isSome]
    split <;> simp [*]
  refine tally_apart ?_ (fun low member => ((remaining low).mp member).1) ?_ ?_
  · intro node above member link
    obtain ⟨here, kept⟩ := (remaining node).mp member
    exact (remaining above).mpr ⟨forested.closed node above here link, fun out => kept (closed node above link out)⟩
  · intro low member
    rw [links, if_neg ((remaining low).mp member).2]
  · intro low member below
    exact (remaining low).mpr ⟨member, fun out => isolated low out below⟩

/-- An unavailable root loses what is below it and counts for itself alone. -/
theorem installUnavailable_summed (summed : store.Summed) (forested : store.Forested)
    (found : store.inner.entries[id]? = some entry) (top : entry.parentId = none) :
    (store.installUnavailable id entry (store.inner.subtree (store.inner.childrenOf id).reverse)).Summed := by
  have live : store.Live id := by simp [Live, found]
  have link : store.inner.parentLink id = some none := StoreSnapshot.parentLink_eq_some.mpr ⟨entry, found, top⟩
  set gone := store.inner.subtree (store.inner.childrenOf id).reverse
  have mem_gone (low : EntryId) : low ∈ gone ↔ low ≠ id ∧ Below store.inner.parentLink id low :=
    forested.mem_descendants live
  have lookup (other : EntryId) : (store.installUnavailable id entry gone).inner.entries[other]? =
      if id = other then some entry.unavailable else if other ∈ gone then none else store.inner.entries[other]? := by
    rw [installUnavailable_lookup, StoreSnapshot.evict_entries]
  have readings (measure : Measure) (other : EntryId) :
      (store.installUnavailable id entry gone).inner.descendants.reading measure other =
        if id = other then measure.weigh store.visibility entry.unavailable
        else if other ∈ gone then 0 else store.inner.descendants.reading measure other := by
    simp only [installUnavailable, unindex_inner]
    exact Summaries.seed_reading.trans (by rw [← Summaries.erase_reading]; rfl)
  have visibility : (store.installUnavailable id entry gone).visibility = store.visibility := by
    simp only [installUnavailable, unindex_visibility]
    rfl
  have links (other : EntryId) : (store.installUnavailable id entry gone).inner.parentLink other =
      if other ∈ gone then none else store.inner.parentLink other := by
    simp only [StoreSnapshot.parentLink, lookup]
    by_cases same : id = other
    · subst same
      simp [mem_gone, found, Entry.unavailable]
    · rw [if_neg same]
      split <;> rfl
  generalize store.installUnavailable id entry gone = after at lookup readings visibility links
  have earlier {top low : EntryId} (path : Below after.inner.parentLink top low) :
      Below store.inner.parentLink top low := by
    refine path.mono fun node above up => ?_
    rw [links] at up
    split at up
    · cases up
    · exact up
  intro measure top live
  rw [readings]
  by_cases same : id = top
  · subst same
    rw [if_pos rfl, tally, Finset.sum_eq_single_of_mem id]
    · rw [heft_eq ((lookup id).trans (if_pos rfl)), visibility]
    · exact Finset.mem_filter.mpr ⟨mem_known.mpr live, .self⟩
    · intro low member distinct
      obtain ⟨here, below⟩ := Finset.mem_filter.mp member
      have out := (mem_gone low).mpr ⟨distinct, earlier below⟩
      have here := mem_known.mp here
      simp [Live, lookup, Ne.symm distinct, out] at here
  · have kept : top ∉ gone := by
      intro out
      simp [Live, lookup, same, out] at live
    have before : store.Live top := by simpa [Live, lookup, same, kept] using live
    rw [if_neg same, if_neg kept, summed measure top before]
    have detached : tally after.inner.parentLink after.known (store.heft measure) top =
        tally store.inner.parentLink store.known (store.heft measure) top := by
      refine forested.tally_detach ?_ links ?_
      · intro node above up out
        refine (mem_gone node).mpr ⟨?_, .child up ((mem_gone above).mp out).2⟩
        rintro rfl
        simp [link] at up
      · intro low out below
        rcases below.linear ((mem_gone low).mp out).2 with higher | lower
        · exact same (higher.root_eq link).symm
        · exact kept ((mem_gone top).mpr ⟨Ne.symm same, lower⟩)
    rw [← detached]
    refine tally_congr (fun _ => Iff.rfl) fun low member below => ?_
    have distinct : id ≠ low := by
      rintro rfl
      exact same ((earlier below).root_eq link).symm
    have here := mem_known.mp member
    unfold heft
    rw [visibility, lookup, if_neg distinct]
    rw [Live, lookup, if_neg distinct] at here
    split at here
    · cases here
    · rename_i kept
      rw [if_neg kept]

/-- Roots that leave take their branches along and nothing else. -/
theorem withoutRoots_summed (summed : store.Summed) (forested : store.Forested) {tops : List EntryId}
    (rooted : ∀ top ∈ tops, top ∈ store.inner.roots) :
    (store.withoutRoots (tops.flatMap (fun top => store.inner.subtree [top]))).Summed := by
  have mem_gone (low : EntryId) := @Forested.mem_branches store forested tops low rooted
  set gone := tops.flatMap (fun top => store.inner.subtree [top])
  have lookup (other : EntryId) : (store.withoutRoots gone).inner.entries[other]? =
      if other ∈ gone then none else store.inner.entries[other]? := withoutRoots_entries
  have readings (measure : Measure) (other : EntryId) :
      (store.withoutRoots gone).inner.descendants.reading measure other =
        if other ∈ gone then 0 else store.inner.descendants.reading measure other := by
    simp only [withoutRoots, unindex_inner]
    exact Summaries.erase_reading
  have visibility : (store.withoutRoots gone).visibility = store.visibility := by
    simp only [withoutRoots, unindex_visibility]
  have links (other : EntryId) : (store.withoutRoots gone).inner.parentLink other =
      if other ∈ gone then none else store.inner.parentLink other := by
    simp only [StoreSnapshot.parentLink, lookup]
    split <;> rfl
  intro measure top live
  have kept : top ∉ gone := by
    intro out
    simp [Live, lookup, out] at live
  have before : store.Live top := by simpa [Live, lookup, kept] using live
  rw [readings, if_neg kept, summed measure top before]
  have detached : tally (store.withoutRoots gone).inner.parentLink (store.withoutRoots gone).known
      (store.heft measure) top = tally store.inner.parentLink store.known (store.heft measure) top := by
    refine forested.tally_detach ?_ links ?_
    · intro node above up out
      obtain ⟨root, member, below⟩ := (mem_gone above).mp out
      exact (mem_gone node).mpr ⟨root, member, .child up below⟩
    · intro low out below
      obtain ⟨root, member, lower⟩ := (mem_gone low).mp out
      rcases below.linear lower with higher | inside
      · have same := higher.root_eq ((forested.linked.root_iff root).mp (rooted root member))
        exact kept ((mem_gone top).mpr ⟨root, member, same ▸ .self⟩)
      · exact kept ((mem_gone top).mpr ⟨root, member, inside⟩)
  rw [← detached]
  refine tally_congr (fun _ => Iff.rfl) fun low member _ => ?_
  have here := mem_known.mp member
  unfold heft
  rw [visibility, lookup]
  rw [Live, lookup] at here
  split at here
  · cases here
  · rename_i stays
    rw [if_neg stays]

theorem addRecords_descendants {snapshot : StoreSnapshot} {visibility : VisibilityPolicy}
    {additions : List Addition} : (snapshot.addRecords visibility additions).descendants =
      additions.foldl (fun sums addition => sums.seed addition.id (visibility.includes addition.entry)
        addition.entry.size) snapshot.descendants := by
  unfold StoreSnapshot.addRecords
  induction additions generalizing snapshot with
  | nil => rfl
  | cons head rest ih => exact ih

theorem installRoots_summed (summed : store.Summed) (forested : store.Forested) {orderedIds : List EntryId}
    {additions : List Addition} {counter : Nat} (fresh : store.Fresh [] store.idCounter counter additions)
    (added : ∀ addition ∈ additions, addition.entry.parentId = none ∧ addition.id ∈ orderedIds)
    (after_forested : ({ store with idCounter := counter }.installRoots orderedIds
      ((store.inner.roots.filter (· ∉ orderedIds)).flatMap (fun top => store.inner.subtree [top]))
      additions).Forested)
    (roomy : ({ store with idCounter := counter }.installRoots orderedIds
      ((store.inner.roots.filter (· ∉ orderedIds)).flatMap (fun top => store.inner.subtree [top]))
      additions).Roomy) :
    ({ store with idCounter := counter }.installRoots orderedIds
      ((store.inner.roots.filter (· ∉ orderedIds)).flatMap (fun top => store.inner.subtree [top]))
      additions).Summed := by
  have listed (top : EntryId) (member : top ∈ store.inner.roots.filter (· ∉ orderedIds)) :
      top ∈ store.inner.roots := (List.mem_filter.mp member).1
  have pruned := withoutRoots_forested forested _ listed
  have kept := withoutRoots_summed summed forested listed
  set gone := (store.inner.roots.filter (· ∉ orderedIds)).flatMap (fun top => store.inner.subtree [top])
  have entries := (installRoots_inner { store with idCounter := counter } orderedIds gone additions).1
  rw [(withoutRoots_advance store counter gone).1] at entries
  have visibility : (store.withoutRoots gone).visibility = store.visibility := by
    simp only [withoutRoots, unindex_visibility]
  refine kept.extend pruned after_forested roomy (fresh.withoutRoots forested pruned added) entries ?_ ?_
  · simp only [installRoots, index, unindex_visibility, visibility]
    rfl
  · intro measure other
    have alone : (additions.map (fun addition => (ancestorChain ({ store with
        idCounter := counter }.installRoots orderedIds gone additions).inner.entries maxAncestorWalk
          addition.entry.parentId).count other *
            measure.weigh (store.withoutRoots gone).visibility addition.entry)).sum = 0 := by
      refine List.sum_eq_zero fun amount member => ?_
      obtain ⟨addition, present, rfl⟩ := List.mem_map.mp member
      rw [(added addition present).1]
      simp [maxAncestorWalk, ancestorChain]
    rw [alone, Nat.add_zero, Nat.mod_eq_of_lt Summaries.reading_lt, addRecords_descendants, visibility]
    simp only [installRoots, index, withoutRoots, unindex_inner]
    exact congrArg (fun sums => sums.reading measure other) addRecords_descendants

end Removals

section Records

variable {existing updated : Entry}

theorem pickDelta_eq : measure.pickDelta (store.visibleDelta existing updated) (sizeDelta existing updated) =
    (measure.weigh store.visibility updated : Int) - measure.weigh store.visibility existing := by
  cases measure with
  | rows => simp only [Measure.pickDelta, visibleDelta, Measure.weigh, Nat.cast_ite, Nat.cast_one, Nat.cast_zero]
  | bytes => rfl

/-- The walk of an update counts its own entry as a hop: it comes to an end
only below fewer ancestors than it visits ids. -/
theorem installUpdate_summed (summed : store.Summed) (forested : store.Forested)
    (found : store.inner.entries[id]? = some existing) (parent : updated.parentId = existing.parentId)
    (reaches : (store.visibility.includes updated = store.visibility.includes existing ∧
      updated.size = existing.size) ∨ Ends store.inner.entries (maxAncestorWalk - 1) existing.parentId)
    (after_forested : (store.installUpdate id existing updated).Forested)
    (roomy : (store.installUpdate id existing updated).Roomy) :
    (store.installUpdate id existing updated).Summed := by
  have lookup (other : EntryId) : (store.installUpdate id existing updated).inner.entries[other]? =
      if id = other then some updated else store.inner.entries[other]? := lookup_insert
  have here : id ∈ store.known := mem_known.mpr (by simp [Live, found])
  have links : (store.installUpdate id existing updated).inner.parentLink = store.inner.parentLink := by
    funext other
    simp only [StoreSnapshot.parentLink, lookup]
    split
    · rename_i same
      simp [← same, found, parent]
    · rfl
  have same : (store.installUpdate id existing updated).known = store.known := by
    ext other
    rw [mem_known, mem_known, Live, Live, ← StoreSnapshot.parentLink_isSome, links,
      StoreSnapshot.parentLink_isSome]
  have own (measure : Measure) : (store.installUpdate id existing updated).heft measure id =
      measure.weigh store.visibility updated := heft_eq ((lookup id).trans (if_pos rfl))
  have others (measure : Measure) (other : EntryId) (_ : other ∈ store.known) (distinct : other ≠ id) :
      (store.installUpdate id existing updated).heft measure other = store.heft measure other := by
    unfold heft
    rw [lookup, if_neg (Ne.symm distinct)]
    rfl
  intro measure top live
  have room := @Roomy.tally_lt _ top measure roomy after_forested live
  have before : store.Live top := mem_known.mp (same ▸ mem_known.mpr live)
  have weighed := @tally_reweigh _ store.inner.parentLink store.known (store.heft measure)
    ((store.installUpdate id existing updated).heft measure) id top here (others measure)
  have least := @weight_le_tally _ store.inner.parentLink store.known (store.heft measure) top id here
  rw [own, heft_eq found] at weighed
  rw [heft_eq found] at least
  rw [links, same] at room ⊢
  have delta := @pickDelta_eq store measure existing updated
  have chain : ancestorChain (store.inner.entries.insert id updated) maxAncestorWalk (some id) =
      ancestorChain store.inner.entries maxAncestorWalk (some id) := by
    refine ancestorChain_congr fun node _ => ?_
    rw [lookup_insert]
    split
    · rename_i same
      simp [← same, found, parent]
    · rfl
  rw [installUpdate_descendants, chain]
  by_cases still : measure.pickDelta (store.visibleDelta existing updated) (sizeDelta existing updated) = 0
  · rw [Summaries.shift_reading_same (.inl still), summed measure top before]
    rw [still] at delta
    split at weighed <;> omega
  · have ends : Ends store.inner.entries maxAncestorWalk (some id) := by
      refine Nat.succ_le_succ ?_
      rw [found]
      refine reaches.resolve_left fun same => still ?_
      rw [delta]
      cases measure <;> simp [Measure.weigh, same]
    by_cases below : Below store.inner.parentLink top id
    · rw [if_pos below, if_pos below] at weighed
      have least := least below
      have shifted := @Summaries.shift_reading_moved store.inner.descendants
        (ancestorChain store.inner.entries maxAncestorWalk (some id)) top measure
        (store.visibleDelta existing updated) (sizeDelta existing updated)
        (ends.nodup (forested.rooted (mem_known.mp here))) (ends.mem_iff.mpr below)
      rw [delta, summed measure top before] at shifted
      have moved := shifted (by omega) (by omega)
      omega
    · rw [if_neg below, if_neg below] at weighed
      rw [Summaries.shift_reading_same (.inr (fun member => below (ends.mem_iff.mp member))),
        summed measure top before]
      exact weighed.symm

variable {updates : List PathUpdate} {newName : String} {newParentId : Option EntryId}

theorem installRename_heft (found : store.inner.entries[id]? = some entry)
    (shown : store.visibility.includes { entry with name := newName, parentId := newParentId } =
      store.visibility.includes entry) :
    (store.installRename id entry newParentId updates newName).heft = store.heft := by
  funext measure other
  have visibility : (store.installRename id entry newParentId updates newName).visibility = store.visibility := rfl
  unfold heft
  rw [installRename_lookup, visibility]
  split
  · rename_i same
    rw [← same, found]
    cases measure with
    | rows => simp [Measure.weigh, shown]
    | bytes => rfl
  · rfl

theorem installRename_known (found : store.inner.entries[id]? = some entry) :
    (store.installRename id entry newParentId updates newName).known = store.known := by
  ext other
  rw [mem_known, mem_known, Live, Live, installRename_lookup]
  split
  · rename_i same
    simp [← same, found]
  · rfl

theorem installRename_links (other : EntryId) :
    (store.installRename id entry newParentId updates newName).inner.parentLink other =
      if id = other then some newParentId else store.inner.parentLink other := by
  unfold StoreSnapshot.parentLink
  rw [installRename_lookup]
  split <;> rfl

theorem installRename_summed_same (summed : store.Summed) (found : store.inner.entries[id]? = some entry)
    (shown : store.visibility.includes { entry with name := newName } = store.visibility.includes entry) :
    (store.installRename id entry entry.parentId updates newName).Summed := by
  have links : (store.installRename id entry entry.parentId updates newName).inner.parentLink =
      store.inner.parentLink := by
    funext other
    rw [installRename_links]
    split
    · rename_i same
      exact (StoreSnapshot.parentLink_eq_some.mpr ⟨entry, same ▸ found, rfl⟩).symm
    · rfl
  intro measure top live
  rw [installRename_descendants_same, links, installRename_known found, installRename_heft found shown]
  exact summed measure top (mem_known.mp (installRename_known found ▸ mem_known.mpr live))

theorem installRename_summed_moved (summed : store.Summed) (forested : store.Forested) (before : store.Roomy)
    (found : store.inner.entries[id]? = some entry) {oldParent newParent : EntryId}
    (link : entry.parentId = some oldParent) (changed : oldParent ≠ newParent)
    (target : store.Live newParent) (outside : ¬ Below store.inner.parentLink id newParent)
    (shown : store.visibility.includes { entry with name := newName } = store.visibility.includes entry)
    (after_forested : (store.installRename id entry (some newParent) updates newName).Forested)
    (roomy : (store.installRename id entry (some newParent) updates newName).Roomy) :
    (store.installRename id entry (some newParent) updates newName).Summed := by
  set after := store.installRename id entry (some newParent) updates newName with renamed
  have entries : after.inner.entries =
      store.inner.entries.insert id { entry with name := newName, parentId := some newParent } :=
    installRename_entries
  have live : store.Live id := by simp [Live, found]
  have linked : store.inner.parentLink id = some (some oldParent) :=
    StoreSnapshot.parentLink_eq_some.mpr ⟨entry, found, link⟩
  have hefts : after.heft = store.heft := installRename_heft found shown
  have same : after.known = store.known := installRename_known found
  have moved : after.inner.parentLink id = some (some newParent) :=
    (installRename_links id).trans (if_pos rfl)
  have others (other : EntryId) (distinct : other ≠ id) :
      after.inner.parentLink other = store.inner.parentLink other :=
    (installRename_links other).trans (if_neg (Ne.symm distinct))
  intro measure top now
  have room := @Roomy.tally_lt _ top measure roomy after_forested now
  have earlier : store.Live top := mem_known.mp (same ▸ mem_known.mpr now)
  have down : (ancestorChain after.inner.entries maxAncestorWalk (some oldParent)).count top =
      if Below store.inner.parentLink top oldParent then 1 else 0 := by
    have walk := @Roomy.chain_eq store id entry before forested found after.inner.entries fun other apart => by
      rw [entries, lookup_insert, if_neg]
      rintro rfl
      exact apart .self
    have count := @Roomy.count store id top entry before forested found
    rw [link] at walk count
    rw [walk, count, linked]
    simp
  have up : (ancestorChain after.inner.entries maxAncestorWalk (some newParent)).count top =
      if Below store.inner.parentLink top newParent then 1 else 0 := by
    have record : after.inner.entries[id]? = some { entry with name := newName, parentId := some newParent } := by
      rw [entries, lookup_insert, if_pos rfl]
    have count := @Roomy.count after id top _ roomy after_forested record
    rw [count, moved]
    simp [below_unmoved others outside]
  have reading : after.inner.descendants.reading measure top =
      (tally store.inner.parentLink store.known (store.heft measure) top -
        (if Below store.inner.parentLink top oldParent then 1 else 0) *
          tally store.inner.parentLink store.known (store.heft measure) id +
        (if Below store.inner.parentLink top newParent then 1 else 0) *
          tally store.inner.parentLink store.known (store.heft measure) id) % measure.limit := by
    rw [renamed, installRename_descendants_moved link changed, ← entries, Summaries.add_reading,
      Summaries.sub_reading, Summaries.pick_reading, down, up, summed measure id live,
      summed measure top earlier]
  rw [reading]
  rw [hefts, same] at room ⊢
  by_cases inside : Below store.inner.parentLink id top
  · have rooted := forested.rooted live
    rw [if_neg (fun below => rooted.no_cycle linked (inside.trans below)),
      if_neg (fun below => outside (inside.trans below))]
    have unmoved : tally after.inner.parentLink store.known (store.heft measure) top =
        tally store.inner.parentLink store.known (store.heft measure) top :=
      tally_congr (fun _ => and_congr_left fun _ => below_inside others rooted moved outside inside)
        fun _ _ _ => rfl
    rw [unmoved] at room ⊢
    rw [Nat.zero_mul, Nat.sub_zero, Nat.add_zero, Nat.mod_eq_of_lt room]
  · have grafted := @tally_regraft _ store.inner.parentLink after.inner.parentLink store.known
      (store.heft measure) id top others forested.closed _ _ linked moved (mem_known.mpr target) outside inside
    have enough (below : Below store.inner.parentLink top oldParent) :=
      @tally_mono _ store.inner.parentLink store.known (store.heft measure) id top (.child linked below)
    have total : tally store.inner.parentLink store.known (store.heft measure) top -
        (if Below store.inner.parentLink top oldParent then 1 else 0) *
          tally store.inner.parentLink store.known (store.heft measure) id +
        (if Below store.inner.parentLink top newParent then 1 else 0) *
          tally store.inner.parentLink store.known (store.heft measure) id =
        tally after.inner.parentLink store.known (store.heft measure) top := by
      by_cases under : Below store.inner.parentLink top oldParent
      · have enough := enough under
        rw [if_pos under, Nat.one_mul]
        rw [if_pos under] at grafted
        split <;> rename_i arrives
        · rw [if_pos arrives] at grafted
          omega
        · rw [if_neg arrives] at grafted
          omega
      · rw [if_neg under, Nat.zero_mul]
        rw [if_neg under] at grafted
        split <;> rename_i arrives
        · rw [if_pos arrives] at grafted
          omega
        · rw [if_neg arrives] at grafted
          omega
    rw [total, Nat.mod_eq_of_lt room]

end Records

section Projection

variable {entries : IdMap Entry} {policy : VisibilityPolicy}

theorem foldl_bump {counts : IdMap UInt32} {chain : List EntryId} :
    ((chain.foldl (fun counts ancestor => counts.insert ancestor (counts.getD ancestor 0 + 1)) counts).getD
      id 0).toNat = ((counts.getD id 0).toNat + chain.count id) % 2 ^ 32 := by
  induction chain generalizing counts with
  | nil => exact (Nat.mod_eq_of_lt (UInt32.toNat_lt _)).symm
  | cons head rest ih =>
    rw [List.foldl_cons, ih, getD_insert, List.count_cons]
    by_cases same : head = id
    · subst same
      simp only [if_true, UInt32.toNat_add, Nat.mod_add_mod, beq_self_eq_true]
      congr 1
      rw [UInt32.toNat_one]
      omega
    · simp [same]

/-- The ids whose records the policy shows. -/
def shownIds (entries : IdMap Entry) (policy : VisibilityPolicy) : List EntryId :=
  (entries.toList.filter (fun binding => policy.includes binding.2)).map Prod.fst

theorem mem_shownIds : id ∈ shownIds entries policy ↔
    ∃ entry, entries[id]? = some entry ∧ policy.includes entry = true := by
  simp [shownIds, Std.ExtTreeMap.mem_toList_iff_getElem?_eq_some]

theorem shownIds_nodup : (shownIds entries policy).Nodup := by
  have keys : (entries.toList.map Prod.fst).Nodup := by
    rw [Std.ExtTreeMap.map_fst_toList_eq_keys]
    exact Std.ExtTreeMap.nodup_keys
  exact keys.sublist (List.filter_sublist.map _)

theorem rebuildVisibleCounts_reading : ((rebuildVisibleCounts entries policy).getD id 0).toNat =
    (entries[id]?.elim 0 (fun entry => Measure.rows.weigh policy entry) +
      ((shownIds entries policy).map (fun shown =>
        (ancestorChain entries maxAncestorWalk (entries[shown]?.bind (·.parentId))).count id)).sum) % 2 ^ 32 := by
  have own : ((entries.map (fun _ entry => if policy.includes entry then (1 : UInt32) else 0)).getD id 0).toNat =
      entries[id]?.elim 0 (fun entry => Measure.rows.weigh policy entry) := by
    rw [Std.ExtTreeMap.getD_eq_getD_getElem?, Std.ExtTreeMap.getElem?_map]
    cases entries[id]? with
    | none => rfl
    | some entry => simp only [Option.map_some, Option.getD_some, Option.elim_some, Measure.weigh,
        apply_ite UInt32.toNat]; rfl
  rw [← own]
  have walks (ids : List EntryId) (counts : IdMap UInt32) : ((ids.foldl (fun counts id =>
      (ancestorChain entries maxAncestorWalk (entries[id]?.bind (·.parentId))).foldl
        (fun counts ancestor => counts.insert ancestor (counts.getD ancestor 0 + 1)) counts) counts).getD
      id 0).toNat = ((counts.getD id 0).toNat + (ids.map (fun shown =>
        (ancestorChain entries maxAncestorWalk (entries[shown]?.bind (·.parentId))).count id)).sum) % 2 ^ 32 := by
    induction ids generalizing counts with
    | nil => exact (Nat.mod_eq_of_lt (UInt32.toNat_lt _)).symm
    | cons head rest ih =>
      rw [List.foldl_cons, ih, foldl_bump, Nat.mod_add_mod, List.map_cons, List.sum_cons, Nat.add_assoc]
  exact walks _ _

theorem rebuild_tally (forested : after.Forested) (roomy : after.Roomy) (live : after.Live top) :
    ((rebuildVisibleCounts after.inner.entries after.visibility).getD top 0).toNat =
      tally after.inner.parentLink after.known (after.heft .rows) top := by
  have room := @Roomy.tally_lt after top .rows roomy forested live
  have walks : ((shownIds after.inner.entries after.visibility).map (fun shown =>
      (ancestorChain after.inner.entries maxAncestorWalk
        (after.inner.entries[shown]?.bind (·.parentId))).count top)).sum =
      ∑ low ∈ after.known, if ∃ above, after.inner.parentLink low = some (some above) ∧
        Below after.inner.parentLink top above then after.heft .rows low else 0 := by
    rw [← List.sum_toFinset _ shownIds_nodup]
    have inside : (shownIds after.inner.entries after.visibility).toFinset ⊆ after.known := by
      intro low member
      obtain ⟨entry, found, _⟩ := mem_shownIds.mp (List.mem_toFinset.mp member)
      exact mem_known.mpr (by simp [Live, found])
    rw [← Finset.sum_subset inside]
    · refine Finset.sum_congr rfl fun low member => ?_
      obtain ⟨entry, found, shown⟩ := mem_shownIds.mp (List.mem_toFinset.mp member)
      have count := @Roomy.count after low top entry roomy forested found
      rw [found, Option.bind_some, count, heft_eq found, Measure.weigh, if_pos shown]
    · intro low known hidden
      obtain ⟨entry, found⟩ := Option.isSome_iff_exists.mp (mem_known.mp known)
      have hides : ¬ after.visibility.includes entry = true := fun shown =>
        hidden (List.mem_toFinset.mpr (mem_shownIds.mpr ⟨entry, found, shown⟩))
      rw [heft_eq found, Measure.weigh, if_neg hides, ite_self]
  have total := @tally_eq _ after.inner.parentLink after.known (after.heft .rows) top
    (fun node member => forested.rooted (mem_known.mp member)) (mem_known.mpr live)
  rw [rebuildVisibleCounts_reading, walks]
  rw [total] at room ⊢
  exact Nat.mod_eq_of_lt room

theorem installProjection_summed (summed : store.Summed) {order : SiblingOrder} {compactFolders : Bool}
    {fileNesting : FileNestingPolicy} (classify : Option (Path → Entry → Bool))
    (after_forested : (store.installProjection order policy compactFolders fileNesting
      (store.reclassify classify).1 (store.reclassify classify).2).Forested)
    (roomy : (store.installProjection order policy compactFolders fileNesting
      (store.reclassify classify).1 (store.reclassify classify).2).Roomy) :
    (store.installProjection order policy compactFolders fileNesting
      (store.reclassify classify).1 (store.reclassify classify).2).Summed := by
  intro measure top live
  cases measure with
  | rows => exact rebuild_tally after_forested roomy live
  | bytes =>
    have links : (store.installProjection order policy compactFolders fileNesting
        (store.reclassify classify).1 (store.reclassify classify).2).inner.parentLink =
        store.inner.parentLink := by
      funext id
      have same := congrArg (Option.map (·.parentId)) (reclassify_lookup store classify id)
      rwa [Option.map_map, Option.map_map] at same
    have same : (store.installProjection order policy compactFolders fileNesting
        (store.reclassify classify).1 (store.reclassify classify).2).known = store.known := by
      ext id
      rw [mem_known, mem_known, Live, Live, ← StoreSnapshot.parentLink_isSome, links,
        StoreSnapshot.parentLink_isSome]
    have hefts : (store.installProjection order policy compactFolders fileNesting
        (store.reclassify classify).1 (store.reclassify classify).2).heft .bytes = store.heft .bytes := by
      funext id
      have sizes := congrArg (Option.map (·.size)) (reclassify_lookup store classify id)
      rw [Option.map_map, Option.map_map] at sizes
      have amounts := congrArg (fun size : Option UInt64 => size.elim 0 UInt64.toNat) sizes
      rw [Option.elim_map, Option.elim_map] at amounts
      exact amounts
    rw [links, same, hefts]
    exact summed .bytes top (mem_known.mp (same ▸ mem_known.mpr live))

end Projection

section Runs

/-- What keeps the summaries exact: a single insert names no parent or a live
one, a lone removal leaves no child behind, a rename that passes is shown as
before, and an update that changes what is counted has fewer ancestors than its
walk visits ids. -/
def KeepsSums (store : EntryStore) : Edit → Prop
  | .remove id => store.inner.childrenOf id = []
  | .op (.insert _ entry) => ∀ parentId, entry.parentId = some parentId → store.Live parentId
  | .op (.update id updated) => ∀ existing, store.inner.entries[id]? = some existing →
      updated.parentId = existing.parentId → updated.name = existing.name →
        (store.visibility.includes updated = store.visibility.includes existing ∧
          updated.size = existing.size) ∨
        (ancestorChain store.inner.entries maxAncestorWalk existing.parentId).length < maxAncestorWalk
  | .op (.rename id newPath) => ∀ entry oldPath newParentId updates newName,
      store.inner.entries[id]? = some entry → store.idToPath[id]? = some oldPath →
      store.planRename id entry oldPath newPath = .ok (newParentId, updates, newName) →
        store.visibility.includes { entry with name := newName } = store.visibility.includes entry
  | _ => True

theorem remove_forested (forested : store.Forested) (childless : store.inner.childrenOf id = []) :
    (store.remove id).2.Forested := by
  cases found : store.inner.entries[id]? with
  | none =>
    simp only [remove, found]
    exact forested
  | some entry =>
    obtain ⟨entries, lists, roots, counter⟩ := remove_inner found
    have link : store.inner.parentLink id = some entry.parentId :=
      StoreSnapshot.parentLink_eq_some.mpr ⟨entry, found, rfl⟩
    obtain ⟨published, index, paths, ids⟩ : ∃ published : EntryStore, (store.remove id).2 =
        published.unindex [id] ∧ published.pathToId = store.pathToId ∧ published.idToPath = store.idToPath := by
      simp only [remove, found]
      exact ⟨_, rfl, rfl, rfl⟩
    obtain ⟨inverse, unindexed⟩ := unindex_spec published (by rw [paths, ids]; exact forested.inverse) [id]
    rw [← index] at inverse unindexed
    refine forested.prune [id] inverse (by rw [← ids]; exact unindexed) counter ?_ ?_ ?_ ?_ ?_
    · intro other
      simp only [StoreSnapshot.parentLink, entries, lookup_erase, List.mem_singleton]
      by_cases same : id = other
      · simp [same]
      · simp [same, Ne.symm same]
    · intro other record known
      rw [entries, lookup_erase] at known
      split at known
      · cases known
      · exact forested.stamped other record known
    · intro node above up out
      rw [List.mem_singleton.mp out] at up
      have member := (forested.linked.child_iff node id).mpr up
      simp [childless] at member
    · intro above
      have erased : (if entry.parentId = some above then (store.inner.childrenOf above).erase id
          else store.inner.childrenOf above) = (store.inner.childrenOf above).erase id := by
        split
        · rfl
        · rename_i elsewhere
          refine (List.erase_of_not_mem fun member => elsewhere ?_).symm
          exact Option.some.inj (link.symm.trans ((forested.linked.child_iff id above).mp member))
      rw [lists, erased]
      split
      · rename_i same
        simp [List.mem_singleton.mp same, childless]
      · rw [(forested.linked.children_nodup above).erase_eq_filter]
        exact .of_eq (List.filter_congr fun other _ => by simp [bne, Bool.beq_eq_decide_eq])
    · have erased : (if entry.parentId = none then store.inner.roots.erase id else store.inner.roots) =
          store.inner.roots.erase id := by
        split
        · rfl
        · rename_i below
          refine (List.erase_of_not_mem fun member => below ?_).symm
          exact Option.some.inj (link.symm.trans ((forested.linked.root_iff id).mp member))
      rw [roots, erased, forested.linked.roots_nodup.erase_eq_filter]
      exact .of_eq (List.filter_congr fun other _ => by simp [bne, Bool.beq_eq_decide_eq])

theorem edit_forested (forested : store.Forested) {edit : Edit} (keeps : store.KeepsSums edit) :
    (store.edit edit).Forested := by
  cases edit with
  | remove id => exact remove_forested forested keeps
  | op op =>
    refine apply_forested forested ?_
    cases op with
    | insert path entry => exact keeps
    | _ => trivial

/-- Every mutation that keeps the sums, as long as they fit, leaves them exact. -/
theorem Published.summed {edit : Edit} (published : store.Published edit after) (keeps : store.KeepsSums edit)
    (forested : store.Forested) (before : store.Roomy) (summed : store.Summed) (after_forested : after.Forested)
    (roomy : after.Roomy) : after.Summed := by
  cases published with
  | idle _ counter later ceiling => exact summed
  | insert path given entry stamped unindexed room =>
    subst stamped
    exact installInsert_summed summed forested unindexed rfl keeps after_forested roomy
  | insertBatch entries additions counter later ceiling fresh =>
    exact installBatch_summed summed forested fresh after_forested roomy
  | update id given existing updated stamped found parent name =>
    subst stamped
    refine installUpdate_summed summed forested found parent ?_ after_forested roomy
    exact (keeps existing found parent name).imp_right Nat.le_of_lt_succ
  | rename id entry oldPath newPath newParentId updates newName found indexed planned =>
    have shown := keeps entry oldPath newParentId updates newName found indexed planned
    have plan := planRename_ok planned
    rcases plan.cases with rfl | ⟨oldParent, newParent, link, rfl, changed⟩
    · exact installRename_summed_same summed found shown
    · obtain ⟨folder, target, _⟩ := plan.folder newParent rfl
      exact installRename_summed_moved summed forested before found link changed (by simp [Live, target])
        (checkReparent_ok (plan.outside (by simp [link, changed]))) shown after_forested roomy
  | removeSubtree id entry found => exact installRemoval_summed summed forested before found
  | replaceRoots roots orderedIds additions counter later ceiling fresh added origin =>
    exact installRoots_summed summed forested fresh added after_forested roomy
  | reorderRoots roots same => exact summed
  | markRootUnavailable id root found top => exact installUnavailable_summed summed forested found top
  | markDirectoriesChildrenLoaded ids loaded => exact summed
  | reconfigureProjection order visibility compactFolders fileNesting =>
    exact installProjection_summed summed none after_forested roomy
  | reconfigureProjectionWithExclusions order visibility compactFolders fileNesting classify =>
    exact installProjection_summed summed (some classify) after_forested roomy
  | remove id existing found => exact remove_summed summed forested before found keeps

/-- The summaries of every live id against its known subtree. -/
def ExactSummaries (store : EntryStore) : Prop :=
  ∀ id, store.Live id →
    (store.inner.subtreeVisibleCount id).toNat = (store.inner.subtree [id]).countP (fun low =>
      store.inner.entries[low]?.any store.visibility.includes) ∧
    (store.inner.subtreeTotalSize id).toNat = ((store.inner.subtree [id]).map (fun low =>
      store.inner.entries[low]?.elim 0 (·.size.toNat))).sum

theorem Summed.exact (summed : store.Summed) (forested : store.Forested) : store.ExactSummaries := by
  intro id live
  refine ⟨?_, (summed .bytes id live).trans (forested.gathered_eq live).symm⟩
  refine ((summed .rows id live).trans (forested.gathered_eq live).symm).trans ?_
  unfold gathered
  induction store.inner.subtree [id] with
  | nil => rfl
  | cons head rest ih =>
    rw [List.map_cons, List.sum_cons, ih, List.countP_cons, Nat.add_comm]
    congr 1
    unfold heft Measure.weigh
    cases store.inner.entries[head]? <;> rfl

theorem Forested.roomy (forested : store.Forested) (small : ∀ id < store.idCounter,
    (ancestorChain store.inner.entries (maxAncestorWalk + 1)
      (store.inner.entries[id]?.bind (·.parentId))).length ≤ maxAncestorWalk ∧
    store.gathered .rows id < 2 ^ 32 ∧ store.gathered .bytes id < 2 ^ 64) : store.Roomy where
  shallow id entry found := by
    have short := (small id (forested.bounded id (by simp [found]))).1
    rw [found] at short
    exact short
  fits measure id live := by
    have fits := (small id (forested.bounded id live)).2
    cases measure with
    | rows => exact fits.1
    | bytes => exact fits.2

/-- A root with one file of five bytes. -/
def oneFile : EntryStore :=
  (new.edit (.op (.insert (Path.ofNames ["r"]) (plainEntry none "r" .directory)))).edit
    (.op (.insert (Path.ofNames ["r", "a"]) { plainEntry (some 0) "a" .file with size := 5 }))

theorem oneFile_run : Run edit (fun store edit => store.KeepsSums edit ∧ (store.edit edit).Roomy) new oneFile ∧
    oneFile.Forested := by
  have root : new.KeepsSums (.op (.insert (Path.ofNames ["r"]) (plainEntry none "r" .directory))) := by
    intro parentId link
    cases link
  have first := edit_forested new_forested root
  have file : (new.edit (.op (.insert (Path.ofNames ["r"]) (plainEntry none "r" .directory)))).KeepsSums
      (.op (.insert (Path.ofNames ["r", "a"]) { plainEntry (some 0) "a" .file with size := 5 })) := by
    intro parentId link
    cases link
    unfold Live
    decide
  have second := edit_forested first file
  exact ⟨(Run.start.step _ ⟨root, first.roomy (by decide)⟩).step _
    ⟨file, second.roomy (by decide)⟩, second⟩

end Runs

end EntryStore

end Mille
