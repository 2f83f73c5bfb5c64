import Mathlib
import Mille.Ui.BatchRuns

/-! When a batch command leaves what it is meant to: a delete when nothing comes after what it is
below, moves when nothing selected is below anything else selected. -/

namespace Mille.Ui.Batch

variable {tree now next : Tree} {ids done : List EntryId} {target id : EntryId} {folder : Place}
  {collide : Tree → EntryId → EntryId → String → Except FxError Tree}

section Deletes

theorem find_filter {keep : Node → Bool} (distinct : (now.map Prod.fst).Nodup) (id : EntryId) :
    Tree.find (now.filter fun entry => keep entry.2) id = (now.find id).filter keep := by
  unfold Tree.find
  induction now with
  | nil => rfl
  | cons entry rest ih =>
    rw [List.map_cons, List.nodup_cons] at distinct
    have later := ih distinct.2
    rw [List.filter_cons, JsMap.lookup]
    by_cases kept : keep entry.2 = true
    · rw [if_pos kept, JsMap.lookup, later]
      split
      · rw [Option.filter_some, if_pos kept]
      · rfl
    · rw [if_neg kept, later]
      by_cases here : entry.1 = id
      · rw [if_pos here, Option.filter_some, if_neg kept, JsMap.lookup_none (here ▸ distinct.1)]
        rfl
      · rw [if_neg here]

/-- An entry at or below one of some others. -/
def Tree.covered (tree : Tree) (tops : List EntryId) (node : Node) : Bool :=
  tops.any fun top => (tree.find top).any fun upper => upper.place.isPrefixOf node.place

/-- The tree in the middle of a delete. -/
structure Cleared (tree : Tree) (done : List EntryId) (now : Tree) : Prop where
  distinct : (now.map Prod.fst).Nodup
  left : ∀ id, now.find id = (tree.find id).filter fun node => !tree.covered done node

theorem covered_snoc {upper node : Node} (found : tree.find id = some upper) :
    tree.covered (done ++ [id]) node = (tree.covered done node || upper.place.isPrefixOf node.place) := by
  unfold Tree.covered
  rw [List.any_append]
  simp [found]

/-- What a delete asks of a selection: no workspace root, and nothing after what it is below. -/
structure Tree.Removable (tree : Tree) (ids : List EntryId) : Prop where
  inner : ∀ id ∈ ids, ∀ node, tree.find id = some node → node.place ≠ []
  ordered : ids.Pairwise fun first second => ∀ upper lower, tree.find first = some upper →
    tree.find second = some lower → ¬upper.place <+: lower.place

theorem Cleared.batch (cleared : Cleared tree done now) {rest : List EntryId}
    (known : ∀ id ∈ rest, ∃ node, tree.find id = some node) (count : Nat) :
    ((runMutationBatch (fun tree id => tree.delete id true) rest now count).failure = none ↔
        tree.Removable rest ∧ ∀ id ∈ rest, ∀ node, tree.find id = some node → tree.covered done node = false) ∧
      ((runMutationBatch (fun tree id => tree.delete id true) rest now count).failure = none →
        Cleared tree (done ++ rest) (runMutationBatch (fun tree id => tree.delete id true) rest now count).tree) := by
  induction rest generalizing done now count with
  | nil =>
    rw [List.append_nil]
    refine ⟨⟨fun _ => ⟨⟨?_, List.Pairwise.nil⟩, ?_⟩, fun _ => rfl⟩, fun _ => cleared⟩
    · exact fun _ member => (by cases member)
    · exact fun _ member => (by cases member)
  | cons id rest ih =>
    obtain ⟨node, found⟩ := known id List.mem_cons_self
    have here := cleared.left id
    rw [found] at here
    unfold runMutationBatch Tree.delete
    by_cases covered : tree.covered done node = true
    · rw [here, Option.filter_some, covered, if_neg (by decide)]
      refine ⟨⟨fun none => (by cases none), fun all => ?_⟩, fun none => (by cases none)⟩
      have uncovered := all.2 id List.mem_cons_self node found
      rw [covered] at uncovered
      cases uncovered
    · rw [Bool.not_eq_true] at covered
      rw [here, Option.filter_some, covered, if_pos (by decide)]
      dsimp only
      by_cases root : node.place = []
      · rw [if_pos root]
        refine ⟨⟨fun none => (by cases none), fun all => ?_⟩, fun none => (by cases none)⟩
        exact absurd root (all.1.inner id List.mem_cons_self node found)
      · rw [if_neg root, Bool.not_true, Bool.and_false, if_neg (by decide), Bool.true_or, if_pos rfl]
        dsimp only
        have later : Cleared tree (done ++ [id]) (now.removeSubtree node.place) := by
          refine ⟨cleared.distinct.sublist (List.filter_sublist.map Prod.fst), fun other => ?_⟩
          have left := @find_filter now (fun near => !node.place.isPrefixOf near.place) cleared.distinct other
          refine left.trans ?_
          rw [cleared.left other, Option.filter_filter]
          congr 1
          funext near
          rw [covered_snoc found, Bool.not_or, Bool.and_comm]
        obtain ⟨well, leaves⟩ := ih later (fun other member => known other (List.mem_cons_of_mem _ member))
          (count + 1)
        rw [List.append_assoc, List.singleton_append] at leaves
        refine ⟨well.trans ⟨fun rest_well => ?_, fun all => ?_⟩, leaves⟩
        · have split {other : EntryId} (member : other ∈ rest) {near : Node} (there : tree.find other = some near) :
              tree.covered done near = false ∧ node.place.isPrefixOf near.place = false := by
            have both := rest_well.2 other member near there
            rwa [covered_snoc found, Bool.or_eq_false_iff] at both
          refine ⟨⟨?_, List.pairwise_cons.mpr ⟨?_, rest_well.1.ordered⟩⟩, ?_⟩
          · intro other member
            rcases List.mem_cons.mp member with rfl | member
            · intro near there
              rw [found, Option.some_inj] at there
              exact there ▸ root
            · exact rest_well.1.inner other member
          · intro other member upper lower upper_found lower_found within
            rw [found, Option.some_inj] at upper_found
            have apart := (split member lower_found).2
            rw [upper_found, isPrefixOf_iff.mpr within] at apart
            cases apart
          · intro other member near there
            rcases List.mem_cons.mp member with rfl | member
            · rw [found, Option.some_inj] at there
              exact there ▸ covered
            · exact (split member there).1
        · obtain ⟨before, after⟩ := List.pairwise_cons.mp all.1.ordered
          refine ⟨⟨fun other member => all.1.inner other (List.mem_cons_of_mem _ member), after⟩, ?_⟩
          intro other member near there
          rw [covered_snoc found, all.2 other (List.mem_cons_of_mem _ member) near there, Bool.false_or,
            ← Bool.not_eq_true, isPrefixOf_iff]
          exact before other member node near found there

theorem cleared_start (formed : tree.WellFormed) : Cleared tree [] tree := by
  refine ⟨formed.ids, fun id => ?_⟩
  cases tree.find id <;> rfl

theorem batch_removed_iff (formed : tree.WellFormed) (known : ∀ id ∈ ids, ∃ node, tree.find id = some node) :
    Removed tree ids (runMutationBatch (fun tree id => tree.delete id true) ids tree 0) ↔ tree.Removable ids := by
  obtain ⟨well, leaves⟩ := (cleared_start formed).batch known 0
  constructor
  · exact fun removed => (well.mp removed.1).1
  · intro removable
    have none := well.mpr ⟨removable, fun _ _ _ _ => rfl⟩
    exact ⟨none, (leaves none).left⟩

end Deletes

section Moves

theorem landed_start (tree : Tree) (folder : Place) : Landed tree folder [] tree := by
  intro id
  have unmoved (node : Node) : landing (tree.placesOf []) folder node.place = node.place :=
    landing_none fun top member => (by cases member)
  simp only [unmoved]
  exact Option.map_id'.symm

theorem Midway.moved_iff (midway : Midway tree ids target folder ids now) (given : tree.Target ids target folder)
    (lands : tree.Apart ids → Landed tree folder ids now) : Landed tree folder ids now ↔ tree.Apart ids := by
  refine ⟨fun landed => ?_, lands⟩
  intro first member second also differ upper lower found known within
  have strict : upper.place ≠ lower.place := fun same => differ (given.formed.one found known same)
  have deep := @landing_deeper (tree.placesOf ids) folder lower.place upper.place
    (mem_placesOf.mpr ⟨first, member, upper, found, rfl⟩) within strict
  have there := landed second
  rw [known, Option.map_some] at there
  have size := congrArg List.length (midway.placed second also _ there)
  rw [List.length_append, List.length_singleton] at size
  dsimp only at size
  omega

theorem batch_moved_iff (given : tree.Target ids target folder) :
    Moved tree ids folder (runMutationBatch (fun tree id => tree.move collide id target none) ids tree 0) ↔
      tree.Apart ids ∧ tree.Named ids := by
  obtain ⟨well, leaves⟩ := @Midway.batch tree tree ids [] target folder collide given.start given ids rfl 0
  constructor
  · rintro ⟨none, landed⟩
    obtain ⟨midway, lands⟩ := leaves none
    exact ⟨(midway.moved_iff given fun apart => lands apart (landed_start tree folder)).mp landed, well.mp none⟩
  · rintro ⟨apart, named⟩
    have none := well.mpr named
    exact ⟨none, (leaves none).2 apart (landed_start tree folder)⟩

end Moves

section Drops

/-- An entry that stands in the folder already. -/
def Node.isIn (node : Node) (folder : Place) : Prop := node.place ≠ [] ∧ node.place.dropLast = folder

/-- What a drop asks of the names: those of entries that stand in the folder already are not used. -/
def Tree.NamedAway (tree : Tree) (ids : List EntryId) (folder : Place) : Prop :=
  ∀ id ∈ ids, ∀ node, tree.find id = some node → node.isIn folder ∨
    validateEntryName (nameOf node.place) = .ok ()

theorem Midway.parentOf_eq (midway : Midway tree ids target folder done now) (node : Node) :
    now.parentOf node = some target ↔ node.isIn folder := by
  unfold Tree.parentOf Node.isIn
  by_cases root : node.place = []
  · simp [root]
  rw [if_neg root, and_iff_right root]
  constructor
  · intro parent
    obtain ⟨entry, found, same⟩ := Option.map_eq_some_iff.mp parent
    have place : entry.2.place = node.place.dropLast := by simpa using List.find?_some found
    have there := midway.formed.find_of_mem (List.mem_of_find?_eq_some found)
    rw [same, midway.found, Option.some_inj] at there
    rw [← place, ← there]
  · intro above
    have member := mem_of_find midway.found
    cases found : now.find? fun entry => entry.2.place = node.place.dropLast with
    | none =>
      have missed := List.find?_eq_none.mp found _ member
      exact absurd (decide_eq_true above.symm) missed
    | some entry =>
      have place : entry.2.place = node.place.dropLast := by simpa using List.find?_some found
      have there := midway.formed.find_of_mem (List.mem_of_find?_eq_some found)
      exact congrArg some (midway.formed.one there midway.found (place.trans above))

theorem Midway.shown_in (midway : Midway tree ids target folder done now) (fresh : id ∉ done) {old : Node}
    (known : tree.find id = some old) :
    ((now.find id).any fun node => now.parentOf node = some target) = true ↔ old.isIn folder := by
  constructor
  · intro shown
    obtain ⟨node, found, _, _⟩ := midway.known known
    rw [found, Option.any_some, decide_eq_true_eq, midway.parentOf_eq] at shown
    rcases midway.near id node found shown.1 shown.2 with moved | ⟨first, there, place⟩
    · exact absurd moved fresh
    · rw [known, Option.some_inj] at there
      unfold Node.isIn
      rw [there, place]
      exact shown
  · intro inside
    rw [midway.stays id old known inside.1 inside.2, Option.any_some]
    exact decide_eq_true ((midway.parentOf_eq old).mpr inside)

/-- The moves of a drop, with whatever moments are shown: as a batch, but for the names of entries
that stand in the folder already. -/
theorem Midway.drop (midway : Midway tree ids target folder done now) (given : tree.Target ids target folder)
    {past : List Tree} (earlier : ∀ shown ∈ past, ∃ before ⊆ done, Midway tree ids target folder before shown)
    {rest : List EntryId} (split : ids = done ++ rest) (lags : List Nat) (count : Nat) :
    ((dropMoves collide target lags rest past now count).failure = none ↔ tree.NamedAway rest folder) ∧
      ((dropMoves collide target lags rest past now count).failure = none →
        Midway tree ids target folder ids (dropMoves collide target lags rest past now count).tree ∧
          (tree.Apart ids → Landed tree folder done now →
            Landed tree folder ids (dropMoves collide target lags rest past now count).tree)) := by
  induction rest generalizing done now past lags count with
  | nil =>
    rw [List.append_nil] at split
    unfold dropMoves
    refine ⟨⟨fun _ => (fun _ member => (by cases member)), fun _ => rfl⟩, fun _ => ?_⟩
    rw [split]
    exact ⟨split ▸ midway, fun _ landed => landed⟩
  | cons id rest ih =>
    have member : id ∈ ids := split ▸ List.mem_append_right _ List.mem_cons_self
    have within : done ⊆ ids := split ▸ List.subset_append_left _ _
    have fresh : id ∉ done := by
      intro before
      have distinct := given.distinct
      rw [split] at distinct
      exact (List.nodup_append.mp distinct).2.2 id before id List.mem_cons_self rfl
    have onward : ids = (done ++ [id]) ++ rest := by rw [split, List.append_assoc, List.singleton_append]
    obtain ⟨old, known⟩ := given.known id member
    have moments : ∀ shown ∈ now :: past, ∃ before ⊆ done, Midway tree ids target folder before shown := by
      intro shown among
      rcases List.mem_cons.mp among with rfl | among
      · exact ⟨done, List.Subset.refl _, midway⟩
      · exact earlier shown among
    have wider {late : List Tree} (all : ∀ shown ∈ late, ∃ before ⊆ done, Midway tree ids target folder before shown) :
        ∀ shown ∈ late, ∃ before ⊆ done ++ [id], Midway tree ids target folder before shown := by
      intro shown among
      obtain ⟨before, subset, there⟩ := all shown among
      exact ⟨before, List.Subset.trans subset (List.subset_append_left _ _), there⟩
    have shown_in : ((((now :: past).getD (lags.headD 0) now).find id).any fun node =>
        ((now :: past).getD (lags.headD 0) now).parentOf node = some target) = true ↔ old.isIn folder := by
      have among : (now :: past).getD (lags.headD 0) now ∈ now :: past := by
        rw [List.getD_eq_getElem?_getD]
        cases there : (now :: past)[lags.headD 0]? with
        | none => exact List.mem_cons_self
        | some shown => exact List.mem_of_getElem? there
      obtain ⟨before, subset, there⟩ := moments _ among
      exact there.shown_in (fun moved => fresh (subset moved)) known
    unfold dropMoves
    dsimp only
    by_cases inside : old.isIn folder
    · rw [if_pos (shown_in.mpr inside)]
      have here := midway.stays id old known inside.1 inside.2
      have place : old.place = folder ++ [nameOf old.place] :=
        inside.2 ▸ (dropLast_append_name inside.1).symm
      obtain ⟨well, leaves⟩ := ih (midway.arrived here place) (wider earlier) onward lags.tail (count + 1)
      refine ⟨well.trans ⟨fun others => ?_, fun all => ?_⟩, fun none => ⟨(leaves none).1, fun apart landed => ?_⟩⟩
      · intro other among node there
        rcases List.mem_cons.mp among with rfl | among
        · rw [known, Option.some_inj] at there
          exact .inl (there ▸ inside)
        · exact others other among node there
      · exact fun other among => all other (List.mem_cons_of_mem _ among)
      · refine (leaves none).2 apart (landed.move given apart within fresh member known here fun other => ?_)
        rw [← place]
        simp only [shift_self]
        exact Option.map_id'.symm
    · rw [if_neg fun shown => inside (shown_in.mp shown)]
      rcases @Midway.attempt _ _ _ _ _ _ _ collide midway given within fresh member with
        ⟨next, moved, valid, later, lands⟩ | ⟨⟨error, failed⟩, node, there, invalid⟩
      · rw [moved]
        obtain ⟨well, leaves⟩ := ih later (wider moments) onward lags.tail (count + 1)
        refine ⟨well.trans ⟨fun others => ?_, fun all => ?_⟩, fun none => ?_⟩
        · intro other among node there
          rcases List.mem_cons.mp among with rfl | among
          · exact .inr (valid node there)
          · exact others other among node there
        · exact fun other among => all other (List.mem_cons_of_mem _ among)
        · exact ⟨(leaves none).1, fun apart landed => (leaves none).2 apart (lands apart landed)⟩
      · rw [failed]
        refine ⟨⟨fun none => (by cases none), fun all => ?_⟩, fun none => (by cases none)⟩
        rw [known, Option.some_inj] at there
        rcases all id List.mem_cons_self old known with stays | valid
        · exact absurd stays inside
        · exact absurd (there ▸ valid) invalid

theorem drop_moved_iff (given : tree.Target ids target folder) (lags : List Nat) :
    Moved tree ids folder (dropMoves collide target lags ids [] tree 0) ↔
      tree.Apart ids ∧ tree.NamedAway ids folder := by
  obtain ⟨well, leaves⟩ := @Midway.drop tree tree ids [] target folder collide given.start given []
    (fun _ member => (by cases member)) ids rfl lags 0
  constructor
  · rintro ⟨none, landed⟩
    obtain ⟨midway, lands⟩ := leaves none
    exact ⟨(midway.moved_iff given fun apart => lands apart (landed_start tree folder)).mp landed, well.mp none⟩
  · rintro ⟨apart, named⟩
    have none := well.mpr named
    exact ⟨none, (leaves none).2 apart (landed_start tree folder)⟩

end Drops

section Commands

theorem known_of_target (given : tree.Target ids target folder) {row : EntryId} {position : DropPosition}
    (resolved : resolveTargetParent tree row position = some target) (alone : ids = [row]) :
    ∃ old, tree.find row = some old ∧ old.isIn folder := by
  obtain ⟨old, known, chosen⟩ := Option.bind_eq_some_iff.mp resolved
  refine ⟨old, known, ?_⟩
  split at chosen
  · rw [Option.some_inj] at chosen
    have found := given.found
    rw [← chosen, known, Option.some_inj] at found
    have outside := given.outside row (alone ▸ List.mem_singleton_self row) old known
    rw [found] at outside
    exact absurd (List.prefix_refl folder) outside
  · exact (given.start.parentOf_eq old).mp chosen

/-- A drop that validation stops had nothing to move. -/
theorem onDrop_moved_iff (given : tree.Target ids target folder) {row : EntryId} {position : DropPosition}
    (resolved : resolveTargetParent tree row position = some target) (lags : List Nat) :
    Moved tree ids folder (onDrop collide ids row position lags tree) ↔
      tree.Apart ids ∧ tree.NamedAway ids folder := by
  unfold onDrop validateSync
  rw [resolved]
  dsimp only
  by_cases alone : position = .self ∧ ids = [row]
  · rw [if_pos alone]
    obtain ⟨old, known, inside⟩ := known_of_target given resolved alone.2
    have member : row ∈ ids := alone.2 ▸ List.mem_singleton_self row
    have apart : tree.Apart ids := by
      intro first among second also differ
      rw [alone.2, List.mem_singleton] at among also
      exact absurd (among.trans also.symm) differ
    have place : folder ++ [nameOf old.place] = old.place := inside.2 ▸ dropLast_append_name inside.1
    have landed : Landed tree folder ids tree := by
      have moved := (landed_start tree folder).move given apart (List.nil_subset _) List.not_mem_nil member
        known known fun other => (by
          rw [place]
          simp only [shift_self]
          exact Option.map_id'.symm)
      rwa [List.nil_append, ← alone.2] at moved
    refine ⟨fun _ => ⟨apart, fun id among node found => ?_⟩, fun _ => ⟨rfl, landed⟩⟩
    rw [alone.2, List.mem_singleton] at among
    rw [among, known, Option.some_inj] at found
    exact .inl (found ▸ inside)
  · have clear : (ids.any fun id => tree.isSelfOrDescendant id target) = false := by
      rw [List.any_eq_false]
      intro id among
      obtain ⟨node, found⟩ := given.known id among
      unfold Tree.isSelfOrDescendant
      rw [found, given.found]
      dsimp only
      rw [isPrefixOf_iff]
      exact given.outside id among node found
    rw [if_neg alone, clear, if_neg (by decide)]
    exact drop_moved_iff given lags

/-- A delete removes the selected subtrees exactly when no workspace root is selected and no entry
comes after one above it; the moves leave every outermost selected subtree whole under the target
exactly when no selected entry is above another and the names used can be moved with. -/
theorem batch_commands_iff (tree : Tree) (formed : tree.WellFormed) (ids : List EntryId)
    (known : ∀ id ∈ ids, ∃ node, tree.find id = some node) :
    (∀ given recursive confirm context, commandIds given context = some ids → recursive ≠ some false →
      confirm ≠ some false →
      (Removed tree ids (deleteCommand given recursive confirm context tree) ↔ tree.Removable ids)) ∧
    ∀ target folder, tree.Target ids target folder →
      ∀ collide : Tree → EntryId → EntryId → String → Except FxError Tree,
        (∀ given context, commandIds given context = some ids →
          (Moved tree ids folder (moveCommand collide given target none context tree) ↔
            tree.Apart ids ∧ tree.Named ids)) ∧
        (∀ context, context.cutIds = ids → resolvePasteTarget context tree = some target →
          (Moved tree ids folder (pasteCut collide context tree) ↔ tree.Apart ids ∧ tree.Named ids)) ∧
        ∀ row position lags, resolveTargetParent tree row position = some target →
          (Moved tree ids folder (onDrop collide ids row position lags tree) ↔
            tree.Apart ids ∧ tree.NamedAway ids folder) := by
  constructor
  · intro given recursive confirm context parsed whole agreed
    unfold deleteCommand
    rw [parsed]
    have all : recursive.getD true = true := by
      rcases recursive with _ | (_ | _)
      · rfl
      · exact absurd rfl whole
      · rfl
    have go : (decide (ids.length > 1) && decide (confirm = some false)) = false := by
      rw [decide_eq_false agreed, Bool.and_false]
    dsimp only
    rw [go, if_neg (by decide), all]
    exact batch_removed_iff formed known
  · intro target folder aim collide
    refine ⟨fun given context parsed => ?_, fun context cut aimed => ?_, fun row position lags resolved => ?_⟩
    · unfold moveCommand
      rw [parsed]
      exact batch_moved_iff aim
    · unfold pasteCut
      rw [aimed, cut]
      exact batch_moved_iff aim
    · exact onDrop_moved_iff aim resolved lags

/-- A folder with a file in it, beside an empty folder. -/
def sampleTree : Tree :=
  [(0, ⟨[], true⟩), (1, ⟨["a"], true⟩), (2, ⟨["a", "b"], false⟩), (3, ⟨["t"], true⟩)]

theorem sampleTree_formed : sampleTree.WellFormed := by
  refine ⟨by decide, by decide, ?_⟩
  unfold sampleTree
  decide

theorem sampleTree_target : sampleTree.Target [1] 3 ["t"] := by
  have folder {node : Node} (found : sampleTree.find 1 = some node) : node = ⟨["a"], true⟩ :=
    (Option.some_inj.mp found).symm
  refine ⟨sampleTree_formed, by decide, ?_, rfl, ?_, ?_⟩
  · intro id member
    rw [List.mem_singleton.mp member]
    exact ⟨_, rfl⟩
  · intro id member node found
    rw [List.mem_singleton.mp member] at found
    rw [folder found]
    decide
  · intro id member node found other near there differ which
    rw [List.mem_singleton.mp member] at found differ
    rw [folder found]
    have names : ∀ entry ∈ sampleTree, entry.1 ≠ 1 →
        DiskView.eqIgnoreAsciiCase (nameOf entry.2.place) "a" = false := by
      unfold sampleTree
      decide
    exact names (other, near) (mem_of_find there) differ

/-- What a collision comes to where there is none. -/
def noCollision (tree : Tree) (_ _ : EntryId) (_ : String) : Except FxError Tree := .ok tree

theorem batch_commands_sample :
    Removed sampleTree [1] (deleteCommand none none none ⟨[1], [], none⟩ sampleTree) ∧
      Moved sampleTree [1] ["t"] (moveCommand noCollision none 3 none ⟨[1], [], none⟩ sampleTree) ∧
      Moved sampleTree [1] ["t"] (pasteCut noCollision ⟨[], [1], some 3⟩ sampleTree) ∧
      Moved sampleTree [1] ["t"] (onDrop noCollision [1] 3 .self [] sampleTree) := by
  have folder {id : EntryId} (member : id ∈ [1]) {node : Node} (found : sampleTree.find id = some node) :
      node = ⟨["a"], true⟩ := by
    rw [List.mem_singleton.mp member] at found
    exact (Option.some_inj.mp found).symm
  have apart : sampleTree.Apart [1] := fun first among second also differ =>
    absurd ((List.mem_singleton.mp among).trans (List.mem_singleton.mp also).symm) differ
  have named : sampleTree.Named [1] := fun id member node found => folder member found ▸ rfl
  have removable : sampleTree.Removable [1] :=
    ⟨fun id member node found => folder member found ▸ (by decide), List.pairwise_singleton _ _⟩
  obtain ⟨deletes, moves⟩ := batch_commands_iff sampleTree sampleTree_formed [1] sampleTree_target.known
  obtain ⟨move, paste, drop⟩ := moves 3 ["t"] sampleTree_target noCollision
  refine ⟨?_, ?_, ?_, ?_⟩
  · exact (deletes none none none ⟨[1], [], none⟩ rfl (by decide) (by decide)).mpr removable
  · exact (move none ⟨[1], [], none⟩ rfl).mpr ⟨apart, named⟩
  · exact (paste ⟨[], [1], some 3⟩ rfl rfl).mpr ⟨apart, named⟩
  · exact (drop 3 .self [] rfl).mpr ⟨apart, fun id member node found => .inr (named id member node found)⟩


/-- A folder and the file in it are selected. -/
theorem nested_selection_fails :
    ¬Removed sampleTree [1, 2] (deleteCommand none none none ⟨[1, 2], [], none⟩ sampleTree) ∧
      ¬Moved sampleTree [1, 2] ["t"] (moveCommand noCollision none 3 none ⟨[1, 2], [], none⟩ sampleTree) ∧
      ¬Moved sampleTree [1, 2] ["t"] (pasteCut noCollision ⟨[], [1, 2], some 3⟩ sampleTree) ∧
      ¬Moved sampleTree [1, 2] ["t"] (onDrop noCollision [1, 2] 3 .self [] sampleTree) := by
  refine ⟨fun removed => ?_, fun moved => ?_, fun moved => ?_, fun moved => ?_⟩
  · exact absurd (congrArg Option.isNone removed.1) (by decide)
  · exact absurd (moved.2 2) (by decide)
  · exact absurd (moved.2 2) (by decide)
  · exact absurd (moved.2 2) (by decide)

end Commands

end Mille.Ui.Batch
