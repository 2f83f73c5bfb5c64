import Mathlib
import Mille.Ui.BatchTree

/-! What the batch commands leave of a selection. An entry that is selected together with one above
it is gone when a delete comes to it, and is pulled out of what was moved before it. -/

namespace Mille.Ui.Batch

section Places

theorem isPrefixOf_iff {upper lower : Place} : upper.isPrefixOf lower = true ↔ upper <+: lower :=
  List.isPrefixOf_iff_prefix

theorem nameOf_append (folder : Place) (name : String) : nameOf (folder ++ [name]) = name := by
  unfold nameOf
  rw [List.getLastD_eq_getLast?, List.getLast?_append]
  rfl

theorem dropLast_append_name {place : Place} (inner : place ≠ []) : place.dropLast ++ [nameOf place] = place := by
  unfold nameOf
  rw [List.getLastD_eq_getLast?, List.getLast?_eq_some_getLast inner]
  exact List.dropLast_append_getLast inner

theorem shift_inside {source target place : Place} (inside : source <+: place) :
    shift source target place = target ++ place.drop source.length :=
  if_pos (isPrefixOf_iff.mpr inside)

theorem shift_outside {source target place : Place} (outside : ¬source <+: place) :
    shift source target place = place :=
  if_neg fun inside => outside (isPrefixOf_iff.mp inside)

theorem prefix_snoc {upper folder : Place} {name : String} (within : upper <+: folder ++ [name]) :
    upper <+: folder ∨ upper = folder ++ [name] := by
  rcases List.prefix_concat_iff.mp within with whole | shorter
  · exact .inr whole
  · exact .inl shorter

theorem not_prefix_longer {folder more : Place} {name : String} : ¬folder ++ [name] ++ more <+: folder := by
  intro within
  have size := within.length_le
  rw [List.length_append, List.length_append, List.length_singleton] at size
  omega

theorem inits_shorter (place : Place) : place.inits.Pairwise fun first second => first.length < second.length := by
  induction place with
  | nil => exact List.pairwise_singleton _ _
  | cons name place ih =>
    rw [List.inits_cons, List.pairwise_cons]
    refine ⟨fun longer member => ?_, ?_⟩
    · obtain ⟨rest, _, rfl⟩ := List.mem_map.mp member
      exact Nat.succ_pos _
    · rw [List.pairwise_map]
      exact ih.imp fun shorter => Nat.succ_lt_succ shorter

theorem find_outermost {tops : List Place} {place top : Place}
    (found : (place.inits.find? fun top => top ∈ tops) = some top) :
    top ∈ tops ∧ top <+: place ∧ ∀ other ∈ tops, other <+: place → top.length ≤ other.length := by
  have chosen : top ∈ tops := by simpa using List.find?_some found
  have within := (List.mem_inits _ _).mp (List.mem_of_find?_eq_some found)
  refine ⟨chosen, within, fun other member inside => ?_⟩
  obtain ⟨_, front, back, split, skipped⟩ := List.find?_eq_some_iff_append.mp found
  have among := (List.mem_inits other place).mpr inside
  have order := inits_shorter place
  rw [split] at among order
  rcases List.mem_append.mp among with before | after
  · have skip := skipped other before
    rw [Bool.not_eq_true', decide_eq_false_iff_not] at skip
    exact absurd member skip
  · rcases List.mem_cons.mp after with same | later
    · exact same ▸ le_rfl
    · exact ((List.pairwise_cons.mp (List.pairwise_append.mp order).2.1).1 other later).le

theorem landing_none {tops : List Place} {folder place : Place}
    (outside : ∀ top ∈ tops, ¬top <+: place) : landing tops folder place = place := by
  unfold landing
  cases found : place.inits.find? fun top => top ∈ tops with
  | none => rfl
  | some top =>
    obtain ⟨member, within, _⟩ := find_outermost found
    exact absurd within (outside top member)

theorem landing_top {tops : List Place} {folder place top : Place} (member : top ∈ tops)
    (within : top <+: place) (alone : ∀ other ∈ tops, other <+: place → other = top) :
    landing tops folder place = folder ++ [nameOf top] ++ place.drop top.length := by
  unfold landing
  cases found : place.inits.find? fun top => top ∈ tops with
  | none =>
    have missed := List.find?_eq_none.mp found top ((List.mem_inits top place).mpr within)
    exact absurd (decide_eq_true member) missed
  | some other =>
    obtain ⟨chosen, inside, _⟩ := find_outermost found
    rw [alone other chosen inside]

theorem landing_deeper {tops : List Place} {folder place top : Place} (member : top ∈ tops)
    (within : top <+: place) (strict : top ≠ place) :
    folder.length + 1 < (landing tops folder place).length := by
  unfold landing
  cases found : place.inits.find? fun top => top ∈ tops with
  | none =>
    have missed := List.find?_eq_none.mp found top ((List.mem_inits top place).mpr within)
    exact absurd (decide_eq_true member) missed
  | some other =>
    obtain ⟨_, _, shortest⟩ := find_outermost found
    have short := shortest top member within
    have long : top.length < place.length :=
      lt_of_le_of_ne within.length_le fun same => strict (within.eq_of_length same)
    dsimp only
    rw [List.length_append, List.length_append, List.length_singleton, List.length_drop]
    omega

end Places

section Trees

variable {tree : Tree} {id other : EntryId} {node : Node}

theorem Tree.WellFormed.find_of_mem (formed : tree.WellFormed) {entry : EntryId × Node} (member : entry ∈ tree) :
    tree.find entry.1 = some entry.2 :=
  JsMap.lookup_of_mem formed.ids member

theorem mem_of_find (found : tree.find id = some node) : (id, node) ∈ tree :=
  JsMap.mem_of_lookup found

theorem Tree.WellFormed.one (formed : tree.WellFormed) {second : Node} (found : tree.find id = some node)
    (also : tree.find other = some second) (same : node.place = second.place) : id = other :=
  congrArg Prod.fst (List.inj_on_of_nodup_map formed.places (mem_of_find found) (mem_of_find also) same)

theorem Tree.WellFormed.prefix_found (formed : tree.WellFormed) (found : tree.find id = some node) {upper : Place}
    (within : upper <+: node.place) : ∃ top above, tree.find top = some above ∧ above.place = upper := by
  obtain ⟨rest, same⟩ := within
  induction rest using List.reverseRecOn generalizing id node with
  | nil => exact ⟨id, node, found, by rw [← same, List.append_nil]⟩
  | append_singleton rest name ih =>
    rw [← List.append_assoc] at same
    have inner : node.place ≠ [] := by
      rw [← same]
      exact List.append_ne_nil_of_right_ne_nil _ (List.cons_ne_nil _ _)
    obtain ⟨parent, member, place, _⟩ := formed.above (id, node) (mem_of_find found) inner
    refine ih (formed.find_of_mem member) ?_
    rw [place, ← same, List.dropLast_concat]

theorem find_relocate (source target : Place) : (tree.relocate source target).find id =
    (tree.find id).map fun node => { node with place := shift source target node.place } :=
  JsMap.lookup_map id tree fun node => Node.mk (shift source target node.place) node.folder

end Trees

section Moves

/-- No name that moves under the folder is taken there, by an entry of the folder or by another one
that moves. -/
def Tree.Free (tree : Tree) (ids : List EntryId) (folder : Place) : Prop :=
  ∀ id ∈ ids, ∀ node, tree.find id = some node → ∀ other near, tree.find other = some near → other ≠ id →
    other ∈ ids ∨ near.place ≠ [] ∧ near.place.dropLast = folder →
    DiskView.eqIgnoreAsciiCase (nameOf near.place) (nameOf node.place) = false

/-- A folder that some entries can be moved under. -/
structure Tree.Target (tree : Tree) (ids : List EntryId) (target : EntryId) (folder : Place) : Prop where
  formed : tree.WellFormed
  distinct : ids.Nodup
  known : ∀ id ∈ ids, ∃ node, tree.find id = some node
  found : tree.find target = some ⟨folder, true⟩
  outside : ∀ id ∈ ids, ∀ node, tree.find id = some node → ¬node.place <+: folder
  free : tree.Free ids folder

/-- The tree in the middle of a batch of moves. -/
structure Midway (tree : Tree) (ids : List EntryId) (target : EntryId) (folder : Place)
    (done : List EntryId) (now : Tree) : Prop where
  formed : now.WellFormed
  same : ∀ id, (now.find id).map (fun node => (nameOf node.place, node.folder)) =
    (tree.find id).map fun node => (nameOf node.place, node.folder)
  found : now.find target = some ⟨folder, true⟩
  outside : ∀ id ∈ ids, ∀ node, now.find id = some node → ¬node.place <+: folder
  placed : ∀ id ∈ done, ∀ node, now.find id = some node → node.place = folder ++ [nameOf node.place]
  near : ∀ id node, now.find id = some node → node.place ≠ [] → node.place.dropLast = folder →
    id ∈ done ∨ ∃ old, tree.find id = some old ∧ old.place = node.place
  stays : ∀ id old, tree.find id = some old → old.place ≠ [] → old.place.dropLast = folder →
    now.find id = some old

variable {tree now next : Tree} {ids done : List EntryId} {target id : EntryId} {folder : Place}
  {collide : Tree → EntryId → EntryId → String → Except FxError Tree}

theorem Tree.Target.start (given : tree.Target ids target folder) : Midway tree ids target folder [] tree where
  formed := given.formed
  same _ := rfl
  found := given.found
  outside := given.outside
  placed _ member := by cases member
  near id node found _ _ := .inr ⟨node, found, rfl⟩
  stays _ _ found _ _ := found

theorem Midway.kept (midway : Midway tree ids target folder done now) {node : Node}
    (found : now.find id = some node) : ∃ old, tree.find id = some old ∧
      nameOf old.place = nameOf node.place ∧ old.folder = node.folder := by
  have same := midway.same id
  rw [found, Option.map_some] at same
  obtain ⟨old, there, alike⟩ := Option.map_eq_some_iff.mp same.symm
  rw [Prod.mk.injEq] at alike
  exact ⟨old, there, alike⟩

theorem Midway.known (midway : Midway tree ids target folder done now) {old : Node}
    (found : tree.find id = some old) : ∃ node, now.find id = some node ∧
      nameOf old.place = nameOf node.place ∧ old.folder = node.folder := by
  have same := midway.same id
  rw [found, Option.map_some] at same
  obtain ⟨node, there, alike⟩ := Option.map_eq_some_iff.mp same
  rw [Prod.mk.injEq] at alike
  exact ⟨node, there, alike.1.symm, alike.2.symm⟩

theorem Midway.untaken (midway : Midway tree ids target folder done now) (free : tree.Free ids folder)
    (within : done ⊆ ids) (member : id ∈ ids) {node : Node} (found : now.find id = some node)
    (elsewhere : folder ++ [nameOf node.place] ≠ node.place) :
    now.taken folder (nameOf node.place) = false := by
  unfold Tree.taken
  rw [List.any_eq_false]
  intro entry among
  have there := midway.formed.find_of_mem among
  intro clash
  simp only [Bool.and_eq_true, decide_eq_true_eq, ne_eq] at clash
  obtain ⟨⟨inner, above⟩, alike⟩ := clash
  have other : entry.1 ≠ id := by
    rintro rfl
    rw [found, Option.some_inj] at there
    rw [there] at elsewhere
    exact elsewhere (above ▸ dropLast_append_name inner)
  obtain ⟨old, before, name, _⟩ := midway.kept found
  obtain ⟨near, known, label, _⟩ := midway.kept there
  rw [← name, ← label] at alike
  have apart := free id member old before entry.1 near known other ?_
  · rw [apart] at alike
    cases alike
  · rcases midway.near entry.1 entry.2 there inner above with moved | ⟨first, first_found, place⟩
    · exact .inl (within moved)
    · rw [known, Option.some_inj] at first_found
      rw [first_found, place]
      exact .inr ⟨inner, above⟩

theorem Midway.vacant (midway : Midway tree ids target folder done now) {name : String}
    (untaken : now.taken folder name = false) {node : Node} (found : now.find id = some node) :
    ¬folder ++ [name] <+: node.place := by
  intro within
  obtain ⟨top, above, known, place⟩ := midway.formed.prefix_found found within
  unfold Tree.taken at untaken
  have free := List.any_eq_false.mp untaken (top, above) (mem_of_find known)
  apply free
  dsimp only
  rw [place, nameOf_append, List.dropLast_concat]
  simp [DiskView.eqIgnoreAsciiCase]

/-- Moving a subtree to a vacant place keeps distinct ids, distinct places and a folder above each. -/
theorem Tree.WellFormed.relocate {source : Place} {name : String} (formed : now.WellFormed)
    (found : now.find target = some ⟨folder, true⟩) (outside : ¬source <+: folder) (inner : source ≠ [])
    (vacant : ∀ id node, now.find id = some node → ¬folder ++ [name] <+: node.place) :
    (now.relocate source (folder ++ [name])).WellFormed := by
  have place_of {entry : EntryId × Node} (member : entry ∈ now) := vacant entry.1 entry.2 (formed.find_of_mem member)
  refine ⟨?_, ?_, ?_⟩
  · unfold Tree.relocate
    rw [List.map_map]
    exact formed.ids
  · unfold Tree.relocate
    rw [List.map_map]
    refine (List.nodup_map_iff_inj_on (List.Nodup.of_map _ formed.ids)).mpr ?_
    intro first left second right same
    rw [Function.comp_apply, Function.comp_apply] at same
    dsimp only at same
    refine List.inj_on_of_nodup_map formed.places left right ?_
    by_cases one : source <+: first.2.place
    · by_cases two : source <+: second.2.place
      · rw [shift_inside one, shift_inside two, List.append_cancel_left_eq] at same
        obtain ⟨rest, here⟩ := one
        obtain ⟨more, there⟩ := two
        rw [← here, ← there, List.drop_left, List.drop_left] at same
        rw [← here, ← there, same]
      · rw [shift_inside one, shift_outside two] at same
        exact absurd ⟨_, same⟩ (place_of right)
    · by_cases two : source <+: second.2.place
      · rw [shift_outside one, shift_inside two] at same
        exact absurd ⟨_, same.symm⟩ (place_of left)
      · rwa [shift_outside one, shift_outside two] at same
  · intro entry member deep
    obtain ⟨old, among, rfl⟩ := List.mem_map.mp member
    dsimp only at deep ⊢
    by_cases inside : source <+: old.2.place
    · obtain ⟨rest, place⟩ := inside
      rw [shift_inside ⟨rest, place⟩, ← place, List.drop_left]
      rcases List.eq_nil_or_concat rest with rfl | ⟨front, last, rfl⟩
      · refine ⟨_, List.mem_map.mpr ⟨(target, ⟨folder, true⟩), mem_of_find found, rfl⟩, ?_, rfl⟩
        rw [List.append_nil, List.dropLast_concat]
        exact shift_outside outside
      · rw [List.concat_eq_append] at place
        have below : old.2.place ≠ [] := by
          rw [← place]
          exact List.append_ne_nil_of_left_ne_nil inner _
        obtain ⟨parent, there, above, isFolder⟩ := formed.above old among below
        refine ⟨_, List.mem_map.mpr ⟨parent, there, rfl⟩, ?_, isFolder⟩
        rw [← place, ← List.append_assoc, List.dropLast_concat] at above
        dsimp only
        rw [above, shift_inside (List.prefix_append _ _), List.drop_left, List.concat_eq_append,
          ← List.append_assoc, List.dropLast_concat]
    · rw [shift_outside inside] at deep ⊢
      obtain ⟨parent, there, above, isFolder⟩ := formed.above old among deep
      refine ⟨_, List.mem_map.mpr ⟨parent, there, rfl⟩, ?_, isFolder⟩
      rw [← above]
      exact shift_outside fun within => inside (within.trans (above ▸ List.dropLast_prefix _))

theorem shift_self (source place : Place) : shift source source place = place := by
  by_cases inside : source <+: place
  · obtain ⟨rest, same⟩ := inside
    rw [shift_inside ⟨rest, same⟩, ← same, List.drop_left]
  · exact shift_outside inside

theorem nameOf_shift {source place : Place} {name : String} (named : nameOf source = name) :
    nameOf (shift source (folder ++ [name]) place) = nameOf place := by
  by_cases inside : source <+: place
  · obtain ⟨rest, same⟩ := inside
    rw [shift_inside ⟨rest, same⟩, ← same, List.drop_left]
    rcases List.eq_nil_or_concat rest with rfl | ⟨front, last, rfl⟩
    · rw [List.append_nil, List.append_nil, nameOf_append, named]
    · rw [List.concat_eq_append, ← List.append_assoc, ← List.append_assoc, nameOf_append, nameOf_append]
  · rw [shift_outside inside]

/-- Moving one entry: the tree stays in the middle of its batch. -/
theorem Midway.relocate (midway : Midway tree ids target folder done now) {node : Node}
    (member : id ∈ ids) (found : now.find id = some node)
    (elsewhere : folder ++ [nameOf node.place] ≠ node.place)
    (untaken : now.taken folder (nameOf node.place) = false) :
    Midway tree ids target folder (done ++ [id]) (now.relocate node.place (folder ++ [nameOf node.place])) := by
  have outside := midway.outside id member node found
  have inner : node.place ≠ [] := fun root => outside (root ▸ List.nil_prefix)
  have vacant {other : EntryId} {near : Node} (there : now.find other = some near) :=
    midway.vacant untaken there
  -- an entry of the folder is at the place that is moved only if it is the one that moves
  have still {other : EntryId} {near : Node} (there : now.find other = some near) {name : String}
      (place : near.place = folder ++ [name]) : ¬node.place <+: near.place := by
    intro within
    rcases prefix_snoc (place ▸ within) with above | whole
    · exact outside above
    · have same := whole
      rw [whole, nameOf_append] at elsewhere
      exact elsewhere rfl
  refine ⟨?_, ?_, ?_, ?_, ?_, ?_, ?_⟩
  · exact midway.formed.relocate midway.found outside inner fun other near there => vacant there
  · intro other
    rw [find_relocate, Option.map_map, ← midway.same other]
    congr 1
    funext near
    rw [Function.comp_apply, nameOf_shift rfl]
  · rw [find_relocate, midway.found, Option.map_some, shift_outside outside]
  · intro other among near there within
    rw [find_relocate] at there
    obtain ⟨old, known, rfl⟩ := Option.map_eq_some_iff.mp there
    dsimp only at within
    by_cases inside : node.place <+: old.place
    · rw [shift_inside inside] at within
      exact not_prefix_longer within
    · rw [shift_outside inside] at within
      exact midway.outside other among old known within
  · intro other among near there
    rw [find_relocate] at there
    obtain ⟨old, known, rfl⟩ := Option.map_eq_some_iff.mp there
    dsimp only
    rw [nameOf_shift rfl]
    rcases List.mem_append.mp among with before | last
    · have place := midway.placed other before old known
      rw [shift_outside (still known place)]
      exact place
    · rw [List.mem_singleton.mp last, found, Option.some_inj] at known
      rw [← known, shift_inside (List.prefix_refl _), List.drop_length, List.append_nil]
  · intro other near there deep above
    rw [find_relocate] at there
    obtain ⟨old, known, rfl⟩ := Option.map_eq_some_iff.mp there
    dsimp only at deep above ⊢
    by_cases inside : node.place <+: old.place
    · left
      obtain ⟨rest, same⟩ := inside
      rw [shift_inside ⟨rest, same⟩, ← same, List.drop_left] at above
      have short := congrArg List.length above
      rw [List.length_dropLast, List.length_append, List.length_append, List.length_singleton] at short
      have bare : rest = [] := List.eq_nil_of_length_eq_zero (by omega)
      rw [bare, List.append_nil] at same
      have one := midway.formed.one found known same
      exact List.mem_append_right _ (List.mem_singleton.mpr one.symm)
    · rw [shift_outside inside] at deep above ⊢
      rcases midway.near other old known deep above with moved | first
      · exact .inl (List.mem_append_left _ moved)
      · exact .inr first
  · intro other old there deep above
    have known := midway.stays other old there deep above
    have place : old.place = folder ++ [nameOf old.place] := above ▸ (dropLast_append_name deep).symm
    rw [find_relocate, known, Option.map_some, shift_outside (still known place)]

theorem Midway.arrived (midway : Midway tree ids target folder done now) {node : Node}
    (found : now.find id = some node) (place : node.place = folder ++ [nameOf node.place]) :
    Midway tree ids target folder (done ++ [id]) now where
  formed := midway.formed
  same := midway.same
  found := midway.found
  outside := midway.outside
  placed other among near there := by
    rcases List.mem_append.mp among with before | last
    · exact midway.placed other before near there
    · rw [List.mem_singleton.mp last, found, Option.some_inj] at there
      rwa [there] at place
  near other near there deep above := (midway.near other near there deep above).imp_left
    (List.mem_append_left _)
  stays := midway.stays

theorem Midway.move (midway : Midway tree ids target folder done now) (given : tree.Target ids target folder)
    (within : done ⊆ ids) (member : id ∈ ids) {node : Node} (found : now.find id = some node)
    (valid : validateEntryName (nameOf node.place) = .ok ()) :
    ∃ next, now.move collide id target none = .ok next ∧ Midway tree ids target folder (done ++ [id]) next ∧
      ∀ other, next.find other = (now.find other).map fun near =>
        { near with place := shift node.place (folder ++ [nameOf node.place]) near.place } := by
  have outside := midway.outside id member node found
  have inner : node.place ≠ [] := fun root => outside (root ▸ List.nil_prefix)
  have apart : (node.folder && node.place.isPrefixOf folder) = false := by
    rw [Bool.and_eq_false_iff]
    right
    rw [← Bool.not_eq_true, isPrefixOf_iff]
    exact outside
  unfold Tree.move
  rw [found, midway.found]
  dsimp only
  rw [if_neg inner, if_neg (by decide), apart, if_neg (by decide), Option.getD_none, valid]
  dsimp only
  by_cases there : folder ++ [nameOf node.place] = node.place
  · rw [if_pos there]
    refine ⟨now, rfl, midway.arrived found there.symm, fun other => ?_⟩
    rw [there]
    simp only [shift_self]
    exact Option.map_id'.symm
  · have untaken := midway.untaken given.free within member found there
    rw [if_neg there, untaken, if_neg (by decide)]
    exact ⟨_, rfl, midway.relocate member found there untaken, fun other => find_relocate _ _⟩

/-- No selected entry is above another one. -/
def Tree.Apart (tree : Tree) (ids : List EntryId) : Prop :=
  ∀ first ∈ ids, ∀ second ∈ ids, first ≠ second → ∀ upper lower, tree.find first = some upper →
    tree.find second = some lower → ¬upper.place <+: lower.place

/-- Every entry is where it goes once some of the selected ones were moved. -/
def Landed (tree : Tree) (folder : Place) (done : List EntryId) (now : Tree) : Prop :=
  ∀ id, now.find id = (tree.find id).map fun node =>
    { node with place := landing (tree.placesOf done) folder node.place }

theorem mem_placesOf {place : Place} : place ∈ tree.placesOf ids ↔
    ∃ id ∈ ids, ∃ node, tree.find id = some node ∧ node.place = place := by
  unfold Tree.placesOf
  rw [List.mem_filterMap]
  refine exists_congr fun id => and_congr_right fun _ => ?_
  exact Option.map_eq_some_iff

theorem placesOf_snoc {old : Node} (found : tree.find id = some old) :
    tree.placesOf (done ++ [id]) = tree.placesOf done ++ [old.place] := by
  unfold Tree.placesOf
  rw [List.filterMap_append]
  simp [found]

theorem Tree.Target.unmixed (given : tree.Target ids target folder) (apart : tree.Apart ids)
    {first second : EntryId} (member : first ∈ ids) (also : second ∈ ids) (differ : first ≠ second)
    {top old : Node} (found : tree.find first = some top) (known : tree.find second = some old) {more : Place} :
    ¬old.place <+: folder ++ [nameOf top.place] ++ more := by
  intro within
  rcases List.prefix_or_prefix_of_prefix within (List.prefix_append (folder ++ [nameOf top.place]) more) with
    short | long
  · rcases prefix_snoc short with above | whole
    · exact given.outside second also old known above
    · have clash := given.free first member top found second old known differ.symm (.inl also)
      rw [whole, nameOf_append] at clash
      simp [DiskView.eqIgnoreAsciiCase] at clash
  · obtain ⟨near, node, there, place⟩ := given.formed.prefix_found known long
    by_cases same : near = first
    · rw [same, found, Option.some_inj] at there
      rw [← place, ← there] at long
      exact apart first member second also differ top old found known long
    · have clash := given.free first member top found near node there same (.inr ⟨?_, ?_⟩)
      · rw [place, nameOf_append] at clash
        simp [DiskView.eqIgnoreAsciiCase] at clash
      · rw [place]
        exact List.append_ne_nil_of_right_ne_nil _ (List.cons_ne_nil _ _)
      · rw [place, List.dropLast_concat]

/-- Where nothing selected is above another, one more move lands what it takes along. -/
theorem Landed.move (landed : Landed tree folder done now) (given : tree.Target ids target folder)
    (apart : tree.Apart ids) (within : done ⊆ ids) (fresh : id ∉ done) (member : id ∈ ids) {old node : Node}
    (known : tree.find id = some old) (found : now.find id = some node)
    (moves : ∀ other, next.find other = (now.find other).map fun near =>
      { near with place := shift node.place (folder ++ [nameOf node.place]) near.place }) :
    Landed tree folder (done ++ [id]) next := by
  have stays : landing (tree.placesOf done) folder old.place = old.place := by
    refine landing_none fun top among inside => ?_
    obtain ⟨first, before, upper, there, rfl⟩ := mem_placesOf.mp among
    have differ : first ≠ id := fun same => fresh (same ▸ before)
    exact apart first (within before) id member differ upper old there known inside
  have place : node.place = old.place := by
    rw [landed id, known, Option.map_some, Option.some_inj] at found
    rw [← found]
    exact stays
  intro other
  rw [moves, landed other, Option.map_map]
  apply Option.map_congr
  intro near there
  rw [Function.comp_apply, Node.mk.injEq]
  refine ⟨?_, rfl⟩
  dsimp only
  rw [place, placesOf_snoc known]
  by_cases inside : ∃ first ∈ done, ∃ upper, tree.find first = some upper ∧ upper.place <+: near.place
  · obtain ⟨first, before, upper, top_found, above⟩ := inside
    have differ : first ≠ id := fun same => fresh (same ▸ before)
    have alone {others : List EntryId} (some_of : others ⊆ ids) : ∀ top ∈ tree.placesOf others,
        top <+: near.place → top = upper.place := by
      intro top among below
      obtain ⟨second, chosen, lower, second_found, rfl⟩ := mem_placesOf.mp among
      by_contra unequal
      have distinct : second ≠ first := by
        rintro rfl
        rw [top_found, Option.some_inj] at second_found
        exact unequal (congrArg Node.place second_found.symm)
      rcases List.prefix_or_prefix_of_prefix below above with deeper | shallower
      · exact apart second (some_of chosen) first (within before) distinct lower upper second_found top_found deeper
      · exact apart first (within before) second (some_of chosen) distinct.symm upper lower top_found
          second_found shallower
    have here : upper.place ∈ tree.placesOf done := mem_placesOf.mpr ⟨first, before, upper, top_found, rfl⟩
    have joined : done ++ [id] ⊆ ids :=
      List.append_subset.mpr ⟨within, fun _ last => List.mem_singleton.mp last ▸ member⟩
    have both := alone joined
    rw [placesOf_snoc known] at both
    rw [landing_top here above (alone within), landing_top (List.mem_append_left _ here) above both]
    exact shift_outside (given.unmixed apart (within before) member differ top_found known)
  · have clear : ∀ top ∈ tree.placesOf done, ¬top <+: near.place := by
      intro top among below
      obtain ⟨first, before, upper, top_found, rfl⟩ := mem_placesOf.mp among
      exact inside ⟨first, before, upper, top_found, below⟩
    rw [landing_none clear]
    by_cases below : old.place <+: near.place
    · rw [shift_inside below, landing_top (List.mem_append_right _ (List.mem_singleton_self _)) below]
      intro top among under
      rcases List.mem_append.mp among with before | last
      · exact absurd under (clear top before)
      · exact List.mem_singleton.mp last
    · rw [shift_outside below, landing_none]
      intro top among under
      rcases List.mem_append.mp among with before | last
      · exact clear top before under
      · exact below (List.mem_singleton.mp last ▸ under)

/-- The names that a move would give its entries again are ones an entry may take. -/
def Tree.Named (tree : Tree) (ids : List EntryId) : Prop :=
  ∀ id ∈ ids, ∀ node, tree.find id = some node → validateEntryName (nameOf node.place) = .ok ()

theorem Midway.named (midway : Midway tree ids target folder done now) {node : Node}
    (found : now.find id = some node) : (∀ old, tree.find id = some old →
      validateEntryName (nameOf old.place) = .ok ()) ↔ validateEntryName (nameOf node.place) = .ok () := by
  obtain ⟨old, known, name, _⟩ := midway.kept found
  rw [← name]
  refine ⟨fun valid => valid old known, fun valid other also => ?_⟩
  rw [known, Option.some_inj] at also
  rwa [← also]

theorem Midway.valid_of_move (midway : Midway tree ids target folder done now) (member : id ∈ ids) {node : Node}
    (found : now.find id = some node) (moved : now.move collide id target none = .ok next) :
    validateEntryName (nameOf node.place) = .ok () := by
  have outside := midway.outside id member node found
  have inner : node.place ≠ [] := fun root => outside (root ▸ List.nil_prefix)
  have apart : (node.folder && node.place.isPrefixOf folder) = false := by
    rw [Bool.and_eq_false_iff]
    right
    rw [← Bool.not_eq_true, isPrefixOf_iff]
    exact outside
  unfold Tree.move at moved
  rw [found, midway.found] at moved
  dsimp only at moved
  rw [if_neg inner, if_neg (by decide), apart, if_neg (by decide), Option.getD_none] at moved
  cases valid : validateEntryName (nameOf node.place) with
  | ok => rfl
  | error error =>
    rw [valid] at moved
    cases moved

theorem Midway.attempt (midway : Midway tree ids target folder done now) (given : tree.Target ids target folder)
    (within : done ⊆ ids) (fresh : id ∉ done) (member : id ∈ ids) :
    (∃ next, now.move collide id target none = .ok next ∧
        (∀ node, tree.find id = some node → validateEntryName (nameOf node.place) = .ok ()) ∧
        Midway tree ids target folder (done ++ [id]) next ∧
        (tree.Apart ids → Landed tree folder done now → Landed tree folder (done ++ [id]) next)) ∨
      (∃ error, now.move collide id target none = .error error) ∧
        ∃ node, tree.find id = some node ∧ validateEntryName (nameOf node.place) ≠ .ok () := by
  obtain ⟨old, known⟩ := given.known id member
  obtain ⟨node, found, name, _⟩ := midway.known known
  by_cases valid : validateEntryName (nameOf node.place) = .ok ()
  · left
    obtain ⟨next, moved, later, moves⟩ := @Midway.move _ _ _ _ _ _ _ collide midway given within member node found valid
    refine ⟨next, moved, (midway.named found).mpr valid, later, fun apart landed => ?_⟩
    exact landed.move given apart within fresh member known found moves
  · right
    refine ⟨?_, old, known, name ▸ valid⟩
    cases outcome : now.move collide id target none with
    | error error => exact ⟨error, rfl⟩
    | ok next => exact absurd (midway.valid_of_move member found outcome) valid

/-- A batch of moves goes well exactly when every name can be moved with; its ids are then under the
folder, and whole subtrees where none is selected within another. -/
theorem Midway.batch (midway : Midway tree ids target folder done now) (given : tree.Target ids target folder)
    {rest : List EntryId} (split : ids = done ++ rest) (count : Nat) :
    ((runMutationBatch (fun tree id => tree.move collide id target none) rest now count).failure = none ↔
        tree.Named rest) ∧
      ((runMutationBatch (fun tree id => tree.move collide id target none) rest now count).failure = none →
        Midway tree ids target folder ids
            (runMutationBatch (fun tree id => tree.move collide id target none) rest now count).tree ∧
          (tree.Apart ids → Landed tree folder done now → Landed tree folder ids
            (runMutationBatch (fun tree id => tree.move collide id target none) rest now count).tree)) := by
  induction rest generalizing done now count with
  | nil =>
    rw [List.append_nil] at split
    refine ⟨⟨fun _ => (fun _ member => (by cases member)), fun _ => rfl⟩, fun _ => ?_⟩
    rw [split]
    exact ⟨split ▸ midway, fun _ landed => landed⟩
  | cons id rest ih =>
    have member : id ∈ ids := split ▸ List.mem_append_right _ List.mem_cons_self
    have within : done ⊆ ids := split ▸ List.subset_append_left _ _
    have fresh : id ∉ done := by
      intro before
      have distinct := given.distinct
      rw [split] at distinct
      exact (List.nodup_append.mp distinct).2.2 id before id List.mem_cons_self rfl
    have onward : ids = (done ++ [id]) ++ rest := by rw [split, List.append_assoc, List.singleton_append]
    unfold runMutationBatch
    rcases @Midway.attempt _ _ _ _ _ _ _ collide midway given within fresh member with
      ⟨next, moved, valid, later, lands⟩ | ⟨⟨error, failed⟩, node, known, invalid⟩
    · rw [moved]
      obtain ⟨named, left⟩ := ih later onward (count + 1)
      refine ⟨named.trans ⟨fun others => ?_, fun all => ?_⟩, fun well => ?_⟩
      · intro other among
        rcases List.mem_cons.mp among with rfl | among
        · exact valid
        · exact others other among
      · exact fun other among => all other (List.mem_cons_of_mem _ among)
      · exact ⟨(left well).1, fun apart landed => (left well).2 apart (lands apart landed)⟩
    · rw [failed]
      refine ⟨⟨fun none => (by cases none), fun all => ?_⟩, fun none => (by cases none)⟩
      exact absurd (all id List.mem_cons_self node known) invalid

end Moves

end Mille.Ui.Batch
