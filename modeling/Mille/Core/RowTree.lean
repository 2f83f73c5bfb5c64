import Mille.Core.Viewport

/-! The flattened rows as a tree: compacted chains end in fixed points, every
row hangs below an expanded row, and no entry is shown twice. -/

namespace Mille

open Forest StackWalk

variable {snapshot : StoreSnapshot} {context : ProjectionContext} {includeIgnored : Bool}
variable {id child head leaf cursor above : EntryId} {hops fuel : Nat} {segments : List String} {entry : Entry}

namespace StoreSnapshot

/-- A chain of only folders with at most so many links. -/
def ChainWithin (snapshot : StoreSnapshot) (includeIgnored : Bool) : Nat → EntryId → Prop
  | 0, id => snapshot.onlyFolder includeIgnored id = none
  | links + 1, id => ∀ child, snapshot.onlyFolder includeIgnored id = some child →
      ChainWithin snapshot includeIgnored links child

/-- No chain of only folders below the roots is longer than a projection follows. -/
def ShortChains (snapshot : StoreSnapshot) (includeIgnored : Bool) : Prop :=
  ∀ (id : EntryId) entry, snapshot.entries[id]? = some entry → entry.parentId.isSome = true →
    entry.kind = .directory → snapshot.ChainWithin includeIgnored 256 id

theorem ChainWithin.ends (short : snapshot.ChainWithin includeIgnored hops leaf) :
    snapshot.onlyFolder includeIgnored (snapshot.trailingSegments includeIgnored hops leaf segments).1 = none := by
  induction hops generalizing leaf segments with
  | zero => exact short
  | succ hops ih =>
    rw [trailingSegments_succ]
    cases only : snapshot.onlyFolder includeIgnored leaf with
    | none => exact only
    | some child => exact ih (short child only)

theorem trailingSegments_end (last : snapshot.onlyFolder includeIgnored leaf = none) :
    snapshot.trailingSegments includeIgnored hops leaf segments = (leaf, segments) := by
  cases hops with
  | zero => rfl
  | succ hops => rw [trailingSegments_succ, last]

theorem trailingSegments_folder
    (folder : ∃ entry, snapshot.entries[leaf]? = some entry ∧ entry.kind = .directory) :
    ∃ entry, snapshot.entries[(snapshot.trailingSegments includeIgnored hops leaf segments).1]? = some entry ∧
      entry.kind = .directory := by
  induction hops generalizing leaf segments with
  | zero => exact folder
  | succ hops ih =>
    rw [trailingSegments_succ]
    cases only : snapshot.onlyFolder includeIgnored leaf with
    | none => exact folder
    | some child => exact ih (onlyFolder_eq_some.mp only).2

theorem projectedEntry_eq_of_file
    (present : snapshot.entries[(snapshot.projectedEntry id includeIgnored).1]? = some entry)
    (file : entry.kind = .file) : (snapshot.projectedEntry id includeIgnored).1 = id := by
  rcases @projectedEntry_id snapshot includeIgnored id with same | ⟨start, segments, _, here, _, kind, same⟩
  · exact same
  · obtain ⟨other, found, folder⟩ :=
      @trailingSegments_folder snapshot includeIgnored id 256 segments ⟨start, here, kind⟩
    rw [← same, present] at found
    cases found
    rw [file] at folder
    cases folder

theorem projectedEntry_fixed (short : snapshot.ShortChains includeIgnored) :
    (snapshot.projectedEntry (snapshot.projectedEntry id includeIgnored).1 includeIgnored).1 =
      (snapshot.projectedEntry id includeIgnored).1 := by
  rcases @projectedEntry_id snapshot includeIgnored id with same | ⟨entry, segments, _, present, child, folder, same⟩
  · rw [same, same]
  · have last := @ChainWithin.ends snapshot includeIgnored id 256 segments (short id entry present child folder)
    rw [← same] at last
    generalize (snapshot.projectedEntry id includeIgnored).1 = leaf at last
    rcases @projectedEntry_id snapshot includeIgnored leaf with here | ⟨_, others, _, _, _, _, here⟩
    · exact here
    · rw [here, trailingSegments_end last]

/-- The folder that a projection folds into the row of a cursor below it. -/
def foldedParent (snapshot : StoreSnapshot) (includeIgnored : Bool) (cursor : EntryId) : Option EntryId :=
  match snapshot.entries[cursor]?.bind (·.parentId) with
  | none => none
  | some parentId =>
    if snapshot.entries[parentId]?.any (fun parent => parent.parentId.isSome && parent.kind = .directory) &&
      snapshot.shown includeIgnored (snapshot.childrenOf parentId) = [cursor] then some parentId else none

theorem foldedParent_eq_some (folded : snapshot.foldedParent includeIgnored cursor = some above) :
    snapshot.parentLink cursor = some (some above) ∧
      (∃ parent, snapshot.entries[above]? = some parent ∧ parent.parentId.isSome = true ∧ parent.kind = .directory) ∧
      snapshot.shown includeIgnored (snapshot.childrenOf above) = [cursor] := by
  unfold foldedParent at folded
  split at folded
  · cases folded
  · next parentId link =>
    rw [Option.ite_none_right_eq_some, Bool.and_eq_true, Option.any_eq_true, decide_eq_true_iff] at folded
    obtain ⟨⟨⟨parent, present, inner⟩, single⟩, same⟩ := folded
    cases same
    obtain ⟨entry, here, link⟩ := Option.bind_eq_some_iff.mp link
    rw [Bool.and_eq_true, decide_eq_true_iff] at inner
    exact ⟨parentLink_eq_some.mpr ⟨entry, here, link⟩, ⟨parent, present, inner⟩, single⟩

/-- The folders above a cursor that its row folds in, the highest first. -/
def leadingIds (snapshot : StoreSnapshot) (includeIgnored : Bool) : Nat → EntryId → List EntryId
  | 0, _ => []
  | hops + 1, cursor =>
    match snapshot.foldedParent includeIgnored cursor with
    | none => []
    | some above => leadingIds snapshot includeIgnored hops above ++ [above]

/-- The names of live ids. -/
def names (snapshot : StoreSnapshot) (ids : List EntryId) : List String :=
  ids.filterMap (fun id => snapshot.entries[id]?.map (·.name))

theorem leadingSegments_eq : snapshot.leadingSegments includeIgnored hops cursor segments =
    snapshot.names (snapshot.leadingIds includeIgnored hops cursor) ++ segments := by
  induction hops generalizing cursor segments with
  | zero => rfl
  | succ hops ih =>
    rw [leadingSegments, leadingIds]
    unfold foldedParent
    cases snapshot.entries[cursor]?.bind (·.parentId) with
    | none => rfl
    | some parentId =>
      dsimp only
      cases present : snapshot.entries[parentId]? with
      | none => rfl
      | some parent =>
        by_cases inner : parent.parentId = none ∨ parent.kind ≠ .directory
        · rcases inner with root | other
          · simp [root, names]
          · simp [other, names]
        · rw [not_or, not_not] at inner
          by_cases single : snapshot.shown includeIgnored (snapshot.childrenOf parentId) = [cursor]
          · simp [inner, single, ih, names, present, Option.isSome_iff_ne_none]
          · simp [inner, single, names]

theorem leadingIds_above (linked : Linked snapshot.parentLink snapshot.childrenOf snapshot.roots)
    (member : above ∈ snapshot.leadingIds includeIgnored hops cursor) :
    Below snapshot.parentLink above cursor ∧ above ≠ cursor := by
  induction hops generalizing cursor with
  | zero => cases member
  | succ hops ih =>
    rw [leadingIds] at member
    split at member
    · cases member
    · next upper folded =>
      have link := (foldedParent_eq_some folded).1
      have rooted := linked.rooted cursor (by simp [link])
      rcases List.mem_append.mp member with higher | last
      · obtain ⟨path, _⟩ := ih higher
        refine ⟨path.trans (.of_link link), ?_⟩
        rintro rfl
        exact rooted.no_cycle link path
      · rw [List.mem_singleton] at last
        subst last
        refine ⟨.of_link link, ?_⟩
        rintro rfl
        exact rooted.no_cycle link .self

theorem leadingIds_live (member : above ∈ snapshot.leadingIds includeIgnored hops cursor) :
    ∃ entry, snapshot.entries[above]? = some entry := by
  induction hops generalizing cursor with
  | zero => cases member
  | succ hops ih =>
    rw [leadingIds] at member
    split at member
    · cases member
    · next upper folded =>
      rcases List.mem_append.mp member with higher | last
      · exact ih higher
      · obtain ⟨_, ⟨parent, present, _⟩, _⟩ := foldedParent_eq_some folded
        exact ⟨parent, List.mem_singleton.mp last ▸ present⟩

theorem leadingIds_nodup (linked : Linked snapshot.parentLink snapshot.childrenOf snapshot.roots) :
    (snapshot.leadingIds includeIgnored hops cursor).Nodup := by
  induction hops generalizing cursor with
  | zero => exact List.nodup_nil
  | succ hops ih =>
    rw [leadingIds]
    split
    · exact List.nodup_nil
    · refine List.nodup_append.mpr ⟨ih, List.nodup_singleton _, fun first here second there same => ?_⟩
      rw [List.mem_singleton] at there
      exact (leadingIds_above linked here).2 (same.trans there)

theorem leadingIds_below (stop : snapshot.foldedParent includeIgnored head = none)
    (start : Below snapshot.parentLink head cursor)
    (member : above ∈ snapshot.leadingIds includeIgnored hops cursor) : Below snapshot.parentLink head above := by
  induction hops generalizing cursor with
  | zero => cases member
  | succ hops ih =>
    rw [leadingIds] at member
    split at member
    · cases member
    · next upper folded =>
      have strict : cursor ≠ head := by
        rintro rfl
        rw [stop] at folded
        cases folded
      have climbed := start.last_step strict (foldedParent_eq_some folded).1
      rcases List.mem_append.mp member with higher | last
      · exact ih climbed higher
      · rw [List.mem_singleton.mp last]
        exact climbed

/-- A folder below the roots, which a projection may compact. -/
def compactable (snapshot : StoreSnapshot) (id : EntryId) : Bool :=
  snapshot.compactFolders && snapshot.entries[id]?.any (fun entry => entry.parentId.isSome && entry.kind = .directory)

theorem compactable_iff : snapshot.compactable id = true ↔ snapshot.compactFolders = true ∧
    ∃ entry, snapshot.entries[id]? = some entry ∧ entry.parentId.isSome = true ∧ entry.kind = .directory := by
  unfold compactable
  rw [Bool.and_eq_true, Option.any_eq_true]
  simp only [Bool.and_eq_true, decide_eq_true_iff]

/-- The entries a row stands for: its interior links and its own id. -/
def represented (snapshot : StoreSnapshot) (includeIgnored : Bool) (id : EntryId) : List EntryId :=
  if snapshot.compactable id then snapshot.leadingIds includeIgnored 256 id ++ [id] else [id]

theorem mem_represented_self : id ∈ snapshot.represented includeIgnored id := by
  unfold represented
  split <;> simp

theorem represented_above (linked : Linked snapshot.parentLink snapshot.childrenOf snapshot.roots)
    (member : above ∈ snapshot.represented includeIgnored id) : Below snapshot.parentLink above id := by
  unfold represented at member
  split at member
  · rcases List.mem_append.mp member with higher | last
    · exact (leadingIds_above linked higher).1
    · rw [List.mem_singleton.mp last]
      exact .self
  · rw [List.mem_singleton.mp member]
    exact .self

theorem represented_nodup (linked : Linked snapshot.parentLink snapshot.childrenOf snapshot.roots) :
    (snapshot.represented includeIgnored id).Nodup := by
  unfold represented
  split
  · refine List.nodup_append.mpr ⟨leadingIds_nodup linked, List.nodup_singleton _, fun first here second there same => ?_⟩
    rw [List.mem_singleton] at there
    exact (leadingIds_above linked here).2 (same.trans there)
  · exact List.nodup_singleton _

theorem projectedEntry_of_not_compactable (plain : ¬ snapshot.compactable id = true) :
    snapshot.projectedEntry id includeIgnored = (id, none) := by
  rw [compactable_iff, not_and] at plain
  unfold projectedEntry
  split
  · rfl
  · next compact =>
    split
    · rfl
    · next entry present =>
      rw [if_pos]
      have outer := plain (by simpa using compact)
      by_contra inner
      rw [Bool.or_eq_true, not_or, decide_eq_true_iff, not_not] at inner
      exact outer ⟨entry, present, by simpa [Option.isSome_iff_ne_none] using inner.1, inner.2⟩

theorem projectedEntry_of_compactable (folder : snapshot.compactable id = true) :
    ∃ entry, snapshot.entries[id]? = some entry ∧ snapshot.projectedEntry id includeIgnored =
      let leading := snapshot.leadingSegments includeIgnored 256 id [entry.name]
      let (leaf, segments) := snapshot.trailingSegments includeIgnored 256 id leading
      if leaf = id && segments.length = 1 then (id, none) else (leaf, some segments) := by
  obtain ⟨compact, entry, present, child, kind⟩ := compactable_iff.mp folder
  refine ⟨entry, present, ?_⟩
  have inner : entry.parentId ≠ none := Option.isSome_iff_ne_none.mp child
  unfold projectedEntry
  simp [compact, present, inner, kind]

theorem onlyFolder_of_fixed (linked : Linked snapshot.parentLink snapshot.childrenOf snapshot.roots)
    (fixed : (snapshot.projectedEntry id includeIgnored).1 = id) (folder : snapshot.compactable id = true) :
    snapshot.onlyFolder includeIgnored id = none := by
  obtain ⟨entry, _, projected⟩ := @projectedEntry_of_compactable snapshot includeIgnored id folder
  cases only : snapshot.onlyFolder includeIgnored id with
  | none => rfl
  | some child =>
    have link := (linked.child_iff child id).mp (onlyFolder_mem only)
    have moved (segments : List String) :
        Below snapshot.parentLink child (snapshot.trailingSegments includeIgnored 256 id segments).1 := by
      rw [trailingSegments_succ, only]
      exact trailingSegments_below linked
    rw [projected] at fixed
    dsimp only at fixed
    split at fixed
    · next same =>
      rw [Bool.and_eq_true, decide_eq_true_iff] at same
      have cycle := moved (snapshot.leadingSegments includeIgnored 256 id [entry.name])
      rw [same.1] at cycle
      exact absurd cycle ((linked.rooted child (by simp [link])).no_cycle link)
    · have cycle := moved (snapshot.leadingSegments includeIgnored 256 id [entry.name])
      rw [fixed] at cycle
      exact absurd cycle ((linked.rooted child (by simp [link])).no_cycle link)

theorem projectedEntry_segments (linked : Linked snapshot.parentLink snapshot.childrenOf snapshot.roots)
    (fixed : (snapshot.projectedEntry id includeIgnored).1 = id) :
    (snapshot.projectedEntry id includeIgnored).2 =
      if snapshot.represented includeIgnored id = [id] then none
      else some (snapshot.names (snapshot.represented includeIgnored id)) := by
  unfold represented
  by_cases folder : snapshot.compactable id = true
  · obtain ⟨entry, present, projected⟩ := @projectedEntry_of_compactable snapshot includeIgnored id folder
    have last := onlyFolder_of_fixed linked fixed folder
    rw [projected]
    dsimp only
    rw [trailingSegments_end last, if_pos folder, leadingSegments_eq]
    cases leading : snapshot.leadingIds includeIgnored 256 id with
    | nil => simp [names]
    | cons first rest =>
      obtain ⟨upper, live⟩ := leadingIds_live (leading ▸ List.mem_cons_self : first ∈ snapshot.leadingIds includeIgnored 256 id)
      simp [names, live, present]
  · rw [projectedEntry_of_not_compactable folder, if_neg folder, if_pos rfl]

theorem foldedParent_of_fixed (linked : Linked snapshot.parentLink snapshot.childrenOf snapshot.roots)
    (compact : snapshot.compactFolders = true) (fixed : (snapshot.projectedEntry id includeIgnored).1 = id)
    (link : snapshot.parentLink head = some (some id)) (present : snapshot.entries[head]? = some entry)
    (folder : entry.kind = .directory) : snapshot.foldedParent includeIgnored head = none := by
  cases folded : snapshot.foldedParent includeIgnored head with
  | none => rfl
  | some above =>
    obtain ⟨other, ⟨parent, here, inner, kind⟩, single⟩ := foldedParent_eq_some folded
    have same := other.symm.trans link
    rw [Option.some.injEq, Option.some.injEq] at same
    subst same
    have none := onlyFolder_of_fixed linked fixed (compactable_iff.mpr ⟨compact, parent, here, inner, kind⟩)
    rw [onlyFolder_eq_some.mpr ⟨single, entry, present, folder⟩] at none
    cases none

theorem represented_below (linked : Linked snapshot.parentLink snapshot.childrenOf snapshot.roots)
    (fixed : (snapshot.projectedEntry id includeIgnored).1 = id) (link : snapshot.parentLink head = some (some id))
    (member : above ∈ snapshot.represented includeIgnored (snapshot.projectedEntry head includeIgnored).1) :
    Below snapshot.parentLink head above := by
  have start := @projectedEntry_below snapshot snapshot.parentLink includeIgnored head linked
  unfold represented at member
  split at member
  · next folder =>
    rcases List.mem_append.mp member with higher | last
    · obtain ⟨compact, entry, present, _, kind⟩ := compactable_iff.mp folder
      have headed : ∃ entry, snapshot.entries[head]? = some entry ∧ entry.kind = .directory := by
        rcases @projectedEntry_id snapshot includeIgnored head with same | ⟨found, _, _, here, _, directory, _⟩
        · exact ⟨entry, same ▸ present, kind⟩
        · exact ⟨found, here, directory⟩
      obtain ⟨found, here, directory⟩ := headed
      exact leadingIds_below (foldedParent_of_fixed linked compact fixed link here directory) start higher
    · rw [List.mem_singleton.mp last]
      exact start
  · rw [List.mem_singleton.mp member]
    exact start

end StoreSnapshot

namespace ProjectionContext

open StoreSnapshot

/-- Whether an id belongs to a file, whose projected children are nested files. -/
def isFile (context : ProjectionContext) (id : EntryId) : Bool :=
  context.snapshot.entries[id]?.any (·.kind = .file)

/-- The entries that the row of an id and the rows below it may stand for. -/
def region (context : ProjectionContext) (id : EntryId) : Set EntryId :=
  if context.isFile id then {mark | mark = id ∨ mark ∈ context.childrenOf id}
  else {mark | ∃ above ∈ context.snapshot.represented context.includeIgnored id,
    Below context.snapshot.parentLink above mark}

theorem isFile_iff : context.isFile id = true ↔
    ∃ entry, context.snapshot.entries[id]? = some entry ∧ entry.kind = .file := by
  unfold isFile
  rw [Option.any_eq_true]
  simp only [decide_eq_true_iff]

theorem childrenOf_fixed (linked : Linked context.snapshot.parentLink context.snapshot.childrenOf context.snapshot.roots)
    (short : context.snapshot.ShortChains context.includeIgnored) (member : child ∈ context.childrenOf id) :
    (context.snapshot.projectedEntry child context.includeIgnored).1 = child := by
  cases present : context.snapshot.entries[id]? with
  | none => simp [childrenOf, present] at member
  | some entry =>
    by_cases file : entry.kind = .file
    · obtain ⟨⟨other, here, kind⟩, _⟩ := childrenOf_file linked present file member
      rw [projectedEntry_of_file here (by simp [kind])]
    · obtain ⟨head, _, rfl⟩ := childrenOf_folder present file member
      exact projectedEntry_fixed short

theorem region_head (linked : Linked context.snapshot.parentLink context.snapshot.childrenOf context.snapshot.roots)
    (fixed : (context.snapshot.projectedEntry id context.includeIgnored).1 = id)
    (rooted : head ∈ (context.plan id).roots) {mark : EntryId}
    (inside : mark ∈ context.region (context.snapshot.projectedEntry head context.includeIgnored).1) :
    Below context.snapshot.parentLink head mark ∨ ∃ kids, (context.plan id).nested[head]? = some kids ∧ mark ∈ kids := by
  have visible := (@plan_planned context id).roots_sublist.subset rooted
  have link := (linked.child_iff head id).mp (List.mem_of_mem_filter visible)
  have lower := @projectedEntry_below context.snapshot _ context.includeIgnored head linked
  unfold region at inside
  split at inside
  · next file =>
    obtain ⟨entry, present, kind⟩ := isFile_iff.mp file
    have same := projectedEntry_eq_of_file present kind
    rw [same] at inside present
    obtain ⟨found, here, parentId⟩ := parentLink_eq_some.mp link
    cases present.symm.trans here
    rcases inside with rfl | nested
    · exact .inl .self
    · right
      simp only [childrenOf, present, kind, parentId, if_true, Std.ExtTreeMap.getD_eq_getD_getElem?] at nested
      cases listed : (context.plan id).nested[head]? with
      | none => simp [listed] at nested
      | some kids => exact ⟨kids, rfl, by simpa [listed] using nested⟩
  · obtain ⟨above, standing, path⟩ := inside
    exact .inl ((represented_below linked fixed link standing).trans path)

theorem kids_link (linked : Linked context.snapshot.parentLink context.snapshot.childrenOf context.snapshot.roots)
    {kids : List EntryId} (listed : (context.plan id).nested[head]? = some kids) (member : child ∈ kids) :
    context.snapshot.parentLink child = some (some id) := by
  have visible := (mem_files.mp ((@plan_planned context id).kids_visible head kids listed child member)).1
  exact (linked.child_iff child id).mp (List.mem_of_mem_filter visible)

theorem roots_link (linked : Linked context.snapshot.parentLink context.snapshot.childrenOf context.snapshot.roots)
    (rooted : head ∈ (context.plan id).roots) : context.snapshot.parentLink head = some (some id) := by
  have visible := (@plan_planned context id).roots_sublist.subset rooted
  exact (linked.child_iff head id).mp (List.mem_of_mem_filter visible)

theorem region_child (linked : Linked context.snapshot.parentLink context.snapshot.childrenOf context.snapshot.roots)
    (fixed : (context.snapshot.projectedEntry id context.includeIgnored).1 = id)
    (rooted : head ∈ (context.plan id).roots) {mark : EntryId}
    (inside : mark ∈ context.region (context.snapshot.projectedEntry head context.includeIgnored).1) :
    ∃ next, context.snapshot.parentLink next = some (some id) ∧ Below context.snapshot.parentLink next mark := by
  rcases region_head linked fixed rooted inside with below | ⟨kids, listed, member⟩
  · exact ⟨head, roots_link linked rooted, below⟩
  · exact ⟨mark, kids_link linked listed member, .self⟩

theorem not_below_sibling {parent : EntryId → Option (Option EntryId)} {left right : EntryId}
    (linked : Linked parent snapshot.childrenOf snapshot.roots) (first : parent left = some (some id))
    (second : parent right = some (some id)) (below : Below parent left right) : left = right := by
  by_contra different
  have climbed := below.last_step (Ne.symm different) second
  exact (linked.rooted left (by simp [first])).no_cycle first climbed

theorem region_disjoint (linked : Linked context.snapshot.parentLink context.snapshot.childrenOf context.snapshot.roots)
    (fixed : (context.snapshot.projectedEntry id context.includeIgnored).1 = id) {left right : EntryId}
    (first : left ∈ (context.plan id).roots) (second : right ∈ (context.plan id).roots) (different : left ≠ right) :
    Disjoint (context.region (context.snapshot.projectedEntry left context.includeIgnored).1)
      (context.region (context.snapshot.projectedEntry right context.includeIgnored).1) := by
  have one := roots_link linked first
  have two := roots_link linked second
  have planned := @plan_planned context id
  refine Set.disjoint_left.mpr fun mark here there => ?_
  rcases region_head linked fixed first here with under | ⟨kids, listed, member⟩ <;>
    rcases region_head linked fixed second there with below | ⟨others, named, also⟩
  · rcases under.linear below with down | up
    · exact different (not_below_sibling linked one two down)
    · exact different (not_below_sibling linked two one up).symm
  · have same := not_below_sibling linked one (kids_link linked named also) under
    exact planned.kids_unrooted right others named mark also (same ▸ first)
  · have same := not_below_sibling linked two (kids_link linked listed member) below
    exact planned.kids_unrooted left kids listed mark member (same ▸ second)
  · exact different (planned.kids_once left right kids others listed named mark member also)

variable {expanded : Finset EntryId} {node : EntryId × UInt16} {row : VisibleRowOut}
variable {next stack : List (EntryId × UInt16)} {rows : List VisibleRowOut}

theorem represented_of_file (file : context.isFile id = true) :
    context.snapshot.represented context.includeIgnored id = [id] := by
  obtain ⟨entry, present, kind⟩ := isFile_iff.mp file
  unfold represented
  rw [if_neg]
  intro folder
  obtain ⟨_, other, here, _, directory⟩ := compactable_iff.mp folder
  cases present.symm.trans here
  rw [kind] at directory
  cases directory

/-- Nested files stand for themselves alone. -/
theorem file_marks (linked : Linked context.snapshot.parentLink context.snapshot.childrenOf context.snapshot.roots)
    (file : context.isFile id = true) :
    (∀ child ∈ context.childrenOf id, context.region child ⊆ context.region id ∧
      ∀ mark ∈ context.snapshot.represented context.includeIgnored id, mark ∉ context.region child) ∧
    (context.childrenOf id).Pairwise (fun left right => Disjoint (context.region left) (context.region right)) := by
  obtain ⟨entry, present, kind⟩ := isFile_iff.mp file
  have single (child : EntryId) (member : child ∈ context.childrenOf id) : context.region child = {child} := by
    obtain ⟨leaf, childless⟩ := childrenOf_file linked present kind member
    unfold region
    rw [if_pos (isFile_iff.mpr leaf), childless]
    simp
  constructor
  · intro child member
    rw [single child member, represented_of_file file]
    constructor
    · rw [Set.singleton_subset_iff]
      unfold region
      rw [if_pos file]
      exact .inr member
    · intro mark here again
      rw [List.mem_singleton] at here
      obtain ⟨_, childless⟩ := childrenOf_file linked present kind member
      rw [← Set.mem_singleton_iff.mp again, here] at childless
      exact List.ne_nil_of_mem member childless
  · have nodup : (context.childrenOf id).Nodup := by
      simp only [childrenOf, present, kind, if_true]
      split
      · exact List.nodup_nil
      · next parentId _ =>
        rw [Std.ExtTreeMap.getD_eq_getD_getElem?]
        cases listed : (context.plan parentId).nested[id]? with
        | none => exact List.nodup_nil
        | some kids => exact (@plan_planned context parentId).kids_nodup id kids listed
    refine nodup.imp_of_mem fun one two different => ?_
    rw [single _ one, single _ two, Set.disjoint_singleton]
    exact different

theorem folder_marks (linked : Linked context.snapshot.parentLink context.snapshot.childrenOf context.snapshot.roots)
    (fixed : (context.snapshot.projectedEntry id context.includeIgnored).1 = id)
    (folder : ¬ context.isFile id = true) (present : context.snapshot.entries[id]? = some entry) :
    (∀ child ∈ context.childrenOf id, context.region child ⊆ context.region id ∧
      ∀ mark ∈ context.snapshot.represented context.includeIgnored id, mark ∉ context.region child) ∧
    (context.childrenOf id).Pairwise (fun left right => Disjoint (context.region left) (context.region right)) := by
  have kind : entry.kind ≠ .file := fun file => folder (isFile_iff.mpr ⟨entry, present, file⟩)
  constructor
  · intro child member
    obtain ⟨head, rooted, rfl⟩ := childrenOf_folder present kind member
    constructor
    · intro mark inside
      obtain ⟨first, link, below⟩ := region_child linked fixed rooted inside
      unfold region
      rw [if_neg folder]
      exact ⟨id, mem_represented_self, (Below.of_link link).trans below⟩
    · intro mark here inside
      obtain ⟨first, link, below⟩ := region_child linked fixed rooted inside
      exact (linked.rooted first (by simp [link])).no_cycle link (below.trans (represented_above linked here))
  · have nodup : (context.plan id).roots.Nodup :=
      (@plan_planned context id).roots_sublist.nodup ((linked.children_nodup id).filter _)
    simp only [childrenOf, present, kind, if_false]
    refine List.pairwise_map.mpr (nodup.imp_of_mem fun one two different => ?_)
    exact region_disjoint linked fixed one two different

theorem represented_region {mark : EntryId} (member : mark ∈ context.snapshot.represented context.includeIgnored id) :
    mark ∈ context.region id := by
  unfold region
  split
  · next file =>
    rw [represented_of_file file] at member
    exact .inl (List.mem_singleton.mp member)
  · exact ⟨mark, member, .self⟩

theorem visit_marks (linked : Linked context.snapshot.parentLink context.snapshot.childrenOf context.snapshot.roots)
    (short : context.snapshot.ShortChains context.includeIgnored)
    (fixed : (context.snapshot.projectedEntry node.1 context.includeIgnored).1 = node.1)
    (stepped : context.visit expanded node = some (row, next)) :
    (context.snapshot.represented context.includeIgnored row.id).Nodup ∧
      (∀ mark ∈ context.snapshot.represented context.includeIgnored row.id, mark ∈ context.region node.1) ∧
      (∀ child ∈ next, (context.snapshot.projectedEntry child.1 context.includeIgnored).1 = child.1 ∧
        context.region child.1 ⊆ context.region node.1 ∧
        ∀ mark ∈ context.snapshot.represented context.includeIgnored row.id, mark ∉ context.region child.1) ∧
      next.Pairwise (fun left right => Disjoint (context.region left.1) (context.region right.1)) := by
  have visited := visit_eq_some stepped
  have same := visited.id_eq.trans fixed
  obtain ⟨entry, present, _⟩ := visited.present
  have children : (∀ child ∈ context.childrenOf node.1, context.region child ⊆ context.region node.1 ∧
      ∀ mark ∈ context.snapshot.represented context.includeIgnored node.1, mark ∉ context.region child) ∧
      (context.childrenOf node.1).Pairwise (fun left right => Disjoint (context.region left) (context.region right)) := by
    by_cases file : context.isFile node.1 = true
    · exact file_marks linked file
    · exact folder_marks linked fixed file present
  rw [visited.next_eq, same]
  refine ⟨represented_nodup linked, fun mark => represented_region, ?_, ?_⟩
  · split
    · intro child member
      obtain ⟨below, listed, rfl⟩ := List.mem_map.mp member
      exact ⟨childrenOf_fixed linked short listed, children.1 below listed⟩
    · simp
  · split
    · exact List.pairwise_map.mpr children.2
    · exact .nil

theorem region_root (linked : Linked context.snapshot.parentLink context.snapshot.childrenOf context.snapshot.roots)
    (root : context.snapshot.parentLink id = some none) {mark : EntryId} (inside : mark ∈ context.region id) :
    Below context.snapshot.parentLink id mark := by
  obtain ⟨entry, present, parentId⟩ := parentLink_eq_some.mp root
  unfold region at inside
  split at inside
  · next file =>
    obtain ⟨other, here, kind⟩ := isFile_iff.mp file
    cases present.symm.trans here
    rcases inside with rfl | nested
    · exact .self
    · simp [childrenOf, present, kind, parentId] at nested
  · obtain ⟨above, standing, path⟩ := inside
    have same := (represented_above linked standing).root_eq root
    exact same ▸ path

theorem projectedEntry_root (root : snapshot.parentLink id = some none) :
    (snapshot.projectedEntry id includeIgnored).1 = id := by
  obtain ⟨entry, present, parentId⟩ := parentLink_eq_some.mp root
  unfold projectedEntry
  simp [present, parentId]

theorem roots_disjoint (linked : Linked context.snapshot.parentLink context.snapshot.childrenOf context.snapshot.roots) :
    context.snapshot.roots.Pairwise (fun left right => Disjoint (context.region left) (context.region right)) := by
  refine linked.roots_nodup.imp_of_mem fun one two different => Set.disjoint_left.mpr fun mark here there => ?_
  have first := (linked.root_iff _).mp one
  have second := (linked.root_iff _).mp two
  rcases (region_root linked first here).linear (region_root linked second there) with down | up
  · exact different (down.root_eq second)
  · exact different (up.root_eq first).symm

end ProjectionContext

namespace StoreSnapshot

open ProjectionContext

/-- The flattened rows are a preorder of the projected forest. -/
structure RowTree (snapshot : StoreSnapshot) (toLowercase : String → String) (expanded : Finset EntryId)
    (includeIgnored : Bool) (rows : List VisibleRowOut) : Prop where
  distinct : (rows.map (·.id)).Nodup
  /-- A row below the first level hangs under an earlier, expanded row; the depth of a row stays
  at the largest 16-bit number once its parent has reached it. -/
  hangs : ∀ (index : Nat) (row : VisibleRowOut), rows[index]? = some row → row.depth ≠ 0 →
    ∃ (earlier : Nat) (above : VisibleRowOut), earlier < index ∧ rows[earlier]? = some above ∧
    row.depth = saturatingAdd16 above.depth 1 ∧ above.isExpanded = true ∧ above.id ∈ expanded ∧
    row.id ∈ snapshot.projectedChildrenOf toLowercase above.id includeIgnored
  /-- The segments of a row name what it stands for, and nothing is stood for twice. -/
  segments : ∀ row ∈ rows, row.pathSegments =
    if snapshot.represented includeIgnored row.id = [row.id] then none
    else some (snapshot.names (snapshot.represented includeIgnored row.id))
  once : (rows.flatMap (fun row => snapshot.represented includeIgnored row.id)).Nodup
  /-- Every projected child is shown under its own id. -/
  fixed : ∀ id, ∀ child ∈ snapshot.projectedChildrenOf toLowercase id includeIgnored,
    (snapshot.projectedEntry child includeIgnored).1 = child

variable {toLowercase : String → String} {expanded : Finset EntryId} {rows : List VisibleRowOut}

/-- Every row comes from a root at depth 0 or from a child of an earlier row. -/
theorem row_origin (linked : Linked snapshot.parentLink snapshot.childrenOf snapshot.roots)
    (short : snapshot.ShortChains includeIgnored)
    (ended : flatten ((ProjectionContext.mk snapshot includeIgnored toLowercase).visit expanded) fuel
      (snapshot.roots.map (fun root => (root, 0))) = some rows)
    {index : Nat} {row : VisibleRowOut} (here : rows[index]? = some row) :
    (snapshot.projectedEntry row.id includeIgnored).1 = row.id ∧
      row.pathSegments = (snapshot.projectedEntry row.id includeIgnored).2 ∧
      (row.depth ≠ 0 → ∃ (earlier : Nat) (above : VisibleRowOut), earlier < index ∧ rows[earlier]? = some above ∧
        row.depth = saturatingAdd16 above.depth 1 ∧ above.isExpanded = true ∧ above.id ∈ expanded ∧
        row.id ∈ snapshot.projectedChildrenOf toLowercase above.id includeIgnored) := by
  obtain ⟨node, next, stepped, origin⟩ := flatten_origin ended index row here
  have visited := visit_eq_some stepped
  have depth : row.depth = node.2 := by rw [visited.row_eq]
  have segments : row.pathSegments = (snapshot.projectedEntry node.1 includeIgnored).2 := by rw [visited.row_eq]
  rcases origin with waiting | ⟨earlier, above, upper, below, less, found, led, member⟩
  · obtain ⟨root, listed, rfl⟩ := List.mem_map.mp waiting
    have same : row.id = root := visited.id_eq.trans (projectedEntry_root ((linked.root_iff root).mp listed))
    refine ⟨?_, ?_, fun deep => absurd depth deep⟩
    · rw [same]
      exact projectedEntry_root ((linked.root_iff root).mp listed)
    · rw [segments, same]
  · have parent := visit_eq_some led
    rw [parent.next_eq] at member
    split at member
    · next opened =>
      obtain ⟨child, listed, rfl⟩ := List.mem_map.mp member
      have fixed := childrenOf_fixed linked short listed
      have same : row.id = child := visited.id_eq.trans fixed
      have level : above.depth = upper.2 := by rw [parent.row_eq]
      refine ⟨?_, ?_, fun _ => ⟨earlier, above, less, found, ?_, ?_, opened, same ▸ listed⟩⟩
      · rw [same]
        exact fixed
      · rw [segments, same]
      · rw [depth, level]
      · rw [parent.isExpanded]
        exact decide_eq_true opened
    · cases member

theorem ids_sublist (rows : List VisibleRowOut) :
    (rows.map (·.id)).Sublist (rows.flatMap (fun row => snapshot.represented includeIgnored row.id)) := by
  induction rows with
  | nil => exact .slnil
  | cons row rows ih => exact (List.singleton_sublist.mpr mem_represented_self).append ih

/-! A tree of folders that each hold a file and the next folder: no chain of
only folders, and as deep as one likes. -/

def rung (id : EntryId) : Entry :=
  ⟨id, if id = 0 then none else some (2 * ((id - 1) / 2)), "x", if id % 2 = 0 then .directory else .file,
    0, 0, 0, none, none, false, false, false, false⟩

def ladder (steps : Nat) : StoreSnapshot :=
  { emptyWithProjection ⟨true, true⟩ false ⟨[], false⟩ with
    entries := Maps.insertAll ∅ ((List.range (2 * steps + 1)).map (fun id => (id, rung id)))
    children := Maps.insertAll ∅ (((List.range steps).map (2 * ·)).map (fun id => (id, [id + 1, id + 2])))
    roots := [0] }

section Ladder

variable {steps : Nat}

theorem even_below {steps id : Nat} : (∃ step < steps, 2 * step = id) ↔ id % 2 = 0 ∧ id / 2 < steps := by
  constructor
  · rintro ⟨step, inside, rfl⟩
    omega
  · rintro ⟨double, inside⟩
    exact ⟨id / 2, inside, by omega⟩

theorem rung_child {steps id above : Nat} : (above % 2 = 0 ∧ above / 2 < steps) ∧ (id = above + 1 ∨ id = above + 2) ↔
    id < 2 * steps + 1 ∧ id ≠ 0 ∧ 2 * ((id - 1) / 2) = above := by
  omega

theorem rung_parent {steps id : Nat} (inside : id < 2 * steps + 1) (inner : id ≠ 0) :
    2 * ((id - 1) / 2) < id ∧ 2 * ((id - 1) / 2) < 2 * steps + 1 := by
  omega

theorem ladder_entries : (ladder steps).entries[id]? = if id < 2 * steps + 1 then some (rung id) else none := by
  refine (@Maps.lookup_insertAll_map Nat Entry _ _ _ _ ∅ id (List.range (2 * steps + 1)) rung).trans ?_
  simp

theorem ladder_childrenOf : (ladder steps).childrenOf id =
    if id % 2 = 0 ∧ id / 2 < steps then [id + 1, id + 2] else [] := by
  rw [childrenOf_eq]
  have found := @Maps.lookup_insertAll_map Nat (List EntryId) _ _ _ _ ∅ id ((List.range steps).map (2 * ·))
    (fun id => [id + 1, id + 2])
  have even : id ∈ (List.range steps).map (2 * ·) ↔ id % 2 = 0 ∧ id / 2 < steps := by
    rw [List.mem_map, ← even_below]
    simp only [List.mem_range]
  unfold ladder
  dsimp only
  rw [found]
  by_cases inside : id % 2 = 0 ∧ id / 2 < steps
  · rw [if_pos (even.mpr inside), if_pos inside]
    rfl
  · rw [if_neg (fun member => inside (even.mp member)), if_neg inside]
    rfl

theorem ladder_parentLink : (ladder steps).parentLink id =
    if id < 2 * steps + 1 then some (if id = 0 then none else some (2 * ((id - 1) / 2))) else none := by
  unfold parentLink
  rw [ladder_entries]
  split <;> rfl

theorem ladder_linked : Linked (ladder steps).parentLink (ladder steps).childrenOf (ladder steps).roots where
  root_iff id := by
    have roots : (ladder steps).roots = [0] := rfl
    rw [ladder_parentLink, roots, List.mem_singleton]
    by_cases root : id = 0
    · simp [root]
    · simp [root]
  child_iff id above := by
    rw [ladder_parentLink, ladder_childrenOf]
    have arithmetic := @rung_child steps id above
    by_cases lower : above % 2 = 0 ∧ above / 2 < steps
    · rw [if_pos lower]
      simpa [lower] using arithmetic
    · rw [if_neg lower]
      simpa [lower] using arithmetic
  roots_nodup := List.nodup_singleton 0
  children_nodup above := by
    rw [ladder_childrenOf]
    split <;> simp
  rooted id known := by
    rw [ladder_parentLink] at known
    have inside : id < 2 * steps + 1 := by
      by_contra outside
      simp [outside] at known
    clear known
    induction id using Nat.strong_induction_on with
    | _ id ih =>
      by_cases root : id = 0
      · exact .root (by rw [ladder_parentLink, if_pos inside, if_pos root])
      · obtain ⟨less, lower⟩ := rung_parent inside root
        exact .child (by rw [ladder_parentLink, if_pos inside, if_neg root]) (ih _ less lower)

theorem ladder_shown : (ladder steps).shown true ((ladder steps).childrenOf id) = (ladder steps).childrenOf id := by
  refine List.filter_eq_self.mpr fun child member => ?_
  have live : ((ladder steps).parentLink child).isSome = true := by
    rw [(ladder_linked.child_iff child id).mp member]
    rfl
  obtain ⟨entry, present⟩ := Option.isSome_iff_exists.mp (parentLink_isSome.mp live)
  simp [present, shows]

theorem ladder_onlyFolder : (ladder steps).onlyFolder true id = none := by
  unfold onlyFolder
  rw [ladder_shown, ladder_childrenOf]
  split
  · next single =>
    split at single <;> simp at single
  · rfl

theorem ladder_short : (ladder steps).ShortChains true := by
  intro id entry _ _ _ child only
  rw [ladder_onlyFolder] at only
  cases only

theorem ladder_projected : (ladder steps).projectedEntry id true = (id, none) := rfl

theorem ladder_children (inside : id < 2 * steps + 1) :
    (ProjectionContext.mk (ladder steps) true toLowercase).childrenOf id = (ladder steps).childrenOf id := by
  have shown : (ProjectionContext.mk (ladder steps) true toLowercase).visibleChildren id =
    (ladder steps).childrenOf id := ladder_shown
  have present : (ladder steps).entries[id]? = some (rung id) := by rw [ladder_entries, if_pos inside]
  unfold ProjectionContext.childrenOf
  simp only [present]
  by_cases even : id % 2 = 0
  · have kind : (rung id).kind = .directory := by simp [rung, even]
    have planned : ((ProjectionContext.mk (ladder steps) true toLowercase).plan id).roots =
        (ladder steps).childrenOf id := shown
    simp only [kind, planned]
    rw [if_neg (by simp)]
    exact List.map_id _
  · have kind : (rung id).kind = .file := by simp [rung, even]
    rw [if_pos kind, ladder_childrenOf, if_neg (fun both => even both.1)]
    split
    · rfl
    · exact Std.ExtTreeMap.getD_empty

/-- The depth at which a rung is shown. -/
def rungDepth (id : Nat) : UInt16 :=
  UInt16.ofNat (min ((id + 1) / 2) 0xFFFF)

theorem rungDepth_child (step : Nat) : saturatingAdd16 (rungDepth (2 * step)) 1 = rungDepth (2 * step + 1) ∧
    rungDepth (2 * step + 2) = rungDepth (2 * step + 1) := by
  have value (id : Nat) : (rungDepth id).toNat = min ((id + 1) / 2) 0xFFFF := by
    unfold rungDepth
    rw [UInt16.toNat_ofNat']
    omega
  have one : (1 : UInt16).toNat = 1 := rfl
  constructor
  · unfold saturatingAdd16
    split
    · next wrapped =>
      rw [UInt16.lt_iff_toNat_lt, UInt16.toNat_add, value, one] at wrapped
      rw [← UInt16.toNat_inj, value]
      have full : (0xFFFF : UInt16).toNat = 0xFFFF := rfl
      rw [full]
      omega
    · next fits =>
      rw [UInt16.lt_iff_toNat_lt, UInt16.toNat_add, value, one] at fits
      rw [← UInt16.toNat_inj, UInt16.toNat_add, value, value, one]
      omega
  · rw [← UInt16.toNat_inj, value, value]
    omega

/-- The row of a rung. -/
def rungRow (toLowercase : String → String) (steps id : Nat) : VisibleRowOut :=
  ⟨id, rungDepth id, (ProjectionContext.mk (ladder steps) true toLowercase).hasChildren id,
    id ∈ Finset.range (2 * steps + 1), none⟩

theorem ladder_visit {id : Nat} (inside : id < 2 * steps + 1) :
    (ProjectionContext.mk (ladder steps) true toLowercase).visit (Finset.range (2 * steps + 1)) (id, rungDepth id) =
      some (rungRow toLowercase steps id,
        ((ladder steps).childrenOf id).map (fun child => (child, saturatingAdd16 (rungDepth id) 1))) := by
  have present : (ladder steps).entries[id]? = some (rung id) := by rw [ladder_entries, if_pos inside]
  simp [visit, present, shows, ladder_projected, inside, ladder_children inside, rungRow]

theorem ladder_rows (rest step : Nat) (height : step + rest = steps) :
    flatten ((ProjectionContext.mk (ladder steps) true toLowercase).visit (Finset.range (2 * steps + 1)))
      (2 * rest + 1) [(2 * step, rungDepth (2 * step))] =
      some ((List.range' (2 * step) (2 * rest + 1)).map (rungRow toLowercase steps)) := by
  induction rest generalizing step with
  | zero =>
    have last : ¬ (2 * step % 2 = 0 ∧ 2 * step / 2 < steps) := by omega
    have childless : (ladder steps).childrenOf (2 * step) = [] := by rw [ladder_childrenOf, if_neg last]
    rw [flatten_emit (ladder_visit (by omega)), childless]
    rfl
  | succ rest ih =>
    have lower : 2 * step % 2 = 0 ∧ 2 * step / 2 < steps := by omega
    have odd : ¬ ((2 * step + 1) % 2 = 0 ∧ (2 * step + 1) / 2 < steps) := by omega
    have children : (ladder steps).childrenOf (2 * step) = [2 * step + 1, 2 * step + 2] := by
      rw [ladder_childrenOf, if_pos lower]
    have childless : (ladder steps).childrenOf (2 * step + 1) = [] := by rw [ladder_childrenOf, if_neg odd]
    obtain ⟨one, two⟩ := rungDepth_child step
    have fuel : 2 * (rest + 1) + 1 = 2 * rest + 1 + 1 + 1 := by omega
    have below := ih (step + 1) (by omega)
    have double : 2 * (step + 1) = 2 * step + 2 := by omega
    rw [double] at below
    rw [fuel, flatten_emit (ladder_visit (by omega)), children, one, List.map_cons, List.map_singleton, List.cons_append,
      flatten_emit (ladder_visit (by omega)), childless, List.map_nil, List.nil_append, List.append_nil, ← two, below]
    simp [List.range'_succ]

/-- Deeper than depths can tell, the last folder has no parent one level up. -/
theorem ladder_saturates (deep : 0x10000 ≤ steps) :
    ∃ row ∈ (List.range' (2 * 0) (2 * steps + 1)).map (rungRow toLowercase steps), row.depth = 0xFFFF ∧
      ∀ above ∈ (List.range' (2 * 0) (2 * steps + 1)).map (rungRow toLowercase steps),
        above.depth + 1 = row.depth → row.id ∉ (ladder steps).projectedChildrenOf toLowercase above.id true := by
  have full {id : Nat} (large : 0xFFFF ≤ (id + 1) / 2) : rungDepth id = 0xFFFF := by
    unfold rungDepth
    rw [Nat.min_eq_right large]
    rfl
  refine ⟨rungRow toLowercase steps (2 * steps), List.mem_map_of_mem (List.mem_range'_1.mpr (by omega)),
    full (by omega), ?_⟩
  intro above member level child
  obtain ⟨id, inside, rfl⟩ := List.mem_map.mp member
  have bound : id < 2 * steps + 1 := by
    have range := List.mem_range'_1.mp inside
    omega
  have listed : (2 * steps : Nat) ∈ (ladder steps).childrenOf id := by
    rw [← @ladder_children id toLowercase steps bound]
    exact child
  rw [ladder_childrenOf] at listed
  have second : id + 2 = 2 * steps := by
    split at listed
    · next even =>
      have parity := even.1
      have either : 2 * steps = id + 1 ∨ 2 * steps = id + 2 := by simpa using listed
      change (id : Nat) % 2 = 0 at parity
      omega
    · cases listed
  have depth : (rungRow toLowercase steps id).depth = 0xFFFF := full (by omega)
  have last : (rungRow toLowercase steps (2 * steps)).depth = 0xFFFF := full (by omega)
  rw [depth, last] at level
  exact absurd level (by decide)

end Ladder

/-- On every forest whose chains of only folders fit a projection, the rows are a preorder without
duplicates of what the projection shows. -/
theorem visible_rows_form_tree (toLowercase : String → String) (snapshot : StoreSnapshot) (includeIgnored : Bool)
    (linked : Linked snapshot.parentLink snapshot.childrenOf snapshot.roots)
    (short : snapshot.ShortChains includeIgnored) (expanded : Finset EntryId) :
    ∃ enough rows, ∀ fuel ≥ enough, snapshot.allVisibleRows toLowercase fuel expanded includeIgnored = some rows ∧
      snapshot.RowTree toLowercase expanded includeIgnored rows := by
  obtain ⟨enough, rows, ended⟩ := @visit_ends ⟨snapshot, includeIgnored, toLowercase⟩ snapshot.parentLink expanded
    linked (snapshot.roots.map (fun root => (root, 0)))
  have tree : snapshot.RowTree toLowercase expanded includeIgnored rows := by
    have once := (flatten_marks (fun node row next => visit_marks linked short) ended
      (by
        intro node member
        obtain ⟨root, listed, rfl⟩ := List.mem_map.mp member
        exact projectedEntry_root ((linked.root_iff root).mp listed))
      (List.pairwise_map.mpr (roots_disjoint linked))).1
    refine ⟨?_, fun index row here => (row_origin linked short ended here).2.2, fun row member => ?_, once,
      fun id child => childrenOf_fixed linked short⟩
    · exact (ids_sublist rows).nodup once
    · obtain ⟨index, here⟩ := List.mem_iff_getElem?.mp member
      obtain ⟨fixed, named, _⟩ := row_origin linked short ended here
      rw [named]
      exact projectedEntry_segments linked fixed
  exact ⟨enough, rows, fun fuel large => ⟨allVisibleRows_eq (flatten_mono ended large), tree⟩⟩

theorem visible_rows_form_tree_one_step :
    Linked (ladder 1).parentLink (ladder 1).childrenOf (ladder 1).roots ∧ (ladder 1).ShortChains true ∧
      ∃ enough rows, ∀ fuel ≥ enough, (ladder 1).allVisibleRows String.toLower fuel {0} true = some rows ∧
        (ladder 1).RowTree String.toLower {0} true rows :=
  ⟨ladder_linked, ladder_short, visible_rows_form_tree String.toLower (ladder 1) true ladder_linked ladder_short {0}⟩

/-- A row of the largest depth whose parent is not one level up. -/
theorem deep_rows_share_their_depth :
    Linked (ladder 65536).parentLink (ladder 65536).childrenOf (ladder 65536).roots ∧
      (ladder 65536).ShortChains true ∧ ∃ enough rows, ∀ fuel ≥ enough,
        (ladder 65536).allVisibleRows String.toLower fuel (Finset.range (2 * 65536 + 1)) true = some rows ∧
        ∃ row ∈ rows, row.depth = 65535 ∧ ∀ above ∈ rows, above.depth + 1 = row.depth →
          row.id ∉ (ladder 65536).projectedChildrenOf String.toLower above.id true := by
  refine ⟨ladder_linked, ladder_short, 2 * 65536 + 1, _, fun fuel large =>
    ⟨allVisibleRows_eq (flatten_mono (ladder_rows 65536 0 (Nat.zero_add _)) large), ladder_saturates (Nat.le_refl _)⟩⟩

end StoreSnapshot

end Mille
