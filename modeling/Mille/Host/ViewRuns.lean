import Mille.Core.StorePaths
import Mille.Host.Views
import Mille.Lib.Run

/-! What a restricted session is told along a whole run. A row lies beyond a
symlink only when something above it was expanded that is one, so as long as a
session has expanded no symlink and nothing beyond one, and knows no entry that
has come to lie beyond one, no frame to it speaks of such an entry. -/

namespace Mille

open Forest Remote

namespace StoreSnapshot

def IsSymlink (snapshot : StoreSnapshot) (id : EntryId) : Prop :=
  ∃ entry, snapshot.entries[id]? = some entry ∧ entry.kind = .symlink

/-- A symlink is among the strict ancestors. -/
def Beyond (snapshot : StoreSnapshot) (id : EntryId) : Prop :=
  ∃ distance top, snapshot.above (distance + 1) id = some top ∧ snapshot.IsSymlink top

/-- The nearest symlink above an entry is past the guard of the boundary check. -/
def FarBeyond (snapshot : StoreSnapshot) (id : EntryId) : Prop :=
  snapshot.Beyond id ∧ snapshot.crossesSymlink id = false

variable {snapshot : StoreSnapshot} {id parentId child leaf : EntryId} {entry : Entry} {hops guard : Nat}
variable {includeIgnored : Bool} {segments : List String} {context : ProjectionContext}

theorem beyond_of_parent (found : snapshot.entries[id]? = some entry) (link : entry.parentId = some parentId) :
    snapshot.Beyond id ↔ snapshot.IsSymlink parentId ∨ snapshot.Beyond parentId := by
  constructor
  · rintro ⟨distance, top, reached, symlink⟩
    rw [above_succ found link] at reached
    cases distance with
    | zero =>
      cases reached
      exact .inl symlink
    | succ distance => exact .inr ⟨distance, top, reached, symlink⟩
  · rintro (symlink | ⟨distance, top, reached, symlink⟩)
    · exact ⟨0, parentId, above_succ found link, symlink⟩
    · exact ⟨distance + 1, top, by rw [above_succ found link]; exact reached, symlink⟩

theorem not_beyond_of_root (found : snapshot.entries[id]? = some entry) (isTop : entry.parentId = none) :
    ¬ snapshot.Beyond id := by
  rintro ⟨distance, top, reached, _⟩
  rw [above_root found isTop] at reached
  cases reached

theorem not_isSymlink (found : snapshot.entries[id]? = some entry) (plain : entry.kind ≠ .symlink) :
    ¬ snapshot.IsSymlink id := by
  rintro ⟨other, present, symlink⟩
  cases Option.some.inj (found.symm.trans present)
  exact plain symlink

theorem not_beyond_of_crossesSymlink (near : ¬ snapshot.FarBeyond id) (clear : snapshot.crossesSymlink id = false) :
    ¬ snapshot.Beyond id :=
  fun beyond => near ⟨beyond, clear⟩

section Projection

variable (linked : Linked snapshot.parentLink snapshot.childrenOf snapshot.roots)
include linked

theorem not_beyond_root (isRoot : id ∈ snapshot.roots) : ¬ snapshot.Beyond id := by
  obtain ⟨entry, found, isTop⟩ := parentLink_eq_some.mp ((linked.root_iff id).mp isRoot)
  exact not_beyond_of_root found isTop

theorem not_beyond_child (listed : child ∈ snapshot.childrenOf id) (plain : ¬ snapshot.IsSymlink id)
    (inside : ¬ snapshot.Beyond id) : ¬ snapshot.Beyond child := by
  obtain ⟨entry, found, link⟩ := parentLink_eq_some.mp ((linked.child_iff child id).mp listed)
  rw [beyond_of_parent found link]
  exact not_or.mpr ⟨plain, inside⟩

theorem trailingSegments_not_beyond (plain : ¬ snapshot.IsSymlink leaf) (inside : ¬ snapshot.Beyond leaf) :
    ¬ snapshot.Beyond (snapshot.trailingSegments includeIgnored hops leaf segments).1 := by
  induction hops generalizing leaf segments with
  | zero => exact inside
  | succ hops ih =>
    rw [trailingSegments_succ]
    cases only : snapshot.onlyFolder includeIgnored leaf with
    | none => exact inside
    | some child =>
      obtain ⟨_, entry, found, directory⟩ := onlyFolder_eq_some.mp only
      apply ih
      · exact not_isSymlink found (by simp [directory])
      · exact not_beyond_child linked (onlyFolder_mem only) plain inside

theorem projectedEntry_not_beyond (inside : ¬ snapshot.Beyond id) :
    ¬ snapshot.Beyond (snapshot.projectedEntry id includeIgnored).1 := by
  rcases @projectedEntry_id snapshot includeIgnored id with same | ⟨entry, segments, _, found, _, directory, same⟩
  · rw [same]
    exact inside
  · rw [same]
    exact trailingSegments_not_beyond linked (not_isSymlink found (by simp [directory])) inside

end Projection

theorem lookupChain_not_beyond (stamped : ∀ (id : EntryId) (entry : Entry), snapshot.entries[id]? = some entry → entry.id = id)
    (inside : ¬ snapshot.Beyond id) : ∀ entry ∈ snapshot.lookupChain guard (some id), ¬ snapshot.Beyond entry.id := by
  induction guard generalizing id with
  | zero => exact fun entry member => by cases member
  | succ guard ih =>
    intro entry member
    simp only [lookupChain] at member
    split at member
    · cases member
    · next here found =>
      rcases List.mem_cons.mp member with same | higher
      · rw [same, stamped id here found]
        exact inside
      · cases link : here.parentId with
        | none =>
          rw [link] at higher
          cases guard <;> cases higher
        | some parentId =>
          rw [link] at higher
          refine ih ?_ entry higher
          intro beyond
          exact inside ((beyond_of_parent found link).mpr (.inr beyond))

end StoreSnapshot

namespace ProjectionContext

open StoreSnapshot

variable {context : ProjectionContext} {id child : EntryId} {expanded : Finset EntryId}

theorem childrenOf_not_beyond (linked : Linked context.snapshot.parentLink context.snapshot.childrenOf context.snapshot.roots)
    (plain : ¬ context.snapshot.IsSymlink id) (inside : ¬ context.snapshot.Beyond id)
    (member : child ∈ context.childrenOf id) : ¬ context.snapshot.Beyond child := by
  cases found : context.snapshot.entries[id]? with
  | none => simp [childrenOf, found] at member
  | some entry =>
    by_cases file : entry.kind = .file
    · -- The children of a file are files of its own directory.
      simp only [childrenOf, found, file, if_true] at member
      split at member
      · cases member
      · next parentId link =>
        rw [Std.ExtTreeMap.getD_eq_getD_getElem?] at member
        cases nested : (context.plan parentId).nested[id]? with
        | none => simp [nested] at member
        | some kids =>
          rw [nested] at member
          have visible := (mem_files.mp ((@plan_planned context parentId).kids_visible id kids nested child member)).1
          obtain ⟨other, present, up⟩ := parentLink_eq_some.mp
            ((linked.child_iff child parentId).mp (List.mem_of_mem_filter visible))
          rw [beyond_of_parent present up, ← beyond_of_parent found link]
          exact inside
    · obtain ⟨head, listed, rfl⟩ := childrenOf_folder found file member
      apply projectedEntry_not_beyond linked
      have visible := (@plan_planned context id).roots_sublist.subset listed
      exact not_beyond_child linked (List.mem_of_mem_filter visible) plain inside

/-- Rows lie beyond a symlink only below an expanded one. -/
theorem rowsFrom_not_beyond (linked : Linked context.snapshot.parentLink context.snapshot.childrenOf context.snapshot.roots)
    (plain : ∀ id ∈ expanded, ¬ context.snapshot.IsSymlink id) {offset skipped : UInt32} {limit : Option Nat} {fuel : Nat}
    {stack : List (EntryId × UInt16)} {out rows : List VisibleRowOut}
    (below : ∀ node ∈ stack, ¬ context.snapshot.Beyond node.1) (before : ∀ row ∈ out, ¬ context.snapshot.Beyond row.id)
    (walked : context.rowsFrom expanded offset limit fuel stack skipped out = some rows) :
    ∀ row ∈ rows, ¬ context.snapshot.Beyond row.id := by
  induction fuel generalizing stack skipped out with
  | zero =>
    cases stack with
    | nil =>
      cases walked
      exact before
    | cons node rest => cases walked
  | succ fuel ih =>
    cases stack with
    | nil =>
      cases walked
      exact before
    | cons node rest =>
      obtain ⟨id, depth⟩ := node
      obtain ⟨here, others⟩ := List.forall_mem_cons.mp below
      simp only [rowsFrom] at walked
      split at walked
      · exact ih others before walked
      · split at walked
        · have inside := @projectedEntry_not_beyond context.snapshot id context.includeIgnored linked here
          have next : ∀ node ∈ (if (context.snapshot.projectedEntry id context.includeIgnored).1 ∈ expanded then
              (context.childrenOf (context.snapshot.projectedEntry id context.includeIgnored).1).map
                (fun child => (child, saturatingAdd16 depth 1)) else []) ++ rest,
              ¬ context.snapshot.Beyond node.1 := by
            intro node member
            rcases List.mem_append.mp member with lower | behind
            · split at lower
              · next open_ =>
                obtain ⟨child, listed, rfl⟩ := List.mem_map.mp lower
                exact childrenOf_not_beyond linked (plain _ open_) inside listed
              · cases lower
            · exact others node behind
          have longer : ∀ row ∈ out ++ [(⟨(context.snapshot.projectedEntry id context.includeIgnored).1, depth,
              context.hasChildren (context.snapshot.projectedEntry id context.includeIgnored).1,
              (context.snapshot.projectedEntry id context.includeIgnored).1 ∈ expanded,
              (context.snapshot.projectedEntry id context.includeIgnored).2⟩ : VisibleRowOut)],
              ¬ context.snapshot.Beyond row.id := by
            intro row member
            rcases List.mem_append.mp member with earlier | last
            · exact before row earlier
            · rw [List.mem_singleton.mp last]
              exact inside
          split at walked
          · exact ih next before walked
          · split at walked
            · cases walked
              exact longer
            · exact ih next longer walked
        · exact ih others before walked

end ProjectionContext

/-- A snapshot of a store that keeps its forest. -/
structure StoreSnapshot.Sound (snapshot : StoreSnapshot) : Prop where
  linked : Linked snapshot.parentLink snapshot.childrenOf snapshot.roots
  stamped : ∀ (id : EntryId) (entry : Entry), snapshot.entries[id]? = some entry → entry.id = id

theorem EntryStore.Forested.sound {store : EntryStore} (forested : store.Forested) : store.inner.Sound :=
  ⟨forested.linked, forested.stamped⟩

/-- A frame that speaks of no entry beyond a symlink. -/
def TreeFrame.Discreet (snapshot : StoreSnapshot) (frame : TreeFrame) : Prop :=
  ∀ id ∈ frame.ids, ¬ snapshot.Beyond id

namespace SessionView

open StoreSnapshot

variable {toLowercase : String → String} {fuel : Nat} {snapshot : StoreSnapshot} {view : SessionView}

/-- Nothing expanded is a symlink or beyond one, and nothing known is beyond one. -/
structure Confined (snapshot : StoreSnapshot) (view : SessionView) : Prop where
  plain : ∀ id ∈ view.expanded, ¬ snapshot.IsSymlink id
  inside : ∀ id ∈ view.expanded, ¬ snapshot.Beyond id
  known : ∀ id ∈ view.knownIds, ¬ snapshot.Beyond id

/-- Folders that may be opened. -/
def MayOpen (snapshot : StoreSnapshot) (ids : List EntryId) : Prop :=
  ∀ id ∈ ids, ¬ snapshot.IsSymlink id ∧ ¬ snapshot.Beyond id

theorem projectedChildrenOf_not_beyond (sound : snapshot.Sound) {id child : EntryId}
    (plain : ¬ snapshot.IsSymlink id) (inside : ¬ snapshot.Beyond id)
    (member : child ∈ snapshot.projectedChildrenOf toLowercase id false) : ¬ snapshot.Beyond child :=
  @ProjectionContext.childrenOf_not_beyond ⟨snapshot, false, toLowercase⟩ id child sound.linked plain inside member

theorem mem_getD_nil {α : Type} {found : Option (List α)} {item : α} (member : item ∈ found.getD []) :
    ∃ list, found = some list ∧ item ∈ list := by
  cases found with
  | none => cases member
  | some list => exact ⟨list, rfl, member⟩

theorem visibleRows_not_beyond (sound : snapshot.Sound) {query : VisibleRowsQuery} {rows : List VisibleRowOut}
    (plain : ∀ id ∈ query.expanded, ¬ snapshot.IsSymlink id)
    (answered : snapshot.visibleRows toLowercase fuel query = some rows) : ∀ row ∈ rows, ¬ snapshot.Beyond row.id := by
  unfold visibleRows at answered
  split at answered
  · cases answered
    exact fun row none => by cases none
  · refine @ProjectionContext.rowsFrom_not_beyond ⟨snapshot, query.includeIgnored, toLowercase⟩ query.expanded
      sound.linked plain _ _ _ _ _ _ _ ?_ ?_ answered
    · intro node listed
      obtain ⟨root, isRoot, rfl⟩ := List.mem_map.mp listed
      exact not_beyond_root sound.linked isRoot
    · exact fun row none => by cases none

theorem viewportRows_not_beyond (sound : snapshot.Sound) (plain : ∀ id ∈ view.expanded, ¬ snapshot.IsSymlink id) :
    ∀ row ∈ view.viewportRows toLowercase fuel snapshot, ¬ snapshot.Beyond row.id := by
  intro row member
  obtain ⟨rows, answered, listed⟩ := mem_getD_nil member
  exact visibleRows_not_beyond sound plain answered row listed

/-- What a viewport patch carries, and the view it leaves. -/
structure PatchInside (snapshot : StoreSnapshot) (patch : ViewportPatch) : Prop where
  entries : ∀ entry ∈ patch.entries, ¬ snapshot.Beyond entry.id
  ids : ∀ id ∈ patch.viewportIds, ¬ snapshot.Beyond id

theorem collectViewportPatch_inside (sound : snapshot.Sound) (plain : ∀ id ∈ view.expanded, ¬ snapshot.IsSymlink id) :
    PatchInside snapshot (view.collectViewportPatch toLowercase fuel snapshot).1 := by
  have rows := @viewportRows_not_beyond toLowercase fuel snapshot view sound plain
  constructor
  · intro entry member
    obtain ⟨row, listed, chosen⟩ := List.mem_filterMap.mp member
    split at chosen
    · cases chosen
    · obtain ⟨record, _, rfl⟩ := Option.map_eq_some_iff.mp chosen
      exact rows row listed
  · intro id member
    obtain ⟨row, listed, rfl⟩ := List.mem_map.mp member
    exact rows row listed

theorem collectViewportPatch_confined (sound : snapshot.Sound) (confined : view.Confined snapshot) :
    (view.collectViewportPatch toLowercase fuel snapshot).2.Confined snapshot := by
  refine ⟨confined.plain, confined.inside, ?_⟩
  intro id member
  rcases Finset.mem_union.mp member with before | shown
  · exact confined.known id before
  · exact (collectViewportPatch_inside sound confined.plain).ids id (List.mem_toFinset.mp shown)

theorem rootEntries_not_beyond (sound : snapshot.Sound) {ids : List EntryId} (roots : ∀ id ∈ ids, id ∈ snapshot.roots) :
    ∀ entry ∈ ids.filterMap (fun id => snapshot.entries[id]?), ¬ snapshot.Beyond entry.id := by
  intro entry member
  obtain ⟨id, listed, found⟩ := List.mem_filterMap.mp member
  rw [sound.stamped id entry found]
  exact not_beyond_root sound.linked (roots id listed)

theorem handshake_discreet (sound : snapshot.Sound) (prefetchRows : Option Nat) :
    (view.handshake toLowercase snapshot prefetchRows).1.Discreet snapshot := by
  intro id member
  rcases List.mem_append.mp member with root | record
  · exact not_beyond_root sound.linked root
  · obtain ⟨entry, listed, rfl⟩ := List.mem_map.mp record
    exact rootEntries_not_beyond sound (fun _ root => root) entry listed

section Deltas

variable {body : TreeDelta}

theorem delta_discreet (records : ∀ entry ∈ body.entries, ¬ snapshot.Beyond entry.id)
    (lists : ∀ list ∈ body.childLists, ∀ id ∈ list.2, ¬ snapshot.Beyond id)
    (window : ∀ id ∈ body.viewportIds.getD [], ¬ snapshot.Beyond id)
    (roots : ∀ id ∈ body.roots.getD [], ¬ snapshot.Beyond id) : (TreeFrame.delta body).Discreet snapshot := by
  intro id member
  simp only [TreeFrame.ids, List.mem_append] at member
  rcases member with ((record | child) | row) | root
  · obtain ⟨entry, listed, rfl⟩ := List.mem_map.mp record
    exact records entry listed
  · obtain ⟨list, listed, inside⟩ := List.mem_flatMap.mp child
    exact lists list listed id inside
  · exact window id row
  · exact roots id root

end Deltas

theorem setViewport_inside (sound : snapshot.Sound) (confined : view.Confined snapshot) (offset limit overscan : Nat) :
    (view.setViewport toLowercase fuel snapshot offset limit overscan).1.Discreet snapshot ∧
      (view.setViewport toLowercase fuel snapshot offset limit overscan).2.Confined snapshot := by
  have moved : { view with viewport := grant view.policy offset limit overscan }.Confined snapshot :=
    ⟨confined.plain, confined.inside, confined.known⟩
  have patch := @collectViewportPatch_inside toLowercase fuel snapshot _ sound moved.plain
  refine ⟨delta_discreet patch.entries ?_ patch.ids ?_, collectViewportPatch_confined sound moved⟩
  · exact fun list none => by cases none
  · exact fun id none => by cases none

theorem expand_confined (confined : view.Confined snapshot) {add : List EntryId} (opened : MayOpen snapshot add)
    (remove : List EntryId) : (view.expand add remove).Confined snapshot := by
  have either : ∀ id ∈ (view.expand add remove).expanded, id ∈ view.expanded ∨ id ∈ add := by
    intro id member
    rcases Finset.mem_union.mp (Finset.mem_sdiff.mp member).1 with before | new
    · exact .inl before
    · exact .inr (List.mem_toFinset.mp new)
  refine ⟨fun id member => ?_, fun id member => ?_, confined.known⟩
  · exact (either id member).elim (confined.plain id) (fun new => (opened id new).1)
  · exact (either id member).elim (confined.inside id) (fun new => (opened id new).2)

theorem expandedDelta_inside (sound : snapshot.Sound) (confined : view.Confined snapshot) {add : List EntryId}
    (opened : MayOpen snapshot add) :
    (view.expandedDelta toLowercase fuel snapshot add).1.Discreet snapshot ∧
      (view.expandedDelta toLowercase fuel snapshot add).2.Confined snapshot := by
  have patch := @collectViewportPatch_inside toLowercase fuel snapshot view sound confined.plain
  refine ⟨delta_discreet patch.entries ?_ patch.ids ?_, collectViewportPatch_confined sound confined⟩
  · intro list member id child
    obtain ⟨parent, listed, rfl⟩ := List.mem_map.mp member
    obtain ⟨plain, inside⟩ := opened parent (List.mem_of_mem_filter listed)
    exact projectedChildrenOf_not_beyond sound plain inside child
  · exact fun id none => by cases none

theorem tick_base_confined (sound : snapshot.Sound) (confined : view.Confined snapshot) (removed : Finset EntryId) :
    { view with
      knownIds := (if snapshot.roots ≠ view.lastRootIds then view.knownIds ∪ snapshot.roots.toFinset
        else view.knownIds) \ removed
      lastRootIds := snapshot.roots }.Confined snapshot := by
  refine ⟨confined.plain, confined.inside, fun id member => ?_⟩
  have either := (Finset.mem_sdiff.mp member).1
  split at either
  · rcases Finset.mem_union.mp either with before | root
    · exact confined.known id before
    · exact not_beyond_root sound.linked (List.mem_toFinset.mp root)
  · exact confined.known id either

theorem tick_inside (sound : snapshot.Sound) (confined : view.Confined snapshot) (drained : Drained) :
    (view.tick toLowercase fuel snapshot drained).1.Discreet snapshot ∧
      (view.tick toLowercase fuel snapshot drained).2.Confined snapshot := by
  have base := tick_base_confined sound confined
    ((drained.changes.changedIds.filter (· ∈ view.knownIds)).filter fun id => snapshot.entries[id]? = none)
  have patch := @collectViewportPatch_inside toLowercase fuel snapshot _ sound base.plain
  have after := @collectViewportPatch_confined toLowercase fuel snapshot _ sound base
  unfold tick
  dsimp only
  refine ⟨delta_discreet ?_ ?_ ?_ ?_, ?_⟩
  · intro entry member
    rcases List.mem_append.mp member with direct | row
    · rcases List.mem_append.mp direct with changed | root
      · obtain ⟨id, listed, found⟩ := List.mem_filterMap.mp changed
        have live := Finset.mem_filter.mp ((Finset.mem_sort _).mp listed)
        rw [sound.stamped id entry found]
        exact confined.known id (Finset.mem_filter.mp live.1).2
      · split at root
        · exact rootEntries_not_beyond sound (fun _ listed => List.mem_of_mem_filter listed) entry root
        · cases root
    · obtain ⟨body, found, listed⟩ := mem_getD_nil (List.mem_of_mem_filter row)
      obtain ⟨shown, chosen, rfl⟩ := Option.map_eq_some_iff.mp found
      split at chosen
      · cases chosen
        exact patch.entries entry listed
      · cases chosen
  · intro list member id child
    obtain ⟨parent, listed, rfl⟩ := List.mem_map.mp member
    have opened := (Finset.mem_filter.mp ((Finset.mem_sort _).mp listed)).2
    exact projectedChildrenOf_not_beyond sound (confined.plain parent opened) (confined.inside parent opened) child
  · intro id member
    obtain ⟨ids, found, listed⟩ := mem_getD_nil member
    obtain ⟨shown, chosen, rfl⟩ := Option.map_eq_some_iff.mp found
    split at chosen
    · cases chosen
      exact patch.ids id listed
    · cases chosen
  · intro id member
    obtain ⟨ids, found, listed⟩ := mem_getD_nil member
    split at found
    · cases found
      exact not_beyond_root sound.linked listed
    · cases found
  · split
    · exact after
    · exact base

theorem lookup_inside (sound : snapshot.Sound) {id : EntryId} (near : ¬ snapshot.FarBeyond id)
    (restricted : view.policy.access ≠ .admin) {answer : TreeFrame × SessionView}
    (answered : view.lookup snapshot id = some answer) : answer.1.Discreet snapshot := by
  unfold lookup at answered
  split at answered
  · next within =>
    cases answered
    have clear : snapshot.crossesSymlink id = false := by simpa [withinBoundary, restricted] using within
    have inside := not_beyond_of_crossesSymlink near clear
    intro other member
    rcases List.mem_cons.mp member with same | record
    · rw [same]
      exact inside
    · obtain ⟨entry, listed, rfl⟩ := List.mem_map.mp record
      exact lookupChain_not_beyond sound.stamped inside entry listed
  · cases answered

theorem hitEntries_inside (sound : snapshot.Sound) {hits : List EntryId} (inside : ∀ id ∈ hits, ¬ snapshot.Beyond id) :
    ∀ entry ∈ hitEntries snapshot hits, ¬ snapshot.Beyond entry.id := by
  have folded (entries : List Entry) (before : ∀ entry ∈ entries, ¬ snapshot.Beyond entry.id) :
      ∀ entry ∈ hits.foldl (fun entries id =>
        entries ++ (snapshot.lookupChain lookupGuard (some id)).takeWhile fun entry =>
          entry.id ∉ entries.map (·.id)) entries, ¬ snapshot.Beyond entry.id := by
    induction hits generalizing entries with
    | nil => exact before
    | cons id hits ih =>
      obtain ⟨here, others⟩ := List.forall_mem_cons.mp inside
      refine ih others _ fun entry member => ?_
      rcases List.mem_append.mp member with earlier | chain
      · exact before entry earlier
      · exact lookupChain_not_beyond sound.stamped here entry ((List.takeWhile_sublist _).subset chain)
  exact folded [] (fun entry none => by cases none)

theorem search_inside (sound : snapshot.Sound) {found : List EntryId} (near : ∀ id ∈ found, ¬ snapshot.FarBeyond id)
    (restricted : view.policy.access ≠ .admin) (limit : Nat) :
    (view.search snapshot limit found).1.Discreet snapshot := by
  have inside : ∀ id ∈ view.searchHits snapshot limit found, ¬ snapshot.Beyond id := by
    intro id member
    obtain ⟨listed, kept⟩ := List.mem_filter.mp (List.mem_of_mem_take member)
    have clear : snapshot.crossesSymlink id = false := by
      simpa [withinBoundary, restricted] using (Bool.and_eq_true_iff.mp kept).2
    exact not_beyond_of_crossesSymlink (near id listed) clear
  intro id member
  rcases List.mem_append.mp member with hit | record
  · exact inside id hit
  · obtain ⟨entry, listed, rfl⟩ := List.mem_map.mp record
    exact hitEntries_inside sound inside entry listed

end SessionView

namespace TreeHost

open StoreSnapshot

variable {toLowercase : String → String} {fuel session : Nat} {host : TreeHost} {view : SessionView}

/-- No restricted session has got beyond a symlink. -/
def Calm (host : TreeHost) : Prop :=
  ∀ slot ∈ host.sessions, slot.2.policy.access ≠ .admin → slot.2.Confined host.store.inner

/-- Every frame to a restricted session spoke of entries inside only. -/
def Honest (host : TreeHost) : Prop :=
  ∀ sent ∈ host.sent, sent.policy.access ≠ .admin → sent.frame.Discreet sent.snapshot

theorem view_mem (found : host.view session = some view) : (session, view) ∈ host.sessions := by
  obtain ⟨before, after, same, _⟩ := List.lookup_eq_some_iff.mp found
  rw [same]
  simp

theorem Calm.confined (calm : host.Calm) (found : host.view session = some view) (restricted : view.policy.access ≠ .admin) :
    view.Confined host.store.inner :=
  calm _ (view_mem found) restricted

theorem Calm.put (calm : host.Calm) (confined : view.policy.access ≠ .admin → view.Confined host.store.inner) :
    (host.put session view).Calm := by
  intro slot member
  obtain ⟨old, before, rfl⟩ := List.mem_map.mp member
  split
  · exact confined
  · exact calm old before

/-- A reply with a discreet frame to a view that stays confined. -/
structure Harmless (snapshot : StoreSnapshot) (answer : TreeFrame × SessionView) : Prop where
  frame : answer.2.policy.access ≠ .admin → answer.1.Discreet snapshot
  view : answer.2.policy.access ≠ .admin → answer.2.Confined snapshot

theorem Honest.reply (honest : host.Honest) {answer : TreeFrame × SessionView}
    (discreet : answer.2.policy.access ≠ .admin → answer.1.Discreet host.store.inner) :
    (host.reply session answer).Honest := by
  intro sent member
  rcases List.mem_append.mp member with before | last
  · exact honest sent before
  · rw [List.mem_singleton.mp last]
    exact discreet

/-- What holds before and after every frame of one handler. -/
structure Discreet (snapshot : StoreSnapshot) (host : TreeHost) : Prop where
  forested : host.store.Forested
  inner : host.store.inner = snapshot
  calm : host.Calm
  honest : host.Honest

theorem Discreet.reply {snapshot : StoreSnapshot} (discreet : host.Discreet snapshot) {answer : TreeFrame × SessionView}
    (harmless : Harmless snapshot answer) : (host.reply session answer).Discreet snapshot := by
  obtain ⟨forested, rfl, calm, honest⟩ := discreet
  exact ⟨forested, rfl, calm.put harmless.view, honest.reply harmless.frame⟩

variable {snapshot : StoreSnapshot}

theorem tick_policy (drained : SessionView.Drained) :
    (view.tick toLowercase fuel snapshot drained).2.policy = view.policy := by
  unfold SessionView.tick
  dsimp only
  split
  · rfl
  · rfl

theorem tick_harmless (sound : snapshot.Sound) (drained : SessionView.Drained)
    (confined : view.policy.access ≠ .admin → view.Confined snapshot) :
    Harmless snapshot (view.tick toLowercase fuel snapshot drained) := by
  constructor
  · intro restricted
    rw [tick_policy] at restricted
    exact (SessionView.tick_inside sound (confined restricted) drained).1
  · intro restricted
    rw [tick_policy] at restricted
    exact (SessionView.tick_inside sound (confined restricted) drained).2

theorem Discreet.ticks (sound : snapshot.Sound) (drained : SessionView.Drained) (slots : List (Nat × SessionView))
    (confined : ∀ slot ∈ slots, slot.2.policy.access ≠ .admin → slot.2.Confined snapshot)
    (discreet : host.Discreet snapshot) : (slots.foldl (fun host slot =>
      host.reply slot.1 (slot.2.tick toLowercase fuel host.store.inner drained)) host).Discreet snapshot := by
  induction slots generalizing host with
  | nil => exact discreet
  | cons slot slots ih =>
    obtain ⟨here, others⟩ := List.forall_mem_cons.mp confined
    refine ih others (discreet.reply ?_)
    rw [discreet.inner]
    exact tick_harmless sound drained here

theorem Discreet.tick (sound : snapshot.Sound) (discreet : host.Discreet snapshot) :
    (host.tick toLowercase fuel).Discreet snapshot := by
  have emptied : { host with
      store := host.store.takePendingChanges.2, pendingCoarseSubtrees := ∅, pendingSubtreeDirty := ∅,
      pendingSubtreeResynced := ∅, pendingDecorationChangedIds := ∅ }.Discreet snapshot :=
    ⟨⟨discreet.forested.inverse, discreet.forested.indexed, discreet.forested.linked, discreet.forested.stamped,
      discreet.forested.bounded, discreet.forested.ceiling⟩, discreet.inner, discreet.calm, discreet.honest⟩
  unfold TreeHost.tick
  split
  · exact discreet
  · dsimp only
    split
    · exact emptied
    · refine emptied.ticks sound _ _ fun slot member restricted => ?_
      rw [← discreet.inner]
      exact discreet.calm slot (List.mem_of_mem_filter member) restricted

theorem expandedDelta_harmless (sound : snapshot.Sound) {add : List EntryId}
    (confined : view.policy.access ≠ .admin → view.Confined snapshot)
    (opened : view.policy.access ≠ .admin → SessionView.MayOpen snapshot add) :
    Harmless snapshot (view.expandedDelta toLowercase fuel snapshot add) :=
  ⟨fun restricted => (SessionView.expandedDelta_inside sound (confined restricted) (opened restricted)).1,
    fun restricted => (SessionView.expandedDelta_inside sound (confined restricted) (opened restricted)).2⟩

/-- Sessions keep their policies. -/
def Keeps (host after : TreeHost) : Prop :=
  ∀ slot ∈ after.sessions, ∃ old ∈ host.sessions, old.1 = slot.1 ∧ old.2.policy = slot.2.policy

theorem Keeps.put {start : TreeHost} (keeps : start.Keeps host)
    (same : ∃ old ∈ start.sessions, old.1 = session ∧ old.2.policy = view.policy) :
    start.Keeps (host.put session view) := by
  intro slot member
  obtain ⟨before, listed, rfl⟩ := List.mem_map.mp member
  split
  · next here =>
    rw [here]
    exact same
  · exact keeps before listed

theorem tick_keeps : host.Keeps (host.tick toLowercase fuel) := by
  have itself : host.Keeps host := fun slot member => ⟨slot, member, rfl, rfl⟩
  have folded (slots : List (Nat × SessionView)) (drained : SessionView.Drained) (before : TreeHost)
      (listed : ∀ slot ∈ slots, slot ∈ host.sessions) (keeps : host.Keeps before) :
      host.Keeps (slots.foldl (fun host slot =>
        host.reply slot.1 (slot.2.tick toLowercase fuel host.store.inner drained)) before) := by
    induction slots generalizing before with
    | nil => exact keeps
    | cons slot slots ih =>
      obtain ⟨here, others⟩ := List.forall_mem_cons.mp listed
      exact ih _ others (keeps.put ⟨slot, here, rfl, (tick_policy drained).symm⟩)
  unfold TreeHost.tick
  split
  · exact itself
  · dsimp only
    split
    · exact itself
    · exact folded _ _ _ (fun slot member => List.mem_of_mem_filter member) itself

/-- What a session below admin may open now. -/
def Opens (host : TreeHost) (session : Nat) (ids : List EntryId) : Prop :=
  ∀ slot ∈ host.sessions, slot.1 = session → slot.2.policy.access ≠ .admin →
    SessionView.MayOpen host.store.inner ids

theorem Discreet.refresh (sound : snapshot.Sound) (discreet : host.Discreet snapshot) {add : List EntryId}
    (opened : ∀ view, host.view session = some view → view.policy.access ≠ .admin → SessionView.MayOpen snapshot add) :
    (host.refresh toLowercase fuel session add).Discreet snapshot := by
  unfold TreeHost.refresh
  split
  · exact discreet
  · next view found =>
    refine discreet.reply ?_
    rw [discreet.inner]
    refine expandedDelta_harmless sound (fun restricted => ?_) (opened view found)
    have confined := discreet.calm.confined found restricted
    rw [discreet.inner] at confined
    exact SessionView.expand_confined confined (opened view found restricted) []

theorem Discreet.refreshPeers (sound : snapshot.Sound) (discreet : host.Discreet snapshot) (completed : List EntryId) :
    (host.refreshPeers toLowercase fuel session completed).Discreet snapshot := by
  unfold TreeHost.refreshPeers
  generalize (host.sessions.map (·.1)).filter (· ≠ session) = peers
  induction peers generalizing host with
  | nil => exact discreet
  | cons peer peers ih =>
    refine ih ?_
    dsimp only
    split
    · exact discreet
    · next view found =>
      split
      · refine discreet.refresh sound fun other same restricted id member => ?_
        cases Option.some.inj (found.symm.trans same)
        have confined := discreet.calm.confined found restricted
        have opened : id ∈ view.expanded := by simpa using (List.mem_filter.mp member).2
        rw [discreet.inner] at confined
        exact ⟨confined.plain id opened, confined.inside id opened⟩
      · exact discreet

theorem Discreet.handleSetExpanded (sound : snapshot.Sound) (discreet : host.Discreet snapshot) {add : List EntryId}
    (opens : host.Opens session add) (remove : List EntryId) :
    (host.handleSetExpanded toLowercase fuel session add remove).Discreet snapshot := by
  have opened (slot : Nat × SessionView) (member : slot ∈ host.sessions) (here : slot.1 = session)
      (restricted : slot.2.policy.access ≠ .admin) : SessionView.MayOpen snapshot add := by
    rw [← discreet.inner]
    exact opens slot member here restricted
  unfold TreeHost.handleSetExpanded
  split
  · exact discreet
  · next view found =>
    have listed := view_mem found
    have expanded : (host.put session (view.expand add remove)).Discreet snapshot := by
      refine ⟨discreet.forested, discreet.inner, discreet.calm.put fun restricted => ?_, discreet.honest⟩
      have confined := discreet.calm.confined found restricted
      rw [discreet.inner] at confined ⊢
      exact SessionView.expand_confined confined (opened _ listed rfl restricted) remove
    have kept : host.Keeps (host.put session (view.expand add remove)) := by
      refine Keeps.put (fun slot member => ⟨slot, member, rfl, rfl⟩) ⟨_, listed, rfl, rfl⟩
    obtain ⟨middle, settled, policies, same⟩ : ∃ middle : TreeHost, middle.Discreet snapshot ∧ host.Keeps middle ∧
        (if completedLoads toLowercase host.store.inner add = [] then host.put session (view.expand add remove)
          else (host.put session (view.expand add remove)).tick toLowercase fuel) = middle := by
      split
      · exact ⟨_, expanded, kept, rfl⟩
      · refine ⟨_, expanded.tick sound, fun slot member => ?_, rfl⟩
        obtain ⟨mid, between, first, second⟩ := tick_keeps slot member
        obtain ⟨old, before, third, fourth⟩ := kept mid between
        exact ⟨old, before, third.trans first, fourth.trans second⟩
    dsimp only
    rw [same]
    split
    · exact settled
    · next view now =>
      refine Discreet.refreshPeers sound (settled.reply ?_) _
      rw [settled.inner]
      refine expandedDelta_harmless sound (fun restricted => ?_) fun restricted => ?_
      · have confined := settled.calm.confined now restricted
        rwa [settled.inner] at confined
      · obtain ⟨old, before, here, policy⟩ := policies _ (view_mem now)
        exact opened old before here (by rwa [policy])

/-- Steps at which no restricted session gets beyond a symlink: none has expanded or expands a symlink or
an entry beyond one, or knows an entry that lies beyond one when deltas go out, and nothing that is looked
up lies so far below a symlink that the boundary check does not see it. -/
def Careful (host : TreeHost) : TreeEvent → Prop
  | .native op => host.store.Admissible op
  | .setExpanded session add _ | .loaded session add => host.Calm ∧ host.Opens session add
  | .setViewport session _ _ _ =>
    ∀ view, host.view session = some view → view.policy.access ≠ .admin → view.Confined host.store.inner
  | .tick => host.Calm
  | .lookup _ found => ∀ id ∈ found, ¬ host.store.inner.FarBeyond id
  | .search _ _ found => ∀ id ∈ found, ¬ host.store.inner.FarBeyond id
  | _ => True

/-- What every careful step keeps. -/
structure Guarded (host : TreeHost) : Prop where
  forested : host.store.Forested
  honest : host.Honest

theorem Guarded.reply (guarded : host.Guarded) {answer : TreeFrame × SessionView}
    (discreet : answer.2.policy.access ≠ .admin → answer.1.Discreet host.store.inner) :
    (host.reply session answer).Guarded :=
  ⟨guarded.forested, guarded.honest.reply discreet⟩

theorem Guarded.discreet (guarded : host.Guarded) (calm : host.Calm) : host.Discreet host.store.inner :=
  ⟨guarded.forested, rfl, calm, guarded.honest⟩

theorem Discreet.guarded (discreet : host.Discreet snapshot) : host.Guarded :=
  ⟨discreet.forested, discreet.honest⟩

theorem step_guarded (guarded : host.Guarded) (event : TreeEvent) (careful : host.Careful event) :
    (host.step toLowercase fuel event).Guarded := by
  have sound := guarded.forested.sound
  cases event with
  | native op => exact ⟨EntryStore.apply_forested guarded.forested careful, guarded.honest⟩
  | attach | detach | markCoarse | markDirty | markResynced | decorate => exact ⟨guarded.forested, guarded.honest⟩
  | handshake session prefetchRows =>
    simp only [step]
    split
    · exact guarded
    · exact guarded.reply fun _ => SessionView.handshake_discreet sound prefetchRows
  | setExpanded session add remove =>
    simp only [step]
    split
    · exact ((guarded.discreet careful.1).handleSetExpanded sound careful.2 remove).guarded
    · exact guarded
  | loaded session ids =>
    simp only [step]
    split
    · refine ((guarded.discreet careful.1).refresh sound fun view found => ?_).guarded
      exact careful.2 _ (view_mem found) rfl
    · exact guarded
  | setViewport session offset limit overscan =>
    simp only [step]
    split
    · exact guarded
    · next view found =>
      split
      · refine guarded.reply fun restricted => ?_
        exact (SessionView.setViewport_inside sound (careful view found restricted) offset limit overscan).1
      · exact guarded
  | tick => exact ((guarded.discreet careful).tick sound).guarded
  | lookup session found =>
    simp only [step]
    split
    · next view id _ =>
      split
      · split
        · next answer answered =>
          refine guarded.reply fun restricted => ?_
          refine SessionView.lookup_inside sound (careful id rfl) ?_ answered
          have policy : answer.2.policy = view.policy := by
            unfold SessionView.lookup at answered
            split at answered
            · cases answered
              rfl
            · cases answered
          rwa [policy] at restricted
        · exact guarded
      · exact guarded
    · exact guarded
  | search session limit found =>
    simp only [step]
    split
    · exact guarded
    · split
      · exact guarded.reply fun restricted => SessionView.search_inside sound careful restricted limit
      · exact guarded

/-- In every run of careful steps no frame to a session below admin speaks of an entry that has a symlink
among its strict ancestors. -/
theorem restricted_sees_inside (run : Run (step toLowercase fuel) Careful (initial .new) host) :
    ∀ sent ∈ host.sent, sent.policy.access ≠ .admin → ∀ id ∈ sent.frame.ids, ¬ sent.snapshot.Beyond id := by
  have guarded : host.Guarded := by
    refine run.invariant Guarded ⟨EntryStore.new_forested, fun sent none => by cases none⟩ ?_
    intro state event before careful
    exact step_guarded before event careful
  exact guarded.honest

section Sample

open EntryStore

/-- A root with a folder and a file in that, and a read-only session that has shaken hands. -/
def sampleEvents (kind : EntryKind) (symlinkTargetIsDir : Option Bool) : List TreeEvent :=
  [.native (.insert (Path.ofNames ["r"]) (sampleEntry none "r" .directory none)),
   .native (.insert (Path.ofNames ["r", "d"]) (sampleEntry (some 0) "d" kind symlinkTargetIsDir)),
   .native (.insert (Path.ofNames ["r", "d", "f"]) (sampleEntry (some 1) "f" .file none)),
   .attach ⟨.readOnly, none, fun _ => none, none⟩,
   .handshake 1 none]

def sampleHost (kind : EntryKind) (symlinkTargetIsDir : Option Bool) : TreeHost :=
  (sampleEvents kind symlinkTargetIsDir).foldl (step id 10) (initial .new)

/-- A change of the tree is one the store admits. -/
def Admits (host : TreeHost) : TreeEvent → Prop
  | .native op => host.store.Admissible op
  | _ => True

theorem sampleHost_reached (kind : EntryKind) (symlinkTargetIsDir : Option Bool) :
    Run (step id 10) Careful (initial .new) (sampleHost kind symlinkTargetIsDir) := by
  refine Run.of_list (sampleEvents kind symlinkTargetIsDir) ⟨?_, ?_, ?_, trivial, trivial, trivial⟩
  · intro parentId link
    cases link
  · intro parentId link
    cases link
    show Option.isSome _ = true
    decide
  · intro parentId link
    cases link
    show Option.isSome _ = true
    cases kind <;> rcases symlinkTargetIsDir with _ | _ | _ <;> decide

theorem Careful.admits {event : TreeEvent} (careful : host.Careful event) : host.Admits event := by
  cases event with
  | native op => exact careful
  | _ => trivial

theorem sampleHost_careful : (sampleHost .directory none).Careful (.setExpanded 1 [1] []) := by
  have root : (sampleHost .directory none).store.inner.entries[0]? =
      some { sampleEntry none "r" .directory none with id := 0 } := by
    decide
  have folder : (sampleHost .directory none).store.inner.entries[1]? =
      some { sampleEntry (some 0) "d" .directory none with id := 1 } := by
    decide
  have atTop : ¬ (sampleHost .directory none).store.inner.Beyond 0 := StoreSnapshot.not_beyond_of_root root rfl
  have known : ∀ slot ∈ (sampleHost .directory none).sessions, slot.2.knownIds = {0} ∧ slot.2.expanded = ∅ := by
    decide
  constructor
  · intro slot member _
    obtain ⟨knows, opened⟩ := known slot member
    refine ⟨by simp [opened], by simp [opened], ?_⟩
    rw [knows]
    intro id member
    rw [Finset.mem_singleton.mp member]
    exact atTop
  · intro slot _ _ _ id member
    rw [List.mem_singleton.mp member]
    refine ⟨StoreSnapshot.not_isSymlink folder (by decide), ?_⟩
    rw [StoreSnapshot.beyond_of_parent folder rfl]
    exact not_or.mpr ⟨StoreSnapshot.not_isSymlink root (by decide), atTop⟩

/-- The child of an expanded folder is listed. -/
theorem restricted_sees_inside_folder :
    (((sampleHost .directory none).step id 10 (.setExpanded 1 [1] [])).sent.any fun sent => 2 ∈ sent.frame.ids) ∧
    ∀ sent ∈ ((sampleHost .directory none).step id 10 (.setExpanded 1 [1] [])).sent, sent.policy.access ≠ .admin →
      ∀ id ∈ sent.frame.ids, ¬ sent.snapshot.Beyond id :=
  ⟨by decide, restricted_sees_inside ((sampleHost_reached .directory none).step _ sampleHost_careful)⟩

/-- A read-only session expands a symlink and is told what lies behind it. -/
theorem expanded_link_lists_beyond :
    ∃ host, Run (step id 10) Admits (initial .new) host ∧
    ∃ sent ∈ host.sent, sent.policy.access ≠ .admin ∧ ∃ id ∈ sent.frame.ids, sent.snapshot.Beyond id := by
  have before := (sampleHost_reached .symlink (some true)).weaken fun _ _ careful => Careful.admits careful
  refine ⟨_, before.step (.setExpanded 1 [1] []) trivial, ?_⟩
  have reply : ∃ sent ∈ ((sampleHost .symlink (some true)).step id 10 (.setExpanded 1 [1] [])).sent,
      sent.policy.access ≠ .admin ∧ ∃ id ∈ sent.frame.ids, id = 2 ∧ sent.snapshot.above 1 id = some 1 ∧
        sent.snapshot.entries[1]?.map (·.kind) = some .symlink := by
    decide
  obtain ⟨sent, member, restricted, id, told, rfl, reached, kind⟩ := reply
  obtain ⟨entry, found, symlink⟩ := Option.map_eq_some_iff.mp kind
  exact ⟨sent, member, restricted, 2, told, 0, 1, reached, entry, found, symlink⟩

end Sample
end TreeHost

end Mille
