import Mille.Core.Viewport
import Mille.Core.StoreRuns
import Mille.Host.Boundary
import Mille.Remote.Protocol

/-! What the host tells its sessions about the tree: the snapshot of a handshake,
the deltas of ticks and of `setExpanded` and `setViewport`, and the answers of
lookups. Every frame is logged with the snapshot it was built from. -/

namespace Mille

open Remote

namespace StoreSnapshot

variable (toLowercase : String → String)

/-- `projected_child_count`: unknown while a directory's listing is partial. -/
def projectedChildCount (snapshot : StoreSnapshot) (id : EntryId) : Option Nat :=
  match snapshot.entries[id]? with
  | none => none
  | some entry =>
    let children := snapshot.projectedChildrenOf toLowercase id false
    if entry.kind = .file ∧ children ≠ [] then some (min children.length 0xFFFFFFFF)
    else if snapshot.directoryChildrenLoaded id then some (min children.length 0xFFFFFFFF)
    else none

/-- The walk of `compactChainNeedsLoad`, with the rounds that are left. -/
def chainNeedsLoad (snapshot : StoreSnapshot) : Nat → Finset EntryId → EntryId → Bool
  | 0, _, _ => false
  | depth + 1, seen, current =>
    if current ∈ seen then false
    else if !snapshot.directoryChildrenLoaded current then true
    else
      match snapshot.projectedChildrenOf toLowercase current false with
      | [only] =>
        match snapshot.entries[only]? with
        | none => false
        | some child => if child.isFolder then chainNeedsLoad snapshot depth (insert current seen) child.id else false
      | _ => false

def compactChainNeedsLoad (snapshot : StoreSnapshot) (id : EntryId) : Bool :=
  snapshot.chainNeedsLoad toLowercase 256 ∅ id

/-- The record of an entry and of everything above it, up to a guard. -/
def lookupChain (snapshot : StoreSnapshot) : Nat → Option EntryId → List Entry
  | 0, _ => []
  | _ + 1, none => []
  | guard + 1, some cursor =>
    match snapshot.entries[cursor]? with
    | none => []
    | some entry => entry :: lookupChain snapshot guard entry.parentId

end StoreSnapshot

structure HostViewport where
  offset : Nat
  limit : Nat
  overscan : Nat
deriving DecidableEq

/-- What the host knows of a session's view of the tree. -/
structure SessionView where
  policy : SessionPolicy
  handshook : Bool
  expanded : Finset EntryId
  viewport : HostViewport
  /-- Ids covered by the last viewport patch. -/
  viewportIds : Finset EntryId
  prefetchRows : Nat
  /-- Ids whose records the session has received. -/
  knownIds : Finset EntryId
  lastRootIds : List EntryId

/-- The tree part of a delta frame. -/
structure TreeDelta where
  version : Nat
  changedIds : Finset EntryId
  entries : List Entry
  childSetChanged : Finset EntryId
  childLists : List (EntryId × List EntryId)
  viewportIds : Option (List EntryId)
  removedIds : Finset EntryId
  directChildCounts : List (EntryId × Nat)
  coarseSubtrees : Finset EntryId
  subtreeDirty : Finset EntryId
  subtreeResynced : Finset EntryId
  roots : Option (List EntryId)

inductive TreeFrame where
  | snapshot (version : Nat) (roots : List EntryId) (entries : List Entry) (directChildCounts : List (EntryId × Nat))
  | delta (body : TreeDelta)
  | found (id : EntryId) (version : Nat) (entries : List Entry)
  | hits (version : Nat) (clipped : Bool) (ids : List EntryId) (entries : List Entry)

/-- The entries a frame speaks of, as records or as ids of a list. -/
def TreeFrame.ids : TreeFrame → List EntryId
  | snapshot _ roots entries _ => roots ++ entries.map (·.id)
  | delta body => body.entries.map (·.id) ++ body.childLists.flatMap (·.2) ++ body.viewportIds.getD [] ++
      body.roots.getD []
  | found id _ entries => id :: entries.map (·.id)
  | hits _ _ ids entries => ids ++ entries.map (·.id)

/-- A frame as it left, with the session it went to and the tree it shows. -/
structure SentFrame where
  session : Nat
  policy : SessionPolicy
  snapshot : StoreSnapshot
  frame : TreeFrame

structure TreeHost where
  store : EntryStore
  sessions : List (Nat × SessionView)
  nextSessionId : Nat
  pendingCoarseSubtrees : Finset EntryId
  pendingSubtreeDirty : Finset EntryId
  pendingSubtreeResynced : Finset EntryId
  pendingDecorationChangedIds : Finset EntryId
  sent : List SentFrame

/-- The rows of a viewport patch. -/
structure ViewportPatch where
  entries : List Entry
  directChildCounts : List (EntryId × Nat)
  viewportIds : List EntryId

namespace SessionView

variable (toLowercase : String → String) (fuel : Nat)

def fresh (policy : SessionPolicy) : SessionView :=
  ⟨policy, false, ∅, ⟨0, 0, 0⟩, ∅, 100, ∅, []⟩

def clamp32 (value : Nat) : Nat :=
  min 0xFFFFFFFF value

/-- A row's record keeps the projection's compact segments. -/
def rowEntry (snapshot : StoreSnapshot) (row : VisibleRowOut) : Option Entry :=
  snapshot.entries[row.id]?.map fun entry => { entry with id := row.id, pathSegments := row.pathSegments }

def viewportRows (snapshot : StoreSnapshot) (view : SessionView) : List VisibleRowOut :=
  let before := min view.viewport.offset view.viewport.overscan
  (snapshot.visibleRows toLowercase fuel ⟨view.expanded, UInt32.ofNat (view.viewport.offset - before),
    UInt32.ofNat (clamp32 (view.viewport.limit + before + view.viewport.overscan)), false⟩).getD []

def collectViewportPatch (snapshot : StoreSnapshot) (view : SessionView) : ViewportPatch × SessionView :=
  let rows := view.viewportRows toLowercase fuel snapshot
  let ids := rows.map (·.id)
  ({ entries := rows.filterMap fun row =>
        if row.id ∈ view.viewportIds ∧ row.pathSegments = none then none else rowEntry snapshot row
     directChildCounts := rows.filterMap fun row =>
        match snapshot.projectedChildCount toLowercase row.id with
        | some count => some (row.id, count)
        -- Clears the count of a nesting parent that has become a leaf again.
        | none => if snapshot.entries[row.id]?.any (·.kind = .file) then some (row.id, 0) else none
     viewportIds := ids },
   { view with knownIds := view.knownIds ∪ ids.toFinset, viewportIds := ids.toFinset })

def countsOf (snapshot : StoreSnapshot) (ids : List EntryId) : List (EntryId × Nat) :=
  ids.filterMap fun id => (snapshot.projectedChildCount toLowercase id).map fun count => (id, count)

def handshake (snapshot : StoreSnapshot) (prefetchRows : Option Nat) (view : SessionView) : TreeFrame × SessionView :=
  let requested := (prefetchRows.map clamp32).getD 100
  let granted := match viewportRowCap view.policy with
    | some cap => min requested cap
    | none => requested
  let entries := snapshot.roots.filterMap fun id => snapshot.entries[id]?
  (.snapshot snapshot.treeVersion snapshot.roots entries (countsOf toLowercase snapshot (entries.map (·.id))),
   { view with
     handshook := true, prefetchRows := granted, lastRootIds := snapshot.roots
     knownIds := view.knownIds ∪ (entries.map (·.id)).toFinset })

/-- `handleSetExpanded` up to the snapshot: additions first, then removals. -/
def expand (add remove : List EntryId) (view : SessionView) : SessionView :=
  { view with
    expanded := (view.expanded ∪ add.toFinset) \ remove.toFinset
    viewport := if view.viewport.limit = 0 ∧ add ≠ [] then ⟨0, view.prefetchRows, 0⟩ else view.viewport }

/-- The reply of `handleSetExpanded`. -/
def expandedDelta (snapshot : StoreSnapshot) (add : List EntryId) (view : SessionView) : TreeFrame × SessionView :=
  let listed := add.filter fun id => snapshot.projectedChildrenOf toLowercase id false ≠ [] ∨
    snapshot.projectedChildCount toLowercase id = some 0
  let (patch, view) := view.collectViewportPatch toLowercase fuel snapshot
  (.delta
    { version := snapshot.treeVersion, changedIds := ∅, entries := patch.entries
      childSetChanged := listed.toFinset
      childLists := listed.map fun id => (id, snapshot.projectedChildrenOf toLowercase id false)
      viewportIds := some patch.viewportIds, removedIds := ∅
      directChildCounts := countsOf toLowercase snapshot add ++ patch.directChildCounts
      coarseSubtrees := ∅, subtreeDirty := ∅, subtreeResynced := ∅, roots := none }, view)

/-- The window a session is granted. -/
def grant (policy : SessionPolicy) (offset limit overscan : Nat) : HostViewport :=
  let limit := clamp32 limit
  let overscan := clamp32 overscan
  match viewportRowCap policy with
  | some cap =>
    if cap < limit + 2 * overscan then ⟨clamp32 offset, min limit cap, min overscan ((cap - min limit cap) / 2)⟩
    else ⟨clamp32 offset, limit, overscan⟩
  | none => ⟨clamp32 offset, limit, overscan⟩

def setViewport (snapshot : StoreSnapshot) (offset limit overscan : Nat) (view : SessionView) : TreeFrame × SessionView :=
  let (patch, view) := { view with viewport := grant view.policy offset limit overscan }.collectViewportPatch
    toLowercase fuel snapshot
  (.delta
    { version := snapshot.treeVersion, changedIds := ∅, entries := patch.entries, childSetChanged := ∅
      childLists := [], viewportIds := some patch.viewportIds, removedIds := ∅
      directChildCounts := patch.directChildCounts
      coarseSubtrees := ∅, subtreeDirty := ∅, subtreeResynced := ∅, roots := none }, view)

/-- What a tick has drained for every session. -/
structure Drained where
  changes : ChangeSet
  coarse : Finset EntryId
  dirty : Finset EntryId
  resynced : Finset EntryId

/-- Parents whose child lists a tick reports: the ones that changed, and the expanded nesting parents
among their children. -/
def changedParents (snapshot : StoreSnapshot) (drained : Drained) (view : SessionView) : Finset EntryId :=
  let direct := drained.changes.childSetChanged.filter (fun id => id ∈ view.expanded ∨ id ∈ view.knownIds) ∪ drained.coarse
  direct ∪ direct.biUnion fun id => (snapshot.childrenOf id).toFinset.filter (· ∈ view.expanded)

/-- The count a changed parent reports; a nesting parent that lost its last child is cleared. -/
def parentCount (snapshot : StoreSnapshot) (view : SessionView) (id : EntryId) : Option (EntryId × Nat) :=
  match snapshot.projectedChildCount toLowercase id with
  | some count => some (id, count)
  | none =>
    if id ∈ view.expanded ∧ snapshot.entries[id]?.any (fun entry => !entry.isFolder) then some (id, 0) else none

/-- One session's delta of a tick. -/
def tick (snapshot : StoreSnapshot) (drained : Drained) (view : SessionView) : TreeFrame × SessionView :=
  let changed := drained.changes.changedIds.filter (· ∈ view.knownIds)
  let removed := changed.filter fun id => snapshot.entries[id]? = none
  let live := changed.filter fun id => snapshot.entries[id]? ≠ none
  let parents := view.changedParents snapshot drained
  let rootsChanged := snapshot.roots ≠ view.lastRootIds
  let changedEntries := live.sort.filterMap fun id => snapshot.entries[id]?
  let rootEntries := if rootsChanged then
    (snapshot.roots.filter (· ∉ live)).filterMap fun id => snapshot.entries[id]? else []
  let counts := countsOf toLowercase snapshot live.sort ++
    parents.sort.filterMap (view.parentCount toLowercase snapshot) ++
    countsOf toLowercase snapshot (rootEntries.map (·.id))
  let lists := (parents.filter (· ∈ view.expanded)).sort.map fun id =>
    (id, snapshot.projectedChildrenOf toLowercase id false)
  let view := { view with
    knownIds := (if rootsChanged then view.knownIds ∪ snapshot.roots.toFinset else view.knownIds) \ removed
    lastRootIds := snapshot.roots }
  let refresh := !drained.changes.isEmpty || drained.coarse ≠ ∅ || drained.dirty ≠ ∅ || drained.resynced ≠ ∅ ||
    rootsChanged
  let patched := if refresh then (view.collectViewportPatch toLowercase fuel snapshot).map some id else (none, view)
  let rows := (patched.1.map (·.entries)).getD []
  (.delta
    { version := drained.changes.toVersion, changedIds := live
      entries := changedEntries ++ rootEntries ++
        rows.filter fun entry => entry.id ∉ live ∧ entry.id ∉ rootEntries.map (·.id)
      childSetChanged := parents, childLists := lists
      viewportIds := patched.1.map (·.viewportIds), removedIds := removed
      directChildCounts := counts ++ (patched.1.map (·.directChildCounts)).getD []
      coarseSubtrees := drained.coarse, subtreeDirty := drained.dirty, subtreeResynced := drained.resynced
      roots := if rootsChanged then some snapshot.roots else none }, patched.2)

/-- The boundary lookups ask for: `none` when an entry is beyond a symlink. -/
def withinBoundary (snapshot : StoreSnapshot) (view : SessionView) (id : EntryId) : Bool :=
  view.policy.access = .admin || !snapshot.crossesSymlink id

def lookupGuard : Nat := 10000

/-- The answer of `resolvePath` and `findVisiblePrefix` for the id that was found. -/
def lookup (snapshot : StoreSnapshot) (id : EntryId) (view : SessionView) : Option (TreeFrame × SessionView) :=
  if view.withinBoundary snapshot id then
    let entries := snapshot.lookupChain lookupGuard (some id)
    some (.found id snapshot.treeVersion entries,
      { view with knownIds := view.knownIds ∪ (entries.map (·.id)).toFinset })
  else none

/-- The hits of a search, up to its limit. -/
def searchHits (snapshot : StoreSnapshot) (view : SessionView) (limit : Nat) (found : List EntryId) : List EntryId :=
  (found.filter fun id => snapshot.entries[id]?.isSome && view.withinBoundary snapshot id).take limit

/-- A hit's chain stops at the first entry an earlier hit brought. -/
def hitEntries (snapshot : StoreSnapshot) (hits : List EntryId) : List Entry :=
  hits.foldl (fun entries id =>
    entries ++ (snapshot.lookupChain lookupGuard (some id)).takeWhile fun entry =>
      entry.id ∉ entries.map (·.id)) []

def search (snapshot : StoreSnapshot) (limit : Nat) (found : List EntryId) (view : SessionView) :
    TreeFrame × SessionView :=
  let hits := view.searchHits snapshot limit found
  let entries := hitEntries snapshot hits
  (.hits snapshot.treeVersion (limit < found.length) hits entries,
    { view with knownIds := view.knownIds ∪ (entries.map (·.id)).toFinset })

end SessionView

namespace TreeHost

variable (toLowercase : String → String) (fuel : Nat)

def initial (store : EntryStore) : TreeHost :=
  ⟨store, [], 1, ∅, ∅, ∅, ∅, []⟩

def view (host : TreeHost) (session : Nat) : Option SessionView :=
  host.sessions.lookup session

/-- Replaces a session's view. -/
def put (host : TreeHost) (session : Nat) (view : SessionView) : TreeHost :=
  { host with sessions := host.sessions.map fun slot => if slot.1 = session then (slot.1, view) else slot }

/-- Sends a frame to a session and keeps the view it leaves. -/
def reply (host : TreeHost) (session : Nat) (answer : TreeFrame × SessionView) : TreeHost :=
  { host.put session answer.2 with
    sent := host.sent ++ [⟨session, answer.2.policy, host.store.inner, answer.1⟩] }

/-- Nothing to report to anyone. -/
def isQuiet (host : TreeHost) : Bool :=
  host.store.pendingChanges.isEmpty && host.pendingCoarseSubtrees = ∅ && host.pendingSubtreeDirty = ∅ &&
    host.pendingSubtreeResynced = ∅ && host.pendingDecorationChangedIds = ∅ &&
    host.sessions.all fun slot => !slot.2.handshook || host.store.inner.roots = slot.2.lastRootIds

/-- One tick: drains the changes and markers and posts a delta to every session that has shaken hands. -/
def tick (host : TreeHost) : TreeHost :=
  if host.sessions = [] then host
  else
    let (changes, store) := host.store.takePendingChanges
    let drained : SessionView.Drained :=
      ⟨changes, host.pendingCoarseSubtrees, host.pendingSubtreeDirty, host.pendingSubtreeResynced⟩
    let emptied : TreeHost := { host with
      store := store, pendingCoarseSubtrees := ∅, pendingSubtreeDirty := ∅, pendingSubtreeResynced := ∅
      pendingDecorationChangedIds := ∅ }
    if host.isQuiet then emptied
    else (host.sessions.filter (·.2.handshook)).foldl (fun host slot =>
      host.reply slot.1 (slot.2.tick toLowercase fuel host.store.inner drained)) emptied

/-- Expansions whose listings are complete already. -/
def completedLoads (snapshot : StoreSnapshot) (add : List EntryId) : List EntryId :=
  add.filter fun id => snapshot.entries[id]?.any (·.isFolder) && snapshot.directoryChildrenLoaded id &&
    (!snapshot.compactFolders || !snapshot.compactChainNeedsLoad toLowercase id)

/-- Expands folders of a session and sends their lists, without starting a load. -/
def refresh (host : TreeHost) (session : Nat) (add : List EntryId) : TreeHost :=
  match host.view session with
  | none => host
  | some view => host.reply session ((view.expand add []).expandedDelta toLowercase fuel host.store.inner add)

/-- `completeDirectoryLoads` for the windows beside the one that asked. -/
def refreshPeers (host : TreeHost) (session : Nat) (completed : List EntryId) : TreeHost :=
  ((host.sessions.map (·.1)).filter (· ≠ session)).foldl (fun host peer =>
    match host.view peer with
    | none => host
    | some view =>
      let listed := completed.filter (· ∈ view.expanded)
      if view.handshook ∧ listed ≠ [] then host.refresh toLowercase fuel peer listed else host) host

def handleSetExpanded (host : TreeHost) (session : Nat) (add remove : List EntryId) : TreeHost :=
  match host.view session with
  | none => host
  | some view =>
    let completed := completedLoads toLowercase host.store.inner add
    let host := host.put session (view.expand add remove)
    -- Changes that were read but not drained go out before the final rows.
    let host := if completed = [] then host else host.tick toLowercase fuel
    match host.view session with
    | none => host
    | some view =>
      let host := host.reply session (view.expandedDelta toLowercase fuel host.store.inner add)
      host.refreshPeers toLowercase fuel session completed

/-- What happens at a host, one handler after the other. -/
inductive TreeEvent where
  | native (op : Op)
  | attach (policy : SessionPolicy)
  | detach (session : Nat)
  | handshake (session : Nat) (prefetchRows : Option Nat)
  | setExpanded (session : Nat) (add remove : List EntryId)
  /-- A directory load or a resync completes: the lists are sent again. -/
  | loaded (session : Nat) (ids : List EntryId)
  | setViewport (session : Nat) (offset limit overscan : Nat)
  | tick
  | markCoarse (id : EntryId)
  | markDirty (id : EntryId)
  | markResynced (id : EntryId)
  | decorate (ids : Finset EntryId)
  /-- `resolvePath` or `findVisiblePrefix`, with what the engine found. -/
  | lookup (session : Nat) (found : Option EntryId)
  | search (session : Nat) (limit : Nat) (found : List EntryId)

def step (host : TreeHost) : TreeEvent → TreeHost
  | .native op => { host with store := host.store.apply op }
  | .attach policy => { host with
      sessions := host.sessions ++ [(host.nextSessionId, .fresh policy)], nextSessionId := host.nextSessionId + 1 }
  | .detach session => { host with sessions := host.sessions.filter (·.1 ≠ session) }
  | .handshake session prefetchRows =>
    match host.view session with
    | none => host
    | some view => host.reply session (view.handshake toLowercase host.store.inner prefetchRows)
  | .setExpanded session add remove =>
    if (host.view session).any (·.handshook) then host.handleSetExpanded toLowercase fuel session add remove else host
  | .loaded session ids =>
    if (host.view session).any (·.handshook) then host.refresh toLowercase fuel session ids else host
  | .setViewport session offset limit overscan =>
    match host.view session with
    | none => host
    | some view =>
      if view.handshook then
        host.reply session (view.setViewport toLowercase fuel host.store.inner offset limit overscan)
      else host
  | .tick => host.tick toLowercase fuel
  | .markCoarse id => { host with pendingCoarseSubtrees := insert id host.pendingCoarseSubtrees }
  | .markDirty id => { host with
      pendingSubtreeDirty := insert id host.pendingSubtreeDirty
      pendingSubtreeResynced := host.pendingSubtreeResynced.erase id }
  | .markResynced id => { host with
      pendingSubtreeResynced := insert id host.pendingSubtreeResynced
      pendingSubtreeDirty := host.pendingSubtreeDirty.erase id }
  | .decorate ids => { host with pendingDecorationChangedIds := host.pendingDecorationChangedIds ∪ ids }
  | .lookup session found =>
    match host.view session, found with
    | some view, some id =>
      if view.handshook then
        match view.lookup host.store.inner id with
        | some answer => host.reply session answer
        | none => host
      else host
    | _, _ => host
  | .search session limit found =>
    match host.view session with
    | none => host
    | some view =>
      if view.handshook ∧ authorizeCall view.policy "search" = .allowed then
        host.reply session (view.search host.store.inner limit found)
      else host

end TreeHost

end Mille
