import Mille.Core.Snapshot

/-! `EntryStore`: the published snapshot, the two path indexes and every
operation on them. Operations return their result with the next store; a failed
call still keeps the ids it has allocated. -/

namespace Mille

open Maps

structure EntryStore where
  inner : StoreSnapshot
  pathToId : Std.ExtTreeMap Path EntryId
  idToPath : IdMap Path
  idCounter : Nat
  pendingChanges : ChangeSet
  siblingOrder : SiblingOrder
  visibility : VisibilityPolicy

namespace EntryStore

def withProjectionSettings (siblingOrder : SiblingOrder) (visibility : VisibilityPolicy)
    (compactFolders : Bool) (fileNesting : FileNestingPolicy) : EntryStore :=
  ⟨.emptyWithProjection visibility compactFolders fileNesting, ∅, ∅, 0, default, siblingOrder,
    visibility⟩

def new : EntryStore :=
  withProjectionSettings default default false default

variable (store : EntryStore)

def getById (id : EntryId) : Option Entry :=
  store.inner.entries[id]?

def getByPath (path : Path) : Option Entry :=
  store.pathToId[path]?.bind store.getById

def pathForId (id : EntryId) : Option Path :=
  store.idToPath[id]?

def recordMutation (prevTreeVersion newTreeVersion : Nat) (change : ChangeSet → ChangeSet) :
    EntryStore :=
  let changes := store.pendingChanges
  let changes :=
    if changes.isEmpty && changes.fromVersion = 0 && changes.toVersion = 0 then
      { changes with fromVersion := prevTreeVersion }
    else changes
  { store with pendingChanges := change { changes with toVersion := newTreeVersion } }

/-- `take_pending_changes`. -/
def takePendingChanges : ChangeSet × EntryStore :=
  (store.pendingChanges, { store with pendingChanges := default })

/-- Stores the next snapshot under the next version and records the change. -/
def publish (next : StoreSnapshot) (change : ChangeSet → ChangeSet) : EntryStore :=
  { store with inner := { next with treeVersion := next.treeVersion + 1 } }.recordMutation
    next.treeVersion (next.treeVersion + 1) change

/-- Installs additions in both directions of the path index. -/
def index (additions : List Addition) : EntryStore :=
  { store with
    pathToId := insertAll store.pathToId (additions.map (fun addition => (addition.path, addition.id)))
    idToPath := insertAll store.idToPath (additions.map (fun addition => (addition.id, addition.path))) }

/-- Removes ids from both directions, each path found through its id. -/
def unindex (ids : List EntryId) : EntryStore :=
  ids.foldl (fun store id =>
    match store.idToPath[id]? with
    | none => store
    | some path =>
      { store with idToPath := store.idToPath.erase id, pathToId := store.pathToId.erase path }) store

/-- Removes ids from both directions, the paths found by scanning the index. -/
def unindexScan (ids : List EntryId) : EntryStore :=
  { store with
    pathToId := eraseAll store.pathToId
      ((store.pathToId.toList.filter (fun binding => binding.2 ∈ ids)).map Prod.fst)
    idToPath := eraseAll store.idToPath ids }

/-- The ids of a request that are not marked yet; every id must be a folder. -/
def newlyLoaded (snapshot : StoreSnapshot) : List EntryId → List EntryId → Except FxError (List EntryId)
  | [], loaded => .ok loaded
  | id :: rest, loaded =>
    match snapshot.entries[id]? with
    | none => .error (.invalidInput [.text "entry ", .id id, .text " not found"])
    | some entry =>
      if !entry.isFolder then
        .error (.invalidInput [.text "entry ", .id id, .text " is not a directory"])
      else
        newlyLoaded snapshot rest
          (if id ∉ snapshot.loadedDirectories ∧ id ∉ loaded then loaded ++ [id] else loaded)

def markDirectoriesChildrenLoaded (ids : List EntryId) :
    Except FxError (List EntryId) × EntryStore :=
  match newlyLoaded store.inner ids [] with
  | .error error => (.error error, store)
  | .ok [] => (.ok [], store)
  | .ok loaded =>
    (.ok loaded, store.publish (store.inner.markLoaded loaded) (fun changes =>
      { changes with childSetChanged := changes.childSetChanged ∪ loaded.toFinset }))

def markDirectoryChildrenLoaded (id : EntryId) : Except FxError Bool × EntryStore :=
  let (result, next) := store.markDirectoriesChildrenLoaded [id]
  (result.map (!·.isEmpty), next)

def reorderRoots (roots : List EntryId) : Except FxError Nat × EntryStore :=
  let current := store.inner
  if roots.length ≠ current.roots.length then
    (.error (.invalidInput
      [.text "root order must contain exactly ", .count current.roots.length, .text " ids"]), store)
  else if roots.toFinset.card ≠ roots.length ∨ roots.toFinset ≠ current.roots.toFinset then
    (.error (.invalidInput
      [.text "root order must be an exact permutation of current root ids"]), store)
  else if roots = current.roots then (.ok current.treeVersion, store)
  else
    (.ok (current.treeVersion + 1), store.publish { current with roots := roots } (fun changes =>
      { changes with changedIds := changes.changedIds ∪ roots.toFinset }))

/-- The per-root checks of `replace_roots`; paths are absolute by type. -/
def checkRoots : List Path → List (Path × Entry) → Except FxError Unit
  | _, [] => .ok ()
  | seen, (path, entry) :: rest =>
    if path ∈ seen then
      .error (.invalidInput [.text "duplicate workspace root: ", .path path])
    else if entry.parentId.isSome then
      .error (.invalidInput [.text "workspace root entries cannot have a parent"])
    else checkRoots (path :: seen) rest

def rootsOverlap : List Path → Bool
  | [] => false
  | path :: rest =>
    rest.any (fun other => path.startsWith other || other.startsWith path) || rootsOverlap rest

/-- Existing roots keep their id, new paths get fresh ones. The last component
is the id counter the loop leaves behind, also when it fails. -/
def resolveRoots : List (Path × Entry) → Nat → Except FxError (List EntryId × List Addition) × Nat
  | [], counter => (.ok ([], []), counter)
  | (path, entry) :: rest, counter =>
    match store.pathToId[path]? with
    | some id =>
      match store.inner.entries[id]? with
      | none =>
        (.error (.internalBug [.text "path index references missing entry ", .id id]), counter)
      | some indexed =>
        if indexed.parentId.isSome ∨ id ∉ store.inner.roots then
          (.error (.invalidInput
            [.text "workspace root overlaps an indexed descendant: ", .path path]), counter)
        else
          match resolveRoots rest counter with
          | (.error error, counter) => (.error error, counter)
          | (.ok (ids, additions), counter) => (.ok (id :: ids, additions), counter)
    | none =>
      match EntryId.allocFrom counter with
      | (.error error, counter) => (.error error, counter)
      | (.ok id, counter) =>
        match resolveRoots rest counter with
        | (.error error, counter) => (.error error, counter)
        | (.ok (ids, additions), counter) =>
          (.ok (id :: ids, ⟨path, id, { entry with id := id, parentId := none }⟩ :: additions), counter)

/-- The publication of `replace_roots` once every root has its id. -/
def installRoots (orderedIds removedIds : List EntryId) (additions : List Addition) : EntryStore :=
  let added := (store.inner.evict removedIds).addRecords store.visibility additions
  ((store.publish { added with roots := orderedIds } (fun changes =>
    { changes with
      changedIds := changes.changedIds ∪ removedIds.toFinset ∪ orderedIds.toFinset })).unindex
    removedIds).index additions

def replaceRoots (roots : List (Path × Entry)) :
    Except FxError (Nat × List EntryId × List EntryId) × EntryStore :=
  let current := store.inner
  match checkRoots [] roots with
  | .error error => (.error error, store)
  | .ok () =>
    if rootsOverlap (roots.map Prod.fst) then
      (.error (.invalidInput [.text "workspace roots cannot overlap"]), store)
    else
      match store.resolveRoots roots store.idCounter with
      | (.error error, counter) => (.error error, { store with idCounter := counter })
      | (.ok (orderedIds, additions), counter) =>
        let removedRoots := current.roots.filter (· ∉ orderedIds)
        if additions.isEmpty && removedRoots.isEmpty && orderedIds = current.roots then
          (.ok (current.treeVersion, [], []), { store with idCounter := counter })
        else
          let removedIds := removedRoots.flatMap (fun root => current.subtree [root])
          (.ok (current.treeVersion + 1, additions.map (·.id), removedIds),
            { store with idCounter := counter }.installRoots orderedIds removedIds additions)

/-- The publication of `mark_root_unavailable`. -/
def installUnavailable (rootId : EntryId) (root : Entry) (removedIds : List EntryId) : EntryStore :=
  let unavailable := root.unavailable
  let evicted := store.inner.evict removedIds
  (store.publish
    { evicted with
      entries := evicted.entries.insert rootId unavailable
      children := evicted.children.erase rootId
      loadedDirectories := evicted.loadedDirectories.erase rootId
      directChildCounts := evicted.directChildCounts.insert rootId 0
      descendants := evicted.descendants.seed rootId (store.visibility.includes unavailable) 0 }
    (fun changes =>
      { changes with
        changedIds := changes.changedIds ∪ {rootId} ∪ removedIds.toFinset
        childSetChanged := changes.childSetChanged ∪ {rootId} })).unindex removedIds

def markRootUnavailable (rootId : EntryId) : Except FxError (Nat × List EntryId) × EntryStore :=
  let current := store.inner
  match current.entries[rootId]? with
  | none => (.error (.invalidInput [.text "root ", .id rootId, .text " not found"]), store)
  | some root =>
    if root.parentId.isSome ∨ rootId ∉ current.roots then
      (.error (.invalidInput [.text "entry ", .id rootId, .text " is not a workspace root"]), store)
    else
      let removedIds := current.subtree (current.childrenOf rootId).reverse
      if root.kind = .unavailable ∧ removedIds = [] then (.ok (current.treeVersion, []), store)
      else
        (.ok (current.treeVersion + 1, removedIds), store.installUnavailable rootId root removedIds)

/-- Known paths at or below `root`, by the child lists when it is indexed. -/
def pathsUnder (root : Path) : List (Path × EntryId) :=
  match store.pathToId[root]? with
  | none => store.pathToId.toList.filter (fun binding => binding.1.startsWith root)
  | some rootId =>
    (store.inner.subtree [rootId]).filterMap (fun id => store.idToPath[id]?.map (·, id))

/-- Whether a changed record may have to move among its siblings. -/
def needsResort (order : SiblingOrder) (existing updated : Entry) : Bool :=
  existing.kind ≠ updated.kind || existing.symlinkTargetIsDir ≠ updated.symlinkTargetIsDir ||
    order.sortBy = .modified && existing.mtimeMs ≠ updated.mtimeMs

/-- The publication of `update`. -/
def installUpdate (id : EntryId) (existing updated : Entry) : EntryStore :=
  let current := store.inner
  let oldVisible : Int := if store.visibility.includes existing then 1 else 0
  let newVisible : Int := if store.visibility.includes updated then 1 else 0
  let visibleDelta := newVisible - oldVisible
  let sizeDelta : Int := updated.size.toNat - existing.size.toNat
  let entries := current.entries.insert id updated
  let chain := ancestorChain entries maxAncestorWalk (some id)
  let children :=
    match existing.parentId with
    | some parentId =>
      if needsResort store.siblingOrder existing updated then
        current.children.insert parentId
          (store.siblingOrder.sortSiblings entries (current.childrenOf parentId))
      else current.children
    | none => current.children
  let touched := if visibleDelta = 0 ∧ sizeDelta = 0 then [] else chain.filter (· ≠ id)
  store.publish
    { current with
      entries := entries
      children := children
      descendants := current.descendants.shift chain visibleDelta sizeDelta }
    (fun changes =>
      { changes with
        changedIds := changes.changedIds ∪ {id}
        subtreeRootsChanged := changes.subtreeRootsChanged ∪ touched.toFinset })

/-- Replaces one record in place; the parent and the name must stay. -/
def update (id : EntryId) (updated : Entry) : Except FxError Bool × EntryStore :=
  match store.inner.entries[id]? with
  | none => (.error (.invalidInput [.text "entry ", .id id, .text " not found"]), store)
  | some existing =>
    if updated.parentId ≠ existing.parentId ∨ updated.name ≠ existing.name then
      (.error (.invalidInput
        [.text "EntryStore::update cannot rename or reparent an entry"]), store)
    else if { updated with id := id } = existing then (.ok false, store)
    else (.ok true, store.installUpdate id existing { updated with id := id })

/-- The publication of `insert` under a fresh id. -/
def installInsert (path : Path) (id : EntryId) (entry : Entry) : EntryStore :=
  let recorded := store.inner.addRecord store.visibility id entry
  let linked :=
    match entry.parentId with
    | none => { recorded with roots := recorded.roots ++ [id] }
    | some parentId => recorded.addChild store.siblingOrder parentId id
  let countsVisible := store.visibility.includes entry
  let chain := ancestorChain linked.entries maxAncestorWalk entry.parentId
  let touched := if countsVisible || entry.size > 0 then chain else []
  (store.publish
    { linked with
      descendants := linked.descendants.add chain (if countsVisible then some 1 else none) entry.size }
    (fun changes =>
      { changes with
        changedIds := changes.changedIds ∪ {id}
        subtreeRootsChanged := changes.subtreeRootsChanged ∪ touched.toFinset
        childSetChanged := changes.childSetChanged ∪ entry.parentId.toFinset })).index
    [⟨path, id, entry⟩]

/-- A known path keeps its identity; a new one gets the next id. -/
def insert (path : Path) (entry : Entry) : Except FxError EntryId × EntryStore :=
  match store.pathToId[path]? with
  | some existing => (.ok existing, store)
  | none =>
    match EntryId.allocFrom store.idCounter with
    | (.error error, counter) => (.error error, { store with idCounter := counter })
    | (.ok id, counter) =>
      (.ok id, { store with idCounter := counter }.installInsert path id { entry with id := id })

/-- The loop of `insert_batch` that resolves a page against the published
snapshot; `seen` holds the batch's earlier new paths. -/
def resolveBatch : List Path → List (Path × Entry) → Nat → Except FxError (List Addition) × Nat
  | _, [], counter => (.ok [], counter)
  | seen, (path, entry) :: rest, counter =>
    if store.pathToId.contains path then resolveBatch seen rest counter
    else if path ∈ seen then
      (.error (.invalidInput [.text "duplicate path in insert batch: ", .path path]), counter)
    else if entry.parentId.any (fun parentId => !store.inner.entries.contains parentId) then
      (.error (.invalidInput [.text "batch parent ", .id (entry.parentId.getD 0),
        .text " is not in the current snapshot"]), counter)
    else
      match EntryId.allocFrom counter with
      | (.error error, counter) => (.error error, counter)
      | (.ok id, counter) =>
        match resolveBatch (path :: seen) rest counter with
        | (.error error, counter) => (.error error, counter)
        | (.ok additions, counter) => (.ok (⟨path, id, { entry with id := id }⟩ :: additions), counter)

/-- New ids below one parent, in page order. -/
def incoming (additions : List Addition) (parentId : EntryId) : List EntryId :=
  (additions.filter (fun addition => addition.entry.parentId = some parentId)).map (·.id)

/-- The publication of `insert_batch`. -/
def installBatch (additions : List Addition) : EntryStore :=
  let recorded := store.inner.addRecords store.visibility additions
  let parents := (additions.filterMap (·.entry.parentId)).dedup
  let newRoots := (additions.filter (·.entry.parentId.isNone)).map (·.id)
  let chainOf (addition : Addition) :=
    ancestorChain recorded.entries maxAncestorWalk addition.entry.parentId
  let countsVisible (addition : Addition) := store.visibility.includes addition.entry
  let touched := additions.flatMap (fun addition =>
    if countsVisible addition || addition.entry.size > 0 then chainOf addition else [])
  (store.publish
    { recorded with
      roots := recorded.roots ++ newRoots
      children := insertAll recorded.children (parents.map (fun parentId =>
        (parentId, store.siblingOrder.mergeSiblings recorded.entries (recorded.childrenOf parentId)
          (store.siblingOrder.sortSiblings recorded.entries (incoming additions parentId)))))
      directChildCounts := (additions.filterMap (·.entry.parentId)).foldl (fun counts parentId =>
        counts.insert parentId (counts.getD parentId 0 + 1)) recorded.directChildCounts
      descendants := additions.foldl (fun sums addition =>
        sums.add (chainOf addition) (if countsVisible addition then some 1 else none)
          addition.entry.size) recorded.descendants }
    (fun changes =>
      { changes with
        changedIds := changes.changedIds ∪ (additions.map (·.id)).toFinset
        childSetChanged := changes.childSetChanged ∪ parents.toFinset
        subtreeRootsChanged := changes.subtreeRootsChanged ∪ touched.toFinset })).index additions

def insertBatch (entries : List (Path × Entry)) : Except FxError (List EntryId) × EntryStore :=
  match store.resolveBatch [] entries store.idCounter with
  | (.error error, counter) => (.error error, { store with idCounter := counter })
  | (.ok [], counter) => (.ok [], { store with idCounter := counter })
  | (.ok additions, counter) =>
    (.ok (additions.map (·.id)), { store with idCounter := counter }.installBatch additions)

/-- Removes one record; known children stay behind without a parent. -/
def remove (id : EntryId) : Option Entry × EntryStore :=
  match store.inner.entries[id]? with
  | none => (none, store)
  | some existing =>
    let current := store.inner
    let dropped :=
      { current with
        entries := current.entries.erase id
        loadedDirectories := current.loadedDirectories.erase id
        descendants := current.descendants.erase [id] }
    let unlinked :=
      match existing.parentId with
      | none => { dropped with roots := dropped.roots.erase id }
      | some parentId =>
        { dropped with
          children := dropped.children.modify parentId (·.erase id)
          directChildCounts := dropped.directChildCounts.modify parentId (saturatingSub32 · 1) }
    let visible : UInt32 := if store.visibility.includes existing then 1 else 0
    let chain := ancestorChain unlinked.entries maxAncestorWalk existing.parentId
    let touched := if visible > 0 || existing.size > 0 then chain else []
    (some existing, (store.publish
      { unlinked with descendants := unlinked.descendants.sub chain visible existing.size }
      (fun changes =>
        { changes with
          changedIds := changes.changedIds ∪ {id}
          subtreeRootsChanged := changes.subtreeRootsChanged ∪ touched.toFinset
          childSetChanged := changes.childSetChanged ∪ existing.parentId.toFinset })).unindex [id])

/-- The publication of `remove_subtree`. -/
def installRemoval (id : EntryId) (rootEntry : Entry) (ids : List EntryId) : EntryStore :=
  let current := store.inner
  let visible := current.descendants.visibleCounts.getD id 0
  let size := current.descendants.totalSizes.getD id 0
  let evicted := current.evict ids
  let unrooted := { evicted with roots := ids.foldl (fun roots id => roots.erase id) evicted.roots }
  let unlinked :=
    match rootEntry.parentId with
    | none => unrooted
    | some parentId => unrooted.dropChild parentId id
  let chain := ancestorChain unlinked.entries maxAncestorWalk rootEntry.parentId
  let touched := if visible ≠ 0 ∨ size ≠ 0 then chain else []
  (store.publish { unlinked with descendants := unlinked.descendants.sub chain visible size }
    (fun changes =>
      { changes with
        changedIds := changes.changedIds ∪ ids.toFinset
        subtreeRootsChanged := changes.subtreeRootsChanged ∪ touched.toFinset
        childSetChanged := changes.childSetChanged ∪ rootEntry.parentId.toFinset })).unindexScan ids

def removeSubtree (id : EntryId) : List Entry × EntryStore :=
  match store.inner.entries[id]? with
  | none => ([], store)
  | some rootEntry =>
    let ids := store.inner.subtree [id]
    (ids.filterMap (fun entryId => store.inner.entries[entryId]?),
      store.installRemoval id rootEntry ids)

/-- One indexed path that a rename moves. -/
structure PathUpdate where
  old : Path
  id : EntryId
  new : Path

/-- The indexed paths a rename moves: the whole prefix for a directory, only
its own path for any other kind. -/
def pathUpdates (id : EntryId) (entry : Entry) (oldPath newPath : Path) : List PathUpdate :=
  if entry.kind = .directory then
    store.pathToId.toList.filterMap (fun binding =>
      (binding.1.stripPrefix oldPath).map (fun relative =>
        ⟨binding.1, binding.2, newPath ++ relative⟩))
  else [⟨oldPath, id, newPath⟩]

/-- The first destination that an entry outside the move already has. -/
def takenDestination (updates : List PathUpdate) : Option Path :=
  let movingIds := updates.map (·.id)
  (updates.find? (fun update =>
    store.pathToId[update.new]?.any (fun existing => existing ∉ movingIds))).map (·.new)

/-- Walks up from a destination parent; the moved entry must not be on the way. -/
def checkReparent (id : EntryId) : Nat → Option EntryId → Except FxError Unit
  | _, none => .ok ()
  | hops, some candidate =>
    if candidate = id then
      .error (.invalidInput [.text "cannot move an entry into its own subtree"])
    else
      match hops with
      | 0 => .error (.invalidInput [.text "destination parent chain is cyclic or too deep"])
      | hops + 1 => checkReparent id hops (store.inner.entries[candidate]?.bind (·.parentId))

/-- The parent a rename leads to: the current one while the parent path stays. -/
def destinationParent (entry : Entry) (oldPath newParentPath : Path) :
    Except FxError (Option EntryId) :=
  if oldPath.parent = some newParentPath then .ok entry.parentId
  else
    match store.getByPath newParentPath with
    | some parent => .ok (some parent.id)
    | none => .error (.invalidInput [.text "destination parent is not indexed"])

/-- Every check of `rename`, with the new parent, the moved paths and the new
name it goes on with. -/
def planRename (id : EntryId) (entry : Entry) (oldPath newPath : Path) :
    Except FxError (Option EntryId × List PathUpdate × String) :=
  match newPath.parent with
  | none => .error (.invalidInput [.text "new_path has no parent"])
  | some newParentPath =>
    match store.destinationParent entry oldPath newParentPath with
    | .error error => .error error
    | .ok newParentId =>
      if newParentId.any (fun parentId => !store.inner.entries[parentId]?.any (·.isFolder)) then
        .error (.invalidInput [.text "destination parent is not a directory"])
      else if entry.parentId = none ∧ oldPath.parent ≠ some newParentPath then
        .error (.invalidInput [.text "workspace roots cannot be moved"])
      else
        match if entry.parentId ≠ newParentId then store.checkReparent id maxAncestorWalk newParentId
          else .ok () with
        | .error error => .error error
        | .ok () =>
          let updates := store.pathUpdates id entry oldPath newPath
          match store.takenDestination updates with
          | some destination =>
            .error (.invalidInput
              [.text "destination path is already indexed: ", .path destination])
          | none =>
            match newPath.fileName.bind (·.toStr) with
            | none => .error (.invalidInput [.text "new_path has no valid UTF-8 filename"])
            | some newName => .ok (newParentId, updates, newName)

/-- Links, counts and summaries of an entry that changes its parent. -/
def reparent (next : StoreSnapshot) (id oldParentId newParentId : EntryId) : StoreSnapshot :=
  let moved := (next.dropChild oldParentId id).addChild store.siblingOrder newParentId id
  let visible := store.inner.descendants.visibleCounts.getD id 0
  let size := store.inner.descendants.totalSizes.getD id 0
  { moved with
    descendants :=
      (moved.descendants.sub (ancestorChain moved.entries maxAncestorWalk (some oldParentId))
        visible size).add (ancestorChain moved.entries maxAncestorWalk (some newParentId))
        (some visible) size }

/-- Moves the planned paths: the complete old prefix goes first. -/
def moveIndex (updates : List PathUpdate) : EntryStore :=
  { store with
    pathToId := insertAll (eraseAll store.pathToId (updates.map (·.old)))
      (updates.map (fun update => (update.new, update.id)))
    idToPath := insertAll store.idToPath (updates.map (fun update => (update.id, update.new))) }

/-- The publication of `rename`. -/
def installRename (id : EntryId) (entry : Entry) (newParentId : Option EntryId)
    (updates : List PathUpdate) (newName : String) : EntryStore :=
  let current := store.inner
  let updated := { entry with name := newName, parentId := newParentId }
  let recorded := { current with entries := current.entries.insert id updated }
  let next :=
    match entry.parentId, newParentId with
    | some oldParent, some newParent =>
      if oldParent ≠ newParent then store.reparent recorded id oldParent newParent
      else
        { recorded with
          children := recorded.children.modify oldParent (fun siblings =>
            store.siblingOrder.insertSorted recorded.entries id (siblings.erase id)) }
    | _, _ => recorded
  (store.publish next (fun changes =>
    if entry.parentId ≠ newParentId then
      { changes with
        changedIds := changes.changedIds ∪ {id}
        reparentedIds := changes.reparentedIds.insert id (entry.parentId, newParentId)
        childSetChanged :=
          changes.childSetChanged ∪ entry.parentId.toFinset ∪ newParentId.toFinset
        subtreeRootsChanged :=
          changes.subtreeRootsChanged ∪ entry.parentId.toFinset ∪ newParentId.toFinset }
    else
      { changes with
        changedIds := changes.changedIds ∪ {id}
        childSetChanged := changes.childSetChanged ∪ entry.parentId.toFinset })).moveIndex updates

def rename (id : EntryId) (newPath : Path) : Except FxError Unit × EntryStore :=
  match store.inner.entries[id]? with
  | none => (.error (.invalidInput [.text "entry ", .id id, .text " not found"]), store)
  | some entry =>
    match store.pathForId id with
    | none => (.error (.internalBug [.text "entry ", .id id, .text " has no indexed path"]), store)
    | some oldPath =>
      if oldPath = newPath then (.ok (), store)
      else
        match store.planRename id entry oldPath newPath with
        | .error error => (.error error, store)
        | .ok (newParentId, updates, newName) =>
          (.ok (), store.installRename id entry newParentId updates newName)

/-- Rebuilt visible counts: every entry for itself, then once for each ancestor. -/
def rebuildVisibleCounts (entries : IdMap Entry) (visibility : VisibilityPolicy) : IdMap UInt32 :=
  let own := entries.map (fun _ entry => if visibility.includes entry then (1 : UInt32) else 0)
  let visibleIds := (entries.toList.filter (fun binding => visibility.includes binding.2)).map Prod.fst
  visibleIds.foldl (fun counts id =>
    (ancestorChain entries maxAncestorWalk (entries[id]?.bind (·.parentId))).foldl
      (fun counts ancestor => counts.insert ancestor (counts.getD ancestor 0 + 1)) counts) own

/-- Reclassifies the record of one indexed path. -/
def reclassifyPath (classifyExcluded : Path → Entry → Bool)
    (state : IdMap Entry × List EntryId) (binding : Path × EntryId) : IdMap Entry × List EntryId :=
  match state.1[binding.2]? with
  | none => state
  | some existing =>
    let excluded := classifyExcluded binding.1 existing
    if existing.isExcluded = excluded then state
    else (state.1.insert binding.2 { existing with isExcluded := excluded }, state.2 ++ [binding.2])

/-- Records after reclassification, with the ids whose exclusion changed. -/
def reclassify : Option (Path → Entry → Bool) → IdMap Entry × List EntryId
  | none => (store.inner.entries, [])
  | some classifyExcluded =>
    store.pathToId.toList.foldl (reclassifyPath classifyExcluded) (store.inner.entries, [])

/-- The publication of a changed projection: lists sorted anew, counts rebuilt. -/
def installProjection (siblingOrder : SiblingOrder) (visibility : VisibilityPolicy)
    (compactFolders : Bool) (fileNesting : FileNestingPolicy) (entries : IdMap Entry)
    (exclusionChanged : List EntryId) : EntryStore :=
  let current := store.inner
  let children := current.children.map (fun _ siblings => siblingOrder.sortSiblings entries siblings)
  { store with siblingOrder := siblingOrder, visibility := visibility }.publish
    { current with
      entries := entries
      children := children
      descendants :=
        { current.descendants with visibleCounts := rebuildVisibleCounts entries visibility }
      visibility := visibility
      compactFolders := compactFolders
      fileNesting := fileNesting }
    (fun changes =>
      { changes with
        projectionChanged := true
        changedIds := changes.changedIds ∪ exclusionChanged.toFinset
        childSetChanged := changes.childSetChanged ∪ children.keys.toFinset
        subtreeRootsChanged := changes.subtreeRootsChanged ∪ current.roots.toFinset })

def reconfigureProjectionInner (siblingOrder : SiblingOrder) (visibility : VisibilityPolicy)
    (compactFolders : Bool) (fileNesting : FileNestingPolicy)
    (classifyExcluded : Option (Path → Entry → Bool)) : Nat × EntryStore :=
  let current := store.inner
  let policyChanged := !store.siblingOrder.same siblingOrder || current.visibility ≠ visibility ||
    current.compactFolders ≠ compactFolders || current.fileNesting ≠ fileNesting
  let classified := store.reclassify classifyExcluded
  if !policyChanged && classified.2.isEmpty then (current.treeVersion, store)
  else
    (current.treeVersion + 1, store.installProjection siblingOrder visibility compactFolders
      fileNesting classified.1 classified.2)

def reconfigureProjection (siblingOrder : SiblingOrder) (visibility : VisibilityPolicy)
    (compactFolders : Bool) (fileNesting : FileNestingPolicy) : Nat × EntryStore :=
  store.reconfigureProjectionInner siblingOrder visibility compactFolders fileNesting none

def reconfigureProjectionWithExclusions (siblingOrder : SiblingOrder)
    (visibility : VisibilityPolicy) (compactFolders : Bool) (fileNesting : FileNestingPolicy)
    (classifyExcluded : Path → Entry → Bool) : Nat × EntryStore :=
  store.reconfigureProjectionInner siblingOrder visibility compactFolders fileNesting
    (some classifyExcluded)

def reconfigureExclusions (classifyExcluded : Path → Entry → Bool) : Nat × EntryStore :=
  store.reconfigureProjectionWithExclusions store.siblingOrder store.inner.visibility
    store.inner.compactFolders store.inner.fileNesting classifyExcluded

end EntryStore

end Mille
