import Mille.Binding.ReconcileKinds
import Mille.Lib.Run

/-! Runs of reconciliations in both forms, and which entries own children in every store
they reach. -/

namespace Mille

open Maps

section Walks

variable {walk : Walk}

theorem append_reported {first next : WalkReport} (left : ∀ walked ∈ first.entries, walked.Reported)
    (right : ∀ walked ∈ next.entries, walked.Reported) :
    ∀ walked ∈ (first.append next).entries, walked.Reported := by
  unfold WalkReport.append
  split
  · exact left
  · intro walked member
    exact (List.mem_append.mp member).elim (left walked) (right walked)

theorem emit_reported (dir : WalkDir) (listed : ListedChild) :
    ∀ walked ∈ (walk.emit dir listed).entries, walked.Reported := by
  unfold Walk.emit
  dsimp only
  split
  · simp [WalkReport.empty]
  · next entry shown =>
    intro walked member
    rw [List.mem_singleton.mp member]
    obtain ⟨path, parent, _⟩ := walkedEntry_fields shown
    exact .inr (parent.trans (by rw [path]))

mutual

theorem children_reported (dir : WalkDir) : ∀ names : List (DiskChild × DirRead),
    ∀ walked ∈ (walk.children dir names).entries, walked.Reported
  | [] => by simp [Walk.children, WalkReport.empty]
  | (child, read) :: rest => by
    rw [Walk.children]
    refine append_reported ?_ (children_reported dir rest)
    split
    · simp [WalkReport.empty]
    · refine append_reported (emit_reported dir _) ?_
      split
      · exact subdirectory_reported _ read
      · simp [WalkReport.empty]

theorem subdirectory_reported (dir : WalkDir) : ∀ read : DirRead,
    ∀ walked ∈ (walk.subdirectory dir read).entries, walked.Reported
  | .listed names => by
    rw [Walk.subdirectory]
    exact children_reported _ names
  | .failed failure => by
    cases failure <;> simp [Walk.subdirectory, WalkReport.empty]

end

theorem walkCore_reported (root : Path) (stat : StatRead) (read : DirRead) :
    ∀ walked ∈ (walkCore walk root stat read).entries, walked.Reported := by
  unfold walkCore
  split
  · simp
  · simp
  · next stat =>
    have own : ∀ walked ∈ (if walk.options.includeRoot then (rootEntry root stat walk.follow).toList
        else []), walked.Reported := by
      intro walked member
      split at member
      · exact .inl (rootEntry_fields (Option.mem_toList.mp member)).2.1
      · cases member
    split
    · simp
    · dsimp only
      split
      · refine append_reported own ?_
        cases read with
        | listed names => exact children_reported _ names
        | failed failure => cases failure <;> simp [Walk.root, WalkReport.empty]
      · exact own

end Walks

theorem walkBatches_prefix (batchSize : Nat) (report : WalkReport) (batch entries : List WalkedEntry) :
    (walkBatches.go batchSize report batch entries).flatten <+: batch ++ entries := by
  induction entries generalizing batch with
  | nil =>
    rw [walkBatches.go]
    split
    · simp
    · simp
  | cons entry rest ih =>
    rw [walkBatches.go]
    split
    · rw [List.flatten_cons]
      have later := ih []
      rw [List.nil_append] at later
      have whole := (List.prefix_append_right_inj (batch ++ [entry])).mpr later
      simpa using whole
    · simpa using ih (batch ++ [entry])

theorem publicationPages_prefix (ceiling target : Nat) (failed : Bool) (pending : List WalkedEntry)
    (batches : List (List WalkedEntry)) :
    (publicationPages ceiling failed pending target batches).flatten <+: pending ++ batches.flatten := by
  induction batches generalizing pending target with
  | nil =>
    rw [publicationPages]
    split
    · simp
    · simp
  | cons batch rest ih =>
    rw [publicationPages]
    split
    · rw [List.flatten_cons]
      have later := ih (min (target * 2) ceiling) []
      rw [List.nil_append] at later
      have whole := (List.prefix_append_right_inj (pending ++ batch)).mpr later
      simpa using whole
    · simpa using ih target (pending ++ batch)

theorem progressivePages_prefix (batchSize : Nat) (report : WalkReport) :
    (progressivePages batchSize report).flatten <+: report.entries := by
  have pages := publicationPages_prefix (min (batchSize * 16) 4096) batchSize report.failure.isSome []
    (walkBatches batchSize report)
  have batches := walkBatches_prefix batchSize report [] report.entries
  rw [List.nil_append] at pages batches
  exact pages.trans batches

inductive ReconcileForm where
  | oneShot (depth : Option Nat)
  | progressive (batchSize : Nat) (cancelledAfter : Option Nat)

/-- One call of `reconcile_directory` or `reconcile_directory_progressive`, with what the disk
answers while it runs. -/
structure ReconcileCall where
  config : WatchConfig
  directory : Path
  disk : Disk directory
  form : ReconcileForm

namespace EntryStore

/-- The store a call leaves behind, whether it succeeds or fails. -/
def reconcile (store : EntryStore) (call : ReconcileCall) : EntryStore :=
  match call.form with
  | .oneShot depth => (store.reconcileDirectory call.config call.directory call.disk depth).2
  | .progressive batchSize cancelledAfter =>
    (store.reconcileDirectoryProgressive call.config call.directory call.disk batchSize cancelledAfter).2

/-- A call whose listing leaves every owner a folder. -/
def Settled (store : EntryStore) (call : ReconcileCall) : Prop :=
  match call.form with
  | .oneShot depth => ∀ listing,
    readDirectory call.config call.directory call.disk depth = .ok (some listing) →
      store.Steady call.directory
        ((store.missingPaths call.directory depth ((listing.walked.mergeSort walkedOrder).map (·.path))
          listing.unread).map (·.2)) (listing.walked.mergeSort walkedOrder)
  | .progressive _ _ => ∀ matchers,
    buildReconcileMatchers call.config call.directory call.disk = .ok matchers →
      store.Steady call.directory []
        (walkCore (reconcileWalk call.config (some 1) matchers.traversal) call.directory call.disk.stat
          call.disk.read).entries

variable {start store after : EntryStore} {config : WatchConfig} {directory : Path} {disk : Disk directory}

theorem readDirectory_reported {depth : Option Nat} {listing : DiskListing}
    (done : readDirectory config directory disk depth = .ok (some listing)) :
    ∀ walked ∈ listing.walked, walked.Reported := by
  unfold readDirectory at done
  split at done
  · cases done
  · cases done
  · unfold walkForReconcile at done
    split at done
    · cases done
    · dsimp only at done
      split at done
      · cases done
      · cases done
        exact walkCore_reported directory disk.stat disk.read

theorem Steady.loop (kept : store.Kept) {cleared : List EntryId} {listing : List WalkedEntry}
    (steady : store.Steady directory cleared listing) (shrinks : store.Shrinks after)
    (gone : ∀ id ∈ cleared, after.inner.entries[id]? = none) : Loop store after listing [] listing [] where
  split := rfl
  kept := shrinks.kept kept
  quiet walked member plain entry found := by
    have known := shrinks.getByPath kept.forested found
    refine (steady.links walked member plain entry known).imp_right fun ⟨unmarked, cut⟩ => ?_
    refine ⟨fun marked => unmarked (shrinks.loaded marked), shrinks.forested.childless_iff.mpr ?_⟩
    intro child record live parent
    have before := shrinks.record child record live
    have lost := cut child ((kept.forested.linked.child_iff child entry.id).mpr
      (StoreSnapshot.parentLink_eq_some.mpr ⟨record, before, parent⟩))
    simp [gone child lost] at live
  folders walked member := by simp at member
  outside path _ entry found := shrinks.getByPath kept.forested found
  waits := by simp

theorem applyDirectory_kept (kept : store.Kept) {depth : Option Nat} (listing : DiskListing)
    (reported : ∀ walked ∈ listing.walked, walked.Reported)
    (steady : store.Steady directory ((store.missingPaths directory depth
      ((listing.walked.mergeSort walkedOrder).map (·.path)) listing.unread).map (·.2))
      (listing.walked.mergeSort walkedOrder)) :
    (store.applyDirectory config directory depth (some listing)).2.Kept := by
  obtain ⟨out, mid, cleared, shrinks, gone⟩ := removeMissings_spec kept.forested .empty
    (store.missingPaths directory depth ((listing.walked.mergeSort walkedOrder).map (·.path)) listing.unread)
    (missingPaths_indexed kept.forested)
  have loop := steady.loop kept shrinks (by
    intro id member
    obtain ⟨lost, present, rfl⟩ := List.mem_map.mp member
    exact gone lost present)
  have told : ∀ walked ∈ listing.walked.mergeSort walkedOrder, walked.Reported :=
    fun walked member => reported walked (List.mem_mergeSort.mp member)
  have order : (fun left right : WalkedEntry =>
      ((compare left.depth right.depth).then (compare left.path right.path)).isLE) = walkedOrder := rfl
  simp only [applyDirectory, order, cleared]
  cases merged : applyEach (fun store walked =>
      store.applyWalked directory listing.repositoryIgnore listing.excludes walked) mid out
      (listing.walked.mergeSort walkedOrder) with
  | mk outcome final =>
    have after := loop.applyAll steady told merged
    cases outcome with
    | error error => exact after
    | ok change =>
      dsimp only
      have marks := markDirectoriesChildrenLoaded_kept after
        (((listing.walked.mergeSort walkedOrder).filter (listingComplete directory depth listing)).filterMap
          (fun entry => (final.getByPath entry.path).map (·.id)))
      split
      · next marked => rwa [marked] at marks
      · next marked => rwa [marked] at marks

theorem publishPages_kept (kept : store.Kept) {batchSize : Nat} {cancelledAfter : Option Nat}
    (steady : ∀ matchers, buildReconcileMatchers config directory disk = .ok matchers →
      store.Steady directory [] (walkCore (reconcileWalk config (some 1) matchers.traversal) directory
        disk.stat disk.read).entries) :
    (store.publishPages config directory disk batchSize cancelledAfter).2.Kept := by
  unfold publishPages
  split
  · exact kept
  · next matchers built =>
    dsimp only
    set report := walkCore (reconcileWalk config (some 1) matchers.traversal) directory disk.stat disk.read
    have front : ∃ rest, report.entries =
        (cancelledAfter.elim (progressivePages batchSize report) (progressivePages batchSize report).take).flatten ++
          rest := by
      obtain ⟨unfilled, whole⟩ := progressivePages_prefix batchSize report
      cases cancelledAfter with
      | none => exact ⟨unfilled, whole.symm⟩
      | some count =>
        refine ⟨((progressivePages batchSize report).drop count).flatten ++ unfilled, ?_⟩
        rw [← whole, ← List.append_assoc, Option.elim_some, ← List.flatten_append, List.take_append_drop]
    obtain ⟨rest, split⟩ := front
    have stable := steady matchers built
    have loop := stable.loop kept (.refl kept.forested) (by simp)
    have opened := loop
    nth_rewrite 2 [split] at opened
    cases published : applyEach (fun store page =>
        store.applyWalkedBatch directory matchers.repositoryIgnore matchers.excludes page) store .empty
        (cancelledAfter.elim (progressivePages batchSize report) (progressivePages batchSize report).take) with
    | mk outcome after =>
      have final := opened.applyPages stable (walkCore_reported directory disk.stat disk.read) published
      cases outcome with
      | error error => exact final
      | ok out =>
        dsimp only
        split
        · exact final
        · exact final
        · exact final

theorem finishListing_kept (kept : store.Kept) (out : ReconcileOutcome) (diskPaths : List Path) :
    (store.finishListing directory out diskPaths).2.Kept := by
  obtain ⟨change, after, cleared, shrinks, _⟩ := removeMissings_spec kept.forested out
    (store.missingPaths directory (some 1) diskPaths []) (missingPaths_indexed kept.forested)
  have final := shrinks.kept kept
  simp only [finishListing, cleared]
  split
  · exact final
  · next root _ =>
    have marks := markDirectoriesChildrenLoaded_kept final [root.id]
    split
    · next marked =>
      simp only [markDirectoryChildrenLoaded, Prod.mk.injEq] at marked
      rwa [marked.2] at marks
    · next marked =>
      simp only [markDirectoryChildrenLoaded, Prod.mk.injEq] at marked
      rwa [marked.2] at marks

theorem reconcile_kept (kept : store.Kept) (call : ReconcileCall) (settled : store.Settled call) :
    (store.reconcile call).Kept := by
  obtain ⟨config, directory, disk, form⟩ := call
  cases form with
  | oneShot depth =>
    simp only [Settled] at settled
    simp only [reconcile, reconcileDirectory]
    split
    · exact kept
    · next listing read =>
      cases listing with
      | none => exact forgetDirectory_kept kept config directory
      | some listing => exact applyDirectory_kept kept listing (readDirectory_reported read) (settled listing read)
  | progressive batchSize cancelledAfter =>
    simp only [Settled] at settled
    simp only [reconcile, reconcileDirectoryProgressive]
    split
    · exact kept
    · next gone =>
      simp only [reconcileDirectory, readDirectory, gone, applyDirectory]
      exact forgetDirectory_kept kept config directory
    · have pages := @publishPages_kept _ _ _ disk kept batchSize cancelledAfter settled
      split
      · next published => rwa [published] at pages
      · next out diskPaths next published =>
        rw [published] at pages
        exact finishListing_kept pages out diskPaths

/-- Along every run of settled reconciliations only folders own children or a loaded mark. -/
theorem reconciled_owners_are_folders (kept : start.Kept) (run : Run reconcile Settled start store) :
    ∀ path entry, store.getByPath path = some entry →
      store.inner.childrenOf entry.id ≠ [] ∨ entry.id ∈ store.inner.loadedDirectories →
        entry.isFolder = true := by
  have final := run.invariant Kept kept fun _ call before settled => reconcile_kept before call settled
  intro path entry found owns
  by_contra plain
  have bare := final.owned entry.id entry (final.forested.getByPath_eq_some.mp found).1 (by simpa using plain)
  rcases owns with children | marked
  · exact children bare.2
  · exact bare.1 marked

/-- A file as the OS describes it. -/
def sampleMetadata (fileType : FileType) : Metadata :=
  ⟨fileType, 0, 0, 0, false⟩

/-- A file `f` below a directory, or below a link to one. -/
def sampleDisk (directory : Path) (linked : Bool) : Disk directory where
  stat := .ok (if linked then ⟨sampleMetadata .symlink, some (sampleMetadata .dir), none, fun _ => rfl⟩
    else ⟨sampleMetadata .dir, none, none, by simp⟩)
  read := .listed [(⟨.utf8 "f", .file, some (sampleMetadata .file), some (sampleMetadata .file), none,
    none, by simp⟩, .failed .io)]
  ignoreFiles _ := .ok []
  distinct children read := by
    cases read
    simp
  own_ignoreFiles children files read answered := by
    cases read
    cases answered
    simp [readIgnoreFiles, ignoreFileNames]

/-- No ignore rules, no excludes, links not followed. -/
def sampleConfig : WatchConfig :=
  ⟨[Path.ofNames ["r"]], false, [], .never, ⟨fun _ _ => none, fun _ _ => none⟩⟩

/-- The directory `r` with one name `d`: a link to a directory, or a file. -/
def linkDisk (linked : Bool) : Disk (Path.ofNames ["r"]) where
  stat := .ok ⟨sampleMetadata .dir, none, none, by simp⟩
  read := .listed [(if linked then
      ⟨.utf8 "d", .symlink, some (sampleMetadata .symlink), some (sampleMetadata .dir), none, none, by simp⟩
    else ⟨.utf8 "d", .file, some (sampleMetadata .file), some (sampleMetadata .file), none, none, by simp⟩,
    .failed .io)]
  ignoreFiles _ := .ok []
  distinct children read := by
    cases read
    simp
  own_ignoreFiles children files read answered := by
    cases read
    cases answered
    cases linked <;> simp [readIgnoreFiles, ignoreFileNames]

theorem collectBatch_forested {repositoryIgnore excludes : Option IgnoreMatcher} {out : ReconcileOutcome}
    {additions : List (Path × Entry)} (forested : store.Forested) (page : List WalkedEntry) :
    (collectBatch directory repositoryIgnore excludes store out additions page).2.Forested := by
  induction page generalizing store out additions with
  | nil => exact forested
  | cons walked rest ih =>
    rw [collectBatch]
    dsimp only
    split
    · next existing _ =>
      split
      · exact ih (removeSubtree_forested forested existing.id)
      · have updated := update_forested forested existing.id (entryFromWalked walked
          (store.resolveParent directory walked) repositoryIgnore excludes)
        split
        · next failed => rwa [failed] at updated
        · next done =>
          rw [done] at updated
          exact ih updated
    · exact ih forested

theorem applyWalkedBatch_forested {repositoryIgnore excludes : Option IgnoreMatcher} (forested : store.Forested)
    (page : List WalkedEntry) :
    (store.applyWalkedBatch directory repositoryIgnore excludes page).2.Forested := by
  have collected := @collectBatch_forested store directory repositoryIgnore excludes .empty [] forested page
  unfold applyWalkedBatch
  split
  · next failed => rwa [failed] at collected
  · next additions next done =>
    rw [done] at collected
    have inserted := insertBatch_forested collected additions
    split
    · next failed => rwa [failed] at inserted
    · next done => rwa [done] at inserted

theorem publishPages_forested (forested : store.Forested) (batchSize : Nat) (cancelledAfter : Option Nat) :
    (store.publishPages config directory disk batchSize cancelledAfter).2.Forested := by
  have every (matchers : ReconcileMatchers) (pages : List (List WalkedEntry)) (out : ReconcileOutcome) :
      (applyEach (fun store page => store.applyWalkedBatch directory matchers.repositoryIgnore
        matchers.excludes page) store out pages).2.Forested := by
    induction pages generalizing store out with
    | nil => exact forested
    | cons page rest ih =>
      have next := @applyWalkedBatch_forested store directory matchers.repositoryIgnore matchers.excludes
        forested page
      rw [applyEach]
      split
      · next failed => rwa [failed] at next
      · next done =>
        rw [done] at next
        exact ih next _
  unfold publishPages
  split
  · exact forested
  · next matchers _ =>
    dsimp only
    have pages := every matchers (cancelledAfter.elim
      (progressivePages batchSize (walkCore (reconcileWalk config (some 1) matchers.traversal) directory
        disk.stat disk.read))
      (progressivePages batchSize (walkCore (reconcileWalk config (some 1) matchers.traversal) directory
        disk.stat disk.read)).take) .empty
    split
    · next failed => rwa [failed] at pages
    · next done =>
      rw [done] at pages
      split
      · exact pages
      · exact pages
      · exact pages

theorem missingPaths_nil {diskPaths : List Path} (indexed : (store.pathToId[directory]?).isSome = true)
    (known : ∀ binding ∈ store.idToPath.toList, inDepth directory binding.2 (some 1) = true →
      binding.2 ∈ diskPaths) : store.missingPaths directory (some 1) diskPaths [] = [] := by
  obtain ⟨rootId, root⟩ := Option.isSome_iff_exists.mp indexed
  have nothing : (store.pathsUnder directory).filter (fun known =>
      inDepth directory known.1 (some 1) && known.1 ∉ diskPaths &&
        !([] : List (Path × ReadFailure)).any (fun dir => known.1.startsWith dir.1)) = [] := by
    refine List.filter_eq_nil_iff.mpr fun lost member => ?_
    simp only [pathsUnder, root] at member
    obtain ⟨id, _, found⟩ := List.mem_filterMap.mp member
    obtain ⟨path, here, rfl⟩ := Option.map_eq_some_iff.mp found
    have listed := known (id, path) (Std.ExtTreeMap.mem_toList_iff_getElem?_eq_some.mpr here)
    simp only [Bool.and_eq_true, decide_eq_true_eq, not_and, Bool.not_eq_true]
    exact fun reach => absurd (listed reach.1) reach.2
  rw [missingPaths, nothing]
  exact List.mergeSort_nil

theorem reconcile_listed {batchSize rootId : Nat} {diskPaths : List Path}
    (there : probeExists directory disk.stat = .ok true)
    (paths : (store.publishPages config directory disk batchSize none).1.toOption.map (·.2) = some diskPaths)
    (indexed : (store.publishPages config directory disk batchSize none).2.pathToId[directory]? = some rootId)
    (root : ((store.publishPages config directory disk batchSize none).2.getByPath directory).map (·.id) =
      some rootId)
    (known : ∀ binding ∈ (store.publishPages config directory disk batchSize none).2.idToPath.toList,
      inDepth directory binding.2 (some 1) = true → binding.2 ∈ diskPaths) :
    store.reconcile ⟨config, directory, disk, .progressive batchSize none⟩ =
      ((store.publishPages config directory disk batchSize none).2.markDirectoryChildrenLoaded rootId).2 := by
  simp only [reconcile, reconcileDirectoryProgressive, there]
  cases published : store.publishPages config directory disk batchSize none with
  | mk result after =>
    rw [published] at paths indexed root known
    cases result with
    | error error => cases paths
    | ok found =>
      cases paths
      have nothing := missingPaths_nil (by rw [indexed]; rfl) known
      obtain ⟨entry, present, same⟩ := Option.map_eq_some_iff.mp root
      dsimp only
      simp only [finishListing, nothing, applyEach, present, same]
      cases marked : after.markDirectoryChildrenLoaded rootId with
      | mk result final => cases result <;> rfl

/-- The folder, the link by its own path, and the folder again once the link is a file. -/
def linkCalls : List ReconcileCall :=
  [⟨sampleConfig, Path.ofNames ["r"], linkDisk true, .progressive 1 none⟩,
    ⟨sampleConfig, Path.ofNames ["r", "d"], sampleDisk (Path.ofNames ["r", "d"]) true, .progressive 1 none⟩,
    ⟨sampleConfig, Path.ofNames ["r"], linkDisk false, .progressive 1 none⟩]

def linkListed : EntryStore :=
  ((new.publishPages sampleConfig (Path.ofNames ["r"]) (linkDisk true) 1 none).2.markDirectoryChildrenLoaded 0).2

def linkOpened : EntryStore :=
  ((linkListed.publishPages sampleConfig (Path.ofNames ["r", "d"]) (sampleDisk (Path.ofNames ["r", "d"]) true)
    1 none).2.markDirectoryChildrenLoaded 1).2

def linkReplaced : EntryStore :=
  ((linkOpened.publishPages sampleConfig (Path.ofNames ["r"]) (linkDisk false) 1 none).2.markDirectoryChildrenLoaded
    0).2

theorem linkCalls_run :
    new.reconcile ⟨sampleConfig, Path.ofNames ["r"], linkDisk true, .progressive 1 none⟩ = linkListed ∧
    linkCalls.foldl reconcile new = linkReplaced := by
  have first : new.reconcile ⟨sampleConfig, Path.ofNames ["r"], linkDisk true, .progressive 1 none⟩ =
      linkListed :=
    @reconcile_listed _ _ _ _ 1 0 [Path.ofNames ["r"], Path.ofNames ["r", "d"]] rfl (by decide +kernel)
      (by decide +kernel) (by decide +kernel) (by decide +kernel)
  have second : linkListed.reconcile ⟨sampleConfig, Path.ofNames ["r", "d"],
      sampleDisk (Path.ofNames ["r", "d"]) true, .progressive 1 none⟩ = linkOpened :=
    @reconcile_listed _ _ _ _ 1 1 [Path.ofNames ["r", "d"], Path.ofNames ["r", "d", "f"]] rfl (by decide +kernel)
      (by decide +kernel) (by decide +kernel) (by decide +kernel)
  have third : linkOpened.reconcile ⟨sampleConfig, Path.ofNames ["r"], linkDisk false, .progressive 1 none⟩ =
      linkReplaced :=
    @reconcile_listed _ _ _ _ 1 0 [Path.ofNames ["r"], Path.ofNames ["r", "d"]] rfl (by decide +kernel)
      (by decide +kernel) (by decide +kernel) (by decide +kernel)
  simp only [linkCalls, List.foldl_cons, List.foldl_nil, first, second, third, and_self]

/-- What the first call walks, and what it and all three leave. -/
theorem linkCalls_leave :
    ((walkCore (reconcileWalk sampleConfig (some 1) none) (Path.ofNames ["r"]) (linkDisk true).stat
      (linkDisk true).read).entries.map fun walked => (walked.path, walked.parentPath, walked.directoryLike)) =
        [(Path.ofNames ["r"], none, true), (Path.ofNames ["r", "d"], some (Path.ofNames ["r"]), true)] ∧
    ((linkListed.getByPath (Path.ofNames ["r"])).map (·.id) = some 0 ∧
      0 ∈ linkListed.inner.loadedDirectories) ∧
    (linkReplaced.getByPath (Path.ofNames ["r", "d"])).map (fun entry => (entry.id, entry.isFolder)) =
        some (1, false) ∧
      linkReplaced.inner.parentLink 2 = some (some 1) ∧ 1 ∈ linkReplaced.inner.loadedDirectories := by
  decide +kernel

theorem linkListed_settled :
    new.Settled ⟨sampleConfig, Path.ofNames ["r"], linkDisk true, .progressive 1 none⟩ := by
  intro matchers built
  cases built
  have unknown (path : Path) (entry : Entry) : new.getByPath path ≠ some entry := by
    simp [getByPath, new, withProjectionSettings]
  obtain ⟨root, more, listed, top, fields⟩ := List.map_eq_cons_iff.mp linkCalls_leave.1
  obtain ⟨child, none, rfl, low, fields⟩ := List.map_eq_cons_iff.mp fields
  cases List.map_eq_nil_iff.mp fields
  simp only [Prod.mk.injEq] at top low
  dsimp only
  rw [listed]
  refine ⟨?_, fun walked _ _ entry found => absurd found (unknown _ entry), ?_⟩
  · simp [top.1, low.1, Path.ofNames]
  · intro before walked rest split above below
    cases before with
    | nil =>
      cases split
      simp only [hangsAt, top.2.1, top.1, if_true] at below
      refine .inr ⟨?_, fun entry found => absurd found (unknown _ entry)⟩
      have nowhere : above = [] := by simpa [Path.parent, Path.ofNames] using below
      simp [nowhere, top.1, low.1, Path.ofNames]
    | cons first before =>
      cases before with
      | nil =>
        cases split
        refine .inl ⟨root, by simp, ?_, top.2.2⟩
        have own : above = Path.ofNames ["r"] := by
          simpa [hangsAt, low.1, low.2.1, Path.ofNames, eq_comm] using below
        rw [own, top.1]
      | cons second before =>
        have lengths := congrArg List.length split
        simp at lengths

theorem reconciled_owners_link_listed :
    ∃ entry, linkListed.getByPath (Path.ofNames ["r"]) = some entry ∧
      entry.id ∈ linkListed.inner.loadedDirectories ∧ entry.isFolder = true := by
  have run : Run reconcile Settled new linkListed := by
    rw [← linkCalls_run.1]
    exact Run.start.step _ linkListed_settled
  obtain ⟨shown, loaded⟩ := linkCalls_leave.2.1
  obtain ⟨entry, found, own⟩ := Option.map_eq_some_iff.mp shown
  have marked : entry.id ∈ linkListed.inner.loadedDirectories := by
    rw [own]
    exact loaded
  exact ⟨entry, found, marked, reconciled_owners_are_folders new_kept run _ entry found (.inr marked)⟩

theorem linkReplaced_forested : linkReplaced.Forested := by
  have listed : linkListed.Forested :=
    markDirectoriesChildrenLoaded_forested (publishPages_forested new_forested 1 none) [0]
  have opened : linkOpened.Forested :=
    markDirectoriesChildrenLoaded_forested (publishPages_forested listed 1 none) [1]
  exact markDirectoriesChildrenLoaded_forested (publishPages_forested opened 1 none) [0]

/-- A link to a directory that was listed and is a file now keeps its children and its mark. -/
theorem replaced_link_keeps_children :
    ∃ entry, (linkCalls.foldl reconcile new).getByPath (Path.ofNames ["r", "d"]) = some entry ∧
      entry.isFolder = false ∧ (linkCalls.foldl reconcile new).inner.childrenOf entry.id ≠ [] ∧
      entry.id ∈ (linkCalls.foldl reconcile new).inner.loadedDirectories := by
  rw [linkCalls_run.2]
  obtain ⟨shown, child, loaded⟩ := linkCalls_leave.2.2
  obtain ⟨entry, found, same⟩ := Option.map_eq_some_iff.mp shown
  obtain ⟨own, plain⟩ := Prod.mk.inj same
  refine ⟨entry, found, plain, ?_, ?_⟩
  · rw [own]
    exact List.ne_nil_of_mem ((linkReplaced_forested.linked.child_iff 2 1).mpr child)
  · rw [own]
    exact loaded

end EntryStore

end Mille
