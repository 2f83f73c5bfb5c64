import Mille.Lib.Maps
import Mille.Lib.Path
import Mille.Lib.SortDistinct

/-! Replay of a volume's change journal: raw records become the paths that changed
under a root, or the verdict that the root must be walked whole. -/

namespace Mille.Watch

open Std

namespace EventFlag

def mustScanSubDirs : BitVec 32 := 0x00000001
def eventIdsWrapped : BitVec 32 := 0x00000008
def rootChanged : BitVec 32 := 0x00000020
def mount : BitVec 32 := 0x00000040
def unmount : BitVec 32 := 0x00000080
def itemCreated : BitVec 32 := 0x00000100
def itemRemoved : BitVec 32 := 0x00000200
def itemInodeMetaMod : BitVec 32 := 0x00000400
def itemRenamed : BitVec 32 := 0x00000800
def itemModified : BitVec 32 := 0x00001000
def itemFinderInfoMod : BitVec 32 := 0x00002000
def itemChangeOwner : BitVec 32 := 0x00004000
def itemXattrMod : BitVec 32 := 0x00008000
def itemIsFile : BitVec 32 := 0x00010000
def itemIsDir : BitVec 32 := 0x00020000
def itemIsSymlink : BitVec 32 := 0x00040000

/-- `flag & mask != 0`. -/
def carries (flag mask : BitVec 32) : Bool :=
  flag &&& mask != 0

end EventFlag

open EventFlag

/-- What may have happened to a path, not in which order. -/
structure HistoryFlags where
  created : Bool
  removed : Bool
  renamed : Bool
  modified : Bool
  metadata : Bool
  isFile : Bool
  isDir : Bool
  isSymlink : Bool
  deriving DecidableEq

namespace HistoryFlags

def empty : HistoryFlags := ⟨false, false, false, false, false, false, false, false⟩

def union (first second : HistoryFlags) : HistoryFlags where
  created := first.created || second.created
  removed := first.removed || second.removed
  renamed := first.renamed || second.renamed
  modified := first.modified || second.modified
  metadata := first.metadata || second.metadata
  isFile := first.isFile || second.isFile
  isDir := first.isDir || second.isDir
  isSymlink := first.isSymlink || second.isSymlink

/-- What one record's flags say. -/
def ofRecord (flag : BitVec 32) : HistoryFlags where
  created := carries flag itemCreated
  removed := carries flag itemRemoved
  renamed := carries flag itemRenamed
  modified := carries flag itemModified
  metadata := carries flag (itemInodeMetaMod ||| itemFinderInfoMod ||| itemChangeOwner ||| itemXattrMod)
  isFile := carries flag itemIsFile
  isDir := carries flag itemIsDir
  isSymlink := carries flag itemIsSymlink

theorem union_comm (first second : HistoryFlags) : first.union second = second.union first := by
  simp only [union, Bool.or_comm]

theorem union_assoc (first second third : HistoryFlags) :
    (first.union second).union third = first.union (second.union third) := by
  simp only [union, Bool.or_assoc]

/-- Everything the records of a list say together. -/
def unionAll (flags : List (BitVec 32)) : HistoryFlags :=
  flags.foldl (fun all flag => all.union (ofRecord flag)) empty

end HistoryFlags

/-- A raw journal record. -/
structure Record where
  path : Path
  flag : BitVec 32
  id : Nat

structure HistoryEvent where
  path : Path
  lastId : Nat
  flags : HistoryFlags
  deriving DecidableEq

/-- The records of a path merged: the last id and everything the flags say. -/
def HistoryEvent.absorb (event : HistoryEvent) (flag : BitVec 32) (id : Nat) : HistoryEvent :=
  { event with lastId := max event.lastId id, flags := event.flags.union (.ofRecord flag) }

inductive RescanReason where
  | idsWrapped
  | rootChanged
  | historyIncomplete
  deriving DecidableEq

structure HistoryChanges where
  changed : List HistoryEvent
  rescanSubtrees : List Path
  records : Nat
  deriving DecidableEq

inductive Replay where
  | changes (changes : HistoryChanges)
  | rescan (reason : RescanReason)
  deriving DecidableEq

/-- The directories whose listings changed. -/
def HistoryChanges.dirsToRescan (changes : HistoryChanges) (root : Path) : List Path :=
  sortDistinct (changes.changed.map fun event =>
    match event.path.parent with
    | some parent => if event.path ≠ root && parent.startsWith root then parent else root
    | none => root)

/-- A path under the canonical root as the caller names it. -/
def under (canonicalRoot root path : Path) : Option Path :=
  (path.stripPrefix canonicalRoot).map fun rel => if rel = [] then root else root ++ rel

/-- The journal lost what happened at the record's path and below. -/
def Record.lost (record : Record) : Bool :=
  carries record.flag (mustScanSubDirs ||| mount ||| unmount)

/-- What the loop gathers: merged events by path, and the subtrees to walk whole. -/
structure Gathered where
  merged : ExtTreeMap Path HistoryEvent
  subtrees : List Path

def Gathered.empty : Gathered := ⟨∅, []⟩

def gather (canonicalRoot root : Path) (gathered : Gathered) (record : Record) :
    Except RescanReason Gathered :=
  if carries record.flag eventIdsWrapped then .error .idsWrapped
  else if carries record.flag rootChanged then .error .rootChanged
  -- At or above the root: nothing below it can be trusted.
  else if record.lost && canonicalRoot.startsWith record.path then .error .historyIncomplete
  else match under canonicalRoot root record.path with
    | none => .ok gathered
    | some path =>
      if record.lost then .ok { gathered with subtrees := gathered.subtrees ++ [path] }
      else .ok { gathered with
        merged := gathered.merged.alter path fun known =>
          some ((known.getD ⟨path, record.id, .empty⟩).absorb record.flag record.id) }

def interpret (records : List Record) (canonicalRoot root : Path) : Replay :=
  match records.foldlM (gather canonicalRoot root) Gathered.empty with
  | .error reason => .rescan reason
  | .ok gathered =>
    let subtrees := sortDistinct gathered.subtrees
    .changes {
      changed := (gathered.merged.toList.map (·.2)).filter fun event =>
        !subtrees.any fun subtree => event.path.startsWith subtree
      rescanSubtrees := subtrees
      records := records.length }

/-! ### What the loop gathers -/

/-- The record is one that makes the journal useless for the root. -/
def Record.fatal (record : Record) (canonicalRoot : Path) : Bool :=
  carries record.flag eventIdsWrapped || carries record.flag rootChanged ||
    (record.lost && canonicalRoot.startsWith record.path)

/-- The record names that path under the caller's root, and what happened to it. -/
def Record.names (record : Record) (canonicalRoot root path : Path) : Bool :=
  !record.lost && under canonicalRoot root record.path = some path

/-- The records of one path. -/
def about (canonicalRoot root : Path) (records : List Record) (path : Path) : List Record :=
  records.filter fun record => record.names canonicalRoot root path

/-- The subtrees whose history was lost. -/
def lostSubtrees (canonicalRoot root : Path) (records : List Record) : List Path :=
  records.filterMap fun record => if record.lost then under canonicalRoot root record.path else none

/-- An event says what the records of its path say together. -/
structure Sums (canonicalRoot root : Path) (records : List Record) (event : HistoryEvent) : Prop where
  flags : event.flags = .unionAll ((about canonicalRoot root records event.path).map (·.flag))
  lastId : IsGreatest {id | ∃ record ∈ about canonicalRoot root records event.path, record.id = id}
    event.lastId

/-- The gathered state after some records, none of them fatal. -/
structure Gathers (canonicalRoot root : Path) (records : List Record) (gathered : Gathered) : Prop where
  subtrees : gathered.subtrees = lostSubtrees canonicalRoot root records
  absent : ∀ path, gathered.merged[path]? = none → about canonicalRoot root records path = []
  present : ∀ path event, gathered.merged[path]? = some event →
    event.path = path ∧ Sums canonicalRoot root records event

variable {canonicalRoot root : Path} {records : List Record}

theorem HistoryFlags.unionAll_snoc (flags : List (BitVec 32)) (flag : BitVec 32) :
    unionAll (flags ++ [flag]) = (unionAll flags).union (ofRecord flag) := by
  simp [unionAll]

theorem HistoryFlags.unionAll_perm {first second : List (BitVec 32)} (perm : first.Perm second) :
    unionAll first = unionAll second := by
  apply perm.foldl_eq'
  intro one _ two _ all
  rw [union_assoc, union_assoc, union_comm (ofRecord one)]

theorem about_snoc (record : Record) (path : Path) :
    about canonicalRoot root (records ++ [record]) path =
      about canonicalRoot root records path ++
        if record.names canonicalRoot root path then [record] else [] := by
  rw [about, List.filter_append, List.filter_singleton, Bool.cond_eq_ite]
  rfl

theorem gathers_nil : Gathers canonicalRoot root [] Gathered.empty where
  subtrees := rfl
  absent := fun _ _ => rfl
  present := fun path event found => by simp [Gathered.empty] at found

theorem Sums.snoc_other {event : HistoryEvent} {record : Record}
    (sums : Sums canonicalRoot root records event)
    (other : record.names canonicalRoot root event.path = false) :
    Sums canonicalRoot root (records ++ [record]) event := by
  have same : about canonicalRoot root (records ++ [record]) event.path =
      about canonicalRoot root records event.path := by
    rw [about_snoc, other]
    simp
  exact ⟨same ▸ sums.flags, same ▸ sums.lastId⟩

theorem Sums.first {record : Record} {path : Path} (named : record.names canonicalRoot root path = true)
    (none_yet : about canonicalRoot root records path = []) :
    Sums canonicalRoot root (records ++ [record])
      ((⟨path, record.id, .empty⟩ : HistoryEvent).absorb record.flag record.id) := by
  have only : about canonicalRoot root (records ++ [record]) path = [record] := by
    rw [about_snoc, none_yet, named]
    rfl
  constructor
  · simp [HistoryEvent.absorb, only, HistoryFlags.unionAll]
  · simp [HistoryEvent.absorb, only, IsGreatest, upperBounds]

theorem Sums.absorb {record : Record} {event : HistoryEvent}
    (sums : Sums canonicalRoot root records event)
    (named : record.names canonicalRoot root event.path = true) :
    Sums canonicalRoot root (records ++ [record]) (event.absorb record.flag record.id) := by
  have more : about canonicalRoot root (records ++ [record]) event.path =
      about canonicalRoot root records event.path ++ [record] := by
    rw [about_snoc, named]
    rfl
  obtain ⟨⟨last, isOne, same⟩, bounds⟩ := sums.lastId
  constructor
  · simp only [HistoryEvent.absorb, more, List.map_append, List.map_singleton]
    rw [HistoryFlags.unionAll_snoc, ← sums.flags]
  · simp only [HistoryEvent.absorb, more]
    constructor
    · rcases max_choice event.lastId record.id with old | new
      · exact ⟨last, List.mem_append_left _ isOne, same.trans old.symm⟩
      · exact ⟨record, by simp, new.symm⟩
    · rintro id ⟨found, member, rfl⟩
      rcases List.mem_append.mp member with old | new
      · exact (bounds ⟨found, old, rfl⟩).trans (le_max_left _ _)
      · exact (List.mem_singleton.mp new) ▸ le_max_right _ _

theorem gather_fatal {record : Record} (gathered : Gathered) (fatal : record.fatal canonicalRoot = true) :
    ∃ reason, gather canonicalRoot root gathered record = .error reason := by
  unfold gather
  cases wrapped : carries record.flag eventIdsWrapped with
  | true => exact ⟨.idsWrapped, rfl⟩
  | false =>
    cases changed : carries record.flag EventFlag.rootChanged with
    | true => exact ⟨.rootChanged, rfl⟩
    | false =>
      rw [Record.fatal, wrapped, changed, Bool.false_or, Bool.false_or] at fatal
      exact ⟨.historyIncomplete, by rw [fatal]; rfl⟩

theorem Gathers.step {gathered : Gathered} {record : Record}
    (gathers : Gathers canonicalRoot root records gathered) (mild : record.fatal canonicalRoot = false) :
    ∃ after, gather canonicalRoot root gathered record = .ok after ∧
      Gathers canonicalRoot root (records ++ [record]) after := by
  simp only [Record.fatal, Bool.or_eq_false_iff] at mild
  unfold gather
  rw [mild.1.1, mild.1.2, mild.2]
  simp only [Bool.false_eq_true, if_false]
  have subtrees : lostSubtrees canonicalRoot root (records ++ [record]) =
      gathered.subtrees ++
        (if record.lost then under canonicalRoot root record.path else none).toList := by
    rw [gathers.subtrees, lostSubtrees, List.filterMap_append, List.filterMap_cons, List.filterMap_nil]
    cases (if record.lost then under canonicalRoot root record.path else none) <;>
      simp [lostSubtrees]
  cases named : under canonicalRoot root record.path with
  | none =>
    have elsewhere : ∀ path, record.names canonicalRoot root path = false := by
      intro path
      simp [Record.names, named]
    refine ⟨gathered, rfl, ?_, ?_, ?_⟩
    · rw [subtrees, named, ite_self, Option.toList_none, List.append_nil]
    · intro path missing
      rw [about_snoc, elsewhere, gathers.absent path missing]
      rfl
    · intro path event found
      obtain ⟨itself, sums⟩ := gathers.present path event found
      exact ⟨itself, sums.snoc_other (elsewhere _)⟩
  | some path =>
    cases lost : record.lost with
    | true =>
      have unnamed : ∀ other, record.names canonicalRoot root other = false := by
        intro other
        simp [Record.names, lost]
      refine ⟨_, rfl, ?_, ?_, ?_⟩
      · rw [subtrees, named, lost]
        rfl
      · intro other missing
        rw [about_snoc, unnamed, gathers.absent other missing]
        rfl
      · intro other event found
        obtain ⟨itself, sums⟩ := gathers.present other event found
        exact ⟨itself, sums.snoc_other (unnamed _)⟩
    | false =>
      have here : record.names canonicalRoot root path = true := by simp [Record.names, lost, named]
      have elsewhere : ∀ other, path ≠ other → record.names canonicalRoot root other = false := by
        intro other apart
        simp [Record.names, lost, named, apart]
      refine ⟨_, rfl, ?_, ?_, ?_⟩
      · rw [subtrees, lost]
        exact (List.append_nil _).symm
      · intro other missing
        rw [Maps.lookup_alter] at missing
        split_ifs at missing with same
        rw [about_snoc, elsewhere other same, gathers.absent other missing]
        rfl
      · intro other event found
        rw [Maps.lookup_alter] at found
        split_ifs at found with same
        · subst same
          have merged := Option.some.inj found
          cases known : gathered.merged[path]? with
          | none =>
            rw [known] at merged
            rw [← merged]
            exact ⟨rfl, Sums.first here (gathers.absent path known)⟩
          | some before =>
            rw [known] at merged
            obtain ⟨itself, sums⟩ := gathers.present path before known
            rw [← merged]
            exact ⟨itself, sums.absorb (itself ▸ here)⟩
        · obtain ⟨itself, sums⟩ := gathers.present other event found
          refine ⟨itself, sums.snoc_other (elsewhere _ ?_)⟩
          rw [itself]
          exact same

/-- The loop gives up at a fatal record, and otherwise gathers what the records say. -/
theorem gather_run (canonicalRoot root : Path) (records : List Record) :
    (∃ record ∈ records, record.fatal canonicalRoot = true) ∧
        (∃ reason, records.foldlM (gather canonicalRoot root) Gathered.empty = .error reason) ∨
      (∀ record ∈ records, record.fatal canonicalRoot = false) ∧
        ∃ gathered, records.foldlM (gather canonicalRoot root) Gathered.empty = .ok gathered ∧
          Gathers canonicalRoot root records gathered := by
  induction records using List.reverseRecOn with
  | nil => exact .inr ⟨by simp, Gathered.empty, rfl, gathers_nil⟩
  | append_singleton records record ih =>
    rw [List.foldlM_append]
    rcases ih with ⟨⟨bad, member, fatal⟩, reason, stops⟩ | ⟨mild, gathered, runs, gathers⟩
    · refine .inl ⟨⟨bad, List.mem_append_left _ member, fatal⟩, reason, ?_⟩
      rw [stops]
      rfl
    · rw [runs]
      cases fatal : record.fatal canonicalRoot with
      | true =>
        obtain ⟨reason, stops⟩ := @gather_fatal canonicalRoot root record gathered fatal
        refine .inl ⟨⟨record, by simp, fatal⟩, reason, ?_⟩
        change (List.foldlM (gather canonicalRoot root) gathered [record]) = _
        rw [List.foldlM_cons, stops]
        rfl
      | false =>
        obtain ⟨after, runs, gathers⟩ := gathers.step fatal
        refine .inr ⟨?_, after, ?_, gathers⟩
        · intro other member
          rcases List.mem_append.mp member with old | new
          · exact mild other old
          · exact (List.mem_singleton.mp new) ▸ fatal
        · change (List.foldlM (gather canonicalRoot root) gathered [record]) = _
          rw [List.foldlM_cons, runs]
          rfl

/-! ### What is reported -/

/-- What the changes promise of the records they were read from. -/
structure Interprets (canonicalRoot root : Path) (records : List Record) (changes : HistoryChanges) :
    Prop where
  count : changes.records = records.length
  inside : ∀ event ∈ changes.changed, event.path.startsWith root = true
  subtreesInside : ∀ subtree ∈ changes.rescanSubtrees, subtree.startsWith root = true
  sorted : Ascending (changes.changed.map (·.path))
  subtreesSorted : Ascending changes.rescanSubtrees
  sums : ∀ event ∈ changes.changed, Sums canonicalRoot root records event
  subtrees : ∀ path, path ∈ changes.rescanSubtrees ↔
    ∃ record ∈ records, record.lost = true ∧ under canonicalRoot root record.path = some path
  /-- No record that kept its history falls out. -/
  kept : ∀ record ∈ records, ∀ path, record.names canonicalRoot root path = true →
    path ∈ changes.changed.map (·.path) ∨
      ∃ subtree ∈ changes.rescanSubtrees, path.startsWith subtree = true
  /-- Where no subtree covers it, the directory that lists it is listed again. -/
  listed : ∀ record ∈ records, ∀ path, record.names canonicalRoot root path = true →
    (¬∃ subtree ∈ changes.rescanSubtrees, path.startsWith subtree = true) →
      (path = root → root ∈ changes.dirsToRescan root) ∧
        (path ≠ root → ∃ parent, path.parent = some parent ∧ parent ∈ changes.dirsToRescan root)

theorem under_startsWith {path mapped : Path} (mapping : under canonicalRoot root path = some mapped) :
    mapped.startsWith root = true := by
  obtain ⟨rel, _, rfl⟩ := Option.map_eq_some_iff.mp mapping
  split_ifs
  · exact Path.startsWith_self root
  · exact Path.startsWith_append root rel

theorem mem_about {record : Record} {path : Path} :
    record ∈ about canonicalRoot root records path ↔
      record ∈ records ∧ record.names canonicalRoot root path = true :=
  List.mem_filter

theorem names_under {record : Record} {path : Path}
    (named : record.names canonicalRoot root path = true) :
    under canonicalRoot root record.path = some path := by
  simpa using (Bool.and_eq_true_iff.mp named).2

theorem parent_below {path : Path} (inside : path.startsWith root = true) (below : path ≠ root) :
    ∃ parent, path.parent = some parent ∧ parent.startsWith root = true := by
  obtain ⟨rest, rfl⟩ := Path.startsWith_exists.mp inside
  have more : rest ≠ [] := by
    intro empty
    exact below (by rw [empty, List.append_nil])
  refine ⟨root ++ rest.dropLast, ?_, Path.startsWith_append _ _⟩
  rw [Path.parent, if_neg (by simp [more]), List.dropLast_append_of_ne_nil more]

theorem mem_dirsToRescan {changes : HistoryChanges} {event : HistoryEvent}
    (member : event ∈ changes.changed) (inside : event.path.startsWith root = true) :
    (event.path = root → root ∈ changes.dirsToRescan root) ∧
      (event.path ≠ root →
        ∃ parent, event.path.parent = some parent ∧ parent ∈ changes.dirsToRescan root) := by
  constructor
  · intro isRoot
    apply mem_sortDistinct.mpr
    apply List.mem_map.mpr
    refine ⟨event, member, ?_⟩
    cases event.path.parent <;> simp [isRoot]
  · intro below
    obtain ⟨parent, above, within⟩ := parent_below inside below
    refine ⟨parent, above, mem_sortDistinct.mpr (List.mem_map.mpr ⟨event, member, ?_⟩)⟩
    simp [above, below, within]

/-- The changes that a gathered state is reported as. -/
def Gathered.changes (gathered : Gathered) (count : Nat) : HistoryChanges where
  changed := (gathered.merged.toList.map (·.2)).filter fun event =>
    !(sortDistinct gathered.subtrees).any fun subtree => event.path.startsWith subtree
  rescanSubtrees := sortDistinct gathered.subtrees
  records := count

theorem interpret_ok {gathered : Gathered}
    (runs : records.foldlM (gather canonicalRoot root) Gathered.empty = .ok gathered) :
    interpret records canonicalRoot root = .changes (gathered.changes records.length) := by
  rw [interpret, runs]
  rfl

theorem interpret_error {reason : RescanReason}
    (stops : records.foldlM (gather canonicalRoot root) Gathered.empty = .error reason) :
    interpret records canonicalRoot root = .rescan reason := by
  rw [interpret, stops]

theorem Gathers.merged_iff {gathered : Gathered} (gathers : Gathers canonicalRoot root records gathered)
    {path : Path} {event : HistoryEvent} :
    gathered.merged[path]? = some event ↔ event.path = path ∧ Sums canonicalRoot root records event := by
  constructor
  · exact gathers.present path event
  · rintro ⟨rfl, sums⟩
    cases known : gathered.merged[event.path]? with
    | none =>
      obtain ⟨record, member, _⟩ := sums.lastId.1
      rw [gathers.absent _ known] at member
      cases member
    | some other =>
      obtain ⟨itself, others⟩ := gathers.present _ _ known
      have flags : other.flags = event.flags := by rw [others.flags, sums.flags, itself]
      have lastId : other.lastId = event.lastId := (itself ▸ others.lastId).unique sums.lastId
      cases other
      cases event
      simp_all

theorem Gathers.mem_changed {gathered : Gathered} (gathers : Gathers canonicalRoot root records gathered)
    {count : Nat} {event : HistoryEvent} :
    event ∈ (gathered.changes count).changed ↔ Sums canonicalRoot root records event ∧
      ¬∃ subtree ∈ (gathered.changes count).rescanSubtrees, event.path.startsWith subtree = true := by
  have known : event ∈ gathered.merged.toList.map (·.2) ↔ Sums canonicalRoot root records event := by
    rw [List.mem_map]
    constructor
    · rintro ⟨⟨path, found⟩, member, rfl⟩
      exact (gathers.merged_iff.mp (ExtTreeMap.mem_toList_iff_getElem?_eq_some.mp member)).2
    · intro sums
      exact ⟨(event.path, event),
        ExtTreeMap.mem_toList_iff_getElem?_eq_some.mpr (gathers.merged_iff.mpr ⟨rfl, sums⟩), rfl⟩
  simp only [Gathered.changes, List.mem_filter, known, Bool.not_eq_true', List.any_eq_false, not_exists,
    not_and]

theorem Gathers.sorted {gathered : Gathered} (gathers : Gathers canonicalRoot root records gathered)
    (count : Nat) : Ascending ((gathered.changes count).changed.map (·.path)) := by
  have keys : (gathered.merged.toList.map (·.2)).map (·.path) = gathered.merged.toList.map (·.1) := by
    rw [List.map_map]
    apply List.map_congr_left
    intro binding member
    exact (gathers.present _ _ (ExtTreeMap.mem_toList_iff_getElem?_eq_some.mp member)).1
  have all : Ascending ((gathered.merged.toList.map (·.2)).map (·.path)) := by
    rw [keys]
    exact List.pairwise_map.mpr ExtTreeMap.ordered_keys_toList
  exact all.sublist (List.filter_sublist.map _)

theorem Gathers.mem_subtrees {gathered : Gathered} (gathers : Gathers canonicalRoot root records gathered)
    {count : Nat} {path : Path} : path ∈ (gathered.changes count).rescanSubtrees ↔
      ∃ record ∈ records, record.lost = true ∧ under canonicalRoot root record.path = some path := by
  simp only [Gathered.changes, mem_sortDistinct, gathers.subtrees, lostSubtrees, List.mem_filterMap]
  constructor
  · rintro ⟨record, member, found⟩
    split_ifs at found with lost
    exact ⟨record, member, lost, found⟩
  · rintro ⟨record, member, lost, found⟩
    exact ⟨record, member, by rw [if_pos lost, found]⟩

theorem Gathers.event {gathered : Gathered} (gathers : Gathers canonicalRoot root records gathered)
    {record : Record} {path : Path} (member : record ∈ records)
    (named : record.names canonicalRoot root path = true) :
    ∃ event : HistoryEvent, event.path = path ∧ Sums canonicalRoot root records event := by
  cases known : gathered.merged[path]? with
  | none =>
    have among := mem_about.mpr ⟨member, named⟩
    rw [gathers.absent path known] at among
    cases among
  | some event => exact ⟨event, gathers.present path event known⟩

theorem Gathers.interprets {gathered : Gathered} (gathers : Gathers canonicalRoot root records gathered) :
    Interprets canonicalRoot root records (gathered.changes records.length) := by
  have inside : ∀ event, Sums canonicalRoot root records event → event.path.startsWith root = true := by
    intro event sums
    obtain ⟨record, member, _⟩ := sums.lastId.1
    exact under_startsWith (names_under (mem_about.mp member).2)
  have uncovered : ∀ record ∈ records, ∀ path, record.names canonicalRoot root path = true →
      (¬∃ subtree ∈ (gathered.changes records.length).rescanSubtrees, path.startsWith subtree = true) →
        ∃ event ∈ (gathered.changes records.length).changed, event.path = path := by
    intro record member path named bare
    obtain ⟨event, rfl, sums⟩ := gathers.event member named
    exact ⟨event, gathers.mem_changed.mpr ⟨sums, bare⟩, rfl⟩
  constructor
  · rfl
  · intro event member
    exact inside event (gathers.mem_changed.mp member).1
  · intro subtree member
    obtain ⟨record, _, _, found⟩ := gathers.mem_subtrees.mp member
    exact under_startsWith found
  · exact gathers.sorted _
  · exact sortDistinct_ascending _
  · intro event member
    exact (gathers.mem_changed.mp member).1
  · intro path
    exact gathers.mem_subtrees
  · intro record member path named
    by_cases covered : ∃ subtree ∈ (gathered.changes records.length).rescanSubtrees,
        path.startsWith subtree = true
    · exact .inr covered
    · obtain ⟨event, changed, same⟩ := uncovered record member path named covered
      exact .inl (List.mem_map.mpr ⟨event, changed, same⟩)
  · intro record member path named bare
    obtain ⟨event, changed, rfl⟩ := uncovered record member path named bare
    exact mem_dirsToRescan changed (inside event (gathers.mem_changed.mp changed).1)

/-! ### The order of the records -/

theorem Sums.perm {permuted : List Record} {event : HistoryEvent} (perm : records.Perm permuted)
    (sums : Sums canonicalRoot root records event) : Sums canonicalRoot root permuted event := by
  have same : (about canonicalRoot root records event.path).Perm
      (about canonicalRoot root permuted event.path) := perm.filter _
  constructor
  · rw [sums.flags]
    exact HistoryFlags.unionAll_perm (same.map _)
  · simpa only [same.mem_iff] using sums.lastId

theorem changes_perm {permuted : List Record} {first second : Gathered} (perm : records.Perm permuted)
    (left : Gathers canonicalRoot root records first)
    (right : Gathers canonicalRoot root permuted second) :
    first.changes records.length = second.changes permuted.length := by
  have merged : first.merged = second.merged := by
    apply ExtTreeMap.ext_getElem?
    intro path
    apply Option.ext
    intro event
    rw [left.merged_iff, right.merged_iff]
    exact and_congr_right fun _ => ⟨fun sums => sums.perm perm, fun sums => sums.perm perm.symm⟩
  have subtrees : sortDistinct first.subtrees = sortDistinct second.subtrees := by
    apply sortDistinct_congr
    intro path
    rw [left.subtrees, right.subtrees]
    exact (perm.filterMap _).mem_iff
  rw [Gathered.changes, Gathered.changes, merged, subtrees, perm.length_eq]

/-- A replay is refused exactly for a record that makes the journal useless; otherwise its
changes keep every record, and neither depends on the order of the records. -/
theorem interpret_complete (records : List Record) (canonicalRoot root : Path) :
    ((∃ reason, interpret records canonicalRoot root = .rescan reason) ↔
        ∃ record ∈ records, record.fatal canonicalRoot = true) ∧
      (∀ changes, interpret records canonicalRoot root = .changes changes →
        Interprets canonicalRoot root records changes) ∧
      ∀ permuted, records.Perm permuted →
        ((∃ reason, interpret permuted canonicalRoot root = .rescan reason) ↔
          ∃ reason, interpret records canonicalRoot root = .rescan reason) ∧
        ∀ changes, interpret permuted canonicalRoot root = .changes changes ↔
          interpret records canonicalRoot root = .changes changes := by
  rcases gather_run canonicalRoot root records with ⟨bad, reason, stops⟩ | ⟨mild, gathered, runs, gathers⟩
  · rw [interpret_error stops]
    refine ⟨iff_of_true ⟨reason, rfl⟩ bad, ?_, ?_⟩
    · intro changes same
      cases same
    intro permuted perm
    obtain ⟨record, member, fatal⟩ := bad
    rcases gather_run canonicalRoot root permuted with ⟨_, other, halts⟩ | ⟨mild, _⟩
    · rw [interpret_error halts]
      exact ⟨iff_of_true ⟨other, rfl⟩ ⟨reason, rfl⟩, fun changes => iff_of_false nofun nofun⟩
    · rw [mild record (perm.mem_iff.mp member)] at fatal
      cases fatal
  · rw [interpret_ok runs]
    refine ⟨iff_of_false nofun ?_, ?_, ?_⟩
    · rintro ⟨record, member, fatal⟩
      rw [mild record member] at fatal
      cases fatal
    · intro changes same
      cases same
      exact gathers.interprets
    · intro permuted perm
      rcases gather_run canonicalRoot root permuted with ⟨⟨record, member, fatal⟩, _⟩ | ⟨_, other, goes, others⟩
      · rw [mild record (perm.mem_iff.mpr member)] at fatal
        cases fatal
      · rw [interpret_ok goes, changes_perm perm gathers others]
        exact ⟨Iff.rfl, fun _ => Iff.rfl⟩

end Mille.Watch
