import Mille.Lib.Maps
import Mille.Lib.Run
import Mille.Drive.Gc

/-! What a collection may remove. Its retained set is what the drive retained when
the catalog was read, so an object goes wrongly only if something comes to name it
afterwards and the collection still lists it. -/

namespace Mille.Drive

open Std Mille.Bincode

section Retained

variable {items : Items} {keys others : List VersionKey} {digest : Blake3} {out : ExtTreeMap Blake3 UInt64}
variable {hold : HoldPolicy}

/-- The version under a key has an object among its files. -/
def Named (items : Items) (key : VersionKey) (digest : Blake3) : Prop :=
  ∃ version, (items[key.item]?).bind (·.version key.version) = some version ∧
    ∃ object ∈ version.objects false, object.blake3 = digest

/-- The hold policy or one of the versions under the keys names an object. -/
def Retained (items : Items) (hold : HoldPolicy) (keys : List VersionKey) (digest : Blake3) : Prop :=
  digest ∈ retainedByPolicy items hold ∨ ∃ key ∈ keys, Named items key digest

theorem Retained.widen (retained : Retained items hold keys digest) (subset : keys ⊆ others) :
    Retained items hold others digest :=
  retained.imp_right fun ⟨key, member, named⟩ => ⟨key, subset member, named⟩

theorem mem_addLeast {object : ObjectRef} : digest ∈ addLeast out object ↔ object.blake3 = digest ∨ digest ∈ out := by
  unfold addLeast
  rw [ExtTreeMap.mem_insert, Std.compare_eq_iff_eq]

theorem mem_versionObjects {view : VersionView} {attachments : Bool} :
    digest ∈ versionObjects view attachments out ↔
      digest ∈ out ∨ ∃ object ∈ view.objects attachments, object.blake3 = digest := by
  unfold versionObjects
  induction view.objects attachments generalizing out with
  | nil => simp
  | cons object rest ih =>
    rw [List.foldl_cons, ih, mem_addLeast, List.exists_mem_cons_iff]
    tauto

theorem mem_retainKeys : digest ∈ retainKeys items keys out ↔ digest ∈ out ∨ ∃ key ∈ keys, Named items key digest := by
  unfold retainKeys
  induction keys generalizing out with
  | nil => simp
  | cons key rest ih =>
    rw [List.foldl_cons, ih, List.exists_mem_cons_iff]
    cases found : (items[key.item]?).bind (·.version key.version) with
    | none => simp [Named, found]
    | some version =>
      have here : Named items key digest ↔ ∃ object ∈ version.objects false, object.blake3 = digest := by
        simp [Named, found]
      rw [mem_versionObjects, here, or_assoc]

theorem mem_retained : digest ∈ retainKeys items keys (retainedByPolicy items hold) ↔ Retained items hold keys digest :=
  mem_retainKeys

end Retained

namespace DriveState

variable {toLowercase : String → String} {hash : Bytes → Blake3} {hold : HoldPolicy}
variable {state after : DriveState} {task : GcTask} {digest : Blake3} {keep : List VersionKey}

/-- What the drive retains now: by policy, as a built version, or because a collection was told to keep it. -/
def Retains (toLowercase : String → String) (hash : Bytes → Blake3) (hold : HoldPolicy) (state : DriveState)
    (keep : List VersionKey) (digest : Blake3) : Prop :=
  Retained (catalog toLowercase hash state.doc) hold (state.built ++ keep) digest

/-- What a collection will spare, as far as it has come. -/
def Spares (hold : HoldPolicy) (state : DriveState) (task : GcTask) (digest : Blake3) : Prop :=
  match task.phase with
  | .cataloged => Retained task.items hold (state.built ++ task.options.keep) digest
  | .reading folders found =>
    Retained task.items hold (found ++ state.built.filter (·.item ∈ folders) ++ task.options.keep) digest
  | .gathered retained | .listing retained _ _ | .removing retained _ => digest ∈ retained

/-- A collection may still come to an object. -/
def MayReach (state : DriveState) (task : GcTask) (digest : Blake3) : Prop :=
  task.options.dryRun = false ∧
  match task.phase with
  | .cataloged | .reading _ _ | .gathered _ => state.has digest = true
  | .listing _ shards found => digest ∈ found ∨ state.has digest = true ∧ shardOf digest ∈ shards
  | .removing _ objects => digest ∈ objects

/-- A collection would list an object that arrived now. -/
def WouldList (task : GcTask) (digest : Blake3) : Prop :=
  task.options.dryRun = false ∧
  match task.phase with
  | .cataloged | .reading _ _ | .gathered _ => True
  | .listing _ shards _ => shardOf digest ∈ shards
  | .removing _ _ => False

/-- What a running collection relies on. -/
def Covered (toLowercase : String → String) (hash : Bytes → Blake3) (hold : HoldPolicy) (state : DriveState)
    (task : GcTask) : Prop :=
  ∀ digest, state.MayReach task digest → state.Retains toLowercase hash hold task.options.keep digest →
    state.Spares hold task digest

/-- The folders of the drive. -/
structure Filed (state : DriveState) : Prop where
  built : ∀ key ∈ state.built, isValidItemId key.item = true ∧ isValidVersionId key.version = true ∧
    key.item ∈ state.folders
  builds : ∀ build ∈ state.builds, isValidItemId build.key.item = true ∧ isValidVersionId build.key.version = true ∧
    build.key.item ∈ state.folders
  objects : ∀ digest, state.has digest = true → shardOf digest ∈ state.shards

/-- Objects an `add_version` that will make its version current has found held. -/
def Checked (hold : HoldPolicy) (state : DriveState) : Prop :=
  hold.current = true → ∀ add ∈ state.adds, add.makeCurrent = true → ∀ file ∈ add.files,
    file ∈ add.unchecked ∨ state.objects[file.blake3]? = some file.bytes

structure Tended (toLowercase : String → String) (hash : Bytes → Blake3) (hold : HoldPolicy) (state : DriveState) :
    Prop where
  filed : state.Filed
  covered : ∀ task ∈ state.gcs, state.Covered toLowercase hash hold task
  checked : state.Checked hold
  unlinked : ∀ removed ∈ state.unlinked,
    ¬ Retained (catalog toLowercase hash removed.doc) hold (removed.built ++ removed.keep) removed.digest
  recorded : hold.current = true → ∀ record ∈ state.recorded, ∀ file ∈ record.files,
    record.objects[file.blake3]? = some file.bytes

theorem initial_tended : initial.Tended toLowercase hash hold where
  filed := ⟨fun _ member => (by cases member), fun _ member => (by cases member), fun _ held => (by simp [has, initial] at held)⟩
  covered task member := by cases member
  checked _ add member := by cases member
  unlinked removed member := by cases member
  recorded _ record member := by cases member

theorem mem_settle {τ : Type} {tasks : List τ} {index : Nat} {left : Option τ} {task : τ}
    (member : task ∈ settle tasks index left) : task ∈ tasks ∨ left = some task := by
  cases left with
  | none => exact .inl (List.mem_of_mem_eraseIdx member)
  | some changed => exact (List.mem_or_eq_of_mem_set member).imp_right fun same => by rw [same]

theorem MayReach.mono (fewer : ∀ digest, after.has digest = true → state.has digest = true)
    (reaches : after.MayReach task digest) : state.MayReach task digest := by
  obtain ⟨real, place⟩ := reaches
  refine ⟨real, ?_⟩
  split at place
  · exact fewer digest place
  · exact fewer digest place
  · exact fewer digest place
  · exact place.imp_right fun later => ⟨fewer digest later.1, later.2⟩
  · exact place

theorem Spares.mono (more : state.built ⊆ after.built) (spares : state.Spares hold task digest) :
    after.Spares hold task digest := by
  unfold Spares at spares ⊢
  split at spares
  · refine spares.widen fun key member => ?_
    exact (List.mem_append.mp member).elim (fun built => List.mem_append_left _ (more built)) (List.mem_append_right _)
  · refine spares.widen fun key member => ?_
    simp only [List.mem_append, List.mem_filter] at member ⊢
    exact member.imp_left fun found => found.imp_right fun built => ⟨more built.1, built.2⟩
  all_goals exact spares

theorem mem_eraseIdx_or {τ : Type} {values : List τ} {index : Nat} {read value : τ} (found : values[index]? = some read)
    (member : value ∈ values) : value = read ∨ value ∈ values.eraseIdx index := by
  obtain ⟨bound, rfl⟩ := List.getElem?_eq_some_iff.mp found
  obtain ⟨place, inside, rfl⟩ := List.getElem_of_mem member
  by_cases same : place = index
  · exact .inl (by simp [same])
  · exact .inr (List.mem_eraseIdx_iff_getElem.mpr ⟨place, inside, same, rfl⟩)

theorem Filed.reading_spares (filed : state.Filed) {folders : List String} {found : List VersionKey} {folder : String}
    {pick : Nat} (read : folders[pick]? = some folder) {items : Items} {options : GcOptions}
    (spares : state.Spares hold ⟨options, items, .reading folders found⟩ digest) :
    state.Spares hold ⟨options, items, .reading (folders.eraseIdx pick)
      (found ++ state.built.filter fun key => key.item = folder && isValidVersionId key.version)⟩ digest := by
  refine Retained.widen spares fun key member => ?_
  simp only [List.mem_append, List.mem_filter, decide_eq_true_eq, Bool.and_eq_true] at member ⊢
  rcases member with (old | ⟨built, inside⟩) | kept
  · exact .inl (.inl (.inl old))
  · rcases mem_eraseIdx_or read inside with same | later
    · exact .inl (.inl (.inr ⟨built, same, (filed.built key built).2.1⟩))
    · exact .inl (.inr ⟨built, later⟩)
  · exact .inr kept

theorem has_of_mem_keys (member : digest ∈ state.objects.keys) : state.has digest = true := by
  rw [has, ExtTreeMap.isSome_getElem?_iff_mem]
  exact ExtTreeMap.mem_keys.mp member

/-- The object the next step of a collection removes. -/
def unlinks (state : DriveState) (task : GcTask) : Option Blake3 :=
  match task.phase with
  | .removing retained (digest :: _) =>
    if retained.contains digest || task.options.dryRun then none
    else if state.has digest then some digest else none
  | _ => none

/-- Reading and listing change nothing but the collection itself, which goes on to spare what it spared. -/
theorem stepGc_reads (filed : state.Filed) (covered : state.Covered toLowercase hash hold task) (pick : Nat)
    (idle : state.unlinks task = none) :
    (state.stepGc hold task pick).2 = state ∧
      ∀ left, (state.stepGc hold task pick).1 = some left → state.Covered toLowercase hash hold left := by
  obtain ⟨options, items, phase⟩ := task
  cases phase with
  | cataloged =>
    refine ⟨rfl, fun left same => ?_⟩
    cases same
    intro digest reaches retains
    refine Retained.widen (covered digest reaches retains) fun key member => ?_
    simp only [List.nil_append, List.mem_append, List.mem_filter, decide_eq_true_eq] at member ⊢
    refine member.imp_left fun built => ⟨built, ?_, ?_⟩
    · exact (filed.built key built).2.2
    · exact (filed.built key built).1
  | reading folders found =>
    simp only [stepGc]
    split
    · next folder read =>
      refine ⟨rfl, fun left same => ?_⟩
      cases same
      intro digest reaches retains
      exact filed.reading_spares read (covered digest reaches retains)
    · split
      · next empty =>
        subst empty
        refine ⟨rfl, fun left same => ?_⟩
        cases same
        intro digest reaches retains
        refine mem_retained.mpr (Retained.widen (covered digest reaches retains) fun key member => ?_)
        simpa using member
      · refine ⟨rfl, fun left same => ?_⟩
        cases same
        exact covered
  | gathered retained =>
    refine ⟨rfl, fun left same => ?_⟩
    cases same
    intro digest reaches retains
    refine covered digest ⟨reaches.1, ?_⟩ retains
    rcases reaches.2 with none | later
    · cases none
    · exact later.1
  | listing retained shards found =>
    simp only [stepGc]
    split
    · next shard read =>
      refine ⟨rfl, fun left same => ?_⟩
      cases same
      intro digest reaches retains
      refine covered digest ⟨reaches.1, ?_⟩ retains
      rcases reaches.2 with listed | later
      · rcases List.mem_append.mp listed with old | new
        · exact .inl old
        · obtain ⟨key, inShard⟩ := List.mem_filter.mp new
          refine .inr ⟨has_of_mem_keys key, ?_⟩
          rw [of_decide_eq_true inShard]
          exact List.mem_of_getElem? read
      · exact .inr ⟨later.1, List.mem_of_mem_eraseIdx later.2⟩
    · split
      · refine ⟨rfl, fun left same => ?_⟩
        cases same
        intro digest reaches retains
        exact covered digest ⟨reaches.1, .inl ((List.mem_insertionSort _).mp reaches.2)⟩ retains
      · refine ⟨rfl, fun left same => ?_⟩
        cases same
        exact covered
  | removing retained objects =>
    cases objects with
    | nil => exact ⟨rfl, fun left same => by cases same⟩
    | cons digest rest =>
      simp only [unlinks] at idle
      simp only [stepGc]
      split
      · refine ⟨rfl, fun left same => ?_⟩
        cases same
        exact fun digest reaches => covered digest ⟨reaches.1, List.mem_cons_of_mem _ reaches.2⟩
      · next removes =>
        rw [if_neg removes] at idle
        split
        · next held =>
          rw [if_pos held] at idle
          cases idle
        · exact ⟨rfl, fun left same => by cases same⟩

theorem stepGc_unlinks (covered : state.Covered toLowercase hash hold task) (pick : Nat)
    (removes : state.unlinks task = some digest) :
    ¬ state.Retains toLowercase hash hold task.options.keep digest ∧
    (state.stepGc hold task pick).2 = { state with
      objects := state.objects.erase digest
      unlinked := state.unlinked ++ [⟨digest, state.doc, state.built, task.options.keep⟩] } ∧
    ∀ left, (state.stepGc hold task pick).1 = some left → state.Covered toLowercase hash hold left := by
  obtain ⟨options, items, phase⟩ := task
  unfold unlinks at removes
  split at removes
  · next retained digest' rest here =>
    cases here
    split at removes
    · cases removes
    · next open_ =>
      split at removes
      · next held =>
        cases removes
        simp only [Bool.or_eq_true, not_or, Bool.not_eq_true] at open_
        refine ⟨fun retains => ?_, ?_, fun left same => ?_⟩
        · have spared := covered digest ⟨open_.2, List.mem_cons_self⟩ retains
          exact absurd (ExtTreeMap.contains_iff_mem.mpr spared) (by simp [open_.1])
        · simp [stepGc, open_.1, open_.2, held]
        · simp only [stepGc, open_.1, open_.2, Bool.or_false, Bool.false_eq_true, if_false, held, if_true,
            Option.some.injEq] at same
          rw [← same]
          exact fun digest reaches => covered digest ⟨reaches.1, List.mem_cons_of_mem _ reaches.2⟩
      · cases removes
  · cases removes

/-- Nothing a collection may still come to is retained anew, unless the collection spares it. -/
def Undisturbed (toLowercase : String → String) (hash : Bytes → Blake3) (hold : HoldPolicy)
    (state after : DriveState) : Prop :=
  ∀ task ∈ state.gcs, ∀ digest, state.MayReach task digest → after.Retains toLowercase hash hold task.options.keep digest →
    ¬ state.Retains toLowercase hash hold task.options.keep digest → after.Spares hold task digest

/-- The steps among which a collection removes only what nothing retains. -/
def Careful (toLowercase : String → String) (hash : Bytes → Blake3) (hold : HoldPolicy) (state : DriveState) :
    DriveEvent → Prop
  -- An object an `add_version` in progress has found held is not removed under it.
  | .stepGc index _ => hold.current = true → ∀ task, state.gcs[index]? = some task →
      ∀ digest, state.unlinks task = some digest → ∀ add ∈ state.adds, add.makeCurrent = true →
      ∀ file ∈ add.files, file.blake3 = digest → file ∈ add.unchecked
  | .publish digest _ => state.has digest = false → ∀ task ∈ state.gcs, WouldList task digest →
      state.Retains toLowercase hash hold task.options.keep digest → state.Spares hold task digest
  | .unbuild item version => ∀ task ∈ state.gcs, ∀ digest, state.MayReach task digest →
      Named task.items ⟨item, version⟩ digest →
      (state.unbuild item version).Retains toLowercase hash hold task.options.keep digest →
      (state.unbuild item version).Spares hold task digest
  | .gc _ | .addVersion .. | .attach .. | .build .. => True
  | event => Undisturbed toLowercase hash hold state (step toLowercase hash hold state event)

theorem Tended.change (tended : state.Tended toLowercase hash hold) (filed : after.Filed)
    (gcs : after.gcs = state.gcs) (objects : after.objects = state.objects) (checked : after.Checked hold)
    (unlinked : after.unlinked = state.unlinked)
    (recorded : hold.current = true → ∀ record ∈ after.recorded, ∀ file ∈ record.files,
      record.objects[file.blake3]? = some file.bytes)
    (more : state.built ⊆ after.built) (undisturbed : Undisturbed toLowercase hash hold state after) :
    after.Tended toLowercase hash hold where
  filed := filed
  covered task member digest reaches retains := by
    rw [gcs] at member
    have before : state.MayReach task digest := reaches.mono fun digest held => by rwa [has, objects] at held
    by_cases old : state.Retains toLowercase hash hold task.options.keep digest
    · exact (tended.covered task member digest before old).mono more
    · exact undisturbed task member digest before retains old
  checked := checked
  unlinked := unlinked ▸ tended.unlinked
  recorded := recorded

theorem Tended.mutate (tended : state.Tended toLowercase hash hold) {saved : Bool} {next : DocState}
    (undisturbed : Undisturbed toLowercase hash hold state (state.mutate saved next)) :
    (state.mutate saved next).Tended toLowercase hash hold := by
  cases saved with
  | false => exact tended
  | true =>
    exact tended.change ⟨tended.filed.built, tended.filed.builds, tended.filed.objects⟩ rfl rfl tended.checked rfl
      tended.recorded (List.Subset.refl _) undisturbed

theorem Tended.stepGc (tended : state.Tended toLowercase hash hold) {index : Nat} (pick : Nat)
    (found : state.gcs[index]? = some task)
    (spared : hold.current = true → ∀ digest, state.unlinks task = some digest → ∀ add ∈ state.adds,
      add.makeCurrent = true → ∀ file ∈ add.files, file.blake3 = digest → file ∈ add.unchecked) :
    { (state.stepGc hold task pick).2 with
      gcs := settle state.gcs index (state.stepGc hold task pick).1 }.Tended toLowercase hash hold := by
  have covered := tended.covered task (List.mem_of_getElem? found)
  cases removes : state.unlinks task with
  | none =>
    obtain ⟨same, goes⟩ := stepGc_reads tended.filed covered pick removes
    rw [same]
    refine { tended with
      filed := ⟨tended.filed.built, tended.filed.builds, tended.filed.objects⟩, covered := fun other member => ?_ }
    rcases mem_settle member with old | left
    · exact tended.covered other old
    · exact goes other left
  | some digest =>
    obtain ⟨free, same, goes⟩ := stepGc_unlinks covered pick removes
    have lookup : ∀ other : Blake3, (state.objects.erase digest)[other]? =
        if digest = other then none else state.objects[other]? := fun other => Maps.lookup_erase
    have fewer : ∀ other : Blake3, (state.objects.erase digest)[other]?.isSome = true → state.has other = true := by
      intro other held
      rw [lookup] at held
      split at held
      · cases held
      · exact held
    rw [same]
    refine ⟨⟨tended.filed.built, tended.filed.builds, fun other held => tended.filed.objects other (fewer other held)⟩,
      fun other member => ?_, fun current add member makes file listed => ?_, fun removed member => ?_, tended.recorded⟩
    · have before : state.Covered toLowercase hash hold other := by
        rcases mem_settle member with old | left
        · exact tended.covered other old
        · exact goes other left
      intro digest reaches retains
      refine (before digest (MayReach.mono ?_ reaches) retains).mono (List.Subset.refl _)
      exact fewer
    · rcases tended.checked current add member makes file listed with later | held
      · exact .inl later
      · by_cases gone : file.blake3 = digest
        · exact .inl (spared current digest removes add member makes file listed gone)
        · exact .inr ((lookup _).trans (by rw [if_neg (Ne.symm gone), held]))
    · rcases List.mem_append.mp member with old | new
      · exact tended.unlinked removed old
      · rw [List.mem_singleton.mp new]
        exact free

/-- A newly found object is spared by every collection that would list it. -/
theorem Tended.publish (tended : state.Tended toLowercase hash hold) {bytes : UInt64}
    (spared : state.has digest = false → ∀ task ∈ state.gcs, WouldList task digest →
      state.Retains toLowercase hash hold task.options.keep digest → state.Spares hold task digest) :
    (state.publish digest bytes).Tended toLowercase hash hold := by
  unfold DriveState.publish
  split
  · exact tended
  · next missing =>
    have absent := Bool.eq_false_iff.mpr missing
    have lookup : ∀ other : Blake3, (state.objects.insert digest bytes)[other]? =
        if digest = other then some bytes else state.objects[other]? := fun other => Maps.lookup_insert
    have held : ∀ other : Blake3, (state.objects.insert digest bytes)[other]?.isSome = true →
        digest = other ∨ state.has other = true := by
      intro other present
      rw [lookup] at present
      split at present
      · next same => exact .inl same
      · exact .inr present
    refine ⟨⟨tended.filed.built, tended.filed.builds, fun other present => ?_⟩, fun task member other reaches retains => ?_,
      fun current add member makes file listed => ?_, tended.unlinked, tended.recorded⟩
    · have before : shardOf other ∈ state.shards ++ [shardOf digest] := by
        rcases held other present with rfl | old
        · simp
        · exact List.mem_append_left _ (tended.filed.objects other old)
      show shardOf other ∈ if _ then _ else _
      split
      · next there =>
        rcases List.mem_append.mp before with old | new
        · exact old
        · rwa [List.mem_singleton.mp new]
      · exact before
    · have spares : state.Spares hold task other := by
        by_cases old : state.MayReach task other
        · exact tended.covered task member other old retains
        · -- The collection comes to it only because it is there now.
          have arrived : digest = other ∧ WouldList task other := by
            obtain ⟨real, place⟩ := reaches
            unfold MayReach at old
            unfold WouldList
            cases here : task.phase with
            | cataloged | reading | gathered =>
              simp only [here, real, true_and] at old place ⊢
              exact ⟨(held other place).resolve_right old, trivial⟩
            | listing retained shards found =>
              simp only [here, real, true_and, not_or, not_and] at old place ⊢
              rcases place with listed | ⟨present, shard⟩
              · exact absurd listed old.1
              · exact ⟨(held other present).resolve_right fun before => old.2 before shard, shard⟩
            | removing retained objects =>
              simp only [here, real, true_and] at old place
              exact absurd place old
          obtain ⟨rfl, lists⟩ := arrived
          exact spared absent task member lists retains
      exact spares.mono (List.Subset.refl _)
    · rcases tended.checked current add member makes file listed with later | present
      · exact .inl later
      · refine .inr ((lookup _).trans ?_)
        split
        · next same =>
          rw [has, same, present] at absent
          cases absent
        · exact present

theorem Tended.stepAdd (tended : state.Tended toLowercase hash hold) {index : Nat} {add : AddTask} {createdAt : UInt64}
    {saved : Bool} (found : state.adds[index]? = some add)
    (undisturbed : Undisturbed toLowercase hash hold state
      { (state.stepAdd hash add createdAt saved).2 with
        adds := settle state.adds index (state.stepAdd hash add createdAt saved).1 }) :
    { (state.stepAdd hash add createdAt saved).2 with
      adds := settle state.adds index (state.stepAdd hash add createdAt saved).1 }.Tended toLowercase hash hold := by
  have member := List.mem_of_getElem? found
  have filed : ∀ {adds : List AddTask} {doc : DocState}, { state with adds := adds, doc := doc }.Filed :=
    ⟨tended.filed.built, tended.filed.builds, tended.filed.objects⟩
  have fewer : { state with adds := state.adds.eraseIdx index }.Checked hold := fun current other listed =>
    tended.checked current other (List.mem_of_mem_eraseIdx listed)
  cases unchecked : add.unchecked with
  | cons file rest =>
    cases held : state.checkHeld file.blake3 file.bytes with
    | true =>
      have outcome : state.stepAdd hash add createdAt saved = (some { add with unchecked := rest }, state) := by
        simp [DriveState.stepAdd, unchecked, held]
      rw [outcome] at undisturbed ⊢
      refine tended.change filed rfl rfl (fun current other listed makes file' mine => ?_) rfl tended.recorded
        (List.Subset.refl _) undisturbed
      have place : other ∈ settle state.adds index (some { add with unchecked := rest }) := listed
      rcases mem_settle place with old | left
      · exact tended.checked current other old makes file' mine
      · cases left
        rcases tended.checked current add member makes file' mine with later | present
        · rw [unchecked] at later
          rcases List.mem_cons.mp later with same | still
          · exact .inr (same ▸ of_decide_eq_true held)
          · exact .inl still
        · exact .inr present
    | false =>
      have outcome : state.stepAdd hash add createdAt saved = (none, state) := by
        simp [DriveState.stepAdd, unchecked, held]
      rw [outcome] at undisturbed ⊢
      exact tended.change filed rfl rfl fewer rfl tended.recorded (List.Subset.refl _) undisturbed
  | nil =>
    -- Every object has been checked, so what is recorded is held.
    have complete : hold.current = true → add.makeCurrent = true → ∀ file ∈ add.files,
        state.objects[file.blake3]? = some file.bytes := by
      intro current makes file mine
      refine (tended.checked current add member makes file mine).resolve_left ?_
      rw [unchecked]
      exact List.not_mem_nil
    cases saved with
    | false =>
      have outcome : state.stepAdd hash add createdAt false = (none, state) := by
        simp [DriveState.stepAdd, unchecked, DriveState.mutate]
      rw [outcome] at undisturbed ⊢
      exact tended.change filed rfl rfl fewer rfl tended.recorded (List.Subset.refl _) undisturbed
    | true =>
      cases makes : add.makeCurrent with
      | false =>
        have outcome : state.stepAdd hash add createdAt true =
            (none, { state with doc := addIn hash state.doc add createdAt }) := by
          simp [DriveState.stepAdd, unchecked, DriveState.mutate, makes]
        rw [outcome] at undisturbed ⊢
        exact tended.change filed rfl rfl fewer rfl tended.recorded (List.Subset.refl _) undisturbed
      | true =>
        have outcome : state.stepAdd hash add createdAt true = (none, { state with
            doc := addIn hash state.doc add createdAt
            recorded := state.recorded ++ [⟨add.files, state.objects⟩] }) := by
          simp [DriveState.stepAdd, unchecked, DriveState.mutate, makes]
        rw [outcome] at undisturbed ⊢
        refine tended.change ⟨tended.filed.built, tended.filed.builds, tended.filed.objects⟩ rfl rfl fewer rfl
          (fun current record listed => ?_) (List.Subset.refl _) undisturbed
        rcases List.mem_append.mp listed with old | new
        · exact tended.recorded current record old
        · rw [List.mem_singleton.mp new]
          exact complete current makes

theorem Tended.stepBuild (tended : state.Tended toLowercase hash hold) {index : Nat} {build : BuildTask}
    (found : state.builds[index]? = some build)
    (undisturbed : Undisturbed toLowercase hash hold state
      { (state.stepBuild build).2 with builds := settle state.builds index (state.stepBuild build).1 }) :
    { (state.stepBuild build).2 with
      builds := settle state.builds index (state.stepBuild build).1 }.Tended toLowercase hash hold := by
  have mine := tended.filed.builds build (List.mem_of_getElem? found)
  have builds : ∀ {left : Option BuildTask}, (∀ next, left = some next → next.key = build.key) →
      ∀ other ∈ settle state.builds index left, isValidItemId other.key.item = true ∧
        isValidVersionId other.key.version = true ∧ other.key.item ∈ state.folders := by
    intro left same other listed
    rcases mem_settle listed with old | here
    · exact tended.filed.builds other old
    · rw [same other here]
      exact mine
  cases unlinked : build.unlinked with
  | cons file rest =>
    have outcome : state.stepBuild build = (if state.has file.blake3 then some { build with unlinked := rest } else none,
        state) := by
      simp [DriveState.stepBuild, unlinked]
    rw [outcome] at undisturbed ⊢
    refine tended.change ⟨tended.filed.built, builds fun next same => ?_, tended.filed.objects⟩ rfl rfl tended.checked rfl
      tended.recorded (List.Subset.refl _) undisturbed
    split at same
    · cases same
      rfl
    · cases same
  | nil =>
    by_cases there : build.key ∈ state.built
    · have outcome : state.stepBuild build = (none, state) := by simp [DriveState.stepBuild, unlinked, there]
      rw [outcome] at undisturbed ⊢
      exact tended.change ⟨tended.filed.built, @builds none fun next same => (by cases same), tended.filed.objects⟩ rfl rfl
        tended.checked rfl tended.recorded (List.Subset.refl _) undisturbed
    · have outcome : state.stepBuild build = (none, { state with built := state.built ++ [build.key] }) := by
        simp [DriveState.stepBuild, unlinked, there]
      rw [outcome] at undisturbed ⊢
      refine tended.change ⟨fun key listed => ?_, @builds none fun next same => (by cases same), tended.filed.objects⟩ rfl rfl
        tended.checked rfl tended.recorded (List.subset_append_left _ _) undisturbed
      rcases List.mem_append.mp listed with old | new
      · exact tended.filed.built key old
      · rw [List.mem_singleton.mp new]
        exact mine

/-- A build is removed: a collection that counted on it spares what is still retained. -/
theorem Tended.unbuild (tended : state.Tended toLowercase hash hold) {item version : String}
    (spared : ∀ task ∈ state.gcs, ∀ digest, state.MayReach task digest → Named task.items ⟨item, version⟩ digest →
      (state.unbuild item version).Retains toLowercase hash hold task.options.keep digest →
      (state.unbuild item version).Spares hold task digest) :
    (state.unbuild item version).Tended toLowercase hash hold := by
  unfold DriveState.unbuild at spared ⊢
  split at spared
  · next valid =>
    rw [if_pos valid]
    have kept : ∀ folder ∈ state.folders,
        (state.built.filter (· ≠ ⟨item, version⟩)).any (·.item = folder) ∨ state.builds.any (·.key.item = folder) →
        folder ∈ if (state.built.filter (· ≠ ⟨item, version⟩)).any (·.item = item) ||
          state.builds.any (·.key.item = item) then state.folders else state.folders.filter (· ≠ item) := by
      intro folder there used
      split
      · exact there
      · next unused =>
        refine List.mem_filter.mpr ⟨there, decide_eq_true ?_⟩
        rintro rfl
        rw [Bool.or_eq_true] at unused
        exact unused used
    refine ⟨⟨fun key listed => ?_, fun build listed => ?_, tended.filed.objects⟩, fun task member digest reaches retains => ?_,
      tended.checked, tended.unlinked, tended.recorded⟩
    · have before := tended.filed.built key (List.mem_filter.mp listed).1
      refine ⟨before.1, before.2.1, kept _ before.2.2 (.inl (List.any_eq_true.mpr ⟨key, listed, by simp⟩))⟩
    · have before := tended.filed.builds build listed
      refine ⟨before.1, before.2.1, kept _ before.2.2 (.inr (List.any_eq_true.mpr ⟨build, listed, by simp⟩))⟩
    · have reached : state.MayReach task digest := MayReach.mono (fun _ held => held) reaches
      by_cases named : Named task.items ⟨item, version⟩ digest
      · exact spared task member digest reached named retains
      · have retained : state.Retains toLowercase hash hold task.options.keep digest :=
          Retained.widen retains fun key listed => by
            simp only [List.mem_append, List.mem_filter] at listed ⊢
            exact listed.imp_left And.left
        have others : ∀ key ∈ state.built, Named task.items key digest → key ≠ ⟨item, version⟩ := by
          rintro key _ there rfl
          exact named there
        have spares := tended.covered task member digest reached retained
        unfold Spares at spares ⊢
        split at spares
        · refine spares.imp_right fun ⟨key, listed, there⟩ => ⟨key, ?_, there⟩
          simp only [List.mem_append, List.mem_filter, decide_eq_true_eq] at listed ⊢
          exact listed.imp_left fun built => ⟨built, others key built there⟩
        · refine spares.imp_right fun ⟨key, listed, there⟩ => ⟨key, ?_, there⟩
          simp only [List.mem_append, List.mem_filter, decide_eq_true_eq] at listed ⊢
          exact listed.imp_left fun found => found.imp_right fun built =>
            ⟨⟨built.1, others key built.1 there⟩, built.2⟩
        all_goals exact spares
  · next invalid =>
    rw [if_neg invalid]
    exact tended

theorem mem_addFolder {folders : List String} {item folder : String} (there : folder ∈ folders) :
    folder ∈ if item ∈ folders then folders else folders ++ [item] := by
  split
  · exact there
  · exact List.mem_append_left _ there

theorem addFolder_mem {folders : List String} {item : String} :
    item ∈ if item ∈ folders then folders else folders ++ [item] := by
  split
  · assumption
  · simp

theorem buildable_valid {item version : String} {files : List FileEntry}
    (buildable : state.buildable toLowercase hash item version = some files) :
    isValidItemId item = true ∧ isValidVersionId version = true := by
  unfold DriveState.buildable at buildable
  split at buildable
  · next valid => exact Bool.and_eq_true_iff.mp valid
  · cases buildable

theorem step_tended (tended : state.Tended toLowercase hash hold) (event : DriveEvent)
    (careful : state.Careful toLowercase hash hold event) :
    (step toLowercase hash hold state event).Tended toLowercase hash hold := by
  cases event with
  | gc options =>
    refine { tended with
      filed := ⟨tended.filed.built, tended.filed.builds, tended.filed.objects⟩, covered := fun task member => ?_ }
    rcases List.mem_append.mp member with old | new
    · exact tended.covered task old
    · rw [List.mem_singleton.mp new]
      exact fun digest _ retains => retains
  | stepGc index pick =>
    simp only [step]
    split
    · exact tended
    · next task found => exact tended.stepGc pick found fun current => careful current task found
  | addVersion item files makeCurrent =>
    simp only [step]
    split
    · refine { tended with
        filed := ⟨tended.filed.built, tended.filed.builds, tended.filed.objects⟩
        checked := fun current add member makes file mine => ?_ }
      rcases List.mem_append.mp member with old | new
      · exact tended.checked current add old makes file mine
      · rw [List.mem_singleton.mp new] at mine ⊢
        exact .inl mine
    · exact tended
  | stepAdd index createdAt saved =>
    simp only [Careful, step] at careful ⊢
    split at careful
    · exact tended
    · next task found => exact tended.stepAdd found careful
  | setCurrent item version saved =>
    simp only [Careful, step] at careful ⊢
    split at careful
    · exact tended
    · exact tended.mutate careful
  | setKept item kept saved =>
    simp only [Careful, step] at careful ⊢
    split at careful
    · exact tended
    · exact tended.mutate careful
  | attach item version name object =>
    simp only [step]
    split
    · exact { tended with filed := ⟨tended.filed.built, tended.filed.builds, tended.filed.objects⟩ }
    · exact tended
  | stepAttach index saved =>
    simp only [Careful, step] at careful ⊢
    split at careful
    · exact tended
    · have dropped : { state with attachments := state.attachments.eraseIdx index }.Tended toLowercase hash hold :=
        { tended with filed := ⟨tended.filed.built, tended.filed.builds, tended.filed.objects⟩ }
      split at careful
      · exact dropped
      · exact dropped.mutate careful
  | importUpdates next saved => exact tended.mutate careful
  | publish digest bytes => exact tended.publish careful
  | build item version =>
    simp only [step]
    split
    · exact tended
    · next files buildable =>
      split
      · exact tended
      · refine { tended with filed := ⟨fun key listed => ?_, fun task listed => ?_, tended.filed.objects⟩ }
        · exact (tended.filed.built key listed).imp_right (And.imp_right fun there => mem_addFolder there)
        · rcases List.mem_append.mp listed with old | new
          · exact (tended.filed.builds task old).imp_right (And.imp_right fun there => mem_addFolder there)
          · rw [List.mem_singleton.mp new]
            obtain ⟨item, version⟩ := buildable_valid buildable
            exact ⟨item, version, addFolder_mem⟩
  | stepBuild index =>
    simp only [Careful, step] at careful ⊢
    split at careful
    · exact tended
    · next task found => exact tended.stepBuild found careful
  | unbuild item version => exact tended.unbuild careful

section Sample

/-- The digest of the byte `1`. -/
def sampleDigest : Blake3 := 0xd63bd9a826af91c1fea371965a64e11ee20f13e46b5f52c59901136605b3a487

/-- The digest of the byte `2`. -/
def otherDigest : Blake3 := 0x813e9b729141e7f385afa0a2d0df3e6c3789e427ffe4aeef566a565bc8f2fe3d

/-- A tree with one file `a`. -/
def sampleFiles : List FileEntry :=
  [⟨"a", sampleDigest, 1⟩]

/-- What the manifest of that tree hashes to. -/
def sampleHash : Bytes → Blake3 :=
  fun _ => 0x832c1253ab555fc14c97bd8c2a084f6491a1230ea8ba1e35d8b9430ebcbf9cd9

def sampleHold : HoldPolicy := ⟨true, .current, true⟩

/-- Nothing overlaps: calls run while no collection does, and a collection while no `add_version` does. -/
def Alone (state : DriveState) : DriveEvent → Bool
  | .stepGc _ _ => state.adds.isEmpty
  | _ => state.gcs.isEmpty

theorem Careful.of_alone {event : DriveEvent} (alone : state.Alone event = true) :
    state.Careful toLowercase hash hold event := by
  cases event with
  | gc | addVersion | attach | build => trivial
  | stepGc index pick =>
    intro _ _ _ _ _ add member
    rw [List.isEmpty_iff.mp alone] at member
    cases member
  | publish =>
    intro _ task member
    rw [List.isEmpty_iff.mp alone] at member
    cases member
  | stepAdd | setCurrent | setKept | stepAttach | importUpdates | stepBuild | unbuild =>
    intro task member
    rw [List.isEmpty_iff.mp alone] at member
    cases member

/-- Two objects arrive, a version with one of them is made current, then a collection runs. -/
def apartEvents : List DriveEvent :=
  [.publish sampleDigest 1, .publish otherDigest 1, .addVersion "app" sampleFiles true, .stepAdd 0 1 true,
    .stepAdd 0 1 true, .gc ⟨false, []⟩, .stepGc 0 0, .stepGc 0 0, .stepGc 0 0, .stepGc 0 0, .stepGc 0 0, .stepGc 0 0,
    .stepGc 0 0, .stepGc 0 0, .stepGc 0 0]

/-- The calls of a list that run alone. -/
def AllAlone : DriveState → List DriveEvent → Bool
  | _, [] => true
  | state, event :: rest => state.Alone event && AllAlone (step (fun text => text) sampleHash sampleHold state event) rest

theorem AllAlone.along {events : List DriveEvent} (alone : AllAlone state events = true) :
    Run.Along (step (fun text => text) sampleHash sampleHold) (Careful (fun text => text) sampleHash sampleHold) state
      events := by
  induction events generalizing state with
  | nil => trivial
  | cons event rest ih =>
    obtain ⟨here, later⟩ := Bool.and_eq_true_iff.mp alone
    exact ⟨.of_alone here, ih later⟩

/-- The collection reads the catalog before a version is made current and removes that version's object after it. -/
def overlapEvents : List DriveEvent :=
  [.publish sampleDigest 1, .gc ⟨false, []⟩, .addVersion "app" sampleFiles true, .stepAdd 0 1 true, .stepAdd 0 1 true,
    .stepGc 0 0, .stepGc 0 0, .stepGc 0 0, .stepGc 0 0, .stepGc 0 0, .stepGc 0 0]

end Sample

end DriveState

end Mille.Drive
