import Mille.Drive.GcRuns

/-! What a collection leaves when no other call comes in between: exactly the objects
that the hold policy, a build or the call itself retains. -/

namespace Mille.Drive.DriveState

open Std Mille.Bincode

variable {toLowercase : String → String} {hash : Bytes → Blake3} {hold : HoldPolicy}
variable {state after : DriveState} {options : GcOptions} {items : Items} {picks : List Nat}

/-- A collection with nothing in between; the picks say in which order it reads folders and shards. -/
def collect (hold : HoldPolicy) (state : DriveState) (task : GcTask) : List Nat → Option GcTask × DriveState
  | [] => (some task, state)
  | pick :: rest =>
    match state.stepGc hold task pick with
    | (none, after) => (none, after)
    | (some left, after) => collect hold after left rest

theorem collect_done {task : GcTask} {pick : Nat} (ends : state.stepGc hold task pick = (none, after)) :
    collect hold state task (pick :: picks) = (none, after) := by
  simp only [collect, ends]

theorem collect_goes {task left : GcTask} {pick : Nat} (goes : state.stepGc hold task pick = (some left, after)) :
    collect hold state task (pick :: picks) = collect hold after left picks := by
  simp only [collect, goes]

/-- The folders of a drive, each shard listed once. -/
structure Shelved (state : DriveState) : Prop where
  filed : state.Filed
  distinct : state.shards.Nodup

theorem Shelved.change (shelved : state.Shelved) (built : after.built = state.built)
    (builds : after.builds = state.builds) (folders : after.folders = state.folders)
    (shards : after.shards = state.shards) (fewer : ∀ digest, after.has digest = true → state.has digest = true) :
    after.Shelved where
  filed := by
    refine ⟨?_, ?_, fun digest held => ?_⟩
    · rw [built, folders]
      exact shelved.filed.built
    · rw [builds, folders]
      exact shelved.filed.builds
    · rw [shards]
      exact shelved.filed.objects digest (fewer digest held)
  distinct := by
    rw [shards]
    exact shelved.distinct

/-- The drive without the collections and writes in progress, and without the logs. -/
def bare (state : DriveState) : DriveState :=
  { state with gcs := [], adds := [], unlinked := [], recorded := [] }

theorem Filed.bare_tended (filed : state.Filed) : state.bare.Tended toLowercase hash hold where
  filed := ⟨filed.built, filed.builds, filed.objects⟩
  covered task member := by cases member
  checked _ add member := by cases member
  unlinked removed member := by cases member
  recorded _ record member := by cases member

theorem stepGc_disk {task : GcTask} {pick : Nat} {outcome : Option GcTask × DriveState}
    (steps : state.stepGc hold task pick = outcome) :
    outcome.2 = state ∨ ∃ digest unlinked,
      outcome.2 = { state with objects := state.objects.erase digest, unlinked := unlinked } := by
  subst steps
  unfold stepGc
  split
  · exact .inl rfl
  · split
    · exact .inl rfl
    · split <;> exact .inl rfl
  · exact .inl rfl
  · split
    · exact .inl rfl
    · split <;> exact .inl rfl
  · exact .inl rfl
  · split
    · exact .inl rfl
    · split
      · exact .inr ⟨_, _, rfl⟩
      · exact .inl rfl

theorem Shelved.mutate (shelved : state.Shelved) {saved : Bool} {next : DocState} : (state.mutate saved next).Shelved := by
  cases saved <;> exact shelved.change rfl rfl rfl rfl fun _ held => held

theorem step_shelved (shelved : state.Shelved) (event : DriveEvent) :
    (step toLowercase hash hold state event).Shelved := by
  have alone : state.bare.Alone event = true → (step toLowercase hash hold state.bare event).Filed := fun alone =>
    (step_tended shelved.filed.bare_tended event (.of_alone alone)).filed
  cases event with
  | gc options => exact shelved.change rfl rfl rfl rfl fun _ held => held
  | stepGc index pick =>
    simp only [step]
    split
    · exact shelved
    · next task found =>
      have passed : (state.stepGc hold task pick).2.Shelved := by
        rcases @stepGc_disk hold state task pick _ rfl with same | ⟨digest, unlinked, same⟩ <;> rw [same]
        · exact shelved
        · refine shelved.change rfl rfl rfl rfl fun other held => ?_
          have there : (state.objects.erase digest)[other]?.isSome = true := held
          rw [Maps.lookup_erase] at there
          split at there
          · cases there
          · exact there
      exact passed.change rfl rfl rfl rfl fun _ held => held
  | addVersion item files makeCurrent =>
    simp only [step]
    split
    · exact shelved.change rfl rfl rfl rfl fun _ held => held
    · exact shelved
  | stepAdd index createdAt saved =>
    simp only [step]
    split
    · exact shelved
    · next task found =>
      have wrote : (state.stepAdd hash task createdAt saved).2.Shelved := by
        unfold stepAdd
        split
        · split <;> exact shelved
        · dsimp only
          split
          · exact shelved.mutate.change rfl rfl rfl rfl fun _ held => held
          · exact shelved.mutate
      exact wrote.change rfl rfl rfl rfl fun _ held => held
  | setCurrent item version saved =>
    simp only [step]
    split
    · exact shelved
    · exact shelved.mutate
  | setKept item kept saved =>
    simp only [step]
    split
    · exact shelved
    · exact shelved.mutate
  | attach item version name object =>
    simp only [step]
    split
    · exact shelved.change rfl rfl rfl rfl fun _ held => held
    · exact shelved
  | stepAttach index saved =>
    have dropped : { state with attachments := state.attachments.eraseIdx index }.Shelved :=
      shelved.change rfl rfl rfl rfl fun _ held => held
    simp only [step]
    split
    · exact shelved
    · split
      · exact dropped
      · exact dropped.mutate
  | importUpdates next saved => exact shelved.mutate
  | publish digest bytes =>
    have published := alone rfl
    simp only [step, publish] at published ⊢
    split
    · exact shelved
    · next missing =>
      rw [if_neg (show ¬state.bare.has digest = true from missing)] at published
      refine ⟨⟨published.built, published.builds, published.objects⟩, ?_⟩
      show (if _ then _ else _ : List Nat).Nodup
      split
      · exact shelved.distinct
      · next fresh => exact shelved.distinct.append (List.nodup_singleton _) (List.disjoint_singleton.mpr fresh)
  | build item version =>
    have built := alone rfl
    simp only [step] at built ⊢
    split
    · exact shelved
    · next files buildable =>
      rw [show state.bare.buildable toLowercase hash item version = some files from buildable] at built
      simp only at built
      split
      · exact shelved
      · next fresh =>
        rw [if_neg (show ¬_ ∈ state.bare.built from fresh)] at built
        exact ⟨⟨built.built, built.builds, built.objects⟩, shelved.distinct⟩
  | stepBuild index =>
    have built := alone rfl
    simp only [step] at built ⊢
    split
    · exact shelved
    · next task found =>
      rw [show state.bare.builds[index]? = some task from found] at built
      cases unlinked : task.unlinked with
      | cons file rest =>
        simp only [DriveState.stepBuild, unlinked] at built ⊢
        exact ⟨⟨built.built, built.builds, built.objects⟩, shelved.distinct⟩
      | nil =>
        simp only [DriveState.stepBuild, unlinked] at built ⊢
        split
        · next there =>
          rw [if_pos (show _ ∈ state.bare.built from there)] at built
          exact ⟨⟨built.built, built.builds, built.objects⟩, shelved.distinct⟩
        · next fresh =>
          rw [if_neg (show ¬_ ∈ state.bare.built from fresh)] at built
          exact ⟨⟨built.built, built.builds, built.objects⟩, shelved.distinct⟩
  | unbuild item version =>
    have removed := alone rfl
    simp only [step, unbuild] at removed ⊢
    split
    · next valid =>
      rw [if_pos valid] at removed
      exact ⟨⟨removed.built, removed.builds, removed.objects⟩, shelved.distinct⟩
    · exact shelved

/-- After it, the disk holds the objects of before that are spared, and nothing else has changed. -/
structure Leaves (state after : DriveState) (spared : Blake3 → Prop) : Prop where
  rest : after.doc = state.doc ∧ after.built = state.built
  objects : ∀ digest size, after.objects[digest]? = some size ↔ state.objects[digest]? = some size ∧ spared digest

theorem Leaves.congr {spared others : Blake3 → Prop} (leaves : Leaves state after spared)
    (same : ∀ digest, state.has digest = true → (spared digest ↔ others digest)) : Leaves state after others := by
  refine ⟨leaves.rest, fun digest size => (leaves.objects digest size).trans (and_congr_right fun held => same digest ?_)⟩
  rw [has, held]
  rfl

theorem collect_removing {retained : ExtTreeMap Blake3 UInt64} {objects : List Blake3} (distinct : objects.Nodup)
    (held : ∀ digest ∈ objects, state.has digest = true)
    (returned : collect hold state ⟨options, items, .removing retained objects⟩ picks = (none, after)) :
    Leaves state after fun digest => options.dryRun = true ∨ digest ∈ retained ∨ digest ∉ objects := by
  induction picks generalizing state objects with
  | nil => cases returned
  | cons pick picks ih =>
    cases objects with
    | nil =>
      rw [collect_done rfl] at returned
      cases returned
      exact ⟨⟨rfl, rfl⟩, by simp⟩
    | cons digest rest =>
      obtain ⟨fresh, distinct⟩ := List.nodup_cons.mp distinct
      by_cases stays : (retained.contains digest || options.dryRun) = true
      · have goes : state.stepGc hold ⟨options, items, .removing retained (digest :: rest)⟩ pick =
            (some ⟨options, items, .removing retained rest⟩, state) := by
          simp only [stepGc, stays, if_true]
        rw [collect_goes goes] at returned
        refine (ih distinct (fun other member => held other (List.mem_cons_of_mem _ member)) returned).congr
          fun other _ => ?_
        rw [Bool.or_eq_true, ExtTreeMap.contains_iff_mem] at stays
        by_cases here : other = digest
        · subst here
          tauto
        · rw [List.mem_cons, or_iff_right here]
      · obtain ⟨next, goes, same, lookup⟩ : ∃ next,
            state.stepGc hold ⟨options, items, .removing retained (digest :: rest)⟩ pick =
              (some ⟨options, items, .removing retained rest⟩, next) ∧
            (next.doc = state.doc ∧ next.built = state.built) ∧
            ∀ other, next.objects[other]? = if digest = other then none else state.objects[other]? := by
          refine ⟨{ state with
            objects := state.objects.erase digest
            unlinked := state.unlinked ++ [⟨digest, state.doc, state.built, options.keep⟩] }, ?_, ⟨rfl, rfl⟩,
            fun other => Maps.lookup_erase⟩
          simp only [stepGc]
          rw [if_neg stays, if_pos (held digest List.mem_cons_self)]
        have still : ∀ other ∈ rest, next.has other = true := by
          intro other member
          have different : digest ≠ other := fun same => fresh (same ▸ member)
          rw [has, lookup, if_neg different]
          exact held other (List.mem_cons_of_mem _ member)
        rw [collect_goes goes] at returned
        have leaves := ih distinct still returned
        rw [Bool.or_eq_true, ExtTreeMap.contains_iff_mem, not_or] at stays
        refine ⟨⟨leaves.rest.1.trans same.1, leaves.rest.2.trans same.2⟩, fun other size => ?_⟩
        rw [leaves.objects, lookup]
        by_cases here : digest = other
        · subst here
          simp [stays]
        · rw [if_neg here, List.mem_cons, or_iff_right (Ne.symm here)]

/-- What a listing has found is held and lies in none of the shards it has still to read. -/
structure Listed (state : DriveState) (shards : List Nat) (found : List Blake3) : Prop where
  unread : shards.Nodup
  distinct : found.Nodup
  held : ∀ digest ∈ found, state.has digest = true ∧ shardOf digest ∉ shards
  complete : ∀ digest, state.has digest = true → digest ∈ found ∨ shardOf digest ∈ shards

theorem Listed.read {shards : List Nat} {found : List Blake3} (listed : state.Listed shards found) {pick shard : Nat}
    (read : shards[pick]? = some shard) :
    state.Listed (shards.eraseIdx pick) (found ++ state.objects.keys.filter fun digest => shardOf digest = shard) := by
  have fresh : shard ∉ shards.eraseIdx pick := by
    obtain ⟨bound, rfl⟩ := List.getElem?_eq_some_iff.mp read
    rw [← listed.unread.erase_getElem pick bound]
    exact listed.unread.not_mem_erase
  have inside : ∀ digest, digest ∈ state.objects.keys.filter (fun digest => shardOf digest = shard) →
      state.has digest = true ∧ shardOf digest = shard := by
    intro digest member
    obtain ⟨key, here⟩ := List.mem_filter.mp member
    exact ⟨has_of_mem_keys key, of_decide_eq_true here⟩
  refine ⟨listed.unread.sublist (List.eraseIdx_sublist ..), ?_, fun digest member => ?_, fun digest held => ?_⟩
  · refine List.nodup_append.mpr ⟨listed.distinct, List.Nodup.filter _ ExtTreeMap.nodup_keys, ?_⟩
    rintro digest old _ new rfl
    refine (listed.held digest old).2 ?_
    rw [(inside digest new).2]
    exact List.mem_of_getElem? read
  · rcases List.mem_append.mp member with old | new
    · exact (listed.held digest old).imp_right fun unread later => unread (List.mem_of_mem_eraseIdx later)
    · obtain ⟨held, rfl⟩ := inside digest new
      exact ⟨held, fresh⟩
  · rcases listed.complete digest held with old | unread
    · exact .inl (List.mem_append_left _ old)
    · refine (mem_eraseIdx_or read unread).imp (fun here => List.mem_append_right _ ?_) id
      refine List.mem_filter.mpr ⟨?_, decide_eq_true here⟩
      exact ExtTreeMap.mem_keys.mpr (ExtTreeMap.isSome_getElem?_iff_mem.mp held)

theorem collect_listing {retained : ExtTreeMap Blake3 UInt64} {shards : List Nat} {found : List Blake3}
    (listed : state.Listed shards found)
    (returned : collect hold state ⟨options, items, .listing retained shards found⟩ picks = (none, after)) :
    Leaves state after fun digest => options.dryRun = true ∨ digest ∈ retained := by
  induction picks generalizing shards found with
  | nil => cases returned
  | cons pick picks ih =>
    cases read : shards[pick]? with
    | some shard =>
      rw [collect_goes (by simp only [stepGc, read]; rfl)] at returned
      exact ih (listed.read read) returned
    | none =>
      by_cases all : shards = []
      · subst all
        rw [collect_goes (by simp only [stepGc, read, if_true]; rfl)] at returned
        refine (collect_removing ((List.perm_insertionSort _ _).nodup_iff.mpr listed.distinct) (fun digest member => ?_)
          returned).congr fun digest held => ?_
        · exact (listed.held digest ((List.mem_insertionSort _).mp member)).1
        · have there := (listed.complete digest held).resolve_right List.not_mem_nil
          simp [there]
      · rw [collect_goes (by simp only [stepGc, read, all, if_false]; rfl)] at returned
        exact ih listed returned

theorem collect_reading (filed : state.Filed) (distinct : state.shards.Nodup) {folders : List String}
    {found : List VersionKey}
    (returned : collect hold state ⟨options, items, .reading folders found⟩ picks = (none, after)) :
    Leaves state after fun digest =>
      options.dryRun = true ∨ state.Spares hold ⟨options, items, .reading folders found⟩ digest := by
  induction picks generalizing folders found with
  | nil => cases returned
  | cons pick picks ih =>
    cases read : folders[pick]? with
    | some folder =>
      rw [collect_goes (by simp only [stepGc, read]; rfl)] at returned
      refine (ih returned).congr fun digest _ => or_congr_right ⟨fun spares => ?_, filed.reading_spares read⟩
      refine Retained.widen spares fun key member => ?_
      simp only [List.mem_append, List.mem_filter, decide_eq_true_eq, Bool.and_eq_true] at member ⊢
      rcases member with ((old | ⟨built, here, _⟩) | ⟨built, later⟩) | kept
      · exact .inl (.inl old)
      · exact .inl (.inr ⟨built, here ▸ List.mem_of_getElem? read⟩)
      · exact .inl (.inr ⟨built, List.mem_of_mem_eraseIdx later⟩)
      · exact .inr kept
    | none =>
      by_cases all : folders = []
      · subst all
        rw [collect_goes (by simp only [stepGc, read, if_true]; rfl)] at returned
        cases picks with
        | nil => cases returned
        | cons pick picks =>
          rw [collect_goes (by simp only [stepGc]; rfl)] at returned
          refine (collect_listing ⟨distinct, List.nodup_nil, by simp, fun digest held => .inr (filed.objects digest held)⟩
            returned).congr fun digest _ => or_congr_right (mem_retained.trans ?_)
          simp [Spares]
      · rw [collect_goes (by simp only [stepGc, read, all, if_false]; rfl)] at returned
        exact ih returned

section Returns

theorem returns_of_goes {task left : GcTask} (goes : state.stepGc hold task 0 = (some left, after))
    (returns : ∃ count, (collect hold after left (List.replicate count 0)).1 = none) :
    ∃ count, (collect hold state task (List.replicate count 0)).1 = none := by
  obtain ⟨count, ends⟩ := returns
  refine ⟨count + 1, ?_⟩
  rw [List.replicate_succ, collect_goes goes]
  exact ends

theorem removing_returns (retained : ExtTreeMap Blake3 UInt64) (objects : List Blake3) (state : DriveState) :
    ∃ count, (collect hold state ⟨options, items, .removing retained objects⟩ (List.replicate count 0)).1 = none := by
  induction objects generalizing state with
  | nil => exact ⟨1, rfl⟩
  | cons digest rest ih =>
    by_cases stays : (retained.contains digest || options.dryRun) = true
    · exact returns_of_goes (by simp only [stepGc, stays, if_true]) (ih state)
    · by_cases held : state.has digest = true
      · exact returns_of_goes (by simp only [stepGc]; rw [if_neg stays, if_pos held]) (ih _)
      · refine ⟨1, ?_⟩
        rw [List.replicate_one, collect_done]
        simp only [stepGc]
        rw [if_neg stays, if_neg held]

theorem listing_returns (retained : ExtTreeMap Blake3 UInt64) (shards : List Nat) (found : List Blake3) :
    ∃ count, (collect hold state ⟨options, items, .listing retained shards found⟩ (List.replicate count 0)).1 = none := by
  induction shards generalizing found with
  | nil => exact returns_of_goes (by simp only [stepGc, List.getElem?_nil, if_true]; rfl) (removing_returns _ _ _)
  | cons shard rest ih => exact returns_of_goes rfl (ih _)

theorem reading_returns (folders : List String) (found : List VersionKey) :
    ∃ count, (collect hold state ⟨options, items, .reading folders found⟩ (List.replicate count 0)).1 = none := by
  induction folders generalizing found with
  | nil =>
    refine returns_of_goes (by simp only [stepGc, List.getElem?_nil, if_true]; rfl) ?_
    exact returns_of_goes rfl (listing_returns _ _ _)
  | cons folder rest ih => exact returns_of_goes rfl (ih _)

end Returns

/-- Whatever calls came before and were interleaved, a collection that runs with nothing in between comes to its end
and removes exactly the objects that are retained by nothing; a dry run removes none. -/
theorem collect_exact (run : Run (step toLowercase hash hold) (fun _ _ => True) initial state) (options : GcOptions) :
    (∃ count, (collect hold state ⟨options, state.catalogOf toLowercase hash, .cataloged⟩
      (List.replicate count 0)).1 = none) ∧
    ∀ picks after,
      collect hold state ⟨options, state.catalogOf toLowercase hash, .cataloged⟩ picks = (none, after) →
      (after.doc = state.doc ∧ after.built = state.built) ∧
      ∀ digest size, after.objects[digest]? = some size ↔ state.objects[digest]? = some size ∧
        (options.dryRun = true ∨ state.Retains toLowercase hash hold options.keep digest) := by
  have shelved : state.Shelved := by
    refine run.invariant Shelved ⟨(@initial_tended toLowercase hash hold).filed, List.nodup_nil⟩ ?_
    intro before event holds _
    exact step_shelved holds event
  refine ⟨returns_of_goes rfl (reading_returns _ _), fun picks after returned => ?_⟩
  cases picks with
  | nil => cases returned
  | cons pick picks =>
    rw [collect_goes rfl] at returned
    have leaves : Leaves state after fun digest =>
        options.dryRun = true ∨ state.Retains toLowercase hash hold options.keep digest := by
      refine (collect_reading shelved.filed shelved.distinct returned).congr fun digest _ => or_congr_right ?_
      refine ⟨fun spares => Retained.widen spares fun key member => ?_,
        fun retains => Retained.widen retains fun key member => ?_⟩
      · simp only [List.nil_append, List.mem_append, List.mem_filter, decide_eq_true_eq] at member ⊢
        exact member.imp_left And.left
      · simp only [List.nil_append, List.mem_append, List.mem_filter, decide_eq_true_eq] at member ⊢
        exact member.imp_left fun built => ⟨built, (shelved.filed.built key built).2.2, (shelved.filed.built key built).1⟩
    exact ⟨leaves.rest, leaves.objects⟩

/-- Two objects have arrived, and a version with one of them was made current. -/
def stocked : DriveState :=
  (apartEvents.take 5).foldl (step (fun text => text) sampleHash sampleHold) initial

theorem collect_exact_stocked :
    (collect sampleHold stocked ⟨⟨false, []⟩, stocked.catalogOf (fun text => text) sampleHash, .cataloged⟩
      (List.replicate 9 0)).2.objects.keys = [sampleDigest] ∧
    ∀ picks after,
      collect sampleHold stocked ⟨⟨false, []⟩, stocked.catalogOf (fun text => text) sampleHash, .cataloged⟩ picks =
        (none, after) →
      ∀ digest size, after.objects[digest]? = some size ↔ stocked.objects[digest]? = some size ∧
        (false = true ∨ stocked.Retains (fun text => text) sampleHash sampleHold [] digest) := by
  have run : Run (step (fun text => text) sampleHash sampleHold) (fun _ _ => True) initial stocked :=
    Run.of_list _ (by simp [apartEvents, Run.Along])
  exact ⟨by decide +kernel, fun picks after returned => ((collect_exact run ⟨false, []⟩).2 picks after returned).2⟩

end Mille.Drive.DriveState
