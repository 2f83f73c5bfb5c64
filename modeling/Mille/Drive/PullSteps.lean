import Mille.Drive.SyncPulls

/-! What each call of the host does to the pull of one object from one holder and to the
back-off between them. -/

namespace Mille.Drive

open Std Mille.Bincode

namespace SyncState

variable {V : Type} (holder : String) (digest : Blake3)

/-- When the pull in flight of the object from the holder started. -/
def slot (sync : SyncState V) : Option Nat :=
  (sync.inflight[digest]?).bind fun pull => if pull.holder = holder then some pull.since else none

/-- The holder's failures of the object in a row. -/
def record (sync : SyncState V) : Option Backoff :=
  (sync.failed[digest]?).bind (·[holder]?)

variable {holder digest} {sync other : SyncState V}

theorem slot_of_pulls (same : other.pulls = sync.pulls) : other.slot holder digest = sync.slot holder digest := by
  rw [slot, slot, inflight_of_pulls same]

theorem record_of_pulls (same : other.pulls = sync.pulls) :
    other.record holder digest = sync.record holder digest := by
  rw [record, record, failed_of_pulls same]

@[simp] theorem ticks_endFailed (name : Blake3) (peer : String) : (sync.endFailed name peer).ticks = sync.ticks := by
  unfold endFailed
  repeat' split
  all_goals rfl

section EndFailed

theorem slot_endFailed (sync : SyncState V) : (sync.endFailed digest holder).slot holder digest = none := by
  unfold endFailed
  split
  · rename_i pull flying
    split_ifs with same
    · simp only [slot, Maps.lookup_erase, ↓reduceIte, Option.bind_none]
    · rw [slot, flying, Option.bind_some, if_neg same]
  · rename_i idle
    rw [slot, idle, Option.bind_none]

/-- The pull in flight fails: one more failure is recorded. Without one nothing is. -/
theorem record_endFailed (sync : SyncState V) : (sync.endFailed digest holder).record holder digest =
    if (sync.slot holder digest).isSome then
      some (Backoff.again ((sync.record holder digest).getD ⟨0, 0⟩) sync.ticks)
    else sync.record holder digest := by
  unfold endFailed
  split
  · rename_i pull flying
    by_cases same : pull.holder = holder
    · have found : (sync.slot holder digest).isSome = true := by
        rw [slot, flying, Option.bind_some, if_pos same]
        rfl
      have backoff : (sync.failed.getD digest {}).getD holder ⟨0, 0⟩ =
          (sync.record holder digest).getD ⟨0, 0⟩ := by
        rw [record, ExtTreeMap.getD_eq_getD_getElem?, ExtTreeMap.getD_eq_getD_getElem?]
        cases sync.failed[digest]? with
        | none => simp
        | some holders => rfl
      rw [if_pos same, if_pos found]
      simp only [record, Maps.lookup_insert, ↓reduceIte, Option.bind_some]
      rw [backoff]
      rfl
    · have absent : (sync.slot holder digest).isSome = false := by
        rw [slot, flying, Option.bind_some, if_neg same]
        rfl
      rw [if_neg same, absent]
      rfl
  · rename_i idle
    have absent : (sync.slot holder digest).isSome = false := by
      rw [slot, idle]
      rfl
    rw [absent]
    rfl

theorem slot_endFailed_other {name : Blake3} {peer : String} (differs : name ≠ digest ∨ peer ≠ holder) :
    (sync.endFailed name peer).slot holder digest = sync.slot holder digest := by
  unfold endFailed
  split
  · rename_i pull flying
    split_ifs with same
    · simp only [slot, Maps.lookup_erase]
      split_ifs with equal
      · subst equal
        rw [flying, Option.bind_some, if_neg, Option.bind_none]
        exact fun mine => differs.resolve_left (fun no => no rfl) (same.symm.trans mine)
      · rfl
    · rfl
  · rfl

theorem record_endFailed_other {name : Blake3} {peer : String} (differs : name ≠ digest ∨ peer ≠ holder) :
    (sync.endFailed name peer).record holder digest = sync.record holder digest := by
  unfold endFailed
  split
  · split_ifs
    · simp only [record, Maps.lookup_insert]
      split_ifs with equal
      · subst equal
        rw [Option.bind_some, Maps.lookup_insert, if_neg (differs.resolve_left fun no => no rfl),
          ExtTreeMap.getD_eq_getD_getElem?]
        cases sync.failed[name]? with
        | none => simp
        | some holders => rfl
      · rfl
    · rfl
  · rfl

theorem slot_endFailed_if (name : Blake3) (peer : String) : (sync.endFailed name peer).slot holder digest =
    if peer = holder ∧ name = digest then none else sync.slot holder digest := by
  by_cases ours : peer = holder ∧ name = digest
  · rw [if_pos ours, ours.1, ours.2]
    exact slot_endFailed sync
  · rw [if_neg ours]
    exact slot_endFailed_other (not_and_or.mp ours).symm

theorem record_endFailed_if (name : Blake3) (peer : String) :
    (sync.endFailed name peer).record holder digest =
      if (peer = holder ∧ name = digest) ∧ (sync.slot holder digest).isSome then
        some (Backoff.again ((sync.record holder digest).getD ⟨0, 0⟩) sync.ticks)
      else sync.record holder digest := by
  rw [ite_and]
  by_cases ours : peer = holder ∧ name = digest
  · rw [if_pos ours, ours.1, ours.2]
    exact record_endFailed sync
  · rw [if_neg ours]
    exact record_endFailed_other (not_and_or.mp ours).symm

theorem entry_differs {entry : Blake3 × String} (other : entry ≠ (digest, holder)) :
    entry.1 ≠ digest ∨ entry.2 ≠ holder := by
  by_contra same
  rw [not_or, not_ne_iff, not_ne_iff] at same
  exact other (Prod.ext same.1 same.2)

theorem mem_cons_other {entry : Blake3 × String} {rest : List (Blake3 × String)}
    (differs : entry.1 ≠ digest ∨ entry.2 ≠ holder) :
    (digest, holder) ∈ entry :: rest ↔ (digest, holder) ∈ rest := by
  rw [List.mem_cons, or_iff_right]
  rintro rfl
  exact differs.elim (fun no => no rfl) (fun no => no rfl)

theorem slot_endAll (entries : List (Blake3 × String)) : (sync.endAll entries).slot holder digest =
    if (digest, holder) ∈ entries then none else sync.slot holder digest := by
  induction entries generalizing sync with
  | nil => rfl
  | cons entry rest ih =>
    change ((sync.endFailed entry.1 entry.2).endAll rest).slot holder digest = _
    rw [ih]
    by_cases ours : entry = (digest, holder)
    · rw [ours, slot_endFailed, if_pos List.mem_cons_self, ite_self]
    · have differs := entry_differs ours
      rw [slot_endFailed_other differs]
      exact if_congr (mem_cons_other differs).symm rfl rfl

theorem record_endAll (entries : List (Blake3 × String)) : (sync.endAll entries).record holder digest =
    if (digest, holder) ∈ entries then (sync.endFailed digest holder).record holder digest
    else sync.record holder digest := by
  induction entries generalizing sync with
  | nil => rfl
  | cons entry rest ih =>
    change ((sync.endFailed entry.1 entry.2).endAll rest).record holder digest = _
    rw [ih]
    by_cases ours : entry = (digest, holder)
    · -- it has ended once the first of its entries is through
      rw [ours, if_pos List.mem_cons_self, record_endFailed (sync.endFailed digest holder), slot_endFailed]
      exact ite_self _
    · have differs := entry_differs ours
      rw [record_endFailed_other differs, record_endFailed, record_endFailed, slot_endFailed_other differs,
        record_endFailed_other differs, ticks_endFailed]
      exact if_congr (mem_cons_other differs).symm rfl rfl

theorem ticks_endAll (entries : List (Blake3 × String)) : (sync.endAll entries).ticks = sync.ticks := by
  induction entries generalizing sync with
  | nil => rfl
  | cons entry rest ih =>
    change ((sync.endFailed entry.1 entry.2).endAll rest).ticks = _
    rw [ih, ticks_endFailed]

theorem mem_expired : (digest, holder) ∈ sync.expired ↔
    (sync.slot holder digest).any (fun since => sync.ticks - since ≥ pullExpiryTicks) = true := by
  unfold expired slot
  simp only [List.mem_filterMap, Prod.exists, ExtTreeMap.mem_toList_iff_getElem?_eq_some]
  constructor
  · rintro ⟨name, pull, flying, found⟩
    split_ifs at found with late
    cases found
    rw [flying, Option.bind_some, if_pos rfl]
    simpa using late
  · intro late
    cases flying : sync.inflight[digest]? with
    | none =>
      rw [flying] at late
      cases late
    | some pull =>
      rw [flying, Option.bind_some] at late
      split_ifs at late with same
      · refine ⟨digest, pull, flying, ?_⟩
        rw [if_pos (by simpa using late), same]
      · cases late

end EndFailed

section Triggers

variable [VersionVector V] {options : DriveOptions} {world : World V} {trigger : Trigger V}

/-- The clock once a trigger has been applied. -/
def now (sync : SyncState V) : Trigger V → Nat
  | .tick => sync.ticks + 1
  | _ => sync.ticks

/-- The trigger ends the object's pull from the holder, if one is in flight. -/
def Ends (holder : String) (digest : Blake3) (sync : SyncState V) : Trigger V → Prop
  | .pullFailed peer name => peer = holder ∧ name = digest
  | .tick => (sync.slot holder digest).any (fun since => sync.ticks + 1 - since ≥ pullExpiryTicks) = true
  | _ => False

instance (trigger : Trigger V) : Decidable (Ends holder digest sync trigger) := by
  cases trigger <;> unfold Ends <;> infer_instance

theorem ticks_applied : (sync.applied options world trigger).ticks = sync.now trigger := by
  cases trigger with
  | tick => exact ticks_endAll _
  | pullFailed peer name => exact ticks_endFailed _ _
  | _ => rfl

theorem slot_applied (unlanded : trigger ≠ .pulled digest) :
    (sync.applied options world trigger).slot holder digest =
      if Ends holder digest sync trigger then none else sync.slot holder digest := by
  cases trigger with
  | tick =>
    change (SyncState.endAll _ _).slot holder digest = _
    rw [slot_endAll]
    exact if_congr mem_expired rfl rfl
  | pullFailed peer name => exact slot_endFailed_if name peer
  | pulled name =>
    have different : name ≠ digest := fun same => unlanded (same ▸ rfl)
    refine Eq.trans ?_ (if_neg id).symm
    change ((sync.inflight.erase name)[digest]?).bind _ = _
    rw [Maps.lookup_erase, if_neg different]
    rfl
  | _ => exact (if_neg id).symm

theorem record_applied (unlanded : trigger ≠ .pulled digest) :
    (sync.applied options world trigger).record holder digest =
      if Ends holder digest sync trigger ∧ (sync.slot holder digest).isSome then
        some (Backoff.again ((sync.record holder digest).getD ⟨0, 0⟩) (sync.now trigger))
      else sync.record holder digest := by
  cases trigger with
  | tick =>
    change (SyncState.endAll _ _).record holder digest = _
    rw [record_endAll, record_endFailed, ← ite_and]
    exact if_congr (and_congr_left' mem_expired) rfl rfl
  | pullFailed peer name => exact record_endFailed_if name peer
  | pulled name =>
    have different : name ≠ digest := fun same => unlanded (same ▸ rfl)
    refine Eq.trans ?_ (if_neg fun ends => ends.1).symm
    change ((sync.failed.erase name)[digest]?).bind _ = _
    rw [Maps.lookup_erase, if_neg different]
    rfl
  | _ => exact (if_neg fun ends => ends.1).symm

end Triggers

section Offers

/-- The call asks for the object from the holder. -/
def Offered (holder : String) (digest : Blake3) (result : Except DriveError (List SyncAction)) : Prop :=
  match result with
  | .ok actions => .pull holder digest ∈ actions
  | .error _ => False

instance (result : Except DriveError (List SyncAction)) : Decidable (Offered holder digest result) := by
  cases result <;> unfold Offered <;> infer_instance

theorem slot_eq_some {since : Nat} :
    sync.slot holder digest = some since ↔ sync.inflight[digest]? = some ⟨holder, since⟩ := by
  rw [slot, Option.bind_eq_some_iff]
  constructor
  · rintro ⟨⟨peer, started⟩, flying, same⟩
    split_ifs at same with mine
    cases same
    rw [flying, ← mine]
  · exact fun flying => ⟨_, flying, if_pos rfl⟩

theorem retry_of_ready {backoff : Backoff} (isReady : sync.ready digest holder = true)
    (found : sync.record holder digest = some backoff) : backoff.retry ≤ sync.ticks := by
  unfold ready at isReady
  rw [show sync.failed[digest]?.bind (·[holder]?) = some backoff from found] at isReady
  exact of_decide_eq_true isReady

theorem record_settle (world : World V) (per : Nat) : (sync.settle world per).1.record holder digest =
    if digest ∈ world.wants then sync.record holder digest else none := by
  unfold record
  rw [failed_settle, ExtTreeMap.getElem?_filter', ExtTreeMap.getElem?_filter']
  cases sync.failed[digest]? with
  | none => simp
  | some holders =>
    by_cases wanted : digest ∈ world.wants
    · by_cases empty : holders.isEmpty
      · have nothing : holders = ∅ := ExtTreeMap.isEmpty_iff.mp empty
        simp [Option.filter, wanted, nothing]
      · simp [Option.filter, wanted, empty]
    · simp [Option.filter, wanted]

theorem startPulls_source {limit : Nat} {digests : List Blake3} {pull : InflightPull}
    (flying : (startPulls limit digests sync).1.inflight[digest]? = some pull) :
    sync.inflight[digest]? = some pull ∨ .pull pull.holder digest ∈ (startPulls limit digests sync).2 := by
  induction digests generalizing sync with
  | nil => exact .inl flying
  | cons head rest ih =>
    unfold startPulls at flying ⊢
    by_cases full : sync.inflight.size ≥ limit
    · rw [if_pos full] at flying
      exact .inl flying
    · rw [if_neg full] at flying ⊢
      by_cases busy : sync.inflight.contains head = true
      · rw [if_pos busy] at flying ⊢
        exact ih flying
      · rw [if_neg busy] at flying ⊢
        cases source : sync.pullSource head with
        | none =>
          simp only [source] at flying ⊢
          exact ih flying
        | some first =>
          simp only [source] at flying ⊢
          rcases ih flying with before | started
          · dsimp only at before
            rw [Maps.lookup_insert] at before
            split_ifs at before with same
            · cases before
              exact .inr (same ▸ List.mem_cons_self)
            · exact .inl before
          · exact .inr (List.mem_cons_of_mem _ started)

theorem slot_startPulls {limit : Nat} {digests : List Blake3}
    (unstarted : .pull holder digest ∉ (startPulls limit digests sync).2) :
    (startPulls limit digests sync).1.slot holder digest = sync.slot holder digest := by
  apply Option.ext
  intro since
  rw [slot_eq_some, slot_eq_some]
  constructor
  · intro flying
    exact (startPulls_source flying).resolve_right unstarted
  · exact startPulls_inflight

/-- What a step does to the pull of the object from the holder: it ends it or not, and
may start one. -/
structure Steps (holder : String) (digest : Blake3) (sync : SyncState V) (ends : Prop) [Decidable ends]
    (clock : Nat) (after : SyncState V) (result : Except DriveError (List SyncAction)) : Prop where
  ticks : after.ticks = clock
  record : after.record holder digest =
    if ends ∧ (sync.slot holder digest).isSome then
      some (Backoff.again ((sync.record holder digest).getD ⟨0, 0⟩) clock)
    else sync.record holder digest
  slot : after.slot holder digest =
    if Offered holder digest result then some clock
    else if ends then none else sync.slot holder digest
  idle : Offered holder digest result → (if ends then none else sync.slot holder digest) = none
  ready : Offered holder digest result →
    ∀ backoff, after.record holder digest = some backoff → backoff.retry ≤ clock

theorem Steps.of_pulls {ends other : Prop} [Decidable ends] [Decidable other] {clock : Nat}
    {start after : SyncState V} {result : Except DriveError (List SyncAction)}
    (steps : Steps holder digest start ends clock after result) (same : start.pulls = sync.pulls)
    (iff : ends ↔ other) : Steps holder digest sync other clock after result := by
  cases (propext iff : ends = other)
  obtain ⟨ticks, record, slot, idle, ready⟩ := steps
  rw [record_of_pulls same, slot_of_pulls same] at record
  rw [slot_of_pulls same] at slot idle
  exact ⟨ticks, by convert record, by convert slot, fun offered => by convert idle offered, ready⟩

theorem Steps.still {after : SyncState V} {result : Except DriveError (List SyncAction)}
    (ticks : after.ticks = sync.ticks) (record : after.record holder digest = sync.record holder digest)
    (slot : after.slot holder digest = sync.slot holder digest) (silent : ¬Offered holder digest result) :
    Steps holder digest sync False sync.ticks after result :=
  ⟨ticks, by rw [if_neg fun ends => ends.1, record], by rw [if_neg silent, if_neg id, slot],
    fun offered => absurd offered silent, fun offered => absurd offered silent⟩

theorem Steps.refused {name : Blake3} {peer : String} {result : Except DriveError (List SyncAction)}
    (silent : ¬Offered holder digest result) :
    Steps holder digest sync (peer = holder ∧ name = digest) sync.ticks (sync.endFailed name peer) result := by
  refine ⟨ticks_endFailed _ _, record_endFailed_if name peer, ?_, fun offered => absurd offered silent,
    fun offered => absurd offered silent⟩
  rw [if_neg silent]
  exact slot_endFailed_if name peer

theorem slot_syncClose {name : String} (other : name ≠ holder) :
    (sync.syncClose name).slot holder digest = sync.slot holder digest := by
  apply Option.ext
  intro since
  rw [slot_eq_some, slot_eq_some]
  unfold syncClose
  dsimp only
  rw [ExtTreeMap.getElem?_filter', Option.filter_eq_some_iff, and_iff_left]
  simpa using other.symm

theorem record_syncClose {name : String} (other : name ≠ holder) :
    (sync.syncClose name).record holder digest = sync.record holder digest := by
  unfold record syncClose
  dsimp only
  rw [ExtTreeMap.getElem?_map]
  cases sync.failed[digest]? with
  | none => rfl
  | some holders =>
    rw [Option.map_some, Option.bind_some, Option.bind_some, Maps.lookup_erase, if_neg other]

end Offers

section Reactions

variable [VersionVector V] (options : DriveOptions) {world : World V} {trigger : Trigger V}

/-- What a reaction does to the pull of a wanted object from the holder. -/
theorem react_view (sync : SyncState V) (wanted : digest ∈ world.wants) :
    let applied := sync.applied options world trigger
    let after := (sync.react options world trigger).1
    let result := (sync.react options world trigger).2
    after.ticks = applied.ticks ∧ after.record holder digest = applied.record holder digest ∧
      after.slot holder digest =
        (if Offered holder digest result then some applied.ticks else applied.slot holder digest) ∧
      (Offered holder digest result → applied.slot holder digest = none ∧
        applied.ready digest holder = true) := by
  intro applied after result
  obtain ⟨sent, pulls, _, ⟨refusal, stopped⟩ | ⟨updates, sends, _, whole⟩⟩ :=
    sync.react_cases options world trigger
  · have unsent : ¬Offered holder digest result := by
      rw [show result = _ from congrArg Prod.snd stopped]
      exact id
    rw [show after = sent from congrArg Prod.fst stopped, if_neg unsent]
    exact ⟨ticks_of_pulls pulls, record_of_pulls pulls, slot_of_pulls pulls,
      fun offered => absurd offered unsent⟩
  · have afterIs : after = _ := congrArg Prod.fst whole
    have resultIs : result = _ := congrArg Prod.snd whole
    have ticks : after.ticks = applied.ticks := by
      rw [afterIs, startPulls_keeps]
      exact (ticks_settle _ _ _).trans (ticks_of_pulls pulls)
    have record : after.record holder digest = applied.record holder digest := by
      rw [afterIs, startPulls_keeps]
      exact ((record_settle world _).trans (if_pos wanted)).trans (record_of_pulls pulls)
    refine ⟨ticks, record, ?_, ?_⟩
    · by_cases offered : Offered holder digest result
      · obtain ⟨_, _, _, _, flying⟩ := react_pull options resultIs (by rwa [resultIs] at offered)
        rw [if_pos offered, ← ticks]
        exact slot_eq_some.mpr flying
      · have unstarted := fun started => offered (resultIs ▸ List.mem_append_right _ started)
        rw [if_neg offered, afterIs, slot_startPulls unstarted, slot, inflight_settle,
          inflight_of_pulls pulls]
        rfl
    · intro offered
      obtain ⟨_, idle, isReady, _⟩ := react_pull options resultIs (by rwa [resultIs] at offered)
      refine ⟨?_, isReady⟩
      rw [slot, ExtTreeMap.getElem?_eq_none idle]
      rfl

theorem Steps.react (sync : SyncState V) (wanted : digest ∈ world.wants) (unlanded : trigger ≠ .pulled digest) :
    Steps holder digest sync (Ends holder digest sync trigger) (sync.now trigger)
      (sync.react options world trigger).1 (sync.react options world trigger).2 := by
  obtain ⟨ticks, record, slot, offers⟩ := @react_view V holder digest _ options world trigger sync wanted
  have clock : (sync.applied options world trigger).ticks = sync.now trigger := ticks_applied
  rw [clock, slot_applied unlanded] at slot
  rw [slot_applied unlanded] at offers
  refine ⟨ticks.trans clock, record.trans (record_applied unlanded), slot, fun offered => (offers offered).1, ?_⟩
  intro offered backoff found
  rw [← clock]
  exact retry_of_ready (offers offered).2 (record.symm.trans found)

end Reactions

end SyncState

namespace SyncCall

variable {V : Type} (holder : String) (digest : Blake3)

/-- The call ends the object's pull from the holder, if one is in flight. -/
def Ends (sync : SyncState V) : SyncCall V → Prop
  | .pulled _ (.error _) peer name => peer = holder ∧ name = digest
  | .pullFailed _ peer name => peer = holder ∧ name = digest
  | .tick _ => (sync.slot holder digest).any (fun since => sync.ticks + 1 - since ≥ pullExpiryTicks) = true
  | _ => False

instance (sync : SyncState V) (call : SyncCall V) : Decidable (call.Ends holder digest sync) :=
  match call with
  | .pulled _ (.error _) peer name | .pullFailed _ peer name =>
    inferInstanceAs (Decidable (peer = holder ∧ name = digest))
  | .tick _ => inferInstanceAs (Decidable (_ = true))
  | .pulled _ (.ok _) _ _ | .opened _ _ | .handle _ _ _ _ | .localChanged _ | .close _ =>
    inferInstanceAs (Decidable False)

/-- The clock after the call. -/
def clock (sync : SyncState V) : SyncCall V → Nat
  | .tick _ => sync.ticks + 1
  | _ => sync.ticks

variable {holder digest} [VersionVector V] (options : DriveOptions) {call : SyncCall V}

/-- What a call does to the pull of an object from a holder that stays open and wanted. -/
theorem steps_call (sync : SyncState V) (kept : call.KeepsOffer holder digest) :
    SyncState.Steps holder digest sync (call.Ends holder digest sync) (call.clock sync)
      (sync.call options call).1 (sync.call options call).2 := by
  rcases SyncState.call_cases options sync call with ⟨world, trigger, start, reaching, same, ⟨pulls, _⟩⟩ |
    ⟨unreached, quiet, silent⟩
  · have reached := SyncState.reaction_reached options reaching
    have wanted := reached.wants options kept.1
    have unlanded : trigger ≠ .pulled digest := by
      rintro rfl
      obtain ⟨peer, landed⟩ := reached.landed options
      exact kept.2.2 world peer landed
    have steps := @SyncState.Steps.react V holder digest _ options world trigger start wanted unlanded
    have clock : start.now trigger = call.clock sync := by
      cases reached with
      | handle accepts handled => cases handled <;> exact SyncState.ticks_of_pulls pulls
      | tick => rfl
      | _ => exact SyncState.ticks_of_pulls pulls
    have ends : SyncState.Ends holder digest start trigger ↔ call.Ends holder digest sync := by
      cases reached with
      | handle accepts handled => cases handled <;> exact Iff.rfl
      | _ => exact Iff.rfl
    rw [same, ← clock]
    exact steps.of_pulls pulls ends
  · have unoffered : ¬SyncState.Offered holder digest (sync.call options call).2 := by
      intro offered
      cases emitted : (sync.call options call).2 with
      | error refusal =>
        rw [emitted] at offered
        exact offered
      | ok actions =>
        rw [emitted, silent actions emitted] at offered
        exact absurd offered List.not_mem_nil
    generalize (sync.call options call).1 = after at quiet ⊢
    generalize (sync.call options call).2 = result at unoffered ⊢
    cases quiet with
    | handle joined =>
      exact .still (SyncState.ticks_of_pulls joined.pulls) (SyncState.record_of_pulls joined.pulls)
        (SyncState.slot_of_pulls joined.pulls) unoffered
    | refused => exact .refused unoffered
    | close name =>
      have other : name ≠ holder := fun same => kept.2.1 (same ▸ rfl)
      exact .still rfl (SyncState.record_syncClose other) (SyncState.slot_syncClose other) unoffered

end SyncCall

end Mille.Drive
