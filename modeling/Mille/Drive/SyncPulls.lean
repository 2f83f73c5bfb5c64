import Mathlib
import Mille.Lib.Run
import Mille.Drive.SyncCalls

/-! Scheduling of pulls over whole histories of calls. -/

namespace Mille.Drive

open Std Mille.Bincode

namespace SyncCall

variable {V : Type}

/-- The call hands over a `Have` of the peer that names the object. -/
def Offers (options : DriveOptions) (holder : String) (digest : Blake3) : SyncCall V → Prop
  | .handle _ _ peer frame => peer = holder ∧ ∃ digests,
    SyncState.accepted options frame = some (.haves digests) ∧
      digests.length ≤ maxDigestsPerFrame ∧ digest ∈ digests
  | _ => False

/-- The call finds the object wanted. -/
def Wants (digest : Blake3) : SyncCall V → Prop
  | .opened world _ | .handle world _ _ _ | .localChanged world | .pulled world _ _ _
  | .pullFailed world _ _ | .tick world => digest ∈ world.wants
  | .close _ => True

/-- The call neither closes the holder nor lands the object, and finds it wanted. -/
def KeepsOffer (holder : String) (digest : Blake3) (call : SyncCall V) : Prop :=
  call.Wants digest ∧ call ≠ .close holder ∧
    ∀ world peer, call ≠ .pulled world (.ok ()) peer digest

end SyncCall

/-- The peer offered the object and has not been closed since. -/
def OfferedSinceClosed {V : Type} (options : DriveOptions) (holder : String) (digest : Blake3) :
    List (SyncCall V) → Prop :=
  Since (·.Offers options holder digest) (· ≠ .close holder)

/-- The peer offered the object while it was wanted, and the offer still stands. -/
def Offering {V : Type} (options : DriveOptions) (holder : String) (digest : Blake3) :
    List (SyncCall V) → Prop :=
  Since (fun call => call.Offers options holder digest ∧ call.Wants digest)
    (·.KeepsOffer holder digest)

namespace SyncState

variable {V : Type} [VersionVector V] (options : DriveOptions)

/-- What holds of the schedule after every history. -/
structure Scheduled (calls : List (SyncCall V)) (sync : SyncState V) : Prop where
  bounded : sync.inflight.size ≤ options.maxConcurrentPulls.toNat
  offered : ∀ holder digest, holder ∈ sync.holders.getD digest [] →
    OfferedSinceClosed options holder digest calls
  offering : ∀ holder digest, Offering options holder digest calls →
    holder ∈ sync.holders.getD digest []

theorem Reached.offers {sync start : SyncState V} {call : SyncCall V} {world : World V}
    {holder : String} {digests : List Blake3} {digest : Blake3}
    (reached : Reached options sync call world (.haves holder digests) start)
    (named : digest ∈ digests) : call.Offers options holder digest := by
  cases reached with
  | handle accepts handled =>
    cases handled with
    | haves few => exact ⟨rfl, digests, accepts, Nat.le_of_not_gt few, named⟩

theorem reaction_offers {call : SyncCall V} {holder : String} {digest : Blake3}
    (sync : SyncState V) (offers : call.Offers options holder digest) :
    ∃ world digests start, sync.reaction options call = some (world, .haves holder digests, start) ∧
      digest ∈ digests := by
  cases call with
  | handle world importInner peer frame =>
    obtain ⟨rfl, digests, accepts, few, named⟩ := offers
    refine ⟨world, digests, sync, ?_, named⟩
    simp only [reaction, accepts, Option.bind_some, frameReaction]
    rw [if_neg (Nat.not_lt.mpr few)]
  | _ => cases offers

theorem Reached.wants {sync start : SyncState V} {call : SyncCall V} {world : World V}
    {trigger : Trigger V} {digest : Blake3} (reached : Reached options sync call world trigger start)
    (wanted : call.Wants digest) : digest ∈ world.wants := by
  cases reached <;> exact wanted

theorem Reached.landed {sync start : SyncState V} {call : SyncCall V} {world : World V}
    {digest : Blake3} (reached : Reached options sync call world (.pulled digest) start) :
    ∃ peer, call = .pulled world (.ok ()) peer digest := by
  cases reached with
  | handle accepts handled => cases handled
  | pulled => exact ⟨_, rfl⟩

section React

variable {world : World V} {trigger : Trigger V} {sync : SyncState V}

theorem holder_react {holder : String} {digest : Blake3} :
    (holder ∈ (sync.react options world trigger).1.holders.getD digest [] →
      holder ∈ (sync.applied options world trigger).holders.getD digest []) ∧
    (digest ∈ world.wants → holder ∈ (sync.applied options world trigger).holders.getD digest [] →
      holder ∈ (sync.react options world trigger).1.holders.getD digest []) := by
  obtain ⟨sent, pulls, _, ⟨refusal, failed⟩ | ⟨frames, _, _, done⟩⟩ :=
    sync.react_cases options world trigger
  · rw [failed, ← holders_of_pulls pulls]
    exact ⟨id, fun _ => id⟩
  · have kept := congrArg SyncState.holders (@startPulls_keeps V
      options.maxConcurrentPulls.toNat world.wants.toList
      (sent.settle world (digestsPerFrame options.maxFrameBytes.toNat)).1)
    rw [done, ← holders_of_pulls pulls]
    dsimp only at kept ⊢
    rw [kept]
    constructor
    · intro member
      rw [holders_settle, ExtTreeMap.getD_eq_getD_getElem?, ExtTreeMap.getElem?_filter'] at member
      rw [ExtTreeMap.getD_eq_getD_getElem?]
      cases found : sent.holders[digest]? with
      | none => simp [found] at member
      | some holders =>
        simp only [found, Option.filter] at member
        split at member
        · exact member
        · cases member
    · intro wanted member
      rw [ExtTreeMap.getD_eq_getD_getElem?, holders_settle_wanted _ _ _ wanted,
        ← ExtTreeMap.getD_eq_getD_getElem?]
      exact member

theorem size_react (bounded : sync.inflight.size ≤ options.maxConcurrentPulls.toNat) :
    (sync.react options world trigger).1.inflight.size ≤ options.maxConcurrentPulls.toNat := by
  have small := (size_applyTrigger sync world (digestsPerFrame options.maxFrameBytes.toNat)
    trigger).trans bounded
  obtain ⟨sent, pulls, _, ⟨refusal, failed⟩ | ⟨frames, _, _, done⟩⟩ :=
    sync.react_cases options world trigger
  · rw [failed, inflight_of_pulls pulls]
    exact small
  · rw [done]
    apply startPulls_size
    rw [inflight_settle, inflight_of_pulls pulls]
    exact small

end React

/-- One more call keeps the schedule. -/
theorem Scheduled.call {calls : List (SyncCall V)} {sync : SyncState V}
    (scheduled : Scheduled options calls sync) (call : SyncCall V) :
    Scheduled options (calls ++ [call]) (sync.call options call).1 := by
  rcases call_cases options sync call with ⟨world, trigger, start, reaching, same, ⟨pulls, _⟩⟩ |
    ⟨unreached, quiet, _⟩
  · have reached := reaction_reached options reaching
    have stays : ∀ holder, call ≠ .close holder := by
      rintro holder rfl
      cases reached
    rw [same]
    refine ⟨?_, ?_, ?_⟩
    · exact size_react options ((inflight_of_pulls pulls) ▸ scheduled.bounded)
    · intro holder digest member
      rcases (holder_applyTrigger start).mp ((holder_react options).1 member) with
        ⟨_, before⟩ | ⟨digests, rfl, named, _⟩
      · rw [holders_of_pulls pulls] at before
        exact since_snoc.mpr (.inr ⟨scheduled.offered holder digest before, stays holder⟩)
      · exact since_snoc.mpr (.inl (reached.offers options named))
    · intro holder digest offering
      rcases since_snoc.mp offering with ⟨offers, wanted⟩ | ⟨before, wanted, _, unlanded⟩
      · obtain ⟨other, digests, first, again, named⟩ := reaction_offers options sync offers
        obtain ⟨_, rfl, _⟩ := by simpa using again.symm.trans reaching
        have wants := reached.wants options wanted
        exact (holder_react options).2 wants
          ((holder_applyTrigger start).mpr (.inr ⟨digests, rfl, named, wants⟩))
      · have there := scheduled.offering holder digest before
        rw [← holders_of_pulls pulls] at there
        refine (holder_react options).2 (reached.wants options wanted)
          ((holder_applyTrigger start).mpr (.inl ⟨?_, there⟩))
        rintro rfl
        obtain ⟨peer, landed⟩ := reached.landed options
        exact unlanded world peer landed
  · have silent {holder : String} {digest : Blake3} : ¬call.Offers options holder digest := by
      intro offers
      obtain ⟨_, _, _, reached, _⟩ := reaction_offers options sync offers
      exact absurd (unreached.symm.trans reached) (by simp)
    have unchanged {after : SyncState V} (holders : after.holders = sync.holders)
        (size : after.inflight.size ≤ sync.inflight.size) (stays : ∀ holder, call ≠ .close holder) :
        Scheduled options (calls ++ [call]) after := by
      refine ⟨size.trans scheduled.bounded, ?_, ?_⟩
      · intro holder digest member
        rw [holders] at member
        exact since_snoc.mpr (.inr ⟨scheduled.offered holder digest member, stays holder⟩)
      · intro holder digest offering
        rw [holders]
        rcases since_snoc.mp offering with ⟨offers, _⟩ | ⟨before, _⟩
        · exact absurd offers silent
        · exact scheduled.offering holder digest before
    generalize (sync.call options call).1 = after at quiet
    cases quiet with
    | handle joined =>
      exact unchanged (holders_of_pulls joined.pulls) (by rw [inflight_of_pulls joined.pulls]) (by simp)
    | refused => exact unchanged (holders_endFailed ..) (size_endFailed ..) (by simp)
    | close name =>
      refine ⟨ExtTreeMap.size_filter_le_size.trans scheduled.bounded, ?_, ?_⟩
      · intro holder digest member
        obtain ⟨before, other⟩ := (holder_after_close sync).mp member
        exact since_snoc.mpr (.inr ⟨scheduled.offered holder digest before, by simpa using other.symm⟩)
      · intro holder digest offering
        rcases since_snoc.mp offering with ⟨offers, _⟩ | ⟨before, _, kept, _⟩
        · exact absurd offers silent
        · exact (holder_after_close sync).mpr ⟨scheduled.offering holder digest before, by
            simpa using Ne.symm kept⟩

theorem scheduled_afterCalls (calls : List (SyncCall V)) :
    Scheduled options calls (afterCalls options calls) := by
  induction calls using List.reverseRecOn with
  | nil =>
    refine ⟨?_, ?_, ?_⟩
    · simp [afterCalls, SyncState.default]
    · intro holder digest member
      simp [afterCalls, SyncState.default] at member
    · exact fun _ _ offering => absurd offering not_since_nil
  | append_singleton calls call ih =>
    have next := ih.call options call
    unfold afterCalls at next ⊢
    rwa [List.foldl_append]

theorem react_pull {world : World V} {trigger : Trigger V} {sync : SyncState V}
    {actions : List SyncAction} (done : (sync.react options world trigger).2 = .ok actions)
    {holder : String} {digest : Blake3} (started : .pull holder digest ∈ actions) :
    digest ∈ world.wants ∧ digest ∉ (sync.applied options world trigger).inflight ∧
      (sync.applied options world trigger).ready digest holder = true ∧
      holder ∈ (sync.applied options world trigger).holders.getD digest [] ∧
      (sync.react options world trigger).1.inflight[digest]? =
        some ⟨holder, (sync.react options world trigger).1.ticks⟩ := by
  obtain ⟨sent, pulls, _, ⟨refusal, failed⟩ | ⟨frames, sends, _, whole⟩⟩ :=
    sync.react_cases options world trigger
  · rw [failed] at done
    cases done
  · rw [whole] at done ⊢
    cases done
    have late : .pull holder digest ∈ (startPulls options.maxConcurrentPulls.toNat
        world.wants.toList (sent.settle world (digestsPerFrame options.maxFrameBytes.toNat)).1).2 :=
      (List.mem_append.mp started).resolve_left sends.not_pull
    obtain ⟨listed, idle, offered, isReady, flying⟩ := startPulls_sound late
    have wanted : digest ∈ world.wants := ExtTreeSet.mem_toList.mp listed
    refine ⟨wanted, ?_, ?_, ?_, ?_⟩
    · rwa [inflight_settle, inflight_of_pulls pulls] at idle
    · rw [ready_settle _ _ _ wanted] at isReady
      unfold ready at isReady ⊢
      rwa [← failed_of_pulls pulls, ← ticks_of_pulls pulls]
    · rw [ExtTreeMap.getD_eq_getD_getElem?, holders_settle_wanted _ _ _ wanted,
        holders_of_pulls pulls, ← ExtTreeMap.getD_eq_getD_getElem?] at offered
      exact offered
    · rw [startPulls_keeps]
      exact flying

theorem react_distinct {world : World V} {trigger : Trigger V} {sync : SyncState V}
    {actions : List SyncAction} (done : (sync.react options world trigger).2 = .ok actions) :
    (pulledDigests actions).Nodup := by
  obtain ⟨sent, _, _, ⟨refusal, failed⟩ | ⟨frames, sends, _, whole⟩⟩ :=
    sync.react_cases options world trigger
  · rw [failed] at done
    cases done
  · rw [whole] at done
    cases done
    have silent := sends.pulledDigests_eq
    unfold pulledDigests at silent ⊢
    rw [List.filterMap_append, silent, List.nil_append]
    apply startPulls_distinct
    exact ExtTreeSet.distinct_toList.imp fun different same => different (by simp [same])

theorem react_complete {world : World V} {trigger : Trigger V} {sync : SyncState V}
    {actions : List SyncAction} (done : (sync.react options world trigger).2 = .ok actions)
    (room : (sync.react options world trigger).1.inflight.size < options.maxConcurrentPulls.toNat)
    {digest : Blake3} (wanted : digest ∈ world.wants)
    (idle : digest ∉ (sync.react options world trigger).1.inflight) {holder : String}
    (offered : holder ∈ (sync.react options world trigger).1.holders.getD digest []) :
    (sync.react options world trigger).1.ready digest holder = false := by
  obtain ⟨sent, _, _, ⟨refusal, failed⟩ | ⟨frames, _, _, whole⟩⟩ :=
    sync.react_cases options world trigger
  · rw [failed] at done
    cases done
  · rw [whole] at room idle offered ⊢
    dsimp only at room idle offered ⊢
    rw [startPulls_keeps] at offered ⊢
    exact startPulls_complete room (ExtTreeSet.mem_toList.mpr wanted) idle offered

/-- After any history and one more call: pulls in flight keep within the limit, one per
object; a pull the call asks for is of a wanted, idle object from a peer that offered it
since it was last closed and is not backing off; and a reaction that leaves a slot free
leaves no wanted, idle object with a ready holder. -/
theorem pulls_scheduled (calls : List (SyncCall V)) (call : SyncCall V) :
    let before := afterCalls options calls
    let after := (before.call options call).1
    let result := (before.call options call).2
    (after.inflight.size ≤ options.maxConcurrentPulls.toNat ∧
      (after.inflight.toList.map Prod.fst).Nodup) ∧
    (∀ actions, result = .ok actions → (pulledDigests actions).Nodup ∧
      ∀ holder digest, .pull holder digest ∈ actions →
        ∃ world trigger start, before.reaction options call = some (world, trigger, start) ∧
          digest ∈ world.wants ∧ digest ∉ (start.applied options world trigger).inflight ∧
          (start.applied options world trigger).ready digest holder = true ∧
          OfferedSinceClosed options holder digest (calls ++ [call]) ∧
          after.inflight[digest]? = some ⟨holder, after.ticks⟩) ∧
    ∀ world trigger start, before.reaction options call = some (world, trigger, start) →
      (world.Exports → ∃ actions, result = .ok actions) ∧
      ∀ actions, result = .ok actions → after.inflight.size < options.maxConcurrentPulls.toNat →
        ∀ digest ∈ world.wants, digest ∉ after.inflight → ∀ holder,
          (holder ∈ after.holders.getD digest [] ∨ Offering options holder digest (calls ++ [call])) →
            after.ready digest holder = false := by
  intro before after result
  have scheduled := (scheduled_afterCalls options calls).call options call
  refine ⟨⟨scheduled.bounded, ?_⟩, ?_, ?_⟩
  · rw [ExtTreeMap.map_fst_toList_eq_keys]
    exact ExtTreeMap.nodup_keys
  · intro actions emitted
    rcases call_cases options before call with ⟨world, trigger, start, reached, same, _⟩ |
      ⟨_, _, silent⟩
    · have done : (start.react options world trigger).2 = .ok actions :=
        (congrArg Prod.snd same).symm.trans emitted
      refine ⟨react_distinct options done, fun holder digest started => ?_⟩
      obtain ⟨wanted, idle, isReady, offered, flying⟩ := react_pull options done started
      refine ⟨world, trigger, start, reached, wanted, idle, isReady, ?_, ?_⟩
      · apply scheduled.offered holder digest
        rw [same]
        exact (holder_react options).2 wanted offered
      · rw [show after = (start.react options world trigger).1 from congrArg Prod.fst same]
        exact flying
    · rw [silent actions emitted]
      exact ⟨List.nodup_nil, fun _ _ started => absurd started List.not_mem_nil⟩
  · intro world trigger start reached
    rcases call_cases options before call with ⟨other, cause, first, reaching, same, _⟩ |
      ⟨unreached, _, _⟩
    · cases reached.symm.trans reaching
      refine ⟨fun exports => ?_, ?_⟩
      · obtain ⟨actions, done⟩ := react_ok options world trigger start exports
        exact ⟨actions, (congrArg Prod.snd same).trans done⟩
      · intro actions emitted room digest wanted idle holder offering
        have offered : holder ∈ after.holders.getD digest [] :=
          offering.elim id (scheduled.offering holder digest)
        have isAfter : after = (start.react options world trigger).1 := congrArg Prod.fst same
        rw [isAfter] at room idle offered ⊢
        exact react_complete options ((congrArg Prod.snd same).symm.trans emitted) room wanted idle offered
    · exact absurd (unreached.symm.trans reached) (by simp)

/-- The peer is opened and then offers the object: it is pulled, and no slot is left. -/
theorem pulls_scheduled_after_offer :
    let before := afterCalls sampleOptions [.opened sampleWorld "peer"]
    let offer := sampleFrame "peer" (.haves [7])
    (before.call sampleOptions offer).2 = .ok [.pull "peer" 7] ∧
      OfferedSinceClosed sampleOptions "peer" 7 [.opened sampleWorld "peer", offer] := by
  intro before offer
  have done : (before.call sampleOptions offer).2 = .ok [.pull "peer" 7] := by
    decide +kernel
  obtain ⟨_, _, _, _, _, _, _, offered, _⟩ :=
    ((pulls_scheduled sampleOptions [.opened sampleWorld "peer"] offer).2.1 _ done).2 "peer" 7
      List.mem_cons_self
  exact ⟨done, offered⟩

end SyncState

end Mille.Drive
