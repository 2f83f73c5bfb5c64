import Mille.Drive.PullSteps

/-! What the reports of one object's pulls from one holder are counted as, in runs where
every pull has a number of its own and every report says which pull it is about. -/

namespace Mille.Drive

open Std Mille.Bincode

/-- One call of the host; a report of an unsuccessful pull says which pull it is about. -/
inductive HostEvent (V : Type) where
  | call (call : SyncCall V)
  | refused (pull : Nat) (world : World V) (refusal : Refusal)
  | failed (pull : Nat) (world : World V)

/-- A drive's tables, with what became of the pulls of one object from one holder. -/
structure Traced (V : Type) where
  sync : SyncState V
  /-- The pulls asked for so far, which is the next one's number. -/
  issued : Nat
  /-- The pull that neither failed nor expired yet, and when it was asked for. -/
  flight : Option (Nat × Nat)
  /-- The pulls that failed or expired, oldest first. -/
  lost : List Nat
  /-- The tick of the last of these failures. -/
  lostAt : Nat

variable {V : Type} (options : DriveOptions) (holder : String) (digest : Blake3)

/-- The call reports that a pull of the object from the holder came to nothing. -/
def SyncCall.Reports : SyncCall V → Prop
  | .pulled _ (.error _) peer name | .pullFailed _ peer name => peer = holder ∧ name = digest
  | _ => False

namespace HostEvent

/-- What reaches the drive: its reports carry no number. -/
def toCall : HostEvent V → SyncCall V
  | .call made => made
  | .refused _ world refusal => .pulled world (.error refusal) holder digest
  | .failed _ world => .pullFailed world holder digest

/-- The pull that the event reports. -/
def report : HostEvent V → Option Nat
  | .refused pull _ _ | .failed pull _ => some pull
  | .call _ => none

end HostEvent

namespace Traced

/-- The pull that the event makes a failure: the one it reports, or one that expires. -/
def fate (state : Traced V) : HostEvent V → Option Nat
  | .refused pull _ _ | .failed pull _ => (state.flight.filter (·.1 = pull)).map Prod.fst
  | .call (.tick _) =>
    (state.flight.filter (state.sync.ticks + 1 - ·.2 ≥ pullExpiryTicks)).map Prod.fst
  | .call _ => none

/-- The pull failed on the tick given. -/
def lose (state : Traced V) (pull now : Nat) : Traced V :=
  { state with flight := none, lost := state.lost ++ [pull], lostAt := now }

/-- The pulls once an event has made its failure, on the tick given. -/
def settled (state : Traced V) (event : HostEvent V) (now : Nat) : Traced V :=
  ((state.fate event).map (state.lose · now)).getD state

/-- The drive asked for the object on the tick given. -/
def issue (state : Traced V) (now : Nat) : Traced V :=
  { state with issued := state.issued + 1, flight := some (state.issued, now) }

variable [VersionVector V]

/-- One event: the drive's call, and what it makes of the pulls. -/
def step (state : Traced V) (event : HostEvent V) : Traced V :=
  let result := state.sync.call options (event.toCall holder digest)
  let settled := state.settled event result.1.ticks
  let asked :=
    if SyncState.Offered holder digest result.2 then settled.issue result.1.ticks else settled
  { asked with sync := result.1 }

/-- Ticks the holder is left alone for after its failures in a row. -/
def pause (failures : Nat) : Nat := min (2 ^ (failures - 1)) maxBackoffTicks

/-- The event reaches a drive where the holder stays open and the object wanted, its reports
are told apart, and the clock is not near the end of its range. -/
structure Stays (state : Traced V) (event : HostEvent V) : Prop where
  kept : (event.toCall holder digest).KeepsOffer holder digest
  told : ∀ made, event = .call made → ¬made.Reports holder digest
  early : state.sync.ticks + maxBackoffTicks + 1 < 2 ^ 64

/-- A report finds no pull in flight but its own, and failures still fit their counter. -/
structure Timely (state : Traced V) (event : HostEvent V) : Prop where
  report : ∀ pull, event.report = some pull → ∀ other since, state.flight = some (other, since) →
    other = pull
  room : ∀ pull, state.fate event = some pull → state.lost.length + 1 < 2 ^ 32

/-- What an event is to leave: every failure counted once, a pull it makes no failure still in
flight, and no offer before the pause is over. -/
structure Counted (state : Traced V) (event : HostEvent V) : Prop where
  failures : (((state.step options holder digest event).sync.record holder digest).getD ⟨0, 0⟩).failures =
    (state.step options holder digest event).lost.length
  distinct : (state.step options holder digest event).lost.Nodup
  flying : ∀ pull since, state.flight = some (pull, since) → state.fate event ≠ some pull →
    (state.step options holder digest event).sync.slot holder digest = some since
  spaced : SyncState.Offered holder digest (state.sync.call options (event.toCall holder digest)).2 →
    (state.step options holder digest event).lost ≠ [] →
      (state.step options holder digest event).lostAt +
        pause (state.step options holder digest event).lost.length ≤
          (state.step options holder digest event).sync.ticks

/-- Numbers are given out once, and only the last can be in flight. -/
structure Numbered (state : Traced V) : Prop where
  distinct : state.lost.Nodup
  issued : ∀ pull ∈ state.lost, pull < state.issued
  flying : ∀ pull since, state.flight = some (pull, since) → pull < state.issued ∧ pull ∉ state.lost

/-- What the tables say of the pulls is what became of them. -/
structure Agrees (state : Traced V) : Prop where
  slot : state.sync.slot holder digest = state.flight.map Prod.snd
  record : state.sync.record holder digest =
    if state.lost = [] then none
    else some ⟨state.lost.length, state.lostAt + pause state.lost.length⟩
  numbered : state.Numbered

variable {options holder digest} {state : Traced V} {event : HostEvent V}

theorem step_sync : (state.step options holder digest event).sync =
    (state.sync.call options (event.toCall holder digest)).1 := rfl

omit [VersionVector V] in
theorem flight_of_fate {pull : Nat} (fails : state.fate event = some pull)
    (agrees : state.Agrees holder digest) :
    (∃ since, state.flight = some (pull, since)) ∧
      (event.toCall holder digest).Ends holder digest state.sync := by
  have found {meets : Nat × Nat → Bool} (chosen : (state.flight.filter meets).map Prod.fst = some pull) :
      ∃ since, state.flight = some (pull, since) ∧ meets (pull, since) = true := by
    obtain ⟨⟨number, since⟩, kept, rfl⟩ := Option.map_eq_some_iff.mp chosen
    obtain ⟨flying, meets⟩ := Option.filter_eq_some_iff.mp kept
    exact ⟨since, flying, meets⟩
  cases event with
  | refused number world refusal =>
    obtain ⟨since, flying, _⟩ := found fails
    exact ⟨⟨since, flying⟩, rfl, rfl⟩
  | failed number world =>
    obtain ⟨since, flying, _⟩ := found fails
    exact ⟨⟨since, flying⟩, rfl, rfl⟩
  | call made =>
    cases made with
    | tick world =>
      obtain ⟨since, flying, late⟩ := found fails
      refine ⟨⟨since, flying⟩, ?_⟩
      change (state.sync.slot holder digest).any _ = true
      rw [agrees.slot, flying]
      exact late
    | _ => cases fails

omit [VersionVector V] in
theorem idle_of_fate (survives : state.fate event = none) (agrees : state.Agrees holder digest)
    (told : ∀ made, event = .call made → ¬made.Reports holder digest)
    (report : ∀ pull, event.report = some pull → ∀ other since, state.flight = some (other, since) →
      other = pull)
    (ends : (event.toCall holder digest).Ends holder digest state.sync) :
    state.sync.slot holder digest = none := by
  rw [agrees.slot, Option.map_eq_none_iff]
  by_contra flies
  obtain ⟨⟨number, since⟩, flying⟩ := Option.ne_none_iff_exists'.mp flies
  have lost {meets : Nat × Nat → Bool} (fails : state.fate event = (state.flight.filter meets).map Prod.fst)
      (meeting : meets (number, since) = true) : False := by
    rw [survives, flying, Option.filter_some, if_pos meeting] at fails
    cases fails
  cases event with
  | refused pull world refusal => exact lost rfl (decide_eq_true (report pull rfl number since flying))
  | failed pull world => exact lost rfl (decide_eq_true (report pull rfl number since flying))
  | call made =>
    cases made with
    | tick world =>
      change (state.sync.slot holder digest).any _ = true at ends
      rw [agrees.slot, flying] at ends
      exact lost rfl ends
    | pulled world admitted peer name =>
      cases admitted with
      | error refusal => exact told _ rfl ends
      | ok done => exact ends
    | pullFailed world peer name => exact told _ rfl ends
    | _ => exact ends

theorem backoffTicks_eq (failures : Nat) : SyncState.backoffTicks failures = pause failures := by
  unfold SyncState.backoffTicks pause
  by_cases small : failures - 1 < 64
  · rw [if_pos small]
  · have large : 2 ^ 64 ≤ 2 ^ (failures - 1) := Nat.pow_le_pow_right (by decide) (Nat.le_of_not_lt small)
    rw [if_neg small, Nat.min_eq_right (by decide), Nat.min_eq_right]
    exact Nat.le_trans (by decide) large

theorem again_eq {backoff : Backoff} {now : Nat} (early : now + maxBackoffTicks < 2 ^ 64)
    (room : backoff.failures + 1 < 2 ^ 32) : SyncState.Backoff.again backoff now =
      ⟨backoff.failures + 1, now + pause (backoff.failures + 1)⟩ := by
  have capped : pause (backoff.failures + 1) ≤ maxBackoffTicks := Nat.min_le_right _ _
  unfold SyncState.Backoff.again
  dsimp only
  rw [Nat.min_eq_left (by omega), backoffTicks_eq, Nat.min_eq_left (by omega)]

omit [VersionVector V] in
theorem Agrees.failures (agrees : state.Agrees holder digest) :
    ((state.sync.record holder digest).getD ⟨0, 0⟩).failures = state.lost.length := by
  rw [agrees.record]
  split_ifs with fresh
  · rw [fresh]
    rfl
  · rfl

omit [VersionVector V] in
theorem Stays.clock_le (stays : state.Stays holder digest event) :
    (event.toCall holder digest).clock state.sync + maxBackoffTicks < 2 ^ 64 := by
  have early := stays.early
  have slow : (event.toCall holder digest).clock state.sync ≤ state.sync.ticks + 1 := by
    unfold SyncCall.clock
    split <;> omega
  omega

omit [VersionVector V] in
theorem Numbered.lose {pull since : Nat} (numbered : state.Numbered) (flying : state.flight = some (pull, since))
    (now : Nat) : (state.lose pull now).Numbered := by
  obtain ⟨known, fresh⟩ := numbered.flying pull since flying
  refine ⟨?_, ?_, fun _ _ flies => by cases flies⟩
  · exact List.nodup_append.mpr ⟨numbered.distinct, List.nodup_singleton _, fun one lost _ same => by
      rintro rfl
      exact fresh (List.mem_singleton.mp same ▸ lost)⟩
  · intro other lost
    rcases List.mem_append.mp lost with before | last
    · exact numbered.issued other before
    · exact List.mem_singleton.mp last ▸ known

omit [VersionVector V] in
theorem Numbered.issue (numbered : state.Numbered) (now : Nat) : (state.issue now).Numbered := by
  refine ⟨numbered.distinct, fun pull lost => Nat.lt_succ_of_lt (numbered.issued pull lost), ?_⟩
  rintro pull since ⟨rfl, rfl⟩
  exact ⟨Nat.lt_succ_self _, fun lost => absurd (numbered.issued _ lost) (Nat.lt_irrefl _)⟩

theorem agrees_step {now : Nat}
    (ticks : (state.sync.call options (event.toCall holder digest)).1.ticks = now)
    (slot : (state.sync.call options (event.toCall holder digest)).1.slot holder digest =
      if SyncState.Offered holder digest (state.sync.call options (event.toCall holder digest)).2 then some now
      else (state.settled event now).flight.map Prod.snd)
    (record : (state.sync.call options (event.toCall holder digest)).1.record holder digest =
      if (state.settled event now).lost = [] then none
      else some ⟨(state.settled event now).lost.length,
        (state.settled event now).lostAt + pause (state.settled event now).lost.length⟩)
    (numbered : (state.settled event now).Numbered) :
    (state.step options holder digest event).Agrees holder digest := by
  unfold step
  dsimp only
  rw [ticks]
  generalize state.settled event now = settled at slot record numbered
  split_ifs at slot ⊢ with offered
  · obtain ⟨distinct, issued, flying⟩ := numbered.issue now
    exact ⟨slot, record, distinct, issued, flying⟩
  · obtain ⟨distinct, issued, flying⟩ := numbered
    exact ⟨slot, record, distinct, issued, flying⟩

theorem Agrees.fail {pull : Nat} (agrees : state.Agrees holder digest)
    (stays : state.Stays holder digest event) (fails : state.fate event = some pull)
    (room : state.lost.length + 1 < 2 ^ 32) :
    (state.step options holder digest event).Agrees holder digest := by
  have steps := SyncCall.steps_call options state.sync stays.kept
  obtain ⟨⟨since, flying⟩, ends⟩ := flight_of_fate fails agrees
  have busy : (state.sync.slot holder digest).isSome = true := by
    rw [agrees.slot, flying]
    rfl
  have record := steps.record
  have slot := steps.slot
  rw [if_pos ⟨ends, busy⟩, again_eq stays.clock_le (by rwa [agrees.failures]), agrees.failures] at record
  rw [if_pos ends] at slot
  have settles : state.settled event ((event.toCall holder digest).clock state.sync) =
      state.lose pull ((event.toCall holder digest).clock state.sync) := by
    rw [settled, fails]
    rfl
  apply agrees_step steps.ticks
  · rw [settles]
    exact slot
  · have nonempty : (state.lose pull ((event.toCall holder digest).clock state.sync)).lost ≠ [] :=
      List.append_ne_nil_of_right_ne_nil _ (List.cons_ne_nil _ _)
    rw [settles, record, if_neg nonempty]
    simp only [lose, List.length_append, List.length_singleton]
  · rw [settles]
    exact agrees.numbered.lose flying _

theorem Agrees.survive (agrees : state.Agrees holder digest) (stays : state.Stays holder digest event)
    (survives : state.fate event = none)
    (idle : (event.toCall holder digest).Ends holder digest state.sync → state.sync.slot holder digest = none) :
    (state.step options holder digest event).Agrees holder digest := by
  have steps := SyncCall.steps_call options state.sync stays.kept
  have settles : state.settled event ((event.toCall holder digest).clock state.sync) = state := by
    rw [settled, survives]
    rfl
  have record := steps.record
  have slot := steps.slot
  rw [if_neg fun both => by simp [idle both.1] at both] at record
  rw [show (if (event.toCall holder digest).Ends holder digest state.sync then none
    else state.sync.slot holder digest) = state.sync.slot holder digest from
      ite_eq_right_iff.mpr fun ends => (idle ends).symm] at slot
  apply agrees_step steps.ticks
  · rw [settles, slot, agrees.slot]
  · rw [settles, record, agrees.record]
  · rw [settles]
    exact agrees.numbered

theorem Agrees.step (agrees : state.Agrees holder digest) (stays : state.Stays holder digest event)
    (timely : state.Timely event) : (state.step options holder digest event).Agrees holder digest := by
  cases fails : state.fate event with
  | some pull => exact agrees.fail stays fails (timely.room pull fails)
  | none => exact agrees.survive stays fails (idle_of_fate fails agrees stays.told timely.report)

/-- Where the tables agree before and after an event that came in time, it was counted right. -/
theorem counted_of_agrees (agrees : state.Agrees holder digest) (stays : state.Stays holder digest event)
    (timely : state.Timely event) (later : (state.step options holder digest event).Agrees holder digest) :
    state.Counted options holder digest event := by
  have steps := SyncCall.steps_call options state.sync stays.kept
  refine ⟨later.failures, later.numbered.distinct, ?_, ?_⟩
  · intro pull since flying survives
    have slot : state.sync.slot holder digest = some since := by
      rw [agrees.slot, flying]
      rfl
    have undone : state.fate event = none := by
      rw [Option.eq_none_iff_forall_ne_some]
      intro other fails
      obtain ⟨⟨_, same⟩, _⟩ := flight_of_fate fails agrees
      cases flying.symm.trans same
      exact survives fails
    have continues : ¬(event.toCall holder digest).Ends holder digest state.sync := by
      intro ends
      cases slot.symm.trans (idle_of_fate undone agrees stays.told timely.report ends)
    have silent : ¬SyncState.Offered holder digest
        (state.sync.call options (event.toCall holder digest)).2 := by
      intro offered
      have idle := steps.idle offered
      rw [if_neg continues, slot] at idle
      cases idle
    rw [step_sync, steps.slot, if_neg silent, if_neg continues, slot]
  · intro offered failed
    have ready := steps.ready offered
    have record := later.record
    rw [if_neg failed] at record
    rw [step_sync, steps.ticks]
    exact ready _ record

theorem lt_retry {backoff : Backoff} {now : Nat} (early : now + maxBackoffTicks < 2 ^ 64) :
    now < (SyncState.Backoff.again backoff now).retry := by
  have positive : 0 < pause (min (backoff.failures + 1) (2 ^ 32 - 1)) :=
    Nat.lt_min.mpr ⟨Nat.two_pow_pos _, by decide⟩
  have last : now < 2 ^ 64 - 1 := by
    unfold maxBackoffTicks at early
    omega
  unfold SyncState.Backoff.again
  dsimp only
  rw [backoffTicks_eq]
  exact Nat.lt_min.mpr ⟨Nat.lt_add_of_pos_right positive, last⟩

omit [VersionVector V] in
theorem ends_of_report {pull : Nat} (reported : event.report = some pull) :
    (event.toCall holder digest).Ends holder digest state.sync := by
  cases event with
  | call made => cases reported
  | refused number world refusal => exact ⟨rfl, rfl⟩
  | failed number world => exact ⟨rfl, rfl⟩

omit [VersionVector V] in
theorem fate_of_report {pull other : Nat} (reported : event.report = some pull)
    (fails : state.fate event = some other) : other = pull := by
  have chosen {number : Nat} (kept : (state.flight.filter (·.1 = number)).map Prod.fst = some other) :
      other = number := by
    obtain ⟨flying, inFlight, rfl⟩ := Option.map_eq_some_iff.mp kept
    exact of_decide_eq_true (Option.filter_eq_some_iff.mp inFlight).2
  cases event with
  | call made => cases reported
  | refused number world refusal =>
    cases reported
    exact chosen fails
  | failed number world =>
    cases reported
    exact chosen fails

/-- An event that was counted right came in time. -/
theorem timely_of_counted (agrees : state.Agrees holder digest) (stays : state.Stays holder digest event)
    (counted : state.Counted options holder digest event) : state.Timely event := by
  have steps := SyncCall.steps_call options state.sync stays.kept
  constructor
  · intro pull reported other since flying
    by_contra differs
    have ends : (event.toCall holder digest).Ends holder digest state.sync := ends_of_report reported
    have survives : state.fate event ≠ some other := fun fails => differs (fate_of_report reported fails)
    have stayed := counted.flying other since flying survives
    have busy : (state.sync.slot holder digest).isSome = true := by
      rw [agrees.slot, flying]
      rfl
    -- the report ended the other pull, so the slot could only be taken again
    have offered : SyncState.Offered holder digest
        (state.sync.call options (event.toCall holder digest)).2 := by
      by_contra silent
      rw [step_sync, steps.slot, if_neg silent, if_pos ends] at stayed
      cases stayed
    have record := steps.record
    rw [if_pos ⟨ends, busy⟩] at record
    exact absurd (steps.ready offered _ record) (Nat.not_le.mpr (lt_retry stays.clock_le))
  · intro pull fails
    obtain ⟨⟨since, flying⟩, ends⟩ := flight_of_fate fails agrees
    have busy : (state.sync.slot holder digest).isSome = true := by
      rw [agrees.slot, flying]
      rfl
    have record := steps.record
    rw [if_pos ⟨ends, busy⟩] at record
    have one : (state.step options holder digest event).lost.length = state.lost.length + 1 := by
      unfold step settled
      rw [fails]
      dsimp only [Option.map_some, Option.getD_some]
      split_ifs <;> exact List.length_append
    have failures := counted.failures
    rw [step_sync, record, one] at failures
    change min (((state.sync.record holder digest).getD ⟨0, 0⟩).failures + 1) (2 ^ 32 - 1) = _ at failures
    rw [agrees.failures] at failures
    omega

end Traced

section Runs

variable [VersionVector V] {options holder digest}

open Run

/-- A drive where nothing of the object failed from the holder yet. -/
def Traced.fresh (holder : String) (digest : Blake3) (sync : SyncState V) : Traced V :=
  ⟨sync, 1, (sync.slot holder digest).map fun since => (0, since), [], 0⟩

omit [VersionVector V] in
theorem Traced.agrees_fresh {sync : SyncState V} (unfailed : sync.record holder digest = none) :
    (Traced.fresh holder digest sync).Agrees holder digest := by
  refine ⟨?_, unfailed, List.nodup_nil, fun _ lost => absurd lost List.not_mem_nil, ?_⟩
  · simp [Traced.fresh]
  · intro pull since flying
    obtain ⟨_, _, same⟩ := Option.map_eq_some_iff.mp flying
    cases same
    exact ⟨Nat.zero_lt_one, List.not_mem_nil⟩

/-- In every run in which the holder stays open and the object wanted, every pull is counted as
at most one failure, no report ends a pull it is not about and no holder is asked before its
pause is over, exactly when no report comes while another pull is in flight. -/
theorem failures_counted_iff {sync : SyncState V} (unfailed : sync.record holder digest = none)
    (events : List (HostEvent V)) (stays : Along (Traced.step options holder digest)
      (Traced.Stays holder digest) (.fresh holder digest sync) events) :
    Along (Traced.step options holder digest) (Traced.Counted options holder digest)
        (.fresh holder digest sync) events ↔
      Along (Traced.step options holder digest) Traced.Timely (.fresh holder digest sync) events := by
  refine along_congr_of stays ?_ ?_ (Traced.agrees_fresh unfailed)
  · intro state event agrees stays
    exact ⟨Traced.timely_of_counted agrees stays,
      fun timely => Traced.counted_of_agrees agrees stays timely (agrees.step stays timely)⟩
  · exact fun state event agrees stays timely => agrees.step stays timely

end Runs

/-- How the host tells the drive of a pull that came to nothing. -/
inductive Report where
  | refused
  | failed
deriving DecidableEq

/-- What the event reports of the pull. -/
def HostEvent.about (pull : Nat) : HostEvent V → Option Report
  | .refused number _ _ => if number = pull then some .refused else none
  | .failed number _ => if number = pull then some .failed else none
  | .call _ => none

/-- Every pull is reported as failed at most once, right away or after its copy was refused. -/
def Disciplined (events : List (HostEvent V)) : Prop :=
  ∀ pull, events.filterMap (HostEvent.about pull) ∈
    [[], [Report.refused], [Report.refused, Report.failed], [Report.failed]]

/-- Only pulls that were asked for are reported. -/
def Traced.Known (state : Traced V) (event : HostEvent V) : Prop :=
  ∀ pull, event.report = some pull → pull < state.issued

section Sample

variable [VersionVector V] {options holder digest}

open SyncState Run

theorem along_stays {state : Traced V} {events : List (HostEvent V)}
    (kept : ∀ event ∈ events, (event.toCall holder digest).KeepsOffer holder digest)
    (told : ∀ made, .call made ∈ events → ¬made.Reports holder digest)
    (early : state.sync.ticks + events.length + maxBackoffTicks < 2 ^ 64) :
    Along (Traced.step options holder digest) (Traced.Stays holder digest) state events := by
  induction events generalizing state with
  | nil => trivial
  | cons event rest ih =>
    obtain ⟨first, later⟩ := List.forall_mem_cons.mp kept
    have steps := event.toCall holder digest |>.steps_call options state.sync first
    have slow : (state.step options holder digest event).sync.ticks ≤ state.sync.ticks + 1 := by
      rw [Traced.step_sync, steps.ticks]
      unfold SyncCall.clock
      split <;> omega
    rw [List.length_cons] at early
    refine ⟨⟨first, ?_, by omega⟩, ih later (fun made listed => told made (List.mem_cons_of_mem _ listed)) (by omega)⟩
    rintro made rfl
    exact told made List.mem_cons_self

instance (state : Traced V) (event : HostEvent V) : Decidable (state.Timely event) :=
  decidable_of_iff ((∀ pull ∈ event.report, ∀ flying ∈ state.flight, flying.1 = pull) ∧
      ∀ pull ∈ state.fate event, state.lost.length + 1 < 2 ^ 32)
    ⟨fun ⟨report, room⟩ => ⟨fun pull reported other since flying => report pull reported (other, since) flying, room⟩,
      fun ⟨report, room⟩ => ⟨fun pull reported flying inFlight => report pull reported flying.1 flying.2 inFlight,
        room⟩⟩

instance (state : Traced V) (event : HostEvent V) : Decidable (state.Known event) :=
  decidable_of_iff (∀ pull ∈ event.report, pull < state.issued) Iff.rfl

private def mismatch : Refusal := ⟨.mismatch, "a pulled copy was refused"⟩

/-- A holder offers an object, its copy is refused, and the host reports it once more. -/
private def twiceReported : List (HostEvent (List UInt8)) :=
  [.call (.opened sampleWorld "peer"), .call (sampleFrame "peer" (.haves [7])),
    .refused 1 sampleWorld mismatch, .failed 1 sampleWorld, .call (.tick sampleWorld)]

/-- The next pull is asked for on a tick before the host reports the refused copy once more. -/
private def lateReported : List (HostEvent (List UInt8)) :=
  [.call (.opened sampleWorld "peer"), .call (sampleFrame "peer" (.haves [7])),
    .refused 1 sampleWorld mismatch, .call (.tick sampleWorld), .failed 1 sampleWorld]

private theorem stays_sample {events : List (HostEvent (List UInt8))} (few : events.length = 5)
    (among : ∀ event ∈ events, event ∈ twiceReported) :
    Along (Traced.step sampleOptions "peer" 7) (Traced.Stays "peer" 7) (.fresh "peer" 7 .default) events := by
  have wanted : (7 : Blake3) ∈ sampleWorld.wants := by decide +kernel
  apply along_stays
  · intro event listed
    have known := among event listed
    simp only [twiceReported, List.mem_cons, List.not_mem_nil, or_false] at known
    rcases known with rfl | rfl | rfl | rfl | rfl
    all_goals exact ⟨wanted, by simp [HostEvent.toCall, sampleFrame], by simp [HostEvent.toCall, sampleFrame]⟩
  · intro made listed reports
    have known := among _ listed
    simp only [twiceReported, List.mem_cons, List.not_mem_nil, or_false, HostEvent.call.injEq, reduceCtorEq,
      false_or] at known
    rcases known with rfl | rfl | rfl <;> exact reports
  · rw [few]
    decide

theorem failures_counted_iff_in_time :
    Along (Traced.step sampleOptions "peer" 7) (Traced.Counted sampleOptions "peer" 7)
      (.fresh "peer" 7 .default) twiceReported :=
  (failures_counted_iff (by decide +kernel) twiceReported (stays_sample rfl fun _ => id)).mpr (by decide +kernel)

/-- One refused copy, reported twice with a tick between, counts as two failures. -/
theorem late_report_counts_twice : ¬∀ events : List (HostEvent (List UInt8)),
    Along (Traced.step sampleOptions "peer" 7) (Traced.Stays "peer" 7) (.fresh "peer" 7 .default) events →
      Along (Traced.step sampleOptions "peer" 7) Traced.Known (.fresh "peer" 7 .default) events →
        Disciplined events →
          Along (Traced.step sampleOptions "peer" 7) (Traced.Counted sampleOptions "peer" 7)
            (.fresh "peer" 7 .default) events := by
  intro always
  have disciplined : Disciplined lateReported := by
    intro pull
    by_cases first : 1 = pull
    · subst first
      decide
    · simp [lateReported, HostEvent.about, first]
  have among : ∀ event ∈ lateReported, event ∈ twiceReported := by
    intro event
    simp only [lateReported, twiceReported, List.mem_cons, List.not_mem_nil, or_false]
    tauto
  have counted := always lateReported (stays_sample rfl among) (by decide +kernel) disciplined
  have failures := (@along_snoc _ _ _ _ _ (lateReported.take 4) _ counted).2.failures
  exact absurd failures (by decide +kernel)

end Sample

end Mille.Drive
