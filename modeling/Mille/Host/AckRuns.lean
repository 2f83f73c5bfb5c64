import Mille.Core.StorePaths
import Mille.Host.Acks

/-! When a synchronization point is honest. A client that acknowledges a version
has applied every delta with changes up to it: the ack follows a tick's delta,
and all that was posted before a tick states at most the version the tick
drained. What is not covered by that is a flush that skips its wait. -/

namespace Mille

namespace PortFrame

/-- The version up to which a tick's delta leaves nothing undrained. -/
def drained : PortFrame → Option Nat
  | delta _ drainedAt _ => some drainedAt
  | _ => none

/-- How two frames of one channel stand to each other. -/
structure Before (earlier later : PortFrame) : Prop where
  stated : ∀ drainedAt ∈ later.drained, earlier.version ≤ drainedAt
  apart : ∀ drainedAt ∈ earlier.drained, ¬ later.Covers drainedAt

theorem not_covers_of_le {frame : PortFrame} {lower upper : Nat} (le : lower ≤ upper) (clear : ¬ frame.Covers upper) :
    ¬ frame.Covers lower := by
  intro covers
  cases frame with
  | delta changes drainedAt ackId => exact clear ⟨covers.1, covers.2.trans_le le⟩
  | snapshot | answer | result => exact covers

end PortFrame

namespace AckSession

variable {session : AckSession} {store after : EntryStore} {version lower : Nat} {frame : PortFrame}
variable {inFlight : List PortFrame}

/-- Every delta with changes up to a version has been applied. -/
def Clear (inFlight : List PortFrame) (version : Nat) : Prop :=
  ∀ frame ∈ inFlight, ¬ frame.Covers version

/-- Every change up to a version has reached the client. -/
structure Settled (store : EntryStore) (inFlight : List PortFrame) (version : Nat) : Prop where
  passed : store.Passed version
  clear : Clear inFlight version

/-- What a client knows of versions, and what its channels carry. -/
structure InOrder (store : EntryStore) (session : AckSession) : Prop where
  ordered : session.inFlight.Pairwise PortFrame.Before
  stated : ∀ frame ∈ session.inFlight, frame.version ≤ store.inner.treeVersion
  drained : ∀ frame ∈ session.inFlight, ∀ drainedAt ∈ frame.drained, frame.version ≤ drainedAt ∧
    store.Passed drainedAt ∧ session.client.treeVersion ≤ drainedAt ∧ ∀ merged ∈ session.client.unmerged, merged ≤ drainedAt
  known : session.client.treeVersion ≤ store.inner.treeVersion
  looked : ∀ merged ∈ session.client.unmerged, merged ≤ store.inner.treeVersion
  acks : ∀ ack ∈ session.acks, Settled store session.inFlight ack.version
  acked : ∀ version : Nat, (version : Int) ≤ session.ackedVersion → Settled store session.inFlight version

theorem Clear.weaken (clear : Clear inFlight version) (le : lower ≤ version) : Clear inFlight lower :=
  fun frame member => PortFrame.not_covers_of_le le (clear frame member)

theorem Settled.weaken (settled : Settled store inFlight version) (le : lower ≤ version) : Settled store inFlight lower :=
  ⟨settled.passed.weaken le, settled.clear.weaken le⟩

theorem not_covers_of_plain (plain : frame.drained = none) : ¬ frame.Covers version := by
  intro covers
  cases frame with
  | delta => cases plain
  | snapshot | answer | result => exact covers

theorem not_covers_of_passed {drainedAt : Nat} {ackId : Option Nat} (passed : store.Passed version) :
    ¬ (PortFrame.delta store.pendingChanges drainedAt ackId).Covers version := by
  rintro ⟨recorded, before⟩
  have undrained : store.Undrained := by simp [EntryStore.Undrained, recorded]
  exact absurd (passed.drained undrained) (by omega)

theorem Clear.post (clear : Clear session.inFlight version) (new : ¬ frame.Covers version) : Clear (session.post frame).inFlight version := by
  intro other member
  rcases List.mem_append.mp member with old | same
  · exact clear other old
  · rwa [List.mem_singleton.mp same]

theorem Settled.post_plain (settled : Settled store session.inFlight version) (plain : frame.drained = none) :
    Settled store (session.post frame).inFlight version :=
  ⟨settled.passed, settled.clear.post (not_covers_of_plain plain)⟩

theorem Settled.post_delta (settled : Settled store session.inFlight version) (ackId : Option Nat) :
    Settled store.takePendingChanges.2
      (session.post (.delta store.pendingChanges store.inner.treeVersion ackId)).inFlight version :=
  ⟨settled.passed.drain, settled.clear.post (not_covers_of_passed settled.passed)⟩

theorem fresh_inOrder (store : EntryStore) (id : Nat) (protocol : AckProtocol) : (fresh id protocol).InOrder store where
  ordered := .nil
  stated frame member := by cases member
  drained frame member := by cases member
  known := Nat.zero_le _
  looked merged member := by cases member
  acks ack member := by cases member
  acked version le := by
    have below : (version : Int) ≤ -1 := le
    omega

theorem InOrder.move (inOrder : session.InOrder store) (later : store.inner.treeVersion ≤ after.inner.treeVersion)
    (passes : ∀ version, store.Passed version → after.Passed version) : session.InOrder after where
  ordered := inOrder.ordered
  stated frame member := (inOrder.stated frame member).trans later
  drained frame member drainedAt drains := by
    obtain ⟨own, passed, known⟩ := inOrder.drained frame member drainedAt drains
    exact ⟨own, passes _ passed, known⟩
  known := inOrder.known.trans later
  looked merged member := (inOrder.looked merged member).trans later
  acks ack member := ⟨passes _ (inOrder.acks ack member).passed, (inOrder.acks ack member).clear⟩
  acked version le := ⟨passes _ (inOrder.acked version le).passed, (inOrder.acked version le).clear⟩

theorem InOrder.post_plain (inOrder : session.InOrder store) (plain : frame.drained = none)
    (stated : frame.version ≤ store.inner.treeVersion) : (session.post frame).InOrder store where
  ordered := by
    refine List.pairwise_append.mpr ⟨inOrder.ordered, List.pairwise_singleton _ _, ?_⟩
    intro earlier _ later member
    rw [List.mem_singleton.mp member]
    exact ⟨by simp [plain], fun drainedAt _ => not_covers_of_plain plain⟩
  stated other member := by
    rcases List.mem_append.mp member with old | new
    · exact inOrder.stated other old
    · rwa [List.mem_singleton.mp new]
  drained other member drainedAt drains := by
    rcases List.mem_append.mp member with old | new
    · exact inOrder.drained other old drainedAt drains
    · rw [List.mem_singleton.mp new, plain] at drains
      cases drains
  known := inOrder.known
  looked := inOrder.looked
  acks ack member := (inOrder.acks ack member).post_plain plain
  acked version le := (inOrder.acked version le).post_plain plain

theorem InOrder.post_delta (inOrder : session.InOrder store) (recording : store.Recording) (ackId : Option Nat) :
    (session.post (.delta store.pendingChanges store.inner.treeVersion ackId)).InOrder store.takePendingChanges.2 where
  ordered := by
    refine List.pairwise_append.mpr ⟨inOrder.ordered, List.pairwise_singleton _ _, ?_⟩
    intro earlier present later member
    rw [List.mem_singleton.mp member]
    refine ⟨fun drainedAt drains => ?_, fun drainedAt drains => ?_⟩
    · cases drains
      exact inOrder.stated earlier present
    · exact not_covers_of_passed (inOrder.drained earlier present drainedAt drains).2.1
  stated other member := by
    rcases List.mem_append.mp member with old | new
    · exact inOrder.stated other old
    · rw [List.mem_singleton.mp new]
      exact recording.ends
  drained other member drainedAt drains := by
    rcases List.mem_append.mp member with old | new
    · obtain ⟨own, passed, known⟩ := inOrder.drained other old drainedAt drains
      exact ⟨own, passed.drain, known⟩
    · rw [List.mem_singleton.mp new] at drains ⊢
      cases drains
      exact ⟨recording.ends, store.passed_drain, inOrder.known, inOrder.looked⟩
  known := inOrder.known
  looked := inOrder.looked
  acks ack member := (inOrder.acks ack member).post_delta ackId
  acked version le := (inOrder.acked version le).post_delta ackId

theorem InOrder.takeAck (inOrder : session.InOrder store) (nextAckId : Nat) :
    (session.takeAck nextAckId).InOrder store := by
  unfold AckSession.takeAck
  split
  · exact inOrder
  · next ack rest queued =>
    have others : ∀ other ∈ rest, Settled store session.inFlight other.version := fun other member =>
      inOrder.acks other (queued ▸ List.mem_cons_of_mem _ member)
    have handled : Settled store session.inFlight ack.version := inOrder.acks ack (queued ▸ List.mem_cons_self)
    split
    · refine ⟨inOrder.ordered, inOrder.stated, inOrder.drained, inOrder.known, inOrder.looked, others, ?_⟩
      intro version le
      rcases le_max_iff.mp le with before | now
      · exact inOrder.acked version before
      · exact handled.weaken (by exact_mod_cast now)
    · exact ⟨inOrder.ordered, inOrder.stated, inOrder.drained, inOrder.known, inOrder.looked, others, inOrder.acked⟩

theorem InOrder.drop (inOrder : session.InOrder store) {rest : List PortFrame}
    (queued : session.inFlight = frame :: rest) : { session with inFlight := rest }.InOrder store := by
  have shorter : ∀ other ∈ rest, other ∈ session.inFlight := fun other member => queued ▸ List.mem_cons_of_mem _ member
  have clears : ∀ {version : Nat}, Settled store session.inFlight version →
      Settled store rest version := fun settled =>
    ⟨settled.passed, fun other member => settled.clear other (shorter other member)⟩
  exact
    { ordered := (List.pairwise_cons.mp (queued ▸ inOrder.ordered)).2
      stated := fun other member => inOrder.stated other (shorter other member)
      drained := fun other member => inOrder.drained other (shorter other member)
      known := inOrder.known
      looked := inOrder.looked
      acks := fun ack member => clears (inOrder.acks ack member)
      acked := fun version le => clears (inOrder.acked version le) }

theorem InOrder.learn (inOrder : session.InOrder store) {known : Nat}
    (published : known ≤ store.inner.treeVersion)
    (drained : ∀ frame ∈ session.inFlight, ∀ drainedAt ∈ frame.drained, known ≤ drainedAt) :
    { session with client := { session.client with treeVersion := known } }.InOrder store :=
  { inOrder with
    drained := fun frame member drainedAt drains =>
      have before := inOrder.drained frame member drainedAt drains
      ⟨before.1, before.2.1, drained frame member drainedAt drains, before.2.2.2⟩
    known := published }

theorem InOrder.answer (inOrder : session.InOrder store) {acks : List Ack}
    (settled : ∀ ack ∈ acks, Settled store session.inFlight ack.version) :
    { session with acks := session.acks ++ acks }.InOrder store :=
  { inOrder with
    acks := fun ack member => (List.mem_append.mp member).elim (inOrder.acks ack) (settled ack) }

theorem answers_version {client : PortClient} {ackId : Option Nat} {ack : Ack} (member : ack ∈ answers client ackId) :
    ack.version = client.treeVersion := by
  cases ackId with
  | none => cases member
  | some id =>
    simp only [answers] at member
    split at member
    · cases member
    · rw [List.mem_singleton.mp member]
    · rw [List.mem_singleton.mp member]

/-- The client applies the oldest frame in flight and acknowledges it when asked. -/
theorem InOrder.deliver (inOrder : session.InOrder store) : session.deliver.InOrder store := by
  unfold AckSession.deliver
  split
  · exact inOrder
  · next frame rest queued =>
    have dropped := inOrder.drop queued
    have first : frame ∈ session.inFlight := queued ▸ List.mem_cons_self
    have published := inOrder.stated frame first
    obtain ⟨before, _⟩ := List.pairwise_cons.mp (queued ▸ inOrder.ordered)
    have stated : ∀ other ∈ rest, ∀ drainedAt ∈ other.drained, frame.version ≤ drainedAt := fun other member =>
      (before other member).stated
    have known : ∀ other ∈ rest, ∀ drainedAt ∈ other.drained, session.client.treeVersion ≤ drainedAt :=
      fun other member drainedAt drains => (dropped.drained other member drainedAt drains).2.2.1
    have raised : { session with
        inFlight := rest
        client := { session.client with treeVersion := max session.client.treeVersion frame.version } }.InOrder store :=
      dropped.learn (max_le inOrder.known published) fun other member drainedAt drains =>
        max_le (known other member drainedAt drains) (stated other member drainedAt drains)
    cases frame with
    | snapshot version => exact dropped.learn published stated
    | answer version => exact raised
    | delta changes drainedAt ackId =>
      -- All the client knows by now was drained with this delta or before it.
      refine raised.answer fun ack member => ?_
      obtain ⟨own, passed, client, _⟩ := inOrder.drained _ first drainedAt rfl
      rw [answers_version member]
      have within : max session.client.treeVersion changes.toVersion ≤ drainedAt := max_le client own
      exact ⟨passed.weaken within, fun other later =>
        PortFrame.not_covers_of_le within ((before other later).apart drainedAt rfl)⟩
    | result version =>
      refine { dropped with drained := ?_, looked := ?_ }
      · intro other member drainedAt drains
        obtain ⟨own, passed, client, looked⟩ := dropped.drained other member drainedAt drains
        refine ⟨own, passed, client, fun merged among => ?_⟩
        rcases List.mem_append.mp among with old | new
        · exact looked merged old
        · rw [List.mem_singleton.mp new]
          exact stated other member drainedAt drains
      · intro merged among
        rcases List.mem_append.mp among with old | new
        · exact inOrder.looked merged old
        · rw [List.mem_singleton.mp new]
          exact published

theorem InOrder.merge (inOrder : session.InOrder store) (index : Nat) : (session.merge index).InOrder store := by
  unfold AckSession.merge
  split
  · exact inOrder
  · next version found =>
    have among := List.mem_of_getElem? found
    have raised := inOrder.learn (max_le inOrder.known (inOrder.looked version among))
      fun frame member drainedAt drains =>
        max_le (inOrder.drained frame member drainedAt drains).2.2.1
          ((inOrder.drained frame member drainedAt drains).2.2.2 version among)
    have fewer : ∀ merged ∈ session.client.unmerged.eraseIdx index, merged ∈ session.client.unmerged :=
      fun merged member => List.mem_of_mem_eraseIdx member
    exact { raised with
      drained := fun frame member drainedAt drains =>
        have before := raised.drained frame member drainedAt drains
        ⟨before.1, before.2.1, before.2.2.1, fun merged among => before.2.2.2 merged (fewer merged among)⟩
      looked := fun merged member => raised.looked merged (fewer merged member) }

/-- A session a step leaves behind, with nothing new that covers a settled version. -/
structure Follows (store after : EntryStore) (before later : AckSession) : Prop where
  named : later.id = before.id
  capable : later.ackCapable = true → before.ackCapable = true
  inOrder : before.InOrder store → later.InOrder after
  settled : ∀ version, Settled store before.inFlight version → Settled after later.inFlight version

theorem Follows.stay (later : store.inner.treeVersion ≤ after.inner.treeVersion)
    (passes : ∀ version, store.Passed version → after.Passed version) : session.Follows store after session :=
  ⟨rfl, fun able => able, fun inOrder => inOrder.move later passes, fun _ settled => ⟨passes _ settled.passed, settled.clear⟩⟩

theorem Follows.post (plain : frame.drained = none) (stated : frame.version ≤ store.inner.treeVersion) :
    session.Follows store store (session.post frame) :=
  ⟨rfl, fun able => able, fun inOrder => inOrder.post_plain plain stated, fun _ settled => settled.post_plain plain⟩

theorem deliver_follows (session : AckSession) (store : EntryStore) : session.Follows store store session.deliver := by
  refine ⟨?_, ?_, InOrder.deliver, ?_⟩
  all_goals
    unfold AckSession.deliver
    split
  · rfl
  · next frame _ _ => cases frame <;> rfl
  · exact fun able => able
  · next frame _ _ => cases frame <;> exact fun able => able
  · exact fun version settled => settled
  · next frame rest queued =>
    have clears : ∀ version, Settled store session.inFlight version → Settled store rest version :=
      fun version settled => ⟨settled.passed, fun other member =>
        settled.clear other (queued ▸ List.mem_cons_of_mem _ member)⟩
    cases frame <;> exact clears

theorem merge_follows (session : AckSession) (store : EntryStore) (index : Nat) :
    session.Follows store store (session.merge index) := by
  refine ⟨?_, ?_, fun inOrder => inOrder.merge index, ?_⟩
  all_goals
    unfold AckSession.merge
    split
  · rfl
  · rfl
  · exact fun able => able
  · exact fun able => able
  · exact fun version settled => settled
  · exact fun version settled => settled

end AckSession

namespace Flush

open AckSession

variable {flush : Flush} {sessions : List AckSession} {store : EntryStore}

/-- What a synchronization point promises: the sessions that had shaken hands when it was called and can
acknowledge have every change up to the version of the call. -/
def Honest (flush : Flush) (sessions : List AckSession) (store : EntryStore) : Prop :=
  ∀ session ∈ sessions, session.id ∈ flush.sessions → session.ackCapable = true →
    Settled store session.inFlight flush.version

theorem Honest.of_satisfied (done : flush.satisfied sessions) (ahead : flush.version ≤ flush.target)
    (inOrder : ∀ session ∈ sessions, session.InOrder store) : flush.Honest sessions store := by
  intro session member called capable
  have finished := List.all_eq_true.mp done session member
  simp only [pending, List.contains_iff_mem.mpr called, capable, Bool.true_and, Bool.not_eq_true', Bool.or_eq_false_iff,
    decide_eq_false_iff_not, not_lt] at finished
  exact ((inOrder session member).acked flush.target finished.1).weaken ahead

end Flush

namespace AckHost

open AckSession

variable {host after : AckHost} {flush : Flush} {landing : Landing} {id : Nat}

/-- What holds of a host between two handlers. -/
structure Orderly (host : AckHost) : Prop where
  recording : host.store.Recording
  sessions : ∀ session ∈ host.sessions, session.InOrder host.store
  lookups : ∀ lookup ∈ host.lookups, lookup.2 ≤ host.store.inner.treeVersion
  waiting : ∀ flush ∈ host.waiting, flush.version ≤ flush.target
  passed : ∀ flush ∈ host.yielding, flush.sessions ≠ [] → host.store.Passed flush.version
  yielding : ∀ flush ∈ host.yielding, flush.Honest host.sessions host.store
  resolved : ∀ resolution ∈ host.resolved, resolution.flush.Honest resolution.sessions resolution.store

/-- The parts of a host a step on its sessions and its store leaves alone. -/
structure SameFlushes (host after : AckHost) : Prop where
  lookups : ∀ lookup ∈ after.lookups, lookup ∈ host.lookups
  waiting : ∀ flush ∈ after.waiting, flush ∈ host.waiting
  yielding : ∀ flush ∈ after.yielding, flush ∈ host.yielding
  resolved : after.resolved = host.resolved

/-- The store moves on and every session goes through a function. -/
structure Moves (host after : AckHost) (change : AckSession → AckSession) : Prop where
  recording : after.store.Recording
  later : host.store.inner.treeVersion ≤ after.store.inner.treeVersion
  passes : ∀ version, host.store.Passed version → after.store.Passed version
  mapped : after.sessions = host.sessions.map change
  flushes : SameFlushes host after

theorem Orderly.moves {change : AckSession → AckSession} (orderly : host.Orderly) (moves : Moves host after change)
    (named : ∀ session ∈ host.sessions, (change session).id = session.id)
    (inOrder : ∀ session ∈ host.sessions, (change session).InOrder after.store)
    (kept : ∀ flush ∈ host.yielding, ∀ session ∈ host.sessions, session.id ∈ flush.sessions →
      (change session).ackCapable = true → Settled after.store (change session).inFlight flush.version) :
    after.Orderly where
  recording := moves.recording
  sessions session member := by
    rw [moves.mapped] at member
    obtain ⟨before, present, rfl⟩ := List.mem_map.mp member
    exact inOrder before present
  lookups lookup member := (orderly.lookups lookup (moves.flushes.lookups lookup member)).trans moves.later
  waiting flush member := orderly.waiting flush (moves.flushes.waiting flush member)
  passed flush member called := moves.passes _ (orderly.passed flush (moves.flushes.yielding flush member) called)
  yielding flush member session present called capable := by
    rw [moves.mapped] at present
    obtain ⟨before, found, rfl⟩ := List.mem_map.mp present
    rw [named before found] at called
    exact kept flush (moves.flushes.yielding flush member) before found called capable
  resolved := moves.flushes.resolved ▸ orderly.resolved

theorem Orderly.follows {change : AckSession → AckSession} (orderly : host.Orderly) (moves : Moves host after change)
    (follows : ∀ session ∈ host.sessions, session.Follows host.store after.store (change session)) : after.Orderly := by
  refine orderly.moves moves (fun session member => (follows session member).named)
    (fun session member => (follows session member).inOrder (orderly.sessions session member)) ?_
  intro flush member session present called able
  have capable := (follows session present).capable able
  exact (follows session present).settled _ (orderly.yielding flush member session present called capable)

theorem initial_orderly : initial.Orderly where
  recording := ⟨EntryStore.new_forested.housed, le_refl _⟩
  sessions session member := by cases member
  lookups lookup member := by cases member
  waiting flush member := by cases member
  passed flush member := by cases member
  yielding flush member := by cases member
  resolved resolution member := by cases member

theorem Orderly.restore {store : EntryStore} (orderly : host.Orderly) (recording : store.Recording)
    (later : host.store.inner.treeVersion ≤ store.inner.treeVersion)
    (passes : ∀ version, host.store.Passed version → store.Passed version) : { host with store := store }.Orderly :=
  @Orderly.follows host _ (fun session => session) orderly ⟨recording, later, passes, (List.map_id _).symm,
    ⟨fun _ member => member, fun _ member => member, fun _ member => member, rfl⟩⟩ fun _ _ => .stay later passes

theorem Orderly.land (orderly : host.Orderly) (edits : List Edit) : (host.land edits).Orderly :=
  orderly.restore (orderly.recording.edits edits) (orderly.recording.later edits) fun _ =>
    orderly.recording.passed_edits edits

theorem Orderly.drain (orderly : host.Orderly) : { host with store := host.store.takePendingChanges.2 }.Orderly :=
  orderly.restore orderly.recording.drain (le_refl _) fun _ passed => passed.drain

/-- What a tick makes of a session that has shaken hands. -/
def told (roots : List EntryId) (frame : PortFrame) (session : AckSession) : AckSession :=
  if session.handshook then { session with lastRootIds := roots }.post frame else session

theorem Orderly.posts (orderly : host.Orderly) (edits : List Edit) (roots : List EntryId) (ackId : Option Nat) :
    { host.land edits with
      store := edits.foldl EntryStore.edit host.store.takePendingChanges.2
      marked := false
      sessions := host.sessions.map (told roots (.delta host.store.pendingChanges host.store.inner.treeVersion ackId))
    }.Orderly := by
  have drained := orderly.recording.drain
  have passes : ∀ version, host.store.takePendingChanges.2.Passed version →
      (edits.foldl EntryStore.edit host.store.takePendingChanges.2).Passed version := fun version =>
    drained.passed_edits edits
  have later := drained.later edits
  refine orderly.follows ⟨drained.edits edits, later, fun version passed => passes _ passed.drain, rfl,
    ⟨fun _ member => member, fun _ member => member, fun _ member => member, rfl⟩⟩ fun session member => ?_
  unfold told
  split
  · refine ⟨rfl, fun able => able, fun inOrder => ?_, fun version settled => ?_⟩
    · have posted := inOrder.post_delta orderly.recording ackId
      exact { posted.move later passes with }
    · have posted := settled.post_delta ackId
      exact ⟨passes _ posted.passed, posted.clear⟩
  · exact .stay later fun version passed => passes _ passed.drain

/-- Nothing is posted by a tick with the given landing of native changes. -/
def NothingToPost (host : AckHost) (landing : Landing) : Prop :=
  let landed := host.land landing.drain
  ({ landed with store := landed.store.takePendingChanges.2 }.land landing.roots).isQuiet landed.store.pendingChanges

/-- How a tick ends: there is nobody, there is nothing to post, or every session that has shaken hands is told. -/
inductive Ticked (host : AckHost) (landing : Landing) (ackId : Option Nat) : Bool × AckHost → Prop where
  | alone (empty : host.sessions = []) : Ticked host landing ackId (false, host.land landing.drain)
  | quiet (quiet : host.NothingToPost landing) : Ticked host landing ackId (false,
      { host.land landing.drain with store := (host.land landing.drain).store.takePendingChanges.2 }.land landing.roots)
  | posted (some : host.sessions ≠ []) (roots : List EntryId) : Ticked host landing ackId
      (host.sessions.any (·.handshook),
        { (host.land landing.drain).land (landing.roots ++ landing.snapshot) with
          store := (landing.roots ++ landing.snapshot).foldl EntryStore.edit
            (host.land landing.drain).store.takePendingChanges.2
          marked := false
          sessions := host.sessions.map (told roots (.delta (host.land landing.drain).store.pendingChanges
            (host.land landing.drain).store.inner.treeVersion ackId)) })

theorem tick_ticked (host : AckHost) (landing : Landing) (ackId : Option Nat) :
    Ticked host landing ackId (host.tick landing ackId) := by
  unfold AckHost.tick
  dsimp only
  split
  · next empty => exact .alone empty
  · next some =>
    split
    · next quiet => exact .quiet quiet
    · have posted := @Ticked.posted host landing ackId some
        (({ host.land landing.drain with store := (host.land landing.drain).store.takePendingChanges.2 }.land
          landing.roots).land landing.snapshot).store.inner.roots
      rw [List.foldl_append] at posted
      exact posted

theorem Ticked.orderly {ackId : Option Nat} {outcome : Bool × AckHost} (ticked : Ticked host landing ackId outcome)
    (orderly : host.Orderly) : outcome.2.Orderly := by
  have landed := orderly.land landing.drain
  cases ticked with
  | alone => exact landed
  | quiet => exact landed.drain.land landing.roots
  | posted _ roots => exact landed.posts (landing.roots ++ landing.snapshot) roots ackId

theorem Ticked.passed {ackId : Option Nat} {outcome : Bool × AckHost} (ticked : Ticked host landing ackId outcome)
    (recording : host.store.Recording) (some : host.sessions ≠ []) :
    outcome.2.store.Passed host.store.inner.treeVersion := by
  have landed := recording.edits landing.drain
  have drained := ((host.land landing.drain).store.passed_drain).weaken (recording.later landing.drain)
  cases ticked with
  | alone empty => exact absurd empty some
  | quiet => exact landed.drain.passed_edits landing.roots drained
  | posted => exact landed.drain.passed_edits (landing.roots ++ landing.snapshot) drained

theorem Ticked.silent {ackId : Option Nat} {outcome : Bool × AckHost} (ticked : Ticked host landing ackId outcome)
    (shaken : host.shaken ≠ []) (silent : outcome.1 = false) :
    host.NothingToPost landing ∧ outcome.2.sessions = host.sessions := by
  cases ticked with
  | alone empty => exact absurd (by simp [AckHost.shaken, empty]) shaken
  | quiet quiet => exact ⟨quiet, rfl⟩
  | posted =>
    refine absurd ?_ shaken
    rw [AckHost.shaken, List.map_eq_nil_iff, List.filter_eq_nil_iff]
    exact List.any_eq_false.mp silent

theorem Orderly.yield (orderly : host.Orderly) (passed : flush.sessions ≠ [] → host.store.Passed flush.version)
    (honest : flush.Honest host.sessions host.store) : { host with yielding := host.yielding ++ [flush] }.Orderly :=
  { orderly with
    passed := fun other member => by
      rcases List.mem_append.mp member with old | new
      · exact orderly.passed other old
      · rw [List.mem_singleton.mp new]
        exact passed
    yielding := fun other member => by
      rcases List.mem_append.mp member with old | new
      · exact orderly.yielding other old
      · rw [List.mem_singleton.mp new]
        exact honest }

/-- When a synchronization point is called with nothing left to post, no delta with changes is still on its way
to a session that can acknowledge. -/
def Caught (host : AckHost) (landing : Landing) : Prop :=
  host.NothingToPost landing → ∀ session ∈ host.sessions, session.id ∈ host.shaken → session.ackCapable = true →
    Clear session.inFlight host.store.inner.treeVersion

theorem Orderly.flushTickAcked (orderly : host.Orderly) (caught : host.Caught landing) :
    (host.flushTickAcked landing).Orderly := by
  unfold AckHost.flushTickAcked
  dsimp only
  split
  · have ticked := (tick_ticked host landing none).orderly orderly
    exact ticked.yield (fun called => absurd rfl called) fun session _ called => by cases called
  · next shaken =>
    have numbered : { host with nextAckId := host.nextAckId + 1 }.Orderly := { orderly with }
    have ticked := tick_ticked { host with nextAckId := host.nextAckId + 1 } landing (some host.nextAckId)
    generalize { host with nextAckId := host.nextAckId + 1 }.tick landing (some host.nextAckId) = outcome at ticked ⊢
    have some : host.sessions ≠ [] := fun empty => shaken (by simp [AckHost.shaken, empty])
    have passed := ticked.passed orderly.recording some
    have settled := ticked.orderly numbered
    split
    · have landed := settled.land landing.target
      have ahead : host.store.inner.treeVersion ≤ (outcome.2.land landing.target).store.inner.treeVersion :=
        passed.published.trans (settled.recording.later landing.target)
      split
      · next done =>
        refine landed.yield (fun _ => settled.recording.passed_edits landing.target passed) ?_
        exact Flush.Honest.of_satisfied done ahead landed.sessions
      · refine { landed with waiting := fun other member => ?_ }
        rcases List.mem_append.mp member with old | new
        · exact landed.waiting other old
        · rw [List.mem_singleton.mp new]
          exact ahead
    · next silent =>
      obtain ⟨nothing, same⟩ := ticked.silent shaken (Bool.eq_false_iff.mpr silent)
      refine settled.yield (fun _ => passed) fun session member called capable => ⟨passed, ?_⟩
      rw [same] at member
      exact caught nothing session member called capable

theorem Orderly.update (orderly : host.Orderly) {change : AckSession → AckSession}
    (follows : ∀ session : AckSession, session.Follows host.store host.store (change session)) : (host.update id change).Orderly := by
  refine orderly.follows ⟨orderly.recording, le_refl _, fun _ passed => passed, rfl,
    ⟨fun _ member => member, fun _ member => member, fun _ member => member, rfl⟩⟩ fun session _ => ?_
  split
  · exact follows session
  · exact .stay (le_refl _) fun _ passed => passed

theorem takeAck_same (session : AckSession) (nextAckId : Nat) :
    (session.takeAck nextAckId).id = session.id ∧ (session.takeAck nextAckId).inFlight = session.inFlight := by
  unfold AckSession.takeAck
  split
  · exact ⟨rfl, rfl⟩
  · split <;> exact ⟨rfl, rfl⟩

theorem Orderly.notifyAckWaiters (orderly : host.Orderly) : host.notifyAckWaiters.Orderly := by
  unfold AckHost.notifyAckWaiters
  rw [List.partition_eq_filter_filter]
  refine { orderly with waiting := fun flush member => orderly.waiting flush (List.mem_filter.mp member).1
                        resolved := fun resolution member => ?_ }
  rcases List.mem_append.mp member with old | new
  · exact orderly.resolved resolution old
  · obtain ⟨flush, done, rfl⟩ := List.mem_map.mp new
    obtain ⟨waits, satisfied⟩ := List.mem_filter.mp done
    exact Flush.Honest.of_satisfied satisfied (orderly.waiting flush waits) orderly.sessions

/-- A session that was written off answers again only when it has what a flush that skipped its wait promises. -/
def Returns (host : AckHost) (id : Nat) : Prop :=
  ∀ session ∈ host.sessions, session.id = id → session.ackCapable = false →
    ∀ flush ∈ host.yielding, id ∈ flush.sessions → Clear session.inFlight flush.version

theorem Orderly.handleAck (orderly : host.Orderly) (returns : host.Returns id) : (host.handleAck id).Orderly := by
  have taken : (host.update id (.takeAck host.nextAckId)).Orderly := by
    refine orderly.moves ⟨orderly.recording, le_refl _, fun _ passed => passed, rfl,
      ⟨fun _ member => member, fun _ member => member, fun _ member => member, rfl⟩⟩ ?_ ?_ ?_
    · intro session _
      split
      · exact (takeAck_same session _).1
      · rfl
    · intro session member
      split
      · exact (orderly.sessions session member).takeAck _
      · exact orderly.sessions session member
    · intro flush member session present called able
      cases capable : session.ackCapable with
      | true =>
        have settled := orderly.yielding flush member session present called capable
        split
        · rwa [(takeAck_same session _).2]
        · exact settled
      | false =>
        split
        · next same =>
          rw [(takeAck_same session _).2]
          refine ⟨orderly.passed flush member (List.ne_nil_of_mem called), ?_⟩
          exact returns session present same capable flush member (same ▸ called)
        · next other =>
          rw [if_neg other, capable] at able
          cases able
  unfold AckHost.handleAck
  dsimp only
  split
  · exact taken.notifyAckWaiters
  · exact taken

theorem Orderly.giveUp (orderly : host.Orderly) (flush : Flush) : (host.giveUp flush).Orderly := by
  refine orderly.follows ⟨orderly.recording, le_refl _, fun _ passed => passed, rfl,
    ⟨fun _ member => member, fun _ member => member, fun _ member => member, rfl⟩⟩ fun session _ => ?_
  split
  · exact ⟨rfl, fun able => (by cases able), fun inOrder => { inOrder with }, fun _ settled => settled⟩
  · exact .stay (le_refl _) fun _ passed => passed

/-- The steps that keep synchronization points honest. -/
def Careful (host : AckHost) : AckEvent → Prop
  | .flush landing => host.Caught landing
  | .ack id => host.Returns id
  | _ => True

theorem step_orderly (orderly : host.Orderly) (event : AckEvent) (careful : host.Careful event) :
    (host.step event).Orderly := by
  cases event with
  | native edit => exact orderly.land [edit]
  | mark => exact { orderly with }
  | attach protocol =>
    refine { orderly with sessions := fun session member => ?_, yielding := fun flush waits session member => ?_ }
    · rcases List.mem_append.mp member with old | new
      · exact orderly.sessions session old
      · rw [List.mem_singleton.mp new]
        exact fresh_inOrder _ _ _
    · rcases List.mem_append.mp member with old | new
      · exact orderly.yielding flush waits session old
      · intro called _
        refine ⟨orderly.passed flush waits (List.ne_nil_of_mem called), ?_⟩
        rw [List.mem_singleton.mp new]
        exact fun frame none => by cases none
  | detach id =>
    exact { orderly with
      sessions := fun session member => orderly.sessions session (List.mem_filter.mp member).1
      yielding := fun flush waits session member => orderly.yielding flush waits session (List.mem_filter.mp member).1 }
  | handshake id =>
    refine orderly.update fun session => ?_
    have posted : session.Follows host.store host.store (session.post (.snapshot host.store.inner.treeVersion)) :=
      .post rfl (le_refl _)
    exact ⟨rfl, posted.capable, fun inOrder => { posted.inOrder inOrder with }, posted.settled⟩
  | tick landing => exact (tick_ticked host landing none).orderly orderly
  | answer id =>
    refine orderly.update fun session => ?_
    split
    · exact .post rfl (le_refl _)
    · exact .stay (le_refl _) fun _ passed => passed
  | lookup id =>
    refine { orderly with lookups := fun lookup member => ?_ }
    rcases List.mem_append.mp member with old | new
    · exact orderly.lookups lookup old
    · rw [List.mem_singleton.mp new]
      exact le_refl _
  | result index =>
    simp only [step]
    split
    · exact orderly
    · next id version found =>
      have fewer : { host with lookups := host.lookups.eraseIdx index }.Orderly :=
        { orderly with lookups := fun lookup member => orderly.lookups lookup (List.mem_of_mem_eraseIdx member) }
      refine fewer.update fun session => ?_
      split
      · exact .post rfl (orderly.lookups _ (List.mem_of_getElem? found))
      · exact .stay (le_refl _) fun _ passed => passed
  | flush landing => exact orderly.flushTickAcked careful
  | immediate index =>
    simp only [step]
    split
    · exact orderly
    · next flush found =>
      refine { orderly with
        passed := fun other member => orderly.passed other (List.mem_of_mem_eraseIdx member)
        yielding := fun other member => orderly.yielding other (List.mem_of_mem_eraseIdx member)
        resolved := fun resolution member => ?_ }
      rcases List.mem_append.mp member with old | new
      · exact orderly.resolved resolution old
      · rw [List.mem_singleton.mp new]
        exact orderly.yielding flush (List.mem_of_getElem? found)
  | timeout index =>
    simp only [step]
    split
    · exact orderly
    · have fewer : { host with waiting := host.waiting.eraseIdx index }.Orderly :=
        { orderly with waiting := fun flush member => orderly.waiting flush (List.mem_of_mem_eraseIdx member) }
      exact fewer.giveUp _
  | ack id => exact orderly.handleAck careful
  | deliver id => exact orderly.update fun session => deliver_follows session host.store
  | merge id index => exact orderly.update fun session => merge_follows session host.store index

/-- In every run of careful steps each synchronization point that resolves without its timeout is honest: every
session that had shaken hands at the call, is attached and can acknowledge has applied each delta with changes up
to the version of the call, and no such change is left to post. -/
theorem flush_honest (run : Run step Careful initial host) :
    ∀ resolution ∈ host.resolved, resolution.flush.Honest resolution.sessions resolution.store := by
  have orderly : host.Orderly := by
    refine run.invariant Orderly initial_orderly ?_
    intro state event before careful
    exact step_orderly before event careful
  exact orderly.resolved

section Sample

open EntryStore

/-- A client with ids has shaken hands and applied its snapshot; then a root is found. -/
def sampleEvents : List AckEvent :=
  [.attach .withId, .handshake 1, .deliver 1,
    .native (.op (.insert (Path.ofNames ["r"]) (sampleEntry none "r" .directory none)))]

def sampleHost : AckHost :=
  sampleEvents.foldl step initial

theorem sampleHost_reached : Run step Careful initial sampleHost :=
  Run.of_list sampleEvents ⟨trivial, trivial, trivial, trivial, trivial⟩

/-- The flush posts the change and waits until the client has acknowledged it. -/
theorem flush_honest_awaited :
    ((([.flush {}, .deliver 1, .ack 1] : List AckEvent).foldl step sampleHost).resolved.map (·.flush.version)) = [1] ∧
    ∀ resolution ∈ (([.flush {}, .deliver 1, .ack 1] : List AckEvent).foldl step sampleHost).resolved,
      resolution.flush.Honest resolution.sessions resolution.store := by
  refine ⟨by decide, flush_honest (sampleHost_reached.trans (Run.of_list _ ⟨?_, trivial, ?_, trivial⟩))⟩
  · intro nothing
    exact absurd nothing (by unfold NothingToPost; decide)
  · intro session member _ incapable
    have capable : ∀ session ∈ ((sampleHost.step (.flush {})).step (.deliver 1)).sessions, session.ackCapable = true := by
      decide
    rw [capable session member] at incapable
    cases incapable

/-- The interval's tick posts the change; the flush that follows has nothing to post and resolves while the delta
is still on its way. -/
theorem quiet_flush_skips_wait :
    ∃ host, Run step (fun _ _ => True) initial host ∧
    ∃ resolution ∈ host.resolved, ¬ resolution.flush.Honest resolution.sessions resolution.store := by
  let events : List AckEvent := sampleEvents ++ [.tick {}, .flush {}, .immediate 0]
  refine ⟨events.foldl step initial, Run.of_list events (by simp [events, sampleEvents, Run.Along]), ?_⟩
  have early : ∃ resolution ∈ (events.foldl step initial).resolved, ∃ session ∈ resolution.sessions,
      session.id ∈ resolution.flush.sessions ∧ session.ackCapable = true ∧
      ∃ frame ∈ session.inFlight, frame.Covers resolution.flush.version := by
    decide
  obtain ⟨resolution, member, session, present, called, capable, frame, waits, covers⟩ := early
  exact ⟨resolution, member, fun honest => (honest session present called capable).clear frame waits covers⟩

end Sample

end AckHost

end Mille
