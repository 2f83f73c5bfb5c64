import Mathlib
import Mille.Stream.Outbound

/-! What holds of the sending half of a channel over every order of events. The frames
(queue, counters, waiters) and the closing (state, event, close listeners) each have an
invariant of their own; no step of the one touches what the other speaks of, but for the
state. -/

namespace Mille.Stream.Outbound

variable {json : Json} {limits : FramedStreamLimits} {channel : Channel}

/-- Bytes of a run of frames. -/
def size (frames : List Bytes) : Nat := (frames.map List.length).sum

@[simp] theorem size_nil : size [] = 0 := rfl

@[simp] theorem size_cons (frame : Bytes) (frames : List Bytes) :
    size (frame :: frames) = frame.length + size frames := by
  simp [size]

@[simp] theorem size_append (first second : List Bytes) :
    size (first ++ second) = size first + size second := by
  simp [size]

theorem le_of_size {handed rest : List Bytes} {count : Nat}
    (nonempty : ∀ frame ∈ handed ++ rest, 0 < frame.length) (within : count ≤ (handed ++ rest).length)
    (reached : size ((handed ++ rest).take count) ≤ size handed) : count ≤ handed.length := by
  by_contra beyond
  have split : (handed ++ rest).take count = handed ++ rest.take (count - handed.length) := by
    rw [List.take_append, List.take_of_length_le (by omega)]
  rw [split, size_append] at reached
  cases rest with
  | nil =>
    simp only [List.append_nil] at within
    omega
  | cons frame others =>
    obtain ⟨more, counted⟩ : ∃ more, count - handed.length = more + 1 := ⟨count - handed.length - 1, by omega⟩
    rw [counted, List.take_succ_cons, size_cons] at reached
    have some_byte := nonempty frame (by simp)
    omega

theorem encodeFrame_nonempty {message : Value} {frame : Bytes}
    (encoded : encodeFrame json limits message = .ok frame) : 0 < frame.length := by
  obtain ⟨_, _, _, _, _, _, _, rfl⟩ := encodeFrame_ok encoded
  rw [List.length_append, frontBytes_length]
  simp [headerBytes]

/-- A promise of `drain` may resolve: the channel closed, or what `send` had taken when the
promise was made was handed over. -/
def Channel.Due (channel : Channel) (promise : Nat) : Prop :=
  ∃ count, channel.asked[promise]? = some count ∧
    (channel.state = .closed ∨ count ≤ channel.handed.length)

/-- The frames: those taken are those handed over, then those queued, then what a shutdown
dropped; the counters are their sizes. -/
structure Flow (limits : FramedStreamLimits) (channel : Channel) : Prop where
  ordered : ∃ lost, channel.accepted = channel.handed ++ channel.queue ++ lost ∧
    (channel.state = .opened → lost = [])
  dropped : channel.state ≠ .opened → channel.queue = []
  queued : channel.queuedBytes = size channel.queue
  bounded : channel.queuedBytes ≤ limits.outboundHardBytes
  enqueued : channel.enqueuedTotal = size channel.accepted
  written : channel.writtenTotal = size channel.handed
  nonempty : ∀ frame ∈ channel.accepted, 0 < frame.length
  asked : ∀ count ∈ channel.asked, count ≤ channel.accepted.length
  waiting : ∀ waiter ∈ channel.drainWaiters, ∃ count, channel.asked[waiter.promise]? = some count ∧
    waiter.mark = size (channel.accepted.take count)
  kept : ∀ promise ∈ channel.resolved, channel.Due promise

namespace Flow

theorem opened : Flow limits .opened where
  ordered := ⟨[], rfl, fun _ => rfl⟩
  dropped _ := rfl
  queued := rfl
  bounded := Nat.zero_le _
  enqueued := rfl
  written := rfl
  nonempty := by simp [Channel.opened]
  asked := by simp [Channel.opened]
  waiting := by simp [Channel.opened]
  kept := by simp [Channel.opened]

theorem handed_prefix (flow : Flow limits channel) : channel.handed <+: channel.accepted := by
  obtain ⟨lost, same, _⟩ := flow.ordered
  exact ⟨channel.queue ++ lost, by rw [same, List.append_assoc]⟩

theorem due_of_mark (flow : Flow limits channel) {waiter : DrainWaiter}
    (waits : waiter ∈ channel.drainWaiters) (passed : waiter.mark ≤ channel.writtenTotal) :
    channel.Due waiter.promise := by
  obtain ⟨count, called, mark⟩ := flow.waiting waiter waits
  refine ⟨count, called, .inr ?_⟩
  obtain ⟨rest, same⟩ := flow.handed_prefix
  have within := flow.asked count (List.mem_of_getElem? called)
  have nonempty := flow.nonempty
  rw [mark, flow.written, ← same] at passed
  rw [← same] at within nonempty
  exact le_of_size nonempty within passed

theorem settleDrainWaiters (flow : Flow limits channel) : Flow limits channel.settleDrainWaiters where
  __ := flow
  waiting waiter member := flow.waiting waiter (List.mem_of_mem_filter member)
  kept promise member := by
    rcases List.mem_append.mp member with before | ready
    · exact flow.kept promise before
    · obtain ⟨waiter, chosen, rfl⟩ := List.mem_map.mp ready
      obtain ⟨waits, passed⟩ := List.mem_filter.mp chosen
      exact flow.due_of_mark waits (of_decide_eq_true passed)

theorem rested (flow : Flow limits channel) : Flow limits (channel.rested limits) :=
  settleDrainWaiters { flow with }

theorem pump (flow : Flow limits channel) : Flow limits (channel.pump limits) := by
  unfold Channel.pump
  cases queue : channel.queue with
  | nil => exact flow.rested
  | cons frame rest =>
    dsimp only
    split
    case isFalse => exact flow.rested
    case isTrue ready =>
      obtain ⟨lost, same, none_lost⟩ := flow.ordered
      have counted := flow.queued
      rw [queue, size_cons] at counted
      exact {
        ordered := ⟨lost, by simp [same, queue], none_lost⟩
        dropped := fun closed => absurd ready.2 closed
        queued := by simp only [counted]; omega
        bounded := le_trans (Nat.sub_le _ _) flow.bounded
        enqueued := flow.enqueued
        written := by simp [flow.written]
        nonempty := flow.nonempty
        asked := flow.asked
        waiting := flow.waiting
        kept := by
          intro promise member
          obtain ⟨count, called, due⟩ := flow.kept promise member
          refine ⟨count, called, due.imp_right ?_⟩
          intro within
          simp only [List.length_append]
          omega }

theorem shutdown (flow : Flow limits channel) (code : CloseCode) (reason : Option String)
    (cause : Option Cause) : Flow limits (channel.shutdown code reason cause) := by
  unfold Channel.shutdown
  split
  case isFalse => exact flow
  case isTrue running =>
    obtain ⟨lost, same, _⟩ := flow.ordered
    exact { flow with
      ordered := ⟨channel.queue ++ lost, by simp [same], by simp⟩
      dropped := fun _ => rfl
      queued := rfl
      bounded := Nat.zero_le _
      kept := by
        intro promise member
        obtain ⟨count, called, due⟩ := flow.kept promise member
        exact ⟨count, called, .inr (due.resolve_left (by simp [running]))⟩ }

theorem announce (flow : Flow limits channel) (listeners : List ListenerId) :
    Flow limits (channel.announce listeners) := by
  cases listeners with
  | nil => exact { flow with }
  | cons listener left => exact { flow with }

theorem finish (flow : Flow limits channel) (ending : channel.state ≠ .opened) :
    Flow limits channel.finish := by
  refine announce ?_ _
  obtain ⟨lost, same, _⟩ := flow.ordered
  exact { flow with
    ordered := ⟨lost, same, by simp⟩
    dropped := fun _ => flow.dropped ending
    waiting := by simp
    kept := by
      intro promise member
      rcases List.mem_append.mp member with before | released
      · obtain ⟨count, called, _⟩ := flow.kept promise before
        exact ⟨count, called, .inl rfl⟩
      · obtain ⟨waiter, waits, rfl⟩ := List.mem_map.mp released
        obtain ⟨count, called, _⟩ := flow.waiting waiter waits
        exact ⟨count, called, .inl rfl⟩ }

theorem emitAll (flow : Flow limits channel) (messages : List Value) :
    Flow limits (channel.emitAll messages) := by
  induction messages generalizing channel with
  | nil => exact flow
  | cons message rest ih =>
    unfold Channel.emitAll
    split
    · split
      · exact ih { flow with }
      · exact { flow with }
    · exact flow

theorem onData (flow : Flow limits channel) (chunk : Bytes) : Flow limits (channel.onData json limits chunk) := by
  unfold Channel.onData
  split
  · split
    case h_1 => exact flow.shutdown _ _ _
    case h_2 decoder messages _ =>
      have decoded : Flow limits { channel with decoder } := { flow with }
      exact decoded.emitAll messages
  · exact flow

theorem send (flow : Flow limits channel) (message : Value) : Flow limits (channel.send json limits message) := by
  unfold Channel.send
  split
  case isFalse => exact flow
  case isTrue running =>
    split
    case h_1 => exact flow
    case h_2 frame encoded =>
      split
      case isTrue => exact flow.shutdown _ _ _
      case isFalse room =>
        have queued : Flow limits { channel with
            queue := channel.queue ++ [frame]
            queuedBytes := channel.queuedBytes + frame.length
            enqueuedTotal := channel.enqueuedTotal + frame.length
            accepted := channel.accepted ++ [frame] } := by
          obtain ⟨lost, same, none_lost⟩ := flow.ordered
          have none_yet := none_lost running
          exact {
            ordered := ⟨[], by simp [same, none_yet], fun _ => rfl⟩
            dropped := fun closed => absurd running closed
            queued := by simp [flow.queued]
            bounded := by simpa using room
            enqueued := by simp [flow.enqueued]
            written := flow.written
            nonempty := by
              intro other member
              rcases List.mem_append.mp member with before | last
              · exact flow.nonempty other before
              · rw [List.mem_singleton.mp last]
                exact encodeFrame_nonempty encoded
            asked := by
              intro count member
              have within := flow.asked count member
              simp only [List.length_append]
              omega
            waiting := by
              intro waiter member
              obtain ⟨count, called, mark⟩ := flow.waiting waiter member
              refine ⟨count, called, ?_⟩
              rw [mark, List.take_append_of_le_length (flow.asked count (List.mem_of_getElem? called))]
            kept := flow.kept }
        dsimp only
        split
        · exact { queued with }
        · exact queued.pump

/-- Calling `drain` makes a promise that is due, or one that waits for all frames so far. -/
theorem drain (flow : Flow limits channel) : Flow limits channel.drain := by
  have called (promise count : Nat) (before : channel.asked[promise]? = some count) :
      (channel.asked ++ [channel.accepted.length])[promise]? = some count := by
    rw [List.getElem?_append_left (List.getElem?_eq_some_iff.mp before).1, before]
  have asks : Flow limits { channel with asked := channel.asked ++ [channel.accepted.length] } :=
    { flow with
      asked := by
        intro count member
        rcases List.mem_append.mp member with before | last
        · exact flow.asked count before
        · exact (List.mem_singleton.mp last).le
      waiting := by
        intro waiter member
        obtain ⟨count, before, mark⟩ := flow.waiting waiter member
        exact ⟨count, called _ _ before, mark⟩
      kept := by
        intro promise member
        obtain ⟨count, before, due⟩ := flow.kept promise member
        exact ⟨count, called _ _ before, due⟩ }
  have newest : (channel.asked ++ [channel.accepted.length])[channel.asked.length]? =
      some channel.accepted.length := by simp
  unfold Channel.drain
  dsimp only
  split
  case isTrue all =>
    obtain ⟨rest, same⟩ := flow.handed_prefix
    have nonempty := flow.nonempty
    rw [flow.enqueued, flow.written, ← same] at all
    rw [← same] at nonempty
    have handed : channel.accepted.length ≤ channel.handed.length := by
      rw [← same]
      exact le_of_size nonempty le_rfl (by rwa [List.take_length])
    exact { asks with
      kept := by
        intro promise member
        rcases List.mem_append.mp member with before | last
        · exact asks.kept promise before
        · rw [List.mem_singleton.mp last]
          exact ⟨_, newest, .inr handed⟩ }
  case isFalse =>
    exact { asks with
      waiting := by
        intro waiter member
        rcases List.mem_append.mp member with before | last
        · exact asks.waiting waiter before
        · rw [List.mem_singleton.mp last]
          exact ⟨_, newest, by simp [flow.enqueued]⟩ }

theorem dispose (flow : Flow limits channel) (index : Nat) : Flow limits (channel.dispose index) := by
  unfold Channel.dispose
  split
  · dsimp only
    split
    · exact { flow with }
    · exact { flow with }
  · exact flow

theorem onClose (flow : Flow limits channel) (listener : ListenerId) :
    Flow limits (channel.onClose listener) := by
  unfold Channel.onClose
  split
  · exact { flow with }
  · exact { flow with }

theorem resume (flow : Flow limits channel) (ok : Bool) (activity : Activity)
    (ending : activity.isEnding → channel.state ≠ .opened) : Flow limits (channel.resume limits ok activity) := by
  cases activity with
  | warning => exact flow.pump
  | writing =>
    have answered : Flow limits { channel with writable := channel.writable && ok } := { flow with }
    exact answered.pump
  | emitting left messages =>
    cases left with
    | nil => exact flow.emitAll messages
    | cons listener left => exact { flow with }
  | ending => exact flow.finish (ending rfl)
  | announcing left => exact flow.announce left

theorem recover (flow : Flow limits channel) (message : String) (activity : Activity)
    (ending : activity.isEnding → channel.state ≠ .opened) :
    Flow limits (channel.recover limits message activity) := by
  cases activity with
  | warning => exact flow
  | writing => exact flow.shutdown _ _ _
  | emitting left messages => exact flow.resume true _ ending
  | ending => exact flow.resume true _ ending
  | announcing left => exact flow.resume true _ ending

end Flow

/-- Close listeners of a walk in progress that are still to be called. -/
def Activity.unheard : Activity → List ListenerId
  | .announcing left => left
  | _ => []

def Channel.unheard (channel : Channel) : List ListenerId := channel.stack.flatMap Activity.unheard

/-- The closing: the stream is being ended exactly while the state says so; nothing was
told before the channel closed; from then on those told, those still to call and the queued
microtasks are the listeners there were and those that came late. -/
structure Closing (channel : Channel) : Prop where
  undecided : channel.state = .opened → channel.closeEvent = none
  decided : channel.state ≠ .opened → channel.closeEvent ≠ none
  ending : channel.stack.countP Activity.isEnding = if channel.state = .closing then 1 else 0
  silent : channel.state ≠ .closed → channel.told = [] ∧ channel.microtasks = [] ∧ channel.unheard = [] ∧
    channel.audience = [] ∧ channel.late = []
  heard : (channel.told.map Prod.fst ++ channel.unheard ++ channel.microtasks.map Prod.fst).Perm
    (channel.audience ++ channel.late)
  same : ∀ entry ∈ channel.told ++ channel.microtasks, channel.closeEvent = some entry.2
  distinct : channel.closes.Nodup
  once : channel.audience.Nodup

namespace Closing

theorem opened : Closing .opened where
  undecided _ := rfl
  decided running := absurd rfl running
  ending := rfl
  silent _ := ⟨rfl, rfl, rfl, rfl, rfl⟩
  heard := List.Perm.refl _
  same := by simp [Channel.opened]
  distinct := List.nodup_nil
  once := List.nodup_nil

theorem stacked (closing : Closing channel) (stack : List Activity)
    (ending : stack.countP Activity.isEnding = channel.stack.countP Activity.isEnding)
    (unheard : stack.flatMap Activity.unheard = channel.unheard) : Closing { channel with stack } :=
  { closing with
    ending := ending.trans closing.ending
    silent := by simpa only [Channel.unheard, unheard] using closing.silent
    heard := by simpa only [Channel.unheard, unheard] using closing.heard }

theorem event (closing : Closing channel) (ending : channel.state ≠ .opened) :
    channel.closeEvent = some channel.finalEvent := by
  obtain ⟨event, same⟩ := Option.ne_none_iff_exists'.mp (closing.decided ending)
  rw [Channel.finalEvent, same, Option.getD_some]

theorem settleDrainWaiters (closing : Closing channel) : Closing channel.settleDrainWaiters :=
  { closing with }

theorem rested (closing : Closing channel) : Closing (channel.rested limits) :=
  { closing with }

theorem pump (closing : Closing channel) : Closing (channel.pump limits) := by
  unfold Channel.pump
  split
  · exact closing.rested
  · split
    · have called := closing.stacked (.writing :: channel.stack) rfl rfl
      exact { called with }
    · exact closing.rested

theorem shutdown (closing : Closing channel) (code : CloseCode) (reason : Option String)
    (cause : Option Cause) : Closing (channel.shutdown code reason cause) := by
  unfold Channel.shutdown
  split
  case isFalse => exact closing
  case isTrue running =>
    have none_ending := closing.ending
    have quiet := closing.silent (by simp [running])
    have untold : channel.told ++ channel.microtasks = [] := by simp [quiet.1, quiet.2.1]
    exact { closing with
      undecided := nofun
      decided := nofun
      ending := by
        rw [running] at none_ending
        rw [List.countP_cons, none_ending]
        rfl
      silent := fun _ => quiet
      same := by simp [untold] }

theorem announce {left : List ListenerId}
    (closing : Closing { channel with stack := .announcing left :: channel.stack }) :
    Closing (channel.announce left) := by
  cases left with
  | nil =>
    have returned := closing.stacked channel.stack rfl rfl
    exact { returned with distinct := List.nodup_nil }
  | cons listener left =>
    have finished : channel.state = .closed := by
      by_contra unfinished
      exact absurd (closing.silent unfinished).2.2.1 (by simp [Channel.unheard, Activity.unheard])
    have event : channel.closeEvent = some channel.finalEvent := closing.event (by simp [finished])
    exact {
      undecided := closing.undecided
      decided := closing.decided
      ending := closing.ending
      silent := fun unfinished => absurd finished unfinished
      heard := by
        have before := closing.heard
        simpa [Channel.announce, Channel.unheard, Activity.unheard] using before
      same := by
        intro entry member
        rcases List.mem_append.mp member with told | queued
        · rcases List.mem_append.mp told with before | last
          · exact closing.same entry (List.mem_append_left _ before)
          · rw [List.mem_singleton.mp last]
            exact event
        · exact closing.same entry (List.mem_append_right _ queued)
      distinct := closing.distinct
      once := closing.once }

theorem finish (closing : Closing { channel with stack := .ending :: channel.stack }) :
    Closing channel.finish := by
  have ending := closing.ending
  have underway : channel.state = .closing := by
    by_contra other
    simp [other, Activity.isEnding] at ending
  obtain ⟨told, microtasks, unheard, _, late⟩ := closing.silent (by simp [underway])
  refine announce {
    undecided := nofun
    decided := fun _ => closing.decided (by simp [underway])
    ending := ?_
    silent := fun unfinished => absurd rfl unfinished
    heard := ?_
    same := closing.same
    distinct := closing.distinct
    once := closing.distinct }
  · rw [underway, List.countP_cons] at ending
    exact Nat.add_right_cancel ending
  · have nobody : channel.stack.flatMap Activity.unheard = [] := unheard
    simp only at told microtasks late
    simp [Channel.unheard, Activity.unheard, nobody, told, microtasks, late]

theorem emitAll (closing : Closing channel) (messages : List Value) :
    Closing (channel.emitAll messages) := by
  induction messages generalizing channel with
  | nil => exact closing
  | cons message rest ih =>
    unfold Channel.emitAll
    split
    · split
      case h_1 => exact ih { closing with }
      case h_2 left _ =>
        have called := closing.stacked (.emitting left rest :: channel.stack) rfl rfl
        exact { called with }
    · exact closing

theorem onData (closing : Closing channel) (chunk : Bytes) : Closing (channel.onData json limits chunk) := by
  unfold Channel.onData
  split
  · split
    case h_1 => exact closing.shutdown _ _ _
    case h_2 decoder messages _ =>
      have decoded : Closing { channel with decoder } := { closing with }
      exact decoded.emitAll messages
  · exact closing

theorem send (closing : Closing channel) (message : Value) : Closing (channel.send json limits message) := by
  unfold Channel.send
  split
  · split
    · exact closing
    · split
      · exact closing.shutdown _ _ _
      · dsimp only
        split
        · have called := closing.stacked (.warning :: channel.stack) rfl rfl
          exact { called with }
        · exact pump { closing with }
  · exact closing

theorem drain (closing : Closing channel) : Closing channel.drain := by
  unfold Channel.drain
  dsimp only
  split
  · exact { closing with }
  · exact { closing with }

theorem insertListener_nodup {listeners : List ListenerId} (distinct : listeners.Nodup)
    (listener : ListenerId) : (Channel.insertListener listeners listener).Nodup := by
  unfold Channel.insertListener
  split
  · exact distinct
  case isFalse absent =>
    apply List.nodup_append.mpr
    exact ⟨distinct, List.nodup_singleton _, by
      intro one member other last same
      exact absent ((List.mem_singleton.mp last) ▸ same ▸ member)⟩

theorem onClose (closing : Closing channel) (listener : ListenerId) : Closing (channel.onClose listener) := by
  unfold Channel.onClose
  split
  case isFalse => exact { closing with distinct := insertListener_nodup closing.distinct listener }
  case isTrue finished =>
    have event : channel.closeEvent = some channel.finalEvent := closing.event (by simp [finished])
    exact { closing with
      silent := fun unfinished => absurd finished unfinished
      heard := by
        have before := closing.heard.append_right [listener]
        simpa [Channel.unheard] using before
      same := by
        intro entry member
        rw [← List.append_assoc] at member
        rcases List.mem_append.mp member with before | last
        · exact closing.same entry before
        · rw [List.mem_singleton.mp last]
          exact event }

theorem dispose (closing : Closing channel) (index : Nat) : Closing (channel.dispose index) := by
  unfold Channel.dispose
  split
  · dsimp only
    split
    · exact { closing with }
    · exact { closing with distinct := closing.distinct.erase _ }
  · exact closing

theorem resume {activity : Activity} (ok : Bool)
    (closing : Closing { channel with stack := activity :: channel.stack }) :
    Closing (channel.resume limits ok activity) := by
  cases activity with
  | warning => exact pump (closing.stacked channel.stack rfl rfl)
  | writing =>
    have returned := closing.stacked channel.stack rfl rfl
    exact pump { returned with }
  | emitting left messages =>
    cases left with
    | nil => exact emitAll (closing.stacked channel.stack rfl rfl) messages
    | cons listener left => exact closing.stacked (.emitting left messages :: channel.stack) rfl rfl
  | ending => exact closing.finish
  | announcing left => exact closing.announce

theorem recover {activity : Activity} (message : String)
    (closing : Closing { channel with stack := activity :: channel.stack }) :
    Closing (channel.recover limits message activity) := by
  cases activity with
  | warning => exact closing.stacked channel.stack rfl rfl
  | writing => exact shutdown (closing.stacked channel.stack rfl rfl) _ _ _
  | emitting left messages => exact closing.resume true
  | ending => exact closing.finish
  | announcing left => exact closing.announce

theorem runMicrotask (closing : Closing channel) : Closing channel.runMicrotask := by
  unfold Channel.runMicrotask
  split
  case h_2 => exact closing
  case h_1 task rest idle queued =>
    have finished : channel.state = .closed := by
      by_contra unfinished
      exact absurd (closing.silent unfinished).2.1 (by simp [queued])
    exact { closing with
      silent := fun unfinished => absurd finished unfinished
      heard := by
        have before := closing.heard
        rw [queued] at before
        simpa [Channel.unheard, idle] using before
      same := by
        intro entry member
        apply closing.same
        rw [queued]
        simpa [or_assoc] using member }

end Closing

/-- Both invariants. -/
structure Sound (limits : FramedStreamLimits) (channel : Channel) : Prop where
  flow : Flow limits channel
  closing : Closing channel

theorem Sound.popped (sound : Sound limits channel) {behind : Channel → Activity → Channel}
    (goes : ∀ channel activity, Closing { channel with stack := activity :: channel.stack } →
      Flow limits channel → Sound limits (behind channel activity)) :
    Sound limits (channel.popped behind) := by
  unfold Channel.popped
  cases stack : channel.stack with
  | nil => exact sound
  | cons activity rest =>
    apply goes
    · have same : channel = { channel with stack := activity :: rest } := by rw [← stack]
      exact same ▸ sound.closing
    · exact { sound.flow with }

theorem Closing.not_open {activity : Activity}
    (closing : Closing { channel with stack := activity :: channel.stack })
    (ends : activity.isEnding) : channel.state ≠ .opened := by
  intro running
  have ending := closing.ending
  simp [running, ends] at ending

theorem Sound.step (sound : Sound limits channel) (event : Event) :
    Sound limits (channel.step json limits event) := by
  obtain ⟨flow, closing⟩ := sound
  cases event with
  | send message => exact ⟨flow.send message, closing.send message⟩
  | drain => exact ⟨flow.drain, closing.drain⟩
  | onMessage listener => exact ⟨{ flow with }, { closing with }⟩
  | onClose listener => exact ⟨flow.onClose listener, closing.onClose listener⟩
  | dispose index => exact ⟨flow.dispose index, closing.dispose index⟩
  | close reason => exact ⟨flow.shutdown _ _ _, closing.shutdown _ _ _⟩
  | streamDrain => exact ⟨Flow.pump { flow with }, Closing.pump { closing with }⟩
  | streamData chunk => exact ⟨flow.onData chunk, closing.onData chunk⟩
  | streamError message => exact ⟨flow.shutdown _ _ _, closing.shutdown _ _ _⟩
  | streamEnd => exact ⟨flow.shutdown _ _ _, closing.shutdown _ _ _⟩
  | streamClose => exact ⟨flow.shutdown _ _ _, closing.shutdown _ _ _⟩
  | returns ok =>
    apply Sound.popped ⟨flow, closing⟩
    intro channel activity closing flow
    exact ⟨flow.resume ok activity closing.not_open, closing.resume ok⟩
  | throws message =>
    apply Sound.popped ⟨flow, closing⟩
    intro channel activity closing flow
    exact ⟨flow.recover message activity closing.not_open, closing.recover message⟩
  | microtask =>
    refine ⟨?_, closing.runMicrotask⟩
    simp only [Channel.step, Channel.runMicrotask]
    split
    · exact { flow with }
    · exact flow

theorem Sound.run (sound : Sound limits channel) (events : List Event) :
    Sound limits (events.foldl (Channel.step json limits) channel) := by
  induction events generalizing channel with
  | nil => exact sound
  | cons event rest ih => exact ih (sound.step event)

/-- Nothing more is handed to the stream or to the message listeners, and the close event
stays what it is. -/
structure Still (before after : Channel) : Prop where
  ended : after.state ≠ .opened
  handed : after.handed = before.handed
  emitted : after.emitted = before.emitted
  closeEvent : after.closeEvent = before.closeEvent

namespace Still

variable {before : Channel}

theorem of_ended (ended : channel.state ≠ .opened) : Still channel channel := ⟨ended, rfl, rfl, rfl⟩

theorem pump (still : Still before channel) : Still before (channel.pump limits) := by
  have rested : channel.pump limits = channel.rested limits := by
    unfold Channel.pump
    split
    · rfl
    · exact if_neg fun ready => still.ended ready.2
  rw [rested]
  exact { still with }

theorem shutdown (still : Still before channel) (code : CloseCode) (reason : Option String)
    (cause : Option Cause) : Still before (channel.shutdown code reason cause) := by
  rw [Channel.shutdown, if_neg still.ended]
  exact still

theorem announce (still : Still before channel) (left : List ListenerId) :
    Still before (channel.announce left) := by
  cases left with
  | nil => exact { still with }
  | cons listener left => exact { still with }

theorem finish (still : Still before channel) : Still before channel.finish := by
  refine announce ?_ _
  exact { still with ended := ChannelState.noConfusion }

theorem emitAll (still : Still before channel) (messages : List Value) :
    Still before (channel.emitAll messages) := by
  cases messages with
  | nil => exact still
  | cons message rest =>
    rw [Channel.emitAll, if_neg still.ended]
    exact still

theorem resume (still : Still before channel) (ok : Bool) (activity : Activity) :
    Still before (channel.resume limits ok activity) := by
  cases activity with
  | warning => exact still.pump
  | writing =>
    have answered : Still before { channel with writable := channel.writable && ok } := { still with }
    exact answered.pump
  | emitting left messages =>
    cases left with
    | nil => exact still.emitAll messages
    | cons listener left => exact { still with }
  | ending => exact still.finish
  | announcing left => exact still.announce left

theorem recover (still : Still before channel) (message : String) (activity : Activity) :
    Still before (channel.recover limits message activity) := by
  cases activity with
  | warning => exact still
  | writing => exact still.shutdown _ _ _
  | emitting left messages => exact still.resume true _
  | ending => exact still.finish
  | announcing left => exact still.announce left

theorem popped (still : Still before channel) {behind : Channel → Activity → Channel}
    (goes : ∀ channel activity, Still before channel → Still before (behind channel activity)) :
    Still before (channel.popped behind) := by
  unfold Channel.popped
  split
  · exact still
  · exact goes _ _ { still with }

theorem step (still : Still before channel) (event : Event) :
    Still before (channel.step json limits event) := by
  cases event with
  | send message =>
    rw [Channel.step, Channel.send, if_neg still.ended]
    exact still
  | drain =>
    simp only [Channel.step, Channel.drain]
    split
    · exact { still with }
    · exact { still with }
  | onMessage listener => exact { still with }
  | onClose listener =>
    simp only [Channel.step, Channel.onClose]
    split
    · exact { still with }
    · exact { still with }
  | dispose index =>
    simp only [Channel.step, Channel.dispose]
    split
    · split
      · exact { still with }
      · exact { still with }
    · exact still
  | close reason => exact still.shutdown _ _ _
  | streamDrain => exact pump { still with }
  | streamData chunk =>
    rw [Channel.step, Channel.onData, if_neg still.ended]
    exact still
  | streamError message => exact still.shutdown _ _ _
  | streamEnd => exact still.shutdown _ _ _
  | streamClose => exact still.shutdown _ _ _
  | returns ok => exact still.popped fun _ activity after => after.resume ok activity
  | throws message => exact still.popped fun _ activity after => after.recover message activity
  | microtask =>
    simp only [Channel.step, Channel.runMicrotask]
    split
    · exact { still with }
    · exact still

theorem run (still : Still before channel) (events : List Event) :
    Still before (events.foldl (Channel.step json limits) channel) := by
  induction events generalizing channel with
  | nil => exact still
  | cons event rest ih => exact ih (still.step event)

end Still

/-- What a channel promises its callers. -/
structure Promised (json : Json) (limits : FramedStreamLimits) (channel : Channel) : Prop where
  /-- The frames handed to the stream begin those taken, each once and in order. -/
  handed : channel.handed <+: channel.accepted
  /-- The bytes of what is still here. -/
  buffered : channel.state = .opened →
    channel.queuedBytes = ((channel.accepted.drop channel.handed.length).map List.length).sum
  bounded : channel.queuedBytes ≤ limits.outboundHardBytes
  /-- A resolved promise of `drain` had all frames before it handed over, or the channel closed. -/
  drained : ∀ promise ∈ channel.resolved, ∃ count, channel.asked[promise]? = some count ∧
    (channel.state = .closed ∨ channel.accepted.take count <+: channel.handed)
  /-- Whatever happens after a shutdown, nothing is written or emitted any more; a message
  being emitted still reaches the rest of its snapshot of the listeners. -/
  stopped : channel.state ≠ .opened → ∀ events : List Event,
    Still channel (events.foldl (Channel.step json limits) channel)
  /-- No listener is told of the close before it, or of any but the one close event. -/
  told : ∀ entry ∈ channel.told, channel.state = .closed ∧ channel.closeEvent = some entry.2
  /-- Nobody is told more often than they subscribed: the listeners there were when the
  channel closed once each, and each that came later once. -/
  audience : channel.audience.Nodup
  atMost : (channel.told.map Prod.fst).Subperm (channel.audience ++ channel.late)
  /-- Once every call has returned and the queued microtasks ran, all were told. -/
  everyone : channel.stack = [] → channel.microtasks = [] →
    (channel.told.map Prod.fst).Perm (channel.audience ++ channel.late)

end Mille.Stream.Outbound
