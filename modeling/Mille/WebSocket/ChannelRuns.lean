import Mathlib
import Mille.WebSocket.Channel

/-! Order and drains over whole runs. A send between the opening and its callback overtakes the
frames still pending, and in the middle of the flush the frames yet to be written are counted
nowhere; in runs without either, order and drains hold. -/

namespace Mille.WebSocket

open Mille.Stream (Bytes Value Json FramedStreamLimits encodeFrame sampleJson sampleLimits)
open Mille.Stream.Outbound (size size_nil size_cons size_append encodeFrame_nonempty)

section Sizes

theorem nil_of_size {frames : List Bytes} (full : ∀ frame ∈ frames, 0 < frame.length)
    (empty : size frames = 0) : frames = [] := by
  cases frames with
  | nil => rfl
  | cons frame frames =>
    have filled := full frame List.mem_cons_self
    rw [size_cons] at empty
    omega

theorem prefix_of_size {before handed waiting : List Bytes}
    (full : ∀ frame ∈ handed ++ waiting, 0 < frame.length) (within : before <+: handed ++ waiting)
    (ahead : size before ≤ size handed) : before <+: handed := by
  rcases List.prefix_or_prefix_of_prefix within (List.prefix_append handed waiting) with short | long
  · exact short
  · obtain ⟨more, rfl⟩ := long
    rw [size_append] at ahead
    have extra : ∀ frame ∈ more, 0 < frame.length := fun frame member =>
      full frame (within.subset (List.mem_append_right handed member))
    rw [nil_of_size extra (by omega), List.append_nil]

end Sizes

section Waiters

/-- Everything sent before the drain had left the socket when it was over. -/
def Drained.Met (drained : Drained) : Prop :=
  drained.before <+: drained.handed ∧ size drained.before ≤ drained.gone

namespace Channel

/-- The counts of an open channel, with the frames it has yet to hand to the socket. -/
structure Tracked (channel : Channel) (waiting : List Bytes) : Prop where
  running : channel.opened = true
  total : channel.sentTotal = size (channel.socket.handed ++ waiting)
  gone : channel.socket.gone ≤ size channel.socket.handed
  full : ∀ frame ∈ channel.socket.handed ++ waiting, 0 < frame.length
  marks : ∀ waiter ∈ channel.drainWaiters, waiter.mark = size waiter.before ∧
    waiter.before <+: channel.socket.handed ++ waiting
  met : ∀ drained ∈ channel.drained, drained.Met

/-- What looking at the waiters leaves as it was. -/
structure Looked (channel next : Channel) : Prop where
  opened : next.opened = channel.opened
  pending : next.pending = channel.pending
  pendingBytes : next.pendingBytes = channel.pendingBytes
  sentTotal : next.sentTotal = channel.sentTotal
  sent : next.sent = channel.sent
  flushed : next.flushed = channel.flushed
  waiters : next.drainWaiters ⊆ channel.drainWaiters

variable {channel next : Channel} {waiting : List Bytes}

theorem Looked.refl (channel : Channel) : Looked channel channel :=
  ⟨rfl, rfl, rfl, rfl, rfl, rfl, List.Subset.refl _⟩

theorem Looked.trans {last : Channel} (first : Looked channel next) (second : Looked next last) :
    Looked channel last where
  opened := second.opened.trans first.opened
  pending := second.pending.trans first.pending
  pendingBytes := second.pendingBytes.trans first.pendingBytes
  sentTotal := second.sentTotal.trans first.sentTotal
  sent := second.sent.trans first.sent
  flushed := second.flushed.trans first.flushed
  waiters := List.Subset.trans second.waiters first.waiters

theorem scheduleDrainCheck_eq (channel : Channel) :
    ∃ timer, channel.scheduleDrainCheck = { channel with drainTimer := timer } := by
  unfold scheduleDrainCheck
  split
  · exact ⟨channel.drainTimer, rfl⟩
  · exact ⟨true, rfl⟩

theorem checkDrain_eq (channel : Channel) : ∃ timer, channel.checkDrain =
    { channel with
      drainTimer := timer
      drainWaiters := channel.drainWaiters.filter fun waiter => !channel.ready waiter
      drained := channel.drained ++
        (channel.drainWaiters.filter channel.ready).map fun waiter => channel.drainedNow waiter.before } := by
  unfold checkDrain
  by_cases idle : channel.drainWaiters.isEmpty = true
  · rw [if_pos idle]
    refine ⟨channel.drainTimer, ?_⟩
    have nobody := List.isEmpty_iff.mp idle
    obtain ⟨opened, pending, bytes, total, waiters, timer, socket, sent, drained, flushed⟩ := channel
    cases nobody
    simp
  · rw [if_neg idle]
    exact scheduleDrainCheck_eq _

theorem checkDrain_looked (channel : Channel) :
    Looked channel channel.checkDrain ∧ channel.checkDrain.socket = channel.socket := by
  obtain ⟨timer, same⟩ := channel.checkDrain_eq
  rw [same]
  exact ⟨⟨rfl, rfl, rfl, rfl, rfl, rfl, List.filter_subset_self _⟩, rfl⟩

theorem Tracked.drainedNow (tracked : Tracked channel waiting) {waiter : DrainWaiter}
    (member : waiter ∈ channel.drainWaiters)
    (few : (channel.socket.unsent + size waiting : Int) ≤ channel.sentTotal - waiter.mark) :
    (channel.drainedNow waiter.before).Met := by
  obtain ⟨mark, within⟩ := tracked.marks waiter member
  have total := tracked.total
  have gone := tracked.gone
  rw [size_append] at total
  unfold Socket.unsent at few
  have ahead : size waiter.before ≤ channel.socket.gone := by omega
  exact ⟨prefix_of_size tracked.full within (ahead.trans gone), ahead⟩

theorem Tracked.checkDrain (tracked : Tracked channel waiting)
    (safe : ∀ waiter ∈ channel.drainWaiters, channel.ready waiter = true →
      (channel.socket.unsent + size waiting : Int) ≤ channel.sentTotal - waiter.mark) :
    Tracked channel.checkDrain waiting := by
  obtain ⟨timer, same⟩ := channel.checkDrain_eq
  rw [same]
  refine ⟨tracked.running, tracked.total, tracked.gone, tracked.full, fun waiter member => ?_,
    fun drained member => ?_⟩
  · exact tracked.marks waiter (List.mem_of_mem_filter member)
  · rcases List.mem_append.mp member with old | new
    · exact tracked.met drained old
    · obtain ⟨waiter, among, rfl⟩ := List.mem_map.mp new
      obtain ⟨waits, ready⟩ := List.mem_filter.mp among
      exact tracked.drainedNow waits (safe waiter waits ready)

theorem Tracked.pass (tracked : Tracked channel waiting) (moment : Moment) :
    Tracked { channel with socket := channel.socket.pass moment } waiting :=
  ⟨tracked.running, tracked.total, Nat.min_le_left _ _, tracked.full, tracked.marks, tracked.met⟩

theorem Tracked.counted (tracked : Tracked channel waiting) (bytes : channel.pendingBytes = size waiting)
    {waiter : DrainWaiter} (ready : channel.ready waiter = true) :
    (channel.socket.unsent + size waiting : Int) ≤ channel.sentTotal - waiter.mark := by
  have few := of_decide_eq_true ready
  unfold bufferedBytes Socket.bufferedAmount at few
  rw [if_pos tracked.running, bytes] at few
  push_cast at few
  omega

theorem Tracked.onSent (tracked : Tracked channel waiting) (bytes : channel.pendingBytes = size waiting)
    (moment : Moment) : Tracked (channel.onSent moment) waiting :=
  (tracked.pass moment).checkDrain fun _ _ ready => (tracked.pass moment).counted bytes ready

theorem onSent_looked (channel : Channel) (moment : Moment) :
    Looked channel (channel.onSent moment) ∧
      (channel.onSent moment).socket = channel.socket.pass moment := by
  unfold onSent
  obtain ⟨looked, socket⟩ := checkDrain_looked { channel with socket := channel.socket.pass moment }
  exact ⟨⟨looked.opened, looked.pending, looked.pendingBytes, looked.sentTotal, looked.sent,
    looked.flushed, looked.waiters⟩, socket⟩

theorem callbacks_looked (callbacks : List Moment) (channel : Channel) :
    Looked channel (callbacks.foldl Channel.onSent channel) ∧
      (callbacks.foldl Channel.onSent channel).socket = callbacks.foldl Socket.pass channel.socket := by
  induction callbacks generalizing channel with
  | nil => exact ⟨Looked.refl channel, rfl⟩
  | cons moment callbacks ih =>
    obtain ⟨looked, socket⟩ := channel.onSent_looked moment
    obtain ⟨later, last⟩ := ih (channel.onSent moment)
    exact ⟨looked.trans later, by rw [List.foldl_cons, last, socket, List.foldl_cons]⟩

theorem handed_callbacks (callbacks : List Moment) (socket : Socket) :
    (callbacks.foldl Socket.pass socket).handed = socket.handed ∧
      (callbacks.foldl Socket.pass socket).readyState = socket.readyState := by
  induction callbacks generalizing socket with
  | nil => exact ⟨rfl, rfl⟩
  | cons moment callbacks ih => exact ih (socket.pass moment)

end Channel

end Waiters

section Flush

/-- Each callback of a write finds every waiter either behind what the socket still buffers, or with
no more left than was sent after it, bytes yet to be written included. -/
def Covered (waiters : List DrainWaiter) (sentTotal unwritten : Nat) (socket : Socket) :
    List Moment → Prop
  | [] => True
  | moment :: callbacks =>
    (∀ waiter ∈ waiters, (sentTotal - waiter.mark : Int) < (socket.pass moment).bufferedAmount ∨
      ((socket.pass moment).unsent + unwritten : Int) ≤ sentTotal - waiter.mark) ∧
      Covered waiters sentTotal unwritten (socket.pass moment) callbacks

/-- So it is for each write of a flush, until one throws. -/
def FlushCovered (waiters : List DrainWaiter) (sentTotal : Nat) (socket : Socket) :
    List Bytes → List Write → Prop
  | [], _ => True
  | frame :: rest, answers =>
    (answers.headD .quiet).thrown = true ∨
      Covered waiters sentTotal (size rest) (socket.accept frame) (answers.headD .quiet).callbacks ∧
        FlushCovered waiters sentTotal
          ((answers.headD .quiet).callbacks.foldl Socket.pass (socket.accept frame)) rest answers.tail

theorem covered_last (waiters : List DrainWaiter) (sentTotal : Nat) (socket : Socket)
    (callbacks : List Moment) : Covered waiters sentTotal 0 socket callbacks := by
  induction callbacks generalizing socket with
  | nil => exact trivial
  | cons moment callbacks ih =>
    refine ⟨fun waiter _ => ?_, ih (socket.pass moment)⟩
    unfold Socket.bufferedAmount
    omega

theorem Covered.fewer {waiters fewer : List DrainWaiter} {sentTotal unwritten : Nat} {socket : Socket}
    {callbacks : List Moment} (within : fewer ⊆ waiters)
    (covered : Covered waiters sentTotal unwritten socket callbacks) :
    Covered fewer sentTotal unwritten socket callbacks := by
  induction callbacks generalizing socket with
  | nil => exact trivial
  | cons moment callbacks ih => exact ⟨fun waiter member => covered.1 waiter (within member), ih covered.2⟩

theorem FlushCovered.fewer {waiters fewer : List DrainWaiter} {sentTotal : Nat} {socket : Socket}
    {frames : List Bytes} {answers : List Write} (within : fewer ⊆ waiters)
    (covered : FlushCovered waiters sentTotal socket frames answers) :
    FlushCovered fewer sentTotal socket frames answers := by
  induction frames generalizing socket answers with
  | nil => exact trivial
  | cons frame rest ih => exact covered.imp_right fun both => ⟨both.1.fewer within, ih both.2⟩

namespace Channel

variable {channel : Channel} {waiting : List Bytes}

theorem Tracked.callbacks (tracked : Tracked channel waiting) (bytes : channel.pendingBytes = 0)
    {callbacks : List Moment}
    (covered : Covered channel.drainWaiters channel.sentTotal (size waiting) channel.socket callbacks) :
    Tracked (callbacks.foldl Channel.onSent channel) waiting := by
  induction callbacks generalizing channel with
  | nil => exact tracked
  | cons moment callbacks ih =>
    obtain ⟨looked, socket⟩ := channel.onSent_looked moment
    refine ih ?_ (looked.pendingBytes.trans bytes) ?_
    · refine (tracked.pass moment).checkDrain fun waiter member ready => ?_
      have few := of_decide_eq_true ready
      unfold bufferedBytes at few
      rw [if_pos tracked.running, bytes, Nat.zero_add] at few
      rcases covered.1 waiter member with behind | done
      · exact absurd few (not_le.mpr behind)
      · exact done
    · rw [socket, looked.sentTotal]
      exact covered.2.fewer looked.waiters

theorem Tracked.taken {frame : Bytes} (tracked : Tracked channel (frame :: waiting))
    (bytes : channel.pendingBytes = 0) {callbacks : List Moment}
    (covered : Covered channel.drainWaiters channel.sentTotal (size waiting) (channel.socket.accept frame)
      callbacks) :
    Tracked (callbacks.foldl Channel.onSent { channel with socket := channel.socket.accept frame }) waiting := by
  have same : channel.socket.handed ++ frame :: waiting = (channel.socket.accept frame).handed ++ waiting :=
    (List.append_cons _ frame waiting)
  have moved : Tracked { channel with socket := channel.socket.accept frame } waiting := by
    refine ⟨tracked.running, ?_, ?_, ?_, ?_, tracked.met⟩
    · exact same ▸ tracked.total
    · refine tracked.gone.trans ?_
      unfold Socket.accept
      rw [size_append]
      exact Nat.le_add_right _ _
    · exact same ▸ tracked.full
    · exact same ▸ tracked.marks
  exact moved.callbacks bytes covered

end Channel

end Flush

section Steps

namespace Channel

/-- While a channel is open its frames are with the socket or pending, in the order sent. -/
structure Running (channel : Channel) : Prop where
  tracked : Tracked channel channel.pending
  bytes : channel.pendingBytes = size channel.pending
  order : channel.socket.handed ++ channel.pending = channel.sent
  flushed : channel.flushed = true → channel.pending = [] ∧ channel.socket.readyState ≠ .connecting

structure Ended (channel : Channel) : Prop where
  ended : channel.opened = false
  nobody : channel.drainWaiters = []
  order : channel.socket.handed <+: channel.sent
  met : ∀ drained ∈ channel.drained, drained.Met

def Orderly (channel : Channel) : Prop := channel.Running ∨ channel.Ended

variable {channel : Channel} {waiting : List Bytes} {json : Json} {limits : FramedStreamLimits}

theorem Tracked.shutdown (tracked : Tracked channel waiting)
    (order : channel.socket.handed <+: channel.sent) : Ended channel.shutdown := by
  unfold Channel.shutdown
  rw [if_pos tracked.running]
  exact ⟨rfl, rfl, order, tracked.met⟩

theorem Running.kept (running : Running channel) : channel.socket.handed <+: channel.sent :=
  ⟨channel.pending, running.order⟩

/-- A flush hands over the frames in order, or ends the channel on the way. -/
theorem Tracked.flush {frames : List Bytes} {answers : List Write} (tracked : Tracked channel frames)
    (idle : channel.pending = []) (bytes : channel.pendingBytes = 0)
    (order : channel.socket.handed ++ frames = channel.sent)
    (connected : channel.socket.readyState ≠ .connecting)
    (covered : FlushCovered channel.drainWaiters channel.sentTotal channel.socket frames answers) :
    Orderly (channel.flush frames answers) := by
  induction frames generalizing channel answers with
  | nil =>
    rw [List.append_nil] at order
    unfold Channel.flush
    refine .inl ⟨idle ▸ tracked, ?_, ?_, fun _ => ⟨idle, connected⟩⟩
    · rw [bytes, idle, size_nil]
    · rw [idle, List.append_nil, order]
  | cons frame rest ih =>
    unfold Channel.flush Channel.write
    rcases covered with thrown | ⟨here, later⟩
    · rw [if_pos thrown]
      exact .inr (tracked.shutdown ⟨frame :: rest, order⟩)
    · by_cases thrown : (answers.headD .quiet).thrown = true
      · rw [if_pos thrown]
        exact .inr (tracked.shutdown ⟨frame :: rest, order⟩)
      · rw [if_neg thrown]
        obtain ⟨looked, socket⟩ := callbacks_looked (answers.headD .quiet).callbacks
          { channel with socket := channel.socket.accept frame }
        obtain ⟨handed, state⟩ := handed_callbacks (answers.headD .quiet).callbacks
          (channel.socket.accept frame)
        refine ih (tracked.taken bytes here) (looked.pending.trans idle) (looked.pendingBytes.trans bytes)
          ?_ ?_ ?_
        · rw [socket, handed, looked.sent, ← order]
          exact (List.append_cons _ frame rest).symm
        · rw [socket, state]
          exact connected
        · rw [socket, looked.sentTotal]
          exact later.fewer looked.waiters

/-- No send goes to the socket while frames are pending, and the callbacks of a flush find nobody
whose frames are yet to be written. -/
def Meets (json : Json) (limits : FramedStreamLimits) (channel : Channel) : Event → Prop
  | .send message answer => channel.opened = true → channel.socket.readyState ≠ .connecting →
      answer.thrown = false → (∃ frame, encodeFrame json limits message = .ok frame ∧
        channel.bufferedBytes + frame.length ≤ limits.outboundHardBytes) → channel.pending = []
  | .onOpen answers => channel.opened = true → channel.socket.readyState ≠ .connecting →
      FlushCovered channel.drainWaiters channel.sentTotal channel.socket channel.pending answers
  | _ => True

theorem Tracked.count (tracked : Tracked channel waiting) {frame : Bytes} (full : 0 < frame.length) :
    Tracked { channel with sentTotal := channel.sentTotal + frame.length } (waiting ++ [frame]) := by
  refine ⟨tracked.running, ?_, tracked.gone, fun other member => ?_, fun waiter member => ?_, tracked.met⟩
  · rw [← List.append_assoc, size_append, ← tracked.total, size_cons, size_nil, Nat.add_zero]
  · rw [← List.append_assoc] at member
    rcases List.mem_append.mp member with old | new
    · exact tracked.full other old
    · rw [List.mem_singleton.mp new]
      exact full
  · obtain ⟨mark, within⟩ := tracked.marks waiter member
    rw [← List.append_assoc]
    exact ⟨mark, within.trans (List.prefix_append _ _)⟩

theorem Running.send (running : Running channel) {message : Value} {answer : Write}
    (meets : Meets json limits channel (.send message answer)) :
    Orderly (channel.send json limits message answer) := by
  unfold Channel.send
  rw [if_pos running.tracked.running]
  cases encoded : encodeFrame json limits message with
  | error error => exact .inl running
  | ok frame =>
    dsimp only
    have counted := running.tracked.count (encodeFrame_nonempty encoded)
    by_cases hard : channel.bufferedBytes + frame.length > limits.outboundHardBytes
    · rw [if_pos hard]
      exact .inr (running.tracked.shutdown running.kept)
    rw [if_neg hard]
    by_cases connecting : channel.socket.readyState = .connecting
    · rw [if_pos connecting]
      refine .inl ⟨⟨counted.running, counted.total, counted.gone, counted.full, counted.marks, counted.met⟩,
        ?_, ?_, fun flushed => absurd connecting (running.flushed flushed).2⟩
      · rw [size_append, size_cons, size_nil, Nat.add_zero, running.bytes]
      · rw [← List.append_assoc, running.order]
    rw [if_neg connecting]
    unfold Channel.write
    by_cases thrown : answer.thrown = true
    · rw [if_pos thrown]
      exact .inr (counted.shutdown running.kept)
    rw [if_neg thrown]
    have idle := meets running.tracked.running connecting (Bool.not_eq_true _ |>.mp thrown)
      ⟨frame, encoded, not_lt.mp hard⟩
    have bytes : channel.pendingBytes = 0 := by rw [running.bytes, idle, size_nil]
    have only : channel.pending ++ [frame] = [frame] := by rw [idle, List.nil_append]
    rw [only] at counted
    have taken := counted.taken bytes (covered_last _ _ _ answer.callbacks)
    obtain ⟨looked, socket⟩ := callbacks_looked answer.callbacks
      { channel with
        sentTotal := channel.sentTotal + frame.length
        socket := channel.socket.accept frame }
    obtain ⟨handed, state⟩ := handed_callbacks answer.callbacks (channel.socket.accept frame)
    have order := running.order
    rw [idle, List.append_nil] at order
    have idled := looked.pending.trans idle
    have rest := taken
    rw [← idled] at rest
    dsimp only
    rw [if_pos rfl]
    refine .inl ⟨?_, ?_, ?_, fun _ => ⟨idled, ?_⟩⟩
    · exact ⟨rest.running, rest.total, rest.gone, rest.full, rest.marks, rest.met⟩
    · dsimp only
      rw [looked.pendingBytes, idled, size_nil]
      exact bytes
    · dsimp only
      rw [idled, List.append_nil, socket, handed, ← order]
      rfl
    · dsimp only
      rw [socket, state]
      exact connecting

theorem Running.drain (running : Running channel) : Orderly channel.drain := by
  have tracked := running.tracked
  unfold Channel.drain
  rw [if_pos tracked.running]
  by_cases empty : channel.bufferedBytes = 0
  · rw [if_pos empty]
    have nothing := empty
    unfold bufferedBytes Socket.bufferedAmount Socket.unsent at nothing
    rw [if_pos tracked.running, running.bytes] at nothing
    have total := size_append channel.socket.handed channel.pending
    have all : (channel.drainedNow channel.sent).Met := by
      have idle : channel.pending = [] := by
        refine nil_of_size (fun frame member => ?_) (by omega)
        exact tracked.full frame (List.mem_append_right _ member)
      have order := running.order
      rw [idle, List.append_nil] at order
      refine ⟨order ▸ List.prefix_refl _, ?_⟩
      change size channel.sent ≤ channel.socket.gone
      rw [← order]
      omega
    refine .inl ⟨⟨tracked.running, tracked.total, tracked.gone, tracked.full, tracked.marks, ?_⟩,
      running.bytes, running.order, running.flushed⟩
    intro drained member
    rcases List.mem_append.mp member with old | new
    · exact tracked.met drained old
    · rw [List.mem_singleton.mp new]
      exact all
  · rw [if_neg empty]
    obtain ⟨timer, same⟩ := scheduleDrainCheck_eq
      { channel with drainWaiters := channel.drainWaiters ++ [⟨channel.sentTotal, channel.sent⟩] }
    rw [same]
    refine .inl ⟨⟨tracked.running, tracked.total, tracked.gone, tracked.full, ?_, tracked.met⟩,
      running.bytes, running.order, running.flushed⟩
    intro waiter member
    rcases List.mem_append.mp member with old | new
    · exact tracked.marks waiter old
    · rw [List.mem_singleton.mp new]
      exact ⟨running.order ▸ tracked.total, running.order ▸ List.prefix_refl _⟩

theorem Running.pass (running : Running channel) (moment : Moment) :
    Running { channel with socket := channel.socket.pass moment } :=
  ⟨running.tracked.pass moment, running.bytes, running.order, running.flushed⟩

theorem Running.checkDrain (running : Running channel) : Running channel.checkDrain := by
  obtain ⟨looked, socket⟩ := channel.checkDrain_looked
  refine ⟨?_, ?_, ?_, ?_⟩
  · rw [looked.pending]
    exact running.tracked.checkDrain fun _ _ ready => running.tracked.counted running.bytes ready
  · rw [looked.pendingBytes, looked.pending, running.bytes]
  · rw [socket, looked.pending, looked.sent, running.order]
  · rw [looked.flushed, looked.pending, socket]
    exact running.flushed

theorem Running.step (running : Running channel) {event : Event} (meets : Meets json limits channel event) :
    Orderly (channel.step json limits event) := by
  have tracked := running.tracked
  cases event with
  | send message answer => exact running.send meets
  | drain => exact running.drain
  | opens =>
    dsimp only [Channel.step]
    split
    · rename_i connecting
      refine .inl ⟨⟨tracked.running, tracked.total, tracked.gone, tracked.full, tracked.marks, tracked.met⟩,
        running.bytes, running.order, fun flushed => ?_⟩
      exact absurd connecting (running.flushed flushed).2
    · exact .inl running
  | onOpen answers =>
    dsimp only [Channel.step]
    split
    · exact .inl running
    · rename_i connected
      unfold Channel.onOpen
      rw [if_pos tracked.running]
      have moved : Tracked { channel with pending := [], pendingBytes := 0, flushed := true }
          channel.pending :=
        ⟨tracked.running, tracked.total, tracked.gone, tracked.full, tracked.marks, tracked.met⟩
      exact moved.flush rfl rfl running.order connected (meets tracked.running connected)
  | passes moment => exact .inl (running.pass moment)
  | onSent moment => exact .inl (running.pass moment).checkDrain
  | timer =>
    dsimp only [Channel.step]
    split
    · have stopped : Running { channel with drainTimer := false } :=
        ⟨⟨tracked.running, tracked.total, tracked.gone, tracked.full, tracked.marks, tracked.met⟩,
          running.bytes, running.order, running.flushed⟩
      exact .inl stopped.checkDrain
    · exact .inl running
  | shutdown => exact .inr (tracked.shutdown running.kept)
  | closes readyState =>
    dsimp only [Channel.step]
    split
    · exact .inl running
    · rename_i neither
      refine .inl ⟨⟨tracked.running, tracked.total, tracked.gone, tracked.full, tracked.marks, tracked.met⟩,
        running.bytes, running.order, fun flushed => ⟨(running.flushed flushed).1, ?_⟩⟩
      exact fun connecting => neither (.inl connecting)

theorem Ended.checkDrain (ended : Ended channel) : channel.checkDrain = channel := by
  unfold Channel.checkDrain
  rw [ended.nobody]
  rfl

theorem Ended.step (ended : Ended channel) (event : Event) : Ended (channel.step json limits event) := by
  have closed : ¬channel.opened = true := by rw [ended.ended]; exact Bool.false_ne_true
  have passed (moment : Moment) : Ended { channel with socket := channel.socket.pass moment } :=
    ⟨ended.ended, ended.nobody, ended.order, ended.met⟩
  cases event with
  | send message answer =>
    dsimp only [Channel.step]
    unfold Channel.send
    rw [if_neg closed]
    exact ended
  | drain =>
    dsimp only [Channel.step]
    unfold Channel.drain
    rw [if_neg closed]
    exact ended
  | opens =>
    dsimp only [Channel.step]
    split
    · exact ⟨ended.ended, ended.nobody, ended.order, ended.met⟩
    · exact ended
  | onOpen answers =>
    dsimp only [Channel.step]
    unfold Channel.onOpen
    rw [if_neg closed, ite_self]
    exact ended
  | passes moment => exact passed moment
  | onSent moment =>
    dsimp only [Channel.step]
    unfold Channel.onSent
    rw [(passed moment).checkDrain]
    exact passed moment
  | timer =>
    dsimp only [Channel.step]
    split
    · have stopped : Ended { channel with drainTimer := false } :=
        ⟨ended.ended, ended.nobody, ended.order, ended.met⟩
      rw [stopped.checkDrain]
      exact stopped
    · exact ended
  | shutdown =>
    dsimp only [Channel.step]
    unfold Channel.shutdown
    rw [if_neg closed]
    exact ended
  | closes readyState =>
    dsimp only [Channel.step]
    split
    · exact ended
    · exact ⟨ended.ended, ended.nobody, ended.order, ended.met⟩

theorem Orderly.step (orderly : Orderly channel) {event : Event} (meets : Meets json limits channel event) :
    Orderly (channel.step json limits event) := by
  rcases orderly with running | ended
  · exact running.step meets
  · exact .inr (ended.step event)

theorem create_orderly (readyState : ReadyState) (overhead : Nat) : Orderly (create readyState overhead) := by
  refine .inl ⟨⟨rfl, rfl, le_rfl, ?_, ?_, ?_⟩, rfl, rfl, fun flushed => (by cases flushed)⟩
  · exact fun _ member => (by cases member)
  · exact fun _ member => (by cases member)
  · exact fun _ member => (by cases member)

/-- Every step of a run meets the condition. -/
def AllMeet (json : Json) (limits : FramedStreamLimits) (channel : Channel) : List Event → Prop
  | [] => True
  | event :: events => Meets json limits channel event ∧ AllMeet json limits (channel.step json limits event) events

theorem Orderly.run (orderly : Orderly channel) {events : List Event}
    (meet : AllMeet json limits channel events) : Orderly (channel.run json limits events) := by
  induction events generalizing channel with
  | nil => exact orderly
  | cons event events ih => exact ih (orderly.step meet.1) meet.2

/-- Frames reach the socket in the order sent and none is skipped; what a channel that is open still
owes is pending, nothing once the open callback has run; and no drain is over early. -/
structure Promised (channel : Channel) : Prop where
  order : channel.socket.handed <+: channel.sent
  owed : channel.opened = true → channel.socket.handed ++ channel.pending = channel.sent
  flushed : channel.opened = true → channel.flushed = true → channel.socket.handed = channel.sent
  drained : ∀ drained ∈ channel.drained,
    drained.before <+: drained.handed ∧ size drained.before ≤ drained.gone

theorem promised_of_allMeet (readyState : ReadyState) (overhead : Nat) (events : List Event)
    (meet : AllMeet json limits (create readyState overhead) events) :
    Promised ((create readyState overhead).run json limits events) := by
  rcases (create_orderly readyState overhead).run meet with running | ended
  · refine ⟨running.kept, fun _ => running.order, fun _ flushed => ?_, running.tracked.met⟩
    have order := running.order
    rwa [(running.flushed flushed).1, List.append_nil] at order
  · refine ⟨ended.order, fun opened => ?_, fun opened => ?_, ended.met⟩
    · exact absurd (opened.symm.trans ended.ended) (by decide)
    · exact absurd (opened.symm.trans ended.ended) (by decide)

/-- Frames of 26 bytes that differ in the last. -/
def sampleMessage (byte : UInt8) : Value := .bytes [byte]

/-- Two frames sent ahead of the opening, flushed by its callback and waited for. -/
def sampleEvents : List Event :=
  [.send (sampleMessage 1) .quiet, .send (sampleMessage 2) .quiet, .drain, .opens,
    .onOpen [.quiet, ⟨false, [⟨26, 2⟩]⟩], .onSent ⟨26, 0⟩]

theorem promised_flushed :
    Promised ((create .connecting 0).run (sampleJson "0" .null) sampleLimits sampleEvents) := by
  refine promised_of_allMeet .connecting 0 sampleEvents ⟨?_, ?_, trivial, trivial, ?_, trivial, trivial⟩
  · exact fun _ connected => absurd rfl connected
  · exact fun _ connected => absurd rfl connected
  · exact fun _ _ => .inr ⟨trivial, .inr ⟨covered_last _ _ _ _, trivial⟩⟩

/-- A send after the opening and ahead of its callback overtakes a pending frame. -/
def overtaken : Channel :=
  (create .connecting 0).run (sampleJson "0" .null) sampleLimits
    [.send (sampleMessage 1) .quiet, .opens, .send (sampleMessage 2) .quiet, .onOpen []]

/-- Two frames are waited for, a third follows; the callback of the first write of the flush finds
no more buffered than the third is long. -/
def earlyDrained : Channel :=
  (create .connecting 0).run (sampleJson "0" .null) sampleLimits
    [.send (sampleMessage 1) .quiet, .send (sampleMessage 2) .quiet, .drain, .send (sampleMessage 3) .quiet,
      .opens, .onOpen [⟨false, [⟨0, 0⟩]⟩]]

theorem promises_broken : ¬Promised overtaken ∧ ¬Promised earlyDrained := by
  constructor
  · intro promised
    have order := promised.order
    revert order
    decide
  · intro promised
    have drained := promised.drained
    revert drained
    decide

end Channel

end Steps

end Mille.WebSocket
