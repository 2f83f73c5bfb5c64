import Mille.Stream.Chunking
import Mille.Stream.OutboundRuns

/-! Two channels and the bytes between them: what a sender accepts is what its peer's
listeners hear, however the stream cuts the bytes. -/

namespace Mille.Stream

variable {json : Json} {limits : FramedStreamLimits}

/-- Messages with the frames they were encoded to, each of which its receiver reads back. -/
def Readable (json : Json) (limits : FramedStreamLimits) (sent : List (Value × Bytes)) : Prop :=
  ∀ pair ∈ sent, encodeFrame json limits pair.1 = .ok pair.2 ∧ RoundTrips json limits pair.1 pair.2

theorem scan_frame {message : Value} {frame : Bytes} (encoded : encodeFrame json limits message = .ok frame)
    (read : RoundTrips json limits message frame) (more : Bytes) :
    (scan json limits (frame ++ more)).messages =
        message.restored :: (scan json limits more).messages ∧
      (scan json limits (frame ++ more)).fault = (scan json limits more).fault := by
  obtain ⟨metadata, attachments, text, _, _, _, _, shape⟩ := encodeFrame_ok encoded
  obtain ⟨header, parsed, total, decoded⟩ := read
  have long : headerBytes ≤ frame.length := by
    rw [shape, List.length_append, frontBytes_length]
    omega
  have front : parseHeader limits ((frame ++ more).take headerBytes) = .ok header := by
    rw [shape] at parsed ⊢
    rw [parseHeader_frontBytes] at parsed
    rw [List.append_assoc, List.take_left' (frontBytes_length ..), ← List.append_nil (frontBytes ..),
      parseHeader_frontBytes]
    exact parsed
  have inside : ¬(frame ++ more).length < frame.length := by
    rw [List.length_append]
    omega
  rw [scan_long (by
    rw [List.length_append]
    omega)]
  simp only [front, total, if_neg inside, List.take_left, List.drop_left, decoded]
  exact ⟨rfl, trivial⟩

theorem scan_frames {sent : List (Value × Bytes)} (readable : Readable json limits sent) :
    (scan json limits (sent.map Prod.snd).flatten).messages = sent.map (·.1.restored) ∧
      (scan json limits (sent.map Prod.snd).flatten).fault = none := by
  induction sent with
  | nil => exact ⟨rfl, rfl⟩
  | cons pair rest ih =>
    obtain ⟨first, later⟩ := List.forall_mem_cons.mp readable
    obtain ⟨messages, fault⟩ := scan_frame first.1 first.2 (rest.map Prod.snd).flatten
    rw [List.map_cons, List.flatten_cons, messages, fault, (ih later).1, (ih later).2]
    exact ⟨rfl, rfl⟩

theorem feed_frames {sent : List (Value × Bytes)} (readable : Readable json limits sent)
    {closes : List Value → Bool} (never : ∀ told, closes told = false) {chunks : List Bytes}
    (arrived : chunks.flatten <+: (sent.map Prod.snd).flatten) :
    (FramedChannel.feed json limits closes chunks).closed = none ∧
      (FramedChannel.feed json limits closes chunks).delivered <+: sent.map (·.1.restored) ∧
      (chunks.flatten = (sent.map Prod.snd).flatten →
        (FramedChannel.feed json limits closes chunks).delivered = sent.map (·.1.restored)) := by
  obtain ⟨messages, fine⟩ := scan_frames readable
  obtain ⟨missing, whole⟩ := arrived
  have sound : (scan json limits chunks.flatten).fault = none := by
    by_contra broken
    obtain ⟨error, malformed⟩ := Option.ne_none_iff_exists'.mp broken
    have stays := (scan_fault_append malformed missing).1
    rw [whole, fine] at stays
    cases stays
  cases @feed_standing json limits closes chunks with
  | listening _ _ opened told _ =>
    refine ⟨opened, ?_, fun all => ?_⟩
    · rw [told, ← messages, ← whole, scan_messages_append sound]
      exact List.prefix_append _ _
    · rw [told, all, messages]
  | left _ _ _ _ leaving => simp [hears_never never] at leaving
  | broken before chunk after error split _ _ malformed =>
    have shown := @fault_cons json limits before after chunk (by simp [malformed])
    rw [← split] at shown
    exact absurd sound shown

namespace Outbound

theorem pump_accepted (channel : Channel) : (channel.pump limits).accepted = channel.accepted := by
  unfold Channel.pump
  split
  · rfl
  · split <;> rfl

theorem shutdown_accepted (code : CloseCode) (reason : Option String) (cause : Option Cause)
    (channel : Channel) : (channel.shutdown code reason cause).accepted = channel.accepted := by
  unfold Channel.shutdown
  split <;> rfl

theorem announce_accepted (channel : Channel) (listeners : List ListenerId) :
    (channel.announce listeners).accepted = channel.accepted := by
  cases listeners <;> rfl

theorem emitAll_accepted (channel : Channel) (messages : List Value) :
    (channel.emitAll messages).accepted = channel.accepted := by
  induction messages generalizing channel with
  | nil => rfl
  | cons message rest ih =>
    unfold Channel.emitAll
    split
    · split
      · exact ih _
      · rfl
    · rfl

theorem resume_accepted (ok : Bool) (channel : Channel) (activity : Activity) :
    (channel.resume limits ok activity).accepted = channel.accepted := by
  cases activity with
  | warning => exact pump_accepted channel
  | writing => exact pump_accepted _
  | emitting left messages =>
    cases left with
    | nil => exact emitAll_accepted channel messages
    | cons _ _ => rfl
  | ending => exact announce_accepted _ _
  | announcing left => exact announce_accepted channel left

theorem popped_accepted {channel : Channel} {behind : Channel → Activity → Channel}
    (same : ∀ channel activity, (behind channel activity).accepted = channel.accepted) :
    (channel.popped behind).accepted = channel.accepted := by
  unfold Channel.popped
  split
  · rfl
  · exact same _ _

/-- Only a send accepts a frame, and it is the frame of its message. -/
theorem step_accepted (channel : Channel) (event : Event) :
    (channel.step json limits event).accepted = channel.accepted ∨
      ∃ message frame, event = .send message ∧ encodeFrame json limits message = .ok frame ∧
        (channel.step json limits event).accepted = channel.accepted ++ [frame] := by
  cases event with
  | send message =>
    simp only [Channel.step, Channel.send]
    split
    · split
      · exact .inl rfl
      · rename_i frame encoded
        split
        · exact .inl (shutdown_accepted ..)
        · refine .inr ⟨message, frame, rfl, encoded, ?_⟩
          split
          · rfl
          · exact pump_accepted _
    · exact .inl rfl
  | streamData chunk =>
    left
    simp only [Channel.step, Channel.onData]
    split
    · split
      · exact shutdown_accepted ..
      · exact emitAll_accepted _ _
    · rfl
  | returns ok => exact .inl (popped_accepted (resume_accepted ok))
  | throws message =>
    refine .inl (popped_accepted fun channel activity => ?_)
    cases activity with
    | warning => rfl
    | writing => exact shutdown_accepted ..
    | emitting left messages => exact @resume_accepted limits true channel (.emitting left messages)
    | ending => exact announce_accepted _ _
    | announcing left => exact announce_accepted channel left
  | streamDrain => exact .inl (pump_accepted _)
  | close reason => exact .inl (shutdown_accepted ..)
  | streamError message => exact .inl (shutdown_accepted ..)
  | streamEnd => exact .inl (shutdown_accepted ..)
  | streamClose => exact .inl (shutdown_accepted ..)
  | drain =>
    left
    simp only [Channel.step, Channel.drain]
    split <;> rfl
  | onMessage listener => exact .inl rfl
  | onClose listener =>
    left
    simp only [Channel.step, Channel.onClose]
    split <;> rfl
  | dispose disposable =>
    left
    simp only [Channel.step, Channel.dispose]
    split
    · split <;> rfl
    · rfl
  | microtask =>
    left
    simp only [Channel.step, Channel.runMicrotask]
    split <;> rfl

/-- The message an event sends. -/
def Event.sends : Event → Option Value
  | .send message => some message
  | _ => none

theorem run_accepted (events : List Event) : ∃ sent : List (Value × Bytes),
    (events.foldl (Channel.step json limits) .opened).accepted = sent.map Prod.snd ∧
      (sent.map Prod.fst).Sublist (events.filterMap Event.sends) ∧
      ∀ pair ∈ sent, encodeFrame json limits pair.1 = .ok pair.2 := by
  induction events using List.reverseRecOn with
  | nil => exact ⟨[], rfl, .refl _, fun _ member => absurd member List.not_mem_nil⟩
  | append_singleton events event ih =>
    obtain ⟨sent, accepted, order, encoded⟩ := ih
    rw [List.foldl_concat, List.filterMap_append]
    rcases step_accepted (events.foldl (Channel.step json limits) .opened) event with same | grown
    · exact ⟨sent, same.trans accepted, order.trans (List.sublist_append_left _ _), encoded⟩
    · obtain ⟨message, frame, rfl, made, grown⟩ := grown
      refine ⟨sent ++ [(message, frame)], ?_, ?_, ?_⟩
      · rw [grown, accepted, List.map_append]
        rfl
      · rw [List.map_append]
        exact order.append (.refl _)
      · intro pair member
        rcases List.mem_append.mp member with old | new
        · exact encoded pair old
        · cases List.mem_singleton.mp new
          exact made

/-- `null` sent twice. -/
def nullEvents : List Event := [.send .null, .returns true, .send .null]

end Outbound

end Mille.Stream
