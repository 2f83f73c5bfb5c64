import Mathlib
import Mille.Stream.FrameBytes
import Mille.Stream.Decoder

/-! Chunking and the decoded messages. However a byte string is split, the decoder finds the
frames a scan of the whole string finds; what the channel hands shut differs only where one
chunk both completes a frame and shows a malformed one. -/

namespace Mille.Stream

variable {json : Json} {limits : FramedStreamLimits}

theorem headerBytes_le_total {head : Bytes} {header : FrameHeader}
    (parsed : parseHeader limits head = .ok header) : headerBytes ≤ header.totalLength := by
  rw [parseHeader_total parsed]
  omega

section Scanning

/-- More fuel than bytes changes nothing: a frame is never empty. -/
theorem scanFrom_fuel {fuel : Nat} {bytes : Bytes} (enough : bytes.length ≤ fuel) :
    scanFrom json limits fuel bytes = scan json limits bytes := by
  suffices h : ∀ fuel other (bytes : Bytes), bytes.length ≤ fuel → bytes.length ≤ other →
      scanFrom json limits fuel bytes = scanFrom json limits other bytes from
    h fuel bytes.length bytes enough (Nat.le_refl _)
  intro fuel
  induction fuel with
  | zero =>
    intro other bytes none _
    have short : bytes.length < headerBytes := by
      rw [Nat.le_zero.mp none]
      decide
    cases other with
    | zero => rfl
    | succ other => rw [scanFrom, scanFrom, if_pos short]
  | succ fuel ih =>
    intro other bytes within within'
    cases other with
    | zero =>
      have short : bytes.length < headerBytes := by
        rw [Nat.le_zero.mp within']
        decide
      rw [scanFrom, scanFrom, if_pos short]
    | succ other =>
      rw [scanFrom, scanFrom]
      split
      · rfl
      · next long =>
        cases parsed : parseHeader limits (bytes.take headerBytes) with
        | error error => rfl
        | ok header =>
          have size := headerBytes_le_total parsed
          have positive : 0 < headerBytes := by decide
          have behind : scanFrom json limits fuel (bytes.drop header.totalLength) =
              scanFrom json limits other (bytes.drop header.totalLength) := by
            apply ih
            · rw [List.length_drop]
              omega
            · rw [List.length_drop]
              omega
          simp only [behind]

theorem scan_short {bytes : Bytes} (short : bytes.length < headerBytes) :
    scan json limits bytes = ⟨[], bytes, none⟩ := by
  unfold scan
  cases bytes.length with
  | zero => rfl
  | succ fuel => rw [scanFrom, if_pos short]

theorem scan_long {bytes : Bytes} (long : headerBytes ≤ bytes.length) :
    scan json limits bytes =
      match parseHeader limits (bytes.take headerBytes) with
      | .error error => ⟨[], bytes, some error⟩
      | .ok header =>
        if bytes.length < header.totalLength then ⟨[], bytes, none⟩
        else
          match decodeFrame json (.whole (bytes.take header.totalLength)) header with
          | .error error => ⟨[], bytes, some error⟩
          | .ok message =>
            ⟨(bytes.take header.totalLength, message) ::
              (scan json limits (bytes.drop header.totalLength)).frames,
              (scan json limits (bytes.drop header.totalLength)).rest,
              (scan json limits (bytes.drop header.totalLength)).fault⟩ := by
  have positive : 0 < headerBytes := by decide
  obtain ⟨fuel, counted⟩ : ∃ fuel, bytes.length = fuel + 1 := ⟨bytes.length - 1, by omega⟩
  have unfolded : scan json limits bytes = scanFrom json limits (fuel + 1) bytes := by
    rw [scan, counted]
  rw [unfolded, scanFrom, if_neg (by omega)]
  cases parsed : parseHeader limits (bytes.take headerBytes) with
  | error error => rfl
  | ok header =>
    have size := headerBytes_le_total parsed
    have behind : scanFrom json limits fuel (bytes.drop header.totalLength) =
        scan json limits (bytes.drop header.totalLength) := by
      apply scanFrom_fuel
      rw [List.length_drop]
      omega
    simp only [behind]
    all_goals rfl

/-- How a scan of some bytes goes on when more bytes follow. -/
def Scan.continued (json : Json) (limits : FramedStreamLimits) (before : Scan) (more : Bytes) : Scan :=
  match before.fault with
  | some _ => { before with rest := before.rest ++ more }
  | none =>
    let behind := scan json limits (before.rest ++ more)
    { behind with frames := before.frames ++ behind.frames }

theorem scan_append (bytes more : Bytes) :
    scan json limits (bytes ++ more) = (scan json limits bytes).continued json limits more := by
  induction size : bytes.length using Nat.strong_induction_on generalizing bytes with
  | _ size ih =>
    subst size
    by_cases short : bytes.length < headerBytes
    · rw [scan_short short]
      simp [Scan.continued]
    · have long : headerBytes ≤ bytes.length := by omega
      have longer : headerBytes ≤ (bytes ++ more).length := by
        rw [List.length_append]
        omega
      have same : (bytes ++ more).take headerBytes = bytes.take headerBytes :=
        List.take_append_of_le_length long
      cases parsed : parseHeader limits (bytes.take headerBytes) with
      | error error =>
        rw [scan_long long, scan_long longer, same]
        simp only [parsed, Scan.continued]
      | ok header =>
        have size := headerBytes_le_total parsed
        have positive : 0 < headerBytes := by decide
        by_cases incomplete : bytes.length < header.totalLength
        · rw [scan_long long]
          simp only [parsed, if_pos incomplete, Scan.continued, List.nil_append]
        · have frame_eq : (bytes ++ more).take header.totalLength = bytes.take header.totalLength :=
            List.take_append_of_le_length (by omega)
          have behind_eq : (bytes ++ more).drop header.totalLength =
              bytes.drop header.totalLength ++ more := List.drop_append_of_le_length (by omega)
          rw [scan_long long, scan_long longer, same]
          simp only [parsed, if_neg incomplete, frame_eq, behind_eq]
          rw [if_neg (by
            rw [List.length_append]
            omega)]
          cases decodeFrame json (.whole (bytes.take header.totalLength)) header with
          | error error => rfl
          | ok message =>
            have smaller : (bytes.drop header.totalLength).length < bytes.length := by
              rw [List.length_drop]
              omega
            simp only [ih _ smaller (bytes.drop header.totalLength) rfl]
            unfold Scan.continued
            cases (scan json limits (bytes.drop header.totalLength)).fault <;> simp

theorem scan_bytes (bytes : Bytes) :
    ((scan json limits bytes).frames.map fun frame => frame.1.length).sum +
      (scan json limits bytes).rest.length = bytes.length := by
  induction size : bytes.length using Nat.strong_induction_on generalizing bytes with
  | _ size ih =>
    subst size
    by_cases short : bytes.length < headerBytes
    · rw [scan_short short]
      simp
    · rw [scan_long (by omega)]
      cases parsed : parseHeader limits (bytes.take headerBytes) with
      | error error => simp
      | ok header =>
        have size := headerBytes_le_total parsed
        have positive : 0 < headerBytes := by decide
        by_cases incomplete : bytes.length < header.totalLength
        · simp [incomplete]
        · simp only [if_neg incomplete]
          cases decodeFrame json (.whole (bytes.take header.totalLength)) header with
          | error error => simp
          | ok message =>
            have behind := ih (bytes.drop header.totalLength).length (by
              rw [List.length_drop]
              omega) (bytes.drop header.totalLength) rfl
            simp only [List.map_cons, List.sum_cons, List.length_take]
            rw [List.length_drop] at behind
            omega

end Scanning

section Buffer

theorem fill_eq (count : Nat) (chunks : List Bytes) :
    FrameDecoder.fill count chunks = chunks.flatten.take count := by
  induction chunks generalizing count with
  | nil => simp [FrameDecoder.fill]
  | cons chunk rest ih =>
    rw [FrameDecoder.fill, List.flatten_cons]
    simp only [List.length_take]
    by_cases enough : count ≤ chunk.length
    · rw [if_pos (by omega), List.take_append_of_le_length enough, Nat.min_eq_left enough]
    · have whole : chunk.take count = chunk := List.take_of_length_le (by omega)
      rw [if_neg (by omega), ih, Nat.min_eq_right (by omega), List.take_length, Nat.min_self,
        List.take_append, whole]

theorem peek_eq {chunks : List Bytes} {count : Nat} (inside : count ≤ chunks.flatten.length) :
    FrameDecoder.peek chunks count = .ok (chunks.flatten.take count) := by
  cases chunks with
  | nil =>
    simp only [List.flatten_nil, List.length_nil] at inside
    rw [FrameDecoder.peek, if_neg (by omega)]
    simp
  | cons first rest =>
    rw [FrameDecoder.peek]
    split
    · next enough => rw [List.flatten_cons, List.take_append_of_le_length enough]
    · rw [fill_eq]
      simp only [List.length_take]
      rw [if_neg (by omega)]

theorem take_eq {chunks : List Bytes} {count : Nat} (inside : count ≤ chunks.flatten.length) :
    ∃ behind, FrameDecoder.take count chunks = .ok (chunks.flatten.take count, behind) ∧
      behind.flatten = chunks.flatten.drop count := by
  induction chunks generalizing count with
  | nil =>
    simp only [List.flatten_nil, List.length_nil, Nat.le_zero] at inside
    subst inside
    exact ⟨[], rfl, rfl⟩
  | cons chunk rest ih =>
    cases count with
    | zero => exact ⟨chunk :: rest, by simp [FrameDecoder.take], rfl⟩
    | succ count =>
      rw [List.flatten_cons] at inside ⊢
      rw [List.length_append] at inside
      by_cases partly : count + 1 < chunk.length
      · refine ⟨chunk.drop (count + 1) :: rest, ?_, ?_⟩
        · rw [FrameDecoder.take, if_pos partly, List.take_append_of_le_length (by omega)]
        · rw [List.flatten_cons, List.drop_append_of_le_length (by omega)]
      · obtain ⟨behind, taken, left⟩ := @ih (count + 1 - chunk.length) (by omega)
        have whole : chunk.take (count + 1) = chunk := List.take_of_length_le (by omega)
        have used : chunk.drop (count + 1) = [] := List.drop_of_length_le (by omega)
        refine ⟨behind, ?_, ?_⟩
        · rw [FrameDecoder.take, if_neg partly, taken, List.take_append, whole]
        · rw [left, List.drop_append, used, List.nil_append]

/-- The decoder holds these bytes and, if it waits for a frame, that frame's header. -/
structure Holds (limits : FramedStreamLimits) (decoder : FrameDecoder) (bytes : Bytes) : Prop where
  chunks : decoder.chunks.flatten = bytes
  buffered : decoder.buffered = bytes.length
  pending : ∀ header, decoder.pending = some header →
    headerBytes ≤ bytes.length ∧ parseHeader limits (bytes.take headerBytes) = .ok header

theorem holds_empty : Holds limits .empty [] :=
  ⟨rfl, rfl, by simp [FrameDecoder.empty]⟩

theorem Holds.awaited_short {decoder : FrameDecoder} {bytes : Bytes} (holds : Holds limits decoder bytes)
    (short : bytes.length < headerBytes) : decoder.awaited limits = .ok none := by
  unfold FrameDecoder.awaited
  cases waiting : decoder.pending with
  | none =>
    simp only
    rw [holds.buffered, if_pos short]
  | some header =>
    have long := (holds.pending header waiting).1
    omega

theorem Holds.awaited_long {decoder : FrameDecoder} {bytes : Bytes} (holds : Holds limits decoder bytes)
    (long : headerBytes ≤ bytes.length) :
    decoder.awaited limits =
      match parseHeader limits (bytes.take headerBytes) with
      | .error error => .error (.frame error)
      | .ok header => .ok (some header) := by
  unfold FrameDecoder.awaited
  cases waiting : decoder.pending with
  | some header => rw [(holds.pending header waiting).2]
  | none =>
    simp only
    rw [holds.buffered, if_neg (by omega), peek_eq (by rw [holds.chunks]; exact long), holds.chunks]
    all_goals rfl

/-- What the loop of `push` does with the bytes the decoder holds. -/
def Collected (json : Json) (limits : FramedStreamLimits) (bytes : Bytes) (out : List Value)
    (result : Except DecoderFault (FrameDecoder × List Value)) : Prop :=
  match (scan json limits bytes).fault with
  | some error => result = .error (.frame error)
  | none => ∃ decoder, result = .ok (decoder, out ++ (scan json limits bytes).messages) ∧
      Holds limits decoder (scan json limits bytes).rest

theorem collect_eq {fuel : Nat} {decoder : FrameDecoder} {bytes : Bytes} (out : List Value)
    (holds : Holds limits decoder bytes) (enough : bytes.length < fuel) :
    Collected json limits bytes out (decoder.collect json limits fuel out) := by
  induction fuel generalizing decoder bytes out with
  | zero => omega
  | succ fuel ih =>
    unfold Collected
    by_cases short : bytes.length < headerBytes
    · rw [scan_short short, FrameDecoder.collect, holds.awaited_short short]
      exact ⟨decoder, by simp [Scan.messages], holds⟩
    · have long : headerBytes ≤ bytes.length := by omega
      rw [FrameDecoder.collect, holds.awaited_long long, scan_long long]
      cases parsed : parseHeader limits (bytes.take headerBytes) with
      | error error => rfl
      | ok header =>
        have size := headerBytes_le_total parsed
        have positive : 0 < headerBytes := by decide
        simp only [holds.buffered]
        by_cases incomplete : bytes.length < header.totalLength
        · simp only [if_pos incomplete]
          refine ⟨{ decoder with buffered := bytes.length, pending := some header }, ?_,
            holds.chunks, rfl, ?_⟩
          · rw [← holds.buffered]
            simp [Scan.messages]
          · rintro _ ⟨⟩
            exact ⟨long, parsed⟩
        · obtain ⟨behind, taken, left⟩ := @take_eq decoder.chunks header.totalLength (by
            rw [holds.chunks]
            omega)
          rw [holds.chunks] at taken left
          simp only [if_neg incomplete, taken]
          cases decodeFrame json (.whole (bytes.take header.totalLength)) header with
          | error error => rfl
          | ok message =>
            have next : Holds limits ⟨behind, bytes.length - header.totalLength, none⟩
                (bytes.drop header.totalLength) := by
              refine ⟨left, ?_, by simp⟩
              rw [List.length_drop]
            have others := ih (out ++ [message]) next (by
              rw [List.length_drop]
              omega)
            simpa [Collected, Scan.messages] using others

theorem push_eq {decoder : FrameDecoder} {bytes : Bytes} (holds : Holds limits decoder bytes)
    (chunk : Bytes) :
    Collected json limits (bytes ++ chunk) [] (decoder.push json limits chunk) := by
  unfold FrameDecoder.push
  by_cases some : 0 < chunk.length
  · simp only [if_pos some]
    apply collect_eq
    · refine ⟨?_, ?_, ?_⟩
      · rw [List.flatten_append, holds.chunks]
        simp
      · rw [holds.buffered, List.length_append]
      · intro header waiting
        obtain ⟨long, parsed⟩ := holds.pending header waiting
        rw [List.take_append_of_le_length long, List.length_append]
        exact ⟨by omega, parsed⟩
    · rw [holds.buffered, List.length_append]
      omega
  · have none : chunk = [] := List.eq_nil_of_length_eq_zero (by omega)
    simp only [if_neg some]
    rw [none, List.append_nil]
    apply collect_eq _ holds
    rw [holds.buffered]
    omega

end Buffer

section Listening

variable {closes : List Value → Bool}

/-- The messages a listener takes before it closes the channel, and whether it does. -/
def hears (closes : List Value → Bool) : List Value → List Value → List Value × Bool
  | told, [] => (told, false)
  | told, message :: rest =>
    if closes (told ++ [message]) then (told ++ [message], true) else hears closes (told ++ [message]) rest

theorem hears_append (told first second : List Value) :
    hears closes told (first ++ second) =
      if (hears closes told first).2 then hears closes told first
      else hears closes (hears closes told first).1 second := by
  induction first generalizing told with
  | nil => simp [hears]
  | cons message rest ih =>
    simp only [List.cons_append, hears]
    split
    · simp
    · exact ih (told ++ [message])

theorem hears_open {told messages : List Value} (staying : (hears closes told messages).2 = false) :
    (hears closes told messages).1 = told ++ messages := by
  induction messages generalizing told with
  | nil => simp [hears]
  | cons message rest ih =>
    rw [hears] at staying ⊢
    split at staying
    · cases staying
    · next continues =>
      rw [if_neg continues, ih staying, List.append_assoc, List.singleton_append]

theorem told_lt_hears (told : List Value) (message : Value) (rest : List Value) :
    told.length < (hears closes told (message :: rest)).1.length := by
  induction rest generalizing told message with
  | nil =>
    rw [hears]
    split <;> simp [hears]
  | cons next rest ih =>
    rw [hears]
    split
    · simp
    · have longer := ih (told ++ [message]) next
      rw [List.length_append] at longer
      omega

theorem emitAll_closed {channel : FramedChannel} {reason : CloseCode × Option DecoderFault}
    (shut : channel.closed = some reason) (messages : List Value) :
    channel.emitAll closes messages = channel := by
  cases messages with
  | nil => rfl
  | cons message rest => simp only [FramedChannel.emitAll, shut]

theorem emitAll_eq {channel : FramedChannel} (listening : channel.closed = none) (messages : List Value) :
    channel.emitAll closes messages =
      if (hears closes channel.delivered messages).2 then
        ⟨.empty, some (.localClose, none), (hears closes channel.delivered messages).1⟩
      else { channel with delivered := (hears closes channel.delivered messages).1 } := by
  induction messages generalizing channel with
  | nil => simp [FramedChannel.emitAll, hears]
  | cons message rest ih =>
    simp only [FramedChannel.emitAll, listening, hears]
    by_cases stops : closes (channel.delivered ++ [message]) = true
    · simp only [if_pos stops, FramedChannel.shutdown]
      exact emitAll_closed rfl rest
    · simp only [if_neg stops]
      exact @ih ⟨channel.decoder, none, channel.delivered ++ [message]⟩ rfl

/-- What listeners should see of a byte string, however it is split: the messages of the
complete valid frames before the first malformed one, and a channel closed for that one. -/
def expected (json : Json) (limits : FramedStreamLimits) (closes : List Value → Bool) (bytes : Bytes) :
    List Value × Option CloseCode :=
  let heard := hears closes [] (scan json limits bytes).messages
  (heard.1, if heard.2 then some .localClose else (scan json limits bytes).fault.map fun _ => .protocolError)

theorem scan_fault_append {bytes : Bytes} {error : FrameProtocolError}
    (malformed : (scan json limits bytes).fault = some error) (more : Bytes) :
    (scan json limits (bytes ++ more)).fault = some error ∧
      (scan json limits (bytes ++ more)).messages = (scan json limits bytes).messages := by
  rw [scan_append, Scan.continued, malformed]
  exact ⟨rfl, rfl⟩

theorem scan_messages_append {bytes : Bytes} (fine : (scan json limits bytes).fault = none) (more : Bytes) :
    (scan json limits (bytes ++ more)).messages = (scan json limits bytes).messages ++
      (scan json limits ((scan json limits bytes).rest ++ more)).messages := by
  rw [scan_append, Scan.continued, fine]
  simp [Scan.messages]

theorem scan_fault_rest {bytes : Bytes} (fine : (scan json limits bytes).fault = none) (more : Bytes) :
    (scan json limits (bytes ++ more)).fault =
      (scan json limits ((scan json limits bytes).rest ++ more)).fault := by
  rw [scan_append, Scan.continued, fine]

theorem scan_rest_append {bytes : Bytes} (fine : (scan json limits bytes).fault = none) (more : Bytes) :
    (scan json limits (bytes ++ more)).rest =
      (scan json limits ((scan json limits bytes).rest ++ more)).rest := by
  rw [scan_append, Scan.continued, fine]

/-- Where a channel stands after a run of chunks. -/
inductive Standing (json : Json) (limits : FramedStreamLimits) (closes : List Value → Bool)
    (chunks : List Bytes) (channel : FramedChannel) : Prop where
  | listening (fine : (scan json limits chunks.flatten).fault = none)
      (staying : (hears closes [] (scan json limits chunks.flatten).messages).2 = false)
      (opened : channel.closed = none)
      (told : channel.delivered = (scan json limits chunks.flatten).messages)
      (holds : Holds limits channel.decoder (scan json limits chunks.flatten).rest)
  | left (before after : List Bytes) (split : chunks = before ++ after)
      (fine : (scan json limits before.flatten).fault = none)
      (leaving : (hears closes [] (scan json limits before.flatten).messages).2 = true)
      (shut : channel.closed = some (.localClose, none))
      (told : channel.delivered = (hears closes [] (scan json limits before.flatten).messages).1)
  | broken (before : List Bytes) (chunk : Bytes) (after : List Bytes) (error : FrameProtocolError)
      (split : chunks = before ++ chunk :: after)
      (fine : (scan json limits before.flatten).fault = none)
      (staying : (hears closes [] (scan json limits before.flatten).messages).2 = false)
      (malformed : (scan json limits (before.flatten ++ chunk)).fault = some error)
      (shut : channel.closed = some (.protocolError, some (.frame error)))
      (told : channel.delivered = (scan json limits before.flatten).messages)

theorem onData_closed {channel : FramedChannel} {reason : CloseCode × Option DecoderFault}
    (shut : channel.closed = some reason) (chunk : Bytes) :
    channel.onData json limits closes chunk = channel := by
  simp only [FramedChannel.onData, shut]

/-- One more chunk. -/
theorem Standing.onData {chunks : List Bytes} {channel : FramedChannel}
    (standing : Standing json limits closes chunks channel) (chunk : Bytes) :
    Standing json limits closes (chunks ++ [chunk]) (channel.onData json limits closes chunk) := by
  have joined : (chunks ++ [chunk]).flatten = chunks.flatten ++ chunk := by simp
  cases standing with
  | listening fine staying opened told holds =>
    have pushed := @push_eq json limits _ _ holds chunk
    unfold Collected at pushed
    rw [← scan_fault_rest fine] at pushed
    cases malformed : (scan json limits (chunks.flatten ++ chunk)).fault with
    | some error =>
      rw [malformed] at pushed
      apply Standing.broken chunks chunk [] error rfl fine staying malformed
      · simp only [FramedChannel.onData, opened, pushed, FramedChannel.shutdown]
      · simp only [FramedChannel.onData, opened, pushed, FramedChannel.shutdown, told]
    | none =>
      rw [malformed] at pushed
      obtain ⟨decoder, result, held⟩ := pushed
      rw [List.nil_append] at result
      have delivered_eq : (hears closes [] (scan json limits chunks.flatten).messages).1 =
          channel.delivered := by
        rw [hears_open staying, told, List.nil_append]
      have heard : hears closes [] (scan json limits (chunks.flatten ++ chunk)).messages =
          hears closes channel.delivered
            (scan json limits ((scan json limits chunks.flatten).rest ++ chunk)).messages := by
        rw [scan_messages_append fine, hears_append, staying, if_neg (by simp), delivered_eq]
      have after_eq : channel.onData json limits closes chunk =
          FramedChannel.emitAll closes { channel with decoder }
            (scan json limits ((scan json limits chunks.flatten).rest ++ chunk)).messages := by
        simp only [FramedChannel.onData, opened, result]
      rw [after_eq, @emitAll_eq closes { channel with decoder } opened]
      cases leaving : (hears closes [] (scan json limits (chunks.flatten ++ chunk)).messages).2 with
      | true =>
        rw [← heard, leaving, if_pos rfl]
        exact .left (chunks ++ [chunk]) [] (by simp) (by rw [joined]; exact malformed)
          (by rw [joined]; exact leaving) rfl (by rw [joined])
      | false =>
        rw [← heard, leaving, if_neg (by simp)]
        apply Standing.listening
        · rw [joined]
          exact malformed
        · rw [joined]
          exact leaving
        · exact opened
        · rw [joined, hears_open leaving, List.nil_append]
        · rw [joined, scan_rest_append fine]
          exact held
  | left before after split fine leaving shut told =>
    rw [onData_closed shut]
    exact .left before (after ++ [chunk]) (by rw [split, List.append_assoc]) fine leaving shut told
  | broken before revealing after error split fine staying malformed shut told =>
    rw [onData_closed shut]
    exact .broken before revealing (after ++ [chunk]) error (by rw [split]; simp) fine staying malformed
      shut told

theorem feed_standing (chunks : List Bytes) :
    Standing json limits closes chunks (FramedChannel.feed json limits closes chunks) := by
  induction chunks using List.reverseRecOn with
  | nil =>
    have nothing : scan json limits [] = ⟨[], [], none⟩ := rfl
    apply Standing.listening
    · rfl
    · rfl
    · rfl
    · rfl
    · exact holds_empty
  | append_singleton chunks chunk ih =>
    have extended : FramedChannel.feed json limits closes (chunks ++ [chunk]) =
        (FramedChannel.feed json limits closes chunks).onData json limits closes chunk := by
      simp [FramedChannel.feed]
    rw [extended]
    exact ih.onData chunk

/-- The chunk that first shows a malformed frame, if a listener is still there to see it,
completes no frame in front of it. -/
def Separated (json : Json) (limits : FramedStreamLimits) (closes : List Value → Bool)
    (chunks : List Bytes) : Prop :=
  ∀ before chunk after, chunks = before ++ chunk :: after →
    (scan json limits before.flatten).fault = none →
    (scan json limits (before.flatten ++ chunk)).fault ≠ none →
    (hears closes [] (scan json limits before.flatten).messages).2 = false →
    (scan json limits ((scan json limits before.flatten).rest ++ chunk)).frames = []

theorem cut_cases {before before' after : List Bytes} {chunk : Bytes} {after' : List Bytes}
    (same : before ++ chunk :: after = before' ++ after') :
    (∃ middle, before' = before ++ chunk :: middle) ∨ ∃ middle, before = before' ++ middle := by
  rw [List.append_eq_append_iff] at same
  rcases same with ⟨middle, rfl, rest⟩ | ⟨middle, rfl, _⟩
  · cases middle with
    | nil => exact .inr ⟨[], by simp⟩
    | cons first middle =>
      rw [List.cons_append, List.cons.injEq] at rest
      exact .inl ⟨middle, by rw [rest.1]⟩
  · exact .inr ⟨middle, rfl⟩

theorem fault_cons {before middle : List Bytes} {chunk : Bytes}
    (malformed : (scan json limits (before.flatten ++ chunk)).fault ≠ none) :
    (scan json limits (before ++ chunk :: middle).flatten).fault ≠ none := by
  obtain ⟨error, shown⟩ := Option.ne_none_iff_exists'.mp malformed
  have joined : (before ++ chunk :: middle).flatten = before.flatten ++ chunk ++ middle.flatten := by simp
  rw [joined, (scan_fault_append shown _).1]
  simp

theorem hears_leaving {before after : List Bytes} (fine : (scan json limits before.flatten).fault = none)
    (leaving : (hears closes [] (scan json limits before.flatten).messages).2 = true) :
    hears closes [] (scan json limits (before ++ after).flatten).messages =
      hears closes [] (scan json limits before.flatten).messages := by
  rw [List.flatten_append, scan_messages_append fine, hears_append, if_pos leaving]

theorem feed_expected_iff (chunks : List Bytes) :
    ((FramedChannel.feed json limits closes chunks).delivered,
      (FramedChannel.feed json limits closes chunks).closed.map Prod.fst) =
        expected json limits closes chunks.flatten ↔ Separated json limits closes chunks := by
  cases @feed_standing json limits closes chunks with
  | listening fine staying opened told holds =>
    constructor
    · intro _ before chunk after split _ malformed
      have shown := @fault_cons json limits before after chunk malformed
      rw [← split] at shown
      exact absurd fine shown
    · intro _
      rw [told, opened, expected, staying, hears_open staying, fine]
      simp
  | left earlier later split fine leaving shut told =>
    constructor
    · intro _ before chunk after cut fine' malformed staying
      rw [cut] at split
      rcases cut_cases split with ⟨middle, rfl⟩ | ⟨middle, rfl⟩
      · exact absurd fine (fault_cons malformed)
      · rw [hears_leaving fine leaving, leaving] at staying
        cases staying
    · intro _
      rw [told, shut, expected, split, hears_leaving fine leaving, leaving]
      simp
  | broken earlier revealing later error split fine staying malformed shut told =>
    have joined : chunks.flatten = earlier.flatten ++ revealing ++ later.flatten := by
      rw [split]
      simp
    have final := @scan_fault_append json limits _ _ malformed later.flatten
    have added := @scan_messages_append json limits _ fine revealing
    have heard : hears closes [] (scan json limits chunks.flatten).messages =
        hears closes (scan json limits earlier.flatten).messages
          (scan json limits ((scan json limits earlier.flatten).rest ++ revealing)).messages := by
      rw [joined, final.2, added, hears_append, staying, if_neg (by simp), hears_open staying,
        List.nil_append]
    constructor
    · intro same before chunk after cut fine' malformed' staying'
      rw [told, expected, heard, Prod.mk.injEq] at same
      -- The first malformed frame shows in one chunk only.
      have unique : before = earlier ∧ chunk = revealing := by
        rw [cut] at split
        rcases cut_cases split with ⟨middle, equal⟩ | ⟨middle, equal⟩
        · rw [equal] at fine
          exact absurd fine (fault_cons malformed')
        · cases middle with
          | nil =>
            rw [List.append_nil] at equal
            subst equal
            rw [List.append_cancel_left_eq, List.cons.injEq] at split
            exact ⟨rfl, split.1⟩
          | cons first middle =>
            subst equal
            rw [List.append_assoc, List.append_cancel_left_eq, List.cons_append, List.cons.injEq] at split
            rw [split.1] at fine'
            exact absurd fine' (fault_cons (by
              rw [malformed]
              simp))
      rw [unique.1, unique.2]
      cases completed : (scan json limits ((scan json limits earlier.flatten).rest ++ revealing)).frames with
      | nil => rfl
      | cons frame rest =>
        have longer := @told_lt_hears closes (scan json limits earlier.flatten).messages frame.2
          (rest.map Prod.snd)
        have messages_eq : (scan json limits ((scan json limits earlier.flatten).rest ++
            revealing)).messages = frame.2 :: rest.map Prod.snd := by
          rw [Scan.messages, completed, List.map_cons]
        rw [← messages_eq, ← same.1] at longer
        exact absurd longer (Nat.lt_irrefl _)
    · intro separated
      have none := separated earlier revealing later split fine (by simp [malformed]) staying
      have quiet : (scan json limits ((scan json limits earlier.flatten).rest ++ revealing)).messages =
          [] := by
        rw [Scan.messages, none, List.map_nil]
      rw [told, shut, expected, heard, quiet, joined, final.1]
      simp [hears]

theorem feed_fault {chunks : List Bytes} {code : CloseCode} {fault : DecoderFault}
    (shut : (FramedChannel.feed json limits closes chunks).closed = some (code, some fault)) :
    ∃ error, fault = .frame error := by
  cases @feed_standing json limits closes chunks with
  | listening _ _ opened => simp [opened] at shut
  | left _ _ _ _ _ closed =>
    rw [closed] at shut
    simp at shut
  | broken _ _ _ error _ _ _ _ closed =>
    rw [closed] at shut
    simp only [Option.some.injEq, Prod.mk.injEq] at shut
    exact ⟨error, shut.2.symm⟩

theorem feed_buffered {chunks : List Bytes}
    (opened : (FramedChannel.feed json limits closes chunks).closed = none) :
    (FramedChannel.feed json limits closes chunks).delivered =
        (scan json limits chunks.flatten).frames.map Prod.snd ∧
      (FramedChannel.feed json limits closes chunks).decoder.buffered +
        ((scan json limits chunks.flatten).frames.map fun frame => frame.1.length).sum =
          chunks.flatten.length := by
  cases @feed_standing json limits closes chunks with
  | listening _ _ _ told holds =>
    have all := @scan_bytes json limits chunks.flatten
    rw [holds.buffered]
    exact ⟨told, by omega⟩
  | left _ _ _ _ _ shut => simp [opened] at shut
  | broken _ _ _ _ _ _ _ _ shut => simp [opened] at shut

theorem hears_never (never : ∀ told, closes told = false) (told messages : List Value) :
    (hears closes told messages).2 = false := by
  induction messages generalizing told with
  | nil => rfl
  | cons message rest ih => simp [hears, never, ih]

theorem feed_closed_iff (never : ∀ told, closes told = false) (chunks : List Bytes) :
    (FramedChannel.feed json limits closes chunks).closed.map Prod.fst = some .protocolError ↔
      (scan json limits chunks.flatten).fault ≠ none := by
  cases @feed_standing json limits closes chunks with
  | listening fine _ opened => simp [fine, opened]
  | left _ _ _ _ leaving => simp [hears_never never] at leaving
  | broken before chunk after error split _ _ malformed shut =>
    have shown := @fault_cons json limits before after chunk (by simp [malformed])
    rw [← split] at shown
    simp [shut, shown]

/-- However the bytes are split, the listeners get what the whole byte string says if and
only if no chunk both completes a frame and shows the first malformed one. Always, the
channel closes for the same byte strings, the buffer is the bytes fed less those of the
delivered frames, and neither peeking nor taking runs past it. -/
theorem feed_chunking (json : Json) (limits : FramedStreamLimits) (closes : List Value → Bool)
    (chunks : List Bytes) :
    (((FramedChannel.feed json limits closes chunks).delivered,
      (FramedChannel.feed json limits closes chunks).closed.map Prod.fst) =
        expected json limits closes chunks.flatten ↔ Separated json limits closes chunks) ∧
    ((∀ told, closes told = false) →
      ((FramedChannel.feed json limits closes chunks).closed.map Prod.fst = some .protocolError ↔
        (scan json limits chunks.flatten).fault ≠ none)) ∧
    ((FramedChannel.feed json limits closes chunks).closed = none →
      (FramedChannel.feed json limits closes chunks).delivered =
          (scan json limits chunks.flatten).frames.map Prod.snd ∧
        (FramedChannel.feed json limits closes chunks).decoder.buffered +
          ((scan json limits chunks.flatten).frames.map fun frame => frame.1.length).sum =
            chunks.flatten.length) ∧
    ∀ code fault, (FramedChannel.feed json limits closes chunks).closed = some (code, some fault) →
      ∃ error, fault = .frame error :=
  ⟨feed_expected_iff chunks, fun never => feed_closed_iff never chunks, feed_buffered,
    fun _ _ => feed_fault⟩

end Listening

/-- A complete frame that says `null`. -/
def nullFrame : Bytes := frontBytes 4 0 0 ++ utf8Encode "null"

/-- A valid frame and a malformed header in one chunk: the message is lost. Two chunks of
the same bytes deliver it. -/
theorem chunking_matters :
    [nullFrame ++ List.replicate 20 0].flatten = [nullFrame, List.replicate 20 0].flatten ∧
    (FramedChannel.feed (sampleJson "null" .null) sampleLimits (fun _ => false)
      [nullFrame ++ List.replicate 20 0]).delivered = [] ∧
    (FramedChannel.feed (sampleJson "null" .null) sampleLimits (fun _ => false)
      [nullFrame, List.replicate 20 0]).delivered = [.null] ∧
    (expected (sampleJson "null" .null) sampleLimits (fun _ => false)
      (nullFrame ++ List.replicate 20 0)).1 = [.null] :=
  ⟨by decide, rfl, rfl, rfl⟩

end Mille.Stream
