import Mathlib
import Mille.Stream.Codec

/-! The incremental frame parser and the receiving side of a framed channel. A byte stream
splits wherever it likes, so the parser keeps a list of chunks and, once it has validated
one, the header of the frame it waits for. -/

namespace Mille.Stream

/-- Where `push` throws. -/
inductive DecoderFault where
  | peekPastEnd
  | takePastEnd
  | frame (error : FrameProtocolError)
deriving DecidableEq

def DecoderFault.message : DecoderFault → String
  | .peekPastEnd => "peek past the end of the buffer"
  | .takePastEnd => "take past the end of the buffer"
  | .frame error => error.message

structure FrameDecoder where
  chunks : List Bytes
  buffered : Nat
  /-- Header of the frame currently awaited, once it has validated. -/
  pending : Option FrameHeader

namespace FrameDecoder

def empty : FrameDecoder := ⟨[], 0, none⟩

/-- The bytes the copying loop of `peek` collects. -/
def fill : Nat → List Bytes → Bytes
  | _, [] => []
  | count, chunk :: rest =>
    let copied := chunk.take (min count chunk.length)
    if copied.length = count then copied else copied ++ fill (count - copied.length) rest

/-- Copies the first buffered bytes without consuming them. -/
def peek (chunks : List Bytes) (count : Nat) : Except DecoderFault Bytes :=
  match chunks with
  | first :: rest =>
    if count ≤ first.length then .ok (first.take count)
    else
      let out := fill count (first :: rest)
      if out.length < count then .error .peekPastEnd else .ok out
  | [] => if 0 < count then .error .peekPastEnd else .ok []

/-- Removes and returns the first buffered bytes. -/
def take : Nat → List Bytes → Except DecoderFault (Bytes × List Bytes)
  | 0, chunks => .ok ([], chunks)
  | _ + 1, [] => .error .takePastEnd
  | count + 1, chunk :: rest =>
    if count + 1 < chunk.length then .ok (chunk.take (count + 1), chunk.drop (count + 1) :: rest)
    else
      match take (count + 1 - chunk.length) rest with
      | .error fault => .error fault
      | .ok (taken, chunks) => .ok (chunk ++ taken, chunks)

/-- The header to wait for: the pending one, or a new one once twenty bytes are there. -/
def awaited (limits : FramedStreamLimits) (decoder : FrameDecoder) :
    Except DecoderFault (Option FrameHeader) :=
  match decoder.pending with
  | some header => .ok (some header)
  | none =>
    if decoder.buffered < headerBytes then .ok none
    else
      match peek decoder.chunks headerBytes with
      | .error fault => .error fault
      | .ok bytes =>
        match parseHeader limits bytes with
        | .error error => .error (.frame error)
        | .ok header => .ok (some header)

/-- The loop of `push`. -/
def collect (json : Json) (limits : FramedStreamLimits) :
    Nat → FrameDecoder → List Value → Except DecoderFault (FrameDecoder × List Value)
  | 0, decoder, out => .ok (decoder, out)
  | fuel + 1, decoder, out =>
    match decoder.awaited limits with
    | .error fault => .error fault
    | .ok none => .ok (decoder, out)
    | .ok (some header) =>
      if decoder.buffered < header.totalLength then .ok ({ decoder with pending := some header }, out)
      else
        match take header.totalLength decoder.chunks with
        | .error fault => .error fault
        | .ok (frame, chunks) =>
          match decodeFrame json (.whole frame) header with
          | .error error => .error (.frame error)
          | .ok message =>
            collect json limits fuel ⟨chunks, decoder.buffered - header.totalLength, none⟩ (out ++ [message])

/-- Feeds one chunk and returns every message it completed. Each turn of the loop consumes
a header, so the buffered bytes bound its turns. -/
def push (json : Json) (limits : FramedStreamLimits) (decoder : FrameDecoder) (chunk : Bytes) :
    Except DecoderFault (FrameDecoder × List Value) :=
  let fed : FrameDecoder :=
    if 0 < chunk.length then
      { decoder with chunks := decoder.chunks ++ [chunk], buffered := decoder.buffered + chunk.length }
    else decoder
  collect json limits (fed.buffered + 1) fed []

end FrameDecoder

inductive CloseCode where
  | localClose
  | protocolError
deriving DecidableEq

/-- The receiving half of a channel, with what its listeners were handed so far. -/
structure FramedChannel where
  decoder : FrameDecoder
  /-- Why the channel closed, and what was thrown when that was a malformed frame. -/
  closed : Option (CloseCode × Option DecoderFault)
  delivered : List Value

namespace FramedChannel

def opened : FramedChannel := ⟨.empty, none, []⟩

/-- Closing drops everything buffered. -/
def shutdown (channel : FramedChannel) (code : CloseCode) (fault : Option DecoderFault) : FramedChannel :=
  match channel.closed with
  | some _ => channel
  | none => { channel with decoder := .empty, closed := some (code, fault) }

/-- Hands messages over while the channel is open; `closes` says after which deliveries a
listener closes it. -/
def emitAll (closes : List Value → Bool) : FramedChannel → List Value → FramedChannel
  | channel, [] => channel
  | channel, message :: rest =>
    match channel.closed with
    | some _ => channel
    | none =>
      let told : FramedChannel := { channel with delivered := channel.delivered ++ [message] }
      emitAll closes (if closes told.delivered then told.shutdown .localClose none else told) rest

def onData (json : Json) (limits : FramedStreamLimits) (closes : List Value → Bool)
    (channel : FramedChannel) (chunk : Bytes) : FramedChannel :=
  match channel.closed with
  | some _ => channel
  | none =>
    match channel.decoder.push json limits chunk with
    | .error fault => channel.shutdown .protocolError (some fault)
    | .ok (decoder, messages) => emitAll closes { channel with decoder } messages

/-- A channel fed a run of chunks. -/
def feed (json : Json) (limits : FramedStreamLimits) (closes : List Value → Bool)
    (chunks : List Bytes) : FramedChannel :=
  chunks.foldl (onData json limits closes) opened

end FramedChannel

/-- What a byte string says as a whole: its complete valid frames up to the first malformed
one, the bytes behind them, and what is wrong with the first malformed frame. -/
structure Scan where
  frames : List (Bytes × Value)
  rest : Bytes
  fault : Option FrameProtocolError

def scanFrom (json : Json) (limits : FramedStreamLimits) : Nat → Bytes → Scan
  | 0, bytes => ⟨[], bytes, none⟩
  | fuel + 1, bytes =>
    if bytes.length < headerBytes then ⟨[], bytes, none⟩
    else
      match parseHeader limits (bytes.take headerBytes) with
      | .error error => ⟨[], bytes, some error⟩
      | .ok header =>
        if bytes.length < header.totalLength then ⟨[], bytes, none⟩
        else
          match decodeFrame json (.whole (bytes.take header.totalLength)) header with
          | .error error => ⟨[], bytes, some error⟩
          | .ok message =>
            let behind := scanFrom json limits fuel (bytes.drop header.totalLength)
            ⟨(bytes.take header.totalLength, message) :: behind.frames, behind.rest, behind.fault⟩

def scan (json : Json) (limits : FramedStreamLimits) (bytes : Bytes) : Scan :=
  scanFrom json limits bytes.length bytes

def Scan.messages (scan : Scan) : List Value := scan.frames.map Prod.snd

end Mille.Stream
