import Mathlib
import Mille.Stream.Decoder
import Mille.Stream.FrameBytes

/-! The sending half of a framed channel. Frames queue in the channel and one is handed to
the stream at a time; while the stream pushes back nothing further is written. Every call
out of the channel (a write, a listener, ending the stream) may call back into it before it
returns, so the channel keeps a stack of the calls in progress and each event acts at the
top of it. -/

namespace Mille.Stream.Outbound

inductive ChannelState where
  | opened
  | closing
  | closed
deriving DecidableEq

inductive CloseCode where
  | localClose
  | remoteClose
  | transportError
  | protocolError
  | backpressure
deriving DecidableEq

inductive Cause where
  | error (message : String)
  | malformed (fault : DecoderFault)
deriving DecidableEq

structure CloseEvent where
  code : CloseCode
  reason : Option String
  cause : Option Cause
deriving DecidableEq

/-- Listeners are compared as function references. -/
abbrev ListenerId := Nat

/-- A promise of `drain`, numbered by its call. -/
structure DrainWaiter where
  /-- Cumulative enqueued-byte mark this waiter is waiting to pass. -/
  mark : Nat
  promise : Nat

inductive ListenerKind where
  | message
  | close
deriving DecidableEq

/-- What `add` of a listener set returned. -/
structure Disposable where
  kind : ListenerKind
  listener : ListenerId
  disposed : Bool

/-- A call out of the channel that has not returned. -/
inductive Activity where
  /-- The logger's soft-watermark warning inside `send`. -/
  | warning
  /-- `stream.write` inside the pump. -/
  | writing
  /-- A message listener: those of the same snapshot still to call, and the messages of the
  chunk still to emit. -/
  | emitting (left : List ListenerId) (messages : List Value)
  /-- `stream.end` or `stream.destroy` inside the shutdown. -/
  | ending
  /-- A close listener, with those of the same snapshot still to call. -/
  | announcing (left : List ListenerId)

def Activity.isEnding : Activity → Bool
  | .ending => true
  | _ => false

structure Channel where
  decoder : FrameDecoder
  messages : List ListenerId
  closes : List ListenerId
  disposables : List Disposable
  /-- Encoded frames not yet handed to the stream. -/
  queue : List Bytes
  queuedBytes : Nat
  enqueuedTotal : Nat
  writtenTotal : Nat
  drainWaiters : List DrainWaiter
  writable : Bool
  softWarned : Bool
  state : ChannelState
  closeEvent : Option CloseEvent
  microtasks : List (ListenerId × CloseEvent)
  stack : List Activity
  -- What happened so far: the frames `send` took and `write` was called with, how many
  -- frames were taken before each call of `drain` and which of its promises resolved, the
  -- messages emitted, and the calls of close listeners.
  accepted : List Bytes
  handed : List Bytes
  asked : List Nat
  resolved : List Nat
  emitted : List Value
  told : List (ListenerId × CloseEvent)
  /-- The close listeners there were when the channel closed. -/
  audience : List ListenerId
  /-- The listeners that subscribed to a closed channel. -/
  late : List ListenerId

inductive Event where
  | send (message : Value)
  | drain
  | onMessage (listener : ListenerId)
  | onClose (listener : ListenerId)
  | dispose (disposable : Nat)
  | close (reason : Option String)
  | streamDrain
  | streamData (chunk : Bytes)
  | streamError (message : String)
  | streamEnd
  | streamClose
  /-- The call at the top of the stack returns; `ok` is what `write` answered. -/
  | returns (ok : Bool)
  | throws (message : String)
  /-- The event loop runs a queued microtask. -/
  | microtask

namespace Channel

def opened : Channel where
  decoder := .empty
  messages := []
  closes := []
  disposables := []
  queue := []
  queuedBytes := 0
  enqueuedTotal := 0
  writtenTotal := 0
  drainWaiters := []
  writable := true
  softWarned := false
  state := .opened
  closeEvent := none
  microtasks := []
  stack := []
  accepted := []
  handed := []
  asked := []
  resolved := []
  emitted := []
  told := []
  audience := []
  late := []

def overSoftWatermark (limits : FramedStreamLimits) (channel : Channel) : Prop :=
  limits.outboundSoftBytes ≤ channel.queuedBytes

instance (limits : FramedStreamLimits) (channel : Channel) : Decidable (channel.overSoftWatermark limits) :=
  inferInstanceAs (Decidable (_ ≤ _))

def settleDrainWaiters (channel : Channel) : Channel :=
  { channel with
    drainWaiters := channel.drainWaiters.filter fun waiter => channel.writtenTotal < waiter.mark
    resolved := channel.resolved ++
      (channel.drainWaiters.filter fun waiter => waiter.mark ≤ channel.writtenTotal).map DrainWaiter.promise }

/-- The pump's last lines, once its loop is over. -/
def rested (limits : FramedStreamLimits) (channel : Channel) : Channel :=
  settleDrainWaiters { channel with
    softWarned := channel.softWarned && decide (channel.overSoftWatermark limits) }

/-- The pump up to its next write. -/
def pump (limits : FramedStreamLimits) (channel : Channel) : Channel :=
  match channel.queue with
  | [] => channel.rested limits
  | frame :: rest =>
    if channel.writable ∧ channel.state = .opened then
      { channel with
        queue := rest
        queuedBytes := channel.queuedBytes - frame.length
        writtenTotal := channel.writtenTotal + frame.length
        stack := .writing :: channel.stack
        handed := channel.handed ++ [frame] }
    else channel.rested limits

/-- The shutdown up to its call of the stream's `end` or `destroy`. -/
def shutdown (code : CloseCode) (reason : Option String) (cause : Option Cause) (channel : Channel) : Channel :=
  if channel.state = .opened then
    { channel with
      state := .closing
      closeEvent := some ⟨code, reason, cause⟩
      queue := []
      queuedBytes := 0
      decoder := .empty
      stack := .ending :: channel.stack }
  else channel

/-- `onClose` of a closed channel falls back on this event. -/
def finalEvent (channel : Channel) : CloseEvent := channel.closeEvent.getD ⟨.localClose, none, none⟩

/-- The walk over a snapshot of the close listeners, and the shutdown's last two lines. -/
def announce (channel : Channel) : List ListenerId → Channel
  | [] => { channel with closes := [], messages := [] }
  | listener :: left =>
    { channel with
      told := channel.told ++ [(listener, channel.finalEvent)]
      stack := .announcing left :: channel.stack }

/-- The shutdown behind its call of the stream. -/
def finish (channel : Channel) : Channel :=
  announce { channel with
    state := .closed
    drainWaiters := []
    resolved := channel.resolved ++ channel.drainWaiters.map DrainWaiter.promise
    audience := channel.closes } channel.closes

/-- The loop of `#onData` over the messages of a chunk. -/
def emitAll : Channel → List Value → Channel
  | channel, [] => channel
  | channel, message :: rest =>
    if channel.state = .opened then
      match channel.messages with
      | [] => emitAll { channel with emitted := channel.emitted ++ [message] } rest
      | _ :: left =>
        { channel with
          emitted := channel.emitted ++ [message]
          stack := .emitting left rest :: channel.stack }
    else channel

def onData (json : Json) (limits : FramedStreamLimits) (chunk : Bytes) (channel : Channel) : Channel :=
  if channel.state = .opened then
    match channel.decoder.push json limits chunk with
    | .error fault => channel.shutdown .protocolError (some fault.message) (some (.malformed fault))
    | .ok (decoder, messages) => emitAll { channel with decoder } messages
  else channel

def hardLimitText (limits : FramedStreamLimits) : String :=
  s!"outbound queue would exceed {limits.outboundHardBytes} bytes; closing channel"

/-- `send` up to its first call out. A message it refuses leaves the channel as it was. -/
def send (json : Json) (limits : FramedStreamLimits) (message : Value) (channel : Channel) : Channel :=
  if channel.state = .opened then
    match encodeFrame json limits message with
    | .error _ => channel
    | .ok frame =>
      if limits.outboundHardBytes < channel.queuedBytes + frame.length then
        channel.shutdown .backpressure (some "outbound hard limit exceeded") (some (.error (hardLimitText limits)))
      else
        let queued : Channel :=
          { channel with
            queue := channel.queue ++ [frame]
            queuedBytes := channel.queuedBytes + frame.length
            enqueuedTotal := channel.enqueuedTotal + frame.length
            accepted := channel.accepted ++ [frame] }
        if ¬queued.softWarned ∧ queued.overSoftWatermark limits then
          { queued with softWarned := true, stack := .warning :: queued.stack }
        else queued.pump limits
  else channel

def drain (channel : Channel) : Channel :=
  let promise := channel.asked.length
  let called := { channel with asked := channel.asked ++ [channel.accepted.length] }
  if channel.enqueuedTotal ≤ channel.writtenTotal then
    { called with resolved := channel.resolved ++ [promise] }
  else { called with drainWaiters := channel.drainWaiters ++ [⟨channel.enqueuedTotal, promise⟩] }

/-- `add` of a listener set: a reference that is there already is there once. -/
def insertListener (listeners : List ListenerId) (listener : ListenerId) : List ListenerId :=
  if listener ∈ listeners then listeners else listeners ++ [listener]

def onMessage (listener : ListenerId) (channel : Channel) : Channel :=
  { channel with
    messages := insertListener channel.messages listener
    disposables := channel.disposables ++ [⟨.message, listener, false⟩] }

def onClose (listener : ListenerId) (channel : Channel) : Channel :=
  if channel.state = .closed then
    { channel with
      microtasks := channel.microtasks ++ [(listener, channel.finalEvent)]
      late := channel.late ++ [listener] }
  else
    { channel with
      closes := insertListener channel.closes listener
      disposables := channel.disposables ++ [⟨.close, listener, false⟩] }

/-- Disposing twice does nothing the second time. -/
def dispose (index : Nat) (channel : Channel) : Channel :=
  match channel.disposables[index]? with
  | some ⟨kind, listener, false⟩ =>
    let marked := { channel with disposables := channel.disposables.set index ⟨kind, listener, true⟩ }
    match kind with
    | .message => { marked with messages := channel.messages.erase listener }
    | .close => { marked with closes := channel.closes.erase listener }
  | _ => channel

/-- What the channel does once the call at the top of its stack returned. -/
def resume (limits : FramedStreamLimits) (ok : Bool) (channel : Channel) : Activity → Channel
  | .warning => channel.pump limits
  | .writing => pump limits { channel with writable := channel.writable && ok }
  | .emitting [] messages => channel.emitAll messages
  | .emitting (_ :: left) messages => { channel with stack := .emitting left messages :: channel.stack }
  | .ending => channel.finish
  | .announcing left => channel.announce left

/-- What it does once that call threw. A listener's throw is caught and reported, as is
that of ending the stream; a logger's ends the `send` it was called from. -/
def recover (limits : FramedStreamLimits) (message : String) (channel : Channel) : Activity → Channel
  | .warning => channel
  | .writing => channel.shutdown .transportError (some "stream write threw") (some (.error message))
  | activity => channel.resume limits true activity

/-- The call at the top of the stack is over. -/
def popped (channel : Channel) (behind : Channel → Activity → Channel) : Channel :=
  match channel.stack with
  | [] => channel
  | activity :: rest => behind { channel with stack := rest } activity

def runMicrotask (channel : Channel) : Channel :=
  match channel.stack, channel.microtasks with
  | [], task :: rest => { channel with microtasks := rest, told := channel.told ++ [task] }
  | _, _ => channel

def step (json : Json) (limits : FramedStreamLimits) (channel : Channel) : Event → Channel
  | .send message => channel.send json limits message
  | .drain => channel.drain
  | .onMessage listener => channel.onMessage listener
  | .onClose listener => channel.onClose listener
  | .dispose disposable => channel.dispose disposable
  | .close reason => channel.shutdown .localClose reason none
  | .streamDrain => pump limits { channel with writable := true }
  | .streamData chunk => channel.onData json limits chunk
  | .streamError message => channel.shutdown .transportError (some message) (some (.error message))
  | .streamEnd => channel.shutdown .remoteClose (some "peer ended the stream") none
  | .streamClose => channel.shutdown .remoteClose (some "stream closed") none
  | .returns ok => channel.popped (resume limits ok)
  | .throws message => channel.popped (recover limits message)
  | .microtask => channel.runMicrotask

end Channel

end Mille.Stream.Outbound
