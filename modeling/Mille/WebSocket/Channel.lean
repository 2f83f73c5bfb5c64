import Mathlib
import Mille.Stream.OutboundRuns

/-! A channel over a WebSocket: frames wait while the socket is connecting and are flushed by
its `open` callback. A drain is over when what is buffered is no more than what was sent after
it; callbacks of the socket and a poll timer look again. -/

namespace Mille.WebSocket

open Mille.Stream (Bytes Value Json FramedStreamLimits encodeFrame)
open Mille.Stream.Outbound (size)

section Socket

inductive ReadyState where
  | connecting
  | opened
  | closing
  | closed
deriving DecidableEq

/-- The socket: what it was handed, how many payload bytes of that have left it, in order, and
what it counts on top of what is left. -/
structure Socket where
  readyState : ReadyState
  handed : List Bytes
  gone : Nat
  overhead : Nat
deriving DecidableEq

/-- What happens in the socket until it is next looked at: bytes leave, framing comes and goes. -/
structure Moment where
  gone : Nat
  overhead : Nat

def Socket.unsent (socket : Socket) : Nat := size socket.handed - socket.gone

def Socket.bufferedAmount (socket : Socket) : Nat := socket.unsent + socket.overhead

def Socket.pass (socket : Socket) (moment : Moment) : Socket :=
  { socket with
    gone := min (size socket.handed) (socket.gone + moment.gone)
    overhead := moment.overhead }

def Socket.accept (socket : Socket) (frame : Bytes) : Socket :=
  { socket with handed := socket.handed ++ [frame] }

/-- How the socket answers a `send`: it throws, or takes the frame and calls send callbacks before
it returns. -/
structure Write where
  thrown : Bool
  callbacks : List Moment

/-- Taken without a callback. -/
def Write.quiet : Write := ⟨false, []⟩

end Socket

section Channel

structure DrainWaiter where
  /-- Bytes sent at the time of the call. -/
  mark : Nat
  /-- The frames sent before the call. -/
  before : List Bytes
deriving DecidableEq

/-- A drain that was over while the channel was open, and the socket it was over with. -/
structure Drained where
  before : List Bytes
  handed : List Bytes
  gone : Nat
deriving DecidableEq

structure Channel where
  /-- The state is `open`. -/
  opened : Bool
  /-- Frames sent while the socket was connecting. -/
  pending : List Bytes
  pendingBytes : Nat
  sentTotal : Nat
  drainWaiters : List DrainWaiter
  drainTimer : Bool
  socket : Socket
  /-- The frames of the sends that returned. -/
  sent : List Bytes
  drained : List Drained
  /-- The open callback has run. -/
  flushed : Bool
deriving DecidableEq

def Channel.create (readyState : ReadyState) (overhead : Nat) : Channel :=
  ⟨true, [], 0, 0, [], false, ⟨readyState, [], 0, overhead⟩, [], [], false⟩

namespace Channel

variable (channel : Channel)

def bufferedBytes : Nat :=
  if channel.opened then channel.pendingBytes + channel.socket.bufferedAmount else 0

def scheduleDrainCheck : Channel :=
  if channel.drainTimer || channel.drainWaiters.isEmpty then channel
  else { channel with drainTimer := true }

def drainedNow (before : List Bytes) : Drained := ⟨before, channel.socket.handed, channel.socket.gone⟩

/-- A waiter is ready when no more is buffered than was sent after it came. -/
def ready (waiter : DrainWaiter) : Bool :=
  (channel.bufferedBytes : Int) ≤ channel.sentTotal - waiter.mark

def checkDrain : Channel :=
  if channel.drainWaiters.isEmpty then channel
  else
    scheduleDrainCheck
      { channel with
        drainWaiters := channel.drainWaiters.filter fun waiter => !channel.ready waiter
        drained := channel.drained ++
          (channel.drainWaiters.filter channel.ready).map fun waiter => channel.drainedNow waiter.before }

/-- Closing, for whatever reason: nothing more is written and nobody waits. -/
def shutdown : Channel :=
  if channel.opened then
    { channel with opened := false, pending := [], pendingBytes := 0, drainTimer := false, drainWaiters := [] }
  else channel

/-- A send callback, with what happened in the socket before it. -/
def onSent (moment : Moment) : Channel :=
  checkDrain { channel with socket := channel.socket.pass moment }

/-- Hands one frame to the socket; `false` when that threw. -/
def write (frame : Bytes) (answer : Write) : Channel × Bool :=
  if answer.thrown then (channel.shutdown, false)
  else (answer.callbacks.foldl onSent { channel with socket := channel.socket.accept frame }, true)

variable (json : Json) (limits : FramedStreamLimits)

def send (message : Value) (answer : Write) : Channel :=
  if channel.opened then
    match encodeFrame json limits message with
    | .error _ => channel
    | .ok frame =>
      if channel.bufferedBytes + frame.length > limits.outboundHardBytes then channel.shutdown
      else
        let counted := { channel with sentTotal := channel.sentTotal + frame.length }
        if channel.socket.readyState = .connecting then
          { counted with
            pending := channel.pending ++ [frame]
            pendingBytes := channel.pendingBytes + frame.length
            sent := channel.sent ++ [frame] }
        else
          let (next, taken) := counted.write frame answer
          if taken then { next with sent := channel.sent ++ [frame] } else next
  else channel

def drain : Channel :=
  if channel.opened then
    if channel.bufferedBytes = 0 then { channel with drained := channel.drained ++ [channel.drainedNow channel.sent] }
    else
      scheduleDrainCheck
        { channel with drainWaiters := channel.drainWaiters ++ [⟨channel.sentTotal, channel.sent⟩] }
  else channel

/-- The loop of the open callback, with the socket's answer to each write. -/
def flush (channel : Channel) : List Bytes → List Write → Channel
  | [], _ => channel
  | frame :: rest, answers =>
    let (next, taken) := channel.write frame (answers.headD .quiet)
    if taken then flush next rest answers.tail else next

def onOpen (answers : List Write) : Channel :=
  if channel.opened then
    { channel with pending := [], pendingBytes := 0, flushed := true }.flush channel.pending answers
  else channel

/-- What can happen, in any order. -/
inductive Event where
  | send (message : Value) (answer : Write)
  | drain
  /-- The socket is open; its callback is yet to come. -/
  | opens
  | onOpen (answers : List Write)
  | passes (moment : Moment)
  | onSent (moment : Moment)
  | timer
  /-- `close`, the socket's `close` or `error`, or a message that is no frame. -/
  | shutdown
  | closes (readyState : ReadyState)

/-- Only a connecting socket opens, and a socket that no longer is connecting never is again. -/
def step : Event → Channel
  | .send message answer => channel.send json limits message answer
  | .drain => channel.drain
  | .opens =>
    if channel.socket.readyState = .connecting then
      { channel with socket := { channel.socket with readyState := .opened } }
    else channel
  | .onOpen answers => if channel.socket.readyState = .connecting then channel else channel.onOpen answers
  | .passes moment => { channel with socket := channel.socket.pass moment }
  | .onSent moment => channel.onSent moment
  | .timer => if channel.drainTimer then checkDrain { channel with drainTimer := false } else channel
  | .shutdown => channel.shutdown
  | .closes readyState =>
    if readyState = .connecting ∨ readyState = .opened then channel
    else { channel with socket := { channel.socket with readyState := readyState } }

def run (events : List Event) : Channel := events.foldl (fun channel event => channel.step json limits event) channel

end Channel

end Channel

end Mille.WebSocket
