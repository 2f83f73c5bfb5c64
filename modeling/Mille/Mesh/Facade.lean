import Mille.Lib.Run
import Mille.Remote.Protocol

/-! `connectMille`: the facade that dials, adopts, loses and dials again. -/

namespace Mille.Mesh

inductive RemoteExplorerErrorCode where
  | offline
  | accessDenied
  | protocolMismatch
  | invalidResponse
  | timeout
  | backpressure
  | limitExceeded
  | serverShuttingDown
  | transportError
deriving DecidableEq

namespace RemoteExplorerErrorCode

def text : RemoteExplorerErrorCode → String
  | offline => "OFFLINE"
  | accessDenied => "ACCESS_DENIED"
  | protocolMismatch => "PROTOCOL_MISMATCH"
  | invalidResponse => "INVALID_RESPONSE"
  | timeout => "TIMEOUT"
  | backpressure => "BACKPRESSURE"
  | limitExceeded => "LIMIT_EXCEEDED"
  | serverShuttingDown => "SERVER_SHUTTING_DOWN"
  | transportError => "TRANSPORT_ERROR"

end RemoteExplorerErrorCode

def rejectCodeToError : Remote.RejectCode → RemoteExplorerErrorCode
  | .versionUnsupported => .protocolMismatch
  | .invalidRequest => .protocolMismatch
  | .accessDenied => .accessDenied
  | .limitExceeded => .limitExceeded
  | .serverShuttingDown => .serverShuttingDown

structure RetryDecision where
  retry : Bool
  reason : String

def terminalCodes : List RemoteExplorerErrorCode :=
  [.accessDenied, .protocolMismatch, .limitExceeded]

def shouldRetry (code : RemoteExplorerErrorCode) (retryServerShutdown : Bool) : RetryDecision :=
  if code ∈ terminalCodes then ⟨false, code.text ++ " will not change on retry"⟩
  else if code = .serverShuttingDown then
    if retryServerShutdown then ⟨true, "configured to retry a restarting server"⟩
    else ⟨false, "server is shutting down"⟩
  else ⟨true, code.text ++ " may be transient"⟩

inductive RemoteConnectionState where
  | connecting
  | online
  | stale
  | reconnecting
  | closed
deriving DecidableEq

structure ConnectMilleOptions where
  /-- `reconnect` is not `false`. -/
  reconnect : Bool
  retryServerShutdown : Bool
  /-- The abort signal, if one is given, and whether it is aborted already. -/
  signal : Option Bool

/-- An opened channel beside the explorer built on it. -/
structure Session where
  isOpen : Bool
  built : Bool
  disposed : Bool
  closeReported : Bool
  /-- The facade's `onConnection` listener is attached. -/
  listening : Bool
deriving DecidableEq

/-- An explorer is built on the channel. -/
def Session.explored (session : Session) : Session := { session with built := true }

/-- Where one run of `attemptConnect` stands; the constructors with an outcome wait for
their continuation to run. -/
inductive Phase (ι : Type) where
  | dialing
  | connected
  | opening (channel : Nat)
  | accepted (channel : Nat) (workspaceInstanceId : ι)
  | handshaking (channel : Nat) (workspaceInstanceId : ι)
  | ready (channel : Nat) (workspaceInstanceId : ι)
  /-- The explorer handshake was rejected by an error frame. -/
  | refused (channel : Nat)
  | failed (code : RemoteExplorerErrorCode)
deriving DecidableEq

namespace Phase

variable {ι : Type}

def channel : Phase ι → Option Nat
  | opening channel => some channel
  | accepted channel _ => some channel
  | handshaking channel _ => some channel
  | ready channel _ => some channel
  | refused channel => some channel
  | _ => none

def isOpening (channel : Nat) : Phase ι → Bool
  | opening mine => mine = channel
  | _ => false

/-- What `openOnce` does when the signal aborts. -/
def onAbort : Phase ι → Phase ι
  | dialing => failed .offline
  | opening _ => failed .offline
  | phase => phase

/-- What `openOnce` does when a channel closes. -/
def onClose (channel : Nat) : Phase ι → Phase ι
  | opening mine => if mine = channel then failed .transportError else opening mine
  | phase => phase

/-- What `connectFileExplorerChannel` does when an explorer rejects its handshake. -/
def onReject (channel : Nat) : Phase ι → Phase ι
  | handshaking mine instanceId =>
    if mine = channel then failed .transportError else handshaking mine instanceId
  | phase => phase

end Phase

/-- What the facade tells its listeners, and what a listener may do on hearing it. -/
inductive Emission where
  | connection (state : RemoteConnectionState)
  | identityReset

inductive Reaction where
  | none
  | close
  | abort

/-- The variables of `connectMille`, the timers and attempts it has under way, and every
session it has opened, by number. `adopted` records the instances it adopted. -/
structure Facade (ι : Type) where
  state : RemoteConnectionState
  current : Option Nat
  workspaceInstanceId : Option ι
  closed : Bool
  attempt : Nat
  terminalFailure : Option RemoteExplorerErrorCode
  retryTimer : Option Nat
  timers : List Nat
  timersSet : Nat
  attempts : List (Phase ι)
  started : Nat
  aborted : Bool
  /-- Calls of `close` that wait for the explorer's disposal. -/
  closing : Nat
  sessions : Nat → Session
  opened : Nat
  adopted : List ι
  identityResets : List (ι × ι)

inductive Event (ι : Type) where
  | dialed (index : Nat)
  | dialFailed (index : Nat)
  /-- The continuation of an attempt runs. -/
  | resume (index : Nat)
  | accepted (index : Nat) (workspaceInstanceId : ι)
  | rejected (index : Nat) (code : Remote.RejectCode)
  | openTimeout (index : Nat)
  | snapshot (index : Nat)
  /-- An error frame that is not fatal. -/
  | errorFrame (index : Nat)
  /-- The channel closes: the transport's doing, or a fatal error frame's. -/
  | channelClosed (channel : Nat)
  | timer (timer : Nat)
  | close
  /-- A call of `close` goes on after the disposal. -/
  | disposed
  | abort

/-- An event, beside what the listeners do on hearing what it makes the facade say. -/
structure Turn (ι : Type) where
  event : Event ι
  listener : Emission → Reaction

namespace Facade

variable {ι : Type} [DecidableEq ι]

def setSession (facade : Facade ι) (channel : Nat) (session : Session) : Facade ι :=
  { facade with sessions := Function.update facade.sessions channel session }

/-- `clearTimeout` of the retry timer. -/
def clearRetry (facade : Facade ι) : List Nat :=
  match facade.retryTimer with
  | some timer => facade.timers.erase timer
  | none => facade.timers

/-- `facade.close`, up to its `await`; the disposal closes the channel and silences its explorer. -/
def close (facade : Facade ι) : Facade ι :=
  if facade.closed then facade
  else
    match facade.current with
    | none => { facade with closed := true, timers := facade.clearRetry, state := .closed }
    | some channel =>
      { facade with
        closed := true
        timers := facade.clearRetry
        current := none
        sessions := Function.update facade.sessions channel
          { facade.sessions channel with isOpen := false, disposed := true }
        closing := facade.closing + 1 }

/-- The signal aborts: the facade's listener, then those of the attempts under way. -/
def abort (options : ConnectMilleOptions) (facade : Facade ι) : Facade ι :=
  if options.signal.isNone || facade.aborted then facade
  else
    let stopped := facade.close
    { stopped with
      aborted := true
      attempts := stopped.attempts.map Phase.onAbort
      sessions := fun channel =>
        if stopped.attempts.any (Phase.isOpening channel) then { stopped.sessions channel with isOpen := false }
        else stopped.sessions channel }

section Handlers

variable (options : ConnectMilleOptions) (listener : Emission → Reaction)

/-- The listeners hear an emission. -/
def emit (emission : Emission) (facade : Facade ι) : Facade ι :=
  match listener emission with
  | .none => facade
  | .close => facade.close
  | .abort => facade.abort options

def setState (next : RemoteConnectionState) (facade : Facade ι) : Facade ι :=
  { facade with state := next }.emit options listener (.connection next)

def scheduleRetry (facade : Facade ι) : Facade ι :=
  if facade.closed || !options.reconnect then facade
  else { facade with
    attempt := facade.attempt + 1
    timers := facade.timers ++ [facade.timersSet]
    timersSet := facade.timersSet + 1
    retryTimer := some facade.timersSet }

def onSessionLost (facade : Facade ι) : Facade ι :=
  if facade.closed then facade
  else
    let lost := { facade with current := none }
    if options.reconnect then scheduleRetry options (lost.setState options listener .stale)
    else lost.setState options listener .closed

/-- `PortFileExplorer.handleChannelClose`. -/
def handleChannelClose (channel : Nat) (facade : Facade ι) : Facade ι :=
  let session := facade.sessions channel
  if session.disposed || session.closeReported then facade
  else
    let reported := { facade.setSession channel { session with closeReported := true } with
      attempts := facade.attempts.map (Phase.onReject channel) }
    if session.listening then reported.onSessionLost options listener else reported

/-- A channel shuts down: the open handshake's listener hears it, then the explorer. -/
def shutdown (channel : Nat) (facade : Facade ι) : Facade ι :=
  let session := facade.sessions channel
  if session.isOpen then
    let shut := { facade.setSession channel { session with isOpen := false } with
      attempts := facade.attempts.map (Phase.onClose channel) }
    if session.built then shut.handleChannelClose options listener channel else shut
  else facade

/-- The explorer of an adopted session gets the facade's listener. -/
def listen (channel : Nat) (facade : Facade ι) : Facade ι :=
  facade.setSession channel { facade.sessions channel with listening := true }

def adopt (channel : Nat) (workspaceInstanceId : ι) (facade : Facade ι) : Facade ι :=
  let taken := { facade with
    current := some channel
    workspaceInstanceId := some workspaceInstanceId
    attempt := 0
    adopted := facade.adopted ++ [workspaceInstanceId] }
  let told := match facade.workspaceInstanceId with
    | none => taken
    | some previous =>
      if previous = workspaceInstanceId then taken
      else { taken with
        identityResets := facade.identityResets ++ [(previous, workspaceInstanceId)] }.emit
          options listener .identityReset
  (told.listen channel).setState options listener .online

/-- The `catch` of `attemptConnect`. -/
def fail (code : RemoteExplorerErrorCode) (facade : Facade ι) : Facade ι :=
  if !(shouldRetry code options.retryServerShutdown).retry || !options.reconnect || facade.closed then
    { facade with terminalFailure := some code }.setState options listener .closed
  else scheduleRetry options (facade.setState options listener .stale)

/-- `attemptConnect`, up to its first `await`. -/
def attemptConnect (facade : Facade ι) : Facade ι :=
  if facade.closed then facade
  else
    let said := { facade with started := facade.started + 1 }.setState options listener
      (if facade.attempt = 0 then .connecting else .reconnecting)
    { said with attempts := said.attempts ++ [if said.aborted then .failed .offline else .dialing] }

def setPhase (index : Nat) (phase : Phase ι) (facade : Facade ι) : Facade ι :=
  { facade with attempts := facade.attempts.set index phase }

def dropAttempt (index : Nat) (facade : Facade ι) : Facade ι :=
  { facade with attempts := facade.attempts.eraseIdx index }

/-- `createFramedStreamClientChannel`. -/
def openChannel (facade : Facade ι) : Facade ι :=
  { facade.setSession facade.opened ⟨true, false, false, false, false⟩ with opened := facade.opened + 1 }

/-- The attempt's continuation runs, for a phase that has one waiting. -/
def resume (index : Nat) (facade : Facade ι) : Phase ι → Facade ι
  | .connected =>
    if facade.aborted then
      (facade.openChannel.setPhase index (.failed .offline)).shutdown options listener facade.opened
    else facade.openChannel.setPhase index (.opening facade.opened)
  | .accepted channel workspaceInstanceId =>
    -- The constructor's first frame cannot be sent over a closed channel.
    if (facade.sessions channel).isOpen then
      (facade.setSession channel (facade.sessions channel).explored).setPhase index
        (.handshaking channel workspaceInstanceId)
    else facade.setPhase index (.failed .transportError)
  | .ready channel workspaceInstanceId =>
    if facade.closed then (facade.dropAttempt index).shutdown options listener channel
    else (facade.dropAttempt index).adopt options listener channel workspaceInstanceId
  | .refused _ => (facade.dropAttempt index).fail options listener .transportError
  | .failed code => (facade.dropAttempt index).fail options listener code
  | _ => facade

/-- The open handshake ends badly: its listeners go first, then the channel. -/
def giveUp (index channel : Nat) (code : RemoteExplorerErrorCode) (facade : Facade ι) : Facade ι :=
  (facade.setPhase index (.failed code)).shutdown options listener channel

/-- What an attempt makes of an event that reaches it. -/
def deliver (index : Nat) (facade : Facade ι) : Event ι → Phase ι → Facade ι
  | .dialed _, .dialing => facade.setPhase index .connected
  | .dialFailed _, .dialing => facade.setPhase index (.failed .transportError)
  | .accepted _ workspaceInstanceId, .opening channel =>
    facade.setPhase index (.accepted channel workspaceInstanceId)
  | .rejected _ code, .opening channel =>
    facade.giveUp options listener index channel (rejectCodeToError code)
  | .openTimeout _, .opening channel => facade.giveUp options listener index channel .timeout
  | .snapshot _, .handshaking channel workspaceInstanceId =>
    facade.setPhase index (.ready channel workspaceInstanceId)
  | .errorFrame _, .handshaking channel _ => facade.setPhase index (.refused channel)
  | .resume _, phase => facade.resume options listener index phase
  | _, _ => facade

def fire (timer : Nat) (facade : Facade ι) : Facade ι :=
  if timer ∈ facade.timers then
    { facade with timers := facade.timers.erase timer }.attemptConnect options listener
  else facade

end Handlers

/-- `close` goes on after its `await`. -/
def finishClose (facade : Facade ι) : Facade ι :=
  if facade.closing = 0 then facade
  else { facade with closing := facade.closing - 1, state := .closed }

end Facade

/-- The attempt an event reaches. -/
def Event.index {ι : Type} : Event ι → Option Nat
  | .dialed index => some index
  | .dialFailed index => some index
  | .resume index => some index
  | .accepted index _ => some index
  | .rejected index _ => some index
  | .openTimeout index => some index
  | .snapshot index => some index
  | .errorFrame index => some index
  | _ => none

namespace Facade

variable {ι : Type} [DecidableEq ι]

/-- What the facade makes of an event. -/
def handle (options : ConnectMilleOptions) (facade : Facade ι) (turn : Turn ι) : Facade ι :=
  match turn.event with
  | .channelClosed channel => facade.shutdown options turn.listener channel
  | .timer timer => facade.fire options turn.listener timer
  | .close => facade.close
  | .disposed => facade.finishClose
  | .abort => facade.abort options
  | event =>
    match event.index.bind fun index => facade.attempts[index]?.map (index, ·) with
    | some (index, phase) => facade.deliver options turn.listener index event phase
    | none => facade

def blank (options : ConnectMilleOptions) : Facade ι where
  state := .connecting
  current := none
  workspaceInstanceId := none
  closed := false
  attempt := 0
  terminalFailure := none
  retryTimer := none
  timers := []
  timersSet := 0
  attempts := []
  started := 0
  aborted := options.signal.getD false
  closing := 0
  sessions := fun _ => ⟨false, false, false, false, false⟩
  opened := 0
  adopted := []
  identityResets := []

/-- `connectMille`, up to its first `await`: nobody listens yet. -/
def connectMille (options : ConnectMilleOptions) : Facade ι :=
  (blank options).attemptConnect options fun _ => .none

end Facade

end Mille.Mesh
