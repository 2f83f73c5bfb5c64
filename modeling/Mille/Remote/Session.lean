import Mathlib
import Mille.Remote.Protocol

/-! One remote session on a host channel, as a state machine. A step is one uninterrupted
turn of the source: a frame arrives, the authorize hook answers, a timer fires, somebody
closes. What the channel and the host do inside a turn (throw, close) comes with the event. -/

namespace Mille.Remote

open Mille.Stream

inductive CloseCode where
  | localClose
  | remoteClose
  | transportError
  | protocolError
  | backpressure
  | authRejected
deriving DecidableEq

def CloseCode.text : CloseCode → String
  | .localClose => "LOCAL_CLOSE"
  | .remoteClose => "REMOTE_CLOSE"
  | .transportError => "TRANSPORT_ERROR"
  | .protocolError => "PROTOCOL_ERROR"
  | .backpressure => "BACKPRESSURE"
  | .authRejected => "AUTH_REJECTED"

structure CloseEvent where
  code : CloseCode
  reason : Option String
deriving DecidableEq

def RejectCode.text : RejectCode → String
  | .accessDenied => "ACCESS_DENIED"
  | .limitExceeded => "LIMIT_EXCEEDED"
  | .serverShuttingDown => "SERVER_SHUTTING_DOWN"
  | .invalidRequest => "INVALID_REQUEST"
  | .versionUnsupported => "VERSION_UNSUPPORTED"

inductive OpenErrorCode where
  | rejected (code : RejectCode)
  | timeout
  | closed
deriving DecidableEq

structure RemoteOpenError where
  code : OpenErrorCode
  message : String
deriving DecidableEq

/-- What a session attaches to. -/
structure RemoteSessionHost where
  /-- The id minted once for this host object. -/
  workspaceInstanceId : String
  rootCount : Nat

structure RemoteSessionGrant where
  host : RemoteSessionHost
  policy : SessionPolicy
  label : Option String
  rootCount : Option Nat
  peerId : Option String
  peerName : Option String
  workspaceInstanceId : Option String

/-- What the authorize hook resolves to; anything that is neither a grant nor a refusal
denies. -/
inductive RemoteAuthorizeResult where
  | grant (grant : RemoteSessionGrant)
  | refusal (refuse : RejectCode) (reason : Option String)
  | denied

/-- The settled promise of the authorize hook. -/
inductive Answer where
  | resolved (verdict : RemoteAuthorizeResult)
  | rejected (detail : String)

structure SessionOptions where
  openTimeoutMs : Nat
  heartbeatMs : Nat
  idleTimeoutMs : Nat
  diagnosticDisclosure : Bool
  limits : FramedStreamLimits
  /-- `String(value)`. -/
  describe : Value → String

structure RemoteSessionInfo where
  sessionId : String
  exportId : String
  access : SessionAccess
  workspaceInstanceId : String
  clientInstanceId : String
  peerId : Option String
  peerName : Option String
  openedAtMs : Nat

structure OpenWorkspaceLimits where
  maxMetadataBytes : Nat
  maxAttachments : Nat
  maxFrameBytes : Nat
  maxFileBytes : Nat
  heartbeatMs : Nat
  idleTimeoutMs : Nat
  maxViewportRows : Option Nat

structure OpenWorkspaceAccepted where
  requestId : String
  sessionId : String
  workspaceInstanceId : String
  exportId : String
  label : String
  access : RemoteAccess
  rootCount : Nat
  limits : OpenWorkspaceLimits

inductive Outbound where
  | accepted (message : OpenWorkspaceAccepted)
  | rejected (requestId : Option String) (code : RejectCode) (message : String)
  | ping (nonce : String) (sentAtMs : Nat)
  | pong (nonce sentAtMs : Value)

/-- What one `send` does: whether it throws, and the close it sets off before it returns. -/
structure SendOutcome where
  throws : Bool
  closes : Option CloseEvent

/-- What one `attachChannel` does. -/
structure AttachOutcome where
  throws : Option String
  closes : Option CloseEvent

/-- The context a host was attached under, and whether the session was still opening. -/
structure Attach where
  request : OpenWorkspaceRequest
  grant : RemoteSessionGrant
  policy : SessionPolicy
  opening : Bool

inductive SessionState where
  | opening
  | opened
  | closed
deriving DecidableEq

structure Session where
  state : SessionState
  info : Option RemoteSessionInfo
  /-- The host attachment the session knows of. -/
  attachment : Bool
  openSeen : Bool
  refusal : Option RemoteOpenError
  lastInboundMs : Nat
  /-- How the promise `opened` settled. -/
  opened : Option (Except RemoteOpenError RemoteSessionInfo)
  /-- How the promise `closed` settled. -/
  closed : Option CloseEvent
  openTimer : Bool
  heartbeat : Bool
  subscribed : Bool
  /-- The request whose authorization is awaited. -/
  authorizing : Option OpenWorkspaceRequest
  /-- The channel has not emitted its close event. -/
  channelOpen : Bool
  /-- Messages the channel took. -/
  sent : List Outbound
  /-- Close requests made, with the code where one was named. -/
  closing : List (Option CloseCode × String)
  /-- The first open request that arrived, and what authorize answered to it. -/
  firstOpen : Option Value
  answer : Option Answer
  attaches : List Attach
  attachmentsMade : Nat
  attachmentsDisposed : Nat
  hostFrames : List Value

namespace Session

/-- A session just served. -/
def initial (options : SessionOptions) (now : Nat) : Session where
  state := .opening
  info := none
  attachment := false
  openSeen := false
  refusal := none
  lastInboundMs := now
  opened := none
  closed := none
  openTimer := true
  heartbeat := 0 < options.heartbeatMs
  subscribed := true
  authorizing := none
  channelOpen := true
  sent := []
  closing := []
  firstOpen := none
  answer := none
  attaches := []
  attachmentsMade := 0
  attachmentsDisposed := 0
  hostFrames := []

/-- A promise settles once. -/
def rejectOpened (session : Session) (error : RemoteOpenError) : Session :=
  { session with opened := session.opened.or (some (.error error)) }

def resolveOpened (session : Session) (info : RemoteSessionInfo) : Session :=
  { session with opened := session.opened.or (some (.ok info)) }

def teardown (session : Session) (event : CloseEvent) : Session :=
  match session.state with
  | .closed => session
  | state =>
    let torn : Session := { session with
      state := .closed
      openTimer := false
      heartbeat := false
      subscribed := false
      attachmentsDisposed := session.attachmentsDisposed + if session.attachment then 1 else 0
      closed := session.closed.or (some event) }
    if state = .opened then torn
    else torn.rejectOpened (session.refusal.getD
      ⟨.closed, "channel closed before the session opened: " ++ event.code.text⟩)

/-- The channel emits its close event, if it does and has not before. -/
def fire (session : Session) : Option CloseEvent → Session
  | none => session
  | some event =>
    if session.channelOpen then ({ session with channelOpen := false } : Session).teardown event
    else session

/-- `channel.send`; the flag says that it threw. -/
def send (session : Session) (message : Outbound) (outcome : SendOutcome) : Session × Bool :=
  let noted : Session := if outcome.throws then session else { session with sent := session.sent ++ [message] }
  (noted.fire outcome.closes, outcome.throws)

/-- `channel.close` or `closeAs`; the close event may come now or later. -/
def askClose (session : Session) (code : Option CloseCode) (reason : String)
    (now : Option CloseEvent) : Session :=
  ({ session with closing := session.closing ++ [(code, reason)] } : Session).fire now

def genericMessage : RejectCode → String
  | .accessDenied => "access denied"
  | .limitExceeded => "session limit reached"
  | .serverShuttingDown => "server is shutting down"
  | .invalidRequest => "invalid open request"
  | .versionUnsupported => "service version not supported"

def closeCode : RejectCode → CloseCode
  | .accessDenied => .authRejected
  | .invalidRequest | .versionUnsupported => .protocolError
  | .limitExceeded | .serverShuttingDown => .localClose

def refuse (options : SessionOptions) (session : Session) (code : RejectCode) (internalReason : String)
    (requestId : Option String) (outcome : SendOutcome) (closes : Option CloseEvent) : Session :=
  match session.state with
  | .opening =>
    let message := if options.diagnosticDisclosure then internalReason else genericMessage code
    let refused : Session := { session with refusal := some ⟨.rejected code, message⟩ }
    ((refused.send (.rejected requestId code message) outcome).1).askClose (some (closeCode code))
      ("rejected: " ++ code.text) closes
  | _ => session

/-- Removes every occurrence of the credential from a text bound for a log. -/
def scrub (text : String) : Option String → String
  | none => text
  | some credential => if credential = "" then text else text.replace credential "[credential]"

/-- What the embedder, the host and the channel do inside one turn. -/
structure Turn where
  now : Nat
  /-- A fresh random id. -/
  randomId : String
  /-- The `send` of a pong, a ping or a rejection. -/
  send : SendOutcome
  /-- The close event a close request sets off before it returns. -/
  closes : Option CloseEvent
  attach : AttachOutcome
  /-- The `send` of `accepted`. -/
  accept : SendOutcome

/-- `open` up to where it awaits the authorize hook. -/
def startOpen (options : SessionOptions) (session : Session) (raw : Value) (turn : Turn) : Session :=
  match parseOpenRequest options.describe raw with
  | .error problem => session.refuse options problem.code problem.message none turn.send turn.closes
  | .ok request => { session with authorizing := some request }

def handleService (options : SessionOptions) (session : Session) (message : Value) (turn : Turn) : Session :=
  match field message "type" with
  | .string "ping" =>
    (session.send (.pong (field message "nonce") (field message "sentAtMs")) turn.send).1
  | .string "open" =>
    if session.openSeen then session
    else startOpen options { session with openSeen := true, firstOpen := some message } message turn
  | _ => session

/-- A frame arrives. -/
def onMessage (options : SessionOptions) (session : Session) (message : Value) (turn : Turn) : Session :=
  if session.subscribed then
    let heard : Session := { session with lastInboundMs := turn.now }
    if isRemoteServiceMessage message then heard.handleService options message turn
    else if heard.state ≠ .opened then
      heard.askClose (some .protocolError) "explorer frame before the session was accepted" turn.closes
    else { heard with hostFrames := heard.hostFrames ++ [message] }
  else session

/-- The `accepted` message of a session. -/
def acceptance (options : SessionOptions) (request : OpenWorkspaceRequest) (grant : RemoteSessionGrant)
    (policy : SessionPolicy) (sessionId : String) : OpenWorkspaceAccepted where
  requestId := request.requestId
  sessionId
  workspaceInstanceId := grant.workspaceInstanceId.getD grant.host.workspaceInstanceId
  exportId := request.exportId
  label := grant.label.getD request.exportId
  access := reportedAccess policy.access
  rootCount := grant.rootCount.getD grant.host.rootCount
  limits := {
    maxMetadataBytes := options.limits.maxMetadataBytes
    maxAttachments := options.limits.maxAttachments
    maxFrameBytes := options.limits.maxFrameBytes
    maxFileBytes := policy.maxFileBytes.getD defaultRemoteMaxFileBytes
    heartbeatMs := options.heartbeatMs
    idleTimeoutMs := options.idleTimeoutMs
    maxViewportRows := viewportRowCap policy }

def sessionInfo (request : OpenWorkspaceRequest) (grant : RemoteSessionGrant) (policy : SessionPolicy)
    (turn : Turn) : RemoteSessionInfo where
  sessionId := turn.randomId
  exportId := request.exportId
  access := policy.access
  workspaceInstanceId := grant.workspaceInstanceId.getD grant.host.workspaceInstanceId
  clientInstanceId := request.client.instanceId
  peerId := grant.peerId
  peerName := grant.peerName
  openedAtMs := turn.now

/-- The lines behind a host that took the channel. -/
def accept (options : SessionOptions) (session : Session) (request : OpenWorkspaceRequest)
    (grant : RemoteSessionGrant) (policy : SessionPolicy) (turn : Turn) : Session :=
  let info := sessionInfo request grant policy turn
  let attached : Session := { session with
    attachment := true
    state := .opened
    openTimer := false
    info := some info }
  match attached.send (.accepted (acceptance options request grant policy turn.randomId)) turn.accept with
  | (after, true) => after
  | (after, false) => after.resolveOpened info

/-- The host is told of the connection, and only here. -/
def attachChannel (options : SessionOptions) (session : Session) (request : OpenWorkspaceRequest)
    (grant : RemoteSessionGrant) (policy : SessionPolicy) (turn : Turn) : Session :=
  let called : Session := { session with
    attaches := session.attaches ++ [⟨request, grant, policy, session.state = .opening⟩] }
  match turn.attach.throws with
  | some detail =>
    (called.fire turn.attach.closes).refuse options .serverShuttingDown
      ("host refused the attach: " ++ detail) (some request.requestId) turn.send turn.closes
  | none =>
    (({ called with attachmentsMade := called.attachmentsMade + 1 } : Session).fire
      turn.attach.closes).accept options request grant policy turn

/-- `open` from where the authorize hook answered. -/
def authorized (options : SessionOptions) (session : Session) (answer : Answer) (turn : Turn) : Session :=
  match session.authorizing with
  | none => session
  | some request =>
    let resumed : Session := { session with authorizing := none, answer := some answer }
    match answer with
    | .rejected detail =>
      resumed.refuse options .accessDenied (scrub ("authorize threw: " ++ detail) request.credential)
        (some request.requestId) turn.send turn.closes
    | .resolved verdict =>
      if resumed.state ≠ .opening then resumed
      else
        match verdict with
        | .refusal code reason =>
          resumed.refuse options code (scrub (reason.getD code.text) request.credential)
            (some request.requestId) turn.send turn.closes
        | .denied =>
          resumed.refuse options .accessDenied "authorize denied the open" (some request.requestId)
            turn.send turn.closes
        | .grant grant =>
          match effectivePolicy grant.policy request.requestedAccess options.limits with
          | .error reason =>
            resumed.refuse options .accessDenied reason (some request.requestId) turn.send turn.closes
          | .ok policy => resumed.attachChannel options request grant policy turn

def onOpenTimeout (options : SessionOptions) (session : Session) (turn : Turn) : Session :=
  if session.openTimer then
    let fired : Session := { session with openTimer := false }
    if fired.state ≠ .opening then fired
    else
      ({ fired with refusal := some ⟨.timeout, "no session within " ++
        toString options.openTimeoutMs ++ "ms"⟩ } : Session).askClose none "open timeout" turn.closes
  else session

def onHeartbeat (options : SessionOptions) (session : Session) (turn : Turn) : Session :=
  if session.heartbeat ∧ session.state = .opened then
    let idleFor := turn.now - session.lastInboundMs
    if idleFor ≥ options.idleTimeoutMs then session.askClose none "idle timeout" turn.closes
    else if idleFor ≥ options.heartbeatMs then (session.send (.ping turn.randomId turn.now) turn.send).1
    else session
  else session

end Session

/-- What happens to a session. -/
inductive SessionEvent where
  | message (message : Value)
  | authorized (answer : Answer)
  | openTimeout
  | heartbeat
  | close (reason : Option String)
  | channelClosed (event : CloseEvent)

namespace Session

def step (options : SessionOptions) (session : Session) (event : SessionEvent × Turn) : Session :=
  match event.1 with
  | .message message => session.onMessage options message event.2
  | .authorized answer => session.authorized options answer event.2
  | .openTimeout => session.onOpenTimeout options event.2
  | .heartbeat => session.onHeartbeat options event.2
  | .close reason => session.askClose none (reason.getD "closed by server") event.2.closes
  | .channelClosed close => session.fire (some close)

end Session

end Mille.Remote
