import Mathlib
import Mille.Lib.Run
import Mille.Remote.Session

/-! The life of a remote session over whole runs. As long as no channel closes under a host
that is just taking it and no `accepted` fails to be sent, a session is never revived, leaks
no attachment and leaves nobody waiting. -/

namespace Mille.Remote

open Mille.Stream

namespace Session

variable {options : SessionOptions} {session : Session}

/-- `accepted` went out. -/
def Accepted (session : Session) : Prop := ∃ message, Outbound.accepted message ∈ session.sent

/-- Someone who waits for `opened` gets a session. -/
def Resolved (session : Session) : Prop := ∃ info, session.opened = some (.ok info)

/-- A host attachment was called for, as the claim of one grant for the first open request. -/
def Warranted (options : SessionOptions) (session : Session) (attach : Attach) : Prop :=
  (∃ raw, session.firstOpen = some raw ∧ parseOpenRequest options.describe raw = .ok attach.request) ∧
    session.answer = some (.resolved (.grant attach.grant)) ∧ attach.opening = true ∧
    effectivePolicy attach.grant.policy attach.request.requestedAccess options.limits = .ok attach.policy

/-- What every turn keeps. -/
structure Sound (options : SessionOptions) (session : Session) : Prop where
  live : session.state ≠ .closed ↔ session.channelOpen = true
  subscribed : session.subscribed = true → session.state ≠ .closed
  opening : session.state = .opening → session.opened = none ∧ session.attachment = false ∧
    session.attachmentsMade = 0 ∧ session.attachmentsDisposed = 0
  isOpen : session.state = .opened → session.Resolved ∧ session.attachment = true ∧
    session.attachmentsMade = 1 ∧ session.attachmentsDisposed = 0 ∧ session.attaches ≠ []
  shut : session.state = .closed → session.opened ≠ none ∧ session.closed ≠ none ∧
    session.attachmentsDisposed = session.attachmentsMade
  resolved : session.Resolved ↔ session.Accepted
  unseen : session.openSeen = false → session.firstOpen = none ∧ session.authorizing = none ∧
    session.attaches = []
  awaiting : ∀ request, session.authorizing = some request →
    (∃ raw, session.firstOpen = some raw ∧ parseOpenRequest options.describe raw = .ok request) ∧
      session.attaches = []
  once : session.attaches.length ≤ 1
  warranted : ∀ attach ∈ session.attaches, Warranted options session attach
  frames : session.hostFrames ≠ [] → session.attaches ≠ []
  explorer : ∀ frame ∈ session.hostFrames, isRemoteServiceMessage frame = false

theorem initial_sound (now : Nat) : Sound options (initial options now) where
  live := by simp [initial]
  subscribed := by simp [initial]
  opening := by simp [initial]
  isOpen := by simp [initial]
  shut := by simp [initial]
  resolved := by simp [initial, Resolved, Accepted]
  unseen := by simp [initial]
  awaiting := by simp [initial]
  once := by simp [initial]
  warranted := by simp [initial]
  frames := by simp [initial]
  explorer := by simp [initial]

theorem Sound.unrelated (sound : Sound options session) (info : Option RemoteSessionInfo)
    (refusal : Option RemoteOpenError) (lastInboundMs : Nat) (openTimer heartbeat : Bool)
    (closing : List (Option CloseCode × String)) :
    Sound options { session with info, refusal, lastInboundMs, openTimer, heartbeat, closing } :=
  ⟨sound.live, sound.subscribed, sound.opening, sound.isOpen, sound.shut, sound.resolved, sound.unseen,
    sound.awaiting, sound.once, sound.warranted, sound.frames, sound.explorer⟩

/-- The channel may close between any two lines that leave the session sound. -/
theorem Sound.fire (sound : Sound options session) (event : Option CloseEvent) :
    Sound options (session.fire event) := by
  cases event with
  | none => exact sound
  | some event =>
    unfold Session.fire
    by_cases channelOpen : session.channelOpen = true
    · simp only [if_pos channelOpen]
      unfold teardown
      cases state : session.state with
      | closed => exact absurd state (sound.live.mpr channelOpen)
      | opening =>
        obtain ⟨unsettled, unattached, none_made, none_disposed⟩ := sound.opening state
        have unresolved : ¬ session.Resolved := by
          rintro ⟨info, settled⟩
          rw [unsettled] at settled
          cases settled
        simp only [rejectOpened, reduceCtorEq, if_false, unsettled, Option.none_or]
        refine ⟨by simp, by simp, by simp, by simp, ?_, ?_, sound.unseen, sound.awaiting, sound.once,
          sound.warranted, sound.frames, sound.explorer⟩
        · intro _
          refine ⟨by simp, ?_, ?_⟩
          · cases session.closed <;> simp
          · simp [unattached, none_made, none_disposed]
        · constructor
          · rintro ⟨info, settled⟩
            simp at settled
          · intro accepted
            exact absurd (sound.resolved.mpr accepted) unresolved
      | opened =>
        obtain ⟨resolved, attached, made, disposed, _⟩ := sound.isOpen state
        simp only [if_true]
        refine ⟨by simp, by simp, by simp, by simp, ?_, sound.resolved, sound.unseen, sound.awaiting,
          sound.once, sound.warranted, sound.frames, sound.explorer⟩
        intro _
        obtain ⟨info, settled⟩ := resolved
        refine ⟨by simp [settled], ?_, ?_⟩
        · cases session.closed <;> simp
        · simp [attached, made, disposed]
    · simp only [if_neg channelOpen]
      exact sound

theorem Sound.send (sound : Sound options session) {message : Outbound}
    (other : ∀ accepted, message ≠ .accepted accepted) (outcome : SendOutcome) :
    Sound options (session.send message outcome).1 := by
  apply Sound.fire
  split
  · exact sound
  · refine ⟨sound.live, sound.subscribed, sound.opening, sound.isOpen, sound.shut, ?_, sound.unseen,
      sound.awaiting, sound.once, sound.warranted, sound.frames, sound.explorer⟩
    refine sound.resolved.trans ?_
    constructor
    · rintro ⟨accepted, sent⟩
      exact ⟨accepted, List.mem_append_left _ sent⟩
    · rintro ⟨accepted, sent⟩
      rcases List.mem_append.mp sent with before | now
      · exact ⟨accepted, before⟩
      · exact absurd (List.mem_singleton.mp now).symm (other accepted)

theorem Sound.askClose (sound : Sound options session) (code : Option CloseCode) (reason : String)
    (closes : Option CloseEvent) : Sound options (session.askClose code reason closes) := by
  apply Sound.fire
  exact sound.unrelated _ _ _ _ _ _

theorem Sound.refuse (sound : Sound options session) (code : RejectCode) (reason : String)
    (requestId : Option String) (outcome : SendOutcome) (closes : Option CloseEvent) :
    Sound options (session.refuse options code reason requestId outcome closes) := by
  unfold Session.refuse
  split
  · apply Sound.askClose
    apply Sound.send
    · exact sound.unrelated _ _ _ _ _ _
    · simp
  · exact sound

theorem Sound.startOpen (sound : Sound options session) (unseen : session.openSeen = false)
    (raw : Value) (turn : Turn) :
    Sound options
      (({ session with openSeen := true, firstOpen := some raw } : Session).startOpen options raw turn) := by
  obtain ⟨_, none_awaited, none_attached⟩ := sound.unseen unseen
  have seen : Sound options { session with openSeen := true, firstOpen := some raw } := by
    refine ⟨sound.live, sound.subscribed, sound.opening, sound.isOpen, sound.shut, sound.resolved,
      by simp, ?_, sound.once, ?_, sound.frames, sound.explorer⟩
    · intro request awaited
      rw [none_awaited] at awaited
      cases awaited
    · intro attach member
      rw [none_attached] at member
      cases member
  unfold Session.startOpen
  cases parsed : parseOpenRequest options.describe raw with
  | error problem => exact seen.refuse _ _ _ _ _
  | ok request =>
    refine ⟨seen.live, seen.subscribed, seen.opening, seen.isOpen, seen.shut, seen.resolved, by simp,
      ?_, seen.once, seen.warranted, seen.frames, seen.explorer⟩
    rintro _ ⟨⟩
    exact ⟨⟨raw, rfl, parsed⟩, none_attached⟩

theorem Sound.handleService (sound : Sound options session) (message : Value) (turn : Turn) :
    Sound options (session.handleService options message turn) := by
  unfold Session.handleService
  split
  · apply sound.send
    simp
  · split
    · exact sound
    · next unseen =>
      apply sound.startOpen
      simpa using unseen
  · exact sound

theorem Sound.onMessage (sound : Sound options session) (message : Value) (turn : Turn) :
    Sound options (session.onMessage options message turn) := by
  have heard : Sound options { session with lastInboundMs := turn.now } := sound.unrelated _ _ _ _ _ _
  unfold Session.onMessage
  split
  · simp only
    split
    · exact heard.handleService message turn
    · next foreign =>
      split
      · exact heard.askClose _ _ _
      · next isOpen =>
        have attached := (sound.isOpen (by simpa using isOpen)).2.2.2.2
        refine ⟨sound.live, sound.subscribed, sound.opening, sound.isOpen, sound.shut, sound.resolved,
          sound.unseen, sound.awaiting, sound.once, sound.warranted, fun _ => attached, ?_⟩
        intro frame member
        rcases List.mem_append.mp member with before | now
        · exact sound.explorer frame before
        · rw [List.mem_singleton.mp now]
          simpa using foreign
  · exact sound

theorem Sound.onOpenTimeout (sound : Sound options session) (turn : Turn) :
    Sound options (session.onOpenTimeout options turn) := by
  unfold Session.onOpenTimeout
  split
  · simp only
    split
    · exact sound.unrelated _ _ _ _ _ _
    · apply Sound.askClose
      exact sound.unrelated _ _ _ _ _ _
  · exact sound

theorem Sound.onHeartbeat (sound : Sound options session) (turn : Turn) :
    Sound options (session.onHeartbeat options turn) := by
  unfold Session.onHeartbeat
  split
  · simp only
    split
    · exact sound.askClose _ _ _
    · split
      · apply sound.send
        simp
      · exact sound
  · exact sound

theorem Sound.called (sound : Sound options session) {request : OpenWorkspaceRequest}
    {grant : RemoteSessionGrant} {policy : SessionPolicy} (opening : session.state = .opening)
    (first : session.attaches = []) (unawaited : session.authorizing = none)
    (warrant : Warranted options session ⟨request, grant, policy, true⟩) :
    Sound options { session with
      attaches := session.attaches ++ [⟨request, grant, policy, session.state = .opening⟩] } := by
  refine ⟨sound.live, sound.subscribed, sound.opening, ?_, sound.shut, sound.resolved, ?_, ?_, ?_, ?_,
    ?_, sound.explorer⟩
  · intro isOpen
    simp only [opening, reduceCtorEq] at isOpen
  · intro unseen
    obtain ⟨raw, seen, _⟩ := warrant.1
    rw [(sound.unseen unseen).1] at seen
    cases seen
  · intro request awaited
    rw [unawaited] at awaited
    cases awaited
  · simp [first]
  · intro attach member
    rw [first, List.nil_append, List.mem_singleton] at member
    rw [member]
    simpa [Warranted, opening] using warrant
  · simp

/-- The lines behind the attach, when nothing closed under it and `accepted` is sent. The
channel may still close inside that send. -/
theorem Sound.accept (sound : Sound options session) {request : OpenWorkspaceRequest}
    {grant : RemoteSessionGrant} {policy : SessionPolicy} {turn : Turn} (opening : session.state = .opening)
    (attached : session.attaches ≠ []) (sent : turn.accept.throws = false) :
    Sound options (({ session with attachmentsMade := session.attachmentsMade + 1 } : Session).accept
      options request grant policy turn) := by
  obtain ⟨unsettled, _, none_made, none_disposed⟩ := sound.opening opening
  have channelOpen : session.channelOpen = true := sound.live.mp (by simp [opening])
  unfold Session.accept Session.send
  simp only [sent, Bool.false_eq_true, if_false]
  cases turn.accept.closes with
  | none =>
    simp only [Session.fire, resolveOpened, unsettled, Option.none_or]
    refine ⟨by simp [channelOpen], by simp, by simp, ?_, by simp, ?_, sound.unseen, sound.awaiting,
      sound.once, sound.warranted, sound.frames, sound.explorer⟩
    · intro _
      exact ⟨⟨_, rfl⟩, rfl, by simp [none_made], none_disposed, attached⟩
    · constructor
      · intro _
        exact ⟨_, List.mem_append_right _ (List.mem_singleton.mpr rfl)⟩
      · intro _
        exact ⟨_, rfl⟩
  | some event =>
    simp only [Session.fire, channelOpen, if_true, teardown, resolveOpened, unsettled, Option.none_or]
    refine ⟨by simp, by simp, by simp, by simp, ?_, ?_, sound.unseen, sound.awaiting,
      sound.once, sound.warranted, sound.frames, sound.explorer⟩
    · intro _
      refine ⟨by simp, ?_, by simp [none_made, none_disposed]⟩
      cases session.closed <;> simp
    · constructor
      · intro _
        exact ⟨_, List.mem_append_right _ (List.mem_singleton.mpr rfl)⟩
      · intro _
        exact ⟨_, rfl⟩

/-- The turn lets a host that takes the channel have it: nothing closes under the attach,
and `accepted` is sent. -/
def Orderly (_ : Session) (event : SessionEvent × Turn) : Prop :=
  match event.1 with
  | .authorized _ => event.2.attach.throws = none →
      event.2.attach.closes = none ∧ event.2.accept.throws = false
  | _ => True

theorem Sound.authorized (sound : Sound options session) {answer : Answer} {turn : Turn}
    (orderly : turn.attach.throws = none → turn.attach.closes = none ∧ turn.accept.throws = false) :
    Sound options (session.authorized options answer turn) := by
  unfold Session.authorized
  cases awaited : session.authorizing with
  | none => exact sound
  | some request =>
    obtain ⟨asked, first⟩ := sound.awaiting request awaited
    have resumed : Sound options { session with authorizing := none, answer := some answer } := by
      refine ⟨sound.live, sound.subscribed, sound.opening, sound.isOpen, sound.shut, sound.resolved, ?_,
        by simp, sound.once, ?_, sound.frames, sound.explorer⟩
      · intro unseen
        exact ⟨(sound.unseen unseen).1, rfl, (sound.unseen unseen).2.2⟩
      · intro attach member
        rw [first] at member
        cases member
    simp only
    cases answer with
    | rejected detail => exact resumed.refuse _ _ _ _ _
    | resolved verdict =>
      simp only
      split
      · exact resumed
      · next stillOpening =>
        have opening : session.state = .opening := by simpa using stillOpening
        cases verdict with
        | refusal code reason => exact resumed.refuse _ _ _ _ _
        | denied => exact resumed.refuse _ _ _ _ _
        | grant grant =>
          simp only
          cases effective : effectivePolicy grant.policy request.requestedAccess options.limits with
          | error reason => exact resumed.refuse _ _ _ _ _
          | ok policy =>
            have called := @Sound.called options _ resumed request grant policy opening first rfl
              ⟨asked, rfl, rfl, effective⟩
            simp only [Session.attachChannel]
            cases throws : turn.attach.throws with
            | some detail =>
              apply Sound.refuse
              exact called.fire _
            | none =>
              obtain ⟨undisturbed, sent⟩ := orderly throws
              rw [undisturbed]
              exact called.accept opening (by simp) sent

theorem Sound.step (sound : Sound options session) {event : SessionEvent × Turn}
    (orderly : Orderly session event) : Sound options (session.step options event) := by
  obtain ⟨happening, turn⟩ := event
  cases happening with
  | message message => exact sound.onMessage message turn
  | authorized answer => exact sound.authorized orderly
  | openTimeout => exact sound.onOpenTimeout turn
  | heartbeat => exact sound.onHeartbeat turn
  | close reason => exact sound.askClose _ _ _
  | channelClosed close => exact sound.fire (some close)

section Closed

theorem fire_closed (closed : session.state = .closed) (event : Option CloseEvent) :
    (session.fire event).state = .closed := by
  cases event with
  | none => exact closed
  | some event =>
    by_cases channelOpen : session.channelOpen = true
    · simp only [fire, if_pos channelOpen, teardown, closed]
    · simp only [fire, if_neg channelOpen, closed]

theorem send_closed (closed : session.state = .closed) (message : Outbound) (outcome : SendOutcome) :
    (session.send message outcome).1.state = .closed := by
  unfold send
  apply fire_closed
  split
  · exact closed
  · exact closed

theorem askClose_closed (closed : session.state = .closed) (code : Option CloseCode) (reason : String)
    (closes : Option CloseEvent) : (session.askClose code reason closes).state = .closed := by
  apply fire_closed
  exact closed

theorem refuse_closed (closed : session.state = .closed) (code : RejectCode) (reason : String)
    (requestId : Option String) (outcome : SendOutcome) (closes : Option CloseEvent) :
    (session.refuse options code reason requestId outcome closes).state = .closed := by
  simp only [refuse, closed]

theorem handleService_closed (closed : session.state = .closed) (message : Value) (turn : Turn) :
    (session.handleService options message turn).state = .closed := by
  unfold handleService
  split
  · exact send_closed closed _ _
  · split
    · exact closed
    · unfold startOpen
      split
      · apply refuse_closed
        exact closed
      · exact closed
  · exact closed

theorem authorized_closed (closed : session.state = .closed) (answer : Answer) (turn : Turn) :
    (session.authorized options answer turn).state = .closed := by
  unfold authorized
  split
  · exact closed
  · simp only
    split
    · apply refuse_closed
      exact closed
    · rw [if_pos (by simp [closed])]
      exact closed

theorem step_closed (closed : session.state = .closed) (event : SessionEvent × Turn) :
    (session.step options event).state = .closed := by
  obtain ⟨happening, turn⟩ := event
  cases happening with
  | message message =>
    simp only [step, onMessage]
    split
    · split
      · exact @handleService_closed options { session with lastInboundMs := turn.now } closed message turn
      · rw [if_pos (by simp [closed])]
        exact @askClose_closed { session with lastInboundMs := turn.now } closed _ _ _
    · exact closed
  | authorized answer => exact authorized_closed closed answer turn
  | openTimeout =>
    simp only [step, onOpenTimeout]
    split
    · rw [if_pos (by simp [closed])]
      exact closed
    · exact closed
  | heartbeat =>
    simp only [step, onHeartbeat, closed, reduceCtorEq, and_false, if_false]
  | close reason => exact askClose_closed closed _ _ _
  | channelClosed close => exact fire_closed closed (some close)

end Closed

/-- What a session promises of itself in any state it reaches. -/
structure Lifecycle (options : SessionOptions) (session : Session) : Prop where
  /-- The host is called at most once, for the grant the first open request got, while the
  session is opening. -/
  once : session.attaches.length ≤ 1
  warranted : ∀ attach ∈ session.attaches, Warranted options session attach
  /-- The policy passed is within the grant, read-only when that was asked, and its file cap
  leaves a frame its headroom. -/
  within : ∀ attach ∈ session.attaches, attach.policy.Within attach.grant.policy
  readOnly : ∀ attach ∈ session.attaches, attach.request.requestedAccess = .readOnly →
    attach.policy.access = .readOnly
  fits : ∀ attach ∈ session.attaches, ∃ cap, attach.policy.maxFileBytes = some cap ∧
    (cap + fileFrameHeadroomBytes ≤ options.limits.maxFrameBytes ∨ cap ≤ 1)
  /-- No frame reaches a host before it is called, and no service frame ever does. -/
  frames : session.hostFrames ≠ [] → session.attaches ≠ []
  explorer : ∀ frame ∈ session.hostFrames, isRemoteServiceMessage frame = false
  /-- Once the channel has closed both promises are settled and no attachment is left. -/
  settled : session.channelOpen = false → session.opened ≠ none ∧ session.closed ≠ none
  resolved : session.Resolved ↔ session.Accepted
  disposed : session.channelOpen = false → session.attachmentsDisposed = session.attachmentsMade

theorem Sound.lifecycle (sound : Sound options session) : Lifecycle options session := by
  have ended : session.channelOpen = false → session.state = .closed := by
    intro shut
    by_contra living
    rw [sound.live.mp living] at shut
    cases shut
  refine ⟨sound.once, sound.warranted, ?_, ?_, ?_, sound.frames, sound.explorer, ?_, sound.resolved, ?_⟩
  · intro attach member
    exact effectivePolicy_within (sound.warranted attach member).2.2.2
  · intro attach member
    exact effectivePolicy_readOnly (sound.warranted attach member).2.2.2
  · intro attach member
    exact effectivePolicy_fits (sound.warranted attach member).2.2.2
  · intro shut
    exact ⟨(sound.shut (ended shut)).1, (sound.shut (ended shut)).2.1⟩
  · intro shut
    exact (sound.shut (ended shut)).2.2

/-- Every state of every orderly run keeps the promises of the session, and a closed session
stays closed. -/
theorem session_lifecycle {now : Nat}
    (run : Run (step options) Orderly (initial options now) session) :
    Lifecycle options session ∧
      (session.state = .closed → ∀ later, Run (step options) Orderly session later →
        later.state = .closed) := by
  constructor
  · apply Sound.lifecycle
    apply run.invariant (Sound options) (initial_sound now)
    intro state event sound orderly
    exact sound.step orderly
  · intro closed later onward
    apply onward.invariant (fun state => state.state = .closed) closed
    intro state event closed _
    exact step_closed closed event

end Session

section Samples

def sampleOptions : SessionOptions where
  openTimeoutMs := 10000
  heartbeatMs := 20000
  idleTimeoutMs := 60000
  diagnosticDisclosure := false
  limits := ⟨4194304, 32, 33554432, 8388608, 33554432⟩
  describe _ := "?"

/-- An open request for writes. -/
def sampleOpen : Value := .object [("service", .string "mille.remote"), ("version", .number (.finite 1)),
  ("type", .string "open"), ("requestId", .string "r"), ("exportId", .string "docs"),
  ("requestedAccess", .string "read-write"),
  ("client", .object [("instanceId", .string "c"), ("milleVersion", .string "1")])]

def sampleGrant : RemoteSessionGrant where
  host := ⟨"w", 1⟩
  policy := ⟨.readWrite, none, fun _ => none, none⟩
  label := none
  rootCount := none
  peerId := none
  peerName := none
  workspaceInstanceId := none

/-- A turn in which nothing throws and nothing closes. -/
def calm : Session.Turn := ⟨5, "s", ⟨false, none⟩, none, ⟨none, none⟩, ⟨false, none⟩⟩

def lost : CloseEvent := ⟨.remoteClose, none⟩

def sampleEvents (turn : Session.Turn) : List (SessionEvent × Session.Turn) :=
  [(.message sampleOpen, calm), (.authorized (.resolved (.grant sampleGrant)), turn),
    (.message .null, calm), (.channelClosed lost, calm)]

def sampleRun (turn : Session.Turn) : Session :=
  (sampleEvents turn).foldl (Session.step sampleOptions) (Session.initial sampleOptions 0)

theorem session_lifecycle_sample :
    Session.Lifecycle sampleOptions (sampleRun calm) ∧ (sampleRun calm).attachmentsMade = 1 ∧
      (sampleRun calm).hostFrames.length = 1 ∧ (sampleRun calm).state = .closed := by
  refine ⟨(Session.session_lifecycle (Run.of_list (sampleEvents calm) ?_)).1, rfl, rfl, rfl⟩
  exact ⟨trivial, fun _ => ⟨rfl, rfl⟩, trivial, trivial, trivial⟩

/-- A channel that closes under the attach revives the session and leaks the attachment; an
`accepted` that cannot be sent leaves `opened` waiting for ever. -/
theorem session_lifecycle_fails :
    ((sampleRun { calm with attach := ⟨none, some lost⟩, accept := ⟨true, none⟩ }).state = .opened ∧
      (sampleRun { calm with attach := ⟨none, some lost⟩, accept := ⟨true, none⟩ }).closed = some lost ∧
      (sampleRun { calm with attach := ⟨none, some lost⟩, accept := ⟨true, none⟩ }).channelOpen = false ∧
      (sampleRun { calm with attach := ⟨none, some lost⟩, accept := ⟨true, none⟩ }).attachmentsMade = 1 ∧
      (sampleRun { calm with attach := ⟨none, some lost⟩, accept := ⟨true, none⟩ }).attachmentsDisposed = 0) ∧
    (sampleRun { calm with accept := ⟨true, none⟩ }).channelOpen = false ∧
      (sampleRun { calm with accept := ⟨true, none⟩ }).opened.isNone = true :=
  ⟨⟨rfl, rfl, rfl, rfl, rfl⟩, rfl, rfl⟩

end Samples

end Mille.Remote
