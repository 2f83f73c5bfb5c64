import Mathlib
import Mille.Lib.Run
import Mille.Mesh.Facade

/-! Runs of the facade. What it has under way is one thing at a time: nothing, a retry
timer, an attempt, or an adopted session. -/

namespace Mille.Mesh

variable {ι : Type} [DecidableEq ι] {options : ConnectMilleOptions} {listener : Emission → Reaction}

/-- What the facade has under way. -/
inductive Under (ι : Type) where
  | idle
  | waiting (timer : Nat)
  | trying (phase : Phase ι)
  | adopted (channel : Nat)

/-- A channel without an explorer. -/
structure Session.Fresh (session : Session) : Prop where
  unbuilt : session.built = false
  undisposed : session.disposed = false
  unreported : session.closeReported = false
  silent : session.listening = false

/-- An explorer that still hears its channel. -/
structure Session.Live (session : Session) : Prop where
  isOpen : session.isOpen = true
  built : session.built = true
  undisposed : session.disposed = false
  unreported : session.closeReported = false

namespace Phase

/-- What holds of the channel of an attempt. -/
def Fits (sessions : Nat → Session) : Phase ι → Prop
  | opening channel => (sessions channel).isOpen = true ∧ (sessions channel).Fresh
  | accepted channel _ => (sessions channel).Fresh
  | handshaking channel _ => (sessions channel).Live ∧ (sessions channel).listening = false
  | ready channel _ => ((sessions channel).isOpen = true → (sessions channel).Live) ∧
      (sessions channel).listening = false
  | refused channel => (sessions channel).listening = false
  | _ => True

end Phase

namespace Under

def attempts : Under ι → List (Phase ι)
  | trying phase => [phase]
  | _ => []

def timers : Under ι → List Nat
  | waiting timer => [timer]
  | _ => []

def current : Under ι → Option Nat
  | adopted channel => some channel
  | _ => none

/-- The channel that may be open. -/
def channel : Under ι → Option Nat
  | trying phase => phase.channel
  | adopted channel => some channel
  | _ => none

def Fits (sessions : Nat → Session) : Under ι → Prop
  | trying phase => phase.Fits sessions
  | adopted channel => (sessions channel).Live
  | _ => True

/-- What a `close` leaves of it. -/
def stop : Under ι → Under ι
  | trying phase => trying phase
  | _ => idle

end Under

/-- The identity resets that adopting these instances in turn calls for. -/
def changes : List ι → List (ι × ι)
  | first :: second :: rest =>
    if first = second then changes (second :: rest) else (first, second) :: changes (second :: rest)
  | _ => []

theorem changes_snoc (instances : List ι) (last : ι) :
    changes (instances ++ [last]) = changes instances ++
      (match instances.getLast? with
        | some previous => if previous = last then [] else [(previous, last)]
        | none => []) := by
  induction instances with
  | nil => rfl
  | cons first rest ih =>
    cases rest with
    | nil =>
      by_cases same : first = last
      · simp [changes, same]
      · simp [changes, same]
    | cons second rest =>
      rw [List.getLast?_cons_cons]
      by_cases same : first = second
      · simpa [changes, same] using ih
      · simpa [changes, same] using ih

namespace Facade

variable {facade : Facade ι} {under : Under ι}

/-- The facade has just this under way, and nothing else is left behind. -/
structure Core (facade : Facade ι) (under : Under ι) : Prop where
  attempts : facade.attempts = under.attempts
  timers : facade.timers = under.timers
  current : facade.current = under.current
  retryTimer : ∀ timer ∈ under.timers, facade.retryTimer = some timer
  channels : ∀ channel, (facade.sessions channel).isOpen = true → under.channel = some channel
  fits : under.Fits facade.sessions
  halted : facade.closed = true → under.stop = under
  aborted : facade.aborted = true → facade.closed = true
  closing : 0 < facade.closing → facade.closed = true
  ended : facade.terminalFailure.isSome → under = .idle
  identity : facade.workspaceInstanceId = facade.adopted.getLast?
  resets : facade.identityResets = changes facade.adopted

/-- Between two events the state says what is under way, but for a `close` whose disposal is
not over. -/
structure Settled (facade : Facade ι) (under : Under ι) : Prop extends Core facade under where
  listening : ∀ channel, under.current = some channel → (facade.sessions channel).listening = true
  online : under.current.isSome → facade.state = .online
  offline : under.current = none → facade.closing = 0 → facade.state ≠ .online
  stopped : facade.closed = true → facade.closing = 0 → facade.state = .closed
  final : facade.terminalFailure.isSome → facade.state = .closed

theorem Core.current_closed (core : Core facade under) (closed : facade.closed = true) :
    under.current = none := by
  have same := core.halted closed
  cases under with
  | adopted channel => cases same
  | idle => rfl
  | waiting timer => rfl
  | trying phase => rfl

theorem Core.clearRetry (core : Core facade under) : facade.clearRetry = [] := by
  rw [Facade.clearRetry, core.timers]
  cases under with
  | waiting timer => simp [core.retryTimer timer (by simp [Under.timers]), Under.timers]
  | idle => cases facade.retryTimer <;> rfl
  | trying phase => cases facade.retryTimer <;> rfl
  | adopted channel => cases facade.retryTimer <;> rfl

/-- `close` leaves no timer and no session. -/
theorem Settled.close (settled : Settled facade under) : Settled facade.close under.stop := by
  unfold Facade.close
  cases closed : facade.closed with
  | true =>
    rw [if_pos rfl, settled.halted closed]
    exact settled
  | false =>
    rw [if_neg (by simp), settled.current, settled.clearRetry]
    cases under with
    | adopted channel =>
      have unfailed : facade.terminalFailure.isSome → False := fun failed => nomatch settled.ended failed
      dsimp only [Under.current]
      exact {
        attempts := settled.attempts
        timers := rfl
        current := rfl
        retryTimer := by simp [Under.stop, Under.timers]
        channels := by
          intro other isOpen
          by_cases same : other = channel
          · simp [same] at isOpen
          · have owner := settled.channels other (by simpa [same] using isOpen)
            simp only [Under.channel, Option.some.injEq] at owner
            exact absurd owner.symm same
        fits := trivial
        halted := fun _ => rfl
        aborted := fun _ => rfl
        closing := fun _ => rfl
        ended := fun failed => (unfailed failed).elim
        identity := settled.identity
        resets := settled.resets
        listening := by simp [Under.stop, Under.current]
        online := by simp [Under.stop, Under.current]
        offline := by simp
        stopped := by simp
        final := fun failed => (unfailed failed).elim }
    | idle =>
      dsimp only [Under.current]
      exact { settled with
        timers := rfl, halted := fun _ => rfl, aborted := fun _ => rfl, closing := fun _ => rfl
        current := rfl, offline := by simp, online := by simp [Under.stop, Under.current], stopped := by simp
        final := by simp }
    | waiting timer =>
      have unfailed : facade.terminalFailure.isSome → False := fun failed => nomatch settled.ended failed
      dsimp only [Under.current]
      exact {
        attempts := settled.attempts, timers := rfl, current := rfl
        retryTimer := by simp [Under.stop, Under.timers]
        channels := settled.channels, fits := trivial, halted := fun _ => rfl, aborted := fun _ => rfl
        closing := fun _ => rfl, ended := fun _ => rfl
        identity := settled.identity, resets := settled.resets
        listening := by simp [Under.stop, Under.current]
        offline := by simp, online := by simp [Under.stop, Under.current], stopped := by simp, final := by simp }
    | trying phase =>
      dsimp only [Under.current]
      exact { settled with
        timers := rfl, halted := fun _ => rfl, aborted := fun _ => rfl, closing := fun _ => rfl
        current := rfl, offline := by simp, online := by simp [Under.stop, Under.current], stopped := by simp
        final := by simp }

omit [DecidableEq ι] in
theorem close_closed : facade.close.closed = true := by
  unfold Facade.close
  split
  case isTrue closed => exact closed
  case isFalse => split <;> rfl

/-- An abort closes, and ends an attempt that dials or opens. -/
theorem Settled.abort (settled : Settled facade under) (options : ConnectMilleOptions) :
    ∃ after, Settled (facade.abort options) after ∧ (under = .idle → after = .idle) := by
  unfold Facade.abort
  split
  case isTrue => exact ⟨under, settled, id⟩
  case isFalse =>
    have stopped := settled.close
    have closed : facade.close.closed = true := close_closed
    have attempts := stopped.attempts
    cases under with
    | idle =>
      simp only [attempts, Under.stop, Under.attempts, List.map_nil, List.any_nil, Bool.false_eq_true, if_false]
      exact ⟨.idle, { stopped with attempts := rfl, aborted := fun _ => closed }, fun _ => rfl⟩
    | waiting timer =>
      simp only [attempts, Under.stop, Under.attempts, List.map_nil, List.any_nil, Bool.false_eq_true, if_false]
      exact ⟨.idle, { stopped with attempts := rfl, aborted := fun _ => closed }, nofun⟩
    | adopted channel =>
      simp only [attempts, Under.stop, Under.attempts, List.map_nil, List.any_nil, Bool.false_eq_true, if_false]
      exact ⟨.idle, { stopped with attempts := rfl, aborted := fun _ => closed }, nofun⟩
    | trying phase =>
      simp only [attempts, Under.stop, Under.attempts, List.map_cons, List.map_nil, List.any_cons, List.any_nil,
        Bool.or_false]
      refine ⟨.trying phase.onAbort, ?_, nofun⟩
      have unfailed : facade.close.terminalFailure.isSome → False := fun failed => nomatch stopped.ended failed
      cases phase with
      | opening mine =>
        simp only [Phase.isOpening, decide_eq_true_eq]
        exact { stopped with
          attempts := rfl
          channels := by
            intro channel isOpen
            by_cases same : mine = channel
            · simp [same] at isOpen
            · have owner := stopped.channels channel (by simpa [same] using isOpen)
              exact absurd (Option.some.inj owner) same
          fits := trivial
          halted := fun _ => rfl
          aborted := fun _ => closed
          ended := fun failed => (unfailed failed).elim
          listening := by simp [Under.current]
          online := by simp [Under.current] }
      | dialing =>
        simp only [Phase.isOpening, Bool.false_eq_true, if_false]
        exact { stopped with
          attempts := rfl, channels := stopped.channels, fits := trivial, halted := fun _ => rfl
          aborted := fun _ => closed, ended := fun failed => (unfailed failed).elim }
      | _ =>
        simp only [Phase.isOpening, Bool.false_eq_true, if_false]
        exact { stopped with attempts := rfl, aborted := fun _ => closed }

theorem Settled.emit (settled : Settled facade under) (options : ConnectMilleOptions)
    (listener : Emission → Reaction) (emission : Emission) :
    ∃ after, Settled (facade.emit options listener emission) after ∧ (under = .idle → after = .idle) := by
  unfold Facade.emit
  split
  · exact ⟨under, settled, id⟩
  · exact ⟨under.stop, settled.close, by rintro rfl; rfl⟩
  · exact settled.abort options

/-- What no longer changes once the facade is closed or has failed for good. -/
structure Quiet (before after : Facade ι) : Prop where
  started : after.started = before.started
  timersSet : after.timersSet = before.timersSet
  adopted : after.adopted = before.adopted
  failed : after.terminalFailure = before.terminalFailure ∨ after.terminalFailure.isSome
  closed : before.closed = true → after.closed = true

namespace Quiet

variable {before after last : Facade ι}

omit [DecidableEq ι] in
theorem refl (facade : Facade ι) : Quiet facade facade := ⟨rfl, rfl, rfl, .inl rfl, id⟩

omit [DecidableEq ι] in
theorem trans (first : Quiet before after) (second : Quiet after last) : Quiet before last where
  started := second.started.trans first.started
  timersSet := second.timersSet.trans first.timersSet
  adopted := second.adopted.trans first.adopted
  failed := by
    rcases second.failed with same | failed
    · rw [same]
      exact first.failed
    · exact .inr failed
  closed := fun closed => second.closed (first.closed closed)

end Quiet

omit [DecidableEq ι] in
theorem close_quiet (facade : Facade ι) : Quiet facade facade.close ∧ facade.close.terminalFailure = facade.terminalFailure := by
  unfold Facade.close
  split
  · exact ⟨.refl _, rfl⟩
  · split
    · exact ⟨⟨rfl, rfl, rfl, .inl rfl, fun _ => rfl⟩, rfl⟩
    · exact ⟨⟨rfl, rfl, rfl, .inl rfl, fun _ => rfl⟩, rfl⟩

omit [DecidableEq ι] in
theorem abort_quiet (options : ConnectMilleOptions) (facade : Facade ι) :
    Quiet facade (facade.abort options) ∧
      (facade.abort options).terminalFailure = facade.terminalFailure := by
  unfold Facade.abort
  split
  · exact ⟨.refl _, rfl⟩
  · obtain ⟨quiet, same⟩ := close_quiet facade
    exact ⟨{ quiet with }, same⟩

omit [DecidableEq ι] in
theorem emit_quiet (options : ConnectMilleOptions) (listener : Emission → Reaction) (facade : Facade ι)
    (emission : Emission) : Quiet facade (facade.emit options listener emission) ∧
    (facade.emit options listener emission).terminalFailure = facade.terminalFailure := by
  unfold Facade.emit
  split
  · exact ⟨.refl _, rfl⟩
  · exact close_quiet facade
  · exact abort_quiet options facade

omit [DecidableEq ι] in
theorem setState_quiet (options : ConnectMilleOptions) (listener : Emission → Reaction) (facade : Facade ι)
    (next : RemoteConnectionState) :
    Quiet facade (facade.setState options listener next) ∧
      (facade.setState options listener next).terminalFailure = facade.terminalFailure := by
  obtain ⟨quiet, same⟩ := emit_quiet options listener { facade with state := next } (.connection next)
  exact ⟨{ quiet with }, same⟩

theorem Settled.setState {next : RemoteConnectionState} (settled : Settled { facade with state := next } .idle) :
    Settled (facade.setState options listener next) .idle := by
  obtain ⟨after, still, idle⟩ := settled.emit options listener (.connection next)
  exact idle rfl ▸ still

theorem Settled.scheduleRetry (settled : Settled facade .idle) (unfailed : facade.terminalFailure = none) :
    ∃ after, Settled (facade.scheduleRetry options) after := by
  unfold Facade.scheduleRetry
  split
  case isTrue => exact ⟨.idle, settled⟩
  case isFalse running =>
    have unclosed : facade.closed = false := by
      cases closed : facade.closed with
      | false => rfl
      | true => simp [closed] at running
    refine ⟨.waiting facade.timersSet, { settled with
      timers := by simp [settled.timers, Under.timers]
      retryTimer := by simp [Under.timers]
      halted := by simp [unclosed]
      ended := by simp [unfailed] }⟩

theorem Core.alone {index : Nat} {phase : Phase ι} (core : Core facade under)
    (there : facade.attempts[index]? = some phase) : index = 0 ∧ under = .trying phase := by
  rw [core.attempts] at there
  cases under with
  | trying mine =>
    obtain ⟨inside, same⟩ := List.getElem?_eq_some_iff.mp there
    have first : index = 0 := by simpa [Under.attempts] using inside
    subst first
    exact ⟨rfl, congrArg Under.trying same⟩
  | idle => simp [Under.attempts] at there
  | waiting timer => simp [Under.attempts] at there
  | adopted channel => simp [Under.attempts] at there

theorem Core.unfailed {phase : Phase ι} (core : Core facade (.trying phase)) : facade.terminalFailure = none := by
  by_contra failed
  exact nomatch core.ended (Option.isSome_iff_ne_none.mpr failed)

theorem Settled.dropped {phase : Phase ι} (settled : Settled facade (.trying phase))
    (shut : ∀ channel, phase.channel = some channel → (facade.sessions channel).isOpen = false) :
    Settled (facade.dropAttempt 0) .idle where
  attempts := by simp [dropAttempt, settled.attempts, Under.attempts]
  timers := settled.timers
  current := settled.current
  retryTimer := by simp [Under.timers]
  channels := by
    intro channel isOpen
    have closed := shut channel (settled.channels channel isOpen)
    exact absurd isOpen (by simp [dropAttempt, closed])
  fits := trivial
  halted _ := rfl
  aborted := settled.aborted
  closing := settled.closing
  ended _ := rfl
  identity := settled.identity
  resets := settled.resets
  listening := by simp [Under.current]
  online := by simp [Under.current]
  offline := settled.offline
  stopped := settled.stopped
  final := settled.final

theorem Settled.fail (settled : Settled facade .idle) (unfailed : facade.terminalFailure = none)
    (code : RemoteExplorerErrorCode) : ∃ after, Settled (facade.fail options listener code) after := by
  unfold Facade.fail
  split
  case isTrue =>
    refine ⟨.idle, Settled.setState { settled with
      ended := fun _ => rfl
      offline := by simp
      online := by simp [Under.current]
      stopped := fun _ _ => rfl
      final := fun _ => rfl }⟩
  case isFalse going =>
    have running : facade.closed = false := by
      cases closed : facade.closed with
      | false => rfl
      | true => simp [closed] at going
    have stale : Settled (facade.setState options listener .stale) .idle := Settled.setState { settled with
      offline := by simp
      online := by simp [Under.current]
      stopped := by simp [running]
      final := by simp [unfailed] }
    exact stale.scheduleRetry ((setState_quiet options listener facade .stale).2.trans unfailed)

theorem Settled.attemptConnect (settled : Settled facade .idle) (unfailed : facade.terminalFailure = none) :
    ∃ after, Settled (facade.attemptConnect options listener) after := by
  unfold Facade.attemptConnect
  by_cases closed : facade.closed = true
  · rw [if_pos closed]
    exact ⟨.idle, settled⟩
  · rw [if_neg closed]
    dsimp only
    generalize nextState : (if facade.attempt = 0 then RemoteConnectionState.connecting
      else RemoteConnectionState.reconnecting) = next
    have away : next ≠ .online := by
      rw [← nextState]
      split <;> simp
    have said : Settled (Facade.setState options listener next { facade with started := facade.started + 1 }) .idle :=
      Settled.setState { settled with
        offline := fun _ _ => away
        online := by simp [Under.current]
        stopped := by simp [closed]
        final := by simp [unfailed] }
    have still := (setState_quiet options listener { facade with started := facade.started + 1 } next).2.trans
      unfailed
    refine ⟨.trying (if (Facade.setState options listener next
        { facade with started := facade.started + 1 }).aborted then .failed .offline else .dialing), { said with
      attempts := by simp [said.attempts, Under.attempts]
      channels := fun channel isOpen => nomatch said.channels channel isOpen
      fits := by split <;> trivial
      halted := fun _ => rfl
      ended := fun failed => absurd failed (by rw [still]; simp) }⟩

section Shutdown

variable {channel : Nat}

omit [DecidableEq ι] in
/-- A channel no explorer of which the facade listens to shuts down: its attempt hears it. -/
theorem shutdown_unheard (facade : Facade ι) (options : ConnectMilleOptions) (listener : Emission → Reaction)
    (isOpen : (facade.sessions channel).isOpen = true)
    (unheard : (facade.sessions channel).built = true → (facade.sessions channel).listening = false) :
    ∃ session : Session, session.isOpen = false ∧ session.built = (facade.sessions channel).built ∧
      session.listening = (facade.sessions channel).listening ∧
      session.disposed = (facade.sessions channel).disposed ∧
      ((facade.sessions channel).built = false →
        session.closeReported = (facade.sessions channel).closeReported) ∧
      facade.shutdown options listener channel =
        { facade with
          sessions := Function.update facade.sessions channel session
          attempts :=
            if (facade.sessions channel).built ∧ ¬(facade.sessions channel).disposed ∧
                ¬(facade.sessions channel).closeReported then
              (facade.attempts.map (Phase.onClose channel)).map (Phase.onReject channel)
            else facade.attempts.map (Phase.onClose channel) } := by
  cases known : facade.sessions channel with
  | mk opened built disposed closeReported listening =>
    rw [known] at isOpen unheard
    cases isOpen
    cases built with
    | false =>
      refine ⟨⟨false, false, disposed, closeReported, listening⟩, rfl, rfl, rfl, rfl, fun _ => rfl, ?_⟩
      simp [shutdown, known, setSession]
    | true =>
      cases unheard rfl
      cases disposed with
      | true =>
        refine ⟨⟨false, true, true, closeReported, false⟩, rfl, rfl, rfl, rfl, fun _ => by simp_all, ?_⟩
        simp [shutdown, known, setSession, handleChannelClose]
      | false =>
        cases closeReported with
        | true =>
          refine ⟨⟨false, true, false, true, false⟩, rfl, rfl, rfl, rfl, fun _ => rfl, ?_⟩
          simp [shutdown, known, setSession, handleChannelClose]
        | false =>
          refine ⟨⟨false, true, false, true, false⟩, rfl, rfl, rfl, rfl, nofun, ?_⟩
          simp [shutdown, known, setSession, handleChannelClose]

/-- The loss of the adopted session sets a timer, or closes for good. -/
theorem Settled.lost (settled : Settled facade (.adopted channel)) :
    ∃ after, Settled (facade.shutdown options listener channel) after := by
  obtain ⟨isOpen, built, undisposed, unreported⟩ : (facade.sessions channel).Live := settled.fits
  have listening := settled.listening channel rfl
  have running : facade.closed = false := by
    cases closed : facade.closed with
    | false => rfl
    | true => exact nomatch settled.halted closed
  have unfailed : facade.terminalFailure = none := by
    by_contra failed
    exact nomatch settled.ended (Option.isSome_iff_ne_none.mpr failed)
  obtain ⟨session, shut, same⟩ : ∃ session : Session, session.isOpen = false ∧
      facade.shutdown options listener channel = onSessionLost options listener { facade with
        sessions := Function.update facade.sessions channel session, attempts := [] } := by
    have none_trying : facade.attempts = [] := settled.attempts
    refine ⟨⟨false, true, false, true, true⟩, rfl, ?_⟩
    simp [shutdown, handleChannelClose, setSession, isOpen, built, undisposed, unreported, listening, none_trying]
  rw [same, onSessionLost, if_neg (by simp [running])]
  have idle (next : RemoteConnectionState) (away : next ≠ .online) : Settled { facade with
      sessions := Function.update facade.sessions channel session
      attempts := []
      current := none
      state := next } .idle := {
    attempts := rfl
    timers := settled.timers
    current := rfl
    retryTimer := by simp [Under.timers]
    channels := by
      intro other isOpen
      by_cases here : other = channel
      · simp [here, shut] at isOpen
      · have owner := settled.channels other (by simpa [here] using isOpen)
        exact absurd (Option.some.inj owner).symm here
    fits := trivial
    halted := fun _ => rfl
    aborted := settled.aborted
    closing := settled.closing
    ended := fun _ => rfl
    identity := settled.identity
    resets := settled.resets
    listening := by simp [Under.current]
    online := by simp [Under.current]
    offline := fun _ _ => away
    stopped := by simp [running]
    final := by simp [unfailed] }
  dsimp only
  split
  · have stale : Settled (Facade.setState options listener .stale { facade with
        sessions := Function.update facade.sessions channel session
        attempts := []
        current := none }) .idle := Settled.setState (idle .stale (by simp))
    exact stale.scheduleRetry ((setState_quiet options listener _ .stale).2.trans unfailed)
  · exact ⟨.idle, Settled.setState (idle .closed (by simp))⟩

/-- The channel of an attempt shuts down; the attempt that opens or shakes hands fails by it. -/
theorem Settled.shutdown_trying {phase : Phase ι} (settled : Settled facade (.trying phase))
    (options : ConnectMilleOptions) (listener : Emission → Reaction) (mine : phase.channel = some channel) (isOpen : (facade.sessions channel).isOpen = true) :
    ∃ after, Settled (facade.shutdown options listener channel) (.trying after) ∧
      (∀ other, after.channel = some other →
        ((facade.shutdown options listener channel).sessions other).isOpen = false) := by
  have unheard : (facade.sessions channel).built = true → (facade.sessions channel).listening = false := by
    have fits : phase.Fits facade.sessions := settled.fits
    cases phase with
    | opening other => cases mine; exact fun _ => fits.2.silent
    | accepted other instanceId => cases mine; exact fun _ => fits.silent
    | handshaking other instanceId => cases mine; exact fun _ => fits.2
    | ready other instanceId => cases mine; exact fun _ => fits.2
    | refused other => cases mine; exact fun _ => fits
    | _ => cases mine
  obtain ⟨session, shut, built, listening, disposed, reported, same⟩ :=
    shutdown_unheard facade options listener isOpen unheard
  rw [same]
  have unfailed := settled.unfailed
  have closed_now (other : Nat) (opened : (Function.update facade.sessions channel session other).isOpen = true) :
      False := by
    by_cases here : other = channel
    · simp [here, shut] at opened
    · have owner := settled.channels other (by simpa [here] using opened)
      exact here (Option.some.inj (owner.symm.trans mine))
  have still {after : Phase ι} (fits : after.Fits (Function.update facade.sessions channel session)) :
      Settled { facade with
        sessions := Function.update facade.sessions channel session, attempts := [after] } (.trying after) := {
    attempts := rfl
    timers := settled.timers
    current := settled.current
    retryTimer := by simp [Under.timers]
    channels := fun other opened => (closed_now other opened).elim
    fits := fits
    halted := fun _ => rfl
    aborted := settled.aborted
    closing := settled.closing
    ended := by simp [unfailed]
    identity := settled.identity
    resets := settled.resets
    listening := by simp [Under.current]
    online := by simp [Under.current]
    offline := settled.offline
    stopped := settled.stopped
    final := settled.final }
  have shuts (after : Phase ι) : ∀ other, after.channel = some other →
      (Function.update facade.sessions channel session other).isOpen = false := by
    intro other _
    by_contra opened
    exact closed_now other (by simpa using opened)
  have attempts : facade.attempts = [phase] := settled.attempts
  have fits : phase.Fits facade.sessions := settled.fits
  rw [attempts]
  cases phase with
  | opening other =>
    cases mine
    simp only [fits.2.unbuilt, Bool.false_eq_true, false_and, if_false, List.map_cons, List.map_nil, Phase.onClose,
      if_true]
    exact ⟨_, still trivial, shuts _⟩
  | accepted other instanceId =>
    cases mine
    obtain ⟨unbuilt, undisposed, unreported, silent⟩ := fits
    simp only [unbuilt, Bool.false_eq_true, false_and, if_false, List.map_cons, List.map_nil, Phase.onClose]
    have fresh : session.Fresh := ⟨built.trans unbuilt, disposed.trans undisposed,
      (reported unbuilt).trans unreported, listening.trans silent⟩
    exact ⟨_, still (by simpa [Phase.Fits] using fresh), shuts _⟩
  | handshaking other instanceId =>
    cases mine
    simp only [fits.1.built, fits.1.undisposed, fits.1.unreported, Bool.false_eq_true, not_false_eq_true, and_self,
      if_true, List.map_cons, List.map_nil, Phase.onClose, Phase.onReject]
    exact ⟨_, still trivial, shuts _⟩
  | ready other instanceId =>
    cases mine
    refine ⟨.ready channel instanceId, ?_, shuts _⟩
    simp only [List.map_cons, List.map_nil, Phase.onClose, Phase.onReject, ite_self]
    exact still ⟨by simp [shut], by simp [listening, fits.2]⟩
  | refused other =>
    cases mine
    refine ⟨.refused channel, ?_, shuts _⟩
    simp only [List.map_cons, List.map_nil, Phase.onClose, Phase.onReject, ite_self]
    have silent : (facade.sessions channel).listening = false := fits
    exact still (by simp [Phase.Fits, listening, silent])
  | _ => cases mine

theorem Settled.shutdown (settled : Settled facade under) :
    ∃ after, Settled (facade.shutdown options listener channel) after := by
  by_cases isOpen : (facade.sessions channel).isOpen = true
  · have owner := settled.channels channel isOpen
    cases under with
    | adopted other =>
      cases owner
      exact settled.lost
    | trying phase =>
      obtain ⟨after, still, _⟩ := settled.shutdown_trying options listener owner isOpen
      exact ⟨_, still⟩
    | idle => cases owner
    | waiting timer => cases owner
  · rw [Facade.shutdown, if_neg isOpen]
    exact ⟨under, settled⟩

end Shutdown

section Adopt

variable {channel : Nat}

/-- The facade with its listener on a session's explorer, online. -/
def heard (channel : Nat) (facade : Facade ι) : Facade ι where
  __ := facade
  state := .online
  sessions := Function.update facade.sessions channel { facade.sessions channel with listening := true }

omit [DecidableEq ι] in
theorem close_heard (current : facade.current = some channel) :
    facade.close.heard channel = (facade.heard channel).close := by
  by_cases closed : facade.closed = true
  · simp [Facade.close, heard, closed]
  · simp [Facade.close, heard, closed, current, clearRetry]

omit [DecidableEq ι] in
theorem abort_heard (options : ConnectMilleOptions) (none_trying : facade.attempts = [])
    (current : facade.current = some channel) :
    (facade.abort options).heard channel = (facade.heard channel).abort options := by
  have trying : facade.close.attempts = [] := by
    unfold Facade.close
    split
    · exact none_trying
    · split <;> exact none_trying
  have trying' : (facade.heard channel).close.attempts = [] := by
    rw [← close_heard current]
    exact trying
  have aborted : (facade.heard channel).aborted = facade.aborted := rfl
  unfold Facade.abort
  rw [aborted]
  by_cases ignored : (options.signal.isNone || facade.aborted) = true
  · rw [if_pos ignored, if_pos ignored]
  · rw [if_neg ignored, if_neg ignored]
    simp only [trying, trying', List.map_nil, List.any_nil, Bool.false_eq_true, if_false]
    rw [← close_heard current]
    rfl

omit [DecidableEq ι] in
/-- What listeners do while the facade adopts a session does not depend on whether it
listens to the session yet. -/
theorem emit_heard (options : ConnectMilleOptions) (listener : Emission → Reaction) (emission : Emission)
    (none_trying : facade.attempts = []) (current : facade.current = some channel) :
    (facade.emit options listener emission).heard channel =
      (facade.heard channel).emit options listener emission := by
  unfold emit
  cases listener emission with
  | none => rfl
  | close => exact close_heard current
  | abort => exact abort_heard options none_trying current

theorem Core.dropAttempt {phase : Phase ι} (core : Core facade (.trying phase)) :
    facade.dropAttempt 0 = { facade with attempts := [] } := by
  simp [Facade.dropAttempt, core.attempts, Under.attempts]

/-- Adopting a session whose channel is open. -/
theorem Settled.adopt {instanceId : ι} (settled : Settled facade (.trying (.ready channel instanceId)))
    (running : facade.closed = false) (isOpen : (facade.sessions channel).isOpen = true) :
    ∃ after, Settled ((facade.dropAttempt 0).adopt options listener channel instanceId) after := by
  have unfailed := settled.unfailed
  have fits : (Phase.ready channel instanceId).Fits facade.sessions := settled.fits
  have taken (resets : List (ι × ι)) (changed : resets = changes (facade.adopted ++ [instanceId])) :
      Settled (heard channel { facade with
        attempts := []
        current := some channel
        workspaceInstanceId := some instanceId
        attempt := 0
        adopted := facade.adopted ++ [instanceId]
        identityResets := resets }) (.adopted channel) := {
    attempts := rfl
    timers := settled.timers
    current := rfl
    retryTimer := by simp [Under.timers]
    channels := by
      intro other isOpen
      by_cases same : other = channel
      · rw [same]
        rfl
      · exact settled.channels other (by simpa [heard, same] using isOpen)
    fits := by
      obtain ⟨isOpen, built, undisposed, unreported⟩ := fits.1 isOpen
      constructor <;> simpa [heard]
    halted := by simp [heard, running]
    aborted := settled.aborted
    closing := settled.closing
    ended := by simp [heard, unfailed]
    identity := by simp [heard]
    resets := changed
    listening := by
      intro other same
      cases same
      simp [heard]
    online := fun _ => rfl
    offline := nofun
    stopped := by simp [heard, running]
    final := by simp [heard, unfailed] }
  have changed := changes_snoc facade.adopted instanceId
  rw [← settled.identity, ← settled.resets] at changed
  rw [settled.dropAttempt]
  unfold Facade.adopt
  cases known : facade.workspaceInstanceId with
  | none =>
    rw [known] at changed
    obtain ⟨after, still, _⟩ := (taken _ (by simpa using changed.symm)).emit options listener (.connection .online)
    exact ⟨after, still⟩
  | some previous =>
    rw [known] at changed
    by_cases same : previous = instanceId
    · simp only [same, if_true]
      obtain ⟨after, still, _⟩ := (taken facade.identityResets (by simpa [same] using changed.symm)).emit
        options listener (.connection .online)
      exact ⟨after, still⟩
    · simp only [same, if_false]
      obtain ⟨after, still, _⟩ := (taken (facade.identityResets ++ [(previous, instanceId)])
        (by simpa [same] using changed.symm)).emit options listener .identityReset
      rw [← emit_heard options listener .identityReset (by rfl) (by rfl)] at still
      obtain ⟨last, done, _⟩ := still.emit options listener (.connection .online)
      exact ⟨last, done⟩

end Adopt

/-- Phases of an attempt whose next turn keeps the facade tidy: the channel of a session about
to be adopted is open, that of a rejected handshake is closed. -/
def Apt (facade : Facade ι) : Phase ι → Prop
  | .ready channel _ => facade.closed = true ∨ (facade.sessions channel).isOpen = true
  | .refused channel => (facade.sessions channel).isOpen = false
  | _ => True

instance (facade : Facade ι) : DecidablePred (Apt facade) := fun phase =>
  match phase with
  | .ready _ _ => inferInstanceAs (Decidable (_ ∨ _))
  | .refused _ => inferInstanceAs (Decidable (_ = _))
  | .dialing => .isTrue trivial
  | .connected => .isTrue trivial
  | .opening _ => .isTrue trivial
  | .accepted _ _ => .isTrue trivial
  | .handshaking _ _ => .isTrue trivial
  | .failed _ => .isTrue trivial

theorem Settled.phase {phase next : Phase ι} (settled : Settled facade (.trying phase))
    (channel : ∀ other, (facade.sessions other).isOpen = true → phase.channel = some other →
      next.channel = some other)
    (fits : next.Fits facade.sessions) : Settled (facade.setPhase 0 next) (.trying next) := {
  settled with
  attempts := by simp [setPhase, settled.attempts, Under.attempts]
  channels := fun other isOpen => channel other isOpen (settled.channels other isOpen)
  fits := fits
  halted := fun _ => rfl
  ended := by simp [setPhase, settled.unfailed] }

theorem Settled.session {phase next : Phase ι} {channel : Nat} (settled : Settled facade (.trying phase))
    (session : Session) (opened : Nat)
    (mine : ∀ other, (facade.sessions other).isOpen = true → other = channel)
    (owner : session.isOpen = true → next.channel = some channel)
    (fits : next.Fits (Function.update facade.sessions channel session)) :
    Settled { facade with
      sessions := Function.update facade.sessions channel session, attempts := [next], opened } (.trying next) where
  attempts := rfl
  timers := settled.timers
  current := settled.current
  retryTimer := by simp [Under.timers]
  channels := by
    intro other isOpen
    by_cases same : other = channel
    · subst same
      exact owner (by simpa using isOpen)
    · exact absurd (mine other (by simpa [same] using isOpen)) same
  fits := fits
  halted _ := rfl
  aborted := settled.aborted
  closing := settled.closing
  ended := by simp [settled.unfailed]
  identity := settled.identity
  resets := settled.resets
  listening := by simp [Under.current]
  online := by simp [Under.current]
  offline := settled.offline
  stopped := settled.stopped
  final := settled.final

theorem Settled.resume {phase : Phase ι} (settled : Settled facade (.trying phase))
    (options : ConnectMilleOptions) (listener : Emission → Reaction) (apt : Apt facade phase) :
    ∃ after, Settled (facade.resume options listener 0 phase) after := by
  have unfailed := settled.unfailed
  have fits : phase.Fits facade.sessions := settled.fits
  have attempts : facade.attempts = [phase] := settled.attempts
  cases phase with
  | dialing => exact ⟨_, settled⟩
  | opening channel => exact ⟨_, settled⟩
  | handshaking channel instanceId => exact ⟨_, settled⟩
  | connected =>
    have none_open (other : Nat) (isOpen : (facade.sessions other).isOpen = true) : other = facade.opened :=
      nomatch settled.channels other isOpen
    simp only [Facade.resume]
    by_cases aborted : facade.aborted = true
    · have same : Facade.shutdown options listener facade.opened (setPhase 0 (.failed .offline) facade.openChannel) =
          { facade with
            sessions := Function.update facade.sessions facade.opened ⟨false, false, false, false, false⟩
            attempts := [.failed .offline]
            opened := facade.opened + 1 } := by
        simp [Facade.shutdown, setPhase, openChannel, setSession, attempts, Phase.onClose]
      rw [if_pos aborted, same]
      exact ⟨_, settled.session _ _ none_open nofun trivial⟩
    · have same : setPhase 0 (.opening facade.opened) facade.openChannel =
          { facade with
            sessions := Function.update facade.sessions facade.opened ⟨true, false, false, false, false⟩
            attempts := [.opening facade.opened]
            opened := facade.opened + 1 } := by
        simp [setPhase, openChannel, setSession, attempts]
      rw [if_neg aborted, same]
      exact ⟨_, settled.session _ _ none_open (fun _ => rfl) (by
        simp only [Phase.Fits, Function.update_self, true_and]
        exact ⟨rfl, rfl, rfl, rfl⟩)⟩
  | accepted channel instanceId =>
    obtain ⟨unbuilt, undisposed, unreported, silent⟩ := fits
    simp only [Facade.resume]
    by_cases isOpen : (facade.sessions channel).isOpen = true
    · have mine (other : Nat) (opened : (facade.sessions other).isOpen = true) : other = channel :=
        (Option.some.inj (settled.channels other opened)).symm
      have same : setPhase 0 (.handshaking channel instanceId)
          (facade.setSession channel (facade.sessions channel).explored) =
          { facade with
            sessions := Function.update facade.sessions channel (facade.sessions channel).explored
            attempts := [.handshaking channel instanceId]
            opened := facade.opened } := by
        simp [setPhase, setSession, attempts]
      rw [if_pos isOpen, same]
      refine ⟨_, settled.session _ _ mine (fun _ => rfl) ⟨⟨?_, ?_, ?_, ?_⟩, ?_⟩⟩
      · simpa [Session.explored] using isOpen
      · simp [Session.explored]
      · simpa [Session.explored] using undisposed
      · simpa [Session.explored] using unreported
      · simpa [Session.explored] using silent
    · rw [if_neg isOpen]
      exact ⟨_, settled.phase (by
        intro other opened mine
        cases mine
        exact absurd opened isOpen) trivial⟩
  | ready channel instanceId =>
    simp only [Facade.resume]
    by_cases closed : facade.closed = true
    · rw [if_pos closed, settled.dropAttempt]
      by_cases isOpen : (facade.sessions channel).isOpen = true
      · obtain ⟨session, shut, _, _, _, _, same⟩ := shutdown_unheard { facade with attempts := [] }
          options listener isOpen (fun _ => fits.2)
        have mine (other : Nat) (opened : (facade.sessions other).isOpen = true) : other = channel :=
          (Option.some.inj (settled.channels other opened)).symm
        have failed : Settled { facade with
            sessions := Function.update facade.sessions channel session
            attempts := [.failed .offline]
            opened := facade.opened } (.trying (.failed .offline)) :=
          settled.session session facade.opened mine (by simp [shut]) trivial
        have ended : Settled { facade with
            sessions := Function.update facade.sessions channel session
            attempts := [] } .idle := failed.dropped nofun
        rw [same]
        simp only [List.map_nil, ite_self]
        exact ⟨.idle, ended⟩
      · have still : Settled (facade.dropAttempt 0) .idle := settled.dropped (by
          intro other mine
          cases mine
          simpa using isOpen)
        rw [settled.dropAttempt] at still
        rw [Facade.shutdown, if_neg isOpen]
        exact ⟨.idle, still⟩
    · rw [if_neg closed]
      exact settled.adopt (by simpa using closed) (apt.resolve_left closed)
  | refused channel =>
    have dropped : Settled (facade.dropAttempt 0) .idle := settled.dropped (by
      intro other mine
      cases mine
      exact apt)
    exact dropped.fail unfailed .transportError
  | failed code =>
    have dropped : Settled (facade.dropAttempt 0) .idle := settled.dropped nofun
    exact dropped.fail unfailed code

theorem Settled.giveUp {channel : Nat} (settled : Settled facade (.trying (.opening channel)))
    (options : ConnectMilleOptions) (listener : Emission → Reaction) (code : RemoteExplorerErrorCode) :
    ∃ after, Settled (facade.giveUp options listener 0 channel code) after := by
  obtain ⟨isOpen, unbuilt, _, _, _⟩ : (Phase.opening channel : Phase ι).Fits facade.sessions := settled.fits
  have attempts : facade.attempts = [.opening channel] := settled.attempts
  have mine (other : Nat) (opened : (facade.sessions other).isOpen = true) : other = channel :=
    (Option.some.inj (settled.channels other opened)).symm
  have same : facade.giveUp options listener 0 channel code =
      { facade with
        sessions := Function.update facade.sessions channel { facade.sessions channel with isOpen := false }
        attempts := [.failed code]
        opened := facade.opened } := by
    simp [Facade.giveUp, setPhase, Facade.shutdown, setSession, attempts, isOpen, unbuilt, Phase.onClose]
  rw [same]
  exact ⟨_, settled.session _ _ mine nofun trivial⟩

theorem Settled.deliver {phase : Phase ι} (settled : Settled facade (.trying phase))
    (options : ConnectMilleOptions) (listener : Emission → Reaction) (event : Event ι)
    (apt : ∀ index, event = .resume index → Apt facade phase) :
    ∃ after, Settled (facade.deliver options listener 0 event phase) after := by
  have fits : phase.Fits facade.sessions := settled.fits
  have unchanged : ∃ after, Settled facade after := ⟨_, settled⟩
  cases event with
  | resume index => exact settled.resume options listener (apt index rfl)
  | dialed index =>
    cases phase with
    | dialing => exact ⟨_, settled.phase (fun _ _ mine => mine) trivial⟩
    | _ => exact unchanged
  | dialFailed index =>
    cases phase with
    | dialing => exact ⟨_, settled.phase (fun _ _ mine => mine) trivial⟩
    | _ => exact unchanged
  | accepted index instanceId =>
    cases phase with
    | opening channel => exact ⟨_, settled.phase (fun _ _ mine => mine) fits.2⟩
    | _ => exact unchanged
  | rejected index code =>
    cases phase with
    | opening channel => exact settled.giveUp options listener _
    | _ => exact unchanged
  | openTimeout index =>
    cases phase with
    | opening channel => exact settled.giveUp options listener _
    | _ => exact unchanged
  | snapshot index =>
    cases phase with
    | handshaking channel instanceId =>
      exact ⟨_, settled.phase (fun _ _ mine => mine) ⟨fun _ => fits.1, fits.2⟩⟩
    | _ => exact unchanged
  | errorFrame index =>
    cases phase with
    | handshaking channel instanceId => exact ⟨_, settled.phase (fun _ _ mine => mine) fits.2⟩
    | _ => exact unchanged
  | channelClosed channel => exact unchanged
  | timer timer => exact unchanged
  | close => exact unchanged
  | disposed => exact unchanged
  | abort => exact unchanged

theorem Settled.fire (settled : Settled facade under) (options : ConnectMilleOptions)
    (listener : Emission → Reaction) (timer : Nat) :
    ∃ after, Settled (facade.fire options listener timer) after := by
  unfold Facade.fire
  split
  case isFalse => exact ⟨under, settled⟩
  case isTrue due =>
    rw [settled.timers] at due
    cases under with
    | waiting mine =>
      have same : timer = mine := List.mem_singleton.mp due
      subst same
      have timers : facade.timers.erase timer = [] := by simp [settled.timers, Under.timers]
      have unfailed : facade.terminalFailure = none := by
        by_contra failed
        exact nomatch settled.ended (Option.isSome_iff_ne_none.mpr failed)
      rw [timers]
      have idle : Settled { facade with timers := [] } .idle := {
        settled with
        timers := rfl
        retryTimer := by simp [Under.timers]
        channels := fun other isOpen => nomatch settled.channels other isOpen
        halted := fun _ => rfl
        ended := fun _ => rfl }
      exact idle.attemptConnect unfailed
    | idle => simp [Under.timers] at due
    | trying phase => simp [Under.timers] at due
    | adopted channel => simp [Under.timers] at due

theorem Settled.finishClose (settled : Settled facade under) : Settled facade.finishClose under := by
  unfold Facade.finishClose
  split
  case isTrue => exact settled
  case isFalse underway =>
    have closed := settled.closing (Nat.pos_of_ne_zero underway)
    exact { settled with
      closing := fun _ => closed
      online := fun session => absurd session (by simp [settled.current_closed closed])
      offline := by simp
      stopped := by simp
      final := by simp }

/-- The attempt whose continuation an event runs. -/
def resumed (facade : Facade ι) : Event ι → Option (Phase ι)
  | .resume index => facade.attempts[index]?
  | _ => none

/-- The turns that keep the facade tidy. -/
def Allowed (facade : Facade ι) (turn : Turn ι) : Prop :=
  ∀ phase ∈ facade.resumed turn.event, Apt facade phase

instance (facade : Facade ι) (turn : Turn ι) : Decidable (Allowed facade turn) :=
  inferInstanceAs (Decidable (∀ phase ∈ facade.resumed turn.event, Apt facade phase))

theorem Settled.reach (settled : Settled facade under) {event : Event ι}
    (allowed : Allowed facade ⟨event, listener⟩) {index : Nat} (reached : event.index = some index) :
    ∃ after, Settled (match event.index.bind fun index => facade.attempts[index]?.map (index, ·) with
      | some (index, phase) => facade.deliver options listener index event phase
      | none => facade) after := by
  rw [reached, Option.bind_some]
  cases there : facade.attempts[index]? with
  | none => exact ⟨under, settled⟩
  | some phase =>
    obtain ⟨rfl, rfl⟩ := settled.alone there
    exact settled.deliver options listener event fun other same => by
      subst same
      cases reached
      exact allowed phase there

theorem Settled.handle (settled : Settled facade under) (turn : Turn ι) (allowed : Allowed facade turn) :
    ∃ after, Settled (facade.handle options turn) after := by
  obtain ⟨event, listener⟩ := turn
  cases event with
  | channelClosed channel => exact settled.shutdown
  | timer timer => exact settled.fire options listener timer
  | close => exact ⟨_, settled.close⟩
  | disposed => exact ⟨_, settled.finishClose⟩
  | abort =>
    obtain ⟨after, still, _⟩ := settled.abort options
    exact ⟨after, still⟩
  | dialed index => exact settled.reach allowed rfl
  | dialFailed index => exact settled.reach allowed rfl
  | resume index => exact settled.reach allowed rfl
  | accepted index instanceId => exact settled.reach allowed rfl
  | rejected index code => exact settled.reach allowed rfl
  | openTimeout index => exact settled.reach allowed rfl
  | snapshot index => exact settled.reach allowed rfl
  | errorFrame index => exact settled.reach allowed rfl

theorem settled_connectMille (unaborted : options.signal ≠ some true) :
    ∃ under, Settled (connectMille options : Facade ι) under := by
  have signal : options.signal.getD false = false := by
    cases known : options.signal with
    | none => rfl
    | some aborted =>
      cases aborted with
      | false => rfl
      | true => exact absurd known unaborted
  have idle : Settled (blank options : Facade ι) .idle := {
    attempts := rfl
    timers := rfl
    current := rfl
    retryTimer := by simp [Under.timers]
    channels := nofun
    fits := trivial
    halted := fun _ => rfl
    aborted := by simp [blank, signal]
    closing := by simp [blank]
    ended := fun _ => rfl
    identity := rfl
    resets := rfl
    listening := nofun
    online := nofun
    offline := by simp [blank]
    stopped := by simp [blank]
    final := by simp [blank] }
  exact idle.attemptConnect rfl

section Stopped

omit [DecidableEq ι] in
theorem shutdown_quiet (facade : Facade ι) (options : ConnectMilleOptions) (listener : Emission → Reaction)
    (closed : facade.closed = true) (channel : Nat) : Quiet facade (facade.shutdown options listener channel) := by
  unfold Facade.shutdown
  dsimp only
  split
  case isFalse => exact .refl _
  case isTrue =>
    split
    case isFalse => exact ⟨rfl, rfl, rfl, .inl rfl, fun _ => closed⟩
    case isTrue =>
      unfold handleChannelClose
      dsimp only
      split
      case isTrue => exact ⟨rfl, rfl, rfl, .inl rfl, fun _ => closed⟩
      case isFalse =>
        split
        case isFalse => exact ⟨rfl, rfl, rfl, .inl rfl, fun _ => closed⟩
        case isTrue =>
          rw [onSessionLost, if_pos (by exact closed)]
          exact ⟨rfl, rfl, rfl, .inl rfl, fun _ => closed⟩

omit [DecidableEq ι] in
theorem fail_quiet (facade : Facade ι) (options : ConnectMilleOptions) (listener : Emission → Reaction)
    (closed : facade.closed = true) (code : RemoteExplorerErrorCode) :
    Quiet facade (facade.fail options listener code) := by
  rw [Facade.fail, if_pos (by simp [closed])]
  have noted : Quiet facade { facade with terminalFailure := some code } := ⟨rfl, rfl, rfl, .inr rfl, id⟩
  exact noted.trans (setState_quiet options listener _ .closed).1

theorem resume_quiet (facade : Facade ι) (options : ConnectMilleOptions) (listener : Emission → Reaction)
    (closed : facade.closed = true) (index : Nat) (phase : Phase ι) :
    Quiet facade (facade.resume options listener index phase) := by
  cases phase with
  | dialing => exact .refl _
  | opening channel => exact .refl _
  | handshaking channel instanceId => exact .refl _
  | connected =>
    simp only [Facade.resume]
    split
    · have opened : Quiet facade (setPhase index (.failed .offline) facade.openChannel) := ⟨rfl, rfl, rfl, .inl rfl, id⟩
      exact opened.trans (shutdown_quiet _ options listener (opened.closed closed) _)
    · exact ⟨rfl, rfl, rfl, .inl rfl, id⟩
  | accepted channel instanceId =>
    simp only [Facade.resume]
    split
    · exact ⟨rfl, rfl, rfl, .inl rfl, id⟩
    · exact ⟨rfl, rfl, rfl, .inl rfl, id⟩
  | ready channel instanceId =>
    simp only [Facade.resume, closed, if_true]
    have dropped : Quiet facade (facade.dropAttempt index) := ⟨rfl, rfl, rfl, .inl rfl, id⟩
    exact dropped.trans (shutdown_quiet _ options listener (dropped.closed closed) _)
  | refused channel =>
    have dropped : Quiet facade (facade.dropAttempt index) := ⟨rfl, rfl, rfl, .inl rfl, id⟩
    exact dropped.trans (fail_quiet _ options listener (dropped.closed closed) _)
  | failed code =>
    have dropped : Quiet facade (facade.dropAttempt index) := ⟨rfl, rfl, rfl, .inl rfl, id⟩
    exact dropped.trans (fail_quiet _ options listener (dropped.closed closed) _)

theorem deliver_quiet (facade : Facade ι) (options : ConnectMilleOptions) (listener : Emission → Reaction)
    (closed : facade.closed = true) (index : Nat) (event : Event ι) (phase : Phase ι) :
    Quiet facade (facade.deliver options listener index event phase) := by
  have given (channel : Nat) (code : RemoteExplorerErrorCode) :
      Quiet facade (facade.giveUp options listener index channel code) := by
    have failed : Quiet facade (facade.setPhase index (.failed code)) := ⟨rfl, rfl, rfl, .inl rfl, id⟩
    exact failed.trans (shutdown_quiet _ options listener (failed.closed closed) _)
  unfold Facade.deliver
  split
  · exact ⟨rfl, rfl, rfl, .inl rfl, id⟩
  · exact ⟨rfl, rfl, rfl, .inl rfl, id⟩
  · exact ⟨rfl, rfl, rfl, .inl rfl, id⟩
  · exact given _ _
  · exact given _ _
  · exact ⟨rfl, rfl, rfl, .inl rfl, id⟩
  · exact ⟨rfl, rfl, rfl, .inl rfl, id⟩
  · exact resume_quiet facade options listener closed index _
  · exact .refl _

/-- The facade was closed, by a call or an abort, or an attempt failed for good. -/
def Stopped (facade : Facade ι) : Prop := facade.closed = true ∨ facade.terminalFailure.isSome

omit [DecidableEq ι] in
theorem Stopped.quiet {after : Facade ι} (stopped : Stopped facade) (quiet : Quiet facade after) : Stopped after := by
  rcases stopped with closed | failed
  · exact .inl (quiet.closed closed)
  · rcases quiet.failed with same | failed
    · exact .inr (same ▸ failed)
    · exact .inr failed

theorem Settled.reach_quiet (settled : Settled facade under) (stopped : Stopped facade) {event : Event ι}
    {index : Nat} (reached : event.index = some index) :
    Quiet facade (match event.index.bind fun index => facade.attempts[index]?.map (index, ·) with
      | some (index, phase) => facade.deliver options listener index event phase
      | none => facade) := by
  rw [reached, Option.bind_some]
  cases there : facade.attempts[index]? with
  | none => exact .refl _
  | some phase =>
    have trying := (settled.alone there).2
    rcases stopped with closed | failed
    · exact deliver_quiet facade options listener closed index event phase
    · rw [settled.ended failed] at trying
      cases trying

theorem Settled.quiet (settled : Settled facade under) (stopped : Stopped facade) (turn : Turn ι) :
    Quiet facade (facade.handle options turn) := by
  obtain ⟨event, listener⟩ := turn
  have timers : facade.timers = [] := by
    rw [settled.timers]
    rcases stopped with closed | failed
    · rw [← settled.halted closed]
      cases under <;> rfl
    · rw [settled.ended failed]
      rfl
  cases event with
  | channelClosed channel =>
    rcases stopped with closed | failed
    · exact shutdown_quiet facade options listener closed channel
    · have shut : ¬(facade.sessions channel).isOpen = true := by
        intro isOpen
        have owner := settled.channels channel isOpen
        rw [settled.ended failed] at owner
        cases owner
      simp only [Facade.handle, Facade.shutdown, shut]
      exact .refl _
  | timer timer =>
    simp only [Facade.handle, Facade.fire, timers, List.not_mem_nil, if_false]
    exact .refl _
  | close => exact (close_quiet facade).1
  | disposed =>
    simp only [Facade.handle, Facade.finishClose]
    split
    · exact .refl _
    · exact ⟨rfl, rfl, rfl, .inl rfl, id⟩
  | abort => exact (abort_quiet options facade).1
  | dialed index => exact settled.reach_quiet stopped rfl
  | dialFailed index => exact settled.reach_quiet stopped rfl
  | resume index => exact settled.reach_quiet stopped rfl
  | accepted index instanceId => exact settled.reach_quiet stopped rfl
  | rejected index code => exact settled.reach_quiet stopped rfl
  | openTimeout index => exact settled.reach_quiet stopped rfl
  | snapshot index => exact settled.reach_quiet stopped rfl
  | errorFrame index => exact settled.reach_quiet stopped rfl

end Stopped

/-- What holds of the facade between two events; `closing` counts calls of `close` whose
closed state is still to be said. -/
structure Tidy (facade : Facade ι) : Prop where
  /-- One adopted session, retry timer or attempt at most. -/
  single : facade.attempts.length + facade.timers.length + facade.current.toList.length ≤ 1
  online : facade.closing = 0 →
    (facade.state = .online ↔ ∃ channel, facade.current = some channel ∧ (facade.sessions channel).isOpen = true)
  /-- An open channel is the adopted session's, or that of the attempt under way. -/
  shut : ∀ channel, (facade.sessions channel).isOpen = true →
    facade.current = some channel ∨ ∃ phase ∈ facade.attempts, phase.channel = some channel
  /-- An identity reset for every adopted instance that differs from the one before. -/
  resets : facade.identityResets = changes facade.adopted
  aborted : facade.aborted = true → Stopped facade
  stopped : Stopped facade →
    facade.timers = [] ∧ facade.current = none ∧ (facade.closing = 0 → facade.state = .closed)

theorem Settled.tidy (settled : Settled facade under) : Tidy facade where
  single := by
    rw [settled.attempts, settled.timers, settled.current]
    cases under <;> simp [Under.attempts, Under.timers, Under.current]
  online := by
    intro said
    constructor
    · intro online
      cases under with
      | adopted channel =>
        have live : (facade.sessions channel).Live := settled.fits
        exact ⟨channel, settled.current, live.isOpen⟩
      | idle => exact absurd online (settled.offline rfl said)
      | waiting timer => exact absurd online (settled.offline rfl said)
      | trying phase => exact absurd online (settled.offline rfl said)
    · rintro ⟨channel, current, _⟩
      apply settled.online
      rw [← settled.current, current]
      rfl
  shut := by
    intro channel isOpen
    have owner := settled.channels channel isOpen
    rw [settled.current, settled.attempts]
    cases under with
    | adopted other => exact .inl owner
    | trying phase => exact .inr ⟨phase, by simp [Under.attempts], owner⟩
    | idle => cases owner
    | waiting timer => cases owner
  resets := settled.resets
  aborted aborted := .inl (settled.aborted aborted)
  stopped := by
    intro stopped
    rw [settled.timers, settled.current]
    rcases stopped with closed | failed
    · rw [← settled.halted closed]
      refine ⟨?_, ?_, settled.stopped closed⟩
      · cases under <;> rfl
      · cases under <;> rfl
    · rw [settled.ended failed]
      exact ⟨rfl, rfl, fun _ => settled.final failed⟩

theorem Settled.run (settled : Settled facade under) {later : Facade ι}
    (run : Run (Facade.handle options) Allowed facade later) : ∃ after, Settled later after := by
  refine run.invariant (fun facade => ∃ after, Settled facade after) ⟨under, settled⟩ ?_
  intro facade turn settled allowed
  obtain ⟨before, still⟩ := settled
  exact still.handle turn allowed

theorem Settled.run_quiet (settled : Settled facade under) (stopped : Stopped facade) {later : Facade ι}
    (run : Run (Facade.handle options) Allowed facade later) : Quiet facade later ∧ Stopped later := by
  have both : (∃ after, Settled later after) ∧ Quiet facade later ∧ Stopped later := by
    refine run.invariant (fun later => (∃ after, Settled later after) ∧ Quiet facade later ∧ Stopped later)
      ⟨⟨under, settled⟩, .refl facade, stopped⟩ ?_
    rintro middle turn ⟨⟨between, still⟩, quiet, stopped⟩ allowed
    have next : Quiet middle (middle.handle options turn) := still.quiet stopped turn
    exact ⟨still.handle turn allowed, quiet.trans next, stopped.quiet next⟩
  exact both.2

/-- Over every run from a signal that is not aborted yet, in which no session is adopted over
a closed channel and no rejected handshake leaves its channel open, the facade stays tidy;
once it was closed, aborted or failed for good it starts, schedules and adopts nothing. -/
theorem facade_tidy (unaborted : options.signal ≠ some true)
    (run : Run (handle options) Allowed (connectMille options) facade) :
    Tidy facade ∧ (Stopped facade → ∀ later, Run (handle options) Allowed facade later →
      Quiet facade later ∧ Stopped later ∧ Tidy later) := by
  obtain ⟨_, started⟩ := settled_connectMille (ι := ι) unaborted
  obtain ⟨under, settled⟩ := started.run run
  refine ⟨settled.tidy, ?_⟩
  intro stopped later run
  obtain ⟨quiet, still⟩ := settled.run_quiet stopped run
  obtain ⟨_, after⟩ := settled.run run
  exact ⟨quiet, still, after.tidy⟩

/-- Events with listeners that only listen. -/
private def heardBy (events : List (Event Nat)) : List (Turn Nat) :=
  events.map fun event => ⟨event, fun _ => .none⟩

private def redialing (signal : Option Bool) : ConnectMilleOptions := ⟨true, false, signal⟩

private def ran (signal : Option Bool) (events : List (Event Nat)) : Facade Nat :=
  (heardBy events).foldl (handle (redialing signal)) (connectMille (redialing signal))

/-- A session is adopted, lost and adopted again with another instance. -/
theorem facade_tidy_reconnect :
    let last := ran none [.dialed 0, .resume 0, .accepted 0 7, .resume 0, .snapshot 0, .resume 0,
      .channelClosed 0, .timer 0, .dialed 0, .resume 0, .accepted 0 8, .resume 0, .snapshot 0, .resume 0]
    (last.state = .online ∧ last.identityResets = [(7, 8)]) ∧ Tidy last ∧
      (Stopped last → ∀ later, Run (handle (redialing none)) Allowed last later →
        Quiet last later ∧ Stopped later ∧ Tidy later) := by
  refine ⟨by decide, ?_⟩
  exact facade_tidy (by decide) (Run.of_list _ (by decide))

/-- The channel closes between the explorer's first snapshot and the continuation that adopts the
session. -/
private def lost : Facade Nat :=
  ran none [.dialed 0, .resume 0, .accepted 0 7, .resume 0, .snapshot 0, .channelClosed 0, .resume 0]

/-- The signal is aborted before the call, and never heard. -/
private def restless : Facade Nat := ran (some true) [.resume 0, .timer 0]

/-- The host refuses the explorer's handshake with an error frame. -/
private def leaking : Facade Nat :=
  ran none [.dialed 0, .resume 0, .accepted 0 7, .resume 0, .errorFrame 0, .resume 0]

/-- The facade is online over a closed channel and dials no more; it dials again after an abort;
and it leaves a channel open that nobody will use. -/
theorem facade_untidy :
    (lost.state = .online ∧ (lost.sessions 0).isOpen = false ∧ lost.timers = [] ∧ lost.attempts = [] ∧
        ¬Tidy lost) ∧
      (restless.aborted = true ∧ restless.started = 2 ∧ ¬Tidy restless) ∧
      (leaking.sessions 0).isOpen = true ∧ leaking.current = none ∧ leaking.attempts = [] ∧ ¬Tidy leaking := by
  refine ⟨⟨by decide, by decide, by decide, by decide, ?_⟩, ⟨by decide, by decide, ?_⟩, by decide, by decide,
    by decide, ?_⟩
  · intro tidy
    obtain ⟨channel, current, isOpen⟩ := (tidy.online (by decide)).mp (by decide)
    have same : channel = 0 := (Option.some.inj current).symm
    subst same
    exact absurd isOpen (by decide)
  · intro tidy
    rcases tidy.aborted (by decide) with closed | failed
    · exact absurd closed (by decide)
    · exact absurd failed (by decide)
  · intro tidy
    rcases tidy.shut 0 (by decide) with current | ⟨phase, trying, _⟩
    · exact absurd current (by decide)
    · exact absurd trying List.not_mem_nil

end Facade

end Mille.Mesh
