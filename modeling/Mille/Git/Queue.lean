import Mille.Lib.Run
import Mille.Git.Status

/-! The status queue of one worktree session. Every critical section of the
queue's mutex is one step: `hint`, the sections of the driver, the entry into a
blocking section and the two halves of its end. -/

namespace Mille.Git

/-- What a status run should look at. -/
inductive Hints where
  | full
  | paths (names : Finset String)
deriving DecidableEq

namespace Hints

/-- Unites two hint sets; a full request wins, and so does a set too large. -/
def absorb : Hints → Hints → Hints
  | .paths own, .paths other =>
    if own ∪ other = ∅ ∨ maxHintPaths < (own ∪ other).card then .full else .paths (own ∪ other)
  | _, _ => .full

/-- `Hints::paths`, which every caller with a list of paths goes through. -/
def ofPaths (names : Finset String) : Hints :=
  absorb (.paths ∅) (.paths names)

/-- `None` is a full run. -/
def asPathspecs : Hints → Option (Finset String)
  | .full => none
  | .paths names => some names

/-- A run over the first set looks at everything the second one asks for. -/
def covers : Hints → Hints → Bool
  | .full, _ => true
  | .paths _, .full => false
  | .paths own, .paths asked => decide (asked ⊆ own)

end Hints

/-- The hints a run over these pathspecs stands for. -/
def ofPathspecs : Option (Finset String) → Hints
  | none => .full
  | some paths => .paths paths

inductive Urgency where
  | debounced
  | now
deriving DecidableEq

structure QueueOptions where
  debounce : Nat
  maxWait : Nat

/-- The state behind the queue's mutex. Instants are ticks of one clock. -/
structure QueueState where
  pending : Option Hints := none
  firstHint : Option Nat := none
  lastHint : Option Nat := none
  urgent : Bool := false
  /-- A driver task exists that has not taken the pending set. -/
  driver : Bool := false
  /-- A status is computing. -/
  running : Bool := false
  /-- The running status's interrupt flag. -/
  interrupt : Option Bool := none
  /-- Runs started so far, which is also the last run's sequence number. -/
  started : Nat := 0
  epoch : Nat := 0
  blocking : Nat := 0

namespace QueueState

/-- The run sequence that brings the snapshot up to date, or `none` when idle. -/
def settleTarget (state : QueueState) : Option Nat :=
  if state.pending.isSome ∨ state.driver ∨ 0 < state.blocking then some (state.started + 1)
  else if state.running then some state.started
  else none

/-- New hints join the pending set. -/
def joined : Option Hints → Hints → Hints
  | some pending, hints => pending.absorb hints
  | none, hints => hints

/-- The locked part of `Session::hint` on a live session, and whether a driver
has to be spawned. -/
def hint (state : QueueState) (hints : Hints) (urgency : Urgency) (now : Nat) : QueueState × Bool :=
  let queued := { state with
    pending := some (joined state.pending hints)
    firstHint := some (state.firstHint.getD now)
    lastHint := some now
    urgent := state.urgent || decide (urgency = .now) }
  if queued.driver ∨ queued.running ∨ 0 < queued.blocking then (queued, false)
  else ({ queued with driver := true }, true)

/-- Whether the debounce is over: the work is urgent, no hint is waiting, or the
deadline has passed. -/
def isDue (options : QueueOptions) (state : QueueState) (now : Nat) : Bool :=
  state.urgent || match state.firstHint, state.lastHint with
    | some first, some last =>
      decide (min (last + options.debounce) (first + options.maxWait) ≤ now)
    | _, _ => true

/-- Bumps the epoch, so that the run in flight never publishes. -/
def invalidate (state : QueueState) : QueueState :=
  { state with epoch := state.epoch + 1, interrupt := state.interrupt.map fun _ => true }

end QueueState

/-- What a driver holds of the run it has taken. -/
structure StatusRun where
  hints : Hints
  epoch : Nat
  sequence : Nat
deriving DecidableEq

/-- Where a driver task stands between two critical sections. -/
inductive Driver where
  | debouncing
  | due
  | taken (run : StatusRun)
  | computing (run : StatusRun) (pathspecs : Option (Finset String))
deriving DecidableEq

/-- The run a driver is computing, with the paths it looks at. -/
def Driver.run : Driver → Option (StatusRun × Hints)
  | .taken run => some (run, run.hints)
  | .computing run pathspecs => some (run, ofPathspecs pathspecs)
  | _ => none

/-- A call of `hint`: what it asked for and the sequence number it returned. -/
structure HintCall where
  hints : Hints
  target : Nat
deriving DecidableEq

/-- A run that was published. -/
structure Published where
  sequence : Nat
  coverage : Hints
deriving DecidableEq

/-- A call of `GitEngine::status`. `mark` is the snapshot generation at the end
of the last git command that had finished when the call was made. -/
inductive StatusCall where
  | settled (mark : Nat) (target : Option Nat)
  | asking (mark : Nat)
  | waiting (mark target : Nat)
  | returned (mark snapshot : Nat)
deriving DecidableEq

/-- One session: the queue, the tasks around it and the published snapshot, of
which only its generation and the renames it lists matter here. -/
structure Session where
  queue : QueueState := {}
  cancelled : Bool := false
  /-- Driver tasks that have not returned. -/
  drivers : List Driver := []
  /-- Idle timers, by the sequence number they were armed after. -/
  rescans : List Nat := []
  /-- Idle timers that found the session quiet and have yet to queue a run. -/
  quietRescans : Nat := 0
  /-- Rename rows of the last merged set, as `(path, orig_path)`. -/
  renames : List (String × String) := []
  generation : Nat := 0
  publishedSeq : Nat := 0
  /-- Blocking guards whose git command still runs, or has yet to. -/
  working : Nat := 0
  /-- Guards being dropped that still count as blocking. -/
  dropping : Nat := 0
  /-- Guards that ended the last blocking section and have yet to queue its run. -/
  owing : Nat := 0
  /-- The snapshot generation when a git command last finished. -/
  finishedAt : Nat := 0
  hintCalls : List HintCall := []
  /-- Every sequence number a caller was given to wait for. -/
  targets : List Nat := []
  runs : List Published := []
  statusCalls : List StatusCall := []

namespace Session

/-- The published snapshot, named by its generation. -/
def published (session : Session) : Option Nat :=
  if session.generation = 0 then none else some session.generation

/-- What `wait_published` returns when it resumes in this state. -/
def waitPublished (session : Session) (target : Nat) : Option Nat :=
  if target ≤ session.publishedSeq then session.published else none

/-- `Session::hint`: queues a run and spawns a driver unless one is at work. -/
def hint (session : Session) (hints : Hints) (urgency : Urgency) (now : Nat) : Session :=
  let target := session.queue.started + 1
  let called := { session with
    hintCalls := ⟨hints, target⟩ :: session.hintCalls
    targets := target :: session.targets }
  if session.cancelled then called
  else
    let (queue, spawn) := session.queue.hint hints urgency now
    { called with
      queue := queue
      drivers := if spawn then session.drivers ++ [.debouncing] else session.drivers }

/-- Widens pathspecs with both names of every known rename they touch. -/
def widenWithRenames (session : Session) (hints : Finset String) : Option (Finset String) :=
  let widened := session.renames.foldl (fun widened (path, orig) =>
    if path ∈ widened ∨ orig ∈ widened then insert orig (insert path widened) else widened) hints
  if widened.card ≤ maxHintPaths then some widened else none

/-- The driver's debounce check. -/
def wake (options : QueueOptions) (session : Session) (index now : Nat) : Session :=
  match session.drivers[index]? with
  | some .debouncing =>
    if session.queue.isDue options now then
      { session with drivers := session.drivers.set index .due }
    else session
  | _ => session

/-- A cancelled session's driver gives up while it waits out the debounce. -/
def abandon (session : Session) (index : Nat) : Session :=
  match session.drivers[index]? with
  | some .debouncing =>
    if session.cancelled then
      { session with
        queue := { session.queue with driver := false }
        drivers := session.drivers.eraseIdx index }
    else session
  | _ => session

/-- The driver takes the pending set and starts a run, unless a mutation owns the
worktree or nothing is pending. -/
def take (session : Session) (index : Nat) : Session :=
  match session.drivers[index]? with
  | some .due =>
    match session.queue.blocking, session.queue.pending with
    | 0, some hints =>
      let sequence := session.queue.started + 1
      { session with
        queue := { session.queue with
          pending := none, firstHint := none, lastHint := none, urgent := false
          driver := false, running := true, started := sequence, interrupt := some false }
        drivers := session.drivers.set index (.taken ⟨hints, session.queue.epoch, sequence⟩) }
    | _, _ =>
      { session with
        queue := { session.queue with driver := false }
        drivers := session.drivers.eraseIdx index }
  | _ => session

/-- The driver turns its hints into pathspecs and starts to compute. -/
def widen (session : Session) (index : Nat) : Session :=
  match session.drivers[index]? with
  | some (.taken run) =>
    let pathspecs := run.hints.asPathspecs.bind session.widenWithRenames
    { session with drivers := session.drivers.set index (.computing run pathspecs) }
  | _ => session

/-- `Session::publish`; `renames` are the rename rows of the merged set. -/
def publish (session : Session) (run : StatusRun) (pathspecs : Option (Finset String))
    (renames : List (String × String)) : Session :=
  { session with
    generation := session.generation + 1
    renames := renames
    publishedSeq := run.sequence
    runs := ⟨run.sequence, ofPathspecs pathspecs⟩ :: session.runs }

/-- The section that ends a run: it publishes unless the run was invalidated, and
goes on at once when hints arrived meanwhile. -/
def finish (session : Session) (index : Nat) (renames : List (String × String)) : Session :=
  match session.drivers[index]? with
  | some (.computing run pathspecs) =>
    let publishes := session.queue.epoch = run.epoch ∧ ¬ session.cancelled
    let ended := { session with
      queue := { session.queue with running := false, interrupt := none } }
    let ended := if publishes then ended.publish run pathspecs renames else ended
    if session.queue.pending.isSome ∧ session.queue.blocking = 0 ∧ ¬ session.cancelled then
      { ended with
        queue := { ended.queue with urgent := true, driver := true }
        drivers := session.drivers.set index .debouncing }
    else
      { ended with
        drivers := session.drivers.eraseIdx index
        rescans := if publishes ∧ pathspecs.isSome then run.sequence :: session.rescans
          else session.rescans }
  | _ => session

/-- An idle timer fires and looks whether the session stayed quiet. -/
def rescanFires (session : Session) (index : Nat) : Session :=
  match session.rescans[index]? with
  | some sequence =>
    let fired := { session with rescans := session.rescans.eraseIdx index }
    if session.cancelled then fired
    else if session.queue.started = sequence ∧ ¬ session.queue.running
        ∧ session.queue.pending = none then
      { fired with quietRescans := session.quietRescans + 1 }
    else fired
  | none => session

/-- An idle timer that found the session quiet queues its full run. -/
def rescanHint (session : Session) (now : Nat) : Session :=
  match session.quietRescans with
  | 0 => session
  | left + 1 => ({ session with quietRescans := left }).hint .full .now now

/-- `Session::blocking`: enters a blocking section. -/
def enter (session : Session) : Session :=
  { session with
    queue := { session.queue with blocking := session.queue.blocking + 1 }.invalidate
    working := session.working + 1 }

/-- A guard's git command has finished; the guard is about to be dropped. -/
def commandDone (session : Session) : Session :=
  match session.working with
  | 0 => session
  | left + 1 =>
    { session with
      working := left, dropping := session.dropping + 1, finishedAt := session.generation }

/-- First half of a guard's drop: it leaves the blocking section. -/
def release (session : Session) : Session :=
  match session.dropping with
  | 0 => session
  | left + 1 =>
    let blocking := session.queue.blocking - 1
    { session with
      queue := { session.queue with blocking := blocking }
      dropping := left
      owing := if blocking = 0 then session.owing + 1 else session.owing }

/-- Second half of a guard's drop: the last guard out queues a full run. -/
def settleDebt (session : Session) (now : Nat) : Session :=
  match session.owing with
  | 0 => session
  | left + 1 => ({ session with owing := left }).hint .full .now now

/-- `status` reads the settle target. -/
def statusSettles (session : Session) : Session :=
  { session with
    statusCalls := .settled session.finishedAt session.queue.settleTarget :: session.statusCalls
    targets := session.queue.settleTarget.toList ++ session.targets }

/-- `status` reads the published snapshot and decides what to wait for. -/
def statusReads (session : Session) (index : Nat) : Session :=
  match session.statusCalls[index]? with
  | some (.settled mark target) =>
    let next := match target, session.published with
      | none, some snapshot => .returned mark snapshot
      | none, none => .asking mark
      | some target, _ => .waiting mark target
    { session with statusCalls := session.statusCalls.set index next }
  | _ => session

/-- `status` found no snapshot at all and queues a full run. -/
def statusAsks (session : Session) (index now : Nat) : Session :=
  match session.statusCalls[index]? with
  | some (.asking mark) =>
    let target := session.queue.started + 1
    { session.hint .full .now now with
      statusCalls := session.statusCalls.set index (.waiting mark target) }
  | _ => session

/-- A waiting `status` returns once its target has been published. -/
def statusReturns (session : Session) (index : Nat) : Session :=
  match session.statusCalls[index]? with
  | some (.waiting mark target) =>
    match session.waitPublished target with
    | some snapshot =>
      { session with statusCalls := session.statusCalls.set index (.returned mark snapshot) }
    | none => session
  | _ => session

/-- `shutdown` cancels first, then interrupts the status in flight. -/
def interruptStatus (session : Session) : Session :=
  if session.cancelled then { session with queue := session.queue.invalidate } else session

end Session

/-- The atomic steps of a session. A step that is not enabled does nothing. -/
inductive QueueStep where
  | hint (hints : Hints) (urgency : Urgency) (now : Nat)
  | wake (index now : Nat)
  | abandon (index : Nat)
  | take (index : Nat)
  | widen (index : Nat)
  | finish (index : Nat) (renames : List (String × String))
  | rescanFires (index : Nat)
  | rescanHint (now : Nat)
  | enter
  | commandDone
  | release
  | settleDebt (now : Nat)
  | statusSettles
  | statusReads (index : Nat)
  | statusAsks (index now : Nat)
  | statusReturns (index : Nat)
  | cancel
  | interruptStatus

namespace Session

def step (options : QueueOptions) (session : Session) : QueueStep → Session
  | .hint hints urgency now => session.hint hints urgency now
  | .wake index now => session.wake options index now
  | .abandon index => session.abandon index
  | .take index => session.take index
  | .widen index => session.widen index
  | .finish index renames => session.finish index renames
  | .rescanFires index => session.rescanFires index
  | .rescanHint now => session.rescanHint now
  | .enter => session.enter
  | .commandDone => session.commandDone
  | .release => session.release
  | .settleDebt now => session.settleDebt now
  | .statusSettles => session.statusSettles
  | .statusReads index => session.statusReads index
  | .statusAsks index now => session.statusAsks index now
  | .statusReturns index => session.statusReturns index
  | .cancel => { session with cancelled := true }
  | .interruptStatus => session.interruptStatus

end Session

end Mille.Git
