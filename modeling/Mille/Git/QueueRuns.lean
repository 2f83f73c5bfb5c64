import Mille.Git.Queue

/-! What the queue keeps along every run: one driver task at a time, every hint
carried by something that is still to publish or has published, and work under
way for everyone who waits. -/

namespace Mille.Git

namespace Hints

@[simp] theorem covers_self (hints : Hints) : hints.covers hints = true := by
  cases hints <;> simp [covers]

@[simp] theorem full_covers (hints : Hints) : Hints.full.covers hints = true := by
  cases hints <;> rfl

theorem covers_trans {first second third : Hints} (outer : first.covers second = true)
    (inner : second.covers third = true) : first.covers third = true := by
  cases first with
  | full => simp
  | paths own =>
    cases second with
    | full => simp [covers] at outer
    | paths middle =>
      cases third with
      | full => simp [covers] at inner
      | paths asked =>
        simp only [covers, decide_eq_true_eq] at outer inner ⊢
        exact inner.trans outer

theorem absorb_covers_left (own other : Hints) : (own.absorb other).covers own = true := by
  cases own <;> cases other <;> simp [absorb]
  split
  · simp
  · simp [covers]

theorem absorb_covers_right (own other : Hints) : (own.absorb other).covers other = true := by
  cases own <;> cases other <;> simp [absorb]
  split
  · simp
  · simp [covers]

@[simp] theorem absorb_full (own : Hints) : own.absorb .full = .full := by
  cases own <;> rfl

@[simp] theorem full_absorb (other : Hints) : Hints.full.absorb other = .full := by
  cases other <;> rfl

@[simp] theorem ofPathspecs_asPathspecs (hints : Hints) : ofPathspecs hints.asPathspecs = hints := by
  cases hints <;> rfl

end Hints

namespace Session

variable {session after : Session} {options : QueueOptions}

private theorem widened_superset (renames : List (String × String)) (hints : Finset String) :
    hints ⊆ renames.foldl (fun widened (path, orig) =>
      if path ∈ widened ∨ orig ∈ widened then insert orig (insert path widened) else widened)
      hints := by
  induction renames generalizing hints with
  | nil => exact subset_rfl
  | cons head tail ih =>
    refine subset_trans ?_ (ih _)
    dsimp only
    split
    · intro path member
      simp [member]
    · exact subset_rfl

theorem widened_covers (session : Session) (hints : Hints) :
    (ofPathspecs (hints.asPathspecs.bind session.widenWithRenames)).covers hints = true := by
  cases hints with
  | full => rfl
  | paths names =>
    simp only [Hints.asPathspecs, Option.bind_some, widenWithRenames]
    split
    · simpa [ofPathspecs, Hints.covers] using widened_superset session.renames names
    · rfl

/-- The driver tasks against the two flags of the queue. -/
inductive Phase (queue : QueueState) : List Driver → Prop where
  | idle (noDriver : queue.driver = false) (stopped : queue.running = false) : Phase queue []
  | armed {task : Driver} (waits : task = .debouncing ∨ task = .due)
      (hasDriver : queue.driver = true) (stopped : queue.running = false)
      (queued : queue.pending.isSome = true) : Phase queue [task]
  | computing {task : Driver} {run : StatusRun} {coverage : Hints}
      (works : task.run = some (run, coverage)) (noDriver : queue.driver = false)
      (runs : queue.running = true) (last : run.sequence = queue.started) : Phase queue [task]

/-- A full run is queued, or a blocking section is active or has yet to queue one. -/
def Obliged (session : Session) : Prop :=
  0 < session.queue.blocking ∨ 0 < session.owing ∨ session.queue.pending = some .full

/-- A task computes this run over this coverage. -/
def Computes (session : Session) (run : StatusRun) (coverage : Hints) : Prop :=
  ∃ task ∈ session.drivers, task.run = some (run, coverage)

/-- A published run covers the call and started after it. -/
def Answered (session : Session) (call : HintCall) : Prop :=
  ∃ run ∈ session.runs, call.target ≤ run.sequence ∧ run.coverage.covers call.hints = true

/-- Where the paths of a hint call are. -/
inductive Carried (session : Session) (call : HintCall) : Prop where
  | pending {hints : Hints} (queued : session.queue.pending = some hints)
      (covered : hints.covers call.hints = true)
  | running {run : StatusRun} {coverage : Hints} (computes : session.Computes run coverage)
      (current : run.epoch = session.queue.epoch) (later : call.target ≤ run.sequence)
      (covered : coverage.covers call.hints = true)
  | published (answered : session.Answered call)
  | blocked (active : 0 < session.queue.blocking)
  | owed (owes : 0 < session.owing)

/-- The invariant of the queue. On a cancelled session only its shape is kept. -/
structure Coherent (session : Session) : Prop where
  phase : Phase session.queue session.drivers
  guards : session.queue.blocking = session.working + session.dropping
  stale : ∀ run coverage, session.Computes run coverage →
    run.epoch = session.queue.epoch ∨ session.Obliged ∨ session.cancelled = true
  taken : session.queue.pending.isSome = true → session.queue.driver = true ∨
    session.queue.running = true ∨ 0 < session.queue.blocking ∨ 0 < session.owing ∨
    session.cancelled = true
  published : session.publishedSeq ≤ session.queue.started
  unpublished : session.queue.running = true → session.publishedSeq < session.queue.started
  dropped : session.queue.running = false → session.publishedSeq < session.queue.started →
    session.Obliged ∨ session.cancelled = true
  reached : ∀ call ∈ session.hintCalls, call.target ≤ session.queue.started + 1
  carried : ∀ call ∈ session.hintCalls, session.Carried call ∨ session.cancelled = true
  awaited : ∀ target ∈ session.targets, target ≤ session.queue.started ∨
    (target = session.queue.started + 1 ∧ (session.queue.pending.isSome = true ∨
      0 < session.queue.blocking ∨ 0 < session.owing)) ∨ session.cancelled = true

theorem coherent_start : Coherent {} where
  phase := .idle rfl rfl
  guards := rfl
  stale := by simp [Computes]
  taken := by simp
  published := le_rfl
  unpublished := by simp
  dropped := by simp
  reached := by simp
  carried := by simp
  awaited := by simp

/-- What `hint` does to the queue of a live session. -/
structure Queued (before after : QueueState) (hints : Hints) (spawn : Bool) : Prop where
  started : after.started = before.started
  epoch : after.epoch = before.epoch
  blocking : after.blocking = before.blocking
  running : after.running = before.running
  pending : ∃ queued, after.pending = some queued ∧ queued.covers hints = true ∧
    (∀ earlier, before.pending = some earlier → queued.covers earlier = true) ∧
    (hints = .full ∨ before.pending = some .full → queued = .full)
  spawned : spawn = true ↔
    before.driver = false ∧ before.running = false ∧ before.blocking = 0
  driver : after.driver = (before.driver || spawn)

private theorem absorbed_pending (before : Option Hints) (hints : Hints) :
    ∃ queued, some (QueueState.joined before hints) = some queued ∧ queued.covers hints = true ∧
      (∀ earlier, before = some earlier → queued.covers earlier = true) ∧
      (hints = .full ∨ before = some .full → queued = .full) := by
  cases before with
  | none => exact ⟨hints, rfl, by simp⟩
  | some earlier =>
    refine ⟨earlier.absorb hints, rfl, Hints.absorb_covers_right _ _, ?_, ?_⟩
    · rintro _ ⟨⟩
      exact Hints.absorb_covers_left _ _
    · rintro (rfl | same)
      · simp
      · simp only [Option.some.injEq] at same
        simp [same]

theorem queued_hint (state : QueueState) (hints : Hints) (urgency : Urgency) (now : Nat) :
    Queued state (state.hint hints urgency now).1 hints (state.hint hints urgency now).2 := by
  unfold QueueState.hint
  dsimp only
  split
  · rename_i busy
    refine ⟨rfl, rfl, rfl, rfl, absorbed_pending state.pending hints, ?_, by simp⟩
    simp only [Bool.false_eq_true, false_iff, not_and]
    intro noDriver stopped free
    simp [noDriver, stopped, free] at busy
  · rename_i free
    refine ⟨rfl, rfl, rfl, rfl, absorbed_pending state.pending hints, ?_, by simp⟩
    simpa using free

theorem Phase.queued {before queue : QueueState} {drivers : List Driver} {hints : Hints}
    {spawn : Bool} (phase : Phase before drivers) (queued : Queued before queue hints spawn) :
    Phase queue (if spawn then drivers ++ [.debouncing] else drivers) := by
  obtain ⟨joined, pending, -⟩ := queued.pending
  have isSome : queue.pending.isSome = true := by simp [pending]
  cases phase with
  | idle noDriver stopped =>
    cases spawn with
    | true => exact .armed (.inl rfl) (by simp [queued.driver]) (by rw [queued.running, stopped]) isSome
    | false => exact .idle (by simp [queued.driver, noDriver]) (by rw [queued.running, stopped])
  | armed waits hasDriver stopped =>
    have same : spawn = false := by
      by_contra other
      have idle := queued.spawned.mp (Bool.eq_true_of_not_eq_false other)
      simp [hasDriver] at idle
    subst same
    exact .armed waits (by simp [queued.driver, hasDriver]) (by rw [queued.running, stopped]) isSome
  | computing works noDriver runs last =>
    have same : spawn = false := by
      by_contra other
      have idle := queued.spawned.mp (Bool.eq_true_of_not_eq_false other)
      simp [runs] at idle
    subst same
    exact .computing works (by simp [queued.driver, noDriver]) (by rw [queued.running, runs])
      (by rw [queued.started, last])

/-- A queued hint keeps the invariant, also when it pays a debt with a full run. -/
theorem Coherent.queued (coherent : Coherent session) {owing : Nat} {hints : Hints}
    {queue : QueueState} {spawn : Bool} (live : session.cancelled = false)
    (pays : owing = session.owing ∨ hints = .full)
    (queued : Queued session.queue queue hints spawn) :
    Coherent { session with
      owing := owing
      queue := queue
      drivers := if spawn then session.drivers ++ [.debouncing] else session.drivers
      hintCalls := ⟨hints, session.queue.started + 1⟩ :: session.hintCalls
      targets := (session.queue.started + 1) :: session.targets } := by
  obtain ⟨joined, pending, asked, earlier, full⟩ := queued.pending
  have computes : ∀ run coverage, (∃ task ∈ (if spawn then session.drivers ++ [.debouncing]
      else session.drivers), task.run = some (run, coverage)) → session.Computes run coverage := by
    rintro run coverage ⟨task, member, works⟩
    cases spawn with
    | true =>
      rcases List.mem_append.mp member with old | new
      · exact ⟨task, old, works⟩
      · simp only [List.mem_singleton] at new
        simp [new, Driver.run] at works
    | false => exact ⟨task, member, works⟩
  have kept : ∀ task ∈ session.drivers,
      task ∈ (if spawn then session.drivers ++ [.debouncing] else session.drivers) := by
    intro task member
    cases spawn <;> simp [member]
  have obliged : session.Obliged → 0 < queue.blocking ∨ 0 < owing ∨ queue.pending = some .full := by
    rintro (active | owes | isFull)
    · exact .inl (by rw [queued.blocking]; exact active)
    · rcases pays with rfl | rfl
      · exact .inr (.inl owes)
      · exact .inr (.inr (by rw [pending, full (.inl rfl)]))
    · exact .inr (.inr (by rw [pending, full (.inr isFull)]))
  constructor
  · exact coherent.phase.queued queued
  · exact queued.blocking.trans coherent.guards
  · intro run coverage works
    rcases coherent.stale run coverage (computes run coverage works) with current | owes | gone
    · exact .inl (current.trans queued.epoch.symm)
    · exact .inr (.inl (obliged owes))
    · exact .inr (.inr gone)
  · intro _
    by_cases spawned : spawn = true
    · exact .inl (by simp [queued.driver, spawned])
    · have busy := mt queued.spawned.mpr spawned
      simp only [queued.driver, queued.running, queued.blocking, spawned, Bool.or_false]
      grind
  · rw [queued.started]
    exact coherent.published
  · rw [queued.running, queued.started]
    exact coherent.unpublished
  · intro stopped behind
    rw [queued.running] at stopped
    rw [queued.started] at behind
    exact (coherent.dropped stopped behind).imp obliged id
  · intro call member
    rw [queued.started]
    rcases List.mem_cons.mp member with rfl | old
    · exact le_rfl
    · exact coherent.reached call old
  · intro call member
    left
    rcases List.mem_cons.mp member with rfl | old
    · exact .pending pending asked
    · rcases coherent.carried call old with carried | gone
      · cases carried with
        | pending was covered => exact .pending pending (Hints.covers_trans (earlier _ was) covered)
        | running works current later covered =>
          obtain ⟨task, member, runs⟩ := works
          exact .running ⟨task, kept task member, runs⟩ (current.trans queued.epoch.symm) later covered
        | published answered => exact .published answered
        | blocked active => exact .blocked (by rw [queued.blocking]; exact active)
        | owed owes =>
          rcases pays with rfl | rfl
          · exact .owed owes
          · exact .pending pending (by rw [full (.inl rfl)]; simp)
      · simp [live] at gone
  · intro target member
    rw [queued.started]
    rcases List.mem_cons.mp member with rfl | old
    · exact .inr (.inl ⟨rfl, .inl (by simp [pending])⟩)
    · rcases coherent.awaited target old with reached | ⟨next, -⟩ | gone
      · exact .inl reached
      · exact .inr (.inl ⟨next, .inl (by simp [pending])⟩)
      · exact .inr (.inr gone)

theorem Coherent.cancelled (coherent : Coherent session) (gone : session.cancelled = true)
    {owing : Nat} {calls : List HintCall} {targets : List Nat}
    (reached : ∀ call ∈ calls, call.target ≤ session.queue.started + 1) :
    Coherent { session with owing := owing, hintCalls := calls, targets := targets } where
  phase := coherent.phase
  guards := coherent.guards
  stale := fun _ _ _ => .inr (.inr gone)
  taken := fun _ => .inr (.inr (.inr (.inr gone)))
  published := coherent.published
  unpublished := coherent.unpublished
  dropped := fun _ _ => .inr gone
  reached := reached
  carried := fun _ _ => .inr gone
  awaited := fun _ _ => .inr (.inr gone)

theorem Coherent.hint (coherent : Coherent session) {owing : Nat} {hints : Hints}
    (pays : owing = session.owing ∨ hints = .full) (urgency : Urgency) (now : Nat) :
    Coherent (({ session with owing := owing }).hint hints urgency now) := by
  unfold Session.hint
  dsimp only
  split
  · rename_i gone
    apply coherent.cancelled gone
    intro call member
    rcases List.mem_cons.mp member with rfl | old
    · exact le_rfl
    · exact coherent.reached call old
  · rename_i live
    exact coherent.queued (Bool.eq_false_of_not_eq_true live) pays (queued_hint _ hints urgency now)

theorem Phase.alone {queue : QueueState} {drivers : List Driver} {index : Nat} {task : Driver}
    (phase : Phase queue drivers) (found : drivers[index]? = some task) :
    index = 0 ∧ drivers = [task] := by
  cases phase with
  | idle => simp at found
  | armed | computing =>
    cases index with
    | zero => simpa using found
    | succ => simp at found

theorem Phase.armed_of_waiting {queue : QueueState} {task : Driver} (phase : Phase queue [task])
    (waits : task.run = none) :
    queue.driver = true ∧ queue.running = false ∧ queue.pending.isSome = true := by
  cases phase with
  | armed _ hasDriver stopped queued => exact ⟨hasDriver, stopped, queued⟩
  | computing works => simp [waits] at works

theorem Phase.computing_of_run {queue : QueueState} {task : Driver} {run : StatusRun}
    {coverage : Hints} (phase : Phase queue [task]) (works : task.run = some (run, coverage)) :
    queue.driver = false ∧ queue.running = true ∧ run.sequence = queue.started := by
  cases phase with
  | armed waits =>
    rcases waits with rfl | rfl <;> simp [Driver.run] at works
  | computing found noDriver runs last =>
    rw [works] at found
    simp only [Option.some.injEq, Prod.mk.injEq] at found
    exact ⟨noDriver, runs, by rw [found.1, last]⟩

theorem computes_alone {task : Driver} {run : StatusRun} {coverage : Hints}
    (alone : session.drivers = [task]) :
    session.Computes run coverage ↔ task.run = some (run, coverage) := by
  simp [Computes, alone]

theorem Coherent.wake (coherent : Coherent session) (index now : Nat) :
    Coherent (session.wake options index now) := by
  unfold Session.wake
  split
  · rename_i found
    obtain ⟨rfl, alone⟩ := coherent.phase.alone found
    obtain ⟨hasDriver, stopped, queued⟩ :=
      Phase.armed_of_waiting (alone ▸ coherent.phase) (by rfl)
    split
    · refine ⟨?_, coherent.guards, ?_, coherent.taken, coherent.published, coherent.unpublished,
        coherent.dropped, coherent.reached, ?_, coherent.awaited⟩
      · simpa [alone] using Phase.armed (.inr rfl) hasDriver stopped queued
      · rintro run coverage ⟨task, member, works⟩
        simp only [alone, List.set_cons_zero, List.mem_singleton] at member
        simp [member, Driver.run] at works
      · intro call member
        refine (coherent.carried call member).imp (fun carried => ?_) id
        cases carried with
        | pending was covered => exact .pending was covered
        | running works =>
          rw [computes_alone alone] at works
          simp [Driver.run] at works
        | published answered => exact .published answered
        | blocked active => exact .blocked active
        | owed owes => exact .owed owes
    · exact coherent
  · exact coherent

theorem Coherent.abandon (coherent : Coherent session) (index : Nat) :
    Coherent (session.abandon index) := by
  unfold Session.abandon
  split
  · rename_i found
    obtain ⟨rfl, alone⟩ := coherent.phase.alone found
    obtain ⟨-, stopped, -⟩ := Phase.armed_of_waiting (alone ▸ coherent.phase) (by rfl)
    split
    · rename_i gone
      refine ⟨?_, coherent.guards, fun _ _ _ => .inr (.inr gone),
        fun _ => .inr (.inr (.inr (.inr gone))), coherent.published, coherent.unpublished,
        fun _ _ => .inr gone, coherent.reached, fun _ _ => .inr gone,
        fun _ _ => .inr (.inr gone)⟩
      simpa [alone] using @Phase.idle { session.queue with driver := false } rfl stopped
    · exact coherent
  · exact coherent

/-- The driver's second section either starts a run over the whole pending set or
leaves it to the end of a blocking section. -/
theorem take_cases (session : Session) (index : Nat) :
    session.take index = session ∨
    (session.drivers[index]? = some .due ∧
      ∃ hints, session.queue.blocking = 0 ∧ session.queue.pending = some hints ∧
      session.take index = { session with
        queue := { session.queue with
          pending := none, firstHint := none, lastHint := none, urgent := false
          driver := false, running := true, started := session.queue.started + 1
          interrupt := some false }
        drivers := session.drivers.set index
          (.taken ⟨hints, session.queue.epoch, session.queue.started + 1⟩) }) ∨
    (session.drivers[index]? = some .due ∧
      (0 < session.queue.blocking ∨ session.queue.pending = none) ∧
      session.take index = { session with
        queue := { session.queue with driver := false }
        drivers := session.drivers.eraseIdx index }) := by
  unfold Session.take
  split
  · rename_i found
    split
    · rename_i hints free pending
      exact .inr (.inl ⟨found, hints, free, pending, rfl⟩)
    · rename_i other
      refine .inr (.inr ⟨found, ?_, rfl⟩)
      rcases Nat.eq_zero_or_pos session.queue.blocking with free | active
      · right
        cases pending : session.queue.pending with
        | none => rfl
        | some hints => exact (other hints free pending).elim
      · exact .inl active
  · exact .inl rfl

theorem Coherent.take (coherent : Coherent session) (index : Nat) :
    Coherent (session.take index) := by
  rcases session.take_cases index with same | ⟨found, hints, free, pending, same⟩ |
    ⟨found, idle, same⟩
  · rw [same]
    exact coherent
  · rw [same]
    obtain ⟨rfl, alone⟩ := coherent.phase.alone found
    obtain ⟨-, stopped, -⟩ := Phase.armed_of_waiting (alone ▸ coherent.phase) (by rfl)
    -- the new run is the only one, and it is of the current epoch
    refine ⟨?_, coherent.guards, ?_, by simp, ?_, ?_, by simp, ?_, ?_, ?_⟩
    · simp only [alone, List.set_cons_zero]
      exact .computing rfl rfl rfl rfl
    · rintro run coverage ⟨task, member, works⟩
      simp only [alone, List.set_cons_zero, List.mem_singleton] at member
      subst member
      simp only [Driver.run, Option.some.injEq, Prod.mk.injEq] at works
      exact .inl (by rw [← works.1])
    · exact coherent.published.trans (Nat.le_succ _)
    · exact fun _ => Nat.lt_succ_of_le coherent.published
    · exact fun call member => (coherent.reached call member).trans (Nat.le_succ _)
    · intro call member
      refine (coherent.carried call member).imp (fun carried => ?_) id
      cases carried with
      | pending was covered =>
        rw [pending] at was
        cases was
        refine .running ⟨.taken ⟨hints, session.queue.epoch, session.queue.started + 1⟩, ?_, rfl⟩
          rfl (coherent.reached call member) covered
        simp [alone]
      | running works =>
        rw [computes_alone alone] at works
        simp [Driver.run] at works
      | published answered => exact .published answered
      | blocked active => exact absurd free (Nat.ne_of_gt active)
      | owed owes => exact .owed owes
    · intro target member
      rcases coherent.awaited target member with reached | ⟨next, -⟩ | gone
      · exact .inl (reached.trans (Nat.le_succ _))
      · exact .inl (le_of_eq next)
      · exact .inr (.inr gone)
  · rw [same]
    obtain ⟨rfl, alone⟩ := coherent.phase.alone found
    obtain ⟨-, stopped, queued⟩ := Phase.armed_of_waiting (alone ▸ coherent.phase) (by rfl)
    have active : 0 < session.queue.blocking := by
      rcases idle with active | nothing
      · exact active
      · simp [nothing] at queued
    refine ⟨?_, coherent.guards, ?_, fun _ => .inr (.inr (.inl active)), coherent.published,
      coherent.unpublished, coherent.dropped, coherent.reached,
      fun _ _ => .inl (.blocked active), coherent.awaited⟩
    · simpa [alone] using @Phase.idle { session.queue with driver := false } rfl stopped
    · exact fun _ _ _ => .inr (.inl (.inl active))

theorem Coherent.widen (coherent : Coherent session) (index : Nat) :
    Coherent (session.widen index) := by
  unfold Session.widen
  split
  · rename_i run found
    obtain ⟨rfl, alone⟩ := coherent.phase.alone found
    obtain ⟨noDriver, runs, last⟩ := Phase.computing_of_run (alone ▸ coherent.phase) (by rfl)
    dsimp only
    refine ⟨?_, coherent.guards, ?_, coherent.taken, coherent.published, coherent.unpublished,
      coherent.dropped, coherent.reached, ?_, coherent.awaited⟩
    · simp only [alone, List.set_cons_zero]
      exact .computing rfl noDriver runs last
    · rintro other coverage ⟨task, member, works⟩
      simp only [alone, List.set_cons_zero, List.mem_singleton] at member
      subst member
      simp only [Driver.run, Option.some.injEq, Prod.mk.injEq] at works
      rw [← works.1]
      exact coherent.stale run run.hints ((computes_alone alone).mpr rfl)
    · intro call member
      refine (coherent.carried call member).imp (fun carried => ?_) id
      cases carried with
      | pending was covered => exact .pending was covered
      | running works current later covered =>
        rw [computes_alone alone] at works
        simp only [Driver.run, Option.some.injEq, Prod.mk.injEq] at works
        obtain ⟨rfl, rfl⟩ := works
        refine .running ⟨.computing run _, ?_, rfl⟩ current later
          (Hints.covers_trans (session.widened_covers run.hints) covered)
        simp [alone]
      | published answered => exact .published answered
      | blocked active => exact .blocked active
      | owed owes => exact .owed owes
  · exact coherent

/-- What the section that ends a run does. -/
structure Ended (before after : Session) (index : Nat) (run : StatusRun)
    (pathspecs : Option (Finset String)) : Prop where
  started : after.queue.started = before.queue.started
  epoch : after.queue.epoch = before.queue.epoch
  blocking : after.queue.blocking = before.queue.blocking
  pending : after.queue.pending = before.queue.pending
  running : after.queue.running = false
  cancelled : after.cancelled = before.cancelled
  working : after.working = before.working
  dropping : after.dropping = before.dropping
  owing : after.owing = before.owing
  finishedAt : after.finishedAt = before.finishedAt
  hintCalls : after.hintCalls = before.hintCalls
  targets : after.targets = before.targets
  statusCalls : after.statusCalls = before.statusCalls
  outcome : (before.queue.epoch = run.epoch ∧ before.cancelled = false ∧
      after.generation = before.generation + 1 ∧ after.publishedSeq = run.sequence ∧
      after.runs = ⟨run.sequence, ofPathspecs pathspecs⟩ :: before.runs) ∨
    ((before.queue.epoch = run.epoch → before.cancelled = true) ∧
      after.generation = before.generation ∧ after.publishedSeq = before.publishedSeq ∧
      after.runs = before.runs)
  next : (before.queue.pending.isSome = true ∧ after.queue.driver = true ∧
      after.drivers = before.drivers.set index .debouncing) ∨
    ((before.queue.pending.isSome = true → 0 < before.queue.blocking ∨ before.cancelled = true) ∧
      after.queue.driver = before.queue.driver ∧ after.drivers = before.drivers.eraseIdx index)

theorem finish_cases (session : Session) (index : Nat) (renames : List (String × String)) :
    session.finish index renames = session ∨
    ∃ run pathspecs, session.drivers[index]? = some (.computing run pathspecs) ∧
      Ended session (session.finish index renames) index run pathspecs := by
  unfold Session.finish
  split
  · rename_i run pathspecs found
    refine .inr ⟨run, pathspecs, found, ?_⟩
    by_cases publishes : session.queue.epoch = run.epoch ∧ ¬ session.cancelled = true
    · have live := Bool.eq_false_of_not_eq_true publishes.2
      simp only [if_pos publishes]
      split
      · rename_i reruns
        exact ⟨rfl, rfl, rfl, rfl, rfl, rfl, rfl, rfl, rfl, rfl, rfl, rfl, rfl,
          .inl ⟨publishes.1, live, rfl, rfl, rfl⟩, .inl ⟨reruns.1, rfl, rfl⟩⟩
      · rename_i stops
        refine ⟨rfl, rfl, rfl, rfl, rfl, rfl, rfl, rfl, rfl, rfl, rfl, rfl, rfl,
          .inl ⟨publishes.1, live, rfl, rfl, rfl⟩, .inr ⟨?_, rfl, rfl⟩⟩
        intro queued
        simp only [queued, live, Bool.false_eq_true, not_false_eq_true, and_true, true_and] at stops
        exact .inl (Nat.pos_of_ne_zero stops)
    · have silent : session.queue.epoch = run.epoch → session.cancelled = true := by
        intro current
        by_contra live
        exact publishes ⟨current, live⟩
      simp only [if_neg publishes]
      split
      · rename_i reruns
        exact ⟨rfl, rfl, rfl, rfl, rfl, rfl, rfl, rfl, rfl, rfl, rfl, rfl, rfl,
          .inr ⟨silent, rfl, rfl, rfl⟩, .inl ⟨reruns.1, rfl, rfl⟩⟩
      · rename_i stops
        refine ⟨rfl, rfl, rfl, rfl, rfl, rfl, rfl, rfl, rfl, rfl, rfl, rfl, rfl,
          .inr ⟨silent, rfl, rfl, rfl⟩, .inr ⟨?_, rfl, rfl⟩⟩
        intro queued
        by_contra idle
        simp only [not_or, Nat.not_lt, Nat.le_zero] at idle
        exact stops ⟨queued, idle.1, idle.2⟩
  · exact .inl rfl

theorem Ended.obliged {run : StatusRun} {pathspecs : Option (Finset String)} {index : Nat}
    (ended : Ended session after index run pathspecs) :
    after.Obliged ↔ session.Obliged := by
  unfold Obliged
  rw [ended.blocking, ended.owing, ended.pending]

theorem Coherent.finish (coherent : Coherent session) (index : Nat)
    (renames : List (String × String)) : Coherent (session.finish index renames) := by
  rcases session.finish_cases index renames with same | ⟨run, pathspecs, found, ended⟩
  · rw [same]
    exact coherent
  obtain ⟨rfl, alone⟩ := coherent.phase.alone found
  obtain ⟨noDriver, runs, last⟩ := Phase.computing_of_run (alone ▸ coherent.phase) (by rfl)
  have stale := coherent.stale run (ofPathspecs pathspecs) ((computes_alone alone).mpr rfl)
  have silent : ∀ run coverage, ¬ (session.finish 0 renames).Computes run coverage := by
    rintro other coverage ⟨task, member, works⟩
    rcases ended.next with ⟨-, -, next⟩ | ⟨-, -, next⟩
    · simp only [next, alone, List.set_cons_zero, List.mem_singleton] at member
      simp [member, Driver.run] at works
    · simp [next, alone] at member
  have behind := coherent.unpublished runs
  constructor
  · rcases ended.next with ⟨queued, driver, next⟩ | ⟨-, driver, next⟩
    · simp only [next, alone, List.set_cons_zero]
      exact .armed (.inl rfl) driver ended.running (by rw [ended.pending, queued])
    · simp only [next, alone, List.eraseIdx_cons_zero]
      exact .idle (driver.trans noDriver) ended.running
  · rw [ended.blocking, ended.working, ended.dropping]
    exact coherent.guards
  · exact fun run coverage works => (silent run coverage works).elim
  · rw [ended.pending, ended.blocking, ended.owing, ended.cancelled]
    intro queued
    rcases ended.next with ⟨-, driver, -⟩ | ⟨stops, -, -⟩
    · exact .inl driver
    · rcases stops queued with active | gone
      · exact .inr (.inr (.inl active))
      · exact .inr (.inr (.inr (.inr gone)))
  · rw [ended.started]
    rcases ended.outcome with ⟨-, -, -, sequence, -⟩ | ⟨-, -, sequence, -⟩
    · rw [sequence, last]
    · rw [sequence]
      exact behind.le
  · simp [ended.running]
  · rw [ended.started, ended.obliged, ended.cancelled]
    intro _ unpublished
    rcases ended.outcome with ⟨-, -, -, sequence, -⟩ | ⟨dropped, -, -, -⟩
    · rw [sequence, last] at unpublished
      exact absurd unpublished (lt_irrefl _)
    · rcases stale with current | owes | gone
      · exact .inr (dropped current.symm)
      · exact .inl owes
      · exact .inr gone
  · rw [ended.hintCalls, ended.started]
    exact coherent.reached
  · rw [ended.hintCalls, ended.cancelled]
    intro call member
    rcases coherent.carried call member with carried | gone
    · cases carried with
      | pending was covered => exact .inl (.pending (ended.pending.trans was) covered)
      | running works current later covered =>
        rw [computes_alone alone] at works
        simp only [Driver.run, Option.some.injEq, Prod.mk.injEq] at works
        obtain ⟨rfl, rfl⟩ := works
        rcases ended.outcome with ⟨-, -, -, -, history⟩ | ⟨dropped, -⟩
        · exact .inl (.published ⟨_, by rw [history]; exact List.mem_cons_self, later, covered⟩)
        · exact .inr (dropped current.symm)
      | published answered =>
        obtain ⟨published, member, facts⟩ := answered
        refine .inl (.published ⟨published, ?_, facts⟩)
        rcases ended.outcome with ⟨-, -, -, -, history⟩ | ⟨-, -, -, history⟩
        · rw [history]
          exact List.mem_cons_of_mem _ member
        · rw [history]
          exact member
      | blocked active => exact .inl (.blocked (by rw [ended.blocking]; exact active))
      | owed owes => exact .inl (.owed (by rw [ended.owing]; exact owes))
    · exact .inr gone
  · rw [ended.targets, ended.started, ended.pending, ended.blocking, ended.owing, ended.cancelled]
    exact coherent.awaited

theorem Phase.of_flags {before queue : QueueState} {drivers : List Driver}
    (phase : Phase before drivers) (driver : queue.driver = before.driver)
    (running : queue.running = before.running) (pending : queue.pending = before.pending)
    (started : queue.started = before.started) : Phase queue drivers := by
  cases phase with
  | idle noDriver stopped => exact .idle (driver.trans noDriver) (running.trans stopped)
  | armed waits hasDriver stopped queued =>
    exact .armed waits (driver.trans hasDriver) (running.trans stopped) (by rw [pending, queued])
  | computing works noDriver runs last =>
    exact .computing works (driver.trans noDriver) (running.trans runs) (last.trans started.symm)

theorem Coherent.enter (coherent : Coherent session) : Coherent session.enter where
  phase := coherent.phase.of_flags rfl rfl rfl rfl
  guards := by
    simp only [Session.enter, QueueState.invalidate, coherent.guards]
    omega
  stale := fun _ _ _ => .inr (.inl (.inl (Nat.succ_pos _)))
  taken := fun _ => .inr (.inr (.inl (Nat.succ_pos _)))
  published := coherent.published
  unpublished := coherent.unpublished
  dropped := fun _ _ => .inl (.inl (Nat.succ_pos _))
  reached := coherent.reached
  carried := fun _ _ => .inl (.blocked (Nat.succ_pos _))
  awaited := by
    intro target member
    rcases coherent.awaited target member with reached | ⟨next, -⟩ | gone
    · exact .inl reached
    · exact .inr (.inl ⟨next, .inr (.inl (Nat.succ_pos _))⟩)
    · exact .inr (.inr gone)

/-- Steps that touch neither the queue nor what it has published. -/
structure SameQueue (before after : Session) : Prop where
  queue : after.queue = before.queue
  cancelled : after.cancelled = before.cancelled
  drivers : after.drivers = before.drivers
  publishedSeq : after.publishedSeq = before.publishedSeq
  guards : after.working + after.dropping = before.working + before.dropping
  owing : after.owing = before.owing
  hintCalls : after.hintCalls = before.hintCalls
  runs : after.runs = before.runs

theorem Carried.of_same {call : HintCall} (carried : session.Carried call)
    (same : SameQueue session after) : after.Carried call := by
  cases carried with
  | pending was covered => exact .pending (by rw [same.queue, was]) covered
  | running works current later covered =>
    refine .running ?_ (by rw [same.queue, current]) later covered
    rw [Computes, same.drivers]
    exact works
  | published answered =>
    apply Carried.published
    rw [Answered, same.runs]
    exact answered
  | blocked active => exact .blocked (by rw [same.queue]; exact active)
  | owed owes => exact .owed (by rw [same.owing]; exact owes)

theorem Coherent.of_same (coherent : Coherent session) (same : SameQueue session after)
    (awaited : ∀ target ∈ after.targets, target ∈ session.targets ∨
      session.queue.settleTarget = some target) : Coherent after := by
  have obliged : after.Obliged ↔ session.Obliged := by
    unfold Obliged
    rw [same.queue, same.owing]
  constructor
  · rw [same.queue, same.drivers]
    exact coherent.phase
  · rw [same.queue, same.guards]
    exact coherent.guards
  · intro run coverage works
    rw [Computes, same.drivers] at works
    rw [same.queue, same.cancelled, obliged]
    exact coherent.stale run coverage works
  · rw [same.queue, same.owing, same.cancelled]
    exact coherent.taken
  · rw [same.queue, same.publishedSeq]
    exact coherent.published
  · rw [same.queue, same.publishedSeq]
    exact coherent.unpublished
  · rw [same.queue, same.publishedSeq, obliged, same.cancelled]
    exact coherent.dropped
  · rw [same.hintCalls, same.queue]
    exact coherent.reached
  · rw [same.hintCalls, same.cancelled]
    exact fun call member => (coherent.carried call member).imp (·.of_same same) id
  · rw [same.queue, same.owing, same.cancelled]
    intro target member
    rcases awaited target member with old | settles
    · exact coherent.awaited target old
    -- a settle target is the next run, or the one in progress
    · unfold QueueState.settleTarget at settles
      split at settles
      · rename_i busy
        simp only [Option.some.injEq] at settles
        refine .inr (.inl ⟨settles.symm, ?_⟩)
        rcases busy with queued | hasDriver | active
        · exact .inl queued
        · cases shape : session.drivers with
          | nil =>
            cases shape ▸ coherent.phase with
            | idle noDriver => simp [noDriver] at hasDriver
          | cons task rest =>
            cases shape ▸ coherent.phase with
            | armed _ _ _ queued => exact .inl queued
            | computing _ noDriver => simp [noDriver] at hasDriver
        · exact .inr (.inl active)
      · split at settles
        · simp only [Option.some.injEq] at settles
          exact .inl settles.symm.le
        · simp at settles

theorem Coherent.commandDone (coherent : Coherent session) : Coherent session.commandDone := by
  unfold Session.commandDone
  split
  · exact coherent
  · refine coherent.of_same ⟨rfl, rfl, rfl, rfl, ?_, rfl, rfl, rfl⟩ fun _ => .inl
    dsimp only
    omega

theorem Coherent.release (coherent : Coherent session) : Coherent session.release := by
  unfold Session.release
  split
  · exact coherent
  · rename_i left dropping
    have guards := coherent.guards
    have owed : 0 < session.queue.blocking - 1 ∨
        0 < (if session.queue.blocking - 1 = 0 then session.owing + 1 else session.owing) := by
      split <;> omega
    refine ⟨coherent.phase.of_flags rfl rfl rfl rfl, ?_, fun _ _ _ => ?_, fun _ => ?_,
      coherent.published, coherent.unpublished, fun _ _ => ?_, coherent.reached, fun _ _ => ?_, fun target member => ?_⟩
    · dsimp only
      omega
    · exact .inr (.inl (owed.imp id .inl))
    · exact .inr (.inr (owed.imp id .inl))
    · exact .inl (owed.imp id .inl)
    · rcases owed with active | owes
      · exact .inl (.blocked active)
      · exact .inl (.owed owes)
    · rcases coherent.awaited target member with reached | ⟨next, -⟩ | gone
      · exact .inl reached
      · exact .inr (.inl ⟨next, .inr owed⟩)
      · exact .inr (.inr gone)

theorem Coherent.settleDebt (coherent : Coherent session) (now : Nat) :
    Coherent (session.settleDebt now) := by
  unfold Session.settleDebt
  split
  · exact coherent
  · exact coherent.hint (.inr rfl) .now now

theorem Coherent.rescanFires (coherent : Coherent session) (index : Nat) :
    Coherent (session.rescanFires index) := by
  unfold Session.rescanFires
  repeat' split
  all_goals exact coherent.of_same ⟨rfl, rfl, rfl, rfl, rfl, rfl, rfl, rfl⟩ fun _ => .inl

theorem Coherent.rescanHint (coherent : Coherent session) (now : Nat) :
    Coherent (session.rescanHint now) := by
  unfold Session.rescanHint
  split
  · exact coherent
  · rename_i left _
    have quiet : Coherent { session with quietRescans := left } :=
      coherent.of_same ⟨rfl, rfl, rfl, rfl, rfl, rfl, rfl, rfl⟩ fun _ => .inl
    exact quiet.hint (.inl rfl) .now now

theorem Coherent.statusSettles (coherent : Coherent session) : Coherent session.statusSettles := by
  refine coherent.of_same ⟨rfl, rfl, rfl, rfl, rfl, rfl, rfl, rfl⟩ ?_
  intro target member
  rcases List.mem_append.mp member with settles | old
  · exact .inr (Option.mem_toList.mp settles)
  · exact .inl old

theorem Coherent.statusReads (coherent : Coherent session) (index : Nat) :
    Coherent (session.statusReads index) := by
  unfold Session.statusReads
  split
  · exact coherent.of_same ⟨rfl, rfl, rfl, rfl, rfl, rfl, rfl, rfl⟩ fun _ => .inl
  · exact coherent

theorem Coherent.statusAsks (coherent : Coherent session) (index now : Nat) :
    Coherent (session.statusAsks index now) := by
  unfold Session.statusAsks
  split
  · have asked : Coherent (session.hint .full .now now) := coherent.hint (.inl rfl) .now now
    exact asked.of_same ⟨rfl, rfl, rfl, rfl, rfl, rfl, rfl, rfl⟩ fun _ => .inl
  · exact coherent

theorem Coherent.statusReturns (coherent : Coherent session) (index : Nat) :
    Coherent (session.statusReturns index) := by
  unfold Session.statusReturns
  repeat' split
  all_goals first
    | exact coherent
    | exact coherent.of_same ⟨rfl, rfl, rfl, rfl, rfl, rfl, rfl, rfl⟩ fun _ => .inl

theorem Coherent.cancel (coherent : Coherent session) :
    Coherent { session with cancelled := true } where
  phase := coherent.phase
  guards := coherent.guards
  stale := fun _ _ _ => .inr (.inr rfl)
  taken := fun _ => .inr (.inr (.inr (.inr rfl)))
  published := coherent.published
  unpublished := coherent.unpublished
  dropped := fun _ _ => .inr rfl
  reached := coherent.reached
  carried := fun _ _ => .inr rfl
  awaited := fun _ _ => .inr (.inr rfl)

theorem Coherent.interruptStatus (coherent : Coherent session) :
    Coherent session.interruptStatus := by
  unfold Session.interruptStatus
  split
  · rename_i gone
    exact ⟨coherent.phase.of_flags rfl rfl rfl rfl, coherent.guards, fun _ _ _ => .inr (.inr gone),
      fun _ => .inr (.inr (.inr (.inr gone))), coherent.published, coherent.unpublished,
      fun _ _ => .inr gone, coherent.reached, fun _ _ => .inr gone, fun _ _ => .inr (.inr gone)⟩
  · exact coherent

theorem Coherent.step (coherent : Coherent session) (action : QueueStep) :
    Coherent (session.step options action) := by
  cases action with
  | hint hints urgency now => exact coherent.hint (.inl rfl) urgency now
  | wake index now => exact coherent.wake index now
  | abandon index => exact coherent.abandon index
  | take index => exact coherent.take index
  | widen index => exact coherent.widen index
  | finish index renames => exact coherent.finish index renames
  | rescanFires index => exact coherent.rescanFires index
  | rescanHint now => exact coherent.rescanHint now
  | enter => exact coherent.enter
  | commandDone => exact coherent.commandDone
  | release => exact coherent.release
  | settleDebt now => exact coherent.settleDebt now
  | statusSettles => exact coherent.statusSettles
  | statusReads index => exact coherent.statusReads index
  | statusAsks index now => exact coherent.statusAsks index now
  | statusReturns index => exact coherent.statusReturns index
  | cancel => exact coherent.cancel
  | interruptStatus => exact coherent.interruptStatus

/-- Sessions reached from a fresh one by steps that meet a condition. -/
abbrev Reached (options : QueueOptions) (allowed : Session → QueueStep → Prop) : Session → Prop :=
  Run (Session.step options) allowed {}

theorem coherent_reached {allowed : Session → QueueStep → Prop}
    (reached : Reached options allowed session) : Coherent session :=
  reached.invariant Coherent coherent_start fun _ action coherent _ => coherent.step action

/-- Work is under way for whoever waits. -/
def UnderWay (session : Session) : Prop :=
  (session.queue.pending.isSome = true ∧ ∃ task ∈ session.drivers, task.run = none) ∨
  (∃ task ∈ session.drivers, task.run.isSome = true) ∨
  0 < session.queue.blocking ∨ 0 < session.owing

theorem Phase.length_le {queue : QueueState} {drivers : List Driver} (phase : Phase queue drivers) :
    drivers.length ≤ 1 := by
  cases phase <;> simp

theorem Coherent.under_way (coherent : Coherent session) (live : session.cancelled = false)
    {target : Nat} (member : target ∈ session.targets) (waits : session.publishedSeq < target) :
    session.UnderWay := by
  cases shape : session.drivers with
  | nil =>
    cases shape ▸ coherent.phase with
    | idle noDriver stopped =>
      -- with no task at all only a blocking section can hold the work back
      have taken := coherent.taken
      have dropped := coherent.dropped stopped
      simp only [Obliged, noDriver, stopped, live, Bool.false_eq_true, or_false, false_or] at taken dropped
      rcases coherent.awaited target member with reached | ⟨-, queued | active | owes⟩ | gone
      · rcases dropped (waits.trans_le reached) with active | owes | isFull
        · exact .inr (.inr (.inl active))
        · exact .inr (.inr (.inr owes))
        · exact .inr (.inr (taken (by simp [isFull])))
      · exact .inr (.inr (taken queued))
      · exact .inr (.inr (.inl active))
      · exact .inr (.inr (.inr owes))
      · simp [live] at gone
  | cons task rest =>
    have here : task ∈ session.drivers := by simp [shape]
    cases shape ▸ coherent.phase with
    | armed waits _ _ queued =>
      refine .inl ⟨queued, task, here, ?_⟩
      rcases waits with rfl | rfl <;> rfl
    | computing works => exact .inr (.inl ⟨task, here, by simp [works]⟩)

/-- For every interleaving on a session that is not cancelled: one status
computes at a time, every hint is still carried or has been answered, and work is
under way for every caller that waits for a later run. -/
theorem queue_keeps_every_hint (reached : Reached options (fun _ _ => True) session)
    (live : session.cancelled = false) :
    (session.drivers.filterMap Driver.run).length ≤ 1 ∧
    (∀ call ∈ session.hintCalls, session.Carried call) ∧
    ∀ target ∈ session.targets, session.publishedSeq < target → session.UnderWay := by
  have coherent := coherent_reached reached
  refine ⟨(List.length_filterMap_le _ _).trans coherent.phase.length_le, ?_, fun target member => coherent.under_way live member⟩
  intro call member
  rcases coherent.carried call member with carried | gone
  · exact carried
  · simp [live] at gone

/-- A mutation enters while a hinted run computes and another hint arrives. -/
theorem queue_keeps_every_hint_over_mutation :
    let session := [QueueStep.hint (.paths {"a.ts"}) .now 0, .wake 0 0, .take 0, .enter,
      .hint (.paths {"b.ts"}) .debounced 1].foldl (Session.step ⟨100, 500⟩) {}
    (session.drivers.filterMap Driver.run).length ≤ 1 ∧
    (∀ call ∈ session.hintCalls, session.Carried call) ∧
    ∀ target ∈ session.targets, session.publishedSeq < target → session.UnderWay :=
  queue_keeps_every_hint (Run.of_list _ ⟨trivial, trivial, trivial, trivial, trivial, trivial⟩)
    (by decide)

end Session

end Mille.Git
