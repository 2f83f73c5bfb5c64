import Mille.Git.QueueRuns

/-! When a refreshed status is fresh. The end of a blocking section is two
critical sections; between them the queue looks idle although a full run is owed.
A run that starts in that gap, or a caller that reads the settle target there,
sees a queue that has forgotten the runs a mutation dropped. -/

namespace Mille.Git.Session

variable {session after : Session} {options : QueueOptions}

/-- What `hint` leaves as it was, on a live and on a cancelled session. -/
structure Hinted (before after : Session) (hints : Hints) : Prop where
  started : after.queue.started = before.queue.started
  epoch : after.queue.epoch = before.queue.epoch
  blocking : after.queue.blocking = before.queue.blocking
  cancelled : after.cancelled = before.cancelled
  owing : after.owing = before.owing
  generation : after.generation = before.generation
  publishedSeq : after.publishedSeq = before.publishedSeq
  finishedAt : after.finishedAt = before.finishedAt
  runs : after.runs = before.runs
  statusCalls : after.statusCalls = before.statusCalls
  hintCalls : after.hintCalls = ⟨hints, before.queue.started + 1⟩ :: before.hintCalls
  computes : ∀ run coverage, after.Computes run coverage ↔ before.Computes run coverage
  full : before.cancelled = false → hints = .full ∨ before.queue.pending = some .full →
    after.queue.pending = some .full
  pending : before.cancelled = false → ∃ joined, after.queue.pending = some joined ∧
    joined.covers hints = true ∧
    ∀ earlier, before.queue.pending = some earlier → joined.covers earlier = true

theorem hinted (session : Session) (hints : Hints) (urgency : Urgency) (now : Nat) :
    Hinted session (session.hint hints urgency now) hints := by
  unfold Session.hint
  dsimp only
  split
  · rename_i gone
    exact ⟨rfl, rfl, rfl, rfl, rfl, rfl, rfl, rfl, rfl, rfl, rfl, fun _ _ => Iff.rfl,
      fun live => by simp [live] at gone, fun live => by simp [live] at gone⟩
  · have queued := queued_hint session.queue hints urgency now
    refine ⟨queued.started, queued.epoch, queued.blocking, rfl, rfl, rfl, rfl, rfl, rfl, rfl, rfl,
      fun run coverage => ?_, fun _ isFull => ?_, fun _ => ?_⟩
    · simp only [Computes]
      split
      · simp [Driver.run]
      · exact Iff.rfl
    · obtain ⟨joined, pending, -, -, full⟩ := queued.pending
      rw [pending, full isFull]
    · obtain ⟨joined, pending, asked, earlier, -⟩ := queued.pending
      exact ⟨joined, pending, asked, earlier⟩

/-- A call is answered, or whatever publishes next at or after its target covers it. -/
def Kept (session : Session) (call : HintCall) : Prop :=
  session.Answered call ∨ (session.publishedSeq < call.target ∧ (session.cancelled = true ∨
    ∀ run coverage, session.Computes run coverage → run.epoch = session.queue.epoch →
      call.target ≤ run.sequence → coverage.covers call.hints = true))

/-- The hints of a call whose run is the next to start are in the pending set. -/
def Waits (session : Session) (call : HintCall) : Prop :=
  session.cancelled = false → call.target = session.queue.started + 1 →
    ∃ hints, session.queue.pending = some hints ∧ hints.covers call.hints = true

/-- What a status call may rely on. `mark` lies behind the snapshot it returns. -/
def Sound (session : Session) : StatusCall → Prop
  | .settled mark none => mark < session.generation ∨ (mark = 0 ∧ session.generation = 0)
  | .settled mark (some target) | .waiting mark target =>
    mark ≤ session.generation ∧ (target ≤ session.publishedSeq → mark < session.generation)
  | .asking mark => mark = 0
  | .returned mark snapshot => mark < snapshot

/-- The invariant of runs that leave the gap alone. -/
structure Fresh (session : Session) : Prop where
  epochs : ∀ run coverage, session.Computes run coverage → run.epoch ≤ session.queue.epoch
  kept : ∀ call ∈ session.hintCalls, session.Kept call
  waits : ∀ call ∈ session.hintCalls, session.Waits call
  marked : session.finishedAt ≤ session.generation
  refreshes : session.cancelled = false → session.finishedAt < session.generation ∨
    session.generation = 0 ∨ session.Obliged ∨
    ∃ run coverage, session.Computes run coverage ∧ run.epoch = session.queue.epoch
  sound : ∀ call ∈ session.statusCalls, session.Sound call

theorem fresh_start : Fresh {} where
  epochs := by simp [Computes]
  kept := by simp
  waits := by simp
  marked := le_rfl
  refreshes := by simp
  sound := by simp

/-- Between the two halves of a guard's drop no path-limited run starts after a
run that was dropped, and no status call reads an idle queue; nor does one read a
session already closed. -/
def GapFree (session : Session) : QueueStep → Prop
  | .take _ => 0 < session.owing →
      session.queue.pending = some .full ∨ session.publishedSeq = session.queue.started
  | .statusSettles => session.cancelled = false ∧ (0 < session.owing →
      session.queue.pending.isSome = true ∨ session.queue.driver = true ∨
      session.queue.running = true ∨ 0 < session.queue.blocking ∨ session.generation = 0)
  | _ => True

theorem Sound.of_counters {call : StatusCall} (sound : session.Sound call)
    (generation : after.generation = session.generation)
    (publishedSeq : after.publishedSeq = session.publishedSeq) : after.Sound call := by
  unfold Sound at sound ⊢
  rw [generation, publishedSeq]
  exact sound

theorem Sound.published {call : StatusCall} (sound : session.Sound call)
    (generation : after.generation = session.generation + 1) : after.Sound call := by
  unfold Sound at sound ⊢
  rw [generation]
  cases call with
  | settled mark target =>
    cases target with
    | none => exact .inl (by omega)
    | some target => exact ⟨by omega, fun _ => by omega⟩
  | asking mark => exact sound
  | waiting mark target => exact ⟨by omega, fun _ => by omega⟩
  | returned mark snapshot => exact sound

/-- Steps that neither start, end nor invalidate a run. -/
structure Still (before after : Session) : Prop where
  epoch : after.queue.epoch = before.queue.epoch
  cancelled : after.cancelled = before.cancelled
  generation : after.generation = before.generation
  publishedSeq : after.publishedSeq = before.publishedSeq
  runs : after.runs = before.runs
  computes : ∀ run coverage, after.Computes run coverage ↔ before.Computes run coverage
  obliged : before.Obliged → before.cancelled = false → after.Obliged

theorem Kept.of_still {call : HintCall} (kept : session.Kept call) (still : Still session after) :
    after.Kept call := by
  unfold Kept Answered at kept ⊢
  simp only [still.epoch, still.cancelled, still.publishedSeq, still.runs, still.computes]
  exact kept

theorem Fresh.of_still (fresh : Fresh session) (still : Still session after)
    (finishedAt : after.finishedAt = session.finishedAt)
    (kept : ∀ call ∈ after.hintCalls, call ∈ session.hintCalls ∨ after.Kept call)
    (waits : ∀ call ∈ after.hintCalls, after.Waits call)
    (sound : ∀ call ∈ after.statusCalls, call ∈ session.statusCalls ∨ after.Sound call) :
    Fresh after := by
  constructor
  · intro run coverage works
    rw [still.epoch]
    exact fresh.epochs run coverage ((still.computes run coverage).mp works)
  · intro call member
    rcases kept call member with old | new
    · exact (fresh.kept call old).of_still still
    · exact new
  · exact waits
  · rw [finishedAt, still.generation]
    exact fresh.marked
  · rw [still.cancelled, finishedAt, still.generation, still.epoch]
    intro live
    rcases fresh.refreshes live with past | none | owes | ⟨run, coverage, works, current⟩
    · exact .inl past
    · exact .inr (.inl none)
    · exact .inr (.inr (.inl (still.obliged owes live)))
    · exact .inr (.inr (.inr ⟨run, coverage, (still.computes run coverage).mpr works, current⟩))
  · intro call member
    rcases sound call member with old | new
    · exact (fresh.sound call old).of_counters still.generation still.publishedSeq
    · exact new

theorem Coherent.computes_before (coherent : Coherent session) {run : StatusRun} {coverage : Hints}
    (works : session.Computes run coverage) : run.sequence = session.queue.started := by
  obtain ⟨task, member, runs⟩ := works
  obtain ⟨index, found⟩ := List.mem_iff_getElem?.mp member
  obtain ⟨-, alone⟩ := coherent.phase.alone found
  exact (Phase.computing_of_run (alone ▸ coherent.phase) runs).2.2

theorem Fresh.hint (fresh : Fresh session) (coherent : Coherent session) {owing : Nat} {hints : Hints}
    (pays : owing = session.owing ∨ hints = .full) (urgency : Urgency) (now : Nat) :
    Fresh (({ session with owing := owing }).hint hints urgency now) := by
  have hinted := hinted { session with owing := owing } hints urgency now
  have still : Still session (({ session with owing := owing }).hint hints urgency now) := by
    refine ⟨hinted.epoch, hinted.cancelled, hinted.generation, hinted.publishedSeq, hinted.runs,
      hinted.computes, ?_⟩
    rintro (active | owes | isFull) live
    · exact .inl (by rw [hinted.blocking]; exact active)
    · rcases pays with rfl | isFull
      · exact .inr (.inl (by rw [hinted.owing]; exact owes))
      · exact .inr (.inr (hinted.full live (.inl isFull)))
    · exact .inr (.inr (hinted.full live (.inr isFull)))
  apply fresh.of_still still hinted.finishedAt
  · intro call member
    rw [hinted.hintCalls] at member
    rcases List.mem_cons.mp member with rfl | old
    · right
      refine .inr ⟨?_, .inr ?_⟩
      · rw [hinted.publishedSeq]
        exact Nat.lt_succ_of_le coherent.published
      · intro run coverage works _ later
        have last := coherent.computes_before ((still.computes run coverage).mp works)
        exact absurd later (by simp [last])
    · exact .inl old
  · intro call member live next
    rw [hinted.cancelled] at live
    rw [hinted.hintCalls] at member
    rw [hinted.started] at next
    obtain ⟨joined, pending, asked, earlier⟩ := hinted.pending live
    rcases List.mem_cons.mp member with rfl | old
    · exact ⟨joined, pending, asked⟩
    · obtain ⟨hints, was, covered⟩ := fresh.waits call old live next
      exact ⟨joined, pending, Hints.covers_trans (earlier hints was) covered⟩
  · intro call member
    rw [hinted.statusCalls] at member
    exact .inl member

theorem silent_of_waiting (waits : ∀ task ∈ session.drivers, task.run = none) (run : StatusRun)
    (coverage : Hints) : ¬ session.Computes run coverage := by
  rintro ⟨task, member, works⟩
  simp [waits task member] at works

theorem Fresh.wake (fresh : Fresh session) (coherent : Coherent session) (index now : Nat) :
    Fresh (session.wake options index now) := by
  unfold Session.wake
  split
  · rename_i found
    obtain ⟨rfl, alone⟩ := coherent.phase.alone found
    split
    · refine fresh.of_still ⟨rfl, rfl, rfl, rfl, rfl, fun run coverage => ?_, fun owes _ => owes⟩ rfl
        (fun _ => .inl) fresh.waits (fun _ => .inl)
      apply iff_of_false
      · exact silent_of_waiting (by simp [alone, Driver.run]) run coverage
      · exact silent_of_waiting (by simp [alone, Driver.run]) run coverage
    · exact fresh
  · exact fresh

theorem Fresh.abandon (fresh : Fresh session) (coherent : Coherent session) (index : Nat) :
    Fresh (session.abandon index) := by
  unfold Session.abandon
  split
  · rename_i found
    obtain ⟨rfl, alone⟩ := coherent.phase.alone found
    split
    · refine fresh.of_still ⟨rfl, rfl, rfl, rfl, rfl, fun run coverage => ?_, fun owes _ => owes⟩ rfl
        (fun _ => .inl) fresh.waits (fun _ => .inl)
      apply iff_of_false
      · exact silent_of_waiting (by simp [alone]) run coverage
      · exact silent_of_waiting (by simp [alone, Driver.run]) run coverage
    · exact fresh
  · exact fresh

/-- The run that starts covers every call that is not answered: outside the gap
because its hints are pending, inside it because only a full run may start. -/
theorem Fresh.take (fresh : Fresh session) (coherent : Coherent session) (index : Nat)
    (gapFree : session.GapFree (.take index)) : Fresh (session.take index) := by
  rcases session.take_cases index with same | ⟨found, hints, free, pending, same⟩ |
    ⟨found, idle, same⟩
  · rw [same]
    exact fresh
  · rw [same]
    obtain ⟨rfl, alone⟩ := coherent.phase.alone found
    have computes : ∀ run coverage, Computes { session with
        queue := { session.queue with
          pending := none, firstHint := none, lastHint := none, urgent := false
          driver := false, running := true, started := session.queue.started + 1
          interrupt := some false }
        drivers := session.drivers.set 0
          (.taken ⟨hints, session.queue.epoch, session.queue.started + 1⟩) } run coverage ↔
        (⟨hints, session.queue.epoch, session.queue.started + 1⟩ : StatusRun) = run ∧
          hints = coverage := by
      intro run coverage
      simp [Computes, alone, Driver.run]
    constructor
    · intro run coverage works
      obtain ⟨rfl, rfl⟩ := (computes run coverage).mp works
      exact le_rfl
    · intro call member
      rcases fresh.kept call member with answered | ⟨behind, -⟩
      · exact .inl answered
      rcases coherent.carried call member with carried | gone
      · cases carried with
        | pending was covered =>
          rw [pending] at was
          cases was
          refine .inr ⟨behind, .inr fun run coverage works _ _ => ?_⟩
          obtain ⟨rfl, rfl⟩ := (computes run coverage).mp works
          exact covered
        | running works =>
          exact (silent_of_waiting (by simp [alone, Driver.run]) _ _ works).elim
        | published answered => exact .inl answered
        | blocked active => exact absurd free (Nat.ne_of_gt active)
        | owed owes =>
          by_cases gone : session.cancelled = true
          · exact .inr ⟨behind, .inl gone⟩
          refine .inr ⟨behind, .inr fun run coverage works _ _ => ?_⟩
          obtain ⟨rfl, rfl⟩ := (computes run coverage).mp works
          rcases gapFree owes with isFull | settled
          · rw [pending] at isFull
            cases isFull
            simp
          -- nothing was dropped, so the call waits for exactly this run
          · have reached := coherent.reached call member
            obtain ⟨queued, was, covered⟩ := fresh.waits call member
              (Bool.eq_false_of_not_eq_true gone) (by omega)
            rw [pending] at was
            cases was
            exact covered
      · exact .inr ⟨behind, .inl gone⟩
    · intro call member _ next
      have reached := coherent.reached call member
      dsimp only at next
      omega
    · exact fresh.marked
    · exact fun _ => .inr (.inr (.inr ⟨_, _, (computes _ _).mpr ⟨rfl, rfl⟩, rfl⟩))
    · exact fresh.sound
  · rw [same]
    obtain ⟨rfl, alone⟩ := coherent.phase.alone found
    refine fresh.of_still ⟨rfl, rfl, rfl, rfl, rfl, fun run coverage => ?_, fun owes _ => owes⟩ rfl
      (fun _ => .inl) fresh.waits (fun _ => .inl)
    apply iff_of_false
    · exact silent_of_waiting (by simp [alone]) run coverage
    · exact silent_of_waiting (by simp [alone, Driver.run]) run coverage

theorem Fresh.widen (fresh : Fresh session) (coherent : Coherent session) (index : Nat) :
    Fresh (session.widen index) := by
  unfold Session.widen
  split
  · rename_i run found
    obtain ⟨rfl, alone⟩ := coherent.phase.alone found
    dsimp only
    have before : session.Computes run run.hints := (computes_alone alone).mpr rfl
    have computes : ∀ other coverage, Computes { session with
        drivers := session.drivers.set 0
          (.computing run (run.hints.asPathspecs.bind session.widenWithRenames)) } other coverage ↔
        run = other ∧ ofPathspecs (run.hints.asPathspecs.bind session.widenWithRenames) = coverage := by
      intro other coverage
      simp [Computes, alone, Driver.run]
    constructor
    · intro other coverage works
      obtain ⟨rfl, -⟩ := (computes other coverage).mp works
      exact fresh.epochs run run.hints before
    · intro call member
      rcases fresh.kept call member with answered | ⟨behind, gone | covers⟩
      · exact .inl answered
      · exact .inr ⟨behind, .inl gone⟩
      · refine .inr ⟨behind, .inr fun other coverage works current later => ?_⟩
        obtain ⟨rfl, rfl⟩ := (computes other coverage).mp works
        exact Hints.covers_trans (session.widened_covers run.hints)
          (covers run run.hints before current later)
    · exact fresh.waits
    · exact fresh.marked
    · intro live
      rcases fresh.refreshes live with past | none | owes | ⟨other, coverage, works, current⟩
      · exact .inl past
      · exact .inr (.inl none)
      · exact .inr (.inr (.inl owes))
      · rw [computes_alone alone] at works
        simp only [Driver.run, Option.some.injEq, Prod.mk.injEq] at works
        obtain ⟨rfl, rfl⟩ := works
        exact .inr (.inr (.inr ⟨run, _, (computes run _).mpr ⟨rfl, rfl⟩, current⟩))
    · exact fresh.sound
  · exact fresh

/-- A run that publishes answers every call up to its sequence number. -/
theorem Fresh.finish (fresh : Fresh session) (coherent : Coherent session) (index : Nat)
    (renames : List (String × String)) : Fresh (session.finish index renames) := by
  rcases session.finish_cases index renames with same | ⟨run, pathspecs, found, ended⟩
  · rw [same]
    exact fresh
  obtain ⟨rfl, alone⟩ := coherent.phase.alone found
  have works : session.Computes run (ofPathspecs pathspecs) := (computes_alone alone).mpr rfl
  have silent : ∀ run coverage, ¬ (session.finish 0 renames).Computes run coverage := by
    apply silent_of_waiting
    intro task member
    rcases ended.next with ⟨-, -, next⟩ | ⟨-, -, next⟩
    · simp only [next, alone, List.set_cons_zero, List.mem_singleton] at member
      simp [member, Driver.run]
    · simp [next, alone] at member
  constructor
  · exact fun run coverage works => (silent run coverage works).elim
  · rw [ended.hintCalls]
    intro call member
    rcases ended.outcome with ⟨current, live, -, sequence, history⟩ | ⟨-, -, sequence, history⟩
    · rcases fresh.kept call member with ⟨published, member, facts⟩ | ⟨behind, gone | covers⟩
      · exact .inl ⟨published, by rw [history]; exact List.mem_cons_of_mem _ member, facts⟩
      · simp [live] at gone
      · by_cases later : call.target ≤ run.sequence
        · exact .inl ⟨_, by rw [history]; exact List.mem_cons_self, later,
            covers run _ works current.symm later⟩
        · refine .inr ⟨by rw [sequence]; exact Nat.lt_of_not_le later, .inr ?_⟩
          exact fun run coverage works => (silent run coverage works).elim
    · rcases fresh.kept call member with ⟨published, member, facts⟩ | ⟨behind, -⟩
      · exact .inl ⟨published, by rw [history]; exact member, facts⟩
      · refine .inr ⟨by rw [sequence]; exact behind, .inr ?_⟩
        exact fun run coverage works => (silent run coverage works).elim
  · intro call member
    unfold Waits
    rw [ended.cancelled, ended.started, ended.pending]
    exact fresh.waits call (ended.hintCalls ▸ member)
  · rw [ended.finishedAt]
    rcases ended.outcome with ⟨-, -, generation, -⟩ | ⟨-, generation, -⟩
    · rw [generation]
      exact fresh.marked.trans (Nat.le_succ _)
    · rw [generation]
      exact fresh.marked
  · rw [ended.cancelled, ended.finishedAt, ended.obliged]
    intro live
    rcases ended.outcome with ⟨-, -, generation, -⟩ | ⟨dropped, generation, -⟩
    · exact .inl (by rw [generation]; exact Nat.lt_succ_of_le fresh.marked)
    · rw [generation]
      rcases fresh.refreshes live with past | none | owes | ⟨other, coverage, found, current⟩
      · exact .inl past
      · exact .inr (.inl none)
      · exact .inr (.inr (.inl owes))
      · rw [computes_alone alone] at found
        simp only [Driver.run, Option.some.injEq, Prod.mk.injEq] at found
        obtain ⟨rfl, -⟩ := found
        simp [dropped current.symm] at live
  · rw [ended.statusCalls]
    intro call member
    rcases ended.outcome with ⟨-, -, generation, -⟩ | ⟨-, generation, sequence, -⟩
    · exact (fresh.sound call member).published generation
    · exact (fresh.sound call member).of_counters generation sequence

theorem Fresh.enter (fresh : Fresh session) : Fresh session.enter where
  epochs := fun run coverage works => (fresh.epochs run coverage works).trans (Nat.le_succ _)
  kept := by
    intro call member
    rcases fresh.kept call member with answered | ⟨behind, -⟩
    · exact .inl answered
    -- every run in progress is of an older epoch now
    · refine .inr ⟨behind, .inr fun run coverage works current => ?_⟩
      have older := fresh.epochs run coverage works
      simp only [Session.enter, QueueState.invalidate] at current
      omega
  waits := fresh.waits
  marked := fresh.marked
  refreshes := fun _ => .inr (.inr (.inl (.inl (Nat.succ_pos _))))
  sound := fresh.sound

theorem Fresh.commandDone (fresh : Fresh session) (coherent : Coherent session) :
    Fresh session.commandDone := by
  unfold Session.commandDone
  split
  · exact fresh
  · have guards := coherent.guards
    refine ⟨fresh.epochs, fresh.kept, fresh.waits, le_rfl, fun _ => .inr (.inr (.inl (.inl ?_))), fresh.sound⟩
    dsimp only
    omega

theorem Fresh.release (fresh : Fresh session) (coherent : Coherent session) :
    Fresh session.release := by
  unfold Session.release
  split
  · exact fresh
  · have guards := coherent.guards
    refine fresh.of_still ⟨rfl, rfl, rfl, rfl, rfl, fun _ _ => Iff.rfl, fun _ _ => ?_⟩ rfl
      (fun _ => .inl) fresh.waits (fun _ => .inl)
    by_cases active : 0 < session.queue.blocking - 1
    · exact .inl active
    · refine .inr (.inl ?_)
      dsimp only
      split <;> omega

theorem Fresh.settleDebt (fresh : Fresh session) (coherent : Coherent session) (now : Nat) :
    Fresh (session.settleDebt now) := by
  unfold Session.settleDebt
  split
  · exact fresh
  · exact fresh.hint coherent (.inr rfl) .now now

theorem Fresh.rescanFires (fresh : Fresh session) (index : Nat) :
    Fresh (session.rescanFires index) := by
  unfold Session.rescanFires
  repeat' split
  all_goals
    refine fresh.of_still ⟨rfl, rfl, rfl, rfl, rfl, fun _ _ => Iff.rfl, fun owes _ => owes⟩ rfl
      (fun _ => .inl) fresh.waits (fun _ => .inl)

theorem Fresh.rescanHint (fresh : Fresh session) (coherent : Coherent session) (now : Nat) :
    Fresh (session.rescanHint now) := by
  unfold Session.rescanHint
  split
  · exact fresh
  · rename_i left _
    have quiet : Coherent { session with quietRescans := left } :=
      coherent.of_same ⟨rfl, rfl, rfl, rfl, rfl, rfl, rfl, rfl⟩ fun _ => .inl
    have still : Fresh { session with quietRescans := left } :=
      fresh.of_still ⟨rfl, rfl, rfl, rfl, rfl, fun _ _ => Iff.rfl, fun owes _ => owes⟩
        rfl (fun _ => .inl) fresh.waits (fun _ => .inl)
    exact still.hint quiet (.inl rfl) .now now

theorem Coherent.settleTarget_unpublished (coherent : Coherent session) {target : Nat}
    (settles : session.queue.settleTarget = some target) : session.publishedSeq < target := by
  have published := coherent.published
  have unpublished := coherent.unpublished
  unfold QueueState.settleTarget at settles
  split at settles
  · simp only [Option.some.injEq] at settles
    omega
  · split at settles
    · rename_i runs
      simp only [Option.some.injEq] at settles
      have := unpublished runs
      omega
    · simp at settles

theorem Fresh.statusSettles (fresh : Fresh session) (coherent : Coherent session)
    (gapFree : session.GapFree .statusSettles) : Fresh session.statusSettles := by
  refine fresh.of_still ⟨rfl, rfl, rfl, rfl, rfl, fun _ _ => Iff.rfl, fun owes _ => owes⟩ rfl
    (fun _ => .inl) fresh.waits (fun call member => ?_)
  rcases List.mem_cons.mp member with rfl | old
  · right
    have marked := fresh.marked
    cases settles : session.queue.settleTarget with
    | some target =>
      have unpublished := coherent.settleTarget_unpublished settles
      exact ⟨marked, fun reached => absurd reached (Nat.not_le_of_lt unpublished)⟩
    | none =>
      -- the queue is idle, so the last mutation has been published
      simp only [QueueState.settleTarget] at settles
      split at settles
      · simp at settles
      rename_i idle
      split at settles
      · simp at settles
      rename_i stopped
      simp only [not_or, Bool.not_eq_true, Option.isSome_eq_false_iff, Option.isNone_iff_eq_none,
        Nat.not_lt, Nat.le_zero] at idle stopped
      obtain ⟨noPending, noDriver, free⟩ := idle
      obtain ⟨live, gap⟩ := gapFree
      simp only [noPending, noDriver, stopped, free, Option.isSome_none, Bool.false_eq_true,
        lt_self_iff_false, false_or] at gap
      have silent : ∀ run coverage, ¬ session.Computes run coverage := by
        rintro run coverage ⟨task, member, works⟩
        obtain ⟨index, found⟩ := List.mem_iff_getElem?.mp member
        obtain ⟨-, alone⟩ := coherent.phase.alone found
        have runs := (Phase.computing_of_run (alone ▸ coherent.phase) works).2.1
        simp [stopped] at runs
      simp only [Sound, Session.statusSettles]
      rcases fresh.refreshes live with past | none | (active | owes | isFull) |
        ⟨run, coverage, works, -⟩
      · exact .inl past
      · exact .inr ⟨by omega, none⟩
      · simp [free] at active
      · have none := gap owes
        exact .inr ⟨by omega, none⟩
      · simp [noPending] at isFull
      · exact (silent run coverage works).elim
  · exact .inl old

theorem Fresh.statusReads (fresh : Fresh session) (index : Nat) :
    Fresh (session.statusReads index) := by
  unfold Session.statusReads
  split
  · rename_i mark target found
    have sound := fresh.sound _ (List.mem_of_getElem? found)
    refine fresh.of_still ⟨rfl, rfl, rfl, rfl, rfl, fun _ _ => Iff.rfl, fun owes _ => owes⟩ rfl
      (fun _ => .inl) fresh.waits (fun call member => ?_)
    refine (List.mem_or_eq_of_mem_set member).imp id fun next => ?_
    subst next
    cases target with
    | some target => exact sound
    | none =>
      simp only [Sound] at sound
      simp only [published]
      by_cases empty : session.generation = 0
      · simp only [empty, ↓reduceIte, Sound]
        omega
      · simp only [empty, ↓reduceIte, Sound]
        omega
  · exact fresh

theorem Fresh.statusAsks (fresh : Fresh session) (coherent : Coherent session) (index now : Nat) :
    Fresh (session.statusAsks index now) := by
  unfold Session.statusAsks
  split
  · rename_i mark found
    have sound := fresh.sound _ (List.mem_of_getElem? found)
    have hinted := hinted session .full .now now
    have asked : Fresh (session.hint .full .now now) := fresh.hint coherent (.inl rfl) .now now
    refine asked.of_still ⟨rfl, rfl, rfl, rfl, rfl, fun _ _ => Iff.rfl, fun owes _ => owes⟩ rfl
      (fun _ => .inl) asked.waits (fun call member => ?_)
    rcases List.mem_or_eq_of_mem_set member with old | rfl
    · exact .inl (by rw [hinted.statusCalls]; exact old)
    · right
      simp only [Sound] at sound ⊢
      refine ⟨by omega, fun reached => ?_⟩
      rw [hinted.publishedSeq] at reached
      have published := coherent.published
      omega
  · exact fresh

theorem Fresh.statusReturns (fresh : Fresh session) (index : Nat) :
    Fresh (session.statusReturns index) := by
  unfold Session.statusReturns
  split
  · rename_i mark target found
    have sound := fresh.sound _ (List.mem_of_getElem? found)
    split
    · rename_i snapshot returns
      refine fresh.of_still ⟨rfl, rfl, rfl, rfl, rfl, fun _ _ => Iff.rfl, fun owes _ => owes⟩ rfl
        (fun _ => .inl) fresh.waits (fun call member => ?_)
      refine (List.mem_or_eq_of_mem_set member).imp id fun next => ?_
      subst next
      simp only [Sound, waitPublished, published] at sound returns ⊢
      split at returns
      · rename_i reached
        split at returns
        · simp at returns
        · simp only [Option.some.injEq] at returns
          rw [← returns]
          exact sound.2 reached
      · simp at returns
    · exact fresh
  · exact fresh

theorem Fresh.cancel (fresh : Fresh session) : Fresh { session with cancelled := true } where
  epochs := fresh.epochs
  kept := fun call member => (fresh.kept call member).imp id fun behind => ⟨behind.1, .inl rfl⟩
  waits := fun _ _ live => by simp at live
  marked := fresh.marked
  refreshes := by simp
  sound := fresh.sound

theorem Fresh.interruptStatus (fresh : Fresh session) : Fresh session.interruptStatus := by
  unfold Session.interruptStatus
  split
  · rename_i gone
    refine ⟨fun run coverage works => (fresh.epochs run coverage works).trans (Nat.le_succ _), ?_,
      fresh.waits, fresh.marked, ?_, fresh.sound⟩
    · exact fun call member => (fresh.kept call member).imp id fun behind => ⟨behind.1, .inl gone⟩
    · exact fun live => by simp [gone] at live
  · exact fresh

theorem Fresh.step (fresh : Fresh session) (coherent : Coherent session) (action : QueueStep)
    (gapFree : session.GapFree action) : Fresh (session.step options action) := by
  cases action with
  | hint hints urgency now => exact fresh.hint coherent (.inl rfl) urgency now
  | wake index now => exact fresh.wake coherent index now
  | abandon index => exact fresh.abandon coherent index
  | take index => exact fresh.take coherent index gapFree
  | widen index => exact fresh.widen coherent index
  | finish index renames => exact fresh.finish coherent index renames
  | rescanFires index => exact fresh.rescanFires index
  | rescanHint now => exact fresh.rescanHint coherent now
  | enter => exact fresh.enter
  | commandDone => exact fresh.commandDone coherent
  | release => exact fresh.release coherent
  | settleDebt now => exact fresh.settleDebt coherent now
  | statusSettles => exact fresh.statusSettles coherent gapFree
  | statusReads index => exact fresh.statusReads index
  | statusAsks index now => exact fresh.statusAsks coherent index now
  | statusReturns index => exact fresh.statusReturns index
  | cancel => exact fresh.cancel
  | interruptStatus => exact fresh.interruptStatus

theorem fresh_reached (reached : Reached options GapFree session) : Fresh session := by
  have both := reached.invariant (fun session => Coherent session ∧ Fresh session)
    ⟨coherent_start, fresh_start⟩ fun state action holds gapFree =>
      ⟨holds.1.step action, holds.2.step holds.1 action gapFree⟩
  exact both.2

/-- A hint's run has been published when a wait for its target returns, and no
status call returned a snapshot older than a mutation it follows. -/
def StatusIsFresh (session : Session) : Prop :=
  (∀ call ∈ session.hintCalls, ∀ snapshot,
    session.waitPublished call.target = some snapshot → session.Answered call) ∧
  ∀ mark snapshot, .returned mark snapshot ∈ session.statusCalls → mark < snapshot

/-- In every interleaving that leaves the gap alone, a refreshed status is fresh. -/
theorem status_is_fresh (reached : Reached options GapFree session) : session.StatusIsFresh := by
  have fresh := fresh_reached reached
  constructor
  · intro call member snapshot returns
    rcases fresh.kept call member with answered | ⟨behind, -⟩
    · exact answered
    · simp [waitPublished, Nat.not_le_of_lt behind] at returns
  · intro mark snapshot member
    exact fresh.sound _ member

/-- A mutation drops the run of a hint and ends; the run it owes is queued before
anything else starts. -/
theorem status_is_fresh_after_mutation :
    ([QueueStep.hint (.paths {"a.ts"}) .now 0, .wake 0 0, .take 0, .widen 0, .enter, .finish 0 [],
      .commandDone, .release, .settleDebt 1, .statusSettles, .statusReads 0, .wake 0 1, .take 0,
      .widen 0, .finish 0 [], .statusReturns 0].foldl (Session.step ⟨100, 500⟩) {}).StatusIsFresh :=
  status_is_fresh (Run.of_list _ (by simp [Run.Along, GapFree]; decide))

/-- A mutation drops the run of one hint, and before it queues the run it owes
another hint's run starts and publishes: the wait for the first hint returns
although no run has looked at its path. -/
theorem gap_answers_a_dropped_hint :
    ¬ ∀ session, Reached ⟨100, 500⟩ (fun _ _ => True) session → session.StatusIsFresh := by
  intro always
  have fresh := always _ (Run.of_list [.hint (.paths {"a.ts"}) .now 0, .wake 0 0, .take 0,
    .widen 0, .enter, .finish 0 [], .commandDone, .release, .hint (.paths {"b.ts"}) .now 1,
    .wake 0 1, .take 0, .widen 0, .finish 0 []] (by simp [Run.Along]))
  have answered := fresh.1 ⟨.paths {"a.ts"}, 1⟩ (by decide) 1 (by decide)
  revert answered
  simp only [Answered]
  decide

end Mille.Git.Session
