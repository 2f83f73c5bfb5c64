import Mille.Binding.JournalShelf

/-! Runs of interleaved calls on one journal, and what its bookkeeping keeps in every
state they reach. -/

namespace Mille.Journal

/-- The bucket a call has to itself. -/
def Call.holds : Call → Hold
  | .edit => none
  | .deleting deletion phase =>
    match phase with
    | .begun => none
    | .made | .contained | .named => some (false, deletion.bucket)
    | .moved | .identified _ | .forgotten _ => some (true, deletion.bucket)
  | .undoing entry left _ =>
    match entry.kind.bucket with
    | none => none
    | some bucket =>
      if .restored bucket ∉ left ∧ .bucketCleared bucket ∈ left then some (false, bucket) else none

/-- The entry an undo has restored and not popped, with the count of writes it saw. -/
def Call.restores : Call → Option (JournalEntry × Nat)
  | .undoing entry left seen =>
    match entry.kind.bucket with
    | none => none
    | some bucket => if .restored bucket ∉ left then some (entry, seen) else none
  | _ => none

theorem Call.restores_some {call : Call} {entry : JournalEntry} {seen : Nat}
    (restores : call.restores = some (entry, seen)) :
    ∃ left, call = .undoing entry left seen ∧
      ∃ bucket, entry.kind.bucket = some bucket ∧ .restored bucket ∉ left := by
  cases call with
  | undoing entry' left seen' =>
    cases whose : entry'.kind.bucket with
    | none => simp [Call.restores, whose] at restores
    | some bucket =>
      simp only [Call.restores, whose] at restores
      by_cases past : .restored bucket ∉ left
      · rw [if_pos past] at restores
        cases restores
        exact ⟨left, rfl, bucket, whose, past⟩
      · rw [if_neg past] at restores
        cases restores
  | edit => cases restores
  | deleting _ _ => cases restores

namespace Explorer

variable {explorer : Explorer}

def hold (explorer : Explorer) (call : Nat) : Hold := (explorer.calls call).bind Call.holds

def restore (explorer : Explorer) (call : Nat) : Option (JournalEntry × Nat) :=
  (explorer.calls call).bind Call.restores

@[simp] theorem hold_setCall (call : Nat) (now : Option Call) :
    (explorer.setCall call now).hold = Function.update explorer.hold call (now.bind Call.holds) := by
  funext other
  by_cases same : other = call
  · subst same
    simp [hold, setCall]
  · simp [hold, setCall, same]

@[simp] theorem restore_setCall (call : Nat) (now : Option Call) :
    (explorer.setCall call now).restore =
      Function.update explorer.restore call (now.bind Call.restores) := by
  funext other
  by_cases same : other = call
  · subst same
    simp [restore, setCall]
  · simp [restore, setCall, same]

/-- An undo in progress: the steps left end those of its entry, and unless the stack was
written since, its entry is still on top. -/
structure Looking (explorer : Explorer) (entry : JournalEntry) (left : List UndoStep) (seen : Nat) :
    Prop where
  steps : left <:+ undoSteps entry.kind ∨ entry.kind.bucket = none ∧ left <:+ [.forgotten]
  earlier : seen ≤ explorer.writes
  top : seen = explorer.writes → explorer.stack.getLast? = some entry

/-- The logs agree with the stack. -/
structure Logged (explorer : Explorer) : Prop where
  serials : explorer.pushed.map (·.serial) = List.range explorer.pushed.length
  fewer : ∀ undone ∈ explorer.undone, undone.1.serial < explorer.pushed.length
  popped : ∀ undone ∈ explorer.undone, undone.2 = some undone.1
  once : (explorer.undone.map (·.1.serial)).Nodup
  newest : ∃ evicted, explorer.pushed.filter (·.serial ∉ explorer.undone.map (·.1.serial)) =
    evicted ++ explorer.stack
  bounded : explorer.stack.length ≤ explorer.capacity
  looking : ∀ call entry left seen, explorer.calls call = some (.undoing entry left seen) →
    Looking explorer entry left seen

namespace Logged

theorem initial (capacity : Nat) : Logged (new capacity) where
  serials := rfl
  fewer := by simp [new]
  popped := by simp [new]
  once := by simp [new]
  newest := ⟨[], rfl⟩
  bounded := by simp [new]
  looking := by simp [new]

theorem recycled (log : Logged explorer) (recycle : Recycle) :
    Logged { explorer with recycle := recycle } :=
  ⟨log.serials, log.fewer, log.popped, log.once, log.newest, log.bounded,
    fun call entry left seen found =>
      let looking := log.looking call entry left seen found
      ⟨looking.steps, looking.earlier, looking.top⟩⟩

theorem setCall (log : Logged explorer) (call : Nat) (now : Option Call)
    (looking : ∀ entry left seen, now = some (.undoing entry left seen) →
      Looking explorer entry left seen) : Logged (explorer.setCall call now) := by
  refine ⟨log.serials, log.fewer, log.popped, log.once, log.newest, log.bounded, ?_⟩
  intro other entry left seen found
  have before : Looking explorer entry left seen := by
    by_cases same : other = call
    · subst same
      exact looking entry left seen (by simpa [Explorer.setCall] using found)
    · exact log.looking other entry left seen (by simpa [Explorer.setCall, same] using found)
  exact ⟨before.steps, before.earlier, before.top⟩

theorem numbered (log : Logged explorer) (recycle : Recycle) (nextId : Nat) (abandoned : List Bucket) :
    Logged { explorer with recycle := recycle, nextId := nextId, abandoned := abandoned } :=
  ⟨log.serials, log.fewer, log.popped, log.once, log.newest, log.bounded,
    fun call entry left seen found =>
      let looking := log.looking call entry left seen found
      ⟨looking.steps, looking.earlier, looking.top⟩⟩

theorem push (log : Logged explorer) (kind : JournalKind) : Logged (explorer.pushUndoable kind) := by
  have stack : (explorer.pushUndoable kind).stack =
      (explorer.stack ++ [explorer.entryOf kind]).drop
        ((explorer.stack ++ [explorer.entryOf kind]).length - explorer.capacity) :=
    evict_stack _ _ _
  refine ⟨?_, ?_, log.popped, log.once, ?_, ?_, ?_⟩
  · simp only [pushUndoable, List.map_append, log.serials, List.length_append, List.length_singleton,
      List.range_succ]
    rfl
  · intro undone member
    have before := log.fewer undone member
    simp only [pushUndoable, List.length_append, List.length_singleton]
    omega
  · obtain ⟨evicted, newest⟩ := log.newest
    -- the new entry is numbered past every entry undone
    have fresh : (explorer.entryOf kind).serial ∉ explorer.undone.map (·.1.serial) := by
      intro member
      obtain ⟨undone, inside, same⟩ := List.mem_map.mp member
      have before := log.fewer undone inside
      rw [same] at before
      exact Nat.lt_irrefl _ before
    refine ⟨evicted ++ (explorer.stack ++ [explorer.entryOf kind]).take
      ((explorer.stack ++ [explorer.entryOf kind]).length - explorer.capacity), ?_⟩
    rw [stack, List.append_assoc, List.take_append_drop, ← List.append_assoc, ← newest]
    show (explorer.pushed ++ [explorer.entryOf kind]).filter
      (·.serial ∉ explorer.undone.map (·.1.serial)) = _
    rw [List.filter_append, List.filter_singleton, decide_eq_true fresh]
    all_goals rfl
  · rw [stack, List.length_drop]
    show _ ≤ explorer.capacity
    omega
  · intro call entry left seen found
    have before := log.looking call entry left seen found
    have earlier := before.earlier
    refine ⟨before.steps, ?_, ?_⟩
    · show seen ≤ explorer.writes + 1
      omega
    · intro same
      have later : seen = explorer.writes + 1 := same
      omega

/-- The pop of an undo that saw every write removes the entry it reversed. -/
theorem pop (log : Logged explorer) {call : Nat} {entry : JournalEntry} {left : List UndoStep}
    (found : explorer.calls call = some (.undoing entry left explorer.writes)) :
    Logged { explorer.pop.2 with undone := explorer.undone ++ [(entry, explorer.pop.1)] } := by
  have top : explorer.stack.getLast? = some entry := (log.looking call entry left _ found).top rfl
  have split : explorer.stack = explorer.stack.dropLast ++ [entry] := by
    exact (List.dropLast_append_getLast? entry top).symm
  obtain ⟨evicted, newest⟩ := log.newest
  have among : entry ∈ explorer.pushed.filter (·.serial ∉ explorer.undone.map (·.1.serial)) := by
    rw [newest, split]
    simp
  have inside := List.mem_filter.mp among
  have fresh : entry.serial ∉ explorer.undone.map (·.1.serial) := by simpa using inside.2
  have distinct : (explorer.pushed.map (·.serial)).Nodup := by
    rw [log.serials]
    exact List.nodup_range
  refine ⟨log.serials, ?_, ?_, ?_, ?_, ?_, ?_⟩
  · intro undone member
    rcases List.mem_append.mp member with before | now
    · exact log.fewer undone before
    · rw [List.mem_singleton.mp now]
      have counted : entry.serial ∈ explorer.pushed.map (·.serial) := List.mem_map_of_mem inside.1
      rw [log.serials] at counted
      exact List.mem_range.mp counted
  · intro undone member
    rcases List.mem_append.mp member with before | now
    · exact log.popped undone before
    · rw [List.mem_singleton.mp now]
      exact top
  · show ((explorer.undone ++ [(entry, explorer.pop.1)]).map (·.1.serial)).Nodup
    rw [List.map_append, List.map_singleton, ← List.concat_eq_append]
    exact List.Nodup.concat fresh log.once
  · refine ⟨evicted, ?_⟩
    show explorer.pushed.filter (·.serial ∉ (explorer.undone ++ [(entry, explorer.pop.1)]).map (·.1.serial)) =
      evicted ++ explorer.stack.dropLast
    -- one filter more takes out the popped entry, and only it
    have twice : explorer.pushed.filter
        (·.serial ∉ (explorer.undone ++ [(entry, explorer.pop.1)]).map (·.1.serial)) =
        (explorer.pushed.filter (·.serial ∉ explorer.undone.map (·.1.serial))).filter
          (·.serial ≠ entry.serial) := by
      rw [List.filter_filter]
      apply List.filter_congr
      intro pushed _
      simp only [List.map_append, List.map_singleton, List.mem_append, List.mem_singleton, not_or]
      rw [Bool.decide_and, Bool.and_comm]
    have sub : (evicted ++ explorer.stack.dropLast ++ [entry]).Sublist explorer.pushed := by
      rw [List.append_assoc, ← split, ← newest]
      exact List.filter_sublist
    have apart := List.disjoint_of_nodup_append (by
      simpa only [List.map_append] using distinct.sublist (sub.map (·.serial)))
    rw [twice, newest]
    conv_lhs => rw [split]
    rw [← List.append_assoc, List.filter_append, List.filter_eq_self.mpr, List.filter_singleton]
    · simp
    · intro other member
      have ne : other.serial ≠ entry.serial := fun same =>
        apart (a := other.serial) (by
          rw [← List.map_append]
          exact List.mem_map_of_mem member) (by simp [same])
      simpa using ne
  · show explorer.stack.dropLast.length ≤ explorer.capacity
    rw [List.length_dropLast]
    exact (Nat.sub_le _ _).trans log.bounded
  · intro other entry' left' seen' found'
    have before := log.looking other entry' left' seen' found'
    have earlier := before.earlier
    refine ⟨before.steps, ?_, ?_⟩
    · show seen' ≤ explorer.writes + 1
      omega
    · intro same
      have later : seen' = explorer.writes + 1 := same
      omega

end Logged

/-- An undo restored a payload and can no longer pop: the stack was written after it
looked, or another undo restored one too. -/
def Doomed (explorer : Explorer) : Prop :=
  ∃ call entry seen, explorer.restore call = some (entry, seen) ∧
    (seen ≠ explorer.writes ∨ ∃ other pair, other ≠ call ∧ explorer.restore other = some pair)

/-- The entries whose payload is in its bucket: the stack, without the entry that the
one undo past its restore is about to pop. -/
def Alive (explorer : Explorer) (live : List JournalEntry) : Prop :=
  live = explorer.stack ∧ (∀ call, explorer.restore call = none) ∨
    ∃ call entry seen, explorer.restore call = some (entry, seen) ∧
      explorer.stack = live ++ [entry] ∧ ∀ other, other ≠ call → explorer.restore other = none

/-- The shelf is in order, or the explorer will not come to rest. -/
def Settled (explorer : Explorer) : Prop :=
  Doomed explorer ∨ ∃ live, Alive explorer live ∧
    Shelved explorer.recycle (named live) explorer.hold explorer.abandoned

theorem restore_some {call : Nat} {entry : JournalEntry} {seen : Nat}
    (restores : explorer.restore call = some (entry, seen)) :
    ∃ left, explorer.calls call = some (.undoing entry left seen) ∧ Past entry left := by
  obtain ⟨now, found, restoring⟩ := Option.bind_eq_some_iff.mp restores
  obtain ⟨left, rfl, past⟩ := Call.restores_some restoring
  exact ⟨left, found, past⟩

theorem Logged.restore_le (log : Logged explorer) {call : Nat} {entry : JournalEntry} {seen : Nat}
    (restores : explorer.restore call = some (entry, seen)) : seen ≤ explorer.writes := by
  obtain ⟨left, found, _⟩ := restore_some restores
  exact (log.looking call entry left seen found).earlier

namespace Settled

variable {before after : Explorer}

theorem shelve (settled : Settled before) (restore : after.restore = before.restore)
    (stack : after.stack = before.stack) (writes : after.writes = before.writes)
    (shelve : ∀ shelf, Shelved before.recycle shelf before.hold before.abandoned →
      Shelved after.recycle shelf after.hold after.abandoned) : Settled after := by
  rcases settled with doomed | ⟨live, alive, shelved⟩
  · left
    unfold Doomed
    rw [restore, writes]
    exact doomed
  · right
    refine ⟨live, ?_, shelve _ shelved⟩
    unfold Alive
    rw [restore, stack]
    exact alive

theorem quiet (settled : Settled before) {call : Nat} {now : Option Call} {was : Option Call}
    (found : before.calls call = was) (holds : now.bind Call.holds = was.bind Call.holds)
    (restores : now.bind Call.restores = was.bind Call.restores) : Settled (before.setCall call now) := by
  subst found
  have sameHold : (before.setCall call now).hold = before.hold := by
    rw [hold_setCall, holds]
    exact Function.update_eq_self call before.hold
  have sameRestore : (before.setCall call now).restore = before.restore := by
    rw [restore_setCall, restores]
    exact Function.update_eq_self call before.restore
  refine settled.shelve sameRestore rfl rfl ?_
  intro shelf shelved
  rw [sameHold]
  exact shelved

theorem doomed_of_write (log : Logged before) {call : Nat} {pair : JournalEntry × Nat}
    (restores : after.restore call = some pair) (earlier : before.restore call = some pair)
    (writes : after.writes = before.writes + 1) : Doomed after := by
  obtain ⟨entry, seen⟩ := pair
  have le := log.restore_le earlier
  exact ⟨call, entry, seen, restores, .inl (by omega)⟩

theorem named_append (entries : List JournalEntry) (entry : JournalEntry) :
    named (entries ++ [entry]) = named entries ++ entry.kind.bucket.toList := by
  cases whose : entry.kind.bucket <;> simp [named, whose]

/-- The push of an edit, or of a delete that holds its payload. -/
theorem push (settled : Settled explorer) (log : Logged explorer) {call : Nat} {kind : JournalKind}
    (clears : explorer.Clears kind) (restores : explorer.restore call = none)
    (holds : explorer.hold call = kind.bucket.map (true, ·)) :
    Settled ((explorer.pushUndoable kind).setCall call none) := by
  have sameRestore : ((explorer.pushUndoable kind).setCall call none).restore = explorer.restore := by
    rw [restore_setCall]
    show Function.update explorer.restore call none = explorer.restore
    rw [← restores, Function.update_eq_self]
  have newHold : ((explorer.pushUndoable kind).setCall call none).hold =
      Function.update explorer.hold call none := hold_setCall call none
  have stale : ∀ {other pair}, explorer.restore other = some pair →
      Settled ((explorer.pushUndoable kind).setCall call none) := by
    intro other pair restoring
    left
    exact doomed_of_write log (by rw [sameRestore]; exact restoring) restoring rfl
  rcases settled with ⟨other, entry, seen, restoring, _⟩ | ⟨live, alive, shelved⟩
  · exact stale restoring
  · rcases alive with ⟨rfl, none⟩ | ⟨other, entry, seen, restoring, _⟩
    · right
      refine ⟨(explorer.pushUndoable kind).stack, .inl ⟨rfl, ?_⟩, ?_⟩
      · rw [sameRestore]
        exact none
      · rw [newHold]
        have stocked : Shelved explorer.recycle (named (explorer.stack ++ [explorer.entryOf kind]))
            (Function.update explorer.hold call Option.none) explorer.abandoned := by
          rw [named_append]
          show Shelved _ (_ ++ kind.bucket.toList) _ _
          cases whose : kind.bucket with
          | none =>
            rw [whose] at holds
            have same : Function.update explorer.hold call Option.none = explorer.hold := by
              rw [← show explorer.hold call = Option.none from holds, Function.update_eq_self]
            rw [same]
            simpa using shelved
          | some bucket =>
            rw [whose] at holds
            exact shelved.stock holds
        have freed : Function.update explorer.hold call Option.none call = Option.none := by simp
        refine evict_shelved freed _ _ _ stocked ?_
        intro evicted member
        apply clears
        rw [evictedBy, ← List.map_take]
        simpa using List.mem_map_of_mem (f := (·.kind)) member
    · exact stale restoring

/-- The pop of an undo that saw every write. -/
theorem pop (settled : Settled explorer) (log : Logged explorer) {call : Nat} {entry : JournalEntry}
    (found : explorer.calls call = some (.undoing entry [] explorer.writes)) :
    Settled ({ explorer.pop.2 with undone := explorer.undone ++ [(entry, explorer.pop.1)] }.setCall
      call none) := by
  have top : explorer.stack.getLast? = some entry := (log.looking call entry [] _ found).top rfl
  have split : explorer.stack = explorer.stack.dropLast ++ [entry] :=
    (List.dropLast_append_getLast? entry top).symm
  have idle : explorer.hold call = none := by
    cases whose : entry.kind.bucket <;> simp [hold, found, Call.holds, whose]
  have sameHold : Function.update explorer.hold call none = explorer.hold := by
    rw [← idle, Function.update_eq_self]
  have newRestore : ({ explorer.pop.2 with
      undone := explorer.undone ++ [(entry, explorer.pop.1)] }.setCall call none).restore =
      Function.update explorer.restore call none := restore_setCall call none
  have stale : ∀ {other pair}, other ≠ call → explorer.restore other = some pair →
      Settled ({ explorer.pop.2 with undone := explorer.undone ++ [(entry, explorer.pop.1)] }.setCall
        call none) := by
    intro other pair ne restoring
    left
    refine doomed_of_write log ?_ restoring rfl
    rw [newRestore, Function.update_of_ne ne]
    exact restoring
  rcases settled with ⟨other, entry', seen, restoring, why⟩ | ⟨live, alive, shelved⟩
  · by_cases same : other = call
    · subst same
      obtain ⟨left, found', _⟩ := restore_some restoring
      rw [found] at found'
      cases found'
      rcases why with late | ⟨third, pair, ne, restoring'⟩
      · exact absurd rfl late
      · exact stale ne restoring'
    · exact stale same restoring
  · right
    refine ⟨explorer.stack.dropLast, .inl ⟨rfl, ?_⟩, ?_⟩
    · rw [newRestore]
      intro other
      by_cases same : other = call
      · rw [same, Function.update_self]
      · rw [Function.update_of_ne same]
        rcases alive with ⟨_, none⟩ | ⟨third, entry', seen, restoring, ends, only⟩
        · exact none other
        · -- the undo past its restore has the popped entry, so it is the one that pops
          have last : entry' = entry := by
            rw [ends, List.getLast?_concat] at top
            exact Option.some.inj top
          subst last
          obtain ⟨left, _, bucket, whose, _⟩ := restore_some restoring
          have mine : explorer.restore call = some (entry', explorer.writes) := by
            simp [Explorer.restore, found, Call.restores, whose]
          have here : call = third := by
            by_contra ne
            rw [only call ne] at mine
            cases mine
          exact only other (here ▸ same)
    · show Shelved explorer.recycle (named explorer.stack.dropLast) _ explorer.abandoned
      rw [hold_setCall]
      show Shelved _ _ (Function.update explorer.hold call none) _
      rw [sameHold]
      rcases alive with ⟨rfl, none⟩ | ⟨third, entry', seen, _, ends, _⟩
      · have unnamed : entry.kind.bucket = Option.none := by
          cases whose : entry.kind.bucket with
          | none => rfl
          | some bucket =>
            have mine := none call
            simp [Explorer.restore, found, Call.restores, whose] at mine
        rw [split, named_append, unnamed] at shelved
        simpa using shelved
      · rw [ends, List.dropLast_concat]
        exact shelved

/-- The payload leaves its bucket. -/
theorem take (settled : Settled explorer) (log : Logged explorer) {call : Nat} {entry : JournalEntry}
    {left rest : List UndoStep} {seen : Nat} {bucket : Bucket}
    (found : explorer.calls call = some (.undoing entry left seen))
    (whose : entry.kind.bucket = some bucket) (before : .restored bucket ∈ left)
    (after : .restored bucket ∉ rest) (pending : .bucketCleared bucket ∈ rest) :
    Settled ({ explorer with recycle := Function.update explorer.recycle bucket (some none) }.setCall
      call (some (.undoing entry rest seen))) := by
  have idle : explorer.hold call = none := by simp [hold, found, Call.holds, whose, before]
  have unrestored : explorer.restore call = none := by
    simp [Explorer.restore, found, Call.restores, whose, before]
  have newRestore : ({ explorer with
      recycle := Function.update explorer.recycle bucket (some none) }.setCall
      call (some (.undoing entry rest seen))).restore =
      Function.update explorer.restore call (some (entry, seen)) := by
    rw [restore_setCall]
    simp [Call.restores, whose, after]
    rfl
  have newHold : ({ explorer with
      recycle := Function.update explorer.recycle bucket (some none) }.setCall
      call (some (.undoing entry rest seen))).hold =
      Function.update explorer.hold call (some (false, bucket)) := by
    rw [hold_setCall]
    simp [Call.holds, whose, after, pending]
    rfl
  have others : ∀ {other pair}, explorer.restore other = some pair → other ≠ call := by
    intro other pair restoring same
    rw [same, unrestored] at restoring
    cases restoring
  rcases settled with ⟨other, entry', seen', restoring, why⟩ | ⟨live, alive, shelved⟩
  · left
    refine ⟨other, entry', seen', ?_, ?_⟩
    · rw [newRestore, Function.update_of_ne (others restoring)]
      exact restoring
    · rcases why with late | ⟨third, pair, ne, restoring'⟩
      · exact .inl late
      · refine .inr ⟨third, pair, ne, ?_⟩
        rw [newRestore, Function.update_of_ne (others restoring')]
        exact restoring'
  · rcases alive with ⟨rfl, none⟩ | ⟨other, entry', seen', restoring, _⟩
    · by_cases late : seen = explorer.writes
      · right
        have top := (log.looking call entry left seen found).top late
        have split : explorer.stack = explorer.stack.dropLast ++ [entry] :=
          (List.dropLast_append_getLast? entry top).symm
        refine ⟨explorer.stack.dropLast, .inr ⟨call, entry, seen, ?_, split, ?_⟩, ?_⟩
        · rw [newRestore, Function.update_self]
        · intro other ne
          rw [newRestore, Function.update_of_ne ne]
          exact none other
        · rw [newHold]
          rw [split, named_append, whose] at shelved
          exact shelved.take idle
      · left
        refine ⟨call, entry, seen, ?_, .inl late⟩
        rw [newRestore, Function.update_self]
    · left
      refine ⟨call, entry, seen, ?_, .inr ⟨other, (entry', seen'), others restoring, ?_⟩⟩
      · rw [newRestore, Function.update_self]
      · rw [newRestore, Function.update_of_ne (others restoring)]
        exact restoring

end Settled

/-- The logs agree and the shelf is in order. -/
structure Sound (explorer : Explorer) : Prop where
  log : Logged explorer
  settled : Settled explorer

namespace Sound

theorem initial (capacity : Nat) : Sound (new capacity) where
  log := .initial capacity
  settled := .inr ⟨[], .inl ⟨rfl, fun _ => rfl⟩, Shelved.initial⟩

theorem quiet (sound : Sound explorer) {call : Nat} {was now : Option Call}
    (found : explorer.calls call = was) (holds : now.bind Call.holds = was.bind Call.holds)
    (restores : now.bind Call.restores = was.bind Call.restores)
    (looking : ∀ entry left seen, now = some (.undoing entry left seen) →
      Looking explorer entry left seen) : Sound (explorer.setCall call now) :=
  ⟨sound.log.setCall call now looking, sound.settled.quiet found holds restores⟩

theorem shelve (sound : Sound explorer) {call : Nat} {was now : Option Call} {recycle : Recycle}
    {abandoned : List Bucket} (found : explorer.calls call = was)
    (restores : now.bind Call.restores = was.bind Call.restores)
    (looking : ∀ entry left seen, now = some (.undoing entry left seen) →
      Looking explorer entry left seen)
    (shelve : ∀ shelf, Shelved explorer.recycle shelf explorer.hold explorer.abandoned →
      Shelved recycle shelf (Function.update explorer.hold call (now.bind Call.holds)) abandoned) :
    Sound ({ explorer with recycle := recycle, abandoned := abandoned }.setCall call now) := by
  subst found
  have sameRestore : ({ explorer with recycle := recycle, abandoned := abandoned }.setCall call now).restore
      = explorer.restore := by
    rw [restore_setCall, restores]
    exact Function.update_eq_self call explorer.restore
  refine ⟨(sound.log.numbered recycle explorer.nextId abandoned).setCall call now ?_, ?_⟩
  · intro entry left seen same
    have before := looking entry left seen same
    exact ⟨before.steps, before.earlier, before.top⟩
  · refine sound.settled.shelve sameRestore rfl rfl ?_
    intro shelf shelved
    rw [hold_setCall]
    exact shelve shelf shelved

theorem deleteStep (sound : Sound explorer) {call : Nat} {deletion : Deletion} {phase : DeletePhase}
    {answer : Answer} (found : explorer.calls call = some (.deleting deletion phase))
    (allowed : explorer.Allowed (.advance call answer)) :
    Sound (explorer.deleteStep call deletion answer phase) := by
  have mine : explorer.hold call = Call.holds (.deleting deletion phase) := by simp [hold, found]
  simp only [Allowed, found] at allowed
  cases phase with
  | begun =>
    rw [Explorer.deleteStep]
    split
    · next made =>
      simp only [Bool.and_eq_true, Option.isNone_iff_eq_none] at made
      exact sound.shelve found rfl (by simp) fun shelf shelved => shelved.make mine made.2
    · exact sound.quiet found rfl rfl (by simp)
  | made =>
    rw [Explorer.deleteStep]
    split
    · exact sound.quiet found rfl rfl (by simp)
    · exact sound.shelve found rfl (by simp) fun shelf shelved => shelved.clear mine
  | contained =>
    rw [Explorer.deleteStep]
    split
    · exact sound.quiet found rfl rfl (by simp)
    · exact sound.shelve found rfl (by simp) fun shelf shelved => shelved.clear mine
  | named =>
    rw [Explorer.deleteStep]
    split
    · exact sound.shelve found rfl (by simp) fun shelf shelved => shelved.fill answer.payload mine
    · exact sound.shelve found rfl (by simp) fun shelf shelved => shelved.abandon mine
  | moved =>
    rw [Explorer.deleteStep]
    rw [if_pos allowed]
    exact sound.quiet found rfl rfl (by simp)
  | identified fs => exact sound.quiet found rfl rfl (by simp)
  | forgotten fs =>
    refine ⟨(sound.log.push _).setCall call none (by simp), ?_⟩
    refine sound.settled.push sound.log allowed ?_ mine
    simp [restore, found, Call.restores]

theorem effect_unnamed {kind : JournalKind} (unnamed : kind.bucket = none) {step : UndoStep}
    (member : step ∈ undoSteps kind) (recycle : Recycle) : step.effect recycle = recycle := by
  cases kind with
  | create identity =>
    simp only [undoSteps, List.mem_append, List.mem_cons, List.not_mem_nil, or_false] at member
    rcases member with ((rfl | rfl | rfl | rfl) | directory) | rfl | rfl
    any_goals rfl
    split at directory
    · rw [List.mem_singleton.mp directory]
      rfl
    · cases directory
  | rename _ _ _ fs =>
    simp only [undoSteps, List.mem_cons, List.not_mem_nil, or_false] at member
    rcases member with rfl | rfl | rfl | rfl | rfl | rfl | rfl | rfl <;> rfl
  | move _ _ _ fs =>
    simp only [undoSteps, List.mem_cons, List.not_mem_nil, or_false] at member
    rcases member with rfl | rfl | rfl | rfl | rfl | rfl | rfl | rfl <;> rfl
  | softDelete _ _ => cases unnamed

theorem next_steps {entry : JournalEntry} {step : UndoStep} {left : List UndoStep} (answer : Answer)
    (unnamed : entry.kind.bucket = none)
    (steps : step :: left <:+ undoSteps entry.kind ∨
      entry.kind.bucket = none ∧ step :: left <:+ [.forgotten]) :
    step.next answer left <:+ undoSteps entry.kind ∨
      entry.kind.bucket = none ∧ step.next answer left <:+ [.forgotten] := by
  have rest : left <:+ undoSteps entry.kind ∨ entry.kind.bucket = none ∧ left <:+ [.forgotten] :=
    steps.imp (fun suffix => (List.suffix_cons step left).trans suffix)
      (fun suffix => ⟨unnamed, (List.suffix_cons step left).trans suffix.2⟩)
  unfold UndoStep.next
  split
  · split
    · exact rest
    · exact .inr ⟨unnamed, List.suffix_refl _⟩
  · exact rest

theorem undoStep_unnamed (sound : Sound explorer) {call : Nat} {entry : JournalEntry}
    {step : UndoStep} {left : List UndoStep} {seen : Nat} (answer : Answer)
    (found : explorer.calls call = some (.undoing entry (step :: left) seen))
    (unnamed : entry.kind.bucket = none) :
    Sound (explorer.undoStep call entry answer seen (step :: left)) := by
  have looking := sound.log.looking call entry _ seen found
  have untouched : step.effect explorer.recycle = explorer.recycle := by
    rcases looking.steps with suffix | ⟨_, suffix⟩
    · exact effect_unnamed unnamed (suffix.subset (by simp)) _
    · have last : step = .forgotten := by simpa using suffix.subset (show step ∈ step :: left by simp)
      rw [last]
      rfl
  rw [Explorer.undoStep]
  split
  · rw [untouched]
    refine sound.quiet found (by simp [Call.holds, unnamed]) (by simp [Call.restores, unnamed]) ?_
    intro entry' left' seen' same
    cases same
    exact ⟨next_steps answer unnamed looking.steps, looking.earlier, looking.top⟩
  · exact sound.quiet found (by simp [Call.holds, unnamed]) (by simp [Call.restores, unnamed]) (by simp)

/-- A step of the undo of a soft delete. -/
theorem undoStep_named (sound : Sound explorer) {call : Nat} {entry : JournalEntry} {step : UndoStep}
    {left : List UndoStep} {seen : Nat} {answer : Answer} {deletion : Deletion} {fs : FsIdentity}
    (found : explorer.calls call = some (.undoing entry (step :: left) seen))
    (kind : entry.kind = .softDelete deletion fs)
    (allowed : explorer.Allowed (.advance call answer)) :
    Sound (explorer.undoStep call entry answer seen (step :: left)) := by
  have looking := sound.log.looking call entry _ seen found
  have whose : entry.kind.bucket = some deletion.bucket := by rw [kind]; rfl
  simp only [Allowed, found] at allowed
  have suffix : step :: left <:+ undoSteps (.softDelete deletion fs) := by
    rcases looking.steps with suffix | ⟨unnamed, _⟩
    · exact kind ▸ suffix
    · rw [whose] at unnamed
      cases unnamed
  have rest : ∀ entry' left' seen', some (Call.undoing entry left seen) =
      some (.undoing entry' left' seen') → Looking explorer entry' left' seen' := by
    intro entry' left' seen' same
    cases same
    exact ⟨.inl (kind ▸ (List.suffix_cons step left).trans suffix), looking.earlier, looking.top⟩
  simp only [undoSteps, List.suffix_cons_iff, List.cons.injEq, List.suffix_nil, reduceCtorEq, or_false] at suffix
  rcases suffix with ⟨rfl, rfl⟩ | ⟨rfl, rfl⟩ | ⟨rfl, rfl⟩ | ⟨rfl, rfl⟩ | ⟨rfl, rfl⟩ | ⟨rfl, rfl⟩ |
    ⟨rfl, rfl⟩ | ⟨rfl, rfl⟩ | ⟨rfl, rfl⟩
  all_goals rw [Explorer.undoStep]
  -- the checks before the payload moves
  iterate 4
    · split
      · exact sound.quiet found (by simp [Call.holds, whose, UndoStep.next])
          (by simp [Call.restores, whose, UndoStep.next]) rest
      · exact sound.quiet found (by simp [Call.holds, whose]) (by simp [Call.restores, whose]) (by simp)
  · split
    · refine ⟨(sound.log.recycled _).setCall call _ ?_, ?_⟩
      · intro entry' left' seen' same
        have before := rest entry' left' seen' same
        exact ⟨before.steps, before.earlier, before.top⟩
      · exact sound.settled.take sound.log found whose (by simp) (by simp [UndoStep.next]) (by simp [UndoStep.next])
    · exact sound.quiet found (by simp [Call.holds, whose]) (by simp [Call.restores, whose]) (by simp)
  · have mine : explorer.hold call = some (false, deletion.bucket) := by
      simp [hold, found, Call.holds, whose]
    rw [if_pos (by simp [UndoStep.passes])]
    refine sound.shelve found (by simp [Call.restores, whose, UndoStep.next]) rest ?_
    intro shelf shelved
    have freed : (some (Call.undoing entry [UndoStep.statted, .inserted, .reclassified] seen)).bind Call.holds
        = none := by simp [Call.holds, whose]
    show Shelved _ _ (Function.update _ _ ((some (Call.undoing entry _ seen)).bind Call.holds)) _
    rw [UndoStep.next, freed]
    · exact shelved.clear mine
    · simp
  -- past the restore every answer is a success
  iterate 3
    · have good : answer.ok = true := allowed ⟨deletion.bucket, whose, by simp⟩
      rw [if_pos (by simp [UndoStep.passes, good])]
      exact sound.quiet found (by simp [Call.holds, whose, UndoStep.next])
        (by simp [Call.restores, whose, UndoStep.next]) rest

theorem undoStep (sound : Sound explorer) {call : Nat} {entry : JournalEntry} {left : List UndoStep}
    {seen : Nat} {answer : Answer} (found : explorer.calls call = some (.undoing entry left seen))
    (allowed : explorer.Allowed (.advance call answer)) :
    Sound (explorer.undoStep call entry answer seen left) := by
  cases left with
  | nil =>
    simp only [Allowed, found] at allowed
    subst allowed
    exact ⟨(sound.log.pop found).setCall call none (by simp), sound.settled.pop sound.log found⟩
  | cons step rest =>
    cases kind : entry.kind with
    | softDelete deletion fs => exact sound.undoStep_named found kind allowed
    | create identity => exact sound.undoStep_unnamed answer found (by rw [kind]; rfl)
    | rename _ _ _ _ => exact sound.undoStep_unnamed answer found (by rw [kind]; rfl)
    | move _ _ _ _ => exact sound.undoStep_unnamed answer found (by rw [kind]; rfl)

theorem step (sound : Sound explorer) {action : Action} (allowed : explorer.Allowed action) :
    Sound (explorer.step action) := by
  cases action with
  | edit call =>
    simp only [Explorer.step]
    split
    · next found => exact sound.quiet found rfl rfl (by simp)
    · exact sound
  | fail call =>
    simp only [Explorer.step]
    split
    · next found => exact sound.quiet found rfl rfl (by simp)
    · exact sound
  | push call kind =>
    simp only [Explorer.step]
    split
    · next found unnamed =>
      refine ⟨(sound.log.push kind).setCall call none (by simp), ?_⟩
      refine sound.settled.push sound.log allowed ?_ ?_
      · simp [restore, found, Call.restores]
      · simp [hold, found, Call.holds, unnamed]
    · exact sound
  | note call =>
    simp only [Explorer.step]
    split
    · next found =>
      refine ⟨(sound.log.numbered explorer.recycle explorer.idAfter explorer.abandoned).setCall
        call none (by simp), ?_⟩
      have settled : Settled explorer.recordNonUndoable :=
        sound.settled.shelve rfl rfl rfl fun _ shelved => shelved
      exact settled.quiet found rfl rfl
    · exact sound
  | delete call deletion =>
    simp only [Explorer.step]
    split
    · next found => exact sound.quiet found rfl rfl (by simp)
    · exact sound
  | undo call =>
    simp only [Explorer.step]
    split
    · next entry found top =>
      have begins : (some (Call.undoing entry (undoSteps entry.kind) explorer.writes)).bind Call.restores
          = none ∧ (some (Call.undoing entry (undoSteps entry.kind) explorer.writes)).bind Call.holds
          = none := by
        cases kind : entry.kind <;> simp [Call.restores, Call.holds, kind, JournalKind.bucket, undoSteps]
      refine sound.quiet found begins.2 begins.1 ?_
      intro entry' left seen same
      cases same
      exact ⟨.inl (List.suffix_refl _), le_refl _, fun _ => top⟩
    · exact sound
  | advance call answer =>
    simp only [Explorer.step]
    split
    · next deletion phase found => exact sound.deleteStep found allowed
    · next entry left seen found => exact sound.undoStep found allowed
    · exact sound

theorem reached {capacity : Nat} (run : Run Explorer.step Allowed (new capacity) explorer) : Sound explorer :=
  run.invariant Sound (initial capacity) fun _ _ sound allowed => sound.step allowed

theorem shelved_idle (sound : Sound explorer) (idle : explorer.Idle) :
    Shelved explorer.recycle (named explorer.stack) (fun _ => none) explorer.abandoned := by
  have unrestored : ∀ call, explorer.restore call = none := by
    intro call
    simp [restore, idle call]
  have unheld : explorer.hold = fun _ => none := by
    funext call
    simp [hold, idle call]
  rcases sound.settled with ⟨call, entry, seen, restoring, _⟩ | ⟨live, alive, shelved⟩
  · rw [unrestored] at restoring
    cases restoring
  · rw [unheld] at shelved
    rcases alive with ⟨rfl, _⟩ | ⟨call, entry, seen, restoring, _⟩
    · exact shelved
    · rw [unrestored] at restoring
      cases restoring

theorem kept (sound : Sound explorer) : Kept explorer where
  popped := sound.log.popped
  once := sound.log.once
  newest := sound.log.newest
  bounded := sound.log.bounded
  payloads idle bucket := by
    have shelved := sound.shelved_idle idle
    rw [← mem_named]
    constructor
    · intro holds
      rcases shelved.owned bucket holds with member | ⟨call, held⟩
      · exact member
      · cases held
    · exact shelved.shelved bucket
  buckets idle bucket hollow := by
    rcases (sound.shelved_idle idle).empty bucket hollow with member | ⟨call, held⟩
    · exact member
    · cases held

end Sound

/-- However calls interleave, the bookkeeping is kept in every state reached by steps
where no undo pops after another write of the stack, no regular file is evicted, and no
error drops a payload that has moved. -/
theorem bookkeeping_kept {capacity : Nat} (run : Run step Allowed (new capacity) explorer) :
    Kept explorer :=
  (Sound.reached run).kept

section Histories

/-- A regular file with its number on disk. -/
private def fileIdentity (ino : Nat) : FsIdentity := ⟨0, 5, 5, 0, 1, ino⟩

private def created (name : String) (ino : Nat) : JournalKind :=
  .create ⟨ino, Path.ofNames ["ws", name], fileIdentity ino⟩

private def succeeds (ino : Nat) : Answer :=
  ⟨true, fileIdentity ino, some (fileIdentity ino), ⟨.directory, true⟩⟩

private def folderDeletion : Deletion :=
  ⟨Path.ofNames ["ws", "src"], ⟨Path.ofNames ["tmp", "mille-recycle", "ws"], 7⟩, 1, .utf8 "src", true, true⟩

/-- A folder is deleted and the delete undone. -/
private def deletedAndUndone : List Action :=
  .delete 0 folderDeletion :: List.replicate 7 (.advance 0 (succeeds 4)) ++
    .undo 1 :: List.replicate 10 (.advance 1 (succeeds 4))

theorem bookkeeping_kept_undone_delete :
    Kept (deletedAndUndone.foldl step (new defaultCapacity)) ∧
      (deletedAndUndone.foldl step (new defaultCapacity)).undone.length = 1 := by
  refine ⟨bookkeeping_kept (Run.of_list deletedAndUndone ?_), by decide⟩
  have fits : ∀ {explorer : Explorer} {kind}, explorer.stack.length + 1 - explorer.capacity = 0 →
      explorer.Clears kind := by
    intro explorer kind room evicted member
    rw [evictedBy, room, List.take_zero] at member
    cases member
  exact ⟨trivial, trivial, trivial, trivial, trivial, rfl, trivial, fits (by decide), trivial,
    fun _ => rfl, fun _ => rfl, fun _ => rfl, fun _ => rfl, fun _ => rfl, fun _ => rfl, fun _ => rfl,
    fun _ => rfl, fun _ => rfl, rfl, trivial⟩

/-- A create is undone while another create is journalled. -/
private def createdDuringUndo : List Action :=
  [.edit 0, .push 0 (created "a" 11), .undo 1, .edit 2, .push 2 (created "b" 12)] ++
    List.replicate 7 (.advance 1 (succeeds 11))

/-- The undo of the first create pops the second. -/
theorem undo_pops_later_entry :
    ¬∀ explorer, Run step (fun _ _ => True) (new defaultCapacity) explorer → Kept explorer := by
  intro kept
  have along : ∀ (actions : List Action) (start : Explorer),
      Run.Along step (fun _ _ => True) start actions := by
    intro actions
    induction actions with
    | nil => exact fun _ => trivial
    | cons action rest ih => exact fun start => ⟨trivial, ih (start.step action)⟩
  have reached := Run.of_list createdDuringUndo (along createdDuringUndo (new defaultCapacity))
  have popped := (kept _ reached).popped
  have undone : (createdDuringUndo.foldl step (new defaultCapacity)).undone =
      [(⟨1, created "a" 11, 0⟩, some ⟨2, created "b" 12, 1⟩)] := by decide
  rw [undone] at popped
  have same := popped _ (List.mem_singleton_self _)
  exact absurd same (by decide)

end Histories

end Explorer

end Mille.Journal
