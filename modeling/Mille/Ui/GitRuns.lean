import Mathlib
import Mille.Ui.GitDecorations

/-! What the published decorations come from over whole runs. Recomputes that end in the
order they started keep them current. -/

namespace Mille.Ui.Git

section Decorated

variable (options : Options)

def gather (entries : List GitStatusEntry) (found : List (Option Int)) : Gathered :=
  (entries.zip found).foldl (fun gathered pair => gathered.found options pair.1 pair.2) ⟨.empty, []⟩

/-- The decorations of a status, its paths resolved to these ids, in a tree. -/
def decorated (entries : List GitStatusEntry) (found : List (Option Int)) (snapshot : Snapshot) :
    JsMap Int Decoration :=
  propagated options snapshot (gather options entries found).next
    (gather options entries found).leafEntries

theorem gather_next {entries todo : List GitStatusEntry} {entry : GitStatusEntry}
    {found : List (Option Int)} (left : entry :: todo = entries.drop found.length) (id : Option Int) :
    gather options entries (found ++ [id]) = (gather options entries found).found options entry id := by
  obtain ⟨first, rfl, size⟩ : ∃ first, entries = first ++ entry :: todo ∧ first.length = found.length := by
    refine ⟨entries.take found.length, ?_, ?_⟩
    · rw [left, List.take_append_drop]
    · have drops := congrArg List.length left
      rw [List.length_cons, List.length_drop] at drops
      rw [List.length_take]
      omega
  have before : (first ++ entry :: todo).zip found = first.zip found := by
    simpa using @List.zip_append _ _ first (entry :: todo) found [] size
  have after : (first ++ entry :: todo).zip (found ++ [id]) = first.zip found ++ [(entry, id)] := by
    rw [List.zip_append size, List.zip_cons_cons, List.zip_nil_right]
  unfold gather
  rw [before, after, List.foldl_append]
  rfl

end Decorated

section Conditions

variable (options : Options) (repository : Nat → List GitStatusEntry)

/-- The recompute that reaches its end in a step. -/
def State.completes (state : State) : Event → Option Nat
  | .answer number moment _ => if (repository moment).length = 0 then some number else none
  | .resolve number _ _ =>
    match state.find number with
    | some ⟨_, _, _, .resolving _ [_] _ _⟩ => some number
    | _ => none
  | _ => none

/-- A recompute reaches its end while those started later are still under way, and none is
resolving paths when the provider is disposed. -/
def State.Orderly (state : State) (event : Event) : Prop :=
  state.disposed = true ∨
    (∀ number, state.completes repository event = some number → ∀ later, number < later →
      later < state.calls → ∃ recompute ∈ state.recomputes, recompute.number = later) ∧
    (event = .dispose → ∀ recompute ∈ state.recomputes, recompute.phase = .fetching)

/-- The states of runs whose steps are all orderly. -/
inductive Reached : State → Prop where
  | initial : Reached .initial
  | step {state after : State} {event : Event} (reached : Reached state)
      (orderly : state.Orderly repository event)
      (taken : state.step options repository event = some after) : Reached after

/-- A recompute that resolves paths has read the status of a moment after its call. -/
def Recompute.Sound (recompute : Recompute) : Prop :=
  match recompute.phase with
  | .fetching => True
  | .resolving moment todo found gathered =>
    recompute.called ≤ moment ∧ gathered = gather options (repository moment) found ∧
      todo = (repository moment).drop found.length ∧ todo ≠ []

/-- What every state of an orderly run keeps. -/
structure Invariant (state : State) : Prop where
  listed : ∀ id, state.decorations.has id = true → state.decoratedIds.has id = true
  numbered : ∀ recompute ∈ state.recomputes, recompute.number < state.calls ∧
    recompute.called ≤ state.now
  ordered : state.recomputes.Pairwise fun first second =>
    first.number < second.number ∧ first.called ≤ second.called
  sound : ∀ recompute ∈ state.recomputes, recompute.Sound options repository
  past : ∀ refresh ∈ state.settling, refresh.number < state.calls ∧ refresh.called ≤ state.now ∧
    ∀ recompute ∈ state.recomputes, recompute.number ≠ refresh.number ∧
      (refresh.number < recompute.number → refresh.called ≤ recompute.called)
  gone : state.disposed = true → state.decorations = .empty ∧ state.shown = none ∧
    state.pending = false ∧ ∀ recompute ∈ state.recomputes, recompute.phase = .fetching
  waiting : state.disposed = false → state.shown = none → ∀ number < state.calls,
    ∃ recompute ∈ state.recomputes, recompute.number = number
  latest : ∀ shown, state.shown = some shown → shown.number < state.calls ∧
    (∀ number < state.calls, shown.number < number →
      ∃ recompute ∈ state.recomputes, recompute.number = number) ∧
    shown.found.length = (repository shown.moment).length ∧
    state.decorations = decorated options (repository shown.moment) shown.found shown.snapshot
  settled : state.disposed = false → ∀ refresh ∈ state.settling, ∃ shown,
    state.shown = some shown ∧ refresh.number ≤ shown.number ∧ refresh.called ≤ shown.moment

end Conditions

section Kept

variable {options : Options} {repository : Nat → List GitStatusEntry} {state : State}

theorem Invariant.compare (kept : Invariant options repository state) {first second : Recompute}
    (one : first ∈ state.recomputes) (two : second ∈ state.recomputes) : first = second ∨
      (first.number < second.number ∧ first.called ≤ second.called) ∨
        (second.number < first.number ∧ second.called ≤ first.called) := by
  let Compared (first second : Recompute) : Prop := first = second ∨
    (first.number < second.number ∧ first.called ≤ second.called) ∨
      (second.number < first.number ∧ second.called ≤ first.called)
  have symmetric : Std.Symm Compared := by
    refine ⟨fun a b compared => ?_⟩
    rcases compared with same | below | beyond
    · exact .inl same.symm
    · exact .inr (.inr below)
    · exact .inr (.inl beyond)
  have pairs : state.recomputes.Pairwise Compared := kept.ordered.imp fun rising => .inr (.inl rising)
  exact List.Pairwise.forall_of_forall (fun _ _ => .inl rfl) pairs one two

theorem Invariant.unique (kept : Invariant options repository state) {first second : Recompute}
    (one : first ∈ state.recomputes) (two : second ∈ state.recomputes)
    (same : first.number = second.number) : first = second := by
  rcases kept.compare one two with equal | below | beyond
  · exact equal
  · omega
  · omega

theorem start_invariant (kept : Invariant options repository state) (refresh : Bool) :
    Invariant options repository (state.start refresh) := by
  unfold State.start
  split
  · exact kept
  · rename_i open_
    have fresh : ∀ recompute ∈ state.recomputes, recompute.number < state.calls :=
      fun recompute member => (kept.numbered recompute member).1
    have cases {recompute : Recompute} (member : recompute ∈ state.recomputes ++
        [⟨state.calls, state.now, refresh, .fetching⟩]) : recompute ∈ state.recomputes ∨
          recompute = ⟨state.calls, state.now, refresh, .fetching⟩ := by
      rwa [List.mem_append, List.mem_singleton] at member
    have reach (number : Nat) (low : number < state.calls + 1)
        (earlier : number < state.calls → ∃ recompute ∈ state.recomputes, recompute.number = number) :
        ∃ recompute ∈ state.recomputes ++ [⟨state.calls, state.now, refresh, .fetching⟩],
          recompute.number = number := by
      by_cases last : number = state.calls
      · exact ⟨_, List.mem_append_right _ List.mem_cons_self, last.symm⟩
      · obtain ⟨recompute, member, same⟩ := earlier (by omega)
        exact ⟨recompute, List.mem_append_left _ member, same⟩
    refine ⟨kept.listed, ?_, ?_, ?_, ?_, fun gone => absurd gone open_, ?_, ?_, kept.settled⟩
    · intro recompute member
      rcases cases member with old | rfl
      · have bounds := kept.numbered recompute old
        exact ⟨Nat.lt_succ_of_lt bounds.1, bounds.2⟩
      · exact ⟨Nat.lt_succ_self _, le_rfl⟩
    · refine List.pairwise_append.mpr ⟨kept.ordered, List.pairwise_singleton _ _, ?_⟩
      intro first before second last
      rw [List.mem_singleton] at last
      rw [last]
      exact kept.numbered first before
    · intro recompute member
      rcases cases member with old | rfl
      · exact kept.sound recompute old
      · trivial
    · intro settling member
      obtain ⟨low, earlier, others⟩ := kept.past settling member
      refine ⟨Nat.lt_succ_of_lt low, earlier, fun recompute among => ?_⟩
      rcases cases among with old | rfl
      · exact others recompute old
      · exact ⟨(Nat.ne_of_lt low).symm, fun _ => earlier⟩
    · intro alive nothing number low
      exact reach number low (kept.waiting alive nothing number)
    · intro shown published
      obtain ⟨low, others, rest⟩ := kept.latest shown published
      exact ⟨Nat.lt_succ_of_lt low, fun number small after => reach number small
        fun earlier => others number earlier after, rest⟩

/-- A recompute goes on to its next path. -/
theorem hold_invariant (kept : Invariant options repository state) {recompute later : Recompute}
    (member : recompute ∈ state.recomputes) (alive : state.disposed = false)
    (number : later.number = recompute.number) (called : later.called = recompute.called)
    (sound : later.Sound options repository) :
    Invariant options repository { state with
      recomputes := state.recomputes.map fun other =>
        if other.number = recompute.number then later else other } := by
  have same : ∀ other ∈ state.recomputes,
      (if other.number = recompute.number then later else other).number = other.number ∧
        (if other.number = recompute.number then later else other).called = other.called := by
    intro other there
    split
    · rename_i twin
      rw [kept.unique there member twin]
      exact ⟨number, called⟩
    · exact ⟨rfl, rfl⟩
  have back {next : Recompute} (there : next ∈ state.recomputes.map fun other =>
      if other.number = recompute.number then later else other) :
      ∃ other ∈ state.recomputes, next.number = other.number ∧ next.called = other.called := by
    obtain ⟨other, old, rfl⟩ := List.mem_map.mp there
    exact ⟨other, old, same other old⟩
  have forth {number : Nat} (there : ∃ other ∈ state.recomputes, other.number = number) :
      ∃ next ∈ state.recomputes.map (fun other =>
        if other.number = recompute.number then later else other), next.number = number := by
    obtain ⟨other, old, rfl⟩ := there
    exact ⟨_, List.mem_map_of_mem old, (same other old).1⟩
  refine ⟨kept.listed, ?_, ?_, ?_, ?_, fun gone => ?_, ?_, ?_, kept.settled⟩
  · intro next there
    obtain ⟨other, old, numbers, calls⟩ := back there
    rw [numbers, calls]
    exact kept.numbered other old
  · refine List.pairwise_map.mpr (kept.ordered.imp_of_mem fun {first second} before after rising => ?_)
    rw [(same first before).1, (same first before).2, (same second after).1, (same second after).2]
    exact rising
  · intro next there
    obtain ⟨other, old, rfl⟩ := List.mem_map.mp there
    split
    · exact sound
    · exact kept.sound other old
  · intro settling settles
    obtain ⟨low, earlier, others⟩ := kept.past settling settles
    refine ⟨low, earlier, fun next there => ?_⟩
    obtain ⟨other, old, numbers, calls⟩ := back there
    rw [numbers, calls]
    exact others other old
  · rw [alive] at gone
    cases gone
  · intro _ nothing number low
    exact forth (kept.waiting alive nothing number low)
  · intro shown published
    obtain ⟨low, others, rest⟩ := kept.latest shown published
    exact ⟨low, fun number small after => forth (others number small after), rest⟩

theorem mem_finish {recompute other : Recompute} :
    other ∈ (state.finish recompute).recomputes ↔
      other ∈ state.recomputes ∧ other.number ≠ recompute.number := by
  unfold State.finish
  rw [List.mem_filter, decide_eq_true_eq]

theorem settling_finish {recompute : Recompute} {refresh : Settling}
    (settles : refresh ∈ (state.finish recompute).settling) :
    refresh ∈ state.settling ∨ refresh = ⟨recompute.number, recompute.called⟩ := by
  unfold State.finish at settles
  dsimp only at settles
  split at settles
  · rwa [List.mem_append, List.mem_singleton] at settles
  · exact .inl settles

theorem Invariant.past_finish (kept : Invariant options repository state) {recompute : Recompute}
    (member : recompute ∈ state.recomputes) {refresh : Settling}
    (settles : refresh ∈ (state.finish recompute).settling) :
    refresh.number < state.calls ∧ refresh.called ≤ state.now ∧
      ∀ other ∈ (state.finish recompute).recomputes, other.number ≠ refresh.number ∧
        (refresh.number < other.number → refresh.called ≤ other.called) := by
  rcases settling_finish settles with earlier | rfl
  · obtain ⟨low, before, others⟩ := kept.past refresh earlier
    exact ⟨low, before, fun other there => others other (mem_finish.mp there).1⟩
  · obtain ⟨low, before⟩ := kept.numbered recompute member
    refine ⟨low, before, fun other there => ?_⟩
    obtain ⟨old, apart⟩ := mem_finish.mp there
    refine ⟨apart, fun later => ?_⟩
    rcases kept.compare member old with same | below | beyond
    · exact absurd (congrArg Recompute.number same).symm apart
    · exact below.2
    · exact absurd (later.trans beyond.1) (lt_irrefl _)

theorem finish_disposed_invariant (kept : Invariant options repository state) {recompute : Recompute}
    (member : recompute ∈ state.recomputes) (gone : state.disposed = true) :
    Invariant options repository (state.finish recompute) := by
  obtain ⟨empty, shown, idle, fetching⟩ := kept.gone gone
  refine ⟨kept.listed, fun other there => kept.numbered other (mem_finish.mp there).1,
    kept.ordered.sublist List.filter_sublist, fun other there => kept.sound other (mem_finish.mp there).1,
    fun _ settles => kept.past_finish member settles,
    fun _ => ⟨empty, shown, idle, fun other there => fetching other (mem_finish.mp there).1⟩,
    fun alive => ?_, fun other published => ?_, fun alive => ?_⟩
  · cases gone.symm.trans alive
  · cases shown.symm.trans published
  · cases gone.symm.trans alive

/-- A recompute that ends before all that started later publishes what they will replace. -/
theorem publish_invariant (kept : Invariant options repository state) {recompute : Recompute}
    (member : recompute ∈ state.recomputes) (alive : state.disposed = false)
    (orderly : ∀ later, recompute.number < later → later < state.calls →
      ∃ other ∈ state.recomputes, other.number = later) {moment : Nat} {found : List (Option Int)}
    (called : recompute.called ≤ moment) (size : found.length = (repository moment).length)
    (snapshot : Snapshot) : Invariant options repository
      (state.publish options recompute moment found (gather options (repository moment) found)
        snapshot) := by
  obtain ⟨low, _⟩ := kept.numbered recompute member
  refine ⟨fun id listed => ?_, fun other there => kept.numbered other (mem_finish.mp there).1,
    kept.ordered.sublist List.filter_sublist, fun other there => kept.sound other (mem_finish.mp there).1,
    fun _ settles => kept.past_finish member settles, fun gone => ?_, fun _ nothing => ?_,
    fun shown published => ?_, fun _ refresh settles => ?_⟩
  · exact JsMap.has_ofList.mpr (JsMap.mem_keys.mpr listed)
  · cases alive.symm.trans gone
  · cases nothing
  · cases published
    refine ⟨low, fun number small later => ?_, size, rfl⟩
    obtain ⟨other, there, same⟩ := orderly number later small
    exact ⟨other, mem_finish.mpr ⟨there, same ▸ Nat.ne_of_gt later⟩, same⟩
  · refine ⟨_, rfl, ?_⟩
    rcases settling_finish settles with earlier | rfl
    · obtain ⟨small, _, others⟩ := kept.past refresh earlier
      have below : refresh.number < recompute.number := by
        rcases Nat.lt_trichotomy refresh.number recompute.number with below | same | beyond
        · exact below
        · exact absurd same.symm (others recompute member).1
        · obtain ⟨other, there, twin⟩ := orderly refresh.number beyond small
          exact absurd twin (others other there).1
      exact ⟨below.le, ((others recompute member).2 below).trans called⟩
    · exact ⟨le_rfl, called⟩

theorem find_member {number : Nat} {recompute : Recompute} (found : state.find number = some recompute) :
    recompute ∈ state.recomputes ∧ recompute.number = number := by
  unfold State.find at found
  have same := List.find?_some found
  exact ⟨List.mem_of_find?_eq_some found, of_decide_eq_true same⟩

theorem proceed_invariant (kept : Invariant options repository state) {recompute : Recompute}
    (member : recompute ∈ state.recomputes) (alive : state.disposed = false) {moment : Nat}
    {found : List (Option Int)} {todo : List GitStatusEntry}
    (orderly : todo = [] → ∀ later, recompute.number < later → later < state.calls →
      ∃ other ∈ state.recomputes, other.number = later)
    (called : recompute.called ≤ moment) (left : todo = (repository moment).drop found.length)
    (within : found.length ≤ (repository moment).length) (snapshot : Snapshot) :
    Invariant options repository (state.proceed options recompute moment todo found
      (gather options (repository moment) found) snapshot) := by
  unfold State.proceed
  split
  · have size := congrArg List.length left
    rw [List.length_drop, List.length_nil] at size
    exact publish_invariant kept member alive (orderly rfl) called (by omega) snapshot
  · rename_i more
    exact hold_invariant kept member alive rfl rfl ⟨called, rfl, left, more⟩

theorem untold_invariant (kept : Invariant options repository state) :
    Invariant options repository { state with told := [] } :=
  ⟨kept.listed, kept.numbered, kept.ordered, kept.sound, kept.past, kept.gone, kept.waiting,
    kept.latest, kept.settled⟩

theorem idle_invariant (kept : Invariant options repository state) :
    Invariant options repository { state with pending := false } :=
  ⟨kept.listed, kept.numbered, kept.ordered, kept.sound, kept.past,
    fun gone => ⟨(kept.gone gone).1, (kept.gone gone).2.1, rfl, (kept.gone gone).2.2.2⟩, kept.waiting,
    kept.latest, kept.settled⟩

theorem answer_invariant (kept : Invariant options repository state) {number moment : Nat}
    {snapshot : Snapshot} {after : State}
    (orderly : state.Orderly repository (.answer number moment snapshot))
    (taken : state.step options repository (.answer number moment snapshot) = some after) :
    Invariant options repository after := by
  have silent := untold_invariant kept
  unfold State.step at taken
  dsimp only at taken
  split at taken
  · rename_i number called refresh found
    obtain ⟨member, same⟩ := find_member found
    split at taken
    · rename_i between
      split at taken
      · rename_i gone
        cases taken
        exact finish_disposed_invariant silent member gone
      · rename_i alive
        cases taken
        have open_ : state.disposed = false := eq_false_of_ne_true alive
        have started : gather options (repository moment) [] = ⟨.empty, []⟩ := by
          unfold gather
          rw [List.zip_nil_right]
          rfl
        rw [← started]
        refine @proceed_invariant options repository _ silent _ member open_ moment [] _
          (fun empty => ?_) between.1 rfl (Nat.zero_le _) snapshot
        have next := (orderly.resolve_left alive).1 number
        have short : (repository moment).length = 0 := congrArg List.length empty
        subst same
        exact next (if_pos short)
    · cases taken
  · cases taken

theorem resolve_invariant (kept : Invariant options repository state) {number : Nat} {id : Option Int}
    {snapshot : Snapshot} {after : State}
    (orderly : state.Orderly repository (.resolve number id snapshot))
    (taken : state.step options repository (.resolve number id snapshot) = some after) :
    Invariant options repository after := by
  have silent := untold_invariant kept
  unfold State.step at taken
  dsimp only at taken
  split at taken
  · rename_i number called refresh moment entry todo found gathered known
    obtain ⟨member, same⟩ := find_member known
    obtain ⟨before, gathers, left, _⟩ := kept.sound _ member
    dsimp only at before left
    cases taken
    have alive : ¬state.disposed = true := by
      intro gone
      cases (kept.gone gone).2.2.2 _ member
    have open_ : state.disposed = false := eq_false_of_ne_true alive
    have more := congrArg List.length left
    rw [List.length_drop, List.length_cons] at more
    rw [gathers, ← gather_next options left id]
    refine proceed_invariant silent member open_ (fun last => ?_) before ?_ ?_ snapshot
    · have next := (orderly.resolve_left alive).1 number
      unfold State.completes at next
      dsimp only at next same
      subst same last
      have here : state.find number = some ⟨number, called, refresh, .resolving moment [entry] found gathered⟩ := known
      rw [here] at next
      exact next rfl
    · rw [List.length_append, ← List.drop_drop, ← left]
      rfl
    · rw [List.length_append, List.length_singleton]
      omega
  · cases taken

/-- An orderly step keeps the invariant. -/
theorem step_invariant (kept : Invariant options repository state) {event : Event} {after : State}
    (orderly : state.Orderly repository event)
    (taken : state.step options repository event = some after) :
    Invariant options repository after := by
  have silent := untold_invariant kept
  cases event with
  | tick =>
    cases taken
    refine ⟨kept.listed, fun recompute member => ?_, kept.ordered, kept.sound,
      fun refresh settles => ?_, kept.gone, kept.waiting, kept.latest, kept.settled⟩
    · have bounds := kept.numbered recompute member
      exact ⟨bounds.1, Nat.le_succ_of_le bounds.2⟩
    · have bounds := kept.past refresh settles
      exact ⟨bounds.1, Nat.le_succ_of_le bounds.2.1, bounds.2.2⟩
  | notify =>
    cases taken
    refine ⟨kept.listed, kept.numbered, kept.ordered, kept.sound, kept.past, fun gone => ?_,
      kept.waiting, kept.latest, kept.settled⟩
    obtain ⟨empty, shown, idle, fetching⟩ := kept.gone gone
    refine ⟨empty, shown, ?_, fetching⟩
    change (state.pending || !state.disposed) = false
    rw [idle, show state.disposed = true from gone]
    rfl
  | fire =>
    unfold State.step at taken
    dsimp only at taken
    split at taken
    · cases taken
      exact start_invariant (idle_invariant silent) false
    · cases taken
  | refresh =>
    unfold State.step at taken
    dsimp only at taken
    split at taken
    · cases taken
      exact silent
    · cases taken
      exact start_invariant (idle_invariant silent) true
  | answer number moment snapshot => exact answer_invariant kept orderly taken
  | resolve number id snapshot => exact resolve_invariant kept orderly taken
  | settle number =>
    unfold State.step at taken
    dsimp only at taken
    split at taken
    · cases taken
      exact ⟨kept.listed, kept.numbered, kept.ordered, kept.sound,
        fun refresh settles => kept.past refresh (List.mem_of_mem_filter settles), kept.gone,
        kept.waiting, kept.latest,
        fun alive refresh settles => kept.settled alive refresh (List.mem_of_mem_filter settles)⟩
    · cases taken
  | listen listener =>
    cases taken
    exact ⟨kept.listed, kept.numbered, kept.ordered, kept.sound, kept.past, kept.gone, kept.waiting,
      kept.latest, kept.settled⟩
  | unlisten listener =>
    cases taken
    exact ⟨kept.listed, kept.numbered, kept.ordered, kept.sound, kept.past, kept.gone, kept.waiting,
      kept.latest, kept.settled⟩
  | dispose =>
    unfold State.step at taken
    dsimp only at taken
    split at taken
    · cases taken
      exact silent
    · rename_i alive
      cases taken
      refine ⟨fun id listed => (by cases listed), kept.numbered, kept.ordered, kept.sound, kept.past,
        fun _ => ⟨rfl, rfl, rfl, (orderly.resolve_left alive).2 rfl⟩, fun open_ => (by cases open_),
        fun shown published => (by cases published), fun open_ => (by cases open_)⟩

theorem initial_invariant : Invariant options repository .initial := by
  have blank : Invariant options repository
      ⟨.empty, .empty, .empty, false, false, [], [], 0, 0, none, []⟩ :=
    ⟨fun id listed => (by cases listed), fun _ member => (by cases member), .nil,
      fun _ member => (by cases member), fun _ member => (by cases member),
      fun gone => (by cases gone), fun _ _ number low => absurd low (Nat.not_lt_zero _),
      fun shown published => (by cases published), fun _ _ member => (by cases member)⟩
  exact start_invariant blank false

theorem reached_invariant (reached : Reached options repository state) :
    Invariant options repository state := by
  induction reached with
  | initial => exact initial_invariant
  | step reached orderly taken ih => exact step_invariant ih orderly taken

end Kept

section Told

variable {options : Options} {repository : Nat → List GitStatusEntry} {state : State}

/-- Every listener was given every id whose decoration differs. -/
def State.Tells (before after : State) : Prop :=
  ∀ listener, after.listeners.has listener = true → ∀ id,
    before.decorations.get id ≠ after.decorations.get id →
      ∃ ids, (listener, ids) ∈ after.told ∧ id ∈ ids

theorem tells_same {before after : State} (same : before.decorations = after.decorations) :
    before.Tells after := by
  intro listener _ id differs
  exact absurd (congrArg (·.get id) same) differs

theorem size_pos {κ ν : Type} [DecidableEq κ] {map : JsMap κ ν} {key : κ} (member : key ∈ map.keys) :
    map.size > 0 := by
  unfold JsMap.size
  rw [JsMap.keys] at member
  obtain ⟨entry, there, _⟩ := List.mem_map.mp member
  exact List.length_pos_of_mem there

theorem publish_tells
    (listed : ∀ id, state.decorations.has id = true → state.decoratedIds.has id = true)
    (recompute : Recompute) (moment : Nat) (found : List (Option Int)) (gathered : Gathered)
    (snapshot : Snapshot) :
    state.Tells (state.publish options recompute moment found gathered snapshot) := by
  intro listener listening id differs
  have changed : id ∈ ((propagated options snapshot gathered.next gathered.leafEntries).keys.foldl
      JsMap.add (JsMap.ofList state.decoratedIds.keys)).keys := by
    rw [JsMap.mem_keys, JsMap.has_foldl_add, JsMap.mem_keys, JsMap.has_ofList, JsMap.mem_keys]
    by_contra neither
    rw [not_or] at neither
    have gone : state.decorations.has id ≠ true := fun had => neither.2 (listed id had)
    have before : state.decorations.get id = none := Option.not_isSome_iff_eq_none.mp gone
    have after : (propagated options snapshot gathered.next gathered.leafEntries).get id = none :=
      Option.not_isSome_iff_eq_none.mp neither.1
    exact differs (before.trans after.symm)
  have named : listener ∈ state.listeners.keys := JsMap.mem_keys.mpr listening
  refine ⟨_, ?_, changed⟩
  unfold State.publish
  dsimp only
  rw [if_pos ⟨size_pos changed, size_pos named⟩]
  exact List.mem_map_of_mem named

theorem proceed_tells
    (listed : ∀ id, state.decorations.has id = true → state.decoratedIds.has id = true)
    (recompute : Recompute) (moment : Nat) (todo : List GitStatusEntry) (found : List (Option Int))
    (gathered : Gathered) (snapshot : Snapshot) :
    state.Tells (state.proceed options recompute moment todo found gathered snapshot) := by
  unfold State.proceed
  split
  · exact publish_tells listed recompute moment found gathered snapshot
  · exact tells_same rfl

theorem start_decorations (refresh : Bool) :
    (state.start refresh).decorations = state.decorations := by
  unfold State.start
  split
  · rfl
  · rfl

/-- No step changes a decoration without telling the listeners it leaves. -/
theorem step_tells
    (listed : ∀ id, state.decorations.has id = true → state.decoratedIds.has id = true)
    {event : Event} {after : State} (taken : state.step options repository event = some after) :
    state.Tells after := by
  unfold State.step at taken
  cases event with
  | tick | notify | listen listener | unlisten listener =>
    cases taken
    exact tells_same rfl
  | fire =>
    dsimp only at taken
    split at taken
    · cases taken
      exact tells_same (@start_decorations { state with told := [], pending := false } false).symm
    · cases taken
  | refresh =>
    dsimp only at taken
    split at taken
    · cases taken
      exact tells_same rfl
    · cases taken
      exact tells_same (@start_decorations { state with told := [], pending := false } true).symm
  | answer number moment snapshot =>
    dsimp only at taken
    split at taken
    · split at taken
      · split at taken
        · cases taken
          exact tells_same rfl
        · cases taken
          exact @proceed_tells options { state with told := [] } listed _ _ _ _ _ _
      · cases taken
    · cases taken
  | resolve number id snapshot =>
    dsimp only at taken
    split at taken
    · cases taken
      exact @proceed_tells options { state with told := [] } listed _ _ _ _ _ _
    · cases taken
  | settle number =>
    dsimp only at taken
    split at taken
    · cases taken
      exact tells_same rfl
    · cases taken
  | dispose =>
    dsimp only at taken
    split at taken
    · cases taken
      exact tells_same rfl
    · cases taken
      intro listener listening
      cases listening

end Told

section Calls

variable {options : Options} {repository : Nat → List GitStatusEntry} {state : State}

theorem start_calls (refresh : Bool) : state.calls ≤ (state.start refresh).calls := by
  unfold State.start
  split
  · exact le_rfl
  · exact Nat.le_succ _

theorem proceed_calls (recompute : Recompute) (moment : Nat) (todo : List GitStatusEntry)
    (found : List (Option Int)) (gathered : Gathered) (snapshot : Snapshot) :
    state.calls ≤ (state.proceed options recompute moment todo found gathered snapshot).calls := by
  unfold State.proceed
  split
  · exact le_rfl
  · exact le_rfl

theorem step_calls {event : Event} {after : State}
    (taken : state.step options repository event = some after) : state.calls ≤ after.calls := by
  unfold State.step at taken
  cases event with
  | tick | notify | listen listener | unlisten listener =>
    cases taken
    exact le_rfl
  | fire =>
    dsimp only at taken
    split at taken
    · cases taken
      exact @start_calls { state with told := [], pending := false } false
    · cases taken
  | refresh =>
    dsimp only at taken
    split at taken
    · cases taken
      exact le_rfl
    · cases taken
      exact @start_calls { state with told := [], pending := false } true
  | answer number moment snapshot =>
    dsimp only at taken
    split at taken
    · split at taken
      · split at taken
        · cases taken
          exact le_rfl
        · cases taken
          exact @proceed_calls options { state with told := [] } _ _ _ _ _ _
      · cases taken
    · cases taken
  | resolve number id snapshot =>
    dsimp only at taken
    split at taken
    · cases taken
      exact @proceed_calls options { state with told := [] } _ _ _ _ _ _
    · cases taken
  | settle number =>
    dsimp only at taken
    split at taken
    · cases taken
      exact le_rfl
    · cases taken
  | dispose =>
    dsimp only at taken
    split at taken
    · cases taken
      exact le_rfl
    · cases taken
      exact le_rfl

theorem reached_calls (reached : Reached options repository state) : 0 < state.calls := by
  induction reached with
  | initial => exact Nat.zero_lt_one
  | step reached orderly taken ih => exact ih.trans_le (step_calls taken)

end Calls

section Current

/-- The published decorations are those of the status the call read. -/
def State.Shows (options : Options) (repository : Nat → List GitStatusEntry) (state : State)
    (shown : Shown) : Prop :=
  state.shown = some shown ∧ shown.found.length = (repository shown.moment).length ∧
    state.decorations = decorated options (repository shown.moment) shown.found shown.snapshot

/-- In runs whose recomputes end in the order they started and are none of them resolving
paths at disposal, the decorations are those of the last call when no recompute is under way;
a refresh resolves with a status no older than itself; nothing is shown once the provider is
disposed; and listeners are told of every change. -/
theorem decorations_current (options : Options) (repository : Nat → List GitStatusEntry)
    (state : State) (reached : Reached options repository state) :
    (state.disposed = false → state.recomputes = [] → ∃ shown,
      state.Shows options repository shown ∧ shown.number + 1 = state.calls) ∧
    (state.disposed = false → ∀ refresh ∈ state.settling, ∃ shown,
      state.Shows options repository shown ∧ refresh.number ≤ shown.number ∧
        refresh.called ≤ shown.moment) ∧
    (state.disposed = true → state.decorations = .empty) ∧
    ∀ event after, state.step options repository event = some after → state.Tells after := by
  have kept := reached_invariant reached
  refine ⟨fun alive quiet => ?_, fun alive refresh settles => ?_, fun gone => (kept.gone gone).1,
    fun event after taken => step_tells kept.listed taken⟩
  · have called := reached_calls reached
    cases published : state.shown with
    | none =>
      obtain ⟨recompute, member, _⟩ := kept.waiting alive published 0 called
      rw [quiet] at member
      cases member
    | some shown =>
      obtain ⟨low, later, size, same⟩ := kept.latest shown published
      refine ⟨shown, ⟨published, size, same⟩, ?_⟩
      by_contra older
      obtain ⟨recompute, member, _⟩ := later (shown.number + 1) (by omega) (Nat.lt_succ_self _)
      rw [quiet] at member
      cases member
  · obtain ⟨shown, published, number, moment⟩ := kept.settled alive refresh settles
    obtain ⟨_, _, size, same⟩ := kept.latest shown published
    exact ⟨shown, ⟨published, size, same⟩, number, moment⟩

/-- A tree whose entries are not known. -/
def bare : Snapshot := ⟨fun _ => none, fun _ => 0, fun _ _ impossible => (by cases impossible)⟩

theorem decorations_current_answered : ∃ after,
    State.initial.step ⟨none, true⟩ (fun _ => []) (.answer 0 0 bare) = some after ∧ ∃ shown,
      after.Shows ⟨none, true⟩ (fun _ => []) shown ∧ shown.number + 1 = after.calls := by
  refine ⟨_, rfl, (decorations_current _ _ _ (@Reached.step _ _ _ _ (.answer 0 0 bare) .initial
    (.inr ⟨?_, ?_⟩) rfl)).1 rfl rfl⟩
  · intro number completes later after within
    change later < 1 at within
    omega
  · intro impossible
    cases impossible

/-- A file is modified until the repository's second moment. -/
def edited (moment : Nat) : List GitStatusEntry :=
  if moment = 0 then [⟨"a.txt", .M, none⟩] else []

/-- The first recompute, slow to resolve its path, replaces what a later refresh showed; and it
publishes after disposal. -/
theorem decorations_go_back :
    (∃ late, [.tick, .refresh, .answer 1 1 bare, .settle 1, .answer 0 0 bare, .resolve 0 (some 7) bare].foldlM
        (State.step ⟨none, true⟩ edited) .initial = some late ∧ late.disposed = false ∧
      late.recomputes = [] ∧ late.calls = 2 ∧ late.shown.map Shown.number = some 0 ∧
      (late.decorations.get 7).isSome) ∧
    ∃ gone, [.answer 0 0 bare, .dispose, .resolve 0 (some 7) bare].foldlM
        (State.step ⟨none, true⟩ edited) .initial = some gone ∧ gone.disposed = true ∧
      (gone.decorations.get 7).isSome :=
  ⟨⟨_, rfl, rfl, rfl, rfl, rfl, rfl⟩, ⟨_, rfl, rfl, rfl⟩⟩

end Current

end Mille.Ui.Git
