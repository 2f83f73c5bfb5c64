import Mille.Lib.Maps
import Mille.Lib.Path
import Mille.Lib.Run
import Mille.Lib.Window

/-! The tracker of volatile directories: which of them took more events than the
threshold within the sliding window, and when each is released again. -/

namespace Mille.Watch

open Std Mille.Window

/-- `usize` of a 64-bit machine. -/
def usizeMax : Nat := 2 ^ 64 - 1

/-- Instants and durations are counted in ticks from the earliest instant. -/
structure VolatileTracker where
  threshold : UInt32
  window : Nat
  cooldown : Nat
  activity : ExtTreeMap Path (List Nat)
  volatileSince : ExtTreeMap Path Nat
  lastBreach : ExtTreeMap Path Nat

namespace VolatileTracker

def withConfig (threshold : UInt32) (window cooldown : Nat) : VolatileTracker :=
  ⟨threshold, window, cooldown, ∅, ∅, ∅⟩

def cap (tracker : VolatileTracker) : Nat :=
  max (min (tracker.threshold.toNat * 2) usizeMax) 4

def samples (tracker : VolatileTracker) (dir : Path) : List Nat :=
  (tracker.activity[dir]?).getD []

/-- The samples once stale ones are dropped, the new one is added and the cap is kept. -/
def sampled (tracker : VolatileTracker) (dir : Path) (now : Nat) : List Nat :=
  let samples := tracker.samples dir
  let samples :=
    -- `now.checked_sub(window)`: before the first instant nothing is stale.
    if tracker.window ≤ now then samples.dropWhile (· < now - tracker.window) else samples
  let samples := samples ++ [now]
  samples.drop (samples.length - tracker.cap)

/-- `samples.len() as u32 > self.threshold`. -/
def breaches (tracker : VolatileTracker) (dir : Path) (now : Nat) : Bool :=
  (tracker.sampled dir now).length.toUInt32 > tracker.threshold

def record (tracker : VolatileTracker) (dir : Path) (now : Nat) : VolatileTracker :=
  let sampled := { tracker with activity := tracker.activity.insert dir (tracker.sampled dir now) }
  if tracker.breaches dir now then
    { sampled with
      volatileSince := tracker.volatileSince.insertIfNew dir now
      lastBreach := tracker.lastBreach.insert dir now }
  else sampled

/-- The instant a candidate's cooldown runs from. -/
def lastOf (tracker : VolatileTracker) (dir : Path) : Option Nat :=
  (tracker.lastBreach[dir]?).or (tracker.volatileSince[dir]?)

def release (tracker : VolatileTracker) (dir : Path) : VolatileTracker :=
  { tracker with
    activity := tracker.activity.erase dir
    volatileSince := tracker.volatileSince.erase dir
    lastBreach := tracker.lastBreach.erase dir }

def flushLoop (now : Nat) : List Path → List Path × VolatileTracker → List Path × VolatileTracker
  | [], state => state
  | dir :: candidates, (released, tracker) =>
    match tracker.lastOf dir with
    | none => flushLoop now candidates (released, tracker)
    | some last =>
      if now - last ≥ tracker.cooldown then
        flushLoop now candidates (released ++ [dir], tracker.release dir)
      else flushLoop now candidates (released, tracker)

def flush (tracker : VolatileTracker) (now : Nat) : List Path × VolatileTracker :=
  flushLoop now tracker.volatileSince.keys ([], tracker)

/-- Two trackers know the same of a directory. -/
structure Agrees (tracker other : VolatileTracker) (dir : Path) : Prop where
  activity : tracker.activity[dir]? = other.activity[dir]?
  volatileSince : tracker.volatileSince[dir]? = other.volatileSince[dir]?
  lastBreach : tracker.lastBreach[dir]? = other.lastBreach[dir]?

/-! ### What a record call does -/

theorem record_activity (tracker : VolatileTracker) (dir : Path) (now : Nat) :
    (tracker.record dir now).activity = tracker.activity.insert dir (tracker.sampled dir now) := by
  unfold record
  split <;> rfl

theorem record_config (tracker : VolatileTracker) (dir : Path) (now : Nat) :
    (tracker.record dir now).threshold = tracker.threshold ∧
      (tracker.record dir now).window = tracker.window ∧
        (tracker.record dir now).cooldown = tracker.cooldown := by
  unfold record
  split <;> exact ⟨rfl, rfl, rfl⟩

theorem record_volatileSince (tracker : VolatileTracker) (dir other : Path) (now : Nat) :
    (tracker.record dir now).volatileSince[other]? =
      if dir = other ∧ tracker.breaches dir now then some ((tracker.volatileSince[dir]?).getD now)
      else tracker.volatileSince[other]? := by
  unfold record
  cases breach : tracker.breaches dir now with
  | false => simp
  | true =>
    simp only [if_true, ExtTreeMap.getElem?_insertIfNew, Std.LawfulEqOrd.compare_eq_iff_eq, and_true]
    by_cases same : dir = other
    · subst same
      by_cases known : dir ∈ tracker.volatileSince
      · simp [known]
      · simp [known]
    · simp [same]

theorem record_lastBreach (tracker : VolatileTracker) (dir other : Path) (now : Nat) :
    (tracker.record dir now).lastBreach[other]? =
      if dir = other ∧ tracker.breaches dir now then some now else tracker.lastBreach[other]? := by
  unfold record
  cases breach : tracker.breaches dir now with
  | false => simp
  | true =>
    simp only [if_true, Maps.lookup_insert, and_true]

theorem record_samples (tracker : VolatileTracker) (dir other : Path) (now : Nat) :
    (tracker.record dir now).samples other =
      if dir = other then tracker.sampled dir now else tracker.samples other := by
  rw [samples, record_activity, Maps.lookup_insert]
  split_ifs <;> rfl

theorem sampled_eq (tracker : VolatileTracker) (dir : Path) (now : Nat) :
    tracker.sampled dir now =
      lastN tracker.cap (recent (now - tracker.window) (tracker.samples dir) ++ [now]) := by
  unfold sampled
  split_ifs with started
  · rfl
  · rw [Nat.sub_eq_zero_of_le (Nat.le_of_not_le started), recent_zero]
    rfl

/-! ### What a flush does -/

/-- The loop's test of one candidate. -/
def due (tracker : VolatileTracker) (now : Nat) (dir : Path) : Bool :=
  match tracker.lastOf dir with
  | none => false
  | some last => now - last ≥ tracker.cooldown

theorem due_release {tracker : VolatileTracker} {now : Nat} {dir other : Path} (apart : dir ≠ other) :
    (tracker.release dir).due now other = tracker.due now other := by
  have same : (tracker.release dir).lastOf other = tracker.lastOf other := by
    simp [lastOf, release, Maps.lookup_erase, apart]
  rw [due, due, same]
  rfl

theorem flushLoop_eq (now : Nat) (candidates released : List Path) (tracker : VolatileTracker)
    (distinct : candidates.Nodup) :
    flushLoop now candidates (released, tracker) =
      (released ++ candidates.filter (tracker.due now),
        (candidates.filter (tracker.due now)).foldl release tracker) := by
  induction candidates generalizing released tracker with
  | nil => simp [flushLoop]
  | cons dir rest ih =>
    obtain ⟨fresh, distinct⟩ := List.nodup_cons.mp distinct
    have others : rest.filter ((tracker.release dir).due now) = rest.filter (tracker.due now) := by
      apply List.filter_congr
      intro other member
      exact due_release (fun same => fresh (same ▸ member))
    unfold flushLoop
    cases last : tracker.lastOf dir with
    | none =>
      have kept : tracker.due now dir = false := by simp [due, last]
      rw [List.filter_cons_of_neg (by simp [kept])]
      exact ih released tracker distinct
    | some time =>
      by_cases cool : now - time ≥ tracker.cooldown
      · have leaves : tracker.due now dir = true := by simp [due, last, cool]
        rw [List.filter_cons_of_pos leaves, List.foldl_cons]
        simp only [cool, if_true]
        rw [ih _ _ distinct, others, List.append_assoc, List.singleton_append]
      · have kept : tracker.due now dir = false := by simp [due, last, cool]
        rw [List.filter_cons_of_neg (by simp [kept])]
        simp only [cool, if_false]
        exact ih released tracker distinct

theorem releaseAll_eq (dirs : List Path) (tracker : VolatileTracker) :
    dirs.foldl release tracker = { tracker with
      activity := Maps.eraseAll tracker.activity dirs
      volatileSince := Maps.eraseAll tracker.volatileSince dirs
      lastBreach := Maps.eraseAll tracker.lastBreach dirs } := by
  induction dirs generalizing tracker with
  | nil => rfl
  | cons dir rest ih =>
    rw [List.foldl_cons, ih]
    rfl

theorem flush_eq (tracker : VolatileTracker) (now : Nat) :
    tracker.flush now = (tracker.volatileSince.keys.filter (tracker.due now),
      (tracker.volatileSince.keys.filter (tracker.due now)).foldl release tracker) := by
  rw [flush, flushLoop_eq now _ _ _ tracker.volatileSince.nodup_keys, List.nil_append]

theorem mem_flush {tracker : VolatileTracker} {now : Nat} {dir : Path} :
    dir ∈ (tracker.flush now).1 ↔ dir ∈ tracker.volatileSince ∧ tracker.due now dir = true := by
  rw [flush_eq, List.mem_filter, ExtTreeMap.mem_keys]

theorem flush_config (tracker : VolatileTracker) (now : Nat) :
    (tracker.flush now).2.threshold = tracker.threshold ∧
      (tracker.flush now).2.window = tracker.window ∧
        (tracker.flush now).2.cooldown = tracker.cooldown := by
  rw [flush_eq, releaseAll_eq]
  exact ⟨rfl, rfl, rfl⟩

theorem flush_released {tracker : VolatileTracker} {now : Nat} {dir : Path}
    (released : dir ∈ (tracker.flush now).1) :
    (tracker.flush now).2.Agrees (withConfig tracker.threshold tracker.window tracker.cooldown) dir := by
  rw [flush_eq] at released ⊢
  rw [releaseAll_eq]
  constructor <;> simp only [Maps.lookup_eraseAll, if_pos released, withConfig, ExtTreeMap.getElem?_empty]

theorem flush_kept {tracker : VolatileTracker} {now : Nat} {dir : Path}
    (kept : dir ∉ (tracker.flush now).1) : (tracker.flush now).2.Agrees tracker dir := by
  rw [flush_eq] at kept ⊢
  rw [releaseAll_eq]
  constructor <;> simp only [Maps.lookup_eraseAll, if_neg kept]

/-! ### Calls in turn -/

inductive Call where
  | record (dir : Path) (now : Nat)
  | flush (now : Nat)

def Call.time : Call → Nat
  | .record _ now => now
  | .flush now => now

/-- A tracker beside the times of the record calls that each directory took since its
last release, and the time of the last call. -/
structure Observed where
  tracker : VolatileTracker
  since : Path → List Nat
  clock : Nat

def observed (threshold : UInt32) (window cooldown : Nat) : Observed :=
  ⟨withConfig threshold window cooldown, fun _ => [], 0⟩

namespace Observed

def step (state : Observed) : Call → Observed
  | .record dir now => {
      tracker := state.tracker.record dir now
      since := Function.update state.since dir (state.since dir ++ [now])
      clock := now }
  | .flush now => {
      tracker := (state.tracker.flush now).2
      since := fun dir => if dir ∈ (state.tracker.flush now).1 then [] else state.since dir
      clock := now }

/-- The record calls on a directory since its last release that lie within the window, the
one at `now` included. -/
def count (state : Observed) (dir : Path) (now : Nat) : Nat :=
  (state.since dir ++ [now]).countP fun time => now - state.tracker.window ≤ time ∧ time ≤ now

/-- The call refreshes the breach of its directory, and marks it volatile, exactly when the
count exceeds the threshold; it touches no other directory. -/
structure RecordsExactly (state : Observed) (dir : Path) (now : Nat) : Prop where
  refreshes : state.tracker.breaches dir now = true ↔ state.tracker.threshold.toNat < state.count dir now
  volatileSince : (state.tracker.record dir now).volatileSince[dir]? =
    if state.tracker.breaches dir now then some ((state.tracker.volatileSince[dir]?).getD now)
    else state.tracker.volatileSince[dir]?
  lastBreach : (state.tracker.record dir now).lastBreach[dir]? =
    if state.tracker.breaches dir now then some now else state.tracker.lastBreach[dir]?
  others : ∀ other, other ≠ dir → (state.tracker.record dir now).Agrees state.tracker other

/-- The directory is volatile and its last breach is at least a cooldown old. -/
def Cooled (state : Observed) (now : Nat) (dir : Path) : Prop :=
  dir ∈ state.tracker.volatileSince ∧
    ∃ last, state.tracker.lastBreach[dir]? = some last ∧ state.tracker.cooldown ≤ now - last

/-- The call releases exactly the cooled directories and touches no other. -/
structure FlushesExactly (state : Observed) (now : Nat) : Prop where
  released : ∀ dir, dir ∈ (state.tracker.flush now).1 ↔ state.Cooled now dir
  cleared : ∀ dir, state.Cooled now dir → (state.tracker.flush now).2.Agrees
    (withConfig state.tracker.threshold state.tracker.window state.tracker.cooldown) dir
  others : ∀ dir, ¬state.Cooled now dir → (state.tracker.flush now).2.Agrees state.tracker dir

def Exact (state : Observed) : Call → Prop
  | .record dir now => state.RecordsExactly dir now
  | .flush now => state.FlushesExactly now

/-- A record call under a threshold from 2³¹ finds fewer than 2³² calls to count. -/
def Countable (state : Observed) : Call → Prop
  | .record dir now => 2 ^ 31 ≤ state.tracker.threshold.toNat → state.count dir now < 2 ^ 32
  | .flush _ => True

/-- The call is not earlier than the one before it. -/
def InOrder (state : Observed) (call : Call) : Prop :=
  state.clock ≤ call.time

/-- The deque of a directory is the end of what its window holds, cut to the cap. -/
structure Kept (state : Observed) : Prop where
  ordered : ∀ dir, (state.since dir).Pairwise (· ≤ ·)
  past : ∀ dir, ∀ time ∈ state.since dir, time ≤ state.clock
  samples : ∀ dir, ∃ cutoff ≤ state.clock - state.tracker.window,
    state.tracker.samples dir = lastN state.tracker.cap (recent cutoff (state.since dir))
  breached : ∀ dir, dir ∈ state.tracker.volatileSince ↔ dir ∈ state.tracker.lastBreach

theorem kept_observed (threshold : UInt32) (window cooldown : Nat) :
    (observed threshold window cooldown).Kept where
  ordered := fun _ => List.Pairwise.nil
  past := fun _ _ member => absurd member List.not_mem_nil
  samples := fun dir => ⟨0, Nat.zero_le _, by simp [observed, withConfig, samples, recent, lastN]⟩
  breached := fun dir => by simp [observed, withConfig]

theorem Kept.sampled {state : Observed} (kept : state.Kept) {dir : Path} {now : Nat}
    (later : state.clock ≤ now) :
    state.tracker.sampled dir now =
      lastN state.tracker.cap (recent (now - state.tracker.window) (state.since dir ++ [now])) := by
  obtain ⟨cutoff, behind, samples⟩ := kept.samples dir
  rw [sampled_eq, samples]
  apply slide (kept.ordered dir)
  · omega
  · exact Nat.sub_le _ _

theorem Kept.ordered_snoc {state : Observed} (kept : state.Kept) (dir : Path) {now : Nat}
    (later : state.clock ≤ now) : (state.since dir ++ [now]).Pairwise (· ≤ ·) := by
  rw [List.pairwise_append]
  refine ⟨kept.ordered dir, List.pairwise_singleton _ _, ?_⟩
  intro time member last isNow
  rw [List.mem_singleton.mp isNow]
  exact (kept.past dir time member).trans later

theorem Kept.count_eq {state : Observed} (kept : state.Kept) {dir : Path} {now : Nat}
    (later : state.clock ≤ now) :
    (recent (now - state.tracker.window) (state.since dir ++ [now])).length = state.count dir now := by
  rw [recent_eq_filter (kept.ordered_snoc dir later), ← List.countP_eq_length_filter, count]
  apply List.countP_congr
  intro time member
  have past : time ≤ now := by
    rcases List.mem_append.mp member with earlier | last
    · exact (kept.past dir time earlier).trans later
    · exact (List.mem_singleton.mp last).le
  simp [past]

theorem Kept.length_sampled {state : Observed} (kept : state.Kept) {dir : Path} {now : Nat}
    (later : state.clock ≤ now) :
    (state.tracker.sampled dir now).length = min state.tracker.cap (state.count dir now) := by
  rw [kept.sampled later, length_lastN, kept.count_eq later]

theorem cap_bounds (tracker : VolatileTracker) :
    tracker.threshold.toNat < tracker.cap ∧ tracker.cap < 2 ^ 33 ∧
      (tracker.threshold.toNat < 2 ^ 31 → tracker.cap < 2 ^ 32) ∧
      (2 ^ 31 ≤ tracker.threshold.toNat → tracker.cap = tracker.threshold.toNat * 2) := by
  have small := tracker.threshold.toNat_lt
  unfold cap usizeMax
  omega

theorem Kept.breaches_iff {state : Observed} (kept : state.Kept) {dir : Path} {now : Nat}
    (later : state.clock ≤ now) :
    ((state.tracker.breaches dir now = true ↔ state.tracker.threshold.toNat < state.count dir now) ↔
      (2 ^ 31 ≤ state.tracker.threshold.toNat → state.count dir now < 2 ^ 32)) := by
  have wrapped : state.tracker.breaches dir now = true ↔
      state.tracker.threshold.toNat < min state.tracker.cap (state.count dir now) % 2 ^ 32 := by
    unfold breaches
    rw [kept.length_sampled later, decide_eq_true_eq, gt_iff_lt, UInt32.lt_iff_toNat_lt]
    rfl
  have small := state.tracker.threshold.toNat_lt
  have bounds := cap_bounds state.tracker
  rw [wrapped]
  omega

theorem Kept.record_exact_iff {state : Observed} (kept : state.Kept) {dir : Path} {now : Nat}
    (later : state.clock ≤ now) :
    state.RecordsExactly dir now ↔ state.Countable (.record dir now) := by
  have breaches := @Kept.breaches_iff state kept dir now later
  constructor
  · exact fun exactly => breaches.mp exactly.refreshes
  · intro countable
    refine ⟨breaches.mpr countable, ?_, ?_, ?_⟩
    · simp [record_volatileSince]
    · simp [record_lastBreach]
    · intro other apart
      constructor
      · rw [record_activity, Maps.lookup_insert, if_neg (Ne.symm apart)]
      · rw [record_volatileSince, if_neg (fun both => apart both.1.symm)]
      · rw [record_lastBreach, if_neg (fun both => apart both.1.symm)]

theorem Kept.mem_flush_iff {state : Observed} (kept : state.Kept) (now : Nat) (dir : Path) :
    dir ∈ (state.tracker.flush now).1 ↔ state.Cooled now dir := by
  rw [mem_flush, Cooled]
  apply and_congr_right
  intro volatile
  obtain ⟨last, found⟩ := Option.isSome_iff_exists.mp
    (ExtTreeMap.isSome_getElem?_iff_mem.mpr ((kept.breached dir).mp volatile))
  simp [due, lastOf, found]

theorem Kept.flush_exact {state : Observed} (kept : state.Kept) (now : Nat) :
    state.FlushesExactly now where
  released := kept.mem_flush_iff now
  cleared := fun dir cooled => flush_released ((kept.mem_flush_iff now dir).mpr cooled)
  others := fun dir warm => flush_kept (fun member => warm ((kept.mem_flush_iff now dir).mp member))

theorem Kept.record {state : Observed} (kept : state.Kept) {dir : Path} {now : Nat}
    (later : state.clock ≤ now) : (state.step (.record dir now)).Kept where
  ordered := by
    intro other
    by_cases same : other = dir
    · subst same
      simpa [step] using kept.ordered_snoc other later
    · simpa [step, same] using kept.ordered other
  past := by
    intro other time member
    by_cases same : other = dir
    · subst same
      simp only [step, Function.update_self, List.mem_append, List.mem_singleton] at member
      rcases member with earlier | last
      · exact (kept.past other time earlier).trans later
      · exact last.le
    · simp only [step, Function.update_of_ne same] at member
      exact (kept.past other time member).trans later
  samples := by
    intro other
    have config := record_config state.tracker dir now
    have cap : (state.tracker.record dir now).cap = state.tracker.cap := by
      rw [VolatileTracker.cap, config.1, VolatileTracker.cap]
    by_cases same : other = dir
    · subst same
      refine ⟨now - state.tracker.window, ?_, ?_⟩
      · exact (congrArg (now - ·) config.2.1).ge
      · simpa [step, record_samples, cap] using kept.sampled later
    · obtain ⟨cutoff, behind, samples⟩ := kept.samples other
      refine ⟨cutoff, ?_, ?_⟩
      · have window := config.2.1
        simp only [step, window]
        omega
      · simpa [step, record_samples, cap, same, Ne.symm same] using samples
  breached := by
    intro other
    simp only [step, ← ExtTreeMap.isSome_getElem?_iff_mem, record_volatileSince, record_lastBreach]
    split_ifs
    · exact Iff.rfl
    · simpa [ExtTreeMap.isSome_getElem?_iff_mem] using kept.breached other

theorem Kept.flush {state : Observed} (kept : state.Kept) {now : Nat} (later : state.clock ≤ now) :
    (state.step (.flush now)).Kept := by
  have config := flush_config state.tracker now
  have cap : (state.tracker.flush now).2.cap = state.tracker.cap := by
    rw [VolatileTracker.cap, config.1, VolatileTracker.cap]
  constructor
  · intro dir
    simp only [step]
    split_ifs
    · exact List.Pairwise.nil
    · exact kept.ordered dir
  · intro dir time member
    simp only [step] at member
    split_ifs at member
    · exact absurd member List.not_mem_nil
    · exact (kept.past dir time member).trans later
  · intro dir
    simp only [step, config.2.1, cap]
    split_ifs with released
    · refine ⟨0, Nat.zero_le _, ?_⟩
      rw [VolatileTracker.samples, (flush_released released).activity]
      simp [withConfig, recent, lastN]
    · obtain ⟨cutoff, behind, samples⟩ := kept.samples dir
      refine ⟨cutoff, by omega, ?_⟩
      rw [VolatileTracker.samples, (flush_kept released).activity]
      exact samples
  · intro dir
    simp only [step, ← ExtTreeMap.isSome_getElem?_iff_mem]
    by_cases released : dir ∈ (state.tracker.flush now).1
    · rw [(flush_released released).volatileSince, (flush_released released).lastBreach]
      simp [withConfig]
    · rw [(flush_kept released).volatileSince, (flush_kept released).lastBreach]
      simpa [ExtTreeMap.isSome_getElem?_iff_mem] using kept.breached dir

theorem Kept.step {state : Observed} (kept : state.Kept) {call : Call} (later : state.InOrder call) :
    (state.step call).Kept := by
  cases call with
  | record dir now => exact kept.record later
  | flush now => exact kept.flush later

theorem Kept.exact_iff {state : Observed} (kept : state.Kept) {call : Call}
    (later : state.InOrder call) : state.Exact call ↔ state.Countable call := by
  cases call with
  | record dir now => exact kept.record_exact_iff later
  | flush now => exact iff_of_true (kept.flush_exact now) trivial

@[simp] theorem step_clock (state : Observed) (call : Call) : (state.step call).clock = call.time := by
  cases call <;> rfl

theorem along_inOrder {calls : List Call} {state : Observed}
    (ordered : calls.Pairwise fun first second => first.time ≤ second.time)
    (after : ∀ call ∈ calls, state.clock ≤ call.time) : Run.Along step InOrder state calls := by
  induction calls generalizing state with
  | nil => trivial
  | cons call rest ih =>
    obtain ⟨first, ordered⟩ := List.pairwise_cons.mp ordered
    refine ⟨after call List.mem_cons_self, ih ordered ?_⟩
    simpa using first

/-- Over calls whose times never go back, every call counts and releases exactly as it
should, precisely when no record call under a threshold from 2³¹ has 2³² calls to count. -/
theorem run_exact_iff (threshold : UInt32) (window cooldown : Nat) (calls : List Call)
    (ordered : calls.Pairwise fun first second => first.time ≤ second.time) :
    Run.Along step Exact (observed threshold window cooldown) calls ↔
      Run.Along step Countable (observed threshold window cooldown) calls := by
  have inOrder : Run.Along step InOrder (observed threshold window cooldown) calls :=
    along_inOrder ordered (fun call _ => Nat.zero_le call.time)
  exact Run.along_congr_of inOrder (fun _ _ kept later => kept.exact_iff later)
    (fun _ _ kept later _ => kept.step later) (kept_observed threshold window cooldown)

theorem run_exact_iff_burst :
    Run.Along step Exact (observed 1 10 5) [.record [] 3, .record [] 3, .flush 9] ↔
      Run.Along step Countable (observed 1 10 5) [.record [] 3, .record [] 3, .flush 9] :=
  run_exact_iff 1 10 5 [.record [] 3, .record [] 3, .flush 9] (by decide)

theorem along_burst {property : Observed → Call → Prop} {dir : Path} {size : Nat} {state : Observed}
    (along : Run.Along step property state (List.replicate (size + 1) (.record dir 0))) :
    ∃ last : Observed, property last (.record dir 0) ∧ last.tracker.threshold = state.tracker.threshold ∧
      last.since dir = state.since dir ++ List.replicate size 0 := by
  induction size generalizing state with
  | zero => exact ⟨state, along.1, rfl, by simp⟩
  | succ size ih =>
    obtain ⟨last, holds, threshold, since⟩ := ih along.2
    refine ⟨last, holds, threshold.trans (record_config _ _ _).1, ?_⟩
    rw [since]
    simp [step, List.replicate_succ]

/-- 2³² record calls at one instant exceed the threshold 2³¹, and the last is not counted so. -/
theorem full_burst_missed :
    ¬∀ calls : List Call, (calls.Pairwise fun first second => first.time ≤ second.time) →
      Run.Along step Exact (observed (2 ^ 31) 10 5) calls := by
  intro always
  -- The length stays a variable: the list is never written out.
  obtain ⟨size, full⟩ : ∃ size, size + 1 = 2 ^ 32 := ⟨2 ^ 32 - 1, by norm_num⟩
  have ordered : (List.replicate (size + 1) (Call.record [] 0)).Pairwise
      fun first second => first.time ≤ second.time :=
    List.pairwise_replicate.mpr (.inr (Nat.le_refl _))
  have fitting : Run.Along step InOrder (observed (2 ^ 31) 10 5)
      (List.replicate (size + 1) (.record [] 0)) :=
    along_inOrder ordered (fun call _ => Nat.zero_le call.time)
  have countable := (Run.along_congr_of fitting (fun _ _ kept later => kept.exact_iff later)
    (fun _ _ kept later _ => kept.step later) (kept_observed (2 ^ 31) 10 5)).mp (always _ ordered)
  obtain ⟨last, holds, threshold, since⟩ := along_burst countable
  have large : 2 ^ 31 ≤ last.tracker.threshold.toNat := by
    rw [threshold]
    decide
  have few := holds large
  have all : last.count [] 0 = size + 1 := by
    rw [count, since]
    simp [observed, List.countP_replicate]
  omega

end Observed
end VolatileTracker
end Mille.Watch
