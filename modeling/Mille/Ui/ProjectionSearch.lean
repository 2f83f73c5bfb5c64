import Mathlib
import Mille.Ui.ProjectionReads

/-! The search outwards from a hint: what each round is charged, and which rows the budget
of one read of every row leaves out. -/

namespace Mille.Ui.Projection

variable {Row Id : Type} [DecidableEq Id] {rowId : Row → Id} {rows : List Row}
variable {snapshot : Snapshot Row Id} {id : Id} {position : Option Nat}

/-- Rows above the first chunk. -/
def above (known base : Int) : Int := known - base - chunkSize

/-- Rows charged to the chunks above the first after so many rounds. A round that starts
past the last row probes that row again. -/
def upCharge (high rounds : Int) : Int :=
  if chunkSize * rounds ≤ high then chunkSize * rounds
  else if chunkSize * (rounds - 1) < high ∨ high % chunkSize = 1 then high
  else high + 1

/-- Rows charged to the chunks below the first. The lowest is charged in full. -/
def downCharge (base rounds : Int) : Int :=
  if chunkSize * rounds < base then chunkSize * rounds
  else chunkSize * ((base + chunkSize - 1) / chunkSize)

def charged (known base rounds : Int) : Int :=
  chunkSize + upCharge (above known base) rounds + downCharge base rounds

/-- The rows a search with one read of every row as its budget never comes to: the last row
of the lowest chunk when the rows above ran out in an earlier round, and the last rows when
the lowest chunk was charged for rows it shares with the next. -/
def Missed (known base index : Int) : Prop :=
  (index < base ∧ index = (base + chunkSize - 1) % chunkSize ∧
      (above known base + chunkSize - 1) / chunkSize < (base + chunkSize - 1) / chunkSize ∧
      above known base % chunkSize ≠ 1) ∨
    (base + chunkSize ≤ index ∧ base % chunkSize ≠ 0 ∧
      base / chunkSize + 2 ≤ (index - base) / chunkSize ∧
      known ≤ index + chunkSize - base % chunkSize)

instance (known base index : Int) : Decidable (Missed known base index) := by
  unfold Missed
  infer_instance

section Probes

theorem probe_stale {maxProbeRows rawStart : Int} {search : Search Row}
    (stale : max 0 (min (snapshot.visibleRowCount - 1) rawStart) ∈ search.visited ∨
      search.probedRows ≥ maxProbeRows) :
    probe rowId snapshot id maxProbeRows rawStart search = (-1, search) := by
  unfold probe
  dsimp only
  rw [if_pos stale]

variable (describes : snapshot.Describes rowId rows) (located : Located rowId rows id position)
include describes

/-- Caches are coherent and no list of all rows is held. -/
structure Searching (rows : List Row) (search : Search Row) : Prop where
  coherent : Coherent rows search.projection
  listed : search.projection.cachedAllRows = none

include located

/-- A fresh chunk reports the id when its place is inside. -/
theorem probe_fresh {maxProbeRows rawStart : Int} {search : Search Row}
    (searching : Searching rows search)
    (fresh : max 0 (min (snapshot.visibleRowCount - 1) rawStart) ∉ search.visited)
    (room : search.probedRows < maxProbeRows) :
    let start := max 0 (min (snapshot.visibleRowCount - 1) rawStart)
    let limit := min chunkSize
      (min (snapshot.visibleRowCount - start) (maxProbeRows - search.probedRows))
    let result := probe rowId snapshot id maxProbeRows rawStart search
    result.1 = (if 0 ≤ placed position ∧ start ≤ placed position ∧ placed position < start + limit
        then placed position else -1) ∧
      Searching rows result.2 ∧ result.2.visited = start :: search.visited ∧
      result.2.probedRows = search.probedRows + limit := by
  intro start limit result
  have stale : ¬(start ∈ search.visited ∨ search.probedRows ≥ maxProbeRows) := by
    rintro (again | beyond)
    · exact fresh again
    · omega
  obtain ⟨value, coherent, same⟩ := readRows_eq describes searching.coherent start limit
  have found := @findIndex_slice Row Id _ rowId rows id position located start limit (le_max_left ..)
  have unfolded : result = (if findIndex rowId (slice rows start limit) id = -1 then -1
        else start + findIndex rowId (slice rows start limit) id,
      ⟨(search.projection.readRows snapshot start limit).2, start :: search.visited,
        search.probedRows + limit⟩) := by
    change probe rowId snapshot id maxProbeRows rawStart search = _
    unfold probe
    dsimp only
    rw [if_neg stale, value]
  rw [unfolded]
  refine ⟨?_, ⟨coherent, same.trans searching.listed⟩, rfl, rfl⟩
  dsimp only
  rw [found]
  by_cases inside : 0 ≤ placed position ∧ start ≤ placed position ∧ placed position < start + limit
  · rw [if_pos inside, if_pos inside, if_neg (by omega)]
    omega
  · rw [if_neg inside, if_neg inside, if_pos rfl]

theorem probe_sound {maxProbeRows rawStart : Int} {search : Search Row}
    (searching : Searching rows search) :
    let result := probe rowId snapshot id maxProbeRows rawStart search
    (result.1 = -1 ∨ result.1 = placed position) ∧ Searching rows result.2 := by
  intro result
  by_cases stale : max 0 (min (snapshot.visibleRowCount - 1) rawStart) ∈ search.visited ∨
      search.probedRows ≥ maxProbeRows
  · have same : result = (-1, search) := probe_stale stale
    rw [same]
    exact ⟨.inl rfl, searching⟩
  · rw [not_or, not_le] at stale
    obtain ⟨value, after, _⟩ := probe_fresh describes located searching stale.1 stale.2
    refine ⟨?_, after⟩
    rw [value]
    split
    · exact .inr rfl
    · exact .inl rfl

theorem rounds_sound {maxProbeRows base : Int} (bound : Nat) (distance : Int) {search : Search Row}
    (searching : Searching rows search) :
    let result := rounds rowId snapshot id maxProbeRows base bound distance search
    (result.1 = -1 ∨ result.1 = placed position) ∧ Searching rows result.2 := by
  induction bound generalizing distance search with
  | zero => exact ⟨.inl rfl, searching⟩
  | succ bound ih =>
    obtain ⟨upValue, up⟩ := @probe_sound _ _ _ _ _ _ _ _ describes located maxProbeRows
      (base + distance) _ searching
    obtain ⟨downValue, down⟩ := @probe_sound _ _ _ _ _ _ _ _ describes located maxProbeRows
      (base - distance) _ up
    unfold rounds
    dsimp only
    split
    · split
      · exact ⟨upValue, up⟩
      · split
        · exact ⟨downValue, down⟩
        · split
          · exact ⟨.inl rfl, down⟩
          · exact ih (distance + chunkSize) down
    · exact ⟨.inl rfl, searching⟩

end Probes

section Exact

/-- Where a search with one read of every row as its budget stands after so many rounds. -/
structure After (rows : List Row) (known base rounds : Int) (search : Search Row) : Prop where
  searching : Searching rows search
  probed : search.probedRows = min known (charged known base rounds)
  around : search.probedRows < known → ∀ start ∈ search.visited,
    base - chunkSize * rounds ≤ start ∧ start ≤ base + chunkSize * rounds
  top : search.probedRows < known → known - 1 ≤ base + chunkSize * rounds → known - 1 ∈ search.visited
  bottom : search.probedRows < known → base ≤ chunkSize * rounds → 0 ∈ search.visited

/-- The chunk with the row is further out than so many rounds. -/
def Far (base rounds index : Int) : Prop :=
  base + chunkSize * (rounds + 1) ≤ index ∨ index < base - chunkSize * rounds

variable {known base rounds index : Int}

theorem upCharge_succ :
    upCharge (above known base) (rounds + 1) = upCharge (above known base) rounds +
      if known - 1 ≤ base + chunkSize * rounds then 0
      else min chunkSize (known - min (known - 1) (base + chunkSize * (rounds + 1))) := by
  unfold upCharge above chunkSize
  split_ifs <;> omega

theorem downCharge_succ : downCharge base (rounds + 1) = downCharge base rounds +
    if base ≤ chunkSize * rounds then 0 else chunkSize := by
  unfold downCharge chunkSize
  split_ifs <;> omega

theorem missed_above_iff (started : 0 ≤ rounds) (high : index < known)
    (first : base + chunkSize * (rounds + 1) ≤ index)
    (last : index < base + chunkSize * (rounds + 2)) :
    Missed known base index ↔
      base + chunkSize * (rounds + 1) + (known - charged known base rounds) ≤ index := by
  have up : upCharge (above known base) rounds = chunkSize * rounds := by
    unfold upCharge above chunkSize at *
    rw [if_pos (by omega)]
  unfold charged Missed
  rw [up]
  unfold downCharge
  unfold chunkSize at *
  split_ifs <;> omega

theorem missed_below_iff (fits : base + chunkSize ≤ known) (started : 0 ≤ rounds) (low : 0 ≤ index)
    (first : base - chunkSize * (rounds + 1) ≤ index) (last : index < base - chunkSize * rounds) :
    Missed known base index ↔ max 0 (base - chunkSize * (rounds + 1)) +
      (known - (chunkSize + upCharge (above known base) (rounds + 1) + downCharge base rounds)) ≤
        index := by
  have down : downCharge base rounds = chunkSize * rounds := by
    unfold downCharge chunkSize at *
    rw [if_pos (by omega)]
  rw [down]
  unfold Missed upCharge above
  unfold chunkSize at *
  split_ifs <;> omega

theorem missed_of_spent (low : 0 ≤ index) (high : index < known) (far : Far base rounds index)
    (spent : known ≤ charged known base rounds) : Missed known base index := by
  unfold charged at spent
  rcases far with higher | lower
  · have up : upCharge (above known base) rounds = chunkSize * rounds := by
      unfold upCharge above chunkSize at *
      rw [if_pos (by omega)]
    rw [up] at spent
    unfold downCharge at spent
    right
    unfold chunkSize at *
    split at spent
    · omega
    · omega
  · have down : downCharge base rounds = chunkSize * rounds := by
      unfold downCharge chunkSize at *
      rw [if_pos (by omega)]
    rw [down] at spent
    unfold upCharge at spent
    left
    unfold above chunkSize at *
    split at spent
    · omega
    · split at spent
      · omega
      · omega

section Limit

variable {start limit probed : Int}

/-- The limit of a probe charges its chunk in full or spends the budget. -/
theorem charge_clipped :
    probed + min chunkSize (min limit (known - probed)) = min known (probed + min chunkSize limit) := by
  omega

theorem charge_within {charge : Int} (capped : probed = min known charge) (room : probed < known) :
    probed = charge := by
  omega

theorem within_budget (within : index < start + min chunkSize (min limit (known - probed))) :
    index < start + (known - probed) := by
  omega

/-- A row of the chunk behind the limit is behind the budget. -/
theorem cut_short (beyond : start + min chunkSize (min limit (known - probed)) ≤ index)
    (chunk : index < start + chunkSize) (listed : index < start + limit) :
    start + (known - probed) ≤ index ∧
      known ≤ probed + min chunkSize (min limit (known - probed)) := by
  omega

end Limit

variable (describes : snapshot.Describes rowId rows) (located : Located rowId rows id position)
include describes located

/-- Between the two probes of a round. -/
structure Half (rows : List Row) (known base rounds : Int) (search : Search Row) : Prop where
  searching : Searching rows search
  probed : search.probedRows =
    min known (chunkSize + upCharge (above known base) (rounds + 1) + downCharge base rounds)
  around : search.probedRows < known → ∀ start ∈ search.visited,
    base - chunkSize * rounds ≤ start ∧ start ≤ base + chunkSize * (rounds + 1)
  top : search.probedRows < known → known - 1 ≤ base + chunkSize * (rounds + 1) →
    known - 1 ∈ search.visited
  bottom : search.probedRows < known → base ≤ chunkSize * rounds → 0 ∈ search.visited

/-- The chunk above is charged in full, or cut by the budget; with its row inside it the
search ends there, unless the row is missed. -/
theorem up_step {search : Search Row} (after : After rows rows.length base rounds search)
    (inside : 0 ≤ base) (fits : base + chunkSize ≤ rows.length) (started : 0 ≤ rounds)
    (room : search.probedRows < rows.length) (low : 0 ≤ placed position)
    (far : Far base rounds (placed position)) :
    let up := probe rowId snapshot id rows.length (base + chunkSize * (rounds + 1)) search
    (up.1 = placed position ∧ ¬Missed rows.length base (placed position)) ∨
      up.1 = -1 ∧ Half rows rows.length base rounds up.2 ∧
        (¬(base + chunkSize * (rounds + 1) ≤ placed position ∧
            placed position < base + chunkSize * (rounds + 2)) ∨
          Missed rows.length base (placed position) ∧ rows.length ≤ up.2.probedRows) := by
  intro up
  have count := describes.count
  have before := after.probed
  have high := located.placed_lt low
  have next := @upCharge_succ rows.length base rounds
  unfold charged at before
  by_cases past : (rows.length : Int) - 1 ≤ base + chunkSize * rounds
  · have there := after.top room past
    have same : up = (-1, search) := by
      apply probe_stale
      left
      rw [count]
      have start : max 0 (min ((rows.length : Int) - 1) (base + chunkSize * (rounds + 1))) =
          rows.length - 1 := by
        unfold chunkSize at *
        omega
      rwa [start]
    rw [if_pos past, add_zero] at next
    rw [same]
    right
    refine ⟨rfl, ⟨after.searching, ?_, fun room start member => ?_, fun _ _ => there, after.bottom⟩, ?_⟩
    · rw [next]
      exact before
    · have around := after.around room start member
      unfold chunkSize at *
      omega
    · left
      unfold chunkSize at *
      omega
  · have start : max 0 (min ((rows.length : Int) - 1) (base + chunkSize * (rounds + 1))) =
        min ((rows.length : Int) - 1) (base + chunkSize * (rounds + 1)) := by
      unfold chunkSize at *
      omega
    have fresh : max 0 (min (snapshot.visibleRowCount - 1) (base + chunkSize * (rounds + 1))) ∉
        search.visited := by
      rw [count, start]
      intro member
      have around := after.around room _ member
      unfold chunkSize at *
      omega
    obtain ⟨value, searching, visited, probed⟩ :=
      probe_fresh describes located after.searching fresh room
    rw [count, start] at value visited probed
    rw [if_neg past] at next
    rw [value]
    have spent := charge_within before room
    split_ifs with hit
    · left
      have within := within_budget hit.2.2
      have first : base + chunkSize * (rounds + 1) ≤ placed position ∧
          placed position < base + chunkSize * (rounds + 2) := by
        clear before next spent within
        unfold Far chunkSize at *
        omega
      refine ⟨rfl, ?_⟩
      rw [missed_above_iff started high first.1 first.2, charged, ← spent]
      have clamped := min_le_right ((rows.length : Int) - 1) (base + chunkSize * (rounds + 1))
      exact not_le.mpr (lt_of_lt_of_le within (add_le_add_left clamped _))
    · right
      refine ⟨rfl, ⟨searching, ?_, fun _ other member => ?_, fun _ _ => ?_, fun _ below => ?_⟩, ?_⟩
      · rw [probed, charge_clipped, next, spent]
        congr 1
        ring
      · clear before next spent far hit
        rw [visited] at member
        rcases List.mem_cons.mp member with same | earlier
        · rw [same]
          unfold chunkSize at *
          omega
        · have around := after.around room other earlier
          unfold chunkSize at *
          omega
      · rw [visited]
        clear before next spent far hit
        have first : (rows.length : Int) - 1 =
            min ((rows.length : Int) - 1) (base + chunkSize * (rounds + 1)) := by omega
        exact first ▸ List.mem_cons_self
      · rw [visited]
        exact List.mem_cons_of_mem _ (after.bottom room below)
      · by_cases chunk : base + chunkSize * (rounds + 1) ≤ placed position ∧
            placed position < base + chunkSize * (rounds + 2)
        · right
          rw [probed, missed_above_iff started high chunk.1 chunk.2, charged, ← spent]
          have first : min ((rows.length : Int) - 1) (base + chunkSize * (rounds + 1)) =
              base + chunkSize * (rounds + 1) := min_eq_right (by omega)
          rw [first] at hit ⊢
          exact cut_short (not_lt.mp fun within => hit ⟨low, chunk.1, within⟩)
            (lt_of_lt_of_eq chunk.2 (by ring)) (by omega)
        · exact .inl chunk

/-- The chunk below, likewise. -/
theorem down_step {search : Search Row} (half : Half rows rows.length base rounds search)
    (inside : 0 ≤ base) (fits : base + chunkSize ≤ rows.length) (started : 0 ≤ rounds)
    (low : 0 ≤ placed position) (far : Far base rounds (placed position)) :
    let down := probe rowId snapshot id rows.length (base - chunkSize * (rounds + 1)) search
    (down.1 = placed position ∧ ¬Missed rows.length base (placed position)) ∨
      down.1 = -1 ∧ After rows rows.length base (rounds + 1) down.2 ∧
        (¬(base - chunkSize * (rounds + 1) ≤ placed position ∧
            placed position < base - chunkSize * rounds) ∨
          Missed rows.length base (placed position) ∧ rows.length ≤ down.2.probedRows) := by
  intro down
  have count := describes.count
  have before := half.probed
  have next := @downCharge_succ base rounds
  have start : max 0 (min ((rows.length : Int) - 1) (base - chunkSize * (rounds + 1))) =
      max 0 (base - chunkSize * (rounds + 1)) := by
    unfold chunkSize at *
    omega
  by_cases spent : rows.length ≤ search.probedRows
  · have same : down = (-1, search) := probe_stale (.inr spent)
    rw [same]
    right
    refine ⟨rfl, ⟨half.searching, ?_, fun room => absurd spent (not_le.mpr room),
      fun room => absurd spent (not_le.mpr room), fun room => absurd spent (not_le.mpr room)⟩, ?_⟩
    · change search.probedRows = _
      unfold charged
      rw [next]
      unfold chunkSize at *
      split <;> omega
    · by_cases chunk : base - chunkSize * (rounds + 1) ≤ placed position ∧
          placed position < base - chunkSize * rounds
      · right
        refine ⟨?_, spent⟩
        rw [missed_below_iff fits started low chunk.1 chunk.2]
        unfold chunkSize at *
        omega
      · exact .inl chunk
  · have room : search.probedRows < rows.length := by omega
    by_cases under : base ≤ chunkSize * rounds
    · have there := half.bottom room under
      have same : down = (-1, search) := by
        apply probe_stale
        left
        rw [count, start]
        have zero : max 0 (base - chunkSize * (rounds + 1)) = 0 := by
          unfold chunkSize at *
          omega
        rwa [zero]
      rw [if_pos under, add_zero] at next
      rw [same]
      right
      refine ⟨rfl, ⟨half.searching, ?_, fun room other member => ?_, half.top, fun _ _ => there⟩, ?_⟩
      · unfold charged
        rw [next]
        exact before
      · have around := half.around room other member
        unfold chunkSize at *
        omega
      · left
        unfold chunkSize at *
        omega
    · have fresh : max 0 (min (snapshot.visibleRowCount - 1) (base - chunkSize * (rounds + 1))) ∉
          search.visited := by
        rw [count, start]
        intro member
        have around := half.around room _ member
        unfold chunkSize at *
        omega
      obtain ⟨value, searching, visited, probed⟩ :=
        probe_fresh describes located half.searching fresh room
      rw [count, start] at value visited probed
      rw [if_neg under] at next
      rw [value]
      have spent := charge_within before room
      split_ifs with hit
      · left
        refine ⟨rfl, ?_⟩
        have within := within_budget hit.2.2
        -- A chunk cut off at the first row ends below the rows of the chunks above.
        have chunk : base - chunkSize * (rounds + 1) ≤ placed position ∧
            placed position < base - chunkSize * rounds := by
          clear before next spent within
          unfold Far chunkSize at *
          omega
        rw [missed_below_iff fits started low chunk.1 chunk.2, ← spent]
        exact not_le.mpr within
      · right
        refine ⟨rfl, ⟨searching, ?_, fun _ other member => ?_, fun _ above => ?_,
          fun _ below => ?_⟩, ?_⟩
        · rw [probed, charge_clipped, charged, next, spent]
          have whole : min chunkSize ((rows.length : Int) - max 0 (base - chunkSize * (rounds + 1))) =
              chunkSize := by
            clear before next spent far hit
            unfold chunkSize at *
            omega
          rw [whole, add_assoc]
        · clear before next spent far hit
          rw [visited] at member
          rcases List.mem_cons.mp member with same | earlier
          · rw [same]
            unfold chunkSize at *
            omega
          · have around := half.around room other earlier
            unfold chunkSize at *
            omega
        · rw [visited]
          exact List.mem_cons_of_mem _ (half.top room above)
        · rw [visited]
          have first : 0 = max 0 (base - chunkSize * (rounds + 1)) := by
            clear before next spent far hit
            unfold chunkSize at *
            omega
          exact first ▸ List.mem_cons_self
        · by_cases chunk : base - chunkSize * (rounds + 1) ≤ placed position ∧
              placed position < base - chunkSize * rounds
          · right
            rw [probed, missed_below_iff fits started low chunk.1 chunk.2, ← spent]
            clear before next spent far
            have inner : max 0 (base - chunkSize * (rounds + 1)) ≤ placed position := max_le low chunk.1
            refine cut_short (not_lt.mp fun within => hit ⟨low, inner, within⟩) ?_
              (by rw [add_sub_cancel]; exact located.placed_lt low)
            unfold chunkSize at *
            omega
          · exact .inl chunk

omit describes located in
theorem rounds_spent {maxProbeRows : Int} {search : Search Row}
    (spent : maxProbeRows ≤ search.probedRows) (bound : Nat) (distance : Int) :
    Projection.rounds rowId snapshot id maxProbeRows base bound distance search = (-1, search) := by
  cases bound with
  | zero => rfl
  | succ bound =>
    unfold Projection.rounds
    rw [if_neg (not_lt.mpr spent)]

/-- From round to round the row stays further out until a chunk with it is probed; the
search comes to it unless it is missed. -/
theorem rounds_exact (inside : 0 ≤ base) (fits : base + chunkSize ≤ rows.length)
    (low : 0 ≤ placed position) (bound : Nat) {rounds : Int} (started : 0 ≤ rounds)
    (enough : (rows.length : Int) ≤ rounds + bound) {search : Search Row}
    (after : After rows rows.length base rounds search) (far : Far base rounds (placed position)) :
    (Projection.rounds rowId snapshot id rows.length base bound (chunkSize * (rounds + 1)) search).1 =
      if Missed rows.length base (placed position) then -1 else placed position := by
  have high := located.placed_lt low
  have count := describes.count
  induction bound generalizing rounds search with
  | zero =>
    exfalso
    unfold Far at far
    unfold chunkSize at *
    omega
  | succ bound ih =>
    unfold Projection.rounds
    split
    · rename_i room
      dsimp only
      rcases up_step describes located after inside fits started room low far with
        ⟨value, reached⟩ | ⟨value, half, upper⟩
      · rw [if_pos (by omega), if_neg reached, value]
      · rw [if_neg (by omega)]
        rcases upper with above | ⟨missed, spent⟩
        · rcases down_step describes located half inside fits started low far with
            ⟨value, reached⟩ | ⟨value, next, lower⟩
          · rw [if_pos (by omega), if_neg reached, value]
          · rw [if_neg (by omega)]
            rcases lower with below | ⟨missed, spent⟩
            · have further : Far base (rounds + 1) (placed position) := by
                unfold Far chunkSize at *
                omega
              split
              · rename_i ended
                exfalso
                unfold Far chunkSize at *
                omega
              · have step := ih (by omega) (by omega) next further
                have distance : chunkSize * (rounds + 1) + chunkSize =
                    chunkSize * (rounds + 1 + 1) := by ring
                rw [distance, step]
            · rw [if_pos missed]
              split
              · rfl
              · rw [rounds_spent spent]
        · have down : probe rowId snapshot id rows.length (base - chunkSize * (rounds + 1))
              (probe rowId snapshot id rows.length (base + chunkSize * (rounds + 1)) search).2 =
                (-1, (probe rowId snapshot id rows.length (base + chunkSize * (rounds + 1)) search).2) :=
            probe_stale (.inr spent)
          rw [down, if_neg (by omega), if_pos missed]
          split
          · rfl
          · rw [rounds_spent spent]
    · rename_i full
      have missed : Missed rows.length base (placed position) := by
        apply missed_of_spent low high far
        have probed := after.probed
        omega
      rw [if_pos missed]

end Exact

end Mille.Ui.Projection
