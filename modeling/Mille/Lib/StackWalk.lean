import Mathlib

/-! Preorder walks with an explicit stack: a visit skips a node, or yields a
row and the nodes to walk next. -/

namespace Mille.StackWalk

variable {α β ρ : Type} {visit : α → Option (ρ × List α)} {fuel more : Nat} {node : α} {stack : List α} {rows : List ρ}

/-- The rows of a stack, its top at the head; `none` when the fuel runs out. -/
def flatten (visit : α → Option (ρ × List α)) : Nat → List α → Option (List ρ)
  | _, [] => some []
  | 0, _ :: _ => none
  | fuel + 1, node :: stack =>
    match visit node with
    | none => flatten visit fuel stack
    | some (row, next) => (flatten visit fuel (next ++ stack)).map (row :: ·)

theorem flatten_skip (skipped : visit node = none) :
    flatten visit (fuel + 1) (node :: stack) = flatten visit fuel stack := by
  rw [flatten, skipped]

theorem flatten_emit {row : ρ} {next : List α} (visited : visit node = some (row, next)) :
    flatten visit (fuel + 1) (node :: stack) = (flatten visit fuel (next ++ stack)).map (row :: ·) := by
  rw [flatten, visited]

theorem flatten_cons (ended : flatten visit (fuel + 1) (node :: stack) = some rows) :
    (visit node = none ∧ flatten visit fuel stack = some rows) ∨
      ∃ row next rest, visit node = some (row, next) ∧ flatten visit fuel (next ++ stack) = some rest ∧
        rows = row :: rest := by
  cases visited : visit node with
  | none =>
    rw [flatten_skip visited] at ended
    exact .inl ⟨rfl, ended⟩
  | some step =>
    obtain ⟨row, next⟩ := step
    rw [flatten_emit visited] at ended
    obtain ⟨rest, below, rfl⟩ := Option.map_eq_some_iff.mp ended
    exact .inr ⟨row, next, rest, rfl, below, rfl⟩

theorem flatten_induct {motive : Nat → List α → List ρ → Prop} (empty : ∀ fuel, motive fuel [] [])
    (skip : ∀ fuel node stack rows, visit node = none → motive fuel stack rows → motive (fuel + 1) (node :: stack) rows)
    (emit : ∀ fuel node stack row next rows, visit node = some (row, next) → motive fuel (next ++ stack) rows →
      motive (fuel + 1) (node :: stack) (row :: rows))
    (ended : flatten visit fuel stack = some rows) : motive fuel stack rows := by
  induction fuel generalizing stack rows with
  | zero =>
    cases stack with
    | nil =>
      cases ended
      exact empty 0
    | cons node stack => cases ended
  | succ fuel ih =>
    cases stack with
    | nil =>
      cases ended
      exact empty (fuel + 1)
    | cons node stack =>
      rcases flatten_cons ended with ⟨skipped, rest⟩ | ⟨row, next, rest, visited, below, rfl⟩
      · exact skip fuel node stack rows skipped (ih rest)
      · exact emit fuel node stack row next rest visited (ih below)

theorem flatten_mono (ended : flatten visit fuel stack = some rows) (enough : fuel ≤ more) :
    flatten visit more stack = some rows := by
  obtain ⟨extra, rfl⟩ := Nat.exists_eq_add_of_le enough
  refine flatten_induct (motive := fun fuel stack rows => flatten visit (fuel + extra) stack = some rows) (fun fuel => ?_) (fun fuel node stack rows skipped ih => ?_)
    (fun fuel node stack row next rows visited ih => ?_) ended
  · cases fuel + extra <;> rfl
  · rw [Nat.add_right_comm, flatten_skip skipped]
    exact ih
  · rw [Nat.add_right_comm, flatten_emit visited, ih]
    rfl

theorem flatten_split {upper lower : List α} (ended : flatten visit fuel (upper ++ lower) = some rows) :
    ∃ first second, flatten visit fuel upper = some first ∧ flatten visit fuel lower = some second ∧
      rows = first ++ second := by
  induction fuel generalizing upper rows with
  | zero =>
    cases upper with
    | nil => exact ⟨[], rows, rfl, ended, rfl⟩
    | cons node upper => cases ended
  | succ fuel ih =>
    cases upper with
    | nil => exact ⟨[], rows, rfl, ended, rfl⟩
    | cons node upper =>
      rw [List.cons_append] at ended
      rcases flatten_cons ended with ⟨skipped, rest⟩ | ⟨row, next, rest, visited, below, rfl⟩
      · obtain ⟨first, second, one, two, same⟩ := ih rest
        exact ⟨first, second, (flatten_skip skipped).trans one, flatten_mono two (Nat.le_succ _), same⟩
      · rw [← List.append_assoc] at below
        obtain ⟨first, second, one, two, rfl⟩ := ih below
        refine ⟨row :: first, second, ?_, flatten_mono two (Nat.le_succ _), rfl⟩
        rw [flatten_emit visited, one]
        rfl

theorem flatten_append {upper lower : List α} {first second : List ρ}
    (one : flatten visit fuel upper = some first) (two : flatten visit more lower = some second) :
    flatten visit (fuel + more) (upper ++ lower) = some (first ++ second) := by
  refine flatten_induct (motive := fun fuel stack rows =>
      flatten visit (fuel + more) (stack ++ lower) = some (rows ++ second)) (fun fuel => ?_) (fun fuel node stack rows skipped ih => ?_)
    (fun fuel node stack row next rows visited ih => ?_) one
  · exact flatten_mono two (Nat.le_add_left _ _)
  · rw [Nat.add_right_comm, List.cons_append, flatten_skip skipped]
    exact ih
  · rw [List.append_assoc] at ih
    rw [Nat.add_right_comm, List.cons_append, flatten_emit visited, ih]
    rfl

theorem flatten_leaves {row : α → ρ} (leaves : ∀ node ∈ stack, visit node = some (row node, [])) :
    flatten visit stack.length stack = some (stack.map row) := by
  induction stack with
  | nil => rfl
  | cons node stack ih =>
    obtain ⟨here, others⟩ := List.forall_mem_cons.mp leaves
    rw [List.length_cons, flatten_emit here, List.nil_append, ih others]
    rfl

/-- A visit of the node leads to the child. -/
def Leads (visit : α → Option (ρ × List α)) (child node : α) : Prop :=
  ∃ row next, visit node = some (row, next) ∧ child ∈ next

theorem flatten_each (each : ∀ node ∈ stack, ∃ fuel rows, flatten visit fuel [node] = some rows) :
    ∃ fuel rows, flatten visit fuel stack = some rows := by
  induction stack with
  | nil => exact ⟨0, [], rfl⟩
  | cons node rest ih =>
    obtain ⟨⟨fuel, first, one⟩, others⟩ := List.forall_mem_cons.mp each
    obtain ⟨more, second, two⟩ := ih others
    exact ⟨fuel + more, first ++ second, flatten_append one two⟩

theorem flatten_ends_acc (grounded : ∀ node ∈ stack, Acc (Leads visit) node) :
    ∃ fuel rows, flatten visit fuel stack = some rows := by
  apply flatten_each
  intro node member
  have descends := grounded node member
  clear member grounded
  induction descends with
  | intro node _ ih =>
    cases visited : visit node with
    | none => exact ⟨1, [], flatten_skip visited⟩
    | some step =>
      obtain ⟨row, next⟩ := step
      obtain ⟨fuel, rows, below⟩ := flatten_each fun child led => ih child ⟨row, next, visited, led⟩
      refine ⟨fuel + 1, row :: rows, ?_⟩
      rw [flatten_emit visited, List.append_nil, below]
      rfl

theorem flatten_ends (measure : α → Nat)
    (descends : ∀ node row next, visit node = some (row, next) → ∀ child ∈ next, measure child < measure node)
    (stack : List α) : ∃ fuel rows, flatten visit fuel stack = some rows := by
  apply flatten_ends_acc
  intro node _
  have smaller : Subrelation (Leads visit) (InvImage (· < ·) measure) := by
    rintro child node ⟨row, next, visited, led⟩
    exact descends node row next visited child led
  exact smaller.accessible ((InvImage.wf measure Nat.lt_wfRel.wf).apply node)

theorem flatten_head (ended : flatten visit fuel (node :: stack) = some rows) :
    ∃ first second, flatten visit fuel [node] = some first ∧ flatten visit fuel stack = some second ∧
      rows = first ++ second := by
  have joined : flatten visit fuel ([node] ++ stack) = some rows := ended
  exact flatten_split joined

theorem flatten_perm {stack' : List α} (perm : stack.Perm stack') (ended : flatten visit fuel stack = some rows) :
    ∃ more rows', flatten visit more stack' = some rows' ∧ rows.Perm rows' := by
  induction perm generalizing fuel rows with
  | nil => exact ⟨fuel, rows, ended, .refl rows⟩
  | @cons node upper lower _ ih =>
    obtain ⟨first, second, one, two, rfl⟩ := flatten_head ended
    obtain ⟨more, rows', walked, same⟩ := ih two
    exact ⟨fuel + more, first ++ rows', flatten_append one walked, same.append_left first⟩
  | swap left right rest =>
    obtain ⟨first, others, one, two, rfl⟩ := flatten_head ended
    obtain ⟨second, third, one', three, rfl⟩ := flatten_head two
    refine ⟨fuel + (fuel + fuel), second ++ (first ++ third), flatten_append one' (flatten_append one three), ?_⟩
    rw [← List.append_assoc, ← List.append_assoc]
    exact List.perm_append_comm.append_right third
  | trans _ _ one two =>
    obtain ⟨more, rows', walked, same⟩ := one ended
    obtain ⟨most, rows'', again, same'⟩ := two walked
    exact ⟨most, rows'', again, same.trans same'⟩

theorem flatten_origin (ended : flatten visit fuel stack = some rows) (index : Nat) (row : ρ)
    (here : rows[index]? = some row) : ∃ node next, visit node = some (row, next) ∧
      (node ∈ stack ∨ ∃ earlier above upper below, earlier < index ∧ rows[earlier]? = some above ∧
        visit upper = some (above, below) ∧ node ∈ below) := by
  revert index row
  refine flatten_induct (motive := fun _ stack rows => ∀ (index : Nat) (row : ρ), rows[index]? = some row →
      ∃ node next, visit node = some (row, next) ∧ (node ∈ stack ∨ ∃ earlier above upper below,
        earlier < index ∧ rows[earlier]? = some above ∧ visit upper = some (above, below) ∧ node ∈ below))
    (fun fuel index row here => ?_) (fun fuel top stack rows skipped ih index row here => ?_)
    (fun fuel top stack first next rows visited ih index row here => ?_) ended
  · cases here
  · obtain ⟨node, next, yields, origin⟩ := ih index row here
    refine ⟨node, next, yields, ?_⟩
    rcases origin with waiting | led
    · exact .inl (List.mem_cons_of_mem _ waiting)
    · exact .inr led
  · cases index with
    | zero =>
      cases here
      exact ⟨top, next, visited, .inl List.mem_cons_self⟩
    | succ index =>
      obtain ⟨node, more, yields, origin⟩ := ih index row here
      refine ⟨node, more, yields, ?_⟩
      rcases origin with waiting | ⟨earlier, above, upper, below, less, found, stepped, led⟩
      · rcases List.mem_append.mp waiting with child | other
        · exact .inr ⟨0, first, top, next, Nat.succ_pos _, rfl, visited, child⟩
        · exact .inl (List.mem_cons_of_mem _ other)
      · exact .inr ⟨earlier + 1, above, upper, below, Nat.succ_lt_succ less, found, stepped, led⟩

/-- What the rows of a stack mark: nothing twice, as long as each visit marks within its own region
and leads to regions apart from each other and from its own marks. -/
theorem flatten_marks {sound : α → Prop} {region : α → Set β} {marks : ρ → List β}
    (step : ∀ node row next, sound node → visit node = some (row, next) →
      (marks row).Nodup ∧ (∀ mark ∈ marks row, mark ∈ region node) ∧
      (∀ child ∈ next, sound child ∧ region child ⊆ region node ∧ ∀ mark ∈ marks row, mark ∉ region child) ∧
      next.Pairwise (fun left right => Disjoint (region left) (region right)))
    (ended : flatten visit fuel stack = some rows) (all : ∀ node ∈ stack, sound node)
    (apart : stack.Pairwise (fun left right => Disjoint (region left) (region right))) :
    (rows.flatMap marks).Nodup ∧ ∀ mark ∈ rows.flatMap marks, ∃ node ∈ stack, mark ∈ region node := by
  revert all apart
  refine flatten_induct (motive := fun _ stack rows => (∀ node ∈ stack, sound node) →
      stack.Pairwise (fun left right => Disjoint (region left) (region right)) →
      (rows.flatMap marks).Nodup ∧ ∀ mark ∈ rows.flatMap marks, ∃ node ∈ stack, mark ∈ region node)
    (fun fuel all apart => ?_) (fun fuel top stack rows skipped ih all apart => ?_)
    (fun fuel top stack row next rows visited ih all apart => ?_) ended
  · exact ⟨List.nodup_nil, by simp⟩
  · obtain ⟨nodup, covered⟩ := ih (List.forall_mem_cons.mp all).2 (List.pairwise_cons.mp apart).2
    refine ⟨nodup, fun mark member => ?_⟩
    obtain ⟨node, waiting, inside⟩ := covered mark member
    exact ⟨node, List.mem_cons_of_mem _ waiting, inside⟩
  · obtain ⟨here, others⟩ := List.forall_mem_cons.mp all
    obtain ⟨beside, among⟩ := List.pairwise_cons.mp apart
    obtain ⟨own, inside, children, spread⟩ := step top row next here visited
    obtain ⟨nodup, covered⟩ := ih
      (fun node member => (List.mem_append.mp member).elim (fun child => (children node child).1) (others node))
      (List.pairwise_append.mpr ⟨spread, among, fun child led other waiting =>
        (beside other waiting).mono_left (children child led).2.1⟩)
    rw [List.flatMap_cons]
    constructor
    · refine List.nodup_append.mpr ⟨own, nodup, fun first one second two same => ?_⟩
      subst same
      obtain ⟨node, waiting, reached⟩ := covered first two
      rcases List.mem_append.mp waiting with child | other
      · exact (children node child).2.2 first one reached
      · exact Set.disjoint_left.mp (beside node other) (inside first one) reached
    · intro mark member
      rcases List.mem_append.mp member with first | later
      · exact ⟨top, List.mem_cons_self, inside mark first⟩
      · obtain ⟨node, waiting, reached⟩ := covered mark later
        rcases List.mem_append.mp waiting with child | other
        · exact ⟨top, List.mem_cons_self, (children node child).2.1 reached⟩
        · exact ⟨node, List.mem_cons_of_mem _ other, reached⟩

section Variants

variable {α' ρ' : Type} {other : α → Option (ρ × List α)}

/-- Visits that lead to the same nodes in another order give the same rows in another order. -/
theorem flatten_reorder
    (alike : ∀ node, Option.Rel (fun left right => left.1 = right.1 ∧ left.2.Perm right.2) (visit node) (other node))
    (ended : flatten visit fuel stack = some rows) :
    ∃ more rows', flatten other more stack = some rows' ∧ rows.Perm rows' := by
  refine flatten_induct (motive := fun _ stack rows => ∃ more rows', flatten other more stack = some rows' ∧ rows.Perm rows')
    (fun fuel => ⟨0, [], rfl, .refl []⟩) (fun fuel node stack rows skipped ih => ?_)
    (fun fuel node stack row next rows visited ih => ?_) ended
  · obtain ⟨more, rows', walked, same⟩ := ih
    have here := alike node
    rw [skipped] at here
    refine ⟨more + 1, rows', ?_, same⟩
    rw [flatten_skip, walked]
    cases stepped : other node with
    | none => rfl
    | some step =>
      rw [stepped] at here
      cases here
  · obtain ⟨more, rows', walked, same⟩ := ih
    have here := alike node
    rw [visited] at here
    cases stepped : other node with
    | none =>
      rw [stepped] at here
      cases here
    | some step =>
      obtain ⟨row', next'⟩ := step
      rw [stepped] at here
      cases here with
      | some both =>
        obtain ⟨rfl, order⟩ := both
        obtain ⟨most, rows'', again, same'⟩ := flatten_perm (order.append_right stack) walked
        refine ⟨most + 1, row :: rows'', ?_, (same.trans same').cons row⟩
        rw [flatten_emit stepped, again]
        rfl

theorem flatten_map {image : α → α'} {render : ρ → ρ'} {visit' : α' → Option (ρ' × List α')}
    (agree : ∀ node, visit' (image node) = (visit node).map fun step => (render step.1, step.2.map image))
    (ended : flatten visit fuel stack = some rows) :
    flatten visit' fuel (stack.map image) = some (rows.map render) := by
  refine flatten_induct (motive := fun fuel stack rows => flatten visit' fuel (stack.map image) = some (rows.map render))
    (fun fuel => ?_) (fun fuel node stack rows skipped ih => ?_)
    (fun fuel node stack row next rows visited ih => ?_) ended
  · cases fuel <;> rfl
  · have here := agree node
    rw [skipped] at here
    rw [List.map_cons, flatten_skip here]
    exact ih
  · have here := agree node
    rw [visited] at here
    rw [List.map_append] at ih
    rw [List.map_cons, flatten_emit here, ih]
    rfl

end Variants

section Reached

/-- The nodes a walk comes to. -/
inductive Reached (visit : α → Option (ρ × List α)) (stack : List α) : α → Prop where
  | start {here : α} (member : here ∈ stack) : Reached visit stack here
  | led {above here : α} (reached : Reached visit stack above) (leads : Leads visit here above) :
      Reached visit stack here

/-- Where a visit leads. -/
def leadsTo (visit : α → Option (ρ × List α)) (node : α) : List α := ((visit node).map Prod.snd).getD []

theorem mem_leadsTo {child : α} : child ∈ leadsTo visit node ↔ Leads visit child node := by
  unfold leadsTo Leads
  cases visit node with
  | none => simp
  | some step => simp [Prod.ext_iff]

theorem not_reached_nil {here : α} : ¬Reached visit [] here := by
  intro reached
  induction reached with
  | start member => cases member
  | led _ _ ih => exact ih

theorem reached_cons {here : α} :
    Reached visit (node :: stack) here ↔ here = node ∨ Reached visit (leadsTo visit node ++ stack) here := by
  constructor
  · intro reached
    induction reached with
    | start member =>
      exact (List.mem_cons.mp member).imp_right fun later => .start (List.mem_append_right _ later)
    | led _ leads ih =>
      rcases ih with rfl | reached
      · exact .inr (.start (List.mem_append_left _ (mem_leadsTo.mpr leads)))
      · exact .inr (.led reached leads)
  · rintro (rfl | reached)
    · exact .start List.mem_cons_self
    · induction reached with
      | start member =>
        rcases List.mem_append.mp member with child | later
        · exact .led (.start List.mem_cons_self) (mem_leadsTo.mp child)
        · exact .start (List.mem_cons_of_mem node later)
      | led _ leads ih => exact .led ih leads

theorem mem_flatten (ended : flatten visit fuel stack = some rows) (row : ρ) :
    row ∈ rows ↔ ∃ node next, Reached visit stack node ∧ visit node = some (row, next) := by
  refine flatten_induct (motive := fun _ stack rows => row ∈ rows ↔
      ∃ node next, Reached visit stack node ∧ visit node = some (row, next))
    (fun fuel => ?_) (fun fuel top stack rows skipped ih => ?_)
    (fun fuel top stack first next rows visited ih => ?_) ended
  · simp [not_reached_nil]
  · have same : leadsTo visit top = [] := by rw [leadsTo, skipped]; rfl
    rw [ih]
    simp only [reached_cons, same, List.nil_append]
    constructor
    · rintro ⟨node, next, reached, visited⟩
      exact ⟨node, next, .inr reached, visited⟩
    · rintro ⟨node, next, rfl | reached, visited⟩
      · rw [skipped] at visited
        cases visited
      · exact ⟨node, next, reached, visited⟩
  · have same : leadsTo visit top = next := by rw [leadsTo, visited]; rfl
    rw [List.mem_cons, ih]
    simp only [reached_cons, same]
    constructor
    · rintro (rfl | ⟨node, further, reached, stepped⟩)
      · exact ⟨top, next, .inl rfl, visited⟩
      · exact ⟨node, further, .inr reached, stepped⟩
    · rintro ⟨node, further, rfl | reached, stepped⟩
      · rw [visited] at stepped
        cases stepped
        exact .inl rfl
      · exact .inr ⟨node, further, reached, stepped⟩

end Reached

section Slicing

/-- The rows from an offset on, as many as the limit allows. -/
def slice (offset : Nat) (limit : Option Nat) (rows : List ρ) : List ρ :=
  match limit with
  | none => rows.drop offset
  | some limit => (rows.drop offset).take limit

/-- A walk that leaves out the rows before an offset and stops at a limit. -/
def sliceFrom (visit : α → Option (ρ × List α)) (offset : Nat) (limit : Option Nat) :
    Nat → List α → Nat → List ρ → Option (List ρ)
  | _, [], _, out => some out
  | 0, _ :: _, _, _ => none
  | fuel + 1, node :: stack, skipped, out =>
    match visit node with
    | none => sliceFrom visit offset limit fuel stack skipped out
    | some (row, next) =>
      if skipped < offset then sliceFrom visit offset limit fuel (next ++ stack) (skipped + 1) out
      else if limit.any ((out ++ [row]).length ≥ ·) then some (out ++ [row])
      else sliceFrom visit offset limit fuel (next ++ stack) skipped (out ++ [row])

variable {offset skipped : Nat} {limit : Option Nat} {out : List ρ}

theorem sliceFrom_spec (ended : flatten visit fuel stack = some rows) (early : skipped ≤ offset)
    (room : ∀ bound ∈ limit, out.length < bound) :
    sliceFrom visit offset limit fuel stack skipped out =
      some (out ++ slice (offset - skipped) (limit.map (· - out.length)) rows) := by
  revert skipped out
  refine flatten_induct (motive := fun fuel stack rows => ∀ {skipped : Nat} {out : List ρ}, skipped ≤ offset →
      (∀ bound ∈ limit, out.length < bound) → sliceFrom visit offset limit fuel stack skipped out =
        some (out ++ slice (offset - skipped) (limit.map (· - out.length)) rows))
    (fun fuel skipped out early room => ?_) (fun fuel node stack rows hidden ih skipped out early room => ?_)
    (fun fuel node stack row next rows visited ih skipped out early room => ?_) ended
  · cases fuel <;> cases limit <;> simp [sliceFrom, slice]
  · rw [sliceFrom, hidden]
    exact ih early room
  · rw [sliceFrom, visited]
    dsimp only
    split
    · next before =>
      have less : offset - skipped = offset - (skipped + 1) + 1 := by omega
      rw [ih before room, less]
      cases limit <;> rfl
    · next reached =>
      have none : offset - skipped = 0 := by omega
      rw [none]
      split
      · next full =>
        cases limit with
        | none => cases full
        | some bound =>
          have space := room bound rfl
          have last : bound - out.length = 1 := by
            simp only [Option.any_some, List.length_append, List.length_singleton, decide_eq_true_eq] at full
            omega
          simp [slice, last]
      · next more =>
        cases limit with
        | none =>
          rw [ih early (by simp), none]
          simp [slice]
        | some bound =>
          have space : out.length + 1 < bound := by simpa using more
          rw [ih early (by simpa using space), none]
          have left : bound - out.length = bound - (out.length + 1) + 1 := by omega
          simp [slice, left]

theorem sliceFrom_start (ended : flatten visit fuel stack = some rows) (nonzero : limit ≠ some 0) :
    sliceFrom visit offset limit fuel stack 0 [] = some (slice offset limit rows) := by
  have room : ∀ bound ∈ limit, ([] : List ρ).length < bound := by
    intro bound here
    have positive : bound ≠ 0 := fun zero => nonzero (zero ▸ here)
    exact Nat.pos_of_ne_zero positive
  rw [sliceFrom_spec ended (Nat.zero_le offset) room]
  cases limit <;> rfl

theorem slice_map {ρ' : Type} (render : ρ → ρ') : slice offset limit (rows.map render) = (slice offset limit rows).map render := by
  cases limit with
  | none => simp [slice]
  | some limit => simp [slice, List.map_take, List.map_drop]

end Slicing

end Mille.StackWalk
