import Mille.Lib.StackWalk
import Mille.Core.ProjectionDescent

/-! The viewport queries walk one preorder: their loops end on every forest and
agree on its rows. -/

namespace Mille

open Forest StackWalk

variable {snapshot : StoreSnapshot} {context : ProjectionContext} {parent : EntryId → Option (Option EntryId)}
variable {includeIgnored : Bool} {fuel : Nat}

namespace ProjectionContext

/-- What one round of every loop does with an id and its depth. -/
def visit (context : ProjectionContext) (expanded : Finset EntryId) (node : EntryId × UInt16) :
    Option (VisibleRowOut × List (EntryId × UInt16)) :=
  match context.snapshot.entries[node.1]? with
  | none => none
  | some entry =>
    if context.snapshot.shows context.includeIgnored entry then
      let projected := context.snapshot.projectedEntry node.1 context.includeIgnored
      some (⟨projected.1, node.2, context.hasChildren projected.1, projected.1 ∈ expanded, projected.2⟩,
        if projected.1 ∈ expanded then
          (context.childrenOf projected.1).map (fun child => (child, saturatingAdd16 node.2 1)) else [])
    else none

variable {expanded : Finset EntryId} {node : EntryId × UInt16} {row : VisibleRowOut}
variable {next stack : List (EntryId × UInt16)} {rows : List VisibleRowOut}

/-- The visits that yield a row. -/
structure Visited (context : ProjectionContext) (expanded : Finset EntryId) (node : EntryId × UInt16)
    (row : VisibleRowOut) (next : List (EntryId × UInt16)) : Prop where
  present : ∃ entry, context.snapshot.entries[node.1]? = some entry ∧
    context.snapshot.shows context.includeIgnored entry = true
  row_eq : row = ⟨(context.snapshot.projectedEntry node.1 context.includeIgnored).1, node.2,
    context.hasChildren (context.snapshot.projectedEntry node.1 context.includeIgnored).1,
    (context.snapshot.projectedEntry node.1 context.includeIgnored).1 ∈ expanded,
    (context.snapshot.projectedEntry node.1 context.includeIgnored).2⟩
  next_eq : next = if row.id ∈ expanded then
    (context.childrenOf row.id).map (fun child => (child, saturatingAdd16 node.2 1)) else []

theorem visit_eq_some (visited : context.visit expanded node = some (row, next)) :
    Visited context expanded node row next := by
  unfold visit at visited
  split at visited
  · cases visited
  · next entry present =>
    split at visited
    · next visible =>
      cases visited
      exact ⟨⟨entry, present, visible⟩, rfl, rfl⟩
    · cases visited

theorem visit_eq_none (skipped : context.visit expanded node = none) :
    context.snapshot.entries[node.1]? = none ∨ ∃ entry, context.snapshot.entries[node.1]? = some entry ∧
      context.snapshot.shows context.includeIgnored entry = false := by
  unfold visit at skipped
  split at skipped
  · next absent => exact .inl absent
  · next entry present =>
    split at skipped
    · cases skipped
    · next hidden => exact .inr ⟨entry, present, by simpa using hidden⟩

theorem Visited.next_ids (visited : Visited context expanded node row next) :
    next.map Prod.fst = if row.id ∈ expanded then context.childrenOf row.id else [] := by
  rw [visited.next_eq]
  split
  · rw [List.map_map]
    exact List.map_id _
  · rfl

theorem Visited.isExpanded (visited : Visited context expanded node row next) :
    row.isExpanded = decide (row.id ∈ expanded) := by
  rw [visited.row_eq]

theorem Visited.id_eq (visited : Visited context expanded node row next) :
    row.id = (context.snapshot.projectedEntry node.1 context.includeIgnored).1 := by
  rw [visited.row_eq]

theorem visit_ends (linked : Linked parent context.snapshot.childrenOf context.snapshot.roots)
    (stack : List (EntryId × UInt16)) : ∃ fuel rows, flatten (context.visit expanded) fuel stack = some rows := by
  apply flatten_ends (fun node => context.reach parent node.1)
  intro node row next stepped child member
  have visited := visit_eq_some stepped
  obtain ⟨entry, present, _⟩ := visited.present
  have below : child.1 ∈ next.map Prod.fst := List.mem_map_of_mem member
  rw [visited.next_ids, visited.id_eq] at below
  split at below
  · exact reach_lt linked present below
  · cases below

/-- A count that stays at the largest 32-bit number. -/
def saturated (count : Nat) : UInt32 :=
  UInt32.ofNat (min count 0xFFFFFFFF)

theorem saturatingAdd32_saturated (count : Nat) : saturatingAdd32 (saturated count) 1 = saturated (count + 1) := by
  have value : (saturated count).toNat = min count 0xFFFFFFFF := by
    unfold saturated
    rw [UInt32.toNat_ofNat']
    omega
  have one : (1 : UInt32).toNat = 1 := rfl
  unfold saturatingAdd32
  split
  · next wrapped =>
    rw [UInt32.lt_iff_toNat_lt, UInt32.toNat_add, value, one] at wrapped
    unfold saturated
    have full : min (count + 1) 0xFFFFFFFF = 0xFFFFFFFF := by omega
    rw [full]
    rfl
  · next fits =>
    rw [UInt32.lt_iff_toNat_lt, UInt32.toNat_add, value, one] at fits
    rw [← UInt32.toNat_inj, UInt32.toNat_add, value, one]
    unfold saturated
    rw [UInt32.toNat_ofNat']
    omega

/-- A row whose expansion waits for a listing. -/
def isPending (context : ProjectionContext) (row : VisibleRowOut) : Bool :=
  row.isExpanded && (context.childrenOf row.id).isEmpty && context.awaitsListing row.id

section Window

variable {τ : Type} {offset skipped : UInt32} {bound : Option Nat} {out rest : List τ} {row : τ}

/-- What a slicing loop returns for the rows still to come. -/
def window (offset skipped : UInt32) (bound : Option Nat) (out rows : List τ) : List τ :=
  out ++ match bound with
    | none => rows.drop (offset.toNat - skipped.toNat)
    | some limit => (rows.drop (offset.toNat - skipped.toNat)).take (limit - out.length)

theorem window_nil : window offset skipped bound out [] = out := by
  unfold window
  cases bound <;> simp

theorem window_skip (early : skipped < offset) :
    (skipped + 1).toNat ≤ offset.toNat ∧
      window offset (skipped + 1) bound out rest = window offset skipped bound out (row :: rest) := by
  rw [UInt32.lt_iff_toNat_lt] at early
  have one : (1 : UInt32).toNat = 1 := rfl
  have next : (skipped + 1).toNat = skipped.toNat + 1 := by
    have small := offset.toNat_lt
    rw [UInt32.toNat_add, one]
    omega
  have count : offset.toNat - skipped.toNat = offset.toNat - (skipped.toNat + 1) + 1 := by omega
  refine ⟨by omega, ?_⟩
  unfold window
  rw [next, count, List.drop_succ_cons]

theorem window_stop (late : ¬ skipped < offset) (room : ∀ limit ∈ bound, out.length < limit)
    (full : bound.any ((out ++ [row]).length ≥ ·) = true) : window offset skipped bound out (row :: rest) = out ++ [row] := by
  rw [UInt32.lt_iff_toNat_lt] at late
  have count : offset.toNat - skipped.toNat = 0 := by omega
  unfold window
  rw [count, List.drop_zero]
  cases bound with
  | none => cases full
  | some limit =>
    have space := room limit rfl
    have last : limit ≤ out.length + 1 := by simpa using full
    have left : limit - out.length = 1 := by omega
    dsimp only
    rw [left]
    rfl

theorem window_push (late : ¬ skipped < offset) (room : ∀ limit ∈ bound, out.length < limit)
    (space : ¬ bound.any ((out ++ [row]).length ≥ ·) = true) :
    (∀ limit ∈ bound, (out ++ [row]).length < limit) ∧
      window offset skipped bound (out ++ [row]) rest = window offset skipped bound out (row :: rest) := by
  rw [UInt32.lt_iff_toNat_lt] at late
  have count : offset.toNat - skipped.toNat = 0 := by omega
  unfold window
  rw [count, List.drop_zero, List.drop_zero]
  cases bound with
  | none => simp
  | some limit =>
    have more : out.length + 1 < limit := by simpa using space
    have left : limit - out.length = limit - (out.length + 1) + 1 := by omega
    refine ⟨by simpa using more, ?_⟩
    simp only [List.length_append, List.length_singleton]
    rw [left, List.take_succ_cons, List.append_assoc]
    rfl

end Window

section Loops

variable {known : UInt32} {pending ids out : List EntryId} {target : EntryId} {index offset skipped : UInt32} {limit : Nat}

theorem countSubtree_skip (hidden : context.visit expanded node = none) :
    context.countSubtree expanded (fuel + 1) (node.1 :: ids) known pending =
      context.countSubtree expanded fuel ids known pending := by
  rcases visit_eq_none hidden with absent | ⟨entry, present, invisible⟩
  · simp [countSubtree, absent]
  · simp [countSubtree, present, invisible]

theorem countSubtree_emit (visited : Visited context expanded node row next) :
    context.countSubtree expanded (fuel + 1) (node.1 :: ids) known pending =
      context.countSubtree expanded fuel (next.map Prod.fst ++ ids) (saturatingAdd32 known 1)
        (pending ++ if context.isPending row then [row.id] else []) := by
  obtain ⟨entry, present, visible⟩ := visited.present
  have same := visited.id_eq
  rw [visited.next_ids]
  unfold isPending
  rw [visited.isExpanded]
  simp only [countSubtree, present, visible, if_true, ← same]
  by_cases opened : row.id ∈ expanded
  · by_cases empty : context.childrenOf row.id = []
    · by_cases awaits : context.awaitsListing row.id = true
      · simp [opened, empty, awaits]
      · simp [opened, empty, awaits]
    · simp [opened, empty]
  · simp [opened]

theorem countSubtree_spec (ended : flatten (context.visit expanded) fuel stack = some rows) (count : Nat)
    (pending : List EntryId) :
    context.countSubtree expanded fuel (stack.map Prod.fst) (saturated count) pending =
      some (saturated (count + rows.length), pending ++ (rows.filter context.isPending).map (·.id)) := by
  revert count pending
  refine flatten_induct (motive := fun fuel stack rows => ∀ count pending,
      context.countSubtree expanded fuel (stack.map Prod.fst) (saturated count) pending =
        some (saturated (count + rows.length), pending ++ (rows.filter context.isPending).map (·.id))) (fun fuel count pending => ?_) (fun fuel node stack rows hidden ih count pending => ?_)
    (fun fuel node stack row next rows stepped ih count pending => ?_) ended
  · simp [countSubtree]
  · rw [List.map_cons, countSubtree_skip hidden]
    exact ih count pending
  · rw [List.map_cons, countSubtree_emit (visit_eq_some stepped), ← List.map_append, saturatingAdd32_saturated,
      ih (count + 1), List.length_cons, List.filter_cons]
    split
    · simp [Nat.add_assoc, Nat.add_comm 1]
    · simp [Nat.add_assoc, Nat.add_comm 1]

theorem rowIndexFrom_skip (hidden : context.visit expanded node = none) :
    context.rowIndexFrom target expanded (fuel + 1) (node.1 :: ids) index =
      context.rowIndexFrom target expanded fuel ids index := by
  rcases visit_eq_none hidden with absent | ⟨entry, present, invisible⟩
  · simp [rowIndexFrom, absent]
  · simp [rowIndexFrom, present, invisible]

theorem rowIndexFrom_emit (visited : Visited context expanded node row next) :
    context.rowIndexFrom target expanded (fuel + 1) (node.1 :: ids) index =
      if row.id = target then some (some index)
      else context.rowIndexFrom target expanded fuel (next.map Prod.fst ++ ids) (saturatingAdd32 index 1) := by
  obtain ⟨entry, present, visible⟩ := visited.present
  rw [visited.next_ids]
  simp only [rowIndexFrom, present, visible, Bool.not_true, Bool.false_eq_true, if_false, ← visited.id_eq]
  by_cases opened : row.id ∈ expanded
  · simp [opened]
  · simp [opened]

theorem rowIndexFrom_spec (ended : flatten (context.visit expanded) fuel stack = some rows) (start : Nat) :
    context.rowIndexFrom target expanded fuel (stack.map Prod.fst) (saturated start) =
      some ((rows.findIdx? (·.id = target)).map (fun index => saturated (start + index))) := by
  revert start
  refine flatten_induct (motive := fun fuel stack rows => ∀ start,
      context.rowIndexFrom target expanded fuel (stack.map Prod.fst) (saturated start) =
        some ((rows.findIdx? (·.id = target)).map (fun index => saturated (start + index)))) (fun fuel start => ?_) (fun fuel node stack rows hidden ih start => ?_)
    (fun fuel node stack row next rows stepped ih start => ?_) ended
  · simp [rowIndexFrom]
  · rw [List.map_cons, rowIndexFrom_skip hidden]
    exact ih start
  · rw [List.map_cons, rowIndexFrom_emit (visit_eq_some stepped), ← List.map_append, saturatingAdd32_saturated,
      ih (start + 1), List.findIdx?_cons]
    by_cases here : row.id = target
    · simp [here]
    · simp [here, Nat.add_assoc, Nat.add_comm 1, Function.comp_def]

theorem rowIdsFrom_skip (hidden : context.visit expanded node = none) :
    context.rowIdsFrom expanded offset limit (fuel + 1) (node.1 :: ids) skipped out =
      context.rowIdsFrom expanded offset limit fuel ids skipped out := by
  rcases visit_eq_none hidden with absent | ⟨entry, present, invisible⟩
  · simp [rowIdsFrom, absent]
  · simp [rowIdsFrom, present, invisible]

theorem rowIdsFrom_emit (visited : Visited context expanded node row next) :
    context.rowIdsFrom expanded offset limit (fuel + 1) (node.1 :: ids) skipped out =
      if skipped < offset then
        context.rowIdsFrom expanded offset limit fuel (next.map Prod.fst ++ ids) (skipped + 1) out
      else if (out ++ [row.id]).length ≥ limit then some (out ++ [row.id])
      else context.rowIdsFrom expanded offset limit fuel (next.map Prod.fst ++ ids) skipped (out ++ [row.id]) := by
  obtain ⟨entry, present, visible⟩ := visited.present
  rw [visited.next_ids]
  simp only [rowIdsFrom, present, visible, if_true, ← visited.id_eq]

theorem rowsFrom_skip {bound : Option Nat} {out : List VisibleRowOut} (hidden : context.visit expanded node = none) :
    context.rowsFrom expanded offset bound (fuel + 1) (node :: stack) skipped out =
      context.rowsFrom expanded offset bound fuel stack skipped out := by
  obtain ⟨id, depth⟩ := node
  rcases visit_eq_none hidden with absent | ⟨entry, present, invisible⟩
  · simp [rowsFrom, absent]
  · simp [rowsFrom, present, invisible]

theorem rowsFrom_emit {bound : Option Nat} {out : List VisibleRowOut}
    (visited : Visited context expanded node row next) :
    context.rowsFrom expanded offset bound (fuel + 1) (node :: stack) skipped out =
      if skipped < offset then context.rowsFrom expanded offset bound fuel (next ++ stack) (skipped + 1) out
      else if bound.any ((out ++ [row]).length ≥ ·) then some (out ++ [row])
      else context.rowsFrom expanded offset bound fuel (next ++ stack) skipped (out ++ [row]) := by
  obtain ⟨id, depth⟩ := node
  obtain ⟨⟨entry, present, visible⟩, row_eq, next_eq⟩ := visited
  subst row_eq next_eq
  simp only [rowsFrom, present, visible, if_true]

theorem rowIdsFrom_spec (ended : flatten (context.visit expanded) fuel stack = some rows) (skipped : UInt32)
    (out : List EntryId) (early : skipped.toNat ≤ offset.toNat) (room : out.length < limit) :
    context.rowIdsFrom expanded offset limit fuel (stack.map Prod.fst) skipped out =
      some (window offset skipped (some limit) out (rows.map (·.id))) := by
  revert skipped out
  refine flatten_induct (motive := fun fuel stack rows => ∀ (skipped : UInt32) (out : List EntryId),
      skipped.toNat ≤ offset.toNat → out.length < limit →
      context.rowIdsFrom expanded offset limit fuel (stack.map Prod.fst) skipped out =
        some (window offset skipped (some limit) out (rows.map (·.id))))
    (fun fuel skipped out early room => ?_)
    (fun fuel node stack rows hidden ih skipped out early room => ?_)
    (fun fuel node stack row next rows stepped ih skipped out early room => ?_) ended
  · simp [rowIdsFrom, window_nil]
  · rw [List.map_cons, rowIdsFrom_skip hidden]
    exact ih skipped out early room
  · have space : ∀ bound ∈ some limit, out.length < bound := by simpa using room
    rw [List.map_cons, rowIdsFrom_emit (visit_eq_some stepped), ← List.map_append, List.map_cons]
    split
    · next before =>
      obtain ⟨less, same⟩ := window_skip before
      rw [ih (skipped + 1) out less room, same]
    · next late =>
      split
      · next full => rw [window_stop late space (by simpa using full)]
      · next more =>
        obtain ⟨fewer, same⟩ := window_push late space (by simpa using more)
        rw [ih skipped (out ++ [row.id]) early (fewer limit rfl), same]

theorem rowsFrom_spec {bound : Option Nat} (ended : flatten (context.visit expanded) fuel stack = some rows)
    (skipped : UInt32) (out : List VisibleRowOut) (early : skipped.toNat ≤ offset.toNat)
    (room : ∀ limit ∈ bound, out.length < limit) :
    context.rowsFrom expanded offset bound fuel stack skipped out = some (window offset skipped bound out rows) := by
  revert skipped out
  refine flatten_induct (motive := fun fuel stack rows => ∀ (skipped : UInt32) (out : List VisibleRowOut),
      skipped.toNat ≤ offset.toNat → (∀ limit ∈ bound, out.length < limit) →
      context.rowsFrom expanded offset bound fuel stack skipped out = some (window offset skipped bound out rows))
    (fun fuel skipped out early room => ?_)
    (fun fuel node stack rows hidden ih skipped out early room => ?_)
    (fun fuel node stack row next rows stepped ih skipped out early room => ?_) ended
  · simp [rowsFrom, window_nil]
  · rw [rowsFrom_skip hidden]
    exact ih skipped out early room
  · rw [rowsFrom_emit (visit_eq_some stepped)]
    split
    · next before =>
      obtain ⟨less, same⟩ := window_skip before
      rw [ih (skipped + 1) out less room, same]
    · next late =>
      split
      · next full => rw [window_stop late room full]
      · next more =>
        obtain ⟨fewer, same⟩ := window_push late room more
        rw [ih skipped (out ++ [row]) early fewer, same]

theorem countRoots_spec {roots : List EntryId}
    (ended : flatten (context.visit expanded) fuel (roots.map (fun root => (root, 0))) = some rows) (count : Nat) :
    roots.foldlM (fun (counted : UInt32 × List EntryId) root =>
        context.countSubtree expanded fuel [root] counted.1 counted.2) (saturated count, pending) =
      some (saturated (count + rows.length), pending ++ (rows.filter context.isPending).map (·.id)) := by
  induction roots generalizing rows count pending with
  | nil =>
    have none : rows = [] := by
      cases fuel <;> exact (Option.some.inj ended).symm
    simp [none]
  | cons root roots ih =>
    have joined : flatten (context.visit expanded) fuel ([(root, 0)] ++ roots.map (fun root => (root, 0))) =
      some rows := ended
    obtain ⟨first, second, one, two, rfl⟩ := flatten_split joined
    have here := countSubtree_spec one count pending
    rw [List.map_singleton] at here
    rw [List.foldlM_cons, here]
    refine (ih two (count + first.length)).trans ?_
    simp [Nat.add_assoc]

end Loops

end ProjectionContext

namespace StoreSnapshot

open ProjectionContext

variable {toLowercase : String → String} {expanded : Finset EntryId} {rows : List VisibleRowOut}

section Queries

variable (ended : flatten ((ProjectionContext.mk snapshot includeIgnored toLowercase).visit expanded) fuel
  (snapshot.roots.map (fun root => (root, 0))) = some rows)

include ended

theorem allVisibleRows_eq : snapshot.allVisibleRows toLowercase fuel expanded includeIgnored = some rows := by
  unfold allVisibleRows
  rw [rowsFrom_spec ended 0 [] (Nat.le_refl _) (by simp)]
  simp [window]

theorem visibleRows_eq (offset limit : UInt32) :
    snapshot.visibleRows toLowercase fuel ⟨expanded, offset, limit, includeIgnored⟩ =
      some ((rows.drop offset.toNat).take limit.toNat) := by
  unfold visibleRows
  split
  · next none =>
    dsimp only at none
    simp [none]
  · next some =>
    have positive : 0 < limit.toNat := Nat.pos_of_ne_zero fun zero => some (UInt32.toNat_inj.mp zero)
    rw [rowsFrom_spec ended 0 [] (Nat.zero_le _) (by simpa using positive)]
    simp [window]

theorem visibleRowIds_eq (offset limit : UInt32) :
    snapshot.visibleRowIds toLowercase fuel ⟨expanded, offset, limit, includeIgnored⟩ =
      some (((rows.drop offset.toNat).take limit.toNat).map (·.id)) := by
  have ids : (snapshot.roots.map (fun root => (root, (0 : UInt16)))).map Prod.fst = snapshot.roots := by
    rw [List.map_map]
    exact List.map_id _
  unfold visibleRowIds
  split
  · next none =>
    dsimp only at none
    simp [none]
  · next some =>
    have positive : 0 < limit.toNat := Nat.pos_of_ne_zero fun zero => some (UInt32.toNat_inj.mp zero)
    have sliced := @rowIdsFrom_spec _ fuel expanded _ _ offset limit.toNat ended 0 [] (Nat.zero_le _) positive
    rw [ids] at sliced
    rw [sliced]
    simp [window, List.map_take, List.map_drop]

theorem visibleRowCount_eq : snapshot.visibleRowCount toLowercase fuel expanded includeIgnored =
    some ⟨saturated rows.length,
      (rows.filter (ProjectionContext.mk snapshot includeIgnored toLowercase).isPending).map (·.id)⟩ := by
  have counted := @countRoots_spec _ fuel expanded rows [] _ ended 0
  unfold visibleRowCount
  have zero : saturated 0 = 0 := rfl
  rw [zero] at counted
  rw [counted]
  simp

theorem visibleRowIndex_eq (target : EntryId) :
    snapshot.visibleRowIndex toLowercase fuel target expanded includeIgnored =
      some ((rows.findIdx? (·.id = target)).map saturated) := by
  have ids : (snapshot.roots.map (fun root => (root, (0 : UInt16)))).map Prod.fst = snapshot.roots := by
    rw [List.map_map]
    exact List.map_id _
  have found := @rowIndexFrom_spec _ fuel expanded _ rows target ended 0
  have zero : saturated 0 = 0 := rfl
  rw [ids, zero] at found
  unfold visibleRowIndex
  rw [found]
  simp

end Queries

/-- The viewport queries slice, count and search one list of rows. -/
structure Agreement (snapshot : StoreSnapshot) (toLowercase : String → String) (fuel : Nat)
    (expanded : Finset EntryId) (includeIgnored : Bool) (rows : List VisibleRowOut) : Prop where
  whole : snapshot.allVisibleRows toLowercase fuel expanded includeIgnored = some rows
  slice : ∀ offset limit : UInt32,
    snapshot.visibleRows toLowercase fuel ⟨expanded, offset, limit, includeIgnored⟩ =
      some ((rows.drop offset.toNat).take limit.toNat)
  ids : ∀ offset limit : UInt32,
    snapshot.visibleRowIds toLowercase fuel ⟨expanded, offset, limit, includeIgnored⟩ =
      some (((rows.drop offset.toNat).take limit.toNat).map (·.id))
  count : snapshot.visibleRowCount toLowercase fuel expanded includeIgnored =
    some ⟨saturated rows.length, (rows.filter (fun row => row.isExpanded &&
      (snapshot.projectedChildrenOf toLowercase row.id includeIgnored).isEmpty &&
      snapshot.entries[row.id]?.any (·.isFolder) && !snapshot.directoryChildrenLoaded row.id)).map (·.id)⟩
  index : ∀ target, snapshot.visibleRowIndex toLowercase fuel target expanded includeIgnored =
    some ((rows.findIdx? (·.id = target)).map saturated)

/-- A snapshot of roots without children, one for each number below a count. -/
def flat (count : Nat) : StoreSnapshot :=
  { emptyWithProjection ⟨true, true⟩ false ⟨[], false⟩ with
    entries := Maps.insertAll ∅ ((List.range count).map (fun id =>
      (id, ⟨id, none, "f", .file, 0, 0, 0, none, none, false, false, false, false⟩)))
    roots := List.range count }

theorem flat_forest (count : Nat) : (flat count).IsForest := by
  have bare (id : EntryId) : (flat count).childrenOf id = [] := rfl
  refine ⟨fun id => if id < count then some none else none, ?_, ?_, List.nodup_range, ?_, ?_⟩
  · intro id
    simp [flat]
  · intro id above
    simp [bare]
  · intro above
    rw [bare]
    exact List.nodup_nil
  · intro id known
    by_cases inside : id < count
    · exact .root (by simp [inside])
    · simp [inside] at known

theorem flat_visit (count : Nat) (id : EntryId) (inside : id < count) :
    ((ProjectionContext.mk (flat count) true toLowercase).visit ∅ (id, 0)) =
      some (⟨id, 0, false, false, none⟩, []) := by
  have present : (flat count).entries[id]? =
      some ⟨id, none, "f", .file, 0, 0, 0, none, none, false, false, false, false⟩ := by
    have found := @Maps.lookup_insertAll_map Nat Entry _ _ _ _ ∅ id (List.range count)
      (fun id => ⟨id, none, "f", .file, 0, 0, 0, none, none, false, false, false, false⟩)
    rw [if_pos (List.mem_range.mpr inside)] at found
    exact found
  have itself : (flat count).projectedEntry id true = (id, none) :=
    projectedEntry_of_file present (by simp)
  have childless : (ProjectionContext.mk (flat count) true toLowercase).hasChildren id = false := by
    simp [ProjectionContext.hasChildren, ProjectionContext.childrenOf, awaitsListing, present,
      Entry.isFolder]
  simp [visit, present, shows, itself, childless]

theorem flat_rows (toLowercase : String → String) (count : Nat) :
    flatten ((ProjectionContext.mk (flat count) true toLowercase).visit ∅) count
      ((flat count).roots.map (fun root => (root, 0))) =
      some ((List.range count).map (fun id => ⟨id, 0, false, false, none⟩)) := by
  have length : ((List.range count).map (fun root => (root, (0 : UInt16)))).length = count := by simp
  have leaves := @flatten_leaves _ _ ((ProjectionContext.mk (flat count) true toLowercase).visit ∅)
    ((List.range count).map (fun root => (root, (0 : UInt16)))) (fun node => ⟨node.1, 0, false, false, none⟩) (by
      intro node member
      obtain ⟨id, inside, rfl⟩ := List.mem_map.mp member
      exact flat_visit count id (List.mem_range.mp inside))
  rw [length, List.map_map] at leaves
  exact leaves

theorem findIdx?_last (count : Nat) :
    ((List.range (count + 1)).map (fun id => (⟨id, 0, false, false, none⟩ : VisibleRowOut))).findIdx?
      (·.id = count) = some count := by
  rw [List.findIdx?_eq_some_iff_getElem]
  refine ⟨by simp, by simp, fun index less => ?_⟩
  simp only [List.getElem_map, List.getElem_range, decide_eq_true_iff]
  omega

/-- On a forest every query ends, and all of them describe the same rows; numbers of rows beyond the
largest 32-bit one are reported as that. -/
theorem viewport_queries_agree (toLowercase : String → String) (snapshot : StoreSnapshot)
    (forest : snapshot.IsForest) (expanded : Finset EntryId) (includeIgnored : Bool) :
    ∃ enough rows, ∀ fuel ≥ enough, snapshot.Agreement toLowercase fuel expanded includeIgnored rows := by
  obtain ⟨parent, linked⟩ := forest
  obtain ⟨enough, rows, ended⟩ := @visit_ends ⟨snapshot, includeIgnored, toLowercase⟩ parent expanded linked
    (snapshot.roots.map (fun root => (root, 0)))
  refine ⟨enough, rows, fun fuel large => ?_⟩
  have here := flatten_mono ended large
  refine ⟨allVisibleRows_eq here, visibleRows_eq here, visibleRowIds_eq here, ?_, visibleRowIndex_eq here⟩
  rw [visibleRowCount_eq here]
  have same : (ProjectionContext.mk snapshot includeIgnored toLowercase).isPending = fun row => row.isExpanded &&
      (snapshot.projectedChildrenOf toLowercase row.id includeIgnored).isEmpty &&
      snapshot.entries[row.id]?.any (·.isFolder) && !snapshot.directoryChildrenLoaded row.id := by
    funext row
    unfold isPending awaitsListing projectedChildrenOf
    cases snapshot.entries[row.id]? with
    | none => simp
    | some entry =>
      simp only [Option.any_some]
      ac_rfl
  rw [same]

theorem viewport_queries_agree_three_roots : (flat 3).IsForest ∧ ∃ enough rows, ∀ fuel ≥ enough,
    (flat 3).Agreement String.toLower fuel ∅ true rows :=
  ⟨flat_forest 3, viewport_queries_agree String.toLower (flat 3) (flat_forest 3) ∅ true⟩

/-- The row behind 2 ^ 32 others is reported at the largest 32-bit index. -/
theorem row_index_saturates : (flat 4294967297).IsForest ∧ ∃ enough rows, ∀ fuel ≥ enough,
    (flat 4294967297).allVisibleRows String.toLower fuel ∅ true = some rows ∧
      rows.findIdx? (·.id = 4294967296) = some 4294967296 ∧
      (flat 4294967297).visibleRowIndex String.toLower fuel 4294967296 ∅ true = some (some 4294967295) := by
  refine ⟨flat_forest _, 4294967297, (List.range 4294967297).map (fun id => ⟨id, 0, false, false, none⟩),
    fun fuel large => ?_⟩
  have ended := flatten_mono (flat_rows String.toLower 4294967297) large
  have found := findIdx?_last 4294967296
  refine ⟨allVisibleRows_eq ended, found, ?_⟩
  rw [visibleRowIndex_eq ended, found]
  rfl

end StoreSnapshot

end Mille
