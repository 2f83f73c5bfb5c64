import Mille.Client.Mirror
import Mille.Client.NaturalSort
import Mille.Lib.Forest
import Mille.Lib.StackWalk

/-! The queries a client makes of its mirror: rows, ids, an index and a count, each by a loop
of its own. An id without a record is a row of its own for all of them but the count. -/

namespace Mille

open EntryCodec (ClientEntry Text)
open StackWalk (flatten slice sliceFrom)

def isVisibleEntry (entry : ClientEntry) (includeIgnored showHiddenFiles showIgnoredFiles : Bool) : Bool :=
  if includeIgnored then true
  else if entry.name = ".DS_Store".toList ∨ entry.name = "Thumbs.db".toList ∨ entry.name = "desktop.ini".toList ∨
      entry.name = ".git".toList then false
  else (showHiddenFiles || !entry.isHidden) && (showIgnoredFiles || !entry.isIgnored)

/-- Directories, and links to directories. -/
def isExpandableEntry (e : ClientEntry) : Bool := e.kind = 1 || e.symlinkTargetIsDir = some true

/-- The comparison of `sortChildrenByName`: expandable entries first, then by name. -/
def compareChildren (byId : EntriesById) (a b : Int) : Int :=
  let ea := byId.get a
  let eb := byId.get b
  let ka : Int := if ea.any isExpandableEntry then 0 else 1
  let kb : Int := if eb.any isExpandableEntry then 0 else 1
  if ka ≠ kb then ka - kb
  else
    let na := (ea.map (·.name)).getD []
    let nb := (eb.map (·.name)).getD []
    if na = nb then a - b else NaturalSort.compareNaturalNames (String.ofList na) (String.ofList nb)

def sortChildrenByName (ids : List Int) (byId : EntriesById) : List Int :=
  ids.mergeSort fun a b => compareChildren byId a b ≤ 0

/-- The view of a working state that a consumer is handed. -/
structure ClientMirrorSnapshot where
  state : MirrorWorking

namespace ClientMirrorSnapshot

/-- An entry as a row; placeholders are `pending`. -/
structure VisibleRow where
  entry : ClientEntry
  depth : Nat
  hasChildren : Bool
  isExpanded : Bool
  pending : Bool

structure VisibleRowsOptions where
  expanded : JsSet Int
  offset : Nat
  /-- `none` is no limit. -/
  limit : Option Nat
  includeIgnored : Bool

structure VisibleRowCount where
  known : Nat
  pendingExpansions : JsSet Int

section Queries

variable (snapshot : ClientMirrorSnapshot) (includeIgnored : Bool)

def shows (entry : ClientEntry) : Bool :=
  isVisibleEntry entry includeIgnored snapshot.state.showHiddenFiles snapshot.state.showIgnoredFiles

def sortedChildrenFor (parentId : Int) (ids : List Int) : List Int :=
  if snapshot.state.orderedChildren.has parentId then ids else sortChildrenByName ids snapshot.state.byId

def hasChildrenForProjection (id : Int) : Bool :=
  let counted := match snapshot.state.directChildCounts.get id with
    | some count => decide (0 < count)
    | none => (snapshot.state.byId.get id).any isExpandableEntry
  match snapshot.state.children.get id with
  | none => counted
  | some knownChildren =>
    if 0 < knownChildren.length ∨ snapshot.state.orderedChildren.has id then
      knownChildren.any fun childId => (snapshot.state.byId.get childId).all (snapshot.shows includeIgnored)
    else counted

def placeholder (id : Int) (depth : Nat) : VisibleRow where
  entry := ⟨id, none, [], 0, 0, 0, 0, none, none, false, false, false⟩
  depth := depth
  hasChildren := false
  isExpanded := false
  pending := true

/-- The children a loop goes down to. -/
def kidsOf (expanded : JsSet Int) (id : Int) : List Int :=
  if expanded.has id then
    match snapshot.state.children.get id with
    | some kids => snapshot.sortedChildrenFor id kids
    | none => []
  else []

/-- The loop of `visibleRows`; `none` when the fuel runs out. -/
def visibleRowsFrom (options : VisibleRowsOptions) :
    Nat → List (Int × Nat) → Nat → List VisibleRow → Option (List VisibleRow)
  | _, [], _, out => some out
  | 0, _ :: _, _, _ => none
  | fuel + 1, (id, depth) :: stack, skipped, out =>
    match snapshot.state.byId.get id with
    | none =>
      if skipped < options.offset then visibleRowsFrom options fuel stack (skipped + 1) out
      else
        let out := out ++ [placeholder id depth]
        if options.limit.any (out.length ≥ ·) then some out else visibleRowsFrom options fuel stack skipped out
    | some entry =>
      if !snapshot.shows options.includeIgnored entry then visibleRowsFrom options fuel stack skipped out
      else
        let below := (snapshot.kidsOf options.expanded id).map fun child => (child, depth + 1)
        if skipped < options.offset then visibleRowsFrom options fuel (below ++ stack) (skipped + 1) out
        else
          let row : VisibleRow :=
            ⟨entry, depth, snapshot.hasChildrenForProjection options.includeIgnored id, options.expanded.has id, false⟩
          let out := out ++ [row]
          if options.limit.any (out.length ≥ ·) then some out
          else visibleRowsFrom options fuel (below ++ stack) skipped out

def visibleRows (fuel : Nat) (options : VisibleRowsOptions) : Option (List VisibleRow) :=
  if options.limit = some 0 then some []
  else snapshot.visibleRowsFrom options fuel (snapshot.state.roots.map fun root => (root, 0)) 0 []

/-- The loop of `visibleRowIds`. -/
def visibleRowIdsFrom (options : VisibleRowsOptions) : Nat → List Int → Nat → List Int → Option (List Int)
  | _, [], _, out => some out
  | 0, _ :: _, _, _ => none
  | fuel + 1, id :: stack, skipped, out =>
    let entry := snapshot.state.byId.get id
    if entry.any fun entry => !snapshot.shows options.includeIgnored entry then
      visibleRowIdsFrom options fuel stack skipped out
    else
      let below := if entry.isSome then snapshot.kidsOf options.expanded id else []
      if skipped < options.offset then visibleRowIdsFrom options fuel (below ++ stack) (skipped + 1) out
      else
        let out := out ++ [id]
        if options.limit.any (out.length ≥ ·) then some out
        else visibleRowIdsFrom options fuel (below ++ stack) skipped out

def visibleRowIds (fuel : Nat) (options : VisibleRowsOptions) : Option (List Int) :=
  if options.limit = some 0 then some []
  else snapshot.visibleRowIdsFrom options fuel snapshot.state.roots 0 []

/-- The loop of `visibleRowIndex`. -/
def visibleRowIndexFrom (target : Int) (expanded : JsSet Int) : Nat → List Int → Nat → Option (Option Nat)
  | _, [], _ => some none
  | 0, _ :: _, _ => none
  | fuel + 1, id :: stack, index =>
    match snapshot.state.byId.get id with
    | none => if id = target then some (some index) else visibleRowIndexFrom target expanded fuel stack (index + 1)
    | some entry =>
      if !snapshot.shows includeIgnored entry then visibleRowIndexFrom target expanded fuel stack index
      else if id = target then some (some index)
      else visibleRowIndexFrom target expanded fuel (snapshot.kidsOf expanded id ++ stack) (index + 1)

def visibleRowIndex (fuel : Nat) (target : Int) (expanded : JsSet Int) : Option (Option Nat) :=
  snapshot.visibleRowIndexFrom includeIgnored target expanded fuel snapshot.state.roots 0

/-- The loop of `visibleRowCount`; it takes child lists as they come and skips ids without a record. -/
def visibleRowCountFrom (expanded : JsSet Int) : Nat → List Int → Nat → JsSet Int → Option VisibleRowCount
  | _, [], known, pending => some ⟨known, pending⟩
  | 0, _ :: _, _, _ => none
  | fuel + 1, id :: stack, known, pending =>
    match snapshot.state.byId.get id with
    | none => visibleRowCountFrom expanded fuel stack known pending
    | some entry =>
      if !snapshot.shows includeIgnored entry then visibleRowCountFrom expanded fuel stack known pending
      else if expanded.has id then
        match snapshot.state.children.get id with
        | some kids => visibleRowCountFrom expanded fuel (kids ++ stack) (known + 1) pending
        | none => visibleRowCountFrom expanded fuel stack (known + 1) (pending.add id)
      else visibleRowCountFrom expanded fuel stack (known + 1) pending

def visibleRowCount (fuel : Nat) (expanded : JsSet Int) : Option VisibleRowCount :=
  (snapshot.visibleRowCountFrom includeIgnored expanded fuel snapshot.state.roots 0 .empty).map fun counted =>
    { counted with pendingExpansions := snapshot.state.pendingExpansions.keys.foldl JsMap.add counted.pendingExpansions }

end Queries

variable {snapshot : ClientMirrorSnapshot} {includeIgnored : Bool} {expanded : JsSet Int}
variable {options : VisibleRowsOptions} {fuel : Nat} {ids : List Int} {rows : List VisibleRow}

section Visits

/-- One round of the row loop. -/
def rowVisit (snapshot : ClientMirrorSnapshot) (includeIgnored : Bool) (expanded : JsSet Int) (node : Int × Nat) :
    Option (VisibleRow × List (Int × Nat)) :=
  match snapshot.state.byId.get node.1 with
  | none => some (placeholder node.1 node.2, [])
  | some entry =>
    if snapshot.shows includeIgnored entry then
      some (⟨entry, node.2, snapshot.hasChildrenForProjection includeIgnored node.1, expanded.has node.1, false⟩,
        (snapshot.kidsOf expanded node.1).map fun child => (child, node.2 + 1))
    else none

/-- One round of a loop over ids that goes down to the given children. -/
def idVisit (snapshot : ClientMirrorSnapshot) (includeIgnored : Bool) (kids : Int → List Int) (id : Int) :
    Option (Int × List Int) :=
  match snapshot.state.byId.get id with
  | none => some (id, [])
  | some entry => if snapshot.shows includeIgnored entry then some (id, kids id) else none

/-- A parent's children as they come. -/
def rawKids (snapshot : ClientMirrorSnapshot) (expanded : JsSet Int) (id : Int) : List Int :=
  if expanded.has id then (snapshot.state.children.get id).getD [] else []

theorem idVisit_eq_some {kids : Int → List Int} {id row : Int} {next : List Int}
    (visited : snapshot.idVisit includeIgnored kids id = some (row, next)) : id = row ∧
      (snapshot.state.byId.get id = none ∧ next = [] ∨ ∃ entry, snapshot.state.byId.get id = some entry ∧
        snapshot.shows includeIgnored entry = true ∧ next = kids id) := by
  unfold idVisit at visited
  split at visited
  · next absent =>
    cases visited
    exact ⟨rfl, .inl ⟨absent, rfl⟩⟩
  · next entry held =>
    split at visited
    · next shown =>
      cases visited
      exact ⟨rfl, .inr ⟨entry, held, shown, rfl⟩⟩
    · cases visited

theorem visibleRowsFrom_eq (stack : List (Int × Nat)) (skipped : Nat) (out : List VisibleRow) :
    snapshot.visibleRowsFrom options fuel stack skipped out =
      sliceFrom (snapshot.rowVisit options.includeIgnored options.expanded) options.offset options.limit fuel stack
        skipped out := by
  induction fuel generalizing stack skipped out with
  | zero => cases stack <;> rfl
  | succ fuel ih =>
    cases stack with
    | nil => rfl
    | cons node stack =>
      obtain ⟨id, depth⟩ := node
      rw [visibleRowsFrom, sliceFrom, rowVisit]
      cases snapshot.state.byId.get id with
      | none => simp only [ih, List.nil_append]
      | some entry =>
        cases shown : snapshot.shows options.includeIgnored entry with
        | false => simp [ih, shown]
        | true => simp [ih, shown]

theorem visibleRowIdsFrom_eq (stack : List Int) (skipped : Nat) (out : List Int) :
    snapshot.visibleRowIdsFrom options fuel stack skipped out =
      sliceFrom (snapshot.idVisit options.includeIgnored (snapshot.kidsOf options.expanded)) options.offset
        options.limit fuel stack skipped out := by
  induction fuel generalizing stack skipped out with
  | zero => cases stack <;> rfl
  | succ fuel ih =>
    cases stack with
    | nil => rfl
    | cons id stack =>
      rw [visibleRowIdsFrom, sliceFrom, idVisit]
      cases snapshot.state.byId.get id with
      | none => simp [ih]
      | some entry =>
        cases shown : snapshot.shows options.includeIgnored entry with
        | false => simp [ih, shown]
        | true => simp [ih, shown]

theorem visibleRowIndexFrom_spec {target : Int} {stack : List Int}
    (ended : flatten (snapshot.idVisit includeIgnored (snapshot.kidsOf expanded)) fuel stack = some ids) (start : Nat) :
    snapshot.visibleRowIndexFrom includeIgnored target expanded fuel stack start =
      some ((ids.findIdx? (· = target)).map (start + ·)) := by
  revert start
  refine StackWalk.flatten_induct (motive := fun fuel stack ids => ∀ start,
      snapshot.visibleRowIndexFrom includeIgnored target expanded fuel stack start =
        some ((ids.findIdx? (· = target)).map (start + ·)))
    (fun fuel start => ?_) (fun fuel id stack ids skipped ih start => ?_)
    (fun fuel id stack row next ids visited ih start => ?_) ended
  · simp [visibleRowIndexFrom]
  · rw [idVisit] at skipped
    cases held : snapshot.state.byId.get id with
    | none => simp [held] at skipped
    | some entry =>
      have hidden : snapshot.shows includeIgnored entry = false := by simpa [held] using skipped
      simp [visibleRowIndexFrom, held, hidden, ih]
  · obtain ⟨rfl, further⟩ := idVisit_eq_some visited
    have onward (index : Nat) : start + 1 + index = start + (index + 1) := by omega
    rw [List.findIdx?_cons]
    rcases further with ⟨absent, rfl⟩ | ⟨entry, held, shown, rfl⟩
    · rw [List.nil_append] at ih
      by_cases here : id = target
      · subst here
        simp [visibleRowIndexFrom, absent]
      · simp [visibleRowIndexFrom, absent, here, ih, onward, Function.comp_def]
    · by_cases here : id = target
      · subst here
        simp [visibleRowIndexFrom, held, shown]
      · simp [visibleRowIndexFrom, held, shown, here, ih, onward, Function.comp_def]

theorem visibleRowCountFrom_spec {stack : List Int}
    (ended : flatten (snapshot.idVisit includeIgnored (snapshot.rawKids expanded)) fuel stack = some ids)
    (known : Nat) (pending : JsSet Int) : ∃ found,
    snapshot.visibleRowCountFrom includeIgnored expanded fuel stack known pending =
      some ⟨known + ids.countP fun id => (snapshot.state.byId.get id).isSome, found⟩ := by
  revert known pending
  refine StackWalk.flatten_induct (motive := fun fuel stack ids => ∀ (known : Nat) (pending : JsSet Int), ∃ found,
      snapshot.visibleRowCountFrom includeIgnored expanded fuel stack known pending =
        some ⟨known + ids.countP fun id => (snapshot.state.byId.get id).isSome, found⟩)
    (fun fuel known pending => ⟨pending, ?_⟩) (fun fuel id stack ids skipped ih known pending => ?_)
    (fun fuel id stack row next ids visited ih known pending => ?_) ended
  · simp [visibleRowCountFrom]
  · rw [idVisit] at skipped
    cases held : snapshot.state.byId.get id with
    | none => simp [held] at skipped
    | some entry =>
      have hidden : snapshot.shows includeIgnored entry = false := by simpa [held] using skipped
      simpa [visibleRowCountFrom, held, hidden] using ih known pending
  · obtain ⟨rfl, further⟩ := idVisit_eq_some visited
    rcases further with ⟨absent, rfl⟩ | ⟨entry, held, shown, rfl⟩
    · simpa [visibleRowCountFrom, absent] using ih known pending
    · have counted : known + (id :: ids).countP (fun id => (snapshot.state.byId.get id).isSome) =
          known + 1 + ids.countP fun id => (snapshot.state.byId.get id).isSome := by
        rw [List.countP_cons_of_pos (by simp [held])]
        omega
      rw [counted]
      unfold rawKids at ih
      cases opened : expanded.has id with
      | false => simpa [visibleRowCountFrom, held, shown, opened] using ih (known + 1) pending
      | true =>
        cases listed : snapshot.state.children.get id with
        | none => simpa [visibleRowCountFrom, held, shown, opened, listed] using ih (known + 1) (pending.add id)
        | some kids => simpa [visibleRowCountFrom, held, shown, opened, listed] using ih (known + 1) pending

theorem idVisit_rowVisit (node : Int × Nat) : snapshot.idVisit includeIgnored (snapshot.kidsOf expanded) node.1 =
    (snapshot.rowVisit includeIgnored expanded node).map fun step => (step.1.entry.id, step.2.map Prod.fst) := by
  rw [idVisit, rowVisit]
  cases held : snapshot.state.byId.get node.1 with
  | none => rfl
  | some entry =>
    have same := snapshot.state.byId.keyed node.1 entry held
    cases shown : snapshot.shows includeIgnored entry with
    | false => simp [shown]
    | true => simp [shown, same, Function.comp_def]

theorem kidsOf_perm (id : Int) : (snapshot.kidsOf expanded id).Perm (snapshot.rawKids expanded id) := by
  unfold kidsOf rawKids sortedChildrenFor sortChildrenByName
  split
  · cases snapshot.state.children.get id with
    | none => exact .refl []
    | some kids =>
      dsimp only
      split
      · exact .refl kids
      · exact List.mergeSort_perm kids _
  · exact .refl []

theorem flatten_rawKids {stack : List Int}
    (ended : flatten (snapshot.idVisit includeIgnored (snapshot.kidsOf expanded)) fuel stack = some ids) :
    ∃ more ids', flatten (snapshot.idVisit includeIgnored (snapshot.rawKids expanded)) more stack = some ids' ∧
      ids.Perm ids' := by
  apply StackWalk.flatten_reorder _ ended
  intro id
  rw [idVisit, idVisit]
  cases snapshot.state.byId.get id with
  | none => exact .some ⟨rfl, .refl []⟩
  | some entry =>
    dsimp only
    split
    · exact .some ⟨rfl, kidsOf_perm id⟩
    · exact .none

end Visits

section Agreement

/-- Below the roots the child lists come to an end. -/
def Grounded (snapshot : ClientMirrorSnapshot) : Prop :=
  ∀ root ∈ snapshot.state.roots,
    Acc (fun child above => child ∈ (snapshot.state.children.get above).getD []) root

theorem Grounded.ends (grounded : snapshot.Grounded) (includeIgnored : Bool) (expanded : JsSet Int) :
    ∃ fuel rows, flatten (snapshot.rowVisit includeIgnored expanded) fuel
      (snapshot.state.roots.map fun root => (root, 0)) = some rows := by
  apply StackWalk.flatten_ends_acc
  intro node member
  obtain ⟨root, listed, rfl⟩ := List.mem_map.mp member
  have smaller : Subrelation (StackWalk.Leads (snapshot.rowVisit includeIgnored expanded))
      (InvImage (fun child above => child ∈ (snapshot.state.children.get above).getD []) Prod.fst) := by
    rintro child above ⟨row, next, visited, led⟩
    have stepped := @idVisit_rowVisit snapshot includeIgnored expanded above
    rw [visited] at stepped
    obtain ⟨_, ⟨_, empty⟩ | ⟨entry, _, _, same⟩⟩ := idVisit_eq_some stepped
    · have barren : next = [] := List.map_eq_nil_iff.mp empty
      rw [barren] at led
      cases led
    · have member : child.1 ∈ snapshot.kidsOf expanded above.1 := same ▸ List.mem_map_of_mem led
      have raw := (kidsOf_perm above.1).mem_iff.mp member
      unfold rawKids at raw
      split at raw
      · exact raw
      · cases raw
  exact smaller.accessible (InvImage.accessible Prod.fst (grounded root listed))

/-- The queries slice, search and count one list of rows. -/
structure QueriesAgree (snapshot : ClientMirrorSnapshot) (fuel : Nat) (expanded : JsSet Int) (includeIgnored : Bool)
    (rows : List VisibleRow) : Prop where
  whole : snapshot.visibleRows fuel ⟨expanded, 0, none, includeIgnored⟩ = some rows
  slice : ∀ offset limit, snapshot.visibleRows fuel ⟨expanded, offset, limit, includeIgnored⟩ =
    some (slice offset limit rows)
  ids : ∀ offset limit, snapshot.visibleRowIds fuel ⟨expanded, offset, limit, includeIgnored⟩ =
    some ((StackWalk.slice offset limit rows).map (·.entry.id))
  index : ∀ target, snapshot.visibleRowIndex includeIgnored fuel target expanded =
    some (rows.findIdx? (·.entry.id = target))
  count : ∃ pending, snapshot.visibleRowCount includeIgnored fuel expanded = some ⟨rows.length, pending⟩

/-- The ids that the roots name, and the child lists of the expanded visible entries below them. -/
inductive Named (snapshot : ClientMirrorSnapshot) (expanded : JsSet Int) (includeIgnored : Bool) : Int → Prop where
  | root {id : Int} (member : id ∈ snapshot.state.roots) : Named snapshot expanded includeIgnored id
  | child {id parentId : Int} {entry : ClientEntry} {kids : List Int}
      (named : Named snapshot expanded includeIgnored parentId)
      (held : snapshot.state.byId.get parentId = some entry) (shown : snapshot.shows includeIgnored entry = true)
      (opened : expanded.has parentId = true) (listed : snapshot.state.children.get parentId = some kids)
      (member : id ∈ kids) : Named snapshot expanded includeIgnored id

theorem named_iff {id : Int} : Named snapshot expanded includeIgnored id ↔
    StackWalk.Reached (snapshot.idVisit includeIgnored (snapshot.rawKids expanded)) snapshot.state.roots id := by
  constructor
  · intro named
    induction named with
    | root member => exact .start member
    | @child id parentId entry kids _ held shown opened listed member ih =>
      refine .led ih ⟨parentId, kids, ?_, member⟩
      simp [idVisit, rawKids, held, shown, opened, listed]
  · intro reached
    induction reached with
    | start member => exact .root member
    | led _ leads ih =>
      obtain ⟨row, next, visited, led⟩ := leads
      obtain ⟨_, ⟨_, rfl⟩ | ⟨entry, held, shown, rfl⟩⟩ := idVisit_eq_some visited
      · cases led
      · unfold rawKids at led
        split at led
        · next opened =>
          cases listed : snapshot.state.children.get _ with
          | none =>
            rw [listed] at led
            cases led
          | some kids =>
            rw [listed] at led
            exact .child ih held shown opened listed led
        · cases led

/-- The answers of all the queries over one list of rows; the count knows the rows with a record. -/
structure Answers (snapshot : ClientMirrorSnapshot) (fuel : Nat) (expanded : JsSet Int) (includeIgnored : Bool)
    (rows : List VisibleRow) : Prop where
  slice : ∀ offset limit, snapshot.visibleRows fuel ⟨expanded, offset, limit, includeIgnored⟩ =
    some (slice offset limit rows)
  ids : ∀ offset limit, snapshot.visibleRowIds fuel ⟨expanded, offset, limit, includeIgnored⟩ =
    some ((StackWalk.slice offset limit rows).map (·.entry.id))
  index : ∀ target, snapshot.visibleRowIndex includeIgnored fuel target expanded =
    some (rows.findIdx? (·.entry.id = target))
  count : ∃ pending, snapshot.visibleRowCount includeIgnored fuel expanded =
    some ⟨rows.countP fun row => (snapshot.state.byId.get row.entry.id).isSome, pending⟩

theorem visibleRows_eq (ended : flatten (snapshot.rowVisit includeIgnored expanded) fuel
      (snapshot.state.roots.map fun root => (root, 0)) = some rows) (offset : Nat) (limit : Option Nat) :
    snapshot.visibleRows fuel ⟨expanded, offset, limit, includeIgnored⟩ = some (slice offset limit rows) := by
  rw [visibleRows]
  split
  · next zero =>
    dsimp only at zero
    rw [zero]
    rfl
  · next nonzero => rw [visibleRowsFrom_eq, StackWalk.sliceFrom_start ended nonzero]

theorem visibleRowIds_eq (ended : flatten (snapshot.idVisit includeIgnored (snapshot.kidsOf expanded)) fuel
      snapshot.state.roots = some ids) (offset : Nat) (limit : Option Nat) :
    snapshot.visibleRowIds fuel ⟨expanded, offset, limit, includeIgnored⟩ = some (slice offset limit ids) := by
  rw [visibleRowIds]
  split
  · next zero =>
    dsimp only at zero
    rw [zero]
    rfl
  · next nonzero => rw [visibleRowIdsFrom_eq, StackWalk.sliceFrom_start ended nonzero]

theorem Grounded.answers (grounded : snapshot.Grounded) (includeIgnored : Bool) (expanded : JsSet Int) :
    ∃ enough rows, (∀ fuel ≥ enough, snapshot.Answers fuel expanded includeIgnored rows) ∧
      (∀ row ∈ rows, Named snapshot expanded includeIgnored row.entry.id) ∧
      ∀ id, Named snapshot expanded includeIgnored id → snapshot.state.byId.get id = none →
        ∃ row ∈ rows, row.entry.id = id := by
  obtain ⟨enough, rows, ended⟩ := grounded.ends includeIgnored expanded
  have roots : (snapshot.state.roots.map fun root => (root, (0 : Nat))).map Prod.fst = snapshot.state.roots := by
    rw [List.map_map]
    exact List.map_id _
  have walked : flatten (snapshot.idVisit includeIgnored (snapshot.kidsOf expanded)) enough snapshot.state.roots =
      some (rows.map (·.entry.id)) := by
    rw [← roots]
    exact StackWalk.flatten_map idVisit_rowVisit ended
  obtain ⟨more, ids, raw, perm⟩ := flatten_rawKids walked
  have members (id : Int) : (∃ row ∈ rows, row.entry.id = id) ↔ id ∈ ids := by
    rw [← perm.mem_iff, List.mem_map]
  refine ⟨max enough more, rows, ?_, ?_, ?_⟩
  · intro fuel large
    have here := StackWalk.flatten_mono ended (le_trans (le_max_left enough more) large)
    have ids_here := StackWalk.flatten_mono walked (le_trans (le_max_left enough more) large)
    have raw_here := StackWalk.flatten_mono raw (le_trans (le_max_right enough more) large)
    refine ⟨visibleRows_eq here, ?_, ?_, ?_⟩
    · intro offset limit
      rw [visibleRowIds_eq ids_here, StackWalk.slice_map]
    · intro target
      rw [visibleRowIndex, visibleRowIndexFrom_spec ids_here]
      simp [Function.comp_def]
    · obtain ⟨found, counted⟩ := visibleRowCountFrom_spec raw_here 0 .empty
      rw [visibleRowCount, counted, ← perm.countP_eq, List.countP_map, Nat.zero_add]
      exact ⟨_, rfl⟩
  · intro row member
    obtain ⟨id, next, reached, visited⟩ := (StackWalk.mem_flatten raw row.entry.id).mp
      ((members row.entry.id).mp ⟨row, member, rfl⟩)
    rw [← (idVisit_eq_some visited).1]
    exact named_iff.mpr reached
  · intro id named absent
    rw [members, StackWalk.mem_flatten raw]
    exact ⟨id, [], named_iff.mp named, by simp [idVisit, absent]⟩

/-- The queries agree exactly when every id they come to has a record: the count leaves out the
placeholder rows. -/
theorem mirror_queries_agree_iff (grounded : snapshot.Grounded) (expanded : JsSet Int) (includeIgnored : Bool) :
    (∃ enough rows, ∀ fuel ≥ enough, snapshot.QueriesAgree fuel expanded includeIgnored rows) ↔
      ∀ id, Named snapshot expanded includeIgnored id → (snapshot.state.byId.get id).isSome = true := by
  obtain ⟨enough, rows, answers, sound, complete⟩ := grounded.answers includeIgnored expanded
  constructor
  · rintro ⟨other, rows', agrees⟩ id named
    have agree := agrees (max other enough) (le_max_left other enough)
    have answer := answers (max other enough) (le_max_right other enough)
    have same : rows' = rows := Option.some.inj (agree.whole.symm.trans (answer.slice 0 none))
    obtain ⟨_, known⟩ := agree.count
    obtain ⟨_, counted⟩ := answer.count
    have all : (rows.countP fun row => (snapshot.state.byId.get row.entry.id).isSome) = rows.length := by
      rw [counted, same] at known
      exact congrArg VisibleRowCount.known (Option.some.inj known)
    by_contra absent
    obtain ⟨row, member, rfl⟩ := complete id named (by simpa using absent)
    exact absent (List.countP_eq_length.mp all row member)
  · intro held
    refine ⟨enough, rows, fun fuel large => ?_⟩
    obtain ⟨sliced, ids, index, pending, counted⟩ := answers fuel large
    have all : (rows.countP fun row => (snapshot.state.byId.get row.entry.id).isSome) = rows.length :=
      List.countP_eq_length.mpr fun row member => held row.entry.id (sound row member)
    rw [all] at counted
    exact ⟨sliced 0 none, sliced, ids, index, pending, counted⟩

/-- A folder with one child that the host has listed, and the records that are held. -/
def openFolder (held : EntriesById) : ClientMirrorSnapshot where
  state :=
    { MirrorWorking.createMirror with
      byId := held.set ⟨1, none, ['d'], 1, 0, 0, 0, none, none, false, false, false⟩
      children := JsMap.empty.set 1 [2]
      orderedChildren := .ofList [1]
      roots := [1] }

theorem grounded_openFolder (held : EntriesById) : (openFolder held).Grounded := by
  intro root member
  cases List.mem_singleton.mp member
  refine Acc.intro 1 fun child below => ?_
  cases List.mem_singleton.mp below
  exact Acc.intro 2 fun other none => by cases none

def childRecord : ClientEntry := ⟨2, some 1, ['a'], 0, 0, 0, 0, none, none, false, false, false⟩

theorem mirror_queries_agree_iff_hydrated :
    (∃ enough rows, ∀ fuel ≥ enough,
      (openFolder (.set .empty childRecord)).QueriesAgree fuel (.ofList [1]) false rows) ↔
      ∀ id, Named (openFolder (.set .empty childRecord)) (.ofList [1]) false id →
        ((openFolder (.set .empty childRecord)).state.byId.get id).isSome = true :=
  mirror_queries_agree_iff (grounded_openFolder _) (.ofList [1]) false

/-- A child that has not arrived is a row, and is not counted. -/
theorem placeholder_not_counted : (openFolder .empty).Grounded ∧
    (openFolder .empty).visibleRowIds 3 ⟨.ofList [1], 0, none, false⟩ = some [1, 2] ∧
    ((openFolder .empty).visibleRowCount false 3 (.ofList [1])).map (·.known) = some 1 ∧
    ¬∃ enough rows, ∀ fuel ≥ enough, (openFolder .empty).QueriesAgree fuel (.ofList [1]) false rows := by
  refine ⟨grounded_openFolder .empty, rfl, rfl, ?_⟩
  rintro ⟨enough, rows, agrees⟩
  have agree := agrees (enough + 3) (Nat.le_add_right enough 3)
  have two : rows.length = 2 := by
    have ids := agree.ids 0 none
    have found : (openFolder .empty).visibleRowIds (enough + 3) ⟨.ofList [1], 0, none, false⟩ = some [1, 2] := rfl
    rw [found] at ids
    simpa [slice] using (congrArg List.length (Option.some.inj ids)).symm
  obtain ⟨pending, counted⟩ := agree.count
  have one : ((openFolder .empty).visibleRowCount false (enough + 3) (.ofList [1])).map (·.known) = some 1 := rfl
  rw [counted, two] at one
  cases one

end Agreement

end ClientMirrorSnapshot

end Mille
