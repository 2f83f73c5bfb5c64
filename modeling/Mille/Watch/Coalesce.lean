import Mathlib

/-! Coalescing of raw watcher events: one batch of a debounce window becomes at most one
event for each path. -/

namespace Mille.Watch

variable {P : Type}

inductive RawEvent (P : Type) where
  | created (path : P)
  | modified (path : P)
  | deleted (path : P)
  | any (path : P)
  | overflow (root : P)
  | error (message : String)
deriving DecidableEq

/-- What the coalescer and the rename pairer hand on. -/
inductive FsChangeEvent (P : Type) where
  | created (path : P)
  | modified (path : P)
  | deleted (path : P)
  | unknown (path : P)
  | renamed (origin destination : P)
  | renameDegraded (missingHalf : P) (reason : String)
  | coarse (root : P)
  | error (message : String)
deriving DecidableEq

/-- The net effect of a path's events so far. -/
inductive PathState where
  | created
  | modified
  | deleted
  | unknown
  | cancelled
deriving DecidableEq

/-- What becomes of a path that netted out to created, then deleted. -/
inductive CreateThenDelete where
  | cancel
  | report
deriving DecidableEq

structure CoalesceOptions where
  createThenDelete : CreateThenDelete := .cancel

def CoalesceOptions.stateful : CoalesceOptions := { createThenDelete := .report }

/-- The path an event is grouped by; overflows and errors pass through. -/
def RawEvent.path : RawEvent P → Option P
  | .created path | .modified path | .deleted path | .any path => some path
  | .overflow _ | .error _ => none

/-- `windows` keeps a rename half that was also written. -/
def transition (windows : Bool) : Option PathState → RawEvent P → PathState
  | none, .created _ => .created
  | none, .modified _ => .modified
  | none, .deleted _ => .deleted
  | none, .any _ => .unknown
  | some .created, .modified _ => .created
  | some .created, .deleted _ => .cancelled
  | some .created, .created _ => .created
  | some .created, .any _ => .created
  | some .modified, .modified _ => .modified
  | some .modified, .deleted _ => .deleted
  | some .modified, .created _ => .created
  | some .modified, .any _ => .modified
  | some .deleted, .created _ => .created
  | some .deleted, .modified _ => .deleted
  | some .deleted, .deleted _ => .deleted
  | some .deleted, .any _ => .deleted
  | some .unknown, .created _ => .created
  | some .unknown, .modified _ => if windows then .unknown else .modified
  | some .unknown, .deleted _ => .deleted
  | some .unknown, .any _ => .unknown
  | some .cancelled, .created _ => .created
  | some .cancelled, .modified _ => .modified
  | some .cancelled, .deleted _ => .deleted
  | some .cancelled, .any _ => .unknown
  | previous, .overflow _ | previous, .error _ => previous.getD .unknown

/-- An output position: an index into the paths, or an event that passes through. -/
inductive Slot (P : Type) where
  | path (index : Nat)
  | pass (event : RawEvent P)

structure Grouping (P : Type) where
  slots : List (Slot P)
  /-- Running states, in first-seen order. -/
  paths : List (P × PathState)
  index : P → Option Nat

def Grouping.empty : Grouping P := ⟨[], [], fun _ => none⟩

def Grouping.add [DecidableEq P] (windows : Bool) (grouping : Grouping P) (event : RawEvent P) :
    Grouping P :=
  match event.path with
  | none => { grouping with slots := grouping.slots ++ [.pass event] }
  | some path =>
    match grouping.index path with
    | some position =>
      { grouping with
        paths := grouping.paths.modify position
          (fun entry => (entry.1, transition windows (some entry.2) event)) }
    | none =>
      { slots := grouping.slots ++ [.path grouping.paths.length]
        paths := grouping.paths ++ [(path, transition windows none event)]
        index := Function.update grouping.index path (some grouping.paths.length) }

/-- The event a path's final state becomes; `alive` is the `lstat` of a reported path. -/
def reportState (alive : P → Bool) (options : CoalesceOptions) (path : P) :
    PathState → Option (FsChangeEvent P)
  | .cancelled =>
    match options.createThenDelete with
    | .cancel => none
    | .report => some (if alive path then .created path else .deleted path)
  | .created => some (.created path)
  | .modified => some (.modified path)
  | .deleted => some (.deleted path)
  | .unknown => some (.unknown path)

def reportSlot (alive : P → Bool) (options : CoalesceOptions) (paths : List (P × PathState)) :
    Slot P → Option (FsChangeEvent P)
  | .pass (.overflow root) => some (.coarse root)
  | .pass (.error message) => some (.error message)
  | .pass _ => none
  | .path index => paths[index]?.bind fun entry => reportState alive options entry.1 entry.2

def coalesceEventsWith [DecidableEq P] (windows : Bool) (alive : P → Bool) (raw : List (RawEvent P))
    (options : CoalesceOptions) : List (FsChangeEvent P) :=
  let grouping := raw.foldl (Grouping.add windows) .empty
  grouping.slots.filterMap (reportSlot alive options grouping.paths)

def coalesceEvents [DecidableEq P] (windows : Bool) (alive : P → Bool) (raw : List (RawEvent P)) :
    List (FsChangeEvent P) :=
  coalesceEventsWith windows alive raw {}

section Words

variable [DecidableEq P]

/-- The events of one path, in order. -/
def eventsOf (path : P) (raw : List (RawEvent P)) : List (RawEvent P) :=
  raw.filter fun event => event.path = some path

/-- The creations and deletions of one path, in order. -/
def lifecycleOf (path : P) (raw : List (RawEvent P)) : List (RawEvent P) :=
  raw.filter fun event => event = .created path ∨ event = .deleted path

/-- The events that have a place in the output: those that pass through and the first of
each path. -/
def firstSeen : List (RawEvent P) → List (RawEvent P)
  | [] => []
  | event :: rest =>
    match event.path with
    | none => event :: firstSeen rest
    | some path => event :: (firstSeen rest).filter fun other => other.path ≠ some path

/-- The state a path ends in. -/
def netState (windows : Bool) (events : List (RawEvent P)) : Option PathState :=
  events.foldl (fun state event => some (transition windows state event)) none

omit [DecidableEq P] in
theorem netState_snoc (windows : Bool) (events : List (RawEvent P)) (event : RawEvent P) :
    netState windows (events ++ [event]) = some (transition windows (netState windows events) event) := by
  simp [netState]

theorem eventsOf_snoc (path : P) (raw : List (RawEvent P)) (event : RawEvent P) :
    eventsOf path (raw ++ [event]) =
      eventsOf path raw ++ if event.path = some path then [event] else [] := by
  simp [eventsOf, List.filter_append, List.filter_singleton]

theorem lifecycleOf_snoc (path : P) (raw : List (RawEvent P)) (event : RawEvent P) :
    lifecycleOf path (raw ++ [event]) =
      lifecycleOf path raw ++ if event = .created path ∨ event = .deleted path then [event] else [] := by
  simp [lifecycleOf, List.filter_append, List.filter_singleton]

theorem lifecycleOf_snoc_quiet (path : P) (raw : List (RawEvent P)) (event : RawEvent P)
    (notCreated : event ≠ .created path) (notDeleted : event ≠ .deleted path) :
    lifecycleOf path (raw ++ [event]) = lifecycleOf path raw := by
  simp [lifecycleOf_snoc, notCreated, notDeleted]

theorem firstSeen_snoc_pass (raw : List (RawEvent P)) (event : RawEvent P) (pass : event.path = none) :
    firstSeen (raw ++ [event]) = firstSeen raw ++ [event] := by
  induction raw with
  | nil => simp [firstSeen, pass]
  | cons first rest ih =>
    rw [List.cons_append, firstSeen, firstSeen, ih]
    cases first.path <;> simp [List.filter_append, pass]

theorem firstSeen_snoc_new (raw : List (RawEvent P)) (event : RawEvent P) (path : P)
    (names : event.path = some path) (unseen : ∀ earlier ∈ raw, earlier.path ≠ some path) :
    firstSeen (raw ++ [event]) = firstSeen raw ++ [event] := by
  induction raw with
  | nil => simp [firstSeen, names]
  | cons first rest ih =>
    have later := ih fun earlier member => unseen earlier (List.mem_cons_of_mem first member)
    have differs := unseen first List.mem_cons_self
    rw [List.cons_append, firstSeen, firstSeen, later]
    cases named : first.path with
    | none => simp
    | some other =>
      have distinct : path ≠ other := fun same => differs (same ▸ named)
      simp [List.filter_append, names, distinct]

theorem firstSeen_snoc_seen (raw : List (RawEvent P)) (event : RawEvent P) (path : P)
    (names : event.path = some path) (seen : ∃ earlier ∈ raw, earlier.path = some path) :
    firstSeen (raw ++ [event]) = firstSeen raw := by
  induction raw with
  | nil => simp at seen
  | cons first rest ih =>
    rw [List.cons_append, firstSeen, firstSeen]
    by_cases later : ∃ earlier ∈ rest, earlier.path = some path
    · rw [ih later]
    · have unseen : ∀ earlier ∈ rest, earlier.path ≠ some path :=
        fun earlier member same => later ⟨earlier, member, same⟩
      have named : first.path = some path := by
        obtain ⟨earlier, member, same⟩ := seen
        rcases List.mem_cons.mp member with rfl | inRest
        · exact same
        · exact absurd same (unseen earlier inRest)
      rw [firstSeen_snoc_new rest event path names unseen, named]
      simp [List.filter_append, names]

end Words

section Grouped

variable [DecidableEq P] {windows : Bool} {raw : List (RawEvent P)} {grouping : Grouping P}

omit [DecidableEq P] in
/-- A slot belongs to an event of the output order. -/
inductive Fits (paths : List (P × PathState)) : Slot P → RawEvent P → Prop where
  | pass (event : RawEvent P) (passes : event.path = none) : Fits paths (.pass event) event
  | path (index : Nat) (event : RawEvent P) (path : P) (state : PathState)
      (stored : paths[index]? = some (path, state)) (names : event.path = some path) :
      Fits paths (.path index) event

/-- What the grouping holds after the events of `raw`. -/
structure Grouping.Follows (grouping : Grouping P) (windows : Bool) (raw : List (RawEvent P)) : Prop where
  slots : List.Forall₂ (Fits grouping.paths) grouping.slots (firstSeen raw)
  states : ∀ (position : Nat) path state, grouping.paths[position]? = some (path, state) →
    netState windows (eventsOf path raw) = some state
  found : ∀ path (position : Nat),
    grouping.index path = some position ↔ ∃ state, grouping.paths[position]? = some (path, state)
  unseen : ∀ path, grouping.index path = none ↔ ∀ event ∈ raw, event.path ≠ some path

theorem Grouping.follows_empty : (Grouping.empty : Grouping P).Follows windows [] where
  slots := .nil
  states := by simp [Grouping.empty]
  found := by simp [Grouping.empty]
  unseen := by simp [Grouping.empty]

theorem Grouping.Follows.pass (follows : grouping.Follows windows raw) (event : RawEvent P)
    (passes : event.path = none) : (grouping.add windows event).Follows windows (raw ++ [event]) := by
  have same : grouping.add windows event = { grouping with slots := grouping.slots ++ [.pass event] } := by
    simp [Grouping.add, passes]
  rw [same]
  constructor
  · rw [firstSeen_snoc_pass raw event passes]
    exact List.rel_append follows.slots (.cons (.pass event passes) .nil)
  · intro position path state stored
    rw [eventsOf_snoc, if_neg (by simp [passes]), List.append_nil]
    exact follows.states position path state stored
  · exact follows.found
  · intro path
    simp only [follows.unseen path, List.forall_mem_append, List.forall_mem_singleton]
    exact ⟨fun unseen => ⟨unseen, by simp [passes]⟩, And.left⟩

theorem Grouping.Follows.first (follows : grouping.Follows windows raw) (event : RawEvent P) (path : P)
    (names : event.path = some path) (fresh : grouping.index path = none) :
    (grouping.add windows event).Follows windows (raw ++ [event]) := by
  have same : grouping.add windows event =
      { slots := grouping.slots ++ [.path grouping.paths.length]
        paths := grouping.paths ++ [(path, transition windows none event)]
        index := Function.update grouping.index path (some grouping.paths.length) } := by
    simp [Grouping.add, names, fresh]
  have unseen := (follows.unseen path).mp fresh
  have noEvents : eventsOf path raw = [] := by
    simpa [eventsOf] using unseen
  have absent : ∀ (position : Nat) state, grouping.paths[position]? ≠ some (path, state) := by
    intro position state stored
    have known := (follows.found path position).mpr ⟨state, stored⟩
    rw [fresh] at known
    cases known
  have entries : ∀ index, (grouping.paths ++ [(path, transition windows none event)])[index]? =
      if index = grouping.paths.length then some (path, transition windows none event)
      else grouping.paths[index]? := by
    intro index
    rw [List.getElem?_append]
    by_cases before : index < grouping.paths.length
    · rw [if_pos before, if_neg (by omega)]
    · by_cases last : index = grouping.paths.length
      · simp [last]
      · rw [if_neg before, if_neg last, List.getElem?_eq_none (by simp; omega),
          List.getElem?_eq_none (by omega)]
  have within : ∀ (position : Nat) other state, grouping.paths[position]? = some (other, state) →
      position ≠ grouping.paths.length := by
    intro position other state stored
    exact Nat.ne_of_lt (List.getElem?_eq_some_iff.mp stored).1
  rw [same]
  constructor
  · rw [firstSeen_snoc_new raw event path names unseen]
    refine List.rel_append (follows.slots.imp ?_) (.cons ?_ .nil)
    · intro slot first fits
      cases fits with
      | pass _ passes => exact .pass first passes
      | path index _ other state stored namesOther =>
        exact .path index first other state
          (by rw [entries, if_neg (within index other state stored), stored]) namesOther
    · exact .path _ event path _ (by rw [entries, if_pos rfl]) names
  · intro position other state stored
    rw [entries] at stored
    rw [eventsOf_snoc]
    split at stored
    · cases stored
      simp [names, noEvents, netState]
    · have differs : path ≠ other := fun equal => absent position state (equal ▸ stored)
      rw [if_neg (by simp [names, differs]), List.append_nil]
      exact follows.states position other state stored
  · intro other position
    simp only [entries]
    by_cases equal : other = path
    · subst equal
      rw [Function.update_self]
      constructor
      · rintro ⟨⟩
        exact ⟨_, if_pos rfl⟩
      · rintro ⟨state, stored⟩
        split at stored
        · next last => rw [last]
        · exact absurd stored (absent position state)
    · rw [Function.update_of_ne equal, follows.found]
      constructor
      · rintro ⟨state, stored⟩
        exact ⟨state, by rw [if_neg (within position other state stored), stored]⟩
      · rintro ⟨state, stored⟩
        split at stored
        · cases stored
          exact absurd rfl equal
        · exact ⟨state, stored⟩
  · intro other
    by_cases equal : other = path
    · subst equal
      simp [names]
    · have differs : path ≠ other := fun same => equal same.symm
      simp only [Function.update_of_ne equal, follows.unseen, List.forall_mem_append, List.forall_mem_singleton]
      exact ⟨fun unseen => ⟨unseen, by simp [names, differs]⟩, And.left⟩

theorem Grouping.Follows.later (follows : grouping.Follows windows raw) (event : RawEvent P) (path : P)
    (names : event.path = some path) (position : Nat) (known : grouping.index path = some position) :
    (grouping.add windows event).Follows windows (raw ++ [event]) := by
  have same : grouping.add windows event =
      { grouping with
        paths := grouping.paths.modify position
          (fun entry => (entry.1, transition windows (some entry.2) event)) } := by
    simp [Grouping.add, names, known]
  obtain ⟨before, stored⟩ := (follows.found path position).mp known
  have seen : ∃ earlier ∈ raw, earlier.path = some path := by
    by_contra none_seen
    have fresh := (follows.unseen path).mpr fun earlier member named => none_seen ⟨earlier, member, named⟩
    rw [fresh] at known
    cases known
  -- only the entry at `position` changes, and it keeps its path
  have entries : ∀ index, (grouping.paths.modify position
      (fun entry => (entry.1, transition windows (some entry.2) event)))[index]? =
      if position = index then some (path, transition windows (some before) event)
      else grouping.paths[index]? := by
    intro index
    rw [List.getElem?_modify]
    by_cases here : position = index
    · subst here
      simp [stored]
    · simp [here]
  rw [same]
  constructor
  · rw [firstSeen_snoc_seen raw event path names seen]
    refine follows.slots.imp ?_
    intro slot first fits
    cases fits with
    | pass _ passes => exact .pass first passes
    | path index _ other state held namesOther =>
      by_cases here : position = index
      · subst here
        rw [stored] at held
        cases held
        exact .path position first path _ (by rw [entries, if_pos rfl]) namesOther
      · exact .path index first other state (by rw [entries, if_neg here, held]) namesOther
  · intro index other state held
    rw [entries] at held
    rw [eventsOf_snoc]
    split at held
    · cases held
      rw [if_pos names, netState_snoc, follows.states position path before stored]
    · next elsewhere =>
      have differs : path ≠ other := by
        rintro rfl
        have again := (follows.found path index).mpr ⟨state, held⟩
        rw [known] at again
        exact elsewhere (Option.some.inj again)
      rw [if_neg (by simp [names, differs]), List.append_nil]
      exact follows.states index other state held
  · intro other index
    rw [follows.found]
    constructor
    · rintro ⟨state, held⟩
      by_cases here : position = index
      · subst here
        rw [stored] at held
        cases held
        exact ⟨_, by rw [entries, if_pos rfl]⟩
      · exact ⟨state, by rw [entries, if_neg here, held]⟩
    · rintro ⟨state, held⟩
      rw [entries] at held
      split at held
      · next here =>
        subst here
        cases held
        exact ⟨before, stored⟩
      · exact ⟨state, held⟩
  · intro other
    rw [follows.unseen]
    constructor
    · intro unseen earlier member
      rcases List.mem_append.mp member with inRaw | last
      · exact unseen earlier inRaw
      · rw [List.mem_singleton.mp last, names]
        rintro ⟨⟩
        obtain ⟨witness, inRaw, named⟩ := seen
        exact unseen witness inRaw named
    · intro unseen earlier member
      exact unseen earlier (List.mem_append_left _ member)

theorem Grouping.Follows.add (follows : grouping.Follows windows raw) (event : RawEvent P) :
    (grouping.add windows event).Follows windows (raw ++ [event]) := by
  cases names : event.path with
  | none => exact follows.pass event names
  | some path =>
    cases known : grouping.index path with
    | none => exact follows.first event path names known
    | some position => exact follows.later event path names position known

theorem Grouping.follows_foldl (windows : Bool) (raw : List (RawEvent P)) :
    (raw.foldl (Grouping.add windows) .empty).Follows windows raw := by
  induction raw using List.reverseRecOn with
  | nil => exact Grouping.follows_empty
  | append_singleton raw event ih =>
    rw [List.foldl_append]
    exact ih.add event

end Grouped

section Output

/-- The path an event is about, where it is about one. -/
def FsChangeEvent.path : FsChangeEvent P → Option P
  | .created path | .modified path | .deleted path | .unknown path => some path
  | _ => none

variable [DecidableEq P] {windows : Bool} {alive : P → Bool} {options : CoalesceOptions}
  {raw : List (RawEvent P)} {path : P}

/-- The output at a place of the output order, given the output of each path. -/
def placed (kept : P → Option (FsChangeEvent P)) : RawEvent P → Option (FsChangeEvent P)
  | .overflow root => some (.coarse root)
  | .error message => some (.error message)
  | .created path | .modified path | .deleted path | .any path => kept path

/-- The event a path comes out as. -/
def netReport (windows : Bool) (alive : P → Bool) (options : CoalesceOptions) (raw : List (RawEvent P))
    (path : P) : Option (FsChangeEvent P) :=
  (netState windows (eventsOf path raw)).bind (reportState alive options path)

omit [DecidableEq P] in
theorem placed_path (kept : P → Option (FsChangeEvent P)) (event : RawEvent P)
    (names : event.path = some path) : placed kept event = kept path := by
  cases event <;> simp_all [placed, RawEvent.path]

omit [DecidableEq P] in
theorem reportState_path {state : PathState} {event : FsChangeEvent P}
    (reported : reportState alive options path state = some event) : event.path = some path := by
  cases state with
  | cancelled =>
    rw [reportState] at reported
    split at reported
    · cases reported
    · cases here : alive path <;> simp only [here, Option.some.injEq] at reported <;> cases reported <;> rfl
  | _ =>
    cases reported
    rfl

theorem netReport_path {event : FsChangeEvent P}
    (reported : netReport windows alive options raw path = some event) : event.path = some path := by
  obtain ⟨state, _, here⟩ := Option.bind_eq_some_iff.mp reported
  exact reportState_path here

omit [DecidableEq P] in
theorem filterMap_related {A B C : Type} {related : A → B → Prop} {f : A → Option C} {g : B → Option C}
    {left : List A} {right : List B} (pairs : List.Forall₂ related left right)
    (agree : ∀ a b, related a b → f a = g b) : left.filterMap f = right.filterMap g := by
  induction pairs with
  | nil => rfl
  | cons head _ ih => rw [List.filterMap_cons, List.filterMap_cons, agree _ _ head, ih]

theorem coalesceEventsWith_eq (windows : Bool) (alive : P → Bool) (raw : List (RawEvent P))
    (options : CoalesceOptions) :
    coalesceEventsWith windows alive raw options =
      (firstSeen raw).filterMap (placed (netReport windows alive options raw)) := by
  have follows := Grouping.follows_foldl windows raw
  have reports : ∀ slot first, Fits (raw.foldl (Grouping.add windows) .empty).paths slot first →
      reportSlot alive options (raw.foldl (Grouping.add windows) .empty).paths slot =
        placed (netReport windows alive options raw) first := by
    intro slot first fits
    cases fits with
    | pass _ passes => cases first <;> simp_all [reportSlot, placed, RawEvent.path]
    | path index event path state stored names =>
      rw [placed_path _ _ names, reportSlot, stored, netReport, follows.states index path state stored]
      rfl
  exact filterMap_related follows.slots reports

/-- What the output says about one path. -/
theorem filter_placed {kept : P → Option (FsChangeEvent P)}
    (owns : ∀ other event, kept other = some event → event.path = some other)
    (raw : List (RawEvent P)) (path : P) :
    ((firstSeen raw).filterMap (placed kept)).filter (fun event => event.path = some path) =
      if ∃ event ∈ raw, event.path = some path then (kept path).toList else [] := by
  induction raw using List.reverseRecOn with
  | nil => simp [firstSeen]
  | append_singleton raw event ih =>
    cases names : event.path with
    | none =>
      have passed : ∃ output, placed kept event = some output ∧ output.path = none := by
        clear ih
        cases event <;> simp_all [placed, RawEvent.path, FsChangeEvent.path]
      obtain ⟨output, shown, silent⟩ := passed
      rw [firstSeen_snoc_pass raw event names, List.filterMap_append, List.filter_append, ih]
      simp [shown, silent, names]
    | some other =>
      by_cases seen : ∃ earlier ∈ raw, earlier.path = some other
      · have sees : (∃ earlier ∈ raw ++ [event], earlier.path = some path) ↔
            ∃ earlier ∈ raw, earlier.path = some path := by
          constructor
          · rintro ⟨earlier, member, same⟩
            rcases List.mem_append.mp member with inRaw | last
            · exact ⟨earlier, inRaw, same⟩
            · rw [List.mem_singleton.mp last, names] at same
              exact same ▸ seen
          · rintro ⟨earlier, member, same⟩
            exact ⟨earlier, List.mem_append_left _ member, same⟩
        rw [firstSeen_snoc_seen raw event other names seen, ih]
        simp only [sees]
      · have unseen : ∀ earlier ∈ raw, earlier.path ≠ some other :=
          fun earlier member same => seen ⟨earlier, member, same⟩
        rw [firstSeen_snoc_new raw event other names unseen, List.filterMap_append, List.filter_append, ih]
        by_cases same : other = path
        · subst same
          have own : (kept other).toList.filter (fun output => output.path = some other) =
              (kept other).toList := by
            rw [List.filter_eq_self]
            intro output member
            simpa using owns other output (Option.mem_toList.mp member)
          have last : ∃ earlier ∈ raw ++ [event], earlier.path = some other := ⟨event, by simp, names⟩
          rw [if_neg seen, if_pos last, List.nil_append, ← own]
          cases shown : kept other <;> simp [placed_path kept event names, shown]
        · have foreign : (kept other).toList.filter (fun output => output.path = some path) = [] := by
            rw [List.filter_eq_nil_iff]
            intro output member
            have about := owns other output (Option.mem_toList.mp member)
            simp [about, same]
          have alone : ([event].filterMap (placed kept)).filter (fun output => output.path = some path) = [] := by
            rw [← foreign]
            cases shown : kept other <;> simp [placed_path kept event names, shown]
          rw [alone, List.append_nil]
          simp [names, same, or_and_right, exists_or]

end Output

section Cancelling

variable [DecidableEq P] {windows : Bool} {alive : P → Bool} {options : CoalesceOptions}
  {raw : List (RawEvent P)} {path : P}

omit [DecidableEq P] in
theorem transition_created (windows : Bool) (previous : Option PathState) (path : P) :
    transition windows previous (.created path) = .created := by
  rcases previous with _ | (_ | _ | _ | _ | _) <;> rfl

omit [DecidableEq P] in
theorem transition_deleted (windows : Bool) (previous : Option PathState) (path : P) :
    transition windows previous (.deleted path) =
      if previous = some .created then .cancelled else .deleted := by
  rcases previous with _ | (_ | _ | _ | _ | _) <;> rfl

omit [DecidableEq P] in
theorem transition_quiet (windows : Bool) (previous : Option PathState) (event : RawEvent P)
    (quiet : event = .modified path ∨ event = .any path) :
    (transition windows previous event = .created ↔ previous = some .created) ∧
      (transition windows previous event = .deleted ↔ previous = some .deleted) ∧
      transition windows previous event ≠ .cancelled := by
  rcases quiet with rfl | rfl <;> rcases previous with _ | (_ | _ | _ | _ | _) <;> cases windows <;>
    simp [transition]

omit [DecidableEq P] in
theorem pair_suffix_snoc (events : List (RawEvent P)) (first last : RawEvent P) :
    [first, last] <:+ events ++ [last] ↔ events.getLast? = some first := by
  constructor
  · rintro ⟨before, split⟩
    have aligned : before ++ [first] ++ [last] = events ++ [last] := by simpa using split
    simp [← List.append_cancel_right aligned]
  · intro ends
    obtain ⟨before, rfl⟩ := List.getLast?_eq_some_iff.mp ends
    exact ⟨before, by simp⟩

/-- The final state, read off the path's lifecycle events. -/
structure Tracked (windows : Bool) (path : P) (raw : List (RawEvent P)) : Prop where
  created : netState windows (eventsOf path raw) = some .created ↔
    (lifecycleOf path raw).getLast? = some (.created path)
  deleted : netState windows (eventsOf path raw) = some .deleted ↔
    (lifecycleOf path raw).getLast? = some (.deleted path) ∧
      ¬[.created path, .deleted path] <:+ lifecycleOf path raw
  cancelled : netState windows (eventsOf path raw) = some .cancelled ↔
    [.created path, .deleted path] <:+ lifecycleOf path raw ∧
      (eventsOf path raw).getLast? = some (.deleted path)

theorem tracked (windows : Bool) (path : P) (raw : List (RawEvent P)) : Tracked windows path raw := by
  induction raw using List.reverseRecOn with
  | nil => constructor <;> simp [netState, eventsOf, lifecycleOf]
  | append_singleton raw event ih =>
    by_cases names : event.path = some path
    · have events : eventsOf path (raw ++ [event]) = eventsOf path raw ++ [event] := by
        rw [eventsOf_snoc, if_pos names]
      cases event with
      | created other =>
        cases names
        have lifecycle : lifecycleOf path (raw ++ [.created path]) = lifecycleOf path raw ++ [.created path] := by
          simp [lifecycleOf_snoc]
        constructor <;> rw [events, lifecycle, netState_snoc, transition_created]
        · simp
        · simp
        · simp
      | deleted other =>
        cases names
        have lifecycle : lifecycleOf path (raw ++ [.deleted path]) = lifecycleOf path raw ++ [.deleted path] := by
          simp [lifecycleOf_snoc]
        constructor <;> rw [events, lifecycle, netState_snoc, transition_deleted]
        · split <;> simp
        · rw [pair_suffix_snoc, ← ih.created]
          split <;> simp_all
        · rw [pair_suffix_snoc, ← ih.created]
          split <;> simp_all
      | modified other =>
        cases names
        obtain ⟨created, deleted, cancelled⟩ :=
          transition_quiet windows (netState windows (eventsOf path raw)) (.modified path) (.inl rfl)
        have lifecycle : lifecycleOf path (raw ++ [.modified path]) = lifecycleOf path raw :=
          lifecycleOf_snoc_quiet path raw _ (by simp) (by simp)
        constructor <;> rw [events, lifecycle, netState_snoc, Option.some.injEq]
        · rw [created, ih.created]
        · rw [deleted, ih.deleted]
        · simp [cancelled]
      | any other =>
        cases names
        obtain ⟨created, deleted, cancelled⟩ :=
          transition_quiet windows (netState windows (eventsOf path raw)) (.any path) (.inr rfl)
        have lifecycle : lifecycleOf path (raw ++ [.any path]) = lifecycleOf path raw :=
          lifecycleOf_snoc_quiet path raw _ (by simp) (by simp)
        constructor <;> rw [events, lifecycle, netState_snoc, Option.some.injEq]
        · rw [created, ih.created]
        · rw [deleted, ih.deleted]
        · simp [cancelled]
      | overflow root => cases names
      | error message => cases names
    · have events : eventsOf path (raw ++ [event]) = eventsOf path raw := by
        rw [eventsOf_snoc, if_neg names, List.append_nil]
      have lifecycle : lifecycleOf path (raw ++ [event]) = lifecycleOf path raw := by
        apply lifecycleOf_snoc_quiet
        · rintro rfl
          exact names rfl
        · rintro rfl
          exact names rfl
      constructor <;> rw [events, lifecycle]
      · exact ih.created
      · exact ih.deleted
      · exact ih.cancelled

/-- What coalescing owes a path: a single event where the path was first seen, and no
deletion or creation lost unless the file lived and died inside the batch. -/
structure NetKept (path : P) (raw : List (RawEvent P)) (output : List (FsChangeEvent P)) : Prop where
  placed : ∃ kept : P → Option (FsChangeEvent P),
    (∀ other event, kept other = some event → event.path = some other) ∧
      output = (firstSeen raw).filterMap (placed kept)
  once : (output.filter fun event => event.path = some path).length ≤ 1
  deleted : (eventsOf path raw).head? = some (.deleted path) ∨
      (eventsOf path raw).head? = some (.modified path) →
    (lifecycleOf path raw).getLast? = some (.deleted path) → .deleted path ∈ output
  created : (lifecycleOf path raw).getLast? = some (.created path) → .created path ∈ output
  dropped : (∃ event ∈ raw, event.path = some path) → (∀ event ∈ output, event.path ≠ some path) →
    (eventsOf path raw).head? = some (.created path) ∧
      (eventsOf path raw).getLast? = some (.deleted path)

/-- A path whose lifecycle ends in a creation and a deletion was created first, or was
ambiguous first and not deleted last. -/
def CancelsOnlyTransient (path : P) (raw : List (RawEvent P)) : Prop :=
  [.created path, .deleted path] <:+ lifecycleOf path raw →
    (eventsOf path raw).head? = some (.created path) ∨
      (eventsOf path raw).head? = some (.any path) ∧
        (eventsOf path raw).getLast? ≠ some (.deleted path)

theorem coalesced_path (windows : Bool) (alive : P → Bool) (raw : List (RawEvent P))
    (options : CoalesceOptions) (path : P) :
    (coalesceEventsWith windows alive raw options).filter (fun event => event.path = some path) =
      (netReport windows alive options raw path).toList := by
  rw [coalesceEventsWith_eq, filter_placed fun other event reported => netReport_path reported]
  split
  · rfl
  · next unseen =>
    have silent : eventsOf path raw = [] := by simpa [eventsOf] using unseen
    simp [netReport, silent, netState]

theorem mem_coalesced {event : FsChangeEvent P} (about : event.path = some path) :
    event ∈ coalesceEventsWith windows alive raw options ↔
      netReport windows alive options raw path = some event := by
  have kept := coalesced_path windows alive raw options path
  rw [← Option.mem_toList, ← kept, List.mem_filter]
  simp [about]

theorem unmentioned_iff :
    (∀ event ∈ coalesceEventsWith windows alive raw options, event.path ≠ some path) ↔
      netReport windows alive options raw path = none := by
  constructor
  · intro unmentioned
    cases reported : netReport windows alive options raw path with
    | none => rfl
    | some event =>
      have about := netReport_path reported
      exact absurd about (unmentioned event ((mem_coalesced about).mpr reported))
  · intro silent event member about
    have reported := (mem_coalesced about).mp member
    rw [silent] at reported
    cases reported

theorem netState_some (seen : ∃ event ∈ raw, event.path = some path) :
    ∃ state, netState windows (eventsOf path raw) = some state := by
  have nonempty : eventsOf path raw ≠ [] := by
    obtain ⟨event, member, names⟩ := seen
    exact List.ne_nil_of_mem (List.mem_filter.mpr ⟨member, by simpa using names⟩)
  rcases List.eq_nil_or_concat (eventsOf path raw) with none_left | ⟨before, last, split⟩
  · exact absurd none_left nonempty
  · rw [split, List.concat_eq_append, netState_snoc]
    exact ⟨_, rfl⟩

theorem head_cases (seen : eventsOf path raw ≠ []) :
    (eventsOf path raw).head? = some (.created path) ∨ (eventsOf path raw).head? = some (.modified path) ∨
      (eventsOf path raw).head? = some (.deleted path) ∨ (eventsOf path raw).head? = some (.any path) := by
  obtain ⟨first, rest, split⟩ := List.exists_cons_of_ne_nil seen
  have named : first.path = some path := by
    have member : first ∈ eventsOf path raw := by simp [split]
    simpa using (List.mem_filter.mp member).2
  rw [split]
  cases first <;> simp_all [RawEvent.path]

/-- The default options keep what the batch says of a path exactly when a cancellation only
ever ends a transient file. -/
theorem coalesceEvents_keeps_iff (windows : Bool) (alive : P → Bool) (raw : List (RawEvent P)) (path : P) :
    NetKept path raw (coalesceEvents windows alive raw) ↔ CancelsOnlyTransient path raw := by
  have facts := tracked windows path raw
  constructor
  · intro kept cancels
    have ends : (lifecycleOf path raw).getLast? = some (.deleted path) := by
      obtain ⟨before, split⟩ := cancels
      simp [← split]
    have seen : ∃ event ∈ raw, event.path = some path := by
      have member := List.mem_of_getLast? ends
      exact ⟨.deleted path, (List.mem_filter.mp member).1, rfl⟩
    have someEvents : eventsOf path raw ≠ [] := by
      obtain ⟨event, member, names⟩ := seen
      exact List.ne_nil_of_mem (List.mem_filter.mpr ⟨member, by simpa using names⟩)
    have notDeleted : .deleted path ∉ coalesceEvents windows alive raw := by
      intro member
      have reported := (@mem_coalesced _ _ _ _ _ _ path _ rfl).mp member
      obtain ⟨state, final, shown⟩ := Option.bind_eq_some_iff.mp reported
      have state_deleted : state = .deleted := by
        cases state <;> simp [reportState] at shown
        rfl
      exact (facts.deleted.mp (state_deleted ▸ final)).2 cancels
    rcases head_cases someEvents with head | head | head | head
    · exact .inl head
    · exact absurd (kept.deleted (.inr head) ends) notDeleted
    · exact absurd (kept.deleted (.inl head) ends) notDeleted
    · refine .inr ⟨head, ?_⟩
      intro last
      have cancelled := facts.cancelled.mpr ⟨cancels, last⟩
      have silent : netReport windows alive {} raw path = none := by
        rw [netReport, cancelled]
        rfl
      have dropped := kept.dropped seen (unmentioned_iff.mpr silent)
      rw [head] at dropped
      cases dropped.1
  · intro transient
    constructor
    · exact ⟨netReport windows alive {} raw, fun other event reported => netReport_path reported,
        coalesceEventsWith_eq windows alive raw {}⟩
    · rw [coalesceEvents, coalesced_path]
      cases netReport windows alive {} raw path <;> simp
    · intro existed ends
      have final := facts.deleted.mpr ⟨ends, by
        intro cancels
        rcases transient cancels with head | ⟨head, _⟩ <;> rcases existed with other | other <;>
          rw [head] at other <;> cases other⟩
      apply (mem_coalesced rfl).mpr
      rw [netReport, final]
      rfl
    · intro ends
      apply (mem_coalesced rfl).mpr
      rw [netReport, facts.created.mpr ends]
      rfl
    · intro seen unmentioned
      have silent := unmentioned_iff.mp unmentioned
      obtain ⟨state, final⟩ := @netState_some _ _ windows _ _ seen
      have cancelled : state = .cancelled := by
        rw [netReport, final] at silent
        cases state <;> simp [reportState] at silent
        rfl
      obtain ⟨cancels, last⟩ := facts.cancelled.mp (cancelled ▸ final)
      rcases transient cancels with head | ⟨_, notLast⟩
      · exact ⟨head, last⟩
      · exact absurd last notLast

/-- A file that was there, was replaced and then deleted is not reported at all. -/
theorem coalesceEvents_loses_deletion :
    ¬NetKept "a.txt" [.deleted "a.txt", .created "a.txt", .deleted "a.txt"]
      (coalesceEvents false (fun _ => false) [.deleted "a.txt", .created "a.txt", .deleted "a.txt"]) := by
  intro kept
  have lost := kept.deleted (.inl (by decide)) (by decide)
  exact absurd lost (by decide)

end Cancelling

end Mille.Watch
