import Mathlib
import Mille.Lib.JsMap

/-! The git decoration provider: recomputes that wait for the status and for every path, the
batch of change notifications, refreshes and disposal. -/

namespace Mille.Ui.Git

section Decorations

inductive GitStatusLetter where
  | M
  | A
  | D
  | U
  | R
  | C
  | untracked
  | ignored

structure GitStatusEntry where
  path : String
  status : GitStatusLetter
  staged : Option Bool

structure Decoration where
  letter : Option String
  badge : Option String
  color : Option String
  tooltip : Option String
  propagate : Bool

structure Options where
  colorFor : Option (GitStatusLetter → Bool → Option String)
  propagateToParent : Bool

namespace GitStatusLetter

def letter : GitStatusLetter → String
  | .M => "M"
  | .A => "A"
  | .D => "D"
  | .U => "U"
  | .R => "R"
  | .C => "C"
  | .untracked => "?"
  | .ignored => "!"

def defaultColor : GitStatusLetter → String
  | .M => "var(--mille-decoration-modified, #e2c08d)"
  | .A => "var(--mille-decoration-added, #81b88b)"
  | .D => "var(--mille-decoration-deleted, #c74e39)"
  | .U => "var(--mille-decoration-conflict, #6c6cc4)"
  | .R => "var(--mille-decoration-renamed, #e2c08d)"
  | .C => "var(--mille-decoration-renamed, #e2c08d)"
  | .untracked => "var(--mille-decoration-untracked, #73c991)"
  | .ignored => "var(--mille-decoration-ignored, #8c8c8c)"

def mutedColor : GitStatusLetter → String
  | .M => "var(--mille-decoration-modified-muted, #a68b64)"
  | .A => "var(--mille-decoration-added-muted, #5e8662)"
  | .D => "var(--mille-decoration-deleted-muted, #8c3a2b)"
  | .U => "var(--mille-decoration-conflict-muted, #4e4e8c)"
  | .R => "var(--mille-decoration-renamed-muted, #a68b64)"
  | .C => "var(--mille-decoration-renamed-muted, #a68b64)"
  | .untracked => "var(--mille-decoration-untracked-muted, #548c58)"
  | .ignored => "var(--mille-decoration-ignored-muted, #6c6c6c)"

def word : GitStatusLetter → String
  | .M => "modified"
  | .A => "added"
  | .D => "deleted"
  | .U => "conflicted"
  | .R => "renamed"
  | .C => "copied"
  | .untracked => "untracked"
  | .ignored => "ignored"

end GitStatusLetter

def GitStatusEntry.isStaged (entry : GitStatusEntry) : Bool := entry.staged = some true

variable (options : Options)

def resolveColor (status : GitStatusLetter) (staged muted : Bool) : Option String :=
  match options.colorFor.bind fun colorFor => colorFor status staged with
  | some override => some override
  | none => some (if muted then status.mutedColor else status.defaultColor)

def tooltipFor (entry : GitStatusEntry) : String :=
  " ".intercalate ((if entry.isStaged then ["staged"] else []) ++ [entry.status.word])

def buildLeafDecoration (entry : GitStatusEntry) : Decoration :=
  ⟨some entry.status.letter, none, resolveColor options entry.status entry.isStaged false,
    some (tooltipFor entry), options.propagateToParent⟩

def buildAncestorDecoration (status : GitStatusLetter) (staged : Bool) : Decoration :=
  ⟨none, some (status.letter ++ "*"), resolveColor options status staged true, none, false⟩

/-- What a recompute asks of the tree: each entry's parent. Walks up the tree end. -/
structure Snapshot where
  getById : Int → Option (Option Int)
  rank : Int → Nat
  rises : ∀ id parent, getById id = some (some parent) → rank parent < rank id

structure Leaf where
  id : Int
  status : GitStatusLetter
  staged : Bool

/-- Stamps the ancestors that carry nothing yet, from a parent up. -/
def stampAncestors (snapshot : Snapshot) (leaf : Leaf) (parentId : Option Int)
    (next : JsMap Int Decoration) : JsMap Int Decoration :=
  match parentId with
  | none => next
  | some parentId =>
    let next := if next.has parentId then next
      else next.set parentId (buildAncestorDecoration options leaf.status leaf.staged)
    match _known : snapshot.getById parentId with
    | none => next
    | some parent => stampAncestors snapshot leaf parent next
termination_by match parentId with
  | none => 0
  | some id => snapshot.rank id + 1
decreasing_by
  cases parent with
  | none => exact Nat.succ_pos _
  | some parent => exact Nat.succ_lt_succ (snapshot.rises _ _ _known)

def stampLeaf (snapshot : Snapshot) (next : JsMap Int Decoration) (leaf : Leaf) :
    JsMap Int Decoration :=
  match snapshot.getById leaf.id with
  | none => next
  | some parentId => stampAncestors options snapshot leaf parentId next

/-- The decorations of the leaves with those of their ancestors. -/
def propagated (snapshot : Snapshot) (next : JsMap Int Decoration) (leafEntries : List Leaf) :
    JsMap Int Decoration :=
  if options.propagateToParent then leafEntries.foldl (stampLeaf options snapshot) next else next

/-- The leaf decorations found so far. -/
structure Gathered where
  next : JsMap Int Decoration
  leafEntries : List Leaf

/-- An entry of the status with the id its path resolved to. -/
def Gathered.found (gathered : Gathered) (entry : GitStatusEntry) : Option Int → Gathered
  | none => gathered
  | some id => ⟨gathered.next.set id (buildLeafDecoration options entry),
      gathered.leafEntries ++ [⟨id, entry.status, entry.isStaged⟩]⟩

end Decorations

/-- A call of `recompute` between two awaits. Its status is that of the moment. -/
inductive Phase where
  | fetching
  | resolving (moment : Nat) (todo : List GitStatusEntry) (found : List (Option Int))
      (gathered : Gathered)

/-- Calls of `getStatus` are numbered in the order they start. -/
structure Recompute where
  number : Nat
  called : Nat
  refresh : Bool
  phase : Phase

/-- A `refresh()` whose recompute is over. -/
structure Settling where
  number : Nat
  called : Nat

/-- Where the published decorations come from: the call, the moment of its status, the ids
its paths resolved to and the tree the ancestors were looked up in. -/
structure Shown where
  number : Nat
  moment : Nat
  found : List (Option Int)
  snapshot : Snapshot

structure State where
  decorations : JsMap Int Decoration
  decoratedIds : JsSet Int
  listeners : JsSet Nat
  disposed : Bool
  /-- The batch holds the sentinel. -/
  pending : Bool
  recomputes : List Recompute
  settling : List Settling
  /-- The clock of the repository. -/
  now : Nat
  /-- Calls of `getStatus` so far. -/
  calls : Nat
  shown : Option Shown
  /-- The ids given to each listener by the last step. -/
  told : List (Nat × List Int)

inductive Event where
  | tick
  | notify
  | fire
  | refresh
  | answer (number moment : Nat) (snapshot : Snapshot)
  | resolve (number : Nat) (id : Option Int) (snapshot : Snapshot)
  | settle (number : Nat)
  | listen (listener : Nat)
  | unlisten (listener : Nat)
  | dispose

section Steps

variable (options : Options) (repository : Nat → List GitStatusEntry)

/-- `recompute` up to its first await. -/
def State.start (state : State) (refresh : Bool) : State :=
  if state.disposed then state
  else { state with
    recomputes := state.recomputes ++ [⟨state.calls, state.now, refresh, .fetching⟩]
    calls := state.calls + 1 }

/-- The provider right after registration, its first recompute under way. -/
def State.initial : State :=
  State.start ⟨.empty, .empty, .empty, false, false, [], [], 0, 0, none, []⟩ false

def State.find (state : State) (number : Nat) : Option Recompute :=
  state.recomputes.find? fun recompute => recompute.number = number

/-- A recompute returns; a refresh that waited for it goes on to resolve. -/
def State.finish (state : State) (recompute : Recompute) : State :=
  { state with
    recomputes := state.recomputes.filter fun other => other.number ≠ recompute.number
    settling := if recompute.refresh then
      state.settling ++ [⟨recompute.number, recompute.called⟩] else state.settling }

/-- The end of `recompute`, from the last path on. -/
def State.publish (state : State) (recompute : Recompute) (moment : Nat) (found : List (Option Int))
    (gathered : Gathered) (snapshot : Snapshot) : State :=
  let next := propagated options snapshot gathered.next gathered.leafEntries
  let changed := next.keys.foldl JsMap.add (JsMap.ofList state.decoratedIds.keys)
  { state.finish recompute with
    decorations := next
    decoratedIds := JsMap.ofList next.keys
    shown := some ⟨recompute.number, moment, found, snapshot⟩
    told := if changed.size > 0 ∧ state.listeners.size > 0 then
      state.listeners.keys.map fun listener => (listener, changed.keys) else [] }

/-- The recompute goes on: to its next path, or to its end. -/
def State.proceed (state : State) (recompute : Recompute) (moment : Nat) (todo : List GitStatusEntry)
    (found : List (Option Int)) (gathered : Gathered) (snapshot : Snapshot) : State :=
  match todo with
  | [] => state.publish options recompute moment found gathered snapshot
  | todo => { state with
      recomputes := state.recomputes.map fun other =>
        if other.number = recompute.number then
          { recompute with phase := .resolving moment todo found gathered } else other }

/-- A step, when the event can happen. The tree is the one of the moment. -/
def State.step (before : State) (event : Event) : Option State :=
  let state := { before with told := [] }
  match event with
  | .tick => some { state with now := state.now + 1 }
  | .notify => some { state with pending := state.pending || !state.disposed }
  | .fire => if state.pending then some ({ state with pending := false }.start false) else none
  | .refresh => some (if state.disposed then state else { state with pending := false }.start true)
  | .answer number moment snapshot =>
    match state.find number with
    | some ⟨number, called, refresh, .fetching⟩ =>
      let recompute : Recompute := ⟨number, called, refresh, .fetching⟩
      if called ≤ moment ∧ moment ≤ state.now then
        if state.disposed then some (state.finish recompute)
        else some (state.proceed options recompute moment (repository moment) [] ⟨.empty, []⟩ snapshot)
      else none
    | _ => none
  | .resolve number id snapshot =>
    match state.find number with
    | some ⟨number, called, refresh, .resolving moment (entry :: todo) found gathered⟩ =>
      some (state.proceed options
        ⟨number, called, refresh, .resolving moment (entry :: todo) found gathered⟩ moment todo
          (found ++ [id]) (gathered.found options entry id) snapshot)
    | _ => none
  | .settle number =>
    if number ∈ state.settling.map Settling.number then
      some { state with settling := state.settling.filter fun other => other.number ≠ number }
    else none
  | .listen listener => some { state with listeners := state.listeners.add listener }
  | .unlisten listener => some { state with listeners := state.listeners.delete listener }
  | .dispose =>
    some (if state.disposed then state
      else { state with
        disposed := true, pending := false, listeners := .empty, decorations := .empty,
        decoratedIds := .empty, shown := none })

end Steps

end Mille.Ui.Git
