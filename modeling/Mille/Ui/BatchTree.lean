import Mathlib
import Mille.Host.Operations
import Mille.Lib.JsMap

/-! The tree behind the batch commands: entries by id, each with its path below the workspace
root, and what deleting and moving one entry does to it. -/

namespace Mille.Ui.Batch

/-- Where an entry stands: the names down to it, none for the workspace root. -/
abbrev Place := List String

structure Node where
  place : Place
  folder : Bool
deriving DecidableEq

abbrev Tree := List (EntryId × Node)

def Tree.find (tree : Tree) (id : EntryId) : Option Node := JsMap.lookup id tree

def nameOf (place : Place) : String := place.getLastD ""

/-- Distinct ids at distinct places, and a folder above every entry but the root. -/
structure Tree.WellFormed (tree : Tree) : Prop where
  ids : (tree.map Prod.fst).Nodup
  places : (tree.map fun entry => entry.2.place).Nodup
  above : ∀ entry ∈ tree, entry.2.place ≠ [] →
    ∃ parent ∈ tree, parent.2.place = entry.2.place.dropLast ∧ parent.2.folder = true

/-- `parentId`: the entry the place ends below. -/
def Tree.parentOf (tree : Tree) (node : Node) : Option EntryId :=
  if node.place = [] then none
  else (tree.find? fun entry => entry.2.place = node.place.dropLast).map Prod.fst

/-- `isSelfOrDescendant`: the walk from an entry up its parents meets the other one. -/
def Tree.isSelfOrDescendant (tree : Tree) (ancestor candidate : EntryId) : Bool :=
  match tree.find ancestor, tree.find candidate with
  | some top, some low => top.place.isPrefixOf low.place
  | _, _ => ancestor = candidate

def Tree.hasChildren (tree : Tree) (node : Node) : Bool :=
  tree.any fun entry => entry.2.place ≠ [] && entry.2.place.dropLast = node.place

/-- `remove_subtree`. -/
def Tree.removeSubtree (tree : Tree) (place : Place) : Tree :=
  tree.filter fun entry => !place.isPrefixOf entry.2.place

/-- A place after what stood at another was moved. -/
def shift (source target place : Place) : Place :=
  if source.isPrefixOf place then target ++ place.drop source.length else place

def Tree.relocate (tree : Tree) (source target : Place) : Tree :=
  tree.map fun entry => (entry.1, { entry.2 with place := shift source target entry.2.place })

/-- `fx.delete`, to the recycle directory or for good. -/
def Tree.delete (tree : Tree) (id : EntryId) (recursive : Bool) : Except FxError Tree :=
  match tree.find id with
  | none => .error (.invalidInput [.text "id ", .id id, .text " not found in snapshot"])
  | some node =>
    if node.place = [] then .error (.invalidInput [.text "workspace roots cannot be deleted"])
    else if node.folder && tree.hasChildren node && !recursive then
      .error (.unsupported [.text "delete of non-empty directory requires recursive: true"])
    else if recursive || node.folder then .ok (tree.removeSubtree node.place)
    else .ok (tree.filter fun entry => entry.1 ≠ id)

/-- Another entry of the folder has the name, up to the case of its letters. -/
def Tree.taken (tree : Tree) (folder : Place) (name : String) : Bool :=
  tree.any fun entry => entry.2.place ≠ [] && entry.2.place.dropLast = folder &&
    DiskView.eqIgnoreAsciiCase (nameOf entry.2.place) name

/-- `fx.move`. What a collision comes to, by the policy it is called with, is given. -/
def Tree.move (collide : Tree → EntryId → EntryId → String → Except FxError Tree) (tree : Tree)
    (id newParentId : EntryId) (newName : Option String) : Except FxError Tree :=
  match tree.find id, tree.find newParentId with
  | none, _ => .error (.invalidInput [.text "id ", .id id, .text " not found in snapshot"])
  | _, none => .error (.invalidInput [.text "new_parent id ", .id newParentId, .text " not found in snapshot"])
  | some source, some parent =>
    if source.place = [] then .error (.invalidInput [.text "workspace roots cannot be moved"])
    else if parent.folder = false then .error (.invalidInput [.text "move destination is not a directory"])
    else if source.folder && source.place.isPrefixOf parent.place then
      .error (.invalidInput [.text "cannot move a directory into its own subtree"])
    else
      let desiredName := newName.getD (nameOf source.place)
      match validateEntryName desiredName with
      | .error error => .error error
      | .ok () =>
        let desired := parent.place ++ [desiredName]
        if desired = source.place then .ok tree
        else if tree.taken parent.place desiredName then collide tree id newParentId desiredName
        else .ok (tree.relocate source.place desired)

section Commands

/-- What a command reads: sets in the order their ids were added. -/
structure Context where
  selectedIds : List EntryId
  cutIds : List EntryId
  focusedId : Option EntryId

/-- The ids a command acts on: its own, else the selection, else the focus. -/
def commandIds (given : Option (List EntryId)) (context : Context) : Option (List EntryId) :=
  let ids := match given with
    | some ids => ids
    | none => if context.selectedIds ≠ [] then context.selectedIds else context.focusedId.toList
  if ids = [] then none else some ids

/-- How a command went: the tree it leaves, how many ids were done, and what stopped it. -/
structure Outcome where
  tree : Tree
  done : Nat
  failure : Option FxError

/-- One mutation per id; the first that fails ends the batch. -/
def runMutationBatch (op : Tree → EntryId → Except FxError Tree) : List EntryId → Tree → Nat → Outcome
  | [], tree, done => ⟨tree, done, none⟩
  | id :: ids, tree, done =>
    match op tree id with
    | .error error => ⟨tree, done, some error⟩
    | .ok next => runMutationBatch op ids next (done + 1)

/-- `file.delete`; `confirm` is the host's answer, where it asks. -/
def deleteCommand (given : Option (List EntryId)) (recursive : Option Bool) (confirm : Option Bool)
    (context : Context) (tree : Tree) : Outcome :=
  match commandIds given context with
  | none => ⟨tree, 0, none⟩
  | some ids =>
    if ids.length > 1 && confirm = some false then ⟨tree, 0, none⟩
    else runMutationBatch (fun tree id => tree.delete id (recursive.getD true)) ids tree 0

variable (collide : Tree → EntryId → EntryId → String → Except FxError Tree)

/-- `file.move`. -/
def moveCommand (given : Option (List EntryId)) (targetParentId : EntryId) (newName : Option String)
    (context : Context) (tree : Tree) : Outcome :=
  match commandIds given context with
  | none => ⟨tree, 0, none⟩
  | some ids => runMutationBatch (fun tree id => tree.move collide id targetParentId newName) ids tree 0

/-- The focused folder, or the parent of the focused entry. -/
def resolvePasteTarget (context : Context) (tree : Tree) : Option EntryId :=
  context.focusedId.bind fun id =>
    (tree.find id).bind fun node => if node.folder then some id else tree.parentOf node

/-- `file.paste` while ids are cut. -/
def pasteCut (context : Context) (tree : Tree) : Outcome :=
  match resolvePasteTarget context tree with
  | none => ⟨tree, 0, none⟩
  | some target => runMutationBatch (fun tree id => tree.move collide id target none) context.cutIds tree 0

inductive DropPosition where
  | above
  | self
  | below
deriving DecidableEq

def resolveTargetParent (tree : Tree) (rowId : EntryId) (position : DropPosition) : Option EntryId :=
  (tree.find rowId).bind fun row =>
    if position = .self ∧ row.folder = true then some rowId else tree.parentOf row

/-- The target of a drop that may go ahead. -/
def validateSync (tree : Tree) (sourceIds : List EntryId) (rowId : EntryId) (position : DropPosition) :
    Option EntryId :=
  match resolveTargetParent tree rowId position with
  | none => none
  | some target =>
    if position = .self ∧ sourceIds = [rowId] then none
    else if sourceIds.any fun id => tree.isSelfOrDescendant id target then none
    else some target

/-- The moves of a drop. What is shown lags: each id is looked up in the tree of now or of some
moment since the drop, and left where it is when that has it under the target already. -/
def dropMoves (target : EntryId) : List Nat → List EntryId → List Tree → Tree → Nat → Outcome
  | _, [], _, tree, done => ⟨tree, done, none⟩
  | lags, id :: ids, past, tree, done =>
    let shown := (tree :: past).getD (lags.headD 0) tree
    if ((shown.find id).any fun node => shown.parentOf node = some target) = true then
      dropMoves target lags.tail ids past tree (done + 1)
    else
      match tree.move collide id target none with
      | .error error => ⟨tree, done, some error⟩
      | .ok next => dropMoves target lags.tail ids (tree :: past) next (done + 1)

/-- `onDrop` of rows of this tree, without the alt key. -/
def onDrop (sourceIds : List EntryId) (rowId : EntryId) (position : DropPosition) (lags : List Nat)
    (tree : Tree) : Outcome :=
  match validateSync tree sourceIds rowId position with
  | none => ⟨tree, 0, none⟩
  | some target => dropMoves collide target lags sourceIds [] tree 0

end Commands

section Subtrees

/-- Exactly the entries at or below a selected one are gone. -/
def Removed (tree : Tree) (ids : List EntryId) (outcome : Outcome) : Prop :=
  outcome.failure = none ∧ ∀ id, outcome.tree.find id = (tree.find id).filter fun node =>
    !ids.any fun top => (tree.find top).any fun upper => upper.place.isPrefixOf node.place

/-- The places of the selected entries. -/
def Tree.placesOf (tree : Tree) (ids : List EntryId) : List Place :=
  ids.filterMap fun id => (tree.find id).map Node.place

/-- Where a place goes when the outermost of some places are moved under a folder whole. -/
def landing (tops : List Place) (folder place : Place) : Place :=
  match place.inits.find? fun top => top ∈ tops with
  | none => place
  | some top => folder ++ [nameOf top] ++ place.drop top.length

/-- Every entry is where it goes with the outermost selected one above it. -/
def Moved (tree : Tree) (ids : List EntryId) (folder : Place) (outcome : Outcome) : Prop :=
  outcome.failure = none ∧ ∀ id, outcome.tree.find id = (tree.find id).map fun node =>
    { node with place := landing (tree.placesOf ids) folder node.place }

end Subtrees

end Mille.Ui.Batch
