import Mille.Core.Snapshot

/-! What a snapshot shows: visibility filtering, compacted folder chains and
nested files, and the viewport queries that flatten the result into rows. -/

namespace Mille

namespace FileNestingRule

/-- What the wildcard of a parent pattern matches in a name; `toLowercase` is Unicode's case mapping. -/
def capture (toLowercase : String → String) (rule : FileNestingRule) (name : String) (caseSensitive : Bool) :
    Option String :=
  let fold := if caseSensitive then id else toLowercase
  let comparable := (fold name).toList
  let parentPrefix := (fold rule.parentPrefix).toList
  let parentSuffix := (fold rule.parentSuffix).toList
  if !rule.hasWildcard then if comparable = parentPrefix then some "" else none
  else if !parentPrefix.isPrefixOf comparable || !parentSuffix.isSuffixOf comparable ||
      comparable.length < parentPrefix.length + parentSuffix.length then none
  else
    let stop := comparable.length - parentSuffix.length
    some (String.ofList ((comparable.take stop).drop parentPrefix.length))

def childNames (rule : FileNestingRule) (capture : String) : List String :=
  rule.childTemplates.map (fun template => template.replace "$\x7bcapture\x7d" capture)

end FileNestingRule

namespace FileNestingPolicy

def isEmpty (policy : FileNestingPolicy) : Bool :=
  policy.rules.isEmpty

def nameKey (toLowercase : String → String) (policy : FileNestingPolicy) (name : String) : String :=
  if policy.caseSensitive then name else toLowercase name

end FileNestingPolicy

namespace StoreSnapshot

/-- Whether an entry has a row of its own where its parent is shown. -/
def shows (snapshot : StoreSnapshot) (includeIgnored : Bool) (entry : Entry) : Bool :=
  includeIgnored || snapshot.visibility.includes entry

/-- The live ids of a list whose entries are shown. -/
def shown (snapshot : StoreSnapshot) (includeIgnored : Bool) (ids : List EntryId) : List EntryId :=
  ids.filter (fun id => snapshot.entries[id]?.any (snapshot.shows includeIgnored))

def directoryChildrenLoaded (snapshot : StoreSnapshot) (id : EntryId) : Bool :=
  id ∈ snapshot.loadedDirectories

/-- Names of the compacted folders above a cursor, in front of the ones already there. -/
def leadingSegments (snapshot : StoreSnapshot) (includeIgnored : Bool) :
    Nat → EntryId → List String → List String
  | 0, _, segments => segments
  | hops + 1, cursor, segments =>
    match snapshot.entries[cursor]?.bind (·.parentId) with
    | none => segments
    | some parentId =>
      match snapshot.entries[parentId]? with
      | none => segments
      | some parent =>
        if parent.parentId.isNone || parent.kind ≠ .directory then segments
        else if snapshot.shown includeIgnored (snapshot.childrenOf parentId) ≠ [cursor] then segments
        else leadingSegments snapshot includeIgnored hops parentId (parent.name :: segments)

/-- The folder a chain of only children ends in, with the names on the way. -/
def trailingSegments (snapshot : StoreSnapshot) (includeIgnored : Bool) :
    Nat → EntryId → List String → EntryId × List String
  | 0, leaf, segments => (leaf, segments)
  | hops + 1, leaf, segments =>
    match snapshot.children[leaf]? with
    | none => (leaf, segments)
    | some children =>
      match snapshot.shown includeIgnored children with
      | [onlyChild] =>
        match snapshot.entries[onlyChild]? with
        | none => (leaf, segments)
        | some child =>
          if child.kind ≠ .directory then (leaf, segments)
          else trailingSegments snapshot includeIgnored hops onlyChild (segments ++ [child.name])
      | _ => (leaf, segments)

def projectedEntry (snapshot : StoreSnapshot) (id : EntryId) (includeIgnored : Bool) :
    EntryId × Option (List String) :=
  if !snapshot.compactFolders then (id, none)
  else
    match snapshot.entries[id]? with
    | none => (id, none)
    | some start =>
      if start.parentId.isNone || start.kind ≠ .directory then (id, none)
      else
        let leading := snapshot.leadingSegments includeIgnored 256 id [start.name]
        let (leaf, segments) := snapshot.trailingSegments includeIgnored 256 id leading
        if leaf = id && segments.length = 1 then (id, none) else (leaf, some segments)

end StoreSnapshot

structure NestingPlan where
  roots : List EntryId
  nested : IdMap (List EntryId)

/-- The sets a plan is built from, one parent candidate after the other. -/
structure Nesting where
  claimed : Finset EntryId
  parents : Finset EntryId
  nested : IdMap (List EntryId)

/-- A projection of one snapshot; its memoized plans are left out. -/
structure ProjectionContext where
  snapshot : StoreSnapshot
  includeIgnored : Bool
  toLowercase : String → String

namespace ProjectionContext

def visibleChildren (context : ProjectionContext) (parentId : EntryId) : List EntryId :=
  context.snapshot.shown context.includeIgnored (context.snapshot.childrenOf parentId)

def files (context : ProjectionContext) (ids : List EntryId) : List EntryId :=
  ids.filter (fun id => context.snapshot.entries[id]?.any (·.kind = .file))

/-- The key an id's name has in the name index. -/
def keyOf (context : ProjectionContext) (id : EntryId) : Option String :=
  context.snapshot.entries[id]?.map (fun entry =>
    context.snapshot.fileNesting.nameKey context.toLowercase entry.name)

/-- Files that the rules name as children of a parent candidate, rule by rule. -/
def matched (context : ProjectionContext) (files : List EntryId) (parent : Entry) : List EntryId :=
  let policy := context.snapshot.fileNesting
  policy.rules.flatMap (fun rule =>
    match rule.capture context.toLowercase parent.name policy.caseSensitive with
    | none => []
    | some capture => (rule.childNames capture).flatMap (fun childName =>
      files.filter (fun id => context.keyOf id = some (policy.nameKey context.toLowercase childName))))

/-- One match becomes a child unless it is taken, a parent or the candidate itself. -/
def claim (parents : Finset EntryId) (candidate : EntryId) (taken : Finset EntryId × List EntryId)
    (childId : EntryId) : Finset EntryId × List EntryId :=
  if childId = candidate ∨ childId ∈ taken.1 ∨ childId ∈ parents then taken
  else (insert childId taken.1, taken.2 ++ [childId])

/-- Children in the order of their files. -/
def sortByRank (files children : List EntryId) : List EntryId :=
  children.mergeSort (fun left right => files.idxOf left ≤ files.idxOf right)

def nest (context : ProjectionContext) (files : List EntryId) (nesting : Nesting) (candidate : EntryId) : Nesting :=
  if candidate ∈ nesting.claimed then nesting
  else
    match context.snapshot.entries[candidate]? with
    | none => nesting
    | some parent =>
      let (claimed, children) :=
        (context.matched files parent).foldl (claim nesting.parents candidate) (nesting.claimed, [])
      if children.isEmpty then { nesting with claimed := claimed }
      else ⟨claimed, insert candidate nesting.parents, nesting.nested.insert candidate (sortByRank files children)⟩

/-- `ensure_plan` without the memo. -/
def plan (context : ProjectionContext) (parentId : EntryId) : NestingPlan :=
  let visible := context.visibleChildren parentId
  if context.snapshot.fileNesting.isEmpty then ⟨visible, ∅⟩
  else
    let files := context.files visible
    let nesting := files.foldl (context.nest files) ⟨∅, ∅, ∅⟩
    ⟨visible.filter (· ∉ nesting.claimed), nesting.nested⟩

def childrenOf (context : ProjectionContext) (id : EntryId) : List EntryId :=
  match context.snapshot.entries[id]? with
  | none => []
  | some entry =>
    if entry.kind = .file then
      match entry.parentId with
      | none => []
      | some parentId => (context.plan parentId).nested.getD id []
    else (context.plan id).roots.map (fun childId =>
      (context.snapshot.projectedEntry childId context.includeIgnored).1)

/-- A folder whose listing has not completed. -/
def awaitsListing (context : ProjectionContext) (id : EntryId) : Bool :=
  context.snapshot.entries[id]?.any (fun entry =>
    !context.snapshot.directoryChildrenLoaded id && entry.isFolder)

def hasChildren (context : ProjectionContext) (id : EntryId) : Bool :=
  !(context.childrenOf id).isEmpty || context.awaitsListing id

end ProjectionContext

structure VisibleRowOut where
  id : EntryId
  depth : UInt16
  hasChildren : Bool
  isExpanded : Bool
  pathSegments : Option (List String)
  deriving DecidableEq

structure VisibleRowCount where
  known : UInt32
  pendingExpansions : List EntryId
  deriving DecidableEq

structure VisibleRowsQuery where
  expanded : Finset EntryId
  offset : UInt32
  limit : UInt32
  includeIgnored : Bool

def saturatingAdd16 (left right : UInt16) : UInt16 :=
  if left + right < left then 0xFFFF else left + right

namespace ProjectionContext

/-! The stack loops. `fuel` bounds their rounds and `none` stands for a loop
that has not ended; the top of the stack is at the head. -/

def countSubtree (context : ProjectionContext) (expanded : Finset EntryId) :
    Nat → List EntryId → UInt32 → List EntryId → Option (UInt32 × List EntryId)
  | _, [], known, pending => some (known, pending)
  | 0, _ :: _, _, _ => none
  | fuel + 1, id :: stack, known, pending =>
    match context.snapshot.entries[id]? with
    | none => countSubtree context expanded fuel stack known pending
    | some entry =>
      if context.snapshot.shows context.includeIgnored entry then
        let projectedId := (context.snapshot.projectedEntry id context.includeIgnored).1
        let known := saturatingAdd32 known 1
        if projectedId ∈ expanded then
          let children := context.childrenOf projectedId
          if !children.isEmpty then countSubtree context expanded fuel (children ++ stack) known pending
          else if context.awaitsListing projectedId then
            countSubtree context expanded fuel stack known (pending ++ [projectedId])
          else countSubtree context expanded fuel stack known pending
        else countSubtree context expanded fuel stack known pending
      else countSubtree context expanded fuel stack known pending

def rowIndexFrom (context : ProjectionContext) (target : EntryId) (expanded : Finset EntryId) :
    Nat → List EntryId → UInt32 → Option (Option UInt32)
  | _, [], _ => some none
  | 0, _ :: _, _ => none
  | fuel + 1, id :: stack, index =>
    match context.snapshot.entries[id]? with
    | none => rowIndexFrom context target expanded fuel stack index
    | some entry =>
      if !context.snapshot.shows context.includeIgnored entry then
        rowIndexFrom context target expanded fuel stack index
      else
        let projectedId := (context.snapshot.projectedEntry id context.includeIgnored).1
        if projectedId = target then some (some index)
        else
          let index := saturatingAdd32 index 1
          if projectedId ∈ expanded then
            rowIndexFrom context target expanded fuel (context.childrenOf projectedId ++ stack) index
          else rowIndexFrom context target expanded fuel stack index

def rowIdsFrom (context : ProjectionContext) (expanded : Finset EntryId) (offset : UInt32) (limit : Nat) :
    Nat → List EntryId → UInt32 → List EntryId → Option (List EntryId)
  | _, [], _, out => some out
  | 0, _ :: _, _, _ => none
  | fuel + 1, id :: stack, skipped, out =>
    match context.snapshot.entries[id]? with
    | none => rowIdsFrom context expanded offset limit fuel stack skipped out
    | some entry =>
      if context.snapshot.shows context.includeIgnored entry then
        let projectedId := (context.snapshot.projectedEntry id context.includeIgnored).1
        let below := if projectedId ∈ expanded then context.childrenOf projectedId else []
        if skipped < offset then
          rowIdsFrom context expanded offset limit fuel (below ++ stack) (skipped + 1) out
        else if (out ++ [projectedId]).length ≥ limit then some (out ++ [projectedId])
        else rowIdsFrom context expanded offset limit fuel (below ++ stack) skipped (out ++ [projectedId])
      else rowIdsFrom context expanded offset limit fuel stack skipped out

/-- The loop of `visible_rows`; without a limit it runs to the last row. -/
def rowsFrom (context : ProjectionContext) (expanded : Finset EntryId) (offset : UInt32) (limit : Option Nat) :
    Nat → List (EntryId × UInt16) → UInt32 → List VisibleRowOut → Option (List VisibleRowOut)
  | _, [], _, out => some out
  | 0, _ :: _, _, _ => none
  | fuel + 1, (id, depth) :: stack, skipped, out =>
    match context.snapshot.entries[id]? with
    | none => rowsFrom context expanded offset limit fuel stack skipped out
    | some entry =>
      if context.snapshot.shows context.includeIgnored entry then
        let (projectedId, pathSegments) := context.snapshot.projectedEntry id context.includeIgnored
        let below := if projectedId ∈ expanded then
          (context.childrenOf projectedId).map (fun child => (child, saturatingAdd16 depth 1)) else []
        if skipped < offset then
          rowsFrom context expanded offset limit fuel (below ++ stack) (skipped + 1) out
        else
          let row : VisibleRowOut :=
            ⟨projectedId, depth, context.hasChildren projectedId, projectedId ∈ expanded, pathSegments⟩
          if limit.any ((out ++ [row]).length ≥ ·) then some (out ++ [row])
          else rowsFrom context expanded offset limit fuel (below ++ stack) skipped (out ++ [row])
      else rowsFrom context expanded offset limit fuel stack skipped out

end ProjectionContext

namespace StoreSnapshot

variable (toLowercase : String → String) (fuel : Nat)

def projectedChildrenOf (snapshot : StoreSnapshot) (id : EntryId) (includeIgnored : Bool) : List EntryId :=
  (ProjectionContext.mk snapshot includeIgnored toLowercase).childrenOf id

def visibleRowCount (snapshot : StoreSnapshot) (expanded : Finset EntryId) (includeIgnored : Bool) :
    Option VisibleRowCount :=
  (snapshot.roots.foldlM (fun (counted : UInt32 × List EntryId) root =>
    (ProjectionContext.mk snapshot includeIgnored toLowercase).countSubtree expanded fuel [root]
      counted.1 counted.2) (0, [])).map
    (fun counted => ⟨counted.1, counted.2⟩)

def visibleRowIndex (snapshot : StoreSnapshot) (target : EntryId) (expanded : Finset EntryId)
    (includeIgnored : Bool) : Option (Option UInt32) :=
  (ProjectionContext.mk snapshot includeIgnored toLowercase).rowIndexFrom target expanded fuel snapshot.roots 0

def visibleRowIds (snapshot : StoreSnapshot) (query : VisibleRowsQuery) : Option (List EntryId) :=
  if query.limit = 0 then some []
  else (ProjectionContext.mk snapshot query.includeIgnored toLowercase).rowIdsFrom query.expanded query.offset
    query.limit.toNat fuel snapshot.roots 0 []

def visibleRows (snapshot : StoreSnapshot) (query : VisibleRowsQuery) : Option (List VisibleRowOut) :=
  if query.limit = 0 then some []
  else (ProjectionContext.mk snapshot query.includeIgnored toLowercase).rowsFrom query.expanded query.offset
    (some query.limit.toNat) fuel (snapshot.roots.map (fun root => (root, 0))) 0 []

/-- `visible_rows` from the first row, without a limit. -/
def allVisibleRows (snapshot : StoreSnapshot) (expanded : Finset EntryId) (includeIgnored : Bool) :
    Option (List VisibleRowOut) :=
  (ProjectionContext.mk snapshot includeIgnored toLowercase).rowsFrom expanded 0 none fuel
    (snapshot.roots.map (fun root => (root, 0))) 0 []

end StoreSnapshot

end Mille
