import Mathlib

/-! Row lookup through a windowed projection: bounded reads with a window cache and a
full-list cache, and the search for an id outwards from a hint. -/

namespace Mille.Ui

variable {Row Id : Type}

/-- What a projection asks of a snapshot. Not every snapshot lists ids or finds an index. -/
structure Snapshot (Row Id : Type) where
  visibleRowCount : Int
  visibleRows : Int → Int → List Row
  visibleRowIds : Option (Int → Int → List Id)
  visibleRowIndex : Option (Id → Option Int)

structure CachedWindow (Row : Type) where
  offset : Int
  limit : Int
  rows : List Row

structure Projection (Row : Type) where
  cachedWindow : Option (CachedWindow Row)
  cachedAllRows : Option (List Row)

/-- The rows of a list from an offset on, at most as many as the limit. -/
def slice (rows : List Row) (offset limit : Int) : List Row := (rows.drop offset.toNat).take limit.toNat

def chunkSize : Int := 256

/-- `findIndex`: -1 when there is none. -/
def findIndex [DecidableEq Id] (rowId : Row → Id) (rows : List Row) (id : Id) : Int :=
  match rows.findIdx? (fun row => rowId row = id) with
  | some index => index
  | none => -1

namespace Projection

section Reads

variable (snapshot : Snapshot Row Id) (projection : Projection Row)

def initial : Projection Row :=
  ⟨none, if snapshot.visibleRowCount = 0 then some [] else none⟩

def safeOffset (offset : Int) : Int := max 0 (min snapshot.visibleRowCount offset)

def safeLimit (offset limit : Int) : Int :=
  max 0 (min (snapshot.visibleRowCount - safeOffset snapshot offset) limit)

def readRows (offset limit : Int) : List Row × Projection Row :=
  let start := safeOffset snapshot offset
  let count := safeLimit snapshot offset limit
  if count = 0 then ([], projection)
  else
    match projection.cachedAllRows with
    | some rows => (slice rows start count, projection)
    | none =>
      let fresh :=
        let rows := snapshot.visibleRows start count
        (rows, { projection with cachedWindow := some ⟨start, count, rows⟩ })
      match projection.cachedWindow with
      | some window =>
        if window.offset = start ∧ window.limit = count then (window.rows, projection) else fresh
      | none => fresh

def readIds (rowId : Row → Id) (offset limit : Int) : List Id × Projection Row :=
  let start := safeOffset snapshot offset
  let count := safeLimit snapshot offset limit
  if count = 0 then ([], projection)
  else
    match projection.cachedAllRows with
    | some rows => ((slice rows start count).map rowId, projection)
    | none =>
      match snapshot.visibleRowIds with
      | some read => (read start count, projection)
      | none =>
        let read := projection.readRows snapshot start count
        (read.1.map rowId, read.2)

def readAllRows : List Row × Projection Row :=
  match projection.cachedAllRows with
  | some rows => (rows, projection)
  | none =>
    let rows := snapshot.visibleRows 0 snapshot.visibleRowCount
    (rows, { projection with cachedAllRows := some rows })

end Reads

/-- Where a search stands: the chunks probed, by start, and the rows they were charged. -/
structure Search (Row : Type) where
  projection : Projection Row
  visited : List Int
  probedRows : Int

section Finding

variable [DecidableEq Id] (rowId : Row → Id) (snapshot : Snapshot Row Id) (id : Id)

def probe (maxProbeRows rawStart : Int) (search : Search Row) : Int × Search Row :=
  let start := max 0 (min (snapshot.visibleRowCount - 1) rawStart)
  if start ∈ search.visited ∨ search.probedRows ≥ maxProbeRows then (-1, search)
  else
    let limit := min chunkSize
      (min (snapshot.visibleRowCount - start) (maxProbeRows - search.probedRows))
    let read := search.projection.readRows snapshot start limit
    let localIndex := findIndex rowId read.1 id
    (if localIndex = -1 then -1 else start + localIndex,
      ⟨read.2, start :: search.visited, search.probedRows + limit⟩)

/-- The rounds of the search, one chunk up and one chunk down each. The bound only makes
the recursion structural: a round further out than every row is the last one. -/
def rounds (maxProbeRows baseStart : Int) : Nat → Int → Search Row → Int × Search Row
  | 0, _, search => (-1, search)
  | bound + 1, distance, search =>
    if search.probedRows < maxProbeRows then
      let up := probe rowId snapshot id maxProbeRows (baseStart + distance) search
      if up.1 ≠ -1 then up
      else
        let down := probe rowId snapshot id maxProbeRows (baseStart - distance) up.2
        if down.1 ≠ -1 then down
        else if baseStart + distance ≥ snapshot.visibleRowCount ∧ baseStart - distance ≤ 0 then
          (-1, down.2)
        else rounds maxProbeRows baseStart bound (distance + chunkSize) down.2
    else (-1, search)

/-- Where the first chunk starts: around the hint, inside the rows. -/
def baseStart (known hintIndex : Int) : Int :=
  let hint := max 0 (min (known - 1) hintIndex)
  max 0 (min (known - chunkSize) (hint - chunkSize / 2))

def findRowIndex (projection : Projection Row) (hintIndex maxProbeRows : Int) : Int × Projection Row :=
  if snapshot.visibleRowCount = 0 ∨ maxProbeRows ≤ 0 then (-1, projection)
  else
    match projection.cachedAllRows with
    | some rows => (findIndex rowId rows id, projection)
    | none =>
      let start := baseStart snapshot.visibleRowCount hintIndex
      let first := probe rowId snapshot id maxProbeRows start ⟨projection, [], 0⟩
      if first.1 ≠ -1 then (first.1, first.2.projection)
      else
        let last := rounds rowId snapshot id maxProbeRows start snapshot.visibleRowCount.toNat
          chunkSize first.2
        (last.1, last.2.projection)

def findExactRowIndex (projection : Projection Row) (hintIndex : Int) : Int × Projection Row :=
  match projection.cachedAllRows with
  | some rows => (findIndex rowId rows id, projection)
  | none =>
    match snapshot.visibleRowIndex with
    | some find => ((find id).getD (-1), projection)
    | none => findRowIndex rowId snapshot id projection hintIndex snapshot.visibleRowCount

end Finding

end Projection

/-- One call of a projection's methods. -/
inductive ProjectionCall (Id : Type) where
  | readRows (offset limit : Int)
  | readIds (offset limit : Int)
  | readAllRows
  | findRowIndex (id : Id) (hintIndex maxProbeRows : Int)
  | findExactRowIndex (id : Id) (hintIndex : Int)

/-- The caches after a call. -/
def Projection.after [DecidableEq Id] (rowId : Row → Id) (snapshot : Snapshot Row Id)
    (projection : Projection Row) : ProjectionCall Id → Projection Row
  | .readRows offset limit => (projection.readRows snapshot offset limit).2
  | .readIds offset limit => (projection.readIds snapshot rowId offset limit).2
  | .readAllRows => (projection.readAllRows snapshot).2
  | .findRowIndex id hintIndex maxProbeRows =>
    (Projection.findRowIndex rowId snapshot id projection hintIndex maxProbeRows).2
  | .findExactRowIndex id hintIndex =>
    (Projection.findExactRowIndex rowId snapshot id projection hintIndex).2

/-- The snapshot's reads describe one list of rows with distinct ids. -/
structure Snapshot.Describes [DecidableEq Id] (rowId : Row → Id) (snapshot : Snapshot Row Id)
    (rows : List Row) : Prop where
  count : snapshot.visibleRowCount = rows.length
  reads : ∀ offset limit : Int, 0 ≤ offset → 0 ≤ limit → offset + limit ≤ rows.length →
    snapshot.visibleRows offset limit = slice rows offset limit
  ids : ∀ read, snapshot.visibleRowIds = some read → ∀ offset limit : Int, 0 ≤ offset →
    0 ≤ limit → offset + limit ≤ rows.length → read offset limit = (slice rows offset limit).map rowId
  index : ∀ find, snapshot.visibleRowIndex = some find → ∀ id,
    find id = (rows.findIdx? (fun row => rowId row = id)).map Int.ofNat
  distinct : (rows.map rowId).Nodup

end Mille.Ui
