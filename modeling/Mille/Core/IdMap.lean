import Mille.Lib.Bitmap

/-! `IdMap`: the bitmap-compressed radix trie behind every snapshot, five bits
of the raw id per level. -/

namespace Mille.Radix

open Bitmap

def bits : Nat := 5

def mask : UInt64 := 31

/-- Index of a key's slot in a node `level` levels above the leaves. -/
def slotOf (key : UInt64) (level : Nat) : Nat :=
  ((key >>> UInt64.ofNat (bits * level)) &&& mask).toNat

/-- Whether a trie `height` levels tall can hold a key. -/
def fits (key : UInt64) (height : Nat) : Bool :=
  bits * (height + 1) ≥ 64 || key >>> UInt64.ofNat (bits * (height + 1)) = 0

/-- Occupied slots of one node, packed in slot order. -/
structure Slots (τ : Type) where
  bitmap : BitVec 32
  items : List τ

namespace Slots

variable {τ : Type}

def single (slot : Nat) (item : τ) : Slots τ :=
  ⟨(1 : BitVec 32) <<< slot, [item]⟩

/-- `ok` with the index of an occupied slot, else `error` with its insertion index. -/
def position (slots : Slots τ) (slot : Nat) : Except Nat Nat :=
  let bit := (1 : BitVec 32) <<< slot
  let index := countOnes (slots.bitmap &&& (bit - 1))
  if slots.bitmap &&& bit ≠ 0 then .ok index else .error index

def get (slots : Slots τ) (slot : Nat) : Option τ :=
  match slots.position slot with
  | .ok index => slots.items[index]?
  | .error _ => none

/-- A write through `get_mut`. -/
def modify (slots : Slots τ) (slot : Nat) (change : τ → τ) : Slots τ :=
  match slots.position slot with
  | .ok index => { slots with items := slots.items.modify index change }
  | .error _ => slots

def insert (slots : Slots τ) (slot : Nat) (item : τ) : Option τ × Slots τ :=
  match slots.position slot with
  | .ok index => (slots.items[index]?, { slots with items := slots.items.set index item })
  | .error index => (none, ⟨slots.bitmap ||| (1 : BitVec 32) <<< slot, slots.items.insertIdx index item⟩)

def remove (slots : Slots τ) (slot : Nat) : Option τ × Slots τ :=
  match slots.position slot with
  | .ok index => (slots.items[index]?, ⟨slots.bitmap &&& ~~~((1 : BitVec 32) <<< slot), slots.items.eraseIdx index⟩)
  | .error _ => (none, slots)

def isEmpty (slots : Slots τ) : Bool :=
  slots.bitmap = 0

end Slots

inductive Node (ν : Type) where
  /-- Level 1 and up: children one level down. -/
  | branch (slots : Slots (Node ν))
  /-- Level 0: the values themselves. -/
  | leaf (slots : Slots ν)

namespace Node

variable {ν σ : Type}

def isEmpty : Node ν → Bool
  | branch slots => slots.isEmpty
  | leaf slots => slots.isEmpty

/-- A fresh chain from a level down to the leaf that holds a key. -/
def pathTo (key : UInt64) (value : ν) : Nat → Node ν
  | 0 => leaf (.single (slotOf key 0) value)
  | level + 1 => branch (.single (slotOf key (level + 1)) (pathTo key value level))

-- No branch stands at level 0, where the walks below would step under the leaves.

def get (key : UInt64) : Nat → Node ν → Option ν
  | _, leaf slots => slots.get (slotOf key 0)
  | level + 1, branch slots => (slots.get (slotOf key (level + 1))).bind (get key level)
  | 0, branch _ => none

def insert (key : UInt64) (value : ν) : Nat → Node ν → Option ν × Node ν
  | _, leaf slots =>
    let (previous, slots) := slots.insert (slotOf key 0) value
    (previous, leaf slots)
  | level + 1, branch slots =>
    let slot := slotOf key (level + 1)
    match slots.get slot with
    | none => (none, branch (slots.insert slot (pathTo key value level)).2)
    | some child =>
      let (previous, child) := insert key value level child
      (previous, branch (slots.modify slot (fun _ => child)))
  | 0, branch slots => (none, branch slots)

/-- A write through `get_mut`, with the value it finds. -/
def getMut (key : UInt64) (change : ν → ν) : Nat → Node ν → Option ν × Node ν
  | _, leaf slots => (slots.get (slotOf key 0), leaf (slots.modify (slotOf key 0) change))
  | level + 1, branch slots =>
    let slot := slotOf key (level + 1)
    match slots.get slot with
    | none => (none, branch slots)
    | some child =>
      let (found, child) := getMut key change level child
      (found, branch (slots.modify slot (fun _ => child)))
  | 0, branch slots => (none, branch slots)

def removeAt (key : UInt64) : Nat → Node ν → Option ν × Node ν
  | _, leaf slots =>
    let (removed, slots) := slots.remove (slotOf key 0)
    (removed, leaf slots)
  | level + 1, branch slots =>
    let slot := slotOf key (level + 1)
    match slots.get slot with
    | none => (none, branch slots)
    | some child =>
      let (removed, child) := removeAt key level child
      let slots := slots.modify slot (fun _ => child)
      (removed, branch (if child.isEmpty then (slots.remove slot).2 else slots))
  | 0, branch slots => (none, branch slots)

/-- Values in order, each replaced by what a stateful visitor makes of it. -/
def visitAll (visit : σ → ν → ν × σ) : List ν → σ → List ν × σ
  | [], state => ([], state)
  | value :: rest, state =>
    let (value, state) := visit state value
    let (rest, state) := visitAll visit rest state
    (value :: rest, state)

mutual

def forEachMut (visit : σ → ν → ν × σ) : Node ν → σ → Node ν × σ
  | leaf slots, state =>
    let (items, state) := visitAll visit slots.items state
    (leaf { slots with items := items }, state)
  | branch ⟨bitmap, items⟩, state =>
    let (items, state) := forEachChild visit items state
    (branch ⟨bitmap, items⟩, state)

def forEachChild (visit : σ → ν → ν × σ) : List (Node ν) → σ → List (Node ν) × σ
  | [], state => ([], state)
  | child :: rest, state =>
    let (child, state) := forEachMut visit child state
    let (rest, state) := forEachChild visit rest state
    (child :: rest, state)

end

end Node

theorem fits_top {key : UInt64} {height : Nat} (deep : 12 ≤ height) : fits key height = true := by
  unfold fits bits
  rw [Bool.or_eq_true, decide_eq_true_iff]
  left
  omega

/-- The height a first key asks for. -/
def heightFor (key : UInt64) (height : Nat) : Nat :=
  if fits key height then height else heightFor key (height + 1)
termination_by 12 - height
decreasing_by
  have short : ¬ 12 ≤ height := fun deep => ‹¬ fits key height = true› (fits_top deep)
  omega

/-- Growing upward: the old root becomes slot 0 of a taller root. -/
def grow {ν : Type} (key : UInt64) (height : Nat) (root : Node ν) : Nat × Node ν :=
  if fits key height then (height, root) else grow key (height + 1) (.branch (.single 0 root))
termination_by 12 - height
decreasing_by
  have short : ¬ 12 ≤ height := fun deep => ‹¬ fits key height = true› (fits_top deep)
  omega

structure IdMap (ν : Type) where
  root : Option (Node ν)
  /-- Levels above the leaves. -/
  height : Nat
  len : Nat

namespace IdMap

variable {ν σ : Type}

def new : IdMap ν :=
  ⟨none, 0, 0⟩

def clear (_ : IdMap ν) : IdMap ν :=
  new

def get (map : IdMap ν) (key : UInt64) : Option ν :=
  if !fits key map.height then none else map.root.bind (Node.get key map.height)

def containsKey (map : IdMap ν) (key : UInt64) : Bool :=
  (map.get key).isSome

def insert (map : IdMap ν) (key : UInt64) (value : ν) : Option ν × IdMap ν :=
  match map.root with
  | none =>
    let height := heightFor key 0
    (none, ⟨some (Node.pathTo key value height), height, 1⟩)
  | some root =>
    let (height, grown) := grow key map.height root
    let (previous, root) := grown.insert key value height
    (previous, ⟨some root, height, if previous.isNone then map.len + 1 else map.len⟩)

def getMut (map : IdMap ν) (key : UInt64) (change : ν → ν) : Option ν × IdMap ν :=
  if !map.containsKey key then (none, map)
  else
    match map.root with
    | none => (none, map)
    | some root =>
      let (found, root) := root.getMut key change map.height
      (found, { map with root := some root })

def remove (map : IdMap ν) (key : UInt64) : Option ν × IdMap ν :=
  if !map.containsKey key then (none, map)
  else
    match map.root with
    | none => (none, map)
    | some root =>
      let (removed, root) := root.removeAt key map.height
      if removed.isSome then
        if map.len - 1 = 0 then (removed, ⟨none, 0, map.len - 1⟩)
        else (removed, ⟨some root, map.height, map.len - 1⟩)
      else (removed, { map with root := some root })

/-- `entry(key).or_insert(fallback)` and a write through what it returns. -/
def orInsert (map : IdMap ν) (key : UInt64) (fallback : ν) (change : ν → ν) : Option ν × IdMap ν :=
  let map := if !map.containsKey key then (map.insert key fallback).2 else map
  map.getMut key change

def orDefault [Inhabited ν] (map : IdMap ν) (key : UInt64) (change : ν → ν) : Option ν × IdMap ν :=
  map.orInsert key default change

def forEachValueMut (map : IdMap ν) (visit : σ → ν → ν × σ) (state : σ) : IdMap ν × σ :=
  match map.root with
  | none => (map, state)
  | some root =>
    let (root, state) := root.forEachMut visit state
    ({ map with root := some root }, state)

end IdMap

structure Frame (ν : Type) where
  node : Node ν
  level : Nat
  keyPrefix : UInt64
  /-- Occupied slots not yet visited. -/
  pending : BitVec 32
  /-- Index of the next occupied slot's item. -/
  next : Nat

def Frame.new {ν : Type} (node : Node ν) (level : Nat) (keyPrefix : UInt64) : Frame ν :=
  ⟨node, level, keyPrefix, match node with | .branch slots => slots.bitmap | .leaf slots => slots.bitmap, 0⟩

/-- Rounds a frame may still take. -/
def Frame.weight {ν : Type} (frame : Frame ν) : Nat :=
  countOnes frame.pending * 34 ^ frame.level + 1

theorem Frame.weight_open {ν : Type} {frame : Frame ν} {level : Nat} (height : frame.level = level + 1)
    (some : frame.pending ≠ 0) (child : Node ν) (key : UInt64) :
    (Frame.new child level key).weight +
      { frame with pending := frame.pending &&& (frame.pending - 1), next := frame.next + 1 }.weight <
      frame.weight := by
  have children := @countOnes_le 32 (Frame.new child level key).pending
  have room : countOnes (Frame.new child level key).pending * 34 ^ level ≤ 32 * 34 ^ level :=
    Nat.mul_le_mul_right _ children
  have positive : 0 < 34 ^ level := Nat.pow_pos (by omega)
  have here : (Frame.new child level key).level = level := rfl
  unfold weight
  dsimp only
  rw [here, height, countOnes_pop some, Nat.add_mul, Nat.one_mul, Nat.pow_succ]
  omega

/-- The loop of `Iter::next` over the stack of open frames, the top at the head. -/
def advance {ν : Type} : List (Frame ν) → Option ((UInt64 × ν) × List (Frame ν))
  | [] => none
  | frame :: rest =>
    if frame.pending = 0 then advance rest
    else
      let slot := trailingZeros frame.pending
      let visited := { frame with pending := frame.pending &&& (frame.pending - 1), next := frame.next + 1 }
      let key := frame.keyPrefix ||| UInt64.ofNat slot <<< UInt64.ofNat (bits * frame.level)
      match frame.node, _height : frame.level with
      | .leaf slots, _ => slots.items[frame.next]?.map (fun value => ((key, value), visited :: rest))
      | .branch slots, level + 1 =>
        match slots.items[frame.next]? with
        | some child => advance (Frame.new child level key :: visited :: rest)
        | none => none
      | .branch _, 0 => none
termination_by stack => (stack.map Frame.weight).sum
decreasing_by
  · simp [Frame.weight]
  · have opened := Frame.weight_open _height ‹_› child (frame.keyPrefix |||
      UInt64.ofNat (trailingZeros frame.pending) <<< UInt64.ofNat (bits * frame.level))
    simp only [List.map_cons, List.sum_cons]
    omega

structure Iter (ν : Type) where
  stack : List (Frame ν)
  remaining : Nat

def IdMap.iter {ν : Type} (map : IdMap ν) : Iter ν :=
  ⟨match map.root with | none => [] | some root => [Frame.new root map.height 0], map.len⟩

def Iter.next {ν : Type} (iter : Iter ν) : Option ((UInt64 × ν) × Iter ν) :=
  (advance iter.stack).map (fun (item, stack) => (item, ⟨stack, iter.remaining - 1⟩))

/-- The first items of an iteration. -/
def Iter.collect {ν : Type} : Nat → Iter ν → List (UInt64 × ν)
  | 0, _ => []
  | count + 1, iter =>
    match iter.next with
    | none => []
    | some (item, iter) => item :: iter.collect count

end Mille.Radix
