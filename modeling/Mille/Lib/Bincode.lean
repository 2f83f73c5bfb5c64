import Mathlib

/-! The standard bincode format: little-endian variable-length integers, sequences
as a length and their elements, and a reader with a budget of claimed bytes.
`Reads` says exactly what a decoder does with an encoded value. -/

namespace Mille.Bincode

abbrev Bytes := List UInt8

/-- A value in a fixed number of little-endian bytes. -/
def leBytes : Nat → Nat → Bytes
  | 0, _ => []
  | width + 1, value => UInt8.ofNat (value % 256) :: leBytes width (value / 256)

def leValue : Bytes → Nat
  | [] => 0
  | byte :: rest => byte.toNat + 256 * leValue rest

@[simp] theorem length_leBytes (width value : Nat) : (leBytes width value).length = width := by
  induction width generalizing value with
  | zero => rfl
  | succ width ih => simp [leBytes, ih]

theorem leValue_leBytes (width value : Nat) (fits : value < 256 ^ width) :
    leValue (leBytes width value) = value := by
  induction width generalizing value with
  | zero => simp_all [leBytes, leValue]
  | succ width ih =>
    have smaller : value / 256 < 256 ^ width := by
      rw [Nat.div_lt_iff_lt_mul (by decide)]
      rwa [pow_succ] at fits
    have low : (UInt8.ofNat (value % 256)).toNat = value % 256 := by
      rw [UInt8.toNat_ofNat']
      omega
    rw [leBytes, leValue, ih _ smaller, low]
    omega

/-- An unsigned integer: one byte, or a marker and two, four or eight bytes. -/
def encodeUInt (value : Nat) : Bytes :=
  if value < 251 then [UInt8.ofNat value]
  else if value < 2 ^ 16 then 251 :: leBytes 2 value
  else if value < 2 ^ 32 then 252 :: leBytes 4 value
  else 253 :: leBytes 8 value

theorem length_encodeUInt_le (value : Nat) : (encodeUInt value).length ≤ 9 := by
  unfold encodeUInt
  repeat' split
  all_goals simp

theorem length_encodeUInt_le_five {value : Nat} (small : value < 2 ^ 32) :
    (encodeUInt value).length ≤ 5 := by
  unfold encodeUInt
  repeat' split
  all_goals simp_all

theorem length_encodeUInt_le_three {value : Nat} (small : value < 2 ^ 16) :
    (encodeUInt value).length ≤ 3 := by
  unfold encodeUInt
  repeat' split
  all_goals simp_all

/-- A sequence: its length, then its elements. -/
def encodeSeq {α : Type} (element : α → Bytes) (values : List α) : Bytes :=
  encodeUInt values.length ++ values.flatMap element

/-- The bytes left to read and how many may still be claimed. -/
structure Input where
  bytes : Bytes
  left : Nat

/-- A decoder fails, or returns a value and what is left. -/
abbrev Decoder (α : Type) := Input → Option (α × Input)

namespace Decoder

variable {α β : Type}

def pure (value : α) : Decoder α := fun input => some (value, input)

def bind (first : Decoder α) (next : α → Decoder β) : Decoder β := fun input =>
  match first input with
  | some (value, rest) => next value rest
  | none => none

/-- Claims bytes against the limit before they are read. -/
def claim (count : Nat) : Decoder Unit := fun input =>
  if count ≤ input.left then some ((), { input with left := input.left - count }) else none

/-- Reads a number of raw bytes. -/
def take (count : Nat) : Decoder Bytes := fun input =>
  if count ≤ input.bytes.length then
    some (input.bytes.take count, { input with bytes := input.bytes.drop count })
  else none

def byte : Decoder UInt8 :=
  bind (claim 1) fun _ input =>
    match input.bytes with
    | head :: rest => some (head, { input with bytes := rest })
    | [] => none

/-- An integer of at most `size` bytes, which is what it claims. -/
def uint (size : Nat) : Decoder Nat :=
  bind (claim size) fun _ input =>
    match input.bytes with
    | [] => none
    | head :: rest =>
      let input := { input with bytes := rest }
      if head.toNat < 251 then some (head.toNat, input)
      else if head = 251 then bind (take 2) (fun bytes => pure (leValue bytes)) input
      else if head = 252 then bind (take 4) (fun bytes => pure (leValue bytes)) input
      else if head = 253 ∧ 8 ≤ size then bind (take 8) (fun bytes => pure (leValue bytes)) input
      else none

def many (element : Decoder α) : Nat → Decoder (List α)
  | 0 => pure []
  | count + 1 => bind element fun head => bind (many element count) fun tail => pure (head :: tail)

def seq (element : Decoder α) : Decoder (List α) :=
  bind (uint 8) fun count => many element count

end Decoder

/-- A decoder reads these bytes as this value and claims `cost` for them; it fails
when that is more than is left. -/
def Reads {α : Type} (decoder : Decoder α) (bytes : Bytes) (value : α) (cost : Nat) : Prop :=
  ∀ rest left, decoder ⟨bytes ++ rest, left⟩ =
    if cost ≤ left then some (value, ⟨rest, left - cost⟩) else none

namespace Reads

variable {α β : Type}

theorem pure (value : α) : Reads (Decoder.pure value) [] value 0 := by
  intro rest left
  simp [Decoder.pure]

theorem bind {first : Decoder α} {next : α → Decoder β} {head tail : Bytes} {value : α} {result : β}
    {firstCost nextCost : Nat} (reads : Reads first head value firstCost)
    (continues : Reads (next value) tail result nextCost) :
    Reads (Decoder.bind first next) (head ++ tail) result (firstCost + nextCost) := by
  intro rest left
  unfold Decoder.bind
  rw [List.append_assoc, reads]
  by_cases enough : firstCost ≤ left
  · rw [if_pos enough]
    dsimp only
    rw [continues]
    by_cases more : nextCost ≤ left - firstCost
    · rw [if_pos more, if_pos (by omega), Nat.sub_sub]
    · rw [if_neg more, if_neg (by omega)]
  · rw [if_neg enough, if_neg (by omega)]

theorem build {first : Decoder α} {bytes : Bytes} {value : α} {cost : Nat}
    (reads : Reads first bytes value cost) (make : α → β) :
    Reads (Decoder.bind first fun read => Decoder.pure (make read)) bytes (make value) cost := by
  intro rest left
  unfold Decoder.bind
  rw [reads]
  by_cases enough : cost ≤ left
  · simp [enough, Decoder.pure]
  · simp [enough]

theorem byte (value : UInt8) : Reads Decoder.byte [value] value 1 := by
  intro rest left
  unfold Decoder.byte Decoder.bind Decoder.claim
  by_cases enough : 1 ≤ left <;> simp [enough]

private theorem take_leBytes (width value : Nat) (rest : Bytes) (left : Nat)
    (fits : value < 256 ^ width) :
    Decoder.bind (Decoder.take width) (fun bytes => Decoder.pure (leValue bytes))
      ⟨leBytes width value ++ rest, left⟩ = some (value, ⟨rest, left⟩) := by
  unfold Decoder.bind Decoder.take
  rw [if_pos (by simp)]
  simp [List.take_left', List.drop_left', Decoder.pure, leValue_leBytes width value fits]

private theorem uint_cons (size left : Nat) (head : UInt8) (rest : Bytes) (enough : size ≤ left) :
    Decoder.uint size ⟨head :: rest, left⟩ =
      if head.toNat < 251 then some (head.toNat, ⟨rest, left - size⟩)
      else if head = 251 then
        Decoder.bind (Decoder.take 2) (fun bytes => Decoder.pure (leValue bytes)) ⟨rest, left - size⟩
      else if head = 252 then
        Decoder.bind (Decoder.take 4) (fun bytes => Decoder.pure (leValue bytes)) ⟨rest, left - size⟩
      else if head = 253 ∧ 8 ≤ size then
        Decoder.bind (Decoder.take 8) (fun bytes => Decoder.pure (leValue bytes)) ⟨rest, left - size⟩
      else none := by
  conv_lhs => unfold Decoder.uint Decoder.bind Decoder.claim
  simp only [enough, ↓reduceIte]
  rfl

theorem uint {size value : Nat} (fits : value < 2 ^ 32 ∨ (8 ≤ size ∧ value < 2 ^ 64)) :
    Reads (Decoder.uint size) (encodeUInt value) value size := by
  intro rest left
  by_cases enough : size ≤ left
  · rw [if_pos enough]
    by_cases tiny : value < 251
    · have low : (UInt8.ofNat value).toNat = value := by
        rw [UInt8.toNat_ofNat']
        omega
      rw [encodeUInt, if_pos tiny, List.singleton_append, uint_cons _ _ _ _ enough, low, if_pos tiny]
    · by_cases short : value < 2 ^ 16
      · rw [encodeUInt, if_neg tiny, if_pos short, List.cons_append, uint_cons _ _ _ _ enough,
          if_neg (by decide), if_pos rfl]
        exact take_leBytes 2 value rest (left - size) (by omega)
      · by_cases middle : value < 2 ^ 32
        · rw [encodeUInt, if_neg tiny, if_neg short, if_pos middle, List.cons_append,
            uint_cons _ _ _ _ enough, if_neg (by decide), if_neg (by decide), if_pos rfl]
          exact take_leBytes 4 value rest (left - size) (by omega)
        · obtain ⟨wide, bound⟩ : 8 ≤ size ∧ value < 2 ^ 64 := fits.resolve_left middle
          rw [encodeUInt, if_neg tiny, if_neg short, if_neg middle, List.cons_append,
            uint_cons _ _ _ _ enough, if_neg (by decide), if_neg (by decide), if_neg (by decide),
            if_pos ⟨rfl, wide⟩]
          exact take_leBytes 8 value rest (left - size) (by omega)
  · rw [if_neg enough]
    unfold Decoder.uint Decoder.bind Decoder.claim
    simp only [enough, ↓reduceIte]

theorem many {element : Decoder α} {encode : α → Bytes} {cost : Nat} (values : List α)
    (reads : ∀ value ∈ values, Reads element (encode value) value cost) :
    Reads (Decoder.many element values.length) (values.flatMap encode) values
      (cost * values.length) := by
  induction values with
  | nil => exact Reads.pure []
  | cons head tail ih =>
    have rest := ih fun value member => reads value (List.mem_cons_of_mem _ member)
    have first := reads head List.mem_cons_self
    have continues : Reads (Decoder.bind (Decoder.many element tail.length)
        fun tail => Decoder.pure (head :: tail)) (tail.flatMap encode ++ []) (head :: tail)
        (cost * tail.length + 0) := rest.bind (Reads.pure (head :: tail))
    have costs : cost * (tail.length + 1) = cost + (cost * tail.length + 0) := by ring
    rw [List.append_nil] at continues
    rw [List.flatMap_cons, List.length_cons, costs]
    exact first.bind continues

theorem seq {element : Decoder α} {encode : α → Bytes} {cost : Nat} (values : List α)
    (short : values.length < 2 ^ 64)
    (reads : ∀ value ∈ values, Reads element (encode value) value cost) :
    Reads (Decoder.seq element) (encodeSeq encode values) values (8 + cost * values.length) :=
  (Reads.uint (.inr ⟨le_rfl, short⟩)).bind (Reads.many values reads)

end Reads

end Mille.Bincode
