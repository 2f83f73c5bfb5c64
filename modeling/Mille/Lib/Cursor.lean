import Mille.Lib.Bincode

/-! Reading a buffer at a position that moves forward. A read past the end of the buffer is
a fault of its own, so that a reader which checks first can be shown never to make one. -/

namespace Mille.Cursor

open Bincode (Bytes)

inductive Fault (ε : Type) where
  | thrown (error : ε)
  /-- A raw read past the end of the buffer. -/
  | outside
deriving DecidableEq

/-- From a position in a buffer: a value and the position behind it, or a fault. -/
def Reader (ε α : Type) := Bytes → Nat → Except (Fault ε) (α × Nat)

namespace Reader

variable {ε α β : Type}

instance : Monad (Reader ε) where
  pure value := fun _ position => .ok (value, position)
  bind first next := fun bytes position =>
    match first bytes position with
    | .ok (value, behind) => next value bytes behind
    | .error fault => .error fault

def throw (error : ε) : Reader ε α := fun _ _ => .error (.thrown error)

def position : Reader ε Nat := fun _ position => .ok (position, position)

/-- The raw read of some bytes. -/
def raw (count : Nat) : Reader ε Bytes := fun bytes position =>
  if position + count ≤ bytes.length then .ok ((bytes.drop position).take count, position + count)
  else .error .outside

/-- Throws unless some bytes are left. -/
def ensure (count : Nat) (short : Nat → Nat → ε) : Reader ε Unit := fun bytes position =>
  if position + count > bytes.length then .error (.thrown (short position (bytes.length - position)))
  else .ok ((), position)

/-- The same read a number of times. -/
def times (element : Reader ε α) : Nat → Reader ε (List α)
  | 0 => pure []
  | count + 1 => do
    let head ← element
    let tail ← times element count
    return head :: tail

theorem bind_apply (first : Reader ε α) (next : α → Reader ε β) (bytes : Bytes) (position : Nat) :
    (first >>= next) bytes position =
      match first bytes position with
      | .ok (value, behind) => next value bytes behind
      | .error fault => .error fault := rfl

theorem bind_ok {first : Reader ε α} {next : α → Reader ε β} {bytes : Bytes} {position last : Nat} {result : β}
    (reads : (first >>= next) bytes position = .ok (result, last)) :
    ∃ value behind, first bytes position = .ok (value, behind) ∧ next value bytes behind = .ok (result, last) := by
  rw [bind_apply] at reads
  split at reads
  · next value behind found => exact ⟨value, behind, found, reads⟩
  · cases reads

end Reader

variable {ε α β : Type}

/-- A reader that stays inside its buffer, moves forward, and reads the same from a longer
buffer. -/
structure Safe (reader : Reader ε α) : Prop where
  inside : ∀ bytes position, position ≤ bytes.length → reader bytes position ≠ .error .outside
  forward : ∀ bytes position value behind, position ≤ bytes.length →
    reader bytes position = .ok (value, behind) → position ≤ behind ∧ behind ≤ bytes.length
  stable : ∀ bytes more position value behind, position ≤ bytes.length →
    reader bytes position = .ok (value, behind) → reader (bytes ++ more) position = .ok (value, behind)

namespace Safe

theorem pure (value : α) : Safe (Pure.pure value : Reader ε α) where
  inside := by
    intro bytes position _ outside
    cases outside
  forward := by
    rintro bytes position value behind bound ⟨⟩
    exact ⟨le_rfl, bound⟩
  stable := by
    rintro bytes more position value behind _ ⟨⟩
    rfl

theorem throw (error : ε) : Safe (Reader.throw error : Reader ε α) where
  inside := by
    intro bytes position _ outside
    cases outside
  forward := by
    intro bytes position value behind _ reads
    cases reads
  stable := by
    intro bytes more position value behind _ reads
    cases reads

theorem position : Safe (Reader.position : Reader ε Nat) where
  inside := by
    intro bytes position _ outside
    cases outside
  forward := by
    rintro bytes position value behind bound ⟨⟩
    exact ⟨le_rfl, bound⟩
  stable := by
    rintro bytes more position value behind _ ⟨⟩
    rfl

theorem bind {first : Reader ε α} {next : α → Reader ε β} (safe : Safe first) (continues : ∀ value, Safe (next value)) :
    Safe (first >>= next) where
  inside := by
    intro bytes position bound
    rw [Reader.bind_apply]
    cases reads : first bytes position with
    | ok found =>
      obtain ⟨value, behind⟩ := found
      exact (continues value).inside bytes behind (safe.forward bytes position value behind bound reads).2
    | error fault =>
      intro outside
      cases outside
      exact safe.inside bytes position bound reads
  forward := by
    intro bytes position result last bound reads
    obtain ⟨value, behind, first_reads, next_reads⟩ := Reader.bind_ok reads
    have moved := safe.forward bytes position value behind bound first_reads
    have moved' := (continues value).forward bytes behind result last moved.2 next_reads
    exact ⟨moved.1.trans moved'.1, moved'.2⟩
  stable := by
    intro bytes more position result last bound reads
    obtain ⟨value, behind, first_reads, next_reads⟩ := Reader.bind_ok reads
    have moved := safe.forward bytes position value behind bound first_reads
    rw [Reader.bind_apply, safe.stable bytes more position value behind bound first_reads]
    exact (continues value).stable bytes more behind result last moved.2 next_reads

theorem checked_apply (count : Nat) (short : Nat → Nat → ε) (bytes : Bytes) (position : Nat) :
    (Reader.ensure count short >>= fun _ => Reader.raw count) bytes position =
      if position + count > bytes.length then .error (.thrown (short position (bytes.length - position)))
      else .ok ((bytes.drop position).take count, position + count) := by
  rw [Reader.bind_apply, Reader.ensure]
  by_cases beyond : position + count > bytes.length
  · simp only [if_pos beyond]
  · simp only [if_neg beyond, Reader.raw, if_pos (Nat.not_lt.mp beyond)]

theorem checked (count : Nat) (short : Nat → Nat → ε) :
    Safe (Reader.ensure count short >>= fun _ => Reader.raw count) where
  inside := by
    intro bytes position _
    rw [checked_apply]
    split <;> exact fun outside => by cases outside
  forward := by
    intro bytes position value behind _ reads
    rw [checked_apply] at reads
    split at reads
    · cases reads
    · cases reads
      exact ⟨by omega, by omega⟩
  stable := by
    intro bytes more position value behind _ reads
    rw [checked_apply] at reads ⊢
    split at reads
    · cases reads
    · cases reads
      rw [if_neg (by rw [List.length_append]; omega), List.drop_append_of_le_length (by omega),
        List.take_append_of_le_length (by rw [List.length_drop]; omega)]

theorem times {element : Reader ε α} (safe : Safe element) (count : Nat) : Safe (element.times count) := by
  induction count with
  | zero => exact Safe.pure []
  | succ count ih => exact safe.bind fun head => ih.bind fun tail => Safe.pure _

end Safe

/-- The reader reads these bytes as this value, wherever they stand. -/
def Reads (reader : Reader ε α) (bytes : Bytes) (value : α) : Prop :=
  ∀ before rest, reader (before ++ bytes ++ rest) before.length = .ok (value, before.length + bytes.length)

namespace Reads

theorem pure (value : α) : Reads (Pure.pure value : Reader ε α) [] value := by
  intro before rest
  rfl

theorem bind {first : Reader ε α} {next : α → Reader ε β} {head tail : Bytes} {value : α} {result : β}
    (reads : Reads first head value) (continues : Reads (next value) tail result) :
    Reads (first >>= next) (head ++ tail) result := by
  intro before rest
  have here := reads before (tail ++ rest)
  have later := continues (before ++ head) rest
  rw [Reader.bind_apply]
  simp only [List.append_assoc, List.length_append] at here later ⊢
  rw [here]
  simp only
  rw [later, Nat.add_assoc]

theorem map {first : Reader ε α} {next : α → Reader ε β} {bytes : Bytes} {value : α} {result : β}
    (reads : Reads first bytes value) (continues : Reads (next value) [] result) :
    Reads (first >>= next) bytes result := by
  have whole := reads.bind continues
  rwa [List.append_nil] at whole

theorem build {reader : Reader ε α} {bytes : Bytes} {value : α} (reads : Reads reader bytes value) (make : α → β) :
    Reads (reader >>= fun read => Pure.pure (make read)) bytes (make value) :=
  reads.map (Reads.pure (make value))

theorem checked (bytes : Bytes) (short : Nat → Nat → ε) :
    Reads (Reader.ensure bytes.length short >>= fun _ => Reader.raw bytes.length) bytes bytes := by
  intro before rest
  rw [Safe.checked_apply, if_neg (by simp), List.append_assoc, List.drop_left' rfl, List.take_left' rfl]

end Reads

end Mille.Cursor
