import Mille.Lib.Encoding

/-! The UTF-8 decoder of the Encoding Standard. Ill-formed input becomes U+FFFD, and a
leading byte order mark is dropped unless the decoder is told to keep it. -/

namespace Mille.Utf8

/-- A character some of whose bytes are still to come, the next one between bounds. -/
structure Pending where
  needed : Nat
  codePoint : Nat
  lower : Nat
  upper : Nat

def replacement : Char := '\uFFFD'

def byteOrderMark : Char := '\uFEFF'

/-- A byte at the start of a character: what it puts out, and what is then awaited. -/
def start (byte : Nat) : List Char × Option Pending :=
  if byte < 0x80 then ([Char.ofNat byte], none)
  else if byte < 0xC2 then ([replacement], none)
  else if byte < 0xE0 then ([], some ⟨1, byte % 32, 0x80, 0xBF⟩)
  else if byte < 0xF0 then
    ([], some ⟨2, byte % 16, if byte = 0xE0 then 0xA0 else 0x80, if byte = 0xED then 0x9F else 0xBF⟩)
  else if byte < 0xF5 then
    ([], some ⟨3, byte % 8, if byte = 0xF0 then 0x90 else 0x80, if byte = 0xF4 then 0x8F else 0xBF⟩)
  else ([replacement], none)

/-- A byte that cannot continue the character is read again as a start. -/
def step : Option Pending → Nat → List Char × Option Pending
  | none, byte => start byte
  | some pending, byte =>
    if pending.lower ≤ byte ∧ byte ≤ pending.upper then
      let codePoint := pending.codePoint * 64 + byte % 64
      if pending.needed = 1 then ([Char.ofNat codePoint], none)
      else ([], some ⟨pending.needed - 1, codePoint, 0x80, 0xBF⟩)
    else (replacement :: (start byte).1, (start byte).2)

def decodeFrom : Option Pending → List UInt8 → List Char
  | none, [] => []
  | some _, [] => [replacement]
  | pending, byte :: rest => (step pending byte.toNat).1 ++ decodeFrom (step pending byte.toNat).2 rest

/-- A text without its leading byte order mark. -/
def dropMark (text : List Char) : List Char :=
  if text.head? = some byteOrderMark then text.tail else text

/-- A decoder made with these options, on a whole buffer. -/
def decode (ignoreBOM : Bool) (bytes : List UInt8) : List Char :=
  if ignoreBOM then decodeFrom none bytes else dropMark (decodeFrom none bytes)

theorem decodeFrom_cons (pending : Option Pending) (byte : UInt8) (rest : List UInt8) :
    decodeFrom pending (byte :: rest) =
      (step pending byte.toNat).1 ++ decodeFrom (step pending byte.toNat).2 rest := by
  cases pending <;> rfl

theorem step_last (codePoint lower upper byte : Nat) (within : lower ≤ byte ∧ byte ≤ upper) :
    step (some ⟨1, codePoint, lower, upper⟩) byte = ([Char.ofNat (codePoint * 64 + byte % 64)], none) := by
  simp [step, within]

theorem step_more (needed codePoint lower upper byte : Nat) (within : lower ≤ byte ∧ byte ≤ upper) :
    step (some ⟨needed + 2, codePoint, lower, upper⟩) byte =
      ([], some ⟨needed + 1, codePoint * 64 + byte % 64, 0x80, 0xBF⟩) := by
  simp [step, within]

theorem start_two {byte : Nat} (low : 0xC2 ≤ byte) (high : byte < 0xE0) :
    start byte = ([], some ⟨1, byte % 32, 0x80, 0xBF⟩) := by
  rw [start, if_neg (by omega), if_neg (by omega), if_pos high]

theorem start_three {byte : Nat} (low : 0xE0 ≤ byte) (high : byte < 0xF0) :
    start byte = ([], some ⟨2, byte % 16, if byte = 0xE0 then 0xA0 else 0x80,
      if byte = 0xED then 0x9F else 0xBF⟩) := by
  rw [start, if_neg (by omega), if_neg (by omega), if_neg (by omega), if_pos high]

theorem start_four {byte : Nat} (low : 0xF0 ≤ byte) (high : byte < 0xF5) :
    start byte = ([], some ⟨3, byte % 8, if byte = 0xF0 then 0x90 else 0x80,
      if byte = 0xF4 then 0x8F else 0xBF⟩) := by
  rw [start, if_neg (by omega), if_neg (by omega), if_neg (by omega), if_neg (by omega), if_pos high]

theorem toNat_ofNat {value : Nat} (small : value < 256) : (UInt8.ofNat value).toNat = value := by
  rw [UInt8.toNat_ofNat']
  omega

/-- An encoded character is read back. -/
theorem decodeFrom_encodeChar (char : Char) (rest : List UInt8) :
    decodeFrom none (String.utf8EncodeChar char ++ rest) = char :: decodeFrom none rest := by
  have scalar : char.val.toNat < 0xD800 ∨ 0xDFFF < char.val.toNat ∧ char.val.toNat < 0x110000 := char.valid
  have whole : Char.ofNat char.val.toNat = char := Char.ofNat_toNat char
  unfold String.utf8EncodeChar
  generalize char.val.toNat = value at scalar whole
  dsimp only
  split
  · next one =>
    rw [List.singleton_append, decodeFrom_cons, toNat_ofNat (by omega), step, start, if_pos (by omega), whole]
    rfl
  · next notOne =>
    split
    · next two =>
      have joined : (value / 64 % 32 + 192) % 32 * 64 + (value % 64 + 128) % 64 = value := by omega
      rw [List.cons_append, List.singleton_append, decodeFrom_cons, toNat_ofNat (by omega), step,
        start_two (by omega) (by omega), List.nil_append, decodeFrom_cons, toNat_ofNat (by omega),
        step_last _ _ _ _ (by omega), joined, whole]
      rfl
    · next notTwo =>
      split
      · next three =>
        have joined : ((value / 4096 % 16 + 224) % 16 * 64 + (value / 64 % 64 + 128) % 64) * 64 +
            (value % 64 + 128) % 64 = value := by omega
        rw [List.cons_append, List.cons_append, List.singleton_append, decodeFrom_cons, toNat_ofNat (by omega),
          step, start_three (by omega) (by omega), List.nil_append, decodeFrom_cons, toNat_ofNat (by omega),
          step_more _ _ _ _ _ (by constructor <;> split <;> omega), List.nil_append, decodeFrom_cons,
          toNat_ofNat (by omega), step_last _ _ _ _ (by omega), joined, whole]
        rfl
      · next four =>
        have joined : (((value / 262144 % 8 + 240) % 8 * 64 + (value / 4096 % 64 + 128) % 64) * 64 +
            (value / 64 % 64 + 128) % 64) * 64 + (value % 64 + 128) % 64 = value := by omega
        rw [List.cons_append, List.cons_append, List.cons_append, List.singleton_append, decodeFrom_cons,
          toNat_ofNat (by omega), step, start_four (by omega) (by omega), List.nil_append, decodeFrom_cons,
          toNat_ofNat (by omega), step_more _ _ _ _ _ (by constructor <;> split <;> omega), List.nil_append,
          decodeFrom_cons, toNat_ofNat (by omega), step_more _ _ _ _ _ (by omega), List.nil_append,
          decodeFrom_cons, toNat_ofNat (by omega), step_last _ _ _ _ (by omega), joined, whole]
        rfl

theorem decodeFrom_text (text : List Char) : decodeFrom none (utf8.text text) = text := by
  induction text with
  | nil => rfl
  | cons char rest ih =>
    rw [TextEncoding.text_cons]
    exact (decodeFrom_encodeChar char _).trans (congrArg (char :: ·) ih)

theorem decode_text (text : List Char) : decode false (utf8.text text) = dropMark text := by
  rw [decode, decodeFrom_text]
  rfl

theorem dropMark_eq_self (text : List Char) : dropMark text = text ↔ text.head? ≠ some byteOrderMark := by
  rw [dropMark]
  split
  · next marked =>
    obtain ⟨rest, rfl⟩ := List.head?_eq_some_iff.mp marked
    simp
  · next unmarked => simp [unmarked]

end Mille.Utf8
