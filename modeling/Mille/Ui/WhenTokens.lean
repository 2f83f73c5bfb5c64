import Mathlib
import Mille.Ui.When

/-! What a text's tokens are: white space between them means nothing, and a name goes on as
long as it can. -/

namespace Mille.Ui.When

/-- The tokens spelled by marks. -/
def marks : List Token := [.and, .or, .not, .lparen, .rparen]

def Token.spelling : Token → Text
  | .id value => value
  | .and => [unit '&', unit '&']
  | .or => [unit '|', unit '|']
  | .not => [unit '!']
  | .lparen => [unit '(']
  | .rparen => [unit ')']

/-- A text with its tokens. -/
inductive Lexes : Text → List Token → Prop where
  | done : Lexes [] []
  | space {ch : UInt16} {rest : Text} {tokens : List Token} (blank : isSpace ch)
      (lexes : Lexes rest tokens) : Lexes (ch :: rest) tokens
  | mark {token : Token} {rest : Text} {tokens : List Token} (mark : token ∈ marks)
      (lexes : Lexes rest tokens) : Lexes (token.spelling ++ rest) (token :: tokens)
  | name {first : UInt16} {more rest : Text} {tokens : List Token} (start : isNameStart first)
      (parts : ∀ ch ∈ more, isNamePart ch) (longest : ∀ ch ∈ rest.head?, ¬isNamePart ch)
      (lexes : Lexes rest tokens) :
      Lexes (first :: more ++ rest) (.id (first :: more) :: tokens)

section Scanner

theorem isNameStart_range {ch : UInt16} (start : isNameStart ch) :
    (65 ≤ ch.toNat ∧ ch.toNat ≤ 90) ∨ (97 ≤ ch.toNat ∧ ch.toNat ≤ 122) ∨ ch.toNat = 95 ∨
      ch.toNat = 46 := by
  have upperA : unit 'A' = 65 := by decide
  have upperZ : unit 'Z' = 90 := by decide
  have lowerA : unit 'a' = 97 := by decide
  have lowerZ : unit 'z' = 122 := by decide
  have underscore : unit '_' = 95 := by decide
  have dot : unit '.' = 46 := by decide
  simp only [isNameStart, upperA, upperZ, lowerA, lowerZ, underscore, dot, UInt16.le_iff_toNat_le,
    ← UInt16.toNat_inj, Bool.or_eq_true, Bool.and_eq_true, decide_eq_true_eq,
    UInt16.reduceToNat] at start
  omega

theorem isSpace_printed {ch : UInt16} (low : 33 ≤ ch.toNat) (high : ch.toNat ≤ 126) :
    isSpace ch = false := by
  simp only [isSpace, UInt16.le_iff_toNat_le, ← UInt16.toNat_inj, Bool.or_eq_false_iff,
    Bool.and_eq_false_iff, decide_eq_false_iff_not, UInt16.reduceToNat]
  omega

theorem isNameStart_apart {ch : UInt16} (start : isNameStart ch) :
    isSpace ch = false ∧ ch ≠ unit '(' ∧ ch ≠ unit ')' ∧ ch ≠ unit '!' ∧ ch ≠ unit '&' ∧
      ch ≠ unit '|' := by
  have range := isNameStart_range start
  have spaceless : isSpace ch = false := isSpace_printed (by omega) (by omega)
  have apart (other : UInt16) (elsewhere : other.toNat < 46 ∨ other.toNat = 124) : ch ≠ other := by
    intro same
    rw [same] at range
    omega
  exact ⟨spaceless, apart _ (by decide), apart _ (by decide), apart _ (by decide),
    apart _ (by decide), apart _ (by decide)⟩

theorem marks_spaceless : isSpace (unit '(') = false ∧ isSpace (unit ')') = false ∧
    isSpace (unit '!') = false ∧ isSpace (unit '&') = false ∧ isSpace (unit '|') = false := by
  decide

theorem map_ok {token : Token} {result : Except WhenError (List Token)} {tokens : List Token} :
    result.map (token :: ·) = .ok tokens ↔ ∃ rest, result = .ok rest ∧ tokens = token :: rest := by
  cases result with
  | error error => simp [Except.map]
  | ok rest => simp [Except.map, eq_comm]

theorem span_name {more rest : Text} (parts : ∀ ch ∈ more, isNamePart ch)
    (longest : ∀ ch ∈ rest.head?, ¬isNamePart ch) :
    (more ++ rest).takeWhile isNamePart = more ∧ (more ++ rest).dropWhile isNamePart = rest := by
  have stops : rest.takeWhile isNamePart = [] ∧ rest.dropWhile isNamePart = rest := by
    cases rest with
    | nil => exact ⟨rfl, rfl⟩
    | cons ch rest =>
      have ends := longest ch rfl
      exact ⟨List.takeWhile_cons_of_neg ends, List.dropWhile_cons_of_neg ends⟩
  rw [List.takeWhile_append_of_pos parts, List.dropWhile_append_of_pos parts, stops.1, stops.2,
    List.append_nil]
  exact ⟨rfl, rfl⟩

theorem tokenizeFrom_sound (i : Nat) (input : Text) (tokens : List Token)
    (scanned : tokenizeFrom i input = .ok tokens) : Lexes input tokens := by
  fun_induction tokenizeFrom i input generalizing tokens with
  | case1 i =>
    cases scanned
    exact .done
  | case2 i ch rest blank ih => exact .space blank (ih tokens scanned)
  | case3 i rest blank ih =>
    obtain ⟨others, rested, rfl⟩ := map_ok.mp scanned
    exact @Lexes.mark .lparen _ _ (by decide) (ih others rested)
  | case4 i rest blank notOpen ih =>
    obtain ⟨others, rested, rfl⟩ := map_ok.mp scanned
    exact @Lexes.mark .rparen _ _ (by decide) (ih others rested)
  | case5 i rest blank notOpen notClose ih =>
    obtain ⟨others, rested, rfl⟩ := map_ok.mp scanned
    exact @Lexes.mark .not _ _ (by decide) (ih others rested)
  | case6 => cases scanned
  | case7 i rest doubled notSpace notOpen notClose notBang ih =>
    obtain ⟨others, rested, rfl⟩ := map_ok.mp scanned
    rw [← List.cons_head?_tail (not_not.mp doubled)]
    exact @Lexes.mark .and _ _ (by decide) (ih others rested)
  | case8 => cases scanned
  | case9 i rest doubled notSpace notOpen notClose notBang notAnd ih =>
    obtain ⟨others, rested, rfl⟩ := map_ok.mp scanned
    rw [← List.cons_head?_tail (not_not.mp doubled)]
    exact @Lexes.mark .or _ _ (by decide) (ih others rested)
  | case10 i ch rest notSpace notOpen notClose notBang notAnd notOr start value ih =>
    obtain ⟨others, rested, rfl⟩ := map_ok.mp scanned
    have name := @Lexes.name ch (rest.takeWhile isNamePart) (rest.dropWhile isNamePart) others start
      (fun _ member => List.mem_takeWhile_imp member) (fun next found => ?_) (ih others rested)
    · rwa [List.cons_append, List.takeWhile_append_dropWhile] at name
    · have stops := List.head?_dropWhile_not isNamePart rest
      rw [found] at stops
      simpa using stops
  | case11 => cases scanned

/-- The text spelled so scans to its tokens. -/
theorem tokenizeFrom_complete {input : Text} {tokens : List Token} (lexes : Lexes input tokens)
    (i : Nat) : tokenizeFrom i input = .ok tokens := by
  obtain ⟨openSpace, closeSpace, bangSpace, andSpace, orSpace⟩ := marks_spaceless
  induction lexes generalizing i with
  | done => rw [tokenizeFrom]
  | space blank lexes ih => rw [tokenizeFrom, if_pos blank, ih]
  | @mark token rest tokens mark lexes ih =>
    cases token with
    | id value => simp [marks] at mark
    | lparen =>
      change tokenizeFrom i (unit '(' :: rest) = _
      rw [tokenizeFrom, openSpace, if_neg Bool.false_ne_true, if_pos rfl, ih]
      rfl
    | rparen =>
      change tokenizeFrom i (unit ')' :: rest) = _
      rw [tokenizeFrom, closeSpace, if_neg Bool.false_ne_true, if_neg (by decide), if_pos rfl, ih]
      rfl
    | not =>
      change tokenizeFrom i (unit '!' :: rest) = _
      rw [tokenizeFrom, bangSpace, if_neg Bool.false_ne_true, if_neg (by decide),
        if_neg (by decide), if_pos rfl, ih]
      rfl
    | and =>
      change tokenizeFrom i (unit '&' :: unit '&' :: rest) = _
      rw [tokenizeFrom, andSpace, if_neg Bool.false_ne_true, if_neg (by decide),
        if_neg (by decide), if_neg (by decide), if_pos rfl, if_neg (by simp), List.tail_cons, ih]
      rfl
    | or =>
      change tokenizeFrom i (unit '|' :: unit '|' :: rest) = _
      rw [tokenizeFrom, orSpace, if_neg Bool.false_ne_true, if_neg (by decide), if_neg (by decide),
        if_neg (by decide), if_neg (by decide), if_pos rfl, if_neg (by simp), List.tail_cons, ih]
      rfl
  | @name first more rest tokens start parts longest lexes ih =>
    obtain ⟨spaceless, notOpen, notClose, notBang, notAnd, notOr⟩ := isNameStart_apart start
    obtain ⟨taken, dropped⟩ := span_name parts longest
    change tokenizeFrom i (first :: (more ++ rest)) = _
    rw [tokenizeFrom, spaceless, if_neg Bool.false_ne_true, if_neg notOpen, if_neg notClose,
      if_neg notBang, if_neg notAnd, if_neg notOr, if_pos start]
    dsimp only
    rw [taken, dropped, ih]
    rfl

theorem tokenize_ok_iff {input : Text} {tokens : List Token} :
    tokenize input = .ok tokens ↔ Lexes input tokens :=
  ⟨tokenizeFrom_sound 0 input tokens, fun lexes => tokenizeFrom_complete lexes 0⟩

end Scanner

section Layout

/-- White space, or nothing. -/
structure Gap where
  units : Text
  blank : ∀ ch ∈ units, isSpace ch

/-- Tokens with a gap before each and one at the end. -/
def layout (gaps : Nat → Gap) : List Token → Text
  | [] => (gaps 0).units
  | token :: tokens =>
    (gaps 0).units ++ (token.spelling ++ layout (fun n => gaps (n + 1)) tokens)

/-- A name as the scanner reads it. -/
def isName : Text → Bool
  | [] => false
  | first :: more => isNameStart first && more.all isNamePart

/-- Names in the list are names, and no two stand side by side. -/
inductive Apart : List Token → Prop where
  | nil : Apart []
  | mark {token : Token} {tokens : List Token} (mark : token ∈ marks) (apart : Apart tokens) :
      Apart (token :: tokens)
  | name {value : Text} {tokens : List Token} (named : isName value) (apart : Apart tokens)
      (alone : ∀ token ∈ tokens.head?, token ∈ marks) : Apart (.id value :: tokens)

theorem Lexes.gap {rest : Text} {tokens : List Token} (lexes : Lexes rest tokens) (gap : Gap) :
    Lexes (gap.units ++ rest) tokens := by
  obtain ⟨units, blank⟩ := gap
  induction units with
  | nil => exact lexes
  | cons ch units ih =>
    exact .space (blank ch List.mem_cons_self) (ih fun ch member => blank ch (List.mem_cons_of_mem _ member))

theorem isSpace_not_part {ch : UInt16} (blank : isSpace ch) : ¬isNamePart ch := by
  intro part
  have range : 33 ≤ ch.toNat ∧ ch.toNat ≤ 126 := by
    have zero : unit '0' = 48 := by decide
    have nine : unit '9' = 57 := by decide
    simp only [isNamePart, zero, nine, UInt16.le_iff_toNat_le, Bool.or_eq_true, Bool.and_eq_true,
      decide_eq_true_eq, UInt16.reduceToNat] at part
    rcases part with start | digit
    · have letters := isNameStart_range start
      omega
    · omega
  rw [isSpace_printed range.1 range.2] at blank
  cases blank

theorem layout_head (gaps : Nat → Gap) {tokens : List Token}
    (alone : ∀ token ∈ tokens.head?, token ∈ marks) :
    ∀ ch ∈ (layout gaps tokens).head?, ¬isNamePart ch := by
  intro ch found
  have blank := (gaps 0).blank
  cases tokens with
  | nil =>
    rw [layout] at found
    exact isSpace_not_part (blank ch (List.mem_of_mem_head? found))
  | cons token tokens =>
    rw [layout] at found
    cases gap : (gaps 0).units with
    | cons first more =>
      rw [gap] at found blank
      cases found
      exact isSpace_not_part (blank ch List.mem_cons_self)
    | nil =>
      rw [gap, List.nil_append] at found
      have mark := alone token rfl
      cases token with
      | id value => simp [marks] at mark
      | _ =>
        cases found
        decide

theorem layout_lexes (gaps : Nat → Gap) {tokens : List Token} (apart : Apart tokens) :
    Lexes (layout gaps tokens) tokens := by
  induction apart generalizing gaps with
  | nil =>
    have blank := Lexes.done.gap (gaps 0)
    rwa [List.append_nil] at blank
  | mark mark apart ih => exact (Lexes.mark mark (ih _)).gap (gaps 0)
  | @name value tokens named apart alone ih =>
    cases value with
    | nil => cases named
    | cons first more =>
      obtain ⟨start, parts⟩ := Bool.and_eq_true_iff.mp named
      exact (Lexes.name start (List.all_eq_true.mp parts) (layout_head _ alone) (ih _)).gap (gaps 0)

end Layout

end Mille.Ui.When
