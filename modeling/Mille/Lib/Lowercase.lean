import Mathlib

/-! `str::to_lowercase` over the Unicode data it reads, and how it acts on paths: a
slash is a letter of no word, so every segment is lowered on its own. -/

namespace Mille

/-- The Unicode data of a lower-casing, with what it says about the slash. -/
structure CaseData where
  /-- `conversions::to_lower`. -/
  lower : Char → List Char
  cased : Char → Bool
  caseIgnorable : Char → Bool
  lower_ne_nil : ∀ char, lower char ≠ []
  lower_slash : lower '/' = ['/']
  slash_of_lower : ∀ char, '/' ∈ lower char → char = '/'
  slash_cased : cased '/' = false
  slash_ignorable : caseIgnorable '/' = false

namespace CaseData

variable (data : CaseData)

def caseIgnorableThenCased (chars : List Char) : Bool :=
  match chars.dropWhile data.caseIgnorable with
  | char :: _ => data.cased char
  | [] => false

/-- A capital sigma is lowered by whether it ends a word; `before` is what stands before it,
backwards. -/
def mapUppercaseSigma (before after : List Char) : Char :=
  if data.caseIgnorableThenCased before && !data.caseIgnorableThenCased after then 'ς' else 'σ'

def lowerChars (before : List Char) : List Char → List Char
  | [] => []
  | char :: rest =>
    (if char = 'Σ' then [data.mapUppercaseSigma before rest] else data.lower char) ++
      lowerChars (char :: before) rest

def toLowercase (text : String) : String := String.ofList (data.lowerChars [] text.toList)

variable {data}

theorem ignorableThenCased_slash (chars more : List Char) :
    data.caseIgnorableThenCased (chars ++ '/' :: more) = data.caseIgnorableThenCased chars := by
  unfold caseIgnorableThenCased
  induction chars with
  | nil => simp [data.slash_ignorable, data.slash_cased]
  | cons char rest ih =>
    rw [List.cons_append, List.dropWhile_cons, List.dropWhile_cons]
    by_cases ignored : data.caseIgnorable char = true
    · rw [if_pos ignored, if_pos ignored]
      exact ih
    · rw [if_neg ignored, if_neg ignored]

theorem lowerChars_behind_slash (before earlier chars : List Char) :
    data.lowerChars (before ++ '/' :: earlier) chars = data.lowerChars before chars := by
  induction chars generalizing before with
  | nil => rfl
  | cons char rest ih =>
    have later := ih (char :: before)
    rw [List.cons_append] at later
    rw [lowerChars, lowerChars, later, mapUppercaseSigma, mapUppercaseSigma, ignorableThenCased_slash]

theorem lowerChars_slash (before left right : List Char) :
    data.lowerChars before (left ++ '/' :: right) =
      data.lowerChars before left ++ '/' :: data.lowerChars [] right := by
  induction left generalizing before with
  | nil =>
    have apart : ¬ '/' = 'Σ' := by decide
    have fresh := @lowerChars_behind_slash data [] before right
    rw [List.nil_append] at fresh
    rw [List.nil_append]
    change (if '/' = 'Σ' then _ else _) ++ _ = _
    rw [if_neg apart, data.lower_slash, fresh]
    rfl
  | cons char rest ih =>
    rw [List.cons_append, lowerChars, lowerChars, ih, mapUppercaseSigma, mapUppercaseSigma,
      ignorableThenCased_slash, List.append_assoc]

theorem slash_of_lowerChars {before chars : List Char} (slash : '/' ∈ data.lowerChars before chars) :
    '/' ∈ chars := by
  induction chars generalizing before with
  | nil => cases slash
  | cons char rest ih =>
    rcases List.mem_append.mp slash with here | later
    · split_ifs at here
      · have sigma : '/' = data.mapUppercaseSigma before rest := List.mem_singleton.mp here
        unfold mapUppercaseSigma at sigma
        split_ifs at sigma <;> exact absurd sigma (by decide)
      · exact data.slash_of_lower char here ▸ List.mem_cons_self
    · exact List.mem_cons_of_mem _ (ih later)

theorem lowerChars_ne_nil {before chars : List Char} (more : chars ≠ []) : data.lowerChars before chars ≠ [] := by
  cases chars with
  | nil => exact absurd rfl more
  | cons char rest =>
    rw [lowerChars]
    split_ifs
    · simp
    · simp [data.lower_ne_nil char]

theorem splitOn_lowerChars (chars : List Char) :
    (data.lowerChars [] chars).splitOn '/' = (chars.splitOn '/').map (data.lowerChars []) := by
  generalize bound : chars.length = length
  induction length using Nat.strong_induction_on generalizing chars with
  | _ length ih =>
    by_cases slash : '/' ∈ chars
    · obtain ⟨left, right, rfl, whole⟩ := List.eq_append_cons_of_mem slash
      have clean : '/' ∉ data.lowerChars [] left := fun found => whole (slash_of_lowerChars found)
      have shorter : right.length < length := by
        rw [← bound, List.length_append, List.length_cons]
        omega
      rw [lowerChars_slash, List.splitOn_append_cons_self, List.splitOn_append_cons_self,
        List.splitOn_eq_singleton clean, List.splitOn_eq_singleton whole, ih _ shorter right rfl]
      rfl
    · have clean : '/' ∉ data.lowerChars [] chars := fun found => slash (slash_of_lowerChars found)
      rw [List.splitOn_eq_singleton clean, List.splitOn_eq_singleton slash]
      rfl

end CaseData

end Mille
