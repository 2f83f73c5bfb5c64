import Mathlib
import Mille.Ui.WhenTokens

/-! The documented grammar with the value of a derivation, and the parser against it. -/

namespace Mille.Ui.When

/-- The tokens the language knows. -/
inductive KnownToken where
  | focusedIsFile
  | focusedIsFolder
  | focusedIsRoot
  | hasSelection
  | isMultiSelect
  | isRenaming

namespace KnownToken

def name : KnownToken → Text
  | .focusedIsFile => text "focusedIs.file"
  | .focusedIsFolder => text "focusedIs.folder"
  | .focusedIsRoot => text "focusedIs.root"
  | .hasSelection => text "hasSelection"
  | .isMultiSelect => text "isMultiSelect"
  | .isRenaming => text "isRenaming"

/-- What the token says of a context. -/
def holds (ctx : CommandContext) : KnownToken → Bool
  | .focusedIsFile => ctx.focusedEntry.any fun entry => entry.kind = kindFile
  | .focusedIsFolder => ctx.focusedEntry.any fun entry => entry.kind = kindDirectory
  | .focusedIsRoot => ctx.focusedEntry.any fun entry => entry.parentId = none
  | .hasSelection => ctx.selectedIds ≠ ∅
  | .isMultiSelect => ctx.isMultiSelect
  | .isRenaming => ctx.isRenaming

theorem name_mem (known : KnownToken) : known.name ∈ knownTokens := by
  cases known <;> simp [name, knownTokens]

theorem exists_name {value : Text} (member : value ∈ knownTokens) :
    ∃ known : KnownToken, known.name = value := by
  simp only [knownTokens, List.mem_cons, List.not_mem_nil, or_false] at member
  rcases member with same | same | same | same | same | same
  · exact ⟨.focusedIsFile, same.symm⟩
  · exact ⟨.focusedIsFolder, same.symm⟩
  · exact ⟨.focusedIsRoot, same.symm⟩
  · exact ⟨.hasSelection, same.symm⟩
  · exact ⟨.isMultiSelect, same.symm⟩
  · exact ⟨.isRenaming, same.symm⟩

theorem isName_name (known : KnownToken) : isName known.name := by
  cases known <;> decide

theorem evalToken_name (ctx : CommandContext) (known : KnownToken) :
    evalToken known.name ctx = .ok (known.holds ctx) := by
  cases known with
  | focusedIsFile =>
    unfold evalToken
    rw [if_pos (by decide)]
    cases focused : ctx.focusedEntry <;> simp [isKind, holds, focused]
  | focusedIsFolder =>
    unfold evalToken
    rw [if_neg (by decide), if_pos (by decide)]
    cases focused : ctx.focusedEntry <;> simp [isKind, holds, focused]
  | focusedIsRoot =>
    unfold evalToken
    rw [if_neg (by decide), if_neg (by decide), if_pos (by decide)]
    cases focused : ctx.focusedEntry <;> simp [holds, focused]
  | hasSelection =>
    unfold evalToken
    rw [if_neg (by decide), if_neg (by decide), if_neg (by decide), if_pos (by decide)]
    simp [holds, Finset.card_pos, Finset.nonempty_iff_ne_empty]
  | isMultiSelect =>
    unfold evalToken
    rw [if_neg (by decide), if_neg (by decide), if_neg (by decide), if_neg (by decide),
      if_pos (by decide)]
    rfl
  | isRenaming =>
    unfold evalToken
    rw [if_neg (by decide), if_neg (by decide), if_neg (by decide), if_neg (by decide),
      if_neg (by decide), if_pos (by decide)]
    rfl

end KnownToken

theorem bind_ok {α β : Type} {first : Except WhenError α} {next : α → Except WhenError β}
    {result : β} : (first >>= next) = .ok result ↔ ∃ a, first = .ok a ∧ next a = .ok result := by
  cases first with
  | error error => simp [bind, Except.bind]
  | ok a => simp [bind, Except.bind]

/-- The levels of the grammar; `ors` and `ands` are the parts that repeat. -/
inductive Level where
  | or
  | ors
  | and
  | ands
  | not
  | atom

/-- A derivation of a token list, with its value in a context. -/
inductive Derives (ctx : CommandContext) : Level → List Token → Bool → Prop where
  | or {first more : List Token} {a b : Bool} (left : Derives ctx .and first a)
      (rest : Derives ctx .ors more b) : Derives ctx .or (first ++ more) (a || b)
  | orsNone : Derives ctx .ors [] false
  | orsMore {first more : List Token} {a b : Bool} (left : Derives ctx .and first a)
      (rest : Derives ctx .ors more b) : Derives ctx .ors (.or :: first ++ more) (a || b)
  | and {first more : List Token} {a b : Bool} (left : Derives ctx .not first a)
      (rest : Derives ctx .ands more b) : Derives ctx .and (first ++ more) (a && b)
  | andsNone : Derives ctx .ands [] true
  | andsMore {first more : List Token} {a b : Bool} (left : Derives ctx .not first a)
      (rest : Derives ctx .ands more b) : Derives ctx .ands (.and :: first ++ more) (a && b)
  | not {tokens : List Token} {a : Bool} (inner : Derives ctx .not tokens a) :
      Derives ctx .not (.not :: tokens) (!a)
  | plain {tokens : List Token} {a : Bool} (atom : Derives ctx .atom tokens a) :
      Derives ctx .not tokens a
  | token (known : KnownToken) : Derives ctx .atom [.id known.name] (known.holds ctx)
  | parens {tokens : List Token} {a : Bool} (inner : Derives ctx .or tokens a) :
      Derives ctx .atom (.lparen :: tokens ++ [.rparen]) a

section Soundness

/-- The tokens before the rest derive the value the node evaluates to. -/
def Means (ctx : CommandContext) (level : Level) (tokens : List Token) (node : Node)
    (rest : List Token) : Prop :=
  ∃ used value, tokens = used ++ rest ∧ Derives ctx level used value ∧ evalNode ctx node = .ok value

/-- On shorter lists the parser of a level reads derivations of the level. -/
def SoundBelow (ctx : CommandContext) (level : Level)
    (parse : (tokens : List Token) → Except WhenError (Parsed tokens)) (bound : Nat) : Prop :=
  ∀ tokens : List Token, tokens.length < bound → ∀ parsed, parse tokens = .ok parsed →
    Means ctx level tokens parsed.node parsed.rest

variable {ctx : CommandContext} {bound : Nat}

theorem parseAtom_sound (ors : SoundBelow ctx .or parseOr bound) :
    SoundBelow ctx .atom parseAtom (bound + 1) := by
  intro tokens short parsed read
  rw [parseAtom.eq_def] at read
  split at read
  · cases read
  · rename_i more
    obtain ⟨⟨node, rest, shorter⟩, inner, closed⟩ := bind_ok.mp read
    obtain ⟨used, value, same, derives, evaluates⟩ :=
      ors more (by rw [List.length_cons] at short; omega) _ inner
    dsimp only at closed same evaluates
    split at closed
    · rename_i after _ _
      cases closed
      refine ⟨.lparen :: used ++ [.rparen], value, (congrArg (Token.lparen :: ·) same).trans ?_, .parens derives,
        evaluates⟩
      simp
    · cases closed
  · rename_i value rest
    split at read
    · rename_i known
      cases read
      obtain ⟨token, rfl⟩ := KnownToken.exists_name known
      exact ⟨[.id token.name], token.holds ctx, rfl, .token token, token.evalToken_name ctx⟩
    · cases read
  · cases read

theorem parseNot_sound (atoms : SoundBelow ctx .atom parseAtom (bound + 1))
    (nots : SoundBelow ctx .not parseNot bound) : SoundBelow ctx .not parseNot (bound + 1) := by
  intro tokens short parsed read
  rw [parseNot.eq_def] at read
  split at read
  · rename_i more
    obtain ⟨⟨expr, rest, shorter⟩, inner, closed⟩ := bind_ok.mp read
    cases closed
    obtain ⟨used, value, same, derives, evaluates⟩ :=
      nots more (by rw [List.length_cons] at short; omega) _ inner
    refine ⟨.not :: used, !value, congrArg _ same, .not derives, ?_⟩
    change (evalNode ctx expr >>= fun value => pure !value) = _
    rw [evaluates]
    rfl
  · obtain ⟨used, value, same, derives, evaluates⟩ := atoms _ short parsed read
    exact ⟨used, value, same, .plain derives, evaluates⟩

theorem parseAnds_sound (nots : SoundBelow ctx .not parseNot bound) (tokens : List Token)
    (left : Node) (rest : List Token) (shorter : rest.length < tokens.length)
    (short : rest.length ≤ bound) (parsed : Parsed tokens)
    (read : parseAnds tokens left rest shorter = .ok parsed) :
    ∃ used b, rest = used ++ parsed.rest ∧ Derives ctx .ands used b ∧
      ∀ a, evalNode ctx left = .ok a → evalNode ctx parsed.node = .ok (a && b) := by
  induction size : rest.length using Nat.strong_induction_on generalizing left rest with
  | _ size ih =>
    rw [parseAnds.eq_def] at read
    split at read
    · rename_i more _
      obtain ⟨⟨right, after, shorterAfter⟩, inner, looped⟩ := bind_ok.mp read
      rw [List.length_cons] at short size
      obtain ⟨first, a, same, derives, evaluates⟩ := nots more (by omega) _ inner
      dsimp only at same evaluates
      obtain ⟨used, b, sameAfter, rested, node⟩ := ih after.length (by omega) (.and left right) after
        _ (by omega) looped rfl
      refine ⟨.and :: first ++ used, a && b, ?_, .andsMore derives rested, fun c leftValue => ?_⟩
      · rw [same, sameAfter]
        simp
      · rw [← Bool.and_assoc]
        apply node
        change (evalNode ctx left >>= fun value => if value then evalNode ctx right else .ok false) = _
        rw [leftValue, evaluates]
        cases c <;> rfl
    · cases read
      refine ⟨[], true, rfl, .andsNone, fun a leftValue => ?_⟩
      rw [Bool.and_true]
      exact leftValue

theorem parseAnd_sound (nots : SoundBelow ctx .not parseNot (bound + 1)) :
    SoundBelow ctx .and parseAnd (bound + 1) := by
  intro tokens short parsed read
  rw [parseAnd] at read
  obtain ⟨⟨left, rest, shorter⟩, inner, looped⟩ := bind_ok.mp read
  obtain ⟨first, a, same, derives, evaluates⟩ := nots tokens short _ inner
  obtain ⟨used, b, sameRest, rested, node⟩ :=
    parseAnds_sound nots tokens left rest shorter (by omega) parsed looped
  refine ⟨first ++ used, a && b, ?_, .and derives rested, node a evaluates⟩
  exact same.trans ((congrArg (first ++ ·) sameRest).trans (List.append_assoc ..).symm)

theorem parseOrs_sound (ands : SoundBelow ctx .and parseAnd bound) (tokens : List Token)
    (left : Node) (rest : List Token) (shorter : rest.length < tokens.length)
    (short : rest.length ≤ bound) (parsed : Parsed tokens)
    (read : parseOrs tokens left rest shorter = .ok parsed) :
    ∃ used b, rest = used ++ parsed.rest ∧ Derives ctx .ors used b ∧
      ∀ a, evalNode ctx left = .ok a → evalNode ctx parsed.node = .ok (a || b) := by
  induction size : rest.length using Nat.strong_induction_on generalizing left rest with
  | _ size ih =>
    rw [parseOrs.eq_def] at read
    split at read
    · rename_i more _
      obtain ⟨⟨right, after, shorterAfter⟩, inner, looped⟩ := bind_ok.mp read
      rw [List.length_cons] at short size
      obtain ⟨first, a, same, derives, evaluates⟩ := ands more (by omega) _ inner
      dsimp only at same evaluates
      obtain ⟨used, b, sameAfter, rested, node⟩ := ih after.length (by omega) (.or left right) after
        _ (by omega) looped rfl
      refine ⟨.or :: first ++ used, a || b, ?_, .orsMore derives rested, fun c leftValue => ?_⟩
      · rw [same, sameAfter]
        simp
      · rw [← Bool.or_assoc]
        apply node
        change (evalNode ctx left >>= fun value => if value then .ok true else evalNode ctx right) = _
        rw [leftValue, evaluates]
        cases c <;> rfl
    · cases read
      refine ⟨[], false, rfl, .orsNone, fun a leftValue => ?_⟩
      rw [Bool.or_false]
      exact leftValue

theorem parseOr_sound (ands : SoundBelow ctx .and parseAnd (bound + 1)) :
    SoundBelow ctx .or parseOr (bound + 1) := by
  intro tokens short parsed read
  rw [parseOr] at read
  obtain ⟨⟨left, rest, shorter⟩, inner, looped⟩ := bind_ok.mp read
  obtain ⟨first, a, same, derives, evaluates⟩ := ands tokens short _ inner
  obtain ⟨used, b, sameRest, rested, node⟩ :=
    parseOrs_sound ands tokens left rest shorter (by omega) parsed looped
  refine ⟨first ++ used, a || b, ?_, .or derives rested, node a evaluates⟩
  exact same.trans ((congrArg (first ++ ·) sameRest).trans (List.append_assoc ..).symm)

theorem parse_sound (bound : Nat) :
    SoundBelow ctx .or parseOr bound ∧ SoundBelow ctx .not parseNot bound := by
  induction bound with
  | zero => exact ⟨fun _ short => absurd short (Nat.not_lt_zero _),
      fun _ short => absurd short (Nat.not_lt_zero _)⟩
  | succ bound ih =>
    have atoms := parseAtom_sound ih.1
    have nots := parseNot_sound atoms ih.2
    exact ⟨parseOr_sound (parseAnd_sound nots), nots⟩

end Soundness

section Completeness

variable {ctx : CommandContext}

/-- Tokens that cannot carry a phrase of the level on. -/
def Follows : Level → List Token → Prop
  | .or, rest | .ors, rest => rest.head? ≠ some .or ∧ rest.head? ≠ some .and
  | .and, rest | .ands, rest => rest.head? ≠ some .and
  | .not, _ | .atom, _ => True

/-- The parser of the level reads these tokens from any longer list, and its node has the
value. The loops go on from a node read before. -/
def Reads (ctx : CommandContext) (level : Level) (used : List Token) (value : Bool) : Prop :=
  ∀ tokens rest : List Token, Follows level rest →
    match level with
    | .or => tokens = used ++ rest → ∃ parsed : Parsed tokens, parseOr tokens = .ok parsed ∧
        parsed.rest = rest ∧ evalNode ctx parsed.node = .ok value
    | .and => tokens = used ++ rest → ∃ parsed : Parsed tokens, parseAnd tokens = .ok parsed ∧
        parsed.rest = rest ∧ evalNode ctx parsed.node = .ok value
    | .not => tokens = used ++ rest → ∃ parsed : Parsed tokens, parseNot tokens = .ok parsed ∧
        parsed.rest = rest ∧ evalNode ctx parsed.node = .ok value
    | .atom => tokens = used ++ rest → ∃ parsed : Parsed tokens, parseAtom tokens = .ok parsed ∧
        parsed.rest = rest ∧ evalNode ctx parsed.node = .ok value
    | .ors => ∀ (left : Node) (a : Bool) (shorter : (used ++ rest).length < tokens.length),
        evalNode ctx left = .ok a → ∃ parsed : Parsed tokens,
          parseOrs tokens left (used ++ rest) shorter = .ok parsed ∧ parsed.rest = rest ∧
            evalNode ctx parsed.node = .ok (a || value)
    | .ands => ∀ (left : Node) (a : Bool) (shorter : (used ++ rest).length < tokens.length),
        evalNode ctx left = .ok a → ∃ parsed : Parsed tokens,
          parseAnds tokens left (used ++ rest) shorter = .ok parsed ∧ parsed.rest = rest ∧
            evalNode ctx parsed.node = .ok (a && value)

theorem Derives.ors_follow {used rest : List Token} {value : Bool}
    (derives : Derives ctx .ors used value) (follows : Follows .ors rest) :
    Follows .and (used ++ rest) := by
  cases derives with
  | orsNone => exact follows.2
  | orsMore left more => exact fun same => nomatch Option.some.inj same

theorem Derives.atom_head {used rest : List Token} {value : Bool}
    (derives : Derives ctx .atom used value) : (used ++ rest).head? ≠ some .not := by
  cases derives with
  | token known => exact fun same => nomatch Option.some.inj same
  | parens inner => exact fun same => nomatch Option.some.inj same

theorem reads_ors_none : Reads ctx .ors [] false := by
  intro tokens rest follows left a shorter leftValue
  refine ⟨⟨left, rest, shorter⟩, ?_, rfl, ?_⟩
  · rw [parseOrs.eq_def]
    cases rest with
    | nil => rfl
    | cons token rest =>
      cases token with
      | or => exact absurd rfl follows.1
      | _ => rfl
  · rw [Bool.or_false]
    exact leftValue

theorem reads_ands_none : Reads ctx .ands [] true := by
  intro tokens rest follows left a shorter leftValue
  refine ⟨⟨left, rest, shorter⟩, ?_, rfl, ?_⟩
  · rw [parseAnds.eq_def]
    cases rest with
    | nil => rfl
    | cons token rest =>
      cases token with
      | and => exact absurd rfl follows
      | _ => rfl
  · rw [Bool.and_true]
    exact leftValue

theorem reads_or {first more : List Token} {a b : Bool} (rest : Derives ctx .ors more b)
    (reads : Reads ctx .and first a) (loops : Reads ctx .ors more b) :
    Reads ctx .or (first ++ more) (a || b) := by
  intro tokens after follows split
  obtain ⟨⟨left, others, shorter⟩, inner, rfl, leftValue⟩ :=
    reads tokens (more ++ after) (rest.ors_follow follows) (split.trans (List.append_assoc ..))
  obtain ⟨parsed, looped, rested, value⟩ := loops tokens after follows left a shorter leftValue
  refine ⟨parsed, ?_, rested, value⟩
  rw [parseOr]
  exact bind_ok.mpr ⟨_, inner, looped⟩

theorem reads_ors_more {first more : List Token} {a b : Bool} (rest : Derives ctx .ors more b)
    (reads : Reads ctx .and first a) (loops : Reads ctx .ors more b) :
    Reads ctx .ors (.or :: first ++ more) (a || b) := by
  intro tokens after follows left c shorter leftValue
  obtain ⟨⟨right, others, shorterRight⟩, inner, rfl, rightValue⟩ :=
    reads ((first ++ more) ++ after) (more ++ after) (rest.ors_follow follows)
      (List.append_assoc ..)
  have either : evalNode ctx (.or left right) = .ok (c || a) := by
    change (evalNode ctx left >>= fun value => if value then .ok true else evalNode ctx right) = _
    rw [leftValue]
    cases c
    · exact rightValue
    · rfl
  obtain ⟨parsed, looped, rested, value⟩ := loops tokens after follows (.or left right) (c || a)
    (by simp only [List.length_append, List.length_cons] at *; omega) either
  rw [Bool.or_assoc] at value
  refine ⟨parsed, ?_, rested, value⟩
  rw [parseOrs.eq_def]
  exact bind_ok.mpr ⟨_, inner, looped⟩

theorem reads_and {first more : List Token} {a b : Bool} (reads : Reads ctx .not first a)
    (loops : Reads ctx .ands more b) : Reads ctx .and (first ++ more) (a && b) := by
  intro tokens after follows split
  obtain ⟨⟨left, others, shorter⟩, inner, rfl, leftValue⟩ :=
    reads tokens (more ++ after) trivial (split.trans (List.append_assoc ..))
  obtain ⟨parsed, looped, rested, value⟩ := loops tokens after follows left a shorter leftValue
  refine ⟨parsed, ?_, rested, value⟩
  rw [parseAnd]
  exact bind_ok.mpr ⟨_, inner, looped⟩

theorem reads_ands_more {first more : List Token} {a b : Bool} (reads : Reads ctx .not first a)
    (loops : Reads ctx .ands more b) : Reads ctx .ands (.and :: first ++ more) (a && b) := by
  intro tokens after follows left c shorter leftValue
  obtain ⟨⟨right, others, shorterRight⟩, inner, rfl, rightValue⟩ :=
    reads ((first ++ more) ++ after) (more ++ after) trivial (List.append_assoc ..)
  have both : evalNode ctx (.and left right) = .ok (c && a) := by
    change (evalNode ctx left >>= fun value => if value then evalNode ctx right else .ok false) = _
    rw [leftValue]
    cases c
    · rfl
    · exact rightValue
  obtain ⟨parsed, looped, rested, value⟩ := loops tokens after follows (.and left right) (c && a)
    (by simp only [List.length_append, List.length_cons] at *; omega) both
  rw [Bool.and_assoc] at value
  refine ⟨parsed, ?_, rested, value⟩
  rw [parseAnds.eq_def]
  exact bind_ok.mpr ⟨_, inner, looped⟩

theorem reads_not {used : List Token} {a : Bool} (reads : Reads ctx .not used a) :
    Reads ctx .not (.not :: used) (!a) := by
  intro tokens after follows same
  subst same
  obtain ⟨⟨expr, rest, shorter⟩, inner, rested, value⟩ := reads (used ++ after) after trivial rfl
  refine ⟨⟨.not expr, rest, shorter.trans (Nat.lt_succ_self _)⟩, ?_, rested, ?_⟩
  · rw [parseNot.eq_def]
    exact bind_ok.mpr ⟨_, inner, rfl⟩
  · change (evalNode ctx expr >>= fun value => pure !value) = _
    rw [value]
    rfl

theorem reads_plain {used : List Token} {a : Bool} (derives : Derives ctx .atom used a)
    (reads : Reads ctx .atom used a) : Reads ctx .not used a := by
  intro tokens after follows same
  obtain ⟨parsed, inner, rested, value⟩ := reads tokens after follows same
  refine ⟨parsed, ?_, rested, value⟩
  rw [parseNot.eq_def]
  split
  · exact absurd (congrArg List.head? same).symm derives.atom_head
  · exact inner

theorem reads_token (known : KnownToken) : Reads ctx .atom [.id known.name] (known.holds ctx) := by
  intro tokens after follows same
  subst same
  refine ⟨⟨.id known.name, after, Nat.lt_succ_self _⟩, ?_, rfl, known.evalToken_name ctx⟩
  rw [parseAtom.eq_def]
  exact if_pos known.name_mem

theorem reads_parens {used : List Token} {a : Bool} (reads : Reads ctx .or used a) :
    Reads ctx .atom (.lparen :: used ++ [.rparen]) a := by
  intro tokens after follows same
  have regrouped : .lparen :: used ++ [.rparen] ++ after = .lparen :: (used ++ .rparen :: after) := by
    simp
  rw [regrouped] at same
  subst same
  have closes : Follows .or (.rparen :: after) :=
    ⟨(fun same => nomatch Option.some.inj same), fun same => nomatch Option.some.inj same⟩
  obtain ⟨⟨node, rest, shorter⟩, inner, rested, value⟩ :=
    reads (used ++ .rparen :: after) (.rparen :: after) closes rfl
  cases rested
  refine ⟨⟨node, after, by simp only [List.length_cons, List.length_append]; omega⟩, ?_, rfl, value⟩
  rw [parseAtom.eq_def]
  exact bind_ok.mpr ⟨_, inner, rfl⟩

theorem parse_complete {level : Level} {used : List Token} {value : Bool}
    (derives : Derives ctx level used value) : Reads ctx level used value := by
  induction derives with
  | or left rest reads loops => exact reads_or rest reads loops
  | orsNone => exact reads_ors_none
  | orsMore left rest reads loops => exact reads_ors_more rest reads loops
  | and left rest reads loops => exact reads_and reads loops
  | andsNone => exact reads_ands_none
  | andsMore left rest reads loops => exact reads_ands_more reads loops
  | not inner reads => exact reads_not reads
  | plain atom reads => exact reads_plain atom reads
  | token known => exact reads_token known
  | parens inner reads => exact reads_parens reads

end Completeness

end Mille.Ui.When
