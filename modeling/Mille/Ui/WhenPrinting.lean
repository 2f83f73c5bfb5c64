import Mathlib
import Mille.Ui.WhenGrammar

/-! Clauses by what they mean: texts by the derivations of their tokens, and expression trees
by any text they print to. -/

namespace Mille.Ui.When

variable {ctx : CommandContext}

section Clauses

theorem mapError_ok {α : Type} {result : Except WhenError α} {message : WhenError → Text} {value : α} :
    result.mapError message = .ok value ↔ result = .ok value := by
  cases result with
  | error error => simp [Except.mapError]
  | ok value => simp [Except.mapError]

theorem evaluateText_ok_iff {clause : Text} {value : Bool} : evaluateText clause ctx = .ok value ↔
    ∃ tokens, Lexes clause tokens ∧ Derives ctx .or tokens value := by
  unfold evaluateText
  constructor
  · intro evaluated
    obtain ⟨tokens, scanned, read⟩ := bind_ok.mp evaluated
    obtain ⟨ast, parsed, ended⟩ := bind_ok.mp read
    obtain ⟨_, finished, evaluates⟩ := bind_ok.mp ended
    obtain ⟨used, derived, same, derives, node⟩ :=
      (parse_sound (tokens.length + 1)).1 tokens (Nat.lt_succ_self _) ast parsed
    have nothing : ast.rest = [] := by
      unfold expectEnd at finished
      split at finished
      · rename_i empty
        exact List.eq_nil_of_length_eq_zero empty
      · cases finished
    rw [nothing, List.append_nil] at same
    cases node.symm.trans evaluates
    exact ⟨tokens, tokenize_ok_iff.mp scanned, same ▸ derives⟩
  · rintro ⟨tokens, lexes, derives⟩
    have ends : Follows .or [] := ⟨(fun impossible => nomatch impossible), fun impossible => nomatch impossible⟩
    obtain ⟨parsed, read, nothing, node⟩ := parse_complete derives tokens [] ends (by simp)
    refine bind_ok.mpr ⟨tokens, tokenize_ok_iff.mpr lexes, bind_ok.mpr ⟨parsed, read, ?_⟩⟩
    refine bind_ok.mpr ⟨⟨⟩, ?_, node⟩
    rw [nothing]
    rfl

end Clauses

section Trees

/-- An expression over the known tokens. -/
inductive Tree where
  | token (known : KnownToken)
  | not (inner : Tree)
  | and (left right : Tree)
  | or (left right : Tree)

def Tree.holds (ctx : CommandContext) : Tree → Bool
  | .token known => known.holds ctx
  | .not inner => !inner.holds ctx
  | .and left right => left.holds ctx && right.holds ctx
  | .or left right => left.holds ctx || right.holds ctx

/-- The tokens a tree may be printed as at a level: parentheses where a looser phrase stands
in a tighter place, and anywhere else as well. -/
inductive Prints : Level → Tree → List Token → Prop where
  | token (known : KnownToken) : Prints .atom (.token known) [.id known.name]
  | parens {tree : Tree} {tokens : List Token} (inner : Prints .or tree tokens) :
      Prints .atom tree (.lparen :: tokens ++ [.rparen])
  | atom {tree : Tree} {tokens : List Token} (inner : Prints .atom tree tokens) :
      Prints .not tree tokens
  | not {tree : Tree} {tokens : List Token} (inner : Prints .not tree tokens) :
      Prints .not (.not tree) (.not :: tokens)
  | single {tree : Tree} {tokens : List Token} (inner : Prints .not tree tokens) :
      Prints .and tree tokens
  | and {left right : Tree} {first second : List Token} (before : Prints .and left first)
      (after : Prints .and right second) : Prints .and (.and left right) (first ++ .and :: second)
  | alone {tree : Tree} {tokens : List Token} (inner : Prints .and tree tokens) :
      Prints .or tree tokens
  | or {left right : Tree} {first second : List Token} (before : Prints .or left first)
      (after : Prints .or right second) : Prints .or (.or left right) (first ++ .or :: second)

def parenthesised (needed : Bool) (tokens : List Token) : List Token :=
  if needed then .lparen :: tokens ++ [.rparen] else tokens

/-- The tokens with parentheses only where precedence requires them. -/
def Tree.print : Level → Tree → List Token
  | _, .token known => [.id known.name]
  | level, .not inner => parenthesised (level matches .atom) (.not :: inner.print .not)
  | level, .and left right =>
    parenthesised (level matches .not | .atom) (left.print .and ++ .and :: right.print .and)
  | level, .or left right =>
    parenthesised (level matches .and | .not | .atom) (left.print .or ++ .or :: right.print .or)

theorem Prints.lift {tree : Tree} {tokens : List Token} (prints : Prints .atom tree tokens) :
    Prints .not tree tokens ∧ Prints .and tree tokens ∧ Prints .or tree tokens :=
  ⟨.atom prints, .single (.atom prints), .alone (.single (.atom prints))⟩

theorem Tree.print_prints (tree : Tree) : Prints .atom tree (tree.print .atom) ∧
    Prints .not tree (tree.print .not) ∧ Prints .and tree (tree.print .and) ∧
      Prints .or tree (tree.print .or) := by
  induction tree with
  | token known => exact ⟨.token known, (Prints.token known).lift⟩
  | not inner ih =>
    have bare : Prints .not (.not inner) (.not :: inner.print .not) := .not ih.2.1
    exact ⟨.parens (.alone (.single bare)), bare, .single bare, .alone (.single bare)⟩
  | and left right before after =>
    have bare : Prints .and (.and left right) (left.print .and ++ .and :: right.print .and) :=
      .and before.2.2.1 after.2.2.1
    have closed := Prints.parens (.alone bare)
    exact ⟨closed, closed.lift.1, bare, .alone bare⟩
  | or left right before after =>
    have closed := Prints.parens (.or before.2.2.2 after.2.2.2)
    exact ⟨closed, closed.lift.1, closed.lift.2.1, .or before.2.2.2 after.2.2.2⟩

theorem Derives.single {tokens : List Token} {a : Bool} (derives : Derives ctx .not tokens a) :
    Derives ctx .and tokens a := by
  have whole := Derives.and derives .andsNone
  rwa [List.append_nil, Bool.and_true] at whole

theorem Derives.alone {tokens : List Token} {a : Bool} (derives : Derives ctx .and tokens a) :
    Derives ctx .or tokens a := by
  have whole := Derives.or derives .orsNone
  rwa [List.append_nil, Bool.or_false] at whole

theorem Derives.ands_append {level : Level} {more second : List Token} {a b : Bool}
    (derives : Derives ctx level more a) (repeats : level = .ands) (next : Derives ctx .and second b) :
    Derives ctx .ands (more ++ .and :: second) (a && b) := by
  induction derives with
  | andsNone =>
    cases next with
    | and left rest =>
      rw [Bool.true_and]
      exact .andsMore left rest
  | @andsMore first more c d left rest _ ih =>
    rw [List.append_assoc, Bool.and_assoc]
    exact .andsMore left (ih rfl)
  | _ => cases repeats

theorem Derives.and_append {first second : List Token} {a b : Bool}
    (derives : Derives ctx .and first a) (next : Derives ctx .and second b) :
    Derives ctx .and (first ++ .and :: second) (a && b) := by
  cases derives with
  | and left rest =>
    rw [List.append_assoc, Bool.and_assoc]
    exact .and left (rest.ands_append rfl next)

theorem Derives.ors_append {level : Level} {more second : List Token} {a b : Bool}
    (derives : Derives ctx level more a) (repeats : level = .ors) (next : Derives ctx .or second b) :
    Derives ctx .ors (more ++ .or :: second) (a || b) := by
  induction derives with
  | orsNone =>
    cases next with
    | or left rest =>
      rw [Bool.false_or]
      exact .orsMore left rest
  | @orsMore first more c d left rest _ ih =>
    rw [List.append_assoc, Bool.or_assoc]
    exact .orsMore left (ih rfl)
  | _ => cases repeats

theorem Derives.or_append {first second : List Token} {a b : Bool}
    (derives : Derives ctx .or first a) (next : Derives ctx .or second b) :
    Derives ctx .or (first ++ .or :: second) (a || b) := by
  cases derives with
  | or left rest =>
    rw [List.append_assoc, Bool.or_assoc]
    exact .or left (rest.ors_append rfl next)

theorem Prints.derives {level : Level} {tree : Tree} {tokens : List Token}
    (prints : Prints level tree tokens) : Derives ctx level tokens (tree.holds ctx) := by
  induction prints with
  | token known => exact .token known
  | parens inner ih => exact .parens ih
  | atom inner ih => exact .plain ih
  | not inner ih => exact .not ih
  | single inner ih => exact ih.single
  | and before after first second => exact first.and_append second
  | alone inner ih => exact ih.alone
  | or before after first second => exact first.or_append second

theorem Apart.append {first second : List Token} (apart : Apart first) (others : Apart second)
    (head : ∀ token ∈ second.head?, token ∈ marks) : Apart (first ++ second) := by
  induction apart with
  | nil => exact others
  | mark mark apart ih => exact .mark mark ih
  | @name value tokens named apart alone ih =>
    refine .name named ih ?_
    cases tokens with
    | nil => exact head
    | cons token tokens => exact alone

theorem Prints.apart {level : Level} {tree : Tree} {tokens : List Token}
    (prints : Prints level tree tokens) : Apart tokens := by
  have marked {token : Token} {second : List Token} (mark : token ∈ marks) :
      ∀ first ∈ (token :: second).head?, first ∈ marks := by
    rintro _ ⟨⟩
    exact mark
  induction prints with
  | token known => exact .name known.isName_name .nil (fun _ impossible => nomatch impossible)
  | parens inner ih =>
    exact .mark (by decide) (ih.append (.mark (by decide) .nil) (marked (by decide)))
  | atom inner ih => exact ih
  | not inner ih => exact .mark (by decide) ih
  | single inner ih => exact ih
  | and before after first second =>
    exact first.append (.mark (by decide) second) (marked (by decide))
  | alone inner ih => exact ih
  | or before after first second =>
    exact first.append (.mark (by decide) second) (marked (by decide))

end Trees

/-- A clause has a value exactly when its tokens derive it and throws exactly when they derive
none; a printed tree has the value of the tree, whatever the gaps between its tokens. -/
theorem evaluateWhen_means (ctx : CommandContext) :
    (∀ (clause : Text) (value : Bool), evaluateWhen (some (.text clause)) ctx = .ok value ↔
      ∃ tokens, Lexes clause tokens ∧ Derives ctx .or tokens value) ∧
    (∀ clause : Text, (∃ thrown, evaluateWhen (some (.text clause)) ctx = .error thrown) ↔
      ¬∃ tokens value, Lexes clause tokens ∧ Derives ctx .or tokens value) ∧
    ∀ (tree : Tree) (tokens : List Token), Prints .or tree tokens → ∀ gaps : Nat → Gap,
      evaluateWhen (some (.text (layout gaps tokens))) ctx = .ok (tree.holds ctx) := by
  have means (clause : Text) (value : Bool) : evaluateWhen (some (.text clause)) ctx = .ok value ↔
      ∃ tokens, Lexes clause tokens ∧ Derives ctx .or tokens value :=
    mapError_ok.trans evaluateText_ok_iff
  refine ⟨means, fun clause => ?_, fun tree tokens prints gaps => ?_⟩
  · constructor
    · rintro ⟨thrown, failed⟩ ⟨tokens, value, derived⟩
      cases failed.symm.trans ((means clause value).mpr ⟨tokens, derived⟩)
    · intro underivable
      cases result : evaluateWhen (some (.text clause)) ctx with
      | error thrown => exact ⟨thrown, rfl⟩
      | ok value =>
        obtain ⟨tokens, derived⟩ := (means clause value).mp result
        exact absurd ⟨tokens, value, derived⟩ underivable
  · exact (means _ _).mpr ⟨tokens, layout_lexes gaps prints.apart, prints.derives⟩

/-- A blank around each token of `!(hasSelection || isRenaming) && isMultiSelect`. -/
theorem evaluateWhen_means_printed :
    evaluateWhen (some (.text (layout (fun _ => ⟨[0x20], List.forall_mem_singleton.mpr rfl⟩)
        (Tree.print .or (.and (.not (.or (.token .hasSelection) (.token .isRenaming)))
          (.token .isMultiSelect)))))) ⟨none, ∅, true, false⟩ = .ok true :=
  (evaluateWhen_means ⟨none, ∅, true, false⟩).2.2 _ _ (Tree.print_prints _).2.2.2 _

end Mille.Ui.When
