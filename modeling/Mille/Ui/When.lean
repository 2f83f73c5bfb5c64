import Mathlib
import Mille.Ui.Units

/-! The when-clause language: scanner, recursive-descent parser and evaluator. -/

namespace Mille.Ui.When

structure Entry where
  kind : Nat
  parentId : Option Nat

/-- What the known tokens look at. -/
structure CommandContext where
  focusedEntry : Option Entry
  selectedIds : Finset Nat
  isMultiSelect : Bool
  isRenaming : Bool

def kindFile : Nat := 0
def kindDirectory : Nat := 1

inductive Token where
  | id (value : Text)
  | and
  | or
  | not
  | lparen
  | rparen
deriving DecidableEq

inductive WhenError where
  | expectedAnd (position : Nat)
  | expectedOr (position : Nat)
  | unexpectedCharacter (ch : UInt16) (position : Nat)
  | unexpectedEnd
  | expectedClose
  | unknownToken (value : Text)
  | unexpectedToken
  | trailingInput
  | internalUnknown (token : Text)

def knownTokens : List Text :=
  [text "focusedIs.file", text "focusedIs.folder", text "focusedIs.root", text "hasSelection",
    text "isMultiSelect", text "isRenaming"]

section Messages

def inSource (source : Text) : Text := text " in \"" ++ source ++ text "\""

def atPosition (position : Nat) : Text := text " at position " ++ text (toString position)

def WhenError.message (source : Text) : WhenError → Text
  | .expectedAnd position =>
    text "evaluateWhen: expected '&&'" ++ atPosition position ++ inSource source
  | .expectedOr position =>
    text "evaluateWhen: expected '||'" ++ atPosition position ++ inSource source
  | .unexpectedCharacter ch position =>
    text "evaluateWhen: unexpected character '" ++ [ch] ++ text "'" ++ atPosition position ++
      inSource source
  | .unexpectedEnd => text "evaluateWhen: unexpected end of expression" ++ inSource source
  | .expectedClose => text "evaluateWhen: expected ')'" ++ inSource source
  | .unknownToken value =>
    text "evaluateWhen: unknown token \"" ++ value ++ text "\"" ++ inSource source ++
      text ". Allowed: " ++ (text ", ").intercalate knownTokens
  | .unexpectedToken => text "evaluateWhen: unexpected token" ++ inSource source
  | .trailingInput => text "evaluateWhen: trailing input" ++ inSource source
  | .internalUnknown token =>
    text "evaluateWhen: internal error — unknown token \"" ++ token ++ text "\""

end Messages

section Scanner

/-- `\s`. -/
def isSpace (ch : UInt16) : Bool :=
  (0x09 ≤ ch && ch ≤ 0x0D) || ch = 0x20 || ch = 0xA0 || ch = 0x1680 ||
    (0x2000 ≤ ch && ch ≤ 0x200A) || ch = 0x2028 || ch = 0x2029 || ch = 0x202F || ch = 0x205F ||
    ch = 0x3000 || ch = 0xFEFF

/-- `[A-Za-z_.]`. -/
def isNameStart (ch : UInt16) : Bool :=
  (unit 'A' ≤ ch && ch ≤ unit 'Z') || (unit 'a' ≤ ch && ch ≤ unit 'z') || ch = unit '_' ||
    ch = unit '.'

/-- `[A-Za-z0-9_.]`. -/
def isNamePart (ch : UInt16) : Bool :=
  isNameStart ch || (unit '0' ≤ ch && ch ≤ unit '9')

def tokenizeFrom (i : Nat) : Text → Except WhenError (List Token)
  | [] => .ok []
  | ch :: rest =>
    if isSpace ch then tokenizeFrom (i + 1) rest
    else if ch = unit '(' then (tokenizeFrom (i + 1) rest).map (.lparen :: ·)
    else if ch = unit ')' then (tokenizeFrom (i + 1) rest).map (.rparen :: ·)
    else if ch = unit '!' then (tokenizeFrom (i + 1) rest).map (.not :: ·)
    else if ch = unit '&' then
      if rest.head? ≠ some (unit '&') then .error (.expectedAnd i)
      else (tokenizeFrom (i + 2) rest.tail).map (.and :: ·)
    else if ch = unit '|' then
      if rest.head? ≠ some (unit '|') then .error (.expectedOr i)
      else (tokenizeFrom (i + 2) rest.tail).map (.or :: ·)
    else if isNameStart ch then
      let value := ch :: rest.takeWhile isNamePart
      (tokenizeFrom (i + value.length) (rest.dropWhile isNamePart)).map (.id value :: ·)
    else .error (.unexpectedCharacter ch i)
termination_by input => input.length
decreasing_by
  all_goals simp only [List.length_cons, List.length_tail]
  all_goals first | omega | skip
  have shorter := (List.dropWhile_suffix (l := rest) isNamePart).length_le
  omega

def tokenize (input : Text) : Except WhenError (List Token) := tokenizeFrom 0 input

end Scanner

inductive Node where
  | id (value : Text)
  | and (left right : Node)
  | or (left right : Node)
  | not (expr : Node)

section Parser

/-- A node and the tokens after it. -/
structure Parsed (tokens : List Token) where
  node : Node
  rest : List Token
  shorter : rest.length < tokens.length

mutual

def parseOr (tokens : List Token) : Except WhenError (Parsed tokens) := do
  let ⟨left, rest, shorter⟩ ← parseAnd tokens
  parseOrs tokens left rest shorter
termination_by (tokens.length, 3)

/-- The loop of `parseOr`. -/
def parseOrs (tokens : List Token) (left : Node) (rest : List Token)
    (shorter : rest.length < tokens.length) : Except WhenError (Parsed tokens) :=
  match rest with
  | .or :: more => do
    let ⟨right, rest, shorterRest⟩ ← parseAnd more
    parseOrs tokens (.or left right) rest (by rw [List.length_cons] at shorter; omega)
  | rest => .ok ⟨left, rest, shorter⟩
termination_by (rest.length, 4)

def parseAnd (tokens : List Token) : Except WhenError (Parsed tokens) := do
  let ⟨left, rest, shorter⟩ ← parseNot tokens
  parseAnds tokens left rest shorter
termination_by (tokens.length, 2)

/-- The loop of `parseAnd`. -/
def parseAnds (tokens : List Token) (left : Node) (rest : List Token)
    (shorter : rest.length < tokens.length) : Except WhenError (Parsed tokens) :=
  match rest with
  | .and :: more => do
    let ⟨right, rest, shorterRest⟩ ← parseNot more
    parseAnds tokens (.and left right) rest (by rw [List.length_cons] at shorter; omega)
  | rest => .ok ⟨left, rest, shorter⟩
termination_by (rest.length, 4)

def parseNot (tokens : List Token) : Except WhenError (Parsed tokens) :=
  match tokens with
  | .not :: more => do
    let ⟨expr, rest, shorter⟩ ← parseNot more
    .ok ⟨.not expr, rest, by rw [List.length_cons]; omega⟩
  | tokens => parseAtom tokens
termination_by (tokens.length, 1)

def parseAtom (tokens : List Token) : Except WhenError (Parsed tokens) :=
  match tokens with
  | [] => .error .unexpectedEnd
  | .lparen :: more => do
    let ⟨node, rest, shorter⟩ ← parseOr more
    match rest, shorter with
    | .rparen :: rest, shorter => .ok ⟨node, rest, by simp only [List.length_cons] at *; omega⟩
    | _, _ => .error .expectedClose
  | .id value :: rest =>
    if value ∈ knownTokens then .ok ⟨.id value, rest, by rw [List.length_cons]; omega⟩
    else .error (.unknownToken value)
  | _ :: _ => .error .unexpectedToken
termination_by (tokens.length, 0)

end

def parseExpr (tokens : List Token) : Except WhenError (Parsed tokens) := parseOr tokens

def expectEnd (rest : List Token) : Except WhenError PUnit :=
  if rest.length = 0 then .ok ⟨⟩ else .error .trailingInput

end Parser

section Evaluation

def isKind (entry : Option Entry) (kind : Nat) : Bool :=
  match entry with
  | none => false
  | some entry => entry.kind = kind

def evalToken (token : Text) (ctx : CommandContext) : Except WhenError Bool :=
  if token = text "focusedIs.file" then .ok (isKind ctx.focusedEntry kindFile)
  else if token = text "focusedIs.folder" then .ok (isKind ctx.focusedEntry kindDirectory)
  else if token = text "focusedIs.root" then
    .ok (match ctx.focusedEntry with
      | none => false
      | some entry => entry.parentId = none)
  else if token = text "hasSelection" then .ok (ctx.selectedIds.card > 0)
  else if token = text "isMultiSelect" then .ok ctx.isMultiSelect
  else if token = text "isRenaming" then .ok ctx.isRenaming
  else .error (.internalUnknown token)

def evalNode (ctx : CommandContext) : Node → Except WhenError Bool
  | .id value => evalToken value ctx
  | .and left right => do if ← evalNode ctx left then evalNode ctx right else .ok false
  | .or left right => do if ← evalNode ctx left then .ok true else evalNode ctx right
  | .not expr => return !(← evalNode ctx expr)

def evaluateText (clause : Text) (ctx : CommandContext) : Except WhenError Bool := do
  let tokens ← tokenize clause
  let ast ← parseExpr tokens
  expectEnd ast.rest
  evalNode ctx ast.node

/-- A clause is a text of the language or a function of the context. -/
inductive Clause where
  | text (clause : Text)
  | function (decide : CommandContext → Bool)

def evaluateWhen (clause : Option Clause) (ctx : CommandContext) : Except Text Bool :=
  match clause with
  | none => .ok true
  | some (.function decide) => .ok (decide ctx)
  | some (.text clause) => (evaluateText clause ctx).mapError (WhenError.message clause)

end Evaluation

end Mille.Ui.When
