import Mathlib
import Mille.Lib.JsMap
import Mille.Ui.Units

/-! The adapters from the engine's git service onto the tree's and the history's clients:
status rows by their path under the explorer root, and paths under the root handed back to
the engine. Lower-casing is a parameter. -/

namespace Mille.Ui.Engine

section Paths

def slash : UInt16 := unit '/'

/-- Backslashes turned and the slashes at the end left out. -/
def toPosix (path : Text) : Text :=
  let slashed := path.map fun ch => if ch = unit '\\' then slash else ch
  if slashed.length > 1 then slashed.rdropWhile (· = slash) else slashed

def isLetter (ch : UInt16) : Bool :=
  (unit 'A' ≤ ch && ch ≤ unit 'Z') || (unit 'a' ≤ ch && ch ≤ unit 'z')

/-- `/^[A-Za-z]:/`. -/
def isDrive : Text → Bool
  | letter :: colon :: _ => isLetter letter && colon = unit ':'
  | _ => false

variable (toLowerCase : Text → Text)

/-- Windows drive paths compare case-insensitively. -/
def sameSpelling (a b : Text) : Bool :=
  if isDrive a then toLowerCase a = toLowerCase b else a = b

/-- The root with a slash at its end. -/
def slashed (root : Text) : Text := if root.getLast? = some slash then root else root ++ [slash]

def relativeUnder (root abs : Text) : Option Text :=
  if sameSpelling toLowerCase root abs then some []
  else
    let stem := slashed root
    if abs.length ≤ stem.length then none
    else if sameSpelling toLowerCase (abs.take stem.length) stem then some (abs.drop stem.length)
    else none

def joinPosix (root rel : Text) : Text :=
  if rel.length = 0 then root else slashed root ++ rel

/-- `isSafeWorkspaceRelativePath`. -/
def isSafeWorkspaceRelativePath (path : Text) : Bool :=
  !(path.length = 0) && !(path.contains 0) && !(path.contains (unit '\\')) &&
    !(path.head? = some slash || path.head? = some (unit '~')) && !isDrive path &&
    (path.splitOn slash).all fun segment => !(segment = [] || segment = text "." || segment = text "..")

end Paths

section Errors

/-- An `EINVAL` of the adapters, with the path it names. -/
structure GitError where
  message : Text
  path : Option Text

def emptyPath : GitError := ⟨text "path must be a non-empty workspace-relative path", none⟩

def escapes (path : Text) : GitError :=
  ⟨text "path escapes workspace root: " ++ path, some path⟩

def outside (rootPath : Text) : GitError :=
  ⟨text "rootPath is outside the checkout: " ++ rootPath, some rootPath⟩

def assertRelative (path : Text) : Except GitError Text :=
  if path.length = 0 then .error emptyPath
  else if !isSafeWorkspaceRelativePath path then .error (escapes path)
  else .ok path

end Errors

section Status

/-- The two columns of a row, `none` for a dot. -/
structure StatusXy where
  index : Option Char
  worktree : Option Char

structure StatusEntry where
  path : Text
  xy : StatusXy
  untracked : Bool
  conflicted : Bool

/-- One published status: rows of distinct checkout-relative paths, none of them empty. -/
structure StatusSnapshot where
  worktreePath : Text
  entries : List StatusEntry
  generation : Nat
  named : ∀ entry ∈ entries, entry.path ≠ []
  distinct : (entries.map StatusEntry.path).Nodup

structure GitStatusEntry where
  path : Text
  status : Char
  staged : Option Bool
deriving DecidableEq

def collapse (entry : StatusEntry) (path : Text) : Option GitStatusEntry :=
  if entry.conflicted then some ⟨path, 'U', none⟩
  else if entry.untracked then some ⟨path, '?', none⟩
  else
    match entry.xy.index, entry.xy.worktree with
    | some letter, _ => some ⟨path, letter, some true⟩
    | none, some letter => some ⟨path, letter, some false⟩
    | none, none => none

variable (toLowerCase : Text → Text)

def statusRow (checkout root : Text) (map : JsMap Text GitStatusEntry) (entry : StatusEntry) :
    JsMap Text GitStatusEntry :=
  let key := joinPosix checkout entry.path
  match relativeUnder toLowerCase root key with
  | none => map
  | some rel =>
    if rel.length = 0 then map
    else
      match collapse entry rel with
      | none => map
      | some collapsed => map.set key collapsed

def toStatusMap (snapshot : StatusSnapshot) (root : Text) : JsMap Text GitStatusEntry :=
  snapshot.entries.foldl (statusRow toLowerCase (toPosix snapshot.worktreePath) root) .empty

/-- A client's cached status; it is kept while a subscription keeps it current. -/
structure StatusClient where
  subscribed : Bool
  latest : Option StatusSnapshot

def StatusClient.remember (client : StatusClient) (snapshot : StatusSnapshot) : StatusClient :=
  match client.latest with
  | none => { client with latest := some snapshot }
  | some latest =>
    if snapshot.generation ≥ latest.generation then { client with latest := some snapshot } else client

/-- `getStatus`, with what the service's status call answers; a failure is an empty map. -/
def StatusClient.getStatus (client : StatusClient) (rootPath : Text) (status : Option StatusSnapshot) :
    JsMap Text GitStatusEntry × StatusClient :=
  match if client.subscribed then client.latest else none with
  | some snapshot => (toStatusMap toLowerCase snapshot (toPosix rootPath), client)
  | none =>
    match status with
    | none => (.empty, client)
    | some snapshot => (toStatusMap toLowerCase snapshot (toPosix rootPath),
        if client.subscribed then client.remember snapshot else client)

end Status

section Adapters

variable (toLowerCase : Text → Text)

/-- `translate` of `checkoutPaths`, with the checkout root the opened worktree's identity
tells. -/
def translate (identity worktreePath : Text) (paths : List Text) (rootPath : Option Text) :
    Except GitError (List Text) := do
  let safe ← paths.mapM assertRelative
  let checkout := toPosix identity
  let start := (relativeUnder toLowerCase checkout (toPosix worktreePath)).getD []
  let base ← match rootPath with
    | none => .ok start
    | some rootPath =>
      if sameSpelling toLowerCase (toPosix rootPath) (toPosix worktreePath) then .ok start
      else
        match relativeUnder toLowerCase checkout (toPosix rootPath) with
        | none => .error (outside rootPath)
        | some rel => .ok rel
  .ok (safe.map fun path => if base.length = 0 then path else base ++ [slash] ++ path)

/-- One side of a comparison: the working tree or a revision. -/
inductive CompareSide where
  | working
  | revision (revision : Text)

/-- What an adapter asks of the engine, by the paths it names. -/
inductive EngineCall where
  | stage (paths : List Text)
  | unstage (paths : List Text)
  | restore (paths : List Text)
  | log (path : Text)
  | readWorktreeFile (path : Text)
  | readObject (path revision : Text)

def EngineCall.paths : EngineCall → List Text
  | .stage paths | .unstage paths | .restore paths => paths
  | .log path | .readWorktreeFile path | .readObject path _ => [path]

/-- A call of an adapter. -/
inductive AdapterCall where
  | revert (paths : List Text)
  | stage (paths : List Text)
  | unstage (paths : List Text)
  | compare (path : Text) (left right : CompareSide)
  | getHistory (path : Text)

def AdapterCall.paths : AdapterCall → List Text
  | .revert paths | .stage paths | .unstage paths => paths
  | .compare path _ _ | .getHistory path => [path]

variable (identity worktreePath : Text) (rootPath : Option Text)

/-- A call by a list of names does nothing for an empty list. -/
def byNames (call : List Text → EngineCall) (paths : List Text) : Except GitError (List EngineCall) := do
  if paths.length = 0 then .ok []
  else .ok [call (← translate toLowerCase identity worktreePath paths rootPath)]

def load (target : Text) : CompareSide → EngineCall
  | .working => .readWorktreeFile target
  | .revision revision => .readObject target revision

/-- What the adapters built on the worktree ask of the engine, or what they reject with. -/
def AdapterCall.handed : AdapterCall → Except GitError (List EngineCall)
  | .revert paths => byNames toLowerCase identity worktreePath rootPath .restore paths
  | .stage paths => byNames toLowerCase identity worktreePath rootPath .stage paths
  | .unstage paths => byNames toLowerCase identity worktreePath rootPath .unstage paths
  | .compare path left right => do
    let targets ← translate toLowerCase identity worktreePath [path] rootPath
    .ok (targets.flatMap fun target => [load target left, load target right])
  | .getHistory path => do
    let targets ← translate toLowerCase identity worktreePath [path] rootPath
    .ok (targets.map .log)

end Adapters

end Mille.Ui.Engine
