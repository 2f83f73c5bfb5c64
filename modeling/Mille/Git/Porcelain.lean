import Mille.Lib.Encoding
import Mille.Git.Status

/-! The two parsers of `git status --porcelain=v2 -z`: the engine's, which reads
bytes and keeps both columns, and the shell client's, which reads a JavaScript
string and keeps one letter for each path. -/

namespace Mille.Git.Porcelain

/-- Fixed fields before the path, for each kind of record. -/
def ordinaryFields : Nat := 8
def renameFields : Nat := 9
def unmergedFields : Nat := 10

/-- The parts of a warning; the token is shown lossily. -/
inductive Warning where
  | malformed (tag : Char) (token : List UInt8)
  | unrecognised (token : List UInt8)
deriving DecidableEq

structure Parsed where
  entries : List StatusEntry
  warnings : List Warning
deriving DecidableEq

namespace Parsed

def empty : Parsed := ⟨[], []⟩

def emit (entry : Option StatusEntry) (rest : Parsed) : Parsed :=
  { rest with entries := entry.toList ++ rest.entries }

def warn (warning : Warning) (rest : Parsed) : Parsed :=
  { rest with warnings := warning :: rest.warnings }

end Parsed

/-- A record's two letters and its path, which follows the fixed fields. -/
def splitRecord (token : List UInt8) (fields : Nat) : Option (UInt8 × UInt8 × String) :=
  match token with
  | _ :: space :: x :: y :: _ :: _ =>
    if space ≠ utf8.unit ' ' then none
    else match afterFields (utf8.unit ' ') fields token with
      | some (byte :: rest) => some (x, y, fromUtf8Lossy (byte :: rest))
      | _ => none
  | _ => none

/-- A row is skipped when neither column has a letter. -/
def xyEntry (x y : UInt8) (path : String) (origPath : Option String) : Option StatusEntry :=
  let xy : StatusXy := ⟨StatusLetter.fromPorcelain x, StatusLetter.fromPorcelain y⟩
  if xy.index.isNone && xy.worktree.isNone then none else some (.ofTracked path origPath xy)

/-- The loop of `parse_porcelain_v2` over the chunks between NUL bytes. A rename's
second chunk is consumed whether or not its head can be read. -/
def parseTokens : List (List UInt8) → Parsed
  | [] => .empty
  | [] :: rest => parseTokens rest
  | (tag :: fields) :: rest =>
    let token := tag :: fields
    if tag = utf8.unit '1' then
      match splitRecord token ordinaryFields with
      | some (x, y, path) => (parseTokens rest).emit (xyEntry x y path none)
      | none => (parseTokens rest).warn (.malformed '1' token)
    else if tag = utf8.unit '2' then
      match rest with
      | [] => Parsed.empty.warn (.malformed '2' token)
      | orig :: rest =>
        match splitRecord token renameFields, orig with
        | some (x, y, path), _ :: _ =>
          (parseTokens rest).emit (xyEntry x y path (some (fromUtf8Lossy orig)))
        | _, _ => (parseTokens rest).warn (.malformed '2' token)
    else if tag = utf8.unit 'u' then
      match splitRecord token unmergedFields with
      | some (x, y, path) =>
        let xy : StatusXy := ⟨StatusLetter.fromPorcelain x, StatusLetter.fromPorcelain y⟩
        (parseTokens rest).emit (some (.ofConflicted path xy))
      | none => (parseTokens rest).warn (.malformed 'u' token)
    else if tag = utf8.unit '?' then
      match token.drop 2 with
      | [] => (parseTokens rest).warn (.malformed '?' token)
      | path => (parseTokens rest).emit (some (.ofUntracked (fromUtf8Lossy path)))
    else if tag = utf8.unit '!' ∨ tag = utf8.unit '#' then parseTokens rest
    else (parseTokens rest).warn (.unrecognised (token.take 40))

/-- `parse_porcelain_v2` of the engine. -/
def parse (buffer : List UInt8) : Parsed :=
  parseTokens (buffer.splitOn (utf8.unit '\x00'))

end Mille.Git.Porcelain

namespace Mille.Git.ShellClient

/-- A JavaScript string, as UTF-16 code units. -/
abbrev JsString := List UInt16

structure GitStatusEntry where
  path : JsString
  status : StatusLetter
  staged : Option Bool
deriving DecidableEq

/-- A JavaScript `Map`, in insertion order. -/
abbrev StatusMap := List (JsString × GitStatusEntry)

/-- `Map.prototype.set`: an existing key keeps its place. -/
def StatusMap.set (map : StatusMap) (key : JsString) (entry : GitStatusEntry) : StatusMap :=
  if key ∈ map.map Prod.fst then
    map.map fun binding => if binding.1 = key then (key, entry) else binding
  else map ++ [(key, entry)]

def parseLetter (unit : UInt16) : Option StatusLetter :=
  if unit = utf16.unit 'M' then some .modified
  else if unit = utf16.unit 'A' then some .added
  else if unit = utf16.unit 'D' then some .deleted
  else if unit = utf16.unit 'R' then some .renamed
  else if unit = utf16.unit 'C' then some .copied
  else if unit = utf16.unit 'U' then some .unmerged
  else if unit = utf16.unit 'T' then some .modified
  else none

/-- Collapses the two columns: the index wins, else the worktree. -/
def xyToEntry (x y : UInt16) (relPath : JsString) : Option GitStatusEntry :=
  match parseLetter x, parseLetter y with
  | some letter, _ => some ⟨relPath, letter, some true⟩
  | none, some letter => some ⟨relPath, letter, some false⟩
  | none, none => none

/-- The two letters and the path of a `1`, `2` or `u` record. -/
def parseRecord (line : JsString) (fieldsBeforePath : Nat) :
    Option (UInt16 × UInt16 × JsString) :=
  match line with
  | _ :: _ :: x :: y :: _ :: _ =>
    match afterFields (utf16.unit ' ') fieldsBeforePath line with
    | some (unit :: rest) => some (x, y, unit :: rest)
    | _ => none
  | _ => none

/-- Records an entry under its absolute path, or leaves the map as it is. -/
def record (resolve : JsString → JsString) (map : StatusMap) : Option GitStatusEntry → StatusMap
  | some entry => map.set (resolve entry.path) entry
  | none => map

/-- The loop of `parsePorcelainV2` over the NUL-separated tokens. A rename's second
token is skipped only after its head has been read. -/
def parseLines (resolve : JsString → JsString) : StatusMap → List JsString → StatusMap
  | map, [] => map
  | map, [] :: rest => parseLines resolve map rest
  | map, (tag :: fields) :: rest =>
    let line := tag :: fields
    if tag = utf16.unit '1' then
      match parseRecord line 8 with
      | some (x, y, path) => parseLines resolve (record resolve map (xyToEntry x y path)) rest
      | none => parseLines resolve map rest
    else if tag = utf16.unit '2' then
      match parseRecord line 9 with
      | some (x, y, path) =>
        let map := record resolve map (xyToEntry x y path)
        match rest with
        | [] => map
        | _ :: rest => parseLines resolve map rest
      | none => parseLines resolve map rest
    else if tag = utf16.unit '?' then
      match line.drop 2 with
      | [] => parseLines resolve map rest
      | rel => parseLines resolve (record resolve map (some ⟨rel, .untracked, none⟩)) rest
    else if tag = utf16.unit '!' then parseLines resolve map rest
    else if tag = utf16.unit 'u' then
      match parseRecord line 10 with
      | some (_, _, rel) =>
        parseLines resolve (record resolve map (some ⟨rel, .unmerged, none⟩)) rest
      | none => parseLines resolve map rest
    else parseLines resolve map rest

/-- A trailing NUL leaves an empty last token, which is dropped. -/
def lines (buffer : JsString) : List JsString :=
  let tokens := buffer.splitOn (utf16.unit '\x00')
  if tokens.getLast? = some [] then tokens.dropLast else tokens

/-- `parsePorcelainV2` of the shell client; `resolve` joins a path with the root. -/
def parsePorcelainV2 (resolve : JsString → JsString) (buffer : JsString) : StatusMap :=
  parseLines resolve [] (lines buffer)

end Mille.Git.ShellClient
