import Mille.Git.StatusMerge

/-! Discarding worktree changes: `git restore --worktree`, and the fallback for a git
that has no `restore`. -/

namespace Mille.Git

open Std (ExtTreeMap)

inductive GitErrorKind where
  | invalidInput
  | access
  | notFound
  | notARepo
  | noGit
  | canceled
  | unsupported
  | hook
  | timeout
  | locked
  | io
  | unknown
deriving DecidableEq

/-- What the index holds for a path: a staged blob, or the stages of a conflict. -/
inductive IndexEntry (β : Type) where
  | merged (blob : β)
  | unmerged (stages : List β)
deriving DecidableEq

/-- `HEAD`, the index with its conflict stages, and the worktree. -/
structure Tree (β : Type) where
  head : ExtTreeMap String β
  index : ExtTreeMap String (IndexEntry β)
  worktree : ExtTreeMap String β

/-- A pathspec names a file, or everything below a folder. -/
def named (specs : List String) (path : String) : Bool := specs.any (Within path ·)

namespace Tree

variable {β : Type} (tree : Tree β)

/-- `restore` knows the pathspec, and nothing it names is in conflict. -/
def restorable (spec : String) : Bool :=
  tree.index.toList.any (Within ·.1 spec) && tree.index.toList.all fun binding =>
    !(Within binding.1 spec && match binding.2 with | .merged _ => false | .unmerged _ => true)

/-- The staged blobs the pathspecs name. -/
def staged (specs : List String) : List (String × β) :=
  tree.index.toList.filterMap fun binding =>
    match binding.2 with
    | .merged blob => if named specs binding.1 then some (binding.1, blob) else none
    | .unmerged _ => none

/-- The blobs of `HEAD` the pathspecs name. -/
def committed (specs : List String) : List (String × β) :=
  tree.head.toList.filter fun binding => named specs binding.1

/-- `git restore --worktree`, when it does not fail. -/
def restoreWorktree (specs : List String) : Tree β :=
  { tree with worktree := Maps.insertAll tree.worktree (tree.staged specs) }

/-- `git checkout HEAD`, when it does not fail; the paths it takes leave their conflicts. -/
def checkoutHead (specs : List String) : Tree β :=
  { tree with
    index := Maps.insertAll tree.index ((tree.committed specs).map fun binding => (binding.1, .merged binding.2))
    worktree := Maps.insertAll tree.worktree (tree.committed specs) }

end Tree

/-- Git and what surrounds its runs: the kind of error a run with these arguments ends with
before git does anything. -/
abbrev Trouble := List String → Option GitErrorKind

section Runs

variable {β : Type} (trouble : Trouble)

def restoreArgs (specs : List String) : List String := ["restore", "--worktree", "--"] ++ specs

def checkoutArgs (specs : List String) : List String := ["checkout", "HEAD", "--"] ++ specs

/-- The error a run of `restore` ends with; what git itself refuses is an ordinary failure. -/
def restoreError (tree : Tree β) (specs : List String) : Option GitErrorKind :=
  (trouble (restoreArgs specs)).or (if specs.all tree.restorable then none else some .unknown)

/-- `checkout` refuses a pathspec that matches nothing. -/
def checkoutError (head : ExtTreeMap String β) (specs : List String) : Option GitErrorKind :=
  (trouble (checkoutArgs specs)).or
    (if specs.all fun spec => head.toList.any (Within ·.1 spec) then none else some .unknown)

def runRestore (specs : List String) (tree : Tree β) : Option GitErrorKind × Tree β :=
  match restoreError trouble tree specs with
  | some kind => (some kind, tree)
  | none => (none, tree.restoreWorktree specs)

def runCheckout (specs : List String) (tree : Tree β) : Option GitErrorKind × Tree β :=
  match checkoutError trouble tree.head specs with
  | some kind => (some kind, tree)
  | none => (none, tree.checkoutHead specs)

end Runs

def maxPathsArgvChars : Nat := 30000

/-- The chunks so far, the one being filled, and its characters. -/
structure Chunking where
  chunks : List (List String)
  current : List String
  used : Nat

def Chunking.add (budget : Nat) (chunking : Chunking) (path : String) : Chunking :=
  let cost := path.utf8ByteSize + 1
  if chunking.current ≠ [] ∧ chunking.used + cost > budget then
    ⟨chunking.chunks ++ [chunking.current], [path], cost⟩
  else ⟨chunking.chunks, chunking.current ++ [path], chunking.used + cost⟩

/-- Argv-sized chunks; an over-long path gets a chunk of its own. -/
def chunkPaths (paths : List String) (budget : Nat) : List (List String) :=
  let chunking := paths.foldl (Chunking.add budget) ⟨[], [], 0⟩
  if chunking.current = [] then chunking.chunks else chunking.chunks ++ [chunking.current]

/-- One run for each chunk, until one fails. -/
def forEachChunk {β : Type} (run : List String → Tree β → Option GitErrorKind × Tree β) :
    List (List String) → Tree β → Option GitErrorKind × Tree β
  | [], tree => (none, tree)
  | chunk :: rest, tree =>
    match run chunk tree with
    | (none, after) => forEachChunk run rest after
    | (some kind, after) => (some kind, after)

/-- The checks before anything runs, and the runs. -/
structure Engine where
  validatePaths : List String → Option GitErrorKind
  requireWorktree : Option GitErrorKind
  requireGit : Option GitErrorKind
  trouble : Trouble

/-- The first check that fails. -/
def Engine.refusal (engine : Engine) (paths : List String) : Option GitErrorKind :=
  (engine.validatePaths paths).or (engine.requireWorktree.or (if paths = [] then none else engine.requireGit))

/-- `mutation::restore`. -/
def restore {β : Type} (engine : Engine) (paths : List String) (tree : Tree β) : Option GitErrorKind × Tree β :=
  match engine.refusal paths with
  | some kind => (some kind, tree)
  | none =>
    if paths = [] then (none, tree)
    else
      match forEachChunk (runRestore engine.trouble) (chunkPaths paths maxPathsArgvChars) tree with
      | (some .unknown, after) =>
        forEachChunk (runCheckout engine.trouble) (chunkPaths paths maxPathsArgvChars) after
      | other => other

/-- The shell's git: a path outside the root, and whether an aborted run throws. -/
structure Shell where
  assertPathsUnderRoot : List String → Bool
  aborted : List String → Bool
  trouble : Trouble

/-- `revert` of the shell's `ScmClient`, and whether it throws. -/
def Shell.revert {β : Type} (shell : Shell) (paths : List String) (tree : Tree β) : Bool × Tree β :=
  if paths = [] then (false, tree)
  else if !shell.assertPathsUnderRoot paths || shell.aborted (restoreArgs paths) then (true, tree)
  else
    match runRestore shell.trouble paths tree with
    | (none, after) => (false, after)
    | (some _, after) =>
      if shell.aborted (checkoutArgs paths) then (true, after)
      else
        match runCheckout shell.trouble paths after with
        | (none, last) => (false, last)
        | (some _, last) => (true, last)

/-! ### What a run leaves of the index -/

section Index

variable {β : Type} {trouble : Trouble} {tree : Tree β} {specs : List String} {path : String}

/-- `checkout` takes every named path of `HEAD` out of it, and no other path. -/
theorem lookup_checkoutHead : (tree.checkoutHead specs).index[path]? =
    match tree.head[path]? with
    | some blob => if named specs path then some (.merged blob) else tree.index[path]?
    | none => tree.index[path]? := by
  have distinct : (((tree.committed specs).map fun binding =>
      (binding.1, IndexEntry.merged binding.2)).map Prod.fst).Nodup := by
    rw [List.map_map]
    apply List.pairwise_map.mpr
    exact (ExtTreeMap.distinct_keys_toList.imp fun apart same => apart (by simpa using same)).filter _
  have member : ∀ entry, (path, entry) ∈ (tree.committed specs).map (fun binding =>
      (binding.1, IndexEntry.merged binding.2)) ↔
        ∃ blob, tree.head[path]? = some blob ∧ named specs path = true ∧ IndexEntry.merged blob = entry := by
    intro entry
    simp only [Tree.committed, List.mem_map, List.mem_filter, Prod.exists, Prod.mk.injEq,
      ExtTreeMap.mem_toList_iff_getElem?_eq_some]
    constructor
    · rintro ⟨_, blob, ⟨there, spec⟩, rfl, same⟩
      exact ⟨blob, there, spec, same⟩
    · rintro ⟨blob, there, spec, same⟩
      exact ⟨path, blob, ⟨there, spec⟩, rfl, same⟩
  unfold Tree.checkoutHead
  cases there : tree.head[path]? with
  | some blob =>
    cases spec : named specs path with
    | true => exact Maps.lookup_insertAll_of_mem distinct ((member _).mpr ⟨blob, there, spec, rfl⟩)
    | false =>
      apply Maps.lookup_insertAll_of_not_mem
      intro inside
      obtain ⟨⟨_, entry⟩, listed, rfl⟩ := List.mem_map.mp inside
      obtain ⟨_, _, named, _⟩ := (member entry).mp listed
      rw [spec] at named
      cases named
  | none =>
    apply Maps.lookup_insertAll_of_not_mem
    intro inside
    obtain ⟨⟨_, entry⟩, listed, rfl⟩ := List.mem_map.mp inside
    obtain ⟨_, found, _⟩ := (member entry).mp listed
    rw [there] at found
    cases found

/-- What `HEAD` has of the named paths is staged, and none of it is in conflict. -/
def Tree.Settled (tree : Tree β) (specs : List String) : Prop :=
  ∀ path blob, tree.head[path]? = some blob → named specs path = true →
    tree.index[path]? = some (.merged blob)

theorem checkoutHead_index_iff : (tree.checkoutHead specs).index = tree.index ↔ tree.Settled specs := by
  constructor
  · intro same path blob there spec
    have found := @lookup_checkoutHead β tree specs path
    rw [same, there] at found
    rw [found]
    simp only [spec, ↓reduceIte]
  · intro settled
    apply ExtTreeMap.ext_getElem?
    intro path
    rw [lookup_checkoutHead]
    cases there : tree.head[path]? with
    | none => rfl
    | some blob =>
      simp only
      split_ifs with spec
      · exact (settled path blob there spec).symm
      · rfl

@[simp] theorem checkoutHead_head : (tree.checkoutHead specs).head = tree.head := rfl

theorem runRestore_keeps : (runRestore trouble specs tree).2.index = tree.index ∧
    (runRestore trouble specs tree).2.head = tree.head := by
  unfold runRestore
  cases restoreError trouble tree specs with
  | none => exact ⟨rfl, rfl⟩
  | some kind => exact ⟨rfl, rfl⟩

theorem runRestore_error : (runRestore trouble specs tree).1 = restoreError trouble tree specs := by
  unfold runRestore
  cases restoreError trouble tree specs <;> rfl

theorem restoreError_congr {other : Tree β} (same : other.index = tree.index) :
    restoreError trouble other specs = restoreError trouble tree specs := by
  have each : other.restorable = tree.restorable := by
    funext spec
    rw [Tree.restorable, Tree.restorable, same]
  rw [restoreError, restoreError, each]

theorem forEachChunk_restore (chunks : List (List String)) (tree : Tree β) :
    (forEachChunk (runRestore trouble) chunks tree).1 = chunks.findSome? (restoreError trouble tree) ∧
      (forEachChunk (runRestore trouble) chunks tree).2.index = tree.index ∧
        (forEachChunk (runRestore trouble) chunks tree).2.head = tree.head := by
  induction chunks generalizing tree with
  | nil => exact ⟨rfl, rfl, rfl⟩
  | cons chunk rest ih =>
    have error := @runRestore_error β trouble tree chunk
    have keeps := @runRestore_keeps β trouble tree chunk
    rw [forEachChunk, List.findSome?_cons, ← error]
    match runRestore trouble chunk tree, keeps with
    | (some kind, after), keeps => exact ⟨rfl, keeps⟩
    | (none, after), keeps =>
      obtain ⟨failed, index, head⟩ := ih after
      have later : restoreError trouble after = restoreError trouble tree :=
        funext fun specs => restoreError_congr keeps.1
      exact ⟨later ▸ failed, index.trans keeps.1, head.trans keeps.2⟩

/-- The chunks `checkout` runs over before it fails. -/
def checkedOut (trouble : Trouble) (head : ExtTreeMap String β) (chunks : List (List String)) :
    List (List String) :=
  chunks.takeWhile fun chunk => (checkoutError trouble head chunk).isNone

theorem forEachChunk_checkout_keeps (chunks : List (List String)) (tree : Tree β) {blob : β}
    (there : tree.head[path]? = some blob) (taken : tree.index[path]? = some (.merged blob)) :
    (forEachChunk (runCheckout trouble) chunks tree).2.index[path]? = some (.merged blob) := by
  induction chunks generalizing tree with
  | nil => exact taken
  | cons chunk rest ih =>
    rw [forEachChunk, runCheckout]
    cases checkoutError trouble tree.head chunk with
    | some kind => exact taken
    | none =>
      apply ih (tree.checkoutHead chunk) there
      rw [lookup_checkoutHead, there]
      simp only
      split_ifs
      · rfl
      · exact taken

/-- The fallback leaves the index exactly when it had nothing to take. -/
theorem forEachChunk_checkout_iff (chunks : List (List String)) (tree : Tree β) :
    (forEachChunk (runCheckout trouble) chunks tree).2.index = tree.index ↔
      ∀ chunk ∈ checkedOut trouble tree.head chunks, tree.Settled chunk := by
  induction chunks generalizing tree with
  | nil => exact iff_of_true rfl (by simp [checkedOut])
  | cons chunk rest ih =>
    rw [forEachChunk, runCheckout, checkedOut, List.takeWhile_cons]
    cases checkoutError trouble tree.head chunk with
    | some kind => simp
    | none =>
      simp only [Option.isNone_none, ↓reduceIte, List.forall_mem_cons]
      constructor
      · intro same
        have settled : tree.Settled chunk := by
          intro path blob there spec
          have taken := @lookup_checkoutHead β tree chunk path
          rw [there] at taken
          simp only [spec, ↓reduceIte] at taken
          rw [← same]
          exact forEachChunk_checkout_keeps rest _ there taken
        have index := checkoutHead_index_iff.mpr settled
        refine ⟨settled, ?_⟩
        have later := (ih (tree.checkoutHead chunk)).mp (same.trans index.symm)
        intro chunk' member path blob there spec
        rw [← index]
        exact later chunk' member path blob there spec
      · rintro ⟨settled, later⟩
        have index := checkoutHead_index_iff.mpr settled
        rw [(ih (tree.checkoutHead chunk)).mpr ?_, index]
        intro chunk' member path blob there spec
        rw [index]
        exact later chunk' member path blob there spec

end Index

/-! ### Discarding -/

section Discarding

variable {β : Type}

/-- The checks pass, and the first chunk `restore` fails on fails as git itself fails. -/
def Engine.FallsBack (engine : Engine) (paths : List String) (tree : Tree β) : Prop :=
  engine.refusal paths = none ∧ paths ≠ [] ∧
    (chunkPaths paths maxPathsArgvChars).findSome? (restoreError engine.trouble tree) = some .unknown

/-- Nothing throws before the fallback, and `restore` fails. -/
def Shell.FallsBack (shell : Shell) (paths : List String) (tree : Tree β) : Prop :=
  paths ≠ [] ∧ shell.assertPathsUnderRoot paths = true ∧ shell.aborted (restoreArgs paths) = false ∧
    restoreError shell.trouble tree paths ≠ none ∧ shell.aborted (checkoutArgs paths) = false

theorem restore_keeps_index_iff (engine : Engine) (paths : List String) (tree : Tree β) :
    (restore engine paths tree).2.index = tree.index ↔ (engine.FallsBack paths tree →
      ∀ chunk ∈ checkedOut engine.trouble tree.head (chunkPaths paths maxPathsArgvChars),
        tree.Settled chunk) := by
  unfold restore Engine.FallsBack
  cases engine.refusal paths with
  | some kind => exact iff_of_true rfl fun fallsBack => absurd fallsBack.1 (by simp)
  | none =>
    by_cases empty : paths = []
    · rw [if_pos empty]
      exact iff_of_true rfl fun fallsBack => absurd empty fallsBack.2.1
    · simp only [ne_eq, empty, not_false_eq_true, true_and]
      obtain ⟨failed, index, head⟩ :=
        @forEachChunk_restore β engine.trouble (chunkPaths paths maxPathsArgvChars) tree
      rw [← failed]
      match forEachChunk (runRestore engine.trouble) (chunkPaths paths maxPathsArgvChars) tree, index, head with
      | (none, after), index, _ => exact iff_of_true index (by simp)
      | (some kind, after), index, head =>
        by_cases ordinary : kind = .unknown
        · subst ordinary
          have whole := @forEachChunk_checkout_iff β engine.trouble
            (chunkPaths paths maxPathsArgvChars) after
          have settled : ∀ specs, after.Settled specs ↔ tree.Settled specs := by
            intro specs
            rw [Tree.Settled, Tree.Settled, index, head]
          simp only [settled] at whole
          rw [index, head] at whole
          simpa using whole
        · have other : (match ((some kind, after) : Option GitErrorKind × Tree β) with
              | (some .unknown, after) =>
                forEachChunk (runCheckout engine.trouble) (chunkPaths paths maxPathsArgvChars) after
              | other => other) = (some kind, after) := by
            cases kind <;> first | rfl | exact absurd rfl ordinary
          rw [other]
          exact iff_of_true index fun same => absurd (Option.some.inj same) ordinary

theorem runCheckout_keeps_index_iff {trouble : Trouble} {specs : List String} {tree : Tree β} :
    (runCheckout trouble specs tree).2.index = tree.index ↔
      (checkoutError trouble tree.head specs = none → tree.Settled specs) := by
  unfold runCheckout
  cases checkoutError trouble tree.head specs with
  | some kind => exact iff_of_true rfl (by simp)
  | none => exact checkoutHead_index_iff.trans ⟨fun settled _ => settled, fun settled => settled rfl⟩

theorem Shell.revert_keeps_index_iff (shell : Shell) (paths : List String) (tree : Tree β) :
    (shell.revert paths tree).2.index = tree.index ↔ (shell.FallsBack paths tree →
      checkoutError shell.trouble tree.head paths = none → tree.Settled paths) := by
  unfold Shell.revert Shell.FallsBack
  by_cases empty : paths = []
  · rw [if_pos empty]
    exact iff_of_true rfl fun fallsBack => absurd empty fallsBack.1
  rw [if_neg empty]
  cases inside : shell.assertPathsUnderRoot paths with
  | false => exact iff_of_true rfl fun fallsBack => absurd fallsBack.2.1 (by simp)
  | true =>
    cases early : shell.aborted (restoreArgs paths) with
    | true => exact iff_of_true rfl fun fallsBack => absurd fallsBack.2.2.1 (by simp)
    | false =>
      simp only [Bool.not_true, Bool.or_self, Bool.false_eq_true, ↓reduceIte, ne_eq, empty,
        not_false_eq_true, true_and]
      unfold runRestore
      cases failed : restoreError shell.trouble tree paths with
      | none => exact iff_of_true rfl (by simp)
      | some kind =>
        cases late : shell.aborted (checkoutArgs paths) with
        | true => exact iff_of_true rfl (by simp)
        | false =>
          have whole := @runCheckout_keeps_index_iff β shell.trouble paths tree
          simp only [Bool.false_eq_true, ↓reduceIte, reduceCtorEq, not_false_eq_true, true_and,
            forall_const]
          rw [← whole]
          match runCheckout shell.trouble paths tree with
          | (none, last) => exact Iff.rfl
          | (some _, last) => exact Iff.rfl

/-- Discarding leaves the index as it is exactly when the fallback is not taken, or finds
everything it takes from `HEAD` staged as `HEAD` has it. -/
theorem discard_keeps_index_iff (paths : List String) (tree : Tree β) :
    (∀ engine : Engine, (restore engine paths tree).2.index = tree.index ↔
      (engine.FallsBack paths tree →
        ∀ chunk ∈ checkedOut engine.trouble tree.head (chunkPaths paths maxPathsArgvChars),
          tree.Settled chunk)) ∧
      ∀ shell : Shell, (shell.revert paths tree).2.index = tree.index ↔
        (shell.FallsBack paths tree →
          checkoutError shell.trouble tree.head paths = none → tree.Settled paths) :=
  ⟨fun engine => restore_keeps_index_iff engine paths tree,
    fun shell => shell.revert_keeps_index_iff paths tree⟩

/-- `a` has a staged change, and `b` is in conflict. -/
def conflictedTree : Tree Nat where
  head := Maps.insertAll {} [("a", 1), ("b", 1)]
  index := Maps.insertAll {} [("a", .merged 2), ("b", .unmerged [1, 2, 3])]
  worktree := Maps.insertAll {} [("a", 3), ("b", 4)]

def calmEngine : Engine := ⟨fun _ => none, none, none, fun _ => none⟩

/-- The staged change of `a` is lost, and so is the conflict of `b`. -/
theorem discard_loses_staged : ¬(restore calmEngine ["a", "b"] conflictedTree).2.index = conflictedTree.index := by
  intro same
  have entry : (restore calmEngine ["a", "b"] conflictedTree).2.index["a"]? =
      conflictedTree.index["a"]? := by
    rw [same]
  revert entry
  decide

end Discarding

end Mille.Git
