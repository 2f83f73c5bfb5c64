import Mille.Git.Status

/-! The include-set commit: what `plan_include_set` adds and unstages, run against
a repository whose status rows are derived as porcelain v2 derives them. -/

namespace Mille.Git

/-- Whether an include-set takes a row: by its path, or by its origin. -/
def StatusEntry.includedBy (entry : StatusEntry) (included : List String) : Bool :=
  decide (entry.path ∈ included) || entry.origPath.any (decide <| · ∈ included)

/-- One row's share of the plan, as (paths to add, paths to unstage). -/
def planEntry (included : List String) (plan : Finset String × Finset String)
    (entry : StatusEntry) : Finset String × Finset String :=
  if entry.includedBy included then
    if entry.untracked || entry.conflicted || entry.xy.worktree.isSome then
      (insert entry.path plan.1, plan.2)
    else plan
  else if entry.staged then
    (plan.1, entry.origPath.toFinset ∪ insert entry.path plan.2)
  else plan

/-- The paths to `git add` and the paths to unstage for an include-set. -/
def planIncludeSet (current : List StatusEntry) (included : List String) :
    List String × List String :=
  let plan := current.foldl (planEntry included) (∅, ∅)
  (plan.1.sort, plan.2.sort)

/-- An included row adds its path when it has something unstaged. -/
def StatusEntry.Adds (entry : StatusEntry) (included : List String) (path : String) : Prop :=
  entry.includedBy included = true ∧
    (entry.untracked || entry.conflicted || entry.xy.worktree.isSome) = true ∧ entry.path = path

/-- A staged row that is not included unstages both of its names. -/
def StatusEntry.Unstages (entry : StatusEntry) (included : List String) (path : String) : Prop :=
  entry.includedBy included = false ∧ entry.staged = true ∧
    (entry.path = path ∨ entry.origPath = some path)

private theorem mem_planEntry (included : List String) (plan : Finset String × Finset String)
    (entry : StatusEntry) (path : String) :
    (path ∈ (planEntry included plan entry).1 ↔ path ∈ plan.1 ∨ entry.Adds included path) ∧
    (path ∈ (planEntry included plan entry).2 ↔ path ∈ plan.2 ∨ entry.Unstages included path) := by
  unfold planEntry StatusEntry.Adds StatusEntry.Unstages
  cases entry.includedBy included with
  | true =>
    cases entry.untracked || entry.conflicted || entry.xy.worktree.isSome with
    | true =>
      simp only [↓reduceIte, Finset.mem_insert, true_and, eq_comm]
      refine ⟨or_comm, ?_⟩
      simp
    | false => simp
  | false =>
    cases entry.staged with
    | true =>
      simp only [Bool.false_eq_true, ↓reduceIte, false_and, or_false, Finset.mem_union,
        Option.mem_toFinset, Option.mem_def, Finset.mem_insert, true_and, eq_comm]
      tauto
    | false => simp

private theorem mem_plan_fold (current : List StatusEntry) (included : List String)
    (plan : Finset String × Finset String) (path : String) :
    (path ∈ (current.foldl (planEntry included) plan).1 ↔
      path ∈ plan.1 ∨ ∃ entry ∈ current, entry.Adds included path) ∧
    (path ∈ (current.foldl (planEntry included) plan).2 ↔
      path ∈ plan.2 ∨ ∃ entry ∈ current, entry.Unstages included path) := by
  induction current generalizing plan with
  | nil => simp
  | cons head rest ih =>
    simp only [List.foldl_cons, List.exists_mem_cons_iff]
    rw [(ih _).1, (ih _).2, (mem_planEntry included plan head path).1,
      (mem_planEntry included plan head path).2, or_assoc, or_assoc]
    exact ⟨Iff.rfl, Iff.rfl⟩

theorem mem_planIncludeSet_add {current : List StatusEntry} {included : List String} {path : String} :
    path ∈ (planIncludeSet current included).1 ↔ ∃ entry ∈ current, entry.Adds included path := by
  simp only [planIncludeSet, Finset.mem_sort]
  rw [(mem_plan_fold current included (∅, ∅) path).1]
  simp

theorem mem_planIncludeSet_unstage {current : List StatusEntry} {included : List String}
    {path : String} :
    path ∈ (planIncludeSet current included).2 ↔ ∃ entry ∈ current, entry.Unstages included path := by
  simp only [planIncludeSet, Finset.mem_sort]
  rw [(mem_plan_fold current included (∅, ∅) path).2]
  simp

/-- `HEAD`, the index and the worktree, as maps from path to blob. -/
structure Repository (β : Type) where
  head : String → Option β
  index : String → Option β
  worktree : String → Option β

namespace Repository

variable {β : Type}

def add (repository : Repository β) (path : String) : Repository β :=
  { repository with index := Function.update repository.index path (repository.worktree path) }

def unstage (repository : Repository β) (path : String) : Repository β :=
  { repository with index := Function.update repository.index path (repository.head path) }

/-- The two lists of a plan, run as `commit` runs them: first the additions. -/
def runPlan (repository : Repository β) (plan : List String × List String) : Repository β :=
  plan.2.foldl unstage (plan.1.foldl add repository)

private theorem add_all (repository : Repository β) (paths : List String) :
    (paths.foldl add repository).head = repository.head ∧
    (paths.foldl add repository).worktree = repository.worktree ∧
    ∀ path, (paths.foldl add repository).index path =
      if path ∈ paths then repository.worktree path else repository.index path := by
  induction paths generalizing repository with
  | nil => simp
  | cons first rest ih =>
    obtain ⟨head, worktree, index⟩ := ih (repository.add first)
    refine ⟨head, worktree, fun path => ?_⟩
    rw [List.foldl_cons, index path]
    by_cases same : path = first
    · subst same
      simp [add]
    · simp [add, same]

private theorem unstage_all (repository : Repository β) (paths : List String) :
    ∀ path, (paths.foldl unstage repository).index path =
      if path ∈ paths then repository.head path else repository.index path := by
  induction paths generalizing repository with
  | nil => simp
  | cons first rest ih =>
    intro path
    rw [List.foldl_cons, ih (repository.unstage first) path]
    by_cases same : path = first
    · subst same
      simp [unstage]
    · simp [unstage, same]

theorem runPlan_index (repository : Repository β) (plan : List String × List String)
    (path : String) : (repository.runPlan plan).index path =
      if path ∈ plan.2 then repository.head path
      else if path ∈ plan.1 then repository.worktree path else repository.index path := by
  obtain ⟨head, -, index⟩ := add_all repository plan.1
  rw [runPlan, unstage_all, head, index path]

/-- The index adds a path `HEAD` does not have. -/
def StagedAddition (repository : Repository β) (path : String) : Prop :=
  repository.head path = none ∧ repository.index path ≠ none

/-- The index drops a path `HEAD` has. -/
def StagedDeletion (repository : Repository β) (path : String) : Prop :=
  repository.head path ≠ none ∧ repository.index path = none

/-- Which staged additions git reports as renames and copies, by their source.
Any pairing of deletions with additions is allowed; a copy's source is any path
of `HEAD`. -/
structure Detection (repository : Repository β) where
  renamed : String → Option String
  copied : String → Option String
  renamed_pairs : ∀ target source, renamed target = some source →
    repository.StagedAddition target ∧ repository.StagedDeletion source
  renamed_once : ∀ target other source, renamed target = some source →
    renamed other = some source → target = other
  copied_pairs : ∀ target source, copied target = some source →
    repository.StagedAddition target ∧ repository.head source ≠ none
  apart : ∀ target source, renamed target = some source → copied target = none

variable {repository : Repository β} [DecidableEq β]

/-- The `X` column of a path. -/
def indexLetter (detection : Detection repository) (path : String) : Option StatusLetter :=
  match repository.head path, repository.index path with
  | none, none => none
  | none, some _ =>
    if (detection.renamed path).isSome then some .renamed
    else if (detection.copied path).isSome then some .copied
    else some .added
  | some _, none => some .deleted
  | some old, some new => if old = new then none else some .modified

/-- The `Y` column of a path the index has. -/
def worktreeLetter (repository : Repository β) (path : String) : Option StatusLetter :=
  match repository.index path, repository.worktree path with
  | none, _ => none
  | some _, none => some .deleted
  | some old, some new => if old = new then none else some .modified

/-- The rows of `git status --porcelain=v2 --untracked-files=all`. A deletion that
is a rename's source is part of the rename's row. -/
inductive Reports (detection : Detection repository) : StatusEntry → Prop where
  | changed (path : String) (unpaired : ∀ target, detection.renamed target ≠ some path)
      (differs : (indexLetter detection path).isSome ∨ (worktreeLetter repository path).isSome) :
      Reports detection (.ofTracked path ((detection.renamed path).or (detection.copied path))
        ⟨indexLetter detection path, worktreeLetter repository path⟩)
  | untracked (path : String) (unknown : repository.index path = none)
      (present : repository.worktree path ≠ none) : Reports detection (.ofUntracked path)

/-- The rows of a status listing, in any order. -/
def Lists (detection : Detection repository) (current : List StatusEntry) : Prop :=
  ∀ entry, entry ∈ current ↔ Reports detection entry

/-- The include-set is committed exactly: the index differs from `HEAD` only at
included paths and at the other name of a rename of which one name is included,
it agrees with the worktree at every included path, and no path is both added and
unstaged. -/
structure CommitsExactly (detection : Detection repository) (included : List String)
    (plan : List String × List String) : Prop where
  only : ∀ path, (repository.runPlan plan).index path ≠ repository.head path → path ∈ included ∨
    ∃ target source, detection.renamed target = some source ∧
      ((path = target ∧ source ∈ included) ∨ (path = source ∧ target ∈ included))
  every : ∀ path ∈ included, (repository.runPlan plan).index path = repository.worktree path
  apart : ∀ path ∈ plan.1, path ∉ plan.2

section

variable {detection : Detection repository} {current : List StatusEntry} {included : List String}
variable {path source : String}

/-- The origin a row of this path names. -/
def Detection.origin (detection : Detection repository) (path : String) : Option String :=
  (detection.renamed path).or (detection.copied path)

omit [DecidableEq β] in
theorem Detection.origin_cases (found : detection.origin path = some source) :
    detection.renamed path = some source ∨ detection.copied path = some source := by
  simp only [Detection.origin, Option.or_eq_some_iff] at found
  exact found.imp id And.right

omit [DecidableEq β] in
theorem Detection.origin_addition (found : detection.origin path = some source) :
    repository.StagedAddition path := by
  rcases Detection.origin_cases found with renamed | copied
  · exact (detection.renamed_pairs path source renamed).1
  · exact (detection.copied_pairs path source copied).1

omit [DecidableEq β] in
theorem Detection.origin_in_head (found : detection.origin path = some source) :
    repository.head source ≠ none := by
  rcases Detection.origin_cases found with renamed | copied
  · exact (detection.renamed_pairs path source renamed).2.1
  · exact (detection.copied_pairs path source copied).2

theorem indexLetter_isSome : (indexLetter detection path).isSome = true ↔
    repository.index path ≠ repository.head path := by
  unfold indexLetter
  cases repository.head path with
  | none =>
    cases repository.index path with
    | none => simp
    | some new =>
      dsimp only
      split
      · simp
      · split <;> simp
  | some old =>
    cases repository.index path with
    | none => simp
    | some new =>
      by_cases same : old = new
      · simp [same]
      · simp [same, Ne.symm same]

theorem worktreeLetter_isSome : (worktreeLetter repository path).isSome = true ↔
    repository.index path ≠ none ∧ repository.index path ≠ repository.worktree path := by
  unfold worktreeLetter
  cases repository.index path with
  | none => simp
  | some old =>
    cases repository.worktree path with
    | none => simp
    | some new =>
      by_cases same : old = new
      · simp [same]
      · simp [same]

/-- The include-set takes the row of this path. -/
def Detection.Takes (detection : Detection repository) (included : List String) (path : String) :
    Prop :=
  path ∈ included ∨ ∃ source ∈ included, detection.origin path = some source

omit [DecidableEq β] in
private theorem includedBy_tracked {xy : StatusXy} :
    (StatusEntry.ofTracked path (detection.origin path) xy).includedBy included = true ↔
      detection.Takes included path := by
  unfold Detection.Takes StatusEntry.includedBy StatusEntry.ofTracked
  cases detection.origin path with
  | none => simp
  | some source => simp

theorem Lists.mem_add (lists : Lists detection current) :
    path ∈ (planIncludeSet current included).1 ↔
      repository.index path ≠ repository.worktree path ∧ detection.Takes included path := by
  rw [mem_planIncludeSet_add]
  constructor
  · rintro ⟨entry, member, isIncluded, unstaged, rfl⟩
    cases (lists entry).mp member with
    | changed path unpaired differs =>
      have takes := includedBy_tracked.mp isIncluded
      simp only [StatusEntry.ofTracked, Bool.or_self, Bool.false_or] at unstaged
      exact ⟨(worktreeLetter_isSome.mp unstaged).2, takes⟩
    | untracked path unknown present =>
      simp only [StatusEntry.includedBy, StatusEntry.ofUntracked, Option.any_none,
        Bool.or_false] at isIncluded ⊢
      exact ⟨by rw [unknown]; exact present.symm, .inl (of_decide_eq_true isIncluded)⟩
  · rintro ⟨differs, takes⟩
    by_cases known : repository.index path = none
    · refine ⟨.ofUntracked path, (lists _).mpr (.untracked path known ?_), ?_, rfl, rfl⟩
      · rw [← known]
        exact differs.symm
      · rcases takes with isIncluded | ⟨source, -, origin⟩
        · simp [StatusEntry.includedBy, StatusEntry.ofUntracked, isIncluded]
        · exact ((Detection.origin_addition origin).2 known).elim
    · have letter := worktreeLetter_isSome.mpr ⟨known, differs⟩
      have unpaired : ∀ target, detection.renamed target ≠ some path := fun target renamed =>
        known (detection.renamed_pairs target path renamed).2.2
      exact ⟨_, (lists _).mpr (.changed path unpaired (.inr letter)), includedBy_tracked.mpr takes,
        by simp [StatusEntry.ofTracked, letter], rfl⟩

theorem Lists.mem_unstage (lists : Lists detection current) :
    path ∈ (planIncludeSet current included).2 ↔ ∃ row,
      (∀ target, detection.renamed target ≠ some row) ∧
      repository.index row ≠ repository.head row ∧ ¬ detection.Takes included row ∧
      (row = path ∨ detection.origin row = some path) := by
  rw [mem_planIncludeSet_unstage]
  constructor
  · rintro ⟨entry, member, excluded, staged, named⟩
    cases (lists entry).mp member with
    | changed row unpaired differs =>
      refine ⟨row, unpaired, indexLetter_isSome.mp staged, ?_, named⟩
      rw [← includedBy_tracked, Bool.not_eq_true]
      exact excluded
    | untracked => simp [StatusEntry.ofUntracked] at staged
  · rintro ⟨row, unpaired, changed, excluded, named⟩
    have letter : (indexLetter detection row).isSome = true := indexLetter_isSome.mpr changed
    refine ⟨_, (lists _).mpr (.changed row unpaired (.inl letter)), ?_, letter, named⟩
    rw [← Bool.not_eq_true]
    exact mt includedBy_tracked.mp excluded

theorem Lists.not_unstaged (lists : Lists detection current)
    (takes : detection.Takes included path) :
    path ∉ (planIncludeSet current included).2 := by
  rw [lists.mem_unstage]
  rintro ⟨row, -, -, excluded, rfl | origin⟩
  · exact excluded takes
  · rcases takes with isIncluded | ⟨source, -, own⟩
    · exact excluded (.inr ⟨path, isIncluded, origin⟩)
    · exact Detection.origin_in_head origin (Detection.origin_addition own).1

theorem Lists.takes_of_staged (lists : Lists detection current)
    (staged : repository.index path ≠ repository.head path)
    (kept : path ∉ (planIncludeSet current included).2) :
    detection.Takes included path ∨
      ∃ target, detection.renamed target = some path ∧ detection.Takes included target := by
  rw [lists.mem_unstage] at kept
  by_cases paired : ∃ target, detection.renamed target = some path
  · obtain ⟨target, renamed⟩ := paired
    have pairs := detection.renamed_pairs target path renamed
    refine .inr ⟨target, renamed, ?_⟩
    by_contra excluded
    refine kept ⟨target, ?_, ?_, excluded, .inr ?_⟩
    · exact fun other same => (detection.renamed_pairs other target same).2.1 pairs.1.1
    · rw [pairs.1.1]
      exact pairs.1.2
    · simp [Detection.origin, renamed]
  · left
    by_contra excluded
    exact kept ⟨path, fun target renamed => paired ⟨target, renamed⟩, staged, excluded, .inl rfl⟩

theorem Lists.copy_stays_staged (lists : Lists detection current) {target : String}
    (copied : detection.copied target = some source) (isIncluded : source ∈ included)
    (present : repository.worktree target ≠ none)
    (exact : CommitsExactly detection included (planIncludeSet current included)) :
    target ∈ included := by
  have unrenamed : detection.renamed target = none := by
    cases renamed : detection.renamed target with
    | none => rfl
    | some other => simp [detection.apart target other renamed] at copied
  have origin : detection.origin target = some source := by
    simp [Detection.origin, unrenamed, copied]
  have addition := Detection.origin_addition origin
  have kept := lists.not_unstaged (.inr ⟨source, isIncluded, origin⟩)
  have differs : (repository.runPlan (planIncludeSet current included)).index target ≠
      repository.head target := by
    rw [runPlan_index, if_neg kept, addition.1]
    split
    · exact present
    · exact addition.2
  rcases exact.only target differs with own | ⟨other, old, renamed, ⟨same, -⟩ | ⟨same, -⟩⟩
  · exact own
  · simp [← same, unrenamed] at renamed
  · exact ((detection.renamed_pairs other old renamed).2.1 (same ▸ addition.1)).elim

/-- The plan commits the include-set exactly if and only if no staged copy is taken
through its source alone: such a copy stays staged although it is not included. -/
theorem planIncludeSet_exact_iff (lists : Lists detection current) :
    CommitsExactly detection included (planIncludeSet current included) ↔
      ∀ target source, detection.copied target = some source → source ∈ included →
        target ∈ included ∨ repository.worktree target = none := by
  constructor
  · intro exact target source copied isIncluded
    by_cases present : repository.worktree target = none
    · exact .inr present
    · exact .inl (lists.copy_stays_staged copied isIncluded present exact)
  · intro copies
    have taken : ∀ path, detection.Takes included path →
        path ∈ included ∨ (∃ target source, detection.renamed target = some source ∧
          ((path = target ∧ source ∈ included) ∨ (path = source ∧ target ∈ included))) ∨
        (repository.StagedAddition path ∧ repository.worktree path = none) := by
      rintro path (isIncluded | ⟨source, isIncluded, origin⟩)
      · exact .inl isIncluded
      · rcases Detection.origin_cases origin with renamed | copied
        · exact .inr (.inl ⟨path, source, renamed, .inl ⟨rfl, isIncluded⟩⟩)
        · rcases copies path source copied isIncluded with own | absent
          · exact .inl own
          · exact .inr (.inr ⟨Detection.origin_addition origin, absent⟩)
    constructor
    · intro path differs
      rw [runPlan_index] at differs
      split at differs
      · exact (differs rfl).elim
      rename_i kept
      split at differs
      · rename_i added
        rcases taken path (lists.mem_add.mp added).2 with own | renamed | ⟨addition, absent⟩
        · exact .inl own
        · exact .inr renamed
        · exact (differs (absent.trans addition.1.symm)).elim
      · rename_i unchanged
        rcases lists.takes_of_staged differs kept with takes | ⟨target, renamed, takes⟩
        · rcases taken path takes with own | renamed | ⟨addition, absent⟩
          · exact .inl own
          · exact .inr renamed
          · exact (unchanged (lists.mem_add.mpr ⟨by rw [absent]; exact addition.2, takes⟩)).elim
        · rcases takes with own | ⟨source, isIncluded, origin⟩
          · exact .inr ⟨target, path, renamed, .inr ⟨rfl, own⟩⟩
          · simp only [Detection.origin, renamed, Option.some_or, Option.some.injEq] at origin
            exact .inl (origin ▸ isIncluded)
    · intro path isIncluded
      rw [runPlan_index, if_neg (lists.not_unstaged (.inl isIncluded))]
      split
      · rfl
      · rename_i unchanged
        by_contra differs
        exact unchanged (lists.mem_add.mpr ⟨differs, .inl isIncluded⟩)
    · intro path added
      exact lists.not_unstaged (lists.mem_add.mp added).2

end

/-- `a.ts` is modified and `b.ts` added as a copy of it, both staged. -/
def copied : Repository Nat where
  head path := if path = "a.ts" then some 1 else none
  index path := if path = "a.ts" then some 2 else if path = "b.ts" then some 1 else none
  worktree path := if path = "a.ts" then some 2 else if path = "b.ts" then some 1 else none

def copiedDetection : Detection copied where
  renamed _ := none
  copied path := if path = "b.ts" then some "a.ts" else none
  renamed_pairs := by simp
  renamed_once := by simp
  copied_pairs := by
    intro target source found
    split at found
    · rename_i same
      cases found
      subst same
      simp [StagedAddition, copied]
    · simp at found
  apart := by simp

def copiedRows : List StatusEntry :=
  [.ofTracked "a.ts" none ⟨some .modified, none⟩,
   .ofTracked "b.ts" (some "a.ts") ⟨some .copied, none⟩]

theorem copied_lists : Lists copiedDetection copiedRows := by
  intro entry
  constructor
  · intro member
    simp only [copiedRows, List.mem_cons, List.not_mem_nil, or_false] at member
    rcases member with rfl | rfl
    · exact .changed "a.ts" (by simp [copiedDetection]) (by simp [indexLetter, copied])
    · exact .changed "b.ts" (by simp [copiedDetection]) (by simp [indexLetter, copied, copiedDetection])
  · intro reports
    cases reports with
    | changed path unpaired differs =>
      by_cases first : path = "a.ts"
      · subst first
        simp [copiedRows, indexLetter, worktreeLetter, copied, copiedDetection]
      · by_cases second : path = "b.ts"
        · subst second
          simp [copiedRows, indexLetter, worktreeLetter, copied, copiedDetection]
        · simp [indexLetter, worktreeLetter, copied, first, second] at differs
    | untracked path unknown present =>
      by_cases first : path = "a.ts"
      · simp [copied, first] at unknown
      · by_cases second : path = "b.ts"
        · simp [copied, second] at unknown
        · simp [copied, first, second] at present

/-- Including both names of a copy commits exactly them. -/
theorem planIncludeSet_exact_copied : CommitsExactly copiedDetection ["a.ts", "b.ts"]
    (planIncludeSet copiedRows ["a.ts", "b.ts"]) :=
  (planIncludeSet_exact_iff copied_lists).mpr (by
    intro target source found _
    left
    simp only [copiedDetection] at found
    split at found
    · rename_i same
      simp [same]
    · simp at found)

/-- Including only the source commits the copy with it. -/
theorem copy_committed_with_its_source :
    ¬ ∀ (repository : Repository Nat) (detection : Detection repository)
        (current : List StatusEntry) (included : List String), Lists detection current →
      CommitsExactly detection included (planIncludeSet current included) := by
  intro always
  have exact := always copied copiedDetection copiedRows ["a.ts"] copied_lists
  have found : copiedDetection.copied "b.ts" = some "a.ts" := rfl
  have taken := copied_lists.copy_stays_staged found (by simp) (by simp [copied]) exact
  simp at taken

end Repository

end Mille.Git
