import Mille.Core.ScanList
import Mille.Core.IgnoreIndex

/-! The scan of a directory tree: listings resolved in any order, ignore rules stacked as
they are found, entries delivered to the visitor. -/

namespace Mille.Scanning

/-- How `walk_scan` walks. -/
structure ScanOptions where
  maxDepth : Option Nat
  followSymlinks : SymlinkPolicy
  includeHidden : Bool
  defaultIgnores : Bool
  ignore : Option IgnoreMatcher
  ignoreFileNames : List OsString
  fileFilter : Option (OsString → Bool)
  parallelism : Nat

namespace ScanOptions

def default : ScanOptions := ⟨none, .never, true, true, none, [], none, 8⟩

/-- A media-library profile. -/
def media : ScanOptions :=
  { default with
    followSymlinks := .smart
    includeHidden := false
    ignoreFileNames := [.utf8 ".plexignore", .utf8 ".ignore"] }

def listOptions (options : ScanOptions) : ScanListOptions where
  followSymlinks := options.followSymlinks ≠ .never
  includeHidden := options.includeHidden
  defaultIgnores := options.defaultIgnores
  ignoreFileNames := options.ignoreFileNames
  fileFilter := options.fileFilter

end ScanOptions

/-- A directory queued or being read. -/
structure DirJob where
  path : Path
  depth : Nat
  id : Nat
  parent : Option Nat
  dev : UInt64
  ino : UInt64
  /-- Identities of the directory and of every one above it, where links are always followed. -/
  ancestors : Option (List (UInt64 × UInt64))

/-- One call of the visitor: the directory and its entry. -/
structure Delivery where
  path : Path
  depth : Nat
  id : Nat
  parent : Option Nat
  dev : UInt64
  ino : UInt64
  name : OsString
  record : Record

inductive Visit where
  | continue | skipChildren
deriving DecidableEq

/-- What a scan saw besides the entries it delivered. -/
structure ScanReport where
  unread : List (Path × ReadFailure)
  dirsListed : Nat
  entries : Nat
  skipped : Nat
  vanished : Nat
  linksNotWalked : Nat
  linksSkipped : List Path
  ignoreFiles : List (Path × String)

def ScanReport.empty : ScanReport := ⟨[], 0, 0, 0, 0, 0, [], []⟩

/-- What a scan finds: the answers of the disk, the lister that serves each directory, the
`ignore` crate and the visitor, who may remember what it saw. -/
structure Setting where
  read : Path → Except ReadFailure (List ScanChild)
  lister : Path → ListerKind
  builder : GitignoreBuilder
  visit : List Delivery → Delivery → Visit

structure Scan where
  /-- Most recently found on top. -/
  pending : List DirJob
  inflight : List DirJob
  walked : List (UInt64 × UInt64)
  links : List DirJob
  nested : IgnoreMatcher
  nextId : Nat
  report : ScanReport
  delivered : List Delivery
  failure : Option FxError

namespace Scan

/-- Submits queued directories until enough reads are in flight. -/
def submit (parallelism : Nat) : List DirJob → List DirJob → List DirJob × List DirJob
  | [], inflight => ([], inflight)
  | job :: rest, inflight =>
    if inflight.length < parallelism then submit parallelism rest (inflight ++ [job])
    else (job :: rest, inflight)

def fill (parallelism : Nat) (scan : Scan) : Scan :=
  let submitted := submit (max parallelism 1) scan.pending scan.inflight
  { scan with pending := submitted.1, inflight := submitted.2 }

/-- Walks a held link whose target was not walked, and reports the rest. -/
def decideLink (scan : Scan) (link : DirJob) : Scan :=
  if (link.dev, link.ino) ∈ scan.walked then
    { scan with report := { scan.report with
        linksNotWalked := scan.report.linksNotWalked + 1
        linksSkipped := scan.report.linksSkipped ++ [link.path] } }
  else
    { scan with
      walked := (link.dev, link.ino) :: scan.walked
      nextId := scan.nextId + 1
      pending := { link with id := scan.nextId } :: scan.pending }

/-- The held links in path order, once nothing else is left to read. -/
def decideLinks (scan : Scan) : Scan :=
  (scan.links.mergeSort fun first second => (compare first.path second.path).isLE).foldl decideLink
    { scan with links := [] }

/-- `swap_remove`. -/
def swapRemove (jobs : List DirJob) (index : Nat) : List DirJob :=
  match jobs.getLast? with
  | some last => (jobs.set index last).dropLast
  | none => []

section Resolve

variable (options : ScanOptions) (setting : Setting) (job : DirJob)

def ignored (nested : IgnoreMatcher) (path : Path) (dirLike : Bool) : Bool :=
  ((options.ignore.bind (·.decision path dirLike)).or (nested.decision path dirLike)).getD false

/-- What the scan goes on with below an entry of the directory. -/
def descend (scan : Scan) (real : List DirJob) (name : OsString) (record : Record) : Scan × List DirJob :=
  if options.followSymlinks = .always && record.isSymlink &&
      job.ancestors.any (·.contains (record.dev, record.ino)) then
    ({ scan with report := { scan.report with
        linksNotWalked := scan.report.linksNotWalked + 1
        linksSkipped := scan.report.linksSkipped ++ [job.path.push name] } }, real)
  else
    let child : DirJob :=
      ⟨job.path.push name, job.depth + 1, 0, some job.id, record.dev, record.ino,
        job.ancestors.map ((record.dev, record.ino) :: ·)⟩
    if options.followSymlinks = .smart then
      if record.isSymlink then ({ scan with links := scan.links ++ [child] }, real)
      else ({ scan with walked := (record.dev, record.ino) :: scan.walked }, real ++ [child])
    else (scan, real ++ [child])

/-- One entry of a listing. -/
def deliver (state : Scan × List DirJob) (entry : OsString × Record) : Scan × List DirJob :=
  let (scan, real) := state
  let (name, record) := entry
  if ignored options scan.nested (job.path.push name) (record.kind = .directory) then
    ({ scan with report := { scan.report with skipped := scan.report.skipped + 1 } }, real)
  else
    let delivery : Delivery :=
      ⟨job.path, job.depth, job.id, job.parent, job.dev, job.ino, name, record⟩
    let verdict := setting.visit scan.delivered delivery
    let visited :=
      { scan with
        delivered := scan.delivered ++ [delivery]
        report := { scan.report with entries := scan.report.entries + 1 } }
    if !options.maxDepth.all (job.depth + 1 < ·) || verdict = .skipChildren || record.kind ≠ .directory then
      (visited, real)
    else descend options job visited real name record

/-- Queues a subdirectory under the next number. -/
def push (scan : Scan) (child : DirJob) : Scan :=
  { scan with nextId := scan.nextId + 1, pending := { child with id := scan.nextId } :: scan.pending }

/-- The scan once a listing is in: its ignore files join first, so that their rules govern
their own siblings. -/
def list (scan : Scan) (listing : ScanListing) : Scan :=
  let files := listing.ignoreFiles.map fun (name, text) => (job.path.push name, text)
  let stacked :=
    { scan with
      nested := files.foldl (IgnoreMatcher.addFromContents setting.builder) scan.nested
      report := { scan.report with
        dirsListed := scan.report.dirsListed + 1
        skipped := scan.report.skipped + listing.skipped
        vanished := scan.report.vanished + listing.vanished
        ignoreFiles := scan.report.ignoreFiles ++ files } }
  let done := listing.entries.foldl (deliver options setting job) (stacked, [])
  done.2.foldl push done.1

/-- The answer to one directory read. -/
def resolve (scan : Scan) : Scan :=
  match setting.read job.path with
  | .error .cancelled => { scan with failure := some .cancelled }
  | .error failure =>
    if job.id = 0 then { scan with failure := some (failure.intoFx job.path) }
    else { scan with report := { scan.report with unread := scan.report.unread ++ [(job.path, failure)] } }
  | .ok content =>
    scan.list options setting job (scanDir (setting.lister job.path) options.listOptions content)

end Resolve

/-- One answer among the reads in flight, or, with none left, the decision of the links. -/
def poll (options : ScanOptions) (setting : Setting) (scan : Scan) (index : Nat) : Scan :=
  if scan.failure.isSome then scan
  else if scan.inflight = [] then scan.decideLinks.fill options.parallelism
  else
    match scan.inflight[index]? with
    | some job =>
      (resolve options setting job { scan with inflight := swapRemove scan.inflight index }).fill
        options.parallelism
    | none => scan

/-- A scan of a root directory of known identity. -/
def start (options : ScanOptions) (root : Path) (dev ino : UInt64) : Scan :=
  let job : DirJob :=
    ⟨root, 0, 0, none, dev, ino, if options.followSymlinks = .always then some [(dev, ino)] else none⟩
  fill options.parallelism
    ⟨if options.maxDepth = some 0 then [] else [job], [],
      if options.followSymlinks = .smart then [(dev, ino)] else [], [], [], 1, .empty, [], none⟩

end Scan

/-- `walk_scan` after the reads in flight were answered in the order given. -/
def walkScan (options : ScanOptions) (setting : Setting) (root : Path) (dev ino : UInt64)
    (answers : List Nat) : Scan :=
  answers.foldl (Scan.poll options setting) (.start options root dev ino)

namespace Scan

variable {options : ScanOptions} {setting : Setting} {job : DirJob}

/-- What the entries of a listing add to a scan: directories of the listed one and deliveries
that no rule stacked so far ignores. -/
structure Delivers (options : ScanOptions) (job : DirJob) (before after : Scan × List DirJob) : Prop where
  nested : after.1.nested = before.1.nested
  pending : after.1.pending = before.1.pending
  inflight : after.1.inflight = before.1.inflight
  links : ∀ link ∈ after.1.links, link ∈ before.1.links ∨ ∃ name, link.path = job.path.push name
  real : ∀ child ∈ after.2, child ∈ before.2 ∨ ∃ name, child.path = job.path.push name
  delivered : ∀ delivery ∈ after.1.delivered, delivery ∈ before.1.delivered ∨ delivery.path = job.path ∧
    ignored options before.1.nested (job.path.push delivery.name) (delivery.record.kind = .directory) = false

theorem Delivers.refl (state : Scan × List DirJob) : Delivers options job state state :=
  ⟨rfl, rfl, rfl, fun _ => .inl, fun _ => .inl, fun _ => .inl⟩

theorem Delivers.trans {first second third : Scan × List DirJob} (one : Delivers options job first second)
    (two : Delivers options job second third) : Delivers options job first third := by
  refine ⟨two.nested.trans one.nested, two.pending.trans one.pending, two.inflight.trans one.inflight,
    ?_, ?_, ?_⟩
  · exact fun link member => (two.links link member).elim (one.links link) .inr
  · exact fun child member => (two.real child member).elim (one.real child) .inr
  · intro delivery member
    rcases two.delivered delivery member with before | ⟨here, spared⟩
    · exact one.delivered delivery before
    · rw [one.nested] at spared
      exact .inr ⟨here, spared⟩

theorem delivers_descend (scan : Scan) (real : List DirJob) (name : OsString) (record : Record) :
    Delivers options job (scan, real) (descend options job scan real name record) := by
  have child {jobs : List DirJob} {one : DirJob} (path : one.path = job.path.push name) :
      ∀ found ∈ jobs ++ [one], found ∈ jobs ∨ ∃ name, found.path = job.path.push name := by
    intro found member
    rcases List.mem_append.mp member with before | last
    · exact .inl before
    · exact .inr ⟨name, (List.mem_singleton.mp last) ▸ path⟩
  unfold descend
  dsimp only
  split_ifs
  · exact ⟨rfl, rfl, rfl, fun _ => .inl, fun _ => .inl, fun _ => .inl⟩
  · exact ⟨rfl, rfl, rfl, child rfl, fun _ => .inl, fun _ => .inl⟩
  · exact ⟨rfl, rfl, rfl, fun _ => .inl, child rfl, fun _ => .inl⟩
  · exact ⟨rfl, rfl, rfl, fun _ => .inl, child rfl, fun _ => .inl⟩

theorem delivers_visit {scan : Scan} {delivery : Delivery} (real : List DirJob) (report : ScanReport)
    (here : delivery.path = job.path) (spared : ¬ignored options scan.nested (job.path.push delivery.name)
      (delivery.record.kind = .directory)) :
    Delivers options job (scan, real)
      ({ scan with delivered := scan.delivered ++ [delivery], report := report }, real) := by
  refine ⟨rfl, rfl, rfl, fun _ => .inl, fun _ => .inl, ?_⟩
  intro found member
  rcases List.mem_append.mp member with before | last
  · exact .inl before
  · obtain rfl := List.mem_singleton.mp last
    exact .inr ⟨here, by simpa using spared⟩

theorem delivers_deliver (state : Scan × List DirJob) (entry : OsString × Record) :
    Delivers options job state (deliver options setting job state entry) := by
  obtain ⟨scan, real⟩ := state
  obtain ⟨name, record⟩ := entry
  unfold deliver
  dsimp only
  split_ifs with ignores stops
  · exact ⟨rfl, rfl, rfl, fun _ => .inl, fun _ => .inl, fun _ => .inl⟩
  · exact delivers_visit real _ rfl ignores
  · exact (delivers_visit real _ rfl ignores).trans (delivers_descend _ real name record)

theorem delivers_entries (entries : List (OsString × Record)) (state : Scan × List DirJob) :
    Delivers options job state (entries.foldl (deliver options setting job) state) := by
  induction entries generalizing state with
  | nil => exact .refl state
  | cons entry rest ih => exact (delivers_deliver state entry).trans (ih _)

/-- The jobs of a scan, whether queued, in flight or held. -/
def jobs (scan : Scan) : List DirJob := scan.pending ++ scan.inflight ++ scan.links

theorem mem_submit {parallelism : Nat} {pending inflight : List DirJob} {one : DirJob} :
    (one ∈ (submit parallelism pending inflight).1 ∨ one ∈ (submit parallelism pending inflight).2) ↔
      one ∈ pending ∨ one ∈ inflight := by
  induction pending generalizing inflight with
  | nil => simp [submit]
  | cons head rest ih =>
    unfold submit
    split_ifs
    · rw [ih, List.mem_append, List.mem_singleton, List.mem_cons]
      tauto
    · exact Iff.rfl

@[simp] theorem mem_jobs_fill (parallelism : Nat) (scan : Scan) (one : DirJob) :
    one ∈ (scan.fill parallelism).jobs ↔ one ∈ scan.jobs := by
  unfold jobs fill
  rw [List.mem_append, List.mem_append, List.mem_append, List.mem_append]
  exact or_congr_left mem_submit

theorem foldl_decideLink (held : List DirJob) (scan : Scan) :
    (held.foldl decideLink scan).nested = scan.nested ∧
      (held.foldl decideLink scan).delivered = scan.delivered ∧
        ∀ one ∈ (held.foldl decideLink scan).jobs, ∃ earlier, (earlier ∈ scan.jobs ∨ earlier ∈ held) ∧
          one.path = earlier.path := by
  induction held generalizing scan with
  | nil => exact ⟨rfl, rfl, fun one member => ⟨one, .inl member, rfl⟩⟩
  | cons link rest ih =>
    obtain ⟨nested, delivered, jobs⟩ := ih (scan.decideLink link)
    have decided : (scan.decideLink link).nested = scan.nested ∧
        (scan.decideLink link).delivered = scan.delivered ∧
          ∀ one ∈ (scan.decideLink link).jobs, one ∈ scan.jobs ∨ one.path = link.path := by
      unfold decideLink
      split_ifs
      · exact ⟨rfl, rfl, fun one => .inl⟩
      · refine ⟨rfl, rfl, fun one member => ?_⟩
        rcases List.mem_cons.mp member with rfl | before
        · exact .inr rfl
        · exact .inl before
    refine ⟨nested.trans decided.1, delivered.trans decided.2.1, fun one member => ?_⟩
    obtain ⟨earlier, from_where, path⟩ := jobs one member
    rcases from_where with queued | held
    · rcases decided.2.2 earlier queued with before | same
      · exact ⟨earlier, .inl before, path⟩
      · exact ⟨link, .inr List.mem_cons_self, path.trans same⟩
    · exact ⟨earlier, .inr (List.mem_cons_of_mem _ held), path⟩

theorem decideLinks_jobs (scan : Scan) : scan.decideLinks.nested = scan.nested ∧
    scan.decideLinks.delivered = scan.delivered ∧
      ∀ one ∈ scan.decideLinks.jobs, ∃ earlier ∈ scan.jobs, one.path = earlier.path := by
  obtain ⟨nested, delivered, jobs⟩ := foldl_decideLink
    (scan.links.mergeSort fun first second => (compare first.path second.path).isLE)
    { scan with links := [] }
  refine ⟨nested, delivered, fun one member => ?_⟩
  obtain ⟨earlier, from_where, path⟩ := jobs one member
  refine ⟨earlier, ?_, path⟩
  rcases from_where with queued | held
  · rw [Scan.jobs, List.append_nil] at queued
    exact List.mem_append_left _ queued
  · exact List.mem_append_right _ (List.mem_mergeSort.mp held)

theorem mem_swapRemove {jobs : List DirJob} {index : Nat} {one : DirJob}
    (member : one ∈ swapRemove jobs index) : one ∈ jobs := by
  unfold swapRemove at member
  split at member
  · rename_i last found
    have kept := List.mem_of_mem_dropLast member
    rcases List.mem_or_eq_of_mem_set kept with before | same
    · exact before
    · exact same ▸ List.mem_of_getLast? found
  · cases member

theorem foldl_push (children : List DirJob) (scan : Scan) : (children.foldl push scan).nested = scan.nested ∧
    (children.foldl push scan).delivered = scan.delivered ∧
      ∀ one ∈ (children.foldl push scan).jobs, one ∈ scan.jobs ∨ ∃ child ∈ children, one.path = child.path := by
  induction children generalizing scan with
  | nil => exact ⟨rfl, rfl, fun _ => .inl⟩
  | cons child rest ih =>
    obtain ⟨nested, delivered, jobs⟩ := ih (scan.push child)
    refine ⟨nested, delivered, fun one member => ?_⟩
    rcases jobs one member with queued | ⟨later, listed, path⟩
    · rcases List.mem_cons.mp queued with rfl | before
      · exact .inr ⟨child, List.mem_cons_self, rfl⟩
      · exact .inl before
    · exact .inr ⟨later, List.mem_cons_of_mem _ listed, path⟩

/-- What a listing adds to a scan. -/
theorem list_adds (scan : Scan) (listing : ScanListing) :
    let files := listing.ignoreFiles.map fun (name, text) => (job.path.push name, text)
    let stacked := files.foldl (IgnoreMatcher.addFromContents setting.builder) scan.nested
    let after := scan.list options setting job listing
    after.nested = stacked ∧
      (∀ one ∈ after.jobs, one ∈ scan.jobs ∨ ∃ name, one.path = job.path.push name) ∧
        ∀ delivery ∈ after.delivered, delivery ∈ scan.delivered ∨ delivery.path = job.path ∧
          ignored options stacked (job.path.push delivery.name) (delivery.record.kind = .directory) = false := by
  intro files stacked after
  let start : Scan :=
    { scan with
      nested := stacked
      report := { scan.report with
        dirsListed := scan.report.dirsListed + 1
        skipped := scan.report.skipped + listing.skipped
        vanished := scan.report.vanished + listing.vanished
        ignoreFiles := scan.report.ignoreFiles ++ files } }
  have delivers := @delivers_entries options setting job listing.entries (start, [])
  obtain ⟨nested, delivered, jobs⟩ :=
    foldl_push (listing.entries.foldl (deliver options setting job) (start, [])).2
      (listing.entries.foldl (deliver options setting job) (start, [])).1
  refine ⟨nested.trans delivers.nested, fun one member => ?_, fun delivery member => ?_⟩
  · rcases jobs one member with queued | ⟨child, listed, path⟩
    · rw [Scan.jobs, delivers.pending, delivers.inflight] at queued
      rcases List.mem_append.mp queued with before | held
      · exact .inl (List.mem_append_left _ before)
      · rcases delivers.links one held with before | found
        · exact .inl (List.mem_append_right _ before)
        · exact .inr found
    · obtain ⟨name, below⟩ := (delivers.real child listed).resolve_left List.not_mem_nil
      exact .inr ⟨name, path.trans below⟩
  · have logged : delivery ∈ (listing.entries.foldl (deliver options setting job) (start, [])).1.delivered := by
      rw [← delivered]
      exact member
    exact delivers.delivered delivery logged

end Scan

/-- The rules that files of a directory make, each anchored there. -/
def Setting.compiled (setting : Setting) (files : List (Path × String)) : IgnoreMatcher :=
  files.foldl (IgnoreMatcher.addFromContents setting.builder) []

/-- The ignore files that lie in a directory. -/
def Setting.ignoreFiles (setting : Setting) (options : ScanListOptions) (dir : Path) : List (Path × String) :=
  match setting.read dir with
  | .ok content => ((readDir content).filterMap (·.ignoreText options)).map fun (name, text) => (dir.push name, text)
  | .error _ => []

/-- The directories of a path, from the root of the scan down. -/
def directories (root path : Path) : List Path := path.dropLast.inits.filter (root.isPrefixOf ·)

/-- The first opinion of the caller's rules and then of the ignore files of the path's
directories, from the root down, is to ignore it. -/
def Excluded (options : ScanOptions) (setting : Setting) (root path : Path) (dirLike : Bool) : Prop :=
  ((options.ignore.bind (·.decision path dirLike)).or
    (IgnoreMatcher.decide ((directories root path).flatMap fun dir =>
      setting.compiled (setting.ignoreFiles options.listOptions dir)) path dirLike)) = some true

namespace Scan

variable {options : ScanOptions} {setting : Setting} {root : Path}

theorem foldl_addFromContents (builder : GitignoreBuilder) (files : List (Path × String)) (matcher : IgnoreMatcher) :
    files.foldl (IgnoreMatcher.addFromContents builder) matcher =
      matcher ++ files.foldl (IgnoreMatcher.addFromContents builder) [] := by
  induction files generalizing matcher with
  | nil => exact (List.append_nil _).symm
  | cons file rest ih =>
    have adds : ∀ matcher, IgnoreMatcher.addFromContents builder matcher file =
        matcher ++ IgnoreMatcher.addFromContents builder [] file := by
      intro matcher
      unfold IgnoreMatcher.addFromContents
      split
      · simp
      · split <;> simp
    rw [List.foldl_cons, List.foldl_cons, ih, ih (IgnoreMatcher.addFromContents builder [] file), adds,
      List.append_assoc]

theorem compiled_anchor {dir : Path} {named : List (OsString × String)} {rule : Path × Gitignore}
    (listed : rule ∈ setting.compiled (named.map fun (name, text) => (dir.push name, text))) : rule.1 = dir := by
  unfold Setting.compiled at listed
  induction named with
  | nil => cases listed
  | cons file rest ih =>
    rw [List.map_cons, List.foldl_cons, foldl_addFromContents, List.mem_append] at listed
    rcases listed with first | later
    · unfold IgnoreMatcher.addFromContents at first
      dsimp only at first
      rw [Path.parent_push] at first
      dsimp only at first
      split at first
      · cases first
      · rw [List.nil_append, List.mem_singleton] at first
        rw [first]
    · exact ih later

/-- Every directory that was read is the root or lies in one read before it. -/
def Descending (root : Path) (resolved : List Path) : Prop :=
  ∀ before dir after, resolved = before ++ dir :: after →
    dir = root ∨ ∃ parent ∈ before, ∃ name, dir = parent.push name

theorem Descending.above {resolved before after : List Path} {dir ancestor : Path}
    (descending : Descending root resolved) (split : resolved = before ++ dir :: after)
    (below : root <+: ancestor) (above : ancestor <+: dir) : ancestor = dir ∨ ancestor ∈ before := by
  -- the directory it lies in comes earlier, with fewer read before that
  induction size : before.length using Nat.strong_induction_on generalizing before dir after with
  | _ count ih =>
    rcases descending before dir after split with isRoot | ⟨parent, earlier, name, inside⟩
    · left
      exact above.eq_of_length_le (isRoot ▸ below.length_le)
    · rcases List.prefix_concat_iff.mp (inside ▸ above : ancestor <+: parent ++ [_]) with whole | higher
      · exact .inl (whole.trans inside.symm)
      · obtain ⟨first, second, cut⟩ := List.append_of_mem earlier
        have shorter : first.length < count := by
          rw [← size, cut]
          simp
        have whole : resolved = first ++ parent :: (second ++ dir :: after) := by
          rw [split, cut, List.append_assoc, List.cons_append]
        have found := ih first.length shorter whole higher rfl
        right
        rw [cut]
        rcases found with same | before
        · exact same ▸ List.mem_append_right _ List.mem_cons_self
        · exact List.mem_append_left _ before

theorem Descending.rooted {resolved : List Path} {dir : Path} (descending : Descending root resolved)
    (read : dir ∈ resolved) : root <+: dir := by
  obtain ⟨before, after, split⟩ := List.append_of_mem read
  induction size : before.length using Nat.strong_induction_on generalizing before dir after with
  | _ count ih =>
    rcases descending before dir after split with rfl | ⟨parent, earlier, name, inside⟩
    · exact List.prefix_rfl
    · obtain ⟨first, second, cut⟩ := List.append_of_mem earlier
      have shorter : first.length < count := by
        rw [← size, cut]
        simp
      have whole : resolved = first ++ parent :: (second ++ dir :: after) := by
        rw [split, cut, List.append_assoc, List.cons_append]
      have above := ih first.length shorter (whole ▸ List.mem_append_right _ List.mem_cons_self) first
        (second ++ dir :: after) whole rfl
      exact inside ▸ above.trans (List.prefix_append _ _)

theorem decide_flatMap (rules : Path → IgnoreMatcher) (dirs : List Path) (path : Path) (dirLike : Bool) :
    IgnoreMatcher.decide (dirs.flatMap rules) path dirLike =
      dirs.findSome? fun dir => IgnoreMatcher.decide (rules dir) path dirLike := by
  induction dirs with
  | nil => rfl
  | cons dir rest ih =>
    rw [List.flatMap_cons, IndexedMatcher.decide_append, ih, List.findSome?_cons]
    cases IgnoreMatcher.decide (rules dir) path dirLike <;> rfl

theorem decision_flatMap {rules : Path → IgnoreMatcher} (anchored : ∀ dir, ∀ rule ∈ rules dir, rule.1 = dir)
    (dirs : List Path) (path : Path) (dirLike : Bool) :
    IgnoreMatcher.decision (dirs.flatMap rules) path dirLike =
      dirs.findSome? fun dir => if path.startsWith dir then IgnoreMatcher.decide (rules dir) path dirLike else none := by
  have chosen : (dirs.flatMap rules).filter (fun rule => path.startsWith rule.1) =
      dirs.flatMap fun dir => if path.startsWith dir then rules dir else [] := by
    rw [List.filter_flatMap]
    apply List.flatMap_congr
    intro dir _
    split_ifs with above
    · exact List.filter_eq_self.mpr fun rule listed => by rw [anchored dir rule listed, above]
    · exact List.filter_eq_nil_iff.mpr fun rule listed => by rw [anchored dir rule listed]; exact above
  rw [IgnoreMatcher.decision, chosen, decide_flatMap]
  congr 1
  funext dir
  split_ifs <;> rfl

theorem inits_shorter {α : Type} (list : List α) : list.inits.Pairwise fun first second => first.length < second.length := by
  induction list with
  | nil => exact List.pairwise_singleton _ _
  | cons head rest ih =>
    rw [List.inits_cons, List.pairwise_cons]
    constructor
    · simp
    · exact List.pairwise_map.mpr (ih.imp fun shorter => by simpa using shorter)

theorem mem_directories {root dir above : Path} {name : OsString} :
    above ∈ directories root (dir.push name) ↔ above <+: dir ∧ root <+: above := by
  rw [directories, Path.push, List.dropLast_concat, List.mem_filter, List.mem_inits, List.isPrefixOf_iff_prefix]

/-- Where the ignore files of the path's directories ignore it, the rules of all directories
read so far do: the directory whose rules decide was read before any below it. -/
theorem findSome_of_directories {root dir : Path} {name : OsString} {resolved : List Path}
    {opinion : Path → Option Bool} (descending : Descending root resolved) (read : dir ∈ resolved)
    (ignores : (directories root (dir.push name)).findSome? opinion = some true) :
    (resolved.findSome? fun above => if (dir.push name).startsWith above then opinion above else none) =
      some true := by
  obtain ⟨higher, first, lower, split, decides, silent⟩ := List.findSome?_eq_some_iff.mp ignores
  have firstListed : first ∈ directories root (dir.push name) := split ▸ List.mem_append_right _ List.mem_cons_self
  obtain ⟨above, below⟩ := mem_directories.mp firstListed
  have wasRead : first ∈ resolved := by
    obtain ⟨before, after, cut⟩ := List.append_of_mem read
    rcases descending.above cut below above with same | earlier
    · exact same ▸ read
    · exact cut ▸ List.mem_append_left _ earlier
  have asked : (if (dir.push name).startsWith first then opinion first else none) = some true := by
    have reaches : (dir.push name).startsWith first = true :=
      Path.startsWith_iff.mpr (above.trans (List.prefix_append _ _))
    rw [if_pos reaches]
    exact decides
  -- the first directory read that has an opinion
  cases found : resolved.findSome? fun above => if (dir.push name).startsWith above then opinion above else none with
  | none =>
    have none_asked := List.findSome?_eq_none_iff.mp found first wasRead
    rw [asked] at none_asked
    cases none_asked
  | some answer =>
    obtain ⟨earlier, other, later, cut, answers, quiet⟩ := List.findSome?_eq_some_iff.mp found
    split_ifs at answers with reaches
    have prefixed : other <+: dir.push name := Path.startsWith_iff.mp reaches
    rcases Nat.lt_or_ge other.length first.length with shorter | longer
    · -- it lies above the one that decides, which is the first of them
      have upper : other <+: first :=
        List.prefix_of_prefix_length_le prefixed (above.trans (List.prefix_append _ _)) shorter.le
      have rooted := descending.rooted (cut ▸ List.mem_append_right _ List.mem_cons_self)
      have listed : other ∈ directories root (dir.push name) := mem_directories.mpr ⟨upper.trans above, rooted⟩
      have ordered := (inits_shorter dir).filter (root.isPrefixOf ·)
      rw [directories, Path.push, List.dropLast_concat] at split listed
      rw [split] at ordered listed
      have isHigher : other ∈ higher := by
        rcases List.mem_append.mp listed with high | rest
        · exact high
        · rcases List.mem_cons.mp rest with same | low
          · exact absurd (same ▸ shorter) (Nat.lt_irrefl _)
          · have deeper := (List.pairwise_cons.mp (List.pairwise_append.mp ordered).2.1).1 other low
            exact absurd shorter (Nat.lt_asymm deeper)
      rw [silent other isHigher] at answers
      cases answers
    · have lower : first <+: other :=
        List.prefix_of_prefix_length_le (above.trans (List.prefix_append _ _)) prefixed longer
      rcases descending.above cut below lower with same | before
      · rw [← same, decides] at answers
        exact answers.symm
      · rw [quiet first before] at asked
        cases asked

theorem Descending.snoc {resolved : List Path} {dir : Path} (descending : Descending root resolved)
    (found : dir = root ∨ ∃ parent ∈ resolved, ∃ name, dir = parent.push name) :
    Descending root (resolved ++ [dir]) := by
  intro before other after split
  rcases List.eq_nil_or_concat after with rfl | ⟨others, final, same⟩
  · obtain ⟨rfl, last⟩ := List.append_inj' split rfl
    cases last
    exact found
  · rw [same, List.concat_eq_append, ← List.cons_append, ← List.append_assoc] at split
    exact descending before other others (List.append_inj_left' split rfl)

/-- The rules stacked are those of the directories read, each below one read before it, and
nothing was delivered that the ignore files of its directories exclude. -/
structure Stacked (options : ScanOptions) (setting : Setting) (root : Path) (resolved : List Path)
    (scan : Scan) : Prop where
  nested : scan.nested = resolved.flatMap fun dir => setting.compiled (setting.ignoreFiles options.listOptions dir)
  descending : Descending root resolved
  jobs : ∀ job ∈ scan.jobs, job.path = root ∨ ∃ parent ∈ resolved, ∃ name, job.path = parent.push name
  obeys : ∀ delivery ∈ scan.delivered,
    ¬Excluded options setting root (delivery.path.push delivery.name) (delivery.record.kind = .directory)

/-- Every listing has the texts of all ignore files of its directory. -/
def Told (options : ScanOptions) (setting : Setting) : Prop :=
  ∀ dir content, setting.read dir = .ok content →
    (scanDir (setting.lister dir) options.listOptions content).ignoreFiles =
      (readDir content).filterMap (·.ignoreText options.listOptions)

theorem ignoreFiles_anchor {listOptions : ScanListOptions} {dir : Path} {rule : Path × Gitignore}
    (listed : rule ∈ setting.compiled (setting.ignoreFiles listOptions dir)) : rule.1 = dir := by
  unfold Setting.ignoreFiles at listed
  split at listed
  · exact compiled_anchor listed
  · cases listed

theorem not_excluded {resolved : List Path} {dir : Path} {name : OsString} {dirLike : Bool}
    (descending : Descending root resolved) (read : dir ∈ resolved)
    (spared : ignored options (resolved.flatMap fun dir =>
      setting.compiled (setting.ignoreFiles options.listOptions dir)) (dir.push name) dirLike = false) :
    ¬Excluded options setting root (dir.push name) dirLike := by
  intro excluded
  unfold Excluded at excluded
  unfold ignored at spared
  cases caller : options.ignore.bind (·.decision (dir.push name) dirLike) with
  | some opinion =>
    rw [caller, Option.some_or] at excluded spared
    cases excluded
    cases spared
  | none =>
    rw [caller, Option.none_or] at excluded spared
    rw [decide_flatMap] at excluded
    rw [decision_flatMap fun dir rule => ignoreFiles_anchor, findSome_of_directories descending read excluded]
      at spared
    cases spared

theorem Stacked.list {resolved : List Path} {scan : Scan} {job : DirJob} {content : List ScanChild}
    (stacked : Stacked options setting root resolved scan) (told : Told options setting)
    (found : job.path = root ∨ ∃ parent ∈ resolved, ∃ name, job.path = parent.push name)
    (answer : setting.read job.path = .ok content) :
    Stacked options setting root (resolved ++ [job.path])
      (scan.list options setting job (scanDir (setting.lister job.path) options.listOptions content)) := by
  obtain ⟨nested, jobs, delivered⟩ := @list_adds options setting job scan
    (scanDir (setting.lister job.path) options.listOptions content)
  have files : ((scanDir (setting.lister job.path) options.listOptions content).ignoreFiles.map
      fun (name, text) => (job.path.push name, text)) = setting.ignoreFiles options.listOptions job.path := by
    rw [told job.path content answer, Setting.ignoreFiles, answer]
  have rules : (setting.ignoreFiles options.listOptions job.path).foldl
      (IgnoreMatcher.addFromContents setting.builder) scan.nested =
        (resolved ++ [job.path]).flatMap fun dir =>
          setting.compiled (setting.ignoreFiles options.listOptions dir) := by
    rw [foldl_addFromContents, stacked.nested, List.flatMap_append, List.flatMap_singleton]
    rfl
  rw [files, rules] at nested delivered
  have descending := stacked.descending.snoc found
  refine ⟨nested, descending, fun one member => ?_, fun delivery member => ?_⟩
  · rcases jobs one member with before | ⟨name, below⟩
    · rcases stacked.jobs one before with isRoot | ⟨parent, earlier, name, below⟩
      · exact .inl isRoot
      · exact .inr ⟨parent, List.mem_append_left _ earlier, name, below⟩
    · exact .inr ⟨job.path, List.mem_append_right _ (List.mem_singleton_self _), name, below⟩
  · rcases delivered delivery member with before | ⟨here, spared⟩
    · exact stacked.obeys delivery before
    · rw [here]
      exact not_excluded descending (List.mem_append_right _ (List.mem_singleton_self _)) spared

theorem Stacked.moved {resolved : List Path} {scan after : Scan} (stacked : Stacked options setting root resolved scan)
    (nested : after.nested = scan.nested) (delivered : after.delivered = scan.delivered)
    (jobs : ∀ one ∈ after.jobs, ∃ earlier ∈ scan.jobs, one.path = earlier.path) :
    Stacked options setting root resolved after := by
  refine ⟨nested.trans stacked.nested, stacked.descending, fun one member => ?_, delivered ▸ stacked.obeys⟩
  obtain ⟨earlier, queued, path⟩ := jobs one member
  rw [path]
  exact stacked.jobs earlier queued

theorem Stacked.fill {resolved : List Path} {scan : Scan} (stacked : Stacked options setting root resolved scan)
    (parallelism : Nat) : Stacked options setting root resolved (scan.fill parallelism) :=
  stacked.moved rfl rfl fun one member => ⟨one, (mem_jobs_fill parallelism scan one).mp member, rfl⟩

theorem Stacked.resolve {resolved : List Path} {scan : Scan} {job : DirJob}
    (stacked : Stacked options setting root resolved scan) (told : Told options setting)
    (found : job.path = root ∨ ∃ parent ∈ resolved, ∃ name, job.path = parent.push name) :
    ∃ later, Stacked options setting root later (scan.resolve options setting job) := by
  have same {report : ScanReport} {failure : Option FxError} :
      Stacked options setting root resolved { scan with report := report, failure := failure } :=
    stacked.moved rfl rfl fun one member => ⟨one, member, rfl⟩
  unfold Scan.resolve
  split
  · exact ⟨resolved, same⟩
  · split_ifs
    · exact ⟨resolved, same⟩
    · exact ⟨resolved, same⟩
  · rename_i content answer
    exact ⟨_, stacked.list told found answer⟩

theorem Stacked.poll {resolved : List Path} {scan : Scan} (stacked : Stacked options setting root resolved scan)
    (told : Told options setting) (index : Nat) :
    ∃ later, Stacked options setting root later (scan.poll options setting index) := by
  unfold Scan.poll
  split_ifs
  · exact ⟨resolved, stacked⟩
  · obtain ⟨nested, delivered, jobs⟩ := scan.decideLinks_jobs
    exact ⟨resolved, (stacked.moved nested delivered jobs).fill _⟩
  · split
    · rename_i job flying
      have listed : job ∈ scan.jobs :=
        List.mem_append_left _ (List.mem_append_right _ (List.mem_of_getElem? flying))
      have rest : Stacked options setting root resolved
          { scan with inflight := swapRemove scan.inflight index } := by
        refine stacked.moved rfl rfl fun one member => ⟨one, ?_, rfl⟩
        simp only [Scan.jobs, List.mem_append] at member ⊢
        exact member.imp_left (Or.imp_right mem_swapRemove)
      obtain ⟨later, after⟩ := rest.resolve told (stacked.jobs job listed)
      exact ⟨later, after.fill _⟩
    · exact ⟨resolved, stacked⟩

theorem stacked_start (dev ino : UInt64) : Stacked options setting root [] (.start options root dev ino) := by
  apply Stacked.fill
  refine ⟨rfl, fun before dir after split => absurd split (by simp), ?_, fun _ member => by cases member⟩
  intro job member
  left
  simp only [jobs, List.append_nil] at member
  by_cases shallow : options.maxDepth = some 0
  · rw [if_pos shallow] at member
    cases member
  · rw [if_neg shallow] at member
    rw [List.mem_singleton.mp member]

theorem stacked_walk (told : Told options setting) (dev ino : UInt64) (answers : List Nat) :
    ∃ resolved, Stacked options setting root resolved (walkScan options setting root dev ino answers) := by
  induction answers using List.reverseRecOn with
  | nil => exact ⟨[], stacked_start dev ino⟩
  | append_singleton answers index ih =>
    obtain ⟨resolved, stacked⟩ := ih
    rw [walkScan, List.foldl_append]
    exact stacked.poll told index

end Scan

/-- The listing rule over a whole tree: every directory is listed by it, and no scan, whatever
order its reads are answered in, delivers a path that the ignore files of its directories
exclude. -/
structure Honoured (options : ScanOptions) (setting : Setting) : Prop where
  rule : ∀ dir content, setting.read dir = .ok content → OneRule options.listOptions content
  obeyed : ∀ root dev ino answers, ∀ delivery ∈ (walkScan options setting root dev ino answers).delivered,
    ¬Excluded options setting root (delivery.path.push delivery.name) (delivery.record.kind = .directory)

theorem scanDir_ignoreFiles {options : ScanListOptions} {content : List ScanChild} (lister : ListerKind)
    (answered : ∀ child ∈ readDir content, child.Answered) (spared : Spared options content) :
    (scanDir lister options content).ignoreFiles = (readDir content).filterMap (·.ignoreText options) := by
  have texts : ∀ lister, (listed lister options (readDir content)).ignoreFiles =
      (readDir content).filterMap (·.ignoreText options) := fun _ => filterMap_filter_eq_iff.mpr spared.texts
  cases lister with
  | bulk => rw [scanDir, listBulk_eq answered, texts]
  | statx => rw [scanDir, listStatx_eq answered, Option.getD_some, texts]
  | portable => rw [scanDir, listPortable_eq answered, texts]

/-- In every tree whose names can be stat'ed, the listers follow one rule and ignore files are
honoured exactly when no directory has an ignore file that the name rules or the filter drop,
nor a birth time that is read in two ways. -/
theorem honoured_iff_spared (options : ScanOptions) (setting : Setting)
    (answered : ∀ dir content, setting.read dir = .ok content → ∀ child ∈ readDir content, child.Answered) :
    Honoured options setting ↔
      ∀ dir content, setting.read dir = .ok content → Spared options.listOptions content := by
  constructor
  · intro honoured dir content answer
    exact (oneRule_iff (answered dir content answer)).mp (honoured.rule dir content answer)
  · intro spared
    refine ⟨fun dir content answer => (oneRule_iff (answered dir content answer)).mpr (spared dir content answer), ?_⟩
    intro root dev ino answers delivery delivered
    have told : Scan.Told options setting := fun dir content answer =>
      scanDir_ignoreFiles (setting.lister dir) (answered dir content answer) (spared dir content answer)
    obtain ⟨resolved, stacked⟩ := @Scan.stacked_walk options setting root told dev ino answers
    exact stacked.obeys delivery delivered

section Sample

private def fileInode (ino : UInt64) : Inode :=
  ⟨.file, 9, Record.epoch, none, 1, ino, 1, fun _ => 0⟩

private def plainFile (name : String) (ino : UInt64) (text : Option String) : ScanChild where
  name := .utf8 name
  fileType := .file
  typed := true
  lstat := .ok (fileInode ino)
  target := none
  text := text
  typed_lstat := fun _ same => by cases same; rfl

/-- A library of one film that its ignore file names. -/
private def libraryContent : List ScanChild :=
  [plainFile ".plexignore" 2 (some "film.mkv"), plainFile "film.mkv" 3 none]

private def library : Setting where
  read dir := if dir = [] then .ok libraryContent else .error .io
  lister _ := .portable
  builder :=
    { fromContents := fun root contents => some fun path _ =>
        if path.startsWith root && path.fileName = some (.utf8 contents) then some true else none
      fromPatterns := fun _ _ => none }
  visit _ _ := .continue

private theorem library_read {dir : Path} {content : List ScanChild} (answer : library.read dir = .ok content) :
    content = libraryContent := by
  simp only [library] at answer
  split_ifs at answer
  cases answer
  rfl

private theorem library_answered : ∀ dir content, library.read dir = .ok content →
    ∀ child ∈ readDir content, child.Answered := by
  intro dir content answer child listed
  rw [library_read answer] at listed
  have member := List.mem_of_mem_filter listed
  simp only [libraryContent, List.mem_cons, List.not_mem_nil, or_false] at member
  rcases member with rfl | rfl
  · exact ⟨fileInode 2, rfl⟩
  · exact ⟨fileInode 3, rfl⟩

/-- With hidden names listed, the library's ignore file is honoured. -/
theorem honoured_iff_spared_library : Honoured { ScanOptions.media with includeHidden := true } library := by
  refine (honoured_iff_spared _ library library_answered).mpr ?_
  intro dir content answer
  rw [library_read answer]
  refine ⟨by decide, ?_⟩
  intro child listed _ inode leads time known
  have member := List.mem_of_mem_filter listed
  simp only [libraryContent, List.mem_cons, List.not_mem_nil, or_false] at member
  rcases member with rfl | rfl
  · cases leads
    cases known
  · cases leads
    cases known

instance (options : ScanOptions) (setting : Setting) (root path : Path) (dirLike : Bool) :
    Decidable (Excluded options setting root path dirLike) :=
  inferInstanceAs (Decidable (_ = _))

/-- The media profile drops the ignore file as hidden and delivers the film that it excludes. -/
theorem media_drops_ignore_files : ¬∀ setting : Setting,
    (∀ dir content, setting.read dir = .ok content → ∀ child ∈ readDir content, child.Answered) →
      Honoured .media setting := by
  intro always
  have delivered : ∃ delivery ∈ (walkScan .media library [] 1 1 [0]).delivered,
      Excluded .media library [] (delivery.path.push delivery.name) (delivery.record.kind = .directory) := by
    decide
  obtain ⟨delivery, listed, excluded⟩ := delivered
  exact (always library library_answered).obeyed [] 1 1 [0] delivery listed excluded

end Sample

end Mille.Scanning
