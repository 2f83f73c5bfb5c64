import Mille.Core.Walker

/-! The three directory listers of a scan: name rules, stat, links, filter and ignore
files, in the order each lister has them. -/

namespace Mille.Scanning

/-- `OsStr::as_encoded_bytes`. -/
def encodedBytes : OsString → List UInt8
  | .utf8 text => text.toUTF8.data.toList
  | .raw bytes => bytes

section DefaultIgnores

private def bytesOf (text : String) : List UInt8 := text.toUTF8.data.toList

/-- The exact names among the default ignore rules. -/
def ignoredNames : List (List UInt8) :=
  [".DS_Store", ".AppleDouble", ".Spotlight-V100", ".Trashes", ".fseventsd", ".TemporaryItems",
    ".DocumentRevisions-V100", "Thumbs.db", "desktop.ini", "$RECYCLE.BIN", "System Volume Information",
    "@eaDir", "#recycle", "#snapshot", "@Recycle", ".@__thumb", ".recycle", "lost+found"].map bytesOf

/-- The beginnings among them. -/
def ignoredPrefixes : List (List UInt8) := ["._", ".Trash-"].map bytesOf

/-- Every rule starts with one of these bytes. -/
def ruleStarts : List UInt8 := bytesOf ".@#$TdSl"

def isDefaultIgnored (name : List UInt8) : Bool :=
  if !name.head?.any (ruleStarts.contains ·) then false
  else ignoredNames.contains name || ignoredPrefixes.any (·.isPrefixOf name)

end DefaultIgnores

/-- A `timespec` of the OS. -/
structure TimeSpec where
  sec : Int
  nsec : Nat
  ranged : -2 ^ 63 ≤ sec ∧ sec < 2 ^ 63
  normal : nsec < 10 ^ 9
deriving DecidableEq

namespace TimeSpec

def i64Min : Int := -2 ^ 63
def i64Max : Int := 2 ^ 63 - 1

/-- A sum or product of 64 bits, saturating. -/
def saturate (value : Int) : Int := max i64Min (min i64Max value)

/-- `sec * 1e9 + nsec`, saturating. -/
def timespecNs (time : TimeSpec) : Int := saturate (saturate (time.sec * 10 ^ 9) + time.nsec)

/-- Nanoseconds since the epoch, by the distance to it, saturating. -/
def systemTimeNs (time : TimeSpec) : Int :=
  let nanos := time.sec * 10 ^ 9 + time.nsec
  if 0 ≤ nanos then if nanos ≤ i64Max then nanos else i64Max
  else if -nanos ≤ i64Max then nanos else i64Min

/-- The two readings differ on a time whose seconds alone are below the range. -/
def Agreed (time : TimeSpec) : Prop := -2 ^ 63 ≤ time.sec * 10 ^ 9 ∨ time.nsec = 0

theorem timespecNs_eq_iff (time : TimeSpec) : time.timespecNs = time.systemTimeNs ↔ time.Agreed := by
  obtain ⟨sec, nsec, ranged, normal⟩ := time
  unfold timespecNs systemTimeNs Agreed saturate i64Min i64Max
  dsimp only
  omega

end TimeSpec

/-- Which lister produced a listing. -/
inductive ListerKind where
  | bulk | statx | portable
deriving DecidableEq

/-- What the OS knows of one file; each lister's call has flags of its own. -/
structure Inode where
  fileType : FileType
  len : UInt64
  mtime : TimeSpec
  btime : Option TimeSpec
  dev : UInt64
  ino : UInt64
  nlink : UInt64
  flags : ListerKind → UInt32

def kindOf : FileType → EntryKind
  | .symlink => .symlink
  | .dir => .directory
  | .file => .file
  | .other => .unknown

/-- The fixed-size part of a scan entry. -/
structure Record where
  kind : EntryKind
  isSymlink : Bool
  size : UInt64
  mtimeNs : Int
  btimeNs : Option Int
  dev : UInt64
  ino : UInt64
  flags : UInt32
  nlink : UInt64
deriving DecidableEq

namespace Record

/-- Sizes of non-files and link counts of directories carry no meaning. -/
def normalised (record : Record) : Record :=
  let sized := if record.kind ≠ .file then { record with size := 0 } else record
  if record.kind = .directory then { sized with nlink := 1 } else sized

/-- The same record of a name that is a link or not. -/
def marked (record : Record) (link : Bool) : Record := { record with isSymlink := link }

/-- From std metadata. -/
def fromMetadata (inode : Inode) : Record :=
  normalised ⟨kindOf inode.fileType, inode.fileType = .symlink, inode.len, inode.mtime.timespecNs,
    inode.btime.map TimeSpec.systemTimeNs, inode.dev, inode.ino, inode.flags .portable, inode.nlink⟩

def fromStatx (inode : Inode) : Record :=
  normalised ⟨kindOf inode.fileType, inode.fileType = .symlink, inode.len, inode.mtime.timespecNs,
    inode.btime.map TimeSpec.timespecNs, inode.dev, inode.ino, inode.flags .statx, inode.nlink⟩

/-- From one packed entry of the bulk call, where a directory has no file attributes. -/
def parse (inode : Inode) : Record :=
  let file : Bool := inode.fileType ≠ .dir
  normalised ⟨kindOf inode.fileType, inode.fileType = .symlink, if file then inode.len else 0,
    inode.mtime.timespecNs, inode.btime.map TimeSpec.timespecNs, inode.dev, inode.ino, inode.flags .bulk,
    if file then inode.nlink else 1⟩

def epoch : TimeSpec := ⟨0, 0, by decide, by decide⟩

/-- From `fstatat` of a followed link, which always fills in a birth time. -/
def statAt (inode : Inode) : Record :=
  normalised ⟨kindOf inode.fileType, false, inode.len, inode.mtime.timespecNs,
    some (inode.btime.getD epoch).timespecNs, inode.dev, inode.ino, inode.flags .bulk, inode.nlink⟩

end Record

/-- Why a `stat` failed: the call is not there, or the file is not. -/
inductive StatError where
  | unsupported | other

/-- One name of a directory with what the OS answers about it. -/
structure ScanChild where
  name : OsString
  fileType : FileType
  /-- The directory read reports the type. -/
  typed : Bool
  lstat : Except StatError Inode
  /-- Where a link leads. -/
  target : Option Inode
  text : Option String
  typed_lstat : ∀ inode, lstat = .ok inode → inode.fileType = fileType

def ScanChild.isDot (child : ScanChild) : Bool :=
  let bytes := encodedBytes child.name
  bytes = [46] || bytes = [46, 46]

/-- What a scan listing reads and keeps. -/
structure ScanListOptions where
  followSymlinks : Bool
  includeHidden : Bool
  defaultIgnores : Bool
  ignoreFileNames : List OsString
  fileFilter : Option (OsString → Bool)

namespace ScanListOptions

variable (options : ScanListOptions)

def filterRejects (name : OsString) : Bool := options.fileFilter.any (!· name)

def isIgnoreFile (name : OsString) : Bool := options.ignoreFileNames.any (· = name)

/-- Name-only rules; the filter runs here only for an entry known to be a regular file. -/
def dropsBeforeStat (name : OsString) (hint : Option EntryKind) : Bool :=
  let bytes := encodedBytes name
  if !options.includeHidden && bytes.head? = some 46 then true
  else if options.defaultIgnores && isDefaultIgnored bytes then true
  else hint = some .file && options.filterRejects name

/-- The filter, for an entry whose type the listing learned by `stat`. -/
def dropsAfterStat (name : OsString) (hint : Option EntryKind) (kind : EntryKind) : Bool :=
  hint ≠ some .file && kind ≠ .directory && options.filterRejects name

end ScanListOptions

/-- One directory, listed: what survived the name rules. -/
structure ScanListing where
  entries : List (OsString × Record)
  ignoreFiles : List (OsString × String)
  skipped : Nat
  vanished : Nat
  lister : ListerKind
deriving DecidableEq

namespace ScanListing

def new (lister : ListerKind) : ScanListing := ⟨[], [], 0, 0, lister⟩

def skip (out : ScanListing) : ScanListing := { out with skipped := out.skipped + 1 }

def vanish (out : ScanListing) : ScanListing := { out with vanished := out.vanished + 1 }

/-- The record of a name through a link that is followed; one that does not resolve stays
a link. -/
def followed (options : ScanListOptions) (child : ScanChild) (own : Record) (resolve : Inode → Record) :
    Record :=
  if own.kind = .symlink && options.followSymlinks then
    match child.target with
    | some target => (resolve target).marked true
    | none => own
  else own

/-- The end of every lister's loop: the filter, the ignore file's text, the entry. -/
def settle (options : ScanListOptions) (hint : Option EntryKind) (child : ScanChild) (record : Record)
    (out : ScanListing) : ScanListing :=
  if options.dropsAfterStat child.name hint record.kind then out.skip
  else
    let texts :=
      if record.kind = .file && options.isIgnoreFile child.name then
        (child.text.map fun text => (child.name, text)).toList
      else []
    { out with
      entries := out.entries ++ [(child.name, record)]
      ignoreFiles := out.ignoreFiles ++ texts }

/-- One item of `list_portable`; std asks `lstat` for a type the read does not report. -/
def portableEntry (options : ScanListOptions) (out : ScanListing) (child : ScanChild) : ScanListing :=
  let hint :=
    if child.typed then some (kindOf child.fileType)
    else child.lstat.toOption.map fun inode => kindOf inode.fileType
  if options.dropsBeforeStat child.name hint then out.skip
  else
    match child.lstat with
    | .error _ => out.vanish
    | .ok inode =>
      settle options hint child
        (followed options child (Record.fromMetadata inode) Record.fromMetadata) out

/-- One packed entry of the bulk call. -/
def accept (options : ScanListOptions) (out : ScanListing) (child : ScanChild) : ScanListing :=
  match child.lstat with
  | .error _ => out.vanish
  | .ok inode =>
    let record := Record.parse inode
    let hint := some record.kind
    if options.dropsBeforeStat child.name hint then out.skip
    else settle options hint child (followed options child record Record.statAt) out

/-- The loop of the `statx` lister; `none` when its first `stat` finds no such call. -/
def statxEntries (options : ScanListOptions) : List ScanChild → Bool → ScanListing → Option ScanListing
  | [], _, out => some out
  | child :: rest, statOk, out =>
    if child.isDot then statxEntries options rest statOk out
    else
      let hint := if child.typed then some (kindOf child.fileType) else none
      if options.dropsBeforeStat child.name hint then statxEntries options rest statOk out.skip
      else
        match child.lstat with
        | .error .unsupported => if statOk then statxEntries options rest statOk out.vanish else none
        | .error .other => statxEntries options rest statOk out.vanish
        | .ok inode =>
          statxEntries options rest true (settle options hint child
            (followed options child (Record.fromStatx inode) Record.fromStatx) out)

end ScanListing

/-- `read_dir` and the bulk call leave the two dot entries out. -/
def readDir (content : List ScanChild) : List ScanChild := content.filter (!·.isDot)

def listPortable (options : ScanListOptions) (content : List ScanChild) : ScanListing :=
  (readDir content).foldl (ScanListing.portableEntry options) (.new .portable)

def listBulk (options : ScanListOptions) (content : List ScanChild) : ScanListing :=
  (readDir content).foldl (ScanListing.accept options) (.new .bulk)

def listStatx (options : ScanListOptions) (content : List ScanChild) : Option ScanListing :=
  ScanListing.statxEntries options content false (.new .statx)

/-- The lister that serves a directory; the portable one takes over from `statx`. -/
def scanDir (lister : ListerKind) (options : ScanListOptions) (content : List ScanChild) : ScanListing :=
  match lister with
  | .bulk => listBulk options content
  | .statx => (listStatx options content).getD (listPortable options content)
  | .portable => listPortable options content

namespace ScanChild

variable (options : ScanListOptions) (child : ScanChild)

/-- The file a name stands for: where its link leads, if it is followed and resolves. -/
def inode : Option Inode :=
  child.lstat.toOption.map fun own =>
    if own.fileType = .symlink && options.followSymlinks then child.target.getD own else own

/-- Its kind after following. -/
def kind : EntryKind := (child.inode options).elim .unknown fun inode => kindOf inode.fileType

/-- The one listing rule: hidden names, the default rules, and the filter on all but
directories. -/
def kept : Bool :=
  let bytes := encodedBytes child.name
  !(!options.includeHidden && bytes.head? = some 46) &&
    !(options.defaultIgnores && isDefaultIgnored bytes) &&
      (child.kind options = .directory || !options.filterRejects child.name)

/-- An ignore file with its text. -/
def ignoreText : Option (OsString × String) :=
  if child.kind options = .file && options.isIgnoreFile child.name then
    child.text.map fun text => (child.name, text)
  else none

/-- What a lister records of the name. -/
def record (lister : ListerKind) : Option Record :=
  child.lstat.toOption.map fun own =>
    match lister with
    | .portable => ScanListing.followed options child (Record.fromMetadata own) Record.fromMetadata
    | .statx => ScanListing.followed options child (Record.fromStatx own) Record.fromStatx
    | .bulk => ScanListing.followed options child (Record.parse own) Record.statAt

end ScanChild

/-- What the rule lists of a directory. -/
def listed (lister : ListerKind) (options : ScanListOptions) (content : List ScanChild) : ScanListing where
  entries := (content.filter (·.kept options)).filterMap fun child =>
    (child.record options lister).map fun record => (child.name, record)
  ignoreFiles := (content.filter (·.kept options)).filterMap (·.ignoreText options)
  skipped := content.countP (!·.kept options)
  vanished := 0
  lister := lister

section Rule

variable {options : ScanListOptions} {child : ScanChild} {own : Inode}

theorem Record.normalised_kind (record : Record) : record.normalised.kind = record.kind := by
  unfold normalised
  dsimp only
  split_ifs <;> rfl

@[simp] theorem Record.fromMetadata_kind (inode : Inode) : (fromMetadata inode).kind = kindOf inode.fileType :=
  normalised_kind _

@[simp] theorem Record.fromStatx_kind (inode : Inode) : (fromStatx inode).kind = kindOf inode.fileType :=
  normalised_kind _

@[simp] theorem Record.parse_kind (inode : Inode) : (parse inode).kind = kindOf inode.fileType :=
  normalised_kind _

@[simp] theorem Record.statAt_kind (inode : Inode) : (statAt inode).kind = kindOf inode.fileType :=
  normalised_kind _

theorem kindOf_eq_symlink {fileType : FileType} : kindOf fileType = .symlink ↔ fileType = .symlink := by
  cases fileType <;> simp [kindOf]

theorem kindOf_eq_file {fileType : FileType} : kindOf fileType = .file ↔ fileType = .file := by
  cases fileType <;> simp [kindOf]

theorem followed_kind {own : Record} {inode : Inode} {resolve : Inode → Record}
    (lstat : child.lstat = .ok inode) (same : own.kind = kindOf inode.fileType)
    (resolves : ∀ target, (resolve target).kind = kindOf target.fileType) :
    (ScanListing.followed options child own resolve).kind = child.kind options := by
  unfold ScanListing.followed ScanChild.kind ScanChild.inode
  simp only [lstat, same, kindOf_eq_symlink, Except.toOption, Option.map_some, Option.elim_some]
  split_ifs
  · cases child.target with
    | none => exact same
    | some target => exact resolves target
  · exact same

theorem drops_eq {hint : Option EntryKind} (lstat : child.lstat = .ok own)
    (hinted : hint = none ∨ hint = some (kindOf own.fileType)) :
    (options.dropsBeforeStat child.name hint ||
      options.dropsAfterStat child.name hint (child.kind options)) = !child.kept options := by
  have regular : hint = some .file → child.kind options = .file := by
    rintro rfl
    have file := kindOf_eq_file.mp (Option.some.inj (hinted.resolve_left (by simp))).symm
    unfold ScanChild.kind ScanChild.inode
    simp [lstat, Except.toOption, file, kindOf]
  unfold ScanListOptions.dropsBeforeStat ScanListOptions.dropsAfterStat ScanChild.kept
  dsimp only
  by_cases file : hint = some .file
  · rw [regular file]
    simp only [file]
    grind
  · grind

/-- What every lister's step comes to. -/
def ScanListing.keep (options : ScanListOptions) (child : ScanChild) (record : Record) (out : ScanListing) :
    ScanListing :=
  if child.kept options then
    { out with
      entries := out.entries ++ [(child.name, record)]
      ignoreFiles := out.ignoreFiles ++ (child.ignoreText options).toList }
  else out.skip

theorem settle_eq {hint : Option EntryKind} {record : Record} (lstat : child.lstat = .ok own)
    (hinted : hint = none ∨ hint = some (kindOf own.fileType)) (kind : record.kind = child.kind options)
    (out : ScanListing) :
    (if options.dropsBeforeStat child.name hint then out.skip
      else ScanListing.settle options hint child record out) = out.keep options child record := by
  have drops := @drops_eq options child own hint lstat hinted
  unfold ScanListing.settle ScanListing.keep ScanChild.ignoreText
  rw [kind]
  cases before : options.dropsBeforeStat child.name hint
  · rw [before, Bool.false_or] at drops
    rw [if_neg Bool.false_ne_true, drops]
    cases child.kept options
    · rfl
    · simp only [Bool.not_true, Bool.false_eq_true, ↓reduceIte]
      split_ifs <;> rfl
  · rw [before, Bool.true_or] at drops
    rw [if_pos rfl, if_neg]
    simpa using drops.symm

theorem portableEntry_eq (lstat : child.lstat = .ok own) (out : ScanListing) :
    out.portableEntry options child =
      out.keep options child
        (ScanListing.followed options child (Record.fromMetadata own) Record.fromMetadata) := by
  have hinted : (if child.typed then some (kindOf child.fileType)
      else child.lstat.toOption.map fun inode => kindOf inode.fileType) = some (kindOf own.fileType) := by
    rw [lstat, ← child.typed_lstat own lstat]
    exact ite_self _
  unfold ScanListing.portableEntry
  dsimp only
  rw [hinted, lstat]
  exact settle_eq lstat (.inr rfl)
    (followed_kind lstat (Record.fromMetadata_kind own) Record.fromMetadata_kind) out

theorem accept_eq (lstat : child.lstat = .ok own) (out : ScanListing) :
    out.accept options child =
      out.keep options child (ScanListing.followed options child (Record.parse own) Record.statAt) := by
  unfold ScanListing.accept
  rw [lstat]
  exact settle_eq lstat (.inr (congrArg some (Record.parse_kind own)))
    (followed_kind lstat (Record.parse_kind own) Record.statAt_kind) out

/-- A name whose `stat` succeeds. -/
def ScanChild.Answered (child : ScanChild) : Prop := ∃ own, child.lstat = .ok own

theorem foldl_keep {lister : ListerKind} {step : ScanListing → ScanChild → ScanListing}
    (steps : ∀ child own, child.lstat = .ok own → ∀ out, ∃ record, child.record options lister = some record ∧
      step out child = ScanListing.keep options child record out)
    {content : List ScanChild} (answered : ∀ child ∈ content, child.Answered) (out : ScanListing) :
    content.foldl step out =
      { out with
        entries := out.entries ++ (listed lister options content).entries
        ignoreFiles := out.ignoreFiles ++ (listed lister options content).ignoreFiles
        skipped := out.skipped + (listed lister options content).skipped } := by
  induction content generalizing out with
  | nil => simp [listed]
  | cons child rest ih =>
    obtain ⟨first, later⟩ := List.forall_mem_cons.mp answered
    obtain ⟨own, lstat⟩ := first
    obtain ⟨record, recorded, stepped⟩ := steps child own lstat out
    rw [List.foldl_cons, ih later, stepped]
    unfold ScanListing.keep listed
    cases kept : child.kept options
    · simp only [kept, ScanListing.skip, List.filter_cons_of_neg, List.countP_cons_of_pos, Bool.false_eq_true,
        not_false_eq_true, ↓reduceIte, Bool.not_false]
      rw [Nat.add_assoc, Nat.add_comm 1]
    · simp only [kept, recorded, List.filter_cons_of_pos, List.filterMap_cons, List.countP_cons_of_neg,
        Option.map_some, ↓reduceIte, Bool.not_true, Bool.false_eq_true, not_false_eq_true, List.append_assoc]
      cases child.ignoreText options <;> rfl

theorem listPortable_eq {content : List ScanChild} (answered : ∀ child ∈ readDir content, child.Answered) :
    listPortable options content = listed .portable options (readDir content) := by
  have steps := fun child own (lstat : child.lstat = .ok own) out =>
    (⟨_, by rw [ScanChild.record, lstat]; rfl, portableEntry_eq lstat out⟩ :
      ∃ record, child.record options .portable = some record ∧
        ScanListing.portableEntry options out child = out.keep options child record)
  have folded := foldl_keep steps answered (.new .portable)
  simpa [listPortable, ScanListing.new, listed] using folded

theorem listBulk_eq {content : List ScanChild} (answered : ∀ child ∈ readDir content, child.Answered) :
    listBulk options content = listed .bulk options (readDir content) := by
  have steps := fun child own (lstat : child.lstat = .ok own) out =>
    (⟨_, by rw [ScanChild.record, lstat]; rfl, accept_eq lstat out⟩ :
      ∃ record, child.record options .bulk = some record ∧
        ScanListing.accept options out child = out.keep options child record)
  have folded := foldl_keep steps answered (.new .bulk)
  simpa [listBulk, ScanListing.new, listed] using folded

theorem statxEntries_cons {rest : List ScanChild} (lstat : child.lstat = .ok own) (undotted : ¬child.isDot)
    (statOk : Bool) (out : ScanListing) :
    ∃ later, ScanListing.statxEntries options (child :: rest) statOk out =
      ScanListing.statxEntries options rest later (out.keep options child
        (ScanListing.followed options child (Record.fromStatx own) Record.fromStatx)) := by
  have hinted : (if child.typed then some (kindOf child.fileType) else none) = none ∨
      (if child.typed then some (kindOf child.fileType) else none) = some (kindOf own.fileType) := by
    rw [← child.typed_lstat own lstat]
    split_ifs
    · exact .inr rfl
    · exact .inl rfl
  have kind : (ScanListing.followed options child (Record.fromStatx own) Record.fromStatx).kind =
      child.kind options :=
    followed_kind lstat (Record.fromStatx_kind own) Record.fromStatx_kind
  have settled := settle_eq lstat hinted kind out
  rw [ScanListing.statxEntries, if_neg undotted, ← settled, lstat]
  dsimp only
  split_ifs <;> exact ⟨_, rfl⟩

/-- The `statx` loop takes its steps in a row. -/
theorem statxEntries_eq {content : List ScanChild} (answered : ∀ child ∈ readDir content, child.Answered)
    (statOk : Bool) (out : ScanListing) : ScanListing.statxEntries options content statOk out = some
      { out with
        entries := out.entries ++ (listed .statx options (readDir content)).entries
        ignoreFiles := out.ignoreFiles ++ (listed .statx options (readDir content)).ignoreFiles
        skipped := out.skipped + (listed .statx options (readDir content)).skipped } := by
  let step : ScanListing → ScanChild → ScanListing := fun out child =>
    ((child.record options .statx).map fun record => out.keep options child record).getD out
  have steps := fun child own (lstat : child.lstat = .ok own) out =>
    (⟨_, by rw [ScanChild.record, lstat]; rfl, by simp only [step, ScanChild.record, lstat]; rfl⟩ :
      ∃ record, child.record options .statx = some record ∧
        step out child = ScanListing.keep options child record out)
  rw [← foldl_keep steps answered out]
  induction content generalizing statOk out with
  | nil => rfl
  | cons child rest ih =>
    by_cases dotted : child.isDot
    · have skipped : readDir (child :: rest) = readDir rest := by
        rw [readDir, List.filter_cons_of_neg (by simpa using dotted)]
        rfl
      rw [skipped] at answered ⊢
      rw [ScanListing.statxEntries, if_pos dotted]
      exact ih answered statOk out
    · have first : readDir (child :: rest) = child :: readDir rest := by
        rw [readDir, List.filter_cons_of_pos (by simpa using dotted)]
        rfl
      rw [first] at answered ⊢
      obtain ⟨⟨own, lstat⟩, others⟩ := List.forall_mem_cons.mp answered
      obtain ⟨later, turned⟩ := @statxEntries_cons options child own rest lstat dotted statOk out
      obtain ⟨record, recorded, stepped⟩ := steps child own lstat out
      rw [ScanChild.record, lstat] at recorded
      cases recorded
      rw [turned, List.foldl_cons, ih others, stepped]

theorem listStatx_eq {content : List ScanChild} (answered : ∀ child ∈ readDir content, child.Answered) :
    listStatx options content = some (listed .statx options (readDir content)) := by
  have looped := @statxEntries_eq options content answered false (.new .statx)
  simpa [listStatx, ScanListing.new, listed] using looped

end Rule

section Agreement

/-- A record without the flags, which every lister has its own of. -/
def Record.unflagged (record : Record) : Record := { record with flags := 0 }

/-- Two listings of a directory tell the same, flags apart. -/
structure ScanListing.Same (left right : ScanListing) : Prop where
  entries : left.entries.map (fun entry => (entry.1, entry.2.unflagged)) =
    right.entries.map fun entry => (entry.1, entry.2.unflagged)
  ignoreFiles : left.ignoreFiles = right.ignoreFiles
  skipped : left.skipped = right.skipped

namespace ScanChild

variable (options : ScanListOptions) (child : ScanChild)

/-- The times that both readings of a `timespec` give. -/
def Dated : Prop := ∀ inode, child.inode options = some inode → ∀ time ∈ inode.btime, time.Agreed

/-- The OS reports a birth time, as it does on every volume that has the bulk call. -/
def Born : Prop := (∀ own, child.lstat = .ok own → own.btime.isSome) ∧
  ∀ target, child.target = some target → target.btime.isSome

end ScanChild

variable {options : ScanListOptions} {child : ScanChild} {own : Inode}

theorem Record.fromStatx_unflagged (inode : Inode) : (fromStatx inode).unflagged =
    { (fromMetadata inode).unflagged with btimeNs := inode.btime.map TimeSpec.timespecNs } := by
  unfold fromStatx fromMetadata normalised unflagged
  dsimp only
  split_ifs <;> rfl

theorem Record.fromMetadata_btimeNs (inode : Inode) :
    (fromMetadata inode).btimeNs = inode.btime.map TimeSpec.systemTimeNs := by
  unfold fromMetadata normalised
  dsimp only
  split_ifs <;> rfl

theorem Record.parse_unflagged (inode : Inode) : (parse inode).unflagged = (fromStatx inode).unflagged := by
  unfold parse fromStatx normalised unflagged
  cases fileType : inode.fileType <;> simp [kindOf]

theorem Record.statAt_unflagged {inode : Inode} (born : inode.btime.isSome) :
    ((statAt inode).marked true).unflagged = ((fromStatx inode).marked true).unflagged := by
  obtain ⟨time, known⟩ := Option.isSome_iff_exists.mp born
  unfold statAt fromStatx normalised unflagged marked
  simp only [known, Option.getD_some, Option.map_some]
  split_ifs <;> rfl

theorem Record.normalised_isSymlink (record : Record) : record.normalised.isSymlink = record.isSymlink := by
  unfold normalised
  dsimp only
  split_ifs <;> rfl

theorem Record.marked_self {record : Record} {link : Bool} (same : record.isSymlink = link) :
    record.marked link = record := by
  rw [← same]
  rfl

theorem followed_eq {read : Inode → Record} (lstat : child.lstat = .ok own)
    (kind : ∀ inode, (read inode).kind = kindOf inode.fileType)
    (link : ∀ inode, (read inode).isSymlink = decide (inode.fileType = .symlink)) {inode : Inode}
    (leads : child.inode options = some inode) :
    ScanListing.followed options child (read own) read =
      (read inode).marked (decide (own.fileType = .symlink)) := by
  unfold ScanListing.followed
  unfold ScanChild.inode at leads
  simp only [lstat, Except.toOption, Option.map_some, Option.some.injEq] at leads
  simp only [kind, kindOf_eq_symlink]
  split_ifs at leads ⊢ with follows
  · simp only [Bool.and_eq_true, decide_eq_true_eq] at follows
    rw [decide_eq_true follows.1]
    cases target : child.target with
    | none =>
      rw [target] at leads
      subst leads
      exact (Record.marked_self ((link own).trans (decide_eq_true follows.1))).symm
    | some file =>
      rw [target] at leads
      subst leads
      rfl
  · subst leads
    exact (Record.marked_self (link own)).symm

theorem record_statx (lstat : child.lstat = .ok own) {inode : Inode} (leads : child.inode options = some inode) :
    child.record options .statx = some ((Record.fromStatx inode).marked (decide (own.fileType = .symlink))) ∧
      child.record options .portable =
        some ((Record.fromMetadata inode).marked (decide (own.fileType = .symlink))) := by
  unfold ScanChild.record
  rw [lstat]
  exact ⟨congrArg some (followed_eq lstat Record.fromStatx_kind
      (fun _ => Record.normalised_isSymlink _) leads),
    congrArg some (followed_eq lstat Record.fromMetadata_kind
      (fun _ => Record.normalised_isSymlink _) leads)⟩

theorem record_bulk (answered : child.Answered) (born : child.Born) :
    (child.record options .bulk).map Record.unflagged = (child.record options .statx).map Record.unflagged := by
  obtain ⟨own, lstat⟩ := answered
  unfold ScanChild.record ScanListing.followed
  have parsed : (Record.parse own).kind = (Record.fromStatx own).kind :=
    (Record.parse_kind own).trans (Record.fromStatx_kind own).symm
  simp only [lstat, Except.toOption, Option.map_some, parsed]
  split_ifs
  · cases target : child.target with
    | none => exact congrArg some (Record.parse_unflagged own)
    | some file => exact congrArg some (Record.statAt_unflagged (born.2 file target))
  · exact congrArg some (Record.parse_unflagged own)

theorem Record.unflagged_eq_iff (inode : Inode) (link : Bool) :
    ((fromStatx inode).marked link).unflagged = ((fromMetadata inode).marked link).unflagged ↔
      ∀ time ∈ inode.btime, time.Agreed := by
  have differ : ((fromStatx inode).marked link).unflagged =
      { ((fromMetadata inode).marked link).unflagged with btimeNs := inode.btime.map TimeSpec.timespecNs } :=
    congrArg (marked · link) (fromStatx_unflagged inode)
  have portable : (((fromMetadata inode).marked link).unflagged).btimeNs =
      inode.btime.map TimeSpec.systemTimeNs := fromMetadata_btimeNs inode
  rw [differ]
  constructor
  · intro same time known
    have times := congrArg btimeNs same
    rw [portable, Option.mem_def.mp known] at times
    exact time.timespecNs_eq_iff.mp (Option.some.inj times)
  · intro agreed
    have times : inode.btime.map TimeSpec.timespecNs = inode.btime.map TimeSpec.systemTimeNs :=
      Option.map_congr fun time known => time.timespecNs_eq_iff.mpr (agreed time known)
    rw [times, ← portable]

theorem record_portable (answered : child.Answered) :
    (child.record options .statx).map Record.unflagged = (child.record options .portable).map Record.unflagged ↔
      child.Dated options := by
  obtain ⟨own, lstat⟩ := answered
  have leads : ∃ inode, child.inode options = some inode := by
    unfold ScanChild.inode
    rw [lstat]
    exact ⟨_, rfl⟩
  obtain ⟨inode, leads⟩ := leads
  obtain ⟨statx, portable⟩ := record_statx lstat leads
  rw [statx, portable, Option.map_some, Option.map_some, Option.some_inj, Record.unflagged_eq_iff]
  constructor
  · intro agreed other same
    cases leads.symm.trans same
    exact agreed
  · exact fun dated => dated inode leads

theorem filterMap_eq_iff {α β : Type} {first second : α → Option β} {list : List α}
    (defined : ∀ value ∈ list, (first value).isSome ∧ (second value).isSome) :
    list.filterMap first = list.filterMap second ↔ ∀ value ∈ list, first value = second value := by
  induction list with
  | nil => simp
  | cons head rest ih =>
    obtain ⟨⟨one, two⟩, later⟩ := List.forall_mem_cons.mp defined
    obtain ⟨left, isLeft⟩ := Option.isSome_iff_exists.mp one
    obtain ⟨right, isRight⟩ := Option.isSome_iff_exists.mp two
    rw [List.filterMap_cons_some isLeft, List.filterMap_cons_some isRight, List.cons_eq_cons, ih later,
      List.forall_mem_cons, isLeft, isRight, Option.some_inj]

theorem filterMap_filter_eq_iff {α β : Type} {keeps : α → Bool} {value : α → Option β} {list : List α} :
    (list.filter keeps).filterMap value = list.filterMap value ↔
      ∀ element ∈ list, (value element).isSome → keeps element := by
  induction list with
  | nil => simp
  | cons head rest ih =>
    rw [List.forall_mem_cons, ← ih]
    have fewer : ((rest.filter keeps).filterMap value).length ≤ (rest.filterMap value).length :=
      (List.filter_sublist.filterMap value).length_le
    cases kept : keeps head <;> cases known : value head
    · simp [kept, known]
    · rw [List.filter_cons_of_neg (by simp [kept]), List.filterMap_cons_some known]
      refine iff_of_false (fun same => ?_) (fun both => by simpa using both.1)
      rw [same, List.length_cons] at fewer
      exact Nat.not_succ_le_self _ fewer
    · simp [kept, known]
    · simp [kept, known]

theorem listed_unflagged {content : List ScanChild} (lister : ListerKind) :
    (listed lister options content).entries.map (fun entry => (entry.1, entry.2.unflagged)) =
      (content.filter (·.kept options)).filterMap fun child =>
        ((child.record options lister).map Record.unflagged).map fun record => (child.name, record) := by
  rw [listed, List.map_filterMap]
  apply List.filterMap_congr
  intro child _
  cases child.record options lister <;> rfl

theorem listed_same_iff {content : List ScanChild} (answered : ∀ child ∈ content, child.Answered)
    (left right : ListerKind) : (listed left options content).Same (listed right options content) ↔
      ∀ child ∈ content, child.kept options →
        (child.record options left).map Record.unflagged =
          (child.record options right).map Record.unflagged := by
  have recorded : ∀ child ∈ content.filter (·.kept options), ∀ lister, (child.record options lister).isSome := by
    intro child member lister
    obtain ⟨own, lstat⟩ := answered child (List.mem_of_mem_filter member)
    rw [ScanChild.record, lstat]
    rfl
  have entries := @filterMap_eq_iff ScanChild (OsString × Record)
    (fun child => ((child.record options left).map Record.unflagged).map fun record => (child.name, record))
    (fun child => ((child.record options right).map Record.unflagged).map fun record => (child.name, record))
    (content.filter (·.kept options)) (fun child member => by simpa using ⟨recorded child member left, recorded child member right⟩)
  rw [← listed_unflagged, ← listed_unflagged] at entries
  have named : ∀ child : ScanChild, Function.Injective fun record : Record => (child.name, record) :=
    fun _ _ _ same => (Prod.ext_iff.mp same).2
  constructor
  · intro same child member kept
    exact Option.map_injective (named child) (entries.mp same.entries child (List.mem_filter.mpr ⟨member, kept⟩))
  · intro agree
    refine ⟨entries.mpr ?_, rfl, rfl⟩
    intro child member
    obtain ⟨inside, kept⟩ := List.mem_filter.mp member
    rw [agree child inside kept]

/-- The listing rule of a directory's content: the three listers tell the same, a name is
listed exactly when the name rules and the filter keep it, and the texts are those of all
ignore files. -/
structure OneRule (options : ScanListOptions) (content : List ScanChild) : Prop where
  statx : ∃ listing, listStatx options content = some listing ∧ listing.Same (listPortable options content)
  bulk : (∀ child ∈ readDir content, child.Born) →
    (listBulk options content).Same (listPortable options content)
  entries : (listPortable options content).entries.map Prod.fst =
    ((readDir content).filter (·.kept options)).map (·.name)
  texts : (listPortable options content).ignoreFiles = (readDir content).filterMap (·.ignoreText options)

/-- No ignore file is dropped by name, and no listed birth time lies where the two readings
of it part. -/
structure Spared (options : ScanListOptions) (content : List ScanChild) : Prop where
  texts : ∀ child ∈ readDir content, (child.ignoreText options).isSome → child.kept options
  times : ∀ child ∈ readDir content, child.kept options → child.Dated options

theorem listed_names {content : List ScanChild} (answered : ∀ child ∈ content, child.Answered)
    (lister : ListerKind) : (listed lister options content).entries.map Prod.fst =
      (content.filter (·.kept options)).map (·.name) := by
  rw [listed, List.map_filterMap, ← List.filterMap_eq_map]
  apply List.filterMap_congr
  intro child member
  obtain ⟨own, lstat⟩ := answered child (List.mem_of_mem_filter member)
  rw [ScanChild.record, lstat]
  rfl

/-- For every content and every options, the listers follow the one rule exactly when no
ignore file is dropped and no birth time is read in two ways. -/
theorem oneRule_iff {content : List ScanChild} (answered : ∀ child ∈ readDir content, child.Answered) :
    OneRule options content ↔ Spared options content := by
  have statx := @listed_same_iff options _ answered .statx .portable
  have texts : (listed .portable options (readDir content)).ignoreFiles =
      (readDir content).filterMap (·.ignoreText options) ↔ _ := filterMap_filter_eq_iff
  constructor
  · intro rule
    obtain ⟨listing, found, same⟩ := rule.statx
    rw [listStatx_eq answered] at found
    cases found
    rw [listPortable_eq answered] at same
    refine ⟨texts.mp ?_, fun child member kept => ?_⟩
    · rw [← listPortable_eq answered]
      exact rule.texts
    · exact (record_portable (answered child member)).mp (statx.mp same child member kept)
  · intro spared
    have agree : ∀ child ∈ readDir content, child.kept options →
        (child.record options .statx).map Record.unflagged =
          (child.record options .portable).map Record.unflagged :=
      fun child member kept => (record_portable (answered child member)).mpr (spared.times child member kept)
    refine ⟨⟨_, listStatx_eq answered, ?_⟩, fun born => ?_, ?_, ?_⟩
    · rw [listPortable_eq answered]
      exact statx.mpr agree
    · rw [listPortable_eq answered, listBulk_eq answered]
      apply (listed_same_iff answered .bulk .portable).mpr
      intro child member kept
      exact (record_bulk (answered child member) (born child member)).trans (agree child member kept)
    · rw [listPortable_eq answered]
      exact listed_names answered .portable
    · rw [listPortable_eq answered]
      exact texts.mpr spared.texts

end Agreement

end Mille.Scanning
