import Mille.Drive.Report

/-! The writes of a drive to its document, and the catalog read back from the flat maps. -/

namespace Mille.Drive.Writes

open Std (ExtTreeMap)
open Mille.Bincode

/-- A version's record as it is written. -/
structure VersionRecord where
  files : List FileEntry
  createdAt : UInt64
  device : String
deriving DecidableEq

structure VersionView where
  id : String
  files : List FileEntry
  createdAt : UInt64
  device : String
  attachments : ExtTreeMap String ObjectRef
  quarantined : Bool
  held : Bool

structure ItemView where
  id : String
  metas : ExtTreeMap String String
  current : Option String
  kept : Bool
  hidden : Bool
  /-- Oldest first. -/
  versions : List VersionView

def ItemView.empty (id : String) : ItemView := ⟨id, {}, none, false, false, []⟩

def ItemView.version (item : ItemView) (id : String) : Option VersionView :=
  item.versions.find? (·.id = id)

abbrev Items := ExtTreeMap String ItemView

/-- What `serde_json` writes of a type and reads back. -/
structure Json (α : Type) where
  encode : α → String
  decode : String → Option α
  decode_encode : ∀ value, decode (encode value) = some value

/-- What a drive's code rests on: case folding, the hash, and the JSON forms. -/
structure Setting where
  toLowercase : String → String
  hash : Bytes → Blake3
  version : Json VersionRecord
  object : Json ObjectRef

section Catalog

variable (setting : Setting) (held : Blake3 → Bool)

def versionView (id json : String) : VersionView :=
  match setting.version.decode json with
  | none => ⟨id, [], 0, "", {}, true, false⟩
  | some record =>
    let valid := validManifest setting.toLowercase record.files && versionId setting.hash record.files = id
    ⟨id, record.files, record.createdAt, record.device, {}, !valid,
      valid && record.files.all fun file => held file.blake3⟩

/-- `item_entry`, changed in place. -/
def onItem (items : Items) (item : String) (change : ItemView → ItemView) : Items :=
  items.insert item (change ((items[item]?).getD (.empty item)))

/-- One turn of a loop over a map: the entry's item and what is done to it, if anything. -/
def pass {β : Type} (aim : β → Option (String × (ItemView → ItemView))) (items : Items) (binding : β) : Items :=
  match aim binding with
  | none => items
  | some (item, change) => onItem items item change

def aimVersion (binding : String × String) : Option (String × (ItemView → ItemView)) := do
  let (item, id) ← splitOnce binding.1
  if isValidItemId item && isValidVersionId id then
    some (item, fun view => { view with versions := view.versions ++ [versionView setting held id binding.2] })
  else none

def aimCurrent (binding : String × String) : Option (String × (ItemView → ItemView)) :=
  if isValidItemId binding.1 && isValidVersionId binding.2 then
    some (binding.1, fun view => { view with current := some binding.2 })
  else none

def aimKept (binding : String × Bool) : Option (String × (ItemView → ItemView)) :=
  if isValidItemId binding.1 then some (binding.1, fun view => { view with kept := binding.2 }) else none

def aimHidden (binding : String × Bool) : Option (String × (ItemView → ItemView)) :=
  if isValidItemId binding.1 then some (binding.1, fun view => { view with hidden := binding.2 }) else none

def aimMeta (binding : String × String) : Option (String × (ItemView → ItemView)) := do
  let (item, name) ← splitOnce binding.1
  if isValidItemId item && isValidName name then
    some (item, fun view => { view with metas := view.metas.insert name binding.2 })
  else none

/-- An attachment goes to the first version of the item with its id. -/
def attach (version name : String) (object : ObjectRef) : List VersionView → List VersionView
  | [] => []
  | view :: rest =>
    if view.id = version then { view with attachments := view.attachments.insert name object } :: rest
    else view :: attach version name object rest

/-- The item, version, name and object of an attachment's entry. -/
def readAttachment (binding : String × String) : Option (String × String × String × ObjectRef) := do
  let (item, version, name) ← splitTwice binding.1
  let object ← setting.object.decode binding.2
  if isValidName name then some (item, version, name, object) else none

def addAttachment (items : Items) (binding : String × String) : Items :=
  match readAttachment setting binding with
  | none => items
  | some (item, version, name, object) =>
    match items[item]? with
    | none => items
    | some view => items.insert item { view with versions := attach version name object view.versions }

/-- Oldest first, then by id. -/
def Precedes (left right : VersionView) : Prop :=
  left.createdAt < right.createdAt ∨ left.createdAt = right.createdAt ∧ left.id ≤ right.id

instance (left right : VersionView) : Decidable (Precedes left right) :=
  inferInstanceAs (Decidable (_ ∨ _))

def ItemView.sorted (item : ItemView) : ItemView :=
  { item with versions := item.versions.insertionSort Precedes }

/-- The document read as items. -/
def catalog (state : DocText) : Items :=
  let items := state.versions.toList.foldl (pass (aimVersion setting held)) {}
  let items := state.current.toList.foldl (pass aimCurrent) items
  let items := state.kept.toList.foldl (pass aimKept) items
  let items := state.hidden.toList.foldl (pass aimHidden) items
  let items := state.metas.toList.foldl (pass aimMeta) items
  let items := state.attachments.toList.foldl (addAttachment setting) items
  items.map fun _ item => item.sorted

end Catalog

section Writes

variable (setting : Setting)

/-- What a write meets: the clock, the device, and the objects held at a size. -/
structure Moment where
  now : UInt64
  device : String
  holds : Blake3 → UInt64 → Bool

inductive Write where
  | addVersion (item : String) (files : List FileEntry) (makeCurrent : Bool)
  | setCurrent (item version : String)
  | setKept (item : String) (kept : Bool)
  | setHidden (item : String) (hidden : Bool)
  | setMeta (item key : String) (value : Option String)
  | setAttachment (item version name : String) (object : Option ObjectRef)

def joined (item rest : String) : String := item ++ "/" ++ rest

/-- A version record is written unless its key is there already. -/
def putVersion (state : DocText) (item id : String) (record : VersionRecord) : DocText :=
  match state.versions[joined item id]? with
  | some _ => state
  | none => { state with versions := state.versions.insert (joined item id) (setting.version.encode record) }

def setObject (state : DocText) (item version name : String) : Option ObjectRef → DocText
  | some object =>
    { state with
      attachments := state.attachments.insert (joined item (joined version name)) (setting.object.encode object) }
  | none => { state with attachments := state.attachments.erase (joined item (joined version name)) }

def findVersion (state : DocText) (item version : String) : Option VersionView :=
  ((catalog setting (fun _ => true) state)[item]?).bind (·.version version)

/-- The item has a version. -/
def known (state : DocText) (item : String) : Bool :=
  match (catalog setting (fun _ => true) state)[item]? with
  | none => false
  | some view => !view.versions.isEmpty

/-- The document behind a write; nothing when the write is refused. -/
def write (moment : Moment) (state : DocText) : Write → Option DocText
  | .addVersion item files makeCurrent =>
    if isValidItemId item && validManifest setting.toLowercase files &&
        files.all fun file => moment.holds file.blake3 file.bytes then
      let id := versionId setting.hash files
      let state := putVersion setting state item id ⟨files, moment.now, moment.device⟩
      some (if makeCurrent then { state with current := state.current.insert item id } else state)
    else none
  | .setCurrent item version =>
    if isValidItemId item && isValidVersionId version then
      match findVersion setting state item version with
      | none => none
      | some view =>
        if view.quarantined then none
        else some { state with current := state.current.insert item version }
    else none
  | .setKept item kept =>
    if isValidItemId item && known setting state item then
      some { state with kept := state.kept.insert item kept }
    else none
  | .setHidden item hidden =>
    if isValidItemId item && known setting state item then
      some { state with hidden := state.hidden.insert item hidden }
    else none
  | .setMeta item key value => state.setMeta item key value
  | .setAttachment item version name object =>
    if isValidItemId item && isValidVersionId version && isValidName name &&
        object.all fun object => moment.holds object.blake3 object.bytes then
      match findVersion setting state item version with
      | none => none
      | some _ => some (setObject setting state item version name object)
    else none

end Writes

section Keys

theorem splitOnce_joined {item : String} (slashless : '/' ∉ item.toList) (rest : String) :
    splitOnce (joined item rest) = some (item, rest) := by
  have chars : (joined item rest).toList = item.toList ++ '/' :: rest.toList := by simp [joined]
  have all : ∀ char ∈ item.toList, decide (char ≠ '/') = true := by
    intro char member
    exact decide_eq_true fun same => slashless (same ▸ member)
  rw [splitOnce, chars, List.span_eq_takeWhile_dropWhile, List.takeWhile_append_of_pos all,
    List.dropWhile_append_of_pos all]
  simp

theorem joined_of_splitOnce {key item rest : String} (split : splitOnce key = some (item, rest)) :
    key = joined item rest ∧ '/' ∉ item.toList := by
  have whole := List.takeWhile_append_dropWhile (p := (· ≠ '/')) (l := key.toList)
  rw [splitOnce, List.span_eq_takeWhile_dropWhile] at split
  cases tail : key.toList.dropWhile (· ≠ '/') with
  | nil =>
    rw [tail] at split
    cases split
  | cons slash after =>
    have head : slash = '/' := by
      have first := List.head?_dropWhile_not (· ≠ '/') key.toList
      rw [tail] at first
      simpa using first
    rw [tail] at split whole
    subst head
    cases split
    constructor
    · apply String.toList_injective
      have chars : ∀ front, (joined (String.ofList front) (String.ofList after)).toList = front ++ '/' :: after := by
        simp [joined]
      rw [chars]
      exact whole.symm
    · intro member
      rw [String.toList_ofList] at member
      exact absurd (List.mem_takeWhile_imp member) (by simp)

theorem joined_inj {item other rest more : String} (slashless : '/' ∉ item.toList)
    (also : '/' ∉ other.toList) : joined item rest = joined other more ↔ item = other ∧ rest = more := by
  constructor
  · intro same
    have split := congrArg splitOnce same
    rw [splitOnce_joined slashless, splitOnce_joined also, Option.some.injEq, Prod.mk.injEq] at split
    exact split
  · rintro ⟨rfl, rfl⟩
    rfl

theorem slashless_of_all {text : String} {allowed : Char → Bool} (all : text.toList.all allowed = true)
    (slash : allowed '/' = false) : '/' ∉ text.toList := by
  intro member
  rw [List.all_eq_true.mp all _ member] at slash
  cases slash

theorem slashless_of_isValidItemId {item : String} (valid : isValidItemId item = true) :
    '/' ∉ item.toList := by
  rw [isValidItemId] at valid
  split at valid
  · cases valid
  · rename_i first rest chars
    simp only [Bool.and_eq_true] at valid
    rw [← chars] at valid
    exact slashless_of_all valid.1.2 (by decide)

theorem slashless_of_isValidVersionId {id : String} (valid : isValidVersionId id = true) :
    '/' ∉ id.toList := by
  rw [isValidVersionId, Bool.and_eq_true] at valid
  exact slashless_of_all valid.2 (by decide)

/-- The entries of an item in a map with joined keys. -/
def below (item : String) (map : ExtTreeMap String String) : List (String × String) :=
  map.toList.filterMap fun binding =>
    (splitOnce binding.1).bind fun split => if split.1 = item then some (split.2, binding.2) else none

theorem mem_below {item rest value : String} (slashless : '/' ∉ item.toList)
    {map : ExtTreeMap String String} :
    (rest, value) ∈ below item map ↔ map[joined item rest]? = some value := by
  rw [below, List.mem_filterMap]
  constructor
  · rintro ⟨⟨key, found⟩, listed, read⟩
    obtain ⟨⟨owner, more⟩, split, kept⟩ := Option.bind_eq_some_iff.mp read
    obtain ⟨rfl, same⟩ := Option.ite_none_right_eq_some.mp kept
    cases same
    rw [← (joined_of_splitOnce split).1]
    exact ExtTreeMap.mem_toList_iff_getElem?_eq_some.mp listed
  · intro found
    refine ⟨(joined item rest, value), ExtTreeMap.mem_toList_iff_getElem?_eq_some.mpr found, ?_⟩
    simp [splitOnce_joined slashless]

theorem nodup_below (item : String) (map : ExtTreeMap String String) :
    ((below item map).map Prod.fst).Nodup := by
  have keys : map.toList.Pairwise fun left right => left.1 ≠ right.1 :=
    map.distinct_keys_toList.imp fun apart same => apart (by rw [same]; exact Std.compare_self)
  rw [List.nodup_iff_pairwise_ne, List.pairwise_map]
  apply keys.filterMap
  intro left right apart first there second here same
  obtain ⟨⟨owner, rest⟩, split, kept⟩ := Option.bind_eq_some_iff.mp there
  obtain ⟨⟨other, more⟩, cut, found⟩ := Option.bind_eq_some_iff.mp here
  obtain ⟨rfl, shown⟩ := Option.ite_none_right_eq_some.mp kept
  obtain ⟨owners, told⟩ := Option.ite_none_right_eq_some.mp found
  cases shown
  cases told
  have owners : other = owner := owners
  subst owners
  apply apart
  rw [(joined_of_splitOnce split).1, (joined_of_splitOnce cut).1]
  exact congrArg (joined other) same

end Keys

section Passes

variable {β : Type}

/-- What the entries of a list do to one item. -/
def changesFor (aim : β → Option (String × (ItemView → ItemView))) (item : String) (list : List β) :
    List (ItemView → ItemView) :=
  list.filterMap fun binding =>
    (aim binding).bind fun aimed => if aimed.1 = item then some aimed.2 else none

/-- An item's view, made when a change first needs it. -/
def changed (item : String) (view : Option ItemView) (changes : List (ItemView → ItemView)) : Option ItemView :=
  changes.foldl (fun held change => some (change (held.getD (.empty item)))) view

theorem lookup_pass (aim : β → Option (String × (ItemView → ItemView))) (items : Items) (list : List β)
    (item : String) :
    (list.foldl (pass aim) items)[item]? = changed item items[item]? (changesFor aim item list) := by
  induction list generalizing items with
  | nil => rfl
  | cons binding rest ih =>
    rw [List.foldl_cons, ih, changesFor, changesFor, List.filterMap_cons]
    cases aimed : aim binding with
    | none => simp [pass, aimed]
    | some target =>
      obtain ⟨owner, change⟩ := target
      by_cases same : owner = item
      · simp [pass, aimed, onItem, same, changed]
      · simp [pass, aimed, onItem, Maps.lookup_insert, same]

theorem changed_append (item : String) (view : Option ItemView) (changes more : List (ItemView → ItemView)) :
    changed item view (changes ++ more) = changed item (changed item view changes) more :=
  List.foldl_append

/-- The changes done one after the other. -/
def applied (changes : List (ItemView → ItemView)) (view : ItemView) : ItemView :=
  changes.foldl (fun view change => change view) view

theorem changed_some (item : String) (view : ItemView) (changes : List (ItemView → ItemView)) :
    changed item (some view) changes = some (applied changes view) := by
  induction changes generalizing view with
  | nil => rfl
  | cons change rest ih => exact ih (change view)

theorem changed_none (item : String) (changes : List (ItemView → ItemView)) :
    changed item none changes = if changes = [] then none else some (applied changes (.empty item)) := by
  cases changes with
  | nil => rfl
  | cons change rest => exact (changed_some item _ rest).trans (if_neg (List.cons_ne_nil _ _)).symm

theorem applied_append (changes more : List (ItemView → ItemView)) (view : ItemView) :
    applied (changes ++ more) view = applied more (applied changes view) :=
  List.foldl_append

theorem changesFor_joined (map : ExtTreeMap String String) (allowed : String → String → Bool)
    (change : String → String → ItemView → ItemView) (item : String) :
    changesFor (fun binding => (splitOnce binding.1).bind fun split =>
        if allowed split.1 split.2 then some (split.1, change split.2 binding.2) else none) item map.toList =
      ((below item map).filter fun entry => allowed item entry.1).map fun entry => change entry.1 entry.2 := by
  rw [changesFor, below, List.filter_filterMap, List.map_filterMap]
  apply List.filterMap_congr
  intro binding _
  cases splitOnce binding.1 with
  | none => rfl
  | some split =>
    by_cases same : split.1 = item
    · by_cases admitted : allowed item split.2 <;> simp [same, admitted]
    · by_cases admitted : allowed split.1 split.2 <;> simp [same, admitted]

theorem changesFor_own {ν : Type} [DecidableEq ν] (map : ExtTreeMap String ν) (allowed : String → ν → Bool)
    (change : ν → ItemView → ItemView) (item : String) :
    changesFor (fun binding =>
        if allowed binding.1 binding.2 then some (binding.1, change binding.2) else none) item map.toList =
      (map[item]?.filter (allowed item)).toList.map change := by
  have own : changesFor (fun binding =>
        if allowed binding.1 binding.2 then some (binding.1, change binding.2) else none) item map.toList =
      (map.toList.filter (fun binding => binding.1 = item)).filterMap fun binding =>
        if allowed item binding.2 then some (change binding.2) else none := by
    rw [changesFor, List.filterMap_filter]
    apply List.filterMap_congr
    intro binding _
    by_cases same : binding.1 = item
    · by_cases admitted : allowed item binding.2 <;> simp [same, admitted]
    · by_cases admitted : allowed binding.1 binding.2 <;> simp [same, admitted]
  rw [own, filter_key]
  cases map[item]? with
  | none => rfl
  | some value => by_cases admitted : allowed item value <;> simp [Option.filter, admitted]

end Passes

section Items

variable (setting : Setting) (held : Blake3 → Bool) (state : DocText)

/-- The versions the document lists for an item. -/
def listedVersions (item : String) : List VersionView :=
  ((below item state.versions).filter fun entry => isValidItemId item && isValidVersionId entry.1).map
    fun entry => versionView setting held entry.1 entry.2

def listedMetas (item : String) : List (String × String) :=
  (below item state.metas).filter fun entry => isValidItemId item && isValidName entry.1

/-- Everything the maps but the last do to an item. -/
def itemChanges (item : String) : List (ItemView → ItemView) :=
  changesFor (aimVersion setting held) item state.versions.toList ++
    changesFor aimCurrent item state.current.toList ++ changesFor aimKept item state.kept.toList ++
    changesFor aimHidden item state.hidden.toList ++ changesFor aimMeta item state.metas.toList

theorem itemChanges_eq (item : String) : itemChanges setting held state item =
    (listedVersions setting held state item).map (fun version view =>
        { view with versions := view.versions ++ [version] }) ++
      (state.current[item]?.filter fun id => isValidItemId item && isValidVersionId id).toList.map
        (fun id view => { view with current := some id }) ++
      (state.kept[item]?.filter fun _ => isValidItemId item).toList.map
        (fun kept view => { view with kept := kept }) ++
      (state.hidden[item]?.filter fun _ => isValidItemId item).toList.map
        (fun hidden view => { view with hidden := hidden }) ++
      (listedMetas state item).map fun entry view =>
        { view with metas := view.metas.insert entry.1 entry.2 } := by
  have versions : changesFor (aimVersion setting held) item state.versions.toList = _ :=
    changesFor_joined state.versions (fun item id => isValidItemId item && isValidVersionId id)
      (fun id json view => { view with versions := view.versions ++ [versionView setting held id json] }) item
  have current : changesFor aimCurrent item state.current.toList = _ :=
    changesFor_own state.current (fun item id => isValidItemId item && isValidVersionId id)
      (fun id view => { view with current := some id }) item
  have kept : changesFor aimKept item state.kept.toList = _ :=
    changesFor_own state.kept (fun item _ => isValidItemId item) (fun kept view => { view with kept := kept }) item
  have hidden : changesFor aimHidden item state.hidden.toList = _ :=
    changesFor_own state.hidden (fun item _ => isValidItemId item)
      (fun hidden view => { view with hidden := hidden }) item
  have metas : changesFor aimMeta item state.metas.toList = _ :=
    changesFor_joined state.metas (fun item name => isValidItemId item && isValidName name)
      (fun name value view => { view with metas := view.metas.insert name value }) item
  rw [listedVersions, listedMetas, List.map_map, itemChanges, versions, current, kept, hidden, metas]
  rfl

theorem applied_versions (list : List VersionView) (view : ItemView) :
    applied (list.map fun version view => { view with versions := view.versions ++ [version] }) view =
      { view with versions := view.versions ++ list } := by
  induction list generalizing view with
  | nil => simp [applied]
  | cons version rest ih =>
    rw [List.map_cons, applied, List.foldl_cons]
    refine (ih _).trans ?_
    simp

theorem applied_metas (list : List (String × String)) (view : ItemView) :
    applied (list.map fun entry view => { view with metas := view.metas.insert entry.1 entry.2 }) view =
      { view with metas := Maps.insertAll view.metas list } := by
  induction list generalizing view with
  | nil => rfl
  | cons entry rest ih => exact ih _

theorem applied_current (current : Option String) (view : ItemView) :
    applied (current.toList.map fun id view => { view with current := some id }) view =
      { view with current := current.or view.current } := by
  cases current <;> rfl

theorem applied_kept (kept : Option Bool) (view : ItemView) :
    applied (kept.toList.map fun kept view => { view with kept := kept }) view =
      { view with kept := kept.getD view.kept } := by
  cases kept <;> rfl

theorem applied_hidden (hidden : Option Bool) (view : ItemView) :
    applied (hidden.toList.map fun hidden view => { view with hidden := hidden }) view =
      { view with hidden := hidden.getD view.hidden } := by
  cases hidden <;> rfl

/-- What the maps but the last say of an item. -/
def baseView (item : String) : ItemView where
  id := item
  metas := Maps.insertAll {} (listedMetas state item)
  current := state.current[item]?.filter fun id => isValidItemId item && isValidVersionId id
  kept := (state.kept[item]?.filter fun _ => isValidItemId item).getD false
  hidden := (state.hidden[item]?.filter fun _ => isValidItemId item).getD false
  versions := listedVersions setting held state item

theorem applied_itemChanges (item : String) :
    applied (itemChanges setting held state item) (.empty item) = baseView setting held state item := by
  rw [itemChanges_eq]
  simp only [applied_append, applied_versions, applied_current, applied_kept, applied_hidden, applied_metas]
  simp [baseView, ItemView.empty]

end Items

section Attachments

variable (setting : Setting)

/-- The attachments the document lists for an item. -/
def attachmentsFor (item : String) (list : List (String × String)) : List (String × String × ObjectRef) :=
  list.filterMap fun binding =>
    (readAttachment setting binding).bind fun entry => if entry.1 = item then some entry.2 else none

/-- One attachment after the other. -/
def attachAll (entries : List (String × String × ObjectRef)) (views : List VersionView) : List VersionView :=
  entries.foldl (fun views entry => attach entry.1 entry.2.1 entry.2.2 views) views

theorem lookup_addAttachments (items : Items) (list : List (String × String)) (item : String) :
    (list.foldl (addAttachment setting) items)[item]? =
      items[item]?.map fun view =>
        { view with versions := attachAll (attachmentsFor setting item list) view.versions } := by
  induction list generalizing items with
  | nil => simp [attachmentsFor, attachAll]
  | cons binding rest ih =>
    rw [List.foldl_cons, ih, attachmentsFor, attachmentsFor, List.filterMap_cons, addAttachment]
    cases readAttachment setting binding with
    | none => rfl
    | some entry =>
      obtain ⟨owner, version, name, object⟩ := entry
      by_cases same : owner = item
      · cases found : items[item]? with
        | none => simp [same, found]
        | some view => simp [same, found, attachAll]
      · cases found : items[owner]? with
        | none => simp [same, found]
        | some view => simp [same, found, Maps.lookup_insert]

/-- A version with the attachments that name it. -/
def attached (entries : List (String × String × ObjectRef)) (view : VersionView) : VersionView :=
  { view with
    attachments := Maps.insertAll view.attachments ((entries.filter (·.1 = view.id)).map Prod.snd) }

theorem attach_eq_map {version name : String} {object : ObjectRef} {views : List VersionView}
    (distinct : (views.map (·.id)).Nodup) :
    attach version name object views = views.map (attached [(version, name, object)]) := by
  induction views with
  | nil => rfl
  | cons view rest ih =>
    obtain ⟨fresh, others⟩ := List.nodup_cons.mp distinct
    rw [attach, List.map_cons]
    by_cases same : view.id = version
    · have kept : rest.map (attached [(version, name, object)]) = rest := by
        conv_rhs => rw [← List.map_id rest]
        apply List.map_congr_left
        intro other member
        have apart : version ≠ other.id := by
          rintro rfl
          exact fresh (List.mem_map.mpr ⟨other, member, same.symm⟩)
        simp [attached, apart, Maps.insertAll]
      rw [if_pos same, kept]
      simp [attached, same, Maps.insertAll]
    · rw [if_neg same, ih others]
      simp [attached, Ne.symm same, Maps.insertAll]

theorem attached_cons (entry : String × String × ObjectRef) (rest : List (String × String × ObjectRef))
    (view : VersionView) : attached (entry :: rest) view = attached rest (attached [entry] view) := by
  by_cases same : entry.1 = view.id <;> simp [attached, same, Maps.insertAll]

theorem attachAll_eq_map (entries : List (String × String × ObjectRef)) {views : List VersionView}
    (distinct : (views.map (·.id)).Nodup) : attachAll entries views = views.map (attached entries) := by
  induction entries generalizing views with
  | nil =>
    conv_lhs => rw [← List.map_id views]
    exact List.map_congr_left fun view _ => by simp [attached, Maps.insertAll]
  | cons entry rest ih =>
    have ids : (views.map (attached [entry])).map (·.id) = views.map (·.id) := by
      rw [List.map_map]
      rfl
    have one := @attach_eq_map entry.1 entry.2.1 entry.2.2 views distinct
    rw [attachAll, List.foldl_cons, one]
    refine (ih (by rw [ids]; exact distinct)).trans ?_
    rw [List.map_map]
    exact List.map_congr_left fun view _ => (attached_cons entry rest view).symm

variable (held : Blake3 → Bool) (state : DocText)

theorem nodup_listedVersions (item : String) :
    ((listedVersions setting held state item).map (·.id)).Nodup := by
  have ids : (listedVersions setting held state item).map (·.id) =
      ((below item state.versions).filter fun entry => isValidItemId item && isValidVersionId entry.1).map
        Prod.fst := by
    rw [listedVersions, List.map_map]
    apply List.map_congr_left
    intro entry _
    rw [Function.comp_apply, versionView]
    cases setting.version.decode entry.2 <;> rfl
  rw [ids]
  exact (nodup_below item state.versions).sublist (List.filter_sublist.map Prod.fst)

/-- What the whole document says of an item. -/
def wholeView (item : String) : ItemView :=
  { baseView setting held state item with
    versions := ((listedVersions setting held state item).map
      (attached (attachmentsFor setting item state.attachments.toList))).insertionSort Precedes }

theorem lookup_catalog (item : String) : (catalog setting held state)[item]? =
    if itemChanges setting held state item = [] then none else some (wholeView setting held state item) := by
  have passes : (catalog setting held state)[item]? =
      (((changed item none (itemChanges setting held state item)).map fun view =>
        { view with versions := attachAll (attachmentsFor setting item state.attachments.toList) view.versions }).map
          ItemView.sorted) := by
    simp only [catalog, ExtTreeMap.getElem?_map, lookup_addAttachments, lookup_pass, itemChanges, changed_append]
    simp
  rw [passes, changed_none, applied_itemChanges]
  split_ifs
  · rfl
  · have all := attachAll_eq_map (attachmentsFor setting item state.attachments.toList)
      (nodup_listedVersions setting held state item)
    simp only [Option.map_some, ItemView.sorted, wholeView]
    rw [← all]
    rfl

end Attachments

section Updates

variable {β γ : Type} {table : String → String → Option β} {outer inner : String} {value : Option β}

/-- A table of two names changed at one pair. -/
def setAt (table : String → String → Option β) (outer inner : String) (value : Option β) :
    String → String → Option β :=
  Function.update table outer (Function.update (table outer) inner value)

theorem setAt_eq_some {first second : String} {found : β} (known : setAt table outer inner value first second = some found) :
    (first = outer ∧ second = inner ∧ value = some found) ∨ table first second = some found := by
  unfold setAt at known
  by_cases outers : first = outer
  · subst outers
    rw [Function.update_self] at known
    by_cases inners : second = inner
    · subst inners
      rw [Function.update_self] at known
      exact .inl ⟨rfl, rfl, known⟩
    · rw [Function.update_of_ne inners] at known
      exact .inr known
  · rw [Function.update_of_ne outers] at known
    exact .inr known

theorem map_setAt (read : β → γ) :
    (fun first second => (setAt table outer inner value first second).map read) =
      setAt (fun first second => (table first second).map read) outer inner (value.map read) := by
  funext first second
  unfold setAt
  by_cases outers : first = outer
  · subst outers
    by_cases inners : second = inner
    · subst inners
      simp
    · simp [Function.update_of_ne inners]
  · simp [Function.update_of_ne outers]

end Updates

section Ledgers

variable (setting : Setting)

/-- What the writes so far say, name by name. -/
structure Ledger where
  versions : String → String → Option VersionRecord
  current : String → Option String
  kept : String → Option Bool
  hidden : String → Option Bool
  metas : String → String → Option String
  attachments : String → String → String → Option ObjectRef

namespace Ledger

def empty : Ledger where
  versions _ _ := none
  current _ := none
  kept _ := none
  hidden _ := none
  metas _ _ := none
  attachments _ _ _ := none

/-- A write that succeeded; a version keeps its first record. -/
def record (moment : Moment) (ledger : Ledger) : Write → Ledger
  | .addVersion item files makeCurrent =>
    let id := versionId setting.hash files
    let first := (ledger.versions item id).getD ⟨files, moment.now, moment.device⟩
    { ledger with
      versions := setAt ledger.versions item id (some first)
      current := if makeCurrent then Function.update ledger.current item (some id) else ledger.current }
  | .setCurrent item version => { ledger with current := Function.update ledger.current item (some version) }
  | .setKept item kept => { ledger with kept := Function.update ledger.kept item (some kept) }
  | .setHidden item hidden => { ledger with hidden := Function.update ledger.hidden item (some hidden) }
  | .setMeta item key value =>
    { ledger with metas := setAt ledger.metas item key value }
  | .setAttachment item version name object =>
    { ledger with
      attachments := Function.update ledger.attachments item
        (setAt (ledger.attachments item) version name object) }

/-- Something is said of the item. -/
def Mentions (ledger : Ledger) (item : String) : Prop :=
  (∃ id, (ledger.versions item id).isSome) ∨ (ledger.current item).isSome ∨ (ledger.kept item).isSome ∨
    (ledger.hidden item).isSome ∨ ∃ key, (ledger.metas item key).isSome

end Ledger

/-- The order of an item's versions, in which none comes twice. -/
def Before (left right : VersionView) : Prop :=
  left.createdAt < right.createdAt ∨ left.createdAt = right.createdAt ∧ left.id < right.id

/-- The view of a version as its first record and its attachments make it. -/
structure ShowsVersion (held : Blake3 → Bool) (ledger : Ledger) (item : String) (view : VersionView) : Prop where
  record : ledger.versions item view.id = some ⟨view.files, view.createdAt, view.device⟩
  attachments : ∀ name : String, view.attachments[name]? = ledger.attachments item view.id name
  sound : view.quarantined = false
  held : view.held = view.files.all fun file => held file.blake3

structure ShowsItem (held : Blake3 → Bool) (ledger : Ledger) (item : String) (view : ItemView) : Prop where
  id : view.id = item
  metas : ∀ key : String, view.metas[key]? = ledger.metas item key
  current : view.current = ledger.current item
  kept : view.kept = (ledger.kept item).getD false
  hidden : view.hidden = (ledger.hidden item).getD false
  sorted : view.versions.Pairwise Before
  shown : ∀ version ∈ view.versions, ShowsVersion held ledger item version
  all : ∀ id record, ledger.versions item id = some record → ∃ version ∈ view.versions, version.id = id

/-- The items are those the ledger speaks of, as it does. -/
structure Shows (held : Blake3 → Bool) (ledger : Ledger) (items : Items) : Prop where
  mentioned : ∀ item : String, item ∈ items ↔ ledger.Mentions item
  views : ∀ (item : String) (view : ItemView), items[item]? = some view → ShowsItem held ledger item view

/-- A map with joined keys holds what a function of both parts says. -/
def Filed (map : ExtTreeMap String String) (entries : String → String → Option String) : Prop :=
  ∀ item rest, '/' ∉ item.toList → map[joined item rest]? = entries item rest

theorem Filed.alter {map : ExtTreeMap String String} {entries : String → String → Option String}
    (filed : Filed map entries) {item : String} (slashless : '/' ∉ item.toList) (rest : String)
    (value : Option String) :
    Filed (match value with
      | some text => map.insert (joined item rest) text
      | none => map.erase (joined item rest))
      (setAt entries item rest value) := by
  unfold setAt
  intro other more also
  have lookup : (match value with
      | some text => map.insert (joined item rest) text
      | none => map.erase (joined item rest))[joined other more]? =
        if joined item rest = joined other more then value else map[joined other more]? := by
    cases value with
    | none => exact Maps.lookup_erase
    | some text => exact Maps.lookup_insert
  rw [lookup, filed other more also]
  by_cases items : item = other
  · subst items
    by_cases rests : rest = more
    · subst rests
      simp
    · have apart : joined item rest ≠ joined item more := fun same =>
        rests ((joined_inj slashless also).mp same).2
      rw [if_neg apart, Function.update_self, Function.update_of_ne (Ne.symm rests)]
  · have apart : joined item rest ≠ joined other more := fun same =>
      items ((joined_inj slashless also).mp same).1
    rw [if_neg apart, Function.update_of_ne (Ne.symm items)]

/-- The document holds what the ledger says. -/
structure Encodes (ledger : Ledger) (state : DocText) : Prop where
  versions : Filed state.versions fun item id => (ledger.versions item id).map setting.version.encode
  current : ∀ item : String, state.current[item]? = ledger.current item
  kept : ∀ item : String, state.kept[item]? = ledger.kept item
  hidden : ∀ item : String, state.hidden[item]? = ledger.hidden item
  metas : Filed state.metas ledger.metas
  attachments : Filed state.attachments fun item rest =>
    (splitOnce rest).bind fun split => (ledger.attachments item split.1 split.2).map setting.object.encode

/-- The names of the ledger are those the writes admit, and its records are sound. -/
structure Admitted (ledger : Ledger) : Prop where
  versions : ∀ item id record, ledger.versions item id = some record →
    isValidItemId item = true ∧ isValidVersionId id = true ∧
      validManifest setting.toLowercase record.files = true ∧ versionId setting.hash record.files = id
  current : ∀ item id, ledger.current item = some id →
    isValidItemId item = true ∧ isValidVersionId id = true
  kept : ∀ item flag, ledger.kept item = some flag → isValidItemId item = true
  hidden : ∀ item flag, ledger.hidden item = some flag → isValidItemId item = true
  metas : ∀ item key value, ledger.metas item key = some value →
    isValidItemId item = true ∧ isValidName key = true
  attachments : ∀ item version name object, ledger.attachments item version name = some object →
    isValidItemId item = true ∧ isValidVersionId version = true ∧ isValidName name = true ∧
      (ledger.versions item version).isSome

variable {setting} {ledger : Ledger} {state : DocText} {held : Blake3 → Bool}

/-- A recorded version before its attachments are read. -/
def bareView (held : Blake3 → Bool) (id : String) (record : VersionRecord) : VersionView :=
  ⟨id, record.files, record.createdAt, record.device, {}, false, record.files.all fun file => held file.blake3⟩

theorem mem_listedVersions (encodes : Encodes setting ledger state) (admitted : Admitted setting ledger)
    {item : String} {view : VersionView} : view ∈ listedVersions setting held state item ↔
      ∃ id record, ledger.versions item id = some record ∧ view = bareView held id record := by
  have viewed : ∀ {id record}, ledger.versions item id = some record →
      versionView setting held id (setting.version.encode record) = bareView held id record := by
    intro id record known
    obtain ⟨-, -, valid, named⟩ := admitted.versions item id record known
    simp [versionView, setting.version.decode_encode, valid, named, bareView]
  simp only [listedVersions, List.mem_map, List.mem_filter, Bool.and_eq_true]
  constructor
  · rintro ⟨⟨id, json⟩, ⟨listed, valid, -⟩, rfl⟩
    have slashless := slashless_of_isValidItemId valid
    rw [mem_below slashless, encodes.versions item id slashless] at listed
    obtain ⟨record, known, rfl⟩ := Option.map_eq_some_iff.mp listed
    exact ⟨id, record, known, viewed known⟩
  · rintro ⟨id, record, known, rfl⟩
    obtain ⟨valid, named, -⟩ := admitted.versions item id record known
    have slashless := slashless_of_isValidItemId valid
    refine ⟨(id, setting.version.encode record), ⟨?_, valid, named⟩, viewed known⟩
    rw [mem_below slashless, encodes.versions item id slashless]
    simp [known]

theorem mem_listedMetas (encodes : Encodes setting ledger state) (admitted : Admitted setting ledger)
    {item name value : String} :
    (name, value) ∈ listedMetas state item ↔ ledger.metas item name = some value := by
  simp only [listedMetas, List.mem_filter, Bool.and_eq_true]
  constructor
  · rintro ⟨listed, valid, -⟩
    have slashless := slashless_of_isValidItemId valid
    rwa [mem_below slashless, encodes.metas item name slashless] at listed
  · intro known
    obtain ⟨valid, named⟩ := admitted.metas item name value known
    have slashless := slashless_of_isValidItemId valid
    rw [mem_below slashless, encodes.metas item name slashless]
    exact ⟨known, valid, named⟩

theorem nodup_listedMetas (item : String) : ((listedMetas state item).map Prod.fst).Nodup :=
  (nodup_below item state.metas).sublist (List.filter_sublist.map Prod.fst)

theorem readAttachment_eq_some {binding : String × String} {item version name : String} {object : ObjectRef} :
    readAttachment setting binding = some (item, version, name, object) ↔
      '/' ∉ item.toList ∧ '/' ∉ version.toList ∧ binding.1 = joined item (joined version name) ∧
        setting.object.decode binding.2 = some object ∧ isValidName name = true := by
  constructor
  · intro read
    obtain ⟨⟨owner, id, key⟩, split, read⟩ := Option.bind_eq_some_iff.mp read
    obtain ⟨found, decoded, read⟩ := Option.bind_eq_some_iff.mp read
    obtain ⟨valid, same⟩ := Option.ite_none_right_eq_some.mp read
    cases same
    rw [splitTwice] at split
    split at split
    · cases split
    · rename_i first rest cut
      obtain ⟨⟨second, third⟩, again, same⟩ := Option.map_eq_some_iff.mp split
      cases same
      obtain ⟨whole, outer⟩ := joined_of_splitOnce cut
      obtain ⟨tail, inner⟩ := joined_of_splitOnce again
      exact ⟨outer, inner, by rw [whole, tail], decoded, valid⟩
  · rintro ⟨outer, inner, key, decoded, valid⟩
    have split : splitTwice binding.1 = some (item, version, name) := by
      simp [splitTwice, key, splitOnce_joined outer, splitOnce_joined inner]
    simp [readAttachment, split, decoded, valid]

theorem Encodes.attachment (encodes : Encodes setting ledger state) {item version : String}
    (outer : '/' ∉ item.toList) (inner : '/' ∉ version.toList) (name : String) :
    state.attachments[joined item (joined version name)]? =
      (ledger.attachments item version name).map setting.object.encode := by
  have stored := encodes.attachments item (joined version name) outer
  rw [stored]
  simp only [splitOnce_joined inner, Option.bind_some]

theorem mem_attachmentsFor (encodes : Encodes setting ledger state) (admitted : Admitted setting ledger)
    {item version name : String} {object : ObjectRef} :
    (version, name, object) ∈ attachmentsFor setting item state.attachments.toList ↔
      ledger.attachments item version name = some object := by
  simp only [attachmentsFor, List.mem_filterMap]
  constructor
  · rintro ⟨⟨key, json⟩, listed, read⟩
    obtain ⟨⟨owner, entry⟩, found, kept⟩ := Option.bind_eq_some_iff.mp read
    obtain ⟨rfl, same⟩ := Option.ite_none_right_eq_some.mp kept
    cases same
    obtain ⟨outer, inner, rfl, decoded, -⟩ := readAttachment_eq_some.mp found
    have stored := ExtTreeMap.mem_toList_iff_getElem?_eq_some.mp listed
    rw [encodes.attachment outer inner] at stored
    obtain ⟨known, there, rfl⟩ := Option.map_eq_some_iff.mp stored
    rw [setting.object.decode_encode] at decoded
    rw [there, decoded]
  · intro known
    obtain ⟨valid, named, title, -⟩ := admitted.attachments item version name object known
    have outer := slashless_of_isValidItemId valid
    have inner := slashless_of_isValidVersionId named
    refine ⟨(joined item (joined version name), setting.object.encode object), ?_, ?_⟩
    · apply ExtTreeMap.mem_toList_iff_getElem?_eq_some.mpr
      rw [encodes.attachment outer inner, known]
      rfl
    · rw [readAttachment_eq_some.mpr ⟨outer, inner, rfl, setting.object.decode_encode object, title⟩]
      exact if_pos rfl

theorem pairwise_attachmentsFor (item : String) (map : ExtTreeMap String String) :
    (attachmentsFor setting item map.toList).Pairwise fun left right =>
      (left.1, left.2.1) ≠ (right.1, right.2.1) := by
  have keys : map.toList.Pairwise fun left right => left.1 ≠ right.1 :=
    map.distinct_keys_toList.imp fun apart same => apart (by rw [same]; exact Std.compare_self)
  apply keys.filterMap
  intro left right apart first there second here same
  obtain ⟨⟨owner, version, name, object⟩, read, kept⟩ := Option.bind_eq_some_iff.mp there
  obtain ⟨⟨other, another, title, thing⟩, found, told⟩ := Option.bind_eq_some_iff.mp here
  obtain ⟨owners, shown⟩ := Option.ite_none_right_eq_some.mp kept
  obtain ⟨others, given⟩ := Option.ite_none_right_eq_some.mp told
  cases shown
  cases given
  obtain ⟨-, -, leftKey, -⟩ := readAttachment_eq_some.mp read
  obtain ⟨-, -, rightKey, -⟩ := readAttachment_eq_some.mp found
  have items : owner = other := owners.trans others.symm
  rw [Prod.mk.injEq] at same
  apply apart
  rw [leftKey, rightKey, items]
  exact congrArg (joined other) (congrArg₂ joined same.1 same.2)

theorem lookup_attached (encodes : Encodes setting ledger state) (admitted : Admitted setting ledger)
    (item : String) (id : String) (record : VersionRecord) (name : String) :
    (attached (attachmentsFor setting item state.attachments.toList) (bareView held id record)).attachments[name]? =
      ledger.attachments item id name := by
  have distinct : ((((attachmentsFor setting item state.attachments.toList).filter (·.1 = id)).map
      Prod.snd).map Prod.fst).Nodup := by
    rw [List.map_map, List.nodup_iff_pairwise_ne, List.pairwise_map, List.pairwise_filter]
    refine (pairwise_attachmentsFor item state.attachments).imp ?_
    intro left right apart first second same
    exact apart (Prod.ext ((of_decide_eq_true first).trans (of_decide_eq_true second).symm) same)
  apply Option.ext
  intro object
  have listed := @Maps.lookup_insertAll _ _ _ _ _ _ ({} : ExtTreeMap String ObjectRef) name object _ distinct
  have none : ({} : ExtTreeMap String ObjectRef)[name]? ≠ some object := by simp
  refine listed.trans ((or_iff_left fun both => none both.2).trans ?_)
  rw [← mem_attachmentsFor encodes admitted, List.mem_map]
  constructor
  · rintro ⟨⟨version, entry⟩, member, rfl⟩
    obtain ⟨inside, same⟩ := List.mem_filter.mp member
    rw [← of_decide_eq_true same]
    exact inside
  · intro member
    exact ⟨(id, name, object), List.mem_filter.mpr ⟨member, decide_eq_true rfl⟩, rfl⟩

theorem filter_current (encodes : Encodes setting ledger state) (admitted : Admitted setting ledger)
    (item : String) : state.current[item]?.filter (fun id => isValidItemId item && isValidVersionId id) =
      ledger.current item := by
  rw [encodes.current]
  cases known : ledger.current item with
  | none => rfl
  | some id =>
    obtain ⟨valid, named⟩ := admitted.current item id known
    simp [Option.filter, valid, named]

theorem filter_flag {flag : Option Bool} {item : String}
    (valid : ∀ value, flag = some value → isValidItemId item = true) :
    flag.filter (fun _ => isValidItemId item) = flag := by
  cases flag with
  | none => rfl
  | some value => simp [Option.filter, valid value rfl]

theorem filter_kept (encodes : Encodes setting ledger state) (admitted : Admitted setting ledger)
    (item : String) : state.kept[item]?.filter (fun _ => isValidItemId item) = ledger.kept item := by
  rw [encodes.kept]
  exact filter_flag (admitted.kept item)

theorem filter_hidden (encodes : Encodes setting ledger state) (admitted : Admitted setting ledger)
    (item : String) : state.hidden[item]?.filter (fun _ => isValidItemId item) = ledger.hidden item := by
  rw [encodes.hidden]
  exact filter_flag (admitted.hidden item)

theorem itemChanges_eq_nil (encodes : Encodes setting ledger state) (admitted : Admitted setting ledger)
    (item : String) : itemChanges setting held state item = [] ↔ ¬ledger.Mentions item := by
  have versions : listedVersions setting held state item = [] ↔ ∀ id, ledger.versions item id = none := by
    rw [List.eq_nil_iff_forall_not_mem]
    constructor
    · intro nothing id
      cases known : ledger.versions item id with
      | none => rfl
      | some record =>
        exact absurd ((mem_listedVersions encodes admitted).mpr ⟨id, record, known, rfl⟩) (nothing _)
    · intro nothing view member
      obtain ⟨id, record, known, -⟩ := (mem_listedVersions encodes admitted).mp member
      rw [nothing id] at known
      cases known
  have metas : listedMetas state item = [] ↔ ∀ key, ledger.metas item key = none := by
    rw [List.eq_nil_iff_forall_not_mem]
    constructor
    · intro nothing key
      cases known : ledger.metas item key with
      | none => rfl
      | some value => exact absurd ((mem_listedMetas encodes admitted).mpr known) (nothing _)
    · rintro nothing ⟨key, value⟩ member
      have known := (mem_listedMetas encodes admitted).mp member
      rw [nothing key] at known
      cases known
  rw [itemChanges_eq, filter_current encodes admitted, filter_kept encodes admitted,
    filter_hidden encodes admitted]
  simp only [List.append_eq_nil_iff, List.map_eq_nil_iff, Option.toList_eq_nil_iff, versions, metas, Ledger.Mentions,
    not_or, not_exists, Option.not_isSome_iff_eq_none, and_assoc]

instance : IsTrans VersionView Precedes where
  trans first second third left right := by
    rcases left with earlier | ⟨same, ids⟩
    · rcases right with later | ⟨equal, -⟩
      · exact .inl (UInt64.lt_trans earlier later)
      · exact .inl (equal ▸ earlier)
    · rcases right with later | ⟨equal, more⟩
      · exact .inl (same ▸ later)
      · exact .inr ⟨same.trans equal, le_trans ids more⟩

instance : Std.Total Precedes where
  total left right := by
    rcases Std.lt_trichotomy left.createdAt right.createdAt with earlier | same | later
    · exact .inl (.inl earlier)
    · rcases le_total left.id right.id with ids | ids
      · exact .inl (.inr ⟨same, ids⟩)
      · exact .inr (.inr ⟨same.symm, ids⟩)
    · exact .inr (.inl later)

theorem pairwise_before (item : String) :
    (wholeView setting held state item).versions.Pairwise Before := by
  have order : (wholeView setting held state item).versions.Pairwise Precedes :=
    List.pairwise_insertionSort Precedes _
  have ids : ((wholeView setting held state item).versions.map (·.id)).Nodup := by
    have same := (List.perm_insertionSort Precedes ((listedVersions setting held state item).map
      (attached (attachmentsFor setting item state.attachments.toList)))).map (·.id)
    refine same.nodup_iff.mpr ?_
    rw [List.map_map]
    exact nodup_listedVersions setting held state item
  rw [List.nodup_iff_pairwise_ne, List.pairwise_map] at ids
  refine (order.and ids).imp ?_
  rintro left right ⟨earlier | ⟨same, upTo⟩, apart⟩
  · exact .inl earlier
  · exact .inr ⟨same, lt_of_le_of_ne upTo apart⟩

/-- The catalog of a document shows what its ledger says. -/
theorem Encodes.shows (encodes : Encodes setting ledger state) (admitted : Admitted setting ledger) :
    Shows held ledger (catalog setting held state) := by
  constructor
  · intro item
    rw [← ExtTreeMap.isSome_getElem?_iff_mem, lookup_catalog, ← not_iff_not,
      ← @itemChanges_eq_nil _ _ _ held encodes admitted]
    split_ifs with nothing <;> simp [nothing]
  · intro item view found
    rw [lookup_catalog] at found
    split_ifs at found with nothing
    cases found
    constructor
    · rfl
    · intro key
      apply Option.ext
      intro value
      have listed := @Maps.lookup_insertAll _ _ _ _ _ _ ({} : ExtTreeMap String String) key value _
        (@nodup_listedMetas state item)
      have none : ({} : ExtTreeMap String String)[key]? ≠ some value := by simp
      exact listed.trans ((or_iff_left fun both => none both.2).trans (mem_listedMetas encodes admitted))
    · exact filter_current encodes admitted item
    · exact congrArg (·.getD false) (filter_kept encodes admitted item)
    · exact congrArg (·.getD false) (filter_hidden encodes admitted item)
    · exact pairwise_before item
    · intro version member
      obtain ⟨bare, listed, rfl⟩ := List.mem_map.mp ((List.mem_insertionSort Precedes).mp member)
      obtain ⟨id, record, known, rfl⟩ := (mem_listedVersions encodes admitted).mp listed
      exact
        { record := known
          attachments := lookup_attached encodes admitted item id record
          sound := rfl
          held := rfl }
    · intro id record known
      have listed := (@mem_listedVersions _ _ _ held encodes admitted item _).mpr ⟨id, record, known, rfl⟩
      exact ⟨_, (List.mem_insertionSort Precedes).mpr (List.mem_map_of_mem listed), rfl⟩

end Ledgers

section Steps

variable {setting : Setting} {ledger : Ledger} {state : DocText}

theorem length_toHex (digest : Blake3) : digest.toHex.toList.length = 64 := by
  have pairs : ∀ bytes : Bytes, (bytes.flatMap fun byte =>
      [hexDigit (byte.toNat / 16), hexDigit (byte.toNat % 16)]).length = 2 * bytes.length := by
    intro bytes
    induction bytes with
    | nil => rfl
    | cons byte rest ih =>
      rw [List.flatMap_cons, List.length_append, ih, List.length_cons]
      simp only [List.length_cons, List.length_nil]
      omega
  rw [Blake3.toHex, String.toList_ofList, pairs, Blake3.length_asBytes]

theorem isHex_hexDigit {nibble : Nat} (small : nibble < 16) : isHex (hexDigit nibble) = true := by
  interval_cases nibble <;> decide

theorem isValidVersionId_versionId (hash : Bytes → Blake3) (files : List FileEntry) :
    isValidVersionId (versionId hash files) = true := by
  rw [isValidVersionId, versionId, length_toHex, Bool.and_eq_true, List.all_eq_true]
  refine ⟨rfl, ?_⟩
  intro char member
  rw [Blake3.toHex, String.toList_ofList, List.mem_flatMap] at member
  obtain ⟨byte, -, inside⟩ := member
  have bound := byte.toNat_lt
  rcases List.mem_cons.mp inside with rfl | last
  · exact isHex_hexDigit (by omega)
  · rw [List.mem_singleton.mp last]
    exact isHex_hexDigit (by omega)

theorem findVersion_known (encodes : Encodes setting ledger state) (admitted : Admitted setting ledger)
    {item version : String} {view : VersionView} (found : findVersion setting state item version = some view) :
    (ledger.versions item version).isSome := by
  obtain ⟨whole, there, listed⟩ := Option.bind_eq_some_iff.mp found
  have shown := ((encodes.shows admitted).views item whole there).shown view (List.mem_of_find?_eq_some listed)
  rw [ItemView.version] at listed
  have named := List.find?_some listed
  rw [← of_decide_eq_true named, shown.record]
  rfl

theorem Encodes.putVersion (encodes : Encodes setting ledger state) {item : String}
    (slashless : '/' ∉ item.toList) (id : String) (fresh : VersionRecord) :
    Encodes setting
      { ledger with versions := setAt ledger.versions item id (some ((ledger.versions item id).getD fresh)) }
      (putVersion setting state item id fresh) := by
  have stored : state.versions[joined item id]? = (ledger.versions item id).map setting.version.encode :=
    encodes.versions item id slashless
  cases known : ledger.versions item id with
  | some first =>
    have same : setAt ledger.versions item id (some first) = ledger.versions := by
      rw [← known]
      unfold setAt
      rw [Function.update_eq_self, Function.update_eq_self]
    rw [known] at stored
    have kept : Writes.putVersion setting state item id fresh = state := by
      unfold Writes.putVersion
      rw [stored]
      rfl
    rw [kept, Option.getD_some, same]
    exact encodes
  | none =>
    rw [known] at stored
    have written : Writes.putVersion setting state item id fresh =
        { state with versions := state.versions.insert (joined item id) (setting.version.encode fresh) } := by
      unfold Writes.putVersion
      rw [stored]
      rfl
    rw [written, Option.getD_none]
    have filed := encodes.versions.alter slashless id (some (setting.version.encode fresh))
    exact { encodes with versions := by rw [map_setAt]; exact filed }

theorem lookup_own {ν : Type} {map : ExtTreeMap String ν} {entries : String → Option ν}
    (own : ∀ item : String, map[item]? = entries item) (item : String) (value : ν) (other : String) :
    (map.insert item value)[other]? = Function.update entries item (some value) other := by
  rw [Maps.lookup_insert]
  by_cases same : item = other
  · subst same
    simp
  · rw [if_neg same, Function.update_of_ne (Ne.symm same), own]

theorem Encodes.setCurrent (encodes : Encodes setting ledger state) (item id : String) :
    Encodes setting { ledger with current := Function.update ledger.current item (some id) }
      { state with current := state.current.insert item id } :=
  { encodes with current := lookup_own encodes.current item id }

theorem flat_setAt (table : String → String → Option ObjectRef) {version : String}
    (slashless : '/' ∉ version.toList) (name : String) (object : Option ObjectRef) (rest : String) :
    ((splitOnce rest).bind fun split =>
        (setAt table version name object split.1 split.2).map setting.object.encode) =
      Function.update (fun rest => (splitOnce rest).bind fun split =>
        (table split.1 split.2).map setting.object.encode) (joined version name)
        (object.map setting.object.encode) rest := by
  by_cases here : rest = joined version name
  · subst here
    rw [Function.update_self, splitOnce_joined slashless]
    simp [setAt]
  · rw [Function.update_of_ne here]
    cases split : splitOnce rest with
    | none => rfl
    | some parts =>
      obtain ⟨first, second⟩ := parts
      have whole := (joined_of_splitOnce split).1
      rw [Option.bind_some, Option.bind_some, setAt]
      by_cases versions : first = version
      · subst versions
        have names : second ≠ name := fun same => here (same ▸ whole)
        rw [Function.update_self, Function.update_of_ne names]
      · rw [Function.update_of_ne versions]

theorem Encodes.setObject (encodes : Encodes setting ledger state) {item version : String}
    (outer : '/' ∉ item.toList) (inner : '/' ∉ version.toList) (name : String) (object : Option ObjectRef) :
    Encodes setting
      { ledger with
        attachments := Function.update ledger.attachments item (setAt (ledger.attachments item) version name object) }
      (setObject setting state item version name object) := by
  have filed := encodes.attachments.alter outer (joined version name) (object.map setting.object.encode)
  have flat : (fun owner rest => (splitOnce rest).bind fun split =>
      (Function.update ledger.attachments item (setAt (ledger.attachments item) version name object) owner split.1
        split.2).map setting.object.encode) =
      setAt (fun owner rest => (splitOnce rest).bind fun split =>
        (ledger.attachments owner split.1 split.2).map setting.object.encode) item (joined version name)
        (object.map setting.object.encode) := by
    funext owner rest
    by_cases items : owner = item
    · subst items
      rw [Function.update_self, flat_setAt _ inner, setAt, Function.update_self]
    · rw [Function.update_of_ne items, setAt, Function.update_of_ne items]
  cases object with
  | none => exact { encodes with attachments := by rw [flat]; exact filed }
  | some object => exact { encodes with attachments := by rw [flat]; exact filed }

theorem Admitted.setVersion (admitted : Admitted setting ledger) {item : String} {files : List FileEntry}
    (valid : isValidItemId item = true) (sound : validManifest setting.toLowercase files = true) (now : UInt64)
    (device : String) :
    let id := versionId setting.hash files
    Admitted setting
      { ledger with
        versions := setAt ledger.versions item id (some ((ledger.versions item id).getD ⟨files, now, device⟩)) } where
  versions owner id record known := by
    rcases setAt_eq_some known with ⟨rfl, rfl, first⟩ | before
    · cases held : ledger.versions owner (versionId setting.hash files) with
      | none =>
        rw [held] at first
        cases first
        exact ⟨valid, isValidVersionId_versionId _ _, sound, rfl⟩
      | some old =>
        rw [held] at first
        cases first
        exact admitted.versions owner _ old held
    · exact admitted.versions owner id record before
  current := admitted.current
  kept := admitted.kept
  hidden := admitted.hidden
  metas := admitted.metas
  attachments owner version name object known := by
    obtain ⟨item', version', name', there⟩ := admitted.attachments owner version name object known
    refine ⟨item', version', name', ?_⟩
    dsimp only
    unfold setAt
    by_cases owners : owner = item
    · subst owners
      rw [Function.update_self]
      by_cases versions : version = versionId setting.hash files
      · rw [versions, Function.update_self]
        rfl
      · rwa [Function.update_of_ne versions]
    · rwa [Function.update_of_ne owners]

theorem Admitted.setCurrent (admitted : Admitted setting ledger) {item id : String}
    (valid : isValidItemId item = true) (named : isValidVersionId id = true) :
    Admitted setting { ledger with current := Function.update ledger.current item (some id) } :=
  { admitted with
    current := by
      intro owner version known
      dsimp only at known
      by_cases owners : owner = item
      · subst owners
        rw [Function.update_self] at known
        cases known
        exact ⟨valid, named⟩
      · rw [Function.update_of_ne owners] at known
        exact admitted.current owner version known }

/-- A write that succeeds is recorded. -/
theorem Encodes.write (encodes : Encodes setting ledger state) (admitted : Admitted setting ledger)
    {moment : Moment} {change : Write} {next : DocText} (done : write setting moment state change = some next) :
    Encodes setting (ledger.record setting moment change) next ∧
      Admitted setting (ledger.record setting moment change) := by
  have flags : ∀ {entries : String → Option Bool} {item : String} (value : Bool),
      isValidItemId item = true →
      (∀ owner flag, entries owner = some flag → isValidItemId owner = true) →
      ∀ owner flag, Function.update entries item (some value) owner = some flag → isValidItemId owner = true := by
    intro entries item value valid before owner flag known
    by_cases owners : owner = item
    · exact owners ▸ valid
    · rw [Function.update_of_ne owners] at known
      exact before owner flag known
  cases change with
  | addVersion item files makeCurrent =>
    obtain ⟨guard, done⟩ := Option.ite_none_right_eq_some.mp done
    cases done
    simp only [Bool.and_eq_true] at guard
    have versioned := encodes.putVersion (slashless_of_isValidItemId guard.1.1) (versionId setting.hash files)
      ⟨files, moment.now, moment.device⟩
    have sound := admitted.setVersion guard.1.1 guard.1.2 moment.now moment.device
    cases makeCurrent with
    | false => exact ⟨versioned, sound⟩
    | true =>
      exact ⟨versioned.setCurrent item _, sound.setCurrent guard.1.1 (isValidVersionId_versionId _ _)⟩
  | setCurrent item version =>
    obtain ⟨guard, done⟩ := Option.ite_none_right_eq_some.mp done
    rw [Bool.and_eq_true] at guard
    cases found : findVersion setting state item version with
    | none =>
      rw [found] at done
      cases done
    | some view =>
      rw [found] at done
      obtain ⟨-, done⟩ := Option.ite_none_left_eq_some.mp done
      cases done
      exact ⟨encodes.setCurrent item version, admitted.setCurrent guard.1 guard.2⟩
  | setKept item kept =>
    obtain ⟨guard, done⟩ := Option.ite_none_right_eq_some.mp done
    cases done
    rw [Bool.and_eq_true] at guard
    exact ⟨{ encodes with kept := lookup_own encodes.kept item kept },
      { admitted with kept := flags kept guard.1 admitted.kept }⟩
  | setHidden item hidden =>
    obtain ⟨guard, done⟩ := Option.ite_none_right_eq_some.mp done
    cases done
    rw [Bool.and_eq_true] at guard
    exact ⟨{ encodes with hidden := lookup_own encodes.hidden item hidden },
      { admitted with hidden := flags hidden guard.1 admitted.hidden }⟩
  | setMeta item key value =>
    obtain ⟨guard, done⟩ := Option.ite_none_left_eq_some.mp done
    simp only [Bool.or_eq_true, Bool.not_eq_true', not_or, Bool.not_eq_false] at guard
    have filed := encodes.metas.alter (slashless_of_isValidItemId guard.1) key value
    refine ⟨?_, { admitted with metas := ?_ }⟩
    · cases value with
      | none =>
        cases done
        exact { encodes with metas := filed }
      | some text =>
        obtain ⟨-, done⟩ := Option.ite_none_left_eq_some.mp done
        cases done
        exact { encodes with metas := filed }
    · intro owner name text known
      rcases setAt_eq_some known with ⟨rfl, rfl, -⟩ | before
      · exact guard
      · exact admitted.metas owner name text before
  | setAttachment item version name object =>
    obtain ⟨guard, done⟩ := Option.ite_none_right_eq_some.mp done
    simp only [Bool.and_eq_true] at guard
    obtain ⟨⟨⟨valid, named⟩, title⟩, -⟩ := guard
    cases found : findVersion setting state item version with
    | none =>
      rw [found] at done
      cases done
    | some view =>
      rw [found] at done
      cases done
      refine ⟨encodes.setObject (slashless_of_isValidItemId valid) (slashless_of_isValidVersionId named) name object,
        { admitted with attachments := ?_ }⟩
      intro owner id label thing known
      dsimp only [Ledger.record] at known
      by_cases owners : owner = item
      · subst owners
        rw [Function.update_self] at known
        rcases setAt_eq_some known with ⟨rfl, rfl, -⟩ | before
        · exact ⟨valid, named, title, findVersion_known encodes admitted found⟩
        · exact admitted.attachments owner id label thing before
      · rw [Function.update_of_ne owners] at known
        exact admitted.attachments owner id label thing known

end Steps

section Runs

variable (setting : Setting)

/-- One call on a drive, with what it meets; the ledger takes note of it if it succeeds. -/
def perform (book : DocText × Ledger) (turn : Moment × Write) : DocText × Ledger :=
  match write setting turn.1 book.1 turn.2 with
  | none => book
  | some next => (next, book.2.record setting turn.1 turn.2)

/-- The document and the ledger of a fresh drive behind some calls. -/
def performAll (turns : List (Moment × Write)) : DocText × Ledger :=
  turns.foldl (perform setting) (.empty, .empty)

theorem encodes_performAll (turns : List (Moment × Write)) :
    Encodes setting (performAll setting turns).2 (performAll setting turns).1 ∧
      Admitted setting (performAll setting turns).2 := by
  induction turns using List.reverseRecOn with
  | nil =>
    constructor
    · constructor <;> simp [performAll, DocText.empty, Ledger.empty, Filed]
    · constructor <;> simp [performAll, Ledger.empty]
  | append_singleton before turn ih =>
    obtain ⟨encodes, admitted⟩ := ih
    rw [performAll, List.foldl_append]
    change Encodes setting (perform setting (performAll setting before) turn).2
        (perform setting (performAll setting before) turn).1 ∧
      Admitted setting (perform setting (performAll setting before) turn).2
    unfold perform
    cases done : write setting turn.1 (performAll setting before).1 turn.2 with
    | none => exact ⟨encodes, admitted⟩
    | some next => exact encodes.write admitted done

/-- After any calls on a fresh drive, the catalog shows what the successful ones said. -/
theorem catalog_shows_writes (held : Blake3 → Bool) (turns : List (Moment × Write)) :
    Shows held (performAll setting turns).2 (catalog setting held (performAll setting turns).1) := by
  obtain ⟨encodes, admitted⟩ := encodes_performAll setting turns
  exact encodes.shows admitted

end Runs

end Mille.Drive.Writes
