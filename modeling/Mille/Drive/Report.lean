import Mille.Lib.Maps
import Mille.Lib.Separators
import Mille.Drive.Catalog

/-! What an import reports: the items whose facts the import changed, told from one
digest for each item. -/

namespace Mille.Drive

open Std Mille.Bincode

/-- The longest meta value, in bytes. -/
def maxMetaBytes : Nat := 64 * 1024

/-- The document's maps as plain values, the text of its JSON values included. -/
structure DocText where
  versions : ExtTreeMap String String
  current : ExtTreeMap String String
  kept : ExtTreeMap String Bool
  hidden : ExtTreeMap String Bool
  metas : ExtTreeMap String String
  attachments : ExtTreeMap String String

namespace DocText

def empty : DocText := ⟨{}, {}, {}, {}, {}, {}⟩

/-- The maps as the decoder reads them. -/
def decoded (readVersion : String → Option VersionRecord) (readObject : String → Option ObjectRef)
    (state : DocText) : DocState :=
  ⟨state.versions.map fun _ json => readVersion json, state.current, state.kept,
    state.attachments.map fun _ json => readObject json⟩

/-- `set_meta` of a drive, up to the document. -/
def setMeta (state : DocText) (item key : String) (value : Option String) : Option DocText :=
  if !isValidItemId item || !isValidName key then none
  else match value with
    | none => some { state with metas := state.metas.erase (item ++ "/" ++ key) }
    | some value =>
      if value.utf8ByteSize > maxMetaBytes then none
      else some { state with metas := state.metas.insert (item ++ "/" ++ key) value }

end DocText

def textBytes (text : String) : Bytes := text.toUTF8.data.toList

theorem textBytes_injective : Function.Injective textBytes := by
  intro left right same
  have data : left.toByteArray = right.toByteArray := by
    cases first : left.toByteArray
    cases second : right.toByteArray
    simp_all [textBytes, Array.toList_inj]
  exact String.toByteArray_inj.mp data

/-- What a hasher takes of a tag, a key and a value. -/
def factText (tag key value : String) : Bytes :=
  terminated 0 [textBytes tag, textBytes key, textBytes value]

def flagText (flag : Bool) : String := if flag then "1" else "0"

/-- The item a key of the document is about. -/
def itemOf (key : String) : Option String := (splitOnce key).map (·.1)

/-- A hasher is what it has taken so far. -/
abbrev Hashers := ExtTreeMap String Bytes

def feed (tag : String) (hashers : Hashers) (item key value : String) : Hashers :=
  hashers.alter item fun hasher => some (hasher.getD [] ++ factText tag key value)

/-- Feeds an entry whose key starts with its item. -/
def feedKeyed (tag : String) (hashers : Hashers) (binding : String × String) : Hashers :=
  match splitOnce binding.1 with
  | some (item, _) => feed tag hashers item binding.1 binding.2
  | none => hashers

/-- Feeds an entry whose key is its item. -/
def feedNamed (tag : String) (hashers : Hashers) (binding : String × String) : Hashers :=
  feed tag hashers binding.1 binding.1 binding.2

def feedFlag (tag : String) (hashers : Hashers) (binding : String × Bool) : Hashers :=
  feed tag hashers binding.1 binding.1 (flagText binding.2)

def DocText.hashers (state : DocText) : Hashers :=
  let hashers := state.versions.toList.foldl (feedKeyed "v") {}
  let hashers := state.current.toList.foldl (feedNamed "c") hashers
  let hashers := state.kept.toList.foldl (feedFlag "k") hashers
  let hashers := state.hidden.toList.foldl (feedFlag "h") hashers
  let hashers := state.metas.toList.foldl (feedKeyed "m") hashers
  state.attachments.toList.foldl (feedKeyed "a") hashers

def fingerprints (hash : Bytes → Blake3) (state : DocText) : ExtTreeMap String Blake3 :=
  state.hashers.map fun _ taken => hash taken

structure ImportReport where
  changed : Bool
  items : List String
  newVersions : List VersionKey
  quarantined : List VersionKey
  wants : List Blake3

section Report

variable (toLowercase : String → String) (hash : Bytes → Blake3) (readVersion : String → Option VersionRecord)
  (readObject : String → Option ObjectRef)

/-- The items of two fingerprint tables that differ. -/
def changedItems (old new : ExtTreeMap String Blake3) : ExtTreeSet String :=
  let items := new.toList.foldl (fun items binding =>
    if old[binding.1]? ≠ some binding.2 then items.insert binding.1 else items) {}
  old.keys.foldl (fun items item => if !new.contains item then items.insert item else items) items

/-- What the hold policy retains, within the size limit, and the drive does not hold. -/
def missing (hold : HoldPolicy) (maxObjectBytes : UInt64) (has : Blake3 → Bool) (items : Items) : List Blake3 :=
  ((retainedByPolicy items hold).toList.filter fun object => object.2 ≤ maxObjectBytes && !has object.1).map (·.1)

/-- A version that came with the import, as the catalog reads it. -/
def newVersion (before : DocText) (items : Items) (key : String) : Option (VersionKey × Bool) :=
  if before.versions.contains key then none
  else (splitOnce key).bind fun (item, version) =>
    ((items[item]?).bind (·.version version)).map fun view => (⟨item, version⟩, view.quarantined)

def report (hold : HoldPolicy) (maxObjectBytes : UInt64) (has : Blake3 → Bool) (before after : DocText) :
    ImportReport :=
  let items := catalog toLowercase hash (after.decoded readVersion readObject)
  let versions := after.versions.keys.filterMap (newVersion before items)
  { changed := true
    items := (changedItems (fingerprints hash before) (fingerprints hash after)).toList
    newVersions := (versions.filter (!·.2)).map (·.1)
    quarantined := (versions.filter (·.2)).map (·.1)
    wants := missing hold maxObjectBytes has items }

end Report

/-! ### The facts about an item -/

/-- The entries of a map whose keys start with the item. -/
def entriesOf {ν : Type} (item : String) (map : ExtTreeMap String ν) : ExtTreeMap String ν :=
  map.filter fun key _ => itemOf key = some item

/-- Everything a document says about one item. -/
structure Facts where
  versions : ExtTreeMap String String
  current : Option String
  kept : Option Bool
  hidden : Option Bool
  metas : ExtTreeMap String String
  attachments : ExtTreeMap String String

def DocText.about (state : DocText) (item : String) : Facts :=
  ⟨entriesOf item state.versions, state.current[item]?, state.kept[item]?, state.hidden[item]?,
    entriesOf item state.metas, entriesOf item state.attachments⟩

namespace Facts

/-- The facts as tags, keys and values, in the order they are fed. -/
def listed (item : String) (facts : Facts) : List (String × String × String) :=
  facts.versions.toList.map (fun (key, value) => ("v", key, value)) ++
    facts.current.toList.map (fun value => ("c", item, value)) ++
    facts.kept.toList.map (fun flag => ("k", item, flagText flag)) ++
    facts.hidden.toList.map (fun flag => ("h", item, flagText flag)) ++
    facts.metas.toList.map (fun (key, value) => ("m", key, value)) ++
    facts.attachments.toList.map (fun (key, value) => ("a", key, value))

/-- The texts of the facts, three for each. -/
def texts (item : String) (facts : Facts) : List Bytes :=
  (facts.listed item).flatMap fun (tag, key, value) => [textBytes tag, textBytes key, textBytes value]

/-- The listed facts with one tag. -/
private def tagged (tag : String) (list : List (String × String × String)) : List (String × String) :=
  list.filterMap fun (other, key, value) => if other = tag then some (key, value) else none

private theorem flagText_injective : Function.Injective flagText := by
  intro left right
  cases left <;> cases right <;> simp [flagText]

private theorem option_of_tagged {ν : Type} {item : String} {read : ν → String}
    (distinct : Function.Injective read) {left right : Option ν}
    (same : left.toList.map (fun value => (item, read value)) =
      right.toList.map fun value => (item, read value)) : left = right := by
  cases left with
  | none =>
    cases right with
    | none => rfl
    | some value => cases same
  | some value =>
    cases right with
    | none => cases same
    | some other =>
      simp only [Option.toList_some, List.map_cons, List.map_nil, List.cons.injEq, Prod.mk.injEq,
        true_and, and_true] at same
      rw [distinct same]

theorem listed_injective (item : String) : Function.Injective (listed item) := by
  intro left right same
  have cut (tag : String) := congrArg (tagged tag) same
  simp only [tagged, listed, List.filterMap_append, List.filterMap_map] at cut
  have versions : left.versions.toList = right.versions.toList := by
    simpa using cut "v"
  have current : left.current.toList.map (fun value => (item, value)) =
      right.current.toList.map fun value => (item, value) := by
    simpa using cut "c"
  have kept : left.kept.toList.map (fun flag => (item, flagText flag)) =
      right.kept.toList.map fun flag => (item, flagText flag) := by
    simpa using cut "k"
  have hidden : left.hidden.toList.map (fun flag => (item, flagText flag)) =
      right.hidden.toList.map fun flag => (item, flagText flag) := by
    simpa using cut "h"
  have metas : left.metas.toList = right.metas.toList := by
    simpa using cut "m"
  have attachments : left.attachments.toList = right.attachments.toList := by
    simpa using cut "a"
  cases left
  cases right
  congr
  · exact ExtTreeMap.toList_inj.mp versions
  · exact option_of_tagged Function.injective_id current
  · exact option_of_tagged flagText_injective kept
  · exact option_of_tagged flagText_injective hidden
  · exact ExtTreeMap.toList_inj.mp metas
  · exact ExtTreeMap.toList_inj.mp attachments

theorem texts_injective (item : String) : Function.Injective (texts item) := by
  intro left right same
  apply listed_injective item
  unfold texts at same
  generalize left.listed item = first at same ⊢
  generalize right.listed item = second at same ⊢
  induction first generalizing second with
  | nil =>
    cases second with
    | nil => rfl
    | cons fact rest => cases same
  | cons fact rest ih =>
    cases second with
    | nil => cases same
    | cons other others =>
      obtain ⟨tag, key, value⟩ := fact
      obtain ⟨tag', key', value'⟩ := other
      simp only [List.flatMap_cons, List.cons_append, List.nil_append, List.cons.injEq] at same
      obtain ⟨tags, keys, values, later⟩ := same
      rw [ih _ later, textBytes_injective tags, textBytes_injective keys, textBytes_injective values]

end Facts

/-! ### The fingerprints -/

/-- A hasher that takes texts one after the other, made for the first of them. -/
def absorb (hasher : Option Bytes) (texts : List Bytes) : Option Bytes :=
  if texts = [] then hasher else some (hasher.getD [] ++ texts.flatten)

theorem absorb_append (hasher : Option Bytes) (texts more : List Bytes) :
    absorb (absorb hasher texts) more = absorb hasher (texts ++ more) := by
  unfold absorb
  by_cases none_before : texts = []
  · simp [none_before]
  · by_cases none_after : more = []
    · simp [none_before, none_after]
    · simp [none_before, none_after]

theorem lookup_feeds {β : Type} {step : Hashers → β → Hashers} {item : String} {given : β → List Bytes}
    (each : ∀ hashers entry, (step hashers entry)[item]? = absorb hashers[item]? (given entry))
    (entries : List β) (hashers : Hashers) :
    (entries.foldl step hashers)[item]? = absorb hashers[item]? (entries.flatMap given) := by
  induction entries generalizing hashers with
  | nil => rfl
  | cons entry rest ih => rw [List.foldl_cons, ih, each, absorb_append, List.flatMap_cons]

theorem lookup_feed (tag : String) (hashers : Hashers) (owner key value item : String) :
    (feed tag hashers owner key value)[item]? =
      absorb hashers[item]? (if owner = item then [factText tag key value] else []) := by
  rw [feed, Maps.lookup_alter]
  by_cases same : owner = item
  · rw [if_pos same, if_pos same, same]
    simp [absorb]
  · rw [if_neg same, if_neg same]
    rfl

theorem lookup_feedKeyed (tag item : String) (hashers : Hashers) (binding : String × String) :
    (feedKeyed tag hashers binding)[item]? = absorb hashers[item]?
      (if itemOf binding.1 = some item then [factText tag binding.1 binding.2] else []) := by
  unfold feedKeyed itemOf
  cases splitOnce binding.1 with
  | none => rfl
  | some split => simp only [Option.map_some, Option.some.injEq, lookup_feed]

private theorem flatMap_ite {β γ : Type} {keep : β → Prop} [DecidablePred keep] (read : β → γ) (list : List β) :
    (list.flatMap fun entry => if keep entry then [read entry] else []) =
      (list.filter (fun entry => keep entry)).map read := by
  induction list with
  | nil => rfl
  | cons entry rest ih =>
    rw [List.flatMap_cons, ih]
    by_cases kept : keep entry
    · rw [if_pos kept, List.filter_cons_of_pos (by simpa using kept)]
      rfl
    · rw [if_neg kept, List.filter_cons_of_neg (by simpa using kept)]
      rfl

theorem filter_key {ν : Type} [DecidableEq ν] (map : ExtTreeMap String ν) (item : String) :
    map.toList.filter (fun binding => binding.1 = item) = map[item]?.toList.map (fun value => (item, value)) := by
  cases found : map[item]? with
  | none =>
    apply List.filter_eq_nil_iff.mpr
    intro binding listed same
    have bound := ExtTreeMap.mem_toList_iff_getElem?_eq_some.mp listed
    rw [of_decide_eq_true same, found] at bound
    cases bound
  | some value =>
    have listed : (item, value) ∈ map.toList := ExtTreeMap.mem_toList_iff_getElem?_eq_some.mpr found
    have only : ∀ binding ∈ map.toList, decide (binding.1 = item) = (binding == (item, value)) := by
      intro binding member
      have bound := ExtTreeMap.mem_toList_iff_getElem?_eq_some.mp member
      by_cases same : binding.1 = item
      · rw [same, found] at bound
        have whole : binding = (item, value) := Prod.ext same (Option.some.inj bound).symm
        simp [whole]
      · have other : binding ≠ (item, value) := fun whole => same (congrArg Prod.fst whole)
        simp [same, other]
    have distinct : map.toList.Nodup := map.distinct_keys_toList.imp fun apart same => apart (by rw [same]; simp)
    rw [List.filter_congr only, List.filter_beq, List.count_eq_one_of_mem distinct listed]
    rfl

theorem lookup_hashers (state : DocText) (item : String) : state.hashers[item]? =
    absorb none (((state.about item).listed item).map fun (tag, key, value) => factText tag key value) := by
  have flags (tag : String) (hashers : Hashers) (binding : String × Bool) :
      (feedFlag tag hashers binding)[item]? = absorb hashers[item]?
        (if binding.1 = item then [factText tag binding.1 (flagText binding.2)] else []) :=
    lookup_feed tag hashers binding.1 binding.1 (flagText binding.2) item
  have names (tag : String) (hashers : Hashers) (binding : String × String) :
      (feedNamed tag hashers binding)[item]? = absorb hashers[item]?
        (if binding.1 = item then [factText tag binding.1 binding.2] else []) :=
    lookup_feed tag hashers binding.1 binding.1 binding.2 item
  unfold DocText.hashers
  dsimp only
  rw [lookup_feeds (lookup_feedKeyed "a" item), lookup_feeds (lookup_feedKeyed "m" item),
    lookup_feeds (flags "h"), lookup_feeds (flags "k"), lookup_feeds (names "c"),
    lookup_feeds (lookup_feedKeyed "v" item), absorb_append, absorb_append, absorb_append, absorb_append,
    absorb_append]
  simp only [flatMap_ite, filter_key]
  simp [Facts.listed, DocText.about, entriesOf, Function.comp_def]

theorem lookup_fingerprints (hash : Bytes → Blake3) (state : DocText) (item : String) :
    (fingerprints hash state)[item]? =
      if (state.about item).listed item = [] then none
      else some (hash (terminated 0 ((state.about item).texts item))) := by
  have joined (list : List (String × String × String)) :
      (list.map fun (tag, key, value) => factText tag key value).flatten =
        terminated 0 (list.flatMap fun (tag, key, value) => [textBytes tag, textBytes key, textBytes value]) := by
    induction list with
    | nil => rfl
    | cons fact rest ih => rw [List.map_cons, List.flatten_cons, ih, List.flatMap_cons, terminated_append]; rfl
  rw [fingerprints, ExtTreeMap.getElem?_map, lookup_hashers, absorb]
  by_cases silent : (state.about item).listed item = []
  · rw [if_pos silent, silent]
    rfl
  · rw [if_neg silent, if_neg (by simpa using silent), joined]
    rfl

theorem mem_changedItems (old new : ExtTreeMap String Blake3) (item : String) :
    item ∈ changedItems old new ↔ old[item]? ≠ new[item]? := by
  have folded {β : Type} (keep : β → Prop) [DecidablePred keep] (name : β → String) (entries : List β)
      (items : ExtTreeSet String) :
      item ∈ entries.foldl (fun items entry => if keep entry then items.insert (name entry) else items) items ↔
        item ∈ items ∨ ∃ entry ∈ entries, keep entry ∧ name entry = item := by
    induction entries generalizing items with
    | nil => simp
    | cons entry rest ih =>
      rw [List.foldl_cons, ih]
      by_cases kept : keep entry
      · simp only [kept, ↓reduceIte, ExtTreeSet.mem_insert, LawfulEqOrd.compare_eq_iff_eq, List.mem_cons,
          exists_eq_or_imp, true_and]
        rw [or_comm (a := name entry = item), or_assoc]
      · simp only [kept, ↓reduceIte, List.mem_cons, exists_eq_or_imp, false_and, false_or]
  unfold changedItems
  dsimp only
  rw [folded, folded]
  constructor
  · rintro ((nothing | ⟨binding, listed, differs, rfl⟩) | ⟨owner, listed, absent, rfl⟩)
    · exact absurd nothing ExtTreeSet.not_mem_empty
    · rw [ExtTreeMap.mem_toList_iff_getElem?_eq_some.mp listed]
      exact differs
    · intro same
      have here := ExtTreeMap.mem_keys.mp listed
      rw [ExtTreeMap.mem_iff_isSome_getElem?, same, ← ExtTreeMap.mem_iff_isSome_getElem?,
        ExtTreeMap.mem_iff_contains] at here
      rw [here] at absent
      cases absent
  · intro differs
    cases found : new[item]? with
    | some digest =>
      rw [found] at differs
      exact .inl (.inr ⟨(item, digest), ExtTreeMap.mem_toList_iff_getElem?_eq_some.mpr found, differs, rfl⟩)
    | none =>
      rw [found] at differs
      have here : item ∈ old := ExtTreeMap.mem_iff_isSome_getElem?.mpr (Option.isSome_iff_ne_none.mpr differs)
      have gone : (!new.contains item) = true := by
        rw [ExtTreeMap.contains_eq_isSome_getElem?, found]
        rfl
      exact .inr ⟨item, ExtTreeMap.mem_keys.mpr here, gone, rfl⟩

/-! ### When the report is exact -/

/-- The byte strings a document's digests are made of. -/
def DocText.fed (state : DocText) : Set Bytes :=
  {bytes | ∃ item, bytes = terminated 0 ((state.about item).texts item)}

/-- The facts about an item as NUL bytes cut them: what the digest sees of them. -/
def DocText.cut (state : DocText) (item : String) : List Bytes :=
  pieces 0 ((state.about item).texts item)

/-- No fact about the item holds a NUL byte. -/
def DocText.NulFree (state : DocText) (item : String) : Prop :=
  ∀ text ∈ (state.about item).texts item, 0 ∉ text

section Exact

variable {toLowercase : String → String} {hash : Bytes → Blake3} {readVersion : String → Option VersionRecord}
  {readObject : String → Option ObjectRef} {hold : HoldPolicy} {maxObjectBytes : UInt64}
  {has : Blake3 → Bool} {before after : DocText}

theorem texts_eq_nil {item : String} {facts : Facts} : facts.texts item = [] ↔ facts.listed item = [] := by
  unfold Facts.texts
  constructor
  · intro none_fed
    cases listed : facts.listed item with
    | nil => rfl
    | cons fact rest =>
      rw [listed] at none_fed
      cases none_fed
  · intro silent
    rw [silent]
    rfl

theorem mem_report_items (apart : Set.InjOn hash (before.fed ∪ after.fed)) (item : String) :
    item ∈ (report toLowercase hash readVersion readObject hold maxObjectBytes has before after).items ↔
      before.cut item ≠ after.cut item := by
  have spoken {facts : Facts} (more : ¬facts.listed item = []) : pieces 0 (facts.texts item) ≠ [] := by
    cases texts : facts.texts item with
    | nil => exact absurd (texts_eq_nil.mp texts) more
    | cons text rest =>
      intro empty
      exact List.splitOn_ne_nil 0 text (List.append_eq_nil_iff.mp empty).1
  have mute {facts : Facts} (silent : facts.listed item = []) : pieces 0 (facts.texts item) = [] := by
    rw [texts_eq_nil.mpr silent]
    rfl
  change item ∈ (changedItems (fingerprints hash before) (fingerprints hash after)).toList ↔ _
  rw [ExtTreeSet.mem_toList, mem_changedItems, lookup_fingerprints, lookup_fingerprints]
  unfold DocText.cut
  by_cases old : (before.about item).listed item = []
  · rw [if_pos old, mute old]
    by_cases new : (after.about item).listed item = []
    · rw [if_pos new, mute new]
      simp
    · rw [if_neg new]
      simp [(spoken new).symm]
  · rw [if_neg old]
    by_cases new : (after.about item).listed item = []
    · rw [if_pos new, mute new]
      simp [spoken old]
    · rw [if_neg new, ne_eq, Option.some.injEq]
      exact not_congr ((apart.eq_iff (.inl ⟨item, rfl⟩) (.inr ⟨item, rfl⟩)).trans terminated_inj)

theorem cut_exact_of_nulFree {item : String} (old : before.NulFree item) (new : after.NulFree item)
    (same : before.cut item = after.cut item) : before.about item = after.about item := by
  unfold DocText.cut at same
  rw [pieces_of_unbroken old, pieces_of_unbroken new] at same
  exact Facts.texts_injective item same

/-- The report is exact about an item if and only if NUL bytes in the item's keys and
values do not make facts that differ read the same, and so wherever there are none. -/
theorem report_items_exact_iff (apart : Set.InjOn hash (before.fed ∪ after.fed)) (item : String) :
    ((item ∈ (report toLowercase hash readVersion readObject hold maxObjectBytes has before after).items ↔
        before.about item ≠ after.about item) ↔
      (before.cut item = after.cut item → before.about item = after.about item)) ∧
    (before.NulFree item → after.NulFree item →
      (item ∈ (report toLowercase hash readVersion readObject hold maxObjectBytes has before after).items ↔
        before.about item ≠ after.about item)) := by
  have reported := @mem_report_items toLowercase hash readVersion readObject hold maxObjectBytes has before
    after apart item
  have seen : before.about item = after.about item → before.cut item = after.cut item := by
    intro same
    unfold DocText.cut
    rw [same]
  rw [reported]
  refine ⟨?_, ?_⟩
  · constructor
    · intro exact_ cuts
      by_contra differ
      exact exact_.mpr differ cuts
    · intro shown
      exact ⟨fun cuts same => cuts (seen same), fun differ cuts => differ (shown cuts)⟩
  · intro old new
    exact ⟨fun cuts same => cuts (seen same),
      fun differ cuts => differ (cut_exact_of_nulFree old new cuts)⟩

end Exact

section Samples

/-- A title whose text goes on like the record of a link. -/
private def joined : DocText :=
  { DocText.empty with metas := ({} : ExtTreeMap String String).insert ("app" ++ "/" ++ "title") "A\x00m\x00app/url\x00B" }

private def titled : DocText :=
  { joined with metas := joined.metas.insert ("app" ++ "/" ++ "title") "A" }

private def split : DocText :=
  { titled with metas := titled.metas.insert ("app" ++ "/" ++ "url") "B" }

private theorem setMeta_eq {state : DocText} {item key value : String}
    (named : (!isValidItemId item || !isValidName key) = false) (short : value.utf8ByteSize ≤ maxMetaBytes) :
    state.setMeta item key (some value) =
      some { state with metas := state.metas.insert (item ++ "/" ++ key) value } := by
  unfold DocText.setMeta
  rw [named, if_neg Bool.false_ne_true]
  exact if_neg (Nat.not_lt.mpr short)

private def plain : DocText :=
  { DocText.empty with metas := ({} : ExtTreeMap String String).insert ("app" ++ "/" ++ "title") "A" }

/-- Tells nothing from something. -/
private def sparseHash (bytes : Bytes) : Blake3 := if bytes = [] then 0 else 1

private theorem plain_fed {bytes : Bytes} (fed : bytes ∈ DocText.empty.fed ∪ plain.fed) :
    bytes = [] ∨ bytes = terminated 0 ((plain.about "app").texts "app") := by
  have stored : plain.metas.toList = [("app/title", "A")] := by decide
  have owner : itemOf "app/title" = some "app" := by decide
  rcases fed with ⟨item, rfl⟩ | ⟨item, rfl⟩
  · left
    have silent : (DocText.empty.about item).listed item = [] := by
      simp [DocText.about, DocText.empty, Facts.listed, entriesOf]
    rw [texts_eq_nil.mpr silent]
    rfl
  · by_cases same : item = "app"
    · exact .inr (by rw [same])
    · left
      have silent : (plain.about item).listed item = [] := by
        have others : ¬some "app" = some item := fun found => same (Option.some.inj found).symm
        have none_stored : (entriesOf item plain.metas).toList = [] := by
          rw [entriesOf, ExtTreeMap.toList_filter, stored, List.filter_cons_of_neg (by simpa [owner] using others)]
          rfl
        have listed : (plain.about item).listed item =
            (entriesOf item plain.metas).toList.map fun (key, value) => ("m", key, value) := by
          have blank : (∅ : ExtTreeMap String String).toList = [] := rfl
          simp [DocText.about, plain, DocText.empty, Facts.listed, entriesOf, blank]
        rw [listed, none_stored]
        rfl
      rw [texts_eq_nil.mpr silent]
      rfl

theorem report_items_exact_iff_title :
    "app" ∈ (report (fun text => text) sparseHash (fun _ => none) (fun _ => none) ⟨true, .all, true⟩ 0
      (fun _ => false) .empty plain).items := by
  have whole : terminated 0 ((plain.about "app").texts "app") ≠ [] := by decide +kernel
  have differ : DocText.empty.about "app" ≠ plain.about "app" := by
    intro same
    have counted := congrArg (fun facts => facts.metas.size) same
    exact absurd counted (by decide +kernel)
  have apart : Set.InjOn sparseHash (DocText.empty.fed ∪ plain.fed) := by
    intro first one second two same
    rcases plain_fed one with rfl | rfl
    · rcases plain_fed two with rfl | rfl
      · rfl
      · simp [sparseHash, whole] at same
    · rcases plain_fed two with rfl | rfl
      · simp [sparseHash, whole] at same
      · rfl
  have old : DocText.empty.NulFree "app" := by
    intro text listed
    have silent : (DocText.empty.about "app").texts "app" = [] := by decide +kernel
    rw [silent] at listed
    cases listed
  have new : plain.NulFree "app" := by
    unfold DocText.NulFree
    decide +kernel
  exact ((report_items_exact_iff apart "app").2 old new).mpr differ

/-- A title that holds NUL characters is replaced by a title and a link: the facts change, the
digest does not, whatever the hash function is. -/
theorem merged_facts_not_reported : ∃ before titled after : DocText,
    DocText.empty.setMeta "app" "title" (some "A\x00m\x00app/url\x00B") = some before ∧
    before.setMeta "app" "title" (some "A") = some titled ∧
    titled.setMeta "app" "url" (some "B") = some after ∧
    before.about "app" ≠ after.about "app" ∧
    ∀ toLowercase hash readVersion readObject hold maxObjectBytes has,
      "app" ∉ (report toLowercase hash readVersion readObject hold maxObjectBytes has before after).items := by
  refine ⟨joined, titled, split, setMeta_eq (by decide +kernel) (by decide +kernel),
    setMeta_eq (by decide +kernel) (by decide +kernel), setMeta_eq (by decide +kernel) (by decide +kernel), ?_, ?_⟩
  · intro same
    have counted := congrArg (fun facts => facts.metas.size) same
    exact absurd counted (by decide +kernel)
  · intro toLowercase hash readVersion readObject hold maxObjectBytes has
    have one : terminated 0 ((joined.about "app").texts "app") = terminated 0 ((split.about "app").texts "app") := by
      decide +kernel
    have old : (joined.about "app").listed "app" ≠ [] := by decide +kernel
    have new : (split.about "app").listed "app" ≠ [] := by decide +kernel
    change "app" ∉ (changedItems (fingerprints hash joined) (fingerprints hash split)).toList
    rw [ExtTreeSet.mem_toList, mem_changedItems, lookup_fingerprints, lookup_fingerprints, if_neg old,
      if_neg new, one]
    exact fun differ => differ rfl

end Samples

end Mille.Drive
