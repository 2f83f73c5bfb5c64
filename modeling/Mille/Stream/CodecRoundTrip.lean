import Mathlib
import Mille.Stream.Codec

/-! What the framed codec gives back. A message survives exactly when nothing in it looks
like a placeholder or is called `__proto__`, and no length overflows its header field. -/

namespace Mille.Stream

def Value.isUndefined : Value → Bool
  | .undefined => true
  | _ => false

mutual

/-- Values a message may be built from. -/
def Value.Sendable : Value → Prop
  | .null | .bool _ | .string _ | .view _ _ _ _ => True
  | .number value => ∃ finite, value = .finite finite
  | .undefined | .unsupported _ => False
  | .array items => SendableItems items
  | .object members => (members.map Prod.fst).Nodup ∧ SendableEntries members

def SendableItems : List Value → Prop
  | [] => True
  | item :: rest => item.Sendable ∧ SendableItems rest

def SendableEntries : List (String × Value) → Prop
  | [] => True
  | (_, value) :: rest => (value.isUndefined = true ∨ value.Sendable) ∧ SendableEntries rest

end

mutual

/-- The message as the receiver should have it: every view an array of exactly the viewed
bytes, `undefined` members dropped. -/
def Value.restored : Value → Value
  | .view _ buffer offset length => .bytes (viewed buffer offset length)
  | .array items => .array (restoredItems items)
  | .object members => .object (restoredEntries members)
  | other => other

def restoredItems : List Value → List Value
  | [] => []
  | item :: rest => item.restored :: restoredItems rest

def restoredEntries : List (String × Value) → List (String × Value)
  | [] => []
  | (key, value) :: rest =>
    if value.isUndefined then restoredEntries rest else (key, value.restored) :: restoredEntries rest

end

mutual

/-- Nothing inside looks like a placeholder or is called `__proto__`. -/
def Value.clean : Value → Bool
  | .array items => cleanItems items
  | .object members => (isBinaryPlaceholder members).isNone && cleanEntries members
  | _ => true

def cleanItems : List Value → Bool
  | [] => true
  | item :: rest => item.clean && cleanItems rest

def cleanEntries : List (String × Value) → Bool
  | [] => true
  | (key, value) :: rest => (value.isUndefined || key != "__proto__" && value.clean) && cleanEntries rest

end

mutual

/-- Values JSON text stands for. -/
def Value.Plain : Value → Prop
  | .null | .bool _ | .string _ => True
  | .number value => ∃ finite, value = .finite finite
  | .undefined | .unsupported _ | .view _ _ _ _ => False
  | .array items => PlainItems items
  | .object members => (members.map Prod.fst).Nodup ∧ PlainEntries members

def PlainItems : List Value → Prop
  | [] => True
  | item :: rest => item.Plain ∧ PlainItems rest

def PlainEntries : List (String × Value) → Prop
  | [] => True
  | (_, value) :: rest => value.Plain ∧ PlainEntries rest

end

theorem foldl_assign (out entries : List (String × Value))
    (distinct : ((out ++ entries).map Prod.fst).Nodup) :
    entries.foldl assign out = out ++ entries.filter (·.1 ≠ "__proto__") := by
  induction entries generalizing out with
  | nil => simp
  | cons entry rest ih =>
    rw [List.foldl_cons]
    have without : ((out ++ rest).map Prod.fst).Nodup := by
      have fewer := (List.Sublist.append_left (List.sublist_cons_self entry rest) out).map Prod.fst
      exact fewer.nodup distinct
    by_cases proto : entry.1 = "__proto__"
    · rw [assign, if_pos proto, ih out without]
      simp [proto]
    · have fresh : entry.1 ∉ out.map Prod.fst := by
        intro present
        rw [List.map_append, List.nodup_append] at distinct
        exact distinct.2.2 entry.1 present entry.1 (by simp) rfl
      rw [assign, if_neg proto, if_neg fresh, ih]
      · simp [proto]
      · simpa using distinct

theorem assignAll_eq {entries : List (String × Value)} (distinct : (entries.map Prod.fst).Nodup) :
    assignAll entries = entries.filter (·.1 ≠ "__proto__") := by
  have folded := foldl_assign [] entries (by simpa using distinct)
  simpa [assignAll] using folded

section Inversion

variable {max : Nat} {found found' : List Bytes}

theorem extractItems_cons {item : Value} {rest out : List Value}
    (extracted : extractItems max (item :: rest) found = .ok (out, found')) :
    ∃ first between others, extract max item found = .ok (first, between) ∧
      extractItems max rest between = .ok (others, found') ∧ out = first :: others := by
  rw [extractItems] at extracted
  cases head : extract max item found with
  | error error => simp [head] at extracted
  | ok pair =>
    obtain ⟨first, between⟩ := pair
    simp only [head] at extracted
    cases tail : extractItems max rest between with
    | error error => simp [tail] at extracted
    | ok pair =>
      obtain ⟨others, last⟩ := pair
      simp only [tail, Except.ok.injEq, Prod.mk.injEq] at extracted
      obtain ⟨rfl, rfl⟩ := extracted
      exact ⟨first, between, others, rfl, tail, rfl⟩

theorem extractEntries_undefined {key : String} {value : Value} {rest : List (String × Value)}
    (missing : value.isUndefined = true) :
    extractEntries max ((key, value) :: rest) found = extractEntries max rest found := by
  cases value <;> simp [Value.isUndefined] at missing
  rw [extractEntries]

theorem extractEntries_defined {key : String} {value : Value} {rest : List (String × Value)}
    (defined : value.isUndefined = false) : extractEntries max ((key, value) :: rest) found =
      match extract max value found with
      | .error error => .error error
      | .ok (out, found) =>
        match extractEntries max rest found with
        | .error error => .error error
        | .ok (others, found) => .ok ((key, out) :: others, found) := by
  have present : value ≠ .undefined := by
    intro missing
    simp [missing, Value.isUndefined] at defined
  rw [extractEntries] <;> first | exact present | rfl

theorem extractEntries_cons {key : String} {value : Value} {rest out : List (String × Value)}
    (defined : value.isUndefined = false)
    (extracted : extractEntries max ((key, value) :: rest) found = .ok (out, found')) :
    ∃ first between others, extract max value found = .ok (first, between) ∧
      extractEntries max rest between = .ok (others, found') ∧ out = (key, first) :: others := by
  rw [extractEntries_defined defined] at extracted
  cases head : extract max value found with
  | error error => simp [head] at extracted
  | ok pair =>
    obtain ⟨first, between⟩ := pair
    simp only [head] at extracted
    cases tail : extractEntries max rest between with
    | error error => simp [tail] at extracted
    | ok pair =>
      obtain ⟨others, last⟩ := pair
      simp only [tail, Except.ok.injEq, Prod.mk.injEq] at extracted
      obtain ⟨rfl, rfl⟩ := extracted
      exact ⟨first, between, others, rfl, tail, rfl⟩

theorem extract_array {items : List Value} {out : Value}
    (extracted : extract max (.array items) found = .ok (out, found')) :
    ∃ others, extractItems max items found = .ok (others, found') ∧ out = .array others := by
  rw [extract] at extracted
  cases inner : extractItems max items found with
  | error error => simp [inner] at extracted
  | ok pair =>
    obtain ⟨others, last⟩ := pair
    simp only [inner, Except.ok.injEq, Prod.mk.injEq] at extracted
    obtain ⟨rfl, rfl⟩ := extracted
    exact ⟨others, rfl, rfl⟩

theorem extract_object {members : List (String × Value)} {out : Value}
    (extracted : extract max (.object members) found = .ok (out, found')) :
    ∃ entries, extractEntries max members found = .ok (entries, found') ∧
      out = .object (assignAll entries) := by
  rw [extract] at extracted
  cases inner : extractEntries max members found with
  | error error => simp [inner] at extracted
  | ok pair =>
    obtain ⟨entries, last⟩ := pair
    simp only [inner, Except.ok.injEq, Prod.mk.injEq] at extracted
    obtain ⟨rfl, rfl⟩ := extracted
    exact ⟨entries, rfl, rfl⟩

theorem extractEntries_keys {members entries : List (String × Value)}
    (extracted : extractEntries max members found = .ok (entries, found')) :
    entries.map Prod.fst = (members.filter (!·.2.isUndefined)).map Prod.fst := by
  induction members generalizing entries found with
  | nil =>
    simp only [extractEntries, Except.ok.injEq, Prod.mk.injEq] at extracted
    simp [← extracted.1]
  | cons entry rest ih =>
    obtain ⟨key, value⟩ := entry
    cases missing : value.isUndefined with
    | true =>
      rw [extractEntries_undefined missing] at extracted
      simpa [missing] using ih extracted
    | false =>
      obtain ⟨first, between, others, _, tail, rfl⟩ := extractEntries_cons missing extracted
      simpa [missing] using ih tail

theorem extractEntries_nodup {members entries : List (String × Value)}
    (distinct : (members.map Prod.fst).Nodup)
    (extracted : extractEntries max members found = .ok (entries, found')) :
    (entries.map Prod.fst).Nodup := by
  rw [extractEntries_keys extracted]
  exact (List.filter_sublist.map Prod.fst).nodup distinct

end Inversion

mutual

theorem extract_found {max : Nat} : ∀ {value out : Value} {found found' : List Bytes},
    extract max value found = .ok (out, found') →
      found <+: found' ∧ (found.length ≤ max → found'.length ≤ max)
  | .null, _, _, _, extracted | .undefined, _, _, _, extracted | .bool _, _, _, _, extracted
  | .string _, _, _, _, extracted | .number (.finite _), _, _, _, extracted
  | .number .negativeZero, _, _, _, extracted => by
    simp only [extract, Except.ok.injEq, Prod.mk.injEq] at extracted
    simp [extracted.2]
  | .number .nonFinite, _, _, _, extracted | .unsupported _, _, _, _, extracted => by
    simp [extract] at extracted
  | .view _ buffer offset length, _, found, _, extracted => by
    rw [extract] at extracted
    split at extracted
    · cases extracted
    · simp only [Except.ok.injEq, Prod.mk.injEq] at extracted
      rw [← extracted.2]
      refine ⟨List.prefix_append _ _, fun _ => ?_⟩
      simp only [List.length_append, List.length_singleton]
      omega
  | .array _, _, _, _, extracted => by
    obtain ⟨_, inner, _⟩ := extract_array extracted
    exact extractItems_found inner
  | .object _, _, _, _, extracted => by
    obtain ⟨_, inner, _⟩ := extract_object extracted
    exact extractEntries_found inner

theorem extractItems_found {max : Nat} : ∀ {items out : List Value} {found found' : List Bytes},
    extractItems max items found = .ok (out, found') →
      found <+: found' ∧ (found.length ≤ max → found'.length ≤ max)
  | [], _, _, _, extracted => by
    simp only [extractItems, Except.ok.injEq, Prod.mk.injEq] at extracted
    simp [extracted.2]
  | _ :: _, _, _, _, extracted => by
    obtain ⟨_, _, _, head, tail, _⟩ := extractItems_cons extracted
    have first := extract_found head
    have others := extractItems_found tail
    exact ⟨first.1.trans others.1, fun within => others.2 (first.2 within)⟩

theorem extractEntries_found {max : Nat} : ∀ {members out : List (String × Value)}
    {found found' : List Bytes}, extractEntries max members found = .ok (out, found') →
      found <+: found' ∧ (found.length ≤ max → found'.length ≤ max)
  | [], _, _, _, extracted => by
    simp only [extractEntries, Except.ok.injEq, Prod.mk.injEq] at extracted
    simp [extracted.2]
  | (_, value) :: _, _, _, _, extracted => by
    cases missing : value.isUndefined with
    | true =>
      rw [extractEntries_undefined missing] at extracted
      exact extractEntries_found extracted
    | false =>
      obtain ⟨_, _, _, head, tail, _⟩ := extractEntries_cons missing extracted
      have first := extract_found head
      have others := extractEntries_found tail
      exact ⟨first.1.trans others.1, fun within => others.2 (first.2 within)⟩

end

/-- What the placeholder test can see of a member. -/
def Value.scalar : Value → Value
  | .string value => .string value
  | .number value => .number value
  | _ => .undefined

theorem isBinaryPlaceholder_eq (members : List (String × Value)) : isBinaryPlaceholder members =
    match (member members "$mille").scalar, (member members "i").scalar with
    | .string "bin", .number index => some index
    | _, _ => none := by
  unfold isBinaryPlaceholder
  cases member members "$mille" <;> cases member members "i" <;>
    first | rfl | simp [Value.scalar]

theorem isBinaryPlaceholder_scalar {members others : List (String × Value)}
    (mille : (member members "$mille").scalar = (member others "$mille").scalar)
    (index : (member members "i").scalar = (member others "i").scalar) :
    isBinaryPlaceholder members = isBinaryPlaceholder others := by
  rw [isBinaryPlaceholder_eq, isBinaryPlaceholder_eq, mille, index]

theorem extract_scalar {max : Nat} {value out : Value} {found found' : List Bytes}
    (extracted : extract max value found = .ok (out, found')) : out.scalar = value.scalar := by
  cases value with
  | null | undefined | bool _ | string _ =>
    simp only [extract, Except.ok.injEq, Prod.mk.injEq] at extracted
    rw [← extracted.1]
  | number value =>
    cases value <;> simp only [extract, Except.ok.injEq, Prod.mk.injEq, reduceCtorEq] at extracted <;>
      rw [← extracted.1]
  | view kind buffer offset length =>
    rw [extract] at extracted
    split at extracted
    · cases extracted
    · simp only [Except.ok.injEq, Prod.mk.injEq] at extracted
      rw [← extracted.1]
      rfl
  | array items =>
    obtain ⟨_, _, rfl⟩ := extract_array extracted
    rfl
  | object members =>
    obtain ⟨_, _, rfl⟩ := extract_object extracted
    rfl
  | unsupported message => simp [extract] at extracted

theorem member_cons (key other : String) (value : Value) (rest : List (String × Value)) :
    member ((other, value) :: rest) key = if key = other then value else member rest key := by
  by_cases same : key = other
  · simp [member, same]
  · have differs : (key == other) = false := by simpa using same
    simp [member, List.lookup_cons, differs, same]

theorem member_absent {members : List (String × Value)} {key : String}
    (absent : key ∉ members.map Prod.fst) : member members key = .undefined := by
  induction members with
  | nil => rfl
  | cons entry rest ih =>
    obtain ⟨other, value⟩ := entry
    simp only [List.map_cons, List.mem_cons, not_or] at absent
    rw [member_cons, if_neg absent.1, ih absent.2]

theorem member_filter {members : List (String × Value)} {key : String} (kept : key ≠ "__proto__") :
    member (members.filter (·.1 ≠ "__proto__")) key = member members key := by
  induction members with
  | nil => rfl
  | cons entry rest ih =>
    obtain ⟨other, value⟩ := entry
    by_cases proto : other = "__proto__"
    · simp only [proto, ne_eq, not_true_eq_false, decide_false, Bool.false_eq_true,
        not_false_eq_true, List.filter_cons_of_neg, member_cons, if_neg kept]
      simpa using ih
    · rw [List.filter_cons_of_pos (by simpa using proto), member_cons, member_cons, ih]

theorem extractEntries_member {max : Nat} {members entries : List (String × Value)}
    {found found' : List Bytes} (distinct : (members.map Prod.fst).Nodup)
    (extracted : extractEntries max members found = .ok (entries, found')) (key : String) :
    (member entries key).scalar = (member members key).scalar := by
  induction members generalizing entries found with
  | nil =>
    simp only [extractEntries, Except.ok.injEq, Prod.mk.injEq] at extracted
    rw [← extracted.1]
  | cons entry rest ih =>
    obtain ⟨other, value⟩ := entry
    rw [List.map_cons, List.nodup_cons] at distinct
    cases missing : value.isUndefined with
    | true =>
      rw [extractEntries_undefined missing] at extracted
      rw [member_cons, ih distinct.2 extracted]
      split
      · next same =>
        rw [same, member_absent distinct.1]
        cases value <;> simp [Value.isUndefined] at missing
        rfl
      · rfl
    | false =>
      obtain ⟨first, between, others, head, tail, rfl⟩ := extractEntries_cons missing extracted
      rw [member_cons, member_cons]
      split
      · exact extract_scalar head
      · exact ih distinct.2 tail

theorem isBinaryPlaceholder_extracted {max : Nat} {members entries : List (String × Value)}
    {found found' : List Bytes} (distinct : (members.map Prod.fst).Nodup)
    (extracted : extractEntries max members found = .ok (entries, found')) :
    isBinaryPlaceholder (assignAll entries) = isBinaryPlaceholder members := by
  rw [assignAll_eq (extractEntries_nodup distinct extracted)]
  apply isBinaryPlaceholder_scalar
  · rw [member_filter (by decide), extractEntries_member distinct extracted]
  · rw [member_filter (by decide), extractEntries_member distinct extracted]

theorem reconstructEntries_keys {attachments : List Bytes} {entries out : List (String × Value)}
    (rebuilt : reconstructEntries attachments entries = .ok out) :
    out.map Prod.fst = entries.map Prod.fst := by
  induction entries generalizing out with
  | nil =>
    simp only [reconstructEntries, Except.ok.injEq] at rebuilt
    rw [← rebuilt]
  | cons entry rest ih =>
    obtain ⟨key, value⟩ := entry
    rw [reconstructEntries] at rebuilt
    cases head : reconstruct attachments value with
    | error error => simp [head] at rebuilt
    | ok first =>
      cases tail : reconstructEntries attachments rest with
      | error error => simp [head, tail] at rebuilt
      | ok others =>
        simp only [head, tail, Except.ok.injEq] at rebuilt
        rw [← rebuilt, List.map_cons, List.map_cons, ih tail]

theorem reconstructEntries_cons_eq {attachments : List Bytes} {key : String} {value restored : Value}
    {rest others : List (String × Value)} :
    reconstructEntries attachments ((key, value) :: rest) = .ok ((key, restored) :: others) ↔
      reconstruct attachments value = .ok restored ∧ reconstructEntries attachments rest = .ok others := by
  rw [reconstructEntries]
  cases reconstruct attachments value with
  | error error => simp
  | ok first => cases reconstructEntries attachments rest <;> simp

theorem reconstructItems_cons_eq {attachments : List Bytes} {item restored : Value}
    {rest others : List Value} :
    reconstructItems attachments (item :: rest) = .ok (restored :: others) ↔
      reconstruct attachments item = .ok restored ∧ reconstructItems attachments rest = .ok others := by
  rw [reconstructItems]
  cases reconstruct attachments item with
  | error error => simp
  | ok first => cases reconstructItems attachments rest <;> simp

theorem reconstruct_object {attachments : List Bytes} {entries restored : List (String × Value)}
    (distinct : (entries.map Prod.fst).Nodup) (plain : isBinaryPlaceholder (assignAll entries) = none) :
    reconstruct attachments (.object (assignAll entries)) = .ok (.object restored) ↔
      reconstructEntries attachments (entries.filter (·.1 ≠ "__proto__")) = .ok restored := by
  rw [reconstruct, plain, assignAll_eq distinct]
  cases rebuilt : reconstructEntries attachments (entries.filter (·.1 ≠ "__proto__")) with
  | error error => simp
  | ok out =>
    have keys := reconstructEntries_keys rebuilt
    have kept : assignAll out = out := by
      rw [assignAll_eq]
      · rw [List.filter_eq_self]
        intro entry present
        have named : entry.1 ∈ (entries.filter (·.1 ≠ "__proto__")).map Prod.fst := by
          rw [← keys]
          exact List.mem_map_of_mem present
        obtain ⟨other, among, same⟩ := List.mem_map.mp named
        rw [← same]
        exact (List.mem_filter.mp among).2
      · rw [keys]
        exact (List.filter_sublist.map Prod.fst).nodup distinct
    simp [kept]

theorem attachment_index {attachments : List Bytes} (index : Nat) :
    attachment attachments (.finite index) = attachments[index]? := by
  simp [attachment]

mutual

/-- Rebuilding what was extracted gives the message back exactly when the message is
clean. -/
theorem reconstruct_extract {max : Nat} {attachments : List Bytes} :
    ∀ {value out : Value} {found found' : List Bytes}, value.Sendable →
      extract max value found = .ok (out, found') → found' <+: attachments →
      (reconstruct attachments out = .ok value.restored ↔ value.clean = true)
  | .null, _, _, _, _, extracted, _ | .bool _, _, _, _, _, extracted, _
  | .string _, _, _, _, _, extracted, _ | .number (.finite _), _, _, _, _, extracted, _ => by
    simp only [extract, Except.ok.injEq, Prod.mk.injEq] at extracted
    simp [← extracted.1, reconstruct, Value.restored, Value.clean]
  | .undefined, _, _, _, sendable, _, _ | .unsupported _, _, _, _, sendable, _, _
  | .number .negativeZero, _, _, _, sendable, _, _ | .number .nonFinite, _, _, _, sendable, _, _ => by
    simp [Value.Sendable] at sendable
  | .view kind buffer offset length, _, found, _, _, extracted, covered => by
    rw [extract] at extracted
    split at extracted
    · cases extracted
    · simp only [Except.ok.injEq, Prod.mk.injEq] at extracted
      obtain ⟨rfl, rfl⟩ := extracted
      obtain ⟨behind, rfl⟩ := covered
      have looked : isBinaryPlaceholder
          [("$mille", .string "bin"), ("i", .number (.finite found.length))] =
          some (.finite found.length) := rfl
      rw [placeholder, reconstruct, looked]
      simp [attachment_index, Value.restored, Value.clean]
  | .array items, _, _, _, sendable, extracted, covered => by
    obtain ⟨others, inner, rfl⟩ := extract_array extracted
    rw [Value.Sendable] at sendable
    rw [Value.clean, ← reconstructItems_extract sendable inner covered, reconstruct, Value.restored]
    cases reconstructItems attachments others <;> simp
  | .object members, _, _, _, sendable, extracted, covered => by
    obtain ⟨entries, inner, rfl⟩ := extract_object extracted
    rw [Value.Sendable] at sendable
    have same := isBinaryPlaceholder_extracted sendable.1 inner
    rw [Value.clean, Value.restored]
    cases looks : isBinaryPlaceholder members with
    | some index =>
      rw [looks] at same
      simp only [reconstruct, same]
      cases attachment attachments index <;> simp [Value.bytes]
    | none =>
      rw [looks] at same
      rw [reconstruct_object (extractEntries_nodup sendable.1 inner) same,
        reconstructEntries_extract sendable.2 inner covered]
      simp

theorem reconstructItems_extract {max : Nat} {attachments : List Bytes} :
    ∀ {items out : List Value} {found found' : List Bytes}, SendableItems items →
      extractItems max items found = .ok (out, found') → found' <+: attachments →
      (reconstructItems attachments out = .ok (restoredItems items) ↔ cleanItems items = true)
  | [], _, _, _, _, extracted, _ => by
    simp only [extractItems, Except.ok.injEq, Prod.mk.injEq] at extracted
    simp [← extracted.1, reconstructItems, restoredItems, cleanItems]
  | item :: rest, _, _, _, sendable, extracted, covered => by
    obtain ⟨first, between, others, head, tail, rfl⟩ := extractItems_cons extracted
    rw [SendableItems] at sendable
    have before : between <+: attachments := (extractItems_found tail).1.trans covered
    rw [restoredItems, reconstructItems_cons_eq, reconstruct_extract sendable.1 head before,
      reconstructItems_extract sendable.2 tail covered, cleanItems, Bool.and_eq_true]

theorem reconstructEntries_extract {max : Nat} {attachments : List Bytes} :
    ∀ {members entries : List (String × Value)} {found found' : List Bytes}, SendableEntries members →
      extractEntries max members found = .ok (entries, found') → found' <+: attachments →
      (reconstructEntries attachments (entries.filter (·.1 ≠ "__proto__")) =
        .ok (restoredEntries members) ↔ cleanEntries members = true)
  | [], _, _, _, _, extracted, _ => by
    simp only [extractEntries, Except.ok.injEq, Prod.mk.injEq] at extracted
    simp [← extracted.1, reconstructEntries, restoredEntries, cleanEntries]
  | (key, value) :: rest, _, _, _, sendable, extracted, covered => by
    rw [SendableEntries] at sendable
    cases missing : value.isUndefined with
    | true =>
      rw [extractEntries_undefined missing] at extracted
      have rest_eq := reconstructEntries_extract sendable.2 extracted covered
      simpa [restoredEntries, cleanEntries, missing] using rest_eq
    | false =>
      obtain ⟨first, between, others, head, tail, rfl⟩ := extractEntries_cons missing extracted
      have before : between <+: attachments := (extractEntries_found tail).1.trans covered
      have whole : value.Sendable := sendable.1.resolve_left (by simp [missing])
      have rest_eq := reconstructEntries_extract sendable.2 tail covered
      rw [restoredEntries, cleanEntries, missing, if_neg (by simp)]
      by_cases proto : key = "__proto__"
      · -- The member is gone from the metadata, so no rebuilt object has it.
        simp only [proto, bne_self_eq_false, Bool.false_and, Bool.or_self, Bool.false_eq_true, iff_false]
        intro rebuilt
        have keys := reconstructEntries_keys rebuilt
        have present : "__proto__" ∈
            ((("__proto__", first) :: others).filter (·.1 ≠ "__proto__")).map Prod.fst := by
          rw [← keys]
          simp
        obtain ⟨entry, among, named⟩ := List.mem_map.mp present
        have kept := (List.mem_filter.mp among).2
        simp [named] at kept
      · rw [List.filter_cons_of_pos (by simpa using proto), reconstructEntries_cons_eq,
          reconstruct_extract whole head before, rest_eq]
        simp [proto]

end

theorem PlainEntries.filter {entries : List (String × Value)} (plain : PlainEntries entries)
    (keep : String × Value → Bool) : PlainEntries (entries.filter keep) := by
  induction entries with
  | nil => exact plain
  | cons entry rest ih =>
    rw [PlainEntries] at plain
    rw [List.filter_cons]
    split
    · exact ⟨plain.1, ih plain.2⟩
    · exact ih plain.2

theorem placeholder_plain (index : Nat) : (placeholder index).Plain := by
  simp [placeholder, Value.Plain, PlainEntries]

mutual

theorem extract_plain {max : Nat} : ∀ {value out : Value} {found found' : List Bytes},
    value.Sendable → extract max value found = .ok (out, found') → out.Plain
  | .null, _, _, _, _, extracted | .bool _, _, _, _, _, extracted
  | .string _, _, _, _, _, extracted | .number (.finite _), _, _, _, _, extracted => by
    simp only [extract, Except.ok.injEq, Prod.mk.injEq] at extracted
    simp [← extracted.1, Value.Plain]
  | .undefined, _, _, _, sendable, _ | .unsupported _, _, _, _, sendable, _
  | .number .negativeZero, _, _, _, sendable, _ | .number .nonFinite, _, _, _, sendable, _ => by
    simp [Value.Sendable] at sendable
  | .view _ _ _ _, _, _, _, _, extracted => by
    rw [extract] at extracted
    split at extracted
    · cases extracted
    · simp only [Except.ok.injEq, Prod.mk.injEq] at extracted
      rw [← extracted.1]
      exact placeholder_plain _
  | .array _, _, _, _, sendable, extracted => by
    obtain ⟨_, inner, rfl⟩ := extract_array extracted
    rw [Value.Sendable] at sendable
    exact extractItems_plain sendable inner
  | .object _, _, _, _, sendable, extracted => by
    obtain ⟨entries, inner, rfl⟩ := extract_object extracted
    rw [Value.Sendable] at sendable
    have distinct := extractEntries_nodup sendable.1 inner
    rw [assignAll_eq distinct, Value.Plain]
    exact ⟨(List.filter_sublist.map Prod.fst).nodup distinct,
      (extractEntries_plain sendable.2 inner).filter _⟩

theorem extractItems_plain {max : Nat} : ∀ {items out : List Value} {found found' : List Bytes},
    SendableItems items → extractItems max items found = .ok (out, found') → PlainItems out
  | [], _, _, _, _, extracted => by
    simp only [extractItems, Except.ok.injEq, Prod.mk.injEq] at extracted
    simp [← extracted.1, PlainItems]
  | _ :: _, _, _, _, sendable, extracted => by
    obtain ⟨_, _, _, head, tail, rfl⟩ := extractItems_cons extracted
    rw [SendableItems] at sendable
    exact ⟨extract_plain sendable.1 head, extractItems_plain sendable.2 tail⟩

theorem extractEntries_plain {max : Nat} : ∀ {members out : List (String × Value)}
    {found found' : List Bytes}, SendableEntries members →
      extractEntries max members found = .ok (out, found') → PlainEntries out
  | [], _, _, _, _, extracted => by
    simp only [extractEntries, Except.ok.injEq, Prod.mk.injEq] at extracted
    simp [← extracted.1, PlainEntries]
  | (_, value) :: _, _, _, _, sendable, extracted => by
    rw [SendableEntries] at sendable
    cases missing : value.isUndefined with
    | true =>
      rw [extractEntries_undefined missing] at extracted
      exact extractEntries_plain sendable.2 extracted
    | false =>
      obtain ⟨_, _, _, head, tail, rfl⟩ := extractEntries_cons missing extracted
      have whole : value.Sendable := sendable.1.resolve_left (by simp [missing])
      exact ⟨extract_plain whole head, extractEntries_plain sendable.2 tail⟩

end

end Mille.Stream
