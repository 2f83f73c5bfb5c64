import Mille.Client.Mirror

/-! When a delta leaves a child list of the host's alone: the reducer rebuilds the list of a
parent from the records it holds as soon as it takes one of them for a new or a lost child. -/

namespace Mille.MirrorWorking

open EntryCodec (ClientEntry)

variable {json : JsonParse} {msg : InboundDelta} {state next : MirrorWorking} {merge : Merge}
variable {parentId id : Int} {list : List Int} {entries : List ClientEntry} {viewportIds : JsSet Int}

/-- The host's own list of a parent's children. -/
structure Authoritative (state : MirrorWorking) (parentId : Int) (list : List Int) : Prop where
  listed : state.children.get parentId = some list
  ordered : state.orderedChildren.has parentId = true

section Stages

theorem authoritative_congr (children : next.children = state.children)
    (ordered : next.orderedChildren = state.orderedChildren) :
    Authoritative next parentId list ↔ Authoritative state parentId list := by
  constructor
  · intro ⟨listed, marked⟩
    exact ⟨children ▸ listed, ordered ▸ marked⟩
  · intro ⟨listed, marked⟩
    exact ⟨children ▸ listed, ordered ▸ marked⟩

theorem authoritative_dropped (children : next.children = state.children.delete id)
    (ordered : next.orderedChildren = state.orderedChildren.delete id) (other : id ≠ parentId) :
    Authoritative next parentId list ↔ Authoritative state parentId list := by
  constructor
  · intro ⟨listed, marked⟩
    rw [children, JsMap.get_delete, if_neg other] at listed
    rw [ordered] at marked
    exact ⟨listed, (JsMap.has_delete.mp marked).2⟩
  · intro ⟨listed, marked⟩
    constructor
    · rw [children, JsMap.get_delete, if_neg other]
      exact listed
    · rw [ordered]
      exact JsMap.has_delete.mpr ⟨other, marked⟩

theorem authoritative_foldl {α : Type} {step : MirrorWorking → α → MirrorWorking} {names : α → Int}
    (each : ∀ state item, names item ≠ parentId →
      (Authoritative (step state item) parentId list ↔ Authoritative state parentId list))
    (items : List α) (others : parentId ∉ items.map names) (state : MirrorWorking) :
    Authoritative (items.foldl step state) parentId list ↔ Authoritative state parentId list := by
  induction items generalizing state with
  | nil => rfl
  | cons item rest ih =>
    rw [List.map_cons, List.mem_cons, not_or] at others
    rw [List.foldl_cons, ih others.2]
    exact each state item (Ne.symm others.1)

@[simp] theorem touch_byId : (state.touch id).byId = state.byId := by
  unfold touch
  split <;> rfl

@[simp] theorem touch_children : (state.touch id).children = state.children := by
  unfold touch
  split <;> rfl

@[simp] theorem touch_orderedChildren : (state.touch id).orderedChildren = state.orderedChildren := by
  unfold touch
  split <;> rfl

@[simp] theorem settleExpansion_children : (settleExpansion msg state id).children = state.children := by
  unfold settleExpansion
  split <;> rfl

@[simp] theorem settleExpansion_orderedChildren :
    (settleExpansion msg state id).orderedChildren = state.orderedChildren := by
  unfold settleExpansion
  split <;> rfl

theorem authoritative_prepare (spared : parentId ∉ msg.coarseSubtrees) :
    Authoritative (prepare msg state) parentId list ↔ Authoritative state parentId list := by
  unfold prepare
  rw [authoritative_foldl (fun state rootId => authoritative_dropped rfl rfl) _ (by simpa using spared)]
  apply authoritative_congr
  · unfold pinViewport applyVisibility
    split <;> split <;> rfl
  · unfold pinViewport applyVisibility
    split <;> split <;> rfl

theorem prepare_byId : (prepare msg state).byId = state.byId := by
  have coarse (ids : List Int) (state : MirrorWorking) : (ids.foldl markCoarse state).byId = state.byId := by
    induction ids generalizing state with
    | nil => rfl
    | cons id rest ih => exact ih (state.markCoarse id)
  rw [prepare, coarse]
  unfold pinViewport applyVisibility
  split <;> split <;> rfl

theorem noteArrivals_byId {lists : List (Int × List Int)} :
    (noteArrivals entries lists state).byId = state.byId := by
  unfold noteArrivals
  split <;> rfl

theorem authoritative_noteArrivals {lists : List (Int × List Int)} :
    Authoritative (noteArrivals entries lists state) parentId list ↔ Authoritative state parentId list := by
  unfold noteArrivals
  split
  · rfl
  · exact authoritative_congr rfl rfl

theorem authoritative_installChildList {incoming : Int × List Int} (other : incoming.1 ≠ parentId) :
    Authoritative (installChildList msg state incoming) parentId list ↔ Authoritative state parentId list := by
  constructor
  · intro ⟨listed, marked⟩
    rw [installChildList, settleExpansion_children, JsMap.get_set, if_neg other] at listed
    rw [installChildList, settleExpansion_orderedChildren, JsMap.has_add] at marked
    exact ⟨listed, marked.resolve_left other⟩
  · intro ⟨listed, marked⟩
    constructor
    · rw [installChildList, settleExpansion_children, JsMap.get_set, if_neg other]
      exact listed
    · rw [installChildList, settleExpansion_orderedChildren, JsMap.has_add]
      exact .inr marked

theorem not_authoritative_rebuildParent : ¬Authoritative (rebuildParent msg state parentId) parentId list := by
  intro ⟨_, marked⟩
  rw [rebuildParent, settleExpansion_orderedChildren, JsMap.has_delete] at marked
  exact marked.1 rfl

theorem authoritative_rebuildParent (other : id ≠ parentId) :
    Authoritative (rebuildParent msg state id) parentId list ↔ Authoritative state parentId list := by
  have listed : (rebuildParent msg state id).children.get parentId = state.children.get parentId := by
    rw [rebuildParent, settleExpansion_children]
    dsimp only
    split
    · rw [JsMap.get_delete, if_neg other]
    · rw [JsMap.get_set, if_neg other]
  constructor
  · intro ⟨found, marked⟩
    rw [rebuildParent, settleExpansion_orderedChildren, JsMap.has_delete] at marked
    exact ⟨listed ▸ found, marked.2⟩
  · intro ⟨found, marked⟩
    refine ⟨listed ▸ found, ?_⟩
    rw [rebuildParent, settleExpansion_orderedChildren, JsMap.has_delete]
    exact ⟨other, marked⟩

theorem authoritative_rebuild (parents : List Int) (state : MirrorWorking) :
    Authoritative (parents.foldl (rebuildParent msg) state) parentId list ↔
      Authoritative state parentId list ∧ parentId ∉ parents := by
  induction parents generalizing state with
  | nil => simp
  | cons first rest ih =>
    rw [List.foldl_cons, ih, List.mem_cons, not_or]
    by_cases here : first = parentId
    · subst here
      simp [not_authoritative_rebuildParent]
    · rw [authoritative_rebuildParent here]
      simp [Ne.symm here]

theorem authoritative_finish :
    Authoritative (finish json msg state) parentId list ↔ Authoritative state parentId list :=
  authoritative_congr rfl rfl

end Stages

section Marks

/-- What an entry that arrives says about a parent: `true` when it is one of its children. -/
def ChildOf (parentId : Int) (e : ClientEntry) : Prop := e.parentId = some parentId

/-- The arrivals that mark a parent, by the record that was held. -/
def Marks (viewportIds : JsSet Int) (parentId : Int) (prev : Option ClientEntry) (e : ClientEntry) : Prop :=
  match prev with
  | some prev => ¬(ChildOf parentId prev ↔ ChildOf parentId e)
  | none => viewportIds.has e.id = false ∧ ChildOf parentId e

theorem has_markParent {parents : JsSet Int} {named : Option Int} :
    (markParent parents named).has parentId = true ↔ named = some parentId ∨ parents.has parentId = true := by
  cases named with
  | none => simp [markParent]
  | some other => simp [markParent, JsMap.has_add]

theorem has_markMoved {parents : JsSet Int} {prev : Option ClientEntry} {e : ClientEntry} :
    (markMoved viewportIds parents prev e).has parentId = true ↔
      parents.has parentId = true ∨ Marks viewportIds parentId prev e := by
  cases prev with
  | none =>
    cases pinned : viewportIds.has e.id with
    | true => simp [markMoved, Marks, pinned]
    | false => simp [markMoved, Marks, ChildOf, pinned, has_markParent, or_comm]
  | some prev =>
    by_cases same : prev.parentId = e.parentId
    · simp [markMoved, Marks, ChildOf, same]
    · have apart : ¬(prev.parentId = some parentId ∧ e.parentId = some parentId) := fun both =>
        same (both.1.trans both.2.symm)
      simp only [markMoved, Marks, ChildOf, ne_eq, same, not_false_eq_true, if_true, has_markParent]
      tauto

/-- Arrivals of one id agree on whether it is a child of the parent. -/
def Consistent (parentId : Int) (entries : List ClientEntry) : Prop :=
  ∀ e ∈ entries, ∀ later ∈ entries, e.id = later.id → (ChildOf parentId e ↔ ChildOf parentId later)

theorem marks_congr {prev : Option ClientEntry} {e later : ClientEntry} (same : e.id = later.id)
    (agree : ChildOf parentId e ↔ ChildOf parentId later) :
    Marks viewportIds parentId prev e ↔ Marks viewportIds parentId prev later := by
  cases prev with
  | none => rw [Marks, Marks, same, agree]
  | some prev => rw [Marks, Marks, agree]

/-- The entries mark a parent by the records held at first: an id that arrives again is held
by then as it is. -/
theorem has_mergeEntries (consistent : Consistent parentId entries) (merge : Merge) :
    (entries.foldl (mergeEntry viewportIds) merge).parentsToRebuild.has parentId = true ↔
      merge.parentsToRebuild.has parentId = true ∨
        ∃ e ∈ entries, Marks viewportIds parentId (merge.next.byId.get e.id) e := by
  induction entries generalizing merge with
  | nil => simp
  | cons e rest ih =>
    have among : Consistent parentId rest := fun first one second two =>
      consistent first (List.mem_cons_of_mem e one) second (List.mem_cons_of_mem e two)
    have held (later : ClientEntry) : (mergeEntry viewportIds merge e).next.byId.get later.id =
        if e.id = later.id then some e else merge.next.byId.get later.id := by
      rw [mergeEntry, touch_byId, EntriesById.get_set]
    have marks : (mergeEntry viewportIds merge e).parentsToRebuild.has parentId = true ↔
        merge.parentsToRebuild.has parentId = true ∨ Marks viewportIds parentId (merge.next.byId.get e.id) e :=
      has_markMoved
    rw [List.foldl_cons, ih among, marks, or_assoc]
    apply or_congr_right
    constructor
    · rintro (here | ⟨later, member, marked⟩)
      · exact ⟨e, List.mem_cons_self, here⟩
      · rw [held] at marked
        by_cases same : e.id = later.id
        · have agree := consistent e List.mem_cons_self later (List.mem_cons_of_mem e member) same
          rw [if_pos same] at marked
          exact absurd agree marked
        · rw [if_neg same] at marked
          exact ⟨later, List.mem_cons_of_mem e member, marked⟩
    · rintro ⟨later, member, marked⟩
      by_cases same : e.id = later.id
      · have agree := consistent e List.mem_cons_self later member same
        rw [← same] at marked
        exact .inl ((marks_congr same agree).mpr marked)
      · rcases List.mem_cons.mp member with rfl | further
        · exact absurd rfl same
        · refine .inr ⟨later, further, ?_⟩
          rw [held, if_neg same]
          exact marked

theorem mergeEntries_byId (merge : Merge) (id : Int) :
    (∃ e ∈ entries, e.id = id ∧ (entries.foldl (mergeEntry viewportIds) merge).next.byId.get id = some e) ∨
      (∀ e ∈ entries, e.id ≠ id) ∧
        (entries.foldl (mergeEntry viewportIds) merge).next.byId.get id = merge.next.byId.get id := by
  induction entries generalizing merge with
  | nil => simp
  | cons e rest ih =>
    rw [List.foldl_cons]
    rcases ih (mergeEntry viewportIds merge e) with ⟨later, member, same, found⟩ | ⟨others, found⟩
    · exact .inl ⟨later, List.mem_cons_of_mem e member, same, found⟩
    · rw [found, mergeEntry, touch_byId, EntriesById.get_set]
      by_cases same : e.id = id
      · exact .inl ⟨e, List.mem_cons_self, same, if_pos same⟩
      · exact .inr ⟨List.forall_mem_cons.mpr ⟨same, others⟩, if_neg same⟩

theorem authoritative_mergeEntries (merge : Merge) :
    Authoritative (entries.foldl (mergeEntry viewportIds) merge).next parentId list ↔
      Authoritative merge.next parentId list := by
  induction entries generalizing merge with
  | nil => rfl
  | cons e rest ih =>
    rw [List.foldl_cons, ih]
    exact authoritative_congr touch_children touch_orderedChildren

/-- The removals mark the parents of the records that are held. -/
theorem has_removeIds (removed : List Int) (merge : Merge) :
    (removed.foldl removeId merge).parentsToRebuild.has parentId = true ↔
      merge.parentsToRebuild.has parentId = true ∨
        ∃ id ∈ removed, ∃ prev, merge.next.byId.get id = some prev ∧ ChildOf parentId prev := by
  induction removed generalizing merge with
  | nil => simp
  | cons id rest ih =>
    have held (later : Int) : (removeId merge id).next.byId.get later =
        if id = later then none else merge.next.byId.get later := EntriesById.get_delete
    have marked : (removeId merge id).parentsToRebuild.has parentId = true ↔
        (∃ prev, merge.next.byId.get id = some prev ∧ ChildOf parentId prev) ∨
          merge.parentsToRebuild.has parentId = true := by
      rw [removeId, has_markParent, Option.bind_eq_some_iff]
      rfl
    rw [List.foldl_cons, ih, marked]
    constructor
    · rintro ((⟨prev, found, child⟩ | known) | ⟨later, member, prev, found, child⟩)
      · exact .inr ⟨id, List.mem_cons_self, prev, found, child⟩
      · exact .inl known
      · rw [held] at found
        split at found
        · cases found
        · exact .inr ⟨later, List.mem_cons_of_mem id member, prev, found, child⟩
    · rintro (known | ⟨later, member, prev, found, child⟩)
      · exact .inl (.inr known)
      · by_cases same : id = later
        · subst same
          exact .inl (.inl ⟨prev, found, child⟩)
        · rcases List.mem_cons.mp member with rfl | further
          · exact absurd rfl same
          · exact .inr ⟨later, further, prev, by rw [held, if_neg same, found], child⟩

theorem authoritative_removeIds (removed : List Int) (spared : parentId ∉ removed) (merge : Merge) :
    Authoritative (removed.foldl removeId merge).next parentId list ↔
      Authoritative merge.next parentId list := by
  induction removed generalizing merge with
  | nil => rfl
  | cons id rest ih =>
    rw [List.mem_cons, not_or] at spared
    rw [List.foldl_cons, ih spared.2]
    exact authoritative_dropped rfl rfl (Ne.symm spared.1)

end Marks

section Eviction

/-- An id whose record was held before the eviction is held after it. -/
def Survives (before after : MirrorWorking) (id : Int) : Prop :=
  (before.byId.get id).isSome = true → (after.byId.get id).isSome = true

theorem evictLoop_cases (toEvict : Nat) (victims : List Candidate) (state : MirrorWorking) :
    (Authoritative state parentId list → Authoritative (evictLoop toEvict victims state) parentId list) ∧
        ((evictLoop toEvict victims state).byId.get parentId = state.byId.get parentId) ∨
      (∃ victim ∈ victims, victim.id = parentId) ∧ (evictLoop toEvict victims state).byId.get parentId = none := by
  induction victims generalizing toEvict state with
  | nil => cases toEvict <;> exact .inl ⟨id, rfl⟩
  | cons victim rest ih =>
    cases toEvict with
    | zero => exact .inl ⟨id, rfl⟩
    | succ toEvict =>
      rw [evictLoop]
      have gone : (state.evict victim.id).byId.get parentId =
          if victim.id = parentId then none else state.byId.get parentId := EntriesById.get_delete
      rcases ih toEvict (state.evict victim.id) with ⟨kept, held⟩ | ⟨⟨other, member, same⟩, absent⟩
      · rw [held, gone]
        by_cases here : victim.id = parentId
        · exact .inr ⟨⟨victim, List.mem_cons_self, here⟩, if_pos here⟩
        · have dropped := @authoritative_dropped state (state.evict victim.id) parentId victim.id list rfl rfl here
          exact .inl ⟨fun owned => kept (dropped.mpr owned), if_neg here⟩
      · exact .inr ⟨⟨other, List.mem_cons_of_mem victim member, same⟩, absent⟩

theorem authoritative_evictToCap {cap : Nat} {activeIds : JsSet Int} (owned : Authoritative state parentId list)
    (survives : Survives state (state.evictToCap cap activeIds) parentId) :
    Authoritative (state.evictToCap cap activeIds) parentId list := by
  unfold evictToCap at survives ⊢
  split
  · exact owned
  · next large =>
    rw [if_neg large] at survives
    rcases @evictLoop_cases parentId list (state.byId.size - cap) ((state.candidates activeIds).mergeSort Candidate.le)
      state with ⟨kept, _⟩ | ⟨⟨victim, member, same⟩, absent⟩
    · exact kept owned
    · -- only held ids are candidates
      have candidate := (List.mergeSort_perm _ _).mem_iff.mp member
      obtain ⟨id, listed, rfl⟩ := List.mem_map.mp candidate
      have held := JsMap.mem_keys.mp (List.mem_filter.mp listed).1
      have after := survives (same ▸ held)
      rw [absent] at after
      cases after

end Eviction

section Keeps

/-- A parent no part of the delta speaks about. -/
structure Unnamed (msg : InboundDelta) (parentId : Int) : Prop where
  childSet : parentId ∉ msg.childSetChanged.getD []
  coarse : parentId ∉ msg.coarseSubtrees
  lists : ∀ lists, incomingChildLists msg = .ok lists → parentId ∉ lists.map Prod.fst
  removed : parentId ∉ msg.removedIds

/-- The arrivals and removals agree with a list: the parent's children among the arrivals are on
it, and nothing on it leaves. -/
structure Agrees (msg : InboundDelta) (entries : List ClientEntry) (parentId : Int) (list : List Int) : Prop where
  listed : ∀ e ∈ entries, e.parentId = some parentId → e.id ∈ list
  stays : ∀ e ∈ entries, e.id ∈ list → e.parentId = some parentId
  kept : ∀ id ∈ list, id ∉ msg.removedIds

/-- No record counts as a new or a lost child: what arrives is held as a child of the same
parent, or pinned when it is not held, and no removed record is held as a child. -/
structure Settled (state : MirrorWorking) (msg : InboundDelta) (entries : List ClientEntry) (parentId : Int) :
    Prop where
  held : ∀ e ∈ entries, ∀ prev, state.byId.get e.id = some prev →
    (prev.parentId = some parentId ↔ e.parentId = some parentId)
  pinned : ∀ e ∈ entries, state.byId.get e.id = none → e.parentId = some parentId →
    e.id ∈ msg.viewportIds.getD []
  removed : ∀ id ∈ msg.removedIds, ∀ prev, state.byId.get id = some prev → prev.parentId ≠ some parentId

theorem not_has_announcedParents {lists : List (Int × List Int)} (unnamed : Unnamed msg parentId) :
    (announcedParents msg lists).has parentId ≠ true := by
  intro announced
  rw [announcedParents, JsMap.has_foldl_delete, JsMap.has_ofList] at announced
  exact unnamed.childSet announced.2

theorem Agrees.consistent (agrees : Agrees msg entries parentId list) : Consistent parentId entries := by
  have child (e : ClientEntry) (member : e ∈ entries) : ChildOf parentId e ↔ e.id ∈ list :=
    ⟨agrees.listed e member, agrees.stays e member⟩
  intro e member later further same
  rw [child e member, child later further, same]

/-- What the marks come to, in terms of the old records. -/
theorem settled_iff (agrees : Agrees msg entries parentId list) (merge : Merge)
    (start : merge.next.byId = state.byId)
    (viewport : viewportIds = JsMap.ofList (msg.viewportIds.getD [])) :
    ((∃ e ∈ entries, Marks viewportIds parentId (state.byId.get e.id) e) ∨
      ∃ id ∈ msg.removedIds, ∃ prev,
        (entries.foldl (mergeEntry viewportIds) merge).next.byId.get id = some prev ∧ ChildOf parentId prev) ↔
      ¬Settled state msg entries parentId := by
  have pins (id : Int) : viewportIds.has id = false ↔ id ∉ msg.viewportIds.getD [] := by
    rw [viewport, ← Bool.not_eq_true, JsMap.has_ofList]
  constructor
  · rintro (⟨e, member, marked⟩ | ⟨id, member, prev, found, child⟩) settled
    · cases found : state.byId.get e.id with
      | none =>
        rw [found, Marks, pins] at marked
        exact marked.1 (settled.pinned e member found marked.2)
      | some prev =>
        rw [found, Marks] at marked
        exact marked (settled.held e member prev found)
    · rcases @mergeEntries_byId entries viewportIds merge id with ⟨e, arrived, same, last⟩ | ⟨_, old⟩
      · -- a removed id that has just arrived is not on the list
        rw [last] at found
        cases found
        exact agrees.kept prev.id (agrees.listed prev arrived child) (same ▸ member)
      · rw [old, start] at found
        exact settled.removed id member prev found child
  · intro unsettled
    by_contra quiet
    rw [not_or] at quiet
    obtain ⟨unmarked, unremoved⟩ := quiet
    have held : ∀ e ∈ entries, ∀ prev, state.byId.get e.id = some prev →
        (prev.parentId = some parentId ↔ e.parentId = some parentId) := by
      intro e member prev found
      by_contra moved
      exact unmarked ⟨e, member, by rw [found]; exact moved⟩
    refine unsettled ⟨held, ?_, ?_⟩
    · intro e member absent child
      by_contra unpinned
      exact unmarked ⟨e, member, by rw [absent]; exact ⟨(pins e.id).mpr unpinned, child⟩⟩
    · intro id member prev found child
      rcases @mergeEntries_byId entries viewportIds merge id with ⟨e, arrived, same, _⟩ | ⟨_, old⟩
      · have stays := (held e arrived prev (same ▸ found)).mp child
        exact agrees.kept e.id (agrees.listed e arrived stays) (same ▸ member)
      · exact unremoved ⟨id, member, prev, by rw [old, start, found], child⟩

theorem authoritative_mergeDelta {merged : MirrorWorking} (owned : Authoritative state parentId list)
    (unnamed : Unnamed msg parentId) (decoded : decodeDeltaEntryPayload json msg = .ok entries)
    (agrees : Agrees msg entries parentId list) (merges : mergeDelta json msg state = .ok merged) :
    Authoritative merged parentId list ↔ Settled state msg entries parentId := by
  obtain ⟨lists, incoming⟩ : ∃ lists, incomingChildLists msg = .ok lists := by
    cases incoming : incomingChildLists msg with
    | error fault =>
      rw [mergeDelta, incoming] at merges
      cases merges
    | ok lists => exact ⟨lists, rfl⟩
  rw [mergeDelta, incoming, decoded] at merges
  cases merges
  rw [authoritative_finish, @authoritative_foldl parentId list _ _ Prod.fst
    (fun state incoming => authoritative_installChildList) lists (unnamed.lists lists incoming),
    authoritative_rebuild, authoritative_removeIds _ unnamed.removed, authoritative_mergeEntries, JsMap.mem_keys, authoritative_noteArrivals, authoritative_prepare unnamed.coarse,
    has_removeIds, has_mergeEntries agrees.consistent, or_assoc, noteArrivals_byId, prepare_byId]
  have start : (noteArrivals entries lists (prepare msg state)).byId = state.byId :=
    noteArrivals_byId.trans prepare_byId
  have marks := settled_iff agrees ⟨noteArrivals entries lists (prepare msg state), announcedParents msg lists⟩ start rfl
  rw [marks]
  have fresh : ¬(announcedParents msg lists).has parentId = true := not_has_announcedParents unnamed
  tauto

/-- What a delta leaves of a list: all of it and its mark, before the eviction and after one that
spares the parent. -/
structure Keeps (json : JsonParse) (msg : InboundDelta) (state merged : MirrorWorking) (parentId : Int)
    (list : List Int) : Prop where
  before : Authoritative merged parentId list
  after : ∀ mirrorCap next, applyDelta json msg state mirrorCap = .ok next → Survives merged next parentId →
    Authoritative next parentId list

/-- A delta that does not speak about a parent keeps the host's list of its children exactly when
no record counts as a new or a lost child. -/
theorem keepsList_iff {merged : MirrorWorking} (owned : Authoritative state parentId list)
    (unnamed : Unnamed msg parentId) (decoded : decodeDeltaEntryPayload json msg = .ok entries)
    (agrees : Agrees msg entries parentId list) (merges : mergeDelta json msg state = .ok merged) :
    Keeps json msg state merged parentId list ↔ Settled state msg entries parentId := by
  have before := authoritative_mergeDelta owned unnamed decoded agrees merges
  constructor
  · intro keeps
    exact before.mp keeps.before
  · intro settled
    refine ⟨before.mpr settled, ?_⟩
    intro mirrorCap next applies survives
    rw [applyDelta, merges] at applies
    cases applies
    exact authoritative_evictToCap (before.mpr settled) survives

end Keeps

section Examples

/-- A folder whose list of two children the host has sent, and neither is held any more. -/
def scrolledAway : MirrorWorking :=
  { createMirror with
    byId := EntriesById.empty.set ⟨1, none, ['d'], 1, 0, 0, 0, none, none, false, false, false⟩
    children := JsMap.empty.set 1 [2, 3]
    orderedChildren := .ofList [1]
    roots := [1] }

/-- A delta with the first child's record. -/
def hydration (viewportIds : Option (List Int)) : InboundDelta where
  version := 1
  addedRows := some [1, 2, 1, 1, 1, 97, 0, 0, 0, 0, 0, 0, 0, 0, 0]
  viewportPatch := none
  entriesJson := none
  childSetChanged := none
  removedIds := []
  directChildCounts := .empty
  childLists := none
  childListsBin := none
  coarseSubtrees := []
  subtreeDirty := []
  subtreeResynced := []
  visibility := none
  decorationChangedIds := none
  decorationsJson := none
  roots := none
  viewportIds := viewportIds

def noJson : JsonParse := ⟨fun _ => none, fun _ => none⟩

def firstChild : ClientEntry := ⟨2, some 1, ['a'], 0, 0, 0, 0, none, none, false, false, false⟩

theorem owned_scrolledAway : Authoritative scrolledAway 1 [2, 3] := ⟨rfl, rfl⟩

theorem unnamed_hydration (viewportIds : Option (List Int)) : Unnamed (hydration viewportIds) 1 where
  childSet := List.not_mem_nil
  coarse := List.not_mem_nil
  lists := by
    intro lists incoming
    cases incoming
    exact List.not_mem_nil
  removed := List.not_mem_nil

theorem agrees_hydration (viewportIds : Option (List Int)) : Agrees (hydration viewportIds) [firstChild] 1 [2, 3] where
  listed := by simp [firstChild]
  stays := by simp [firstChild]
  kept := by simp [hydration]

/-- A pinned row is only hydrated. -/
theorem keepsList_iff_pinned : ∃ merged, mergeDelta noJson (hydration (some [2])) scrolledAway = .ok merged ∧
    (Keeps noJson (hydration (some [2])) scrolledAway merged 1 [2, 3] ↔
      Settled scrolledAway (hydration (some [2])) [firstChild] 1) :=
  ⟨_, rfl, keepsList_iff owned_scrolledAway (unnamed_hydration _) rfl (agrees_hydration _) rfl⟩

/-- A record that comes back outside the pins cuts the list down to the records that are held. -/
theorem hydration_truncates : Authoritative scrolledAway 1 [2, 3] ∧ Unnamed (hydration none) 1 ∧
    decodeDeltaEntryPayload noJson (hydration none) = .ok [firstChild] ∧
    Agrees (hydration none) [firstChild] 1 [2, 3] ∧
    ∃ merged, mergeDelta noJson (hydration none) scrolledAway = .ok merged ∧
      merged.children.get 1 = some [2] ∧ merged.orderedChildren.has 1 = false ∧
      ¬Keeps noJson (hydration none) scrolledAway merged 1 [2, 3] := by
  refine ⟨owned_scrolledAway, unnamed_hydration none, rfl, agrees_hydration none, _, rfl, rfl, rfl, ?_⟩
  intro keeps
  cases keeps.before.ordered

end Examples

end Mille.MirrorWorking
