import Mille.Core.NestingPlan
import Mille.Core.StoreLists

/-! Whether an entry can be expanded: the snapshot's own answer, and the flag on its row. -/

namespace Mille

namespace StoreSnapshot

def hasChildren (snapshot : StoreSnapshot) (toLowercase : String → String) (id : EntryId) : Bool :=
  if !snapshot.fileNesting.isEmpty then
    (ProjectionContext.mk snapshot false toLowercase).hasChildren id
  else
    match snapshot.children[id]? with
    | some kids => kids.any fun childId => snapshot.entries[childId]?.any snapshot.visibility.includes
    | none =>
      -- an unlisted folder, or a link to one
      match snapshot.entries[id]? with
      | some entry => !snapshot.directoryChildrenLoaded id && entry.isFolder
      | none => false

variable {snapshot : StoreSnapshot} {toLowercase : String → String} {id : EntryId} {entry : Entry}

/-- Some known child is shown. -/
def ShowsChild (snapshot : StoreSnapshot) (id : EntryId) : Prop :=
  ∃ childId ∈ snapshot.childrenOf id, snapshot.entries[childId]?.any snapshot.visibility.includes = true

/-- An entry that can be listed has not been listed to the end. -/
def Unlisted (snapshot : StoreSnapshot) (id : EntryId) (entry : Entry) : Prop :=
  snapshot.directoryChildrenLoaded id = false ∧ entry.isFolder = true

/-- Without nested files, a recorded child list shows a child or is complete; one recorded
for a file shows a child exactly when that file still awaits a listing. -/
def ListsTell (snapshot : StoreSnapshot) (id : EntryId) (entry : Entry) : Prop :=
  snapshot.fileNesting.isEmpty = true → (snapshot.children[id]?).isSome = true →
    (entry.kind = .file → (snapshot.ShowsChild id ↔ snapshot.Unlisted id entry)) ∧
    (entry.kind ≠ .file → snapshot.ShowsChild id ∨ ¬snapshot.Unlisted id entry)

theorem plan_of_isEmpty (plain : snapshot.fileNesting.isEmpty = true) (includeIgnored : Bool) :
    (ProjectionContext.mk snapshot includeIgnored toLowercase).plan id =
      ⟨(ProjectionContext.mk snapshot includeIgnored toLowercase).visibleChildren id, ∅⟩ := by
  rw [ProjectionContext.plan]
  simp [plain]

theorem visibleChildren_ne_nil : (ProjectionContext.mk snapshot false toLowercase).visibleChildren id ≠ [] ↔
    snapshot.ShowsChild id := by
  have shows : snapshot.shows false = snapshot.visibility.includes := by
    funext entry
    simp [StoreSnapshot.shows]
  rw [ProjectionContext.visibleChildren, shown, shows, ne_eq, List.filter_eq_nil_iff]
  simp [ShowsChild]

theorem row_hasChildren_iff (plain : snapshot.fileNesting.isEmpty = true) (live : snapshot.entries[id]? = some entry) :
    (ProjectionContext.mk snapshot false toLowercase).hasChildren id = true ↔
      entry.kind ≠ .file ∧ snapshot.ShowsChild id ∨ snapshot.Unlisted id entry := by
  have waits : (ProjectionContext.mk snapshot false toLowercase).awaitsListing id = true ↔
      snapshot.Unlisted id entry := by
    simp [ProjectionContext.awaitsListing, live, Unlisted]
  have children : (ProjectionContext.mk snapshot false toLowercase).childrenOf id ≠ [] ↔
      entry.kind ≠ .file ∧ snapshot.ShowsChild id := by
    simp only [ProjectionContext.childrenOf, live]
    by_cases file : entry.kind = .file
    · rw [if_pos file]
      cases entry.parentId with
      | none => simp [file]
      | some parentId => simp [plan_of_isEmpty plain, file]
    · rw [if_neg file, plan_of_isEmpty plain, ← @visibleChildren_ne_nil snapshot toLowercase id]
      simp [file]
  rw [ProjectionContext.hasChildren, Bool.or_eq_true, waits, ← children]
  simp

theorem hasChildren_iff (plain : snapshot.fileNesting.isEmpty = true) (live : snapshot.entries[id]? = some entry) :
    snapshot.hasChildren toLowercase id = true ↔
      if (snapshot.children[id]?).isSome = true then snapshot.ShowsChild id else snapshot.Unlisted id entry := by
  rw [hasChildren]
  simp only [plain]
  cases listed : snapshot.children[id]? with
  | none => simp [live, Unlisted]
  | some kids => simp [ShowsChild, childrenOf_eq, listed]

/-- The snapshot answers as the row does exactly when the lists tell. -/
theorem hasChildren_agrees_iff (toLowercase : String → String) (snapshot : StoreSnapshot) {id : EntryId}
    {entry : Entry} (live : snapshot.entries[id]? = some entry) :
    snapshot.hasChildren toLowercase id = (ProjectionContext.mk snapshot false toLowercase).hasChildren id ↔
      snapshot.ListsTell id entry := by
  rw [Bool.eq_iff_iff]
  by_cases plain : snapshot.fileNesting.isEmpty = true
  · rw [hasChildren_iff plain live, row_hasChildren_iff plain live]
    by_cases listed : (snapshot.children[id]?).isSome = true
    · rw [if_pos listed]
      simp only [ListsTell, plain, listed, forall_true_left]
      tauto
    · have none_shown : ¬snapshot.ShowsChild id := by
        rintro ⟨childId, member, _⟩
        rw [childrenOf_eq, Option.not_isSome_iff_eq_none.mp listed] at member
        cases member
      rw [if_neg listed]
      simp only [ListsTell, listed]
      tauto
  · rw [hasChildren, if_pos (by simpa using plain)]
    simp only [ListsTell, plain]
    tauto

end StoreSnapshot

namespace EntryStore

/-- A folder below a root, with a file in it. -/
def partlyListed : EntryStore :=
  (new.edit (.op (.insert (Path.ofNames ["r"])
    ⟨0, none, "r", .directory, 0, 0, 0, none, none, false, false, false, false⟩))).edit
    (.op (.insert (Path.ofNames ["r", "a"])
      ⟨0, some 0, "a", .file, 0, 0, 0, none, none, false, false, false, false⟩))

theorem partlyListed_reached : Run edit (fun _ _ => True) new partlyListed :=
  (Run.start.step _ trivial).step _ trivial

/-- The folder shows its only known file. -/
theorem hasChildren_agrees_partlyListed : partlyListed.inner.hasChildren String.toLower 0 =
      (ProjectionContext.mk partlyListed.inner false String.toLower).hasChildren 0 ↔
    partlyListed.inner.ListsTell 0 ⟨0, none, "r", .directory, 0, 0, 0, none, none, false, false, false, false⟩ :=
  StoreSnapshot.hasChildren_agrees_iff String.toLower partlyListed.inner (by decide)

/-- Once that file is gone, the folder that was never listed has no children for the snapshot, and
may have some on its row. -/
theorem emptied_list_hides_chevron :
    Run edit (fun _ _ => True) new (partlyListed.edit (.op (.removeSubtree 1))) ∧
      (partlyListed.edit (.op (.removeSubtree 1))).inner.entries[(0 : EntryId)]?.isSome = true ∧
      (partlyListed.edit (.op (.removeSubtree 1))).inner.hasChildren String.toLower 0 = false ∧
      (ProjectionContext.mk (partlyListed.edit (.op (.removeSubtree 1))).inner false String.toLower).hasChildren 0 = true :=
  ⟨partlyListed_reached.step _ trivial, by decide, by decide, by decide⟩

end EntryStore

end Mille
