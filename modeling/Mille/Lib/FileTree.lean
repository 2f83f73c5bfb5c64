import Mathlib

/-! File trees as what stands at each path, with the operations of a file system on
them: looking up, listing, making, removing and moving whole subtrees. -/

namespace Mille.FileTree

variable {ν κ : Type}

/-- What stands at a path; `κ` is the content of a regular file. -/
inductive Node (ν κ : Type) where
  | file (content : κ)
  | directory
  | symlink (target : List ν)
  | special
  deriving DecidableEq

/-- What a tree shows at each path from its root. -/
abbrev View (ν κ : Type) := List ν → Option (Node ν κ)

namespace View

/-- Nothing anywhere. -/
def empty : View ν κ := fun _ => none

@[simp] theorem empty_apply (path : List ν) : (empty : View ν κ) path = none := rfl

/-- One node with nothing under it. -/
def single (node : Node ν κ) : View ν κ
  | [] => some node
  | _ :: _ => none

/-- The subtree at a path. -/
def under (view : View ν κ) (base : List ν) : View ν κ := fun rest => view (base ++ rest)

/-- Only directories have something under them. -/
def Closed (view : View ν κ) : Prop :=
  ∀ path name, view (path ++ [name]) ≠ none → view path = some .directory

@[simp] theorem under_nil (view : View ν κ) : view.under [] = view := rfl

@[simp] theorem under_apply (view : View ν κ) (base rest : List ν) :
    view.under base rest = view (base ++ rest) := rfl

theorem under_under (view : View ν κ) (base rest : List ν) :
    (view.under base).under rest = view.under (base ++ rest) := by
  funext path
  simp [under]

theorem Closed.under {view : View ν κ} (closed : view.Closed) (base : List ν) : (view.under base).Closed := by
  intro path name there
  apply closed (base ++ path) name
  simpa [View.under] using there

theorem Closed.root {view : View ν κ} (closed : view.Closed) {path rest : List ν} {name : ν}
    (there : view (path ++ name :: rest) ≠ none) : view path = some .directory := by
  induction rest using List.reverseRecOn with
  | nil => exact closed path name there
  | append_singleton rest last ih =>
    apply ih
    have parent := closed (path ++ name :: rest) last (by simpa using there)
    simp [parent]

theorem Closed.eq_single {view : View ν κ} (closed : view.Closed) {node : Node ν κ}
    (root : view [] = some node) (leaf : node ≠ .directory) : view = single node := by
  funext path
  cases path with
  | nil => exact root
  | cons name rest =>
    by_contra there
    have directory := closed.root (show view ([] ++ name :: rest) ≠ none from there)
    rw [root] at directory
    exact leaf (Option.some.inj directory)

theorem Closed.eq_empty {view : View ν κ} (closed : view.Closed) (root : view [] = none) :
    view = empty := by
  funext path
  cases path with
  | nil => exact root
  | cons name rest =>
    by_contra there
    have directory := closed.root (show view ([] ++ name :: rest) ≠ none from there)
    rw [root] at directory
    cases directory

variable [DecidableEq ν]

/-- The tree with the subtree at a path replaced. -/
def paste (view : View ν κ) (base : List ν) (tree : View ν κ) : View ν κ := fun path =>
  if base <+: path then tree (path.drop base.length) else view path

/-- The tree with the subtree at a child replaced. -/
def graft (view : View ν κ) (name : ν) (tree : View ν κ) : View ν κ
  | [] => view []
  | first :: rest => if first = name then tree rest else view (first :: rest)

theorem paste_at (view tree : View ν κ) (base rest : List ν) :
    view.paste base tree (base ++ rest) = tree rest := by
  simp [paste]

theorem paste_off (view tree : View ν κ) {base path : List ν} (off : ¬base <+: path) :
    view.paste base tree path = view path := by
  simp [paste, off]

@[simp] theorem under_paste (view tree : View ν κ) (base : List ν) :
    (view.paste base tree).under base = tree := by
  funext rest
  exact paste_at view tree base rest

/-- Two paths of which neither contains the other. -/
def Apart (left right : List ν) : Prop := ¬left <+: right ∧ ¬right <+: left

omit [DecidableEq ν] in
theorem Apart.symm {left right : List ν} (apart : Apart left right) : Apart right left :=
  ⟨apart.2, apart.1⟩

omit [DecidableEq ν] in
theorem Apart.append {left right : List ν} (apart : Apart left right) (more other : List ν) :
    Apart (left ++ more) (right ++ other) := by
  constructor
  · intro inside
    have both : left <+: right ++ other := (List.prefix_append left more).trans inside
    rcases List.prefix_or_prefix_of_prefix both (List.prefix_append right other) with one | one
    · exact apart.1 one
    · exact apart.2 one
  · intro inside
    have both : right <+: left ++ more := (List.prefix_append right other).trans inside
    rcases List.prefix_or_prefix_of_prefix both (List.prefix_append left more) with one | one
    · exact apart.2 one
    · exact apart.1 one

theorem under_paste_apart (view tree : View ν κ) {base other : List ν} (apart : Apart base other) :
    (view.paste base tree).under other = view.under other := by
  funext rest
  apply paste_off
  intro inside
  exact (apart.append [] rest).1 (by simpa using inside)

@[simp] theorem paste_paste (view first second : View ν κ) (base : List ν) :
    (view.paste base first).paste base second = view.paste base second := by
  funext path
  by_cases inside : base <+: path <;> simp [paste, inside]

theorem paste_comm (view first second : View ν κ) {base other : List ν} (apart : Apart base other) :
    (view.paste base first).paste other second = (view.paste other second).paste base first := by
  funext path
  by_cases inside : base <+: path
  · have outside : ¬other <+: path := by
      intro both
      rcases List.prefix_or_prefix_of_prefix inside both with one | one
      · exact apart.1 one
      · exact apart.2 one
    simp [paste, inside, outside]
  · by_cases second_inside : other <+: path <;> simp [paste, inside, second_inside]

@[simp] theorem paste_under (view : View ν κ) (base : List ν) : view.paste base (view.under base) = view := by
  funext path
  by_cases inside : base <+: path
  · obtain ⟨rest, rfl⟩ := inside
    exact paste_at view _ base rest
  · exact paste_off view _ inside

theorem paste_child (view tree child : View ν κ) (base : List ν) (name : ν) :
    (view.paste base tree).paste (base ++ [name]) child = view.paste base (tree.graft name child) := by
  funext path
  by_cases inside : base <+: path
  · obtain ⟨rest, rfl⟩ := inside
    rw [paste_at]
    cases rest with
    | nil =>
      have longer : ¬base ++ [name] <+: base ++ [] := fun inside => by
        simpa using inside.length_le
      rw [paste_off _ _ longer, paste_at]
      rfl
    | cons first rest =>
      by_cases same : first = name
      · subst same
        have split : base ++ first :: rest = (base ++ [first]) ++ rest := by simp
        rw [split, paste_at]
        simp [graft]
      · rw [paste_off, paste_at]
        · simp [graft, same]
        · simpa using fun same' => same same'.symm
  · rw [paste_off, paste_off _ _ inside, paste_off _ _ inside]
    exact fun both => inside ((List.prefix_append base [name]).trans both)

theorem update_eq_paste (view : View ν κ) (base : List ν) (node : Node ν κ)
    (bare : ∀ name rest, view (base ++ name :: rest) = none) :
    Function.update view base (some node) = view.paste base (single node) := by
  funext path
  by_cases same : path = base
  · subst same
    simp [paste, single]
  · rw [Function.update_of_ne same]
    by_cases inside : base <+: path
    · obtain ⟨rest, rfl⟩ := inside
      rw [paste_at]
      cases rest with
      | nil => simp at same
      | cons name rest => exact bare name rest
    · rw [paste_off _ _ inside]

/-- Whether the root is a directory. -/
def isDir (view : View ν κ) : Bool :=
  match view [] with
  | some .directory => true
  | _ => false

omit [DecidableEq ν] in
theorem isDir_iff {view : View ν κ} : view.isDir = true ↔ view [] = some .directory := by
  unfold isDir
  split <;> simp_all

/-- One tree over another: of two directories the union of their names, with common names
overlaid in turn; of any other pair the first. -/
def overlay (top bottom : View ν κ) : List ν → Option (Node ν κ)
  | [] => top []
  | name :: rest =>
    if top.isDir && bottom.isDir then
      if (top [name]).isNone then bottom (name :: rest)
      else overlay (top.under [name]) (bottom.under [name]) rest
    else top (name :: rest)

/-- The lower tree with the named children overlaid. -/
def blend (top bottom : View ν κ) (names : List ν) : View ν κ
  | [] => bottom []
  | name :: rest =>
    if name ∈ names then overlay (top.under [name]) (bottom.under [name]) rest
    else bottom (name :: rest)

omit [DecidableEq ν] in
theorem overlay_of_not_both {top bottom : View ν κ} (other : (top.isDir && bottom.isDir) = false) :
    overlay top bottom = top := by
  funext path
  cases path with
  | nil => rfl
  | cons name rest => simp [overlay, other]

theorem blend_nil (top bottom : View ν κ) : blend top bottom [] = bottom := by
  funext path
  cases path <;> simp [blend]

theorem graft_blend (top bottom : View ν κ) (names : List ν) (name : ν) :
    (blend top bottom names).graft name (overlay (top.under [name]) (bottom.under [name])) =
      blend top bottom (names ++ [name]) := by
  funext path
  cases path with
  | nil => rfl
  | cons first rest =>
    by_cases same : first = name
    · subst same
      simp [graft, blend]
    · simp [graft, blend, same]

theorem blend_all {top bottom : View ν κ} {names : List ν} (upper : top.isDir = true)
    (lower : bottom.isDir = true) (all : ∀ name, name ∈ names ↔ top [name] ≠ none) :
    blend top bottom names = overlay top bottom := by
  funext path
  cases path with
  | nil => rw [blend, overlay, isDir_iff.mp upper, isDir_iff.mp lower]
  | cons name rest =>
    rw [blend, overlay, upper, lower]
    by_cases there : top [name] = none
    · have off : name ∉ names := fun member => (all name).mp member there
      simp [there, off]
    · have on : name ∈ names := (all name).mpr there
      simp [there, on]

omit [DecidableEq ν] in
theorem overlay_single_directory {top : View ν κ} (closed : top.Closed) :
    overlay top (single .directory) = top := by
  funext path
  cases path with
  | nil => rfl
  | cons name rest =>
    have nothing : (single Node.directory : View ν κ).under [name] = empty := rfl
    rw [overlay]
    split
    · split
      · next none_there =>
        rw [Option.isNone_iff_eq_none] at none_there
        have gone := (closed.under [name]).eq_empty none_there
        exact (congrFun gone rest).symm
      · rw [nothing, overlay_of_not_both (by simp [isDir])]
        rfl
    · rfl

omit [DecidableEq ν] in
theorem overlay_self (view : View ν κ) : overlay view view = view := by
  funext path
  induction path generalizing view with
  | nil => rfl
  | cons name rest ih =>
    rw [overlay, ih]
    split_ifs <;> rfl

omit [DecidableEq ν] in
theorem overlay_again (top bottom : View ν κ) : overlay top (overlay top bottom) = overlay top bottom := by
  funext path
  induction path generalizing top bottom with
  | nil => rfl
  | cons name rest ih =>
    by_cases both : (top.isDir && bottom.isDir) = true
    · have upper := (Bool.and_eq_true_iff.mp both).1
      have child (there : ¬(top [name]).isNone = true) :
          under (overlay top bottom) [name] = overlay (top.under [name]) (bottom.under [name]) := by
        funext path
        simp only [under_apply, List.singleton_append, overlay]
        rw [if_pos both, if_neg there]
      have root : isDir (overlay top bottom) = top.isDir := rfl
      rw [overlay, root, upper, overlay, if_pos both]
      by_cases there : (top [name]).isNone = true
      · simp [there]
      · rw [child there, ih]
        simp [there]
    · rw [overlay_of_not_both (Bool.eq_false_iff.mpr both), overlay_self]

omit [DecidableEq ν] in
theorem Closed.overlay {top bottom : View ν κ} (upper : top.Closed) (lower : bottom.Closed) :
    Closed (overlay top bottom) := by
  intro path name there
  induction path generalizing top bottom with
  | nil =>
    by_cases both : (top.isDir && bottom.isDir) = true
    · exact isDir_iff.mp (Bool.and_eq_true_iff.mp both).1
    · rw [overlay_of_not_both (Bool.eq_false_iff.mpr both)] at there ⊢
      exact upper [] name there
  | cons first rest ih =>
    rw [List.cons_append, View.overlay] at there
    rw [View.overlay]
    split_ifs at there ⊢
    · exact lower (first :: rest) name there
    · exact ih (upper.under [first]) (lower.under [first]) there
    · exact upper (first :: rest) name there

theorem blend_under {top bottom : View ν κ} {names : List ν} {name : ν} (fresh : name ∉ names) :
    (blend top bottom names).under [name] = bottom.under [name] := by
  funext rest
  simp [blend, fresh]

end View

/-- A disk lists what stands where; a path is listed once or its first listing counts. -/
structure Disk (ν κ : Type) where
  entries : List (List ν × Node ν κ)

namespace Disk

variable [DecidableEq ν]

/-- The whole disk as a tree. -/
def look (disk : Disk ν κ) : View ν κ := fun path => disk.entries.lookup path

/-- The names of the children, each once. -/
def names (disk : Disk ν κ) (path : List ν) : List ν :=
  (disk.entries.filterMap fun entry =>
    if entry.1.dropLast = path then entry.1.getLast? else none).dedup

def put (disk : Disk ν κ) (path : List ν) (node : Node ν κ) : Disk ν κ :=
  ⟨(path, node) :: disk.entries⟩

/-- Without what stands at the path and below it. -/
def removeTree (disk : Disk ν κ) (path : List ν) : Disk ν κ :=
  ⟨disk.entries.filter fun entry => ¬path <+: entry.1⟩

/-- With what stands at one path and below it moved to the other. -/
def moveTree (disk : Disk ν κ) (source target : List ν) : Disk ν κ :=
  ⟨disk.entries.map fun entry =>
    if source <+: entry.1 then (target ++ entry.1.drop source.length, entry.2) else entry⟩

variable (disk : Disk ν κ)

theorem mem_names {path : List ν} {name : ν} :
    name ∈ disk.names path ↔ disk.look (path ++ [name]) ≠ none := by
  rw [names, List.mem_dedup, List.mem_filterMap, look, ← Option.isSome_iff_ne_none,
    List.lookup_isSome_iff]
  constructor
  · rintro ⟨entry, member, last⟩
    refine ⟨entry, member, ?_⟩
    split at last
    · next parent =>
      rw [← parent, List.dropLast_append_getLast? name last]
      simp
    · cases last
  · rintro ⟨entry, member, same⟩
    refine ⟨entry, member, ?_⟩
    have key : path ++ [name] = entry.1 := by simpa using same
    simp [← key]

theorem closed_of_entries
    (parents : ∀ entry ∈ disk.entries, entry.1 ≠ [] → disk.look entry.1.dropLast = some .directory) :
    disk.look.Closed := by
  intro path name there
  rw [look, ← Option.isSome_iff_ne_none, List.lookup_isSome_iff] at there
  obtain ⟨entry, member, same⟩ := there
  have key : path ++ [name] = entry.1 := by simpa using same
  have parent := parents entry member (by rw [← key]; simp)
  rwa [← key, List.dropLast_concat] at parent

theorem nodup_names (path : List ν) : (disk.names path).Nodup := List.nodup_dedup _

theorem names_perm {other : Disk ν κ} {path : List ν}
    (same : disk.look.under path = other.look.under path) :
    (disk.names path).Perm (other.names path) := by
  rw [List.perm_ext_iff_of_nodup (disk.nodup_names path) (other.nodup_names path)]
  intro name
  have child := congrFun same [name]
  simp only [View.under_apply] at child
  rw [mem_names, mem_names, child]

@[simp] theorem look_put (path : List ν) (node : Node ν κ) :
    (disk.put path node).look = Function.update disk.look path (some node) := by
  funext other
  by_cases same : other = path
  · subst same
    simp [look, put]
  · have differ : (other == path) = false := by simpa using same
    simp [look, put, List.lookup_cons, differ, same]

@[simp] theorem look_removeTree (path : List ν) :
    (disk.removeTree path).look = disk.look.paste path .empty := by
  obtain ⟨entries⟩ := disk
  funext other
  simp only [look, removeTree, View.paste]
  induction entries with
  | nil => simp [View.empty]
  | cons entry rest ih =>
    obtain ⟨key, node⟩ := entry
    by_cases inside : path <+: key
    · rw [List.filter_cons_of_neg (by simpa using inside), ih]
      split
      · rfl
      · next outside =>
        have differ : (other == key) = false := by
          rw [beq_eq_false_iff_ne]
          intro same
          exact outside (same ▸ inside)
        rw [List.lookup_cons, differ]
    · rw [List.filter_cons_of_pos (by simpa using inside), List.lookup_cons, ih, List.lookup_cons]
      cases same : other == key with
      | false => rfl
      | true =>
        rw [beq_iff_eq] at same
        subst same
        simp [inside]

omit [DecidableEq ν] in
theorem lookup_map_key [BEq ν] [LawfulBEq ν] (rename : List ν → List ν) {key was : List ν}
    {entries : List (List ν × Node ν κ)}
    (only : ∀ entry ∈ entries, key = rename entry.1 ↔ was = entry.1) :
    (entries.map fun entry => (rename entry.1, entry.2)).lookup key = entries.lookup was := by
  induction entries with
  | nil => rfl
  | cons entry rest ih =>
    have here := only entry (by simp)
    have later := ih fun entry member => only entry (List.mem_cons_of_mem _ member)
    have same : (key == rename entry.1) = (was == entry.1) := by
      rw [Bool.eq_iff_iff, beq_iff_eq, beq_iff_eq]
      exact here
    rw [List.map_cons, List.lookup_cons, List.lookup_cons, same, later]

/-- Moving a subtree to a free place that is apart from it. -/
theorem look_moveTree {source target : List ν} (apart : View.Apart source target)
    (free : disk.look.under target = .empty) :
    (disk.moveTree source target).look =
      (disk.look.paste target (disk.look.under source)).paste source .empty := by
  have clear : ∀ entry ∈ disk.entries, ¬target <+: entry.1 := by
    rintro entry member ⟨rest, same⟩
    have gone := congrFun free rest
    rw [View.under_apply, look, View.empty, List.lookup_eq_none_iff] at gone
    have differ := gone entry member
    simp [same] at differ
  let rename : List ν → List ν := fun key =>
    if source <+: key then target ++ key.drop source.length else key
  have renamed : (disk.moveTree source target).entries =
      disk.entries.map fun entry => (rename entry.1, entry.2) := by
    apply List.map_congr_left
    intro entry _
    by_cases inside : source <+: entry.1 <;> simp [rename, inside]
  have below : ∀ rest, rename (source ++ rest) = target ++ rest := by
    intro rest
    simp [rename]
  funext other
  rw [look, renamed]
  by_cases fromSource : source <+: other
  · obtain ⟨rest, rfl⟩ := fromSource
    rw [View.paste_at, View.empty, List.lookup_eq_none_iff]
    intro entry member
    obtain ⟨before, inside, rfl⟩ := List.mem_map.mp member
    rw [bne_iff_ne]
    intro same
    by_cases moved : source <+: before.1
    · obtain ⟨more, key⟩ := moved
      rw [← key, below] at same
      exact (apart.append rest more).1 (same ▸ List.prefix_rfl)
    · simp only [rename, moved, if_false] at same
      exact moved (same ▸ List.prefix_append source rest)
  · rw [View.paste_off _ _ fromSource]
    by_cases toTarget : target <+: other
    · obtain ⟨rest, rfl⟩ := toTarget
      rw [View.paste_at]
      apply lookup_map_key
      intro entry member
      constructor
      · intro same
        by_cases moved : source <+: entry.1
        · obtain ⟨more, key⟩ := moved
          rw [← key, below] at same
          rw [← key, List.append_cancel_left same]
        · simp only [rename, moved, if_false] at same
          exact absurd (same ▸ List.prefix_append target rest) (clear entry member)
      · intro same
        rw [← same, below]
    · rw [View.paste_off _ _ toTarget]
      apply lookup_map_key
      intro entry _
      constructor
      · intro same
        by_cases moved : source <+: entry.1
        · obtain ⟨more, key⟩ := moved
          rw [← key, below] at same
          exact absurd (same ▸ List.prefix_append target more) toTarget
        · simpa [rename, moved] using same
      · intro same
        subst same
        simp [rename, fromSource]

end Disk

end Mille.FileTree
