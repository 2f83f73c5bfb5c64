import Mille.Core.Walker
import Mille.Lib.Maps

/-! The ignore matcher's index by anchor directory, and the one answer it shares
with a scan of every matcher. -/

namespace Mille

open Std

/-- `Path::ancestors`: the path, its parent, and so on up to the root directory. -/
def Path.ancestors (path : Path) : List Path :=
  path.inits.reverse

theorem Path.mem_ancestors {path root : Path} : root ∈ path.ancestors ↔ path.startsWith root = true := by
  rw [Path.ancestors, List.mem_reverse, List.mem_inits, Path.startsWith_iff]

theorem Path.ancestors_nodup (path : Path) : path.ancestors.Nodup := by
  rw [Path.ancestors, List.nodup_reverse]
  induction path with
  | nil => exact List.nodup_singleton _
  | cons component rest ih =>
    rw [List.inits_cons, List.nodup_cons]
    constructor
    · simp
    · exact ih.map (List.cons_injective)

namespace IgnoreMatcher

/-- The stack positions of the matchers anchored at a directory, in order. -/
def anchored (matcher : IgnoreMatcher) (root : Path) : List Nat :=
  (List.range matcher.length).filter fun index => (matcher[index]?).map (·.1) = some root

theorem anchored_nil (root : Path) : anchored [] root = [] := rfl

theorem anchored_push (matcher : IgnoreMatcher) (anchor root : Path) (gitignore : Gitignore) :
    anchored (matcher ++ [(anchor, gitignore)]) root =
      anchored matcher root ++ if anchor = root then [matcher.length] else [] := by
  have before : (List.range matcher.length).filter
      (fun index => ((matcher ++ [(anchor, gitignore)])[index]?).map (·.1) = some root) =
        anchored matcher root := by
    apply List.filter_congr
    intro index inside
    rw [List.getElem?_append_left (List.mem_range.mp inside)]
  rw [anchored, List.length_append, List.length_singleton, List.range_succ, List.filter_append, before]
  by_cases same : anchor = root
  · simp [same]
  · simp [same]

end IgnoreMatcher

/-- `IgnoreMatcher` with `by_root`, which lists for every anchor its matchers' positions. -/
structure IndexedMatcher where
  matchers : IgnoreMatcher
  byRoot : ExtTreeMap Path (List Nat)
  indexed : ∀ root, (byRoot[root]?).getD [] = matchers.anchored root

namespace IndexedMatcher

def new : IndexedMatcher where
  matchers := []
  byRoot := ∅
  indexed := fun root => by simp [IgnoreMatcher.anchored_nil]

/-- The one place a matcher joins the stack. -/
def push (matcher : IndexedMatcher) (root : Path) (gitignore : Gitignore) : IndexedMatcher where
  matchers := matcher.matchers ++ [(root, gitignore)]
  byRoot := matcher.byRoot.alter root fun known => some (known.getD [] ++ [matcher.matchers.length])
  indexed := by
    intro other
    rw [IgnoreMatcher.anchored_push, Maps.lookup_alter, ← matcher.indexed other]
    split_ifs with same
    · rw [same]
      rfl
    · rw [List.append_nil]

/-- Every source pushed in turn. -/
def pushAll (sources : List (Path × Gitignore)) : IndexedMatcher :=
  sources.foldl (fun matcher source => matcher.push source.1 source.2) new

def linearScanMax : Nat := 8

/-- The scan of every matcher whose anchor lies above the path. -/
def scan (matcher : IndexedMatcher) (path : Path) (isDir : Bool) : Option Bool :=
  IgnoreMatcher.decide (matcher.matchers.filter fun source => path.startsWith source.1) path isDir

/-- The positions of the matchers anchored at the path's ancestors, in stack order. -/
def applicable (matcher : IndexedMatcher) (path : Path) : List Nat :=
  ((path.ancestors.filterMap fun ancestor => matcher.byRoot[ancestor]?).flatten).mergeSort (· ≤ ·)

/-- The lookup by ancestors; `applicable_inside` says that no position misses. -/
def lookup (matcher : IndexedMatcher) (path : Path) (isDir : Bool) : Option Bool :=
  IgnoreMatcher.decide ((matcher.applicable path).filterMap fun index => matcher.matchers[index]?) path isDir

def decision (matcher : IndexedMatcher) (path : Path) (isDir : Bool) : Option Bool :=
  if matcher.matchers.length ≤ linearScanMax then matcher.scan path isDir
  else matcher.lookup path isDir

@[simp] theorem push_matchers (matcher : IndexedMatcher) (root : Path) (gitignore : Gitignore) :
    (matcher.push root gitignore).matchers = matcher.matchers ++ [(root, gitignore)] := rfl

theorem pushAll_matchers (sources : List (Path × Gitignore)) : (pushAll sources).matchers = sources := by
  have grows : ∀ matcher : IndexedMatcher,
      (sources.foldl (fun matcher source => matcher.push source.1 source.2) matcher).matchers =
        matcher.matchers ++ sources := by
    induction sources with
    | nil => exact fun matcher => (List.append_nil _).symm
    | cons source rest ih =>
      intro matcher
      rw [List.foldl_cons, ih, push_matchers, List.append_assoc, List.singleton_append]
  exact grows new

theorem byRoot_flatten (matcher : IndexedMatcher) (ancestors : List Path) :
    (ancestors.filterMap fun ancestor => matcher.byRoot[ancestor]?).flatten =
      ancestors.flatMap matcher.matchers.anchored := by
  induction ancestors with
  | nil => rfl
  | cons ancestor rest ih =>
    rw [List.flatMap_cons, ← matcher.indexed ancestor, ← ih]
    cases known : matcher.byRoot[ancestor]? with
    | none => simp [known]
    | some positions => simp [known]

/-- What the ancestors' buckets hold, sorted, are the positions a scan accepts. -/
theorem applicable_eq (matcher : IndexedMatcher) (path : Path) :
    matcher.applicable path = (List.range matcher.matchers.length).filter fun index =>
      ((matcher.matchers[index]?).map fun source => path.startsWith source.1) = some true := by
  have anchor : ∀ root index, index ∈ matcher.matchers.anchored root ↔
      index < matcher.matchers.length ∧ (matcher.matchers[index]?).map (·.1) = some root := by
    intro root index
    simp [IgnoreMatcher.anchored]
  have perm : (path.ancestors.flatMap matcher.matchers.anchored).Perm
      ((List.range matcher.matchers.length).filter fun index =>
        ((matcher.matchers[index]?).map fun source => path.startsWith source.1) = some true) := by
    apply (List.perm_ext_iff_of_nodup _ (List.nodup_range.filter _)).mpr
    · intro index
      rw [List.mem_flatMap, List.mem_filter, List.mem_range]
      constructor
      · rintro ⟨root, above, member⟩
        obtain ⟨inside, rooted⟩ := (anchor root index).mp member
        obtain ⟨source, found, same⟩ := Option.map_eq_some_iff.mp rooted
        refine ⟨inside, ?_⟩
        simp [found, same, Path.mem_ancestors.mp above]
      · rintro ⟨inside, accepted⟩
        obtain ⟨source, found, above⟩ := Option.map_eq_some_iff.mp (of_decide_eq_true accepted)
        refine ⟨source.1, Path.mem_ancestors.mpr above, (anchor _ _).mpr ⟨inside, ?_⟩⟩
        simp [found]
    · apply List.nodup_flatMap.mpr
      refine ⟨fun root _ => List.nodup_range.filter _, ?_⟩
      apply path.ancestors_nodup.imp
      intro first second apart index left right
      have same := ((anchor first index).mp left).2.symm.trans ((anchor second index).mp right).2
      exact apart (Option.some.inj same)
  apply List.Perm.eq_of_sortedLE
  · exact List.sortedLE_mergeSort
  · exact (List.pairwise_le_range.filter _).sortedLE
  · rw [applicable, byRoot_flatten]
    exact (List.mergeSort_perm _ _).trans perm

theorem filterMap_getElem? {α : Type} (list : List α) :
    (List.range list.length).filterMap (fun index => list[index]?) = list := by
  induction list with
  | nil => rfl
  | cons head tail ih =>
    rw [List.length_cons, List.range_succ_eq_map, List.filterMap_cons, List.filterMap_map]
    exact congrArg (head :: ·) ih

theorem applicable_inside {matcher : IndexedMatcher} {path : Path} {index : Nat}
    (member : index ∈ matcher.applicable path) : index < matcher.matchers.length := by
  rw [applicable_eq] at member
  exact List.mem_range.mp (List.mem_filter.mp member).1

theorem lookup_eq_scan (matcher : IndexedMatcher) (path : Path) (isDir : Bool) :
    matcher.lookup path isDir = matcher.scan path isDir := by
  have same : (matcher.applicable path).filterMap (fun index => matcher.matchers[index]?) =
      matcher.matchers.filter fun source => path.startsWith source.1 := by
    rw [applicable_eq, List.filterMap_filter]
    conv_rhs => rw [← filterMap_getElem? matcher.matchers, List.filter_filterMap]
    apply List.filterMap_congr
    intro index _
    cases matcher.matchers[index]? with
    | none => simp
    | some source => cases above : path.startsWith source.1 <;> simp [above, Option.filter]
  rw [lookup, scan, same]

theorem decision_eq_scan (matcher : IndexedMatcher) (path : Path) (isDir : Bool) :
    matcher.decision path isDir = matcher.scan path isDir := by
  unfold decision
  split_ifs
  · rfl
  · exact matcher.lookup_eq_scan path isDir

theorem decide_append (first second : IgnoreMatcher) (path : Path) (isDir : Bool) :
    IgnoreMatcher.decide (first ++ second) path isDir =
      (IgnoreMatcher.decide first path isDir).or (IgnoreMatcher.decide second path isDir) := by
  induction first with
  | nil => rfl
  | cons source rest ih =>
    rw [List.cons_append, IgnoreMatcher.decide, IgnoreMatcher.decide, ih, Option.or_assoc]

theorem pushAll_decision (sources : List (Path × Gitignore)) (path : Path) (isDir : Bool) :
    (pushAll sources).decision path isDir = IgnoreMatcher.decision sources path isDir := by
  rw [decision_eq_scan, scan, pushAll_matchers]
  rfl

/-- Whatever the length of the stack, the scan and the lookup by ancestors give the one
answer, and a stack split in two and consulted in turn gives it too. -/
theorem decision_agrees (caller nested : List (Path × Gitignore)) (path : Path) (isDir : Bool) :
    (pushAll (caller ++ nested)).decision path isDir = (pushAll (caller ++ nested)).scan path isDir ∧
      (pushAll (caller ++ nested)).decision path isDir = (pushAll (caller ++ nested)).lookup path isDir ∧
        ((pushAll caller).decision path isDir).or ((pushAll nested).decision path isDir) =
          (pushAll (caller ++ nested)).decision path isDir := by
  refine ⟨decision_eq_scan _ path isDir, ?_, ?_⟩
  · rw [decision_eq_scan, lookup_eq_scan]
  · rw [pushAll_decision, pushAll_decision, pushAll_decision, IgnoreMatcher.decision,
      IgnoreMatcher.decision, IgnoreMatcher.decision, List.filter_append, decide_append]

end IndexedMatcher
end Mille
