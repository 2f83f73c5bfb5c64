import Mille.Lib.Run

/-! The watcher's set of roots: `watch` and `unwatch` against a platform backend
that may refuse any of its own calls. -/

namespace Mille.Watch

variable {C E : Type} [DecidableEq C]

local instance lawfulBEqComponents : LawfulBEq (List C) := inferInstance

/-- `is_ancestor_of`: paths are compared by their components, and a path is its own ancestor. -/
def isAncestorOf (ancestor descendant : List C) : Bool :=
  ancestor.isPrefixOf descendant

theorem isAncestorOf_iff {ancestor descendant : List C} :
    isAncestorOf ancestor descendant = true ↔ ancestor <+: descendant := by
  simp [isAncestorOf]

/-- What a call returns; `notify` is what `map_notify_err` makes of the backend's error. -/
inductive FxError (E : Type) where
  | unsupported (reason : String)
  | notify (error : E)

/-- The backend's answers during one call: the error it fails with, if any. -/
structure Backend (C E : Type) where
  watch : List C → Option E
  unwatch : List C → Option E

/-- The recorded roots, beside the paths that are registered with the backend. -/
structure Watcher (C : Type) where
  roots : List (List C)
  registered : Finset (List C)

def Watcher.new : Watcher C := ⟨[], ∅⟩

/-- A fallible call that keeps its changes when it fails. -/
abbrev Attempt (C E α : Type) := EStateM (FxError E) (Watcher C) α

def Backend.register (backend : Backend C E) (path : List C) : Attempt C E Unit :=
  match backend.watch path with
  | some error => throw (.notify error)
  | none => modify fun watcher => { watcher with registered := insert path watcher.registered }

def Backend.deregister (backend : Backend C E) (path : List C) : Attempt C E Unit :=
  match backend.unwatch path with
  | some error => throw (.notify error)
  | none => modify fun watcher => { watcher with registered := watcher.registered.erase path }

/-- `let _ = watcher.unwatch(ir)`: best effort, an error is swallowed. -/
def Backend.deregisterQuietly (backend : Backend C E) (path : List C) : Attempt C E Unit :=
  tryCatch (backend.deregister path) fun _ => pure ()

/-- The tail of `Watcher::watch`: drop the inner roots, then register and record the outer one. -/
def Backend.absorb (backend : Backend C E) (canonical : List C) (innerRoots : List (List C)) :
    Attempt C E Unit := do
  innerRoots.forM backend.deregisterQuietly
  modify fun watcher =>
    { watcher with roots := watcher.roots.filter fun root => !innerRoots.contains root }
  backend.register canonical
  modify fun watcher => { watcher with roots := watcher.roots ++ [canonical] }

/-- `Watcher::watch` of a canonical path. -/
def watch (backend : Backend C E) (canonical : List C) (recursive : Bool) : Attempt C E Unit := do
  if !recursive then
    throw (.unsupported "non-recursive watching lands in Phase 3.6")
  let watcher ← get
  if watcher.roots.any (· == canonical) then
    return ()
  -- An outer root covers this one already.
  if watcher.roots.any (isAncestorOf · canonical) then
    return ()
  backend.absorb canonical (watcher.roots.filter (isAncestorOf canonical ·))

/-- `Watcher::unwatch` of a canonical path. -/
def unwatch (backend : Backend C E) (canonical : List C) : Attempt C E Unit := do
  let watcher ← get
  match watcher.roots.idxOf? canonical with
  | none => return ()
  | some index =>
    backend.deregister canonical
    modify fun watcher => { watcher with roots := watcher.roots.eraseIdx index }

inductive Request (C : Type) where
  | watch (root : List C) (recursive : Bool)
  | unwatch (root : List C)

/-- One public call, with what the file system and the backend answer during it. -/
structure Call (C E : Type) where
  request : Request C
  canonicalize : List C → Option (List C)
  backend : Backend C E

/-- `canonicalize_or_owned`. -/
def Call.canonical (call : Call C E) (path : List C) : List C :=
  (call.canonicalize path).getD path

def Call.run (call : Call C E) : Attempt C E Unit :=
  match call.request with
  | .watch root recursive => watch call.backend (call.canonical root) recursive
  | .unwatch root => unwatch call.backend (call.canonical root)

def resultState {ε σ α : Type} : EStateM.Result ε σ α → σ
  | .ok _ state => state
  | .error _ state => state

def Failed {ε σ α : Type} : EStateM.Result ε σ α → Prop
  | .ok _ _ => False
  | .error _ _ => True

def Watcher.step (watcher : Watcher C) (call : Call C E) : Watcher C :=
  resultState (call.run watcher)

namespace Watcher

/-- Neither path is the other or lies above it. -/
def Apart (first second : List C) : Prop :=
  ¬first <+: second ∧ ¬second <+: first

structure Sound (watcher : Watcher C) : Prop where
  antichain : watcher.roots.Pairwise Apart
  agree : watcher.registered = watcher.roots.toFinset

/-- The call leaves a sound watcher, and the one it found if it fails. -/
structure Settled (watcher : Watcher C) (call : Call C E) : Prop where
  sound : (watcher.step call).Sound
  unchanged : Failed (call.run watcher) → watcher.step call = watcher

/-- The roots below a path, when no root covers it. -/
def displaced (watcher : Watcher C) (canonical : List C) : List (List C) :=
  if watcher.roots.any (isAncestorOf · canonical) then []
  else watcher.roots.filter (isAncestorOf canonical ·)

/-- When a recursive watch displaces inner roots, the backend drops each of them and
takes the outer root. -/
def Spared (watcher : Watcher C) (call : Call C E) : Prop :=
  match call.request with
  | .unwatch _ => True
  | .watch root recursive =>
    recursive = true → watcher.displaced (call.canonical root) ≠ [] →
      (∀ inner ∈ watcher.displaced (call.canonical root), call.backend.unwatch inner = none) ∧
        call.backend.watch (call.canonical root) = none

theorem sound_new : (Watcher.new : Watcher C).Sound where
  antichain := List.Pairwise.nil
  agree := rfl

theorem deregisterQuietly_run (backend : Backend C E) (path : List C) (watcher : Watcher C) :
    backend.deregisterQuietly path watcher =
      .ok () { watcher with
        registered := watcher.registered.filter fun known =>
          ¬(known = path ∧ backend.unwatch known = none) } := by
  unfold Backend.deregisterQuietly Backend.deregister
  cases answer : backend.unwatch path with
  | none =>
    have rest : watcher.registered.erase path =
        watcher.registered.filter fun known => ¬(known = path ∧ backend.unwatch known = none) := by
      ext known
      simp only [Finset.mem_erase, Finset.mem_filter, not_and]
      constructor
      · rintro ⟨other, member⟩
        exact ⟨member, fun same => absurd same other⟩
      · rintro ⟨member, kept⟩
        exact ⟨fun same => kept same (same ▸ answer), member⟩
    rw [← rest]
    rfl
  | some error =>
    have all : watcher.registered.filter (fun known => ¬(known = path ∧ backend.unwatch known = none)) =
        watcher.registered := by
      apply Finset.filter_true_of_mem
      rintro known _ ⟨same, none⟩
      simp [same, answer] at none
    rw [all]
    rfl

theorem deregisterAll_run (backend : Backend C E) (paths : List (List C)) (watcher : Watcher C) :
    (paths.forM backend.deregisterQuietly : Attempt C E _) watcher =
      .ok () { watcher with
        registered := watcher.registered.filter fun known =>
          ¬(known ∈ paths ∧ backend.unwatch known = none) } := by
  induction paths generalizing watcher with
  | nil =>
    simp
    rfl
  | cons path rest ih =>
    have first := deregisterQuietly_run backend path watcher
    change EStateM.bind (backend.deregisterQuietly path) (fun _ => rest.forM backend.deregisterQuietly)
      watcher = _
    unfold EStateM.bind
    rw [first]
    simp only [ih, Finset.filter_filter]
    congr 2
    apply Finset.filter_congr
    intro known _
    rw [List.mem_cons]
    tauto

/-- The watcher once the inner roots of a path are dropped, best effort. -/
def dropInner (watcher : Watcher C) (backend : Backend C E) (canonical : List C) : Watcher C where
  roots := watcher.roots.filter fun root => !isAncestorOf canonical root
  registered := watcher.registered.filter fun known =>
    ¬(known ∈ watcher.displaced canonical ∧ backend.unwatch known = none)

theorem watch_shallow (backend : Backend C E) (canonical : List C) (watcher : Watcher C) :
    watch backend canonical false watcher =
      .error (.unsupported "non-recursive watching lands in Phase 3.6") watcher := rfl

theorem watch_eq (backend : Backend C E) (canonical : List C) (watcher : Watcher C) :
    watch backend canonical true watcher =
      if watcher.roots.any (· == canonical) then .ok () watcher
      else if watcher.roots.any (isAncestorOf · canonical) then .ok () watcher
      else backend.absorb canonical (watcher.roots.filter (isAncestorOf canonical ·)) watcher := by
  change (if watcher.roots.any (· == canonical) then (pure () : Attempt C E Unit)
    else if watcher.roots.any (isAncestorOf · canonical) then pure ()
    else backend.absorb canonical (watcher.roots.filter (isAncestorOf canonical ·))) watcher = _
  split_ifs <;> rfl

theorem watch_covered (backend : Backend C E) {canonical : List C} {watcher : Watcher C}
    (covered : watcher.roots.any (isAncestorOf · canonical) = true) :
    watch backend canonical true watcher = .ok () watcher := by
  rw [watch_eq]
  split_ifs <;> rfl

theorem watch_uncovered (backend : Backend C E) {canonical : List C} {watcher : Watcher C}
    (uncovered : watcher.roots.any (isAncestorOf · canonical) = false) :
    watch backend canonical true watcher =
      match backend.watch canonical with
      | some error => .error (.notify error) (watcher.dropInner backend canonical)
      | none => .ok () {
          roots := (watcher.dropInner backend canonical).roots ++ [canonical]
          registered := insert canonical (watcher.dropInner backend canonical).registered } := by
  have unknown : watcher.roots.any (· == canonical) = false := by
    rw [List.any_eq_false] at uncovered ⊢
    intro root member same
    apply uncovered root member
    rw [beq_iff_eq.mp same]
    exact isAncestorOf_iff.mpr List.prefix_rfl
  have displaced : watcher.displaced canonical = watcher.roots.filter (isAncestorOf canonical ·) := by
    simp [displaced, uncovered]
  have kept : watcher.roots.filter
      (fun root => !(watcher.roots.filter (isAncestorOf canonical ·)).contains root) =
      (watcher.dropInner backend canonical).roots := by
    apply List.filter_congr
    intro root member
    cases below : isAncestorOf canonical root <;> simp [member, below]
  have dropped := deregisterAll_run backend (watcher.roots.filter (isAncestorOf canonical ·)) watcher
  rw [watch_eq, unknown, uncovered]
  change EStateM.bind ((watcher.roots.filter (isAncestorOf canonical ·)).forM backend.deregisterQuietly)
    _ watcher = _
  unfold EStateM.bind
  rw [dropped]
  change EStateM.bind (backend.register canonical) _ (Watcher.mk
    (watcher.roots.filter
      (fun root => !(watcher.roots.filter (isAncestorOf canonical ·)).contains root)) _) = _
  rw [kept, ← displaced]
  unfold EStateM.bind Backend.register
  cases backend.watch canonical with
  | none => rfl
  | some error => rfl

theorem unwatch_run (backend : Backend C E) (canonical : List C) (watcher : Watcher C) :
    unwatch backend canonical watcher =
      if canonical ∈ watcher.roots then
        match backend.unwatch canonical with
        | some error => .error (.notify error) watcher
        | none => .ok () ⟨watcher.roots.erase canonical, watcher.registered.erase canonical⟩
      else .ok () watcher := by
  have erased := watcher.roots.erase_eq_eraseIdx canonical
  change (match watcher.roots.idxOf? canonical with
    | none => (pure () : Attempt C E Unit)
    | some index => do
      backend.deregister canonical
      modify fun watcher : Watcher C => ⟨watcher.roots.eraseIdx index, watcher.registered⟩)
    watcher = _
  cases index : watcher.roots.idxOf? canonical with
  | none =>
    rw [if_neg (List.idxOf?_eq_none_iff.mp index)]
    rfl
  | some position =>
    have member : canonical ∈ watcher.roots := by
      by_contra missing
      simp [List.idxOf?_eq_none_iff.mpr missing] at index
    rw [if_pos member]
    rw [index] at erased
    simp only at erased
    change EStateM.bind (backend.deregister canonical) _ watcher = _
    unfold EStateM.bind Backend.deregister
    cases backend.unwatch canonical with
    | none =>
      rw [erased]
      rfl
    | some error => rfl

/-! ### One call -/

theorem displaced_eq_nil {canonical : List C} {watcher : Watcher C}
    (covered : watcher.roots.any (isAncestorOf · canonical) = true) :
    watcher.displaced canonical = [] := by
  simp [displaced, covered]

theorem antichain_absorb {canonical : List C} {watcher : Watcher C}
    (antichain : watcher.roots.Pairwise Apart)
    (uncovered : watcher.roots.any (isAncestorOf · canonical) = false) :
    (watcher.roots.filter (fun root => !isAncestorOf canonical root) ++ [canonical]).Pairwise Apart := by
  rw [List.pairwise_append]
  refine ⟨antichain.filter _, List.pairwise_singleton _ _, ?_⟩
  intro root kept outer isOuter
  rw [List.mem_singleton.mp isOuter]
  obtain ⟨member, notBelow⟩ := List.mem_filter.mp kept
  constructor
  · intro above
    exact List.any_eq_false.mp uncovered root member (isAncestorOf_iff.mpr above)
  · intro below
    rw [isAncestorOf_iff.mpr below] at notBelow
    cases notBelow

theorem Sound.nodup {watcher : Watcher C} (sound : watcher.Sound) : watcher.roots.Nodup := by
  apply sound.antichain.imp
  intro first second apart same
  exact apart.1 (same ▸ List.prefix_rfl)

theorem Sound.unwatch {watcher : Watcher C} (sound : watcher.Sound) (backend : Backend C E)
    (canonical : List C) :
    (resultState (unwatch backend canonical watcher)).Sound ∧
      (Failed (unwatch backend canonical watcher) →
        resultState (unwatch backend canonical watcher) = watcher) := by
  rw [unwatch_run]
  split_ifs with member
  · cases backend.unwatch canonical with
    | some error => exact ⟨sound, fun _ => rfl⟩
    | none =>
      refine ⟨⟨sound.antichain.sublist (List.erase_sublist), ?_⟩, fun failed => failed.elim⟩
      ext path
      simp [resultState, sound.agree, sound.nodup.mem_erase_iff]
  · exact ⟨sound, fun _ => rfl⟩

/-- What the backend still holds once the inner roots are dropped: the recorded roots,
and the inner roots it refused to drop. -/
theorem Sound.dropInner_agree_iff {watcher : Watcher C} (sound : watcher.Sound)
    (backend : Backend C E) {canonical : List C}
    (uncovered : watcher.roots.any (isAncestorOf · canonical) = false) :
    (watcher.dropInner backend canonical).registered =
        (watcher.dropInner backend canonical).roots.toFinset ↔
      ∀ inner ∈ watcher.displaced canonical, backend.unwatch inner = none := by
  have displaced : watcher.displaced canonical = watcher.roots.filter (isAncestorOf canonical ·) := by
    simp [displaced, uncovered]
  simp only [dropInner, sound.agree, displaced, Finset.ext_iff, Finset.mem_filter, List.mem_toFinset,
    List.mem_filter]
  constructor
  · intro agree inner member
    have gone := (agree inner).mp
    by_contra refused
    have stays := gone ⟨member.1, fun dropped => refused dropped.2⟩
    rw [member.2] at stays
    exact absurd stays.2 (by decide)
  · intro dropped path
    constructor
    · intro held
      refine ⟨held.1, ?_⟩
      cases below : isAncestorOf canonical path with
      | false => rfl
      | true => exact absurd ⟨⟨held.1, below⟩, dropped path ⟨held.1, below⟩⟩ held.2
    · intro kept
      refine ⟨kept.1, ?_⟩
      intro lost
      rw [lost.1.2] at kept
      exact absurd kept.2 (by decide)

theorem dropInner_eq_self_iff {watcher : Watcher C} (backend : Backend C E) {canonical : List C}
    (uncovered : watcher.roots.any (isAncestorOf · canonical) = false) :
    watcher.dropInner backend canonical = watcher ↔ watcher.displaced canonical = [] := by
  have displaced : watcher.displaced canonical = watcher.roots.filter (isAncestorOf canonical ·) := by
    simp [displaced, uncovered]
  constructor
  · intro same
    have roots := congrArg Watcher.roots same
    rw [displaced, List.filter_eq_nil_iff]
    intro root member below
    rw [dropInner, List.filter_eq_self] at roots
    have above := roots root member
    rw [below] at above
    cases above
  · intro empty
    rw [displaced, List.filter_eq_nil_iff] at empty
    have roots : watcher.roots.filter (fun root => !isAncestorOf canonical root) = watcher.roots := by
      apply List.filter_eq_self.mpr
      intro root member
      simpa using empty root member
    have registered : watcher.registered.filter (fun known =>
        ¬(known ∈ watcher.displaced canonical ∧ backend.unwatch known = none)) = watcher.registered := by
      apply Finset.filter_true_of_mem
      intro known _ dropped
      rw [displaced, List.mem_filter] at dropped
      exact empty known dropped.1.1 dropped.1.2
    rw [dropInner, roots, registered]

theorem Sound.dropInner_registered {watcher : Watcher C} (sound : watcher.Sound)
    (backend : Backend C E) {canonical : List C}
    (uncovered : watcher.roots.any (isAncestorOf · canonical) = false) :
    canonical ∉ (watcher.dropInner backend canonical).registered ∧
      canonical ∉ (watcher.dropInner backend canonical).roots := by
  have unknown : canonical ∉ watcher.roots := by
    intro member
    exact List.any_eq_false.mp uncovered canonical member (isAncestorOf_iff.mpr List.prefix_rfl)
  constructor
  · intro held
    apply unknown
    have known := (Finset.mem_filter.mp held).1
    rwa [sound.agree, List.mem_toFinset] at known
  · intro kept
    exact unknown (List.mem_filter.mp kept).1

/-- A recursive watch of an uncovered path settles exactly when the backend drops every
inner root, and takes the outer one where there was an inner root. -/
theorem Sound.watch_iff {watcher : Watcher C} (sound : watcher.Sound) (backend : Backend C E)
    {canonical : List C} (uncovered : watcher.roots.any (isAncestorOf · canonical) = false) :
    ((resultState (watch backend canonical true watcher)).Sound ∧
        (Failed (watch backend canonical true watcher) →
          resultState (watch backend canonical true watcher) = watcher)) ↔
      (watcher.displaced canonical ≠ [] →
        (∀ inner ∈ watcher.displaced canonical, backend.unwatch inner = none) ∧
          backend.watch canonical = none) := by
  have agree := sound.dropInner_agree_iff backend uncovered
  have unheld := sound.dropInner_registered backend uncovered
  rw [watch_uncovered backend uncovered]
  cases backend.watch canonical with
  | some error =>
    simp only [resultState, Failed, true_implies, reduceCtorEq, and_false, imp_false, not_not]
    rw [dropInner_eq_self_iff backend uncovered]
    constructor
    · exact fun settled => settled.2
    · intro empty
      refine ⟨?_, empty⟩
      rw [(dropInner_eq_self_iff backend uncovered).mpr empty]
      exact sound
  | none =>
    simp only [resultState, Failed, false_implies, and_true]
    have kept : (∀ inner ∈ watcher.displaced canonical, backend.unwatch inner = none) ↔
        (watcher.displaced canonical ≠ [] →
          ∀ inner ∈ watcher.displaced canonical, backend.unwatch inner = none) := by
      constructor
      · exact fun dropped _ => dropped
      · intro dropped inner member
        exact dropped (List.ne_nil_of_mem member) inner member
    rw [← kept, ← agree]
    constructor
    · intro after
      have same := congrArg (Finset.erase · canonical) after.agree
      simpa [Finset.erase_insert unheld.1, unheld.2] using same
    · intro same
      refine ⟨antichain_absorb sound.antichain uncovered, ?_⟩
      ext path
      simp [same]

theorem Sound.settled_iff {watcher : Watcher C} (sound : watcher.Sound) (call : Call C E) :
    watcher.Settled call ↔ watcher.Spared call := by
  have split : watcher.Settled call ↔ (watcher.step call).Sound ∧
      (Failed (call.run watcher) → watcher.step call = watcher) :=
    ⟨fun settled => ⟨settled.sound, settled.unchanged⟩, fun both => ⟨both.1, both.2⟩⟩
  rw [split]
  unfold step Call.run Spared
  cases call.request with
  | unwatch root => exact iff_true_intro (sound.unwatch call.backend _)
  | watch root recursive =>
    cases recursive with
    | false =>
      change (resultState (watch call.backend (call.canonical root) false watcher)).Sound ∧
        (Failed (watch call.backend (call.canonical root) false watcher) →
          resultState (watch call.backend (call.canonical root) false watcher) = watcher) ↔ _
      rw [watch_shallow]
      exact ⟨fun _ shallow => absurd shallow (by decide), fun _ => ⟨sound, fun _ => rfl⟩⟩
    | true =>
      change (resultState (watch call.backend (call.canonical root) true watcher)).Sound ∧
        (Failed (watch call.backend (call.canonical root) true watcher) →
          resultState (watch call.backend (call.canonical root) true watcher) = watcher) ↔
        (true = true → _)
      simp only [true_implies]
      cases covered : watcher.roots.any (isAncestorOf · (call.canonical root)) with
      | false => exact sound.watch_iff call.backend covered
      | true =>
        rw [watch_covered call.backend covered, displaced_eq_nil covered]
        exact ⟨fun _ inner => absurd rfl inner, fun _ => ⟨sound, fun failed => failed.elim⟩⟩

/-! ### Runs -/

/-- From a new watcher every call leaves the roots an antichain that the backend holds, and
a failed call changes nothing, exactly when no call displaces a root that the backend
keeps or cannot replace. -/
theorem run_settled_iff (calls : List (Call C E)) :
    Run.Along step (fun watcher call => Settled watcher call) Watcher.new calls ↔
      Run.Along step Spared Watcher.new calls :=
  Run.along_congr (fun _ call sound => sound.settled_iff call) (fun _ _ _ settled => settled.sound)
    calls sound_new

end Watcher

/-- A call on plain names, canonical as they stand, with the paths the backend refuses. -/
private def asked (request : Request String) (refused : List (List String)) : Call String Unit where
  request := request
  canonicalize := some
  backend := {
    watch := fun path => if path ∈ refused then some () else none
    unwatch := fun _ => none }

/-- Watching an outer root the backend refuses drops the inner root that was watched. -/
theorem failed_watch_drops_inner :
    ¬∀ calls : List (Call String Unit),
      Run.Along Watcher.step (fun watcher call => watcher.Settled call) Watcher.new calls := by
  intro always
  have settled := (always [asked (.watch ["home", "src"] true) [],
    asked (.watch ["home"] true) [["home"]]]).2.1
  have after := settled.unchanged trivial
  exact absurd (congrArg Watcher.roots after) (by decide)

end Mille.Watch
