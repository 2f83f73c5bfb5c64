import Mille.Lib.Run
import Mille.Watch.Coalesce

/-! Pairing of the halves of renames across batches. An ambiguous event either pairs with
one that waits, or waits for a partner until its window has passed. -/

namespace Mille.Watch

variable {P : Type}

/-- How two halves are told to belong together. -/
inductive Strategy where
  /-- macOS: by inode, or one path gone and the other there. -/
  | inode
  /-- Everywhere else: the two that came first. -/
  | arrivalOrder
deriving DecidableEq

/-- Device and inode, as a successful stat gives them. -/
abbrev DevIno := Nat × Nat

/-- An ambiguous event without a partner. -/
structure PendingUnknown (P : Type) where
  path : P
  arrivedAt : Nat
  devIno : Option DevIno
deriving DecidableEq

/-- A half and its number among all that arrived; the pairer never reads the number. -/
abbrev Half (P : Type) := PendingUnknown P × Nat

/-- An output of the pairer and where it comes from. -/
inductive Emitted (P : Type) where
  | passed (event : FsChangeEvent P)
  | renamed (origin destination : Half P)
  | degraded (half : Half P) (reason : String)
deriving DecidableEq

def Emitted.event : Emitted P → FsChangeEvent P
  | .passed event => event
  | .renamed origin destination => .renamed origin.1.path destination.1.path
  | .degraded half reason => .renameDegraded half.1.path reason

structure RenamePairer (P : Type) where
  window : Nat
  /-- The waiting halves, in arrival order. -/
  pending : List (Half P)
  /-- How many halves have arrived. -/
  arrived : Nat

def RenamePairer.new (window : Nat) : RenamePairer P := ⟨window, [], 0⟩

/-- Remove the first element that meets a condition. -/
def removeFirst {A : Type} (condition : A → Bool) : List A → Option (A × List A)
  | [] => none
  | first :: rest =>
    if condition first then some (first, rest)
    else (removeFirst condition rest).map fun found => (found.1, first :: found.2)

/-- The stat of an arriving path; only macOS makes it. -/
def statDevIno (strategy : Strategy) (answer : Option DevIno) : Option DevIno :=
  match strategy with
  | .inode => answer
  | .arrivalOrder => none

/-- The same file under another path. -/
def sameInode [DecidableEq P] (arrival : PendingUnknown P) (half : Half P) : Bool :=
  match arrival.devIno with
  | none => false
  | some id => decide (half.1.devIno = some id) && decide (half.1.path ≠ arrival.path)

/-- One path is there and the other is gone. -/
def complementary (arrival : PendingUnknown P) (half : Half P) : Bool :=
  if arrival.devIno.isNone then half.1.devIno.isSome else half.1.devIno.isNone

def tryPair [DecidableEq P] (strategy : Strategy) (pending : List (Half P)) (arrival : Half P) :
    Option (Emitted P × List (Half P)) :=
  match strategy with
  | .inode =>
    match removeFirst (sameInode arrival.1) pending with
    | some (partner, rest) => some (.renamed partner arrival, rest)
    | none =>
      match removeFirst (complementary arrival.1) pending with
      | some (partner, rest) =>
        -- the half that is there is the destination
        if arrival.1.devIno.isSome then some (.renamed partner arrival, rest)
        else some (.renamed arrival partner, rest)
      | none => none
  | .arrivalOrder =>
    match pending with
    | [] => none
    | partner :: rest => some (.renamed partner arrival, rest)

/-- An event fed in, with what a stat of its path answers at that moment. -/
abbrev Fed (P : Type) := FsChangeEvent P × Option DevIno

abbrev Feeding (P : Type) := RenamePairer P × List (Emitted P)

def Feeding.handle [DecidableEq P] (strategy : Strategy) (now : Nat) (feeding : Feeding P) (fed : Fed P) :
    Feeding P :=
  match fed.1 with
  | .unknown path =>
    let arrival : Half P := (⟨path, now, statDevIno strategy fed.2⟩, feeding.1.arrived)
    match tryPair strategy feeding.1.pending arrival with
    | some (pair, rest) =>
      ({ feeding.1 with pending := rest, arrived := feeding.1.arrived + 1 }, feeding.2 ++ [pair])
    | none =>
      ({ feeding.1 with pending := feeding.1.pending ++ [arrival], arrived := feeding.1.arrived + 1 },
        feeding.2)
  | event => (feeding.1, feeding.2 ++ [.passed event])

/-- The halves that outlived the window, and those that go on waiting. -/
def expire (window now : Nat) : List (Half P) → List (Emitted P) × List (Half P)
  | [] => ([], [])
  | half :: rest =>
    if now - half.1.arrivedAt ≥ window then
      (.degraded half "unpaired Unknown exceeded pair window" :: (expire window now rest).1,
        (expire window now rest).2)
    else ((expire window now rest).1, half :: (expire window now rest).2)

def Feeding.age (now : Nat) (feeding : Feeding P) : Feeding P :=
  ({ feeding.1 with pending := (expire feeding.1.window now feeding.1.pending).2 },
    feeding.2 ++ (expire feeding.1.window now feeding.1.pending).1)

def RenamePairer.feed [DecidableEq P] (strategy : Strategy) (pairer : RenamePairer P) (events : List (Fed P))
    (now : Nat) : RenamePairer P × List (Emitted P) :=
  Feeding.age now (events.foldl (Feeding.handle strategy now) (pairer, []))

def RenamePairer.flush (pairer : RenamePairer P) : RenamePairer P × List (Emitted P) :=
  ({ pairer with pending := [] },
    pairer.pending.map fun half => .degraded half "pairer flushed with pending half")

/-- One batch and the time it is fed at. -/
structure Batch (P : Type) where
  events : List (Fed P)
  now : Nat

/-- The pairer after another batch, with all it has put out. -/
def Feeding.batch [DecidableEq P] (strategy : Strategy) (feeding : Feeding P) (batch : Batch P) : Feeding P :=
  ((feeding.1.feed strategy batch.events batch.now).1,
    feeding.2 ++ (feeding.1.feed strategy batch.events batch.now).2)

def Feeding.run [DecidableEq P] (strategy : Strategy) (window : Nat) (batches : List (Batch P)) : Feeding P :=
  batches.foldl (Feeding.batch strategy) (.new window, [])

section Accounts

/-- The halves an output settles. -/
def Emitted.halves : Emitted P → List (Half P)
  | .passed _ => []
  | .renamed origin destination => [origin, destination]
  | .degraded half _ => [half]

def Emitted.passing : Emitted P → Option (FsChangeEvent P)
  | .passed event => some event
  | _ => none

/-- The halves of a batch, as they arrive. -/
def Batch.arrivals (strategy : Strategy) (batch : Batch P) : List (PendingUnknown P) :=
  batch.events.filterMap fun fed =>
    match fed.1 with
    | .unknown path => some ⟨path, batch.now, statDevIno strategy fed.2⟩
    | _ => none

/-- The events of a batch that are not halves. -/
def Batch.others (batch : Batch P) : List (FsChangeEvent P) :=
  batch.events.filterMap fun fed =>
    match fed.1 with
    | .unknown _ => none
    | event => some event

/-- The partner an arrival gets is at another path. -/
def PartnerDiffers [DecidableEq P] (strategy : Strategy) (pending : List (Half P))
    (arrival : PendingUnknown P) : Prop :=
  match strategy with
  | .inode =>
    (∃ half ∈ pending, sameInode arrival half = true) ∨
      ∀ half, pending.find? (complementary arrival) = some half → half.1.path ≠ arrival.path
  | .arrivalOrder => ∀ half, pending.head? = some half → half.1.path ≠ arrival.path

/-- The pairer has put out no rename of a path to itself. -/
def Feeding.Distinct (feeding : Feeding P) : Prop :=
  ∀ origin destination, .renamed origin destination ∈ feeding.2 → origin.1.path ≠ destination.1.path

def Feeding.PartnerDiffers [DecidableEq P] (strategy : Strategy) (now : Nat) (feeding : Feeding P)
    (fed : Fed P) : Prop :=
  ∀ path, fed.1 = .unknown path →
    Watch.PartnerDiffers strategy feeding.1.pending ⟨path, now, statDevIno strategy fed.2⟩

theorem removeFirst_perm {A : Type} {condition : A → Bool} {items rest : List A} {found : A}
    (removed : removeFirst condition items = some (found, rest)) :
    items.find? condition = some found ∧ items.Perm (found :: rest) := by
  induction items generalizing rest with
  | nil => cases removed
  | cons first others ih =>
    rw [removeFirst] at removed
    split at removed
    · next meets =>
      cases removed
      exact ⟨by simp [meets], .refl _⟩
    · next fails =>
      obtain ⟨⟨inner, left⟩, later, same⟩ := Option.map_eq_some_iff.mp removed
      cases same
      obtain ⟨finds, perm⟩ := ih later
      exact ⟨by simp [fails, finds], (perm.cons first).trans (.swap _ _ _)⟩

theorem removeFirst_none {A : Type} {condition : A → Bool} {items : List A} :
    removeFirst condition items = none ↔ items.find? condition = none := by
  induction items with
  | nil => simp [removeFirst]
  | cons first others ih =>
    rw [removeFirst]
    split
    · next meets => simp [meets]
    · next fails => simp [fails, ih]

section Pairing

variable [DecidableEq P] {strategy : Strategy} {pending rest : List (Half P)} {arrival : Half P}

/-- A pair takes one waiting half, and renames a path to itself only if the partner is at the
path of the arrival. -/
theorem tryPair_some {emitted : Emitted P} (paired : tryPair strategy pending arrival = some (emitted, rest)) :
    ∃ partner, pending.Perm (partner :: rest) ∧
      (emitted = .renamed partner arrival ∨ emitted = .renamed arrival partner) ∧
      (partner.1.path ≠ arrival.1.path ↔ PartnerDiffers strategy pending arrival.1) := by
  cases strategy with
  | arrivalOrder =>
    cases pending with
    | nil => cases paired
    | cons first others =>
      cases paired
      exact ⟨first, .refl _, .inl rfl, by simp [PartnerDiffers]⟩
  | inode =>
    simp only [tryPair] at paired
    split at paired
    · next partner others removed =>
      cases paired
      obtain ⟨finds, perm⟩ := removeFirst_perm removed
      have matches_inode := List.find?_some finds
      have member := List.mem_of_find?_eq_some finds
      refine ⟨partner, perm, .inl rfl, ?_⟩
      have differs : partner.1.path ≠ arrival.1.path := by
        rw [sameInode] at matches_inode
        split at matches_inode
        · cases matches_inode
        · exact (by simpa using matches_inode : _ ∧ _).2
      exact iff_of_true differs (.inl ⟨partner, member, matches_inode⟩)
    · next noInode =>
      have noMatch : ¬∃ half ∈ pending, sameInode arrival.1 half = true := by
        rintro ⟨half, member, same⟩
        exact List.find?_eq_none.mp (removeFirst_none.mp noInode) half member same
      split at paired
      · next partner others removed =>
        obtain ⟨finds, perm⟩ := removeFirst_perm removed
        have told : partner.1.path ≠ arrival.1.path ↔ PartnerDiffers .inode pending arrival.1 := by
          simp [PartnerDiffers, noMatch, finds]
        split at paired <;> cases paired
        · exact ⟨partner, perm, .inl rfl, told⟩
        · exact ⟨partner, perm, .inr rfl, told⟩
      · cases paired

theorem tryPair_none (waits : tryPair strategy pending arrival = none) :
    PartnerDiffers strategy pending arrival.1 := by
  cases strategy with
  | arrivalOrder =>
    cases pending with
    | nil => simp [PartnerDiffers]
    | cons first others => cases waits
  | inode =>
    simp only [tryPair] at waits
    split at waits
    · cases waits
    · split at waits
      · split at waits <;> cases waits
      · next noComplement =>
        refine .inr ?_
        intro half finds
        rw [removeFirst_none.mp noComplement] at finds
        cases finds

end Pairing

section Expiry

variable (window now : Nat) (pending : List (Half P))

theorem expire_perm :
    ((expire window now pending).1.flatMap Emitted.halves ++ (expire window now pending).2).Perm pending := by
  induction pending with
  | nil => exact .refl _
  | cons half rest ih =>
    rw [expire]
    split
    · exact ih.cons half
    · exact List.perm_middle.trans (ih.cons half)

theorem expire_passing : (expire window now pending).1.filterMap Emitted.passing = [] := by
  induction pending with
  | nil => rfl
  | cons half rest ih =>
    rw [expire]
    split
    · exact (List.filterMap_cons_none rfl).trans ih
    · exact ih

theorem expire_young {half : Half P} (member : half ∈ (expire window now pending).2) :
    now < half.1.arrivedAt + window := by
  induction pending with
  | nil => cases member
  | cons first rest ih =>
    rw [expire] at member
    split at member
    · exact ih member
    · rcases List.mem_cons.mp member with rfl | later
      · omega
      · exact ih later

theorem expire_degrades {emitted : Emitted P} (member : emitted ∈ (expire window now pending).1) :
    ∃ half reason, emitted = .degraded half reason := by
  induction pending with
  | nil => cases member
  | cons first rest ih =>
    rw [expire] at member
    split at member
    · rcases List.mem_cons.mp member with rfl | later
      · exact ⟨_, _, rfl⟩
      · exact ih later
    · exact ih member

end Expiry

section Steps

variable [DecidableEq P] {strategy : Strategy} {now : Nat} {feeding : Feeding P}

/-- What has been fed is accounted for: each half once, everything else passed on. -/
structure Feeding.Accounts (feeding : Feeding P) (arrivals : List (PendingUnknown P))
    (others : List (FsChangeEvent P)) : Prop where
  number : feeding.1.arrived = arrivals.length
  once : (feeding.2.flatMap Emitted.halves ++ feeding.1.pending).Perm arrivals.zipIdx
  passed : feeding.2.filterMap Emitted.passing = others

theorem Feeding.handle_half (fed : Fed P) (path : P) (half : fed.1 = .unknown path) :
    Feeding.handle strategy now feeding fed =
      match tryPair strategy feeding.1.pending
        (⟨path, now, statDevIno strategy fed.2⟩, feeding.1.arrived) with
      | some (pair, rest) =>
        ({ feeding.1 with pending := rest, arrived := feeding.1.arrived + 1 }, feeding.2 ++ [pair])
      | none =>
        ({ feeding.1 with
            pending := feeding.1.pending ++ [(⟨path, now, statDevIno strategy fed.2⟩, feeding.1.arrived)]
            arrived := feeding.1.arrived + 1 }, feeding.2) := by
  rw [Feeding.handle, half]

theorem Feeding.handle_other (fed : Fed P) (other : ∀ path, fed.1 ≠ .unknown path) :
    Feeding.handle strategy now feeding fed = (feeding.1, feeding.2 ++ [.passed fed.1]) := by
  rw [Feeding.handle]
  split
  · next path half => exact absurd half (other path)
  · rfl

theorem Feeding.handle_window (fed : Fed P) :
    (Feeding.handle strategy now feeding fed).1.window = feeding.1.window := by
  rw [Feeding.handle]
  split
  · simp only
    split <;> rfl
  · rfl

/-- A half that arrives is paired or waits. -/
theorem Feeding.Accounts.half (strategy : Strategy) (now : Nat) {arrivals : List (PendingUnknown P)} {others : List (FsChangeEvent P)}
    (accounts : feeding.Accounts arrivals others) (fed : Fed P) (path : P) (half : fed.1 = .unknown path) :
    (Feeding.handle strategy now feeding fed).Accounts
      (arrivals ++ [⟨path, now, statDevIno strategy fed.2⟩]) others := by
  rw [Feeding.handle_half fed path half]
  have numbered : ∀ arrival : PendingUnknown P,
      (arrivals ++ [arrival]).zipIdx = arrivals.zipIdx ++ [(arrival, feeding.1.arrived)] := by
    intro arrival
    rw [List.zipIdx_append, accounts.number]
    simp
  cases tried : tryPair strategy feeding.1.pending
      (⟨path, now, statDevIno strategy fed.2⟩, feeding.1.arrived) with
  | none =>
    constructor
    · simp [accounts.number]
    · rw [numbered, ← List.append_assoc]
      exact accounts.once.append_right _
    · exact accounts.passed
  | some found =>
    obtain ⟨emitted, rest⟩ := found
    obtain ⟨partner, perm, sides, _⟩ := tryPair_some tried
    have settles : emitted.halves.Perm
        [partner, (⟨path, now, statDevIno strategy fed.2⟩, feeding.1.arrived)] := by
      rcases sides with rfl | rfl
      · exact .refl _
      · exact .swap _ _ _
    constructor
    · simp [accounts.number]
    · rw [numbered, List.flatMap_append, List.flatMap_singleton, List.append_assoc]
      have moved : (emitted.halves ++ rest).Perm
          (feeding.1.pending ++ [(⟨path, now, statDevIno strategy fed.2⟩, feeding.1.arrived)]) :=
        (settles.append_right rest).trans
          (((List.Perm.swap _ _ _).trans ((perm.symm.cons _))).trans
            (List.perm_append_singleton _ _).symm)
      refine (moved.append_left _).trans ?_
      rw [← List.append_assoc]
      exact accounts.once.append_right _
    · rw [← accounts.passed, List.filterMap_append]
      rcases sides with rfl | rfl <;> exact List.append_nil _

theorem Feeding.Accounts.other (strategy : Strategy) (now : Nat) {arrivals : List (PendingUnknown P)} {others : List (FsChangeEvent P)}
    (accounts : feeding.Accounts arrivals others) (fed : Fed P) (other : ∀ path, fed.1 ≠ .unknown path) :
    (Feeding.handle strategy now feeding fed).Accounts arrivals (others ++ [fed.1]) := by
  rw [Feeding.handle_other fed other]
  constructor
  · exact accounts.number
  · rw [List.flatMap_append]
    simpa [Emitted.halves] using accounts.once
  · rw [List.filterMap_append, accounts.passed]
    rfl

omit [DecidableEq P] in
theorem Feeding.Accounts.age {arrivals : List (PendingUnknown P)} {others : List (FsChangeEvent P)}
    (accounts : feeding.Accounts arrivals others) (now : Nat) :
    (Feeding.age now feeding).Accounts arrivals others := by
  constructor
  · exact accounts.number
  · rw [Feeding.age, List.flatMap_append, List.append_assoc]
    exact ((expire_perm feeding.1.window now feeding.1.pending).append_left _).trans accounts.once
  · rw [Feeding.age, List.filterMap_append, expire_passing, List.append_nil]
    exact accounts.passed

theorem Feeding.batch_eq (strategy : Strategy) (feeding : Feeding P) (batch : Batch P) :
    Feeding.batch strategy feeding batch =
      Feeding.age batch.now (batch.events.foldl (Feeding.handle strategy batch.now) feeding) := by
  have prefixed : ∀ (events : List (Fed P)) (pairer : RenamePairer P) (before after : List (Emitted P)),
      events.foldl (Feeding.handle strategy batch.now) (pairer, before ++ after) =
        ((events.foldl (Feeding.handle strategy batch.now) (pairer, after)).1,
          before ++ (events.foldl (Feeding.handle strategy batch.now) (pairer, after)).2) := by
    intro events
    induction events with
    | nil => intros; rfl
    | cons fed rest ih =>
      intro pairer before after
      rw [List.foldl_cons, List.foldl_cons]
      have step : Feeding.handle strategy batch.now (pairer, before ++ after) fed =
          ((Feeding.handle strategy batch.now (pairer, after) fed).1,
            before ++ (Feeding.handle strategy batch.now (pairer, after) fed).2) := by
        rw [Feeding.handle, Feeding.handle]
        split
        · simp only
          split <;> simp
        · simp
      rw [step, ih]
  obtain ⟨pairer, out⟩ := feeding
  have whole := prefixed batch.events pairer out []
  rw [List.append_nil] at whole
  rw [whole, Feeding.batch, RenamePairer.feed]
  simp [Feeding.age]

theorem Feeding.Accounts.handled {arrivals : List (PendingUnknown P)} {others : List (FsChangeEvent P)}
    (accounts : feeding.Accounts arrivals others) (events : List (Fed P)) (now : Nat) :
    (events.foldl (Feeding.handle strategy now) feeding).Accounts
      (arrivals ++ (⟨events, now⟩ : Batch P).arrivals strategy) (others ++ (⟨events, now⟩ : Batch P).others) := by
  induction events generalizing feeding arrivals others with
  | nil => simpa [Batch.arrivals, Batch.others] using accounts
  | cons fed rest ih =>
    rw [List.foldl_cons]
    by_cases kind : ∃ path, fed.1 = .unknown path
    · obtain ⟨path, half⟩ := kind
      have later := ih (accounts.half strategy now fed path half)
      simpa [Batch.arrivals, Batch.others, half] using later
    · have other : ∀ path, fed.1 ≠ .unknown path := fun path half => kind ⟨path, half⟩
      have later := ih (accounts.other strategy now fed other)
      obtain ⟨event, answer⟩ := fed
      cases event with
      | unknown path => exact absurd rfl (other path)
      | _ => simpa [Batch.arrivals, Batch.others] using later

theorem Feeding.distinct_handle (strategy : Strategy) (now : Nat) (feeding : Feeding P) (fed : Fed P) :
    (Feeding.handle strategy now feeding fed).Distinct ↔
      feeding.Distinct ∧ feeding.PartnerDiffers strategy now fed := by
  by_cases kind : ∃ path, fed.1 = .unknown path
  · obtain ⟨path, half⟩ := kind
    have differs : feeding.PartnerDiffers strategy now fed ↔
        Watch.PartnerDiffers strategy feeding.1.pending ⟨path, now, statDevIno strategy fed.2⟩ := by
      simp [Feeding.PartnerDiffers, half]
    rw [Feeding.handle_half fed path half, differs]
    cases tried : tryPair strategy feeding.1.pending
        (⟨path, now, statDevIno strategy fed.2⟩, feeding.1.arrived) with
    | none => exact (and_iff_left (tryPair_none tried)).symm
    | some found =>
      obtain ⟨emitted, rest⟩ := found
      obtain ⟨partner, _, sides, told⟩ := tryPair_some tried
      rw [← told]
      simp only [Feeding.Distinct, List.mem_append, List.mem_singleton]
      constructor
      · intro distinct
        refine ⟨fun origin destination member => distinct origin destination (.inl member), ?_⟩
        rcases sides with rfl | rfl
        · exact distinct _ _ (.inr rfl)
        · exact (distinct _ _ (.inr rfl)).symm
      · rintro ⟨distinct, differ⟩ origin destination (member | new)
        · exact distinct origin destination member
        · rcases sides with rfl | rfl <;> cases new
          · exact differ
          · exact differ.symm
  · have other : ∀ path, fed.1 ≠ .unknown path := fun path half => kind ⟨path, half⟩
    rw [Feeding.handle_other fed other]
    have differs : feeding.PartnerDiffers strategy now fed := fun path half => absurd half (other path)
    simp [Feeding.Distinct, differs]

omit [DecidableEq P] in
theorem Feeding.distinct_age (now : Nat) (feeding : Feeding P) :
    (Feeding.age now feeding).Distinct ↔ feeding.Distinct := by
  simp only [Feeding.age, Feeding.Distinct, List.mem_append]
  constructor
  · exact fun distinct origin destination member => distinct origin destination (.inl member)
  · rintro distinct origin destination (member | aged)
    · exact distinct origin destination member
    · obtain ⟨half, reason, same⟩ := expire_degrades feeding.1.window now feeding.1.pending aged
      cases same

end Steps

section Runs

variable [DecidableEq P]

theorem Feeding.Accounts.batch {strategy : Strategy} {feeding : Feeding P}
    {arrivals : List (PendingUnknown P)} {others : List (FsChangeEvent P)}
    (accounts : feeding.Accounts arrivals others) (batch : Batch P) :
    (Feeding.batch strategy feeding batch).Accounts (arrivals ++ batch.arrivals strategy)
      (others ++ batch.others) := by
  rw [Feeding.batch_eq]
  exact (accounts.handled batch.events batch.now).age batch.now

theorem Feeding.accounts_run (strategy : Strategy) (window : Nat) (batches : List (Batch P)) :
    (Feeding.run strategy window batches).Accounts (batches.flatMap (Batch.arrivals strategy))
      (batches.flatMap Batch.others) := by
  induction batches using List.reverseRecOn with
  | nil => exact ⟨rfl, .refl _, rfl⟩
  | append_singleton batches last ih =>
    have later := @Feeding.Accounts.batch _ _ strategy _ _ _ ih last
    rw [Feeding.run, List.foldl_append, List.flatMap_append, List.flatMap_append]
    simpa [Feeding.run] using later

theorem Feeding.handled_window (strategy : Strategy) (now : Nat) (feeding : Feeding P) (events : List (Fed P)) :
    (events.foldl (Feeding.handle strategy now) feeding).1.window = feeding.1.window := by
  induction events generalizing feeding with
  | nil => rfl
  | cons fed rest ih =>
    rw [List.foldl_cons, ih]
    exact Feeding.handle_window fed

theorem Feeding.run_window (strategy : Strategy) (window : Nat) (batches : List (Batch P)) :
    (Feeding.run strategy window batches).1.window = window := by
  induction batches using List.reverseRecOn with
  | nil => rfl
  | append_singleton batches last ih =>
    rw [Feeding.run, List.foldl_append, List.foldl_cons, List.foldl_nil, Feeding.batch_eq]
    exact (Feeding.handled_window strategy last.now _ last.events).trans ih

theorem Feeding.batch_young (strategy : Strategy) (feeding : Feeding P) (batch : Batch P) :
    ∀ half ∈ (Feeding.batch strategy feeding batch).1.pending,
      batch.now < half.1.arrivedAt + feeding.1.window := by
  intro half member
  rw [Feeding.batch_eq] at member
  have young := expire_young _ _ _ member
  rwa [Feeding.handled_window] at young

theorem Feeding.run_young (strategy : Strategy) (window : Nat) (batches : List (Batch P))
    (clock : batches.Pairwise fun earlier later => earlier.now ≤ later.now) :
    ∀ half ∈ (Feeding.run strategy window batches).1.pending, ∀ batch ∈ batches,
      batch.now < half.1.arrivedAt + window := by
  rcases List.eq_nil_or_concat batches with rfl | ⟨before, last, rfl⟩
  · intro half _ batch none_fed
    cases none_fed
  · intro half member batch fed
    rw [List.concat_eq_append] at member clock fed
    rw [Feeding.run, List.foldl_append] at member
    have young := Feeding.batch_young strategy _ last half member
    have same : (before.foldl (Feeding.batch strategy) (.new window, [])).1.window = window :=
      Feeding.run_window strategy window before
    rw [same] at young
    rcases List.mem_append.mp fed with earlier | isLast
    · have ordered := (List.pairwise_append.mp clock).2.2 batch earlier last (List.mem_singleton_self last)
      omega
    · rw [List.mem_singleton.mp isLast]
      exact young

/-- No half that arrives is at the path of the partner it gets. -/
def NeverOwnPartner (strategy : Strategy) (window : Nat) (batches : List (Batch P)) : Prop :=
  Run.Along (Feeding.batch strategy)
    (fun feeding batch => Run.Along (Feeding.handle strategy batch.now)
      (Feeding.PartnerDiffers strategy batch.now) feeding batch.events)
    (.new window, []) batches

/-- The rename pairer, over all batches and a last flush: each half is settled once, by one
rename or one degraded event, or waits; all else passes through in order; none waits once
fed at the end of its window; no rename leads from a path to itself. -/
structure Conserved (strategy : Strategy) (window : Nat) (batches : List (Batch P)) : Prop where
  once : ((Feeding.run strategy window batches).2.flatMap Emitted.halves ++
    (Feeding.run strategy window batches).1.pending).Perm
      (batches.flatMap (Batch.arrivals strategy)).zipIdx
  passed : (Feeding.run strategy window batches).2.filterMap Emitted.passing = batches.flatMap Batch.others
  expired : ∀ half ∈ (Feeding.run strategy window batches).1.pending, ∀ batch ∈ batches,
    batch.now < half.1.arrivedAt + window
  flushed : (Feeding.run strategy window batches).1.flush.1.pending = [] ∧
    (Feeding.run strategy window batches).1.flush.2.map Emitted.event =
      (Feeding.run strategy window batches).1.pending.map fun half =>
        .renameDegraded half.1.path "pairer flushed with pending half"
  distinct : ∀ origin destination,
    .renamed origin destination ∈ (Feeding.run strategy window batches).2 →
      origin.1.path ≠ destination.1.path

/-- The pairer conserves halves, and renames a path to itself exactly when a half gets a
partner at its own path. -/
theorem conserved_iff (strategy : Strategy) (window : Nat) (batches : List (Batch P))
    (clock : batches.Pairwise fun earlier later => earlier.now ≤ later.now) :
    Conserved strategy window batches ↔ NeverOwnPartner strategy window batches := by
  have perBatch : ∀ (feeding : Feeding P) (batch : Batch P),
      (Feeding.batch strategy feeding batch).Distinct ↔ feeding.Distinct ∧
        Run.Along (Feeding.handle strategy batch.now) (Feeding.PartnerDiffers strategy batch.now)
          feeding batch.events := by
    intro feeding batch
    rw [Feeding.batch_eq, Feeding.distinct_age]
    exact Run.along_iff (Feeding.distinct_handle strategy batch.now) batch.events feeding
  have whole := Run.along_iff perBatch batches (.new window, [])
  have none_yet : Feeding.Distinct ((.new window, []) : Feeding P) := by
    intro origin destination member
    cases member
  have accounts := Feeding.accounts_run strategy window batches
  constructor
  · intro conserved
    exact (whole.mp conserved.distinct).2
  · intro never
    constructor
    · exact accounts.once
    · exact accounts.passed
    · exact Feeding.run_young strategy window batches clock
    · exact ⟨rfl, by simp [RenamePairer.flush, Emitted.event]⟩
    · exact whole.mpr ⟨none_yet, never⟩

/-- Two different paths pair in arrival order. -/
theorem conserved_iff_pair :
    Conserved .arrivalOrder 5 [⟨[(.unknown "a", none)], 0⟩, ⟨[(.unknown "b", none)], 1⟩] ↔
      NeverOwnPartner .arrivalOrder 5 [⟨[(.unknown "a", none)], 0⟩, ⟨[(.unknown "b", none)], 1⟩] :=
  conserved_iff .arrivalOrder 5 _ (by decide)

/-- A path that is ambiguous in two batches is renamed to itself. -/
theorem renamed_to_itself :
    ¬Conserved .arrivalOrder 5 [⟨[(.unknown "a", none)], 0⟩, ⟨[(.unknown "a", none)], 1⟩] := by
  intro conserved
  have renamed := conserved.distinct (⟨"a", 0, none⟩, 0) (⟨"a", 1, none⟩, 1) (by decide)
  exact renamed rfl

end Runs

end Accounts

end Mille.Watch
