import Mathlib
import Mille.Lib.Run
import Mille.Git.Paths

/-! The reference counts of open checkouts. A session is kept under the realpath of its
root; the spellings its opens used are aliases for that key, and a later open of another
checkout may take an alias over. -/

namespace Mille.Git.Sessions

structure Entry where
  session : Nat
  refcount : Nat
  aliases : List Path

structure Registry where
  byKey : Path → Option Entry
  aliases : Path → Option Path

def Registry.empty : Registry := ⟨fun _ => none, fun _ => none⟩

namespace Registry

/-- The key a spelling stands for; `realpath` is `canonicalize_lenient` as the disk answers it
during the call. -/
def keyFor (registry : Registry) (realpath : Path → Path) (path : Path) : Option Path :=
  let lexical := normalizeLexical path
  match registry.aliases lexical with
  | some key => some key
  | none =>
    let real := realpath lexical
    if (registry.byKey real).isSome then some real else registry.aliases real

def lookup (registry : Registry) (realpath : Path → Path) (path : Path) : Option Nat :=
  ((registry.keyFor realpath path).bind registry.byKey).map Entry.session

/-- A second open of a caller path takes a reference without rediscovering. -/
def joinKnown (registry : Registry) (caller : Path) : Option (Registry × Nat) :=
  match registry.aliases caller with
  | none => none
  | some key =>
    match registry.byKey key with
    | none => none
    | some entry =>
      some ({ registry with
        byKey := Function.update registry.byKey key (some { entry with refcount := entry.refcount + 1 }) },
        entry.session)

/-- What an open may later be named by, the key among them. -/
def spellings (realpath : Path → Path) (root caller : Path) : List Path :=
  [caller, normalizeLexical root, realpath root, realpath caller]

/-- The spellings an entry lists once it lists these too. -/
def noted (aliases spellings : List Path) : List Path :=
  spellings.foldl (fun out spelling => if spelling ∈ out then out else out ++ [spelling]) aliases

/-- The alias table with every spelling inserted. -/
def pointed (aliases : Path → Option Path) (key : Path) (spellings : List Path) : Path → Option Path :=
  spellings.foldl (fun table spelling => Function.update table spelling (some key)) aliases

/-- The registry with one more reference to the entry at a key, and its spellings known. -/
def taken (registry : Registry) (key : Path) (entry : Entry) (spelled : List Path) : Registry where
  byKey := Function.update registry.byKey key
    (some { entry with refcount := entry.refcount + 1, aliases := noted entry.aliases spelled })
  aliases := pointed registry.aliases key spelled

/-- Inserts the discovered checkout as session `fresh`, or joins the one with its key. -/
def insertOrJoin (registry : Registry) (realpath : Path → Path) (fresh : Nat) (root caller : Path) :
    Registry × Nat :=
  let key := realpath root
  let entry := (registry.byKey key).getD ⟨fresh, 0, []⟩
  (registry.taken key entry (spellings realpath root caller), entry.session)

/-- Drops one reference; the session when that was the last one. -/
def release (registry : Registry) (realpath : Path → Path) (path : Path) : Registry × Option Nat :=
  match registry.keyFor realpath path with
  | none => (registry, none)
  | some key =>
    match registry.byKey key with
    | none => (registry, none)
    | some entry =>
      if 0 < entry.refcount - 1 then
        ({ registry with
          byKey := Function.update registry.byKey key (some { entry with refcount := entry.refcount - 1 }) },
          none)
      else
        (⟨Function.update registry.byKey key none,
          fun path => if path ∈ entry.aliases then none else registry.aliases path⟩, some entry.session)

end Registry

/-- An open that has not been closed: the path it was given and the session it returned. -/
structure Open where
  path : Path
  session : Nat
deriving DecidableEq

/-- The registry with the ledger of its callers. -/
structure World where
  registry : Registry
  /-- Sessions made so far, numbered in order. -/
  sessions : Nat
  outstanding : List Open
  /-- Sessions the opens returned, those of the opens closed since, and those that `release`
  handed out for shutdown. -/
  returned : List Nat
  closed : List Nat
  released : List Nat

def World.new : World := ⟨.empty, 0, [], [], [], []⟩

inductive Event where
  /-- The first half of an open: it is over when the caller path is known already. -/
  | join (path : Path)
  /-- The second half, once discovery found `root`. -/
  | insert (path : Path) (realpath : Path → Path) (root : Path)
  /-- The close of an outstanding open, by the path that open was given. -/
  | close (index : Nat) (realpath : Path → Path)

namespace World

def opened (world : World) (registry : Registry) (path : Path) (session : Nat) : World :=
  { world with
    registry
    outstanding := world.outstanding ++ [⟨path, session⟩]
    returned := world.returned ++ [session] }

def step (world : World) : Event → World
  | .join path =>
    match world.registry.joinKnown (normalizeLexical path) with
    | none => world
    | some (registry, session) => world.opened registry path session
  | .insert path realpath root =>
    let inserted := world.registry.insertOrJoin realpath world.sessions root (normalizeLexical path)
    let created := (world.registry.byKey (realpath root)).isNone
    { world.opened inserted.1 path inserted.2 with
      sessions := if created then world.sessions + 1 else world.sessions }
  | .close index realpath =>
    match world.outstanding[index]? with
    | none => world
    | some entered =>
      let result := world.registry.release realpath entered.path
      { world with
        registry := result.1
        outstanding := world.outstanding.eraseIdx index
        closed := world.closed ++ [entered.session]
        released := world.released ++ result.2.toList }

/-- What the registry promises its callers, whatever realpath answers from now on. -/
structure Kept (world : World) : Prop where
  /-- The session an open returned is registered and reachable by the path of that open. -/
  reachable : ∀ entered ∈ world.outstanding, ∀ realpath : Path → Path,
    world.registry.lookup realpath entered.path = some entered.session
  /-- `release` handed out a session exactly when as many closes were made for its opens as
  there were opens, and handed it out once. -/
  released : ∀ session, session ∈ world.released ↔
    session ∈ world.returned ∧ world.closed.count session = world.returned.count session
  once : world.released.Nodup
  live : ∀ spelling key, world.registry.aliases spelling = some key → (world.registry.byKey key).isSome
  emptied : world.outstanding = [] → world.registry = .empty

/-- The steps that leave other sessions' aliases alone: no open is named by, or rooted at, a
path that an outstanding open of another session was given, and no session's last close
drops such a path. -/
def Apart (world : World) : Event → Prop
  | .join _ => True
  | .insert path realpath root =>
    ∀ entered ∈ world.outstanding,
      normalizeLexical entered.path ∈ Registry.spellings realpath root (normalizeLexical path) →
        (world.registry.byKey (realpath root)).map Entry.session = some entered.session
  | .close index _ =>
    ∀ ending, world.outstanding[index]? = some ending →
      (world.outstanding.map Open.session).count ending.session = 1 →
        ∀ key entry, world.registry.byKey key = some entry → entry.session = ending.session →
          ∀ entered ∈ world.outstanding, entered.session ≠ ending.session →
            normalizeLexical entered.path ∉ entry.aliases

end World

theorem mem_noted {aliases spelled : List Path} {path : Path} :
    path ∈ Registry.noted aliases spelled ↔ path ∈ aliases ∨ path ∈ spelled := by
  unfold Registry.noted
  induction spelled generalizing aliases with
  | nil => simp
  | cons spelling rest ih =>
    rw [List.foldl_cons, ih]
    split
    case isTrue known =>
      rw [List.mem_cons]
      constructor
      · exact Or.imp_right .inr
      · rintro (listed | rfl | later)
        · exact .inl listed
        · exact .inl known
        · exact .inr later
    case isFalse =>
      rw [List.mem_append, List.mem_singleton, List.mem_cons, or_assoc]

theorem pointed_apply (aliases : Path → Option Path) (key : Path) (spelled : List Path) (path : Path) :
    Registry.pointed aliases key spelled path = if path ∈ spelled then some key else aliases path := by
  unfold Registry.pointed
  induction spelled generalizing aliases with
  | nil => simp
  | cons spelling rest ih =>
    rw [List.foldl_cons, ih]
    by_cases later : path ∈ rest
    · simp [later]
    · by_cases same : path = spelling
      · simp [same]
      · simp [later, same]

namespace World

variable {world : World}

/-- Sessions of the outstanding opens. -/
def held (world : World) : List Nat := world.outstanding.map Open.session

theorem opened_held (registry : Registry) (path : Path) (session : Nat) :
    (world.opened registry path session).held = world.held ++ [session] :=
  List.map_append

/-- The tables agree with each other and with the ledger. -/
structure Sound (world : World) : Prop where
  live : ∀ {spelling key}, world.registry.aliases spelling = some key →
    ∃ entry, world.registry.byKey key = some entry ∧ spelling ∈ entry.aliases
  keyed : ∀ {key entry}, world.registry.byKey key = some entry → key ∈ entry.aliases
  distinct : ∀ {key other entry others}, world.registry.byKey key = some entry →
    world.registry.byKey other = some others → entry.session = others.session → key = other
  counted : ∀ {key entry}, world.registry.byKey key = some entry →
    entry.refcount = world.held.count entry.session
  positive : ∀ {key entry}, world.registry.byKey key = some entry → 0 < entry.refcount
  leads : ∀ entered ∈ world.outstanding, ∃ key entry,
    world.registry.aliases (normalizeLexical entered.path) = some key ∧
      world.registry.byKey key = some entry ∧ entry.session = entered.session
  balance : ∀ session, world.returned.count session = world.closed.count session + world.held.count session
  issued : ∀ session ∈ world.returned, session < world.sessions
  handed : ∀ session, session ∈ world.released ↔ session ∈ world.returned ∧ session ∉ world.held
  once : world.released.Nodup

namespace Sound

theorem new : Sound .new where
  live found := nomatch found
  keyed found := nomatch found
  distinct found := nomatch found
  counted found := nomatch found
  positive found := nomatch found
  leads := by simp [World.new]
  balance _ := rfl
  issued := by simp [World.new]
  handed := by simp [World.new]
  once := List.nodup_nil

theorem mem_held (sound : Sound world) {key : Path} {entry : Entry}
    (found : world.registry.byKey key = some entry) : entry.session ∈ world.held := by
  apply List.count_pos_iff.mp
  rw [← sound.counted found]
  exact sound.positive found

theorem held_returned (sound : Sound world) {session : Nat} (held : session ∈ world.held) :
    session ∈ world.returned := by
  have counted := sound.balance session
  have positive := List.count_pos_iff.mpr held
  exact List.count_pos_iff.mp (by omega)

theorem held_lt (sound : Sound world) {session : Nat} (held : session ∈ world.held) :
    session < world.sessions :=
  sound.issued session (sound.held_returned held)

theorem lookup_eq {registry : Registry} {path key : Path} {entry : Entry}
    (points : registry.aliases (normalizeLexical path) = some key)
    (found : registry.byKey key = some entry) (realpath : Path → Path) :
    registry.lookup realpath path = some entry.session := by
  simp [Registry.lookup, Registry.keyFor, points, found]

theorem kept (sound : Sound world) : Kept world where
  reachable := by
    intro entered outstanding realpath
    obtain ⟨key, entry, points, found, same⟩ := sound.leads entered outstanding
    rw [lookup_eq points found, same]
  released := by
    intro session
    rw [sound.handed session, sound.balance session, ← List.count_eq_zero]
    apply and_congr_right
    intro _
    omega
  once := sound.once
  live := by
    intro spelling key points
    obtain ⟨entry, found, _⟩ := sound.live points
    exact Option.isSome_iff_exists.mpr ⟨entry, found⟩
  emptied := by
    intro none_outstanding
    have no_entry : ∀ key, world.registry.byKey key = none := by
      intro key
      by_contra present
      obtain ⟨entry, found⟩ := Option.ne_none_iff_exists'.mp present
      have held := sound.mem_held found
      rw [World.held, none_outstanding] at held
      exact absurd held List.not_mem_nil
    have no_alias : ∀ spelling, world.registry.aliases spelling = none := by
      intro spelling
      by_contra present
      obtain ⟨key, points⟩ := Option.ne_none_iff_exists'.mp present
      obtain ⟨entry, found, _⟩ := sound.live points
      exact absurd (no_entry key) (by simp [found])
    have byKey : world.registry.byKey = fun _ => none := funext no_entry
    have aliases : world.registry.aliases = fun _ => none := funext no_alias
    calc world.registry = ⟨world.registry.byKey, world.registry.aliases⟩ := rfl
      _ = .empty := by rw [byKey, aliases, Registry.empty]

/-- An open adds a reference to the entry at a key, or makes the entry. -/
theorem taken (sound : Sound world) {key path : Path} {base : Entry} {spelled : List Path} {sessions : Nat}
    (based : world.registry.byKey key = some base ∨
      world.registry.byKey key = none ∧ base = ⟨world.sessions, 0, []⟩)
    (listed : key ∈ Registry.noted base.aliases spelled)
    (points : Registry.pointed world.registry.aliases key spelled (normalizeLexical path) = some key)
    (apart : ∀ entered ∈ world.outstanding, normalizeLexical entered.path ∈ spelled →
      (world.registry.byKey key).map Entry.session = some entered.session)
    (grown : world.sessions ≤ sessions) (below : base.session < sessions) :
    Sound { world.opened (world.registry.taken key base spelled) path base.session with sessions } := by
  have others : ∀ {other entry}, other ≠ key → world.registry.byKey other = some entry →
      entry.session ≠ base.session := by
    intro other entry apart found same
    rcases based with joined | ⟨_, rfl⟩
    · exact apart (sound.distinct found joined same)
    · exact absurd (sound.held_lt (sound.mem_held found)) (by simp [same])
  have refcount : base.refcount = world.held.count base.session := by
    rcases based with joined | ⟨_, rfl⟩
    · exact sound.counted joined
    · exact (List.count_eq_zero_of_not_mem fun held => absurd (sound.held_lt held) (lt_irrefl _)).symm
  have unreleased : base.session ∉ world.released := by
    intro released
    obtain ⟨returned, gone⟩ := (sound.handed _).mp released
    rcases based with joined | ⟨_, rfl⟩
    · exact gone (sound.mem_held joined)
    · exact absurd (sound.issued _ returned) (lt_irrefl _)
  have at_key {entry : Entry}
      (found : (world.registry.taken key base spelled).byKey key = some entry) :
      entry = { base with refcount := base.refcount + 1, aliases := Registry.noted base.aliases spelled } := by
    simpa [Registry.taken] using found.symm
  have elsewhere {other : Path} (apart : other ≠ key) :
      (world.registry.taken key base spelled).byKey other = world.registry.byKey other := by
    simp [Registry.taken, apart]
  have here : (world.registry.taken key base spelled).byKey key =
      some { base with refcount := base.refcount + 1, aliases := Registry.noted base.aliases spelled } := by
    simp [Registry.taken]
  constructor
  case live =>
    intro spelling target points
    simp only [opened, Registry.taken, pointed_apply] at points
    split at points
    case isTrue named =>
      cases points
      exact ⟨_, here, mem_noted.mpr (.inr named)⟩
    case isFalse =>
      obtain ⟨entry, found, names⟩ := sound.live points
      by_cases same : target = key
      · subst same
        rcases based with joined | ⟨missing, _⟩
        · rw [found] at joined
          cases joined
          exact ⟨_, here, mem_noted.mpr (.inl names)⟩
        · simp [missing] at found
      · exact ⟨entry, (elsewhere same).trans found, names⟩
  case keyed =>
    intro other entry found
    by_cases same : other = key
    · subst same
      rw [at_key found]
      exact listed
    · exact sound.keyed ((elsewhere same).symm.trans found)
  case distinct =>
    intro first second entry other found found' same
    by_cases isFirst : first = key
    · by_cases isSecond : second = key
      · rw [isFirst, isSecond]
      · subst isFirst
        rw [at_key found] at same
        exact absurd same.symm (others isSecond ((elsewhere isSecond).symm.trans found'))
    · by_cases isSecond : second = key
      · subst isSecond
        rw [at_key found'] at same
        exact absurd same (others isFirst ((elsewhere isFirst).symm.trans found))
      · exact sound.distinct ((elsewhere isFirst).symm.trans found) ((elsewhere isSecond).symm.trans found') same
  case counted =>
    intro other entry found
    change entry.refcount = List.count entry.session
      (world.opened (world.registry.taken key base spelled) path base.session).held
    rw [opened_held, List.count_append]
    by_cases same : other = key
    · subst same
      rw [at_key found]
      simp [refcount]
    · have before := (elsewhere same).symm.trans found
      rw [sound.counted before, List.count_singleton, if_neg (by simpa using (others same before).symm)]
      rfl
  case positive =>
    intro other entry found
    by_cases same : other = key
    · subst same
      rw [at_key found]
      exact Nat.succ_pos _
    · exact sound.positive ((elsewhere same).symm.trans found)
  case leads =>
    intro entered member
    rcases List.mem_append.mp member with before | last
    · obtain ⟨target, entry, leading, found, session⟩ := sound.leads entered before
      simp only [opened, Registry.taken, pointed_apply]
      split
      case isTrue named =>
        refine ⟨key, _, rfl, here, ?_⟩
        have owner := apart entered before named
        rcases based with joined | ⟨missing, _⟩
        · simpa [joined] using owner
        · simp [missing] at owner
      case isFalse =>
        by_cases same : target = key
        · subst same
          refine ⟨target, _, leading, here, ?_⟩
          rcases based with joined | ⟨missing, _⟩
          · rw [found] at joined
            cases joined
            exact session
          · simp [missing] at found
        · exact ⟨target, entry, leading, (elsewhere same).trans found, session⟩
    · rw [List.mem_singleton.mp last]
      exact ⟨key, _, points, here, rfl⟩
  case balance =>
    intro session
    change List.count session (world.returned ++ [base.session]) = List.count session world.closed +
      List.count session (world.opened (world.registry.taken key base spelled) path base.session).held
    rw [opened_held, List.count_append, List.count_append, sound.balance session, Nat.add_assoc]
  case issued =>
    intro session member
    rcases List.mem_append.mp member with before | last
    · exact lt_of_lt_of_le (sound.issued session before) grown
    · exact (List.mem_singleton.mp last) ▸ below
  case handed =>
    intro session
    change session ∈ world.released ↔ session ∈ world.returned ++ [base.session] ∧
      session ∉ (world.opened (world.registry.taken key base spelled) path base.session).held
    rw [opened_held]
    by_cases same : session = base.session
    · subst same
      simp [unreleased]
    · simp [same, sound.handed session]
  case once => exact sound.once

theorem release_eq {registry : Registry} {path key : Path} {entry : Entry}
    (points : registry.aliases (normalizeLexical path) = some key)
    (found : registry.byKey key = some entry) (realpath : Path → Path) :
    registry.release realpath path =
      if 0 < entry.refcount - 1 then
        ({ registry with
          byKey := Function.update registry.byKey key (some { entry with refcount := entry.refcount - 1 }) },
          none)
      else
        (⟨Function.update registry.byKey key none,
          fun path => if path ∈ entry.aliases then none else registry.aliases path⟩, some entry.session) := by
  simp [Registry.release, Registry.keyFor, points, found]

section Close

variable {key : Path} {entry : Entry} {ending : Open} {rest : List Open}

theorem count_rest (left : world.outstanding.Perm (ending :: rest)) (session : Nat) :
    world.held.count session =
      (rest.map Open.session).count session + if ending.session = session then 1 else 0 := by
  rw [held, (left.map Open.session).count_eq, List.map_cons, List.count_cons]
  simp only [beq_iff_eq]

/-- A close that is not the last one of its session. -/
theorem dropped (sound : Sound world) (left : world.outstanding.Perm (ending :: rest))
    (found : world.registry.byKey key = some entry) (own : entry.session = ending.session)
    (more : 0 < entry.refcount - 1) :
    Sound { world with
      registry := { world.registry with
        byKey := Function.update world.registry.byKey key
          (some { entry with refcount := entry.refcount - 1 }) }
      outstanding := rest
      closed := world.closed ++ [ending.session] } := by
  have at_key {other : Path} {target : Entry}
      (here : Function.update world.registry.byKey key
        (some { entry with refcount := entry.refcount - 1 }) other = some target) :
      ∃ before, world.registry.byKey other = some before ∧ target.session = before.session ∧
        target.aliases = before.aliases ∧ 0 < target.refcount ∧
        target.refcount = (rest.map Open.session).count target.session := by
    by_cases same : other = key
    · subst same
      rw [Function.update_self] at here
      cases here
      refine ⟨entry, found, rfl, rfl, more, ?_⟩
      have counted := sound.counted found
      rw [count_rest left, if_pos own.symm] at counted
      simp only [counted]
      omega
    · rw [Function.update_of_ne same] at here
      refine ⟨target, here, rfl, rfl, sound.positive here, ?_⟩
      have counted := sound.counted here
      rw [count_rest left, if_neg] at counted
      · exact counted
      · intro shared
        exact same (sound.distinct here found (shared.symm.trans own.symm))
  have still {other : Path} {before : Entry} (here : world.registry.byKey other = some before) :
      ∃ target, Function.update world.registry.byKey key
          (some { entry with refcount := entry.refcount - 1 }) other = some target ∧
        target.session = before.session ∧ target.aliases = before.aliases := by
    by_cases same : other = key
    · subst same
      rw [found] at here
      cases here
      exact ⟨_, Function.update_self .., rfl, rfl⟩
    · exact ⟨before, by rw [Function.update_of_ne same, here], rfl, rfl⟩
  constructor
  case live =>
    intro spelling target points
    obtain ⟨before, here, names⟩ := sound.live points
    obtain ⟨after, there, _, aliases⟩ := still here
    exact ⟨after, there, aliases ▸ names⟩
  case keyed =>
    intro other target here
    obtain ⟨before, there, _, aliases, _⟩ := at_key here
    exact aliases ▸ sound.keyed there
  case distinct =>
    intro first second one other here there same
    obtain ⟨before, was, session, _⟩ := at_key here
    obtain ⟨before', was', session', _⟩ := at_key there
    exact sound.distinct was was' (session.symm.trans (same.trans session'))
  case counted =>
    intro other target here
    obtain ⟨_, _, _, _, _, counted⟩ := at_key here
    exact counted
  case positive =>
    intro other target here
    obtain ⟨_, _, _, _, positive, _⟩ := at_key here
    exact positive
  case leads =>
    intro entered member
    obtain ⟨target, before, points, here, session⟩ :=
      sound.leads entered (left.mem_iff.mpr (List.mem_cons_of_mem _ member))
    obtain ⟨after, there, same, _⟩ := still here
    exact ⟨target, after, points, there, same.trans session⟩
  case balance =>
    intro session
    have before := sound.balance session
    rw [count_rest left] at before
    simp only [held, List.count_append, List.count_singleton, beq_iff_eq]
    omega
  case issued => exact sound.issued
  case handed =>
    intro session
    rw [sound.handed session, ← List.count_eq_zero, ← List.count_eq_zero, count_rest left]
    apply and_congr_right
    intro _
    simp only [held]
    split
    case isTrue same =>
      have counted := sound.counted found
      rw [count_rest left, if_pos own.symm, own, same] at counted
      omega
    case isFalse => rfl
  case once => exact sound.once

/-- The last close of a session removes its entry and the aliases it lists. -/
theorem forgotten (sound : Sound world) (left : world.outstanding.Perm (ending :: rest))
    (found : world.registry.byKey key = some entry) (own : entry.session = ending.session)
    (last : ¬0 < entry.refcount - 1)
    (apart : ∀ entered ∈ rest, normalizeLexical entered.path ∉ entry.aliases) :
    Sound { world with
      registry :=
        ⟨Function.update world.registry.byKey key none,
          fun path => if path ∈ entry.aliases then none else world.registry.aliases path⟩
      outstanding := rest
      closed := world.closed ++ [ending.session]
      released := world.released ++ [entry.session] } := by
  have gone : (rest.map Open.session).count ending.session = 0 := by
    have counted := sound.counted found
    rw [count_rest left, if_pos own.symm, own] at counted
    omega
  have elsewhere {other : Path} {target : Entry}
      (here : Function.update world.registry.byKey key none other = some target) :
      other ≠ key ∧ world.registry.byKey other = some target := by
    by_cases same : other = key
    · subst same
      simp at here
    · exact ⟨same, by rwa [Function.update_of_ne same] at here⟩
  have rests {session : Nat} (other : session ≠ ending.session) :
      world.held.count session = (rest.map Open.session).count session := by
    rw [count_rest left, if_neg other.symm, Nat.add_zero]
  constructor
  case live =>
    intro spelling target points
    simp only at points
    split at points
    case isTrue => cases points
    case isFalse unlisted =>
      obtain ⟨before, here, names⟩ := sound.live points
      have apart : target ≠ key := by
        rintro rfl
        rw [found] at here
        cases here
        exact unlisted names
      exact ⟨before, by simp [apart, here], names⟩
  case keyed =>
    intro other target here
    exact sound.keyed (elsewhere here).2
  case distinct =>
    intro first second one other here there same
    exact sound.distinct (elsewhere here).2 (elsewhere there).2 same
  case counted =>
    intro other target here
    obtain ⟨apart, there⟩ := elsewhere here
    rw [sound.counted there]
    apply rests
    intro same
    exact apart (sound.distinct there found (same.trans own.symm))
  case positive =>
    intro other target here
    exact sound.positive (elsewhere here).2
  case leads =>
    intro entered member
    obtain ⟨target, before, points, here, session⟩ :=
      sound.leads entered (left.mem_iff.mpr (List.mem_cons_of_mem _ member))
    have away : target ≠ key := by
      rintro rfl
      rw [found] at here
      cases here
      have counted : 0 < (rest.map Open.session).count entered.session :=
        List.count_pos_iff.mpr (List.mem_map_of_mem member)
      rw [← session, own] at counted
      omega
    exact ⟨target, before, by simp [apart entered member, points], by simp [away, here], session⟩
  case balance =>
    intro session
    have before := sound.balance session
    rw [count_rest left] at before
    simp only [held, List.count_append, List.count_singleton, beq_iff_eq]
    omega
  case issued => exact sound.issued
  case handed =>
    intro session
    rw [List.mem_append, List.mem_singleton, sound.handed session, own]
    by_cases same : session = ending.session
    · subst same
      have returned := sound.held_returned (own ▸ sound.mem_held found)
      simp only [or_true, true_iff]
      exact ⟨returned, List.count_eq_zero.mp gone⟩
    · simp only [same, or_false]
      rw [← List.count_eq_zero, ← List.count_eq_zero, rests same]
      rfl
  case once =>
    apply List.nodup_append.mpr
    refine ⟨sound.once, List.nodup_singleton _, ?_⟩
    intro session released other closes same
    rw [List.mem_singleton.mp closes] at same
    exact ((sound.handed session).mp released).2 (same ▸ sound.mem_held found)

end Close

theorem join (sound : Sound world) (path : Path) : Sound (world.step (.join path)) := by
  simp only [step, Registry.joinKnown]
  cases points : world.registry.aliases (normalizeLexical path) with
  | none => exact sound
  | some key =>
    obtain ⟨entry, found, _⟩ := sound.live points
    simp only [found]
    have unspelled : Registry.pointed world.registry.aliases key [] (normalizeLexical path) = some key := points
    exact sound.taken (.inl found) (mem_noted.mpr (.inl (sound.keyed found))) unspelled
      (fun _ _ named => absurd named List.not_mem_nil) le_rfl (sound.held_lt (sound.mem_held found))

theorem insert (sound : Sound world) {path root : Path} {realpath : Path → Path}
    (apart : Apart world (.insert path realpath root)) :
    Sound (world.step (.insert path realpath root)) := by
  have listed (aliases : List Path) : realpath root ∈ Registry.noted aliases
      (Registry.spellings realpath root (normalizeLexical path)) :=
    mem_noted.mpr (.inr (by simp [Registry.spellings]))
  have points : Registry.pointed world.registry.aliases (realpath root)
      (Registry.spellings realpath root (normalizeLexical path)) (normalizeLexical path) =
      some (realpath root) := by
    rw [pointed_apply, if_pos (by simp [Registry.spellings])]
  simp only [step, Registry.insertOrJoin]
  cases found : world.registry.byKey (realpath root) with
  | none => exact sound.taken (.inr ⟨found, rfl⟩) (listed _) points apart (Nat.le_succ _) (Nat.lt_succ_self _)
  | some entry =>
    exact sound.taken (.inl found) (listed _) points apart le_rfl (sound.held_lt (sound.mem_held found))

theorem perm_eraseIdx {opens : List Open} {index : Nat} {ending : Open}
    (there : opens[index]? = some ending) : opens.Perm (ending :: opens.eraseIdx index) := by
  obtain ⟨inside, rfl⟩ := List.getElem?_eq_some_iff.mp there
  exact (List.getElem_cons_eraseIdx_perm inside).symm

theorem close (sound : Sound world) {index : Nat} {realpath : Path → Path}
    (apart : Apart world (.close index realpath)) : Sound (world.step (.close index realpath)) := by
  simp only [step]
  cases there : world.outstanding[index]? with
  | none => exact sound
  | some ending =>
    have left := perm_eraseIdx there
    obtain ⟨key, entry, points, found, own⟩ := sound.leads ending (List.mem_of_getElem? there)
    simp only [release_eq points found]
    split
    case isTrue more =>
      simp only [Option.toList_none, List.append_nil]
      exact sound.dropped left found own more
    case isFalse last =>
      have counted := sound.counted found
      have positive := sound.positive found
      refine sound.forgotten left found own last ?_
      intro entered member
      have single : world.held.count ending.session = 1 := by
        rw [own] at counted
        omega
      apply apart ending there single key entry found own entered
        (left.mem_iff.mpr (List.mem_cons_of_mem _ member))
      intro same
      have more : 0 < ((world.outstanding.eraseIdx index).map Open.session).count ending.session :=
        List.count_pos_iff.mpr (same ▸ List.mem_map_of_mem member)
      rw [count_rest left, if_pos rfl] at single
      omega

theorem step (sound : Sound world) {event : Event} (apart : Apart world event) : Sound (world.step event) := by
  cases event with
  | join path => exact sound.join path
  | insert path realpath root => exact sound.insert apart
  | close index realpath => exact sound.close apart

theorem apart_insert (sound : Sound world) {path root : Path} {realpath : Path → Path}
    (kept : Kept (world.step (.insert path realpath root))) : Apart world (.insert path realpath root) := by
  intro entered outstanding named
  have reached := kept.reachable entered (List.mem_append_left _ outstanding) realpath
  have session : ((world.registry.byKey (realpath root)).getD ⟨world.sessions, 0, []⟩).session =
      entered.session := by
    have points : (world.step (.insert path realpath root)).registry.aliases
        (normalizeLexical entered.path) = some (realpath root) :=
      (pointed_apply _ _ _ _).trans (if_pos named)
    have here : (world.step (.insert path realpath root)).registry.byKey (realpath root) = some _ :=
      Function.update_self ..
    rw [lookup_eq points here] at reached
    exact Option.some.inj reached
  cases found : world.registry.byKey (realpath root) with
  | some entry => simpa [found] using session
  | none =>
    have below := sound.held_lt (List.mem_map_of_mem outstanding)
    simp [found] at session
    omega

/-- A last close that drops an outstanding path of another session leaves that path to realpath,
which may answer the key that was just removed. -/
theorem apart_close (sound : Sound world) {index : Nat} {realpath : Path → Path}
    (kept : Kept (world.step (.close index realpath))) : Apart world (.close index realpath) := by
  intro ending there single key entry found own entered outstanding other listed
  obtain ⟨target, base, points, here, same⟩ := sound.leads ending (List.mem_of_getElem? there)
  have key_eq : target = key := sound.distinct here found (same.trans own.symm)
  subst key_eq
  rw [found] at here
  cases here
  have last : ¬0 < entry.refcount - 1 := by
    have counted := sound.counted found
    rw [own] at counted
    change world.held.count ending.session = 1 at single
    omega
  have remaining : entered ∈ world.outstanding.eraseIdx index := by
    rcases List.mem_cons.mp ((perm_eraseIdx there).mem_iff.mp outstanding) with rfl | member
    · exact absurd rfl other
    · exact member
  simp only [World.step, there, release_eq points found, if_neg last] at kept
  have reached := kept.reachable entered remaining (fun _ => target)
  simp [Registry.lookup, Registry.keyFor, listed, sound.keyed found] at reached

theorem kept_iff (sound : Sound world) (event : Event) : Kept (world.step event) ↔ Apart world event := by
  constructor
  · intro kept
    cases event with
    | join path => trivial
    | insert path realpath root => exact sound.apart_insert kept
    | close index realpath => exact sound.apart_close kept
  · exact fun apart => (sound.step apart).kept

end Sound

/-- Over every sequence of opens and closes, with discovery and realpath answering each call as
they like, the registry keeps its promises after every step exactly when no step takes over
or drops a path that an outstanding open of another session was given. -/
theorem registry_kept_iff (events : List Event) :
    Run.Along step (fun world event => Kept (world.step event)) .new events ↔
      Run.Along step Apart .new events :=
  Run.along_congr (fun _ event sound => sound.kept_iff event)
    (fun _ event sound kept => sound.step ((sound.kept_iff event).mp kept)) events Sound.new

end World

private def named (names : List String) : Path := names.map fun name => .normal (.utf8 name)

/-- One link, to a package of a checkout. -/
private def linked (path : Path) : Path :=
  if path = named ["link"] then named ["w", "sub"] else path

/-- A package is opened while it belongs to the checkout above it; a repository is created
in it, and it is opened once more through a link. -/
private def takenOver : World :=
  [.join (named ["w", "sub"]), .insert (named ["w", "sub"]) linked (named ["w"]),
    .join (named ["link"]), .insert (named ["link"]) linked (named ["w", "sub"])].foldl World.step .new

private def closedFirst : World := takenOver.step (.close 0 linked)

private def closedBoth : World := closedFirst.step (.close 0 linked)

/-- The first open's path now leads to the second session; its close shuts that one down, which
leaves the second open without a session and the first session registered for ever. -/
theorem close_releases_other :
    (takenOver.outstanding = [⟨named ["w", "sub"], 0⟩, ⟨named ["link"], 1⟩] ∧
        takenOver.registry.lookup linked (named ["w", "sub"]) = some 1 ∧ ¬takenOver.Kept) ∧
      (closedFirst.outstanding = [⟨named ["link"], 1⟩] ∧ closedFirst.released = [1] ∧
        closedFirst.registry.lookup linked (named ["link"]) = none ∧ ¬closedFirst.Kept) ∧
      closedBoth.outstanding = [] ∧ (closedBoth.registry.byKey (named ["w"])).isSome ∧ ¬closedBoth.Kept := by
  have shared : takenOver.outstanding = [⟨named ["w", "sub"], 0⟩, ⟨named ["link"], 1⟩] ∧
      takenOver.registry.lookup linked (named ["w", "sub"]) = some 1 := by decide
  have first : closedFirst.outstanding = [⟨named ["link"], 1⟩] ∧ closedFirst.released = [1] ∧
      closedFirst.registry.lookup linked (named ["link"]) = none := by decide
  have both : closedBoth.outstanding = [] ∧ (closedBoth.registry.byKey (named ["w"])).isSome := by decide
  refine ⟨⟨shared.1, shared.2, ?_⟩, ⟨first.1, first.2.1, first.2.2, ?_⟩, both.1, both.2, ?_⟩
  · intro kept
    have reached := kept.reachable ⟨named ["w", "sub"], 0⟩ (shared.1 ▸ List.mem_cons_self) linked
    exact absurd (shared.2.symm.trans reached) (by decide)
  · intro kept
    have reached := kept.reachable ⟨named ["link"], 1⟩ (first.1 ▸ List.mem_cons_self) linked
    exact absurd (first.2.2.symm.trans reached) (by decide)
  · intro kept
    have left := both.2
    rw [kept.emptied both.1] at left
    exact absurd left (by decide)

end Mille.Git.Sessions
