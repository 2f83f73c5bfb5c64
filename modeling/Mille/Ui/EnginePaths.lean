import Mathlib
import Mille.Ui.EngineClient

/-! When tree paths and checkout paths are inverse: the rows of the status map, and the
paths the adapters hand back to the engine. -/

namespace Mille.Ui.Engine

variable {toLowerCase : Text → Text}

section Spelling

/-- The path goes on from the root. -/
def strictlyBelow (toLowerCase : Text → Text) (root abs : Text) : Bool :=
  !sameSpelling toLowerCase root abs && ((slashed root).length < abs.length) &&
    sameSpelling toLowerCase (abs.take (slashed root).length) (slashed root)

/-- What comes after the root. -/
def after (root abs : Text) : Text := abs.drop (slashed root).length

theorem relativeUnder_same {root abs : Text} (same : sameSpelling toLowerCase root abs = true) :
    relativeUnder toLowerCase root abs = some [] := by
  unfold relativeUnder
  rw [if_pos same]

theorem relativeUnder_apart {root abs : Text} (apart : sameSpelling toLowerCase root abs = false) :
    relativeUnder toLowerCase root abs =
      if strictlyBelow toLowerCase root abs then some (after root abs) else none := by
  unfold relativeUnder strictlyBelow after
  rw [apart]
  dsimp only
  by_cases short : abs.length ≤ (slashed root).length
  · simp [short, not_lt.mpr short]
  · simp [short, not_le.mp short]

theorem after_ne_nil {root abs : Text} (below : strictlyBelow toLowerCase root abs = true) :
    after root abs ≠ [] := by
  unfold strictlyBelow at below
  simp only [Bool.and_eq_true, decide_eq_true_eq] at below
  unfold after
  rw [Ne, List.drop_eq_nil_iff]
  omega

theorem strictlyBelow_apart {root abs : Text} (below : strictlyBelow toLowerCase root abs = true) :
    sameSpelling toLowerCase root abs = false := by
  unfold strictlyBelow at below
  simp only [Bool.and_eq_true, Bool.not_eq_true'] at below
  exact below.1.1

theorem relativeUnder_below {root abs : Text} (below : strictlyBelow toLowerCase root abs = true) :
    relativeUnder toLowerCase root abs = some (after root abs) := by
  rw [relativeUnder_apart (strictlyBelow_apart below), if_pos below]

/-- The root a path is joined to. -/
def key (checkout : Text) (entry : StatusEntry) : Text := joinPosix checkout entry.path

theorem joinPosix_eq (root : Text) {rel : Text} (named : rel ≠ []) :
    joinPosix root rel = slashed root ++ rel := by
  unfold joinPosix
  rw [if_neg (fun empty => named (List.eq_nil_of_length_eq_zero empty))]

theorem slashed_pos (root : Text) : 0 < (slashed root).length := by
  unfold slashed
  split
  · rename_i last
    cases root with
    | nil => cases last
    | cons first more => exact Nat.succ_pos _
  · rw [List.length_append]
    exact Nat.succ_pos _

theorem slashed_toPosix {path : Text} (long : 1 < (toPosix path).length) :
    slashed (toPosix path) = toPosix path ++ [slash] := by
  unfold slashed
  rw [if_neg]
  intro last
  unfold toPosix at last long
  dsimp only at last long
  split at last
  · rename_i kept
    rw [if_pos kept] at long
    have nonempty := List.length_pos_iff.mp (Nat.zero_lt_of_lt long)
    have ends := List.rdropWhile_last_not _ _ nonempty
    rw [List.getLast?_eq_some_getLast nonempty] at last
    exact ends (decide_eq_true (Option.some.inj last))
  · rename_i short
    rw [if_neg short] at long
    exact short long

/-- The root below the checkout is spelled as the row's path is; a root with the checkout's own
spelling has its length. -/
def Spelled (toLowerCase : Text → Text) (checkout root path : Text) : Prop :=
  if sameSpelling toLowerCase checkout root then (slashed checkout).length = (slashed root).length
  else root.drop (slashed checkout).length ++ [slash] <+: path

def under (base path : Text) : Text := if base.length = 0 then path else base ++ [slash] ++ path

/-- The offset of the root added back to a row's tree path gives its checkout path exactly
when the spellings agree. -/
theorem under_after_iff {W R path : Text} (named : path ≠ [])
    (placed : sameSpelling toLowerCase (toPosix W) (toPosix R) = true ∨
      strictlyBelow toLowerCase (toPosix W) (toPosix R) = true)
    (below : strictlyBelow toLowerCase (toPosix R) (joinPosix (toPosix W) path) = true) :
    under ((relativeUnder toLowerCase (toPosix W) (toPosix R)).getD [])
        (after (toPosix R) (joinPosix (toPosix W) path)) = path ↔
      Spelled toLowerCase (toPosix W) (toPosix R) path := by
  have stem := after_ne_nil below
  unfold after at stem ⊢
  rw [joinPosix_eq _ named] at stem ⊢
  have long := List.length_pos_iff.mpr stem
  rw [List.length_drop, List.length_append] at long
  have whole : path = (slashed (toPosix W) ++ path).drop (slashed (toPosix W)).length := by
    rw [List.drop_left]
  unfold Spelled
  by_cases same : sameSpelling toLowerCase (toPosix W) (toPosix R) = true
  · rw [if_pos same, relativeUnder_same same]
    change (slashed (toPosix W) ++ path).drop (slashed (toPosix R)).length = path ↔ _
    constructor
    · intro equal
      have lengths := congrArg List.length equal
      rw [List.length_drop, List.length_append] at lengths
      omega
    · intro lengths
      rw [← lengths, List.drop_left]
  · have inside := placed.resolve_left same
    have rest := after_ne_nil inside
    rw [if_neg same, relativeUnder_below inside, Option.getD_some]
    have size := List.length_pos_iff.mpr rest
    unfold after at rest size ⊢
    rw [List.length_drop] at size
    have two : 1 < (toPosix R).length := by
      have one := slashed_pos (toPosix W)
      omega
    have stemLength : (slashed (toPosix R)).length =
        (slashed (toPosix W)).length + (((toPosix R).drop (slashed (toPosix W)).length).length + 1) := by
      rw [slashed_toPosix two, List.length_append, List.length_singleton, List.length_drop]
      omega
    have tail : (slashed (toPosix W) ++ path).drop (slashed (toPosix R)).length =
        path.drop (((toPosix R).drop (slashed (toPosix W)).length ++ [slash]).length) := by
      rw [stemLength, ← List.drop_drop, List.drop_left, List.length_append, List.length_singleton]
    unfold under
    rw [if_neg (by rw [List.length_drop]; omega), tail]
    constructor
    · intro equal
      exact ⟨_, equal⟩
    · rintro ⟨more, rfl⟩
      rw [List.drop_left]

end Spelling

section Rows

variable {snapshot : StatusSnapshot} {root : Text}

/-- A row has a letter to show. -/
def lettered (entry : StatusEntry) : Bool := (collapse entry []).isSome

theorem collapse_eq (entry : StatusEntry) (path : Text) :
    collapse entry path = (collapse entry []).map fun collapsed => { collapsed with path := path } := by
  unfold collapse
  split
  · rfl
  · split
    · rfl
    · split <;> rfl

/-- The row a status entry gives, if any. -/
def row (toLowerCase : Text → Text) (checkout root : Text) (entry : StatusEntry) :
    Option (Text × GitStatusEntry) :=
  if strictlyBelow toLowerCase root (key checkout entry) then
    (collapse entry (after root (key checkout entry))).map fun collapsed => (key checkout entry, collapsed)
  else none

theorem write_fresh {entries : List (Text × GitStatusEntry)} {key : Text} (value : GitStatusEntry)
    (fresh : key ∉ entries.map Prod.fst) : JsMap.write key value entries = entries ++ [(key, value)] := by
  induction entries with
  | nil => rfl
  | cons first rest ih =>
    rw [List.map_cons, List.mem_cons, not_or] at fresh
    rw [JsMap.write, if_neg (Ne.symm fresh.1), ih fresh.2]
    rfl

theorem statusRow_entries {checkout : Text} {map : JsMap Text GitStatusEntry} {entry : StatusEntry}
    (fresh : key checkout entry ∉ map.keys) :
    (statusRow toLowerCase checkout root map entry).entries =
      map.entries ++ (row toLowerCase checkout root entry).toList := by
  unfold statusRow row
  dsimp only
  by_cases same : sameSpelling toLowerCase root (key checkout entry) = true
  · have outside : strictlyBelow toLowerCase root (key checkout entry) = false := by
      unfold strictlyBelow
      rw [same]
      rfl
    have level : relativeUnder toLowerCase root (joinPosix checkout entry.path) = some [] :=
      relativeUnder_same same
    rw [level, outside]
    simp
  · have told : relativeUnder toLowerCase root (joinPosix checkout entry.path) =
        if strictlyBelow toLowerCase root (key checkout entry) then some (after root (key checkout entry))
        else none :=
      relativeUnder_apart (eq_false_of_ne_true same)
    rw [told]
    by_cases below : strictlyBelow toLowerCase root (key checkout entry) = true
    · have rest := after_ne_nil below
      rw [if_pos below, if_pos below]
      dsimp only
      rw [if_neg fun empty => rest (List.eq_nil_of_length_eq_zero empty)]
      cases collapse entry (after root (key checkout entry)) with
      | none => simp
      | some collapsed => exact write_fresh collapsed fresh
    · rw [if_neg below, if_neg below]
      simp

theorem row_key {checkout : Text} {entry : StatusEntry} {found : Text × GitStatusEntry}
    (given : row toLowerCase checkout root entry = some found) : found.1 = key checkout entry := by
  unfold row at given
  split at given
  · obtain ⟨collapsed, _, rfl⟩ := Option.map_eq_some_iff.mp given
    rfl
  · cases given

theorem toStatusMap_entries (checkout : Text) (entries : List StatusEntry)
    (map : JsMap Text GitStatusEntry) (distinct : (entries.map (key checkout)).Nodup)
    (fresh : ∀ entry ∈ entries, key checkout entry ∉ map.keys) :
    (entries.foldl (statusRow toLowerCase checkout root) map).entries =
      map.entries ++ entries.filterMap (row toLowerCase checkout root) := by
  induction entries generalizing map with
  | nil => simp
  | cons entry entries ih =>
    rw [List.map_cons, List.nodup_cons] at distinct
    have step := @statusRow_entries toLowerCase root checkout map entry (fresh entry List.mem_cons_self)
    rw [List.foldl_cons, ih _ distinct.2, step, List.filterMap_cons, List.append_assoc]
    · cases row toLowerCase checkout root entry <;> rfl
    · intro other member
      unfold JsMap.keys
      rw [step, List.map_append, List.mem_append, not_or]
      refine ⟨fresh other (List.mem_cons_of_mem _ member), ?_⟩
      cases given : row toLowerCase checkout root entry with
      | none => simp
      | some found =>
        have named := row_key given
        have apart : key checkout other ≠ key checkout entry :=
          fun same => distinct.1 (same ▸ List.mem_map_of_mem member)
        simp only [Option.toList_some, List.map_cons, List.map_nil, List.mem_singleton]
        rwa [named]

theorem key_injective {checkout : Text} {first second : StatusEntry} (one : first.path ≠ [])
    (two : second.path ≠ []) (same : key checkout first = key checkout second) :
    first.path = second.path := by
  unfold key at same
  rw [joinPosix_eq _ one, joinPosix_eq _ two] at same
  exact List.append_cancel_left same

theorem keys_nodup (checkout : Text) : (snapshot.entries.map (key checkout)).Nodup := by
  refine (List.nodup_map_iff_inj_on snapshot.distinct.of_map).mpr fun first one second two same => ?_
  have path := key_injective (snapshot.named first one) (snapshot.named second two) same
  exact List.inj_on_of_nodup_map snapshot.distinct one two path

theorem toStatusMap_eq (snapshot : StatusSnapshot) (root : Text) :
    (toStatusMap toLowerCase snapshot root).entries =
      snapshot.entries.filterMap (row toLowerCase (toPosix snapshot.worktreePath) root) := by
  unfold toStatusMap
  rw [toStatusMap_entries _ _ _ (keys_nodup _) fun _ _ member => (by cases member)]
  rfl

/-- One row, with its path relative to the root, for each entry below the root. -/
def Rows (toLowerCase : Text → Text) (snapshot : StatusSnapshot) (root : Text)
    (map : JsMap Text GitStatusEntry) : Prop :=
  map.entries.map (fun found => (found.1, found.2.path)) =
    (snapshot.entries.filter fun entry =>
      strictlyBelow toLowerCase root (key (toPosix snapshot.worktreePath) entry)).map fun entry =>
        (key (toPosix snapshot.worktreePath) entry, after root (key (toPosix snapshot.worktreePath) entry))

/-- The entries below the root have their rows exactly when each has a letter. -/
theorem rows_iff (snapshot : StatusSnapshot) (root : Text) :
    Rows toLowerCase snapshot root (toStatusMap toLowerCase snapshot root) ↔
      ∀ entry ∈ snapshot.entries,
        strictlyBelow toLowerCase root (key (toPosix snapshot.worktreePath) entry) = true →
          lettered entry = true := by
  unfold Rows
  rw [toStatusMap_eq]
  constructor
  · intro rows entry member below
    have there : (key (toPosix snapshot.worktreePath) entry,
        after root (key (toPosix snapshot.worktreePath) entry)) ∈ (snapshot.entries.filterMap
          (row toLowerCase (toPosix snapshot.worktreePath) root)).map
            fun found => (found.1, found.2.path) := by
      rw [rows]
      exact List.mem_map.mpr ⟨entry, List.mem_filter.mpr ⟨member, below⟩, rfl⟩
    obtain ⟨found, given, same⟩ := List.mem_map.mp there
    obtain ⟨other, among, gives⟩ := List.mem_filterMap.mp given
    have keys : key (toPosix snapshot.worktreePath) other = key (toPosix snapshot.worktreePath) entry :=
      (row_key gives).symm.trans (congrArg Prod.fst same)
    have path := key_injective (snapshot.named other among) (snapshot.named entry member) keys
    have equal := List.inj_on_of_nodup_map snapshot.distinct among member path
    rw [equal] at gives
    unfold row at gives
    rw [if_pos below, collapse_eq, Option.map_map] at gives
    obtain ⟨collapsed, shown, _⟩ := Option.map_eq_some_iff.mp gives
    unfold lettered
    rw [shown]
    rfl
  · intro letters
    rw [List.map_filterMap, ← List.filterMap_eq_map, List.filterMap_filter]
    apply List.filterMap_congr
    intro entry member
    unfold row
    by_cases below : strictlyBelow toLowerCase root
        (key (toPosix snapshot.worktreePath) entry) = true
    · obtain ⟨collapsed, shown⟩ := Option.isSome_iff_exists.mp (letters entry member below)
      rw [if_pos below, if_pos below, collapse_eq, shown]
      rfl
    · rw [if_neg below, if_neg below]
      rfl

end Rows

section Handed

theorem assertRelative_ok (path : Text) : assertRelative path = .ok path ↔
    isSafeWorkspaceRelativePath path = true := by
  unfold assertRelative
  constructor
  · intro accepted
    split at accepted
    · cases accepted
    · split at accepted
      · cases accepted
      · rename_i safe
        simpa using safe
  · intro safe
    have long : ¬path.length = 0 := by
      intro empty
      unfold isSafeWorkspaceRelativePath at safe
      simp [empty] at safe
    rw [if_neg long, safe]
    rfl

theorem assertRelative_eq {path safe : Text} (accepted : assertRelative path = .ok safe) : safe = path := by
  unfold assertRelative at accepted
  split at accepted
  · cases accepted
  · split at accepted
    · cases accepted
    · cases accepted
      rfl

theorem mapM_assertRelative (paths safe : List Text) : paths.mapM assertRelative = .ok safe ↔
    safe = paths ∧ ∀ path ∈ paths, isSafeWorkspaceRelativePath path = true := by
  induction paths generalizing safe with
  | nil =>
    rw [List.mapM_nil]
    constructor
    · intro accepted
      cases accepted
      exact ⟨rfl, fun _ member => (by cases member)⟩
    · rintro ⟨rfl, _⟩
      rfl
  | cons path paths ih =>
    rw [List.mapM_cons, List.forall_mem_cons]
    cases first : assertRelative path with
    | error error =>
      have unsafe_ : ¬isSafeWorkspaceRelativePath path = true := by
        intro safe
        cases first.symm.trans ((assertRelative_ok path).mpr safe)
      constructor
      · intro accepted
        cases accepted
      · rintro ⟨_, safe, _⟩
        exact absurd safe unsafe_
    | ok value =>
      have same := assertRelative_eq first
      subst same
      have safe := (assertRelative_ok value).mp first
      cases others : paths.mapM assertRelative with
      | error error =>
        constructor
        · intro accepted
          cases accepted
        · rintro ⟨_, _, rest⟩
          cases others.symm.trans ((ih paths).mpr ⟨rfl, rest⟩)
      | ok more =>
        obtain ⟨equal, rest⟩ := (ih more).mp others
        subst equal
        constructor
        · intro accepted
          cases accepted
          exact ⟨rfl, safe, rest⟩
        · rintro ⟨rfl, _⟩
          rfl

/-- With no root of its own, or the worktree for one, a translation adds the worktree's offset. -/
theorem translate_ok {W R : Text} {rootPath : Option Text} (own : rootPath = none ∨ rootPath = some R)
    (paths targets : List Text) : translate toLowerCase W R paths rootPath = .ok targets ↔
      (∀ path ∈ paths, isSafeWorkspaceRelativePath path = true) ∧
        targets = paths.map (under ((relativeUnder toLowerCase (toPosix W) (toPosix R)).getD [])) := by
  have reflexive : sameSpelling toLowerCase (toPosix R) (toPosix R) = true := by
    unfold sameSpelling
    split
    · exact decide_eq_true rfl
    · exact decide_eq_true rfl
  have based : translate toLowerCase W R paths rootPath = (do
      let safe ← paths.mapM assertRelative
      .ok (safe.map (under ((relativeUnder toLowerCase (toPosix W) (toPosix R)).getD [])))) := by
    rcases own with rfl | rfl
    · rfl
    · unfold translate
      simp only [reflexive, if_true]
      rfl
  rw [based]
  cases read : paths.mapM assertRelative with
  | error error =>
    constructor
    · intro accepted
      cases accepted
    · rintro ⟨safe, _⟩
      cases read.symm.trans ((mapM_assertRelative paths paths).mpr ⟨rfl, safe⟩)
  | ok safe =>
    obtain ⟨rfl, all⟩ := (mapM_assertRelative paths safe).mp read
    constructor
    · intro accepted
      cases accepted
      exact ⟨all, rfl⟩
    · rintro ⟨_, rfl⟩
      rfl

theorem byNames_ok {W R : Text} {rootPath : Option Text} {call : List Text → EngineCall}
    {paths targets : List Text} (translated : translate toLowerCase W R paths rootPath = .ok targets) :
    byNames toLowerCase W R rootPath call paths = .ok (if paths = [] then [] else [call targets]) := by
  unfold byNames
  cases paths with
  | nil => rfl
  | cons path paths =>
    rw [if_neg (by simp), translated, if_neg (List.cons_ne_nil _ _)]
    rfl

/-- What the adapters ask of the engine names the translated paths, and with a path they ask
something. -/
theorem handed_of_translate {W R : Text} {rootPath : Option Text} {call : AdapterCall}
    {targets : List Text} (translated : translate toLowerCase W R call.paths rootPath = .ok targets)
    (size : targets.length = call.paths.length) : ∃ asked,
      call.handed toLowerCase W R rootPath = .ok asked ∧ (∀ engine ∈ asked, engine.paths = targets) ∧
        (call.paths ≠ [] → asked ≠ []) := by
  have byName {engine : List Text → EngineCall} (named : ∀ paths, (engine paths).paths = paths)
      (paths : List Text) : (∀ asked ∈ (if paths = [] then [] else [engine targets]),
        asked.paths = targets) ∧ (paths ≠ [] → (if paths = [] then [] else [engine targets]) ≠ []) := by
    by_cases empty : paths = []
    · rw [if_pos empty]
      exact ⟨fun _ member => (by cases member), fun named => absurd empty named⟩
    · rw [if_neg empty]
      refine ⟨fun asked member => ?_, fun _ => List.cons_ne_nil _ _⟩
      rw [List.mem_singleton.mp member, named]
  cases call with
  | revert paths => exact ⟨_, byNames_ok translated, byName (fun _ => rfl) paths⟩
  | stage paths => exact ⟨_, byNames_ok translated, byName (fun _ => rfl) paths⟩
  | unstage paths => exact ⟨_, byNames_ok translated, byName (fun _ => rfl) paths⟩
  | compare path left right =>
    obtain ⟨target, rfl⟩ := List.length_eq_one_iff.mp size
    refine ⟨[load target left, load target right], ?_, ?_, fun _ => List.cons_ne_nil _ _⟩
    · change (translate toLowerCase W R [path] rootPath >>= _) = _
      rw [show translate toLowerCase W R [path] rootPath = _ from translated]
      rfl
    · have named (side : CompareSide) : (load target side).paths = [target] := by
        cases side <;> rfl
      intro engine member
      rcases List.mem_cons.mp member with rfl | other
      · exact named left
      · rw [List.mem_singleton.mp other]
        exact named right
  | getHistory path =>
    obtain ⟨target, rfl⟩ := List.length_eq_one_iff.mp size
    refine ⟨[.log target], ?_, ?_, fun _ => List.cons_ne_nil _ _⟩
    · change (translate toLowerCase W R [path] rootPath >>= _) = _
      rw [show translate toLowerCase W R [path] rootPath = _ from translated]
      rfl
    · intro engine member
      rw [List.mem_singleton.mp member]
      rfl

end Handed

section Inverse

/-- The explorer root is the checkout or lies below it. -/
def Placed (toLowerCase : Text → Text) (checkout root : Text) : Prop :=
  sameSpelling toLowerCase checkout root = true ∨ strictlyBelow toLowerCase checkout root = true

/-- Tree paths and checkout paths are inverse: each entry below the root has its one row;
with the root in the checkout any call on rows hands the engine their checkout paths; and
with the root elsewhere any call is rejected. -/
structure Inverse (toLowerCase : Text → Text) (snapshot : StatusSnapshot) (R : Text) : Prop where
  rows : ∀ (client : StatusClient) (status : Option StatusSnapshot),
    (if client.subscribed then client.latest else none).or status = some snapshot →
      Rows toLowerCase snapshot (toPosix R) (client.getStatus toLowerCase R status).1
  handed : Placed toLowerCase (toPosix snapshot.worktreePath) (toPosix R) →
    ∀ (call : AdapterCall) (rootPath : Option Text), (rootPath = none ∨ rootPath = some R) →
      ∀ chosen : List StatusEntry, (∀ entry ∈ chosen, entry ∈ snapshot.entries ∧
        strictlyBelow toLowerCase (toPosix R) (key (toPosix snapshot.worktreePath) entry) = true) →
      call.paths = chosen.map (fun entry =>
        after (toPosix R) (key (toPosix snapshot.worktreePath) entry)) →
      ∃ asked, call.handed toLowerCase snapshot.worktreePath R rootPath = .ok asked ∧
        (∀ engine ∈ asked, engine.paths = chosen.map StatusEntry.path) ∧ (call.paths ≠ [] → asked ≠ [])
  rejected : ¬Placed toLowerCase (toPosix snapshot.worktreePath) (toPosix R) →
    ∀ (call : AdapterCall) (rootPath : Option Text), (rootPath = none ∨ rootPath = some R) →
      call.paths ≠ [] → ∃ error, call.handed toLowerCase snapshot.worktreePath R rootPath = .error error

/-- The root is in the checkout, and each entry below it has a letter, a name the adapters let
through, and the root's spelling. -/
def Regular (toLowerCase : Text → Text) (snapshot : StatusSnapshot) (R : Text) : Prop :=
  Placed toLowerCase (toPosix snapshot.worktreePath) (toPosix R) ∧ ∀ entry ∈ snapshot.entries,
    strictlyBelow toLowerCase (toPosix R) (key (toPosix snapshot.worktreePath) entry) = true →
      lettered entry = true ∧
      isSafeWorkspaceRelativePath (after (toPosix R) (key (toPosix snapshot.worktreePath) entry)) = true ∧
      Spelled toLowerCase (toPosix snapshot.worktreePath) (toPosix R) entry.path

theorem getStatus_eq {client : StatusClient} {status : Option StatusSnapshot} {snapshot : StatusSnapshot}
    (current : (if client.subscribed then client.latest else none).or status = some snapshot)
    (R : Text) : (client.getStatus toLowerCase R status).1 =
      toStatusMap toLowerCase snapshot (toPosix R) := by
  unfold StatusClient.getStatus
  split
  · rename_i kept
    rw [kept] at current
    cases current
    rfl
  · rename_i unknown
    rw [unknown] at current
    change status = some snapshot at current
    rw [current]

/-- The paths are inverse exactly for regular entries and a root in the checkout. -/
theorem paths_inverse_iff (toLowerCase : Text → Text) (snapshot : StatusSnapshot) (R : Text) :
    Inverse toLowerCase snapshot R ↔ Regular toLowerCase snapshot R := by
  constructor
  · intro inverse
    have placed : Placed toLowerCase (toPosix snapshot.worktreePath) (toPosix R) := by
      by_contra elsewhere
      obtain ⟨error, rejected⟩ := inverse.rejected elsewhere (.stage [text "a"]) none (.inl rfl)
        (List.cons_ne_nil _ _)
      have translated := (@translate_ok toLowerCase snapshot.worktreePath R none (.inl rfl) [text "a"] _).mpr
        ⟨List.forall_mem_singleton.mpr (by decide), rfl⟩
      obtain ⟨asked, accepted, _⟩ := @handed_of_translate toLowerCase _ _ _ (.stage [text "a"]) _
        translated rfl
      cases rejected.symm.trans accepted
    refine ⟨placed, fun entry member below => ?_⟩
    have letters := (rows_iff snapshot (toPosix R)).mp
      (inverse.rows ⟨false, none⟩ (some snapshot) rfl) entry member below
    obtain ⟨asked, accepted, named, asks⟩ := inverse.handed placed
      (.stage [after (toPosix R) (key (toPosix snapshot.worktreePath) entry)]) none (.inl rfl) [entry]
      (List.forall_mem_singleton.mpr ⟨member, below⟩) rfl
    cases translated : translate toLowerCase snapshot.worktreePath R
        [after (toPosix R) (key (toPosix snapshot.worktreePath) entry)] none with
    | error error =>
      have rejected : AdapterCall.handed toLowerCase snapshot.worktreePath R none
          (.stage [after (toPosix R) (key (toPosix snapshot.worktreePath) entry)]) = .error error := by
        change byNames toLowerCase snapshot.worktreePath R none .stage _ = _
        unfold byNames
        rw [if_neg (by simp), translated]
        rfl
      cases rejected.symm.trans accepted
    | ok targets =>
      obtain ⟨safe, same⟩ := (translate_ok (.inl rfl) _ _).mp translated
      have given := @byNames_ok toLowerCase _ _ _ .stage _ _ translated
      rw [if_neg (List.cons_ne_nil _ _)] at given
      cases given.symm.trans accepted
      have path := named _ List.mem_cons_self
      change targets = [entry.path] at path
      rw [same, List.map_singleton] at path
      refine ⟨letters, safe _ List.mem_cons_self, ?_⟩
      exact (under_after_iff (snapshot.named entry member) placed below).mp (List.cons.inj path).1
  · rintro ⟨placed, regular⟩
    refine ⟨fun client status current => ?_, fun _ call rootPath own chosen rows paths => ?_,
      fun elsewhere => absurd placed elsewhere⟩
    · rw [getStatus_eq current]
      exact (rows_iff snapshot (toPosix R)).mpr fun entry member below => (regular entry member below).1
    · have safe : ∀ path ∈ call.paths, isSafeWorkspaceRelativePath path = true := by
        intro path member
        rw [paths] at member
        obtain ⟨entry, among, rfl⟩ := List.mem_map.mp member
        exact (regular entry (rows entry among).1 (rows entry among).2).2.1
      have targets : chosen.map StatusEntry.path = call.paths.map
          (under ((relativeUnder toLowerCase (toPosix snapshot.worktreePath) (toPosix R)).getD [])) := by
        rw [paths, List.map_map]
        apply List.map_congr_left
        intro entry among
        obtain ⟨member, below⟩ := rows entry among
        exact ((under_after_iff (snapshot.named entry member) placed below).mpr
          (regular entry member below).2.2).symm
      apply handed_of_translate ((translate_ok own _ _).mpr ⟨safe, targets⟩)
      rw [paths, List.length_map, List.length_map]

/-- With the explorer elsewhere a file of the checkout's root is staged by the name of the
explorer's. -/
theorem stages_elsewhere : ¬Placed id (toPosix (text "/repo")) (toPosix (text "/other")) ∧
    AdapterCall.handed id (text "/repo") (text "/other") none (.stage [text "a.txt"]) =
      .ok [.stage [text "a.txt"]] := by
  constructor
  · rintro (same | below)
    · exact absurd same (by decide)
    · exact absurd below (by decide)
  · rfl

end Inverse

end Mille.Ui.Engine
