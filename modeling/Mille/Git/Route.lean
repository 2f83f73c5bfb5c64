import Mille.Git.Paths
import Mille.Lib.Maps

/-! Event paths and the open sessions: which checkout a path belongs to, and what
each session is told. -/

namespace Mille.Git.Route

open Std (ExtTreeMap)

def gitName : Component := .normal (.utf8 ".git")

/-- Paths that are never worktree content: inside `.git`, lock files, watchman cookies. -/
def isNoise (path : Path) : Bool :=
  let name := ((path.fileName.map (·.toStringLossy)).getD "").toList
  decide (gitName ∈ path) || ".lock".toList.isSuffixOf name || ".watchman-cookie-".toList.isPrefixOf name

variable {S : Type}

/-- The greater of two by their keys, the later one of equals. -/
def laterMax (key : S → Nat) : Option S → S → Option S
  | none, candidate => some candidate
  | some held, candidate => if key held ≤ key candidate then some candidate else some held

/-- `max_by_key`: the last element of those with the greatest key. -/
def maxByKey (key : S → Nat) (list : List S) : Option S :=
  list.foldl (laterMax key) none

section Routing

variable (disk : Realpath) (realRoot : S → Path) (sessions : List S)

/-- The path lies strictly below the session's root. -/
def Below (session : S) (real : Path) : Prop :=
  realRoot session <+: real ∧ real ≠ realRoot session

instance (session : S) (real : Path) : Decidable (Below realRoot session real) :=
  inferInstanceAs (Decidable (_ ∧ _))

def ownerOf (real : Path) : Option S :=
  maxByKey (fun session => (realRoot session).length)
    (sessions.filter fun session => Below realRoot session real)

/-- The realpath of an event's path. -/
def realpath (osPath : OsPath) : Path :=
  disk.canonicalizeLenient osPath.components

def routeOne (grouped : ExtTreeMap Path (S × List String)) (osPath : OsPath) :
    ExtTreeMap Path (S × List String) :=
  if isNoise osPath.components then grouped
  else
    let real := realpath disk osPath
    match ownerOf realRoot sessions real with
    | none => grouped
    | some owner =>
      match relativePosix real (realRoot owner) with
      | none => grouped
      | some relative =>
        grouped.alter (realRoot owner) fun entry =>
          let held := entry.getD (owner, [])
          some (held.1, held.2 ++ [relative])

/-- Every session that is told something, with the paths it is told. -/
def route (osPaths : List OsPath) : List (S × List String) :=
  (osPaths.foldl (routeOne disk realRoot sessions) ∅).toList.map (·.2)

/-- The session whose root is the longest one above the path. -/
structure Owns (owner : S) (real : Path) : Prop where
  opened : owner ∈ sessions
  below : Below realRoot owner real
  longest : ∀ session ∈ sessions, Below realRoot session real → realRoot session <+: realRoot owner

/-- The names below the session's root are UTF-8. -/
def TextBelow (owner : S) (real : Path) : Prop :=
  ∀ component ∈ real.drop (realRoot owner).length, ∃ text, component = .normal (.utf8 text)

open Classical in
/-- What an event tells a session. -/
noncomputable def told (eligible : OsPath → Prop) (session : S) (osPath : OsPath) : Option String :=
  if eligible osPath ∧ Owns realRoot sessions session (realpath disk osPath) then
    relativePosix (realpath disk osPath) (realRoot session)
  else none

/-- The eligible events reach their owners and nobody else, each once and in order. -/
structure Delivers (eligible : OsPath → Prop) (osPaths : List OsPath) (groups : List (S × List String)) :
    Prop where
  once : (groups.map Prod.fst).Nodup
  lists : ∀ session list, (session, list) ∈ groups →
    session ∈ sessions ∧ list = osPaths.filterMap (told disk realRoot sessions eligible session)
  reached : ∀ osPath ∈ osPaths, eligible osPath →
    (∃ session ∈ sessions, Below realRoot session (realpath disk osPath)) →
    ∃ owner list relative, Owns realRoot sessions owner (realpath disk osPath) ∧
      (owner, list) ∈ groups ∧ relative ∈ list ∧
      relativePosix (realpath disk osPath) (realRoot owner) = some relative ∧
      (TextBelow realRoot owner (realpath disk osPath) →
        joinPosix (realRoot owner) relative = realpath disk osPath)

end Routing

section Choice

theorem maxByKey_concat (key : S → Nat) (list : List S) (last : S) :
    maxByKey key (list ++ [last]) = laterMax key (maxByKey key list) last := by
  rw [maxByKey, List.foldl_append]
  rfl

theorem maxByKey_eq_none {key : S → Nat} {list : List S} : maxByKey key list = none ↔ list = [] := by
  rcases List.eq_nil_or_concat list with rfl | ⟨front, last, rfl⟩
  · exact iff_of_true rfl rfl
  · rw [List.concat_eq_append, maxByKey_concat]
    refine iff_of_false ?_ (by simp)
    unfold laterMax
    split
    · exact Option.some_ne_none _
    · split_ifs <;> simp

theorem maxByKey_eq_some {key : S → Nat} {list : List S} {best : S} (found : maxByKey key list = some best) :
    best ∈ list ∧ ∀ other ∈ list, key other ≤ key best := by
  induction list using List.reverseRecOn generalizing best with
  | nil => cases found
  | append_singleton front last ih =>
    rw [maxByKey_concat] at found
    cases held : maxByKey key front with
    | none =>
      rw [held] at found
      cases found
      rw [maxByKey_eq_none.mp held]
      simp
    | some greatest =>
      obtain ⟨inside, above⟩ := ih held
      rw [held, laterMax] at found
      split_ifs at found with order
      · cases found
        refine ⟨by simp, ?_⟩
        intro other member
        rcases List.mem_append.mp member with earlier | same
        · exact Nat.le_trans (above other earlier) order
        · rw [List.mem_singleton.mp same]
      · cases found
        refine ⟨List.mem_append_left _ inside, ?_⟩
        intro other member
        rcases List.mem_append.mp member with earlier | same
        · exact above other earlier
        · rw [List.mem_singleton.mp same]
          omega

end Choice

section Owners

variable {disk : Realpath} {realRoot : S → Path} {sessions : List S}

theorem ownerOf_eq_some (distinct : (sessions.map realRoot).Nodup) {real : Path} {owner : S} :
    ownerOf realRoot sessions real = some owner ↔ Owns realRoot sessions owner real := by
  have owns : ∀ {best}, ownerOf realRoot sessions real = some best → Owns realRoot sessions best real := by
    intro best found
    obtain ⟨member, longest⟩ := maxByKey_eq_some found
    simp only [List.mem_filter, decide_eq_true_eq] at member longest
    refine ⟨member.1, member.2, ?_⟩
    intro session opened below
    exact List.prefix_of_prefix_length_le below.1 member.2.1 (longest session ⟨opened, below⟩)
  refine ⟨owns, ?_⟩
  intro owned
  cases found : ownerOf realRoot sessions real with
  | none =>
    have empty := maxByKey_eq_none.mp found
    have member : owner ∈ sessions.filter fun session => Below realRoot session real := by
      simp [owned.opened, owned.below]
    rw [empty] at member
    cases member
  | some best =>
    have nearest := owns found
    have roots : realRoot best = realRoot owner :=
      (owned.longest best nearest.opened nearest.below).eq_of_length_le
        (nearest.longest owner owned.opened owned.below).length_le
    rw [List.inj_on_of_nodup_map distinct nearest.opened owned.opened roots]

theorem exists_owns (distinct : (sessions.map realRoot).Nodup) {real : Path} {session : S}
    (opened : session ∈ sessions) (below : Below realRoot session real) :
    ∃ owner, Owns realRoot sessions owner real := by
  cases found : ownerOf realRoot sessions real with
  | none =>
    have empty := maxByKey_eq_none.mp found
    have member : session ∈ sessions.filter fun session => Below realRoot session real := by
      simp [opened, below]
    rw [empty] at member
    cases member
  | some owner => exact ⟨owner, (ownerOf_eq_some distinct).mp found⟩

theorem Below.relative {session : S} {real : Path} (below : Below realRoot session real) :
    ∃ rest, rest ≠ [] ∧ real = realRoot session ++ rest ∧
      relativePosix real (realRoot session) = some ("/".intercalate (rest.map componentText)) := by
  obtain ⟨⟨rest, rfl⟩, strictly⟩ := below
  have more : rest ≠ [] := by
    rintro rfl
    exact strictly (List.append_nil _)
  exact ⟨rest, more, rfl, relativePosix_append _ more⟩

end Owners

section Groups

variable {disk : Realpath} {realRoot : S → Path} {sessions : List S}

/-- The event is no noise. -/
def Quiet (osPath : OsPath) : Prop :=
  isNoise osPath.components = false

/-- The entry of a session that was told a list. -/
def entryOf (session : S) (list : List String) : Option (S × List String) :=
  if list = [] then none else some (session, list)

theorem entryOf_getD (session : S) (list : List String) :
    (entryOf session list).getD (session, []) = (session, list) := by
  unfold entryOf
  split_ifs with empty
  · rw [empty]
    rfl
  · rfl

/-- Each session that was told something is filed under its root, with all of it. -/
structure Filed (disk : Realpath) (realRoot : S → Path) (sessions : List S) (osPaths : List OsPath)
    (grouped : ExtTreeMap Path (S × List String)) : Prop where
  entries : ∀ session ∈ sessions, grouped[realRoot session]? =
    entryOf session (osPaths.filterMap (told disk realRoot sessions Quiet session))
  roots : ∀ key entry, grouped[key]? = some entry → ∃ session ∈ sessions, key = realRoot session

/-- What one event does: nothing, or one more path for the session that owns it. -/
theorem routeOne_cases (distinct : (sessions.map realRoot).Nodup)
    (grouped : ExtTreeMap Path (S × List String)) (osPath : OsPath) :
    ((∀ session, told disk realRoot sessions Quiet session osPath = none) ∧
        routeOne disk realRoot sessions grouped osPath = grouped) ∨
      ∃ owner relative, owner ∈ sessions ∧
        told disk realRoot sessions Quiet owner osPath = some relative ∧
        (∀ session, session ≠ owner → told disk realRoot sessions Quiet session osPath = none) ∧
        routeOne disk realRoot sessions grouped osPath =
          grouped.alter (realRoot owner) fun entry =>
            some ((entry.getD (owner, [])).1, (entry.getD (owner, [])).2 ++ [relative]) := by
  by_cases quiet : Quiet osPath
  · have quick : ¬isNoise osPath.components = true := by
      rw [quiet]
      exact Bool.false_ne_true
    cases found : ownerOf realRoot sessions (realpath disk osPath) with
    | none =>
      left
      constructor
      · intro session
        rw [told, if_neg]
        rintro ⟨-, owned⟩
        cases found.symm.trans ((ownerOf_eq_some distinct).mpr owned)
      · rw [routeOne, if_neg quick]
        simp only [found]
    | some owner =>
      right
      have owned := (ownerOf_eq_some distinct).mp found
      obtain ⟨rest, -, -, relative⟩ := owned.below.relative
      refine ⟨owner, _, owned.opened, (if_pos ⟨quiet, owned⟩).trans relative, ?_, ?_⟩
      · intro session other
        rw [told, if_neg]
        rintro ⟨-, nearest⟩
        exact other (Option.some.inj (((ownerOf_eq_some distinct).mpr nearest).symm.trans found))
      · rw [routeOne, if_neg quick]
        simp only [found, relative]
  · left
    have noise : isNoise osPath.components = true := by simpa [Quiet] using quiet
    exact ⟨fun session => if_neg fun both => quiet both.1, if_pos noise⟩

theorem Filed.routeOne (distinct : (sessions.map realRoot).Nodup) {osPaths : List OsPath}
    {grouped : ExtTreeMap Path (S × List String)} (filed : Filed disk realRoot sessions osPaths grouped)
    (osPath : OsPath) :
    Filed disk realRoot sessions (osPaths ++ [osPath]) (routeOne disk realRoot sessions grouped osPath) := by
  have whole : ∀ session, (osPaths ++ [osPath]).filterMap (told disk realRoot sessions Quiet session) =
      osPaths.filterMap (told disk realRoot sessions Quiet session) ++
        (told disk realRoot sessions Quiet session osPath).toList := by
    intro session
    rw [List.filterMap_append]
    cases said : told disk realRoot sessions Quiet session osPath <;> simp [said]
  rcases routeOne_cases distinct grouped osPath with
    ⟨nobody, same⟩ | ⟨owner, relative, opened, one, others, same⟩
  · rw [same]
    refine ⟨?_, filed.roots⟩
    intro session member
    rw [whole, nobody, Option.toList_none, List.append_nil, filed.entries session member]
  · rw [same]
    constructor
    · intro session member
      rw [Maps.lookup_alter, whole]
      split_ifs with root
      · have known := List.inj_on_of_nodup_map distinct opened member root
        subst known
        rw [filed.entries owner opened, entryOf_getD, one]
        simp [entryOf]
      · have other : session ≠ owner := fun known => root (congrArg realRoot known.symm)
        rw [others session other, Option.toList_none, List.append_nil, filed.entries session member]
    · intro key entry found
      rw [Maps.lookup_alter] at found
      split_ifs at found with root
      · exact ⟨owner, opened, root.symm⟩
      · exact filed.roots key entry found

theorem filed_route (distinct : (sessions.map realRoot).Nodup) (osPaths : List OsPath) :
    Filed disk realRoot sessions osPaths
      (osPaths.foldl (routeOne disk realRoot sessions) ∅) := by
  induction osPaths using List.reverseRecOn with
  | nil => exact ⟨fun session _ => by simp [entryOf], fun key entry found => by simp at found⟩
  | append_singleton front last ih =>
    rw [List.foldl_append]
    exact ih.routeOne distinct last

theorem mem_route {osPaths : List OsPath} {group : S × List String} :
    group ∈ route disk realRoot sessions osPaths ↔
      ∃ key : Path, (osPaths.foldl (Route.routeOne disk realRoot sessions) ∅)[key]? = some group := by
  rw [route, List.mem_map]
  constructor
  · rintro ⟨⟨key, entry⟩, member, rfl⟩
    exact ⟨key, ExtTreeMap.mem_toList_iff_getElem?_eq_some.mp member⟩
  · rintro ⟨key, found⟩
    exact ⟨(key, group), ExtTreeMap.mem_toList_iff_getElem?_eq_some.mpr found, rfl⟩

theorem Filed.group {osPaths : List OsPath}
    {grouped : ExtTreeMap Path (S × List String)} (filed : Filed disk realRoot sessions osPaths grouped)
    {key : Path} {group : S × List String} (found : grouped[key]? = some group) :
    group.1 ∈ sessions ∧ key = realRoot group.1 ∧
      group.2 = osPaths.filterMap (told disk realRoot sessions Quiet group.1) := by
  obtain ⟨session, opened, rfl⟩ := filed.roots key group found
  rw [filed.entries session opened, entryOf] at found
  split_ifs at found
  cases found
  exact ⟨opened, rfl, rfl⟩

end Groups

/-- Every event that is no noise reaches the session that owns it, and only that one. -/
theorem route_delivers (disk : Realpath) (realRoot : S → Path) (sessions : List S)
    (distinct : (sessions.map realRoot).Nodup) (osPaths : List OsPath) :
    Delivers disk realRoot sessions Quiet osPaths (route disk realRoot sessions osPaths) := by
  have filed := @filed_route _ disk _ _ distinct osPaths
  constructor
  · have keys : ((route disk realRoot sessions osPaths).map Prod.fst).map realRoot =
        (osPaths.foldl (routeOne disk realRoot sessions) ∅).keys := by
      rw [route, List.map_map, List.map_map, ← ExtTreeMap.map_fst_toList_eq_keys]
      apply List.map_congr_left
      rintro ⟨key, group⟩ member
      have found := ExtTreeMap.mem_toList_iff_getElem?_eq_some.mp member
      exact (filed.group found).2.1.symm
    apply List.Nodup.of_map realRoot
    rw [keys]
    exact ExtTreeMap.nodup_keys
  · intro session list member
    obtain ⟨key, found⟩ := mem_route.mp member
    obtain ⟨opened, -, same⟩ := filed.group found
    exact ⟨opened, same⟩
  · rintro osPath member quiet ⟨session, opened, below⟩
    obtain ⟨owner, owned⟩ := exists_owns distinct opened below
    obtain ⟨rest, more, split, relative⟩ := owned.below.relative
    have listed : "/".intercalate (rest.map componentText) ∈
        osPaths.filterMap (told disk realRoot sessions Quiet owner) :=
      List.mem_filterMap.mpr ⟨osPath, member, (if_pos ⟨quiet, owned⟩).trans relative⟩
    refine ⟨owner, _, _, owned, ?_, listed, relative, ?_⟩
    · apply mem_route.mpr
      refine ⟨realRoot owner, ?_⟩
      rw [filed.entries owner owned.opened, entryOf, if_neg (List.ne_nil_of_mem listed)]
    · intro texts
      have names := (Realpath.canonicalizeLenient_names disk osPath.parsed).1
      change Parsed (realpath disk osPath) at names
      rw [TextBelow, split, List.drop_left] at texts
      rw [split] at names ⊢
      exact joinPosix_relativePosix (fun text inside => names text (List.mem_append_right _ inside)) texts more

section Checkout

def checkout : Path := Path.ofNames ["r"]

def lockFile : Path := Path.ofNames ["r", "Cargo.lock"]

def sourceFile : Path := Path.ofNames ["r", "a.ts"]

theorem files_parsed {path : Path} (known : path ∈ [[], checkout, lockFile, sourceFile]) : Parsed path := by
  have segments : ∀ text ∈ ["r", "Cargo.lock", "a.ts"], Segment text := by
    intro text member
    fin_cases member <;> exact ⟨by decide, by decide, by decide, by decide⟩
  intro text member
  apply segments
  fin_cases known <;> simp [checkout, lockFile, sourceFile, Path.ofNames] at member ⊢ <;> tauto

/-- A volume with one checkout and two files in it, and no links. -/
def volume : Realpath where
  canonicalize path := if path ∈ [[], checkout, lockFile, sourceFile] then some path else none
  parsed found := by
    obtain ⟨known, same⟩ := Option.ite_none_right_eq_some.mp found
    cases same
    exact files_parsed known
  resolved found := by
    obtain ⟨known, same⟩ := Option.ite_none_right_eq_some.mp found
    cases same
    fin_cases known <;> simp [checkout, lockFile, sourceFile, Path.ofNames]

def saves : List OsPath := [⟨lockFile, files_parsed (by simp)⟩, ⟨sourceFile, files_parsed (by simp)⟩]

theorem route_delivers_checkout : Delivers volume id [checkout] Quiet saves
    (route volume id [checkout] saves) :=
  route_delivers volume id [checkout] (List.nodup_singleton checkout) saves

/-- A tracked lock file changes, and no session is told. -/
theorem lock_file_untold : ¬Delivers volume id [checkout]
    (fun osPath => gitName ∉ (realpath volume osPath).dropLast) [⟨lockFile, files_parsed (by simp)⟩]
    (route volume id [checkout] [⟨lockFile, files_parsed (by simp)⟩]) := by
  intro delivers
  have real : realpath volume ⟨lockFile, files_parsed (by simp)⟩ = lockFile := by decide
  have noise : isNoise lockFile = true := by decide
  have untold : route volume id [checkout] [⟨lockFile, files_parsed (by simp)⟩] = [] := by
    simp [route, routeOne, noise]
  have inside : Below id checkout lockFile := ⟨⟨Path.ofNames ["Cargo.lock"], rfl⟩, by decide⟩
  obtain ⟨owner, list, relative, -, told, -⟩ := delivers.reached _ (List.mem_singleton_self _)
    (by rw [real]; decide) ⟨checkout, List.mem_singleton_self _, by rw [real]; exact inside⟩
  rw [untold] at told
  cases told

end Checkout

end Mille.Git.Route
