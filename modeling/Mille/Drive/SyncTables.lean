import Mathlib
import Mille.Lib.Maps
import Mille.Drive.Sync

/-! What each part of a reaction does to the tables: sending updates touches only what
is known of the peers, settling only prunes, starting pulls only adds to those in
flight. -/

namespace Mille.Drive

open Std Mille.Bincode

/-- A piece of output that starts no pull. -/
def Sends (actions : List SyncAction) : Prop :=
  ∀ action ∈ actions, ∃ dest frame, action = .send dest frame

/-- The objects a list of actions pulls. -/
def pulledDigests (actions : List SyncAction) : List Blake3 :=
  actions.filterMap fun
    | .pull _ digest => some digest
    | .send _ _ => none

namespace Sends

variable {actions more : List SyncAction}

@[simp] theorem nil : Sends [] := fun _ member => absurd member List.not_mem_nil

theorem append (first : Sends actions) (second : Sends more) : Sends (actions ++ more) := by
  intro action member
  rcases List.mem_append.mp member with left | right
  · exact first action left
  · exact second action right

theorem cons {dest : String} {frame : Frame} (rest : Sends actions) :
    Sends (.send dest frame :: actions) := by
  intro action member
  rcases List.mem_cons.mp member with same | later
  · exact ⟨dest, frame, same⟩
  · exact rest action later

theorem flatMap {α : Type} {values : List α} {emit : α → List SyncAction}
    (each : ∀ value, Sends (emit value)) : Sends (values.flatMap emit) := by
  intro action member
  obtain ⟨value, _, emitted⟩ := List.mem_flatMap.mp member
  exact each value action emitted

theorem digestFrames (frame : List Blake3 → Frame) (per : Nat) (dest : String)
    (digests : List Blake3) : Sends (digestFrames frame per dest digests) := by
  intro action member
  obtain ⟨chunk, _, same⟩ := List.mem_map.mp member
  exact ⟨dest, frame chunk, same.symm⟩

theorem not_pull (sends : Sends actions) {holder : String} {digest : Blake3} :
    .pull holder digest ∉ actions := by
  intro member
  obtain ⟨_, _, same⟩ := sends _ member
  cases same

theorem pulledDigests_eq (sends : Sends actions) : pulledDigests actions = [] := by
  apply List.filterMap_eq_nil_iff.mpr
  intro action member
  obtain ⟨dest, frame, rfl⟩ := sends action member
  rfl

end Sends

/-- The document exports every update asked of it. -/
def World.Exports {V : Type} (world : World V) : Prop :=
  ∀ vv, ∃ bytes, world.exportUpdatesSince vv = .ok bytes

namespace SyncState

variable {V : Type}

/-- The tables that schedule pulls. -/
def pulls (sync : SyncState V) : ExtTreeMap Blake3 (List String) ×
    ExtTreeMap Blake3 (ExtTreeMap String Backoff) × ExtTreeMap Blake3 InflightPull ×
    ExtTreeSet Blake3 × Nat :=
  (sync.holders, sync.failed, sync.inflight, sync.asked, sync.ticks)

section Components

variable {sync other : SyncState V} (same : other.pulls = sync.pulls)

include same

theorem holders_of_pulls : other.holders = sync.holders := congrArg (·.1) same

theorem failed_of_pulls : other.failed = sync.failed := congrArg (·.2.1) same

theorem inflight_of_pulls : other.inflight = sync.inflight := congrArg (·.2.2.1) same

theorem asked_of_pulls : other.asked = sync.asked := congrArg (·.2.2.2.1) same

theorem ticks_of_pulls : other.ticks = sync.ticks := congrArg (·.2.2.2.2) same

end Components

@[simp] theorem pulls_setPeer (sync : SyncState V) (name : String) (state : PeerState V) :
    (sync.setPeer name state).pulls = sync.pulls := rfl

@[simp] theorem pulls_caughtUp (sync : SyncState V) (name : String) (ours : V) :
    (sync.caughtUp name ours).pulls = sync.pulls := rfl

theorem mem_caughtUp (sync : SyncState V) (name other : String) (ours : V) :
    other ∈ (sync.caughtUp name ours).peers ↔ other ∈ sync.peers := by
  unfold caughtUp
  exact ExtTreeMap.mem_modify

@[simp] theorem pulls_updateFrames (sync : SyncState V) (dest : String) (bytes : Bytes)
    (maxFrame : Nat) : (sync.updateFrames dest bytes maxFrame).1.pulls = sync.pulls := by
  unfold updateFrames
  split <;> rfl

@[simp] theorem peers_updateFrames (sync : SyncState V) (dest : String) (bytes : Bytes)
    (maxFrame : Nat) : (sync.updateFrames dest bytes maxFrame).1.peers = sync.peers := by
  unfold updateFrames
  split <;> rfl

theorem updateFrames_sends (sync : SyncState V) (dest : String) (bytes : Bytes) (maxFrame : Nat) :
    Sends (sync.updateFrames dest bytes maxFrame).2 := by
  unfold updateFrames
  split
  · exact Sends.nil.cons
  · intro action member
    obtain ⟨index, bound, same⟩ := List.mem_mapIdx.mp member
    exact ⟨dest, _, same.symm⟩

theorem pulls_sendUpdates (world : World V) (maxFrame : Nat) (peers : List (String × V))
    (sync : SyncState V) (out : List SyncAction) :
    (sendUpdates world maxFrame peers sync out).1.pulls = sync.pulls := by
  induction peers generalizing sync out with
  | nil => rfl
  | cons head rest ih =>
    unfold sendUpdates
    split
    · rfl
    · rw [ih, pulls_caughtUp, pulls_updateFrames]

theorem mem_sendUpdates (world : World V) (maxFrame : Nat) (peers : List (String × V))
    (sync : SyncState V) (out : List SyncAction) (name : String) :
    name ∈ (sendUpdates world maxFrame peers sync out).1.peers ↔ name ∈ sync.peers := by
  induction peers generalizing sync out with
  | nil => rfl
  | cons head rest ih =>
    unfold sendUpdates
    split
    · rfl
    · rw [ih, mem_caughtUp, peers_updateFrames]

/-- The frames of the updates that bring peers up to date, one peer after the other. -/
inductive Sent (world : World V) (maxFrame : Nat) : List (String × V) → List SyncAction → Prop where
  | nil : Sent world maxFrame [] []
  | cons (sync : SyncState V) (exported : world.exportUpdatesSince vv = .ok bytes)
      (rest : Sent world maxFrame others more) :
      Sent world maxFrame ((name, vv) :: others) ((sync.updateFrames name bytes maxFrame).2 ++ more)

theorem Sent.frames {world : World V} {maxFrame : Nat} {peers : List (String × V)}
    {updates : List SyncAction} (sent : Sent world maxFrame peers updates) {entry : String × V}
    (member : entry ∈ peers) {bytes : Bytes} (exported : world.exportUpdatesSince entry.2 = .ok bytes) :
    ∃ sync : SyncState V, ∀ action ∈ (sync.updateFrames entry.1 bytes maxFrame).2, action ∈ updates := by
  induction sent with
  | nil => cases member
  | cons sync first _ ih =>
    rcases List.mem_cons.mp member with same | later
    · subst same
      cases first.symm.trans exported
      exact ⟨sync, fun action => List.mem_append_left _⟩
    · obtain ⟨other, frames⟩ := ih later
      exact ⟨other, fun action found => List.mem_append_right _ (frames action found)⟩

theorem Sent.sends {world : World V} {maxFrame : Nat} {peers : List (String × V)}
    {updates : List SyncAction} (sent : Sent world maxFrame peers updates) : Sends updates := by
  induction sent with
  | nil => exact Sends.nil
  | cons sync _ _ ih => exact Sends.append (updateFrames_sends _ _ _ _) ih

theorem sendUpdates_out {world : World V} {maxFrame : Nat} {peers : List (String × V)}
    {sync : SyncState V} {out actions : List SyncAction}
    (done : (sendUpdates world maxFrame peers sync out).2 = .ok actions) :
    ∃ updates, Sent world maxFrame peers updates ∧ actions = out ++ updates := by
  induction peers generalizing sync out with
  | nil => exact ⟨[], .nil, by simpa [sendUpdates, eq_comm] using done⟩
  | cons head rest ih =>
    unfold sendUpdates at done
    split at done
    · cases done
    · rename_i bytes exported
      obtain ⟨updates, sent, same⟩ := ih done
      exact ⟨_, .cons sync exported sent, by rw [same, List.append_assoc]⟩

theorem sendUpdates_refused {world : World V} {maxFrame : Nat} {peers : List (String × V)}
    {sync : SyncState V} {out : List SyncAction} {error : DriveError}
    (failed : (sendUpdates world maxFrame peers sync out).2 = .error error) :
    ∃ refusal, error = .document refusal := by
  induction peers generalizing sync out with
  | nil => cases failed
  | cons head rest ih =>
    unfold sendUpdates at failed
    split at failed
    · rename_i refusal _
      cases failed
      exact ⟨refusal, rfl⟩
    · exact ih failed

theorem sendUpdates_ok {world : World V} (exports : world.Exports) (maxFrame : Nat)
    (peers : List (String × V)) (sync : SyncState V) (out : List SyncAction) :
    ∃ actions, (sendUpdates world maxFrame peers sync out).2 = .ok actions := by
  induction peers generalizing sync out with
  | nil => exact ⟨out, rfl⟩
  | cons head rest ih =>
    obtain ⟨bytes, exported⟩ := exports head.2
    unfold sendUpdates
    rw [exported]
    exact ih _ _

section Settle

variable (world : World V) (per : Nat) (sync : SyncState V)

theorem askFresh_sends : Sends (sync.askFresh world per).2 := by
  unfold askFresh
  dsimp only
  split
  · exact Sends.nil
  · exact Sends.flatMap fun _ => Sends.digestFrames _ _ _ _

theorem answerWanted_sends : Sends (sync.answerWanted world per).2 :=
  Sends.flatMap fun _ => Sends.digestFrames _ _ _ _

theorem settle_sends : Sends (sync.settle world per).2 :=
  (askFresh_sends world per sync).append (answerWanted_sends world per _)

theorem askFresh_keeps : (sync.askFresh world per).1.peers = sync.peers ∧
    (sync.askFresh world per).1.holders = sync.holders ∧
    (sync.askFresh world per).1.failed = sync.failed ∧
    (sync.askFresh world per).1.inflight = sync.inflight ∧
    (sync.askFresh world per).1.ticks = sync.ticks := by
  unfold askFresh
  dsimp only
  split <;> exact ⟨rfl, rfl, rfl, rfl, rfl⟩

@[simp] theorem inflight_settle : (sync.settle world per).1.inflight = sync.inflight :=
  (askFresh_keeps world per sync).2.2.2.1

@[simp] theorem ticks_settle : (sync.settle world per).1.ticks = sync.ticks :=
  (askFresh_keeps world per sync).2.2.2.2

theorem holders_settle : (sync.settle world per).1.holders =
    sync.holders.filter fun digest _ => world.wants.contains digest := by
  rw [← (askFresh_keeps world per sync).2.1]
  rfl

theorem failed_settle : (sync.settle world per).1.failed =
    (sync.failed.filter fun digest _ => world.wants.contains digest).filter
      fun _ holders => !holders.isEmpty := by
  rw [← (askFresh_keeps world per sync).2.2.1]
  rfl

theorem mem_settle (name : String) :
    name ∈ (sync.settle world per).1.peers ↔ name ∈ sync.peers := by
  rw [← (askFresh_keeps world per sync).1]
  exact ExtTreeMap.mem_map

theorem holders_settle_wanted {digest : Blake3} (wanted : digest ∈ world.wants) :
    (sync.settle world per).1.holders[digest]? = sync.holders[digest]? := by
  rw [holders_settle, ExtTreeMap.getElem?_filter']
  cases sync.holders[digest]? with
  | none => rfl
  | some holders => simp [Option.filter, wanted]

theorem ready_settle {digest : Blake3} (wanted : digest ∈ world.wants) (holder : String) :
    (sync.settle world per).1.ready digest holder = sync.ready digest holder := by
  have same : (sync.settle world per).1.failed[digest]?.bind (·[holder]?) =
      sync.failed[digest]?.bind (·[holder]?) := by
    rw [failed_settle, ExtTreeMap.getElem?_filter', ExtTreeMap.getElem?_filter']
    cases sync.failed[digest]? with
    | none => rfl
    | some holders =>
      by_cases empty : holders.isEmpty
      · have nothing : holders = ∅ := ExtTreeMap.isEmpty_iff.mp empty
        simp [Option.filter, wanted, nothing]
      · simp [Option.filter, wanted, empty]
  unfold ready
  rw [same, ticks_settle]

end Settle

section StartPulls

variable {limit : Nat} {digests : List Blake3} {sync : SyncState V}

theorem startPulls_keeps : (startPulls limit digests sync).1 =
    { sync with inflight := (startPulls limit digests sync).1.inflight } := by
  induction digests generalizing sync with
  | nil => rfl
  | cons digest rest ih =>
    unfold startPulls
    split
    · rfl
    · split
      · exact ih
      · split
        · exact ih
        · exact ih

theorem startPulls_size (bounded : sync.inflight.size ≤ limit) :
    (startPulls limit digests sync).1.inflight.size ≤ limit := by
  induction digests generalizing sync with
  | nil => exact bounded
  | cons digest rest ih =>
    unfold startPulls
    split
    · exact bounded
    · rename_i room
      split
      · exact ih bounded
      · split
        · apply ih
          dsimp only
          rw [ExtTreeMap.size_insert]
          split <;> omega
        · exact ih bounded

theorem startPulls_inflight {digest : Blake3} {pull : InflightPull}
    (flying : sync.inflight[digest]? = some pull) :
    (startPulls limit digests sync).1.inflight[digest]? = some pull := by
  induction digests generalizing sync with
  | nil => exact flying
  | cons head rest ih =>
    unfold startPulls
    split
    · exact flying
    · split
      · exact ih flying
      · rename_i absent
        split
        · apply ih
          have different : head ≠ digest := by
            intro same
            subst same
            apply absent
            exact ExtTreeMap.contains_iff_mem.mpr
              (ExtTreeMap.mem_iff_isSome_getElem?.mpr (by rw [flying]; rfl))
          dsimp only
          rw [Maps.lookup_insert, if_neg different]
          exact flying
        · exact ih flying

theorem startPulls_pulls {action : SyncAction}
    (started : action ∈ (startPulls limit digests sync).2) :
    ∃ holder digest, action = .pull holder digest := by
  induction digests generalizing sync with
  | nil => cases started
  | cons head rest ih =>
    unfold startPulls at started
    split at started
    · cases started
    · split at started
      · exact ih started
      · split at started
        · rename_i holder _
          rcases List.mem_cons.mp started with same | later
          · exact ⟨holder, head, same⟩
          · exact ih later
        · exact ih started

theorem startPulls_sound {holder : String} {digest : Blake3}
    (started : .pull holder digest ∈ (startPulls limit digests sync).2) :
    digest ∈ digests ∧ digest ∉ sync.inflight ∧ holder ∈ sync.holders.getD digest [] ∧
      sync.ready digest holder = true ∧
      (startPulls limit digests sync).1.inflight[digest]? = some ⟨holder, sync.ticks⟩ := by
  induction digests generalizing sync with
  | nil => cases started
  | cons head rest ih =>
    have later (inRest : .pull holder digest ∈ (startPulls limit rest sync).2) :
        digest ∈ head :: rest ∧ digest ∉ sync.inflight ∧ holder ∈ sync.holders.getD digest [] ∧
          sync.ready digest holder = true ∧
          (startPulls limit rest sync).1.inflight[digest]? = some ⟨holder, sync.ticks⟩ := by
      obtain ⟨member, found⟩ := ih inRest
      exact ⟨List.mem_cons_of_mem _ member, found⟩
    unfold startPulls at started ⊢
    by_cases full : sync.inflight.size ≥ limit
    · rw [if_pos full] at started
      cases started
    · rw [if_neg full] at started ⊢
      by_cases flying : sync.inflight.contains head = true
      · rw [if_pos flying] at started ⊢
        exact later started
      · rw [if_neg flying] at started ⊢
        cases source : sync.pullSource head with
        | none =>
          simp only [source] at started ⊢
          exact later started
        | some first =>
          simp only [source] at started ⊢
          have absent : head ∉ sync.inflight := fun member =>
            flying (ExtTreeMap.contains_iff_mem.mpr member)
          rcases List.mem_cons.mp started with same | inRest
          · cases same
            refine ⟨List.mem_cons_self, absent, List.mem_of_find?_eq_some source,
              List.find?_some source, startPulls_inflight ?_⟩
            rw [Maps.lookup_insert, if_pos rfl]
          · obtain ⟨member, notFlying, offered, isReady, found⟩ := ih inRest
            have fresh : digest ∉ sync.inflight := fun there =>
              notFlying (ExtTreeMap.mem_insert.mpr (.inr there))
            exact ⟨List.mem_cons_of_mem _ member, fresh, offered, isReady, found⟩

theorem startPulls_distinct (distinct : digests.Nodup) :
    (pulledDigests (startPulls limit digests sync).2).Nodup := by
  induction digests generalizing sync with
  | nil => exact List.nodup_nil
  | cons head rest ih =>
    obtain ⟨fresh, others⟩ := List.nodup_cons.mp distinct
    unfold startPulls
    split
    · exact List.nodup_nil
    · split
      · exact ih others
      · split
        · rename_i holder _
          refine List.nodup_cons.mpr ⟨?_, ih others⟩
          intro again
          obtain ⟨action, member, same⟩ := List.mem_filterMap.mp again
          cases action with
          | send => cases same
          | pull other digest =>
            cases same
            exact fresh (startPulls_sound member).1
        · exact ih others

/-- With room left, no object of the list that is not in flight has a ready holder. -/
theorem startPulls_complete (room : (startPulls limit digests sync).1.inflight.size < limit)
    {digest : Blake3} (member : digest ∈ digests)
    (absent : digest ∉ (startPulls limit digests sync).1.inflight) {holder : String}
    (offered : holder ∈ sync.holders.getD digest []) : sync.ready digest holder = false := by
  induction digests generalizing sync with
  | nil => cases member
  | cons head rest ih =>
    unfold startPulls at room absent
    by_cases full : sync.inflight.size ≥ limit
    · rw [if_pos full] at room
      exact absurd room (by dsimp only; omega)
    · rw [if_neg full] at room absent
      by_cases flying : sync.inflight.contains head = true
      · rw [if_pos flying] at room absent
        rcases List.mem_cons.mp member with same | later
        · subst same
          obtain ⟨pull, found⟩ := Option.isSome_iff_exists.mp
            (ExtTreeMap.mem_iff_isSome_getElem?.mp (ExtTreeMap.contains_iff_mem.mp flying))
          have kept : (startPulls limit rest sync).1.inflight[digest]? = some pull :=
            startPulls_inflight found
          refine absurd (ExtTreeMap.mem_iff_isSome_getElem?.mpr ?_) absent
          rw [kept]
          rfl
        · exact ih room later absent offered
      · rw [if_neg flying] at room absent
        cases source : sync.pullSource head with
        | none =>
          simp only [source] at room absent
          rcases List.mem_cons.mp member with same | later
          · subst same
            simpa using List.find?_eq_none.mp source holder offered
          · exact ih room later absent offered
        | some first =>
          simp only [source] at room absent
          rcases List.mem_cons.mp member with same | later
          · subst same
            have kept : (startPulls limit rest { sync with
                inflight := sync.inflight.insert digest ⟨first, sync.ticks⟩ }).1.inflight[digest]? =
                some ⟨first, sync.ticks⟩ := by
              apply startPulls_inflight
              rw [Maps.lookup_insert, if_pos rfl]
            refine absurd (ExtTreeMap.mem_iff_isSome_getElem?.mpr ?_) absent
            rw [kept]
            rfl
          · have idle := @ih { sync with
                inflight := sync.inflight.insert head ⟨first, sync.ticks⟩ } room later absent offered
            exact idle

end StartPulls

section Triggers

variable (sync : SyncState V)

theorem mem_offer {peer holder : String} {holders : List String} :
    holder ∈ offer peer holders ↔ holder ∈ holders ∨ holder = peer := by
  unfold offer
  split
  · rename_i known
    constructor
    · exact .inl
    · rintro (there | same)
      · exact there
      · exact same ▸ known
  · simp

theorem mem_recordHolders {wants : ExtTreeSet Blake3} {peer holder : String}
    {holders : ExtTreeMap Blake3 (List String)} {digests : List Blake3} {digest : Blake3} :
    holder ∈ (recordHolders wants peer holders digests).getD digest [] ↔
      holder ∈ holders.getD digest [] ∨ holder = peer ∧ digest ∈ digests ∧ digest ∈ wants := by
  unfold recordHolders
  induction digests generalizing holders with
  | nil => simp
  | cons head rest ih =>
    rw [List.foldl_cons, ih]
    by_cases wanted : head ∈ wants
    · rw [if_pos wanted]
      by_cases same : head = digest
      · subst same
        rw [ExtTreeMap.getD_insert_self, mem_offer]
        simp only [List.mem_cons, true_or, wanted, and_true]
        tauto
      · rw [ExtTreeMap.getD_insert, if_neg (by simpa using same)]
        simp [Ne.symm same]
    · rw [if_neg wanted]
      have other : digest ∈ wants → digest ≠ head := fun present same => wanted (same ▸ present)
      simp only [List.mem_cons]
      tauto

@[simp] theorem holders_endFailed (digest : Blake3) (peer : String) :
    (sync.endFailed digest peer).holders = sync.holders := by
  unfold endFailed
  repeat' split
  all_goals rfl

@[simp] theorem peers_endFailed (digest : Blake3) (peer : String) :
    (sync.endFailed digest peer).peers = sync.peers := by
  unfold endFailed
  repeat' split
  all_goals rfl

@[simp] theorem asked_endFailed (digest : Blake3) (peer : String) :
    (sync.endFailed digest peer).asked = sync.asked := by
  unfold endFailed
  repeat' split
  all_goals rfl

theorem size_endFailed (digest : Blake3) (peer : String) :
    (sync.endFailed digest peer).inflight.size ≤ sync.inflight.size := by
  unfold endFailed
  repeat' split
  · exact ExtTreeMap.size_erase_le
  all_goals exact le_rfl

/-- The failures a tick finds among the pulls in flight, ended one after the other. -/
def endAll (entries : List (Blake3 × String)) : SyncState V :=
  entries.foldl (fun sync entry => sync.endFailed entry.1 entry.2) sync

theorem endAll_keeps (entries : List (Blake3 × String)) :
    (sync.endAll entries).holders = sync.holders ∧ (sync.endAll entries).peers = sync.peers ∧
      (sync.endAll entries).asked = sync.asked ∧
      (sync.endAll entries).inflight.size ≤ sync.inflight.size := by
  unfold endAll
  induction entries generalizing sync with
  | nil => exact ⟨rfl, rfl, rfl, le_rfl⟩
  | cons entry rest ih =>
    obtain ⟨holders, peers, asked, size⟩ := ih (sync.endFailed entry.1 entry.2)
    rw [List.foldl_cons]
    exact ⟨holders.trans (holders_endFailed ..), peers.trans (peers_endFailed ..),
      asked.trans (asked_endFailed ..), size.trans (size_endFailed ..)⟩

theorem holder_after_close {digest : Blake3} {peer holder : String} :
    holder ∈ (sync.syncClose peer).holders.getD digest [] ↔
      holder ∈ sync.holders.getD digest [] ∧ holder ≠ peer := by
  unfold syncClose
  dsimp only
  rw [ExtTreeMap.getD_eq_getD_getElem?, ExtTreeMap.getD_eq_getD_getElem?, ExtTreeMap.getElem?_map]
  cases sync.holders[digest]? with
  | none => simp
  | some holders => simp

variable [VersionVector V]

/-- Whom the tables name as holders once a trigger has been applied. -/
theorem holder_applyTrigger {world : World V} {per : Nat} {trigger : Trigger V} {digest : Blake3}
    {holder : String} :
    holder ∈ (sync.applyTrigger world per trigger).1.holders.getD digest [] ↔
      trigger ≠ .pulled digest ∧ holder ∈ sync.holders.getD digest [] ∨
        ∃ digests, trigger = .haves holder digests ∧ digest ∈ digests ∧ digest ∈ world.wants := by
  cases trigger with
  | haves peer digests =>
    have member := @mem_recordHolders world.wants peer holder sync.holders digests digest
    simp only [applyTrigger, ne_eq, reduceCtorEq, not_false_eq_true, true_and,
      Trigger.haves.injEq, member]
    constructor
    · rintro (there | ⟨same, named, wanted⟩)
      · exact .inl there
      · exact .inr ⟨digests, ⟨same.symm, rfl⟩, named, wanted⟩
    · rintro (there | ⟨_, ⟨same, rfl⟩, named, wanted⟩)
      · exact .inl there
      · exact .inr ⟨same.symm, named, wanted⟩
  | pulled gone =>
    simp only [applyTrigger, reduceCtorEq, false_and, exists_false, or_false, ne_eq,
      Trigger.pulled.injEq, ExtTreeMap.getD_erase]
    by_cases same : gone = digest
    · simp [same]
    · simp [same]
  | tick =>
    have kept := (endAll_keeps { sync with ticks := sync.ticks + 1 }
      (expired { sync with ticks := sync.ticks + 1 })).1
    unfold endAll at kept
    simp [applyTrigger, kept]
  | pullFailed peer digest => simp [applyTrigger]
  | opened peer => simp [applyTrigger, setPeer]
  | hello peer theirs => simp [applyTrigger, setPeer]
  | imported sender before after => simp [applyTrigger]
  | localChange => simp [applyTrigger]
  | want peer digests => simp [applyTrigger]

theorem size_applyTrigger (world : World V) (per : Nat) (trigger : Trigger V) :
    (sync.applyTrigger world per trigger).1.inflight.size ≤ sync.inflight.size := by
  cases trigger with
  | tick => exact (endAll_keeps { sync with ticks := sync.ticks + 1 } _).2.2.2
  | pulled digest => exact ExtTreeMap.size_erase_le
  | pullFailed peer digest => exact size_endFailed ..
  | _ => exact le_rfl

theorem applyTrigger_sends (world : World V) (per : Nat) (trigger : Trigger V) :
    Sends (sync.applyTrigger world per trigger).2 := by
  cases trigger with
  | opened peer => exact Sends.cons (Sends.digestFrames _ _ _ _)
  | hello peer theirs =>
    simp only [applyTrigger]
    split
    · exact Sends.nil
    · exact Sends.cons (Sends.digestFrames _ _ _ _)
  | want peer digests => exact Sends.digestFrames _ _ _ _
  | tick =>
    refine Sends.append ?_ (Sends.flatMap fun _ => Sends.digestFrames _ _ _ _)
    intro action member
    obtain ⟨peer, _, same⟩ := List.mem_map.mp member
    exact ⟨peer, _, same.symm⟩
  | _ => exact Sends.nil

end Triggers

section React

variable [VersionVector V] (options : DriveOptions) (world : World V) (trigger : Trigger V)
variable (sync : SyncState V)

/-- The tables once the trigger of a reaction has been applied. -/
def applied : SyncState V :=
  (sync.applyTrigger world (digestsPerFrame options.maxFrameBytes.toNat) trigger).1

/-- A reaction taken apart: updates are sent first; when all are, the tables are
settled and pulls are started from them. -/
theorem react_cases : ∃ sent : SyncState V,
    sent.pulls = (sync.applied options world trigger).pulls ∧
    (∀ name, name ∈ sent.peers ↔ name ∈ (sync.applied options world trigger).peers) ∧
    ((∃ refusal, sync.react options world trigger = (sent, .error (.document refusal))) ∨
      ∃ updates,
        let per := digestsPerFrame options.maxFrameBytes.toNat
        let settled := sent.settle world per
        let started := startPulls options.maxConcurrentPulls.toNat world.wants.toList settled.1
        let frames := (sync.applyTrigger world per trigger).2 ++ updates ++ settled.2
        Sends frames ∧
          Sent world options.maxFrameBytes.toNat
            ((sync.applied options world trigger).behind world.ours) updates ∧
          sync.react options world trigger = (started.1, .ok (frames ++ started.2))) := by
  have applies := sync.applyTrigger_sends world (digestsPerFrame options.maxFrameBytes.toNat) trigger
  unfold applied react
  dsimp only
  generalize sync.applyTrigger world (digestsPerFrame options.maxFrameBytes.toNat) trigger = start
    at applies ⊢
  have pulls := pulls_sendUpdates world options.maxFrameBytes.toNat (start.1.behind world.ours)
    start.1 start.2
  have members := mem_sendUpdates world options.maxFrameBytes.toNat (start.1.behind world.ours)
    start.1 start.2
  cases sending : sendUpdates world options.maxFrameBytes.toNat (start.1.behind world.ours) start.1
    start.2 with
  | mk sent result =>
    rw [sending] at pulls members
    refine ⟨sent, pulls, members, ?_⟩
    cases result with
    | error refusal =>
      obtain ⟨reported, rfl⟩ := sendUpdates_refused (congrArg Prod.snd sending)
      exact .inl ⟨reported, rfl⟩
    | ok actions =>
      obtain ⟨updates, sentAll, same⟩ := sendUpdates_out (congrArg Prod.snd sending)
      have settles := settle_sends world (digestsPerFrame options.maxFrameBytes.toNat) sent
      exact .inr ⟨updates, (applies.append sentAll.sends).append settles, sentAll, by rw [same]⟩

theorem react_ok (exports : world.Exports) :
    ∃ actions, (sync.react options world trigger).2 = .ok actions := by
  obtain ⟨actions, sent⟩ := sendUpdates_ok exports options.maxFrameBytes.toNat
    ((sync.applyTrigger world (digestsPerFrame options.maxFrameBytes.toNat) trigger).1.behind
      world.ours)
    (sync.applyTrigger world (digestsPerFrame options.maxFrameBytes.toNat) trigger).1
    (sync.applyTrigger world (digestsPerFrame options.maxFrameBytes.toNat) trigger).2
  unfold react
  dsimp only
  split
  · rename_i failing
    rw [failing] at sent
    cases sent
  · exact ⟨_, rfl⟩

end React

end SyncState

end Mille.Drive
