import Mathlib
import Mille.Lib.Run
import Mille.Drive.SyncCalls

/-! Whom the tables of the sync core name, and which peers have been asked for what.
Entries come from opening a peer, from its `Hello` and from a chunk; only the first two
greet it and ask it. -/

namespace Mille.Drive

open Std Mille.Bincode

/-- The trigger opens the peer. -/
def Trigger.Opens {V : Type} (name : String) : Trigger V → Prop
  | .opened peer => peer = name
  | .hello peer _ => peer = name
  | _ => False

/-- The actions ask the peer for the object. -/
def Asks (actions : List SyncAction) (name : String) (digest : Blake3) : Prop :=
  ∃ digests, .send name (.want digests) ∈ actions ∧ digest ∈ digests

namespace Asks

variable {actions more : List SyncAction} {name : String} {digest : Blake3}

theorem left (asks : Asks actions name digest) : Asks (actions ++ more) name digest := by
  obtain ⟨digests, sent, named⟩ := asks
  exact ⟨digests, List.mem_append_left _ sent, named⟩

theorem right (asks : Asks more name digest) : Asks (actions ++ more) name digest := by
  obtain ⟨digests, sent, named⟩ := asks
  exact ⟨digests, List.mem_append_right _ sent, named⟩

theorem digestFrames {per : Nat} (positive : 0 < per) {digests : List Blake3}
    (named : digest ∈ digests) : Asks (digestFrames .want per name digests) name digest := by
  obtain ⟨piece, cut, inside⟩ := (chunks.mem_iff positive).mpr named
  exact ⟨piece, List.mem_map.mpr ⟨piece, cut, rfl⟩, inside⟩

end Asks

theorem digestsPerFrame_pos (maxFrame : Nat) : 0 < digestsPerFrame maxFrame := by
  unfold digestsPerFrame
  omega

namespace SyncState

variable {V : Type}

/-- The tables name only peers that have an entry. -/
structure Named (sync : SyncState V) : Prop where
  holders : ∀ digest holder, holder ∈ sync.holders.getD digest [] → holder ∈ sync.peers
  failed : ∀ (digest : Blake3) (holders : ExtTreeMap String Backoff),
    sync.failed[digest]? = some holders → ∀ holder ∈ holders, holder ∈ sync.peers
  inflight : ∀ (digest : Blake3) (pull : InflightPull),
    sync.inflight[digest]? = some pull → pull.holder ∈ sync.peers

namespace Named

variable {sync after : SyncState V}

theorem of_joined (named : Named sync) (pulls : after.pulls = sync.pulls)
    (grown : ∀ name, name ∈ sync.peers → name ∈ after.peers) : Named after := by
  refine ⟨?_, ?_, ?_⟩
  · intro digest holder member
    rw [holders_of_pulls pulls] at member
    exact grown holder (named.holders digest holder member)
  · intro digest holders found holder member
    rw [failed_of_pulls pulls] at found
    exact grown holder (named.failed digest holders found holder member)
  · intro digest pull flying
    rw [inflight_of_pulls pulls] at flying
    exact grown _ (named.inflight digest pull flying)

theorem endFailed (named : Named sync) (digest : Blake3) (peer : String) :
    Named (sync.endFailed digest peer) := by
  unfold SyncState.endFailed
  cases flying : sync.inflight[digest]? with
  | none => exact named
  | some pull =>
    dsimp only
    split
    · rename_i isPeer
      have known : peer ∈ sync.peers := isPeer ▸ named.inflight digest pull flying
      refine ⟨named.holders, ?_, ?_⟩
      · intro other holders found holder member
        dsimp only at found
        rw [Maps.lookup_insert] at found
        split at found
        · cases found
          rcases ExtTreeMap.mem_insert.mp member with same | before
          · exact (LawfulEqOrd.compare_eq_iff_eq.mp same) ▸ known
          · rw [ExtTreeMap.getD_eq_getD_getElem?] at before
            cases there : sync.failed[digest]? with
            | none => simp [there] at before
            | some backoffs =>
              rw [there] at before
              exact named.failed digest backoffs there holder before
        · exact named.failed other holders found holder member
      · intro other pull found
        dsimp only at found
        rw [Maps.lookup_erase] at found
        split at found
        · cases found
        · exact named.inflight other pull found
    · exact named

theorem endAll (named : Named sync) (entries : List (Blake3 × String)) :
    Named (sync.endAll entries) := by
  unfold SyncState.endAll
  induction entries generalizing sync with
  | nil => exact named
  | cons entry rest ih => exact ih (named.endFailed entry.1 entry.2)

theorem syncClose (named : Named sync) (peer : String) : Named (sync.syncClose peer) := by
  have remains {holder : String} (known : holder ∈ sync.peers) (other : holder ≠ peer) :
      holder ∈ (sync.syncClose peer).peers :=
    ExtTreeMap.mem_erase.mpr ⟨by simpa using other.symm, known⟩
  refine ⟨?_, ?_, ?_⟩
  · intro digest holder member
    obtain ⟨before, other⟩ := (holder_after_close sync).mp member
    exact remains (named.holders digest holder before) other
  · intro digest holders found holder member
    unfold SyncState.syncClose at found
    dsimp only at found
    rw [ExtTreeMap.getElem?_map] at found
    obtain ⟨backoffs, there, rfl⟩ := Option.map_eq_some_iff.mp found
    obtain ⟨different, before⟩ := ExtTreeMap.mem_erase.mp member
    exact remains (named.failed digest backoffs there holder before)
      fun same => different (by simp [same])
  · intro digest pull flying
    unfold SyncState.syncClose at flying
    dsimp only at flying
    rw [ExtTreeMap.getElem?_filter'] at flying
    obtain ⟨before, other⟩ := Option.filter_eq_some_iff.mp flying
    exact remains (named.inflight digest pull before) (by simpa using other)

theorem settle (named : Named sync) (world : World V) (per : Nat) :
    Named (sync.settle world per).1 := by
  refine ⟨?_, ?_, ?_⟩
  · intro digest holder member
    rw [holders_settle, ExtTreeMap.getD_eq_getD_getElem?, ExtTreeMap.getElem?_filter'] at member
    rw [mem_settle]
    apply named.holders digest holder
    rw [ExtTreeMap.getD_eq_getD_getElem?]
    cases found : sync.holders[digest]? with
    | none => simp [found] at member
    | some holders =>
      rw [found, Option.filter] at member
      split at member
      · exact member
      · cases member
  · intro digest holders found holder member
    rw [failed_settle, ExtTreeMap.getElem?_filter', ExtTreeMap.getElem?_filter'] at found
    rw [mem_settle]
    have there := (Option.filter_eq_some_iff.mp (Option.filter_eq_some_iff.mp found).1).1
    exact named.failed digest holders there holder member
  · intro digest pull flying
    rw [inflight_settle] at flying
    rw [mem_settle]
    exact named.inflight digest pull flying

theorem startPulls (named : Named sync) (limit : Nat) (digests : List Blake3) :
    Named (startPulls limit digests sync).1 := by
  induction digests generalizing sync with
  | nil => exact named
  | cons digest rest ih =>
    unfold SyncState.startPulls
    split
    · exact named
    · split
      · exact ih named
      · split
        · rename_i holder source
          apply ih
          refine ⟨named.holders, named.failed, ?_⟩
          intro other pull flying
          dsimp only at flying
          rw [Maps.lookup_insert] at flying
          split at flying
          · cases flying
            exact named.holders digest holder (List.mem_of_find?_eq_some source)
          · exact named.inflight other pull flying
        · exact ih named

end Named

section Triggers

variable [VersionVector V] {sync : SyncState V} {world : World V} {per : Nat} {trigger : Trigger V}

theorem mem_applyTrigger (name : String) :
    name ∈ (sync.applyTrigger world per trigger).1.peers ↔
      name ∈ sync.peers ∨ trigger.Opens name := by
  cases trigger with
  | opened peer =>
    simp only [applyTrigger, setPeer, Trigger.Opens, ExtTreeMap.mem_insert,
      LawfulEqOrd.compare_eq_iff_eq]
    exact or_comm
  | hello peer theirs =>
    simp only [applyTrigger, setPeer, Trigger.Opens, ExtTreeMap.mem_insert,
      LawfulEqOrd.compare_eq_iff_eq]
    exact or_comm
  | imported sender before after => simp [applyTrigger, Trigger.Opens, ExtTreeMap.mem_modify]
  | want peer digests => simp [applyTrigger, Trigger.Opens, ExtTreeMap.mem_modify]
  | localChange => simp [applyTrigger, Trigger.Opens]
  | haves peer digests => simp [applyTrigger, Trigger.Opens]
  | pulled digest => simp [applyTrigger, Trigger.Opens]
  | pullFailed peer digest => simp [applyTrigger, Trigger.Opens]
  | tick =>
    have kept := (endAll_keeps { sync with ticks := sync.ticks + 1 }
      (expired { sync with ticks := sync.ticks + 1 })).2.1
    unfold endAll at kept
    simp [applyTrigger, Trigger.Opens, kept]

/-- An offer is recorded without looking for the peer's entry, so it is harmless only
when there is one or nothing offered is wanted. -/
theorem Named.applyTrigger (named : Named sync)
    (offers : ∀ peer digests, trigger = .haves peer digests →
      peer ∈ sync.peers ∨ ∀ digest ∈ digests, digest ∉ world.wants) :
    Named (sync.applyTrigger world per trigger).1 := by
  have grown (name : String) (known : name ∈ sync.peers) :
      name ∈ (sync.applyTrigger world per trigger).1.peers := (mem_applyTrigger name).mpr (.inl known)
  cases trigger with
  | haves peer digests =>
    refine ⟨?_, named.failed, named.inflight⟩
    intro digest holder member
    rcases mem_recordHolders.mp member with before | ⟨rfl, listed, wanted⟩
    · exact named.holders digest holder before
    · exact (offers holder digests rfl).resolve_right fun unwanted => unwanted digest listed wanted
  | pulled digest =>
    refine ⟨?_, ?_, ?_⟩
    · intro other holder member
      simp only [SyncState.applyTrigger, ExtTreeMap.getD_erase] at member
      split at member
      · cases member
      · exact named.holders other holder member
    · intro other holders found
      simp only [SyncState.applyTrigger, Maps.lookup_erase] at found
      split at found
      · cases found
      · exact named.failed other holders found
    · intro other pull flying
      simp only [SyncState.applyTrigger, Maps.lookup_erase] at flying
      split at flying
      · cases flying
      · exact named.inflight other pull flying
  | pullFailed peer digest => exact named.endFailed digest peer
  | tick =>
    have ticked : Named { sync with ticks := sync.ticks + 1 } :=
      ⟨named.holders, named.failed, named.inflight⟩
    exact ticked.endAll _
  | opened peer => exact named.of_joined rfl grown
  | hello peer theirs => exact named.of_joined rfl grown
  | imported sender before after => exact named.of_joined rfl grown
  | want peer digests => exact named.of_joined rfl grown
  | localChange => exact named

theorem applyTrigger_asks (positive : 0 < per) {name : String} (opens : trigger.Opens name)
    (fresh : name ∉ sync.peers) {digest : Blake3} (wanted : digest ∈ world.wants) :
    Asks (sync.applyTrigger world per trigger).2 name digest := by
  have asked : Asks (hello name world.ours :: digestFrames .want per name world.wants.toList)
      name digest := by
    rw [← List.singleton_append]
    exact Asks.right (Asks.digestFrames positive (ExtTreeSet.mem_toList.mpr wanted))
  cases trigger with
  | opened peer =>
    cases opens
    exact asked
  | hello peer theirs =>
    cases opens
    simp only [applyTrigger]
    rw [if_neg (by simpa using fresh)]
    exact asked
  | _ => cases opens

theorem asked_applyTrigger {digest : Blake3}
    (asked : digest ∈ (sync.applyTrigger world per trigger).1.asked) : digest ∈ sync.asked := by
  cases trigger with
  | pulled gone => exact (ExtTreeSet.mem_erase.mp asked).2
  | tick =>
    have kept := (endAll_keeps { sync with ticks := sync.ticks + 1 }
      (expired { sync with ticks := sync.ticks + 1 })).2.2.1
    unfold endAll at kept
    simp only [applyTrigger, kept] at asked
    exact asked
  | pullFailed peer gone =>
    simp only [applyTrigger, asked_endFailed] at asked
    exact asked
  | _ => exact asked

end Triggers

section Settle

variable {sync : SyncState V} {world : World V} {per : Nat}

theorem askFresh_asks (positive : 0 < per) {name : String} (known : name ∈ sync.peers)
    {digest : Blake3} (wanted : digest ∈ world.wants) (unasked : digest ∉ sync.asked) :
    Asks (sync.askFresh world per).2 name digest := by
  have fresh : digest ∈ world.wants.toList.filter (!sync.asked.contains ·) :=
    List.mem_filter.mpr ⟨ExtTreeSet.mem_toList.mpr wanted, by
      simpa [← Bool.not_eq_true] using unasked⟩
  unfold askFresh
  dsimp only
  rw [if_neg (List.ne_nil_of_mem fresh)]
  obtain ⟨digests, sent, named⟩ := @Asks.digestFrames name digest per positive _ fresh
  exact ⟨digests, List.mem_flatMap.mpr ⟨name, ExtTreeMap.mem_keys.mpr known, sent⟩, named⟩

theorem asked_settle {digest : Blake3} (asked : digest ∈ (sync.settle world per).1.asked) :
    digest ∈ world.wants := by
  obtain ⟨_, wanted⟩ := ExtTreeSet.mem_filter.mp asked
  simpa using wanted

end Settle

section React

variable [VersionVector V] (options : DriveOptions) {sync : SyncState V} {world : World V}
variable {trigger : Trigger V}

theorem Named.react (named : Named sync)
    (offers : ∀ peer digests, trigger = .haves peer digests →
      peer ∈ sync.peers ∨ ∀ digest ∈ digests, digest ∉ world.wants) :
    Named (sync.react options world trigger).1 := by
  obtain ⟨sent, pulls, members, ⟨refusal, failed⟩ | ⟨updates, _, _, done⟩⟩ :=
    sync.react_cases options world trigger
  · rw [failed]
    exact (named.applyTrigger offers).of_joined pulls fun name => (members name).mpr
  · rw [done]
    have settled := ((named.applyTrigger offers).of_joined pulls fun name => (members name).mpr).settle
      world (digestsPerFrame options.maxFrameBytes.toNat)
    exact settled.startPulls _ _

theorem mem_react (name : String) : name ∈ (sync.react options world trigger).1.peers ↔
    name ∈ sync.peers ∨ trigger.Opens name := by
  obtain ⟨sent, _, members, ⟨refusal, failed⟩ | ⟨updates, _, _, done⟩⟩ :=
    sync.react_cases options world trigger
  · rw [failed, members]
    exact mem_applyTrigger name
  · rw [done]
    dsimp only
    rw [startPulls_keeps, mem_settle, members]
    exact mem_applyTrigger name

theorem react_asks {actions : List SyncAction}
    (done : (sync.react options world trigger).2 = .ok actions) {name : String}
    (known : name ∈ (sync.react options world trigger).1.peers) {digest : Blake3}
    (asked : digest ∈ (sync.react options world trigger).1.asked) :
    Asks actions name digest ∨ name ∈ sync.peers ∧ digest ∈ sync.asked := by
  have positive := digestsPerFrame_pos options.maxFrameBytes.toNat
  have opened := (mem_react options name).mp known
  obtain ⟨sent, pulls, members, ⟨refusal, failed⟩ | ⟨updates, _, _, whole⟩⟩ :=
    sync.react_cases options world trigger
  · rw [failed] at done
    cases done
  · rw [whole] at done asked
    cases done
    dsimp only at asked
    rw [startPulls_keeps] at asked
    have wanted := asked_settle asked
    by_cases before : digest ∈ sent.asked
    · rw [asked_of_pulls pulls] at before
      by_cases there : name ∈ sync.peers
      · exact .inr ⟨there, asked_applyTrigger before⟩
      · have now := applyTrigger_asks positive (opened.resolve_left there) there wanted
        exact .inl now.left.left.left
    · have present : name ∈ sent.peers := (members name).mpr ((mem_applyTrigger name).mpr opened)
      have now : Asks (sent.settle world (digestsPerFrame options.maxFrameBytes.toNat)).2 name digest :=
        (askFresh_asks positive present wanted before).left
      exact .inl now.right.left

theorem react_failed {refusal : DriveError}
    (failed : (sync.react options world trigger).2 = .error refusal) {digest : Blake3}
    (asked : digest ∈ (sync.react options world trigger).1.asked) : digest ∈ sync.asked := by
  obtain ⟨sent, pulls, _, ⟨other, fails⟩ | ⟨updates, _, _, done⟩⟩ :=
    sync.react_cases options world trigger
  · rw [fails, asked_of_pulls pulls] at asked
    exact asked_applyTrigger asked
  · rw [done] at failed
    cases failed

end React

/-- What keeps the tables sound: a `Have` of wanted objects and, once anything has been
asked, a chunk come only from peers with an entry; and a call that creates an entry by
greeting gets its actions out. -/
def Registered {V : Type} (options : DriveOptions) (sync : SyncState V) : SyncCall V → Prop
  | .opened world name => name ∈ sync.peers ∨ world.Exports
  | .handle world _ name bytes =>
    match accepted options bytes with
    | some (.hello _) => name ∈ sync.peers ∨ world.Exports
    | some (.updatesChunk _ _ _ _) => name ∈ sync.peers ∨ sync.asked = ∅
    | some (.haves digests) => name ∈ sync.peers ∨ ∀ digest ∈ digests, digest ∉ world.wants
    | _ => True
  | _ => True

section Runs

variable [VersionVector V] (options : DriveOptions)

/-- A history of calls, each with the tables it found. -/
def trace (sync : SyncState V) : List (SyncCall V) → List (SyncState V × SyncCall V)
  | [] => []
  | call :: rest => (sync, call) :: trace (sync.call options call).1 rest

theorem trace_snoc (sync : SyncState V) (calls : List (SyncCall V)) (last : SyncCall V) :
    trace options sync (calls ++ [last]) = trace options sync calls ++
      [(calls.foldl (fun sync call => (sync.call options call).1) sync, last)] := by
  induction calls generalizing sync with
  | nil => rfl
  | cons call rest ih => simp [trace, ih]

/-- A `Want` naming the object was emitted to the peer since it last became open. -/
def AskedSinceOpen (name : String) (digest : Blake3) : List (SyncState V × SyncCall V) → Prop :=
  Since (fun step => ∃ actions, (step.1.call options step.2).2 = .ok actions ∧
      Asks actions name digest)
    fun step => ¬(name ∉ step.1.peers ∧ name ∈ (step.1.call options step.2).1.peers)

/-- The tables name only peers with an entry, and everything asked was asked of each. -/
structure Kept (history : List (SyncState V × SyncCall V)) (sync : SyncState V) : Prop where
  named : Named sync
  asked : ∀ name ∈ sync.peers, ∀ digest ∈ sync.asked, AskedSinceOpen options name digest history

omit [VersionVector V] in
theorem Registered.known {sync : SyncState V} {call : SyncCall V}
    (registered : Registered options sync call) {name : String} (joins : call.Joins options name)
    {digest : Blake3} (asked : digest ∈ sync.asked) : name ∈ sync.peers := by
  cases call with
  | handle world importInner sender bytes =>
    obtain ⟨rfl, chunk⟩ := joins
    cases accepts : accepted options bytes with
    | none => simp [accepts] at chunk
    | some frame =>
      simp only [Registered, accepts] at chunk registered
      cases frame with
      | updatesChunk id seq total part =>
        refine registered.resolve_right fun nothing => ?_
        rw [nothing] at asked
        simp at asked
      | _ => simp [Frame.isChunk] at chunk
  | _ => cases joins

theorem Registered.opens {sync start : SyncState V} {call : SyncCall V}
    (registered : Registered options sync call) {world : World V} {trigger : Trigger V}
    (reached : Reached options sync call world trigger start) {name : String}
    (opens : trigger.Opens name) : name ∈ sync.peers ∨ world.Exports := by
  cases reached with
  | opened =>
    cases opens
    exact registered
  | handle accepts handled =>
    simp only [Registered, accepts] at registered
    cases handled with
    | hello decoded =>
      cases opens
      exact registered
    | _ => cases opens
  | _ => cases opens

theorem Registered.offers {sync start : SyncState V} {call : SyncCall V}
    (registered : Registered options sync call) {world : World V} {name : String}
    {digests : List Blake3}
    (reached : Reached options sync call world (.haves name digests) start) :
    name ∈ sync.peers ∨ ∀ digest ∈ digests, digest ∉ world.wants := by
  cases reached with
  | handle accepts handled =>
    simp only [Registered, accepts] at registered
    cases handled with
    | haves few => exact registered

theorem Kept.call {history : List (SyncState V × SyncCall V)} {sync : SyncState V}
    (kept : Kept options history sync) {call : SyncCall V} (registered : Registered options sync call) :
    Kept options (history ++ [(sync, call)]) (sync.call options call).1 := by
  have before {name : String} {digest : Blake3} (known : name ∈ sync.peers)
      (asked : digest ∈ sync.asked) : AskedSinceOpen options name digest (history ++ [(sync, call)]) :=
    since_snoc.mpr (.inr ⟨kept.asked name known digest asked, fun opens => opens.1 known⟩)
  rcases call_cases options sync call with ⟨world, trigger, start, reaching, same, joined⟩ |
    ⟨unreached, quiet, _⟩
  · have reached := reaction_reached options reaching
    have starts : Named start := kept.named.of_joined joined.pulls fun name known =>
      (joined.mem name).mpr (.inl known)
    have present {name : String} {digest : Blake3} (known : name ∈ start.peers)
        (asked : digest ∈ start.asked) : AskedSinceOpen options name digest (history ++ [(sync, call)]) := by
      rw [asked_of_pulls joined.pulls] at asked
      rcases (joined.mem name).mp known with there | joins
      · exact before there asked
      · exact before (registered.known options joins asked) asked
    rw [same]
    refine ⟨starts.react options ?_, ?_⟩
    · rintro peer digests rfl
      exact (registered.offers options reached).imp_left fun known => (joined.mem peer).mpr (.inl known)
    · intro name known digest asked
      cases result : (start.react options world trigger).2 with
      | ok actions =>
        rcases react_asks options result known asked with asks | ⟨there, earlier⟩
        · exact since_snoc.mpr (.inl ⟨actions, (congrArg Prod.snd same).trans result, asks⟩)
        · exact present there earlier
      | error refusal =>
        have earlier := react_failed options result asked
        rcases (mem_react options name).mp known with there | opens
        · exact present there earlier
        · refine present ((joined.mem name).mpr (.inl ?_)) earlier
          refine (registered.opens options reached opens).resolve_right fun exports => ?_
          obtain ⟨actions, done⟩ := react_ok options world trigger start exports
          rw [result] at done
          cases done
  · generalize (sync.call options call).1 = after at quiet
    cases quiet with
    | handle joined =>
      refine ⟨kept.named.of_joined joined.pulls fun name known => (joined.mem name).mpr (.inl known), ?_⟩
      intro name known digest asked
      rw [asked_of_pulls joined.pulls] at asked
      rcases (joined.mem name).mp known with there | joins
      · exact before there asked
      · exact before (registered.known options joins asked) asked
    | refused =>
      refine ⟨kept.named.endFailed _ _, ?_⟩
      intro name known digest asked
      rw [peers_endFailed] at known
      rw [asked_endFailed] at asked
      exact before known asked
    | close name =>
      refine ⟨kept.named.syncClose name, ?_⟩
      intro other known digest asked
      exact before (ExtTreeMap.mem_erase.mp known).2 asked

/-- In every history whose calls keep to registered peers, after each call the tables
name only peers with an entry, and every peer with an entry was asked, since it last got
it, for everything the drive counts as asked. -/
theorem bookkeeping_of_registered (calls : List (SyncCall V))
    (registered : Run.Along (fun sync call => (sync.call options call).1) (Registered options)
      .default calls) :
    let sync := afterCalls options calls
    Named sync ∧ ∀ name ∈ sync.peers, ∀ digest ∈ sync.asked,
      AskedSinceOpen options name digest (trace options .default calls) := by
  have kept : Kept options (trace options .default calls) (afterCalls options calls) := by
    induction calls using List.reverseRecOn with
    | nil =>
      have nobody (name : String) : name ∉ (SyncState.default : SyncState V).peers := by
        simp [SyncState.default]
      refine ⟨⟨?_, ?_, ?_⟩, fun name known => absurd known (nobody name)⟩
      · intro digest holder member
        simp [afterCalls, SyncState.default] at member
      · intro digest holders found
        simp [afterCalls, SyncState.default] at found
      · intro digest pull flying
        simp [afterCalls, SyncState.default] at flying
    | append_singleton calls call ih =>
      obtain ⟨before, meets⟩ := Run.along_snoc registered
      have next := (ih before).call options meets
      rw [trace_snoc]
      unfold afterCalls at next ⊢
      rwa [List.foldl_append]
  exact ⟨kept.named, kept.asked⟩

end Runs

/-- A peer that is opened and then offers what it was asked for. -/
theorem bookkeeping_of_registered_offer :
    let calls := [.opened sampleWorld "peer", sampleFrame "peer" (.haves [7])]
    "peer" ∈ (afterCalls sampleOptions calls).peers ∧
      AskedSinceOpen sampleOptions "peer" 7 (trace sampleOptions .default calls) := by
  intro calls
  have known : "peer" ∈ (afterCalls sampleOptions calls).peers := by decide +kernel
  have asked : (7 : Blake3) ∈ (afterCalls sampleOptions calls).asked := by decide +kernel
  have offer : accepted sampleOptions (encodeFrame (.haves [7])) = some (.haves [7]) := by
    decide +kernel
  have open' : "peer" ∈ (afterCalls sampleOptions [.opened sampleWorld "peer"]).peers := by
    decide +kernel
  have registered : Run.Along (fun sync call => (sync.call sampleOptions call).1)
      (Registered sampleOptions) .default calls := by
    refine ⟨.inr fun _ => ⟨[], rfl⟩, ?_, trivial⟩
    simp only [Registered, sampleFrame, offer]
    exact .inl open'
  exact ⟨known, (bookkeeping_of_registered sampleOptions calls registered).2 "peer" known 7 asked⟩

/-- A drive that has asked for an object hears from a stranger. Its offer is recorded
and pulled though it has no entry; its chunk gives it an entry though it was never asked. -/
theorem stranger_recorded_but_not_asked :
    ¬Named (afterCalls sampleOptions [.localChanged sampleWorld, sampleFrame "stranger" (.haves [7])]) ∧
    let calls := [.localChanged sampleWorld, sampleFrame "stranger" (.updatesChunk 1 0 2 [0])]
    "stranger" ∈ (afterCalls sampleOptions calls).peers ∧
      (7 : Blake3) ∈ (afterCalls sampleOptions calls).asked ∧ (7 : Blake3) ∈ sampleWorld.wants ∧
      ¬AskedSinceOpen sampleOptions "stranger" 7 (trace sampleOptions .default calls) := by
  refine ⟨?_, by decide +kernel, by decide +kernel, by decide +kernel, ?_⟩
  · intro named
    have offered : "stranger" ∈ (afterCalls sampleOptions
        [.localChanged sampleWorld, sampleFrame "stranger" (.haves [7])]).holders.getD 7 [] := by
      decide +kernel
    exact absurd (named.holders 7 "stranger" offered) (by decide +kernel)
  · intro asked
    have silent : ∀ step ∈ trace sampleOptions .default
        [.localChanged sampleWorld, sampleFrame "stranger" (.updatesChunk 1 0 2 [0])],
        (step.1.call sampleOptions step.2).2 = .ok [] := by
      decide +kernel
    obtain ⟨step, member, actions, emitted, digests, sent, _⟩ := asked.exists
    rw [silent step member] at emitted
    cases emitted
    cases sent

end SyncState

end Mille.Drive
