import Mathlib
import Mille.Drive.SyncFrames

/-! What a reaction makes of the vector recorded for each peer, and which frames it sends
that peer. -/

namespace Mille.Drive

open Std Mille.Bincode

/-- What a trigger makes of the vector recorded for a peer. -/
def Trigger.recorded {V : Type} [VersionVector V] (name : String) (known : Option V) :
    Trigger V → Option V
  | .hello peer theirs => if peer = name then some theirs else known
  | .imported sender before after =>
    if sender = name ∧ known.any (includesVv · before) then some after else known
  | _ => known

/-- A frame that carries no change: a greeting with this vector, or digests. -/
def Frame.Bare {V : Type} [VersionVector V] (ours : V) : Frame → Prop
  | .hello vv => vv = VersionVector.encode ours
  | .want _ => True
  | .haves _ => True
  | _ => False

namespace SyncState

section Entries

variable {V : Type} (sync : SyncState V) (name other : String)

theorem peer_setPeer_ne (state : PeerState V) (different : other ≠ name) :
    (sync.setPeer other state).peer name = sync.peer name := by
  unfold peer setPeer
  rw [ExtTreeMap.getD_insert, if_neg]
  rwa [LawfulEqOrd.compare_eq_iff_eq]

theorem peer_modify {α : Type} (read : PeerState V → α) (change : PeerState V → PeerState V)
    (empty : read (change .default) = read .default) :
    read (peer { sync with peers := sync.peers.modify other change } name) =
      if other = name then read (change (sync.peer name)) else read (sync.peer name) := by
  unfold peer
  dsimp only
  rw [ExtTreeMap.getD_modify]
  simp only [LawfulEqOrd.compare_eq_iff_eq]
  by_cases same : other = name
  · subst same
    rw [if_pos rfl, if_pos rfl, ExtTreeMap.getD_eq_getD_getElem?]
    cases sync.peers[other]? with
    | none => exact empty.symm
    | some state => rfl
  · rw [if_neg same, if_neg same]

theorem peer_caughtUp_ne (ours : V) (different : other ≠ name) :
    (sync.caughtUp other ours).peer name = sync.peer name := by
  unfold caughtUp peer
  dsimp only
  rw [ExtTreeMap.getD_modify, if_neg]
  rwa [LawfulEqOrd.compare_eq_iff_eq]

theorem assembly_caughtUp (ours : V) :
    ((sync.caughtUp other ours).peer name).assembly = (sync.peer name).assembly := by
  unfold caughtUp
  rw [peer_modify sync name other (·.assembly) _ rfl]
  split <;> rfl

theorem vv_caughtUp (ours : V) (listed : name ∈ sync.peers) :
    ((sync.caughtUp name ours).peer name).vv = some ours := by
  unfold caughtUp peer
  dsimp only
  rw [ExtTreeMap.getD_modify_self, ExtTreeMap.getElem?_eq_some_getElem listed]
  rfl

theorem framesTo_updateFrames_ne (bytes : Bytes) (maxFrame : Nat) (different : other ≠ name) :
    framesTo name (sync.updateFrames other bytes maxFrame).2 = [] := by
  unfold updateFrames
  split
  · simp [framesTo, different]
  · dsimp only
    rw [framesTo_chunkFrames, if_neg different]

theorem peer_updateFrames (bytes : Bytes) (maxFrame : Nat) :
    (sync.updateFrames other bytes maxFrame).1.peer name = sync.peer name := by
  unfold peer
  rw [peers_updateFrames]

theorem peer_endAll (entries : List (Blake3 × String)) :
    (sync.endAll entries).peer name = sync.peer name := by
  unfold peer
  rw [(@endAll_keeps V sync entries).2.1]

theorem peer_endFailed (digest : Blake3) :
    (sync.endFailed digest other).peer name = sync.peer name := by
  unfold peer
  rw [peers_endFailed]

end Entries

section Triggers

variable {V : Type} [VersionVector V] (world : World V) (per : Nat) (sync : SyncState V)

theorem vv_applyTrigger (trigger : Trigger V) (name : String) :
    ((sync.applyTrigger world per trigger).1.peer name).vv =
      trigger.recorded name (sync.peer name).vv := by
  cases trigger with
  | opened peer =>
    by_cases same : peer = name
    · subst same
      simp [applyTrigger, Trigger.recorded]
    · simp [applyTrigger, Trigger.recorded, peer_setPeer_ne _ _ _ _ same]
  | hello peer theirs =>
    by_cases same : peer = name
    · subst same
      simp [applyTrigger, Trigger.recorded]
    · simp [applyTrigger, Trigger.recorded, peer_setPeer_ne _ _ _ _ same, same]
  | imported sender before after =>
    simp only [applyTrigger, Trigger.recorded]
    rw [peer_modify sync name sender (·.vv) _ rfl]
    by_cases same : sender = name
    · by_cases had : (sync.peer name).vv.any (includesVv · before) = true
      · simp [same, had]
      · simp [same, had]
    · simp [same]
  | want peer digests =>
    simp only [applyTrigger, Trigger.recorded]
    rw [peer_modify sync name peer (·.vv) _ rfl]
    split <;> rfl
  | pullFailed peer digest => exact congrArg PeerState.vv (peer_endFailed sync name peer digest)
  | tick =>
    exact congrArg PeerState.vv (peer_endAll { sync with ticks := sync.ticks + 1 } name _)
  | localChange => rfl
  | haves peer digests => rfl
  | pulled digest => rfl

theorem assembly_applyTrigger (trigger : Trigger V) (name : String) :
    ((sync.applyTrigger world per trigger).1.peer name).assembly = (sync.peer name).assembly := by
  cases trigger with
  | opened peer =>
    by_cases same : peer = name
    · subst same
      simp [applyTrigger]
    · simp [applyTrigger, peer_setPeer_ne _ _ _ _ same]
  | hello peer theirs =>
    by_cases same : peer = name
    · subst same
      simp [applyTrigger]
    · simp [applyTrigger, peer_setPeer_ne _ _ _ _ same]
  | imported sender before after =>
    simp only [applyTrigger]
    rw [peer_modify sync name sender (·.assembly) _ rfl]
    split
    · split <;> rfl
    · rfl
  | want peer digests =>
    simp only [applyTrigger]
    rw [peer_modify sync name peer (·.assembly) _ rfl]
    split <;> rfl
  | pullFailed peer digest =>
    exact congrArg PeerState.assembly (peer_endFailed sync name peer digest)
  | tick =>
    exact congrArg PeerState.assembly (peer_endAll { sync with ticks := sync.ticks + 1 } name _)
  | localChange => rfl
  | haves peer digests => rfl
  | pulled digest => rfl

theorem bare_hello (name dest : String) (ours : V) {frame : Frame}
    (sent : .send dest frame = hello name ours) : frame.Bare ours := by
  cases sent
  rfl

theorem bare_digestFrames (build : List Blake3 → Frame)
    (kind : ∀ digests, (build digests).Bare world.ours) (name dest : String)
    (digests : List Blake3) {frame : Frame}
    (sent : .send dest frame ∈ digestFrames build per name digests) : frame.Bare world.ours := by
  obtain ⟨chunk, _, same⟩ := List.mem_map.mp sent
  cases same
  exact kind chunk

theorem applyTrigger_bare (trigger : Trigger V) {dest : String} {frame : Frame}
    (sent : .send dest frame ∈ (sync.applyTrigger world per trigger).2) :
    frame.Bare world.ours := by
  have greeting (name : String) (sent : .send dest frame ∈
      hello name world.ours :: digestFrames .want per name world.wants.toList) :
      frame.Bare world.ours := by
    rcases List.mem_cons.mp sent with first | later
    · exact bare_hello name dest world.ours first
    · exact bare_digestFrames world per .want (fun _ => trivial) name dest _ later
  cases trigger with
  | opened peer => exact greeting peer sent
  | hello peer theirs =>
    simp only [applyTrigger] at sent
    split at sent
    · cases sent
    · exact greeting peer sent
  | want peer digests => exact bare_digestFrames world per .haves (fun _ => trivial) peer dest _ sent
  | tick =>
    rcases List.mem_append.mp sent with greeted | asked
    · obtain ⟨name, _, same⟩ := List.mem_map.mp greeted
      exact bare_hello name dest world.ours same.symm
    · obtain ⟨name, _, asks⟩ := List.mem_flatMap.mp asked
      exact bare_digestFrames world per .want (fun _ => trivial) name dest _ asks
  | imported sender before after => cases sent
  | localChange => cases sent
  | haves peer digests => cases sent
  | pulled digest => cases sent
  | pullFailed peer digest => cases sent

theorem settle_bare {dest : String} {frame : Frame}
    (sent : .send dest frame ∈ (sync.settle world per).2) : frame.Bare world.ours := by
  rcases List.mem_append.mp sent with asked | answered
  · unfold askFresh at asked
    dsimp only at asked
    split at asked
    · cases asked
    · obtain ⟨name, _, asks⟩ := List.mem_flatMap.mp asked
      exact bare_digestFrames world per .want (fun _ => trivial) name dest _ asks
  · obtain ⟨entry, _, answers⟩ := List.mem_flatMap.mp answered
    exact bare_digestFrames world per .haves (fun _ => trivial) entry.1 dest _ answers

omit [VersionVector V] in
theorem peer_settle {α : Type} (read : PeerState V → α)
    (keeps : ∀ state wanted, read { state with wanted := wanted } = read state) (name : String) :
    read ((sync.settle world per).1.peer name) = read (sync.peer name) := by
  have same : (sync.settle world per).1.peers = (sync.askFresh world per).1.peers.map fun _ state =>
      { state with wanted := state.wanted.filter (!world.has ·) } := rfl
  unfold peer
  rw [same, (askFresh_keeps world per sync).1, ExtTreeMap.getD_eq_getD_getElem?,
    ExtTreeMap.getElem?_map, ExtTreeMap.getD_eq_getD_getElem?]
  cases sync.peers[name]? with
  | none => rfl
  | some state => exact keeps state _

end Triggers

section Sending

variable {V : Type} [VersionVector V] {world : World V} {maxFrame : Nat}

theorem mem_behind {sync : SyncState V} {ours : V} {name : String} {vv : V} :
    (name, vv) ∈ sync.behind ours ↔
      (sync.peer name).vv = some vv ∧ includesVv vv ours = false := by
  unfold behind peer
  rw [List.mem_filterMap, ExtTreeMap.getD_eq_getD_getElem?]
  constructor
  · rintro ⟨⟨other, state⟩, listed, found⟩
    have entry := ExtTreeMap.mem_toList_iff_getElem?_eq_some.mp listed
    dsimp only at found
    split at found
    · rename_i known recorded
      split at found
      · cases found
      · rename_i lacks
        cases found
        rw [entry]
        exact ⟨recorded, Bool.eq_false_of_not_eq_true lacks⟩
    · cases found
  · rintro ⟨recorded, lacks⟩
    cases entry : sync.peers[name]? with
    | none =>
      rw [entry] at recorded
      cases recorded
    | some state =>
      rw [entry] at recorded
      refine ⟨(name, state), ExtTreeMap.mem_toList_iff_getElem?_eq_some.mpr entry, ?_⟩
      dsimp only [Option.getD_some] at recorded ⊢
      rw [recorded]
      simp [lacks]

theorem behind_name {ours : V} {entry : String × PeerState V} {result : String × V}
    (found : (match entry.2.vv with
      | some vv => if includesVv vv ours then none else some (entry.1, vv)
      | none => none) = some result) : result.1 = entry.1 := by
  split at found
  · split at found
    · cases found
    · cases found
      rfl
  · cases found

theorem behind_distinct (sync : SyncState V) (ours : V) :
    ((sync.behind ours).map Prod.fst).Nodup := by
  unfold behind
  rw [List.nodup_iff_pairwise_ne, List.pairwise_map]
  apply List.Pairwise.filterMap _ _ ExtTreeMap.distinct_keys_toList
  intro first second different one found other looked same
  apply different
  rw [LawfulEqOrd.compare_eq_iff_eq]
  exact (behind_name found).symm.trans (same.trans (behind_name looked))

omit [VersionVector V] in
/-- What sending updates does to one peer's entry and to the frames it gets. -/
theorem sendUpdates_peer (name : String) {peers : List (String × V)} {sync : SyncState V}
    {out actions : List SyncAction} (distinct : (peers.map Prod.fst).Nodup)
    (listed : ∀ entry ∈ peers, entry.1 ∈ sync.peers)
    (done : (sendUpdates world maxFrame peers sync out).2 = .ok actions) :
    let sent := (sendUpdates world maxFrame peers sync out).1
    (sent.peer name).assembly = (sync.peer name).assembly ∧
    ((∃ vv bytes, ∃ start : SyncState V, (name, vv) ∈ peers ∧
        world.exportUpdatesSince vv = .ok bytes ∧ (sent.peer name).vv = some world.ours ∧
        framesTo name actions =
          framesTo name out ++ framesTo name (start.updateFrames name bytes maxFrame).2) ∨
      ((∀ vv, (name, vv) ∉ peers) ∧ (sent.peer name).vv = (sync.peer name).vv ∧
        framesTo name actions = framesTo name out)) := by
  induction peers generalizing sync out with
  | nil =>
    cases done
    exact ⟨rfl, .inr ⟨fun _ => List.not_mem_nil, rfl, rfl⟩⟩
  | cons head rest ih =>
    obtain ⟨first, vv⟩ := head
    rw [List.map_cons, List.nodup_cons] at distinct
    have there : first ∈ sync.peers := listed _ List.mem_cons_self
    simp only [sendUpdates] at done ⊢
    cases exported : world.exportUpdatesSince vv with
    | error refusal =>
      rw [exported] at done
      cases done
    | ok bytes =>
      rw [exported] at done
      dsimp only at done ⊢
      have entries : ∀ entry ∈ rest,
          entry.1 ∈ ((sync.updateFrames first bytes maxFrame).1.caughtUp first world.ours).peers := by
        intro entry member
        rw [mem_caughtUp, peers_updateFrames]
        exact listed entry (List.mem_cons_of_mem _ member)
      obtain ⟨assembly, others⟩ := ih distinct.2 entries done
      rw [assembly_caughtUp, peer_updateFrames] at assembly
      refine ⟨assembly, ?_⟩
      rw [framesTo_append] at others
      by_cases same : first = name
      · subst same
        rcases others with ⟨again, _, _, member, _⟩ | ⟨_, recorded, frames⟩
        · exact absurd (List.mem_map_of_mem (f := Prod.fst) member) distinct.1
        · refine .inl ⟨vv, bytes, sync, List.mem_cons_self, exported, ?_, frames⟩
          rw [recorded]
          exact vv_caughtUp _ first world.ours (by rwa [peers_updateFrames])
      · rw [framesTo_updateFrames_ne sync name first bytes maxFrame same, List.append_nil] at others
        rcases others with ⟨later, sent, start, member, gives, recorded, frames⟩ |
          ⟨absent, recorded, frames⟩
        · exact .inl ⟨later, sent, start, List.mem_cons_of_mem _ member, gives, recorded, frames⟩
        · refine .inr ⟨fun vv member => ?_, ?_, frames⟩
          · rcases List.mem_cons.mp member with head | tail
            · exact same (congrArg Prod.fst head).symm
            · exact absent vv tail
          · rw [recorded, peer_caughtUp_ne _ name first world.ours same, peer_updateFrames]

end Sending

section React

variable {V : Type} [VersionVector V] (options : DriveOptions) (world : World V)
variable (trigger : Trigger V) (sync : SyncState V)

/-- What a reaction leaves recorded of a peer and the frames it sends that peer: either
the vector includes this drive's and nothing but greetings and digests goes out, or the
update that is missing goes out among them and the vector is this drive's. -/
inductive Informed (name : String) (known after : Option V) (frames : List Frame) : Prop where
  | current (same : after = known) (covered : ∀ vv, known = some vv → includesVv vv world.ours = true)
      (bare : ∀ frame ∈ frames, frame.Bare world.ours)
  | updated (vv : V) (bytes : Bytes) (start : SyncState V) (before later : List Frame)
      (had : known = some vv) (lacked : includesVv vv world.ours = false)
      (exported : world.exportUpdatesSince vv = .ok bytes) (recorded : after = some world.ours)
      (split : frames = before ++
        framesTo name (start.updateFrames name bytes options.maxFrameBytes.toNat).2 ++ later)
      (bare : ∀ frame ∈ before ++ later, frame.Bare world.ours)

/-- What a reaction does for one peer. -/
theorem react_peer {actions : List SyncAction}
    (done : (sync.react options world trigger).2 = .ok actions) (name : String) :
    let after := (sync.react options world trigger).1.peer name
    after.assembly = (sync.peer name).assembly ∧
      Informed options world name (trigger.recorded name (sync.peer name).vv) after.vv
        (framesTo name actions) := by
  have vectors := vv_applyTrigger world (digestsPerFrame options.maxFrameBytes.toNat) sync trigger name
  have assemblies :=
    assembly_applyTrigger world (digestsPerFrame options.maxFrameBytes.toNat) sync trigger name
  have bare := fun frame => @applyTrigger_bare V _ world
    (digestsPerFrame options.maxFrameBytes.toNat) sync trigger name frame
  unfold react at done ⊢
  dsimp only at done ⊢
  generalize sync.applyTrigger world (digestsPerFrame options.maxFrameBytes.toNat) trigger = start
    at vectors assemblies bare done ⊢
  have listed : ∀ entry ∈ start.1.behind world.ours, entry.1 ∈ start.1.peers := by
    rintro ⟨other, vv⟩ member
    have recorded := (mem_behind.mp member).1
    by_contra absent
    unfold peer at recorded
    rw [ExtTreeMap.getD_eq_fallback absent] at recorded
    cases recorded
  cases sending : sendUpdates world options.maxFrameBytes.toNat (start.1.behind world.ours) start.1
    start.2 with
  | mk sent result =>
    rw [sending] at done
    cases result with
    | error refusal => cases done
    | ok out =>
      cases done
      have each := sendUpdates_peer name (behind_distinct start.1 world.ours) listed
        (congrArg Prod.snd sending)
      rw [sending] at each
      dsimp only at each ⊢
      have kept {α : Type} (read : PeerState V → α)
          (keeps : ∀ state wanted, read { state with wanted := wanted } = read state) :
          read ((startPulls options.maxConcurrentPulls.toNat world.wants.toList
            (sent.settle world (digestsPerFrame options.maxFrameBytes.toNat)).1).1.peer name) =
            read (sent.peer name) := by
        rw [startPulls_keeps]
        exact peer_settle world _ sent read keeps name
      have silent : framesTo name (startPulls options.maxConcurrentPulls.toNat world.wants.toList
          (sent.settle world (digestsPerFrame options.maxFrameBytes.toNat)).1).2 = [] := by
        rw [List.eq_nil_iff_forall_not_mem]
        intro frame member
        obtain ⟨holder, digest, same⟩ := startPulls_pulls (mem_framesTo.mp member)
        cases same
      rw [kept (·.assembly) (fun _ _ => rfl), kept (·.vv) (fun _ _ => rfl), framesTo_append,
        framesTo_append, silent, List.append_nil]
      refine ⟨each.1.trans assemblies, ?_⟩
      have last : ∀ frame ∈ framesTo name
          (sent.settle world (digestsPerFrame options.maxFrameBytes.toNat)).2,
          frame.Bare world.ours :=
        fun frame member => settle_bare world _ sent (mem_framesTo.mp member)
      have first : ∀ frame ∈ framesTo name start.2, frame.Bare world.ours :=
        fun frame member => bare frame (mem_framesTo.mp member)
      rcases each.2 with ⟨vv, bytes, tables, member, exported, recorded, frames⟩ |
        ⟨absent, recorded, frames⟩
      · obtain ⟨had, lacked⟩ := mem_behind.mp member
        refine .updated vv bytes tables _ _ (vectors.symm.trans had) lacked exported recorded
          (congrArg (· ++ _) frames) ?_
        intro frame member
        exact (List.mem_append.mp member).elim (first frame) (last frame)
      · refine .current (recorded.trans vectors) ?_ ?_
        · intro vv had
          by_contra lacks
          exact absent vv (mem_behind.mpr ⟨vectors.trans had, Bool.eq_false_of_not_eq_true lacks⟩)
        · intro frame member
          rw [frames] at member
          exact (List.mem_append.mp member).elim (first frame) (last frame)

end React

end SyncState

end Mille.Drive
