import Mathlib
import Mille.Drive.SyncTables

/-! Which reaction each call of the host reaches, and what the calls that reach none do. -/

namespace Mille.Drive

open Std Mille.Bincode

namespace SyncState

variable {V : Type} [VersionVector V] (options : DriveOptions)

/-- The reaction an imported update leads to. -/
def updatesReaction (world : World V) (importInner : Bytes → Except Refusal (V × V))
    (sync : SyncState V) (peer : String) (bytes : Bytes) :
    Option (World V × Trigger V × SyncState V) :=
  match importInner bytes with
  | .error _ => none
  | .ok (before, after) => some (world, .imported peer before after, sync)

/-- The reaction a decoded frame leads to, with the tables it starts from. -/
def frameReaction (world : World V) (importInner : Bytes → Except Refusal (V × V))
    (sync : SyncState V) (peer : String) : Frame → Option (World V × Trigger V × SyncState V)
  | .hello vv => (VersionVector.decode vv).map fun theirs => (world, .hello peer theirs, sync)
  | .updates bytes =>
    if bytes.length > options.maxUpdateBytes.toNat then none
    else sync.updatesReaction world importInner peer bytes
  | .updatesChunk id seq total bytes =>
    match sync.assemble options peer id seq total bytes with
    | (assembled, .ok (some whole)) => assembled.updatesReaction world importInner peer whole
    | _ => none
  | .want digests =>
    if digests.length > maxDigestsPerFrame then none else some (world, .want peer digests, sync)
  | .haves digests =>
    if digests.length > maxDigestsPerFrame then none else some (world, .haves peer digests, sync)

/-- The frame a call hands over, when it is not refused before. -/
def accepted (frame : Bytes) : Option Frame :=
  if frame.length > min (options.maxUpdateBytes.toNat + frameOverhead) (2 ^ 64 - 1) then none
  else (decodeFrame frame).toOption

/-- The reaction a call reaches, with what it reads and the tables it starts from. -/
def reaction (sync : SyncState V) : SyncCall V → Option (World V × Trigger V × SyncState V)
  | .opened world peer => some (world, .opened peer, sync)
  | .handle world importInner peer frame =>
    (accepted options frame).bind (sync.frameReaction options world importInner peer)
  | .localChanged world => some (world, .localChange, sync)
  | .pulled world (.ok ()) _ digest => some (world, .pulled digest, sync)
  | .pulled _ (.error _) _ _ => none
  | .pullFailed world peer digest => some (world, .pullFailed peer digest, sync)
  | .tick world => some (world, .tick, sync)
  | .close _ => none

end SyncState

/-- A chunk creates its sender's entry, whatever becomes of it. -/
def Frame.isChunk : Frame → Bool
  | .updatesChunk _ _ _ _ => true
  | _ => false

/-- The call creates the peer's entry by a chunk. -/
def SyncCall.Joins {V : Type} (options : DriveOptions) (name : String) : SyncCall V → Prop
  | .handle _ _ sender bytes => name = sender ∧ (SyncState.accepted options bytes).any Frame.isChunk
  | _ => False

namespace SyncState

variable {V : Type}

/-- The schedule is untouched, and the entries are those there were and those that join. -/
structure Joined (sync : SyncState V) (joins : String → Prop) (after : SyncState V) : Prop where
  pulls : after.pulls = sync.pulls
  mem : ∀ name, name ∈ after.peers ↔ name ∈ sync.peers ∨ joins name

theorem Joined.refl {sync : SyncState V} {joins : String → Prop} (nobody : ∀ name, ¬joins name) :
    Joined sync joins sync :=
  ⟨rfl, fun name => ⟨.inl, fun either => either.resolve_right (nobody name)⟩⟩

theorem Joined.setPeer {sync : SyncState V} {joins : String → Prop} {name : String}
    (one : ∀ other, joins other ↔ other = name) (state : PeerState V) :
    Joined sync joins (sync.setPeer name state) := by
  refine ⟨rfl, fun other => ?_⟩
  rw [one]
  unfold SyncState.setPeer
  simp only [ExtTreeMap.mem_insert, LawfulEqOrd.compare_eq_iff_eq]
  rw [or_comm, eq_comm]

variable [VersionVector V] (options : DriveOptions)

/-- A call that reaches a reaction is that reaction; one that does not emits nothing
and leaves the schedule alone. -/
def Follows (sync : SyncState V) (joins : String → Prop)
    (result : SyncState V × Except DriveError (List SyncAction)) :
    Option (World V × Trigger V × SyncState V) → Prop
  | some (world, trigger, start) =>
    result = start.react options world trigger ∧ Joined sync joins start
  | none => Joined sync joins result.1 ∧ ∀ actions, result.2 = .ok actions → actions = []

section Follows

variable (world : World V) (importInner : Bytes → Except Refusal (V × V)) (sync : SyncState V)
variable (peer : String)

omit [VersionVector V] in
theorem assemble_eq (id : UInt64) (seq total : UInt32) (bytes : Bytes) :
    ∃ assembly, (sync.assemble options peer id seq total bytes).1 =
      sync.setPeer peer { sync.peer peer with assembly := assembly } := by
  unfold assemble
  dsimp only
  repeat' split
  all_goals exact ⟨_, rfl⟩

theorem follows_onUpdates {joins : String → Prop} {start : SyncState V}
    (joined : Joined sync joins start) (bytes : Bytes) :
    Follows options sync joins (start.onUpdates options world importInner peer bytes)
      (start.updatesReaction world importInner peer bytes) := by
  unfold onUpdates updatesReaction
  cases importInner bytes with
  | error refusal => exact ⟨joined, fun _ impossible => by cases impossible⟩
  | ok vectors => exact ⟨rfl, joined⟩

theorem follows_frame (frame : Frame) :
    Follows options sync (fun name => name = peer ∧ frame.isChunk)
      (sync.handleFrame options world importInner peer frame)
      (sync.frameReaction options world importInner peer frame) := by
  have refused {joins : String → Prop} (refusal : DriveError) (nobody : ∀ name, ¬joins name) :
      Follows options sync joins (sync, .error refusal) none :=
    ⟨.refl nobody, fun _ impossible => by cases impossible⟩
  cases frame with
  | hello vv =>
    simp only [handleFrame, frameReaction]
    cases VersionVector.decode (V := V) vv with
    | none => exact refused _ (by simp [Frame.isChunk])
    | some theirs => exact ⟨rfl, .refl (by simp [Frame.isChunk])⟩
  | updates bytes =>
    simp only [handleFrame, frameReaction]
    by_cases long : bytes.length > options.maxUpdateBytes.toNat
    · rw [if_pos long, if_pos long]
      exact refused _ (by simp [Frame.isChunk])
    · rw [if_neg long, if_neg long]
      exact follows_onUpdates options world importInner sync peer (.refl (by simp [Frame.isChunk])) bytes
  | updatesChunk id seq total bytes =>
    obtain ⟨assembly, same⟩ := assemble_eq options sync peer id seq total bytes
    simp only [handleFrame, frameReaction]
    cases assembling : sync.assemble options peer id seq total bytes with
    | mk assembled result =>
      rw [assembling] at same
      have joined : Joined sync
          (fun name => name = peer ∧ (Frame.updatesChunk id seq total bytes).isChunk) assembled := by
        rw [show assembled = _ from same]
        exact .setPeer (by simp [Frame.isChunk]) _
      cases result with
      | error refusal => exact ⟨joined, fun _ impossible => by cases impossible⟩
      | ok whole =>
        cases whole with
        | none => exact ⟨joined, fun actions emitted => (Except.ok.inj emitted).symm⟩
        | some whole => exact follows_onUpdates options world importInner sync peer joined whole
  | want digests =>
    simp only [handleFrame, frameReaction, digestsOf]
    by_cases many : digests.length > maxDigestsPerFrame
    · rw [if_pos many, if_pos many]
      exact refused _ (by simp [Frame.isChunk])
    · rw [if_neg many, if_neg many]
      exact ⟨rfl, .refl (by simp [Frame.isChunk])⟩
  | haves digests =>
    simp only [handleFrame, frameReaction, digestsOf]
    by_cases many : digests.length > maxDigestsPerFrame
    · rw [if_pos many, if_pos many]
      exact refused _ (by simp [Frame.isChunk])
    · rw [if_neg many, if_neg many]
      exact ⟨rfl, .refl (by simp [Frame.isChunk])⟩

theorem follows_handle (bytes : Bytes) :
    Follows options sync (fun name => name = peer ∧ (accepted options bytes).any Frame.isChunk)
      (sync.syncHandle options world importInner peer bytes)
      ((accepted options bytes).bind (sync.frameReaction options world importInner peer)) := by
  unfold syncHandle accepted
  dsimp only
  split
  · exact ⟨.refl (by simp), fun _ impossible => by cases impossible⟩
  · cases decodeFrame bytes with
    | error refusal => exact ⟨.refl (by simp [Except.toOption]), fun _ impossible => by cases impossible⟩
    | ok decoded => exact follows_frame options world importInner sync peer decoded

end Follows

/-- What the calls that reach no reaction do. -/
inductive Quiet (sync : SyncState V) : SyncCall V → SyncState V → Prop where
  | handle (joined : Joined sync
      (SyncCall.Joins options · (.handle world importInner name bytes)) after) :
      Quiet sync (.handle world importInner name bytes) after
  | refused : Quiet sync (.pulled world (.error refusal) name digest) (sync.endFailed digest name)
  | close (name : String) : Quiet sync (.close name) (sync.syncClose name)

theorem call_cases (sync : SyncState V) (call : SyncCall V) :
    (∃ world trigger start, sync.reaction options call = some (world, trigger, start) ∧
      sync.call options call = start.react options world trigger ∧
      Joined sync (SyncCall.Joins options · call) start) ∨
    (sync.reaction options call = none ∧ Quiet options sync call (sync.call options call).1 ∧
      ∀ actions, (sync.call options call).2 = .ok actions → actions = []) := by
  have unjoined {other : SyncCall V} (nobody : ∀ name, ¬SyncCall.Joins options name other) :
      Joined sync (SyncCall.Joins options · other) sync := .refl nobody
  cases call with
  | handle world importInner peer bytes =>
    have follows := follows_handle options world importInner sync peer bytes
    simp only [reaction, call]
    generalize (accepted options bytes).bind (sync.frameReaction options world importInner peer) =
      reached at follows
    cases reached with
    | none => exact .inr ⟨rfl, .handle follows.1, follows.2⟩
    | some reached => exact .inl ⟨reached.1, reached.2.1, reached.2.2, rfl, follows⟩
  | pulled world admitted peer digest =>
    cases admitted with
    | error refusal => exact .inr ⟨rfl, .refused, fun _ impossible => by cases impossible⟩
    | ok done => exact .inl ⟨_, _, _, rfl, rfl, unjoined fun _ => id⟩
  | close peer => exact .inr ⟨rfl, .close peer, fun actions emitted => (Except.ok.inj emitted).symm⟩
  | opened world peer => exact .inl ⟨_, _, _, rfl, rfl, unjoined fun _ => id⟩
  | localChanged world => exact .inl ⟨_, _, _, rfl, rfl, unjoined fun _ => id⟩
  | pullFailed world peer digest => exact .inl ⟨_, _, _, rfl, rfl, unjoined fun _ => id⟩
  | tick world => exact .inl ⟨_, _, _, rfl, rfl, unjoined fun _ => id⟩

/-- Which frame leads to which trigger, and from which tables. -/
inductive Handled (importInner : Bytes → Except Refusal (V × V)) (sync : SyncState V)
    (name : String) : Frame → Trigger V → SyncState V → Prop where
  | hello (decoded : VersionVector.decode vv = some theirs) :
      Handled importInner sync name (.hello vv) (.hello name theirs) sync
  | updates (short : ¬bytes.length > options.maxUpdateBytes.toNat)
      (imported : importInner bytes = .ok (before, after)) :
      Handled importInner sync name (.updates bytes) (.imported name before after) sync
  | chunk {id : UInt64}
      (assembled : sync.assemble options name id seq total bytes = (start, .ok (some whole)))
      (imported : importInner whole = .ok (before, after)) :
      Handled importInner sync name (.updatesChunk id seq total bytes) (.imported name before after)
        start
  | want (few : ¬digests.length > maxDigestsPerFrame) :
      Handled importInner sync name (.want digests) (.want name digests) sync
  | haves (few : ¬digests.length > maxDigestsPerFrame) :
      Handled importInner sync name (.haves digests) (.haves name digests) sync

omit [VersionVector V] in
theorem updatesReaction_eq {world other : World V} {sync start : SyncState V}
    {importInner : Bytes → Except Refusal (V × V)} {name : String} {trigger : Trigger V}
    {bytes : Bytes} (reached : sync.updatesReaction world importInner name bytes =
      some (other, trigger, start)) :
    other = world ∧ start = sync ∧ ∃ before after, importInner bytes = .ok (before, after) ∧
      trigger = .imported name before after := by
  unfold updatesReaction at reached
  split at reached
  · cases reached
  · rename_i before after imported
    cases reached
    exact ⟨rfl, rfl, before, after, imported, rfl⟩

theorem frameReaction_handled {world other : World V} {sync start : SyncState V}
    {importInner : Bytes → Except Refusal (V × V)} {name : String} {trigger : Trigger V}
    {frame : Frame} (reached : sync.frameReaction options world importInner name frame =
      some (other, trigger, start)) :
    other = world ∧ Handled options importInner sync name frame trigger start := by
  cases frame with
  | hello vv =>
    obtain ⟨theirs, decoded, same⟩ := Option.map_eq_some_iff.mp reached
    cases same
    exact ⟨rfl, .hello decoded⟩
  | updates bytes =>
    simp only [frameReaction] at reached
    split at reached
    · cases reached
    · rename_i short
      obtain ⟨same, rfl, before, after, imported, rfl⟩ := updatesReaction_eq reached
      exact ⟨same, .updates short imported⟩
  | updatesChunk id seq total bytes =>
    simp only [frameReaction] at reached
    split at reached
    · rename_i assembled whole assembling
      obtain ⟨same, rfl, before, after, imported, rfl⟩ := updatesReaction_eq reached
      exact ⟨same, .chunk assembling imported⟩
    · cases reached
  | want digests =>
    simp only [frameReaction] at reached
    split at reached
    · cases reached
    · rename_i few
      cases reached
      exact ⟨rfl, .want few⟩
  | haves digests =>
    simp only [frameReaction] at reached
    split at reached
    · cases reached
    · rename_i few
      cases reached
      exact ⟨rfl, .haves few⟩

/-- Which call leads to which trigger, what it reads and from which tables. -/
inductive Reached (sync : SyncState V) : SyncCall V → World V → Trigger V → SyncState V → Prop where
  | opened : Reached sync (.opened world name) world (.opened name) sync
  | handle (accepts : accepted options bytes = some frame)
      (handled : Handled options importInner sync name frame trigger start) :
      Reached sync (.handle world importInner name bytes) world trigger start
  | localChanged : Reached sync (.localChanged world) world .localChange sync
  | pulled : Reached sync (.pulled world (.ok ()) name digest) world (.pulled digest) sync
  | pullFailed : Reached sync (.pullFailed world name digest) world (.pullFailed name digest) sync
  | tick : Reached sync (.tick world) world .tick sync

theorem reaction_reached {sync start : SyncState V} {call : SyncCall V} {world : World V}
    {trigger : Trigger V} (reached : sync.reaction options call = some (world, trigger, start)) :
    Reached options sync call world trigger start := by
  cases call with
  | handle other importInner peer frame =>
    obtain ⟨decoded, accepts, leads⟩ := Option.bind_eq_some_iff.mp reached
    obtain ⟨rfl, handled⟩ := frameReaction_handled options leads
    exact .handle accepts handled
  | pulled other admitted peer digest =>
    cases admitted with
    | error refusal => cases reached
    | ok done =>
      cases reached
      exact .pulled
  | close peer => cases reached
  | opened other peer =>
    cases reached
    exact .opened
  | localChanged other =>
    cases reached
    exact .localChanged
  | pullFailed other peer digest =>
    cases reached
    exact .pullFailed
  | tick other =>
    cases reached
    exact .tick

/-- The tables after a history of calls. -/
def afterCalls (calls : List (SyncCall V)) : SyncState V :=
  calls.foldl (fun sync call => (sync.call options call).1) .default

section Sample

/-- Version vectors that list the changes they cover. -/
instance sampleVersions : VersionVector (List UInt8) where
  includesVv mine theirs := theirs.all (mine.contains ·)
  encode := id
  decode := some

def sampleOptions : DriveOptions := ⟨"desk", 1, 4096, 4096, 1⟩

/-- A drive that wants one object and holds none. -/
def sampleWorld : World (List UInt8) := ⟨[], ExtTreeSet.ofList [(7 : Blake3)], fun _ => false, fun _ => .ok []⟩

/-- A call that hands over a frame to that drive. -/
def sampleFrame (peer : String) (frame : Frame) : SyncCall (List UInt8) :=
  .handle sampleWorld (fun _ => .ok ([], [])) peer (encodeFrame frame)

end Sample

end SyncState

end Mille.Drive
