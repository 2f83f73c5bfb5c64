import Mathlib
import Mille.Drive.SyncVectors

/-! Updates on their way from one drive to another, and what they make of the receiver's
document once all of them have landed. -/

namespace Mille.Drive

open Std Mille.Bincode SyncState

/-- The document library as a drive uses it. -/
class LoroDoc (Doc : Type) (V : outParam Type) where
  oplogVv : Doc → V
  exportUpdatesSince : Doc → V → Bytes
  importUpdates : Doc → Bytes → Except Refusal Doc

export LoroDoc (oplogVv)

/-- What the drives rely on: a document is a causally closed set of changes, its version
vector stands for that set, and an import of what a document lacks adds just the
exporter's changes. -/
structure LoroDoc.Lawful (Doc V : Type) [LoroDoc Doc V] [VersionVector V] [SemilatticeSup V] :
    Prop where
  includes : ∀ mine theirs : V, includesVv mine theirs = true ↔ theirs ≤ mine
  decodes : ∀ vv : V, VersionVector.decode (VersionVector.encode vv) = some vv
  determined : Function.Injective (oplogVv : Doc → V)
  merges : ∀ (doc other : Doc) (since : V), since ≤ oplogVv doc →
    ∃ merged, LoroDoc.importUpdates doc (LoroDoc.exportUpdatesSince other since) = .ok merged ∧
      oplogVv merged = oplogVv doc ⊔ oplogVv other

namespace SyncState

variable {V : Type} (options : DriveOptions) (sync : SyncState V) (sender : String)

/-- The tables once a frame is taken in, and the update that is complete with it. -/
def completes : Frame → SyncState V × Option Bytes
  | .updates bytes => (sync, if bytes.length > options.maxUpdateBytes.toNat then none else some bytes)
  | .updatesChunk id seq total bytes =>
    match sync.assemble options sender id seq total bytes with
    | (assembled, .ok whole) => (assembled, whole)
    | (assembled, .error _) => (assembled, none)
  | _ => (sync, none)

theorem completes_peer_ne (frame : Frame) {name : String} (different : sender ≠ name) :
    (sync.completes options sender frame).1.peer name = sync.peer name := by
  cases frame with
  | updatesChunk id seq total bytes =>
    obtain ⟨assembly, tables⟩ := assemble_eq options sync sender id seq total bytes
    have kept := peer_setPeer_ne sync name sender { sync.peer sender with assembly := assembly }
      different
    rw [← tables] at kept
    simp only [completes]
    cases assembled : sync.assemble options sender id seq total bytes with
    | mk start result =>
      rw [assembled] at kept
      cases result with
      | error refusal => exact kept
      | ok whole => exact kept
  | hello vv => rfl
  | updates bytes => rfl
  | want digests => rfl
  | haves digests => rfl

theorem completes_vv (frame : Frame) (name : String) :
    ((sync.completes options sender frame).1.peer name).vv = (sync.peer name).vv := by
  by_cases different : sender ≠ name
  · rw [completes_peer_ne options sync sender frame different]
  · have same : sender = name := not_not.mp different
    subst same
    cases frame with
    | updatesChunk id seq total bytes =>
      obtain ⟨assembly, tables⟩ := assemble_eq options sync sender id seq total bytes
      have kept := congrArg (fun tables => (tables.peer sender).vv) tables
      dsimp only at kept
      rw [peer_setPeer] at kept
      simp only [completes]
      cases assembled : sync.assemble options sender id seq total bytes with
      | mk start result =>
        rw [assembled] at kept
        cases result with
        | error refusal => exact kept
        | ok whole => exact kept
    | hello vv => rfl
    | updates bytes => rfl
    | want digests => rfl
    | haves digests => rfl

end SyncState

section Landing

variable {Doc V : Type} [LoroDoc Doc V]

/-- The document after an update, which stays as it is when the update is refused. -/
def absorbed (doc : Doc) : Option Bytes → Doc
  | none => doc
  | some bytes =>
    match LoroDoc.importUpdates doc bytes with
    | .ok merged => merged
    | .error _ => doc

/-- The receiver's document joined with the updates still in flight to it. -/
def landed (options : DriveOptions) (sender : String) : SyncState V → Doc → List Frame → Doc
  | _, doc, [] => doc
  | sync, doc, frame :: rest =>
    let step := sync.completes options sender frame
    landed options sender step.1 (absorbed doc step.2) rest

end Landing

variable {Doc V : Type} [LoroDoc Doc V] [VersionVector V] [SemilatticeSup V]

/-- A frame that carries no change, from a drive whose vector was no larger. -/
def Frame.Idle (top : V) (frame : Frame) : Prop := ∃ ours ≤ top, frame.Bare ours

/-- An update that a receiver with the vector `own` can take, exported from a document
that had no more than `top`. -/
structure Ready (limit : Nat) (top own : V) (bytes : Bytes) (other : Doc) : Prop where
  short : bytes.length ≤ limit
  exported : ∃ since ≤ own, bytes = LoroDoc.exportUpdatesSince other since
  known : oplogVv other ≤ top

/-- Frames in flight that a receiver with the first vector can take, which bring it to the
last one. -/
inductive Flight (Doc : Type) {V : Type} [LoroDoc Doc V] [VersionVector V] [SemilatticeSup V]
    (limit : Nat) (top : V) : V → List Frame → V → Prop where
  | nil (own : V) : Flight Doc limit top own [] own
  | bare {own reach : V} {frame : Frame} {frames : List Frame} (idle : frame.Idle top)
      (rest : Flight Doc limit top own frames reach) : Flight Doc limit top own (frame :: frames) reach
  | whole {own reach : V} {bytes : Bytes} {frames : List Frame} (other : Doc)
      (ready : Ready limit top own bytes other)
      (rest : Flight Doc limit top (own ⊔ oplogVv other) frames reach) :
      Flight Doc limit top own (.updates bytes :: frames) reach
  | parts {own reach : V} {parts : List Bytes} {frames : List Frame} (id : UInt64) (other : Doc)
      (two : 2 ≤ parts.length) (few : parts.length ≤ maxChunks)
      (ready : Ready limit top own parts.flatten other)
      (rest : Flight Doc limit top (own ⊔ oplogVv other) frames reach) :
      Flight Doc limit top own (groupFrames id parts.length 0 parts ++ frames) reach

/-- Frames in flight to a receiver that may have some chunks of the first update. -/
inductive Arriving (Doc : Type) {V : Type} [LoroDoc Doc V] [VersionVector V] [SemilatticeSup V]
    (limit : Nat) (top : V) (assembly : Option Assembly) : V → List Frame → V → Prop where
  | between {own reach : V} {frames : List Frame} (flight : Flight Doc limit top own frames reach) :
      Arriving Doc limit top assembly own frames reach
  | midway {own reach : V} {parts : List Bytes} {frames : List Frame} {id : UInt64} {total seq : Nat}
      {bytes : Bytes} {other : Doc} (begun : if seq = 0 then bytes = [] else assembly =
        some ⟨id, UInt32.ofNat total, UInt32.ofNat seq, bytes⟩)
      (counted : seq + parts.length = total) (two : 2 ≤ total) (few : total ≤ maxChunks)
      (left : parts ≠ []) (ready : Ready limit top own (bytes ++ parts.flatten) other)
      (rest : Flight Doc limit top (own ⊔ oplogVv other) frames reach) :
      Arriving Doc limit top assembly own (groupFrames id total seq parts ++ frames) reach

section Lemmas

variable {limit : Nat} {top wider own more reach : V} {frames : List Frame}

theorem Frame.Idle.mono {frame : Frame} (idle : frame.Idle top) (larger : top ≤ wider) :
    frame.Idle wider := by
  obtain ⟨ours, less, bare⟩ := idle
  exact ⟨ours, less.trans larger, bare⟩

omit [VersionVector V] in
theorem Ready.mono {bytes : Bytes} {other : Doc} (ready : Ready limit top own bytes other)
    (larger : top ≤ wider) (grown : own ≤ more) : Ready limit wider more bytes other := by
  obtain ⟨since, less, same⟩ := ready.exported
  exact ⟨ready.short, ⟨since, less.trans grown, same⟩, ready.known.trans larger⟩

namespace Flight

theorem reaches (flight : Flight Doc limit top own frames reach) : own ≤ reach := by
  induction flight with
  | nil own => exact le_rfl
  | bare idle rest ih => exact ih
  | whole other ready rest ih => exact le_sup_left.trans ih
  | parts id other two few ready rest ih => exact le_sup_left.trans ih

theorem grow (flight : Flight Doc limit top own frames reach) (larger : top ≤ wider)
    (grown : own ≤ more) : ∃ further, reach ≤ further ∧ Flight Doc limit wider more frames further := by
  induction flight generalizing more with
  | nil own => exact ⟨more, grown, .nil more⟩
  | bare idle rest ih =>
    obtain ⟨further, beyond, flight⟩ := ih grown
    exact ⟨further, beyond, .bare (idle.mono larger) flight⟩
  | whole other ready rest ih =>
    obtain ⟨further, beyond, flight⟩ := ih (sup_le_sup_right grown _)
    exact ⟨further, beyond, .whole other (ready.mono larger grown) flight⟩
  | parts id other two few ready rest ih =>
    obtain ⟨further, beyond, flight⟩ := ih (sup_le_sup_right grown _)
    exact ⟨further, beyond, .parts id other two few (ready.mono larger grown) flight⟩

theorem append {later : List Frame} {further : V} (flight : Flight Doc limit top own frames reach)
    (next : Flight Doc limit top reach later further) :
    Flight Doc limit top own (frames ++ later) further := by
  induction flight with
  | nil own => exact next
  | bare idle rest ih => exact .bare idle (ih next)
  | whole other ready rest ih => exact .whole other ready (ih next)
  | parts id other two few ready rest ih =>
    rw [List.append_assoc]
    exact .parts id other two few ready (ih next)

theorem of_bare (each : ∀ frame ∈ frames, frame.Bare top) :
    Flight Doc limit top own frames own := by
  induction frames with
  | nil => exact .nil own
  | cons frame rest ih =>
    have first := each frame List.mem_cons_self
    exact .bare ⟨top, le_rfl, first⟩ (ih fun frame member => each frame (List.mem_cons_of_mem _ member))

/-- The frames of an update within the limits bring the exporter's changes. -/
theorem of_update {options : DriveOptions} (valid : options.validate = .ok ()) {doc : Doc} {since : V}
    (start : SyncState V) (name : String) (less : since ≤ own)
    (fits : UpdateFits options (LoroDoc.exportUpdatesSince doc since))
    (short : (LoroDoc.exportUpdatesSince doc since).length ≤ limit) :
    Flight Doc limit (oplogVv doc) own (framesTo name (start.updateFrames name
      (LoroDoc.exportUpdatesSince doc since) options.maxFrameBytes.toNat).2) (own ⊔ oplogVv doc) := by
  have sizes := (options.validate_sizes valid).1
  generalize exported : LoroDoc.exportUpdatesSince doc since = bytes at fits short ⊢
  have ready : Ready limit (oplogVv doc) own bytes doc :=
    ⟨short, ⟨since, less, exported.symm⟩, le_rfl⟩
  unfold UpdateFits at fits
  unfold SyncState.updateFrames
  by_cases whole : bytes.length + frameOverhead ≤ options.maxFrameBytes.toNat
  · rw [if_pos whole]
    have single : framesTo name [SyncAction.send name (.updates bytes)] = [.updates bytes] := by
      simp [framesTo]
    rw [single]
    exact .whole doc ready (.nil _)
  · rw [if_neg whole] at fits ⊢
    dsimp only at fits ⊢
    set chunk := options.maxFrameBytes.toNat - frameOverhead with isChunk
    have positive : 0 < chunk := by
      unfold minFrameBytes at sizes
      unfold frameOverhead at isChunk
      omega
    have counted := chunks.length_eq positive bytes
    have joined := chunks.flatten_eq positive bytes
    have two : 2 ≤ (chunks chunk bytes).length := by
      rw [counted, Nat.le_div_iff_mul_le positive]
      unfold frameOverhead at whole isChunk
      omega
    rw [← counted, framesTo_chunkFrames, if_pos rfl, ← List.append_nil (groupFrames ..)]
    exact .parts _ doc two (counted ▸ fits.1) (by rwa [joined]) (.nil _)

end Flight

namespace Arriving

variable {assembly : Option Assembly}

theorem reaches (arriving : Arriving Doc limit top assembly own frames reach) : own ≤ reach := by
  cases arriving with
  | between flight => exact flight.reaches
  | midway begun counted two few left ready rest => exact le_sup_left.trans rest.reaches

theorem grow (arriving : Arriving Doc limit top assembly own frames reach) (larger : top ≤ wider)
    (grown : own ≤ more) :
    ∃ further, reach ≤ further ∧ Arriving Doc limit wider assembly more frames further := by
  cases arriving with
  | between flight =>
    obtain ⟨further, beyond, flight⟩ := flight.grow larger grown
    exact ⟨further, beyond, .between flight⟩
  | midway begun counted two few left ready rest =>
    obtain ⟨further, beyond, flight⟩ := rest.grow larger (sup_le_sup_right grown _)
    exact ⟨further, beyond, .midway begun counted two few left (ready.mono larger grown) flight⟩

theorem append {later : List Frame} {further : V}
    (arriving : Arriving Doc limit top assembly own frames reach)
    (next : Flight Doc limit top reach later further) :
    Arriving Doc limit top assembly own (frames ++ later) further := by
  cases arriving with
  | between flight => exact .between (flight.append next)
  | midway begun counted two few left ready rest =>
    rw [List.append_assoc]
    exact .midway begun counted two few left ready (rest.append next)

end Arriving

end Lemmas

section Taking

variable (lawful : LoroDoc.Lawful Doc V) {options : DriveOptions} {top reach : V}
variable {frames : List Frame} (sync : SyncState V) (sender : String) (doc : Doc)

/-- What is left in flight once the first frame is taken in, and what the update that is
complete with it adds. -/
structure Took (options : DriveOptions) (top : V) (sync : SyncState V) (sender : String) (doc : Doc)
    (frame : Frame) (frames : List Frame) (reach : V) : Prop where
  left : Arriving Doc options.maxUpdateBytes.toNat top
    ((sync.completes options sender frame).1.peer sender).assembly
    (oplogVv (absorbed doc (sync.completes options sender frame).2)) frames reach
  merged : ∀ bytes, (sync.completes options sender frame).2 = some bytes →
    ∃ (after : Doc) (news : V), LoroDoc.importUpdates doc bytes = .ok after ∧
      oplogVv after = oplogVv doc ⊔ news ∧ news ≤ top
  greeted : ∀ vv, frame = .hello vv → ∃ ours ≤ top, vv = VersionVector.encode ours

include lawful in
theorem Ready.imported {bytes : Bytes} {other : Doc}
    (ready : Ready options.maxUpdateBytes.toNat top (oplogVv doc) bytes other) :
    ∃ merged, LoroDoc.importUpdates doc bytes = .ok merged ∧
      oplogVv merged = oplogVv doc ⊔ oplogVv other := by
  obtain ⟨since, less, rfl⟩ := ready.exported
  exact lawful.merges doc other since less

include lawful in
/-- The next chunk of an update. -/
theorem Took.part {id : UInt64} {total seq : Nat} {bytes part : Bytes} {parts : List Bytes} {other : Doc}
    (begun : if seq = 0 then bytes = [] else (sync.peer sender).assembly =
      some ⟨id, UInt32.ofNat total, UInt32.ofNat seq, bytes⟩)
    (counted : seq + (part :: parts).length = total) (two : 2 ≤ total) (few : total ≤ maxChunks)
    (ready : Ready options.maxUpdateBytes.toNat top (oplogVv doc) (bytes ++ (part :: parts).flatten) other)
    (rest : Flight Doc options.maxUpdateBytes.toNat top (oplogVv doc ⊔ oplogVv other) frames reach) :
    Took options top sync sender doc (.updatesChunk id (UInt32.ofNat seq) (UInt32.ofNat total) part)
      (groupFrames id total (seq + 1) parts ++ frames) reach := by
  have short := ready.short
  simp only [List.flatten_cons, List.length_append, List.length_cons] at short counted
  have assembled := @assemble_in_order V options sync sender id seq total bytes part two few
    (by omega) (by omega) begun
  have whole : bytes ++ (part :: parts).flatten = (bytes ++ part) ++ parts.flatten := by
    rw [List.flatten_cons, List.append_assoc]
  rw [whole] at ready
  by_cases goes : seq + 1 < total
  · rw [if_pos goes] at assembled
    have completed : sync.completes options sender
        (.updatesChunk id (UInt32.ofNat seq) (UInt32.ofNat total) part) =
          (sync.setPeer sender { sync.peer sender with
            assembly := some ⟨id, UInt32.ofNat total, UInt32.ofNat (seq + 1), bytes ++ part⟩ }, none) := by
      simp only [completes, assembled]
    refine ⟨?_, fun bytes some => ?_, fun vv same => by cases same⟩
    · rw [completed]
      dsimp only
      rw [peer_setPeer]
      refine .midway ?_ (by omega) two few (fun empty => ?_) ready rest
      · rw [if_neg (by omega)]
      · rw [empty, List.length_nil] at counted
        omega
    · rw [completed] at some
      cases some
  · rw [if_neg goes] at assembled
    have done : parts = [] := List.eq_nil_of_length_eq_zero (by omega)
    subst done
    rw [List.flatten_nil, List.append_nil] at ready
    have completed : sync.completes options sender
        (.updatesChunk id (UInt32.ofNat seq) (UInt32.ofNat total) part) =
          (sync.setPeer sender { sync.peer sender with assembly := none }, some (bytes ++ part)) := by
      simp only [completes, assembled]
    obtain ⟨merged, imported, joined⟩ := ready.imported lawful doc
    refine ⟨?_, fun bytes some => ?_, fun vv same => by cases same⟩
    · rw [completed]
      simp only [absorbed, imported, joined]
      exact .between rest
    · rw [completed] at some
      cases some
      exact ⟨merged, oplogVv other, imported, joined, ready.known⟩

include lawful in
/-- The first frame in flight is taken as the rest needs it. -/
theorem Arriving.take {frame : Frame}
    (arriving : Arriving Doc options.maxUpdateBytes.toNat top (sync.peer sender).assembly (oplogVv doc)
      (frame :: frames) reach) : Took options top sync sender doc frame frames reach := by
  generalize whole : frame :: frames = all at arriving
  cases arriving with
  | between flight =>
    cases flight with
    | nil own => cases whole
    | bare idle rest =>
      cases whole
      obtain ⟨ours, less, bare⟩ := idle
      have idles : sync.completes options sender frame = (sync, none) := by
        cases frame with
        | hello vv => rfl
        | want digests => rfl
        | haves digests => rfl
        | updates bytes => cases bare
        | updatesChunk id seq total bytes => cases bare
      refine ⟨?_, fun bytes some => ?_, fun vv same => ?_⟩
      · rw [idles]
        exact .between rest
      · rw [idles] at some
        cases some
      · subst same
        exact ⟨ours, less, bare⟩
    | @whole _ _ bytes _ other ready rest =>
      cases whole
      have completed : sync.completes options sender (.updates bytes) = (sync, some bytes) := by
        simp only [completes]
        rw [if_neg (Nat.not_lt.mpr ready.short)]
      obtain ⟨merged, imported, joined⟩ := ready.imported lawful doc
      refine ⟨?_, fun bytes some => ?_, fun vv same => by cases same⟩
      · rw [completed]
        simp only [absorbed, imported, joined]
        exact .between rest
      · rw [completed] at some
        cases some
        exact ⟨merged, oplogVv other, imported, joined, ready.known⟩
    | @parts _ _ parts _ id other two few ready rest =>
      cases parts with
      | nil => simp at two
      | cons part parts =>
        rw [groupFrames_cons, List.cons_append] at whole
        cases whole
        have begun : if 0 = 0 then ([] : Bytes) = [] else (sync.peer sender).assembly =
            some ⟨id, UInt32.ofNat (part :: parts).length, UInt32.ofNat 0, []⟩ := rfl
        exact Took.part lawful sync sender doc begun (Nat.zero_add _) two few ready rest
  | @midway _ parts _ id total seq bytes other begun counted two few left ready rest =>
    cases parts with
    | nil => exact absurd rfl left
    | cons part parts =>
      rw [groupFrames_cons, List.cons_append] at whole
      cases whole
      exact Took.part lawful sync sender doc begun counted two few ready rest

include lawful in
theorem Arriving.landed
    (arriving : Arriving Doc options.maxUpdateBytes.toNat top (sync.peer sender).assembly (oplogVv doc)
      frames reach) : oplogVv (landed options sender sync doc frames) = reach := by
  induction frames generalizing sync doc with
  | nil =>
    generalize empty : ([] : List Frame) = all at arriving
    cases arriving with
    | between flight =>
      cases flight with
      | nil own => rfl
      | bare idle rest => cases empty
      | whole other ready rest => cases empty
      | @parts _ _ parts _ id other two few ready rest =>
        cases parts with
        | nil => simp at two
        | cons part parts =>
          rw [groupFrames_cons] at empty
          cases empty
    | @midway _ parts _ id total seq bytes other begun counted two few left ready rest =>
      cases parts with
      | nil => exact absurd rfl left
      | cons part parts =>
        rw [groupFrames_cons] at empty
        cases empty
  | cons frame rest ih => exact ih _ _ (arriving.take lawful sync sender doc).left

end Taking

end Mille.Drive
