import Mathlib
import Mille.Drive.Network

/-! What a drive records of a peer stays below what that peer has and is about to have,
over every run of a network, and a quiet network has converged. -/

namespace Mille.Drive

open Std Mille.Bincode SyncState

section Handing

variable {V : Type} [VersionVector V] {options : DriveOptions} {world : World V}
variable {importInner : Bytes → Except Refusal (V × V)} {sync : SyncState V} {sender : String}

/-- The trigger of a frame that was taken in, with the update complete with it. -/
inductive Told (importInner : Bytes → Except Refusal (V × V)) (sender : String) :
    Frame → Option Bytes → Trigger V → Prop where
  | hello {vv : Bytes} {theirs : V} (decoded : VersionVector.decode vv = some theirs) :
      Told importInner sender (.hello vv) none (.hello sender theirs)
  | imported {frame : Frame} {bytes : Bytes} {before after : V} (other : frame.isHello = false)
      (imports : importInner bytes = .ok (before, after)) :
      Told importInner sender frame (some bytes) (.imported sender before after)
  | digests {frame : Frame} {trigger : Trigger V} (other : frame.isHello = false)
      (silent : ∀ name known, trigger.recorded name known = known) :
      Told importInner sender frame none trigger

theorem accepted_of_handled {frame : Frame} {actions : List SyncAction}
    (done : (sync.syncHandle options world importInner sender (encodeFrame frame)).2 = .ok actions) :
    accepted options (encodeFrame frame) = some frame ∧
      sync.syncHandle options world importInner sender (encodeFrame frame) =
        sync.handleFrame options world importInner sender frame := by
  unfold syncHandle accepted at *
  dsimp only at done ⊢
  split at done
  · cases done
  · rename_i short
    have counted := count_le_length frame
    rw [if_neg short]
    rw [decodeFrame_encodeFrame frame (by omega)] at done ⊢
    split at done
    · cases done
    · rename_i decoded read
      split at read
      · rename_i claims
        cases read
        rw [if_neg short, if_pos claims]
        exact ⟨rfl, rfl⟩
      · cases read

/-- What handing over a frame does when it is not refused: the tables react to it, or a
chunk is put aside. -/
theorem handle_told {frame : Frame} {actions : List SyncAction}
    (done : (sync.call options (.handle world importInner sender (encodeFrame frame))).2 =
      .ok actions) :
    let call := SyncCall.handle world importInner sender (encodeFrame frame)
    let step := sync.completes options sender frame
    accepted options (encodeFrame frame) = some frame ∧
    ((∃ trigger, sync.reaction options call = some (world, trigger, step.1) ∧
        sync.call options call = step.1.react options world trigger ∧
        Told importInner sender frame step.2 trigger) ∨
      (sync.call options call = (step.1, .ok []) ∧ frame.isHello = false ∧ step.2 = none)) := by
  obtain ⟨accepts, same⟩ := accepted_of_handled done
  change (sync.syncHandle options world importInner sender (encodeFrame frame)).2 = .ok actions at done
  rw [same] at done
  simp only [SyncState.call, reaction, accepts, same, Option.bind_some, true_and]
  have imports {start : SyncState V} {bytes : Bytes}
      (done : (start.onUpdates options world importInner sender bytes).2 = .ok actions) :
      ∃ before after, importInner bytes = .ok (before, after) ∧
        start.updatesReaction world importInner sender bytes =
          some (world, .imported sender before after, start) ∧
        start.onUpdates options world importInner sender bytes =
          start.react options world (.imported sender before after) := by
    unfold onUpdates updatesReaction at *
    cases inner : importInner bytes with
    | error refusal =>
      rw [inner] at done
      cases done
    | ok vectors => exact ⟨vectors.1, vectors.2, rfl, rfl, rfl⟩
  cases frame with
  | hello vv =>
    simp only [handleFrame] at done ⊢
    cases decoded : (VersionVector.decode vv : Option V) with
    | none =>
      rw [decoded] at done
      cases done
    | some theirs =>
      exact .inl ⟨_, by simp only [frameReaction, decoded, completes, Option.map_some], rfl,
        .hello decoded⟩
  | updates bytes =>
    simp only [handleFrame, completes, frameReaction] at done ⊢
    split at done
    · cases done
    · rename_i short
      rw [if_neg short, if_neg short, if_neg short]
      obtain ⟨before, after, inner, reached, reacts⟩ := imports done
      exact .inl ⟨_, reached, reacts, .imported rfl inner⟩
  | updatesChunk id seq total bytes =>
    simp only [handleFrame, completes, frameReaction] at done ⊢
    cases assembled : sync.assemble options sender id seq total bytes with
    | mk start result =>
      rw [assembled] at done
      cases result with
      | error refusal => cases done
      | ok whole =>
        cases whole with
        | none => exact .inr ⟨rfl, rfl, rfl⟩
        | some whole =>
          obtain ⟨before, after, inner, reached, reacts⟩ := imports done
          exact .inl ⟨_, reached, reacts, .imported rfl inner⟩
  | want digests =>
    simp only [handleFrame, completes, frameReaction, digestsOf] at done ⊢
    split at done
    · cases done
    · rename_i listed few
      split at few
      · cases few
      · rename_i short
        cases few
        rw [if_neg short]
        exact .inl ⟨_, rfl, rfl, .digests rfl fun _ _ => rfl⟩
  | haves digests =>
    simp only [handleFrame, completes, frameReaction, digestsOf] at done ⊢
    split at done
    · cases done
    · rename_i listed few
      split at few
      · cases few
      · rename_i short
        cases few
        rw [if_neg short]
        exact .inl ⟨_, rfl, rfl, .digests rfl fun _ _ => rfl⟩

end Handing

section Links

variable (Doc : Type) {V : Type} [LoroDoc Doc V] [VersionVector V] [SemilatticeSup V]

/-- One direction between two drives: the frames in flight can be taken, and the vector
recorded for the receiver is below what they bring it to. -/
def Link (limit : Nat) (top : V) (assembly : Option Assembly) (own : V) (frames : List Frame)
    (known : Option V) : Prop :=
  ∃ reach, Arriving Doc limit top assembly own frames reach ∧ ∀ vv, known = some vv → vv ≤ reach

variable {Doc} {limit : Nat} {top wider own more : V} {assembly : Option Assembly}
variable {frames : List Frame} {known : Option V}

theorem Link.grow (link : Link Doc limit top assembly own frames known) (larger : top ≤ wider)
    (grown : own ≤ more) : Link Doc limit wider assembly more frames known := by
  obtain ⟨reach, arriving, below⟩ := link
  obtain ⟨further, beyond, grows⟩ := arriving.grow larger grown
  exact ⟨further, grows, fun vv recorded => (below vv recorded).trans beyond⟩

theorem Link.record {vv : V} (link : Link Doc limit top assembly own frames known) (less : vv ≤ own) :
    Link Doc limit top assembly own frames (some vv) := by
  obtain ⟨reach, arriving, _⟩ := link
  refine ⟨reach, arriving, fun other same => ?_⟩
  cases same
  exact less.trans arriving.reaches

/-- The peer had everything this drive had before; with what it sent it has everything
this drive has after. -/
theorem Link.raise {vv before news : V} (link : Link Doc limit top assembly own frames (some vv))
    (had : before ≤ vv) (sent : news ≤ own) :
    Link Doc limit top assembly own frames (some (before ⊔ news)) := by
  obtain ⟨reach, arriving, below⟩ := link
  refine ⟨reach, arriving, fun other same => ?_⟩
  cases same
  exact sup_le (had.trans (below vv rfl)) (sent.trans arriving.reaches)

/-- What a reaction sends to a peer brings it to what is recorded, which covers this drive's
document. -/
theorem Link.informed (lawful : LoroDoc.Lawful Doc V) {options : DriveOptions}
    (valid : options.validate = .ok ()) {doc : Doc} {store : Store} {name : String}
    {after : Option V} {sent : List Frame}
    (link : Link Doc limit (oplogVv doc) assembly own frames known)
    (informed : Informed options (worldOf doc store) name known after sent)
    (fits : ∀ vv, known = some vv → includesVv vv (oplogVv doc) = false →
      UpdateFits options (LoroDoc.exportUpdatesSince doc vv) ∧
        (LoroDoc.exportUpdatesSince doc vv).length ≤ limit) :
    Link Doc limit (oplogVv doc) assembly own (frames ++ sent) after ∧
      ∀ vv, after = some vv → oplogVv doc ≤ vv := by
  obtain ⟨reach, arriving, below⟩ := link
  cases informed with
  | current same covered bare =>
    subst same
    exact ⟨⟨reach, arriving.append (.of_bare bare), below⟩,
      fun vv recorded => (lawful.includes vv _).mp (covered vv recorded)⟩
  | updated vv bytes start before later had lacked exported recorded split bare =>
    cases exported
    subst split recorded
    obtain ⟨fit, short⟩ := fits vv had lacked
    have update : Flight Doc limit (oplogVv doc) reach (framesTo name (start.updateFrames name
        (LoroDoc.exportUpdatesSince doc vv) options.maxFrameBytes.toNat).2) (reach ⊔ oplogVv doc) :=
      .of_update valid start name (below vv had) fit short
    have first : Flight Doc limit (oplogVv doc) reach before reach :=
      .of_bare fun frame member => bare frame (List.mem_append_left _ member)
    have last : Flight Doc limit (oplogVv doc) (reach ⊔ oplogVv doc) later (reach ⊔ oplogVv doc) :=
      .of_bare fun frame member => bare frame (List.mem_append_right _ member)
    refine ⟨⟨reach ⊔ oplogVv doc, arriving.append ((first.append update).append last), ?_⟩, ?_⟩
    · intro other same
      cases same
      exact le_sup_right
    · intro other same
      cases same
      exact le_rfl

end Links

theorem SyncState.Informed.known {V : Type} [VersionVector V] {options : DriveOptions}
    {world : World V} {name : String} {known after : Option V} {frames : List Frame}
    (informed : Informed options world name known after frames) (some : known.isSome) :
    after.isSome := by
  cases informed with
  | current same covered bare => rwa [same]
  | updated vv bytes start before later had lacked exported recorded split bare =>
    rw [recorded]
    rfl

namespace Network

section Parts

variable {ι Doc V : Type} [DecidableEq ι] (setting : Participants ι) (net : Network ι Doc V)
variable (drive : ι) (node : Node ι Doc V)

@[simp] theorem node_put_self : (net.put drive node).node drive = node := Function.update_self ..

@[simp] theorem node_put_ne {other : ι} (different : other ≠ drive) :
    (net.put drive node).node other = net.node other := Function.update_of_ne different ..

@[simp] theorem channel_put : (net.put drive node).channel = net.channel := rfl

@[simp] theorem node_post (actions : List SyncAction) :
    (net.post setting drive actions).node = net.node := rfl

theorem put_put (first : Node ι Doc V) : (net.put drive first).put drive node = net.put drive node := by
  unfold put
  rw [Function.update_idem]

end Parts

variable {ι Doc V : Type} [DecidableEq ι] [LoroDoc Doc V] [VersionVector V] [SemilatticeSup V]
variable {setting : Participants ι} {net : Network ι Doc V}

/-- The link from one drive to another, whatever is recorded at its start. -/
def LinkedWith (setting : Participants ι) (net : Network ι Doc V) (sender receiver : ι)
    (known : Option V) : Prop :=
  Link Doc (setting.options receiver).maxUpdateBytes.toNat (oplogVv (net.node sender).doc)
    ((net.node receiver).sync.peer (setting.name sender)).assembly (oplogVv (net.node receiver).doc)
    (net.channel sender receiver) known

def Linked (setting : Participants ι) (net : Network ι Doc V) (sender receiver : ι) : Prop :=
  net.LinkedWith setting sender receiver (net.recorded setting sender receiver)

/-- What holds of every network reached. -/
structure Sound (setting : Participants ι) (net : Network ι Doc V) : Prop where
  linked : ∀ sender receiver, net.Linked setting sender receiver
  told : ∀ drive, (net.node drive).unsaid = false → ∀ peer vv,
    net.recorded setting drive peer = some vv → oplogVv (net.node drive).doc ≤ vv
  heard : ∀ drive peer, (net.node drive).heard peer = true → (net.recorded setting drive peer).isSome

/-- What a reaction of a drive to a trigger starts from. -/
structure Poised (setting : Participants ι) (net : Network ι Doc V) (drive : ι) (trigger : Trigger V) :
    Prop where
  linked : ∀ sender, sender ≠ drive → ∀ receiver, net.Linked setting sender receiver
  due : ∀ receiver, net.LinkedWith setting drive receiver
    (trigger.recorded (setting.name receiver) (net.recorded setting drive receiver))
  told : ∀ other, other ≠ drive → (net.node other).unsaid = false → ∀ peer vv,
    net.recorded setting other peer = some vv → oplogVv (net.node other).doc ≤ vv
  heard : ∀ other, other ≠ drive → ∀ peer, (net.node other).heard peer = true →
    (net.recorded setting other peer).isSome
  hears : ∀ peer, (net.node drive).heard peer = true →
    (trigger.recorded (setting.name peer) (net.recorded setting drive peer)).isSome

/-- A drive reacts to a trigger. -/
def reacted (setting : Participants ι) (net : Network ι Doc V) (drive : ι) (world : World V)
    (trigger : Trigger V) : Network ι Doc V :=
  let result := (net.node drive).sync.react (setting.options drive) world trigger
  (net.put drive { net.node drive with sync := result.1 }).post setting drive (emitted result.2)

/-- A reaction restores the invariant, whatever its trigger. -/
theorem Poised.reacted (lawful : LoroDoc.Lawful Doc V) {drive : ι} {store : Store}
    {trigger : Trigger V} (poised : net.Poised setting drive trigger)
    (fits : ∀ entry ∈ ((net.node drive).sync.applied (setting.options drive)
        (worldOf (net.node drive).doc store) trigger).behind (oplogVv (net.node drive).doc),
      UpdateFits (setting.options drive)
        (LoroDoc.exportUpdatesSince (net.node drive).doc entry.2) ∧
      ∀ receiver, setting.name receiver = entry.1 →
        (LoroDoc.exportUpdatesSince (net.node drive).doc entry.2).length ≤
          (setting.options receiver).maxUpdateBytes.toNat) :
    (net.reacted setting drive (worldOf (net.node drive).doc store) trigger).Sound setting := by
  obtain ⟨actions, done⟩ := react_ok (setting.options drive) (worldOf (net.node drive).doc store)
    trigger (net.node drive).sync fun since => ⟨_, rfl⟩
  have peers := react_peer (setting.options drive) (worldOf (net.node drive).doc store) trigger
    (net.node drive).sync done
  have same : net.reacted setting drive (worldOf (net.node drive).doc store) trigger =
      (net.put drive { net.node drive with
        sync := ((net.node drive).sync.react (setting.options drive)
          (worldOf (net.node drive).doc store) trigger).1 }).post setting drive actions := by
    simp only [Network.reacted, done, emitted]
  rw [same]
  generalize (net.node drive).sync.react (setting.options drive) (worldOf (net.node drive).doc store)
    trigger = result at peers
  have own (receiver : ι) := (poised.due receiver).informed lawful (setting.valid drive)
    (peers (setting.name receiver)).2 (by
      intro vv had lacked
      have entry : (setting.name receiver, vv) ∈ ((net.node drive).sync.applied (setting.options drive)
          (worldOf (net.node drive).doc store) trigger).behind (oplogVv (net.node drive).doc) :=
        mem_behind.mpr ⟨(vv_applyTrigger _ _ _ trigger (setting.name receiver)).trans had, lacked⟩
      exact ⟨(fits _ entry).1, (fits _ entry).2 receiver rfl⟩)
  -- a document is where it was, and so is what has arrived of the updates on their way
  have docs (other : ι) : (((net.put drive { net.node drive with sync := result.1 }).post setting drive
      actions).node other).doc = (net.node other).doc := by
    by_cases mine : other = drive
    · subst mine
      simp
    · simp [mine]
  have assemblies (other : ι) (name : String) : ((((net.put drive { net.node drive with
      sync := result.1 }).post setting drive actions).node other).sync.peer name).assembly =
        ((net.node other).sync.peer name).assembly := by
    by_cases mine : other = drive
    · subst mine
      simpa using (peers name).1
    · simp [mine]
  refine ⟨fun sender receiver => ?_, fun other said peer vv known => ?_, fun other peer heard => ?_⟩
  · unfold Linked LinkedWith
    rw [docs, docs, assemblies]
    by_cases mine : sender = drive
    · subst mine
      simpa [recorded, post] using (own receiver).1
    · simpa [Linked, LinkedWith, recorded, post, mine] using poised.linked sender mine receiver
  · rw [docs]
    by_cases mine : other = drive
    · subst mine
      exact (own peer).2 vv (by simpa [recorded] using known)
    · simp only [recorded, node_post, ne_eq, mine, not_false_eq_true, node_put_ne] at known said
      exact poised.told other mine said peer vv known
  · by_cases mine : other = drive
    · subst mine
      simp only [recorded, node_post, node_put_self] at heard ⊢
      exact (peers (setting.name peer)).2.known (poised.hears peer heard)
    · simp only [recorded, node_post, ne_eq, mine, not_false_eq_true, node_put_ne] at heard ⊢
      exact poised.heard other mine peer heard

omit [DecidableEq ι] in
theorem Linked.grow {other : Network ι Doc V} {sender receiver : ι}
    (linked : net.Linked setting sender receiver)
    (sent : oplogVv (net.node sender).doc ≤ oplogVv (other.node sender).doc)
    (grown : oplogVv (net.node receiver).doc ≤ oplogVv (other.node receiver).doc)
    (assembly : ((other.node receiver).sync.peer (setting.name sender)).assembly =
      ((net.node receiver).sync.peer (setting.name sender)).assembly)
    (channel : other.channel sender receiver = net.channel sender receiver)
    (known : other.recorded setting sender receiver = net.recorded setting sender receiver) :
    other.Linked setting sender receiver := by
  have grows := Link.grow linked sent grown
  unfold Linked LinkedWith
  rwa [assembly, channel, known]

/-- A local write waits to be told. -/
theorem Sound.write (sound : net.Sound setting) {drive : ι} {doc : Doc}
    (less : oplogVv (net.node drive).doc ≤ oplogVv doc) :
    (net.put drive { net.node drive with doc := doc, unsaid := true }).Sound setting := by
  have node (other : ι) :
      ((net.put drive { net.node drive with doc := doc, unsaid := true }).node other).sync =
        (net.node other).sync ∧
      ((net.put drive { net.node drive with doc := doc, unsaid := true }).node other).heard =
        (net.node other).heard ∧
      oplogVv (net.node other).doc ≤
        oplogVv ((net.put drive { net.node drive with doc := doc, unsaid := true }).node other).doc := by
    by_cases mine : other = drive
    · subst mine
      simpa using less
    · simp [mine]
  have known (sender receiver : ι) :
      (net.put drive { net.node drive with doc := doc, unsaid := true }).recorded setting sender receiver =
        net.recorded setting sender receiver := by
    unfold recorded
    rw [(node sender).1]
  refine ⟨fun sender receiver => ?_, fun other said peer vv recorded => ?_, fun other peer heard => ?_⟩
  · refine (sound.linked sender receiver).grow (node sender).2.2 (node receiver).2.2 ?_ rfl
      (known sender receiver)
    rw [(node receiver).1]
  · by_cases mine : other = drive
    · subst mine
      rw [node_put_self] at said
      cases said
    · rw [known] at recorded
      rw [node_put_ne net drive _ mine] at said ⊢
      exact sound.told other said peer vv recorded
  · rw [known]
    rw [(node other).2.1] at heard
    exact sound.heard other peer heard

/-- A drive whose entries and document are as they were is ready for a trigger that records
nothing. -/
theorem Sound.poised (sound : net.Sound setting) {drive : ι} (node : Node ι Doc V)
    {trigger : Trigger V} (doc : node.doc = (net.node drive).doc)
    (sync : node.sync = (net.node drive).sync) (heard : node.heard = (net.node drive).heard)
    (silent : ∀ name known, trigger.recorded name known = known) :
    (net.put drive node).Poised setting drive trigger := by
  have docs (other : ι) : ((net.put drive node).node other).doc = (net.node other).doc := by
    by_cases mine : other = drive
    · subst mine
      rwa [node_put_self]
    · rw [node_put_ne net drive node mine]
  have syncs (other : ι) : ((net.put drive node).node other).sync = (net.node other).sync := by
    by_cases mine : other = drive
    · subst mine
      rwa [node_put_self]
    · rw [node_put_ne net drive node mine]
  have known (sender receiver : ι) : (net.put drive node).recorded setting sender receiver =
      net.recorded setting sender receiver := by
    unfold recorded
    rw [syncs]
  have linked (sender receiver : ι) : (net.put drive node).Linked setting sender receiver :=
    (sound.linked sender receiver).grow (by rw [docs]) (by rw [docs]) (by rw [syncs]) rfl
      (known sender receiver)
  refine ⟨fun sender _ => linked sender, fun receiver => ?_, fun other mine said peer vv recorded => ?_,
    fun other mine peer hears => ?_, fun peer hears => ?_⟩
  · rw [silent]
    exact linked drive receiver
  · rw [known] at recorded
    rw [docs]
    rw [node_put_ne net drive node mine] at said
    exact sound.told other said peer vv recorded
  · rw [known]
    rw [node_put_ne net drive node mine] at hears
    exact sound.heard other peer hears
  · rw [silent, known]
    rw [node_put_self, heard] at hears
    exact sound.heard drive peer hears

omit [LoroDoc Doc V] [SemilatticeSup V] in
theorem call_reacted (net : Network ι Doc V) {drive : ι} (node : Node ι Doc V)
    {request : SyncCall V} {world : World V} {trigger : Trigger V} {start : SyncState V}
    (reacts : node.sync.call (setting.options drive) request =
      start.react (setting.options drive) world trigger) :
    net.call setting drive node request =
      (net.put drive { node with sync := start }).reacted setting drive world trigger := by
  simp only [call, Network.reacted, reacts, node_put_self, put_put]

/-- What a host asks of its drive keeps the invariant. -/
theorem Sound.host (lawful : LoroDoc.Lawful Doc V) (sound : net.Sound setting) {drive : ι}
    {store : Store} {request : Request}
    (within : UpdatesWithin setting drive (net.node drive).sync
      (request.call (worldOf (net.node drive).doc store))) :
    (net.step setting (.host drive store request)).Sound setting := by
  -- every request but a refused pull is a reaction to a trigger that records nothing
  have reaction {trigger : Trigger V} (silent : ∀ name known, trigger.recorded name known = known)
      (reached : (net.node drive).sync.reaction (setting.options drive)
        (request.call (worldOf (net.node drive).doc store)) =
          some (worldOf (net.node drive).doc store, trigger, (net.node drive).sync))
      (reacts : (net.node drive).sync.call (setting.options drive)
        (request.call (worldOf (net.node drive).doc store)) =
          (net.node drive).sync.react (setting.options drive)
            (worldOf (net.node drive).doc store) trigger) :
      (net.step setting (.host drive store request)).Sound setting := by
    let node : Node ι Doc V :=
      { net.node drive with unsaid := (net.node drive).unsaid && !request.isLocalChanged }
    have same : net.step setting (.host drive store request) =
        (net.put drive node).reacted setting drive (worldOf node.doc store) trigger :=
      call_reacted net node reacts
    have poised : (net.put drive node).Poised setting drive trigger :=
      sound.poised node rfl rfl rfl silent
    have done := @Poised.reacted ι Doc V _ _ _ _ setting (net.put drive node) lawful drive store
      trigger poised
    rw [node_put_self] at done
    rw [same]
    exact done fun entry member => within _ _ _ reached entry member _ rfl
  cases request with
  | localChanged => exact reaction (fun _ _ => rfl) rfl rfl
  | opened peer => exact reaction (fun _ _ => rfl) rfl rfl
  | tick => exact reaction (fun _ _ => rfl) rfl rfl
  | pullFailed peer digest => exact reaction (fun _ _ => rfl) rfl rfl
  | pulled admitted peer digest =>
    cases admitted with
    | ok done => exact reaction (fun _ _ => rfl) rfl rfl
    | error refusal =>
      -- a refused copy only counts against its holder
      have entries (other : ι) (name : String) : (((net.step setting (.host drive store
          (.pulled (.error refusal) peer digest))).node other).sync.peer name) =
            (net.node other).sync.peer name := by
        by_cases mine : other = drive
        · subst mine
          simp [step, call, Request.call, SyncState.call, syncPulled, peer_endFailed]
        · simp [step, call, mine]
      have rest (other : ι) : ((net.step setting (.host drive store
            (.pulled (.error refusal) peer digest))).node other).doc = (net.node other).doc ∧
          ((net.step setting (.host drive store
            (.pulled (.error refusal) peer digest))).node other).unsaid = (net.node other).unsaid ∧
          ((net.step setting (.host drive store
            (.pulled (.error refusal) peer digest))).node other).heard = (net.node other).heard := by
        by_cases mine : other = drive
        · subst mine
          simp [step, call, Request.isLocalChanged]
        · simp [step, call, mine]
      have channel : (net.step setting (.host drive store
          (.pulled (.error refusal) peer digest))).channel = net.channel := by
        funext sender receiver
        simp [step, call, post, Request.call, SyncState.call, syncPulled, emitted, framesTo]
      refine ⟨fun sender receiver => ?_, fun other said name vv known => ?_, fun other name heard => ?_⟩
      · refine (sound.linked sender receiver).grow (by rw [(rest sender).1]) (by rw [(rest receiver).1])
          (by rw [entries]) (by rw [channel]) ?_
        unfold recorded
        rw [entries]
      · unfold recorded at known
        rw [entries] at known
        rw [(rest other).2.1] at said
        rw [(rest other).1]
        exact sound.told other said name vv known
      · unfold recorded
        rw [entries]
        rw [(rest other).2.2] at heard
        exact sound.heard other name heard

omit [DecidableEq ι] [LoroDoc Doc V] [SemilatticeSup V] in
theorem recorded_isSome {trigger : Trigger V} {name : String} {known : Option V}
    (some : known.isSome) : (trigger.recorded name known).isSome := by
  cases trigger with
  | hello peer theirs =>
    simp only [Trigger.recorded]
    split
    · rfl
    · exact some
  | imported sender before after =>
    simp only [Trigger.recorded]
    split
    · rfl
    · exact some
  | _ => exact some

section Delivering

variable {sender receiver : ι} {frame : Frame} {rest : List Frame}

/-- The network once a frame is taken in, before the receiver reacts to it. -/
def arrived (setting : Participants ι) (net : Network ι Doc V) (sender receiver : ι) (frame : Frame) :
    Network ι Doc V :=
  (net.pop sender receiver).put receiver { net.receiving setting sender receiver frame with
    sync := ((net.node receiver).sync.completes (setting.options receiver) (setting.name sender)
      frame).1 }

theorem docs_arrived (other : ι) (lawful : LoroDoc.Lawful Doc V) (sound : net.Sound setting)
    (oldest : net.channel sender receiver = frame :: rest) (accepts : accepted
      (setting.options receiver) (encodeFrame frame) = some frame) :
    oplogVv (net.node other).doc ≤
      oplogVv ((net.arrived setting sender receiver frame).node other).doc := by
  obtain ⟨reach, arriving, _⟩ := sound.linked sender receiver
  rw [oldest] at arriving
  have took := arriving.take lawful (net.node receiver).sync (setting.name sender)
    (net.node receiver).doc
  by_cases mine : other = receiver
  · subst mine
    simp only [arrived, node_put_self, receiving, docAfter, accepts, Option.bind_some]
    cases whole : ((net.node other).sync.completes (setting.options other) (setting.name sender)
      frame).2 with
    | none => exact le_rfl
    | some bytes =>
      obtain ⟨after, news, imports, joined, _⟩ := took.merged bytes whole
      simp only [absorbed, imports, joined]
      exact le_sup_left
  · simp only [arrived, ne_eq, mine, not_false_eq_true, node_put_ne]
    exact le_rfl

/-- Taking a frame in keeps every link. -/
theorem linked_arrived (lawful : LoroDoc.Lawful Doc V) (sound : net.Sound setting)
    (oldest : net.channel sender receiver = frame :: rest) (accepts : accepted
      (setting.options receiver) (encodeFrame frame) = some frame) (drive peer : ι) :
    (net.arrived setting sender receiver frame).Linked setting drive peer := by
  have grows (other : ι) := docs_arrived other lawful sound oldest accepts
  have known (drive peer : ι) : (net.arrived setting sender receiver frame).recorded setting drive peer =
      net.recorded setting drive peer := by
    by_cases mine : drive = receiver
    · subst mine
      simp only [recorded, arrived, node_put_self]
      exact completes_vv _ _ _ _ _
    · simp only [recorded, arrived, ne_eq, mine, not_false_eq_true, node_put_ne]
      rfl
  by_cases first : drive = sender ∧ peer = receiver
  · obtain ⟨rfl, rfl⟩ := first
    obtain ⟨reach, arriving, below⟩ := sound.linked drive peer
    rw [oldest] at arriving
    have took := arriving.take lawful (net.node peer).sync (setting.name drive) (net.node peer).doc
    have link : Link Doc (setting.options peer).maxUpdateBytes.toNat (oplogVv (net.node drive).doc)
        (((net.arrived setting drive peer frame).node peer).sync.peer (setting.name drive)).assembly
        (oplogVv ((net.arrived setting drive peer frame).node peer).doc) rest
        (net.recorded setting drive peer) := by
      refine ⟨reach, ?_, below⟩
      simp only [arrived, node_put_self, receiving, docAfter, accepts, Option.bind_some]
      exact took.left
    have channel : (net.arrived setting drive peer frame).channel drive peer = rest := by
      simp [arrived, pop, oldest]
    unfold Linked LinkedWith
    rw [channel, known]
    exact link.grow (grows drive) le_rfl
  · refine (sound.linked drive peer).grow (grows drive) (grows peer) ?_ ?_ (known drive peer)
    · by_cases mine : peer = receiver
      · subst mine
        have different : setting.name sender ≠ setting.name drive := fun same =>
          first ⟨(setting.distinct same).symm, rfl⟩
        simp only [arrived, node_put_self]
        rw [completes_peer_ne _ _ _ _ different]
      · simp only [arrived, ne_eq, mine, not_false_eq_true, node_put_ne]
        rfl
    · simp only [arrived, channel_put, pop, first, if_false]

/-- What the receiver may record for the trigger of the frame it took in. -/
theorem poised_arrived (lawful : LoroDoc.Lawful Doc V) (sound : net.Sound setting)
    (oldest : net.channel sender receiver = frame :: rest) (accepts : accepted
      (setting.options receiver) (encodeFrame frame) = some frame) {trigger : Trigger V}
    (told : Told (importInner (net.node receiver).doc) (setting.name sender) frame
      ((net.node receiver).sync.completes (setting.options receiver) (setting.name sender) frame).2
      trigger) :
    (net.arrived setting sender receiver frame).Poised setting receiver trigger := by
  have linked := linked_arrived lawful sound oldest accepts
  have grows (other : ι) := docs_arrived other lawful sound oldest accepts
  obtain ⟨reach, arriving, _⟩ := sound.linked sender receiver
  rw [oldest] at arriving
  have took := arriving.take lawful (net.node receiver).sync (setting.name sender)
    (net.node receiver).doc
  have others {other : ι} (mine : other ≠ receiver) :
      (net.arrived setting sender receiver frame).node other = net.node other := by
    simp only [arrived, ne_eq, mine, not_false_eq_true, node_put_ne]
    rfl
  refine ⟨fun drive _ => linked drive, fun peer => ?_, fun other mine said peer vv known => ?_,
    fun other mine peer heard => ?_, fun peer heard => ?_⟩
  · have link := linked receiver peer
    unfold Linked at link
    generalize (net.arrived setting sender receiver frame).recorded setting receiver peer = known at link ⊢
    generalize whole : ((net.node receiver).sync.completes (setting.options receiver)
      (setting.name sender) frame).2 = update at told
    cases told with
    | digests other silent => rwa [silent]
    | hello decoded =>
      simp only [Trigger.recorded]
      split
      · rename_i same
        have twin := setting.distinct same
        subst twin
        obtain ⟨ours, less, encoded⟩ := took.greeted _ rfl
        rw [encoded, lawful.decodes] at decoded
        cases decoded
        exact link.record (less.trans (grows sender))
      · exact link
    | imported other imports =>
      simp only [Trigger.recorded]
      split
      · rename_i raised
        obtain ⟨same, covered⟩ := raised
        have twin := setting.distinct same
        subst twin
        obtain ⟨vv, rfl, had⟩ := (Option.any_eq_true ..).mp covered
        obtain ⟨after, news, merged, joined, less⟩ := took.merged _ whole
        simp only [importInner, merged] at imports
        cases imports
        rw [joined]
        exact link.raise ((lawful.includes _ _).mp had) (less.trans (grows sender))
      · exact link
  · rw [others mine] at said ⊢
    unfold recorded at known
    rw [others mine] at known
    exact sound.told other said peer vv known
  · rw [others mine] at heard
    unfold recorded
    rw [others mine]
    exact sound.heard other peer heard
  · have known : (net.arrived setting sender receiver frame).recorded setting receiver peer =
        net.recorded setting receiver peer := by
      simp only [recorded, arrived, node_put_self]
      exact completes_vv _ _ _ _ _
    rw [known]
    have earlier (before : (net.node receiver).heard peer = true) :=
      @recorded_isSome V _ trigger (setting.name peer) _ (sound.heard receiver peer before)
    simp only [arrived, node_put_self, receiving] at heard
    generalize whole : ((net.node receiver).sync.completes (setting.options receiver)
      (setting.name sender) frame).2 = update at told
    cases told with
    | digests other silent =>
      rw [other] at heard
      exact earlier heard
    | imported other imports =>
      rw [other] at heard
      exact earlier heard
    | hello decoded =>
      by_cases same : peer = sender
      · subst same
        simp [Trigger.recorded]
      · apply earlier
        simpa [Frame.isHello, Function.update_of_ne same] using heard

/-- Handing over the oldest frame keeps the invariant. -/
theorem Sound.deliver (lawful : LoroDoc.Lawful Doc V) (sound : net.Sound setting) {store : Store}
    (allowed : net.Allowed setting (.deliver sender receiver store)) :
    (net.step setting (.deliver sender receiver store)).Sound setting := by
  cases oldest : net.channel sender receiver with
  | nil => simpa [step, oldest] using sound
  | cons frame rest =>
    obtain ⟨⟨actions, done⟩, within⟩ := allowed frame rest oldest
    have handled := handle_told done
    obtain ⟨accepts, reaction | ⟨aside, other, nothing⟩⟩ := handled
    · obtain ⟨trigger, reached, reacts, told⟩ := reaction
      have doc : ((net.arrived setting sender receiver frame).node receiver).doc =
          net.docAfter setting sender receiver frame := by
        simp [arrived, receiving]
      have same : net.step setting (.deliver sender receiver store) =
          (net.arrived setting sender receiver frame).reacted setting receiver
            (worldOf (net.docAfter setting sender receiver frame) store) trigger := by
        simp only [step, oldest]
        exact call_reacted (net.pop sender receiver) (net.receiving setting sender receiver frame) reacts
      have poised := poised_arrived lawful sound oldest accepts told
      have kept := @Poised.reacted ι Doc V _ _ _ _ setting _ lawful receiver store trigger poised
      rw [doc] at kept
      rw [same]
      apply kept
      intro entry member
      have start : ((net.arrived setting sender receiver frame).node receiver).sync =
          ((net.node receiver).sync.completes (setting.options receiver) (setting.name sender)
            frame).1 := by
        simp only [arrived, node_put_self]
      rw [start] at member
      exact within _ _ _ reached entry member _ rfl
    · have linked := linked_arrived lawful sound oldest accepts
      have same : net.step setting (.deliver sender receiver store) =
          net.arrived setting sender receiver frame := by
        simp only [step, oldest]
        unfold call arrived
        simp only [receiving]
        have silent : ((net.node receiver).sync.call (setting.options receiver)
            (net.handing setting sender receiver store frame)) =
              (((net.node receiver).sync.completes (setting.options receiver) (setting.name sender)
                frame).1, .ok []) := aside
        rw [silent]
        simp [post, emitted, framesTo, put]
      have doc : net.docAfter setting sender receiver frame = (net.node receiver).doc := by
        simp [docAfter, accepts, nothing, absorbed]
      have rest (drive : ι) :
          ((net.arrived setting sender receiver frame).node drive).doc = (net.node drive).doc ∧
          ((net.arrived setting sender receiver frame).node drive).unsaid = (net.node drive).unsaid ∧
          ((net.arrived setting sender receiver frame).node drive).heard = (net.node drive).heard ∧
          ∀ peer, (net.arrived setting sender receiver frame).recorded setting drive peer =
            net.recorded setting drive peer := by
        by_cases mine : drive = receiver
        · subst mine
          refine ⟨?_, ?_, ?_, fun peer => ?_⟩
          · simpa [arrived, receiving] using doc
          · simp [arrived, receiving]
          · simp [arrived, receiving, other]
          · simp only [recorded, arrived, node_put_self]
            exact completes_vv _ _ _ _ _
        · simp [recorded, arrived, mine, pop]
      rw [same]
      refine ⟨linked, fun drive said peer vv known => ?_, fun drive peer heard => ?_⟩
      · rw [(rest drive).2.2.2] at known
        rw [(rest drive).2.1] at said
        rw [(rest drive).1]
        exact sound.told drive said peer vv known
      · rw [(rest drive).2.2.2]
        rw [(rest drive).2.2.1] at heard
        exact sound.heard drive peer heard

end Delivering

omit [DecidableEq ι] in
theorem Fresh.sound (fresh : net.Fresh) : net.Sound setting := by
  have nothing (drive peer : ι) : net.recorded setting drive peer = none := by
    unfold recorded
    rw [fresh.tables]
    rfl
  refine ⟨fun sender receiver => ?_, fun drive _ peer vv known => ?_, fun drive peer heard => ?_⟩
  · unfold Linked LinkedWith
    rw [fresh.empty, nothing]
    exact ⟨_, .between (.nil _), fun _ impossible => by cases impossible⟩
  · rw [nothing] at known
    cases known
  · rw [fresh.said] at heard
    cases heard

theorem Run.sound (lawful : LoroDoc.Lawful Doc V) (run : Run setting net) : net.Sound setting := by
  induction run with
  | fresh fresh => exact fresh.sound
  | step run event allowed sound =>
    cases event with
    | write drive doc => exact sound.write allowed
    | host drive store request => exact sound.host lawful allowed
    | deliver sender receiver store => exact sound.deliver lawful allowed

omit [DecidableEq ι] in
theorem Sound.bounded (lawful : LoroDoc.Lawful Doc V) (sound : net.Sound setting) {sender receiver : ι}
    {vv : V} (known : net.recorded setting sender receiver = some vv) :
    vv ≤ net.bound setting sender receiver := by
  obtain ⟨reach, arriving, below⟩ := sound.linked sender receiver
  unfold bound
  rw [arriving.landed lawful]
  exact below vv known

omit [DecidableEq ι] in
theorem Sound.covered (lawful : LoroDoc.Lawful Doc V) (sound : net.Sound setting) (quiet : net.Quiet)
    {sender receiver : ι} (heard : (net.node sender).heard receiver = true) :
    oplogVv (net.node sender).doc ≤ oplogVv (net.node receiver).doc := by
  obtain ⟨vv, known⟩ := Option.isSome_iff_exists.mp (sound.heard sender receiver heard)
  have below := sound.bounded lawful known
  unfold bound at below
  rw [quiet.empty] at below
  exact (sound.told sender (quiet.told sender) receiver vv known).trans below

/-- Over every run of local writes, host calls and deliveries, the vector a drive records
for a peer is included in the peer's document joined with the updates in flight to it. A
quiet network whose neighbours have heard each other's greetings has one document. -/
theorem drives_converge (lawful : LoroDoc.Lawful Doc V) (run : Run setting net) :
    (∀ sender receiver vv, net.recorded setting sender receiver = some vv →
      vv ≤ net.bound setting sender receiver) ∧
    (net.Quiet → ∀ neighbours : ι → ι → Prop,
      (∀ drive peer, neighbours drive peer →
        (net.node drive).heard peer = true ∧ (net.node peer).heard drive = true) →
      ∀ drive other, Relation.ReflTransGen neighbours drive other →
        oplogVv (net.node drive).doc = oplogVv (net.node other).doc ∧
        ∀ {State : Type} (state : Doc → State),
          state (net.node drive).doc = state (net.node other).doc) := by
  have sound := run.sound lawful
  refine ⟨fun sender receiver vv known => sound.bounded lawful known, ?_⟩
  intro quiet neighbours greeted drive other path
  have same : oplogVv (net.node drive).doc = oplogVv (net.node other).doc := by
    induction path with
    | refl => rfl
    | tail _ edge ih =>
      obtain ⟨there, back⟩ := greeted _ _ edge
      exact ih.trans ((sound.covered lawful quiet there).antisymm (sound.covered lawful quiet back))
  refine ⟨same, fun state => ?_⟩
  rw [lawful.determined same]

section Sample

/-- Documents of two authors with one change each. -/
instance twoAuthors : LoroDoc (Bool × Bool) (Bool × Bool) where
  oplogVv := id
  exportUpdatesSince doc _ := [doc.1.toUInt8, doc.2.toUInt8]
  importUpdates
    | doc, [first, second] => .ok (doc ⊔ (first != 0, second != 0))
    | _, _ => .error ⟨.format, "an update that did not decode"⟩

instance twoVectors : VersionVector (Bool × Bool) where
  includesVv mine theirs := mine ⊔ theirs == mine
  encode vv := [vv.1.toUInt8, vv.2.toUInt8]
  decode
    | [first, second] => some (first != 0, second != 0)
    | _ => none

theorem twoAuthors_lawful : LoroDoc.Lawful (Bool × Bool) (Bool × Bool) where
  includes := by decide
  decodes := by decide
  determined := Function.injective_id
  merges := fun doc other _ _ => ⟨doc ⊔ other, by
    rcases other with ⟨first, second⟩
    cases first <;> cases second <;> rfl, rfl⟩

def twoDrives : Participants Bool where
  name drive := if drive then "desk" else "lap"
  distinct := by decide
  options _ := sampleOptions
  valid _ := rfl

def atFirst : Network Bool (Bool × Bool) (Bool × Bool) where
  node _ := ⟨(false, false), .default, false, fun _ => false⟩
  channel _ _ := []

/-- The desk writes, meets the lap and brings it up to date. -/
def meeting : List (Event Bool (Bool × Bool)) :=
  let store : Store := ⟨∅, fun _ => false⟩
  [.write true (true, false), .host true store .localChanged, .host true store (.opened "lap"),
    .deliver true false store, .deliver false true store, .deliver true false store]

theorem twoDrives_within (drive : Bool) (sync : SyncState (Bool × Bool))
    {call : SyncCall (Bool × Bool)}
    (reads : ∀ world trigger start, Reached (twoDrives.options drive) sync call world trigger start →
      ∃ (doc : Bool × Bool) (store : Store), world = worldOf doc store) :
    UpdatesWithin twoDrives drive sync call := by
  intro world trigger start reached entry _ bytes exported
  obtain ⟨doc, store, rfl⟩ := reads world trigger start (reaction_reached _ reached)
  cases exported
  have length : (LoroDoc.exportUpdatesSince doc entry.2).length = 2 := rfl
  change UpdateFits sampleOptions _ ∧ ∀ receiver, _ → _ ≤ sampleOptions.maxUpdateBytes.toNat
  unfold UpdateFits
  rw [length]
  exact ⟨by decide, fun _ _ => by decide⟩

theorem twoDrives_host (net : Network Bool (Bool × Bool) (Bool × Bool)) (drive : Bool) (store : Store)
    (request : Request) : net.Allowed twoDrives (.host drive store request) := by
  apply twoDrives_within
  intro world trigger start reached
  cases request with
  | localChanged => cases reached; exact ⟨_, _, rfl⟩
  | opened peer => cases reached; exact ⟨_, _, rfl⟩
  | tick => cases reached; exact ⟨_, _, rfl⟩
  | pulled admitted peer digest => cases reached; exact ⟨_, _, rfl⟩
  | pullFailed peer digest => cases reached; exact ⟨_, _, rfl⟩

theorem twoDrives_deliver (net : Network Bool (Bool × Bool) (Bool × Bool)) (sender receiver : Bool)
    (store : Store) (taken : ∀ frame, (net.channel sender receiver).head? = some frame →
      ((net.node receiver).sync.call (twoDrives.options receiver)
        (net.handing twoDrives sender receiver store frame)).2.toOption.isSome = true) :
    net.Allowed twoDrives (.deliver sender receiver store) := by
  intro frame rest oldest
  refine ⟨?_, twoDrives_within receiver _ fun world trigger start reached => ?_⟩
  · have given := taken frame (by rw [oldest]; rfl)
    cases result : ((net.node receiver).sync.call (twoDrives.options receiver)
        (net.handing twoDrives sender receiver store frame)).2 with
    | ok actions => exact ⟨actions, rfl⟩
    | error refusal =>
      rw [result] at given
      cases given
  · cases reached
    exact ⟨_, _, rfl⟩

def afterFirst (count : Nat) : Network Bool (Bool × Bool) (Bool × Bool) :=
  (meeting.take count).foldl (fun net event => net.step twoDrives event) atFirst

/-- The two drives end with one document. -/
theorem drives_converge_meeting : (afterFirst 6).Quiet ∧
    oplogVv ((afterFirst 6).node true).doc = oplogVv ((afterFirst 6).node false).doc := by
  have run : Run twoDrives (afterFirst 6) := by
    have fresh : Run twoDrives (afterFirst 0) := .fresh ⟨fun _ => rfl, fun _ => rfl, fun _ _ => rfl⟩
    have first : Run twoDrives (afterFirst 1) := fresh.step (.write true (true, false)) (by
      change (false, false) ≤ (true, false)
      decide)
    have second : Run twoDrives (afterFirst 2) := first.step _ (twoDrives_host _ _ _ _)
    have third : Run twoDrives (afterFirst 3) := second.step _ (twoDrives_host _ _ _ _)
    have fourth : Run twoDrives (afterFirst 4) :=
      third.step _ (twoDrives_deliver _ true false _ (by decide))
    have fifth : Run twoDrives (afterFirst 5) :=
      fourth.step _ (twoDrives_deliver _ false true _ (by decide))
    exact fifth.step _ (twoDrives_deliver _ true false _ (by decide))
  have quiet : (afterFirst 6).Quiet := ⟨by decide, by decide⟩
  refine ⟨quiet, ?_⟩
  have converged := (drives_converge twoAuthors_lawful run).2 quiet (fun drive peer => drive ≠ peer)
    (by decide) true false
  exact (converged (.single (by decide))).1

end Sample

end Network

end Mille.Drive
