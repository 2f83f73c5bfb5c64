import Mille.Core.IdMapNodes

/-! The iterator's stack of frames: what is still to come, and that each call
of `next` yields exactly the first of it. -/

namespace Mille.Radix

open Bitmap

variable {ν : Type} {level slot : Nat}

theorem join_toNat {keyPrefix : UInt64} (shallow : level ≤ top) (digit : slot < 32)
    (clean : keyPrefix.toNat % 32 ^ (level + 1) = 0) (room : keyPrefix.toNat + slot * 32 ^ level < 2 ^ 64) :
    (keyPrefix ||| UInt64.ofNat slot <<< UInt64.ofNat (bits * level)).toNat =
      keyPrefix.toNat + slot * 32 ^ level := by
  unfold top at shallow
  have power : 2 ^ (5 * level) = 32 ^ level := by rw [Nat.pow_mul]
  have shift : (UInt64.ofNat (bits * level)).toNat % 64 = 5 * level := by
    unfold bits
    rw [UInt64.toNat_ofNat']
    omega
  have value : (UInt64.ofNat slot).toNat = slot := by
    rw [UInt64.toNat_ofNat']
    omega
  have shifted : (UInt64.ofNat slot <<< UInt64.ofNat (bits * level)).toNat = slot * 32 ^ level := by
    rw [UInt64.toNat_shiftLeft, shift, value, Nat.shiftLeft_eq, power, Nat.mod_eq_of_lt]
    omega
  have wide : slot * 32 ^ level < 2 ^ (5 * (level + 1)) := by
    have next : 2 ^ (5 * (level + 1)) = 32 * 32 ^ level := by rw [Nat.pow_mul, Nat.pow_succ']
    rw [next]
    exact Nat.mul_lt_mul_of_pos_right digit (Nat.pow_pos (by omega))
  have split : keyPrefix.toNat = 2 ^ (5 * (level + 1)) * (keyPrefix.toNat / 32 ^ (level + 1)) := by
    have next : 2 ^ (5 * (level + 1)) = 32 ^ (level + 1) := by rw [Nat.pow_mul]
    rw [next, Nat.mul_div_cancel' (Nat.dvd_of_mod_eq_zero clean)]
  rw [UInt64.toNat_or, shifted, split, ← Nat.two_pow_add_eq_or_of_lt wide]

namespace Frame

/-- Items not yet visited, with their slots. -/
def unvisited {τ : Type} (pending : BitVec 32) (items : List τ) (next : Nat) : List (Nat × τ) :=
  (occupied pending).zip (items.drop next)

/-- The unvisited bindings of a frame's own node. -/
def own (frame : Frame ν) : List (Nat × ν) :=
  match frame.node with
  | .leaf slots => unvisited frame.pending slots.items frame.next
  | .branch slots => Node.spread (frame.level - 1) (unvisited frame.pending slots.items frame.next)

/-- The bindings a frame has still to yield. -/
def rest (frame : Frame ν) : List (Nat × ν) :=
  frame.own.map (fun binding => (frame.keyPrefix.toNat + binding.1, binding.2))

/-- A frame over a well-shaped node whose unvisited bits match its unvisited items. -/
structure Sound (frame : Frame ν) : Prop where
  shallow : frame.level ≤ top
  clean : frame.keyPrefix.toNat % 32 ^ (frame.level + 1) = 0
  aligned : match frame.node with
    | .leaf slots => frame.level = 0 ∧ (occupied frame.pending).length = (slots.items.drop frame.next).length
    | .branch slots => ∃ level, frame.level = level + 1 ∧
        (occupied frame.pending).length = (slots.items.drop frame.next).length ∧
        ∀ child ∈ slots.items.drop frame.next, Node.Shaped level child
  small : ∀ binding ∈ frame.rest, binding.1 < 2 ^ 64

theorem new_rest {node : Node ν} (shaped : Node.Shaped level node) {keyPrefix : UInt64} :
    (Frame.new node level keyPrefix).rest =
      (node.bindings level).map (fun binding => (keyPrefix.toNat + binding.1, binding.2)) := by
  cases shaped with
  | leaf packed _ => rfl
  | branch packed _ below => rfl

theorem new_sound {node : Node ν} (shaped : Node.Shaped level node) {keyPrefix : UInt64} (shallow : level ≤ top)
    (clean : keyPrefix.toNat % 32 ^ (level + 1) = 0)
    (small : ∀ binding ∈ (Frame.new node level keyPrefix).rest, binding.1 < 2 ^ 64) :
    (Frame.new node level keyPrefix).Sound := by
  refine ⟨shallow, clean, ?_, small⟩
  cases shaped with
  | leaf packed _ => exact ⟨rfl, countOnes_eq.symm.trans packed⟩
  | branch packed _ below => exact ⟨_, rfl, countOnes_eq.symm.trans packed, below⟩

theorem unvisited_pop {τ : Type} {pending : BitVec 32} {items : List τ} {next : Nat} (some : pending ≠ 0)
    (aligned : (occupied pending).length = (items.drop next).length) :
    ∃ item, items[next]? = Option.some item ∧ item ∈ items.drop next ∧ trailingZeros pending < 32 ∧
      unvisited pending items next =
        (trailingZeros pending, item) :: unvisited (pending &&& (pending - 1)) items (next + 1) ∧
      (occupied (pending &&& (pending - 1))).length = (items.drop (next + 1)).length := by
  cases slots : occupied pending with
  | nil => exact absurd (occupied_eq_nil.mp slots) some
  | cons first others =>
    obtain ⟨lowest, popped⟩ := occupied_pop slots
    rw [slots] at aligned
    have room : next < items.length := by
      rw [List.length_cons, List.length_drop] at aligned
      omega
    have split : items.drop next = items[next] :: items.drop (next + 1) := List.drop_eq_getElem_cons room
    refine ⟨items[next], List.getElem?_eq_getElem room, by rw [split]; exact List.mem_cons_self, ?_, ?_, ?_⟩
    · rw [lowest]
      exact occupied_lt (slots ▸ List.mem_cons_self)
    · unfold unvisited
      rw [slots, split, popped, lowest, List.zip_cons_cons]
    · rw [split, List.length_cons, List.length_cons] at aligned
      rw [popped]
      exact Nat.succ.inj aligned

/-- The frame behind its first unvisited slot. -/
def popped (frame : Frame ν) : Frame ν :=
  { frame with pending := frame.pending &&& (frame.pending - 1), next := frame.next + 1 }

/-- The key prefix of the first unvisited slot. -/
def nextKey (frame : Frame ν) : UInt64 :=
  frame.keyPrefix ||| UInt64.ofNat (trailingZeros frame.pending) <<< UInt64.ofNat (bits * frame.level)

theorem rest_eq_nil {frame : Frame ν} (none : frame.pending = 0) : frame.rest = [] := by
  have empty {τ : Type} (items : List τ) : unvisited frame.pending items frame.next = [] := by
    unfold unvisited
    rw [occupied_eq_nil.mpr none, List.zip_nil_left]
  unfold rest own
  cases frame.node with
  | leaf slots => simp [empty]
  | branch slots => simp [empty, Node.spread]

theorem Sound.pop_leaf {frame : Frame ν} (sound : frame.Sound) {slots : Slots ν} (here : frame.node = .leaf slots)
    (some : frame.pending ≠ 0) : ∃ value, slots.items[frame.next]? = Option.some value ∧
      frame.popped.Sound ∧ frame.rest = (frame.nextKey.toNat, value) :: frame.popped.rest := by
  obtain ⟨node, level, keyPrefix, pending, next⟩ := frame
  subst here
  obtain ⟨shallow, clean, ⟨ground, aligned⟩, small⟩ := sound
  dsimp only at shallow clean ground aligned some
  subst ground
  obtain ⟨value, found, _, digit, split, left⟩ := unvisited_pop some aligned
  have first : (Frame.mk (.leaf slots) 0 keyPrefix pending next).rest =
      (keyPrefix.toNat + trailingZeros pending, value) ::
        (Frame.mk (.leaf slots) 0 keyPrefix pending next).popped.rest := by
    simp [rest, own, popped, split]
  have bound := small _ (first ▸ List.mem_cons_self)
  have joined : (Frame.mk (.leaf slots) 0 keyPrefix pending next).nextKey.toNat =
      keyPrefix.toNat + trailingZeros pending := by
    have whole := join_toNat shallow digit clean (by simpa using bound)
    rwa [Nat.pow_zero, Nat.mul_one] at whole
  refine ⟨value, found, ⟨shallow, clean, ⟨rfl, left⟩, ?_⟩, joined ▸ first⟩
  intro binding member
  exact small binding (first ▸ List.mem_cons_of_mem _ member)

/-- Opening the child in one slot of a branch. -/
theorem Sound.pop_branch {frame : Frame ν} (sound : frame.Sound) {slots : Slots (Node ν)}
    (here : frame.node = .branch slots) (some : frame.pending ≠ 0) (height : frame.level = level + 1) :
    ∃ child, slots.items[frame.next]? = Option.some child ∧ (Frame.new child level frame.nextKey).Sound ∧
      frame.popped.Sound ∧ frame.rest = (Frame.new child level frame.nextKey).rest ++ frame.popped.rest := by
  obtain ⟨node, depth, keyPrefix, pending, next⟩ := frame
  dsimp only at height
  subst here height
  obtain ⟨shallow, clean, ⟨depth, height, aligned, below⟩, small⟩ := sound
  dsimp only at shallow clean height aligned below some
  obtain rfl := Nat.succ.inj height
  obtain ⟨child, found, member, digit, split, left⟩ := unvisited_pop some aligned
  have shaped := below child member
  have first : (Frame.mk (.branch slots) (level + 1) keyPrefix pending next).rest =
      (lift level (trailingZeros pending) (child.bindings level)).map
        (fun binding => (keyPrefix.toNat + binding.1, binding.2)) ++
        (Frame.mk (.branch slots) (level + 1) keyPrefix pending next).popped.rest := by
    simp [rest, own, popped, split, Node.spread]
  -- The child holds some key below 2 ^ 64, so its own prefix is below it too.
  obtain ⟨low, stored⟩ := List.exists_mem_of_ne_nil _ shaped.bindings_ne_nil
  have bound : keyPrefix.toNat + (trailingZeros pending * 32 ^ (level + 1) + low.1) < 2 ^ 64 := by
    refine small (keyPrefix.toNat + (trailingZeros pending * 32 ^ (level + 1) + low.1), low.2) ?_
    rw [first]
    refine List.mem_append_left _ (List.mem_map.mpr ⟨_, Node.mem_lift.mpr ⟨low, stored, rfl⟩, rfl⟩)
  have joined : (Frame.mk (.branch slots) (level + 1) keyPrefix pending next).nextKey.toNat =
      keyPrefix.toNat + trailingZeros pending * 32 ^ (level + 1) :=
    join_toNat shallow digit clean (by dsimp only; omega)
  have opened : (Frame.new child level (Frame.mk (.branch slots) (level + 1) keyPrefix pending next).nextKey).rest =
      (lift level (trailingZeros pending) (child.bindings level)).map
        (fun binding => (keyPrefix.toNat + binding.1, binding.2)) := by
    rw [new_rest shaped, joined]
    simp [lift, Nat.add_assoc]
  rw [← opened] at first
  refine ⟨child, found, new_sound shaped (Nat.le_of_succ_le shallow) ?_ ?_, ⟨shallow, clean, ?_, ?_⟩, first⟩
  · have divides : 32 ^ (level + 1) ∣ keyPrefix.toNat :=
      (Nat.pow_dvd_pow 32 (Nat.le_succ _)).trans (Nat.dvd_of_mod_eq_zero clean)
    rw [joined]
    exact Nat.mod_eq_zero_of_dvd (Nat.dvd_add divides (Nat.dvd_mul_left _ _))
  · intro binding inside
    exact small binding (first ▸ List.mem_append_left _ inside)
  · refine ⟨level, rfl, left, fun other later => below other ?_⟩
    exact List.mem_of_mem_drop (by rwa [List.drop_drop])
  · intro binding inside
    exact small binding (first ▸ List.mem_append_right _ inside)

end Frame

/-- One call of `next` yields the first binding of the open frames and leaves the others. -/
theorem advance_spec {stack : List (Frame ν)} (sound : ∀ frame ∈ stack, frame.Sound) :
    (advance stack = none ∧ stack.flatMap Frame.rest = []) ∨
      ∃ key value behind, advance stack = some ((key, value), behind) ∧ (∀ frame ∈ behind, frame.Sound) ∧
        stack.flatMap Frame.rest = (key.toNat, value) :: behind.flatMap Frame.rest := by
  fun_induction advance stack with
  | case1 => exact .inl ⟨rfl, rfl⟩
  | case2 frame rest none ih =>
    have others := ih (fun other member => sound other (List.mem_cons_of_mem _ member))
    rwa [List.flatMap_cons, Frame.rest_eq_nil none, List.nil_append]
  | case3 frame rest some slot visited key slots here =>
    obtain ⟨top, others⟩ := List.forall_mem_cons.mp sound
    obtain ⟨value, found, left, split⟩ := top.pop_leaf here some
    refine .inr ⟨frame.nextKey, value, frame.popped :: rest, ?_, List.forall_mem_cons.mpr ⟨left, others⟩, ?_⟩
    · rw [found]
      rfl
    · rw [List.flatMap_cons, split]
      rfl
  | case4 frame rest some slot visited key slots level height here child found ih =>
    obtain ⟨top, others⟩ := List.forall_mem_cons.mp sound
    obtain ⟨opened, present, inner, left, split⟩ := top.pop_branch here some height
    obtain rfl := Option.some.inj (present.symm.trans found)
    rw [List.flatMap_cons, split, List.append_assoc]
    exact ih (List.forall_mem_cons.mpr ⟨inner, List.forall_mem_cons.mpr ⟨left, others⟩⟩)
  | case5 frame rest some slots level height here missing =>
    obtain ⟨opened, present, _⟩ := (sound frame List.mem_cons_self).pop_branch here some height
    cases present.symm.trans missing
  | case6 frame rest some slots ground here =>
    have aligned := (sound frame List.mem_cons_self).aligned
    rw [here] at aligned
    obtain ⟨level, height, _⟩ := aligned
    cases ground.symm.trans height

theorem Iter.collect_spec {iter : Iter ν} (sound : ∀ frame ∈ iter.stack, frame.Sound) (count : Nat) :
    (iter.collect count).map (fun item => (item.1.toNat, item.2)) =
      (iter.stack.flatMap Frame.rest).take count := by
  induction count generalizing iter with
  | zero => rfl
  | succ count ih =>
    rcases advance_spec sound with ⟨done, nothing⟩ | ⟨key, value, behind, stepped, left, split⟩
    · simp [collect, next, done, nothing]
    · have others := @ih ⟨behind, iter.remaining - 1⟩ left
      simp [collect, next, stepped, split, others]

end Mille.Radix
