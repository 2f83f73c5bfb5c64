import Mille.Binding.Journal

/-! The recycle base as a shelf: which buckets the journal names, which a call holds
empty or full, and how each step on the base keeps the three apart. -/

namespace Mille.Journal

namespace Recycle

variable {recycle : Recycle} {bucket : Bucket}

theorem removeDir_hollow (hollow : recycle bucket = some none) :
    recycle.removeDir bucket = Function.update recycle bucket none := by
  rw [removeDir, if_pos hollow]

theorem removeDirAll_removable {payload : Payload} (full : recycle bucket = some (some payload))
    (removable : payload.removable = true) :
    recycle.removeDirAll bucket = Function.update recycle bucket (some none) := by
  unfold removeDirAll
  rw [full]
  simp only [removable, if_true]

theorem cleanupEvicted_removable {entry : JournalEntry} {payload : Payload}
    (named : entry.kind.bucket = some bucket) (full : recycle bucket = some (some payload))
    (removable : payload.removable = true) :
    recycle.cleanupEvicted entry = Function.update recycle bucket none := by
  unfold cleanupEvicted
  rw [named]
  simp only [removeDirAll_removable full removable]
  rw [removeDir_hollow (by simp)]
  simp

theorem cleanupEvicted_unnamed {entry : JournalEntry} (unnamed : entry.kind.bucket = none) :
    recycle.cleanupEvicted entry = recycle := by
  unfold cleanupEvicted
  rw [unnamed]

theorem Holds.ne_hollow (holds : recycle.Holds bucket) : recycle bucket ≠ some none := by
  obtain ⟨payload, full⟩ := holds
  simp [full]

theorem Holds.ne_none (holds : recycle.Holds bucket) : recycle bucket ≠ none := by
  obtain ⟨payload, full⟩ := holds
  simp [full]

theorem holds_update_of_ne {other : Bucket} (value : Option (Option Payload)) (ne : other ≠ bucket) :
    Holds (Function.update recycle bucket value) other ↔ recycle.Holds other := by
  simp only [Holds, Function.update_of_ne ne]

theorem holds_update_full (payload : Payload) :
    Holds (Function.update recycle bucket (some (some payload))) bucket :=
  ⟨payload, by simp⟩

theorem not_holds_update_hollow : ¬Holds (Function.update recycle bucket (some none)) bucket := by
  rintro ⟨payload, full⟩
  simp at full

theorem not_holds_update_none : ¬Holds (Function.update recycle bucket none) bucket := by
  rintro ⟨payload, full⟩
  simp at full

end Recycle

/-- The bucket a call has to itself, and whether its payload is in it. -/
abbrev Hold := Option (Bool × Bucket)

/-- Buckets named by live entries are full, buckets held by calls are as the call left
them, abandoned ones are empty, no bucket is in two of these places, and there is no
other bucket. -/
structure Shelved (recycle : Recycle) (shelf : List Bucket) (hold : Nat → Hold)
    (abandoned : List Bucket) : Prop where
  apart : shelf.Nodup
  shelved : ∀ bucket ∈ shelf, recycle.Holds bucket
  full : ∀ call bucket, hold call = some (true, bucket) → recycle.Holds bucket ∧ bucket ∉ shelf
  hollow : ∀ call bucket, hold call = some (false, bucket) →
    recycle bucket = some none ∧ bucket ∉ abandoned
  alone : ∀ call other filled filled' bucket, hold call = some (filled, bucket) →
    hold other = some (filled', bucket) → call = other
  owned : ∀ bucket, recycle.Holds bucket → bucket ∈ shelf ∨ ∃ call, hold call = some (true, bucket)
  empty : ∀ bucket, recycle bucket = some none →
    bucket ∈ abandoned ∨ ∃ call, hold call = some (false, bucket)
  left : ∀ bucket ∈ abandoned, recycle bucket = some none

namespace Shelved

variable {recycle : Recycle} {shelf : List Bucket} {hold : Nat → Hold} {abandoned : List Bucket}

theorem initial : Shelved (fun _ => none) [] (fun _ => none) [] where
  apart := List.nodup_nil
  shelved := by simp
  full := by simp
  hollow := by simp
  alone := by simp
  owned := by simp [Recycle.Holds]
  empty := by simp
  left := by simp

theorem call_eq (shelved : Shelved recycle shelf hold abandoned) {call other : Nat} {bucket : Bucket}
    {filled filled' : Bool} (mine : hold call = some (filled, bucket))
    (theirs : hold other = some (filled', bucket)) : other = call :=
  (shelved.alone call other filled filled' bucket mine theirs).symm

theorem held (shelved : Shelved recycle shelf hold abandoned) {call : Nat} {bucket : Bucket}
    {filled : Bool} (mine : hold call = some (filled, bucket)) : recycle bucket ≠ none := by
  cases filled with
  | true => exact (shelved.full call bucket mine).1.ne_none
  | false => simp [(shelved.hollow call bucket mine).1]

theorem hollow_unshelved (shelved : Shelved recycle shelf hold abandoned) {call : Nat}
    {bucket : Bucket} (mine : hold call = some (false, bucket)) : bucket ∉ shelf := fun member =>
  (shelved.shelved bucket member).ne_hollow (shelved.hollow call bucket mine).1

/-- The places a bucket can be in: what is on disk, what the acting call holds, and
whether the journal names it or a failed delete left it. -/
inductive Place (bucket : Bucket) : Option (Option Payload) → Hold → Prop → Prop → Prop where
  | absent {named abandoned : Prop} : ¬named → ¬abandoned → Place bucket none none named abandoned
  | hollow {named abandoned : Prop} : ¬named → ¬abandoned →
      Place bucket (some none) (some (false, bucket)) named abandoned
  | abandoned {named abandoned : Prop} : ¬named → abandoned →
      Place bucket (some none) none named abandoned
  | filled {named abandoned : Prop} (payload : Payload) : ¬named → ¬abandoned →
      Place bucket (some (some payload)) (some (true, bucket)) named abandoned
  | shelved {named abandoned : Prop} (payload : Payload) : named → ¬abandoned →
      Place bucket (some (some payload)) none named abandoned

/-- A step that moves one bucket to another place, by a call that held no other bucket. -/
theorem moved (shelved : Shelved recycle shelf hold abandoned) {call : Nat} {bucket : Bucket}
    {now : Option (Option Payload)} {mine : Hold} {shelf' abandoned' : List Bucket}
    (place : Place bucket now mine (bucket ∈ shelf') (bucket ∈ abandoned'))
    (apart : shelf'.Nodup) (sameShelf : ∀ other, other ≠ bucket → (other ∈ shelf' ↔ other ∈ shelf))
    (sameLeft : ∀ other, other ≠ bucket → (other ∈ abandoned' ↔ other ∈ abandoned))
    (free : ∀ filled other, hold call = some (filled, other) → other = bucket)
    (only : ∀ other filled, hold other = some (filled, bucket) → other = call) :
    Shelved (Function.update recycle bucket now) shelf' (Function.update hold call mine) abandoned' := by
  -- another bucket is held after the step by whoever held it before
  have others : ∀ {who filled other}, other ≠ bucket →
      (Function.update hold call mine who = some (filled, other) ↔ hold who = some (filled, other)) := by
    intro who filled other ne
    by_cases same : who = call
    · subst same
      rw [Function.update_self]
      constructor
      · intro held
        subst held
        cases place <;> exact absurd rfl ne
      · intro held
        exact absurd (free filled other held) ne
    · rw [Function.update_of_ne same]
  have here : ∀ {who filled}, Function.update hold call mine who = some (filled, bucket) →
      who = call ∧ mine = some (filled, bucket) := by
    intro who filled held
    by_cases same : who = call
    · subst same
      rw [Function.update_self] at held
      exact ⟨rfl, held⟩
    · rw [Function.update_of_ne same] at held
      exact absurd (only who filled held) same
  refine ⟨apart, ?_, ?_, ?_, ?_, ?_, ?_, ?_⟩
  · intro other member
    by_cases same : other = bucket
    · subst same
      cases place with
      | shelved payload _ _ => exact Recycle.holds_update_full payload
      | _ => exact absurd member (by assumption)
    · rw [Recycle.holds_update_of_ne _ same]
      exact shelved.shelved other ((sameShelf other same).mp member)
  · intro who other held
    by_cases same : other = bucket
    · subst same
      obtain ⟨rfl, rfl⟩ := here held
      cases place with
      | filled payload unnamed _ => exact ⟨Recycle.holds_update_full payload, unnamed⟩
    · rw [Recycle.holds_update_of_ne _ same, sameShelf other same]
      exact shelved.full who other ((others same).mp held)
  · intro who other held
    by_cases same : other = bucket
    · subst same
      obtain ⟨rfl, rfl⟩ := here held
      cases place with
      | hollow _ kept => exact ⟨by simp, kept⟩
    · rw [Function.update_of_ne same, sameLeft other same]
      exact shelved.hollow who other ((others same).mp held)
  · intro who whom filled filled' other held held'
    by_cases same : other = bucket
    · subst same
      exact (here held).1.trans (here held').1.symm
    · exact shelved.alone who whom filled filled' other ((others same).mp held) ((others same).mp held')
  · intro other holds
    by_cases same : other = bucket
    · subst same
      cases place with
      | filled payload _ _ => exact .inr ⟨call, by simp⟩
      | shelved payload named _ => exact .inl named
      | absent _ _ => exact absurd holds Recycle.not_holds_update_none
      | hollow _ _ => exact absurd holds Recycle.not_holds_update_hollow
      | abandoned _ _ => exact absurd holds Recycle.not_holds_update_hollow
    · rw [Recycle.holds_update_of_ne _ same] at holds
      rw [sameShelf other same]
      exact (shelved.owned other holds).imp_right fun ⟨who, held⟩ => ⟨who, (others same).mpr held⟩
  · intro other empty
    by_cases same : other = bucket
    · subst same
      rw [Function.update_self] at empty
      cases place with
      | hollow _ _ => exact .inr ⟨call, by simp⟩
      | abandoned _ left => exact .inl left
      | _ => simp at empty
    · rw [Function.update_of_ne same] at empty
      rw [sameLeft other same]
      exact (shelved.empty other empty).imp_right fun ⟨who, held⟩ => ⟨who, (others same).mpr held⟩
  · intro other member
    by_cases same : other = bucket
    · subst same
      cases place with
      | abandoned _ _ => simp
      | _ => exact absurd member (by assumption)
    · rw [Function.update_of_ne same]
      exact shelved.left other ((sameLeft other same).mp member)

variable {call : Nat} {bucket : Bucket}

theorem mine_only (mine : hold call = some (filled, bucket)) :
    ∀ filled other, hold call = some (filled, other) → other = bucket := by
  intro filled other held
  rw [mine] at held
  cases held
  rfl

theorem make (shelved : Shelved recycle shelf hold abandoned) (idle : hold call = none)
    (gone : recycle bucket = none) :
    Shelved (Function.update recycle bucket (some none)) shelf
      (Function.update hold call (some (false, bucket))) abandoned := by
  have unnamed : bucket ∉ shelf := fun member => (shelved.shelved bucket member).ne_none gone
  have kept : bucket ∉ abandoned := fun member => by simp [shelved.left bucket member] at gone
  refine shelved.moved (.hollow unnamed kept) shelved.apart (by simp) (by simp) (by simp [idle]) ?_
  intro other filled held
  exact absurd gone (shelved.held held)

theorem fill (shelved : Shelved recycle shelf hold abandoned) (payload : Payload)
    (mine : hold call = some (false, bucket)) :
    Shelved (Function.update recycle bucket (some (some payload))) shelf
      (Function.update hold call (some (true, bucket))) abandoned :=
  shelved.moved (.filled payload (shelved.hollow_unshelved mine) (shelved.hollow call bucket mine).2)
    shelved.apart (by simp) (by simp) (mine_only mine) fun _ _ held => shelved.call_eq mine held

theorem clear (shelved : Shelved recycle shelf hold abandoned) (mine : hold call = some (false, bucket)) :
    Shelved (recycle.removeDir bucket) shelf (Function.update hold call none) abandoned := by
  rw [Recycle.removeDir_hollow (shelved.hollow call bucket mine).1]
  exact shelved.moved (.absent (shelved.hollow_unshelved mine) (shelved.hollow call bucket mine).2)
    shelved.apart (by simp) (by simp) (mine_only mine) fun _ _ held => shelved.call_eq mine held

theorem update_same (here : recycle bucket = now) : Function.update recycle bucket now = recycle := by
  rw [← here, Function.update_eq_self]

theorem abandon (shelved : Shelved recycle shelf hold abandoned)
    (mine : hold call = some (false, bucket)) :
    Shelved recycle shelf (Function.update hold call none) (abandoned ++ [bucket]) := by
  rw [← update_same (shelved.hollow call bucket mine).1]
  refine shelved.moved (.abandoned (shelved.hollow_unshelved mine) (by simp)) shelved.apart (by simp) ?_
    (mine_only mine) fun _ _ held => shelved.call_eq mine held
  intro other ne
  simp [ne]

theorem stock (shelved : Shelved recycle shelf hold abandoned) (mine : hold call = some (true, bucket)) :
    Shelved recycle (shelf ++ [bucket]) (Function.update hold call none) abandoned := by
  obtain ⟨⟨payload, full⟩, unnamed⟩ := shelved.full call bucket mine
  have kept : bucket ∉ abandoned := fun member => by simp [shelved.left bucket member] at full
  rw [← update_same full]
  refine shelved.moved (.shelved payload (by simp) kept) ?_ ?_ (by simp)
    (mine_only mine) fun _ _ held => shelved.call_eq mine held
  · rw [← List.concat_eq_append]
    exact List.Nodup.concat unnamed shelved.apart
  · intro other ne
    simp [ne]

theorem named_free (shelved : Shelved recycle shelf hold abandoned) (member : bucket ∈ shelf)
    (filled : Bool) (other : Nat) : hold other ≠ some (filled, bucket) := by
  intro held
  cases filled with
  | true => exact (shelved.full other bucket held).2 member
  | false => exact shelved.hollow_unshelved held member

theorem take (shelved : Shelved recycle (shelf ++ [bucket]) hold abandoned) (idle : hold call = none) :
    Shelved (Function.update recycle bucket (some none)) shelf
      (Function.update hold call (some (false, bucket))) abandoned := by
  have member : bucket ∈ shelf ++ [bucket] := by simp
  have unnamed : bucket ∉ shelf := by
    intro inside
    exact (List.disjoint_of_nodup_append shelved.apart) inside (by simp)
  have kept : bucket ∉ abandoned := fun inside =>
    (shelved.shelved bucket member).ne_hollow (shelved.left bucket inside)
  refine shelved.moved (.hollow unnamed kept) shelved.apart.of_append_left ?_ (by simp) (by simp [idle]) ?_
  · intro other ne
    simp [ne]
  · intro other filled held
    exact absurd held (shelved.named_free member filled other)

theorem evict (shelved : Shelved recycle (bucket :: shelf) hold abandoned) (idle : hold call = none) :
    Shelved (Function.update recycle bucket none) shelf hold abandoned := by
  have member : bucket ∈ bucket :: shelf := by simp
  have kept : bucket ∉ abandoned := fun inside =>
    (shelved.shelved bucket member).ne_hollow (shelved.left bucket inside)
  have unnamed : bucket ∉ shelf := (List.nodup_cons.mp shelved.apart).1
  have same : Function.update hold call none = hold := by
    rw [← idle, Function.update_eq_self]
  rw [← same]
  refine shelved.moved (.absent unnamed kept) (List.nodup_cons.mp shelved.apart).2 ?_ (by simp)
    (by simp [idle]) ?_
  · intro other ne
    simp [ne]
  · intro other filled held
    exact absurd held (shelved.named_free member filled other)

end Shelved

namespace Explorer

/-- The buckets the entries name, in order. -/
def named (entries : List JournalEntry) : List Bucket := entries.filterMap (·.kind.bucket)

theorem mem_named {entries : List JournalEntry} {bucket : Bucket} :
    bucket ∈ named entries ↔ ∃ entry ∈ entries, entry.kind.bucket = some bucket := by
  simp [named]

theorem evict_stack (capacity : Nat) (entries : List JournalEntry) (recycle : Recycle) :
    (evict capacity entries recycle).1 = entries.drop (entries.length - capacity) := by
  induction entries generalizing recycle with
  | nil => simp [evict]
  | cons entry rest ih =>
    unfold evict
    split
    · next more =>
      rw [ih, List.length_cons, Nat.sub_add_comm (by omega), List.drop_succ_cons]
    · next fits =>
      rw [List.length_cons, Nat.sub_eq_zero_of_le (by omega), List.drop_zero]

/-- The whole loop: what is evicted leaves the shelf with its bucket. -/
theorem evict_shelved {hold : Nat → Hold} {abandoned : List Bucket} {call : Nat}
    (idle : hold call = none) (capacity : Nat) (entries : List JournalEntry) (recycle : Recycle)
    (shelved : Shelved recycle (named entries) hold abandoned)
    (clears : ∀ evicted ∈ entries.take (entries.length - capacity), ∀ bucket,
      evicted.kind.bucket = some bucket → ∀ payload, recycle bucket = some (some payload) →
        payload.removable = true) :
    Shelved (evict capacity entries recycle).2 (named (evict capacity entries recycle).1) hold
      abandoned := by
  induction entries generalizing recycle with
  | nil => exact shelved
  | cons entry rest ih =>
    unfold evict
    split
    · next more =>
      rw [List.length_cons, Nat.sub_add_comm (by omega), List.take_succ_cons] at clears
      cases whose : entry.kind.bucket with
      | none =>
        rw [Recycle.cleanupEvicted_unnamed whose]
        have same : named (entry :: rest) = named rest := by simp [named, whose]
        refine ih recycle (same ▸ shelved) ?_
        intro evicted member
        exact clears evicted (List.mem_cons_of_mem _ member)
      | some bucket =>
        have split : named (entry :: rest) = bucket :: named rest := by simp [named, whose]
        rw [split] at shelved
        obtain ⟨payload, full⟩ := shelved.shelved bucket (by simp)
        rw [Recycle.cleanupEvicted_removable whose full (clears entry (by simp) bucket whose payload full)]
        refine ih _ (shelved.evict idle) ?_
        intro evicted member other names payload' full'
        have ne : other ≠ bucket := by
          intro same
          subst same
          simp at full'
        rw [Function.update_of_ne ne] at full'
        exact clears evicted (List.mem_cons_of_mem _ member) other names payload' full'
    · exact shelved

end Explorer

end Mille.Journal
