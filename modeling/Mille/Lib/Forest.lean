import Mathlib

/-! Forests that are stored twice: every node names its parent, and every node
lists its children. `parent node` is `none` for an unknown node and
`some none` for a root. -/

namespace Mille.Forest

/-- A finite chain of parent links that ends in a root. -/
inductive Rooted {α : Type} (parent : α → Option (Option α)) : α → Prop where
  | root (link : parent node = some none) : Rooted parent node
  | child (link : parent node = some (some above)) (rest : Rooted parent above) :
      Rooted parent node

/-- `node` is `top` or one of its descendants. -/
inductive Below {α : Type} (parent : α → Option (Option α)) (top : α) : α → Prop where
  | self : Below parent top top
  | child (link : parent node = some (some above)) (rest : Below parent top above) :
      Below parent top node

variable {α : Type} {parent parent' : α → Option (Option α)}
variable {children children' : α → List α} {roots roots' : List α}
variable {node above top low : α}

theorem Rooted.live (rooted : Rooted parent node) : (parent node).isSome = true := by
  cases rooted <;> simp [*]

theorem Rooted.up (rooted : Rooted parent node) (link : parent node = some (some above)) :
    Rooted parent above := by
  cases rooted with
  | root other => simp [link] at other
  | child other rest =>
    have same := Option.some.inj (Option.some.inj (other.symm.trans link))
    exact same ▸ rest

theorem Below.trans {mid : α} (upper : Below parent top mid) (lower : Below parent mid low) :
    Below parent top low := by
  induction lower with
  | self => exact upper
  | child link _ ih => exact .child link ih

theorem Below.mono (path : Below parent' top low)
    (links : ∀ node above, parent' node = some (some above) → parent node = some (some above)) :
    Below parent top low := by
  induction path with
  | self => exact .self
  | child link _ ih => exact .child (links _ _ link) ih

theorem Below.root_eq (path : Below parent top low) (root : parent low = some none) : top = low := by
  cases path with
  | self => rfl
  | child link _ => simp [root] at link

theorem Below.of_link (link : parent node = some (some above)) : Below parent above node :=
  .child link .self

theorem Below.first_step (path : Below parent top low) (strict : low ≠ top) :
    ∃ next, parent next = some (some top) ∧ Below parent next low := by
  induction path with
  | self => exact absurd rfl strict
  | @child node above link rest ih =>
    by_cases same : above = top
    · exact ⟨node, same ▸ link, .self⟩
    · obtain ⟨next, first, descent⟩ := ih same
      exact ⟨next, first, .child link descent⟩

theorem Below.last_step (path : Below parent top low) (strict : low ≠ top)
    (link : parent low = some (some above)) : Below parent top above := by
  cases path with
  | self => exact absurd rfl strict
  | child other rest =>
    have same := Option.some.inj (Option.some.inj (other.symm.trans link))
    exact same ▸ rest

theorem Below.live (path : Below parent top low) (live : (parent top).isSome = true) :
    (parent low).isSome = true := by
  cases path with
  | self => exact live
  | child link _ => simp [link]

theorem Below.linear {left right : α} (first : Below parent left low)
    (second : Below parent right low) : Below parent left right ∨ Below parent right left := by
  induction first with
  | self => exact .inr second
  | @child node above link rest ih =>
    by_cases same : node = right
    · exact .inl (same ▸ .child link rest)
    · exact ih (second.last_step same link)

theorem Rooted.no_cycle (rooted : Rooted parent node) (link : parent node = some (some above)) :
    ¬ Below parent node above := by
  induction rooted generalizing above with
  | root other => simp [link] at other
  | @child node mid other rest ih =>
    have same := Option.some.inj (Option.some.inj (other.symm.trans link))
    subst same
    intro path
    cases path with
    | self => exact ih other .self
    | child next descent => exact ih next ((Below.of_link other).trans descent)

/-- Parent links, child lists and the root list describe one forest. -/
structure Linked (parent : α → Option (Option α)) (children : α → List α) (roots : List α) :
    Prop where
  root_iff : ∀ node, node ∈ roots ↔ parent node = some none
  child_iff : ∀ node above, node ∈ children above ↔ parent node = some (some above)
  roots_nodup : roots.Nodup
  children_nodup : ∀ above, (children above).Nodup
  rooted : ∀ node, (parent node).isSome = true → Rooted parent node

namespace Linked

theorem empty : Linked (fun _ : α => none) (fun _ => []) [] where
  root_iff := by simp
  child_iff := by simp
  roots_nodup := List.nodup_nil
  children_nodup := fun _ => List.nodup_nil
  rooted := by simp

theorem parent_live (linked : Linked parent children roots)
    (link : parent node = some (some above)) : (parent above).isSome = true :=
  ((linked.rooted node (by simp [link])).up link).live

theorem card_below_lt [DecidablePred (Below parent low)] [DecidablePred (Below parent top)]
    (linked : Linked parent children roots) (known : Finset α) (covers : ∀ node, (parent node).isSome = true → node ∈ known)
    {head : α} (link : parent head = some (some top)) (below : Below parent head low) :
    (known.filter (Below parent low)).card < (known.filter (Below parent top)).card := by
  apply Finset.card_lt_card
  rw [Finset.ssubset_iff_of_subset]
  · refine ⟨top, Finset.mem_filter.mpr ⟨covers top (linked.parent_live link), .self⟩, fun inside => ?_⟩
    have rooted := linked.rooted head (by simp [link])
    exact rooted.no_cycle link (below.trans (Finset.mem_filter.mp inside).2)
  · intro deep inside
    rw [Finset.mem_filter] at inside ⊢
    exact ⟨inside.1, ((Below.of_link link).trans below).trans inside.2⟩

theorem permute (linked : Linked parent children roots)
    (lists : ∀ above, (children' above).Perm (children above)) (order : roots'.Perm roots) :
    Linked parent children' roots' where
  root_iff node := order.mem_iff.trans (linked.root_iff node)
  child_iff node above := (lists above).mem_iff.trans (linked.child_iff node above)
  roots_nodup := order.nodup_iff.mpr linked.roots_nodup
  children_nodup above := (lists above).nodup_iff.mpr (linked.children_nodup above)
  rooted := linked.rooted

/-- Dropping a set of nodes that is closed under children leaves a forest. -/
theorem prune (linked : Linked parent children roots) (gone : α → Prop) [DecidablePred gone]
    (closed : ∀ node above, parent node = some (some above) → gone above → gone node)
    (dropped : ∀ node, gone node → parent' node = none)
    (kept : ∀ node, ¬ gone node → parent' node = parent node)
    (empty : ∀ above, gone above → children' above = [])
    (lists : ∀ above, ¬ gone above → (children' above).Perm ((children above).filter (¬ gone ·)))
    (tops : roots'.Perm (roots.filter (¬ gone ·))) : Linked parent' children' roots' := by
  have links (node) (link : Option α) :
      parent' node = some link ↔ ¬ gone node ∧ parent node = some link := by
    by_cases out : gone node
    · simp [out, dropped node out]
    · simp [out, kept node out]
  refine ⟨?_, ?_, ?_, ?_, ?_⟩
  · intro node
    simp [tops.mem_iff, linked.root_iff, links, and_comm]
  · intro node above
    by_cases out : gone above
    · simp only [empty above out, List.not_mem_nil, links, false_iff, not_and]
      intro inside link
      exact inside (closed node above link out)
    · simp [(lists above out).mem_iff, linked.child_iff, links, and_comm]
  · exact tops.nodup_iff.mpr (linked.roots_nodup.filter _)
  · intro above
    by_cases out : gone above
    · simp [empty above out]
    · exact (lists above out).nodup_iff.mpr ((linked.children_nodup above).filter _)
  · intro node live
    obtain ⟨link, now⟩ := Option.isSome_iff_exists.mp live
    obtain ⟨inside, known⟩ := (links node link).mp now
    have chain (node) (rooted : Rooted parent node) : ¬ gone node → Rooted parent' node := by
      induction rooted with
      | root link => exact fun inside => .root ((links _ _).mpr ⟨inside, link⟩)
      | @child node above link _ ih =>
        intro inside
        exact .child ((links _ _).mpr ⟨inside, link⟩) (ih (fun out => inside (closed _ _ link out)))
    exact chain node (linked.rooted node (by simp [known])) inside

variable [DecidableEq α]

/-- Nodes of `additions` that hang below `above`; `none` selects the new roots. -/
def graftsAt (additions : List (α × Option α)) (above : Option α) : List α :=
  (additions.filter (fun addition => addition.2 = above)).map Prod.fst

theorem mem_graftsAt {additions : List (α × Option α)} {link : Option α} :
    node ∈ graftsAt additions link ↔ (node, link) ∈ additions := by
  simp [graftsAt]

theorem graftsAt_nodup {additions : List (α × Option α)} {link : Option α}
    (fresh : (additions.map Prod.fst).Nodup) : (graftsAt additions link).Nodup :=
  fresh.sublist (List.filter_sublist.map _)

/-- New leaves below known nodes, or as new roots, extend the forest. -/
theorem graft (linked : Linked parent children roots) (additions : List (α × Option α))
    (distinct : (additions.map Prod.fst).Nodup)
    (fresh : ∀ addition ∈ additions, parent addition.1 = none)
    (hung : ∀ addition ∈ additions, ∀ above, addition.2 = some above → (parent above).isSome = true)
    (added : ∀ addition ∈ additions, parent' addition.1 = some addition.2)
    (kept : ∀ node, node ∉ additions.map Prod.fst → parent' node = parent node)
    (lists : ∀ above, (children' above).Perm (graftsAt additions (some above) ++ children above))
    (tops : roots'.Perm (graftsAt additions none ++ roots)) :
    Linked parent' children' roots' := by
  have old (node) (live : (parent node).isSome = true) : parent' node = parent node := by
    apply kept
    intro member
    obtain ⟨addition, present, same⟩ := List.mem_map.mp member
    have unknown := fresh addition present
    simp [same] at unknown
    simp [unknown] at live
  have links (node) (link : Option α) :
      (node, link) ∈ additions ∨ parent node = some link ↔ parent' node = some link := by
    constructor
    · rintro (member | known)
      · exact added _ member
      · rw [old node (by simp [known])]
        exact known
    · intro now
      by_cases member : node ∈ additions.map Prod.fst
      · obtain ⟨addition, present, same⟩ := List.mem_map.mp member
        have linked := added addition present
        rw [same, now] at linked
        left
        rw [← same, Option.some.inj linked]
        exact present
      · exact .inr (kept node member ▸ now)
  have chain (node) (rooted : Rooted parent node) : Rooted parent' node := by
    induction rooted with
    | root link => exact .root ((links _ _).mp (.inr link))
    | child link _ ih => exact .child ((links _ _).mp (.inr link)) ih
  have apart (node) (link : Option α) (member : node ∈ graftsAt additions link) :
      parent node = none :=
    fresh _ (mem_graftsAt.mp member)
  refine ⟨?_, ?_, ?_, ?_, ?_⟩
  · intro node
    rw [tops.mem_iff, List.mem_append, mem_graftsAt, linked.root_iff, links]
  · intro node above
    rw [(lists above).mem_iff, List.mem_append, mem_graftsAt, linked.child_iff, links]
  · rw [tops.nodup_iff, List.nodup_append']
    refine ⟨graftsAt_nodup distinct, linked.roots_nodup, ?_⟩
    intro node new root
    have known := (linked.root_iff node).mp root
    simp [apart node none new] at known
  · intro above
    rw [(lists above).nodup_iff, List.nodup_append']
    refine ⟨graftsAt_nodup distinct, linked.children_nodup above, ?_⟩
    intro node new listed
    have known := (linked.child_iff node above).mp listed
    simp [apart node _ new] at known
  · intro node live
    obtain ⟨link, now⟩ := Option.isSome_iff_exists.mp live
    rcases (links node link).mpr now with member | known
    · cases link with
      | none => exact .root now
      | some above => exact .child now (chain above (linked.rooted above (hung _ member above rfl)))
    · exact chain node (linked.rooted node (by simp [known]))

/-- Hanging a node below another that is not under it keeps the forest. -/
theorem regraft (linked : Linked parent children roots) {old : α}
    (link : parent node = some (some old)) (live : (parent above).isSome = true)
    (outside : ¬ Below parent node above)
    (moved : parent' node = some (some above))
    (kept : ∀ other, other ≠ node → parent' other = parent other)
    (target : (children' above).Perm (node :: (children above).erase node))
    (lists : ∀ other, other ≠ above → (children' other).Perm ((children other).erase node))
    (tops : roots'.Perm roots) : Linked parent' children' roots' := by
  refine ⟨?_, ?_, ?_, ?_, ?_⟩
  · intro other
    rw [tops.mem_iff, linked.root_iff]
    by_cases same : other = node
    · subst same
      simp [link, moved]
    · rw [kept other same]
  · intro other host
    have erased : other ∈ (children host).erase node ↔
        other ≠ node ∧ parent other = some (some host) := by
      rw [(linked.children_nodup host).mem_erase_iff, linked.child_iff]
    by_cases same : other = node
    · subst same
      by_cases here : host = above
      · subst here
        simp [target.mem_iff, moved]
      · simp [(lists host here).mem_iff, erased, moved, Ne.symm here]
    · rw [kept other same]
      by_cases here : host = above
      · subst here
        simp [target.mem_iff, erased, same]
      · simp [(lists host here).mem_iff, erased, same]
  · exact tops.nodup_iff.mpr linked.roots_nodup
  · intro host
    have nodup := (linked.children_nodup host).erase node
    by_cases here : host = above
    · subst here
      rw [target.nodup_iff, List.nodup_cons]
      exact ⟨(linked.children_nodup host).not_mem_erase, nodup⟩
    · exact (lists host here).nodup_iff.mpr nodup
  · -- The chain above the new parent never meets the moved node.
    have spared (other) (rooted : Rooted parent other) :
        ¬ Below parent node other → Rooted parent' other := by
      induction rooted with
      | @root other link =>
        intro apart
        exact .root ((kept other (fun same => apart (same ▸ .self))).trans link)
      | @child other host link _ ih =>
        intro apart
        exact .child ((kept other (fun same => apart (same ▸ .self))).trans link)
          (ih (fun path => apart (.child link path)))
    have anchored : Rooted parent' node := .child moved (spared above (linked.rooted above live) outside)
    intro other now
    by_cases same : other = node
    · exact same ▸ anchored
    · rw [kept other same] at now
      have rooted := linked.rooted other now
      clear now same
      induction rooted with
      | @root other link =>
        by_cases same : other = node
        · exact same ▸ anchored
        · exact .root ((kept other same).trans link)
      | @child other host link _ ih =>
        by_cases same : other = node
        · exact same ▸ anchored
        · exact .child ((kept other same).trans link) ih

end Linked

/-- Depth-first traversal with an explicit stack, the top at the head. Popping
a node pushes its children in list order, so the last child comes next. -/
def collect (children : α → List α) : Nat → List α → List α
  | 0, _ => []
  | _ + 1, [] => []
  | fuel + 1, node :: rest => node :: collect children fuel ((children node).reverse ++ rest)

theorem collect_origin {fuel : Nat} {stack : List α} (member : low ∈ collect children fuel stack) :
    low ∈ stack ∨ ∃ above ∈ collect children fuel stack, low ∈ children above := by
  induction fuel generalizing stack with
  | zero => simp [collect] at member
  | succ fuel ih =>
    cases stack with
    | nil => simp [collect] at member
    | cons node rest =>
      rcases List.mem_cons.mp member with same | later
      · exact .inl (by simp [same])
      · rcases ih later with waiting | ⟨above, visited, listed⟩
        · rcases List.mem_append.mp waiting with child | other
          · exact .inr ⟨node, by simp [collect], List.mem_reverse.mp child⟩
          · exact .inl (List.mem_cons_of_mem _ other)
        · exact .inr ⟨above, List.mem_cons_of_mem _ visited, listed⟩

/-- No stack entry is an ancestor of another. -/
def Antichain (parent : α → Option (Option α)) (stack : List α) : Prop :=
  stack.Pairwise (fun first second => ¬ Below parent first second ∧ ¬ Below parent second first)

theorem Antichain.singleton (node : α) : Antichain parent [node] :=
  List.pairwise_singleton _ _

theorem Linked.children_antichain (linked : Linked parent children roots) (node : α) :
    Antichain parent (children node) := by
  refine (linked.children_nodup node).imp_of_mem ?_
  intro first second left right distinct
  have leftLink := (linked.child_iff first node).mp left
  have rightLink := (linked.child_iff second node).mp right
  constructor
  · intro path
    exact (linked.rooted first (by simp [leftLink])).no_cycle leftLink
      (path.last_step (Ne.symm distinct) rightLink)
  · intro path
    exact (linked.rooted second (by simp [rightLink])).no_cycle rightLink
      (path.last_step distinct leftLink)

theorem Antichain.pop (linked : Linked parent children roots) {stack : List α}
    (chain : Antichain parent (node :: stack)) :
    Antichain parent ((children node).reverse ++ stack) := by
  obtain ⟨head, tail⟩ := List.pairwise_cons.mp chain
  refine List.pairwise_append.mpr ⟨?_, tail, ?_⟩
  · exact List.pairwise_reverse.mpr
      ((linked.children_antichain node).imp (fun apart => ⟨apart.2, apart.1⟩))
  · intro child member other present
    have link := (linked.child_iff child node).mp (List.mem_reverse.mp member)
    obtain ⟨down, up⟩ := head other present
    constructor
    · exact fun path => down ((Below.of_link link).trans path)
    · intro path
      by_cases same : child = other
      · exact down (same ▸ .of_link link)
      · exact up (path.last_step same link)

theorem Antichain.covers (linked : Linked parent children roots) {stack : List α}
    (chain : Antichain parent (node :: stack)) (live : (parent node).isSome = true) (low : α) :
    (∃ top ∈ (children node).reverse ++ stack, Below parent top low) ↔
      low ≠ node ∧ ∃ top ∈ node :: stack, Below parent top low := by
  obtain ⟨head, _⟩ := List.pairwise_cons.mp chain
  constructor
  · rintro ⟨top, present, path⟩
    rcases List.mem_append.mp present with child | other
    · have link := (linked.child_iff top node).mp (List.mem_reverse.mp child)
      refine ⟨?_, node, by simp, (Below.of_link link).trans path⟩
      rintro rfl
      exact (linked.rooted top (by simp [link])).no_cycle link path
    · refine ⟨?_, top, by simp [other], path⟩
      rintro rfl
      exact (head top other).2 path
  · rintro ⟨strict, top, present, path⟩
    rcases List.mem_cons.mp present with same | other
    · subst same
      obtain ⟨next, link, descent⟩ := path.first_step strict
      exact ⟨next, by simp [(linked.child_iff next top).mpr link], descent⟩
    · exact ⟨top, by simp [other], path⟩

/-- With one unit of fuel for every covered node, the traversal of an antichain
yields each covered node exactly once. -/
theorem collect_complete [DecidableEq α] (linked : Linked parent children roots) {fuel : Nat}
    {stack : List α} (known : Finset α)
    (covered : ∀ low, (∃ top ∈ stack, Below parent top low) → low ∈ known)
    (chain : Antichain parent stack) (live : ∀ top ∈ stack, (parent top).isSome = true)
    (enough : known.card ≤ fuel) :
    (collect children fuel stack).Nodup ∧
      ∀ low, low ∈ collect children fuel stack ↔ ∃ top ∈ stack, Below parent top low := by
  -- `known` shrinks to the nodes still covered, one per pop.
  induction fuel generalizing stack known with
  | zero =>
    have none : known = ∅ := Finset.card_eq_zero.mp (by omega)
    refine ⟨List.nodup_nil, fun low => ⟨by simp [collect], fun path => ?_⟩⟩
    have member := covered low path
    simp [none] at member
  | succ fuel ih =>
    cases stack with
    | nil => exact ⟨List.nodup_nil, by simp [collect]⟩
    | cons node rest =>
      have nodeLive := live node (by simp)
      have uncovers := chain.covers linked nodeLive
      have member : node ∈ known := covered node ⟨node, by simp, .self⟩
      obtain ⟨nodup, mem_iff⟩ := ih (known.erase node)
        (fun low path => Finset.mem_erase.mpr
          ⟨((uncovers low).mp path).1, covered low ((uncovers low).mp path).2⟩)
        (chain.pop linked)
        (by
          intro top present
          rcases List.mem_append.mp present with child | other
          · simp [(linked.child_iff top node).mp (List.mem_reverse.mp child)]
          · exact live top (by simp [other]))
        (by rw [Finset.card_erase_of_mem member]; omega)
      constructor
      · exact List.nodup_cons.mpr
          ⟨fun again => ((uncovers node).mp ((mem_iff node).mp again)).1 rfl, nodup⟩
      · intro low
        rw [collect, List.mem_cons, mem_iff, uncovers]
        by_cases same : low = node
        · subst same
          simpa using Or.inl Below.self
        · simp [same]

end Mille.Forest
