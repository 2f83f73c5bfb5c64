import Mille.Binding.TransferSpecs

/-! A merge leaves the overlay of two trees, whether it copies or moves. -/

namespace Mille.Transfer

open FileTree View

variable {ν κ : Type} [DecidableEq ν] {platform : Platform ν κ}

/-- Only regular files and directories. -/
def Plain (view : View ν κ) : Prop :=
  ∀ path node, view path = some node → node = .directory ∨ ∃ content, node = .file content

omit [DecidableEq ν] in
theorem Plain.under {view : View ν κ} (plain : Plain view) (base : List ν) : Plain (view.under base) :=
  fun path node found => plain (base ++ path) node found

/-- The tree a step leaves, with the entries it counted. -/
structure Leaves (world : World ν κ) (op : Op ν κ Unit) (view : View ν κ) (count : Nat)
    (after : World ν κ) : Prop where
  runs : op world = .ok () after
  look : after.disk.look = view
  bumped : Bumped world after count
  visited : after.visited = world.visited

/-- The loop of a copy or a merge over the children: each is laid over its counterpart. -/
theorem forM_overlay {body : ν → Op ν κ Unit} {base top bottom : View ν κ} {dst : List ν}
    {weight : ν → Nat} {names : List ν}
    (step : ∀ name ∈ names, ∀ world done, Calm world → name ∉ done →
      world.disk.look = base.paste dst (blend top bottom done) →
      ∃ after, Leaves world (body name)
        (world.disk.look.paste (dst ++ [name]) (overlay (top.under [name]) (bottom.under [name])))
        (weight name) after)
    (distinct : names.Nodup) (world : World ν κ) (done : List ν) (calm : Calm world)
    (fresh : ∀ name ∈ names, name ∉ done)
    (look : world.disk.look = base.paste dst (blend top bottom done)) :
    ∃ after, Leaves world (names.forM body) (base.paste dst (blend top bottom (done ++ names)))
      (names.map weight).sum after := by
  induction names generalizing world done with
  | nil => exact ⟨world, rfl, by simpa using look, Bumped.refl world, rfl⟩
  | cons name rest ih =>
    obtain ⟨mid, first⟩ := step name (by simp) world done calm (fresh name (by simp)) look
    have mid_look : mid.disk.look = base.paste dst (blend top bottom (done ++ [name])) := by
      rw [first.look, look, paste_child, graft_blend]
    have later : ∀ other ∈ rest, other ∉ done ++ [name] := by
      intro other member inside
      rcases List.mem_append.mp inside with before | last
      · exact fresh other (List.mem_cons_of_mem _ member) before
      · rw [List.mem_singleton.mp last] at member
        exact (List.nodup_cons.mp distinct).1 member
    obtain ⟨after, others⟩ := ih (fun other member => step other (List.mem_cons_of_mem _ member))
      (List.nodup_cons.mp distinct).2 mid (done ++ [name]) (first.bumped.calm calm) later mid_look
    refine ⟨after, ?_, ?_, ?_, ?_⟩
    · show (body name >>= fun _ => rest.forM body) world = _
      rw [bind_ok first.runs]
      exact others.runs
    · rw [others.look, List.append_assoc, List.singleton_append]
    · rw [List.map_cons, List.sum_cons]
      exact first.bumped.trans others.bumped
    · rw [others.visited, first.visited]

theorem bump_leaves (path : List ν) (world : World ν κ) :
    ∃ after, Leaves world (bump path) world.disk.look 1 after :=
  ⟨_, rfl, rfl, bump_bumped path, rfl⟩

section Children

variable {base top bottom now : View ν κ} {src dst : List ν} {done : List ν}

theorem blended_source (name : ν) (look : now = base.paste dst (blend top bottom done)) (apart : Apart src dst) :
    now.under (src ++ [name]) = (base.under src).under [name] := by
  rw [look, under_paste_apart _ _ (by simpa using (apart.append [name] []).symm), under_under]

theorem blended_child {name : ν} (look : now = base.paste dst (blend top bottom done)) (fresh : name ∉ done) :
    now.under (dst ++ [name]) = bottom.under [name] := by
  rw [look, ← under_under, under_paste, blend_under fresh]

theorem blended_root (look : now = base.paste dst (blend top bottom done)) : now dst = bottom [] := by
  have root := paste_at base (blend top bottom done) dst []
  rw [List.append_nil] at root
  rw [look, root]
  rfl

end Children

theorem made_leaves {world mid : World ν κ} {make : Op ν κ Unit} {view : View ν κ} (path : List ν)
    (runs : make world = .ok () mid) (look : mid.disk.look = view)
    (progress : mid.progress = world.progress) (visited : mid.visited = world.visited) :
    ∃ after, Leaves world (make >>= fun _ => bump path) view 1 after := by
  refine ⟨{ mid with progress := mid.progress.map (·.bump path) }, ?_, look, ?_, visited⟩
  · rw [bind_ok runs]
    rfl
  · exact ⟨[path], rfl, by rw [← progress]; rfl⟩

theorem copyTree_leaves (platform : Platform ν κ) (depth : Nat) (stack : List (List ν)) {src dst : List ν}
    {world : World ν κ}
    (calm : Calm world) (there : world.disk.look src ≠ none)
    (shallow : Shallow depth (world.disk.look.under src)) (closed : (world.disk.look.under src).Closed)
    (plain : Plain (world.disk.look.under src)) (apart : Apart src dst)
    (free : world.disk.look.under dst = .empty) (ground : grounded world.disk.look dst = true)
    (above : ∀ key ∈ stack, key.length < src.length) :
    ∃ after, Leaves world (copyTreeOnDisk platform depth src dst stack)
      (world.disk.look.paste dst (world.disk.look.under src)) (weigh world.disk depth src) after := by
  induction depth generalizing src dst stack world with
  | zero => exact absurd (by simpa using shallow [] (Nat.zero_le _)) there
  | succ depth ih =>
    obtain ⟨node, found⟩ := Option.ne_none_iff_exists'.mp there
    have root : world.disk.look.under src [] = some node := by simpa using found
    rcases plain [] node root with rfl | ⟨content, rfl⟩
    · have outside : src ∉ stack := fun member => Nat.lt_irrefl _ (above src member)
      have head : copyTreeOnDisk platform (depth + 1) src dst stack world =
          ((createDir dst >>= fun _ => bump dst) >>= fun _ => readDir platform src >>= fun names =>
            names.forM fun name => check >>= fun _ =>
              copyTreeOnDisk platform depth (src ++ [name]) (dst ++ [name]) (stack ++ [src])) world := by
        rw [copyTreeOnDisk, bind_ok (check_ok calm), bind_ok (symlinkMetadata_ok found)]
        simp only [if_neg outside, bind_assoc]
      obtain ⟨mid, made, mid_look, progress, visited⟩ := createDir_ok ground free
      obtain ⟨begun, starts⟩ := made_leaves dst made mid_look progress visited
      have source : begun.disk.look.under src = world.disk.look.under src := by
        rw [starts.look, under_paste_apart _ _ apart.symm]
      have listing : begun.disk.look src = some .directory := by
        simpa using (congrFun source []).trans root
      obtain ⟨names, listed, distinct, perm, present⟩ := readDir_ok platform listing
      have kids : ∀ name, name ∈ names ↔ world.disk.look.under src [name] ≠ none := by
        intro name
        rw [present name, ← source, View.under_apply]
      have start : begun.disk.look =
          world.disk.look.paste dst (blend (world.disk.look.under src) (single .directory) []) := by
        rw [starts.look, blend_nil]
      have step : ∀ name ∈ names, ∀ now done, Calm now → name ∉ done →
          now.disk.look = world.disk.look.paste dst
            (blend (world.disk.look.under src) (single .directory) done) →
          ∃ after, Leaves now (check >>= fun _ =>
              copyTreeOnDisk platform depth (src ++ [name]) (dst ++ [name]) (stack ++ [src]))
            (now.disk.look.paste (dst ++ [name])
              (overlay ((world.disk.look.under src).under [name]) ((single .directory : View ν κ).under [name])))
            (weigh world.disk depth (src ++ [name])) after := by
        intro name member now done calm fresh look
        have child := blended_source name look apart
        have empty : now.disk.look.under (dst ++ [name]) = .empty := (blended_child look fresh).trans rfl
        have here : now.disk.look (src ++ [name]) = world.disk.look.under src [name] := by
          simpa using congrFun child []
        obtain ⟨after, leaves⟩ := ih (stack ++ [src]) calm (here ▸ (kids name).mp member)
          (by rw [child]; exact shallow.child name) (by rw [child]; exact closed.under [name])
          (by rw [child]; exact plain.under [name]) (apart.append [name] [name]) empty
          (grounded_child (blended_root look) name) (deeper above)
        refine ⟨after, ?_, ?_, ?_, leaves.visited⟩
        · rw [bind_ok (check_ok calm)]
          exact leaves.runs
        · rw [leaves.look, child, overlay_of_not_both]
          simp [isDir, single]
        · rw [weigh_congr depth (src ++ [name]) (child.trans (under_under _ _ _)).symm]
          exact leaves.bumped
      obtain ⟨after, children⟩ := forM_overlay step distinct begun [] (starts.bumped.calm calm) (by simp) start
      refine ⟨after, ?_, ?_, ?_, ?_⟩
      · rw [head, bind_ok starts.runs, bind_ok listed]
        exact children.runs
      · rw [children.look, List.nil_append, blend_all (isDir_iff.mpr root) rfl kids,
          overlay_single_directory closed]
      · rw [weigh, found]
        have total := starts.bumped.trans children.bumped
        rw [((perm.trans (begun.disk.names_perm source)).map _).sum_eq] at total
        exact total
      · rw [children.visited, starts.visited]
    · have head : copyTreeOnDisk platform (depth + 1) src dst stack world =
          (writeFile content dst >>= fun _ => bump dst) world := by
        rw [copyTreeOnDisk, bind_ok (check_ok calm), bind_ok (symlinkMetadata_ok found)]
      obtain ⟨mid, wrote, mid_look, progress, visited⟩ := writeFile_ok content ground free
      obtain ⟨after, leaves⟩ := made_leaves dst wrote mid_look progress visited
      have whole : world.disk.look.under src = single (.file content) := closed.eq_single root (by simp)
      refine ⟨after, head.trans leaves.runs, by rw [leaves.look, whole], ?_, leaves.visited⟩
      rw [weigh, found]
      exact leaves.bumped

section MergeCases

variable {depth : Nat} {src dst : List ν} {world : World ν κ}

theorem mergeTree_directories (source : world.disk.look src = some .directory)
    (target : world.disk.look dst = some .directory) :
    mergeTreeOnDisk platform (depth + 1) src dst world =
      (bump dst >>= fun _ => readDir platform src >>= fun names => names.forM fun name =>
        check >>= fun _ => mergeTreeOnDisk platform depth (src ++ [name]) (dst ++ [name])) world := by
  rw [mergeTreeOnDisk, bind_ok (symlinkMetadata_ok source)]
  dsimp only
  rw [bind_ok (show lookup dst world = .ok (some .directory) world by rw [lookup, target])]

theorem mergeTree_missing {node : Node ν κ} (source : world.disk.look src = some node)
    (linkless : ∀ link, node ≠ .symlink link) (target : world.disk.look dst = none) :
    mergeTreeOnDisk platform (depth + 1) src dst world =
      copyTreeOnDisk platform (depth + 1) src dst [] world := by
  rw [mergeTreeOnDisk, bind_ok (symlinkMetadata_ok source)]
  cases node with
  | symlink link => exact absurd rfl (linkless link)
  | _ =>
    dsimp only
    rw [bind_ok (show lookup dst world = .ok none world by rw [lookup, target])]

theorem mergeTree_replaced {node other : Node ν κ} (source : world.disk.look src = some node)
    (linkless : ∀ link, node ≠ .symlink link) (target : world.disk.look dst = some other)
    (mixed : ¬(node = .directory ∧ other = .directory)) :
    mergeTreeOnDisk platform (depth + 1) src dst world =
      (removePathBestEffort dst >>= fun _ => copyTreeOnDisk platform (depth + 1) src dst []) world := by
  rw [mergeTreeOnDisk, bind_ok (symlinkMetadata_ok source)]
  have found : lookup dst world = .ok (some other) world := by rw [lookup, target]
  cases node with
  | symlink link => exact absurd rfl (linkless link)
  | directory =>
    dsimp only
    rw [bind_ok found]
    cases other with
    | directory => exact absurd ⟨rfl, rfl⟩ mixed
    | _ => rfl
  | _ =>
    dsimp only
    rw [bind_ok found]

end MergeCases

/-- A merge leaves the tree of the source over the tree of the destination. -/
theorem mergeTree_leaves (platform : Platform ν κ) (depth : Nat) {src dst : List ν} {world : World ν κ} (calm : Calm world)
    (there : world.disk.look src ≠ none) (shallow : Shallow depth (world.disk.look.under src))
    (closed : (world.disk.look.under src).Closed) (plain : Plain (world.disk.look.under src))
    (target : (world.disk.look.under dst).Closed) (apart : Apart src dst)
    (ground : grounded world.disk.look dst = true) :
    ∃ after, Leaves world (mergeTreeOnDisk platform depth src dst)
      (world.disk.look.paste dst (overlay (world.disk.look.under src) (world.disk.look.under dst)))
      (weigh world.disk depth src) after := by
  induction depth generalizing src dst world with
  | zero => exact absurd (by simpa using shallow [] (Nat.zero_le _)) there
  | succ depth ih =>
    obtain ⟨node, found⟩ := Option.ne_none_iff_exists'.mp there
    have root : world.disk.look.under src [] = some node := by simpa using found
    have linkless : ∀ link, node ≠ .symlink link := by
      rintro link rfl
      rcases plain [] _ root with same | ⟨content, same⟩ <;> cases same
    cases other : world.disk.look dst with
    | none =>
      have free : world.disk.look.under dst = .empty := target.eq_empty (by simpa using other)
      obtain ⟨after, leaves⟩ := copyTree_leaves platform (depth + 1) [] calm there shallow
        closed plain apart free ground (by simp)
      refine ⟨after, (mergeTree_missing found linkless other).trans leaves.runs, ?_, leaves.bumped,
        leaves.visited⟩
      rw [leaves.look, free, overlay_of_not_both (by simp [isDir])]
    | some standing =>
      have dst_root : world.disk.look.under dst [] = some standing := by simpa using other
      by_cases both : node = .directory ∧ standing = .directory
      · obtain ⟨rfl, rfl⟩ := both
        obtain ⟨begun, starts⟩ := bump_leaves dst world
        have same : begun.disk.look = world.disk.look := starts.look
        obtain ⟨names, listed, distinct, perm, present⟩ :=
          readDir_ok platform (show begun.disk.look src = some .directory by rw [same, found])
        have kids : ∀ name, name ∈ names ↔ world.disk.look.under src [name] ≠ none := by
          intro name
          rw [present name, same, View.under_apply]
        have start : begun.disk.look = world.disk.look.paste dst
            (blend (world.disk.look.under src) (world.disk.look.under dst) []) := by
          rw [same, blend_nil, paste_under]
        have step : ∀ name ∈ names, ∀ now done, Calm now → name ∉ done →
            now.disk.look = world.disk.look.paste dst
              (blend (world.disk.look.under src) (world.disk.look.under dst) done) →
            ∃ after, Leaves now (check >>= fun _ =>
                mergeTreeOnDisk platform depth (src ++ [name]) (dst ++ [name]))
              (now.disk.look.paste (dst ++ [name]) (overlay ((world.disk.look.under src).under [name])
                ((world.disk.look.under dst).under [name])))
              (weigh world.disk depth (src ++ [name])) after := by
          intro name member now done calm fresh look
          have child := blended_source name look apart
          have counterpart := blended_child look fresh
          have here : now.disk.look (src ++ [name]) = world.disk.look.under src [name] := by
            simpa using congrFun child []
          obtain ⟨after, leaves⟩ := ih calm (here ▸ (kids name).mp member)
            (by rw [child]; exact shallow.child name) (by rw [child]; exact closed.under [name])
            (by rw [child]; exact plain.under [name]) (by rw [counterpart]; exact target.under [name])
            (apart.append [name] [name]) (grounded_child ((blended_root look).trans dst_root) name)
          refine ⟨after, ?_, ?_, ?_, leaves.visited⟩
          · rw [bind_ok (check_ok calm)]
            exact leaves.runs
          · rw [leaves.look, child, counterpart]
          · rw [weigh_congr depth (src ++ [name]) (child.trans (under_under _ _ _)).symm]
            exact leaves.bumped
        obtain ⟨after, children⟩ := forM_overlay step distinct begun [] (starts.bumped.calm calm) (by simp) start
        refine ⟨after, ?_, ?_, ?_, ?_⟩
        · rw [mergeTree_directories found other, bind_ok starts.runs, bind_ok listed]
          exact children.runs
        · rw [children.look, List.nil_append, blend_all (isDir_iff.mpr root) (isDir_iff.mpr dst_root) kids]
        · rw [weigh, found]
          have total := starts.bumped.trans children.bumped
          have again : begun.disk.look.under src = world.disk.look.under src := by rw [same]
          rw [((perm.trans (begun.disk.names_perm again)).map _).sum_eq] at total
          exact total
        · rw [children.visited, starts.visited]
      · obtain ⟨mid, removed, mid_look, progress, visited⟩ := removePathBestEffort_ok target
        have source : mid.disk.look.under src = world.disk.look.under src := by
          rw [mid_look, under_paste_apart _ _ apart.symm]
        have still : mid.disk.look src = world.disk.look src := by simpa using congrFun source []
        have quiet : Calm mid := by
          intro progress' found'
          exact calm progress' (progress ▸ found')
        obtain ⟨after, leaves⟩ := copyTree_leaves platform (depth + 1) [] quiet
          (still ▸ there) (by rw [source]; exact shallow) (by rw [source]; exact closed)
          (by rw [source]; exact plain) apart (by rw [mid_look, under_paste])
          (by rw [mid_look, grounded_paste]; exact ground) (by simp)
        refine ⟨after, ?_, ?_, ?_, leaves.visited.trans visited⟩
        · rw [mergeTree_replaced found linkless other both, bind_ok removed]
          exact leaves.runs
        · rw [leaves.look, source, mid_look, paste_paste, overlay_of_not_both]
          cases first : (world.disk.look.under src).isDir with
          | false => rfl
          | true =>
            cases second : (world.disk.look.under dst).isDir with
            | false => rfl
            | true =>
              rw [isDir_iff, root] at first
              rw [isDir_iff, dst_root] at second
              exact absurd ⟨Option.some.inj first, Option.some.inj second⟩ both
        · obtain ⟨paths, length, moved⟩ := leaves.bumped
          refine ⟨paths, ?_, by rw [moved, progress]⟩
          rw [length, weigh_congr (depth + 1) src source]

/-- The source with the named children gone. -/
def pruned (view : View ν κ) (names : List ν) : View ν κ
  | [] => view []
  | name :: rest => if name ∈ names then none else view (name :: rest)

theorem pruned_nil (view : View ν κ) : pruned view [] = view := by
  funext path
  cases path <;> simp [pruned]

theorem graft_pruned (view : View ν κ) (names : List ν) (name : ν) :
    (pruned view names).graft name .empty = pruned view (names ++ [name]) := by
  funext path
  cases path with
  | nil => rfl
  | cons first rest =>
    by_cases same : first = name
    · subst same
      simp [graft, pruned]
    · simp [graft, pruned, same]

theorem pruned_under {view : View ν κ} {names : List ν} {name : ν} (fresh : name ∉ names) :
    (pruned view names).under [name] = view.under [name] := by
  funext rest
  simp [pruned, fresh]

theorem pruned_all {view : View ν κ} {names : List ν} (closed : view.Closed)
    (directory : view.isDir = true) (all : ∀ name, name ∈ names ↔ view [name] ≠ none) :
    pruned view names = single .directory := by
  funext path
  cases path with
  | nil => exact isDir_iff.mp directory
  | cons name rest =>
    by_cases member : name ∈ names
    · simp [pruned, member, single]
    · have gone : view [name] = none := by
        by_contra there
        exact member ((all name).mpr there)
      have nothing := (closed.under [name]).eq_empty gone
      simp only [pruned, member, if_false, single]
      exact congrFun nothing rest

/-- An entry of the source that a merge-move meets on its own: every directory above it
stands on both sides. -/
def Met (top bottom : View ν κ) (path : List ν) : Prop :=
  path ≠ [] ∧ top path ≠ none ∧
    ∀ above, above <+: path → above ≠ path → top above = some .directory ∧ bottom above = some .directory

omit [DecidableEq ν] in
theorem met_child {top bottom : View ν κ} (upper : top [] = some .directory)
    (lower : bottom [] = some .directory) {name : ν} {rest : List ν} :
    Met top bottom (name :: rest) ↔
      rest = [] ∧ top [name] ≠ none ∨ top [name] = some .directory ∧ bottom [name] = some .directory ∧
        Met (top.under [name]) (bottom.under [name]) rest := by
  constructor
  · rintro ⟨_, there, above⟩
    cases rest with
    | nil => exact .inl ⟨rfl, there⟩
    | cons second rest =>
      have child := above [name] (by simp) (by simp)
      refine .inr ⟨child.1, child.2, by simp, there, ?_⟩
      intro higher inside ne
      exact above (name :: higher) (by simpa using inside) (by simpa using ne)
  · rintro (⟨rfl, there⟩ | ⟨_, _, inner, there, above⟩)
    · refine ⟨by simp, there, ?_⟩
      intro higher inside ne
      cases higher with
      | nil => exact ⟨upper, lower⟩
      | cons first more =>
        have parts := List.cons_prefix_cons.mp inside
        rw [parts.1, List.prefix_nil.mp parts.2] at ne
        exact absurd rfl ne
    · refine ⟨by simp, there, ?_⟩
      intro higher inside ne
      cases higher with
      | nil => exact ⟨upper, lower⟩
      | cons first more =>
        obtain ⟨rfl, below⟩ := List.cons_prefix_cons.mp inside
        exact above more below (fun same => ne (by rw [same]))

/-- The tree a merge-move leaves, with the entries it visited. -/
structure Moves (world : World ν κ) (op : Op ν κ Unit) (view : View ν κ) (seen : List (List ν))
    (after : World ν κ) : Prop where
  runs : op world = .ok () after
  look : after.disk.look = view
  bumped : ∃ count, Bumped world after count
  visited : after.visited = world.visited ++ seen

/-- The entries met among the named children, each visited once. -/
structure Seen (src : List ν) (top bottom : View ν κ) (names : List ν) (seen : List (List ν)) : Prop where
  once : seen.Nodup
  met : ∀ path, path ∈ seen ↔ ∃ name ∈ names, ∃ rest, path = src ++ name :: rest ∧ Met top bottom (name :: rest)

omit [DecidableEq ν] in
theorem Seen.cons {src : List ν} {top bottom : View ν κ} {name : ν} {names : List ν}
    {seen more : List (List ν)} (first : Seen src top bottom [name] seen)
    (others : Seen src top bottom names more) (fresh : name ∉ names) :
    Seen src top bottom (name :: names) (seen ++ more) where
  once := by
    rw [List.nodup_append]
    refine ⟨first.once, others.once, ?_⟩
    rintro path here _ there rfl
    obtain ⟨one, member, rest, shape, _⟩ := (first.met path).mp here
    obtain ⟨two, inside, rest', shape', _⟩ := (others.met path).mp there
    rw [List.mem_singleton.mp member] at shape
    have same := List.append_cancel_left (shape.symm.trans shape')
    rw [(List.cons.inj same).1] at fresh
    exact fresh inside
  met := by
    intro path
    rw [List.mem_append, first.met, others.met]
    simp

/-- The loop of a merge-move over the children. -/
theorem forM_move {body : ν → Op ν κ Unit} {base top bottom : View ν κ} {src dst : List ν}
    (apart : Apart src dst) {names : List ν}
    (step : ∀ name ∈ names, ∀ world done, Calm world → name ∉ done →
      world.disk.look = (base.paste dst (blend top bottom done)).paste src (pruned top done) →
      ∃ after seen, Moves world (body name)
        ((world.disk.look.paste (dst ++ [name]) (overlay (top.under [name]) (bottom.under [name]))).paste
          (src ++ [name]) .empty) seen after ∧ Seen src top bottom [name] seen)
    (distinct : names.Nodup) (world : World ν κ) (done : List ν) (calm : Calm world)
    (fresh : ∀ name ∈ names, name ∉ done)
    (look : world.disk.look = (base.paste dst (blend top bottom done)).paste src (pruned top done)) :
    ∃ after seen, Moves world (names.forM body)
      ((base.paste dst (blend top bottom (done ++ names))).paste src (pruned top (done ++ names))) seen after ∧
      Seen src top bottom names seen := by
  induction names generalizing world done with
  | nil =>
    refine ⟨world, [], ⟨rfl, by simpa using look, ⟨0, Bumped.refl world⟩, by simp⟩, by simp, by simp⟩
  | cons name rest ih =>
    obtain ⟨mid, seen, first, met⟩ := step name (by simp) world done calm (fresh name (by simp)) look
    obtain ⟨count, bumped⟩ := first.bumped
    have mid_look : mid.disk.look =
        (base.paste dst (blend top bottom (done ++ [name]))).paste src (pruned top (done ++ [name])) := by
      have across : Apart src (dst ++ [name]) := by simpa using apart.append [] [name]
      rw [first.look, look, paste_comm _ _ _ across, paste_child, paste_child, graft_blend, graft_pruned]
    have later : ∀ other ∈ rest, other ∉ done ++ [name] := by
      intro other member inside
      rcases List.mem_append.mp inside with before | last
      · exact fresh other (List.mem_cons_of_mem _ member) before
      · rw [List.mem_singleton.mp last] at member
        exact (List.nodup_cons.mp distinct).1 member
    obtain ⟨after, more, others, mets⟩ := ih (fun other member => step other (List.mem_cons_of_mem _ member))
      (List.nodup_cons.mp distinct).2 mid (done ++ [name]) (bumped.calm calm) later mid_look
    obtain ⟨count', bumped'⟩ := others.bumped
    refine ⟨after, seen ++ more, ⟨?_, ?_, ⟨_, bumped.trans bumped'⟩, ?_⟩,
      met.cons mets (List.nodup_cons.mp distinct).1⟩
    · show (body name >>= fun _ => rest.forM body) world = _
      rw [bind_ok first.runs]
      exact others.runs
    · rw [others.look, List.append_assoc, List.singleton_append]
    · rw [others.visited, first.visited, List.append_assoc]

section MoveChild

variable {world : World ν κ} {src dst : List ν} {name : ν}

theorem rename_moves (there : world.disk.look src ≠ none) (apart : Apart src dst)
    (ground : grounded world.disk.look dst = true) (free : world.disk.look.under dst = .empty) :
    ∃ after, Moves world (rename src dst >>= fun _ => bump dst)
      ((world.disk.look.paste dst (world.disk.look.under src)).paste src .empty) [] after := by
  obtain ⟨mid, moved, look, progress, visited⟩ := rename_ok there apart ground free
  refine ⟨{ mid with progress := mid.progress.map (·.bump dst) }, ?_, look, ⟨1, [dst], rfl, ?_⟩, ?_⟩
  · rw [bind_ok moved]
    rfl
  · show mid.progress.map _ = _
    rw [progress]
    rfl
  · show mid.visited = _
    rw [visited, List.append_nil]

theorem replace_moves (there : world.disk.look src ≠ none) (apart : Apart src dst)
    (ground : grounded world.disk.look dst = true) (closed : (world.disk.look.under dst).Closed) :
    ∃ after, Moves world (removePathBestEffort dst >>= fun _ => rename src dst >>= fun _ => bump dst)
      ((world.disk.look.paste dst (world.disk.look.under src)).paste src .empty) [] after := by
  obtain ⟨mid, removed, look, progress, visited⟩ := removePathBestEffort_ok closed
  have source : mid.disk.look.under src = world.disk.look.under src := by
    rw [look, under_paste_apart _ _ apart.symm]
  have still : mid.disk.look src = world.disk.look src := by simpa using congrFun source []
  obtain ⟨after, moves⟩ := rename_moves (still ▸ there) apart
    (by rw [look, grounded_paste]; exact ground) (by rw [look, under_paste])
  obtain ⟨count, paths, length, moved⟩ := moves.bumped
  refine ⟨after, ?_, ?_, ⟨count, paths, length, by rw [moved, progress]⟩, by rw [moves.visited, visited]⟩
  · rw [bind_ok removed]
    exact moves.runs
  · rw [moves.look, source, look, paste_paste]

omit [DecidableEq ν] in
theorem seen_single (src : List ν) {top bottom : View ν κ} (upper : top [] = some .directory)
    (lower : bottom [] = some .directory) (there : top [name] ≠ none)
    (mixed : ¬(top [name] = some .directory ∧ bottom [name] = some .directory)) :
    Seen src top bottom [name] [src ++ [name]] where
  once := by simp
  met := by
    intro path
    constructor
    · intro member
      exact ⟨name, by simp, [], List.mem_singleton.mp member, (met_child upper lower).mpr (.inl ⟨rfl, there⟩)⟩
    · rintro ⟨other, member, rest, rfl, met⟩
      rw [List.mem_singleton.mp member] at met ⊢
      rcases (met_child upper lower).mp met with ⟨rfl, _⟩ | ⟨first, second, _⟩
      · simp
      · exact absurd ⟨first, second⟩ mixed

omit [DecidableEq ν] in
theorem seen_inside {top bottom : View ν κ} (upper : top [] = some .directory)
    (lower : bottom [] = some .directory) (first : top [name] = some .directory)
    (second : bottom [name] = some .directory) {seen : List (List ν)} (once : seen.Nodup)
    (met : ∀ path, path ∈ seen ↔
      ∃ rest, path = (src ++ [name]) ++ rest ∧ Met (top.under [name]) (bottom.under [name]) rest) :
    Seen src top bottom [name] ((src ++ [name]) :: seen) where
  once := by
    refine List.nodup_cons.mpr ⟨?_, once⟩
    intro member
    obtain ⟨rest, shape, inner, _⟩ := (met _).mp member
    exact inner (by simpa using shape)
  met := by
    intro path
    rw [List.mem_cons, met]
    constructor
    · rintro (rfl | ⟨rest, rfl, inner⟩)
      · exact ⟨name, by simp, [], rfl, (met_child upper lower).mpr (.inl ⟨rfl, by simp [first]⟩)⟩
      · exact ⟨name, by simp, rest, by simp, (met_child upper lower).mpr (.inr ⟨first, second, inner⟩)⟩
    · rintro ⟨other, member, rest, rfl, here⟩
      rw [List.mem_singleton.mp member] at here ⊢
      rcases (met_child upper lower).mp here with ⟨rfl, _⟩ | ⟨_, _, inner⟩
      · exact .inl rfl
      · exact .inr ⟨rest, by simp, inner⟩

/-- The world with the visit of a child logged. -/
def entered (world : World ν κ) (path : List ν) : World ν κ :=
  { world with visited := world.visited ++ [path] }

section ChildCases

variable {descend : List ν → List ν → Op ν κ Unit} {node other : Node ν κ}

theorem mergeMoveChild_met (calm : Calm world) (source : world.disk.look (src ++ [name]) = some node) :
    mergeMoveChild descend src dst name world =
      (lookup (dst ++ [name]) >>= fun found =>
        match found with
        | none => rename (src ++ [name]) (dst ++ [name]) >>= fun _ => bump (dst ++ [name])
        | some dstMeta =>
          match node, dstMeta with
          | .directory, .directory =>
            descend (src ++ [name]) (dst ++ [name]) >>= fun _ => removeDir (src ++ [name])
          | _, _ => removePathBestEffort (dst ++ [name]) >>= fun _ =>
              rename (src ++ [name]) (dst ++ [name]) >>= fun _ => bump (dst ++ [name]))
        (entered world (src ++ [name])) := by
  have visits : visit (src ++ [name]) world = .ok () (entered world (src ++ [name])) := rfl
  have kept : (entered world (src ++ [name])).disk.look (src ++ [name]) = some node := source
  rw [mergeMoveChild, bind_ok (check_ok calm), bind_ok visits]
  exact bind_ok (symlinkMetadata_ok kept) _

theorem mergeMoveChild_absent (calm : Calm world) (source : world.disk.look (src ++ [name]) = some node)
    (target : world.disk.look (dst ++ [name]) = none) :
    mergeMoveChild descend src dst name world =
      (rename (src ++ [name]) (dst ++ [name]) >>= fun _ => bump (dst ++ [name]))
        (entered world (src ++ [name])) := by
  rw [mergeMoveChild_met calm source, bind_ok (show lookup (dst ++ [name]) _ = .ok none _ by rw [← target]; rfl)]

theorem mergeMoveChild_both (calm : Calm world)
    (source : world.disk.look (src ++ [name]) = some .directory)
    (target : world.disk.look (dst ++ [name]) = some .directory) :
    mergeMoveChild descend src dst name world =
      (descend (src ++ [name]) (dst ++ [name]) >>= fun _ => removeDir (src ++ [name]))
        (entered world (src ++ [name])) := by
  rw [mergeMoveChild_met calm source,
    bind_ok (show lookup (dst ++ [name]) _ = .ok (some .directory) _ by rw [← target]; rfl)]

theorem mergeMoveChild_mixed (calm : Calm world) (source : world.disk.look (src ++ [name]) = some node)
    (target : world.disk.look (dst ++ [name]) = some other)
    (mixed : ¬(node = .directory ∧ other = .directory)) :
    mergeMoveChild descend src dst name world =
      (removePathBestEffort (dst ++ [name]) >>= fun _ =>
        rename (src ++ [name]) (dst ++ [name]) >>= fun _ => bump (dst ++ [name]))
        (entered world (src ++ [name])) := by
  rw [mergeMoveChild_met calm source,
    bind_ok (show lookup (dst ++ [name]) _ = .ok (some other) _ by rw [← target]; rfl)]
  cases node with
  | directory =>
    cases other with
    | directory => exact absurd ⟨rfl, rfl⟩ mixed
    | _ => rfl
  | _ => rfl

end ChildCases

/-- One child of the source, where the recursive call is known to leave the overlay. -/
theorem mergeMoveChild_moves {descend : List ν → List ν → Op ν κ Unit} {top bottom : View ν κ}
    (calm : Calm world) (apart : Apart src dst) (upper : top [] = some .directory)
    (lower : bottom [] = some .directory) (closed : bottom.Closed) (there : top [name] ≠ none)
    (ground : world.disk.look dst = some .directory)
    (source : world.disk.look.under (src ++ [name]) = top.under [name])
    (target : world.disk.look.under (dst ++ [name]) = bottom.under [name])
    (inner : top [name] = some .directory → bottom [name] = some .directory →
      ∃ after seen, Moves (entered world (src ++ [name])) (descend (src ++ [name]) (dst ++ [name]))
          ((world.disk.look.paste (dst ++ [name]) (overlay (top.under [name]) (bottom.under [name]))).paste
            (src ++ [name]) .empty) seen after ∧
        seen.Nodup ∧ ∀ path, path ∈ seen ↔
          ∃ rest, path = (src ++ [name]) ++ rest ∧ Met (top.under [name]) (bottom.under [name]) rest) :
    ∃ after seen, Moves world (mergeMoveChild descend src dst name)
        ((world.disk.look.paste (dst ++ [name]) (overlay (top.under [name]) (bottom.under [name]))).paste
          (src ++ [name]) .empty) seen after ∧ Seen src top bottom [name] seen := by
  have here : world.disk.look (src ++ [name]) = top [name] := by simpa using congrFun source []
  have beside : world.disk.look (dst ++ [name]) = bottom [name] := by simpa using congrFun target []
  obtain ⟨node, found⟩ := Option.ne_none_iff_exists'.mp there
  have found' : world.disk.look (src ++ [name]) = some node := here.trans found
  have apart' : Apart (src ++ [name]) (dst ++ [name]) := apart.append [name] [name]
  have ground' : grounded (entered world (src ++ [name])).disk.look (dst ++ [name]) = true :=
    grounded_child ground name
  have there' : (entered world (src ++ [name])).disk.look (src ++ [name]) ≠ none := here ▸ there
  have closed' : ((entered world (src ++ [name])).disk.look.under (dst ++ [name])).Closed := by
    show (world.disk.look.under (dst ++ [name])).Closed
    rw [target]
    exact closed.under [name]
  have logged : ∀ {after : World ν κ} (op : Op ν κ Unit) {view : View ν κ} {seen},
      Moves (entered world (src ++ [name])) op view seen after →
      mergeMoveChild descend src dst name world = op (entered world (src ++ [name])) →
      Moves world (mergeMoveChild descend src dst name) view ((src ++ [name]) :: seen) after := by
    intro after op view seen moves same
    refine ⟨same.trans moves.runs, moves.look, moves.bumped, ?_⟩
    rw [moves.visited]
    simp [entered]
  by_cases both : top [name] = some .directory ∧ bottom [name] = some .directory
  · obtain ⟨first, second⟩ := both
    obtain ⟨after, seen, moves, once, met⟩ := inner first second
    refine ⟨after, _, logged (descend (src ++ [name]) (dst ++ [name]) >>= fun _ =>
      removeDir (src ++ [name])) ⟨?_, moves.look, moves.bumped, moves.visited⟩
      (mergeMoveChild_both calm (here.trans first) (beside.trans second)),
      seen_inside upper lower first second once met⟩
    rw [bind_ok moves.runs]
    apply removeDir_missing
    have gone := paste_at (world.disk.look.paste (dst ++ [name])
      (overlay (top.under [name]) (bottom.under [name]))) .empty (src ++ [name]) []
    rw [moves.look, ← List.append_nil (src ++ [name])]
    simpa using gone
  · have single := seen_single src upper lower there both
    have whole : overlay (top.under [name]) (bottom.under [name]) = top.under [name] := by
      apply overlay_of_not_both
      cases first : (top.under [name]).isDir with
      | false => rfl
      | true =>
        cases second : (bottom.under [name]).isDir with
        | false => rfl
        | true => exact absurd ⟨isDir_iff.mp first, isDir_iff.mp second⟩ both
    rw [whole, ← source]
    cases standing : bottom [name] with
    | none =>
      have free : (entered world (src ++ [name])).disk.look.under (dst ++ [name]) = .empty :=
        target.trans ((closed.under [name]).eq_empty (by simpa using standing))
      obtain ⟨after, moves⟩ := rename_moves there' apart' ground' free
      exact ⟨after, _, logged _ moves (mergeMoveChild_absent calm found' (beside.trans standing)), single⟩
    | some other =>
      have mixed : ¬(node = .directory ∧ other = .directory) := by
        rintro ⟨rfl, rfl⟩
        exact both ⟨found, standing⟩
      obtain ⟨after, moves⟩ := replace_moves there' apart' ground' closed'
      exact ⟨after, _, logged _ moves (mergeMoveChild_mixed calm found' (beside.trans standing) mixed), single⟩

end MoveChild

/-- A merge-move leaves the overlay at the destination and nothing at the source, and meets
every entry once. -/
theorem mergeMoveTree_moves (platform : Platform ν κ) (depth : Nat) {src dst : List ν} {world : World ν κ}
    (calm : Calm world) (source : world.disk.look src = some .directory)
    (shallow : Shallow depth (world.disk.look.under src)) (closed : (world.disk.look.under src).Closed)
    (target : world.disk.look dst = some .directory) (below : (world.disk.look.under dst).Closed)
    (apart : Apart src dst) :
    ∃ after seen, Moves world (mergeMoveTreeOnDisk platform depth src dst)
        ((world.disk.look.paste dst
          (overlay (world.disk.look.under src) (world.disk.look.under dst))).paste src .empty) seen after ∧
      seen.Nodup ∧ ∀ path, path ∈ seen ↔
        ∃ rest, path = src ++ rest ∧ Met (world.disk.look.under src) (world.disk.look.under dst) rest := by
  induction depth generalizing src dst world with
  | zero =>
    have gone : world.disk.look src = none := by simpa using shallow [] (Nat.zero_le _)
    rw [source] at gone
    cases gone
  | succ depth ih =>
    have upper : world.disk.look.under src [] = some .directory := by simpa using source
    have lower : world.disk.look.under dst [] = some .directory := by simpa using target
    obtain ⟨begun, starts⟩ := bump_leaves dst world
    have same : begun.disk.look = world.disk.look := starts.look
    obtain ⟨names, listed, distinct, _, present⟩ :=
      readDir_ok platform (show begun.disk.look src = some .directory by rw [same, source])
    have kids : ∀ name, name ∈ names ↔ world.disk.look.under src [name] ≠ none := by
      intro name
      rw [present name, same, View.under_apply]
    have start : begun.disk.look = (world.disk.look.paste dst
        (blend (world.disk.look.under src) (world.disk.look.under dst) [])).paste src
        (pruned (world.disk.look.under src) []) := by
      rw [blend_nil, paste_under, pruned_nil, paste_under, same]
    have step : ∀ name ∈ names, ∀ now done, Calm now → name ∉ done →
        now.disk.look = (world.disk.look.paste dst
          (blend (world.disk.look.under src) (world.disk.look.under dst) done)).paste src
          (pruned (world.disk.look.under src) done) →
        ∃ after seen, Moves now (mergeMoveChild (mergeMoveTreeOnDisk platform depth) src dst name)
          ((now.disk.look.paste (dst ++ [name]) (overlay ((world.disk.look.under src).under [name])
            ((world.disk.look.under dst).under [name]))).paste (src ++ [name]) .empty) seen after ∧
          Seen src (world.disk.look.under src) (world.disk.look.under dst) [name] seen := by
      intro name member now done calm fresh look
      have child : now.disk.look.under (src ++ [name]) = (world.disk.look.under src).under [name] := by
        rw [look, ← under_under, under_paste, pruned_under fresh]
      have counterpart : now.disk.look.under (dst ++ [name]) = (world.disk.look.under dst).under [name] := by
        rw [look, under_paste_apart _ _ (by simpa using apart.append [] [name]), ← under_under, under_paste,
          blend_under fresh]
      have ground : now.disk.look dst = some .directory := by
        rw [look, paste_off _ _ apart.1]
        exact (blended_root rfl).trans lower
      have there := (kids name).mp member
      refine mergeMoveChild_moves calm apart upper lower below there ground child counterpart ?_
      intro first second
      have source' : (entered now (src ++ [name])).disk.look (src ++ [name]) = some .directory := by
        have here : now.disk.look (src ++ [name]) = world.disk.look.under src [name] := by
          simpa using congrFun child []
        exact here.trans first
      have target' : (entered now (src ++ [name])).disk.look (dst ++ [name]) = some .directory := by
        have here : now.disk.look (dst ++ [name]) = world.disk.look.under dst [name] := by
          simpa using congrFun counterpart []
        exact here.trans second
      have quiet : Calm (entered now (src ++ [name])) := calm
      rw [← child, ← counterpart]
      refine ih quiet source' ?_ ?_ target' ?_ (apart.append [name] [name])
      · show Shallow depth (now.disk.look.under (src ++ [name]))
        rw [child]
        exact shallow.child name
      · show (now.disk.look.under (src ++ [name])).Closed
        rw [child]
        exact closed.under [name]
      · show (now.disk.look.under (dst ++ [name])).Closed
        rw [counterpart]
        exact below.under [name]
    obtain ⟨mid, seen, children, met⟩ :=
      forM_move apart step distinct begun [] (starts.bumped.calm calm) (by simp) start
    have emptied : mid.disk.look.under src = single .directory := by
      rw [children.look, List.nil_append, under_paste, pruned_all closed (isDir_iff.mpr upper) kids]
    obtain ⟨after, removed, look, progress, visited⟩ := removeDir_single emptied
    obtain ⟨count, bumped⟩ := children.bumped
    refine ⟨after, seen, ⟨?_, ?_, ?_, ?_⟩, met.once, ?_⟩
    · rw [mergeMoveTreeOnDisk, bind_ok (check_ok calm), bind_ok starts.runs, bind_ok listed,
        bind_ok children.runs]
      exact removed
    · rw [look, children.look, List.nil_append, paste_paste,
        blend_all (isDir_iff.mpr upper) (isDir_iff.mpr lower) kids]
    · obtain ⟨paths, length, moved⟩ := starts.bumped.trans bumped
      exact ⟨_, paths, length, by rw [progress, moved]⟩
    · rw [visited, children.visited, starts.visited]
    · intro path
      rw [met.met]
      constructor
      · rintro ⟨name, _, rest, shape, here⟩
        exact ⟨name :: rest, shape, here⟩
      · rintro ⟨rest, shape, here⟩
        cases rest with
        | nil => exact absurd rfl here.1
        | cons name rest =>
          refine ⟨name, (kids name).mpr ?_, rest, shape, here⟩
          rcases (met_child upper lower).mp here with ⟨_, there⟩ | ⟨there, _⟩
          · exact there
          · rw [there]
            exact Option.some_ne_none _

section Reports

omit [DecidableEq ν]

theorem foldl_bump_counts (paths : List (List ν)) (progress : Progress ν) :
    (paths.foldl Progress.bump progress).done = progress.done + paths.length ∧
      (paths.foldl Progress.bump progress).total = progress.total ∧
      (paths.foldl Progress.bump progress).reportProgress = progress.reportProgress := by
  induction paths generalizing progress with
  | nil => exact ⟨rfl, rfl, rfl⟩
  | cons path rest ih =>
    obtain ⟨done, total, report⟩ := ih (progress.bump path)
    refine ⟨done.trans ?_, total, report⟩
    simp only [Progress.bump, List.length_cons]
    omega

theorem foldl_bump_reports {paths : List (List ν)} {progress : Progress ν} (some_path : paths ≠ [])
    (reporting : progress.reportProgress = true)
    (reached : progress.done + paths.length = progress.total) :
    ∃ path, (paths.foldl Progress.bump progress).reports.getLast? =
      some (progress.total, progress.total, path) := by
  obtain ⟨earlier, last, rfl⟩ := List.eq_nil_or_concat paths |>.resolve_left some_path
  rw [List.concat_eq_append] at reached ⊢
  obtain ⟨done, total, report⟩ := foldl_bump_counts earlier progress
  rw [List.length_append, List.length_singleton] at reached
  have full : (earlier.foldl Progress.bump progress).done + 1 = progress.total := by omega
  refine ⟨last, ?_⟩
  rw [List.foldl_append, List.foldl_cons, List.foldl_nil]
  simp [Progress.bump, full, total, report, reporting]

end Reports

section Transfers

variable {world : World ν κ} {src dst : List ν}

theorem grounded_target (closed : world.disk.look.Closed) (apart : Apart src dst)
    (target : world.disk.look dst = some .directory) : grounded world.disk.look dst = true := by
  apply grounded_of_closed closed (by rw [target]; exact Option.some_ne_none _)
  rintro rfl
  exact apart.2 List.nil_prefix

/-- A counted merge copy ends with the count as its total and every entry done. -/
theorem copyMerging_leaves (platform : Platform ν κ) {fuel : Nat} (calm : Calm world)
    (closed : world.disk.look.Closed) (apart : Apart src dst) (there : world.disk.look src ≠ none)
    (target : world.disk.look dst = some .directory) (plain : Plain (world.disk.look.under src))
    (shallow : Shallow fuel (world.disk.look.under src)) {progress : Progress ν}
    (reports : world.progress = some progress) (fresh : progress.done = 0) :
    ∃ after final, copyMerging platform fuel src dst world = .ok () after ∧
      after.disk.look = world.disk.look.paste dst
        (overlay (world.disk.look.under src) (world.disk.look.under dst)) ∧
      after.progress = some final ∧ countCopyEntries platform fuel src [] world = .ok final.total world ∧
      final.done = final.total ∧ (progress.reportProgress = true →
        ∃ path, final.reports.getLast? = some (final.total, final.total, path)) := by
  have counted := countCopyEntries_ok platform fuel [] calm there shallow (by simp)
  obtain ⟨smaller, rfl⟩ := shallow.pos (by simpa using there)
  have weight : 1 ≤ weigh world.disk (smaller + 1) src := by
    obtain ⟨node, found⟩ := Option.ne_none_iff_exists'.mp there
    rw [weigh, found]
    cases node <;> simp
  let begun : World ν κ := { world with
    progress := world.progress.map fun progress =>
      { progress with total := max (weigh world.disk (smaller + 1) src) 1 } }
  have quiet : Calm begun := by
    intro now found
    obtain ⟨before, was, rfl⟩ := Option.map_eq_some_iff.mp found
    exact calm before was
  obtain ⟨after, leaves⟩ := mergeTree_leaves platform (smaller + 1) quiet there shallow (closed.under src)
    plain (closed.under dst) apart (grounded_target closed apart target)
  obtain ⟨paths, length, moved⟩ := leaves.bumped
  have total : max (weigh world.disk (smaller + 1) src) 1 = weigh world.disk (smaller + 1) src :=
    max_eq_left weight
  have same : weigh begun.disk (smaller + 1) src = weigh world.disk (smaller + 1) src := rfl
  let started : Progress ν := { progress with total := weigh world.disk (smaller + 1) src }
  have counts := foldl_bump_counts paths started
  refine ⟨after, paths.foldl Progress.bump started, ?_, leaves.look, ?_, ?_, ?_, ?_⟩
  · unfold copyMerging
    rw [reports, counted]
    dsimp only
    have stored : storeTotal (max (weigh world.disk (smaller + 1) src) 1) world = .ok () begun := rfl
    rw [bind_ok stored]
    exact leaves.runs
  · rw [moved]
    simp only [begun, reports, total, Option.map_some, started]
  · rw [counts.2.1]
    exact counted
  · rw [counts.1, counts.2.1, length, same]
    show progress.done + _ = _
    rw [fresh, Nat.zero_add]
  · intro reporting
    rw [counts.2.1]
    have reporting' : started.reportProgress = true := reporting
    refine foldl_bump_reports ?_ reporting' ?_
    rotate_left
    · show progress.done + paths.length = _
      rw [fresh, Nat.zero_add, length, same]
    · intro none_bumped
      rw [none_bumped] at length
      simp only [List.length_nil, same] at length
      omega

/-- On a well-formed disk, for a source and a directory that do not contain each other:
a merge copy of regular files and directories leaves the overlay and the source as it was
and reports every counted entry, and a merge-move of a directory leaves the overlay and no
source and visits every entry it meets once. -/
theorem merge_leaves_overlay (platform : Platform ν κ) (calm : Calm world)
    (closed : world.disk.look.Closed) (apart : Apart src dst) (there : world.disk.look src ≠ none)
    (target : world.disk.look dst = some .directory) : ∃ bound, ∀ fuel, bound ≤ fuel →
      (Plain (world.disk.look.under src) → ∃ after,
        mergeTreeOnDisk platform fuel src dst world = .ok () after ∧
        after.disk.look.under dst = overlay (world.disk.look.under src) (world.disk.look.under dst) ∧
        after.disk.look.under src = world.disk.look.under src) ∧
      (Plain (world.disk.look.under src) → ∀ progress, world.progress = some progress →
        progress.done = 0 → ∃ after final, copyMerging platform fuel src dst world = .ok () after ∧
          after.disk.look.under dst = overlay (world.disk.look.under src) (world.disk.look.under dst) ∧
          after.progress = some final ∧
          countCopyEntries platform fuel src [] world = .ok final.total world ∧
          final.done = final.total ∧ final.complete = (final.total, final.total) ∧
          (progress.reportProgress = true →
            ∃ path, final.reports.getLast? = some (final.total, final.total, path))) ∧
      (world.disk.look src = some .directory → ∃ after seen,
        mergeMoveTreeOnDisk platform fuel src dst world = .ok () after ∧
        after.disk.look.under dst = overlay (world.disk.look.under src) (world.disk.look.under dst) ∧
        after.disk.look.under src = .empty ∧
        after.visited = world.visited ++ seen ∧ seen.Nodup ∧ ∀ path, path ∈ seen ↔
          ∃ rest, path = src ++ rest ∧ Met (world.disk.look.under src) (world.disk.look.under dst) rest) := by
  refine ⟨enough world.disk, ?_⟩
  intro fuel deep
  have shallow := shallow_enough world.disk src deep
  refine ⟨?_, ?_, ?_⟩
  · intro plain
    obtain ⟨after, leaves⟩ := mergeTree_leaves platform fuel calm there shallow (closed.under src) plain
      (closed.under dst) apart (grounded_target closed apart target)
    refine ⟨after, leaves.runs, ?_, ?_⟩
    · rw [leaves.look, under_paste]
    · rw [leaves.look, under_paste_apart _ _ apart.symm]
  · intro plain progress reports fresh
    obtain ⟨after, final, runs, look, same, counted, done, last⟩ :=
      copyMerging_leaves platform calm closed apart there target plain shallow reports fresh
    refine ⟨after, final, runs, ?_, same, counted, done, ?_, last⟩
    · rw [look, under_paste]
    · simp [Progress.complete, done]
  · intro directory
    obtain ⟨after, seen, moves, once, met⟩ := mergeMoveTree_moves platform fuel calm directory shallow
      (closed.under src) target (closed.under dst) apart
    refine ⟨after, seen, moves.runs, ?_, ?_, moves.visited, once, met⟩
    · rw [moves.look, under_paste_apart _ _ apart, under_paste]
    · rw [moves.look, under_paste]

end Transfers

section Cases

private def listed : Platform String Nat where
  order _ _ names := names
  order_perm _ _ _ := List.Perm.refl _
  follow _ _ := none

private def bundles : World String Nat where
  disk := ⟨[([], .directory), (["src"], .directory), (["src", "a"], .file 1), (["dst"], .directory),
    (["dst", "a"], .file 2), (["dst", "keep"], .file 3)]⟩
  progress := some ⟨false, 0, 0, 16, true, []⟩
  visited := []

theorem merge_leaves_overlay_bundle : ∃ fuel after,
    mergeMoveTreeOnDisk listed fuel ["src"] ["dst"] bundles = .ok () after ∧
      after.disk.look ["dst", "a"] = some (.file 1) ∧ after.disk.look ["dst", "keep"] = some (.file 3) ∧
      after.disk.look ["src"] = none := by
  have calm : Calm bundles := by
    intro progress found
    cases found
    rfl
  have closed : bundles.disk.look.Closed := Disk.closed_of_entries _ (by decide)
  obtain ⟨bound, results⟩ := merge_leaves_overlay listed calm closed
    (show Apart ["src"] ["dst"] from ⟨by decide, by decide⟩) (by decide) (by decide)
  obtain ⟨after, seen, runs, target, source, _⟩ := (results bound (le_refl _)).2.2 (by decide)
  refine ⟨bound, after, runs, ?_, ?_, ?_⟩
  · exact (congrFun target ["a"]).trans (by decide)
  · exact (congrFun target ["keep"]).trans (by decide)
  · exact congrFun source []

private def fileSource : World String Nat where
  disk := ⟨[([], .directory), (["src"], .file 1), (["dst"], .directory)]⟩
  progress := none
  visited := []

/-- A merge-move whose source is a file fails and leaves the directory at the destination. -/
theorem merge_move_refuses_file :
    fileSource.disk.look ["src"] = some (.file 1) ∧ fileSource.disk.look ["dst"] = some .directory ∧
      ∀ fuel, ∃ error after,
        mergeMoveTreeOnDisk listed fuel ["src"] ["dst"] fileSource = .error error after ∧
          after.disk.look.under ["dst"] ≠
            overlay (fileSource.disk.look.under ["src"]) (fileSource.disk.look.under ["dst"]) := by
  have differ : fileSource.disk.look.under ["dst"] ≠
      overlay (fileSource.disk.look.under ["src"]) (fileSource.disk.look.under ["dst"]) := by
    intro same
    exact absurd (congrFun same []) (by decide)
  refine ⟨by decide, by decide, ?_⟩
  intro fuel
  cases fuel with
  | zero => exact ⟨.exhausted, fileSource, rfl, differ⟩
  | succ fuel => exact ⟨.notADirectory, fileSource, rfl, differ⟩

end Cases

end Mille.Transfer
