import Mille.Lib.FileTree

/-! Copying, merging and merge-moving directory trees on disk, with the progress they
report. Recursion is bounded by fuel; every result says that enough of it gives one. -/

namespace Mille.Transfer

open FileTree

variable {ν κ : Type} [DecidableEq ν]

/-- What the platform decides: the order a listing comes in and what a link leads to. -/
structure Platform (ν κ : Type) where
  order : Disk ν κ → List ν → List ν → List ν
  order_perm : ∀ disk path names, (order disk path names).Perm names
  follow : Disk ν κ → List ν → Option (Node ν κ)

/-- The counters of an operation and the reports it emitted: done, total and path. -/
structure Progress (ν : Type) where
  cancelled : Bool
  done : Nat
  total : Nat
  reportEvery : Nat
  reportProgress : Bool
  reports : List (Nat × Nat × List ν)

namespace Progress

def bump (progress : Progress ν) (path : List ν) : Progress ν :=
  let done := progress.done + 1
  let total := max progress.total done
  { progress with
    done := done
    reports :=
      if progress.reportProgress && (done == 1 || done == total || done % progress.reportEvery == 0)
      then progress.reports ++ [(done, total, path)] else progress.reports }

/-- The counts of the completion report. -/
def complete (progress : Progress ν) : Nat × Nat :=
  (progress.done, max progress.total progress.done)

end Progress

inductive FxError where
  | notFound
  | notADirectory
  | alreadyExists
  | notEmpty
  | unsupported
  | invalidInput
  | cancelled
  /-- The fuel ran out; no call of the code ends so. -/
  | exhausted
  deriving DecidableEq

/-- The disk, the progress of the operation if it has one, and a log of the entries that
a merge-move visited. -/
structure World (ν κ : Type) where
  disk : Disk ν κ
  progress : Option (Progress ν)
  visited : List (List ν)

abbrev Op (ν κ α : Type) := EStateM FxError (World ν κ) α

def check : Op ν κ Unit := fun world =>
  match world.progress with
  | some progress => if progress.cancelled then .error .cancelled world else .ok () world
  | none => .ok () world

def bump (path : List ν) : Op ν κ Unit := fun world =>
  .ok () { world with progress := world.progress.map (·.bump path) }

def visit (path : List ν) : Op ν κ Unit := fun world =>
  .ok () { world with visited := world.visited ++ [path] }

/-- `symlink_metadata`, with `none` for `NotFound`. -/
def lookup (path : List ν) : Op ν κ (Option (Node ν κ)) := fun world =>
  .ok (world.disk.look path) world

/-- `symlink_metadata`, where a missing path is an error. -/
def symlinkMetadata (path : List ν) : Op ν κ (Node ν κ) := fun world =>
  match world.disk.look path with
  | some node => .ok node world
  | none => .error .notFound world

def metadata (platform : Platform ν κ) (path : List ν) : Op ν κ (Option (Node ν κ)) := fun world =>
  .ok (platform.follow world.disk path) world

def readDir (platform : Platform ν κ) (path : List ν) : Op ν κ (List ν) := fun world =>
  match world.disk.look path with
  | some .directory => .ok (platform.order world.disk path (world.disk.names path)) world
  | some _ => .error .notADirectory world
  | none => .error .notFound world

/-- Whether a path can be made: its parent is a directory. -/
def grounded (view : View ν κ) (path : List ν) : Bool :=
  !path.isEmpty && View.isDir (view.under path.dropLast)

def createDir (path : List ν) : Op ν κ Unit := fun world =>
  if !grounded world.disk.look path then .error .notFound world
  else
    match world.disk.look path with
    | some _ => .error .alreadyExists world
    | none => .ok () { world with disk := world.disk.put path .directory }

/-- `copy` of content to a path that is free or a regular file. -/
def writeFile (content : κ) (path : List ν) : Op ν κ Unit := fun world =>
  if !grounded world.disk.look path then .error .notFound world
  else
    match world.disk.look path with
    | none | some (.file _) => .ok () { world with disk := world.disk.put path (.file content) }
    | some _ => .error .invalidInput world

def createSymlink (target path : List ν) : Op ν κ Unit := fun world =>
  if !grounded world.disk.look path then .error .notFound world
  else
    match world.disk.look path with
    | some _ => .error .alreadyExists world
    | none => .ok () { world with disk := world.disk.put path (.symlink target) }

/-- `rename`: over nothing, a file over a file, or a directory over an empty one. -/
def rename (source target : List ν) : Op ν κ Unit := fun world =>
  match world.disk.look source with
  | none => .error .notFound world
  | some node =>
    if source <+: target then .error .invalidInput world
    else if !grounded world.disk.look target then .error .notFound world
    else
      match world.disk.look target, node with
      | none, _ => .ok () { world with disk := world.disk.moveTree source target }
      | some .directory, .directory =>
        if (world.disk.names target).isEmpty then
          .ok () { world with disk := (world.disk.removeTree target).moveTree source target }
        else .error .notEmpty world
      | some .directory, _ => .error .alreadyExists world
      | some _, .directory => .error .notADirectory world
      | some _, _ => .ok () { world with disk := (world.disk.removeTree target).moveTree source target }

/-- `remove_dir` where the result is ignored: only an empty directory goes. -/
def removeDir (path : List ν) : Op ν κ Unit := fun world =>
  match world.disk.look path with
  | some .directory =>
    if (world.disk.names path).isEmpty then .ok () { world with disk := world.disk.removeTree path }
    else .ok () world
  | _ => .ok () world

/-- A directory goes with everything in it, anything else as a file. -/
def removePathBestEffort (path : List ν) : Op ν κ Unit := fun world =>
  match world.disk.look path with
  | none => .ok () world
  | some .directory => .ok () { world with disk := world.disk.removeTree path }
  | some _ => .ok () { world with disk := world.disk.removeTree path }

/-- The stack holds the directories above; each is its own canonical path. -/
def countCopyEntries (platform : Platform ν κ) : Nat → List ν → List (List ν) → Op ν κ Nat
  | 0, _, _ => throw .exhausted
  | fuel + 1, src, stack => do
    check
    match ← symlinkMetadata src with
    | .symlink _ => return 1
    | .file _ => return 1
    | .special => return 1
    | .directory =>
      if src ∈ stack then return 0
      else
        let names ← readDir platform src
        names.foldlM (fun total name => do
          let more ← countCopyEntries platform fuel (src ++ [name]) (stack ++ [src])
          return total + more) 1

/-- A link to a directory is refused, a link to a file is copied as its content, a
dangling link is made again. -/
def copyTreeOnDisk (platform : Platform ν κ) : Nat → List ν → List ν → List (List ν) → Op ν κ Unit
  | 0, _, _, _ => throw .exhausted
  | fuel + 1, src, dst, stack => do
    check
    match ← symlinkMetadata src with
    | .symlink target =>
      match ← metadata platform src with
      | some .directory => throw .unsupported
      | some (.file content) =>
        writeFile content dst
        bump dst
      | some _ => throw .invalidInput
      | none =>
        createSymlink target dst
        bump dst
    | .file content =>
      writeFile content dst
      bump dst
    | .special => throw .unsupported
    | .directory =>
      if src ∈ stack then throw .invalidInput
      else
        createDir dst
        bump dst
        let names ← readDir platform src
        names.forM fun name => do
          check
          copyTreeOnDisk platform fuel (src ++ [name]) (dst ++ [name]) (stack ++ [src])

def mergeTreeOnDisk (platform : Platform ν κ) : Nat → List ν → List ν → Op ν κ Unit
  | 0, _, _ => throw .exhausted
  | fuel + 1, src, dst => do
    let srcMeta ← symlinkMetadata src
    if let .symlink _ := srcMeta then
      if let some .directory ← metadata platform src then throw .unsupported
    match ← lookup dst with
    | none => copyTreeOnDisk platform (fuel + 1) src dst []
    | some dstMeta =>
      match srcMeta, dstMeta with
      | .directory, .directory =>
        bump dst
        let names ← readDir platform src
        names.forM fun name => do
          check
          mergeTreeOnDisk platform fuel (src ++ [name]) (dst ++ [name])
      | _, _ =>
        removePathBestEffort dst
        copyTreeOnDisk platform (fuel + 1) src dst []

/-- The loop body of a merge-move, with the recursive call for two directories. -/
def mergeMoveChild (descend : List ν → List ν → Op ν κ Unit) (src dst : List ν) (name : ν) :
    Op ν κ Unit := do
  check
  visit (src ++ [name])
  let srcMeta ← symlinkMetadata (src ++ [name])
  match ← lookup (dst ++ [name]) with
  | none =>
    rename (src ++ [name]) (dst ++ [name])
    bump (dst ++ [name])
  | some dstMeta =>
    match srcMeta, dstMeta with
    | .directory, .directory =>
      descend (src ++ [name]) (dst ++ [name])
      removeDir (src ++ [name])
    | _, _ =>
      removePathBestEffort (dst ++ [name])
      rename (src ++ [name]) (dst ++ [name])
      bump (dst ++ [name])

def mergeMoveTreeOnDisk (platform : Platform ν κ) : Nat → List ν → List ν → Op ν κ Unit
  | 0, _, _ => throw .exhausted
  | fuel + 1, src, dst => do
    check
    bump dst
    let names ← readDir platform src
    names.forM (mergeMoveChild (mergeMoveTreeOnDisk platform fuel) src dst)
    removeDir src

/-- The total a copy stores before it starts. -/
def storeTotal (total : Nat) : Op ν κ Unit := fun world =>
  .ok () { world with progress := world.progress.map fun progress => { progress with total := total } }

/-- The merge branch of `copy`: with progress the entries are counted first, and a count
that fails leaves a total of one. -/
def copyMerging (platform : Platform ν κ) (fuel : Nat) (src dst : List ν) : Op ν κ Unit := fun world =>
  match world.progress with
  | none => mergeTreeOnDisk platform fuel src dst world
  | some _ =>
    match countCopyEntries platform fuel src [] world with
    | .ok total world => (storeTotal (max total 1) >>= fun _ => mergeTreeOnDisk platform fuel src dst) world
    | .error .cancelled world => .error .cancelled world
    | .error _ world => (storeTotal 1 >>= fun _ => mergeTreeOnDisk platform fuel src dst) world

end Mille.Transfer
