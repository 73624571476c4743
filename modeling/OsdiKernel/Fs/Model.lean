import OsdiKernel.Fs.Path
import OsdiKernel.Lib.Allocator
import OsdiKernel.Tmpfs.Model

/-!
# The virtual file system

Vnodes, nodes, mounts and open files are structures in memory, at the
addresses that the heap returned for them.  Memory that is not written keeps
what it held, so a field that is never initialised reads as whatever was there.
A function returns none where the code dereferences a null pointer or stores
outside an array.
-/

namespace OsdiKernel.Fs

open Tmpfs (NodeType)

/-! ## Constants -/

def enoent : Int := -2
def enomem : Int := -3
def einval : Int := -4
def enosys : Int := -5
def eacces : Int := -6
def eexist : Int := -7
def einterr : Int := -8
def enodev : Int := -9
def ebusy : Int := -11

def oCreat : Nat := 0o100
def maxFileName : Nat := 64
def maxChildren : Nat := 16
def maxFilesystems : Nat := 10
def defaultFileSize : Nat := 4096

/-- `sizeof` of the structures on the heap. -/
def nodeSize : Nat := 240
def vnodeSize : Nat := 48
def mountSize : Nat := 16
def fileSize : Nat := 32
def filesystemSize : Nat := 16

/-! ## Structures -/

/-- The tables `tmpfs_v_ops` and `initramfs_v_ops`, and the functions that set
up a mount of each kind. -/
inductive FsType where
  | tmpfs
  | initramfs
  deriving DecidableEq

/-- The tables of file operations. -/
inductive FileOps where
  | tmpfs
  | initramfs
  | uart
  | framebuffer
  deriving DecidableEq

/-- `struct vnode`. -/
structure Vnode where
  mount : Option Nat
  vOps : Option FsType
  fOps : Option FileOps
  internal : Option Nat
  parent : Option Nat
  parentIsMount : Bool

/-- `struct tmpfs_node` and `struct initramfs_node`, which have the same fields. -/
structure Node where
  name : Name
  type : NodeType
  parent : Option Nat
  data : Option Nat
  size : Nat
  capacity : Nat
  children : Nat → Option Nat
  numChildren : Int

/-- `struct mount`, without the file system, which nothing reads. -/
structure Mount where
  root : Option Nat

/-- `struct file`. -/
structure File where
  vnode : Option Nat
  fPos : Nat
  fOps : Option FileOps
  flags : Nat

/-- `struct filesystem`. -/
structure Filesystem where
  name : Name
  setupMount : Option FsType

/-- The structures that a lookup reads, by address. -/
structure Graph where
  vnodes : Nat → Vnode
  nodes : Nat → Node
  mounts : Nat → Mount
  rootfs : Option Nat

/-- The heap, the structures on it, and the registered file systems. -/
structure State (H : Type) extends Graph where
  heap : H
  files : Nat → File
  filesystems : List Filesystem

namespace Graph

def setVnode (g : Graph) (v : Nat) (vnode : Vnode) : Graph :=
  { g with vnodes := Function.update g.vnodes v vnode }

def setNode (g : Graph) (n : Nat) (node : Node) : Graph :=
  { g with nodes := Function.update g.nodes n node }

def setMount (g : Graph) (m : Nat) (mount : Mount) : Graph :=
  { g with mounts := Function.update g.mounts m mount }

/-- `rootfs->root`. -/
def rootVnode (g : Graph) : Option (Option Nat) := g.rootfs.map fun m => (g.mounts m).root

/-- The root that is mounted on a vnode. -/
def mountRoot (g : Graph) (v : Nat) : Option Nat :=
  (g.vnodes v).mount.bind fun m => (g.mounts m).root

/-- From a vnode to the root that is mounted on it, if there is a mount. -/
def cross (g : Graph) (v : Nat) : Option Nat :=
  match (g.vnodes v).mount with
  | some m => (g.mounts m).root
  | none => some v

end Graph

variable {H : Type} [Allocator H]

namespace State

def alloc (s : State H) (size : Nat) : State H × Option Nat :=
  ({ s with heap := (Allocator.alloc s.heap size).1 }, (Allocator.alloc s.heap size).2)

def free (s : State H) (p : Nat) : State H := { s with heap := Allocator.free s.heap p }

/-- `free` of a pointer that may be null. -/
def freePtr (s : State H) (p : Option Nat) : State H :=
  { s with heap := Allocator.freePtr s.heap p }

def setVnode (s : State H) (v : Nat) (vnode : Vnode) : State H :=
  { s with toGraph := s.toGraph.setVnode v vnode }

def setNode (s : State H) (n : Nat) (node : Node) : State H :=
  { s with toGraph := s.toGraph.setNode n node }

def setMount (s : State H) (m : Nat) (mount : Mount) : State H :=
  { s with toGraph := s.toGraph.setMount m mount }

def setFile (s : State H) (f : Nat) (file : File) : State H :=
  { s with files := Function.update s.files f file }

end State

/-! ## Lookup in a directory -/

/-- The loop over the children; the result is the first child of that name. -/
def searchChildren (g : Graph) (node : Node) (componentName : Name) :
    Nat → Nat → Option (Option Nat)
  | 0, _ => some none
  | left + 1, i =>
      if maxChildren ≤ i then none
      else do
        let child ← node.children i
        let internal ← (g.vnodes child).internal
        if (g.nodes internal).name = componentName then some (some child)
        else searchChildren g node componentName left (i + 1)

def findChild (g : Graph) (node : Node) (componentName : Name) : Option (Option Nat) :=
  searchChildren g node componentName node.numChildren.toNat 0

/-- The common body of `tmpfs_lookup` and `initramfs_lookup`: the return value and `*target`. -/
def lookupNode (g : Graph) (dirNode : Nat) (componentName : Name) :
    Option (Int × Option Nat) :=
  match (g.vnodes dirNode).internal with
  | none => some (einval, none)
  | some n =>
      if (g.nodes n).type ≠ .directory then some (eacces, none)
      else do
        match ← findChild g (g.nodes n) componentName with
        | some child => return (0, some child)
        | none => return (enoent, none)

def tmpfsLookup (g : Graph) (dirNode : Nat) (componentName : Name) : Option (Int × Option Nat) :=
  lookupNode g dirNode componentName

def initramfsLookup (g : Graph) (dirNode : Nat) (componentName : Name) :
    Option (Int × Option Nat) :=
  lookupNode g dirNode componentName

def FsType.lookup (ops : FsType) (g : Graph) (dirNode : Nat) (componentName : Name) :
    Option (Int × Option Nat) :=
  match ops with
  | .tmpfs => tmpfsLookup g dirNode componentName
  | .initramfs => initramfsLookup g dirNode componentName

/-! ## Lookup of a path -/

/-- The variables `current_vnode` and `*target` of `vfs_lookup`. -/
structure Walk where
  current : Option Nat
  target : Option Nat

/-- The branch of `vfs_lookup` for "..".  A nonzero first result is returned at once. -/
def walkUp (g : Graph) (w : Walk) : Option (Int × Walk) := do
  let root ← g.rootVnode
  if w.current = root then return (0, w)
  let current ← w.current
  match (g.vnodes current).parent with
  | none => return (einterr, w)
  | some vfsP =>
      if g.mountRoot vfsP = some current then
        if some vfsP = root then return (0, ⟨root, root⟩)
        match (g.vnodes vfsP).parent with
        | some parent => return (0, ⟨some parent, some parent⟩)
        | none => return (einterr, w)
      else return (0, ⟨some vfsP, some vfsP⟩)

/-- The rest of the loop of `vfs_lookup`, for a component that is a name. -/
def walkDown (g : Graph) (w : Walk) (componentName : Name) : Option (Int × Walk) := do
  let current ← w.current
  let current ← g.cross current
  match (g.vnodes current).vOps with
  | none => return (enosys, w)
  | some ops =>
      let (result, next) ← ops.lookup g current componentName
      if result ≠ 0 then return (result, w)
      let next ← next
      return (0, { w with current := g.cross next })

/-- One round of the loop of `vfs_lookup`. -/
def walkComponent (g : Graph) (w : Walk) (componentName : Name) : Option (Int × Walk) :=
  if componentName = ['.'] then some (0, w)
  else if componentName = ['.', '.'] then walkUp g w
  else walkDown g w componentName

/-- The loop of `vfs_lookup`; the fuel bounds the number of components. -/
def walkLoop (g : Graph) : Nat → Buffer → Nat → Walk → Option (Int × Option Nat)
  | 0, _, _, _ => none
  | fuel + 1, pathCopy, currentPathPtr, w =>
      match getNextComponent pathCopy currentPathPtr with
      | (_, _, none) => some (0, w.current)
      | (pathCopy, currentPathPtr, some componentName) => do
          let (result, w) ← walkComponent g w (stringAt pathCopy componentName)
          if result ≠ 0 then return (result, w.target)
          walkLoop g fuel pathCopy currentPathPtr w

/-- The part of `vfs_lookup` between the allocation and the release of the copy
of the path: the return value and `*target`. -/
def resolve (g : Graph) (cwd : Option Nat) (pathname : Name) : Option (Int × Option Nat) := do
  let pathCopy := strdup pathname
  if charAt pathCopy 0 = some '/' then
    let root ← g.rootVnode
    if pathname = ['/'] then return (0, root)
    walkLoop g pathCopy.length pathCopy 0 ⟨root, none⟩
  else if cwd = none then return (einterr, none)
  else if pathname = [] ∨ pathname = ['.'] then return (0, cwd)
  else walkLoop g pathCopy.length pathCopy 0 ⟨cwd, none⟩

/-- The results are the return value and `*target`. -/
def vfsLookup (s : State H) (cwd : Option Nat) (pathname : Name) :
    Option (State H × Int × Option Nat) :=
  match s.alloc (pathname.length + 1) with
  | (s, none) => some (s, enomem, none)
  | (s, some pathCopy) => do
      let (result, target) ← resolve s.toGraph cwd pathname
      return (s.free pathCopy, result, target)

/-! ## Creation in a directory -/

/-- The name has fewer than `MAX_FILE_NAME` characters at every call. -/
def tmpfsCreateInternalNode (s : State H) (name : Name) (type : NodeType) (parent : Option Nat) :
    State H × Option Nat :=
  match s.alloc nodeSize with
  | (s, none) => (s, none)
  | (s, some newNode) =>
      let s := s.setNode newNode ⟨name, type, parent, none, 0, 0, fun _ => none, 0⟩
      if type = .file then
        match s.alloc defaultFileSize with
        | (s, none) => (s.free newNode, none)
        | (s, some data) =>
            (s.setNode newNode
              { s.nodes newNode with data := some data, capacity := defaultFileSize }, some newNode)
      else (s, some newNode)

/-- `children[num_children++] = child`. -/
def storeChild (s : State H) (n child : Nat) : Option (State H) :=
  if 0 ≤ (s.nodes n).numChildren ∧ (s.nodes n).numChildren < maxChildren then
    some (s.setNode n
      { s.nodes n with
        children := Function.update (s.nodes n).children (s.nodes n).numChildren.toNat (some child)
        numChildren := (s.nodes n).numChildren + 1 })
  else none

/-- The part of `tmpfs_create_or_mkdir` that follows the checks. -/
def tmpfsAddChild (s : State H) (dirNode parentInternal : Nat) (componentName : Name)
    (type : NodeType) : Option (State H × Int × Option Nat) :=
  match tmpfsCreateInternalNode s componentName type (some parentInternal) with
  | (s, none) => some (s, enomem, none)
  | (s, some newInternal) =>
      match s.alloc vnodeSize with
      | (s, none) => some ((s.freePtr (s.nodes newInternal).data).free newInternal, enomem, none)
      | (s, some newVnode) => do
          let s := s.setVnode newVnode
            { mount := (s.vnodes dirNode).mount
              vOps := some .tmpfs
              fOps := some .tmpfs
              internal := some newInternal
              parent := some dirNode
              parentIsMount := false }
          let s ← storeChild s parentInternal newVnode
          return (s, 0, some newVnode)

/-- The results are the return value and `*target`, which is an argument as
well: the first check leaves it as it is. -/
def tmpfsCreateOrMkdir (s : State H) (dirNode : Nat) (target : Option Nat) (componentName : Name)
    (type : NodeType) : Option (State H × Int × Option Nat) :=
  match (s.vnodes dirNode).internal with
  | none => some (s, einval, target)
  | some parentInternal =>
      if componentName = [] then some (s, einval, target)
      else if (s.nodes parentInternal).type ≠ .directory then some (s, eacces, none)
      else if maxFileName ≤ componentName.length then some (s, einval, none)
      else
        match findChild s.toGraph (s.nodes parentInternal) componentName with
        | none => none
        | some (some _) => some (s, eexist, none)
        | some none =>
            if maxChildren ≤ (s.nodes parentInternal).numChildren then some (s, enomem, none)
            else tmpfsAddChild s dirNode parentInternal componentName type

def tmpfsCreate (s : State H) (dirNode : Nat) (target : Option Nat) (componentName : Name) :
    Option (State H × Int × Option Nat) :=
  tmpfsCreateOrMkdir s dirNode target componentName .file

def tmpfsMkdir (s : State H) (dirNode : Nat) (target : Option Nat) (componentName : Name) :
    Option (State H × Int × Option Nat) :=
  tmpfsCreateOrMkdir s dirNode target componentName .directory

def FsType.create (ops : FsType) (s : State H) (dirNode : Nat) (target : Option Nat)
    (componentName : Name) : Option (State H × Int × Option Nat) :=
  match ops with
  | .tmpfs => tmpfsCreate s dirNode target componentName
  | .initramfs => some (s, eacces, target)

def FsType.mkdir (ops : FsType) (s : State H) (dirNode : Nat) (target : Option Nat)
    (componentName : Name) : Option (State H × Int × Option Nat) :=
  match ops with
  | .tmpfs => tmpfsMkdir s dirNode target componentName
  | .initramfs => some (s, eacces, target)

/-! ## Creation by path -/

/-- The loop that looks for the last slash before a position. -/
def lastSlashLoop (pathname : Name) : Nat → Option Nat
  | 0 => none
  | i + 1 => if pathname[i]? = some '/' then some i else lastSlashLoop pathname i

/-- `last_slash_index`; none is -1. -/
def lastSlash (pathname : Name) : Option Nat := lastSlashLoop pathname pathname.length

/-- What follows the last slash. -/
def baseName (pathname : Name) : Name :=
  match lastSlash pathname with
  | none => pathname
  | some i => pathname.drop (i + 1)

/-- The lookup of the parent directory of a path with a slash. -/
def lookupParent (s : State H) (cwd : Option Nat) (pathname : Name) (lastSlashIndex : Nat) :
    Option (State H × Int × Option Nat) :=
  if lastSlashIndex = 0 then vfsLookup s cwd ['/']
  else vfsLookup s cwd (pathname.take lastSlashIndex)

def mkdirParent (s : State H) (cwd : Option Nat) (pathname : Name) :
    Option (State H × Int × Option Nat) :=
  match lastSlash pathname with
  | none => if cwd = none then some (s, einterr, none) else some (s, 0, cwd)
  | some i => lookupParent s cwd pathname i

/-- The results are the return value and the local variable `new_dir_vnode`. -/
def vfsMkdir (s : State H) (cwd : Option Nat) (pathname : Name) :
    Option (State H × Int × Option Nat) :=
  match s.alloc (pathname.length + 1) with
  | (s, none) => some (s, enomem, none)
  | (s, some pathCopy) => do
      let (s, result, parentVnode) ← mkdirParent s cwd pathname
      if result ≠ 0 then return (s.free pathCopy, result, none)
      if baseName pathname = [] then return (s.free pathCopy, einval, none)
      match parentVnode with
      | none => return (s.free pathCopy, eacces, none)
      | some dir =>
          match (s.vnodes dir).vOps with
          | none => return (s.free pathCopy, eacces, none)
          | some ops =>
              let (s, result, newDirVnode) ← ops.mkdir s dir none (baseName pathname)
              return (s.free pathCopy, result, newDirVnode)

/-- Unlike `vfs_mkdir`, `vfs_open` falls back to the root. -/
def openParent (s : State H) (cwd : Option Nat) (pathname : Name) :
    Option (State H × Int × Option Nat) :=
  match lastSlash pathname with
  | none =>
      match cwd with
      | some cwd => some (s, 0, some cwd)
      | none => do
          let root ← s.rootVnode
          return (s, 0, root)
  | some i => lookupParent s cwd pathname i

/-- The part of `vfs_open` that creates the file.  It returns an error at once,
or goes on with the vnode and the result of `create`, which `vfs_open` ignores. -/
def openCreate (s : State H) (cwd : Option Nat) (pathname : Name) (vnode : Option Nat) :
    Option (State H × Except Int (Int × Option Nat)) :=
  match s.alloc (pathname.length + 1) with
  | (s, none) => some (s, .error enomem)
  | (s, some pathCopy) => do
      let (s, result, parentVnode) ← openParent s cwd pathname
      if result ≠ 0 then return (s.free pathCopy, .error result)
      match parentVnode with
      | none => return (s.free pathCopy, .error eacces)
      | some dir =>
          match (s.vnodes dir).vOps with
          | none => return (s.free pathCopy, .error eacces)
          | some ops =>
              let (s, result, vnode) ← ops.create s dir vnode (baseName pathname)
              return (s.free pathCopy, .ok (result, vnode))

/-! ## Open files -/

/-- The common body of `tmpfs_open` and `initramfs_open`. -/
def openNode (s : State H) (fileNode : Nat) (target : Option Nat) : State H × Int × Option Nat :=
  match target with
  | none => (s, einval, none)
  | some f =>
      (s.setFile f
        { s.files f with vnode := some fileNode, fPos := 0, fOps := (s.vnodes fileNode).fOps },
        0, some f)

/-- The common body of `dev_uart_open` and `dev_framebuffer_open`. -/
def openDevice (s : State H) (fileNode : Nat) (device : FileOps) : State H × Int × Option Nat :=
  match s.alloc fileSize with
  | (s, none) => (s, enomem, none)
  | (s, some f) =>
      (s.setFile f { s.files f with vnode := some fileNode, fPos := 0, fOps := some device },
        0, some f)

/-- The results are the return value and `*target`. -/
def FileOps.open (ops : FileOps) (s : State H) (fileNode : Nat) (target : Option Nat) :
    State H × Int × Option Nat :=
  match ops with
  | .tmpfs => openNode s fileNode target
  | .initramfs => openNode s fileNode target
  | .uart => openDevice s fileNode .uart
  | .framebuffer => openDevice s fileNode .framebuffer

/-- The end of `vfs_open`. -/
def openVnode (s : State H) (vnode : Option Nat) (flags : Nat) :
    Option (State H × Int × Option Nat) := do
  let (s, target) := s.alloc fileSize
  let vnode ← vnode
  let ops ← (s.vnodes vnode).fOps
  let (s, result, target) := ops.open s vnode target
  if result ≠ 0 then return (s.freePtr target, result, target)
  let f ← target
  return (s.setFile f { s.files f with flags := flags }, 0, some f)

/-- The results are the return value and `*target`. -/
def vfsOpen (s : State H) (cwd : Option Nat) (pathname : Name) (flags : Nat) :
    Option (State H × Int × Option Nat) := do
  let (s, lookupResult, vnode) ← vfsLookup s cwd pathname
  if lookupResult ≠ 0 then
    if flags &&& oCreat ≠ 0 then
      match ← openCreate s cwd pathname vnode with
      | (s, .error result) => return (s, result, none)
      | (s, .ok (_, vnode)) => openVnode s vnode flags
    else return (s, lookupResult, none)
  else openVnode s vnode flags

/-- `close` of tmpfs and initramfs keeps the structure; that of a device releases it. -/
def FileOps.close (ops : FileOps) (s : State H) (file : Nat) : State H × Int :=
  match ops with
  | .tmpfs => (s.setFile file ⟨none, 0, none, 0⟩, 0)
  | .initramfs => (s.setFile file ⟨none, 0, none, 0⟩, 0)
  | .uart => (s.free file, 0)
  | .framebuffer => (s.free file, 0)

def vfsClose (s : State H) (file : Nat) : State H × Int :=
  match (s.files file).fOps with
  | none => (s, enosys)
  | some ops => ops.close s file

def vfsMknod (s : State H) (cwd : Option Nat) (pathname : Name) (fOps : FileOps) :
    Option (State H × Int) := do
  let (s, result, dev) ← vfsOpen s cwd pathname oCreat
  if result ≠ 0 then return (s, result)
  let dev ← dev
  let vnode ← (s.files dev).vnode
  let s := s.setVnode vnode { s.vnodes vnode with fOps := some fOps }
  return vfsClose s dev

/-! ## Mounts -/

/-- The common end of the functions that set up a mount: the root vnode.  The
field `parent` is not written. -/
def setupRoot (s : State H) (mount root : Nat) (ops : FsType) (fOps : FileOps) :
    State H × Int :=
  match s.alloc vnodeSize with
  | (s, none) =>
      let s := s.setMount mount ⟨none⟩
      ((s.freePtr (s.nodes root).data).free root, enomem)
  | (s, some v) =>
      let s := s.setMount mount ⟨some v⟩
      (s.setVnode v
        { s.vnodes v with
          mount := none
          vOps := some ops
          fOps := some fOps
          internal := some root
          parentIsMount := true }, 0)

def tmpfsSetupMount (s : State H) (mount : Nat) : State H × Int :=
  match tmpfsCreateInternalNode s ['/'] .directory none with
  | (s, none) => (s, enomem)
  | (s, some tmpfsRoot) => setupRoot s mount tmpfsRoot .tmpfs .tmpfs

/-- The root node is not initialised. -/
def initramfsSetupMount (s : State H) (mount : Nat) : State H × Int :=
  match s.alloc nodeSize with
  | (s, none) => (s, enomem)
  | (s, some initramfsRoot) => setupRoot s mount initramfsRoot .initramfs .initramfs

def FsType.setupMount (fs : FsType) (s : State H) (mount : Nat) : State H × Int :=
  match fs with
  | .tmpfs => tmpfsSetupMount s mount
  | .initramfs => initramfsSetupMount s mount

/-- The part of `vfs_mount` that follows the checks of the target. -/
def mountOnto (s : State H) (targetVnode : Nat) (fsToMount : Filesystem) :
    Option (State H × Int) :=
  match s.alloc mountSize with
  | (s, none) => some (s, enomem)
  | (s, some newMount) => do
      let s := s.setMount newMount ⟨none⟩
      let s := s.setVnode targetVnode { s.vnodes targetVnode with mount := some newMount }
      match fsToMount.setupMount with
      | none => return (s.free newMount, enosys)
      | some fs =>
          let (s, setupResult) := fs.setupMount s newMount
          if setupResult ≠ 0 then
            let s := s.setVnode targetVnode { s.vnodes targetVnode with mount := none }
            return (s.free newMount, setupResult)
          let root ← (s.mounts newMount).root
          return (s.setVnode root { s.vnodes root with parent := some targetVnode }, 0)

def vfsMount (s : State H) (cwd : Option Nat) (targetPathname filesystemName : Name) :
    Option (State H × Int) :=
  match s.filesystems.find? fun fs => fs.name = filesystemName with
  | none => some (s, enodev)
  | some fsToMount => do
      let (s, lookupResult, targetVnode) ← vfsLookup s cwd targetPathname
      if lookupResult ≠ 0 then return (s, lookupResult)
      let targetVnode ← targetVnode
      if (s.vnodes targetVnode).vOps = none then return (s, enosys)
      if (s.vnodes targetVnode).mount ≠ none ∨ (s.vnodes targetVnode).parentIsMount then
        return (s, ebusy)
      mountOnto s targetVnode fsToMount

/-! ## Start -/

def registerFilesystem (s : State H) (fs : Filesystem) : State H × Int :=
  if s.filesystems.length < maxFilesystems then
    if s.filesystems.any fun other => other.name = fs.name then (s, eexist)
    else ({ s with filesystems := s.filesystems ++ [fs] }, 0)
  else (s, enomem)

def tmpfsName : Name := ['t', 'm', 'p', 'f', 's']
def initramfsName : Name := ['i', 'n', 'i', 't', 'r', 'a', 'm', 'f', 's']

/-- The common body of `register_tmpfs` and `register_initramfs`. -/
def registerFs (s : State H) (name : Name) (setup : FsType) : Option (State H × Int) := do
  let (s, fs) := s.alloc filesystemSize
  let _ ← fs
  return registerFilesystem s ⟨name, some setup⟩

/-- One round of the loop of `initramfs_init`, for an entry of the archive with
a name and a size. -/
def initramfsEntry (s : State H) (rootVnode : Nat) (filename : Name) (filesize : Nat) :
    Option (State H) := do
  let (s, newNode) := s.alloc nodeSize
  let newNode ← newNode
  if maxFileName ≤ filename.length + 1 then none
  let (s, data) := s.alloc filesize
  if filesize ≠ 0 ∧ data = none then none
  let s := s.setNode newNode ⟨filename, .file, none, data, filesize, filesize, fun _ => none, 0⟩
  let (s, newVnode) := s.alloc vnodeSize
  let newVnode ← newVnode
  let s := s.setVnode newVnode
    { mount := none
      vOps := some .initramfs
      fOps := some .initramfs
      internal := some newNode
      parent := some rootVnode
      parentIsMount := false }
  let n ← (s.vnodes rootVnode).internal
  storeChild s n newVnode

/-- `initramfs_init`, on the entries of the archive before its trailer. -/
def initramfsInit (s : State H) (rootVnode : Nat) (archive : List (Name × Nat)) :
    Option (State H) := do
  let n ← (s.vnodes rootVnode).internal
  let s := s.setNode n { s.nodes n with type := .directory }
  archive.foldlM (fun s entry => initramfsEntry s rootVnode entry.1 entry.2) s

/-- If the root cannot be set up, the store to `rootfs->root->parent` fails. -/
def vfsInitRoot (s : State H) : Option (State H) := do
  let (s, _) ← registerFs s tmpfsName .tmpfs
  match s.alloc mountSize with
  | (s, none) => return { s with rootfs := none }
  | (s, some rootfs) =>
      let s := { s with rootfs := some rootfs }
      let first ← s.filesystems.head?
      let setup ← first.setupMount
      let (s, setupResult) := setup.setupMount s rootfs
      if setupResult ≠ 0 then none
      let root ← (s.mounts rootfs).root
      return s.setVnode root { s.vnodes root with parent := none }

def vfsInit (s : State H) (archive : List (Name × Nat)) : Option (State H) := do
  let s ← vfsInitRoot s
  if s.rootfs = none then return s
  let (s, _) ← vfsMkdir s none ('/' :: initramfsName)
  let (s, _) ← registerFs s initramfsName .initramfs
  let (s, _) ← vfsMount s none ('/' :: initramfsName) initramfsName
  let (s, _, initramfsNode) ← vfsLookup s none ('/' :: initramfsName)
  let initramfsNode ← initramfsNode
  let s ← initramfsInit s initramfsNode archive
  let (s, _) ← vfsMkdir s none ['/', 'd', 'e', 'v']
  let (s, _) ← vfsMknod s none ['/', 'd', 'e', 'v', '/', 'u', 'a', 'r', 't'] .uart
  let (s, _) ← vfsMknod s none
    ['/', 'd', 'e', 'v', '/', 'f', 'r', 'a', 'm', 'e', 'b', 'u', 'f', 'f', 'e', 'r'] .framebuffer
  return s

end OsdiKernel.Fs
