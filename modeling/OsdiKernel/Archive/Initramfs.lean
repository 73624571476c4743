import OsdiKernel.Archive.Model
import OsdiKernel.Fs.Model

/-!
# The archive as a file system

The start copies the entries of the archive to nodes of the virtual file system.
The contents of files are bytes of memory; the structures are kept by address,
and the buffers of the callers apart.
-/

namespace OsdiKernel.Archive

open Boot (textOf)
open Fs (Name State Node Vnode enoent einval eacces nodeSize vnodeSize maxFileName storeChild)

/-- The characters of a string. -/
def toName (text : List UInt8) : Name := text.map fun c => Char.ofNat c.toNat

/-- The file system and the bytes of memory. -/
structure Machine (H : Type) where
  fs : State H
  bytes : Nat → UInt8

variable {H : Type} [Allocator H]

/-- `memcpy(new_node->name, filename, filenamesize)` with a null character behind. -/
def nodeName (filename : Nat → UInt8) (filenamesize : Nat) : Option Name :=
  if maxFileName ≤ filenamesize then none
  else (textOf (Function.update filename filenamesize 0)).map toName

/-- `memcpy` to a buffer that may be null. -/
def copyTo (bytes : Nat → UInt8) (dest : Option Nat) (src n : Nat) : Option (Nat → UInt8) :=
  match dest with
  | some dest => some (copyLoop bytes dest src n)
  | none => if n = 0 then some bytes else none

/-- The loop of `initramfs_init`, without its message. -/
def initramfsReader (rootVnode : Nat) : Reader (Machine H) Unit where
  memory m := m.bytes
  entry header filenamesize filename m := do
    let filesize := (Boot.hexToUint (Boot.from_ m.bytes (header + cFilesize)) 8).toNat
    let (fs, newNode) := m.fs.alloc nodeSize
    let newNode ← newNode
    let name ← nodeName filename filenamesize.toNat
    let (fs, data) := fs.alloc filesize
    let bytes ← copyTo m.bytes data (header + (dataOffset filenamesize).toNat) filesize
    let fs := fs.setNode newNode ⟨name, .file, none, data, filesize, filesize, fun _ => none, 0⟩
    let (fs, newVnode) := fs.alloc vnodeSize
    let newVnode ← newVnode
    let fs := fs.setVnode newVnode
      { mount := none
        vOps := some .initramfs
        fOps := some .initramfs
        internal := some newNode
        parent := some rootVnode
        parentIsMount := false }
    let n ← (fs.vnodes rootVnode).internal
    let fs ← storeChild fs n newVnode
    return (⟨fs, bytes⟩, none)
  trailer m := some (m, ())
  invalid _ m := some (m, ())

def initramfsInit (magic : Nat → UInt8) (buffers : Buffers) (fuel cpioAddr : Nat) (m : Machine H)
    (rootVnode : Nat) : Option (Machine H) := do
  let n ← (m.fs.vnodes rootVnode).internal
  let fs := m.fs.setNode n { m.fs.nodes n with type := .directory }
  let (m, _) ← (initramfsReader rootVnode).loop magic fuel cpioAddr buffers { m with fs := fs }
  return m

/-- `vfs_init`, with the archive in memory. -/
def vfsInit (magic : Nat → UInt8) (buffers : Buffers) (fuel cpioAddr : Nat) (m : Machine H) :
    Option (Machine H) := do
  let fs ← Fs.vfsInitRoot m.fs
  if fs.rootfs = none then return { m with fs := fs }
  let (fs, _) ← Fs.vfsMkdir fs none ('/' :: Fs.initramfsName)
  let (fs, _) ← Fs.registerFs fs Fs.initramfsName .initramfs
  let (fs, _) ← Fs.vfsMount fs none ('/' :: Fs.initramfsName) Fs.initramfsName
  let (fs, _, initramfsNode) ← Fs.vfsLookup fs none ('/' :: Fs.initramfsName)
  let initramfsNode ← initramfsNode
  let m ← initramfsInit magic buffers fuel cpioAddr { m with fs := fs } initramfsNode
  let (fs, _) ← Fs.vfsMkdir m.fs none ['/', 'd', 'e', 'v']
  let (fs, _) ← Fs.vfsMknod fs none ['/', 'd', 'e', 'v', '/', 'u', 'a', 'r', 't'] .uart
  let (fs, _) ← Fs.vfsMknod fs none
    ['/', 'd', 'e', 'v', '/', 'f', 'r', 'a', 'm', 'e', 'b', 'u', 'f', 'f', 'e', 'r'] .framebuffer
  return { m with fs := fs }

/-! ## Operations -/

def vfsOpen (m : Machine H) (cwd : Option Nat) (pathname : Name) (flags : Nat) :
    Option (Machine H × Int × Option Nat) :=
  (Fs.vfsOpen m.fs cwd pathname flags).map fun (fs, result) => ({ m with fs := fs }, result)

def initramfsCreate (m : Machine H) (dirNode : Nat) (target : Option Nat) (componentName : Name) :
    Option (Machine H × Int × Option Nat) :=
  (Fs.FsType.initramfs.create m.fs dirNode target componentName).map fun (fs, result) =>
    ({ m with fs := fs }, result)

def initramfsMkdir (m : Machine H) (dirNode : Nat) (target : Option Nat) (componentName : Name) :
    Option (Machine H × Int × Option Nat) :=
  (Fs.FsType.initramfs.mkdir m.fs dirNode target componentName).map fun (fs, result) =>
    ({ m with fs := fs }, result)

def initramfsWrite (m : Machine H) (_file : Option Nat) (_buf : Option (Nat → UInt8)) (_len : Nat) :
    Machine H × Int := (m, eacces)

/-- The bytes that the caller's buffer receives come with the return value. -/
def initramfsRead (m : Machine H) (file : Option Nat) (buf : Bool) (len : Nat) :
    Option (Machine H × Int × List UInt8) :=
  let internal := do
    let f ← file
    let v ← (m.fs.files f).vnode
    let n ← (m.fs.vnodes v).internal
    return (f, n)
  match internal, buf with
  | some (f, n), true =>
      let node := m.fs.nodes n
      let fPos := (m.fs.files f).fPos
      if len = 0 then some (m, 0, [])
      else if node.type ≠ .file then some (m, eacces, [])
      else if node.size ≤ fPos then some (m, 0, [])
      else do
        let readableLen := if node.size < (fPos + len) % 2 ^ 64 then node.size - fPos else len
        let data ← node.data
        return ({ m with
            fs := m.fs.setFile f { m.fs.files f with fPos := (fPos + readableLen) % 2 ^ 64 } },
          Tmpfs.toInt readableLen,
          (List.range (readableLen % 2 ^ 32)).map fun i => m.bytes (data + fPos + i))
  | _, _ => some (m, einval, [])

end OsdiKernel.Archive
