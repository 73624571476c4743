import OsdiKernel.Kmem.Model
import OsdiKernel.Lib.ByteFile

/-!
# Regular files of tmpfs

File contents live in heap buffers.  The machine consists of the heap, the
bytes of memory, the `tmpfs_node` structures by address, and the vnodes and
open files that refer to them.  The caller's buffers are kept apart from this
memory.  Sizes and positions are `size_t` and wrap at `2 ^ 64`; `alloc` and
`memcpy` take an `unsigned int`, so their arguments wrap at `2 ^ 32`.
-/

namespace OsdiKernel.Tmpfs

open Kmem (Heap Layout)

def defaultFileSize : Nat := 4096

/-- `sizeof(struct tmpfs_node)`. -/
def nodeSize : Nat := 240

def einval : Int := -4
def eacces : Int := -6
def enomem : Int := -3

inductive NodeType where
  | file
  | directory
  deriving DecidableEq

/-- The fields of `struct tmpfs_node` that concern file contents. -/
structure Node where
  type : NodeType
  data : Nat
  size : Nat
  capacity : Nat

/-- The fields of `struct file` that tmpfs uses. -/
structure File where
  vnode : Option Nat
  fPos : Nat

/-- `vnodes` is the field `internal` of each vnode; `accesses` records the
ranges of memory that `memcpy` has read or written. -/
structure Machine where
  heap : Heap
  bytes : Nat → UInt8
  nodes : Nat → Node
  vnodes : Nat → Option Nat
  files : Nat → File
  accesses : List (Nat × Nat)

namespace Machine

def setNode (m : Machine) (n : Nat) (node : Node) : Machine :=
  { m with nodes := Function.update m.nodes n node }

def setPos (m : Machine) (file pos : Nat) : Machine :=
  { m with files := Function.update m.files file { m.files file with fPos := pos } }

/-- `memcpy` between two buffers in memory. -/
def memcpy (m : Machine) (dest src n : Nat) : Machine :=
  { m with
    bytes := copyLoop m.bytes dest src (n % 2 ^ 32)
    accesses := (dest, n % 2 ^ 32) :: (src, n % 2 ^ 32) :: m.accesses }

/-- `memcpy` from a buffer of the caller. -/
def memcpyFrom (m : Machine) (dest : Nat) (buf : Nat → UInt8) (n : Nat) : Machine :=
  { m with
    bytes := storeLoop m.bytes dest buf (n % 2 ^ 32)
    accesses := (dest, n % 2 ^ 32) :: m.accesses }

/-- `memcpy` to a buffer of the caller, which receives the listed bytes. -/
def memcpyTo (m : Machine) (src n : Nat) : Machine × List UInt8 :=
  ({ m with accesses := (src, n % 2 ^ 32) :: m.accesses },
    (List.range (n % 2 ^ 32)).map fun i => m.bytes (src + i))

/-- The file and its node, if no pointer on the way is null. -/
def internal (m : Machine) (file : Option Nat) : Option (Nat × Nat) := do
  let f ← file
  let v ← (m.files f).vnode
  let n ← m.vnodes v
  return (f, n)

end Machine

/-- The conversion of a `size_t` to the `int` that a function returns. -/
def toInt (n : Nat) : Int := Int.bmod n (2 ^ 32)

/-- `tmpfs_create_internal_node`, for the fields of `Node`. -/
def tmpfsCreateInternalNode (layout : Layout) (m : Machine) (type : NodeType) :
    Machine × Option Nat :=
  let (heap, newNode) := Kmem.alloc m.heap nodeSize
  let m := { m with heap := heap }
  if newNode = 0 then (m, none)
  else
    let m := m.setNode newNode ⟨type, 0, 0, 0⟩
    if type = .file then
      let (heap, data) := Kmem.alloc m.heap defaultFileSize
      let m := { m with heap := heap }
      let m := m.setNode newNode { m.nodes newNode with data := data }
      if data = 0 then ({ m with heap := Kmem.free layout m.heap newNode }, none)
      else (m.setNode newNode { m.nodes newNode with capacity := defaultFileSize }, some newNode)
    else (m, some newNode)

def tmpfsOpen (m : Machine) (fileNode target : Option Nat) : Machine × Int :=
  match fileNode, target with
  | some v, some f => ({ m with files := Function.update m.files f ⟨some v, 0⟩ }, 0)
  | _, _ => (m, einval)

def tmpfsClose (m : Machine) (file : Option Nat) : Machine × Int :=
  match file with
  | some f => ({ m with files := Function.update m.files f ⟨none, 0⟩ }, 0)
  | none => (m, einval)

/-- The loop that doubles the capacity.  After 64 rounds a `size_t` is zero and
stays zero, so running out of fuel means that the loop does not end. -/
def growLoop (required : Nat) : Nat → Nat → Option Nat
  | 0, _ => none
  | fuel + 1, capacity =>
      if capacity < required then growLoop required fuel (capacity * 2 % 2 ^ 64)
      else some capacity

/-- The part of `tmpfs_write` that replaces the buffer by a larger one.  The
result is zero or `ENOMEM_VFS`; there is none when the loop does not end. -/
def reallocate (layout : Layout) (m : Machine) (n required : Nat) : Option (Machine × Int) :=
  if (m.nodes n).capacity < required then
    match growLoop required 65
        (if 0 < (m.nodes n).capacity then (m.nodes n).capacity else defaultFileSize) with
    | none => none
    | some newCapacity =>
        if (m.nodes n).capacity < newCapacity then
          let (heap, newData) := Kmem.alloc m.heap (newCapacity % 2 ^ 32)
          let m := { m with heap := heap }
          if newData = 0 then some (m, enomem)
          else
            let m :=
              if (m.nodes n).data ≠ 0 then
                let m := m.memcpy newData (m.nodes n).data (m.nodes n).size
                { m with heap := Kmem.free layout m.heap (m.nodes n).data }
              else m
            let m := m.setNode n { m.nodes n with data := newData }
            some (m.setNode n { m.nodes n with capacity := newCapacity }, 0)
        else some (m, 0)
  else some (m, 0)

/-- The part of `tmpfs_write` that follows the reallocation. -/
def writeBuffer (m : Machine) (f n : Nat) (buf : Nat → UInt8) (len : Nat) : Machine :=
  let m := m.memcpyFrom ((m.nodes n).data + (m.files f).fPos) buf len
  let m := m.setPos f (((m.files f).fPos + len) % 2 ^ 64)
  if (m.nodes n).size < (m.files f).fPos then
    m.setNode n { m.nodes n with size := (m.files f).fPos }
  else m

def tmpfsWrite (layout : Layout) (m : Machine) (file : Option Nat) (buf : Option (Nat → UInt8))
    (len : Nat) : Option (Machine × Int) :=
  match m.internal file, buf with
  | some (f, n), some buf =>
      if len = 0 then some (m, 0)
      else if (m.nodes n).type ≠ .file then some (m, eacces)
      else
        match reallocate layout m n (((m.files f).fPos + len) % 2 ^ 64) with
        | none => none
        | some (m, result) =>
            if result ≠ 0 then some (m, result)
            else some (writeBuffer m f n buf len, toInt len)
  | _, _ => some (m, einval)

/-- The bytes that the caller's buffer receives come with the return value. -/
def tmpfsRead (m : Machine) (file : Option Nat) (buf : Bool) (len : Nat) :
    Machine × Int × List UInt8 :=
  match m.internal file, buf with
  | some (f, n), true =>
      if len = 0 then (m, 0, [])
      else if (m.nodes n).type ≠ .file then (m, eacces, [])
      else if (m.nodes n).size ≤ (m.files f).fPos then (m, 0, [])
      else
        let readableLen :=
          if (m.nodes n).size < ((m.files f).fPos + len) % 2 ^ 64 then
            (m.nodes n).size - (m.files f).fPos
          else len
        let (m, bytes) := m.memcpyTo ((m.nodes n).data + (m.files f).fPos) readableLen
        (m.setPos f (((m.files f).fPos + readableLen) % 2 ^ 64), toInt readableLen, bytes)
  | _, _ => (m, einval, [])

/-- The new position of `tmpfs_lseek64`; sums wrap and are read as `long`. -/
def seekTarget (fPos size : Nat) (offset whence : Int) : Option Int :=
  if whence = 0 then some offset
  else if whence = 1 then some (Int.bmod (fPos + offset) (2 ^ 64))
  else if whence = 2 then some (Int.bmod (size + offset) (2 ^ 64))
  else none

def tmpfsLseek64 (m : Machine) (file : Option Nat) (offset whence : Int) : Machine × Int :=
  match m.internal file with
  | some (f, n) =>
      if (m.nodes n).type ≠ .file then (m, einval)
      else
        match seekTarget (m.files f).fPos (m.nodes n).size offset whence with
        | none => (m, einval)
        | some newPos => if newPos < 0 then (m, einval) else (m.setPos f newPos.toNat, newPos)
  | none => (m, einval)

end OsdiKernel.Tmpfs
