import OsdiKernel.Mm.Model

/-!
# The dynamic allocator

Small requests are served with chunks of four sizes, cut from single pages of
the buddy allocator.  Every chunk starts with a `struct kmem_cache_entry`, the
header that links free chunks of one size.  A page of chunks is recognised by
its `cache_order` field, which is all that `free` looks at.
-/

namespace OsdiKernel.Kmem

open Mm (pageSize pageNum maxAllocSize memoryStart pageIndex)

def maxChunkSize : Nat := 128
def minCacheOrder : Nat := 4
def maxCacheOrder : Nat := 7
def cacheNum : Nat := 4

/-- `sizeof(struct kmem_cache_entry)`, two pointers. -/
def entrySize : Nat := 16

/-- The address at which the linker script puts the kernel image. -/
def imageStart : Nat := 0x80000

/-- The addresses of the linker symbols `__bss_end` and `__stack_top`. -/
structure Layout where
  bssEnd : Nat
  stackTop : Nat
  image : imageStart ≤ bssEnd

structure KmemCache where
  cacheSize : Nat
  freeList : Option Nat

/-- The allocator state.  `entries` are the headers of all chunks, by address;
a header is never at address zero. -/
structure Heap where
  mm : Mm.State
  kmemCaches : Nat → KmemCache
  entries : Links Nat

namespace Heap

/-- Write one element of `kmem_caches`. -/
def setCache (h : Heap) (i : Nat) (f : KmemCache → KmemCache) : Heap :=
  { h with kmemCaches := Function.update h.kmemCaches i (f (h.kmemCaches i)) }

def setNext (h : Heap) (entry : Nat) (value : Option Nat) : Heap :=
  { h with entries := { h.entries with next := Function.update h.entries.next entry value } }

def setPrev (h : Heap) (entry : Nat) (value : Option Nat) : Heap :=
  { h with entries := { h.entries with prev := Function.update h.entries.prev entry value } }

/-- Write the `cache_order` field of a page. -/
def setCacheOrder (h : Heap) (page : Nat) (order : Int) : Heap :=
  { h with mm := h.mm.modifyPage page fun info => { info with cacheOrder := order } }

end Heap

/-! ## Lists of free chunks -/

def kmemFreelistPush (h : Heap) (entry cache : Nat) : Heap :=
  let h := h.setNext entry (h.kmemCaches cache).freeList
  let h :=
    match (h.kmemCaches cache).freeList with
    | some head => h.setPrev head (some entry)
    | none => h
  let h := h.setCache cache fun c => { c with freeList := some entry }
  h.setPrev entry none

/-- Only called when the list is not empty. -/
def kmemFreelistPop (h : Heap) (cache : Nat) : Heap :=
  match (h.kmemCaches cache).freeList with
  | none => h
  | some tmp =>
      let h := h.setCache cache fun c => { c with freeList := h.entries.next tmp }
      let h :=
        match (h.kmemCaches cache).freeList with
        | some head => h.setPrev head none
        | none => h
      let h := h.setNext tmp none
      h.setPrev tmp none

/-- The number of chunks that fit in a page. -/
def chunkNum (chunkSize : Nat) : Nat := pageSize / (chunkSize + entrySize)

/-- The first iterations of the loop that cuts a page into chunks. -/
def splitChunks (h : Heap) (cache page chunkSize : Nat) : Nat → Heap
  | 0 => h
  | count + 1 =>
      kmemFreelistPush (splitChunks h cache page chunkSize count)
        (page + count * (chunkSize + entrySize)) cache

/-- One iteration of the second loop of `kmem_cache_init`, or none if `_alloc` fails. -/
def initCache (h : Heap) (i : Nat) : Option Heap :=
  let (mm, page) := Mm.alloc h.mm pageSize
  let h := { h with mm := mm }
  if page = 0 then none
  else
    let h := h.setCacheOrder (pageIndex page).toNat (i + minCacheOrder)
    let chunkSize := (h.kmemCaches i).cacheSize
    let h := h.setCache i fun c => { c with freeList := none }
    some (splitChunks h i page chunkSize (chunkNum chunkSize))

/-- The second loop of `kmem_cache_init` returns at the first failure. -/
def initCachesFrom (h : Heap) (i : Nat) : Nat → Heap
  | 0 => h
  | left + 1 =>
      match initCache h i with
      | none => { h with mm := (Mm.alloc h.mm pageSize).1 }
      | some next => initCachesFrom next (i + 1) left

/-- The state of the kernel before `kmem_cache_init`: all headers are unset. -/
def uninitialised (mm : Mm.State) : Heap where
  mm := mm
  kmemCaches _ := ⟨0, none⟩
  entries := ⟨fun _ => none, fun _ => none⟩

/-- `kmem_cache_init`, on the page allocator that the boot phase leaves. -/
def kmemCacheInit (h : Heap) : Heap :=
  let h := { h with
    kmemCaches := fun i => if i < cacheNum then ⟨1 <<< (i + 4), none⟩ else h.kmemCaches i }
  initCachesFrom h 0 cacheNum

/-- The new page gives one chunk less than fits in it: the loop starts at one. -/
def requestPage (h : Heap) (order : Nat) : Heap :=
  let (mm, page) := Mm.alloc h.mm pageSize
  let h := { h with mm := mm }
  if page = 0 then h
  else
    let h := h.setCacheOrder (pageIndex page).toNat (order + minCacheOrder)
    let chunkSize := (h.kmemCaches order).cacheSize
    splitChunks h order page chunkSize (chunkNum chunkSize - 1)

/-! ## Allocation and release -/

/-- The loop of `get_chunk_order`; the fuel bounds the number of iterations. -/
def chunkOrderLoop (size : Nat) : Nat → Nat → Nat
  | 0, order => order
  | fuel + 1, order => if 1 <<< order < size then chunkOrderLoop size fuel (order + 1) else order

def getChunkOrder (size : Nat) : Nat := chunkOrderLoop size size 4

def kmalloc (h : Heap) (size : Nat) : Heap × Nat :=
  let order := getChunkOrder size
  let size := 1 <<< order
  let order := order - minCacheOrder
  if size = 0 then (h, 0)
  else if maxChunkSize < size then (h, 0)
  else
    let h := if (h.kmemCaches order).freeList = none then requestPage h order else h
    match (h.kmemCaches order).freeList with
    | none => (h, 0)
    | some entry => (kmemFreelistPop h order, entry + entrySize)

/-- The address lies between the end of the image and the top of the boot stack. -/
def Layout.startup (layout : Layout) (ptr : Nat) : Prop :=
  layout.bssEnd ≤ ptr ∧ ptr < layout.stackTop

instance (layout : Layout) (ptr : Nat) : Decidable (layout.startup ptr) := by
  unfold Layout.startup
  infer_instance

def kfree (layout : Layout) (h : Heap) (ptr : Nat) : Heap :=
  if ptr = 0 then h
  else if layout.startup ptr then h
  else
    let order := (h.mm.pageList (pageIndex ptr).toNat).cacheOrder
    if order < minCacheOrder ∨ (maxCacheOrder : Int) < order then h
    else kmemFreelistPush h (ptr - entrySize) (order - minCacheOrder).toNat

def alloc (h : Heap) (size : Nat) : Heap × Nat :=
  if size = 0 then (h, 0)
  else if maxChunkSize < size then
    let (mm, ptr) := Mm.alloc h.mm size
    ({ h with mm := mm }, ptr)
  else kmalloc h size

def free (layout : Layout) (h : Heap) (ptr : Nat) : Heap :=
  if ptr = 0 then h
  else if layout.startup ptr then h
  else if pageIndex ptr < 0 ∨ (pageNum : Int) ≤ pageIndex ptr then h
  else if (h.mm.pageList (pageIndex ptr).toNat).cacheOrder ≠ -1 then kfree layout h ptr
  else { h with mm := Mm.free h.mm ptr }

end OsdiKernel.Kmem
