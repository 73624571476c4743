import Mathlib.Algebra.Group.Int.Defs
import Mathlib.Algebra.Group.Nat.Defs
import Mathlib.Logic.Function.Basic
import OsdiKernel.Lib.LinkedList

/-!
# The buddy allocator

The two arrays of the page allocator and its functions, in the order of the
source.  A `struct PageInfo *` always points into `page_list`, so it is the
index of the entry, or `none` for `NULL`.  The index that `get_buddy` computes
need not be one of `page_list`: reading the array there stops `_free`.
Addresses are natural numbers and the address zero is the null pointer, as in
the kernel, where physical memory starts at address zero.
-/

namespace OsdiKernel.Mm

def maxOrder : Nat := 14
def pageSize : Nat := 4096
def memorySize : Nat := 0x3C000000
def pageNum : Nat := memorySize / pageSize
def maxBlockSize : Nat := 1 <<< (maxOrder - 1)
def maxAllocSize : Nat := pageSize * maxBlockSize

structure PageInfo where
  idx : Nat
  order : Int
  cacheOrder : Int
  entryInList : Option Nat
  prev : Option Nat
  next : Option Nat
  deriving DecidableEq, Repr

/-- The global variables of the allocator; `memory_start` is always zero. -/
structure State where
  freeList : Nat → Option Nat
  pageList : Nat → PageInfo

namespace State

/-- Write some fields of one entry of `page_list`. -/
def modifyPage (s : State) (i : Nat) (f : PageInfo → PageInfo) : State :=
  { s with pageList := Function.update s.pageList i (f (s.pageList i)) }

/-- The entry of `page_list` at an index, when the array has one. -/
def pageAt (s : State) (i : Int) : Option PageInfo :=
  if 0 ≤ i ∧ i < pageNum then some (s.pageList i.toNat) else none

/-- Write one entry of `free_list`. -/
def setFreeList (s : State) (k : Nat) (head : Option Nat) : State :=
  { s with freeList := Function.update s.freeList k head }

/-- The list pointers of all entries of `page_list`. -/
def links (s : State) : Links Nat where
  next i := (s.pageList i).next
  prev i := (s.pageList i).prev

end State

def memoryStart : Nat := 0

/-! ## Utility functions -/

/-- Round up to the multiple of `PAGE_SIZE`. -/
def round (size : Nat) : Nat :=
  if size % pageSize = 0 then size else (size / pageSize + 1) * pageSize

/-- The loop of `get_order`; the fuel bounds the number of iterations. -/
def getOrderLoop (size : Nat) : Nat → Nat → Nat
  | 0, order => order
  | fuel + 1, order => if 1 <<< order < size then getOrderLoop size fuel (order + 1) else order

def getOrder (size : Nat) : Nat :=
  getOrderLoop (size / pageSize) (size / pageSize) 0

/-- `idx ^ (1 << order)`, an `int`; the machine takes the shift amount modulo 32. -/
def getBuddy (idx order : Int) : Int :=
  (BitVec.ofInt 32 idx ^^^ 1#32 <<< (order % 32).toNat).toInt

/-- The page number of an address, as the `int` that `_free` computes. -/
def pageIndex (ptr : Nat) : Int :=
  Int.bmod (Int.tdiv (Int.bmod ((ptr : Int) - memoryStart) (2 ^ 64)) pageSize) (2 ^ 32)

/-- The page number of an address, as the `unsigned int` that `reserve` computes. -/
def pageIndexUnsigned (addr : Int) : Nat :=
  (Int.tdiv (addr - memoryStart) pageSize % 2 ^ 32).toNat

/-! ## Free lists -/

/-- Add the entry to the front of the free list for the given order. -/
def addToFreeList (s : State) (entry : Option Nat) (order : Int) : State :=
  match entry with
  | none => s
  | some e =>
      if order < 0 ∨ (maxOrder : Int) ≤ order then s
      else
        match s.freeList order.toNat with
        | none =>
            let s := s.setFreeList order.toNat (some e)
            let s := s.modifyPage e fun page => { page with next := none }
            s.modifyPage e fun page => { page with prev := none }
        | some head =>
            let s := s.modifyPage head fun page => { page with prev := some e }
            let s := s.modifyPage e fun page => { page with prev := none }
            let s := s.modifyPage e fun page => { page with next := s.freeList order.toNat }
            s.setFreeList order.toNat (some e)

/-- Write a field through a pointer that may be null. -/
def State.modifyAt (s : State) (pointer : Option Nat) (f : PageInfo → PageInfo) : State :=
  match pointer with
  | none => s
  | some i => s.modifyPage i f

def rmFromFreeList (s : State) (entry : Option Nat) (order : Int) : State :=
  match entry with
  | none => s
  | some e =>
      if order < 0 ∨ (maxOrder : Int) ≤ order then s
      else
        let s :=
          if s.freeList order.toNat = some e then
            let s := s.setFreeList order.toNat (s.pageList e).next
            s.modifyAt (s.pageList e).next fun page => { page with prev := none }
          else
            let s := s.modifyAt (s.pageList e).prev
              fun page => { page with next := (s.pageList e).next }
            s.modifyAt (s.pageList e).next fun page => { page with prev := (s.pageList e).prev }
        let s := s.modifyPage e fun page => { page with next := none }
        s.modifyPage e fun page => { page with prev := none }

/-! ## Initialisation -/

/-- The state after `free_list` is reset and `page_list` is cleared with `memset`. -/
def cleared : State where
  freeList _ := none
  pageList _ := ⟨0, 0, 0, none, none, none⟩

/-- One iteration of the loop that makes every block of the maximum order free. -/
def initBlock (s : State) (i : Nat) : State :=
  let s := s.modifyPage i fun page => { page with idx := i }
  let s := addToFreeList s (some i) (maxOrder - 1)
  let s := s.modifyPage i fun page => { page with order := maxOrder - 1 }
  s.modifyPage i fun page => { page with entryInList := some i }

/-- The first `count` iterations of that loop. -/
def initBlocks : Nat → State
  | 0 => cleared
  | count + 1 => initBlock (initBlocks count) (count * maxBlockSize)

/-- The last loop runs over all pages and only writes `cache_order`. -/
def mmInit : State :=
  let s := initBlocks (pageNum / maxBlockSize)
  { s with
    pageList := fun i =>
      if i < pageNum then { s.pageList i with cacheOrder := -1 } else s.pageList i }

/-! ## Allocation -/

/-- The inner loop of `_alloc`: halve the block until it has the wanted order. -/
def splitDown (s : State) (block order : Nat) : Nat → State
  | 0 => s
  | i + 1 =>
      if order < i + 1 then
        let newEntry := block + (1 <<< i)
        let s := s.modifyPage newEntry
          fun page => { page with idx := (s.pageList block).idx + (1 <<< i) }
        let s := addToFreeList s (some newEntry) i
        let at_ := (s.pageList newEntry).idx
        let s := s.modifyPage at_ fun page => { page with order := i }
        let s := s.modifyPage at_ fun page => { page with entryInList := some newEntry }
        splitDown s block order i
      else s

/-- The body of the outer loop of `_alloc` when `free_list[i]` starts with `block`. -/
def takeBlock (s : State) (order i block : Nat) : State × Nat :=
  let s := rmFromFreeList s (some block) i
  let s := splitDown s block order i
  let at_ := (s.pageList block).idx
  let s := s.modifyPage at_ fun page => { page with order := order }
  let s := s.modifyPage at_ fun page => { page with entryInList := none }
  (s, memoryStart + (s.pageList block).idx * pageSize)

/-- The outer loop of `_alloc`, with the number of orders left to try. -/
def allocLoop (s : State) (order : Nat) : Nat → Nat → State × Nat
  | 0, _ => (s, 0)
  | left + 1, i =>
      match s.freeList i with
      | some block => takeBlock s order i block
      | none => allocLoop s order left (i + 1)

/-- `_alloc`. -/
def alloc (s : State) (size : Nat) : State × Nat :=
  if size = 0 ∨ maxAllocSize < size then (s, 0)
  else
    let size := round size
    let order := getOrder size
    allocLoop s order (maxOrder - order) order

/-! ## Release -/

/-- The branch of `_free` that puts the block back on a list. -/
def putBack (s : State) (curr : Nat) (order : Int) : State :=
  let s := s.modifyPage curr fun page => { page with idx := curr }
  let s := addToFreeList s (some curr) order
  let s := s.modifyPage curr fun page => { page with entryInList := some curr }
  s.modifyPage curr fun page => { page with order := order }

/-- The branch of `_free` that merges the block with its buddy. -/
def mergeBuddy (s : State) (curr buddy buddyEntry : Nat) (order : Int) : State :=
  let s := rmFromFreeList s (some buddyEntry) order
  let bigger := if buddy < curr then curr else buddy
  let smaller := if curr < buddy then curr else buddy
  let s := s.modifyPage smaller fun page => { page with order := order + 1 }
  let s := s.modifyPage bigger fun page => { page with order := -1 }
  s.modifyPage bigger fun page => { page with entryInList := none }

/-- The merge loop of `_free`; each iteration raises the order by one.  The loop
faults when the index of the buddy is not one of `page_list`. -/
def freeLoop (s : State) (curr : Nat) (buddy order : Int) : Nat → Option State
  | 0 => some s
  | left + 1 =>
      if order < maxOrder - 1 then
        match s.pageAt buddy with
        | none => none
        | some buddyPage =>
            match buddyPage.entryInList with
            | some buddyEntry =>
                if buddyPage.order = (s.pageList curr).order then
                  let smaller := if curr < buddy.toNat then curr else buddy.toNat
                  freeLoop (mergeBuddy s curr buddy.toNat buddyEntry order) smaller
                    (getBuddy smaller (order + 1)) (order + 1) left
                else some (putBack s curr order)
            | none => some (putBack s curr order)
      else some s

/-- `_free`, or `none` when it faults. -/
def freeOrFault (s : State) (ptr : Nat) : Option State :=
  if ptr = 0 then some s
  else
    let originalIdx := pageIndex ptr
    if originalIdx < 0 ∨ (pageNum : Int) ≤ originalIdx ∨
        (s.pageList originalIdx.toNat).entryInList ≠ none then some s
    else
      let curr := originalIdx.toNat
      let order := (s.pageList curr).order
      freeLoop s curr (getBuddy curr order) order ((maxOrder : Int) - 1 - order).toNat

/-- The state after a call of `_free` that does not fault; for the others, which
pointers in use never are, the state before it. -/
def free (s : State) (ptr : Nat) : State := (freeOrFault s ptr).getD s

/-! ## Reservation -/

def split (s : State) (idx order : Nat) : State :=
  if maxOrder ≤ order then s
  else
    let s := rmFromFreeList s (some idx) order
    let s := s.modifyPage idx fun page => { page with entryInList := none }
    let order := order - 1
    let s := s.modifyPage idx fun page => { page with idx := idx }
    let s := s.modifyPage idx fun page => { page with order := order }
    let s := addToFreeList s (some idx) order
    let s := s.modifyPage idx fun page => { page with entryInList := some idx }
    let buddy := (getBuddy idx order).toNat
    let s := s.modifyPage buddy fun page => { page with idx := buddy }
    let s := s.modifyPage buddy fun page => { page with order := order }
    let s := addToFreeList s (some buddy) order
    s.modifyPage buddy fun page => { page with entryInList := some buddy }

/-- Split the block at the aligned head of `target`, when its order field says so. -/
def splitAt (s : State) (target order : Nat) : State :=
  let blockIdx := target - (target &&& (1 <<< order) - 1)
  if (s.pageList blockIdx).order = order then split s blockIdx order else s

/-- The first loop of `reserve`, from the given order down to one. -/
def splitEnds (startIdx endIdx : Nat) : Nat → State → State
  | 0, s => s
  | k + 1, s =>
      let order := k + 1
      let s :=
        if startIdx - (startIdx &&& (1 <<< order) - 1) =
            endIdx - (endIdx &&& (1 <<< order) - 1) then splitAt s startIdx order
        else splitAt (splitAt s startIdx order) endIdx order
      splitEnds startIdx endIdx k s

/-- The second loop of `reserve`; every iteration passes at least one page. -/
def reserveLoop (endIdx : Nat) : Nat → State → Nat → State
  | 0, s, _ => s
  | left + 1, s, i =>
      if i ≤ endIdx then
        let s :=
          if (s.pageList i).entryInList ≠ none then
            let s := rmFromFreeList s (some i) (s.pageList i).order
            s.modifyPage i fun page => { page with entryInList := none }
          else s
        reserveLoop endIdx left s (i + (1 <<< ((s.pageList i).order % 32).toNat))
      else s

def reserve (s : State) (start end_ : Nat) : State :=
  let startIdx := pageIndexUnsigned start
  let endIdx := pageIndexUnsigned ((end_ : Int) - 1)
  let s := splitEnds startIdx endIdx (maxOrder - 1) s
  reserveLoop endIdx (endIdx + 1 - startIdx) s startIdx

end OsdiKernel.Mm
