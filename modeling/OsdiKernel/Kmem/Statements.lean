import Mathlib.Logic.Relation
import OsdiKernel.Kmem.Safety

/-!
# The dynamic allocator, statement by statement

Nothing masks interrupts while a system call is in `kmalloc` or `kfree`.  A call
is here a sequence of statements, between which others may use the heap.  A
statement that only touches local variables runs together with the one before,
and the call of `_alloc` counts as one statement: no interrupt falls into it.
-/

namespace OsdiKernel.Kmem

open Mm (pageSize pageIndex keep)

/-! ## Calls -/

/-- The statements of `kmem_freelist_push`. -/
inductive PushAt where
  | link
  | test
  | back
  | setHead
  | clear
  deriving DecidableEq

/-- The statements of `kmem_freelist_pop`. -/
inductive PopAt where
  | read
  | setHead
  | test
  | back
  | clearNext
  | clearPrev
  deriving DecidableEq

/-- The variables of the loop of `request_page`. -/
structure SplitLoop where
  page : Nat
  j : Nat
  chunkSize : Nat
  deriving DecidableEq

/-- A call and the statement that comes next, with the local variables that are
still needed.  A push belongs to the loop of `request_page` or to `kfree`, and
`order` is the index of the cache. -/
inductive Call where
  | idle
  | test (order : Nat)
  | request (order : Nat)
  | tag (order page : Nat)
  | push (at_ : PushAt) (entry order : Nat) (after : Option SplitLoop)
  | read (order : Nat)
  | pop (at_ : PopAt) (entry order : Nat) (tmp : Option Nat)
  | returned (ptr order : Nat)
  deriving DecidableEq

namespace Call

/-- The loop of `request_page` goes on, or `request_page` returns to `kmalloc`. -/
def split (order : Nat) (loop : SplitLoop) : Call :=
  if loop.j < chunkNum loop.chunkSize then
    .push .link loop.page order
      (some ⟨loop.page + (loop.chunkSize + entrySize), loop.j + 1, loop.chunkSize⟩)
  else .read order

/-- What follows a push. -/
def next (order : Nat) : Option SplitLoop → Call
  | some loop => split order loop
  | none => .idle

/-- The beginning of `kmalloc`, up to the first statement that looks at the heap. -/
def kmalloc (size : Nat) : Call :=
  let order := getChunkOrder size
  let size := 1 <<< order
  let order := order - minCacheOrder
  if size = 0 then .returned 0 order
  else if maxChunkSize < size then .returned 0 order
  else .test order

/-- The beginning of `kfree`, up to the call of `kmem_freelist_push`. -/
def kfree (layout : Layout) (h : Heap) (ptr : Nat) : Call :=
  if ptr = 0 then .idle
  else if layout.startup ptr then .idle
  else
    let order := (h.mm.pageList (pageIndex ptr).toNat).cacheOrder
    if order < minCacheOrder ∨ (maxCacheOrder : Int) < order then .idle
    else .push .link (ptr - entrySize) (order - minCacheOrder).toNat none

/-- One statement; none if there is none or if it follows a null pointer. -/
def step (h : Heap) : Call → Option (Heap × Call)
  | .idle => none
  | .test order =>
      some (h, if (h.kmemCaches order).freeList = none then .request order else .read order)
  | .request order =>
      let (mm, page) := Mm.alloc h.mm pageSize
      some ({ h with mm := mm }, if page = 0 then .read order else .tag order page)
  | .tag order page =>
      let h := h.setCacheOrder (pageIndex page).toNat (order + minCacheOrder)
      some (h, split order ⟨page, 1, (h.kmemCaches order).cacheSize⟩)
  | .push .link entry order after =>
      some (h.setNext entry (h.kmemCaches order).freeList, .push .test entry order after)
  | .push .test entry order after =>
      some (h, .push (if (h.kmemCaches order).freeList = none then .setHead else .back)
        entry order after)
  | .push .back entry order after => do
      let head ← (h.kmemCaches order).freeList
      return (h.setPrev head (some entry), .push .setHead entry order after)
  | .push .setHead entry order after =>
      some (h.setCache order fun c => { c with freeList := some entry },
        .push .clear entry order after)
  | .push .clear entry order after => some (h.setPrev entry none, next order after)
  | .read order =>
      match (h.kmemCaches order).freeList with
      | none => some (h, .returned 0 order)
      | some entry => some (h, .pop .read entry order none)
  | .pop .read entry order _ => some (h, .pop .setHead entry order (h.kmemCaches order).freeList)
  | .pop .setHead entry order tmp => do
      let head ← (h.kmemCaches order).freeList
      return (h.setCache order fun c => { c with freeList := h.entries.next head },
        .pop .test entry order tmp)
  | .pop .test entry order tmp =>
      some (h, .pop (if (h.kmemCaches order).freeList = none then .clearNext else .back)
        entry order tmp)
  | .pop .back entry order tmp => do
      let head ← (h.kmemCaches order).freeList
      return (h.setPrev head none, .pop .clearNext entry order tmp)
  | .pop .clearNext entry order tmp => do
      let tmp ← tmp
      return (h.setNext tmp none, .pop .clearPrev entry order (some tmp))
  | .pop .clearPrev entry order tmp => do
      let tmp ← tmp
      return (h.setPrev tmp none, .returned (entry + entrySize) order)
  | .returned _ _ => none

end Call

/-! ## Without interrupts -/

/-- Statements that follow each other without an interrupt. -/
def Uninterrupted : Heap × Call → Heap × Call → Prop :=
  Relation.ReflTransGen fun first second => first.2.step first.1 = some second

section Uninterrupted

variable {h h' : Heap} {call call' : Call} {entry order tmp : Nat}

theorem Uninterrupted.refl (h : Heap) (call : Call) : Uninterrupted (h, call) (h, call) :=
  Relation.ReflTransGen.refl

theorem Uninterrupted.trans {first second third : Heap × Call} (start : Uninterrupted first second)
    (rest : Uninterrupted second third) : Uninterrupted first third :=
  Relation.ReflTransGen.trans start rest

theorem Uninterrupted.cons {last : Heap × Call} (stepped : call.step h = some (h', call'))
    (rest : Uninterrupted (h', call') last) : Uninterrupted (h, call) last :=
  Relation.ReflTransGen.head stepped rest

theorem step_pushBack (head : (h.kmemCaches order).freeList = some tmp) (after : Option SplitLoop) :
    (Call.push .back entry order after).step h =
      some (h.setPrev tmp (some entry), .push .setHead entry order after) := by
  unfold Call.step
  dsimp only
  rw [head]
  rfl

theorem step_popHead (head : (h.kmemCaches order).freeList = some tmp) (removed : Option Nat) :
    (Call.pop .setHead entry order removed).step h =
      some (h.setCache order fun c => { c with freeList := h.entries.next tmp },
        .pop .test entry order removed) := by
  unfold Call.step
  dsimp only
  rw [head]
  rfl

theorem step_popBack (head : (h.kmemCaches order).freeList = some tmp) (removed : Option Nat) :
    (Call.pop .back entry order removed).step h =
      some (h.setPrev tmp none, .pop .clearNext entry order removed) := by
  unfold Call.step
  dsimp only
  rw [head]
  rfl

/-- The statements of a push make up the push. -/
theorem push_statements (h : Heap) (entry order : Nat) (after : Option SplitLoop) :
    Uninterrupted (h, .push .link entry order after)
      (kmemFreelistPush h entry order, .next order after) := by
  unfold kmemFreelistPush
  dsimp only
  have same : ((h.setNext entry (h.kmemCaches order).freeList).kmemCaches order).freeList =
      (h.kmemCaches order).freeList := rfl
  have tested : Uninterrupted (h, .push .link entry order after)
      (h.setNext entry (h.kmemCaches order).freeList,
        .push (if (h.kmemCaches order).freeList = none then .setHead else .back) entry order after) :=
    .cons rfl (.cons rfl (.refl _ _))
  refine tested.trans ?_
  rw [same]
  cases head : (h.kmemCaches order).freeList with
  | none => exact .cons rfl (.cons rfl (.refl _ _))
  | some first =>
      rw [head] at same
      rw [if_neg nofun]
      exact .cons (step_pushBack same after) (.cons rfl (.cons rfl (.refl _ _)))

/-- The statements of a pop remove the head, whatever `kmalloc` has read before. -/
theorem pop_statements (head : (h.kmemCaches order).freeList = some tmp) (entry : Nat) :
    Uninterrupted (h, .pop .read entry order none)
      (kmemFreelistPop h order, .returned (entry + entrySize) order) := by
  unfold kmemFreelistPop
  rw [head]
  dsimp only
  generalize popped : (h.setCache order fun c => { c with freeList := h.entries.next tmp }) = h'
  have tested : Uninterrupted (h, .pop .read entry order none)
      (h', .pop (if (h'.kmemCaches order).freeList = none then .clearNext else .back) entry order
        (some tmp)) := by
    rw [← popped]
    refine .cons (congrArg (fun found => some (h, Call.pop .setHead entry order found)) head) ?_
    exact .cons (step_popHead head _) (.cons rfl (.refl _ _))
  refine tested.trans ?_
  cases second : (h'.kmemCaches order).freeList with
  | none => exact .cons rfl (.cons rfl (.refl _ _))
  | some next =>
      rw [if_neg nofun]
      exact .cons (step_popBack second _) (.cons rfl (.cons rfl (.refl _ _)))

/-- The loop of `request_page` pushes the rest of the chunks. -/
theorem split_statements (h : Heap) (order page size : Nat) {done : Nat}
    (within : done ≤ chunkNum size - 1) :
    Uninterrupted (splitChunks h order page size done,
        .split order ⟨page + done * (size + entrySize), done + 1, size⟩)
      (splitChunks h order page size (chunkNum size - 1), .read order) := by
  obtain ⟨left, total⟩ := Nat.exists_eq_add_of_le within
  induction left generalizing done with
  | zero =>
      rw [Nat.add_zero] at total
      unfold Call.split
      dsimp only
      rw [if_neg (by omega), total]
      exact .refl _ _
  | succ left ih =>
      have next : chunkNum size - 1 = done + 1 + left := by omega
      have rest := ih (next ▸ Nat.le_add_right _ _) next
      rw [Nat.add_mul, Nat.one_mul, ← Nat.add_assoc] at rest
      have pushed := push_statements (splitChunks h order page size done)
        (page + done * (size + entrySize)) order
          (some ⟨page + done * (size + entrySize) + (size + entrySize), done + 1 + 1, size⟩)
      have starts : Call.split order ⟨page + done * (size + entrySize), done + 1, size⟩ =
          .push .link (page + done * (size + entrySize)) order
            (some ⟨page + done * (size + entrySize) + (size + entrySize), done + 1 + 1, size⟩) := by
        unfold Call.split
        exact if_pos (by dsimp only; omega)
      rw [starts]
      exact pushed.trans rest

/-- A call of `request_page` comes back to `kmalloc`. -/
theorem request_statements (h : Heap) (order : Nat) :
    Uninterrupted (h, .request order) (requestPage h order, .read order) := by
  unfold requestPage
  dsimp only
  split
  · next failure =>
      have step : (Call.request order).step h =
          some ({ h with mm := (Mm.alloc h.mm pageSize).1 }, .read order) :=
        congrArg (fun call => some (({ h with mm := (Mm.alloc h.mm pageSize).1 } : Heap), call))
          (if_pos failure)
      exact .cons step (.refl _ _)
  · next success =>
      have step : (Call.request order).step h =
          some ({ h with mm := (Mm.alloc h.mm pageSize).1 },
            .tag order (Mm.alloc h.mm pageSize).2) :=
        congrArg (fun call => some (({ h with mm := (Mm.alloc h.mm pageSize).1 } : Heap), call))
          (if_neg success)
      refine .cons step (.cons rfl ?_)
      have split := split_statements (({ h with mm := (Mm.alloc h.mm pageSize).1 } :
        Heap).setCacheOrder (pageIndex (Mm.alloc h.mm pageSize).2).toNat (order + minCacheOrder))
          order (Mm.alloc h.mm pageSize).2 (h.kmemCaches order).cacheSize (Nat.zero_le _)
      rw [Nat.zero_mul, Nat.add_zero] at split
      exact split

/-- The statements of `kmalloc` make up the whole call. -/
theorem kmalloc_statements (h : Heap) (size : Nat) : ∃ order,
    Uninterrupted (h, .kmalloc size) ((kmalloc h size).1, .returned (kmalloc h size).2 order) := by
  refine ⟨getChunkOrder size - minCacheOrder, ?_⟩
  unfold Call.kmalloc kmalloc
  dsimp only
  split
  · exact .refl _ _
  · split
    · exact .refl _ _
    · generalize getChunkOrder size - minCacheOrder = order
      have requested : Uninterrupted (h, .test order)
          (if (h.kmemCaches order).freeList = none then requestPage h order else h, .read order) := by
        refine .cons rfl ?_
        split
        · exact request_statements h order
        · exact .refl _ _
      refine requested.trans ?_
      generalize (if (h.kmemCaches order).freeList = none then requestPage h order else h) = h'
      cases head : (h'.kmemCaches order).freeList with
      | none =>
          have step : (Call.read order).step h' = some (h', .returned 0 order) := by
            unfold Call.step
            dsimp only
            rw [head]
          exact .cons step (.refl _ _)
      | some entry =>
          have step : (Call.read order).step h' = some (h', .pop .read entry order none) := by
            unfold Call.step
            dsimp only
            rw [head]
          exact .cons step (pop_statements head entry)

/-- The statements of `kfree` make up the whole call. -/
theorem kfree_statements (layout : Layout) (h : Heap) (ptr : Nat) :
    Uninterrupted (h, .kfree layout h ptr) (kfree layout h ptr, .idle) := by
  unfold Call.kfree kfree
  dsimp only
  split
  · exact .refl _ _
  · split
    · exact .refl _ _
    · split
      · exact .refl _ _
      · exact push_statements h _ _ none

end Uninterrupted

/-! ## Interrupted calls -/

/-- The heap, the pointers that the others and the callers have in use, and the
call that runs with interrupts enabled. -/
structure Interrupted where
  heap : Heap
  live : List (Nat × Nat)
  call : Call

inductive InterruptedOp where
  | kmalloc
  | kfree
  | statement
  | finish
  | alloc
  | free
  deriving DecidableEq

/-- A call starts, makes a statement or ends, or an interrupt makes a whole call
of its own.  The caller of `kfree` gives its pointer away, and a pointer is in
use from the moment it is returned. -/
inductive InterruptedStep (layout : Layout) (sys : Interrupted) :
    InterruptedOp → Interrupted → Prop
  | kmalloc (size : Nat) (idle : sys.call = .idle) :
      InterruptedStep layout sys .kmalloc { sys with call := .kmalloc size }
  | kfree {use : Nat × Nat} (idle : sys.call = .idle) (member : use ∈ sys.live)
      (small : use.2 ≤ maxChunkSize) :
      InterruptedStep layout sys .kfree
        { sys with live := sys.live.erase use, call := .kfree layout sys.heap use.1 }
  | statement {h : Heap} {call : Call} (stepped : sys.call.step sys.heap = some (h, call)) :
      InterruptedStep layout sys .statement { sys with heap := h, call := call }
  | finish {ptr order : Nat} (returned : sys.call = .returned ptr order) :
      InterruptedStep layout sys .finish
        { sys with live := keep ptr (chunkSize order) sys.live, call := .idle }
  | alloc (size : Nat) :
      InterruptedStep layout sys .alloc
        { sys with
          heap := (Kmem.alloc sys.heap size).1
          live := keep (Kmem.alloc sys.heap size).2 size sys.live }
  | free {use : Nat × Nat} (member : use ∈ sys.live) :
      InterruptedStep layout sys .free
        { sys with heap := Kmem.free layout sys.heap use.1, live := sys.live.erase use }

/-- The states that are reached by steps which are all allowed.  At first no
call was ever interrupted. -/
inductive InterruptedRun (layout : Layout) (ranges : List (Nat × Nat))
    (allowed : Interrupted → InterruptedOp → Prop) : Interrupted → Prop
  | start {live : List (Nat × Nat)} {h : Heap} (run : Run layout ranges live h) :
      InterruptedRun layout ranges allowed ⟨h, live, .idle⟩
  | step {sys sys' : Interrupted} {op : InterruptedOp}
      (run : InterruptedRun layout ranges allowed sys) (ok : allowed sys op)
      (stepped : InterruptedStep layout sys op sys') : InterruptedRun layout ranges allowed sys'

/-- No two pointers in use share a byte, and no chunk in use is on a free list. -/
structure ChunksApart (sys : Interrupted) : Prop where
  disjoint : sys.live.Pairwise fun first second => Disjoint (bytesOf first) (bytesOf second)
  unlisted : ∀ use ∈ sys.live, use.2 ≤ maxChunkSize → ∀ c, c < cacheNum →
    ¬ sys.heap.entries.Reaches (sys.heap.kmemCaches c).freeList (use.1 - entrySize)

/-- When a list is changed its head is still the one that the call has read. -/
def HeadKept (h : Heap) : Call → Prop
  | .pop .read entry order _ => (h.kmemCaches order).freeList = some entry
  | .pop .setHead entry order _ => (h.kmemCaches order).freeList = some entry
  | .push .setHead entry order _ => (h.kmemCaches order).freeList = h.entries.next entry
  | _ => True

end OsdiKernel.Kmem
