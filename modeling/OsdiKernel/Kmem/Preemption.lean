import OsdiKernel.Kmem.Linearization

/-!
# Calls that are interrupted

As long as the head of a list is at each change still the one that the call has
read, the heap stays in order whatever the interrupts do.  One interrupt between
the two statements is enough to return a chunk twice.
-/

namespace OsdiKernel.Kmem

open Mm (pageSize pageIndex keep)

/-! ## The invariant -/

/-- The chunks that a loop of `request_page` has still to push. -/
def afterUses (order : Nat) : Option SplitLoop → List (Nat × Nat)
  | some loop => chunkUses loop.page order (chunkNum (chunkSize order) - loop.j)
  | none => []

/-- What a call owns at each statement, and the header whose link is not yet, or
no longer, the one in its list. -/
inductive Owns : Call → List (Nat × Nat) → Option Nat → Prop
  | idle : Owns .idle [] none
  | test {order : Nat} (class_ : order < cacheNum) : Owns (.test order) [] none
  | request {order : Nat} (class_ : order < cacheNum) : Owns (.request order) [] none
  | tag {order page : Nat} (class_ : order < cacheNum) :
      Owns (.tag order page) [(page, pageSize)] none
  | link {entry order : Nat} {after : Option SplitLoop} (class_ : order < cacheNum)
      (size : ∀ loop, after = some loop → loop.chunkSize = chunkSize order) :
      Owns (.push .link entry order after)
        ((entry + entrySize, chunkSize order) :: afterUses order after) none
  | push {at_ : PushAt} {entry order : Nat} {after : Option SplitLoop} (class_ : order < cacheNum)
      (size : ∀ loop, after = some loop → loop.chunkSize = chunkSize order)
      (during : at_ = .test ∨ at_ = .back ∨ at_ = .setHead) :
      Owns (.push at_ entry order after)
        ((entry + entrySize, chunkSize order) :: afterUses order after) (some entry)
  | clear {entry order : Nat} {after : Option SplitLoop} (class_ : order < cacheNum)
      (size : ∀ loop, after = some loop → loop.chunkSize = chunkSize order) :
      Owns (.push .clear entry order after) (afterUses order after) none
  | read {order : Nat} (class_ : order < cacheNum) : Owns (.read order) [] none
  | popRead {entry order : Nat} {tmp : Option Nat} (class_ : order < cacheNum) :
      Owns (.pop .read entry order tmp) [] none
  | popHead {entry order : Nat} (class_ : order < cacheNum) :
      Owns (.pop .setHead entry order (some entry)) [] none
  | popped {at_ : PopAt} {entry order : Nat} (class_ : order < cacheNum)
      (during : at_ = .test ∨ at_ = .back ∨ at_ = .clearNext) :
      Owns (.pop at_ entry order (some entry)) [(entry + entrySize, chunkSize order)] (some entry)
  | clearPrev {entry order : Nat} (class_ : order < cacheNum) :
      Owns (.pop .clearPrev entry order (some entry)) [(entry + entrySize, chunkSize order)] none
  | returned {ptr order : Nat} :
      Owns (.returned ptr order) (keep ptr (chunkSize order) []) none

/-- The heap is, but for one link, one that whole calls would leave. -/
structure Linear (ranges : List (Nat × Nat)) (sys : Interrupted) (g : Heap)
    (own : List (Nat × Nat)) (pending : Option Nat) : Prop where
  owns : Owns sys.call own pending
  inv : ∃ pages C, HeapInv ranges (own ++ sys.live) g pages C
  alike : Alike pending sys.heap g

section Invariant

variable {layout : Layout} {ranges own : List (Nat × Nat)} {sys sys' : Interrupted} {g : Heap}
  {pending : Option Nat} {order : Nat}

/-- The pending header is that of a chunk that the call owns. -/
theorem Owns.pending_use {call : Call} (owns : Owns call own pending) {entry : Nat}
    (isPending : pending = some entry) :
    ∃ use ∈ own, use.2 ≤ maxChunkSize ∧ use.1 = entry + entrySize := by
  cases owns with
  | push class_ _ _ =>
      cases isPending
      exact ⟨_, List.mem_cons_self, (classOf_chunkSize class_).2.2, rfl⟩
  | popped class_ _ =>
      cases isPending
      exact ⟨_, List.mem_cons_self, (classOf_chunkSize class_).2.2, rfl⟩
  | _ => cases isPending

theorem owns_split {loop : SplitLoop} (class_ : order < cacheNum)
    (size : loop.chunkSize = chunkSize order) :
    Owns (Call.split order loop) (afterUses order (some loop)) none := by
  unfold Call.split afterUses
  dsimp only
  rw [size]
  split
  · next more =>
      obtain ⟨left, count⟩ : ∃ left, chunkNum (chunkSize order) - loop.j = left + 1 :=
        ⟨chunkNum (chunkSize order) - loop.j - 1, by omega⟩
      have rest : chunkNum (chunkSize order) - (loop.j + 1) = left := by omega
      rw [count, chunkUses]
      have linked := @Owns.link loop.page order
        (some ⟨loop.page + (chunkSize order + entrySize), loop.j + 1, chunkSize order⟩) class_
        fun _ same => by cases same; rfl
      unfold afterUses at linked
      dsimp only at linked
      rw [rest] at linked
      exact linked
  · next done =>
      have none_ : chunkNum (chunkSize order) - loop.j = 0 := by omega
      rw [none_, chunkUses]
      exact .read class_

theorem owns_next {after : Option SplitLoop} (class_ : order < cacheNum)
    (size : ∀ loop, after = some loop → loop.chunkSize = chunkSize order) :
    Owns (Call.next order after) (afterUses order after) none := by
  cases after with
  | none => exact .idle
  | some loop => exact owns_split class_ (size loop rfl)

theorem owns_kmalloc (size : Nat) : Owns (Call.kmalloc size) [] none := by
  unfold Call.kmalloc
  dsimp only
  split
  · exact .returned
  · split
    · exact .returned
    · next small =>
        refine .test ?_
        rw [Nat.one_shiftLeft] at small
        have order : getChunkOrder size < 8 :=
          (Nat.pow_lt_pow_iff_right (by decide)).mp (Nat.lt_of_not_le fun above =>
            small (Nat.lt_of_lt_of_le (by decide) above) : 2 ^ getChunkOrder size < 2 ^ 8)
        unfold minCacheOrder cacheNum
        omega

/-- The link that a pending header has may be taken over. -/
theorem Alike.settle {h : Heap} {entry : Nat} (alike : Alike (some entry) h g) {value : Option Nat}
    (linked : h.entries.next entry = value) : Alike none h (g.setNext entry value) where
  mm := alike.mm
  caches := alike.caches
  next x _ := by
    unfold Heap.setNext
    dsimp only
    by_cases here : x = entry
    · subst here
      rw [Function.update_self]
      exact linked
    · rw [Function.update_of_ne here]
      exact alike.next x fun same => here (Option.some.inj same).symm

/-- The first statement of a push writes the link of a chunk that the call owns. -/
theorem Linear.link {entry : Nat} {after : Option SplitLoop} {h : Heap} {live : List (Nat × Nat)}
    (class_ : order < cacheNum)
    (size : ∀ loop, after = some loop → loop.chunkSize = chunkSize order)
    (inv : ∃ pages C, HeapInv ranges ((entry + entrySize, chunkSize order) ::
      afterUses order after ++ live) g pages C) (alike : Alike none h g) :
    Linear ranges ⟨h.setNext entry (h.kmemCaches order).freeList, live, .push .test entry order after⟩
      g ((entry + entrySize, chunkSize order) :: afterUses order after) (some entry) :=
  ⟨.push class_ size (Or.inl rfl), inv, (alike.weaken (some entry)).setPending _⟩

/-- A push takes effect when the head is written. -/
theorem Linear.pushed {entry : Nat} {after : Option SplitLoop} {h : Heap} {live : List (Nat × Nat)}
    (class_ : order < cacheNum)
    (size : ∀ loop, after = some loop → loop.chunkSize = chunkSize order)
    (inv : ∃ pages C, HeapInv ranges ((entry + entrySize, chunkSize order) ::
      afterUses order after ++ live) g pages C) (alike : Alike (some entry) h g)
    (kept : (h.kmemCaches order).freeList = h.entries.next entry) :
    Linear ranges ⟨h.setCache order fun c => { c with freeList := some entry }, live,
      .push .clear entry order after⟩ (kmemFreelistPush g entry order) (afterUses order after) none := by
  obtain ⟨pages, C, inv⟩ := inv
  obtain ⟨sameClass, _, small⟩ := classOf_chunkSize class_
  have pushed := inv.pushChunk List.mem_cons_self small
  rw [sameClass, Nat.add_sub_cancel, List.cons_append, List.erase_cons_head] at pushed
  refine ⟨.clear class_ size, ⟨pages, _, pushed⟩, ?_⟩
  have settled := alike.settle (kept.symm.trans (alike.freeList order))
  exact (settled.setCache order _).trans (push_alike g entry order).symm

/-- A pop takes effect when the head is written. -/
theorem Linear.popped {entry : Nat} {h : Heap} {live : List (Nat × Nat)} (class_ : order < cacheNum)
    (inv : ∃ pages C, HeapInv ranges live g pages C) (alike : Alike none h g)
    (kept : (h.kmemCaches order).freeList = some entry) :
    Linear ranges ⟨h.setCache order fun c => { c with freeList := h.entries.next entry }, live,
      .pop .test entry order (some entry)⟩ (kmemFreelistPop g order)
      [(entry + entrySize, chunkSize order)] (some entry) := by
  obtain ⟨pages, C, inv⟩ := inv
  obtain ⟨sameClass, positive, small⟩ := classOf_chunkSize class_
  have head : (g.kmemCaches order).freeList = some entry := (alike.freeList order).symm.trans kept
  have head' : (g.kmemCaches (classOf (chunkSize order))).freeList = some entry := by
    rw [sameClass]
    exact head
  obtain ⟨rest, _, popped⟩ := inv.popChunk positive small head'
  rw [sameClass] at popped
  refine ⟨.popped class_ (Or.inl rfl), ⟨pages, _, popped⟩, ?_⟩
  rw [alike.next entry nofun]
  have written := (alike.setCache order fun c => { c with freeList := g.entries.next entry }).symm
  exact ((written.weaken (some entry)).setPending none).symm.trans
    ((pop_alike g head).weaken (some entry)).symm

/-- The link of a removed chunk is cleared. -/
theorem Linear.cleared {entry : Nat} {h : Heap} {live : List (Nat × Nat)} (class_ : order < cacheNum)
    (inv : ∃ pages C, HeapInv ranges ((entry + entrySize, chunkSize order) :: live) g pages C)
    (alike : Alike (some entry) h g) :
    Linear ranges ⟨h.setNext entry none, live, .pop .clearPrev entry order (some entry)⟩
      (g.setNext entry none) [(entry + entrySize, chunkSize order)] none := by
  obtain ⟨pages, C, inv⟩ := inv
  have small := (classOf_chunkSize class_).2.2
  refine ⟨.clearPrev class_, ⟨pages, C, inv.setNext (inv.unlisted List.mem_cons_self small rfl) none⟩, ?_⟩
  exact (alike.setPending none).settle (Function.update_self _ _ _)

/-- A new page is tagged, and its chunks belong to the loop that pushes them. -/
theorem Linear.tagged {page : Nat} {h : Heap} {live : List (Nat × Nat)} (class_ : order < cacheNum)
    (inv : ∃ pages C, HeapInv ranges ((page, pageSize) :: live) g pages C) (alike : Alike none h g) :
    Linear ranges ⟨h.setCacheOrder (pageIndex page).toNat ((order + minCacheOrder : Nat) : Int), live,
        .split order ⟨page, 1, chunkSize order⟩⟩
      (g.setCacheOrder (pageIndex page).toNat ((order + minCacheOrder : Nat) : Int))
      (afterUses order (some ⟨page, 1, chunkSize order⟩)) none := by
  obtain ⟨pages, C, inv⟩ := inv
  obtain ⟨x, pointer, tagged, new⟩ := inv.tagPage class_
  have start : chunkAt x order 0 = page := by
    unfold chunkAt
    rw [Nat.zero_mul, Nat.add_zero, pointer]
  have adopted : HeapInv ranges (chunkUses (chunkAt x order 0) order
      (chunkNum (chunkSize order) - 1) ++ live) _ _ _ :=
    tagged.adoptChunks class_ List.mem_cons_self (by omega) new
  rw [start] at adopted
  exact ⟨owns_split class_ rfl, ⟨_, _, adopted⟩, alike.setCacheOrder _ _⟩

/-- One statement of a push, in a state that is in order. -/
theorem Linear.pushStatement {at_ : PushAt} {entry : Nat} {after : Option SplitLoop} {h h' : Heap}
    {live : List (Nat × Nat)} {call : Call}
    (linear : Linear ranges ⟨h, live, .push at_ entry order after⟩ g own pending)
    (kept : HeadKept h (.push at_ entry order after))
    (stepped : (Call.push at_ entry order after).step h = some (h', call)) :
    ∃ g' own' pending', Linear ranges ⟨h', live, call⟩ g' own' pending' := by
  obtain ⟨owns, inv, alike⟩ := linear
  cases at_ with
  | link =>
      cases stepped
      cases owns with
      | link class_ size => exact ⟨_, _, _, .link class_ size inv alike⟩
      | push _ _ during => rcases during with same | same | same <;> cases same
  | test =>
      cases stepped
      cases owns with
      | push class_ size _ =>
          refine ⟨_, _, _, .push class_ size ?_, inv, alike⟩
          split
          · exact Or.inr (Or.inr rfl)
          · exact Or.inr (Or.inl rfl)
  | back =>
      obtain ⟨head, _, same⟩ := Option.bind_eq_some_iff.mp stepped
      cases same
      cases owns with
      | push class_ size _ =>
          exact ⟨_, _, _, .push class_ size (Or.inr (Or.inr rfl)), inv, alike.setPrev _ _⟩
  | setHead =>
      cases stepped
      cases owns with
      | push class_ size _ => exact ⟨_, _, _, .pushed class_ size inv alike kept⟩
  | clear =>
      cases stepped
      cases owns with
      | clear class_ size => exact ⟨_, _, _, owns_next class_ size, inv, alike.setPrev _ _⟩
      | push _ _ during => rcases during with same | same | same <;> cases same

/-- One statement of a pop, in a state that is in order. -/
theorem Linear.popStatement {at_ : PopAt} {entry : Nat} {tmp : Option Nat} {h h' : Heap}
    {live : List (Nat × Nat)} {call : Call}
    (linear : Linear ranges ⟨h, live, .pop at_ entry order tmp⟩ g own pending)
    (kept : HeadKept h (.pop at_ entry order tmp))
    (stepped : (Call.pop at_ entry order tmp).step h = some (h', call)) :
    ∃ g' own' pending', Linear ranges ⟨h', live, call⟩ g' own' pending' := by
  obtain ⟨owns, inv, alike⟩ := linear
  cases at_ with
  | read =>
      cases stepped
      have head : (h.kmemCaches order).freeList = some entry := kept
      cases owns with
      | popRead class_ =>
          rw [head]
          exact ⟨_, _, _, .popHead class_, inv, alike⟩
      | popped _ during => rcases during with same | same | same <;> cases same
  | setHead =>
      have head : (h.kmemCaches order).freeList = some entry := kept
      obtain ⟨first, found, same⟩ := Option.bind_eq_some_iff.mp stepped
      rw [head] at found
      cases found
      cases same
      cases owns with
      | popHead class_ => exact ⟨_, _, _, .popped class_ inv alike head⟩
      | popped _ during => rcases during with same | same | same <;> cases same
  | test =>
      cases stepped
      cases owns with
      | popped class_ _ =>
          refine ⟨_, _, _, .popped class_ ?_, inv, alike⟩
          split
          · exact Or.inr (Or.inr rfl)
          · exact Or.inr (Or.inl rfl)
  | back =>
      obtain ⟨head, _, same⟩ := Option.bind_eq_some_iff.mp stepped
      cases same
      cases owns with
      | popped class_ _ =>
          exact ⟨_, _, _, .popped class_ (Or.inr (Or.inr rfl)), inv, alike.setPrev _ _⟩
  | clearNext =>
      obtain ⟨removed, found, same⟩ := Option.bind_eq_some_iff.mp stepped
      cases same
      cases owns with
      | popped class_ _ =>
          cases found
          exact ⟨_, _, _, .cleared class_ inv alike⟩
  | clearPrev =>
      obtain ⟨removed, found, same⟩ := Option.bind_eq_some_iff.mp stepped
      cases same
      cases owns with
      | clearPrev class_ =>
          have returned := @Owns.returned (entry + entrySize) order
          rw [keep_of_ne (Nat.ne_of_gt (Nat.add_pos_right _ (by decide)))] at returned
          exact ⟨_, _, _, returned, inv, alike.setPrev _ _⟩
      | popped _ during => rcases during with same | same | same <;> cases same

theorem step_request (h : Heap) (order : Nat) : (Call.request order).step h =
    some ({ h with mm := (Mm.alloc h.mm pageSize).1 },
      if (Mm.alloc h.mm pageSize).2 = 0 then .read order
      else .tag order (Mm.alloc h.mm pageSize).2) := rfl

/-- Every statement keeps the invariant if it finds the head that it has read. -/
theorem Linear.statement (linear : Linear ranges sys g own pending)
    (kept : HeadKept sys.heap sys.call) {h : Heap} {call : Call}
    (stepped : sys.call.step sys.heap = some (h, call)) :
    ∃ g' own' pending', Linear ranges { sys with heap := h, call := call } g' own' pending' := by
  obtain ⟨heap, live, current⟩ := sys
  dsimp only at *
  cases current with
  | idle => cases stepped
  | returned _ _ => cases stepped
  | push at_ entry order after => exact linear.pushStatement kept stepped
  | pop at_ entry order tmp => exact linear.popStatement kept stepped
  | test order =>
      cases stepped
      obtain ⟨owns, inv, alike⟩ := linear
      cases owns with
      | test class_ =>
          refine ⟨_, _, _, ?_, inv, alike⟩
          split
          · exact .request class_
          · exact .read class_
  | request order =>
      obtain ⟨rfl, rfl⟩ := Prod.mk.inj (Option.some.inj (step_request heap order ▸ stepped))
      obtain ⟨owns, ⟨pages, C, inv⟩, alike⟩ := linear
      cases owns with
      | request class_ =>
          have allocated := inv.allocLarge (by decide : maxChunkSize < pageSize)
          have alike' := alike.setMm (Mm.alloc g.mm pageSize).1
          rw [alike.mm]
          by_cases failure : (Mm.alloc g.mm pageSize).2 = 0
          · rw [keep, if_pos failure] at allocated
            rw [if_pos failure]
            exact ⟨_, _, _, .read class_, ⟨_, _, allocated⟩, alike'⟩
          · rw [keep_of_ne failure] at allocated
            rw [if_neg failure]
            exact ⟨_, _, _, .tag class_, ⟨_, _, allocated⟩, alike'⟩
  | tag order page =>
      cases stepped
      obtain ⟨owns, inv, alike⟩ := linear
      cases owns with
      | tag class_ =>
          have size : (heap.kmemCaches order).cacheSize = chunkSize order := by
            obtain ⟨pages, C, inv⟩ := inv
            rw [alike.caches]
            exact inv.sizes order class_
          have tagged := Linear.tagged class_ inv alike
          rw [← size] at tagged
          exact ⟨_, _, _, tagged⟩
  | read order =>
      obtain ⟨owns, inv, alike⟩ := linear
      unfold Call.step at stepped
      dsimp only at stepped
      cases owns with
      | read class_ =>
          split at stepped
          · cases stepped
            have returned := @Owns.returned 0 order
            exact ⟨_, _, _, returned, inv, alike⟩
          · cases stepped
            exact ⟨_, _, _, .popRead class_, inv, alike⟩

theorem keep_append (ptr size : Nat) (first second : List (Nat × Nat)) :
    (keep ptr size (first ++ second)).Perm (first ++ keep ptr size second) := by
  unfold keep
  split
  · exact .refl _
  · exact List.perm_middle.symm

/-- The call of `kfree` gets the pointer, and with it the chunk. -/
theorem Linear.kfree (linear : Linear ranges sys g own pending) (idle : sys.call = .idle)
    (image : (imageStart, layout.stackTop) ∈ ranges) {use : Nat × Nat} (member : use ∈ sys.live)
    (small : use.2 ≤ maxChunkSize) :
    ∃ own', Linear ranges
      { sys with live := sys.live.erase use, call := .kfree layout sys.heap use.1 } g own' none := by
  obtain ⟨owns, ⟨pages, C, inv⟩, alike⟩ := linear
  rw [idle] at owns
  cases owns with
  | idle =>
      rw [List.nil_append] at inv
      obtain ⟨nonzero, outside, _, tag, class_⟩ := inv.chunk_in_use image member small
      obtain ⟨known, back⟩ := tag_valid class_
      have starts : Call.kfree layout sys.heap use.1 =
          .push .link (use.1 - entrySize) (classOf use.2) none := by
        unfold Call.kfree
        rw [if_neg nonzero, if_neg outside, alike.mm, tag]
        dsimp only
        rw [if_neg known, back]
      have pointer : use.1 - entrySize + entrySize = use.1 := by
        obtain ⟨_, e, pointer, _⟩ := inv.used use member small
        omega
      have taken := (inv.perm (List.perm_cons_erase member)).resize small
      rw [← pointer] at taken
      refine ⟨[(use.1 - entrySize + entrySize, chunkSize (classOf use.2))], ?_, ⟨pages, C, taken⟩, alike⟩
      rw [starts]
      exact @Owns.link (use.1 - entrySize) (classOf use.2) none class_ nofun

/-- The pointer that is returned is in use from now on. -/
theorem Linear.finish (linear : Linear ranges sys g own pending) {ptr : Nat}
    (returned : sys.call = .returned ptr order) :
    Linear ranges { sys with live := keep ptr (chunkSize order) sys.live, call := .idle } g [] none := by
  obtain ⟨owns, ⟨pages, C, inv⟩, alike⟩ := linear
  rw [returned] at owns
  cases owns with
  | returned =>
      refine ⟨.idle, ⟨pages, C, ?_⟩, alike⟩
      unfold keep at inv ⊢
      split at inv
      · next failure =>
          rw [if_pos failure]
          exact inv
      · next success =>
          rw [if_neg success]
          exact inv

/-- The others make a whole call of `alloc`. -/
theorem Linear.alloc (linear : Linear ranges sys g own pending) (size : Nat) :
    Linear ranges { sys with
      heap := (Kmem.alloc sys.heap size).1
      live := keep (Kmem.alloc sys.heap size).2 size sys.live } (Kmem.alloc g size).1 own pending := by
  obtain ⟨owns, ⟨pages, C, inv⟩, alike⟩ := linear
  have pendingUse : ∀ x, pending = some x →
      ∃ use ∈ own ++ sys.live, use.2 ≤ maxChunkSize ∧ use.1 = x + entrySize := by
    intro x isPending
    obtain ⟨use, member, found⟩ := owns.pending_use isPending
    exact ⟨use, List.mem_append_left _ member, found⟩
  obtain ⟨sameResult, alike'⟩ := inv.alloc_alike alike pendingUse size
  obtain ⟨pages', C', allocated⟩ := inv.alloc size
  refine ⟨owns, ⟨pages', C', ?_⟩, alike'⟩
  dsimp only
  rw [sameResult]
  exact allocated.perm (keep_append _ size own sys.live)

/-- The others make a whole call of `free`. -/
theorem Linear.free (linear : Linear ranges sys g own pending)
    (image : (imageStart, layout.stackTop) ∈ ranges) {use : Nat × Nat} (member : use ∈ sys.live) :
    Linear ranges { sys with
      heap := Kmem.free layout sys.heap use.1
      live := sys.live.erase use } (Kmem.free layout g use.1) own pending := by
  obtain ⟨owns, ⟨pages, C, inv⟩, alike⟩ := linear
  obtain ⟨C', freed⟩ := inv.release image (List.mem_append_right own member)
  refine ⟨owns, ⟨pages, C', freed.perm ?_⟩, alike.free layout use.1⟩
  have others : ((own ++ sys.live).erase use).Perm ((sys.live ++ own).erase use) :=
    List.perm_append_comm.erase use
  rw [List.erase_append_left _ member] at others
  exact others.trans List.perm_append_comm

/-- Every step keeps the invariant, as long as the heads are kept. -/
theorem Linear.step {op : InterruptedOp} (linear : Linear ranges sys g own pending)
    (image : (imageStart, layout.stackTop) ∈ ranges)
    (kept : op = .statement → HeadKept sys.heap sys.call)
    (stepped : InterruptedStep layout sys op sys') :
    ∃ g' own' pending', Linear ranges sys' g' own' pending' := by
  cases stepped with
  | kmalloc size idle =>
      obtain ⟨owns, inv, alike⟩ := linear
      rw [idle] at owns
      cases owns with
      | idle => exact ⟨g, [], none, owns_kmalloc size, inv, alike⟩
  | kfree idle member small =>
      obtain ⟨own', linear'⟩ := linear.kfree idle image member small
      exact ⟨g, own', none, linear'⟩
  | statement stepped => exact linear.statement (kept rfl) stepped
  | finish returned => exact ⟨g, [], none, linear.finish returned⟩
  | alloc size => exact ⟨_, own, pending, linear.alloc size⟩
  | free member => exact ⟨_, own, pending, linear.free image member⟩

/-- Following the links of the heap from a pointer stays on the list of whole calls. -/
theorem mem_of_reaches {m n : Links Nat} {head back : Option Nat} {nodes : List Nat} {entry : Nat}
    (reached : m.Reaches head entry) (chain : Links.Chain n back head nodes)
    (same : ∀ x ∈ nodes, m.next x = n.next x) : entry ∈ nodes := by
  induction reached generalizing back nodes with
  | here x =>
      cases chain
      exact List.mem_cons_self
  | @step x y _ ih =>
      cases chain with
      | cons _ tail =>
          rw [same x List.mem_cons_self] at ih
          exact List.mem_cons_of_mem x (ih tail fun z member => same z (List.mem_cons_of_mem x member))

theorem Linear.chunksApart (linear : Linear ranges sys g own pending) : ChunksApart sys := by
  obtain ⟨owns, ⟨pages, C, inv⟩, alike⟩ := linear
  constructor
  · exact (List.pairwise_append.mp inv.disjoint).2.1
  · intro use member small c _ reached
    rw [alike.freeList] at reached
    obtain ⟨_, entry, pointer, _, off⟩ := inv.used use (List.mem_append_right own member) small
    rw [pointer, Nat.add_sub_cancel] at reached
    refine off c (mem_of_reaches reached (inv.lists.list c) fun x inList => alike.next x fun isPending => ?_)
    obtain ⟨owned, inOwn, below, pointer'⟩ := owns.pending_use isPending
    exact inv.unlisted (List.mem_append_left _ inOwn) below pointer' c inList

theorem InterruptedRun.linear
    (run : InterruptedRun layout ranges (fun sys op => op = .statement → HeadKept sys.heap sys.call) sys) :
    (imageStart, layout.stackTop) ∈ ranges ∧ ∃ g own pending, Linear ranges sys g own pending := by
  induction run with
  | start run =>
      obtain ⟨image, pages, C, inv⟩ := run.inv
      exact ⟨image, _, [], none, .idle, ⟨pages, C, inv⟩, .refl none _⟩
  | step _ kept stepped ih =>
      obtain ⟨image, g, own, pending, linear⟩ := ih
      exact ⟨image, linear.step image kept stepped⟩

end Invariant

/-- In a run in which every change of a list finds the head that the call has
read, no chunk has two owners and no chunk in use is free. -/
theorem run_chunksApart {layout : Layout} {ranges : List (Nat × Nat)} {sys : Interrupted}
    (run : InterruptedRun layout ranges (fun sys op => op = .statement → HeadKept sys.heap sys.call) sys) :
    ChunksApart sys := by
  obtain ⟨_, g, own, pending, linear⟩ := run.linear
  exact linear.chunksApart

/-! ## A chunk with two owners -/

section Lost

variable {layout : Layout} {ranges live : List (Nat × Nat)} {h h' : Heap}

theorem Uninterrupted.run {first last : Heap × Call} (steps : Uninterrupted first last)
    (run : InterruptedRun layout ranges (fun _ _ => True) ⟨first.1, live, first.2⟩) :
    InterruptedRun layout ranges (fun _ _ => True) ⟨last.1, live, last.2⟩ := by
  induction steps with
  | refl => exact run
  | tail _ stepped ih => exact .step ih trivial (.statement stepped)

/-- `kmalloc` has read the head, and an interrupt allocates a chunk of that size. -/
theorem interrupted_between (run : Run layout ranges live h) {entry tmp : Nat}
    (head : (h.kmemCaches 0).freeList = some entry)
    (allocated : (alloc h 16).2 = entry + entrySize)
    (second : ((alloc h 16).1.kmemCaches 0).freeList = some tmp) :
    InterruptedRun layout ranges (fun _ _ => True)
      ⟨kmemFreelistPop (alloc h 16).1 0,
        (entry + entrySize, 16) :: (entry + entrySize, 16) :: live, .idle⟩ := by
  have success : entry + entrySize ≠ 0 := Nat.ne_of_gt (Nat.add_pos_right _ (by decide))
  have started : InterruptedRun layout ranges (fun _ _ => True) ⟨h, live, .test 0⟩ :=
    .step (.start run) trivial (.kmalloc 16 rfl)
  have tested : (Call.test 0).step h = some (h, .read 0) := by
    unfold Call.step
    dsimp only
    rw [head]
    rfl
  have hasRead : (Call.read 0).step h = some (h, .pop .read entry 0 none) := by
    unfold Call.step
    dsimp only
    rw [head]
  have before : InterruptedRun layout ranges (fun _ _ => True) ⟨h, live, .pop .read entry 0 none⟩ :=
    .step (.step started trivial (.statement tested)) trivial (.statement hasRead)
  have during := before.step trivial (.alloc 16)
  dsimp only at during
  rw [allocated, keep_of_ne success] at during
  have popped := (pop_statements second entry).run during
  have finished := popped.step trivial (.finish rfl)
  dsimp only at finished
  rw [keep_of_ne success] at finished
  exact finished

theorem not_chunksApart {use : Nat × Nat} {call : Call} (positive : 1 ≤ use.2) :
    ¬ ChunksApart ⟨h, use :: use :: live, call⟩ := by
  intro apart
  have disjoint := (List.pairwise_cons.mp apart.disjoint).1 use List.mem_cons_self
  rw [Set.disjoint_left] at disjoint
  have inside : use.1 ∈ bytesOf use := ⟨Nat.le_refl _, Nat.lt_add_of_pos_right positive⟩
  exact disjoint inside inside

/-- An interrupt that comes before the head is read does no harm. -/
theorem interrupted_before (run : Run layout ranges live h) (size : Nat)
    {allowed : Interrupted → InterruptedOp → Prop}
    (others : ∀ sys op, op ≠ .statement → allowed sys op) :
    InterruptedRun layout ranges allowed
      ⟨(alloc h size).1, keep (alloc h size).2 size live, .test 0⟩ := by
  have started : InterruptedRun layout ranges allowed ⟨h, live, .test 0⟩ :=
    .step (.start run) (others _ .kmalloc nofun) (.kmalloc 16 rfl)
  exact started.step (others _ .alloc nofun) (.alloc size)

end Lost

theorem run_chunksApart_first : ChunksApart
    ⟨(alloc bootedHeap 16).1, keep (alloc bootedHeap 16).2 16 [], .test 0⟩ :=
  run_chunksApart (interrupted_before bootedHeap_run 16 fun _ _ other same => absurd same other)

/-- The first free chunk of 16 bytes. -/
def firstChunk : Nat := (bootedHeap.kmemCaches 0).freeList.get (by decide +kernel)

def secondChunk : Nat := ((alloc bootedHeap 16).1.kmemCaches 0).freeList.get (by decide +kernel)

theorem chunk_returned_twice : ∃ sys : Interrupted,
    InterruptedRun smallImage [(imageStart, smallImage.stackTop), (0, 0x1000)] (fun _ _ => True) sys ∧
      sys.live = [(firstChunk + entrySize, 16), (firstChunk + entrySize, 16)] ∧
        ¬ ChunksApart sys := by
  have head : (bootedHeap.kmemCaches 0).freeList = some firstChunk := (Option.some_get _).symm
  have second : ((alloc bootedHeap 16).1.kmemCaches 0).freeList = some secondChunk :=
    (Option.some_get _).symm
  have allocated : (alloc bootedHeap 16).2 = firstChunk + entrySize := by decide +kernel
  exact ⟨_, interrupted_between bootedHeap_run head allocated second, rfl,
    not_chunksApart (by decide)⟩

end OsdiKernel.Kmem
