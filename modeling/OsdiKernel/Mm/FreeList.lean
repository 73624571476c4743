import OsdiKernel.Mm.Model

/-!
# The free lists as doubly linked lists

`add_to_free_list` and `rm_from_free_list` change list pointers and heads only.
On well-formed lists they are the two edits of a doubly linked list.
-/

namespace OsdiKernel.Mm

/-! ## Field updates -/

namespace State

variable (s : State) (i : Nat) (f : PageInfo → PageInfo)

@[simp] theorem modifyPage_freeList : (s.modifyPage i f).freeList = s.freeList := rfl

@[simp] theorem modifyPage_self : (s.modifyPage i f).pageList i = f (s.pageList i) :=
  Function.update_self _ _ _

theorem modifyPage_of_ne {j : Nat} (other : j ≠ i) :
    (s.modifyPage i f).pageList j = s.pageList j :=
  Function.update_of_ne other _ _

theorem modifyPage_pageList (j : Nat) :
    (s.modifyPage i f).pageList j = if j = i then f (s.pageList j) else s.pageList j := by
  by_cases same : j = i
  · rw [same, modifyPage_self, if_pos rfl]
  · rw [modifyPage_of_ne s i f same, if_neg same]

@[simp] theorem setFreeList_pageList (k : Nat) (head : Option Nat) :
    (s.setFreeList k head).pageList = s.pageList := rfl

/-- An update of other fields leaves all list pointers alone. -/
theorem links_modifyPage (next_eq : ∀ page, (f page).next = page.next)
    (prev_eq : ∀ page, (f page).prev = page.prev) : (s.modifyPage i f).links = s.links := by
  unfold links
  congr 1 <;> funext j <;> rw [modifyPage_pageList] <;> split
  · exact next_eq _
  · rfl
  · exact prev_eq _
  · rfl

/-- Replace all list pointers and heads. -/
def relink (s : State) (m : Links Nat) (heads : Nat → Option Nat) : State where
  freeList := heads
  pageList i := { s.pageList i with next := m.next i, prev := m.prev i }

variable (m : Links Nat) (heads : Nat → Option Nat)

@[simp] theorem relink_freeList : (s.relink m heads).freeList = heads := rfl
@[simp] theorem relink_links : (s.relink m heads).links = m := rfl
@[simp] theorem relink_idx : ((s.relink m heads).pageList i).idx = (s.pageList i).idx := rfl
@[simp] theorem relink_order : ((s.relink m heads).pageList i).order = (s.pageList i).order := rfl
@[simp] theorem relink_cacheOrder :
    ((s.relink m heads).pageList i).cacheOrder = (s.pageList i).cacheOrder := rfl
@[simp] theorem relink_entryInList :
    ((s.relink m heads).pageList i).entryInList = (s.pageList i).entryInList := rfl

end State

theorem PageInfo.ext_iff {p q : PageInfo} :
    p = q ↔ p.idx = q.idx ∧ p.order = q.order ∧ p.cacheOrder = q.cacheOrder ∧
      p.entryInList = q.entryInList ∧ p.prev = q.prev ∧ p.next = q.next := by
  cases p
  cases q
  simp

theorem order_in_range {k : Nat} (bounded : k < maxOrder) :
    ¬ ((k : Int) < 0 ∨ (maxOrder : Int) ≤ k) := by
  omega

/-- `add_to_free_list` pushes the entry at the front. -/
theorem addToFreeList_eq (s : State) (e : Nat) {k : Nat} (bounded : k < maxOrder) :
    addToFreeList s (some e) k = s.relink (s.links.pushFront (s.freeList k) e)
      (Function.update s.freeList k (some e)) := by
  unfold addToFreeList
  simp only [if_neg (order_in_range bounded), Int.toNat_natCast]
  cases headEq : s.freeList k with
  | none =>
      simp only [State.relink, State.setFreeList, State.modifyPage, State.mk.injEq, true_and]
      funext i
      by_cases same : i = e
      · subst same
        simp [State.links]
      · simp [same, Links.pushFront, Links.writeAt, State.links]
  | some head =>
      simp only [State.relink, State.setFreeList, State.modifyPage, State.mk.injEq, true_and,
        headEq]
      funext i
      by_cases same : i = e
      · subst same
        by_cases atHead : i = head
        · subst atHead
          simp [Links.pushFront, State.links]
        · simp [atHead, Links.pushFront, State.links]
      · by_cases atHead : i = head
        · subst atHead
          simp [same, Links.pushFront, Links.writeAt, State.links]
        · simp [same, atHead, Links.pushFront, Links.writeAt, State.links]

theorem State.modifyAt_pageList (s : State) (pointer : Option Nat) (f : PageInfo → PageInfo)
    (j : Nat) : (s.modifyAt pointer f).pageList j =
      if pointer = some j then f (s.pageList j) else s.pageList j := by
  cases pointer with
  | none => rfl
  | some i =>
      change (s.modifyPage i f).pageList j = _
      rw [modifyPage_pageList]
      simp only [Option.some.injEq, eq_comm]

@[simp] theorem State.modifyAt_freeList (s : State) (pointer : Option Nat)
    (f : PageInfo → PageInfo) : (s.modifyAt pointer f).freeList = s.freeList := by
  cases pointer <;> rfl

theorem writeAt_apply {β : Type} (f : Nat → β) (pointer : Option Nat) (value : β) (j : Nat) :
    Links.writeAt f pointer value j = if pointer = some j then value else f j := by
  by_cases same : pointer = some j
  · rw [if_pos same, same, Links.writeAt_self]
  · rw [if_neg same, Links.writeAt_of_ne same]

/-- `rm_from_free_list` unlinks an entry whose `prev` is null when it is the head. -/
theorem rmFromFreeList_eq (s : State) (e : Nat) {k : Nat} (bounded : k < maxOrder)
    (headPrev : s.freeList k = some e → s.links.prev e = none) :
    rmFromFreeList s (some e) k = s.relink (s.links.unlink e)
      (if s.freeList k = some e then Function.update s.freeList k (s.links.next e)
        else s.freeList) := by
  have links_next : ∀ i, s.links.next i = (s.pageList i).next := fun _ => rfl
  have links_prev : ∀ i, s.links.prev i = (s.pageList i).prev := fun _ => rfl
  unfold rmFromFreeList
  simp only [if_neg (order_in_range bounded), Int.toNat_natCast]
  by_cases atHead : s.freeList k = some e
  · have noPrev : (s.pageList e).prev = none := headPrev atHead
    rw [if_pos atHead, if_pos atHead, State.relink, State.mk.injEq]
    refine ⟨by simp [State.setFreeList, links_next], funext fun i => ?_⟩
    by_cases same : i = e
    · subst same
      simp [State.modifyAt_pageList]
      split <;> simp
    · rw [Links.unlink_next_of_ne same, Links.unlink_prev_of_ne same, links_prev, links_next,
        noPrev, writeAt_apply, writeAt_apply]
      simp [State.modifyPage_pageList, State.modifyAt_pageList, same, links_prev, links_next]
      split <;> rfl
  · -- the first write does not change the pointers of `e` that the second one reads
    have kept : ((s.modifyAt (s.pageList e).prev
        fun page => { page with next := (s.pageList e).next }).pageList e).next =
          (s.pageList e).next ∧
        ((s.modifyAt (s.pageList e).prev
          fun page => { page with next := (s.pageList e).next }).pageList e).prev =
          (s.pageList e).prev := by
      rw [State.modifyAt_pageList]
      split <;> exact ⟨rfl, rfl⟩
    rw [if_neg atHead, if_neg atHead, State.relink, State.mk.injEq, kept.1, kept.2]
    refine ⟨by simp, funext fun i => ?_⟩
    by_cases same : i = e
    · subst same
      simp [State.modifyAt_pageList]
    · rw [Links.unlink_next_of_ne same, Links.unlink_prev_of_ne same, links_prev, links_next,
        writeAt_apply, writeAt_apply]
      by_cases isPrev : (s.pageList e).prev = some i <;>
        by_cases isNext : (s.pageList e).next = some i <;>
          simp [State.modifyPage_pageList, State.modifyAt_pageList, same, links_prev, links_next,
            isPrev, isNext]

/-! ## Well-formed free lists -/

/-- The free lists hold the entries `L k`, and an entry on no list has null pointers. -/
structure Lists (s : State) (L : Nat → List Nat) : Prop where
  bounded : ∀ {k x}, x ∈ L k → k < maxOrder
  list : ∀ k, k < maxOrder → s.links.IsList (s.freeList k) (L k)
  disjoint : ∀ {j k x}, x ∈ L j → x ∈ L k → j = k
  detached : ∀ x, (∀ k, x ∉ L k) → s.links.next x = none ∧ s.links.prev x = none

namespace Lists

variable {s : State} {L : Nat → List Nat} {k x : Nat}

theorem head_mem (lists : Lists s L) (bounded : k < maxOrder) (head : s.freeList k = some x) :
    x ∈ L k := by
  have first := (lists.list k bounded).head_eq
  rw [head] at first
  exact List.mem_of_mem_head? first.symm

theorem head_prev (lists : Lists s L) (bounded : k < maxOrder) (head : s.freeList k = some x) :
    s.links.prev x = none := by
  have list := lists.list k bounded
  rw [head] at list
  exact list.head_prev

theorem freeList_eq_none (lists : Lists s L) (bounded : k < maxOrder) :
    s.freeList k = none ↔ L k = [] := by
  rw [(lists.list k bounded).head_eq, List.head?_eq_none_iff]

/-- List pointers lead from an entry to entries of the same list. -/
theorem neighbour_next (lists : Lists s L) (member : x ∈ L k) {y : Nat}
    (forward : s.links.next x = some y) : y ∈ L k :=
  ((lists.list k (lists.bounded member)).next_mem member forward).1

theorem neighbour_prev (lists : Lists s L) (member : x ∈ L k) {y : Nat}
    (backward : s.links.prev x = some y) : y ∈ L k := by
  rcases (lists.list k (lists.bounded member)).prev_mem member backward with ⟨none_, _⟩ | ⟨inside, _⟩
  · cases none_
  · exact inside

theorem push (lists : Lists s L) (bounded : k < maxOrder) (fresh : ∀ j, x ∉ L j) :
    Lists (addToFreeList s (some x) k) (Function.update L k (x :: L k)) := by
  rw [addToFreeList_eq s x bounded]
  constructor
  · intro j y member
    by_cases same : j = k
    · exact same ▸ bounded
    · rw [Function.update_of_ne same] at member
      exact lists.bounded member
  · intro j inRange
    rw [State.relink_links, State.relink_freeList]
    by_cases same : j = k
    · subst same
      rw [Function.update_self, Function.update_self]
      exact (lists.list j inRange).pushFront (fresh j)
    · rw [Function.update_of_ne same, Function.update_of_ne same]
      apply (lists.list j inRange).pushFront_other (fresh j)
      intro h head member
      exact same (lists.disjoint member (lists.head_mem bounded head))
  · intro i j y inI inJ
    have origin : ∀ l, y ∈ Function.update L k (x :: L k) l → (y = x ∧ l = k) ∨ y ∈ L l := by
      intro l member
      by_cases same : l = k
      · subst same
        rw [Function.update_self] at member
        rcases List.mem_cons.mp member with atX | old
        · exact Or.inl ⟨atX, rfl⟩
        · exact Or.inr old
      · rw [Function.update_of_ne same] at member
        exact Or.inr member
    rcases origin i inI with ⟨atX, rfl⟩ | oldI <;> rcases origin j inJ with ⟨atX', rfl⟩ | oldJ
    · rfl
    · exact absurd oldJ (atX ▸ fresh j)
    · exact absurd oldI (atX' ▸ fresh i)
    · exact lists.disjoint oldI oldJ
  · intro y outside
    have notX : y ≠ x := by
      intro same
      subst same
      exact outside k (by rw [Function.update_self]; exact List.mem_cons_self)
    have old : ∀ j, y ∉ L j := by
      intro j member
      refine outside j ?_
      by_cases same : j = k
      · subst same
        rw [Function.update_self]
        exact List.mem_cons_of_mem _ member
      · rwa [Function.update_of_ne same]
    have notHead : s.freeList k ≠ some y := fun head => old k (lists.head_mem bounded head)
    rw [State.relink_links, Links.pushFront_next_of_ne notX, Links.pushFront_prev_of_ne notX,
      Links.writeAt_of_ne notHead]
    exact lists.detached y old

theorem unlink (lists : Lists s L) (member : x ∈ L k) :
    Lists (rmFromFreeList s (some x) k) (Function.update L k ((L k).erase x)) := by
  have bounded := lists.bounded member
  rw [rmFromFreeList_eq s x bounded (lists.head_prev bounded)]
  have subset : ∀ {j y}, y ∈ Function.update L k ((L k).erase x) j → y ∈ L j := by
    intro j y inside
    by_cases same : j = k
    · subst same
      rw [Function.update_self] at inside
      exact List.mem_of_mem_erase inside
    · rwa [Function.update_of_ne same] at inside
  constructor
  · intro j y inside
    exact lists.bounded (subset inside)
  · intro j inRange
    rw [State.relink_links, State.relink_freeList]
    by_cases same : j = k
    · subst same
      have erased := (lists.list j inRange).unlink member
      rw [Function.update_self]
      split
      · next atHead =>
          rw [Function.update_self]
          rwa [if_pos atHead] at erased
      · next other => rwa [if_neg other] at erased
    · have kept : (if s.freeList k = some x then
          Function.update s.freeList k (s.links.next x) else s.freeList) j = s.freeList j := by
        split
        · rw [Function.update_of_ne same]
        · rfl
      rw [kept, Function.update_of_ne same]
      apply (lists.list j inRange).unlink_other
      · exact fun inside => same (lists.disjoint inside member)
      · exact fun y forward inside =>
          same (lists.disjoint inside (lists.neighbour_next member forward))
      · exact fun y backward inside =>
          same (lists.disjoint inside (lists.neighbour_prev member backward))
  · intro i j y inI inJ
    exact lists.disjoint (subset inI) (subset inJ)
  · intro y outside
    rw [State.relink_links]
    by_cases notX : y = x
    · subst notX
      exact ⟨Links.unlink_next_self, Links.unlink_prev_self⟩
    · have old : ∀ j, y ∉ L j := by
        intro j inside
        refine outside j ?_
        by_cases same : j = k
        · subst same
          rw [Function.update_self]
          exact (List.mem_erase_of_ne notX).mpr inside
        · rwa [Function.update_of_ne same]
      have notNext : s.links.next x ≠ some y :=
        fun forward => old k (lists.neighbour_next member forward)
      have notPrev : s.links.prev x ≠ some y :=
        fun backward => old k (lists.neighbour_prev member backward)
      rw [Links.unlink_next_of_ne notX, Links.unlink_prev_of_ne notX,
        Links.writeAt_of_ne notPrev, Links.writeAt_of_ne notNext]
      exact lists.detached y old

/-- Removing an entry that is on no list changes nothing. -/
theorem rm_absent (lists : Lists s L) (bounded : k < maxOrder) (absent : ∀ j, x ∉ L j) :
    rmFromFreeList s (some x) k = s := by
  obtain ⟨noNext, noPrev⟩ := lists.detached x absent
  have notHead : s.freeList k ≠ some x := fun head => absent k (lists.head_mem bounded head)
  rw [rmFromFreeList_eq s x bounded (fun head => absurd head notHead), if_neg notHead]
  cases s with
  | mk freeList pageList =>
      rw [State.relink, State.mk.injEq]
      refine ⟨rfl, funext fun i => ?_⟩
      by_cases same : i = x
      · subst same
        rw [Links.unlink_next_self, Links.unlink_prev_self, PageInfo.ext_iff]
        exact ⟨rfl, rfl, rfl, rfl, noPrev.symm, noNext.symm⟩
      · rw [Links.unlink_next_of_ne same, Links.unlink_prev_of_ne same, noNext, noPrev]
        rfl

/-- The lists only depend on the pointers and heads. -/
theorem congr {t : State} (lists : Lists s L) (links_eq : t.links = s.links)
    (heads_eq : t.freeList = s.freeList) : Lists t L where
  bounded := lists.bounded
  list k inRange := by
    rw [links_eq, heads_eq]
    exact lists.list k inRange
  disjoint := lists.disjoint
  detached x absent := by
    rw [links_eq]
    exact lists.detached x absent

end Lists

end OsdiKernel.Mm
