import OsdiKernel.Lib.Agenda
import OsdiKernel.Timers.Model

/-!
# The timer list in order

Following `next` from the head visits the timers by expiration.  Nothing in the
code reads `prev`, so this holds whatever the backward pointers are.
-/

namespace OsdiKernel.Timers

open Allocator (Holds)

variable {H : Type}

namespace System

/-- Following `next` from the head visits the listed timers and ends. -/
def Lists (s : System H) (nodes : List Nat) : Prop :=
  Queue.Chain s.links.next s.timerHead nodes

def expiration (s : System H) (p : Nat) : Nat := (s.timers p).expiration

/-- A timer with this expiration is put before all timers of the list. -/
def AtFront (s : System H) (expiration : Nat) : Prop :=
  ∀ head, s.timerHead = some head → expiration ≤ (s.timers head).expiration

end System

/-! ## Insertion -/

section Insertion

variable {s s' : System H} {nodes : List Nat} {new currTick fuel : Nat} {reset : Option Reset}

theorem insertFirst_lists (lists : s.Lists nodes) (apart : new ∉ nodes) :
    (insertFirst s new).Lists (new :: nodes) := by
  refine .cons ?_
  have forward : (insertFirst s new).links.next new = s.timerHead := Links.pushFront_next_self
  rw [forward]
  exact lists.update_link apart

theorem insertBehind_next (s : System H) (curr new : Nat) :
    (insertBehind s curr new).links.next =
      Function.update (Function.update s.links.next new (s.links.next curr)) curr (some new) := by
  unfold insertBehind
  dsimp only
  split <;> rfl

theorem insertBehind_lists {front later : List Nat} {curr : Nat}
    (lists : s.Lists (front ++ curr :: later)) (apart : new ∉ front ++ curr :: later) :
    (insertBehind s curr new).Lists (front ++ curr :: new :: later) := by
  unfold System.Lists
  rw [insertBehind_next]
  exact Queue.Chain.insert lists apart

/-- `curr->next` is the new timer when its neighbour behind is looked up. -/
theorem insertBehind_prev (s : System H) (curr new : Nat) :
    (insertBehind s curr new).links.prev new = some new := by
  simp [insertBehind, Links.setNext, Links.setPrev]

/-- What `add_timer` does to the list. -/
structure Linked (s s' : System H) (nodes : List Nat) (new currTick : Nat)
    (reset : Option Reset) : Prop where
  lists : s'.Lists (Agenda.add s.expiration new nodes)
  rest : s' = { s with links := s'.links, timerHead := s'.timerHead }
  resets : ∀ r, reset = some r → r = ⟨(s.timers new).expiration, currTick⟩
  front : s.AtFront (s.timers new).expiration → s' = insertFirst s new
  behind : ¬ s.AtFront (s.timers new).expiration → s'.links.prev new = some new

theorem insertFirst_linked (lists : s.Lists nodes) (apart : new ∉ nodes)
    (front : s.AtFront (s.timers new).expiration) :
    Linked s (insertFirst s new) nodes new currTick
      (some ⟨(s.timers new).expiration, currTick⟩) where
  lists := by
    have first : Agenda.add s.expiration new nodes = new :: nodes := by
      cases nodes with
      | nil => rfl
      | cons head rest => exact List.orderedInsert_cons_of_le _ rest (front head lists.head_eq)
    rw [first]
    exact insertFirst_lists lists apart
  rest := rfl
  resets r same := (Option.some.inj same).symm
  front _ := rfl
  behind other := absurd front other

theorem insertBehind_linked {head curr : Nat} {rest : List Nat}
    (lists : s.Lists (head :: rest)) (apart : new ∉ head :: rest)
    (later : ¬ (s.timers new).expiration ≤ (s.timers head).expiration)
    (found : Queue.seek s.links.next
      (fun p => decide ((s.timers p).expiration < (s.timers new).expiration)) fuel head = some curr) :
    Linked s (insertBehind s curr new) (head :: rest) new currTick none where
  lists := by
    have start : s.timerHead = some head := lists.head_eq
    have chain : Queue.Chain s.links.next (some head) (head :: rest) := start ▸ lists
    obtain ⟨front, shape⟩ := chain.seek_eq found
    have sameTest : (fun p => decide ((s.timers p).expiration < (s.timers new).expiration)) =
        fun p => decide ¬ Agenda.Earlier s.expiration new p := by
      funext p
      simp [Agenda.Earlier, System.expiration]
    rw [sameTest] at shape
    have whole : head :: rest =
        front ++ curr :: rest.dropWhile fun p => decide ¬ Agenda.Earlier s.expiration new p := by
      calc head :: rest
          = (head :: rest.takeWhile fun p => decide ¬ Agenda.Earlier s.expiration new p) ++
              rest.dropWhile fun p => decide ¬ Agenda.Earlier s.expiration new p := by simp
        _ = front ++ curr :: rest.dropWhile fun p => decide ¬ Agenda.Earlier s.expiration new p := by
            rw [← shape]
            simp
    have inserted : Agenda.add s.expiration new (head :: rest) =
        front ++ curr :: new :: rest.dropWhile fun p => decide ¬ Agenda.Earlier s.expiration new p := by
      have notEarlier : ¬ Agenda.Earlier s.expiration new head := later
      unfold Agenda.add
      rw [List.orderedInsert_of_not_le _ rest notEarlier, List.orderedInsert_eq_take_drop,
        ← List.cons_append, ← shape]
      simp
    rw [inserted]
    rw [whole] at lists apart
    exact insertBehind_lists lists apart
  rest := by
    unfold insertBehind
    rfl
  resets r same := nomatch same
  front atFront := absurd (atFront head lists.head_eq) later
  behind _ := insertBehind_prev s curr new

theorem linkTimer_linked (lists : s.Lists nodes) (apart : new ∉ nodes)
    (linked : linkTimer fuel s new currTick = some (s', reset)) :
    Linked s s' nodes new currTick reset := by
  cases start : s.timerHead with
  | none =>
      simp only [linkTimer, start, Option.some.injEq, Prod.mk.injEq] at linked
      obtain ⟨rfl, rfl⟩ := linked
      exact insertFirst_linked lists apart fun head same => nomatch start.symm.trans same
  | some head =>
      simp only [linkTimer, start] at linked
      split at linked
      · next earlier =>
          simp only [Option.some.injEq, Prod.mk.injEq] at linked
          obtain ⟨rfl, rfl⟩ := linked
          refine insertFirst_linked lists apart fun first same => ?_
          rw [start] at same
          cases same
          exact earlier
      · next later =>
          split at linked
          · cases linked
          · next curr found =>
              simp only [Option.some.injEq, Prod.mk.injEq] at linked
              obtain ⟨rfl, rfl⟩ := linked
              have shape : some head = nodes.head? := start ▸ lists.head_eq
              cases nodes with
              | nil => cases shape
              | cons first rest =>
                  cases shape
                  exact insertBehind_linked lists apart later found

/-- The loop of `add_timer` ends. -/
theorem linkTimer_returns (lists : s.Lists nodes) (enough : nodes.length ≤ fuel) :
    ∃ s' reset, linkTimer fuel s new currTick = some (s', reset) := by
  cases start : s.timerHead with
  | none => exact ⟨_, _, by simp only [linkTimer, start]; rfl⟩
  | some head =>
      by_cases earlier : (s.timers new).expiration ≤ (s.timers head).expiration
      · exact ⟨_, _, by simp only [linkTimer, start, earlier, if_true]; rfl⟩
      · have shape : some head = nodes.head? := start ▸ lists.head_eq
        cases nodes with
        | nil => cases shape
        | cons first rest =>
            cases shape
            have chain : Queue.Chain s.links.next (some head) (head :: rest) := start ▸ lists
            obtain ⟨curr, found⟩ := chain.seek_returns (p := fun p =>
              decide ((s.timers p).expiration < (s.timers new).expiration)) enough
            exact ⟨_, _, by simp only [linkTimer, start, earlier, if_false, found]; rfl⟩

end Insertion

/-! ## The invariant -/

variable [Allocator H]

/-- The list is sorted, and its timers and those outside it are allocated. -/
structure Inv (s : System H) (outside nodes : List Nat) : Prop where
  lists : s.Lists nodes
  sorted : Agenda.Sorted s.expiration nodes
  words : ∀ p ∈ outside ++ nodes, (s.timers p).expiration < 2 ^ 64
  distinct : (outside ++ nodes).Nodup
  holds : Holds s.heap (outside ++ nodes ++ s.others)

namespace Inv

variable {s s' : System H} {outside outside' nodes : List Nat} {new curr : Nat}

theorem perm (inv : Inv s outside nodes) (same : outside.Perm outside') : Inv s outside' nodes where
  lists := inv.lists
  sorted := inv.sorted
  words p member := inv.words p ((same.append_right nodes).mem_iff.mpr member)
  distinct := (same.append_right nodes).nodup_iff.mp inv.distinct
  holds := Allocator.perm inv.holds ((same.append_right nodes).append_right s.others)

theorem apart (inv : Inv s (new :: outside) nodes) : new ∉ nodes := fun member =>
  (List.nodup_cons.mp inv.distinct).1 (List.mem_append_right outside member)

/-- What the first half of `add_timer` does when its allocation succeeds. -/
theorem newTimer_eq {r : Request} (allocated : newTimer s r = (s', some new)) :
    (Allocator.alloc s.heap timerSize).2 = some new ∧
      s' = { s with
              heap := (Allocator.alloc s.heap timerSize).1
              timers := Function.update s.timers new r.timer
              clock := r.now } := by
  unfold newTimer at allocated
  split at allocated
  · cases allocated
  · next heap pointer result =>
      cases allocated
      rw [result]
      exact ⟨rfl, rfl⟩

theorem allocate {r : Request} (inv : Inv s outside nodes)
    (allocated : newTimer s r = (s', some new)) : Inv s' (new :: outside) nodes := by
  obtain ⟨pointer, rfl⟩ := newTimer_eq allocated
  obtain ⟨fresh, holds⟩ := Allocator.alloc_some inv.holds pointer
  have unused : new ∉ outside ++ nodes := fun member => fresh (List.mem_append_left _ member)
  have kept : ∀ p ∈ outside ++ nodes, Function.update s.timers new r.timer p = s.timers p := by
    intro p member
    refine Function.update_of_ne ?_ _ _
    rintro rfl
    exact unused member
  constructor
  · exact inv.lists
  · refine inv.sorted.imp_of_mem fun {p q} inP inQ before => ?_
    show (Function.update s.timers new r.timer p).expiration ≤
      (Function.update s.timers new r.timer q).expiration
    rw [kept p (List.mem_append_right _ inP), kept q (List.mem_append_right _ inQ)]
    exact before
  · intro p member
    rcases List.mem_cons.mp member with rfl | member
    · show (Function.update s.timers p r.timer p).expiration < 2 ^ 64
      rw [Function.update_self]
      exact Nat.mod_lt _ (by decide)
    · show (Function.update s.timers new r.timer p).expiration < 2 ^ 64
      rw [kept p member]
      exact inv.words p member
  · exact List.nodup_cons.mpr ⟨unused, inv.distinct⟩
  · exact holds

theorem link {currTick : Nat} {reset : Option Reset} (inv : Inv s (new :: outside) nodes)
    (linked : Linked s s' nodes new currTick reset) :
    Inv s' outside (Agenda.add s.expiration new nodes) := by
  have moved : (new :: outside ++ nodes).Perm (outside ++ Agenda.add s.expiration new nodes) := by
    calc new :: outside ++ nodes
        |>.Perm (outside ++ new :: nodes) := List.perm_middle.symm
      _ |>.Perm (outside ++ Agenda.add s.expiration new nodes) :=
          ((List.perm_orderedInsert _ new nodes).symm).append_left outside
  have sameHeap : s'.heap = s.heap := by rw [linked.rest]
  have sameTimers : s'.timers = s.timers := by rw [linked.rest]
  have sameOthers : s'.others = s.others := by rw [linked.rest]
  have sameKey : s'.expiration = s.expiration := by
    unfold System.expiration
    rw [sameTimers]
  constructor
  · exact linked.lists
  · rw [sameKey]
    exact inv.sorted.add new
  · intro p member
    rw [sameTimers]
    exact inv.words p (moved.mem_iff.mpr member)
  · exact moved.nodup_iff.mp inv.distinct
  · rw [sameHeap, sameOthers]
    exact Allocator.perm inv.holds (moved.append_right s.others)

theorem pop (inv : Inv s outside nodes) (head : s.timerHead = some curr) (handler : Handler) :
    ∃ rest, nodes = curr :: rest ∧ Inv (popTimer s handler curr) (curr :: outside) rest := by
  have chain := inv.lists
  unfold System.Lists at chain
  rw [head] at chain
  obtain ⟨rest, rfl, tail⟩ := chain.tail
  have moved : (outside ++ curr :: rest).Perm (curr :: outside ++ rest) := List.perm_middle
  refine ⟨rest, rfl, tail, (List.pairwise_cons.mp inv.sorted).2, ?_, ?_, ?_⟩
  · exact fun p member => inv.words p (moved.mem_iff.mpr member)
  · exact moved.nodup_iff.mp inv.distinct
  · exact Allocator.perm inv.holds (moved.append_right s.others)

theorem free (inv : Inv s (curr :: outside) nodes) (handler : Handler) :
    Inv (freeTimer s handler curr) outside nodes where
  lists := inv.lists
  sorted := inv.sorted
  words p member := inv.words p (List.mem_cons_of_mem curr member)
  distinct := (List.nodup_cons.mp inv.distinct).2
  holds := Allocator.holds_free_head inv.holds

end Inv

end OsdiKernel.Timers
