import Mathlib.Data.List.Basic
import Mathlib.Data.List.Nodup
import Mathlib.Logic.Function.Basic

/-!
# Queues in a store

The link of each node is a partial map.  A queue is a head pointer from which
following the links visits exactly the listed nodes.  A node is added at the
end, which is found by a walk from the head; it is taken from the front; or it
is unlinked wherever it stands, by a store to the node before it.
-/

namespace OsdiKernel.Queue

variable {ι : Type}

/-- Following the links from a pointer visits the listed nodes and ends in `none`. -/
inductive Chain (next : ι → Option ι) : Option ι → List ι → Prop where
  | nil : Chain next none []
  | cons {x : ι} {rest : List ι} (tail : Chain next (next x) rest) : Chain next (some x) (x :: rest)

/-- A walk from a pointer comes to the node. -/
inductive Visits (next : ι → Option ι) : Option ι → ι → Prop where
  | here {x : ι} : Visits next (some x) x
  | behind {x y : ι} (later : Visits next (next x) y) : Visits next (some x) y

/-- The last node of a queue; the fuel bounds the length of the walk. -/
def last (next : ι → Option ι) : Nat → ι → Option ι
  | 0, _ => none
  | fuel + 1, x =>
      match next x with
      | none => some x
      | some y => last next fuel y

/-- The first node with a property, if the walk ends. -/
def find (next : ι → Option ι) (p : ι → Bool) : Nat → Option ι → Option (Option ι)
  | _, none => some none
  | 0, some _ => none
  | fuel + 1, some x => if p x then some (some x) else find next p fuel (next x)

/-- The last node before the first one behind it without a property; the fuel bounds the walk. -/
def seek (next : ι → Option ι) (p : ι → Bool) : Nat → ι → Option ι
  | 0, _ => none
  | fuel + 1, x =>
      match next x with
      | none => some x
      | some y => if p y then seek next p fuel y else some x

namespace Visits

variable {next next' : ι → Option ι} {head : Option ι} {x y z : ι}

theorem link (visits : Visits next head x) (linked : next x = some y) : Visits next head y := by
  induction visits with
  | here => exact .behind (linked ▸ .here)
  | behind _ ih => exact .behind (ih linked)

/-- The walk to the last node of a queue visits it. -/
theorem last {fuel : Nat} (found : Queue.last next fuel x = some y) :
    Visits next (some x) y ∧ next y = none := by
  induction fuel generalizing x with
  | zero => cases found
  | succ fuel ih =>
      unfold Queue.last at found
      split at found
      · next ends =>
          cases found
          exact ⟨.here, ends⟩
      · next z linked =>
          obtain ⟨visits, ends⟩ := ih found
          exact ⟨.behind (linked ▸ visits), ends⟩

/-- A node at which walks end, and which was changed, is passed by none of them. -/
theorem of_ended (visits : Visits next' head y) (same : ∀ x, x ≠ z → next' x = next x)
    (ends : next' z = none) (other : y ≠ z) : Visits next head y := by
  induction visits with
  | here => exact .here
  | @behind x y later ih =>
      by_cases atEnd : x = z
      · rw [atEnd, ends] at later
        cases later
      · exact .behind (same x atEnd ▸ ih other)

/-- After a node is unlinked, no walk visits more than before. -/
theorem of_unlinked [DecidableEq ι] (linked : next x = some y)
    (visits : Visits (Function.update next x (next y)) head z) : Visits next head z := by
  induction visits with
  | here => exact .here
  | @behind w z later ih =>
      by_cases here : w = x
      · subst here
        rw [Function.update_self] at ih
        exact .behind (linked ▸ .behind ih)
      · rw [Function.update_of_ne here] at ih
        exact .behind ih

end Visits

namespace Chain

variable {next next' : ι → Option ι} {head : Option ι} {nodes rest : List ι} {x y : ι}

theorem head_eq (chain : Chain next head nodes) : head = nodes.head? := by
  cases chain <;> rfl

/-- The nodes are determined by the head. -/
theorem unique {other : List ι} (chain : Chain next head nodes) (again : Chain next head other) :
    nodes = other := by
  induction chain generalizing other with
  | nil => cases again; rfl
  | cons _ ih =>
      cases again with
      | cons tail => rw [ih tail]

theorem empty (chain : Chain next none nodes) : nodes = [] := by
  cases chain
  rfl

/-- The first node is taken from the queue. -/
theorem tail (chain : Chain next (some x) nodes) :
    ∃ rest, nodes = x :: rest ∧ Chain next (next x) rest := by
  cases chain with
  | cons tail => exact ⟨_, rfl, tail⟩

theorem suffix {front : List ι} (chain : Chain next head (front ++ x :: rest)) :
    Chain next (some x) (x :: rest) := by
  induction front generalizing head with
  | nil =>
      have same : head = some x := chain.head_eq
      exact same ▸ chain
  | cons y front ih =>
      cases chain with
      | cons tail => exact ih tail

/-- The link of a node points at the one behind it. -/
theorem link_eq {front : List ι} (chain : Chain next head (front ++ x :: rest)) :
    next x = rest.head? := by
  obtain ⟨_, same, tail⟩ := chain.suffix.tail
  cases same
  exact tail.head_eq

/-- A queue that ends visits no node twice. -/
theorem nodup (chain : Chain next head nodes) : nodes.Nodup := by
  induction chain with
  | nil => exact List.nodup_nil
  | @cons x rest tail ih =>
      refine List.nodup_cons.mpr ⟨fun member => ?_, ih⟩
      obtain ⟨front, later, rfl⟩ := List.append_of_mem member
      have lengths := congrArg List.length (unique (.cons tail) tail.suffix)
      simp at lengths
      omega

/-- A queue only reads the links of its nodes. -/
theorem congr (chain : Chain next head nodes) (same : ∀ y ∈ nodes, next' y = next y) :
    Chain next' head nodes := by
  induction chain with
  | nil => exact .nil
  | @cons x rest tail ih =>
      refine .cons ?_
      rw [same x List.mem_cons_self]
      exact ih fun y member => same y (List.mem_cons_of_mem x member)

section Update

variable [DecidableEq ι] {link : Option ι}

theorem update_link (chain : Chain next head nodes) (other : y ∉ nodes) :
    Chain (Function.update next y link) head nodes := by
  refine chain.congr fun z member => Function.update_of_ne ?_ _ _
  rintro rfl
  exact other member

omit [DecidableEq ι] in
/-- A single node. -/
theorem single (ends : next x = none) : Chain next (some x) [x] :=
  .cons (ends ▸ .nil)

omit [DecidableEq ι] in
/-- The walk finds the last node. -/
theorem last_eq {front : List ι} {fuel : Nat} (chain : Chain next (some x) (front ++ [y]))
    (enough : front.length < fuel) : last next fuel x = some y := by
  induction front generalizing x fuel with
  | nil =>
      obtain ⟨fuel, rfl⟩ := Nat.exists_eq_succ_of_ne_zero (Nat.ne_of_gt enough)
      obtain ⟨rest, same, tail⟩ := chain.tail
      cases same
      have ends := tail.head_eq
      unfold last
      rw [ends]
      rfl
  | cons z front ih =>
      obtain ⟨fuel, rfl⟩ := Nat.exists_eq_succ_of_ne_zero (Nat.ne_of_gt (Nat.zero_lt_of_lt enough))
      have same : some x = some z := chain.head_eq
      cases same
      obtain ⟨rest, same, tail⟩ := chain.tail
      cases same
      rw [List.length_cons] at enough
      cases after : next z with
      | none =>
          rw [after] at tail
          exact absurd tail.empty (by simp)
      | some w =>
          rw [after] at tail
          unfold last
          rw [after]
          exact ih tail (by omega)

/-- Adding a node at the end. -/
theorem append {front : List ι} (chain : Chain next head (front ++ [y])) (fresh : x ∉ front ++ [y]) :
    Chain (Function.update (Function.update next y (some x)) x none) head (front ++ [y, x]) := by
  have new : x ≠ y := by
    rintro rfl
    exact fresh (List.mem_append_right front List.mem_cons_self)
  induction front generalizing head with
  | nil =>
      have same : head = some y := chain.head_eq
      rw [same]
      refine .cons ?_
      rw [Function.update_of_ne new.symm, Function.update_self]
      exact single (Function.update_self _ _ _)
  | cons z front ih =>
      have other : z ≠ x := by
        rintro rfl
        exact fresh List.mem_cons_self
      have notLast : z ≠ y := by
        rintro rfl
        have unlike := chain.nodup
        simp at unlike
      cases chain with
      | cons tail =>
          refine .cons ?_
          rw [Function.update_of_ne other, Function.update_of_ne notLast]
          exact ih tail fun member => fresh (List.mem_cons_of_mem z member)

/-- Unlinking a node behind another one. -/
theorem unlink {front : List ι} (chain : Chain next head (front ++ y :: x :: rest)) :
    Chain (Function.update next y (next x)) head (front ++ y :: rest) := by
  induction front generalizing head with
  | nil =>
      have unlike := chain.nodup
      have same : head = some y := chain.head_eq
      rw [List.nil_append] at chain unlike
      rw [same] at chain ⊢
      obtain ⟨_, shape, tail⟩ := chain.tail
      cases shape
      have next_ : next y = some x := tail.head_eq
      rw [next_] at tail
      obtain ⟨_, shape, later⟩ := tail.tail
      cases shape
      refine .cons ?_
      rw [Function.update_self]
      apply later.update_link
      simp only [List.nodup_cons, List.mem_cons, not_or] at unlike
      exact unlike.1.2
  | cons z front ih =>
      have other : z ≠ y := by
        rintro rfl
        have unlike := chain.nodup
        simp at unlike
      cases chain with
      | cons tail =>
          refine .cons ?_
          rw [Function.update_of_ne other]
          exact ih tail

/-- Adding a node behind another one. -/
theorem insert {front : List ι} (chain : Chain next head (front ++ y :: rest))
    (fresh : x ∉ front ++ y :: rest) :
    Chain (Function.update (Function.update next x (next y)) y (some x)) head
      (front ++ y :: x :: rest) := by
  induction front generalizing head with
  | nil =>
      have unlike := chain.nodup
      have same : head = some y := chain.head_eq
      rw [List.nil_append] at chain fresh unlike
      rw [same] at chain ⊢
      obtain ⟨_, shape, tail⟩ := chain.tail
      cases shape
      have new : x ≠ y := fun same => fresh (same ▸ List.mem_cons_self)
      refine .cons ?_
      rw [Function.update_self]
      refine .cons ?_
      rw [Function.update_of_ne new, Function.update_self]
      have behind : x ∉ rest := fun member => fresh (List.mem_cons_of_mem y member)
      exact (tail.update_link behind).update_link (List.nodup_cons.mp unlike).1
  | cons z front ih =>
      have new : z ≠ x := fun same => fresh (same ▸ List.mem_cons_self)
      have notLast : z ≠ y := by
        rintro rfl
        have unlike := chain.nodup
        simp at unlike
      cases chain with
      | cons tail =>
          refine .cons ?_
          rw [Function.update_of_ne notLast, Function.update_of_ne new]
          exact ih tail fun member => fresh (List.mem_cons_of_mem z member)

end Update

/-- The walk stops behind the nodes with the property. -/
theorem seek_eq {fuel : Nat} {p : ι → Bool} (chain : Chain next (some x) (x :: rest))
    (found : seek next p fuel x = some y) : ∃ front, front ++ [y] = x :: rest.takeWhile p := by
  induction fuel generalizing x rest with
  | zero => cases found
  | succ fuel ih =>
      have forward : next x = rest.head? := @link_eq _ _ _ _ _ [] chain
      cases rest with
      | nil =>
          simp only [seek, forward, List.head?_nil, Option.some.injEq] at found
          exact ⟨[], by simp [found]⟩
      | cons z rest =>
          obtain ⟨_, shape, tail⟩ := chain.tail
          cases shape
          rw [forward] at tail
          simp only [seek, forward, List.head?_cons] at found
          cases holds : p z with
          | false =>
              simp only [holds, Bool.false_eq_true, if_false, Option.some.injEq] at found
              exact ⟨[], by simp [holds, found]⟩
          | true =>
              simp only [holds, if_true] at found
              obtain ⟨front, shape⟩ := ih tail found
              exact ⟨x :: front, by simp [holds, shape]⟩

theorem seek_returns {fuel : Nat} {p : ι → Bool} (chain : Chain next (some x) (x :: rest))
    (enough : rest.length < fuel) : ∃ y, seek next p fuel x = some y := by
  induction fuel generalizing x rest with
  | zero => exact absurd enough (Nat.not_lt_zero _)
  | succ fuel ih =>
      have forward : next x = rest.head? := @link_eq _ _ _ _ _ [] chain
      cases rest with
      | nil => exact ⟨x, by simp [seek, forward]⟩
      | cons z rest =>
          obtain ⟨_, shape, tail⟩ := chain.tail
          cases shape
          rw [forward] at tail
          cases holds : p z with
          | false => exact ⟨x, by simp [seek, forward, holds]⟩
          | true =>
              obtain ⟨y, found⟩ := ih tail (Nat.lt_of_succ_lt_succ enough)
              exact ⟨y, by simpa [seek, forward, holds] using found⟩

/-- A walk over the whole queue ends. -/
theorem find_eq {fuel : Nat} {p : ι → Bool} (chain : Chain next head nodes)
    (enough : nodes.length ≤ fuel) : find next p fuel head = some (nodes.find? p) := by
  induction chain generalizing fuel with
  | nil => cases fuel <;> rfl
  | @cons x rest tail ih =>
      obtain ⟨fuel, rfl⟩ :=
        Nat.exists_eq_succ_of_ne_zero (Nat.ne_of_gt (Nat.lt_of_lt_of_le (Nat.succ_pos _) enough))
      rw [List.length_cons] at enough
      unfold find
      rw [ih (by omega), List.find?_cons]
      cases p x <;> rfl

end Chain

end OsdiKernel.Queue
