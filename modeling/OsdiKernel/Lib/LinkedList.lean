import Mathlib.Data.List.Basic
import Mathlib.Logic.Function.Basic

/-!
# Doubly linked lists in a store

The links of all nodes form two partial maps.  A list is a head pointer from
which following `next` visits exactly the listed nodes, each of which points
back at the one before it.  Pushing at the front and unlinking a member are
the two edits; both leave the links of every node outside the list alone,
except those of the pushed node.
-/

namespace OsdiKernel

/-- The forward and backward pointers of a store of nodes. -/
structure Links (ι : Type) where
  next : ι → Option ι
  prev : ι → Option ι

namespace Links

variable {ι : Type}

/-! ## Chains -/

/-- Following `next` from a pointer visits the listed nodes and ends in `none`.
The first of them points back at `back`. -/
inductive Chain (m : Links ι) : Option ι → Option ι → List ι → Prop where
  | nil {back : Option ι} : Chain m back none []
  | cons {back : Option ι} {x : ι} {rest : List ι} (backward : m.prev x = back)
      (tail : Chain m (some x) (m.next x) rest) : Chain m back (some x) (x :: rest)

/-- A doubly linked list starts with a node that has no predecessor. -/
def IsList (m : Links ι) (head : Option ι) (nodes : List ι) : Prop :=
  Chain m none head nodes

/-- A node met by following `next` from a pointer. -/
inductive Reaches (m : Links ι) : Option ι → ι → Prop where
  | here (x : ι) : Reaches m (some x) x
  | step {x y : ι} (later : Reaches m (m.next x) y) : Reaches m (some x) y

namespace Chain

variable {m n : Links ι} {back head : Option ι} {nodes : List ι}

theorem head_eq (chain : Chain m back head nodes) : head = nodes.head? := by
  cases chain <;> rfl

theorem mem_iff_reaches (chain : Chain m back head nodes) {y : ι} :
    y ∈ nodes ↔ Reaches m head y := by
  induction chain with
  | nil =>
      constructor
      · intro member
        cases member
      · intro reached
        cases reached
  | @cons back x rest backward tail ih =>
      constructor
      · intro member
        rcases List.mem_cons.mp member with same | inRest
        · subst same
          exact .here y
        · exact .step (ih.mp inRest)
      · intro reached
        cases reached with
        | here => exact List.mem_cons_self
        | step later => exact List.mem_cons_of_mem x (ih.mpr later)

/-- The nodes of a chain are determined by its first pointer. -/
theorem nodes_unique {back' : Option ι} {other : List ι} (chain : Chain m back head nodes)
    (again : Chain m back' head other) : nodes = other := by
  induction chain generalizing back' other with
  | nil => cases again; rfl
  | cons _ _ ih =>
      cases again with
      | cons _ tail => rw [ih tail]

theorem suffix {front rest : List ι} {x : ι} (chain : Chain m back head (front ++ x :: rest)) :
    ∃ back', Chain m back' (some x) (x :: rest) := by
  induction front generalizing back head with
  | nil =>
      have same : head = some x := chain.head_eq
      exact ⟨back, same ▸ chain⟩
  | cons y front ih =>
      cases chain with
      | cons _ tail => exact ih tail

/-- A chain that ends cannot visit a node twice. -/
theorem nodup (chain : Chain m back head nodes) : nodes.Nodup := by
  induction chain with
  | nil => exact List.nodup_nil
  | @cons back x rest backward tail ih =>
      refine List.nodup_cons.mpr ⟨fun member => ?_, ih⟩
      obtain ⟨front, later, shape⟩ := List.append_of_mem member
      subst shape
      obtain ⟨_, again⟩ := tail.suffix
      have whole : Chain m back (some x) (x :: (front ++ x :: later)) := .cons backward tail
      have lengths := congrArg List.length (nodes_unique whole again)
      simp at lengths
      omega

/-- A chain only reads the links of its nodes. -/
theorem congr (chain : Chain m back head nodes)
    (next_eq : ∀ y ∈ nodes, n.next y = m.next y) (prev_eq : ∀ y ∈ nodes, n.prev y = m.prev y) :
    Chain n back head nodes := by
  induction chain with
  | nil => exact .nil
  | @cons back x rest backward tail ih =>
      have here : x ∈ x :: rest := List.mem_cons_self
      refine .cons ((prev_eq x here).trans backward) ?_
      rw [next_eq x here]
      exact ih (fun y inRest => next_eq y (List.mem_cons_of_mem x inRest))
        (fun y inRest => prev_eq y (List.mem_cons_of_mem x inRest))

theorem next_mem (chain : Chain m back head nodes) {y z : ι} (member : y ∈ nodes)
    (forward : m.next y = some z) : z ∈ nodes ∧ m.prev z = some y := by
  induction chain with
  | nil => cases member
  | @cons back x rest backward tail ih =>
      rcases List.mem_cons.mp member with same | inRest
      · subst same
        rw [forward] at tail
        cases tail with
        | cons backZ _ => exact ⟨List.mem_cons_of_mem _ List.mem_cons_self, backZ⟩
      · exact ⟨List.mem_cons_of_mem x (ih inRest).1, (ih inRest).2⟩

theorem prev_mem (chain : Chain m back head nodes) {y z : ι} (member : z ∈ nodes)
    (backward : m.prev z = some y) :
    (back = some y ∧ head = some z) ∨ (y ∈ nodes ∧ m.next y = some z) := by
  induction chain with
  | nil => cases member
  | @cons back x rest backX tail ih =>
      rcases List.mem_cons.mp member with same | inRest
      · subst same
        exact Or.inl ⟨backX.symm.trans backward, rfl⟩
      · rcases ih inRest with ⟨sameBack, sameHead⟩ | ⟨inside, forward⟩
        · cases sameBack
          exact Or.inr ⟨List.mem_cons_self, sameHead⟩
        · exact Or.inr ⟨List.mem_cons_of_mem x inside, forward⟩

/-- Bypassing one node: its neighbours are joined and every other link is kept. -/
theorem bypass {front later : List ι} {x : ι}
    (chain : Chain m back head (front ++ x :: later)) (backOther : back ≠ some x)
    (keep_next : ∀ y ∈ front ++ later, m.next y ≠ some x → n.next y = m.next y)
    (join_next : ∀ y ∈ front ++ later, m.next y = some x → n.next y = m.next x)
    (keep_prev : ∀ y ∈ front ++ later, m.prev y ≠ some x → n.prev y = m.prev y)
    (join_prev : ∀ y ∈ front ++ later, m.prev y = some x → n.prev y = m.prev x) :
    (head = some x → Chain n back (m.next x) (front ++ later)) ∧
      (head ≠ some x → Chain n back head (front ++ later)) := by
  have distinct := chain.nodup
  induction front generalizing back head with
  | nil =>
      have atHead : head = some x := chain.head_eq
      subst atHead
      refine ⟨fun _ => ?_, fun other => absurd rfl other⟩
      cases chain with
      | cons backX tail =>
          have fresh : x ∉ later := (List.nodup_cons.mp distinct).1
          generalize nextEq : m.next x = pointer at tail join_next ⊢
          cases tail with
          | nil => exact .nil
          | @cons _ z rest backZ tail =>
              have zIn : z ∈ [] ++ z :: rest := List.mem_cons_self
              have apart : ∀ y ∈ z :: rest, m.next y ≠ some x := by
                intro y member forward
                have whole : Chain m (some x) (some z) (z :: rest) := .cons backZ tail
                exact fresh (whole.next_mem member forward).1
              refine .cons ((join_prev z zIn backZ).trans backX) ?_
              rw [keep_next z zIn (apart z List.mem_cons_self)]
              apply tail.congr
              · intro y inRest
                exact keep_next y (List.mem_cons_of_mem z inRest)
                  (apart y (List.mem_cons_of_mem z inRest))
              · intro y inRest
                refine keep_prev y (List.mem_cons_of_mem z inRest) fun backY => ?_
                rcases tail.prev_mem inRest backY with ⟨sameBack, _⟩ | ⟨inside, _⟩
                · cases sameBack
                  exact fresh List.mem_cons_self
                · exact fresh (List.mem_cons_of_mem z inside)
  | cons y front ih =>
      have fresh : y ≠ x := by
        intro same
        subst same
        exact (List.nodup_cons.mp distinct).1 (List.mem_append_right _ List.mem_cons_self)
      cases chain with
      | cons backY tail =>
          have yIn : y ∈ y :: front ++ later := List.mem_cons_self
          have inner := ih tail (fun same => fresh (Option.some.inj same))
            (fun z inside => keep_next z (List.mem_cons_of_mem y inside))
            (fun z inside => join_next z (List.mem_cons_of_mem y inside))
            (fun z inside => keep_prev z (List.mem_cons_of_mem y inside))
            (fun z inside => join_prev z (List.mem_cons_of_mem y inside))
            (List.nodup_cons.mp distinct).2
          refine ⟨fun same => absurd (Option.some.inj same) fresh, fun _ => ?_⟩
          have backKept : n.prev y = back :=
            (keep_prev y yIn (by rw [backY]; exact backOther)).trans backY
          refine .cons backKept ?_
          by_cases forward : m.next y = some x
          · rw [join_next y yIn forward]
            exact inner.1 forward
          · rw [keep_next y yIn forward]
            exact inner.2 forward

end Chain

theorem IsList.head_prev {m : Links ι} {x : ι} {nodes : List ι} (list : IsList m (some x) nodes) :
    m.prev x = none := by
  cases list with
  | cons backward _ => exact backward

/-! ## The two edits -/

variable [DecidableEq ι]

/-- Write one value through a pointer that may be null. -/
def writeAt {β : Type} (f : ι → β) (pointer : Option ι) (value : β) : ι → β :=
  match pointer with
  | none => f
  | some i => Function.update f i value

theorem writeAt_of_ne {β : Type} {f : ι → β} {pointer : Option ι} {value : β} {y : ι}
    (other : pointer ≠ some y) : writeAt f pointer value y = f y := by
  cases pointer with
  | none => rfl
  | some i => exact Function.update_of_ne (fun same => other (by rw [same])) _ _

theorem writeAt_self {β : Type} {f : ι → β} {value : β} {y : ι} :
    writeAt f (some y) value y = value := Function.update_self _ _ _

/-- Link a node in before the current head. -/
def pushFront (m : Links ι) (head : Option ι) (x : ι) : Links ι where
  next := Function.update m.next x head
  prev := Function.update (writeAt m.prev head (some x)) x none

def setNext (m : Links ι) (x : ι) (pointer : Option ι) : Links ι :=
  { m with next := Function.update m.next x pointer }

def setPrev (m : Links ι) (x : ι) (pointer : Option ι) : Links ι :=
  { m with prev := Function.update m.prev x pointer }

/-- The node behind the head becomes the head; the old head keeps its links. -/
def popFront (m : Links ι) (x : ι) : Links ι where
  next := m.next
  prev := writeAt m.prev (m.next x) none

/-- Join the neighbours of a node and clear its own links. -/
def unlink (m : Links ι) (x : ι) : Links ι where
  next := Function.update (writeAt m.next (m.prev x) (m.next x)) x none
  prev := Function.update (writeAt m.prev (m.next x) (m.prev x)) x none

section Edits

variable {m : Links ι} {head : Option ι} {x y : ι}

@[simp] theorem pushFront_next_self : (m.pushFront head x).next x = head :=
  Function.update_self _ _ _

@[simp] theorem pushFront_prev_self : (m.pushFront head x).prev x = none :=
  Function.update_self _ _ _

@[simp] theorem unlink_next_self : (m.unlink x).next x = none := Function.update_self _ _ _

@[simp] theorem unlink_prev_self : (m.unlink x).prev x = none := Function.update_self _ _ _

theorem pushFront_next_of_ne (other : y ≠ x) : (m.pushFront head x).next y = m.next y :=
  Function.update_of_ne other _ _

theorem pushFront_prev_of_ne (other : y ≠ x) :
    (m.pushFront head x).prev y = writeAt m.prev head (some x) y :=
  Function.update_of_ne other _ _

theorem unlink_next_of_ne (other : y ≠ x) :
    (m.unlink x).next y = writeAt m.next (m.prev x) (m.next x) y :=
  Function.update_of_ne other _ _

theorem unlink_prev_of_ne (other : y ≠ x) :
    (m.unlink x).prev y = writeAt m.prev (m.next x) (m.prev x) y :=
  Function.update_of_ne other _ _

end Edits

namespace IsList

variable {m : Links ι} {head : Option ι} {nodes : List ι} {x : ι}

theorem pushFront (list : IsList m head nodes) (fresh : x ∉ nodes) :
    IsList (m.pushFront head x) (some x) (x :: nodes) := by
  have apart : ∀ y ∈ nodes, y ≠ x := fun y member same => fresh (same ▸ member)
  refine .cons pushFront_prev_self ?_
  rw [pushFront_next_self]
  cases list with
  | nil => exact .nil
  | @cons _ h rest backward tail =>
      have atHead : h ≠ x := apart h List.mem_cons_self
      have unvisited := (List.nodup_cons.mp (Chain.cons backward tail).nodup).1
      refine .cons ?_ ?_
      · rw [pushFront_prev_of_ne atHead, writeAt_self]
      · rw [pushFront_next_of_ne atHead]
        apply tail.congr
        · intro y inRest
          exact pushFront_next_of_ne (apart y (List.mem_cons_of_mem h inRest))
        · intro y inRest
          rw [pushFront_prev_of_ne (apart y (List.mem_cons_of_mem h inRest))]
          exact writeAt_of_ne fun same => unvisited (Option.some.inj same ▸ inRest)

theorem unlink (list : IsList m head nodes) (member : x ∈ nodes) :
    IsList (m.unlink x) (if head = some x then m.next x else head) (nodes.erase x) := by
  obtain ⟨front, later, shape⟩ := List.append_of_mem member
  subst shape
  have distinct := Chain.nodup list
  have notFront : x ∉ front := by
    intro inside
    exact (List.nodup_append.mp distinct).2.2 x inside x List.mem_cons_self rfl
  have apart : ∀ y ∈ front ++ later, y ≠ x := by
    intro y inside same
    subst same
    rcases List.mem_append.mp inside with inFront | inLater
    · exact notFront inFront
    · exact (List.nodup_cons.mp (List.nodup_append.mp distinct).2.1).1 inLater
  have original : ∀ y ∈ front ++ later, y ∈ front ++ x :: later := by
    intro y inside
    rcases List.mem_append.mp inside with inFront | inLater
    · exact List.mem_append_left _ inFront
    · exact List.mem_append_right _ (List.mem_cons_of_mem x inLater)
  -- inside one list, `y` precedes `x` exactly when `x` points back at `y`
  have before : ∀ y ∈ front ++ later, m.next y = some x ↔ m.prev x = some y := by
    intro y inside
    constructor
    · exact fun forward => (Chain.next_mem list (original y inside) forward).2
    · intro backward
      rcases Chain.prev_mem list member backward with ⟨impossible, _⟩ | ⟨_, forward⟩
      · cases impossible
      · exact forward
  have after : ∀ y ∈ front ++ later, m.prev y = some x ↔ m.next x = some y := by
    intro y inside
    constructor
    · intro backward
      rcases Chain.prev_mem list (original y inside) backward with ⟨impossible, _⟩ | ⟨_, forward⟩
      · cases impossible
      · exact forward
    · exact fun forward => (Chain.next_mem list member forward).2
  rw [List.erase_append_right _ notFront, List.erase_cons_head]
  have joined := Chain.bypass (n := m.unlink x) list (by simp)
    (fun y inside other => by
      rw [unlink_next_of_ne (apart y inside)]
      exact writeAt_of_ne fun same => other ((before y inside).mpr same))
    (fun y inside forward => by
      rw [unlink_next_of_ne (apart y inside), (before y inside).mp forward]
      exact writeAt_self)
    (fun y inside other => by
      rw [unlink_prev_of_ne (apart y inside)]
      exact writeAt_of_ne fun same => other ((after y inside).mpr same))
    (fun y inside backward => by
      rw [unlink_prev_of_ne (apart y inside), (after y inside).mp backward]
      exact writeAt_self)
  by_cases atHead : head = some x
  · rw [if_pos atHead]
    exact joined.1 atHead
  · rw [if_neg atHead]
    exact joined.2 atHead

theorem popFront {rest : List ι} (list : IsList m (some x) (x :: rest)) :
    IsList (m.popFront x) (m.next x) rest := by
  cases list with
  | cons backward tail =>
      show Chain (m.popFront x) none (m.next x) rest
      generalize forward : m.next x = pointer at tail ⊢
      cases tail with
      | nil => exact .nil
      | @cons _ y rest backY later =>
          have unvisited := (List.nodup_cons.mp (Chain.cons backY later).nodup).1
          refine .cons ?_ ?_
          · show writeAt m.prev (m.next x) none y = none
            rw [forward, writeAt_self]
          · apply later.congr
            · exact fun z inRest => rfl
            · intro z inRest
              refine writeAt_of_ne fun same => unvisited ?_
              rw [forward] at same
              exact Option.some.inj same ▸ inRest

/-- Pushing a node keeps every list without that node and the current head. -/
theorem pushFront_other {other : Option ι} {others : List ι} (list : IsList m other others)
    (fresh : x ∉ others) (apart : ∀ h, head = some h → h ∉ others) :
    IsList (m.pushFront head x) other others := by
  have different : ∀ y ∈ others, y ≠ x := fun y inside same => fresh (same ▸ inside)
  apply Chain.congr list
  · intro y inside
    exact pushFront_next_of_ne (different y inside)
  · intro y inside
    rw [pushFront_prev_of_ne (different y inside)]
    exact writeAt_of_ne fun same => apart y same inside

/-- Unlinking a node keeps every list without that node and its neighbours. -/
theorem unlink_other {other : Option ι} {others : List ι} (list : IsList m other others)
    (fresh : x ∉ others) (apartNext : ∀ y, m.next x = some y → y ∉ others)
    (apartPrev : ∀ y, m.prev x = some y → y ∉ others) : IsList (m.unlink x) other others := by
  have different : ∀ y ∈ others, y ≠ x := fun y inside same => fresh (same ▸ inside)
  apply Chain.congr list
  · intro y inside
    rw [unlink_next_of_ne (different y inside)]
    exact writeAt_of_ne fun same => apartPrev y same inside
  · intro y inside
    rw [unlink_prev_of_ne (different y inside)]
    exact writeAt_of_ne fun same => apartNext y same inside

end IsList

end Links

end OsdiKernel
