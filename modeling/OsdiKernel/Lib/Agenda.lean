import Mathlib.Data.List.MinMax
import Mathlib.Data.List.Sort
import OsdiKernel.Lib.Queue

/-!
# Agendas

An agenda is a list of items sorted by the time at which each is due.  An item is
added before the first one that is not due earlier.  A handler that has read the
clock takes the items that are due off the front; while it runs, items that are
due later may be added.  It takes exactly the items that were due, in order.
-/

namespace OsdiKernel.Agenda

variable {α κ : Type} [LinearOrder κ] (key : α → κ)

/-- The order of an agenda. -/
def Earlier (a b : α) : Prop := key a ≤ key b

instance : DecidableRel (Earlier key) := fun a b => inferInstanceAs (Decidable (key a ≤ key b))

instance : IsTrans α (Earlier key) := ⟨fun _ _ _ => le_trans⟩

instance : Std.Total (Earlier key) := ⟨fun a b => le_total (key a) (key b)⟩

def Sorted (agenda : List α) : Prop := agenda.Pairwise (Earlier key)

def add (a : α) (agenda : List α) : List α := agenda.orderedInsert (Earlier key) a

/-- The items whose time has come. -/
def due (now : κ) (agenda : List α) : List α := agenda.filter fun a => decide (key a ≤ now)

/-- The items whose time has not come. -/
def pending (now : κ) (agenda : List α) : List α := agenda.filter fun a => decide (now < key a)

variable {key}
variable {now : κ} {a : α} {agenda taken added after : List α}

theorem Sorted.add (sorted : Sorted key agenda) (a : α) : Sorted key (add key a agenda) :=
  List.Pairwise.orderedInsert a agenda sorted

theorem mem_add {b : α} : b ∈ add key a agenda ↔ b = a ∨ b ∈ agenda :=
  List.mem_orderedInsert (Earlier key)

theorem filter_orderedInsert {r : α → α → Prop} [DecidableRel r] {p : α → Bool} (fails : ¬ p a) :
    (agenda.orderedInsert r a).filter p = agenda.filter p := by
  rw [List.orderedInsert_eq_take_drop, List.filter_append, List.filter_cons_of_neg fails,
    ← List.filter_append, List.takeWhile_append_dropWhile]

/-- An item that is not due yet does not change what is due. -/
theorem due_add (later : now < key a) : due key now (add key a agenda) = due key now agenda :=
  filter_orderedInsert (by simpa using later)

theorem pending_add (later : now < key a) :
    (pending key now (add key a agenda)).Perm (a :: pending key now agenda) := by
  have moved := (List.perm_orderedInsert (Earlier key) a agenda).filter fun b =>
    decide (now < key b)
  rwa [List.filter_cons_of_pos (by simpa using later)] at moved

/-- A run of a handler: the items that it takes, and those that are added meanwhile. -/
inductive Drains (key : α → κ) (now : κ) : List α → List α → List α → List α → Prop
  | done {agenda : List α} : Drains key now agenda [] [] agenda
  | take {a : α} {agenda taken added after : List α} (isDue : key a ≤ now)
      (rest : Drains key now agenda taken added after) :
      Drains key now (a :: agenda) (a :: taken) added after
  | add {a : α} {agenda taken added after : List α} (later : now < key a)
      (rest : Drains key now (add key a agenda) taken added after) :
      Drains key now agenda taken (a :: added) after

/-- What has been taken and what is still due make up what was due. -/
theorem Drains.taken_due (drains : Drains key now agenda taken added after) :
    taken ++ due key now after = due key now agenda := by
  induction drains with
  | done => rfl
  | @take a agenda taken added after isDue rest ih =>
      have first : due key now (a :: agenda) = a :: due key now agenda :=
        List.filter_cons_of_pos (by simpa using isDue)
      rw [first, List.cons_append, ih]
  | add later rest ih => rw [ih, due_add later]

/-- What was pending stays on the agenda, together with what has been added. -/
theorem Drains.pending_perm (drains : Drains key now agenda taken added after) :
    (pending key now after).Perm (added ++ pending key now agenda) := by
  induction drains with
  | done => exact List.Perm.refl _
  | @take a agenda taken added after isDue rest ih =>
      have skipped : pending key now (a :: agenda) = pending key now agenda :=
        List.filter_cons_of_neg (by simpa using isDue)
      rw [skipped]
      exact ih
  | @add a agenda taken added after later rest ih =>
      calc pending key now after
          |>.Perm (added ++ pending key now (Agenda.add key a agenda)) := ih
        _ |>.Perm (added ++ a :: pending key now agenda) := (pending_add later).append_left added
        _ |>.Perm (a :: added ++ pending key now agenda) := List.perm_middle

theorem Drains.sorted (drains : Drains key now agenda taken added after)
    (sorted : Sorted key agenda) : Sorted key after := by
  induction drains with
  | done => exact sorted
  | take isDue rest ih => exact ih (List.pairwise_cons.mp sorted).2
  | @add a agenda taken added after later rest ih => exact ih (sorted.add a)

/-- No item of a sorted agenda is due when its first one is not. -/
theorem Sorted.pending_all (sorted : Sorted key agenda)
    (first : ∀ a, agenda.head? = some a → now < key a) : ∀ a ∈ agenda, now < key a := by
  cases agenda with
  | nil => exact fun a member => nomatch member
  | cons head rest =>
      have headLater := first head rfl
      intro a member
      rcases List.mem_cons.mp member with rfl | inRest
      · exact headLater
      · exact headLater.trans_le ((List.pairwise_cons.mp sorted).1 a inRest)

/-- A handler that stops at an item that is not due has taken all that was due. -/
theorem Drains.complete (drains : Drains key now agenda taken added after)
    (sorted : Sorted key agenda) (first : ∀ a, after.head? = some a → now < key a) :
    taken = due key now agenda ∧ after.Perm (added ++ pending key now agenda) := by
  have later := (drains.sorted sorted).pending_all first
  constructor
  · have nothing : due key now after = [] :=
      List.filter_eq_nil_iff.mpr fun a member => by simpa using later a member
    have all := drains.taken_due
    rwa [nothing, List.append_nil] at all
  · have everything : pending key now after = after :=
      List.filter_eq_self.mpr fun a member => by simpa using later a member
    have moved := drains.pending_perm
    rwa [everything] at moved

/-! ## Agendas in a store -/

section Store

open Queue

variable {key : α → κ} [DecidableEq α] {next : α → Option α} {head : Option α} {nodes rest : List α}
  {new first curr : α}

omit [DecidableEq α] in
/-- An item that is not due later than the first one is put at the front. -/
theorem add_front (front : ∀ a, nodes.head? = some a → key new ≤ key a) :
    add key new nodes = new :: nodes := by
  cases nodes with
  | nil => rfl
  | cons a rest => exact List.orderedInsert_cons_of_le _ rest (front a rfl)

/-- A queue that is an agenda stays one when an item is linked in front of it. -/
theorem chain_front (chain : Chain next head nodes) (fresh : new ∉ nodes)
    (front : ∀ a, head = some a → key new ≤ key a) :
    Chain (Function.update next new head) (some new) (add key new nodes) := by
  rw [add_front fun a same => front a (chain.head_eq.trans same)]
  refine .cons ?_
  rw [Function.update_self]
  exact chain.update_link fresh

/-- Or when the item is linked behind the last one of those that are due earlier. -/
theorem chain_behind {fuel : Nat} (chain : Chain next (some first) (first :: rest))
    (fresh : new ∉ first :: rest) (later : ¬ key new ≤ key first)
    (found : seek next (fun a => decide (key a < key new)) fuel first = some curr) :
    Chain (Function.update (Function.update next new (next curr)) curr (some new)) (some first)
      (add key new (first :: rest)) := by
  obtain ⟨front, shape⟩ := chain.seek_eq found
  have sameTest : (fun a => decide (key a < key new)) = fun a => decide ¬ Earlier key new a := by
    funext a
    simp [Earlier]
  rw [sameTest] at shape
  have whole : first :: rest =
      front ++ curr :: rest.dropWhile fun a => decide ¬ Earlier key new a := by
    calc first :: rest
        = (first :: rest.takeWhile fun a => decide ¬ Earlier key new a) ++
            rest.dropWhile fun a => decide ¬ Earlier key new a := by simp
      _ = front ++ curr :: rest.dropWhile fun a => decide ¬ Earlier key new a := by
          rw [← shape]
          simp
  have inserted : add key new (first :: rest) =
      front ++ curr :: new :: rest.dropWhile fun a => decide ¬ Earlier key new a := by
    have notEarlier : ¬ Earlier key new first := later
    unfold add
    rw [List.orderedInsert_of_not_le _ rest notEarlier, List.orderedInsert_eq_take_drop,
      ← List.cons_append, ← shape]
    simp
  rw [inserted]
  rw [whole] at chain fresh
  exact chain.insert fresh

end Store

/-! ## Pools

The items of a pool are listed from the newest to the oldest.  Adding them one by one
gives an agenda whose first item is the newest of those that are due first. -/

section Pool

variable {key : α → κ} {pool rest : List α} {a : α}

/-- The agenda that the items of a pool have been added to. -/
def ofPool (key : α → κ) (pool : List α) : List α := pool.insertionSort (Earlier key)

theorem ofPool_cons : ofPool key (a :: pool) = add key a (ofPool key pool) := rfl

theorem ofPool_perm (key : α → κ) (pool : List α) : (ofPool key pool).Perm pool :=
  List.perm_insertionSort _ pool

/-- The first item of the agenda is the first of the pool among those with the least key. -/
theorem ofPool_head (key : α → κ) (pool : List α) : (ofPool key pool).head? = pool.argmin key := by
  induction pool with
  | nil => rfl
  | cons a pool ih =>
      rw [ofPool_cons, List.argmin_cons, ← ih]
      cases ofPool key pool with
      | nil => rfl
      | cons b rest =>
          by_cases before : key a ≤ key b
          · simp [add, List.orderedInsert, Earlier, before, not_lt.mpr before]
          · simp [add, List.orderedInsert, Earlier, before, not_le.mp before]

/-- Without it the agenda is that of the rest of the pool. -/
theorem ofPool_tail [BEq α] [LawfulBEq α] (shape : ofPool key pool = a :: rest) :
    rest = ofPool key (pool.erase a) := by
  induction pool generalizing a rest with
  | nil => cases shape
  | cons b pool ih =>
      rw [ofPool_cons] at shape
      cases later : ofPool key pool with
      | nil =>
          have none_left : pool = [] := List.eq_nil_of_length_eq_zero (by
            rw [← (ofPool_perm key pool).length_eq, later]
            rfl)
          rw [later] at shape
          cases shape
          rw [none_left, List.erase_cons_head]
          rfl
      | cons c tail =>
          rw [later] at shape
          by_cases before : key b ≤ key c
          · have whole : add key b (c :: tail) = b :: c :: tail :=
              List.orderedInsert_cons_of_le _ tail before
            rw [whole] at shape
            cases shape
            rw [List.erase_cons_head, later]
          · have whole : add key b (c :: tail) = c :: add key b tail :=
              List.orderedInsert_of_not_le _ tail before
            rw [whole] at shape
            cases shape
            have other : ¬ b = a := by
              rintro rfl
              exact before le_rfl
            rw [List.erase_cons_tail (by simpa using other), ofPool_cons, ih later]

end Pool

end OsdiKernel.Agenda
