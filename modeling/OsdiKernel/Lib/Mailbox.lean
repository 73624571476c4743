import Mathlib.Data.List.Induction
import Mathlib.Data.Set.Insert
import Mathlib.Order.SetNotation

/-!
# Messages that are raised and delivered

A message that is raised again before it is delivered is delivered once.  The
history of a mailbox says which messages are pending: those that were raised
and have not been delivered since.
-/

namespace OsdiKernel.Mailbox

variable {ι α : Type}

/-- A message is raised, or a receiver gets it. -/
inductive Event (ι α : Type) where
  | raised (a : α)
  | delivered (receiver : ι) (a : α)

def Event.apply (waiting : Set α) : Event ι α → Set α
  | .raised a => insert a waiting
  | .delivered _ a => waiting \ {a}

/-- What is pending after a history, if some messages were pending before it. -/
def pending (start : Set α) (history : List (Event ι α)) : Set α := history.foldl Event.apply start

/-- Only what is pending is delivered. -/
inductive Proper (start : Set α) : List (Event ι α) → Prop
  | nil : Proper start []
  | raised {history : List (Event ι α)} (earlier : Proper start history) (a : α) :
      Proper start (history ++ [.raised a])
  | delivered {history : List (Event ι α)} {a : α} (earlier : Proper start history) (receiver : ι)
      (waits : a ∈ pending start history) : Proper start (history ++ [.delivered receiver a])

/-- The messages that a receiver gets, in order. -/
def deliveries [DecidableEq ι] (receiver : ι) (history : List (Event ι α)) : List α :=
  history.filterMap fun
    | .raised _ => none
    | .delivered other a => if other = receiver then some a else none

/-- An element of a list is its last one, or stands before the last one. -/
theorem concat_eq_append_cons {β : Type} {front before after : List β} {last x : β}
    (same : front ++ [last] = before ++ x :: after) :
    (front = before ∧ last = x ∧ after = []) ∨
      ∃ rest, after = rest ++ [last] ∧ front = before ++ x :: rest := by
  induction after using List.reverseRecOn with
  | nil =>
      obtain ⟨fronts, lasts⟩ := List.append_inj' same rfl
      exact Or.inl ⟨fronts, List.singleton_inj.mp lasts, rfl⟩
  | append_singleton rest y _ =>
      have shape : before ++ x :: (rest ++ [y]) = (before ++ x :: rest) ++ [y] := by simp
      obtain ⟨fronts, lasts⟩ := List.append_inj' (same.trans shape) rfl
      exact Or.inr ⟨rest, by rw [List.singleton_inj.mp lasts], fronts⟩

section Histories

variable {start : Set α} {history before after : List (Event ι α)} {a : α} {receiver : ι}

theorem pending_append (start : Set α) (before after : List (Event ι α)) :
    pending start (before ++ after) = pending (pending start before) after := List.foldl_append

theorem mem_apply_iff {event : Event ι α} : a ∈ event.apply start ↔
    event = .raised a ∨ a ∈ start ∧ ∀ receiver, event ≠ .delivered receiver a := by
  cases event with
  | raised b =>
      simp only [Event.apply, Set.mem_insert_iff, Event.raised.injEq, ne_eq, reduceCtorEq,
        not_false_eq_true, implies_true, and_true]
      exact or_congr_left eq_comm
  | delivered other b =>
      simp only [Event.apply, Set.mem_sdiff, Set.mem_singleton_iff, reduceCtorEq, ne_eq,
        Event.delivered.injEq, not_and, false_or]
      exact and_congr_right fun _ =>
        ⟨fun different _ _ same => different same.symm, fun all same => all other rfl same.symm⟩

/-- A message is pending if it was at the start or has been raised, and was not
delivered since. -/
theorem mem_pending_iff : a ∈ pending start history ↔
    (a ∈ start ∧ ∀ receiver, .delivered receiver a ∉ history) ∨
      ∃ before after, history = before ++ .raised a :: after ∧
        ∀ receiver, .delivered receiver a ∉ after := by
  induction history using List.reverseRecOn with
  | nil => simp [pending]
  | append_singleton history event ih =>
      rw [pending_append]
      change a ∈ event.apply _ ↔ _
      rw [mem_apply_iff, ih]
      constructor
      · rintro (rfl | ⟨⟨atStart, undelivered⟩ | ⟨before, after, rfl, undelivered⟩, other⟩)
        · exact Or.inr ⟨history, [], rfl, fun _ => List.not_mem_nil⟩
        · refine Or.inl ⟨atStart, fun receiver member => ?_⟩
          rcases List.mem_append.mp member with old | new
          · exact undelivered receiver old
          · exact other receiver (List.mem_singleton.mp new).symm
        · refine Or.inr ⟨before, after ++ [event], by simp, fun receiver member => ?_⟩
          rcases List.mem_append.mp member with old | new
          · exact undelivered receiver old
          · exact other receiver (List.mem_singleton.mp new).symm
      · rintro (⟨atStart, undelivered⟩ | ⟨before, after, same, undelivered⟩)
        · refine Or.inr ⟨Or.inl ⟨atStart, fun receiver member => ?_⟩, fun receiver same => ?_⟩
          · exact undelivered receiver (List.mem_append_left _ member)
          · exact undelivered receiver (List.mem_append_right _ (List.mem_singleton.mpr same.symm))
        · rcases concat_eq_append_cons same with ⟨_, isRaise, _⟩ | ⟨rest, rfl, earlier⟩
          · exact Or.inl isRaise
          · refine Or.inr ⟨Or.inr ⟨before, rest, earlier, fun receiver member => ?_⟩,
              fun receiver isLast => ?_⟩
            · exact undelivered receiver (List.mem_append_left _ member)
            · exact undelivered receiver (List.mem_append_right _ (List.mem_singleton.mpr isLast.symm))

/-- No raise is lost. -/
theorem pending_or_delivered (start : Set α) (before after : List (Event ι α)) (a : α) :
    a ∈ pending start (before ++ .raised a :: after) ∨ ∃ receiver, .delivered receiver a ∈ after := by
  by_cases delivered : ∃ receiver, .delivered receiver a ∈ after
  · exact Or.inr delivered
  · exact Or.inl (mem_pending_iff.mpr (Or.inr ⟨before, after, rfl, not_exists.mp delivered⟩))

/-- Nothing is delivered that is not pending. -/
theorem Proper.waits (proper : Proper start history)
    (shape : history = before ++ .delivered receiver a :: after) : a ∈ pending start before := by
  induction proper generalizing after with
  | nil => exact absurd shape (by simp)
  | raised earlier b ih =>
      rcases concat_eq_append_cons shape with ⟨_, isLast, _⟩ | ⟨rest, rfl, earlier'⟩
      · cases isLast
      · exact ih earlier'
  | delivered earlier other waits ih =>
      rcases concat_eq_append_cons shape with ⟨rfl, isLast, _⟩ | ⟨rest, rfl, earlier'⟩
      · cases isLast
        exact waits
      · exact ih earlier'

end Histories

end OsdiKernel.Mailbox
