import OsdiKernel.Lib.Allocator

/-!
# A heap with a ledger

A heap that records which pointers are in use, and whether a pointer has been
released that was not.  The code that runs on it is the same, so the ledger at
the end of a run says what the run has left allocated.
-/

namespace OsdiKernel

/-- A heap, the pointers in use, and whether another pointer has been released. -/
structure Ledger (H : Type) where
  heap : H
  live : List Nat
  misused : Bool

namespace Ledger

variable {H : Type} [Allocator H]

def alloc (l : Ledger H) (size : Nat) : Ledger H × Option Nat :=
  ({ l with
      heap := (Allocator.alloc l.heap size).1
      live := (Allocator.alloc l.heap size).2.toList ++ l.live },
    (Allocator.alloc l.heap size).2)

def free (l : Ledger H) (p : Nat) : Ledger H where
  heap := Allocator.free l.heap p
  live := l.live.erase p
  misused := l.misused || !l.live.contains p

/-- The ledger agrees with what the users of the heap have. -/
structure Holds (l : Ledger H) (live : List Nat) : Prop where
  heap : Allocator.Holds l.heap live
  ledger : l.live.Perm live
  proper : l.misused = false

instance : Allocator (Ledger H) where
  alloc := alloc
  free := free
  Holds := Holds
  perm holds same := ⟨Allocator.perm holds.heap same, holds.ledger.trans same, holds.proper⟩
  alloc_some {l live size p} holds result := by
    obtain ⟨fresh, held⟩ := Allocator.alloc_some holds.heap result
    refine ⟨fresh, held, ?_, holds.proper⟩
    have pointer : (Allocator.alloc l.heap size).2 = some p := result
    show ((Allocator.alloc l.heap size).2.toList ++ l.live).Perm (p :: live)
    rw [pointer]
    exact holds.ledger.cons p
  alloc_none {l live size} holds result := by
    refine ⟨Allocator.alloc_none holds.heap result, ?_, holds.proper⟩
    have pointer : (Allocator.alloc l.heap size).2 = none := result
    show ((Allocator.alloc l.heap size).2.toList ++ l.live).Perm live
    rw [pointer]
    exact holds.ledger
  free_live {l live p} holds member := by
    refine ⟨Allocator.free_live holds.heap member, holds.ledger.erase p, ?_⟩
    have inUse : p ∈ l.live := holds.ledger.mem_iff.mpr member
    show (l.misused || !l.live.contains p) = false
    rw [holds.proper, List.contains_iff_mem.mpr inUse]
    rfl

/-- The same pointers are in use, and no other pointer has been released in between. -/
def Neutral (before after : Ledger H) : Prop := after.live.Perm before.live ∧ after.misused = false

/-- The pointers in use are those from before and some more: the run was neutral
exactly when there are no more. -/
theorem neutral_iff {before after : Ledger H} {live lost : List Nat}
    (held : Allocator.Holds before live) (holds : Allocator.Holds after (lost ++ live)) :
    Neutral before after ↔ lost = [] := by
  have start : before.live.Perm live := Holds.ledger held
  have finish : after.live.Perm (lost ++ live) := Holds.ledger holds
  constructor
  · rintro ⟨same, _⟩
    have lengths := (finish.symm.trans (same.trans start)).length_eq
    rw [List.length_append] at lengths
    exact List.length_eq_zero_iff.mp (by omega)
  · rintro rfl
    exact ⟨finish.trans start.symm, Holds.proper holds⟩

/-- A release that was no misuse takes one pointer out of use. -/
theorem free_length {l : Ledger H} {p : Nat} (proper : (Allocator.free l p).misused = false) :
    l.misused = false ∧ (Allocator.free l p).live.length + 1 = l.live.length := by
  change (l.misused || !l.live.contains p) = false at proper
  rw [Bool.or_eq_false_iff, Bool.not_eq_false', List.contains_iff_mem] at proper
  obtain ⟨before, member⟩ := proper
  have positive := List.length_pos_of_mem member
  refine ⟨before, ?_⟩
  change (l.live.erase p).length + 1 = l.live.length
  rw [List.length_erase_of_mem member]
  omega

end Ledger

end OsdiKernel
