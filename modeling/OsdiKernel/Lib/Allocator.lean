import Mathlib.Data.List.Basic

/-!
# Allocators

What the users of a heap may rely on: a new pointer is none of those in use,
and a request may fail.
-/

namespace OsdiKernel

/-- A heap whose pointers in use are known.  A failed request returns none. -/
class Allocator (H : Type) where
  alloc : H → Nat → H × Option Nat
  free : H → Nat → H
  /-- The pointers in use. -/
  Holds : H → List Nat → Prop
  perm : ∀ {h live live'}, Holds h live → live.Perm live' → Holds h live'
  alloc_some : ∀ {h live size p}, Holds h live → (alloc h size).2 = some p →
    p ∉ live ∧ Holds (alloc h size).1 (p :: live)
  alloc_none : ∀ {h live size}, Holds h live → (alloc h size).2 = none →
    Holds (alloc h size).1 live
  free_live : ∀ {h live p}, Holds h live → p ∈ live → Holds (free h p) (live.erase p)

namespace Allocator

variable {H : Type} [Allocator H] {h : H} {live : List Nat} {p : Nat}

/-- `free` of a pointer that may be null. -/
def freePtr (h : H) : Option Nat → H
  | some p => free h p
  | none => h

theorem holds_free_head (holds : Holds h (p :: live)) : Holds (free h p) live := by
  have freed := free_live holds List.mem_cons_self
  rwa [List.erase_cons_head] at freed

end Allocator

end OsdiKernel
