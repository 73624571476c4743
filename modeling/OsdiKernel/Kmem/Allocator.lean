import OsdiKernel.Kmem.Safety
import OsdiKernel.Lib.Allocator

/-!
# The kernel heap as an allocator
-/

namespace OsdiKernel.Kmem

/-- The heap of a kernel with this layout that was booted with these reservations. -/
def KernelHeap (_ : Layout) (_ : List (Nat × Nat)) : Type := Heap

/-- The pointers in use, whatever the sizes of their allocations. -/
def HoldsPointers (layout : Layout) (ranges : List (Nat × Nat)) (h : Heap) (live : List Nat) :
    Prop :=
  ∃ uses, Run layout ranges uses h ∧ live.Perm (uses.map Prod.fst)

section Kernel

variable {layout : Layout} {ranges : List (Nat × Nat)} {h : Heap} {live : List Nat} {size p : Nat}

theorem HoldsPointers.alloc_some (holds : HoldsPointers layout ranges h live)
    (success : (alloc h size).2 ≠ 0) :
    (alloc h size).2 ∉ live ∧
      HoldsPointers layout ranges (alloc h size).1 ((alloc h size).2 :: live) := by
  obtain ⟨uses, run, same⟩ := holds
  constructor
  · intro member
    obtain ⟨use, inUse, pointer⟩ := List.mem_map.mp (same.mem_iff.mp member)
    exact run.fresh success inUse pointer
  · have next := run.alloc size
    rw [keep_of_ne success] at next
    exact ⟨_, next, same.cons _⟩

theorem HoldsPointers.alloc_none (holds : HoldsPointers layout ranges h live)
    (failure : (alloc h size).2 = 0) : HoldsPointers layout ranges (alloc h size).1 live := by
  obtain ⟨uses, run, same⟩ := holds
  have next := run.alloc size
  rw [Mm.keep, if_pos failure] at next
  exact ⟨uses, next, same⟩

theorem HoldsPointers.free (holds : HoldsPointers layout ranges h live) (member : p ∈ live) :
    HoldsPointers layout ranges (free layout h p) (live.erase p) := by
  obtain ⟨uses, run, same⟩ := holds
  obtain ⟨use, inUse, rfl⟩ := List.mem_map.mp (same.mem_iff.mp member)
  refine ⟨uses.erase use, run.free inUse, ?_⟩
  have split := same.trans ((List.perm_cons_erase inUse).map Prod.fst)
  have erased := split.erase use.1
  rwa [List.map_cons, List.erase_cons_head] at erased

end Kernel

instance (layout : Layout) (ranges : List (Nat × Nat)) : Allocator (KernelHeap layout ranges) where
  alloc h size := ((alloc h size).1, if (alloc h size).2 = 0 then none else some (alloc h size).2)
  free h p := free layout h p
  Holds h live := HoldsPointers layout ranges h live
  perm holds same := by
    obtain ⟨uses, run, same'⟩ := holds
    exact ⟨uses, run, same.symm.trans same'⟩
  alloc_some {h live size p} holds result := by
    by_cases failure : (alloc h size).2 = 0
    · rw [if_pos failure] at result
      cases result
    · rw [if_neg failure] at result
      cases result
      exact holds.alloc_some failure
  alloc_none {h live size} holds result := by
    by_cases failure : (alloc h size).2 = 0
    · exact holds.alloc_none failure
    · rw [if_neg failure] at result
      cases result
  free_live holds member := holds.free member

/-- An allocation, with the extents of all that is in use. -/
theorem Run.allocated {layout : Layout} {ranges uses : List (Nat × Nat)} {h : KernelHeap layout ranges}
    (run : Run layout ranges uses h) (size : Nat) :
    ∃ uses', Run layout ranges uses' (Allocator.alloc h size).1 ∧ (∀ use ∈ uses, use ∈ uses') ∧
      ∀ p, (Allocator.alloc h size).2 = some p →
        p = (Kmem.alloc h size).2 ∧ p ≠ 0 ∧ (p, size) ∈ uses' ∧ ∀ use ∈ uses, use.1 ≠ p := by
  have next := run.alloc size
  have result : (Allocator.alloc h size).2 =
      if (Kmem.alloc h size).2 = 0 then none else some (Kmem.alloc h size).2 := rfl
  by_cases failure : (Kmem.alloc h size).2 = 0
  · rw [Mm.keep, if_pos failure] at next
    refine ⟨uses, next, fun _ member => member, fun p success => ?_⟩
    rw [result, if_pos failure] at success
    cases success
  · rw [Mm.keep, if_neg failure] at next
    refine ⟨_, next, fun _ member => List.mem_cons_of_mem _ member, fun p success => ?_⟩
    rw [result, if_neg failure] at success
    cases success
    exact ⟨rfl, failure, List.mem_cons_self, fun use member => run.fresh failure member⟩

end OsdiKernel.Kmem
