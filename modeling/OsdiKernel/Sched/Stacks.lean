import OsdiKernel.Kmem.Allocator
import OsdiKernel.Lib.Bytes
import OsdiKernel.Sched.Balance
import OsdiKernel.Sched.Exec
import OsdiKernel.Sched.Fork

/-!
# The stacks of a fork

`sys_fork` copies both stacks of the parent to the stacks of the child, then the
trap frame once more, and patches the frame of the child.  The trap frame and
the stack pointers move with the stacks that they point into.
-/

namespace OsdiKernel.Sched

/-! ## Memory -/

/-- `memcpy(dest, src, n)`. -/
def memcpy (bytes : Nat → UInt8) (dest src : Word) (n : Nat) : Nat → UInt8 :=
  copyLoop bytes dest.toNat src.toNat n

/-- The `struct TrapFrame` at an address. -/
def frameAt (bytes : Nat → UInt8) (p : Word) : TrapFrame where
  x i := loadDouble bytes (p.toNat + 8 * i)
  spEl0 := loadDouble bytes (p.toNat + 248)
  spsrEl1 := loadDouble bytes (p.toNat + 256)
  elrEl1 := loadDouble bytes (p.toNat + 264)

/-- `frame->x[0] = value`. -/
def storeX0 (bytes : Nat → UInt8) (frame value : Word) : Nat → UInt8 :=
  storeDouble bytes frame.toNat value

/-- `frame->sp_el0 = value`. -/
def storeSpEl0 (bytes : Nat → UInt8) (frame value : Word) : Nat → UInt8 :=
  storeDouble bytes (frame.toNat + 248) value

/-- The stores of `sys_fork` to the stacks of the child, in their order. -/
def copyStacks (bytes : Nat → UInt8) (parent child : Task) (trapframe : Word) : Nat → UInt8 :=
  let bytes := memcpy bytes (addr child.userStack) (addr parent.userStack) threadStackSize
  let bytes := memcpy bytes (addr child.kernelStack) (addr parent.kernelStack) threadStackSize
  let childFrame := addr child.kernelStack + (trapframe - addr parent.kernelStack)
  let bytes := memcpy bytes childFrame trapframe trapFrameSize
  let bytes := storeX0 bytes childFrame 0
  storeSpEl0 bytes childFrame
    (addr child.userStack + ((frameAt bytes trapframe).spEl0 - addr parent.userStack))

variable {H : Type}

/-- `sys_fork` with the contents of the memory.  The tasks themselves are kept apart from the
bytes, so that the stores to them may come first, and what the compiler keeps on the stack is
left out. -/
def sysForkIn [Allocator H] (k : Kernel H) (bytes : Nat → UInt8) (trapframe currSp forkEnd : Word) :
    Option (Kernel H × (Nat → UInt8) × Option Nat) :=
  match k.current with
  | none => some (k, bytes, none)
  | some parent =>
      let p := k.tasks parent
      match allocThread k p.counter p.priority p.preemptCount with
      | (k, none) => some (k, storeX0 bytes trapframe (-1), none)
      | (k, some child) => do
          let (k, _) ← forkInit k parent child (frameAt bytes trapframe) currSp forkEnd
          let bytes := copyStacks bytes (k.tasks parent) (k.tasks child) trapframe
          return (k, storeX0 bytes trapframe ((k.tasks child).id.setWidth 64), some child)

/-! ## Copies between four stacks -/

/-- Two stacks do not overlap. -/
def StacksApart (first second : Nat) : Prop :=
  first + threadStackSize ≤ second ∨ second + threadStackSize ≤ first

/-- The stacks of the parent at `ks` and `us`, and those of the child at `ks'` and `us'`. -/
structure StackPlaces (ks us ks' us' : Nat) : Prop where
  kernels : StacksApart ks ks'
  users : StacksApart us us'
  parents : StacksApart ks us
  children : StacksApart ks' us'
  userToKernel : StacksApart us ks'
  kernelToUser : StacksApart ks us'
  within : ∀ p ∈ [ks, us, ks', us'], p + threadStackSize < 2 ^ 64

/-- What a fork leaves in memory, for a trap frame at the offset `off` of the kernel stack and a
user stack pointer at the offset `spOff`. -/
structure ForkCopies (before after : Nat → UInt8) (ks us ks' us' off spOff : Nat) (id : Word) :
    Prop where
  user : ∀ i < threadStackSize, after (us' + i) = before (us + i)
  kernel : ∀ i < threadStackSize, i < off ∨ off + trapFrameSize ≤ i → after (ks' + i) = before (ks + i)
  childFrame : frameAt after (BitVec.ofNat 64 (ks' + off)) =
    { (frameAt before (BitVec.ofNat 64 (ks + off))).setX 0 0 with spEl0 := BitVec.ofNat 64 (us' + spOff) }
  parentFrame : frameAt after (BitVec.ofNat 64 (ks + off)) =
    (frameAt before (BitVec.ofNat 64 (ks + off))).setX 0 id
  parentUser : ∀ i < threadStackSize, after (us + i) = before (us + i)
  parentKernel : ∀ i < threadStackSize, i < off ∨ off + 8 ≤ i → after (ks + i) = before (ks + i)

section Copies

variable {bytes : Nat → UInt8} {ks us ks' us' off spOff : Nat} {parent child : Task}

theorem toNat_addr {p : Nat} (below : p < 2 ^ 64) : (BitVec.ofNat 64 p).toNat = p := by
  rw [BitVec.toNat_ofNat, Nat.mod_eq_of_lt below]

/-- A pointer moves from one stack to the same offset of another. -/
theorem addr_move (p q off : Nat) :
    BitVec.ofNat 64 q + (BitVec.ofNat 64 (p + off) - BitVec.ofNat 64 p) = BitVec.ofNat 64 (q + off) := by
  rw [BitVec.ofNat_add, BitVec.ofNat_add, BitVec.add_comm (BitVec.ofNat 64 p), BitVec.add_sub_cancel]

/-- The three copies, one after the other.  The last one stores what is there already. -/
def copied (bytes : Nat → UInt8) (ks us ks' us' off : Nat) : Nat → UInt8 :=
  copyLoop (copyLoop (copyLoop bytes us' us threadStackSize) ks' ks threadStackSize)
    (ks' + off) (ks + off) trapFrameSize

section Places

variable (places : StackPlaces ks us ks' us') (inside : off + trapFrameSize ≤ threadStackSize)
include places inside

theorem copied_apply (a : Nat) : copied bytes ks us ks' us' off a =
    if us' ≤ a ∧ a < us' + threadStackSize then bytes (us + (a - us'))
    else if ks' ≤ a ∧ a < ks' + threadStackSize then bytes (ks + (a - ks')) else bytes a := by
  obtain ⟨kernels, users, _, children, userToKernel, kernelToUser, _⟩ := places
  unfold StacksApart at *
  have first : ∀ a, copyLoop bytes us' us threadStackSize a =
      if us' ≤ a ∧ a < us' + threadStackSize then bytes (us + (a - us')) else bytes a :=
    fun a => copyLoop_apply _ _ _ _ _ (by omega)
  have second : ∀ a, copyLoop (copyLoop bytes us' us threadStackSize) ks' ks threadStackSize a =
      if ks' ≤ a ∧ a < ks' + threadStackSize then bytes (ks + (a - ks'))
      else copyLoop bytes us' us threadStackSize a := by
    intro a
    rw [copyLoop_apply _ _ _ _ _ (by omega)]
    split
    · rw [first, if_neg (by omega)]
    · rfl
  unfold copied
  rw [copyLoop_apply _ _ _ _ _ (by omega)]
  by_cases inFrame : ks' + off ≤ a ∧ a < ks' + off + trapFrameSize
  · rw [if_pos inFrame, second, if_neg (by omega), first, if_neg (by omega), if_neg (by omega),
      if_pos (by omega)]
    congr 1
    omega
  · rw [if_neg inFrame, second, first]
    by_cases inUser : us' ≤ a ∧ a < us' + threadStackSize
    · rw [if_pos inUser, if_pos inUser, if_neg (by omega)]
    · rw [if_neg inUser, if_neg inUser]

theorem copied_user {i : Nat} (below : i < threadStackSize) :
    copied bytes ks us ks' us' off (us' + i) = bytes (us + i) := by
  rw [copied_apply places inside, if_pos (by omega), Nat.add_sub_cancel_left]

theorem copied_kernel {i : Nat} (below : i < threadStackSize) :
    copied bytes ks us ks' us' off (ks' + i) = bytes (ks + i) := by
  have children := places.children
  unfold StacksApart at children
  rw [copied_apply places inside, if_neg (by omega), if_pos (by omega), Nat.add_sub_cancel_left]

theorem copied_parent {p i : Nat} (parent : p = ks ∨ p = us) (below : i < threadStackSize) :
    copied bytes ks us ks' us' off (p + i) = bytes (p + i) := by
  have kernels := places.kernels
  have users := places.users
  have userToKernel := places.userToKernel
  have kernelToUser := places.kernelToUser
  unfold StacksApart at kernels users userToKernel kernelToUser
  rw [copied_apply places inside, if_neg (by omega), if_neg (by omega)]

/-- The words of the parent's frame are at the same offsets of both kernel stacks. -/
theorem loadDouble_copied {p i : Nat} (stack : p = ks ∨ p = ks') (below : i + 8 ≤ threadStackSize) :
    loadDouble (copied bytes ks us ks' us' off) (p + i) = loadDouble bytes (ks + i) := by
  refine loadDouble_congr fun j small => ?_
  rw [Nat.add_assoc, Nat.add_assoc]
  rcases stack with rfl | rfl
  · exact copied_parent places inside (Or.inl rfl) (by omega)
  · exact copied_kernel places inside (by omega)

/-- The memory after the stores to the stacks of the child. -/
theorem copyStacks_eq (parentKernel : parent.kernelStack = some ks) (parentUser : parent.userStack = some us)
    (childKernel : child.kernelStack = some ks') (childUser : child.userStack = some us')
    (spEl0 : (frameAt bytes (BitVec.ofNat 64 (ks + off))).spEl0 = BitVec.ofNat 64 (us + spOff)) :
    copyStacks bytes parent child (BitVec.ofNat 64 (ks + off)) =
      storeDouble (storeDouble (copied bytes ks us ks' us' off) (ks' + off) 0) (ks' + off + 248)
        (BitVec.ofNat 64 (us' + spOff)) := by
  have kernels := places.kernels
  have within := places.within
  simp only [List.mem_cons, List.not_mem_nil, or_false, forall_eq_or_imp, forall_eq] at within
  unfold StacksApart at kernels
  have frameSize : trapFrameSize = 272 := rfl
  have sp : loadDouble (storeDouble (copied bytes ks us ks' us' off) (ks' + off) 0) (ks + off + 248) =
      BitVec.ofNat 64 (us + spOff) := by
    rw [loadDouble_storeDouble_apart (by omega), Nat.add_assoc,
      loadDouble_copied places inside (Or.inl rfl) (by omega), ← Nat.add_assoc, ← spEl0]
    unfold frameAt
    rw [toNat_addr (by omega)]
  unfold copyStacks memcpy storeX0 storeSpEl0 frameAt addr
  rw [parentKernel, parentUser, childKernel, childUser]
  dsimp only [Option.getD_some]
  rw [addr_move, toNat_addr (p := us') (by omega), toNat_addr (p := us) (by omega), toNat_addr (p := ks') (by omega),
    toNat_addr (p := ks) (by omega), toNat_addr (p := ks + off) (by omega), toNat_addr (p := ks' + off) (by omega)]
  unfold copied at sp ⊢
  rw [sp, addr_move]

/-- The words of both frames that no store goes to. -/
theorem loadDouble_patched {p i : Nat} {id spEl0 : Word} (stack : p = ks ∨ p = ks') (below : i + 8 ≤ trapFrameSize)
    (notFirst : 8 ≤ i) (notSp : p = ks' → i + 8 ≤ 248 ∨ 256 ≤ i) :
    loadDouble (storeDouble (storeDouble (storeDouble (copied bytes ks us ks' us' off) (ks' + off) 0)
      (ks' + off + 248) spEl0) (ks + off) id) (p + off + i) = loadDouble bytes (ks + off + i) := by
  have kernels := places.kernels
  unfold StacksApart at kernels
  have frameSize : trapFrameSize = 272 := rfl
  have copies : loadDouble (copied bytes ks us ks' us' off) (p + off + i) = loadDouble bytes (ks + off + i) := by
    rw [Nat.add_assoc, loadDouble_copied places inside stack (by omega), ← Nat.add_assoc]
  rcases stack with rfl | rfl
  · rw [loadDouble_storeDouble_apart (by omega), loadDouble_storeDouble_apart (by omega),
      loadDouble_storeDouble_apart (by omega), copies]
  · have apart := notSp rfl
    rw [loadDouble_storeDouble_apart (by omega), loadDouble_storeDouble_apart (by omega),
      loadDouble_storeDouble_apart (by omega), copies]

/-- The memory of the child and of its parent at the end. -/
theorem forkCopies_patched (id : Word) :
    ForkCopies bytes
      (storeDouble (storeDouble (storeDouble (copied bytes ks us ks' us' off) (ks' + off) 0) (ks' + off + 248)
        (BitVec.ofNat 64 (us' + spOff))) (ks + off) id) ks us ks' us' off spOff id := by
  have kernels := places.kernels
  have parents := places.parents
  have children := places.children
  have userToKernel := places.userToKernel
  have kernelToUser := places.kernelToUser
  have within := places.within
  simp only [List.mem_cons, List.not_mem_nil, or_false, forall_eq_or_imp, forall_eq] at within
  unfold StacksApart at kernels parents children userToKernel kernelToUser
  have frameSize : trapFrameSize = 272 := rfl
  have child : (BitVec.ofNat 64 (ks' + off)).toNat = ks' + off := toNat_addr (by omega)
  have parent : (BitVec.ofNat 64 (ks + off)).toNat = ks + off := toNat_addr (by omega)
  have positive : ∀ i : Fin 31, i ≠ 0 → 0 < i.val := fun i other => Fin.pos_iff_ne_zero.mpr other
  constructor
  · intro i below
    rw [storeDouble_apart (by omega), storeDouble_apart (by omega), storeDouble_apart (by omega),
      copied_user places inside below]
  · intro i below outside
    rw [storeDouble_apart (by omega), storeDouble_apart (by omega), storeDouble_apart (by omega),
      copied_kernel places inside below]
  · unfold frameAt TrapFrame.setX
    rw [child, parent]
    dsimp only
    rw [TrapFrame.mk.injEq]
    refine ⟨funext fun i => ?_, ?_, ?_, ?_⟩
    · by_cases first : i = 0
      · subst first
        rw [Function.update_self, loadDouble_storeDouble_apart (by simp; omega),
          loadDouble_storeDouble_apart (by simp)]
        exact loadDouble_storeDouble
      · rw [Function.update_of_ne first]
        have after := positive i first
        exact loadDouble_patched places inside (Or.inr rfl) (by omega) (by omega) fun _ => by omega
    · rw [loadDouble_storeDouble_apart (by omega), loadDouble_storeDouble]
    · exact loadDouble_patched places inside (Or.inr rfl) (by omega) (by omega) fun _ => by omega
    · exact loadDouble_patched places inside (Or.inr rfl) (by omega) (by omega) fun _ => by omega
  · unfold frameAt TrapFrame.setX
    rw [parent]
    dsimp only
    rw [TrapFrame.mk.injEq]
    have apart : ks ≠ ks' := by omega
    refine ⟨funext fun i => ?_, ?_, ?_, ?_⟩
    · by_cases first : i = 0
      · subst first
        rw [Function.update_self]
        exact loadDouble_storeDouble
      · rw [Function.update_of_ne first]
        have after := positive i first
        exact loadDouble_patched places inside (Or.inl rfl) (by omega) (by omega) fun same => absurd same apart
    · exact loadDouble_patched places inside (Or.inl rfl) (by omega) (by omega) fun same => absurd same apart
    · exact loadDouble_patched places inside (Or.inl rfl) (by omega) (by omega) fun same => absurd same apart
    · exact loadDouble_patched places inside (Or.inl rfl) (by omega) (by omega) fun same => absurd same apart
  · intro i below
    rw [storeDouble_apart (by omega), storeDouble_apart (by omega), storeDouble_apart (by omega),
      copied_parent places inside (Or.inr rfl) below]
  · intro i below outside
    rw [storeDouble_apart (by omega), storeDouble_apart (by omega), storeDouble_apart (by omega),
      copied_parent places inside (Or.inl rfl) below]

end Places

end Copies

/-! ## The heap -/

section Heap

open Kmem (Layout KernelHeap)

variable {layout : Layout} {ranges uses : List (Nat × Nat)} {k k' : Kernel (KernelHeap layout ranges)}
  {ks us task parent child : Nat} {bytes bytes' : Nat → UInt8} {trapframe currSp forkEnd : Word}

/-- The stacks of a task are two allocations of the heap. -/
structure OwnsStacks (uses : List (Nat × Nat)) (t : Task) (ks us : Nat) : Prop where
  kernelStack : t.kernelStack = some ks
  userStack : t.userStack = some us
  kernelUse : (ks, threadStackSize) ∈ uses
  userUse : (us, threadStackSize) ∈ uses
  distinct : ks ≠ us

/-- The stacks of a new thread are new allocations. -/
structure NewStacks (uses uses' : List (Nat × Nat)) (h : KernelHeap layout ranges) (t : Task) (ks us : Nat) :
    Prop extends OwnsStacks uses' t ks us where
  run : Kmem.Run layout ranges uses' h
  kept : ∀ use ∈ uses, use ∈ uses'
  fresh : ∀ use ∈ uses, use.1 ≠ ks ∧ use.1 ≠ us

theorem allocThread_stacks {counter priority preemptCount : Int} (run : Kmem.Run layout ranges uses k.heap)
    (made : allocThread k counter priority preemptCount = (k', some task)) :
    ∃ uses' ks us, NewStacks uses uses' k'.heap (k'.tasks task) ks us := by
  unfold allocThread Kernel.allocTask Kernel.alloc at made
  obtain ⟨uses₁, run₁, kept₁, _⟩ := run.allocated taskSize
  cases first : (k.toState.alloc taskSize).2 with
  | none =>
      rw [first] at made
      cases congrArg Prod.snd made
  | some p =>
      rw [first] at made
      dsimp only [enrol, Kernel.modify] at made
      obtain ⟨uses₂, run₂, kept₂, new₂⟩ := run₁.allocated threadStackSize
      cases second : ((k.toState.alloc taskSize).1.alloc threadStackSize).2 with
      | none =>
          rw [second] at made
          cases congrArg Prod.snd made
      | some ks =>
          rw [second] at made
          dsimp only at made
          obtain ⟨uses₃, run₃, kept₃, new₃⟩ := run₂.allocated threadStackSize
          cases third : (((k.toState.alloc taskSize).1.alloc threadStackSize).1.alloc
              threadStackSize).2 with
          | none =>
              rw [third] at made
              cases congrArg Prod.snd made
          | some us =>
              rw [third] at made
              obtain ⟨same, here⟩ := Prod.mk.inj made
              cases here
              obtain ⟨_, _, inUse₂, fresh₂⟩ := new₂ ks second
              obtain ⟨_, _, inUse₃, fresh₃⟩ := new₃ us third
              refine ⟨uses₃, ks, us, ⟨?_, ?_, kept₃ _ inUse₂, inUse₃, fresh₃ _ inUse₂⟩, ?_, ?_, ?_⟩
              · rw [← same]
                dsimp only
                rw [Function.update_self, Function.update_self]
              · rw [← same]
                dsimp only
                rw [Function.update_self]
              · rw [← same]
                exact run₃
              · exact fun use member => kept₃ use (kept₂ use (kept₁ use member))
              · exact fun use member => ⟨fresh₂ use (kept₁ use member),
                  fresh₃ use (kept₂ use (kept₁ use member))⟩

/-- A fork that succeeds, with and without the memory. -/
theorem sysForkIn_forked [Allocator H] {k k' : Kernel H} (isCurrent : k.current = some parent)
    (forked : sysForkIn k bytes trapframe currSp forkEnd = some (k', bytes', some child)) :
    ∃ k₁ frame childFrame,
      allocThread k (k.tasks parent).counter (k.tasks parent).priority (k.tasks parent).preemptCount =
        (k₁, some child) ∧ SameMemory k₁ k' ∧
      sysFork k (frameAt bytes trapframe) currSp forkEnd = some (k', frame, some (child, childFrame)) ∧
      bytes' = storeX0 (copyStacks bytes (k'.tasks parent) (k'.tasks child) trapframe) trapframe
        ((k'.tasks child).id.setWidth 64) := by
  unfold sysForkIn at forked
  rw [isCurrent] at forked
  dsimp only at forked
  cases made : allocThread k (k.tasks parent).counter (k.tasks parent).priority
      (k.tasks parent).preemptCount with
  | mk k₁ found =>
      rw [made] at forked
      cases found with
      | none => cases forked
      | some task =>
          obtain ⟨⟨k₂, frames⟩, inited, same⟩ := Option.bind_eq_some_iff.mp forked
          cases same
          refine ⟨k₁, frames.1, frames.2, rfl, forkInit_sameMemory inited, ?_, rfl⟩
          unfold sysFork
          rw [isCurrent]
          dsimp only
          rw [made]
          dsimp only
          rw [inited]
          rfl

theorem OwnsStacks.memory (owns : OwnsStacks uses (k.tasks task) ks us) (memory : SameMemory k k') :
    OwnsStacks uses (k'.tasks task) ks us := by
  have pointers := memory.pointers task
  unfold Task.pointers at pointers
  simp only [Prod.mk.injEq] at pointers
  exact
    { owns with
      kernelStack := pointers.1.trans owns.kernelStack
      userStack := pointers.2.1.trans owns.userStack }

theorem NewStacks.memory {uses' : List (Nat × Nat)} (new : NewStacks uses uses' k.heap (k.tasks task) ks us)
    (memory : SameMemory k k') : NewStacks uses uses' k'.heap (k'.tasks task) ks us where
  toOwnsStacks := new.toOwnsStacks.memory memory
  run := by
    rw [memory.state]
    exact new.run
  kept := new.kept
  fresh := new.fresh

/-- Four different stacks of the heap. -/
theorem NewStacks.places {uses' : List (Nat × Nat)} {h : KernelHeap layout ranges} {t p : Task} {ks' us' : Nat}
    (new : NewStacks uses uses' h t ks' us') (owns : OwnsStacks uses p ks us) :
    StackPlaces ks us ks' us' := by
  have kernelUse := new.kept _ owns.kernelUse
  have userUse := new.kept _ owns.userUse
  obtain ⟨kernelKernel, kernelUser⟩ := new.fresh _ owns.kernelUse
  obtain ⟨userKernel, userUser⟩ := new.fresh _ owns.userUse
  have apart : ∀ {p q : Nat}, (p, threadStackSize) ∈ uses' → (q, threadStackSize) ∈ uses' → p ≠ q →
      StacksApart p q := by
    intro p q inUse inUse' different
    exact new.run.apart inUse inUse' fun same => different (congrArg Prod.fst same)
  have within : ∀ {p : Nat}, (p, threadStackSize) ∈ uses' → p + threadStackSize < 2 ^ 64 := by
    intro p inUse
    exact Nat.lt_of_le_of_lt (new.run.within inUse) (by decide)
  exact
    { kernels := apart kernelUse new.kernelUse kernelKernel
      users := apart userUse new.userUse userUser
      parents := apart kernelUse userUse owns.distinct
      children := apart new.kernelUse new.userUse new.distinct
      userToKernel := apart userUse new.kernelUse userKernel
      kernelToUser := apart kernelUse new.userUse kernelUser
      within := by
        intro p member
        simp only [List.mem_cons, List.not_mem_nil, or_false] at member
        rcases member with rfl | rfl | rfl | rfl
        · exact within kernelUse
        · exact within userUse
        · exact within new.kernelUse
        · exact within new.userUse }

/-- The child is added once to the end of the ready queue. -/
def Appended (k k' : Kernel H) (child : Nat) : Prop :=
  ∃ nodes, Queue.Chain k.next k.readyQueue nodes ∧ child ∉ nodes ∧
    Queue.Chain k'.next k'.readyQueue (nodes ++ [child])

/-- A fork that succeeds, of the running thread, whose trap frame lies in its kernel stack.  Its
stack pointers may have any offset. -/
theorem run_fork_copies (k k' : Kernel (KernelHeap layout ranges))
    (reached : Reachable (fun _ _ => True) k) (fresh : FreshTask k) (uses : List (Nat × Nat))
    (run : Kmem.Run layout ranges uses k.heap) (parent child ks us off spOff stackOff : Nat)
    (isCurrent : k.current = some parent) (owns : OwnsStacks uses (k.tasks parent) ks us)
    (bytes bytes' : Nat → UInt8) (forkEnd : Word) (inFrame : off + trapFrameSize ≤ threadStackSize)
    (spEl0 : (frameAt bytes (BitVec.ofNat 64 (ks + off))).spEl0 = BitVec.ofNat 64 (us + spOff))
    (forked : sysForkIn k bytes (BitVec.ofNat 64 (ks + off)) (BitVec.ofNat 64 (ks + stackOff)) forkEnd =
      some (k', bytes', some child)) :
    ∃ uses' ks' us', NewStacks uses uses' k'.heap (k'.tasks child) ks' us' ∧
      ForkCopies bytes bytes' ks us ks' us' off spOff ((k'.tasks child).id.setWidth 64) ∧
      (k'.tasks child).cpuContext.sp = BitVec.ofNat 64 (ks' + stackOff) ∧ Appended k k' child := by
  obtain ⟨a, ordered, represents⟩ := reached.represented
  obtain ⟨k₁, frame, childFrame, made, memory, succeeds, stores⟩ := sysForkIn_forked isCurrent forked
  have running : parent = a.current := Option.some.inj (isCurrent.symm.trans represents.current)
  obtain ⟨notLive, represents'⟩ : child ∉ a.live ∧ Represents k' (a.create child) := by
    cases sysFork_refines ordered.toTidy represents fresh succeeds with
    | made notLive represents' => exact ⟨notLive, represents'⟩
  have apart : child ≠ parent := by
    rintro rfl
    rw [running] at notLive
    exact notLive ordered.currentLive
  obtain ⟨uses', ks', us', new⟩ := allocThread_stacks run made
  have parentPointers := memory.pointers parent
  unfold Task.pointers at parentPointers
  simp only [Prod.mk.injEq] at parentPointers
  obtain ⟨_, _, _, tasks⟩ := allocThread_task made
  rw [tasks, Function.update_of_ne apart.symm] at parentPointers
  have new' := new.memory memory
  have places := new'.places owns
  refine ⟨uses', ks', us', new', ?_, ?_, a.ready, represents.ready, ?_, represents'.ready⟩
  · have within := places.within ks (by simp)
    rw [stores, copyStacks_eq places inFrame (parentPointers.1.trans owns.kernelStack)
      (parentPointers.2.1.trans owns.userStack) new'.kernelStack new'.userStack spEl0]
    unfold storeX0
    rw [toNat_addr (by omega)]
    exact forkCopies_patched places inFrame _
  · obtain ⟨kernelStack, userStack, _, fields⟩ := sysFork_child isCurrent succeeds
    have kernel := new'.kernelStack
    rw [fields apart] at kernel ⊢
    dsimp only at kernel ⊢
    rw [kernel, owns.kernelStack]
    exact addr_move ks ks' stackOff
  · exact fun member => notLive (ordered.readyLive member)

/-- The child of a fork owns its stacks. -/
theorem sysFork_owns {frame frame' childFrame : TrapFrame} {live : List Nat}
    (holds : Allocator.Holds k.heap live)
    (made : sysFork k frame currSp forkEnd = some (k', frame', some (task, childFrame))) :
    ∃ uses ks us, Kmem.Run layout ranges uses k'.heap ∧ OwnsStacks uses (k'.tasks task) ks us := by
  obtain ⟨uses, run, _⟩ := holds
  unfold sysFork at made
  split at made
  · cases made
  · next parent _ =>
      dsimp only at made
      cases allocated : allocThread k (k.tasks parent).counter (k.tasks parent).priority
        (k.tasks parent).preemptCount with
      | mk k₁ result =>
          rw [allocated] at made
          cases result with
          | none => cases made
          | some child =>
              obtain ⟨⟨k₂, frames⟩, inited, same⟩ := Option.bind_eq_some_iff.mp made
              cases same
              obtain ⟨uses', ks, us, new⟩ := allocThread_stacks run allocated
              have new' := new.memory (forkInit_sameMemory inited)
              exact ⟨uses', ks, us, new'.run, new'.toOwnsStacks⟩

end Heap

/-! ## The child of a fork forks -/

open Fs (BootHeap)

/-- The memory that is reserved at the start. -/
abbrev bootRanges : List (Nat × Nat) := [(Kmem.imageStart, Kmem.smallImage.stackTop), (0, 0x1000)]

/-- The child of the first fork is the third to run. -/
def childRuns : Kernel BootHeap :=
  ((schedule firstFork.1 .zero).bind fun k => schedule k .zero).get (by decide +kernel)

def childKernelStack : Nat := (childRuns.tasks firstChild.1).kernelStack.get (by decide +kernel)

def childUserStack : Nat := (childRuns.tasks firstChild.1).userStack.get (by decide +kernel)

/-- The offsets of the trap frame and of the stack pointer. -/
def frameOffset : Nat := 0xEF0

def spOffset : Nat := 0xE00

/-- A memory with this stack pointer in a trap frame. -/
def bytesWith (frame : Nat) (sp : Word) : Nat → UInt8 := storeDouble (fun _ => 0) (frame + 248) sp

theorem spEl0_bytesWith {frame : Nat} (sp : Word) (below : frame < 2 ^ 64) :
    (frameAt (bytesWith frame sp) (BitVec.ofNat 64 frame)).spEl0 = sp := by
  unfold frameAt bytesWith
  rw [toNat_addr below, loadDouble_storeDouble]

/-- The user stack of the child is empty. -/
def frameBytes : Nat → UInt8 :=
  bytesWith (childKernelStack + frameOffset) (BitVec.ofNat 64 (childUserStack + threadStackSize))

def secondFork : Kernel BootHeap × (Nat → UInt8) × Option Nat :=
  (sysForkIn childRuns frameBytes (BitVec.ofNat 64 (childKernelStack + frameOffset))
    (BitVec.ofNat 64 (childKernelStack + spOffset)) 0).get (by decide +kernel)

def grandchild : Nat := secondFork.2.2.get (by decide +kernel)

/-- Two switches lead to the child. -/
theorem childRuns_switched : ∃ k, schedule firstFork.1 .zero = some k ∧ schedule k .zero = some childRuns :=
  Option.bind_eq_some_iff.mp (Option.some_get _).symm

theorem childRuns_reachable : Reachable (fun _ _ => True) childRuns := by
  have fresh : FreshTask secondRuns := freshTask_of (by decide +kernel)
  obtain ⟨k, first, second⟩ := childRuns_switched
  have forked := secondRuns_reachable.step trivial (.fork fresh firstFork_forked)
  exact (forked.step trivial (.schedule first)).step trivial (.schedule second)

theorem childRuns_owns : ∃ uses, Kmem.Run Kmem.smallImage bootRanges uses childRuns.heap ∧
    OwnsStacks uses (childRuns.tasks firstChild.1) childKernelStack childUserStack := by
  obtain ⟨root, V, own, running, _⟩ := Fs.init_booted.running
  have holds : Allocator.Holds beforeSched.heap (own ++ []) := running.sound.holds
  have booted : schedInit beforeSched 0 = some started := (Option.some_get _).symm
  obtain ⟨more, holds⟩ := schedInit_keeps holds booted
  have switched : schedule started .zero = some secondRuns := (Option.some_get _).symm
  have held : Allocator.Holds secondRuns.heap (more ++ (own ++ [])) := by
    rw [(schedule_untouched switched).sameMemory.state]
    exact holds
  obtain ⟨k, first, second⟩ := childRuns_switched
  have memory := (schedule_untouched first).sameMemory.trans (schedule_untouched second).sameMemory
  have general : ∀ (k k' k'' : Kernel BootHeap) (live : List Nat) (frame' : TrapFrame)
      (child : Nat × TrapFrame), Allocator.Holds k.heap live →
        sysFork k blankFrame 0 0 = some (k', frame', some (child.1, child.2)) → SameMemory k' k'' →
          ∃ uses ks us, Kmem.Run Kmem.smallImage bootRanges uses k''.heap ∧ OwnsStacks uses (k''.tasks child.1) ks us := by
    intro k k' k'' live frame' child holds made memory
    obtain ⟨uses, ks, us, run, owns⟩ := sysFork_owns holds made
    exact ⟨uses, ks, us, memory.state ▸ run, owns.memory memory⟩
  obtain ⟨uses, ks, us, run, owns⟩ := general _ _ _ _ _ _ held firstFork_forked memory
  have kernelStack : (childRuns.tasks firstChild.1).kernelStack = some childKernelStack := (Option.some_get _).symm
  have userStack : (childRuns.tasks firstChild.1).userStack = some childUserStack := (Option.some_get _).symm
  have sameKernel : ks = childKernelStack := Option.some.inj (owns.kernelStack.symm.trans kernelStack)
  have sameUser : us = childUserStack := Option.some.inj (owns.userStack.symm.trans userStack)
  rw [sameKernel, sameUser] at owns
  exact ⟨uses, run, owns⟩

theorem run_fork_copies_child : ∃ uses uses' ks' us',
    NewStacks uses uses' secondFork.1.heap (secondFork.1.tasks grandchild) ks' us' ∧
      ForkCopies frameBytes secondFork.2.1 childKernelStack childUserStack ks' us' frameOffset threadStackSize
        ((secondFork.1.tasks grandchild).id.setWidth 64) ∧
      (secondFork.1.tasks grandchild).cpuContext.sp = BitVec.ofNat 64 (ks' + spOffset) ∧
      Appended childRuns secondFork.1 grandchild := by
  obtain ⟨uses, run, owns⟩ := childRuns_owns
  have isCurrent : childRuns.current = some firstChild.1 := by decide +kernel
  have fresh : FreshTask childRuns := freshTask_of (by decide +kernel)
  have spEl0 : (frameAt frameBytes (BitVec.ofNat 64 (childKernelStack + frameOffset))).spEl0 =
      BitVec.ofNat 64 (childUserStack + threadStackSize) := by
    have within := run.within owns.kernelUse
    have bound : Mm.memorySize < 2 ^ 64 := by decide
    have offset : frameOffset ≤ threadStackSize := by decide
    exact spEl0_bytesWith _ (by omega)
  have forked : sysForkIn childRuns frameBytes (BitVec.ofNat 64 (childKernelStack + frameOffset))
      (BitVec.ofNat 64 (childKernelStack + spOffset)) 0 =
        some (secondFork.1, secondFork.2.1, some grandchild) := by
    have result : sysForkIn childRuns frameBytes (BitVec.ofNat 64 (childKernelStack + frameOffset))
      (BitVec.ofNat 64 (childKernelStack + spOffset)) 0 = some secondFork := (Option.some_get _).symm
    have isSome : secondFork.2.2 = some grandchild := (Option.some_get _).symm
    rw [result, ← isSome]
  have reached := childRuns_reachable
  generalize childRuns = k at *
  generalize secondFork = fork at *
  exact ⟨uses, run_fork_copies k fork.1 reached fresh uses run firstChild.1 grandchild childKernelStack
    childUserStack frameOffset threadStackSize spOffset isCurrent owns frameBytes fork.2.1 0 (by decide)
    spEl0 forked⟩

end OsdiKernel.Sched
