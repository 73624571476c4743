import OsdiKernel.Sched.Fork
import OsdiKernel.Sched.KernelStack
import OsdiKernel.Sched.Lifetimes

/-!
# Runs of the kernel stacks

Whatever happens between two entries of user mode, each thread finds its kernel stack as it was,
since the frames that are pushed are popped and a parked stack is not touched.  Deliveries to
custom handlers are the exception.
-/

namespace OsdiKernel.Sched

variable {H : Type} [Allocator H]

/-! ## The kernel keeps the stacks -/

section Kept

variable {k k' k'' : Kernel H} {a : Threads}

omit [Allocator H] in
/-- The stacks of the threads that are still there, and what points to them. -/
structure KeepsStacks (k k' : Kernel H) : Prop where
  live : ∀ p ∈ k'.live, p ∈ k.live
  kernelStack : ∀ p ∈ k'.live, (k'.tasks p).kernelStack = (k.tasks p).kernelStack
  sp : ∀ p ∈ k'.live, (k'.tasks p).cpuContext.sp = (k.tasks p).cpuContext.sp

omit [Allocator H] in
/-- The running task goes on, or it is parked and another one goes on. -/
inductive Parks (k : Kernel H) (sp : Word) (k' : Kernel H) : Prop
  | stays (current : k'.current = k.current)
      (context : ∀ p, (k'.tasks p).cpuContext = (k.tasks p).cpuContext)
  | switches {prev next : Nat} (isCurrent : k.current = some prev) (other : next ≠ prev)
      (runs : k'.current = some next) (saved : (k'.tasks prev).cpuContext.sp = sp)
      (context : ∀ p, p ≠ prev → (k'.tasks p).cpuContext = (k.tasks p).cpuContext)

omit [Allocator H] in
theorem KeepsContexts.parks {registers : CpuContext} {curr : Nat} (kept : KeepsContexts k k')
    (isCurrent : k.current = some curr) (switched : schedule k' registers = some k'') :
    Parks k registers.sp k'' := by
  cases schedule_cases switched with
  | first noCurrent => cases noCurrent.symm.trans (kept.current.trans isCurrent)
  | stays => exact .stays kept.current kept.context
  | switches isCurrent' other runs _ saved context =>
      refine .switches (kept.current.symm.trans isCurrent') other runs (congrArg CpuContext.sp saved) ?_
      exact fun p different => (context p different).trans (kept.context p)

omit [Allocator H] in
theorem schedule_parks {registers : CpuContext} {curr : Nat} (isCurrent : k.current = some curr)
    (switched : schedule k registers = some k') : Parks k registers.sp k' :=
  KeepsContexts.parks ⟨rfl, fun _ => rfl, rfl⟩ isCurrent switched

omit [Allocator H] in
theorem exit_parks {registers : CpuContext} {curr : Nat} (isCurrent : k.current = some curr)
    (exited : exit k registers = some k') : Parks k registers.sp k' := by
  unfold exit at exited
  rw [isCurrent] at exited
  obtain ⟨k₁, first, exited⟩ := Option.bind_eq_some_iff.mp exited
  obtain ⟨k₂, second, switched⟩ := Option.bind_eq_some_iff.mp exited
  have removed := (KeepsContexts.rmThreadTask first).trans (KeepsContexts.rmThreadTask second)
  exact (removed.trans (.setState curr .exited)).parks isCurrent switched

omit [Allocator H] in
theorem kill_parks {pid : BitVec 32} {registers : CpuContext} {result : Int} {curr : Nat}
    (isCurrent : k.current = some curr) (killed : kill k pid registers = some (k', result)) :
    Parks k registers.sp k' := by
  unfold kill at killed
  obtain ⟨found, _, killed⟩ := Option.bind_eq_some_iff.mp killed
  cases found with
  | none =>
      cases killed
      exact .stays rfl fun _ => rfl
  | some task =>
      obtain ⟨k₁, first, killed⟩ := Option.bind_eq_some_iff.mp killed
      obtain ⟨k₂, second, killed⟩ := Option.bind_eq_some_iff.mp killed
      have removed := (KeepsContexts.rmThreadTask first).trans (KeepsContexts.rmThreadTask second)
      have exited : KeepsContexts k (k₂.setState task .exited) := removed.trans (.setState task .exited)
      dsimp only at killed
      split at killed
      · obtain ⟨k₃, switched, same⟩ := Option.bind_eq_some_iff.mp killed
        cases same
        exact exited.parks isCurrent switched
      · obtain ⟨k₃, added, same⟩ := Option.bind_eq_some_iff.mp killed
        cases same
        have kept := exited.trans (KeepsContexts.addThreadTask added).1
        exact .stays kept.current kept.context

omit [Allocator H] in
/-- A task that is added to a queue, and the other ones. -/
theorem addThreadTask_keeps {q : TaskQueue} {task : Nat} (added : addThreadTask k q task = some k')
    (p : Nat) : (k'.tasks p).kernelStack = (k.tasks p).kernelStack ∧
      (k'.tasks p).cpuContext = (k.tasks p).cpuContext := by
  have kernelStack := congrArg Task.kernelStack ((addThreadTask_untouched added).tasks p)
  exact ⟨kernelStack, (KeepsContexts.addThreadTask added).1.context p⟩

omit [Allocator H] in
/-- A new thread is built, then added to the ready queue. -/
theorem Builds.keeps {k₁ : Kernel H} {task : Nat} (builds : Builds k k₁ task)
    (added : addThreadTask k₁ .ready task = some k') {p : Nat} (other : p ≠ task) :
    (k'.tasks p).kernelStack = (k.tasks p).kernelStack ∧ (k'.tasks p).cpuContext = (k.tasks p).cpuContext := by
  have kept := addThreadTask_keeps added p
  rw [builds.others p other] at kept
  exact kept

/-- Whether or not there is memory for it, a new thread is no other one. -/
theorem allocThread_others {counter priority preemptCount : Int} (fresh : FreshTask k) {p : Nat}
    (member : p ∈ k.live) : (allocThread k counter priority preemptCount).1.tasks p = k.tasks p := by
  unfold allocThread Kernel.allocTask Kernel.alloc
  cases first : (k.toState.alloc taskSize).2 with
  | none => rfl
  | some task =>
      have other : p ≠ task := by
        rintro rfl
        exact fresh p first member
      dsimp only [enrol, Kernel.modify]
      cases ((k.toState.alloc taskSize).1.alloc threadStackSize).2 with
      | none => exact Function.update_of_ne other _ _
      | some kernelStack =>
          dsimp only
          cases (((k.toState.alloc taskSize).1.alloc threadStackSize).1.alloc threadStackSize).2 with
          | none =>
              dsimp only [Kernel.freeTask, Kernel.freePtr]
              rw [Function.update_of_ne other, Function.update_of_ne other]
          | some userStack =>
              dsimp only
              rw [Function.update_of_ne other, Function.update_of_ne other, Function.update_of_ne other]

theorem sysFork_stacks {frame frame' : TrapFrame} {currSp forkEnd : Word} {child : Option (Nat × TrapFrame)}
    (fresh : FreshTask k) (made : sysFork k frame currSp forkEnd = some (k', frame', child)) {p : Nat}
    (member : p ∈ k.live) (other : ∀ task, child.map Prod.fst = some task → p ≠ task) :
    (k'.tasks p).kernelStack = (k.tasks p).kernelStack ∧ (k'.tasks p).cpuContext = (k.tasks p).cpuContext := by
  unfold sysFork at made
  split at made
  · cases made
    exact ⟨rfl, rfl⟩
  · next parent _ =>
      dsimp only at made
      have others := @allocThread_others _ _ k (k.tasks parent).counter (k.tasks parent).priority
        (k.tasks parent).preemptCount fresh p member
      generalize allocThread k (k.tasks parent).counter (k.tasks parent).priority
        (k.tasks parent).preemptCount = pair at *
      obtain ⟨k₁, found⟩ := pair
      cases found with
      | none =>
          cases made
          exact ⟨congrArg Task.kernelStack others, congrArg Task.cpuContext others⟩
      | some task =>
          obtain ⟨⟨k₂, frames⟩, inited, same⟩ := Option.bind_eq_some_iff.mp made
          cases same
          obtain ⟨k₃, builds, _, added⟩ := forkInit_builds inited
          have kept := builds.keeps added (other task rfl)
          dsimp only at others
          rw [others] at kept
          exact kept

theorem threadCreate_stacks {callback : Word} {task p : Nat} (fresh : FreshTask k)
    (made : threadCreate k callback = some (k', some task)) (member : p ∈ k.live) (other : p ≠ task) :
    (k'.tasks p).kernelStack = (k.tasks p).kernelStack ∧ (k'.tasks p).cpuContext = (k.tasks p).cpuContext := by
  unfold threadCreate at made
  have others := @allocThread_others _ _ k defaultPriority defaultPriority 1 fresh p member
  generalize allocThread k defaultPriority defaultPriority 1 = pair at *
  obtain ⟨k₁, found⟩ := pair
  cases found with
  | none => cases made
  | some q =>
      obtain ⟨k₂, inited, same⟩ := Option.bind_eq_some_iff.mp made
      cases same
      obtain ⟨k₃, builds, _, added⟩ := threadInit_builds inited
      have kept := builds.keeps added other
      dsimp only at others
      rw [others] at kept
      exact kept

/-- A thread is created, and runs instead of its creator. -/
theorem threadCreate_launched {callback : Word} {p : Nat} (ordered : a.Ordered) (represents : Represents k a)
    (fresh : FreshTask k) (made : threadCreate k callback = some (k', some p)) :
    p ∉ a.live ∧ Represents { k' with current := some p } (a.exec p) := by
  cases threadCreate_refines ordered.toTidy represents fresh made with
  | made notLive represents' => exact ⟨notLive, { represents' with current := rfl }⟩

/-- After its image has been loaded, `exec` is a launch. -/
theorem exec_creates {execSize p : Nat} (made : exec k execSize = some (k', some p)) :
    ∃ k₁ callback, threadCreate (k.alloc execSize).1 callback = some (k₁, some p) ∧
      k' = { k₁ with current := some p } := by
  unfold exec at made
  split at made
  · cases made
  · generalize k.alloc execSize = pair at *
    obtain ⟨k₁, execAddr⟩ := pair
    cases execAddr with
    | none => cases made
    | some execAddr =>
        obtain ⟨⟨k₂, newThread⟩, created, rest⟩ := Option.bind_eq_some_iff.mp made
        obtain ⟨q, isSome, same⟩ := Option.bind_eq_some_iff.mp rest
        subst isSome
        cases same
        exact ⟨k₂, _, created, rfl⟩

theorem killZombiesLoop_tasks {fuel : Nat} {zombie : Option Nat}
    (reaped : killZombiesLoop fuel k zombie = some k') : k'.tasks = k.tasks := by
  induction fuel generalizing k zombie with
  | zero =>
      cases zombie with
      | none =>
          cases reaped
          rfl
      | some zombie => cases reaped
  | succ fuel ih =>
      cases zombie with
      | none =>
          cases reaped
          rfl
      | some zombie =>
          unfold killZombiesLoop popThreadTask at reaped
          dsimp only at reaped
          split at reaped
          · exact (ih reaped :)
          · exact (ih reaped :)

theorem killZombies_tasks (reaped : killZombies k = some k') : k'.tasks = k.tasks := by
  unfold killZombies popThreadTask at reaped
  dsimp only at reaped
  split at reaped
  · exact (killZombiesLoop_tasks reaped :)
  · exact (killZombiesLoop_tasks reaped :)

end Kept

theorem Threads.kill_live (a : Threads) (p : Nat) : (a.kill p).live = a.live := by
  unfold kill
  split
  · exact schedule_live _
  · rfl

/-! ## The invariant -/

omit [Allocator H] in
/-- Every stack returns to user mode at the top of a kernel stack, whether its thread runs or
not, and no thread has entered user mode anywhere else. -/
structure Steady (sys : StackSystem H) : Prop where
  ordered : ∃ a : Threads, a.Ordered ∧ Represents sys.kernel.toKernel a
  user : sys.el = .el0 → ∀ curr, sys.kernel.current = some curr →
    sys.spEl1 = (sys.kernel.tasks curr).kernelTop
  running : ∀ curr, sys.kernel.current = some curr →
    ReturnsTo (sys.kernel.tasks curr).kernelTop sys.spEl1 sys.frames
  parked : ∀ p ∈ sys.kernel.live,
    ReturnsTo (sys.kernel.tasks p).kernelTop (sys.kernel.tasks p).cpuContext.sp (sys.parked p)
  entered : ∀ p ∈ sys.kernel.live, ∀ first, sys.entered p = some first →
    first = (sys.kernel.tasks p).kernelTop

section Steps

variable {sys sys' : StackSystem H} {k : Kernel H} {a : Threads} {op : StackOp} {curr p : Nat} {sp : Word}

omit [Allocator H] in
theorem Represents.running_live (represents : Represents k a) (ordered : a.Ordered)
    (isCurrent : k.current = some curr) : curr ∈ k.live := by
  rw [represents.live, Option.some.inj (isCurrent.symm.trans represents.current)]
  exact ordered.currentLive

omit [Allocator H] in
theorem Steady.restored (steady : Steady sys) : sys.Restored := by
  intro user curr first isCurrent hasEntered
  obtain ⟨a, ordered, represents⟩ := steady.ordered
  have isLive := represents.running_live ordered isCurrent
  rw [steady.user user curr isCurrent, steady.entered curr isLive first hasEntered]

omit [Allocator H] in
/-- The kernel does something that concerns no stack. -/
theorem Steady.keep {kernel : SignalKernel H} (steady : Steady sys)
    (ordered : ∃ a : Threads, a.Ordered ∧ Represents kernel.toKernel a)
    (current : kernel.current = sys.kernel.current) (keeps : KeepsStacks sys.kernel.toKernel kernel.toKernel) :
    Steady { sys with kernel := kernel } := by
  have tops : ∀ q ∈ kernel.live, (kernel.tasks q).kernelTop = (sys.kernel.tasks q).kernelTop := by
    intro q member
    unfold Task.kernelTop
    rw [keeps.kernelStack q member]
  have isLive : ∀ q, kernel.current = some q → q ∈ kernel.live := by
    intro q isCurrent
    obtain ⟨a, ordered, represents⟩ := ordered
    exact represents.running_live ordered isCurrent
  constructor
  · exact ordered
  · intro user q isCurrent
    rw [tops q (isLive q isCurrent)]
    exact steady.user user q (current ▸ isCurrent)
  · intro q isCurrent
    rw [tops q (isLive q isCurrent)]
    exact steady.running q (current ▸ isCurrent)
  · intro q member
    show ReturnsTo (kernel.tasks q).kernelTop (kernel.tasks q).cpuContext.sp (sys.parked q)
    rw [tops q member, keeps.sp q member]
    exact steady.parked q (keeps.live q member)
  · intro q member
    rw [tops q member]
    exact steady.entered q (keeps.live q member)

omit [Allocator H] in
/-- The running thread goes on, or it is parked with its stack and another one goes on. -/
theorem Steady.switched {b : Threads} (steady : Steady sys) (kernel : sys.el = .el1)
    (ordered : b.Ordered) (represents : Represents k b) (live : k.live = sys.kernel.live)
    (kernelStack : ∀ p, (k.tasks p).kernelStack = (sys.kernel.tasks p).kernelStack)
    (parks : Parks sys.kernel.toKernel sys.spEl1 k) : Steady (sys.switched k) := by
  have tops : ∀ q, (k.tasks q).kernelTop = (sys.kernel.tasks q).kernelTop := by
    intro q
    unfold Task.kernelTop
    rw [kernelStack q]
  unfold StackSystem.switched
  cases parks with
  | stays current context =>
      have kept : Steady (sys.setKernel k) := by
        refine steady.keep ⟨b, ordered, represents⟩ current ⟨?_, ?_, ?_⟩
        · exact fun p member => live ▸ member
        · exact fun p _ => kernelStack p
        · exact fun p _ => congrArg CpuContext.sp (context p)
      rw [current]
      cases sys.kernel.current with
      | none => exact kept
      | some curr =>
          dsimp only
          rw [if_pos rfl]
          exact kept
  | @switches prev next isCurrent other runs saved context =>
      have isNext : next ∈ sys.kernel.live := live ▸ represents.running_live ordered runs
      rw [isCurrent, runs]
      dsimp only
      rw [if_neg other]
      constructor
      · exact ⟨b, ordered, represents⟩
      · exact fun user => absurd (kernel.symm.trans user) nofun
      · intro q isNext'
        cases runs.symm.trans isNext'
        show ReturnsTo (k.tasks next).kernelTop (k.tasks next).cpuContext.sp (sys.parked next)
        rw [tops, context next other]
        exact steady.parked next isNext
      · intro q member
        show ReturnsTo (k.tasks q).kernelTop (k.tasks q).cpuContext.sp
          (Function.update sys.parked prev sys.frames q)
        rw [tops]
        by_cases here : q = prev
        · subst here
          rw [Function.update_self, saved]
          exact steady.running q isCurrent
        · rw [Function.update_of_ne here, context q here]
          exact steady.parked q (live ▸ member)
      · intro q member
        show ∀ first, sys.entered q = some first → first = (k.tasks q).kernelTop
        rw [tops]
        exact steady.entered q (live ▸ member)

omit [Allocator H] in
/-- The stacks of the other threads, beside those of a new one. -/
structure AddsStack (k k' : Kernel H) (new : Nat) : Prop where
  fresh : new ∉ k.live
  live : k'.live = new :: k.live
  kept : ∀ p ∈ k.live, (k'.tasks p).kernelStack = (k.tasks p).kernelStack ∧
    (k'.tasks p).cpuContext = (k.tasks p).cpuContext

omit [Allocator H] in
theorem AddsStack.top {k k' : Kernel H} (adds : AddsStack k k' p) {q : Nat} (member : q ∈ k.live) :
    (k'.tasks q).kernelTop = (k.tasks q).kernelTop := by
  unfold Task.kernelTop
  rw [(adds.kept q member).1]

omit [Allocator H] in
/-- What holds of the new thread and of the old ones holds of all. -/
theorem AddsStack.forall {k k' : Kernel H} (adds : AddsStack k k' p) {P : Nat → Prop} (new : P p)
    (old : ∀ q ∈ k.live, q ≠ p → P q) : ∀ q ∈ k'.live, P q := by
  intro q member
  rw [adds.live] at member
  by_cases here : q = p
  · rw [here]
    exact new
  · exact old q ((List.mem_cons.mp member).resolve_left here) here

omit [Allocator H] in
theorem Steady.started {b : Threads} (steady : Steady sys) (ordered : b.Ordered)
    (represents : Represents k b) (isNew : b.current = p) (adds : AddsStack sys.kernel.toKernel k p) :
    Steady (sys.started k p) := by
  have current : ∀ q, k.current = some q → q = p := by
    intro q isCurrent
    rw [← isNew]
    exact Option.some.inj (isCurrent.symm.trans represents.current)
  constructor
  · exact ⟨b, ordered, represents⟩
  · intro _ q isCurrent
    rw [current q isCurrent]
    rfl
  · exact fun _ _ => trivial
  · refine adds.forall ?_ fun q member other => ?_
    · show ReturnsTo _ _ (Function.update sys.parked p [] p)
      rw [Function.update_self]
      trivial
    · show ReturnsTo (k.tasks q).kernelTop (k.tasks q).cpuContext.sp (Function.update sys.parked p [] q)
      rw [Function.update_of_ne other, adds.top member, (adds.kept q member).2]
      exact steady.parked q member
  · refine adds.forall ?_ fun q member other => ?_
    · intro first hasEntered
      have isTop : (sys.started k p).entered p = some (k.tasks p).kernelTop := Function.update_self _ _ _
      exact Option.some.inj (hasEntered.symm.trans isTop)
    · intro first hasEntered
      show first = (k.tasks q).kernelTop
      rw [adds.top member]
      exact steady.entered q member first ((Function.update_of_ne other _ _).symm.trans hasEntered)

omit [Allocator H] in
theorem Steady.forked {b : Threads} {frames : List StackFrame} (steady : Steady sys)
    (kernel : sys.el = .el1) (ordered : b.Ordered) (represents : Represents k b)
    (current : k.current = sys.kernel.current) (adds : AddsStack sys.kernel.toKernel k p)
    (copied : ReturnsTo (k.tasks p).kernelTop (k.tasks p).cpuContext.sp frames) :
    Steady (sys.forked k p frames) := by
  obtain ⟨a, ordered', represents'⟩ := steady.ordered
  have isOld : ∀ q, k.current = some q → q ∈ sys.kernel.live := fun q isCurrent =>
    represents'.running_live ordered' (current ▸ isCurrent)
  constructor
  · exact ⟨b, ordered, represents⟩
  · exact fun user => absurd (kernel.symm.trans user) nofun
  · intro q isCurrent
    show ReturnsTo (k.tasks q).kernelTop sys.spEl1 sys.frames
    rw [adds.top (isOld q isCurrent)]
    exact steady.running q (current ▸ isCurrent)
  · refine adds.forall ?_ fun q member other => ?_
    · show ReturnsTo _ _ (Function.update sys.parked p frames p)
      rw [Function.update_self]
      exact copied
    · show ReturnsTo (k.tasks q).kernelTop (k.tasks q).cpuContext.sp (Function.update sys.parked p frames q)
      rw [Function.update_of_ne other, adds.top member, (adds.kept q member).2]
      exact steady.parked q member
  · refine adds.forall ?_ fun q member other => ?_
    · intro first hasEntered
      have notYet : (sys.forked k p frames).entered p = none := Function.update_self _ _ _
      cases notYet.symm.trans hasEntered
    · intro first hasEntered
      show first = (k.tasks q).kernelTop
      rw [adds.top member]
      exact steady.entered q member first ((Function.update_of_ne other _ _).symm.trans hasEntered)

/-- A new thread that runs at once. -/
theorem Steady.launched {k₀ : Kernel H} {callback : Word} (steady : Steady sys)
    (tasks : k₀.tasks = sys.kernel.tasks) (live : k₀.live = sys.kernel.live)
    (represents : Represents k₀ a) (ordered : a.Ordered) (fresh : FreshTask k₀)
    (made : threadCreate k₀ callback = some (k, some p)) :
    Steady (sys.started { k with current := some p } p) := by
  obtain ⟨notLive, represents'⟩ := threadCreate_launched ordered represents fresh made
  have sameLive : sys.kernel.live = a.live := live.symm.trans represents.live
  refine steady.started (ordered.exec notLive) represents' rfl ⟨sameLive ▸ notLive, ?_, ?_⟩
  · rw [sameLive]
    exact represents'.live
  · intro q member
    have other : q ≠ p := fun same => notLive (sameLive ▸ same ▸ member)
    have kept := threadCreate_stacks fresh made (live.symm ▸ member) other
    rw [tasks] at kept
    exact kept

/-- A child, with its stack. -/
theorem Steady.fork {frame frame' childFrame : TrapFrame} {forkEnd : Word} {frames : List StackFrame}
    (steady : Steady sys) (kernel : sys.el = .el1) (fresh : FreshTask sys.kernel.toKernel)
    (made : sysFork sys.kernel.toKernel frame sys.spEl1 forkEnd = some (k, frame', some (p, childFrame)))
    (copied : frames = sys.frames) : Steady (sys.forked k p frames) := by
  obtain ⟨a, ordered, represents⟩ := steady.ordered
  obtain ⟨notLive, represents'⟩ : p ∉ a.live ∧ Represents k (a.create p) := by
    cases sysFork_refines ordered.toTidy represents fresh made with
    | made notLive represents' => exact ⟨notLive, represents'⟩
  have apart : p ≠ a.current := by
    rintro rfl
    exact notLive ordered.currentLive
  have adds : AddsStack sys.kernel.toKernel k p := by
    refine ⟨represents.live ▸ notLive, represents'.live.trans (congrArg (p :: ·) represents.live.symm), ?_⟩
    intro q member
    refine sysFork_stacks fresh made member fun task isChild => ?_
    cases isChild
    rintro rfl
    exact notLive (represents.live ▸ member)
  refine steady.forked kernel (ordered.create notLive) represents'
    (represents'.current.trans represents.current.symm) adds ?_
  obtain ⟨kernelStack, userStack, _, fields⟩ := sysFork_child represents.current made
  rw [fields apart, copied]
  have moved := (steady.running a.current represents.current).move
    (addr kernelStack - addr (sys.kernel.tasks a.current).kernelStack)
  unfold Task.kernelTop at moved ⊢
  dsimp only
  have place : ∀ b c d : Word, b + c + (d - b) = d + c := by
    intro b c d
    rw [add_swap, BitVec.add_comm b, BitVec.sub_add_cancel]
  have pointer : ∀ b c d : Word, c + (d - b) = d + (c - b) := by
    intro b c d
    rw [BitVec.sub_eq_add_neg, BitVec.sub_eq_add_neg, ← BitVec.add_assoc, ← BitVec.add_assoc,
      BitVec.add_comm c]
  rw [place, pointer] at moved
  exact moved

omit [Allocator H] in
/-- In kernel mode a frame is pushed or popped. -/
theorem Steady.onStack {el : Level} {frames : List StackFrame} (steady : Steady sys) (kernel : el = .el1)
    (returns : ∀ curr, sys.kernel.current = some curr →
      ReturnsTo (sys.kernel.tasks curr).kernelTop sp frames) :
    Steady { sys with el := el, spEl1 := sp, frames := frames } :=
  { steady with
    user := fun user => absurd (kernel.symm.trans user) nofun
    running := returns }

omit [Allocator H] in
/-- User mode is entered at the top of the kernel stack. -/
theorem Steady.enterUser (steady : Steady sys) (top : ∀ curr, sys.kernel.current = some curr →
    sys.spEl1 = (sys.kernel.tasks curr).kernelTop) : Steady sys.enterUser := by
  unfold StackSystem.enterUser
  cases isCurrent : sys.kernel.current with
  | none =>
      exact { steady with user := fun _ => top }
  | some curr =>
      refine { steady with user := fun _ => top, entered := fun q member first hasEntered => ?_ }
      by_cases here : q = curr
      · subst here
        have isFirst : (sys.entered q).getD sys.spEl1 = first :=
          Option.some.inj ((Function.update_self q _ sys.entered).symm.trans hasEntered)
        rw [← isFirst]
        cases before : sys.entered q with
        | none => exact top q isCurrent
        | some old => exact steady.entered q member old before
      · exact steady.entered q member first ((Function.update_of_ne here _ _).symm.trans hasEntered)

omit [Allocator H] in
/-- An exception returns. -/
theorem Steady.loadAll (steady : Steady sys) (returned : sys.loadAll = some sys') : Steady sys' := by
  unfold StackSystem.loadAll at returned
  split at returned
  · next spsrEl1 frames shape =>
      dsimp only at returned
      have popped : ∀ curr, sys.kernel.current = some curr →
          (level spsrEl1 = some .el0 → sys.spEl1 + (StackFrame.trap spsrEl1).size =
            (sys.kernel.tasks curr).kernelTop) ∧
          ReturnsTo (sys.kernel.tasks curr).kernelTop (sys.spEl1 + (StackFrame.trap spsrEl1).size) frames := by
        intro curr isCurrent
        have returns := steady.running curr isCurrent
        rw [shape] at returns
        exact ⟨returns.1 spsrEl1 rfl, returns.2⟩
      have below := steady.onStack (show Level.el1 = .el1 from rfl) fun curr isCurrent => (popped curr isCurrent).2
      split at returned
      · next toUser =>
          cases returned
          exact below.enterUser fun curr isCurrent => (popped curr isCurrent).1 toUser
      · cases returned
        exact below
      · cases returned
  · cases returned

theorem Steady.step (steady : Steady sys) (ok : Unwinds sys op) (stepped : StackStep sys op sys') :
    Steady sys' := by
  obtain ⟨a, ordered, represents⟩ := steady.ordered
  have bases : ∀ {k : Kernel H}, Untouched sys.kernel.toKernel k →
      ∀ p, (k.tasks p).kernelStack = (sys.kernel.tasks p).kernelStack := by
    intro k untouched p
    have same := congrArg Task.kernelStack (untouched.tasks p)
    exact same
  cases stepped with
  | exception mode =>
      refine steady.onStack rfl fun curr isCurrent => ?_
      refine (steady.running curr isCurrent).trap fun fromUser => ?_
      rw [mode] at fromUser
      exact steady.user (Option.some.inj fromUser) curr isCurrent
  | call el => exact steady.onStack el fun curr isCurrent => (steady.running curr isCurrent).call
  | ret el shape =>
      refine steady.onStack el fun curr isCurrent => ?_
      have returns := steady.running curr isCurrent
      rw [shape] at returns
      exact returns.2
  | eret el returned => exact steady.loadAll returned
  | schedule el sp done =>
      obtain ⟨k', done', represents'⟩ := schedule_refines ordered represents _
      cases done.symm.trans done'
      refine steady.switched el ordered.schedule represents' ?_ (bases (schedule_untouched done)) ?_
      · exact represents'.live.trans (a.schedule_live.trans represents.live.symm)
      · exact sp ▸ schedule_parks represents.current done
  | exit el sp done =>
      obtain ⟨k', done', represents'⟩ := exit_refines ordered represents _
      cases done.symm.trans done'
      refine steady.switched el ordered.exit represents' ?_ (bases (exit_untouched done)) ?_
      · exact represents'.live.trans (a.exit_live.trans represents.live.symm)
      · exact sp ▸ exit_parks represents.current done
  | kill el sp done =>
      obtain ⟨k', result, done', outcome⟩ := kill_refines ordered represents _ _
      cases done.symm.trans done'
      have parks := sp ▸ kill_parks represents.current done
      cases outcome with
      | missed _ same =>
          exact steady.switched el ordered (same ▸ represents) (same ▸ rfl) (bases (kill_untouched done)) parks
      | @hit p ready _ represents' =>
          refine steady.switched el (ordered.kill ready) represents' ?_ (bases (kill_untouched done)) parks
          rw [represents'.live, represents.live]
          exact a.kill_live p
  | killZombies el done =>
      obtain ⟨k', done', represents'⟩ := killZombies_refines ordered represents
      cases done.symm.trans done'
      have tasks := killZombies_tasks done
      refine steady.keep ⟨_, ordered.reap, represents'⟩ (represents'.current.trans represents.current.symm)
        ⟨fun p member => ?_, fun p _ => congrArg (fun t => (t p).kernelStack) tasks,
          fun p _ => congrArg (fun t => (t p).cpuContext.sp) tasks⟩
      rw [represents'.live] at member
      rw [represents.live]
      exact List.diff_subset _ _ member
  | fork el fresh made copied => exact steady.fork el fresh made (copied ok)
  | forkFails el fresh failed =>
      cases sysFork_refines ordered.toTidy represents fresh failed with
      | failed same represents' =>
          have sameLive := represents'.live.trans represents.live.symm
          refine steady.keep ⟨_, ordered.rest same, represents'⟩
            (represents'.current.trans represents.current.symm) ⟨fun p member => sameLive ▸ member, ?_, ?_⟩
          · exact fun p member => (sysFork_stacks fresh failed (sameLive ▸ member) nofun).1
          · intro p member
            exact congrArg CpuContext.sp (sysFork_stacks fresh failed (sameLive ▸ member) nofun).2
  | @exec k execSize p el fresh made =>
      obtain ⟨k₁, callback, created, same⟩ := exec_creates made
      rw [same]
      have loaded := represents.alloc execSize
      refine steady.launched ?_ ?_ loaded ordered fresh created
      · rfl
      · rfl
  | launch el fresh made => exact steady.launched rfl rfl represents ordered fresh made
  | deliver => exact absurd ok id
  | @sigreturn frame el =>
      have returned := sysSigreturn_frame (k := sys.kernel) represents.current frame
      have status : (ofWords (sys.kernel.area a.current)).spsrEl1 = sys.kernel.area a.current 32 := rfl
      rw [returned, status]
      unfold sysSigreturn
      rw [represents.current]
      have freed : Steady { sys with kernel := { sys.kernel with
          toKernel := sys.kernel.toKernel.freePtr (handlerStack (sys.kernel.tasks a.current)) } } :=
        steady.keep ⟨a, ordered, represents.freePtr _⟩ rfl
          ⟨fun _ member => member, fun _ _ => rfl, fun _ _ => rfl⟩
      refine freed.onStack el fun curr isCurrent => ?_
      cases isCurrent.symm.trans represents.current
      refine (steady.running a.current represents.current).setSpsr fun toUser stop isEnd => ?_
      exact Option.some.inj (isEnd.symm.trans (ok a.current represents.current toUser a.current represents.current))
  | @rest s tasks tail el same =>
      obtain ⟨b, moves, represents'⟩ := (Step.rest (k := sys.kernel.toKernel) (s := s)
        fun p member => ⟨(same p member).state, (same p member).next⟩).refines ordered represents
      refine steady.keep ⟨b, moves.ordered ordered, represents'⟩ rfl ⟨fun _ member => member, ?_, ?_⟩
      · exact fun p member => (same p member).kernelStack
      · exact fun p member => (same p member).sp

theorem BootStack.steady (boot : BootStack sys) : Steady sys := by
  obtain ⟨a, ordered, represents, _⟩ := boot.booted.represented
  constructor
  · exact ⟨a, ordered, represents⟩
  · exact fun user => absurd (boot.el.symm.trans user) nofun
  · intro curr _
    rw [boot.frames]
    trivial
  · intro p _
    rw [boot.parked]
    trivial
  · intro p _ first hasEntered
    rw [boot.entered] at hasEntered
    cases hasEntered

theorem StackRun.trans {allowed : StackSystem H → StackOp → Prop} {start mid : StackSystem H}
    (first : StackRun allowed start mid) (second : StackRun allowed mid sys) : StackRun allowed start sys := by
  induction second with
  | refl => exact first
  | step _ ok stepped ih => exact ih.step ok stepped

theorem StackRun.steady {start : StackSystem H} (boot : BootStack start) (run : StackRun Unwinds start sys) :
    Steady sys := by
  induction run with
  | refl => exact boot.steady
  | step _ ok stepped ih => exact ih.step ok stepped

omit [Allocator H] in
theorem enterUser_eq (isCurrent : sys.kernel.current = some curr) : sys.enterUser = { sys with
    el := .el0
    entered := Function.update sys.entered curr (some ((sys.entered curr).getD sys.spEl1)) } := by
  unfold StackSystem.enterUser
  rw [isCurrent]

/-- A custom handler runs in user mode on the stack pointer of the call that delivers to it. -/
theorem StackStep.delivered {first : Word} (stepped : StackStep sys .deliver sys')
    (isCurrent : sys.kernel.current = some curr) (hasEntered : sys.entered curr = some first) :
    sys'.Restored ↔ sys.spEl1 = first := by
  cases stepped with
  | @deliver k _ task sig _ _ _ el _ round =>
      have current : k.current = some curr := by
        unfold checkPendingRound at round
        split at round
        · obtain ⟨handler, same⟩ := handleSignal_entered round
          rw [same]
          exact isCurrent
        · cases round
      have whole : StackSystem.enterUser { sys with kernel := k, frames := [] } = _ := enterUser_eq current
      rw [hasEntered] at whole
      unfold StackSystem.delivered
      rw [whole]
      have isFirst : Function.update sys.entered curr (some first) curr = some first := Function.update_self _ _ _
      constructor
      · exact fun restored => restored rfl curr first current isFirst
      · intro same _ q first' isCurrent' hasEntered'
        cases current.symm.trans isCurrent'
        cases isFirst.symm.trans hasEntered'
        exact same

omit [Allocator H] in
/-- In an exception from user mode `fork` and `sigreturn` leave no frames behind. -/
theorem Steady.unwinds (steady : Steady sys) (fromUser : (innermost sys.frames).bind level = some .el0)
    (notDelivery : op ≠ .deliver) : Unwinds sys op := by
  have atTop : sys.TrapAtTop := fun curr isCurrent => (steady.running curr isCurrent).trapEnd fromUser
  cases op with
  | deliver => exact notDelivery rfl
  | fork => exact atTop
  | sigreturn => exact fun _ _ _ => atTop
  | _ => trivial

/-- As long as no custom handler runs.  A delivery in an exception from user mode keeps the stack
pointer only if the frames up to the trap frame take no space. -/
theorem run_restores_sp {start : StackSystem H} (boot : BootStack start) (run : StackRun Unwinds start sys) :
    sys.Restored ∧ ∀ (sys' : StackSystem H) (curr : Nat) (first : Word), StackStep sys .deliver sys' →
      sys.kernel.current = some curr → sys.entered curr = some first →
        (innermost sys.frames).bind level = some .el0 →
          (sys'.Restored ↔ trapEnd sys.spEl1 sys.frames = some sys.spEl1) := by
  have steady := run.steady boot
  refine ⟨steady.restored, fun sys' curr first stepped isCurrent hasEntered fromUser => ?_⟩
  obtain ⟨a, ordered, represents⟩ := steady.ordered
  have isLive := represents.running_live ordered isCurrent
  rw [stepped.delivered isCurrent hasEntered, (steady.running curr isCurrent).trapEnd fromUser,
    steady.entered curr isLive first hasEntered, Option.some.injEq]
  exact eq_comm

end Steps

/-! ## A first delivery -/

section Delivery

variable {sys : StackSystem H} {p : Nat}

omit [Allocator H] in
/-- A system call that only works on the kernel returns to where it came from. -/
theorem loadAll_saveAll (kernel : SignalKernel H) (user : sys.el = .el0) (isCurrent : kernel.current = some p)
    (hasEntered : sys.entered p = some sys.spEl1) :
    StackSystem.loadAll { sys.saveAll 0 with kernel := kernel } = some { sys with kernel := kernel } := by
  have toUser : level 0 = some .el0 := by decide
  unfold StackSystem.loadAll StackSystem.saveAll
  dsimp only
  rw [toUser]
  dsimp only
  rw [enterUser_eq isCurrent, BitVec.sub_add_cancel]
  dsimp only
  rw [hasEntered, Option.getD_some, Function.update_eq_self_iff.mpr hasEntered.symm, ← user]

/-- Fields of one task are written that concern neither the scheduler nor the stacks. -/
theorem StackStep.modify {f : Task → Task} (el : sys.el = .el1) (same : ∀ t, SameThread t (f t)) :
    StackStep sys .rest (sys.setKernel (sys.kernel.toKernel.modify p f)) := by
  refine .rest el fun q _ => ?_
  by_cases here : q = p
  · subst here
    rw [Function.update_self]
    exact same _
  · rw [Function.update_of_ne here]
    exact ⟨rfl, rfl, rfl, rfl⟩

/-- A whole system call of the running program. -/
theorem modify_run {allowed : StackSystem H → StackOp → Prop} {f : Task → Task}
    (ok : ∀ sys, allowed sys .exception ∧ allowed sys .rest ∧ allowed sys .eret) (user : sys.el = .el0) (isCurrent : sys.kernel.current = some p)
    (hasEntered : sys.entered p = some sys.spEl1) (same : ∀ t, SameThread t (f t)) :
    StackRun allowed sys (sys.setKernel (sys.kernel.toKernel.modify p f)) := by
  have mode : level 0 = some sys.el := by
    rw [user]
    decide
  have called : StackRun allowed sys (sys.saveAll 0) := .step .refl (ok _).1 (.exception mode)
  have written : StackStep (sys.saveAll 0) .rest ((sys.saveAll 0).setKernel (sys.kernel.toKernel.modify p f)) :=
    .modify rfl same
  have returned := loadAll_saveAll { sys.kernel with toKernel := sys.kernel.toKernel.modify p f } user
    isCurrent hasEntered
  exact (called.step (ok _).2.1 written).step (ok _).2.2 (.eret rfl returned)

omit [Allocator H] in
/-- In the next system call of the program. -/
theorem inCall_of {f : Task → Task} {first : Word} (isCurrent : sys.kernel.current = some p)
    (hasEntered : sys.entered p = some first) :
    let inCall := ((sys.setKernel (sys.kernel.toKernel.modify p f)).saveAll 0).call 64
    inCall.kernel.current = some p ∧ inCall.entered p = some first ∧
      (innermost inCall.frames).bind level = some .el0 ∧
        trapEnd inCall.spEl1 inCall.frames ≠ some inCall.spEl1 := by
  have toUser : level 0 = some .el0 := by decide
  refine ⟨isCurrent, hasEntered, toUser, fun same => ?_⟩
  have ends : sys.spEl1 - 272 - 64 + 64 + 272 = sys.spEl1 - 272 - 64 := Option.some.inj same
  bv_omega

/-- A signal that is pending and has a handler of the program. -/
theorem checkPendingRound_custom {k : SignalKernel H} {sig : Fin sigNum} {handler : Word} (wrapper : Word)
    (frame : TrapFrame) (registers : CpuContext) (isCustom : (k.tasks p).sigHandlers sig = .custom handler)
    (pending : (k.tasks p).pendingSig &&& sigBit sig ≠ 0) :
    ∃ k' entry, checkPendingRound wrapper k p sig frame registers = some (k', .entered entry) := by
  unfold checkPendingRound
  rw [if_pos pending]
  let cleared := k.toKernel.modify p fun t => { t with pendingSig := t.pendingSig &&& ~~~sigBit sig }
  have stillCustom : (cleared.tasks p).sigHandlers sig = .custom handler :=
    (congrArg (fun t => t.sigHandlers sig) (modify_self _ _ _)).trans isCustom
  exact ⟨_, _, @handleSignal_custom _ _ { k with toKernel := cleared } p wrapper handler frame sig registers
    stillCustom⟩

/-- A program that sends itself a signal for which it has a handler has less of its kernel stack
from then on. -/
theorem delivery_lowers (user : sys.el = .el0) (isCurrent : sys.kernel.current = some p)
    (hasEntered : sys.entered p = some sys.spEl1) :
    ∃ sys', StackRun (fun _ _ => True) sys sys' ∧ ¬ sys'.Restored := by
  let installs : Task → Task := fun t =>
    { t with sigHandlers := Function.update t.sigHandlers 1 (.custom 0x80000) }
  let raises : Task → Task := fun t => { t with pendingSig := t.pendingSig ||| sigBit 1 }
  let ready := sys.setKernel (sys.kernel.toKernel.modify p installs)
  let raised := (ready.saveAll 0).setKernel (ready.kernel.toKernel.modify p raises)
  have mode : level 0 = some ready.el := by
    show level 0 = some sys.el
    rw [user]
    decide
  have installed : StackRun (fun _ _ => True) sys ready :=
    modify_run (fun _ => ⟨trivial, trivial, trivial⟩) user isCurrent hasEntered
      fun _ => ⟨rfl, rfl, rfl, rfl⟩
  have written : StackStep (ready.saveAll 0) .rest raised := .modify rfl fun _ => ⟨rfl, rfl, rfl, rfl⟩
  have sent : StackRun (fun _ _ => True) sys (raised.call 64) :=
    ((installed.step trivial (.exception mode)).step trivial written).step trivial (.call rfl)
  have isRaised : raised.kernel.tasks p = raises (installs (sys.kernel.tasks p)) :=
    (modify_self _ _ _).trans (congrArg raises (modify_self _ _ _))
  have isCustom : (raised.kernel.tasks p).sigHandlers 1 = .custom 0x80000 := by
    rw [isRaised]
    show Function.update (sys.kernel.tasks p).sigHandlers 1 (.custom 0x80000) 1 = .custom 0x80000
    rw [Function.update_self]
  have pending : (raised.kernel.tasks p).pendingSig &&& sigBit 1 ≠ 0 := by
    rw [isRaised, and_sigBit_ne_zero (by decide)]
    exact (getLsbD_raised (by decide)).mpr (Or.inl rfl)
  obtain ⟨k, entry, round⟩ :=
    checkPendingRound_custom 0x1000 blankFrame .zero isCustom pending
  have delivers : StackStep (raised.call 64) .deliver ((raised.call 64).delivered k) :=
    .deliver rfl isCurrent round
  refine ⟨_, sent.step trivial delivers, ?_⟩
  rw [delivers.delivered isCurrent hasEntered]
  show ¬ sys.spEl1 - 272 - 64 = sys.spEl1
  bv_omega

omit [Allocator H] in
/-- The kernel has booted, on the first stack. -/
def atBoot (k : Kernel H) (sp : Word) : StackSystem H where
  kernel := { toKernel := k, tail := fun _ _ => 0 }
  el := .el1
  spEl1 := sp
  frames := []
  parked _ := []
  entered _ := none

theorem atBoot_boot {k : Kernel H} (booted : Booted k) (sp : Word) : BootStack (atBoot k sp) :=
  ⟨booted, rfl, rfl, rfl, rfl⟩

/-- The first program. -/
theorem atBoot_exec {k k' : Kernel H} {execSize : Nat} (fresh : FreshTask (k.alloc execSize).1) (sp : Word)
    (made : exec k execSize = some (k', some p)) {allowed : StackSystem H → StackOp → Prop}
    (ok : allowed (atBoot k sp) .exec) :
    StackRun allowed (atBoot k sp) ((atBoot k sp).started k' p) ∧
      ((atBoot k sp).started k' p).kernel.current = some p ∧
        ((atBoot k sp).started k' p).entered p = some (k'.tasks p).kernelTop := by
  obtain ⟨k₁, _, _, same⟩ := exec_creates made
  refine ⟨.step .refl ok (.exec rfl fresh made), ?_, Function.update_self _ _ _⟩
  rw [same]
  rfl

end Delivery

open Fs (BootHeap)

def firstProgram : Nat := firstExec.2.get firstExec_isSome

/-- The first program runs in user mode. -/
def programRuns : StackSystem BootHeap :=
  (atBoot started (BitVec.ofNat 64 Kmem.smallImage.stackTop)).started firstExec.1 firstProgram

theorem programRuns_run {allowed : StackSystem BootHeap → StackOp → Prop}
    (ok : allowed (atBoot started (BitVec.ofNat 64 Kmem.smallImage.stackTop)) .exec) :
    StackRun allowed (atBoot started (BitVec.ofNat 64 Kmem.smallImage.stackTop)) programRuns ∧
      programRuns.kernel.current = some firstProgram ∧
        programRuns.entered firstProgram = some (firstExec.1.tasks firstProgram).kernelTop := by
  have fresh : FreshTask (started.alloc 4096).1 := freshTask_of (by decide +kernel)
  have made : exec started 4096 = some (firstExec.1, some firstProgram) := by
    have isSome : firstExec.2 = some firstProgram := (Option.some_get _).symm
    have whole : exec started 4096 = some firstExec := (Option.some_get _).symm
    rw [whole, ← isSome]
  exact atBoot_exec fresh _ made ok

/-- It has called `signal`. -/
def signalCalled : StackSystem BootHeap :=
  programRuns.setKernel (setHandler programRuns.kernel.toKernel firstProgram someSignal (.custom 0x80000))

/-- It calls the kernel again. -/
def calledAgain : StackSystem BootHeap := (signalCalled.saveAll 0).call 64

/-- The first call has returned with the stack pointer of the entry, and a delivery in the second
one would not. -/
theorem run_restores_sp_program : signalCalled.Restored ∧ signalCalled.el = .el0 ∧
    ∀ sys' : StackSystem BootHeap, StackStep calledAgain .deliver sys' → ¬ sys'.Restored := by
  obtain ⟨begun, isCurrent, hasEntered⟩ := @programRuns_run Unwinds trivial
  have called : StackRun Unwinds programRuns signalCalled :=
    modify_run (fun _ => ⟨trivial, trivial, trivial⟩) rfl isCurrent hasEntered
      fun _ => ⟨rfl, rfl, rfl, rfl⟩
  have traps : StackStep signalCalled .exception (signalCalled.saveAll 0) := .exception (by decide)
  have enters : StackStep (signalCalled.saveAll 0) .call calledAgain := .call rfl
  have trapped := @StackRun.step _ _ Unwinds _ _ _ .exception (begun.trans called) trivial traps
  have again := @StackRun.step _ _ Unwinds _ _ _ .call trapped trivial enters
  have boot : BootStack (atBoot started (BitVec.ofNat 64 Kmem.smallImage.stackTop)) :=
    atBoot_boot started_booted _
  refine ⟨(run_restores_sp boot (begun.trans called)).1, rfl, fun sys' stepped => ?_⟩
  obtain ⟨stillCurrent, stillEntered, fromUser, lower⟩ : calledAgain.kernel.current = some firstProgram ∧
      calledAgain.entered firstProgram = some (firstExec.1.tasks firstProgram).kernelTop ∧
        (innermost calledAgain.frames).bind level = some .el0 ∧
          trapEnd calledAgain.spEl1 calledAgain.frames ≠ some calledAgain.spEl1 :=
    inCall_of isCurrent hasEntered
  obtain ⟨_, delivered⟩ := run_restores_sp boot again
  rw [delivered sys' firstProgram _ stepped stillCurrent stillEntered fromUser]
  exact lower

/-- The first program sends itself a signal. -/
theorem delivery_keeps_frames : ∃ start sys : StackSystem BootHeap, BootStack start ∧
    StackRun (fun _ _ => True) start sys ∧ ¬ sys.Restored := by
  obtain ⟨run, isCurrent, hasEntered⟩ := @programRuns_run (fun _ _ => True) trivial
  obtain ⟨sys, later, wrong⟩ := delivery_lowers rfl isCurrent hasEntered
  exact ⟨_, sys, atBoot_boot started_booted _, run.trans later, wrong⟩

end OsdiKernel.Sched
