import OsdiKernel.Sched.Lifetimes
import OsdiKernel.Sched.Stacks

/-!
# New threads when memory runs out

`thread_create` and `sys_fork` undo their work when a stack cannot be allocated.  `thread_create`
does not check the allocation of the signal frame nor the opens of the standard files,
`sys_fork` sets neither, and `_exec` uses the result that stands for a failure.
-/

namespace OsdiKernel.Sched

open Allocator (Holds)
open Fs (FileOps Graph)

variable {H : Type} [Allocator H]

/-! ## What the heap serves -/

/-- The heap serves the task and both stacks. -/
def ThreadServed (s : Fs.State H) : Prop := ∃ task ks us, ThreadMemory s task (some ks) (some us)

/-- The state after these allocations. -/
def afterStacks (s : Fs.State H) : Fs.State H :=
  (((s.alloc taskSize).1.alloc threadStackSize).1.alloc threadStackSize).1

/-- The structure of an open file, of which a device allocates one more, and whether the last
allocation has succeeded. -/
def serveFile (ops : FileOps) (h : H) : H × Bool :=
  let (h, file) := Allocator.alloc h Fs.fileSize
  if ops.isDevice then
    let (h, file) := Allocator.alloc h Fs.fileSize
    (h, file.isSome)
  else (h, file.isSome)

/-- The allocations of `vfs_open`, which starts with a copy of the path. -/
def serveOpen (ops : FileOps) (h : H) : H × Bool :=
  match Allocator.alloc h (uartPath.length + 1) with
  | (h, none) => (h, false)
  | (h, some pathCopy) => serveFile ops (Allocator.free h pathCopy)

omit [Allocator H] in
/-- The path of the standard files leads to a vnode with operations. -/
def Openable (g : Graph) (ops : FileOps) : Prop :=
  ∃ v, Fs.resolve g none uartPath = some (0, some v) ∧ (g.vnodes v).fOps = some ops

/-- The heap serves everything that `thread_create` allocates for a task with stacks. -/
def FullyServed (ops : FileOps) (h : H) : Prop :=
  (Allocator.alloc h trapFrameSize).2 ≠ none ∧
    let h := (Allocator.alloc h trapFrameSize).1
    (serveOpen ops h).2 ∧ (serveOpen ops (serveOpen ops h).1).2 ∧
      (serveOpen ops (serveOpen ops (serveOpen ops h).1).1).2

/-! ## The contract -/

/-- The pointers of a task that is used. -/
structure Equipped (t : Task) : Prop where
  kernelStack : t.kernelStack ≠ none
  userStack : t.userStack ≠ none
  sigFrame : t.sigFrame ≠ none
  stdin : t.fdTable 0 ≠ none
  stdout : t.fdTable 1 ≠ none
  stderr : t.fdTable 2 ≠ none

/-- The same pointers are in use, and the queues are the same. -/
structure Undone (k k' : Kernel H) : Prop where
  current : k'.current = k.current
  queues : ∀ q nodes, Queue.Chain k.next (k.head q) nodes → Queue.Chain k'.next (k'.head q) nodes
  holds : ∀ live, Holds k.heap live → Holds k'.heap live

/-- A task is made, or nothing is. -/
def AllOrNothing (k k' : Kernel H) : Option Nat → Prop
  | some task => Equipped (k'.tasks task) ∧ Appended k k' task
  | none => Undone k k'

def CreatesWhole (k : Kernel H) (callback : Word) : Prop :=
  ∃ k' result, threadCreate k callback = some (k', result) ∧ AllOrNothing k k' result

def ForksWhole (k : Kernel H) (frame : TrapFrame) (currSp forkEnd : Word) : Prop :=
  ∃ k' frame' child, sysFork k frame currSp forkEnd = some (k', frame', child) ∧
    AllOrNothing k k' (child.map Prod.fst) ∧ (child = none → frame'.x 0 = -1)

/-- A call of `_exec` that cannot create the thread returns, and the image is released. -/
def ExecReturns (k : Kernel H) (execSize : Nat) : Prop :=
  ∀ image k₂, execSize ≠ 0 → (k.alloc execSize).2 = some image →
    threadCreate (k.alloc execSize).1 (addr (some image)) = some (k₂, none) →
      ∃ k', exec k execSize = some (k', none) ∧ Undone k k'

section Opening

variable {s s' : Fs.State H} {ops : FileOps} {result : Int} {target : Option Nat}

theorem openVnode_served {v flags : Nat} (isOps : (s.vnodes v).fOps = some ops) :
    ∃ s' result target, Fs.openVnode s (some v) flags = some (s', result, target) ∧
      s'.toGraph = s.toGraph ∧ s'.heap = (serveFile ops s.heap).1 ∧
        (target ≠ none ↔ (serveFile ops s.heap).2) := by
  have vnode : (s.alloc Fs.fileSize).1.vnodes = s.vnodes := rfl
  unfold Fs.openVnode serveFile
  dsimp only [Option.bind_eq_bind, Option.bind_some]
  rw [vnode, isOps]
  rw [Option.bind_some]
  cases isDevice : ops.isDevice with
  | false =>
      have opens : ∀ (s : Fs.State H) (file : Option Nat), ops.open s v file = Fs.openNode s v file := by
        intro s file
        cases ops <;> first | rfl | cases isDevice
      rw [opens]
      unfold Fs.State.alloc
      obtain ⟨h, file⟩ := Allocator.alloc s.heap Fs.fileSize
      cases file with
      | none => exact ⟨_, _, _, rfl, rfl, rfl, by simp [Fs.openNode]⟩
      | some f => exact ⟨_, _, _, rfl, rfl, rfl, by simp⟩
  | true =>
      obtain ⟨device, opens⟩ : ∃ device, ∀ (s : Fs.State H) (file : Option Nat),
          ops.open s v file = Fs.openDevice s v device := by
        cases ops <;> first | exact ⟨_, fun _ _ => rfl⟩ | cases isDevice
      rw [opens]
      unfold Fs.State.alloc
      obtain ⟨h, first⟩ := Allocator.alloc s.heap Fs.fileSize
      unfold Fs.openDevice Fs.State.alloc
      dsimp only
      obtain ⟨h', file⟩ := Allocator.alloc h Fs.fileSize
      cases file with
      | none => exact ⟨_, _, _, rfl, rfl, rfl, by simp⟩
      | some f => exact ⟨_, _, _, rfl, rfl, rfl, by simp⟩

/-- An open of a file that is there depends on the heap only. -/
theorem vfsOpen_served (openable : Openable s.toGraph ops) :
    ∃ s' result target, Fs.vfsOpen s none uartPath 0 = some (s', result, target) ∧
      s'.toGraph = s.toGraph ∧ s'.heap = (serveOpen ops s.heap).1 ∧
        (target ≠ none ↔ (serveOpen ops s.heap).2) := by
  obtain ⟨v, resolved, isOps⟩ := openable
  unfold Fs.vfsOpen Fs.vfsLookup serveOpen Fs.State.alloc
  obtain ⟨h, pathCopy⟩ := Allocator.alloc s.heap (uartPath.length + 1)
  cases pathCopy with
  | none => exact ⟨_, _, _, rfl, rfl, rfl, by simp⟩
  | some pathCopy =>
      dsimp only
      rw [resolved]
      exact @openVnode_served _ _ { s with heap := Allocator.free h pathCopy } ops v 0 isOps

/-- No other file can be opened. -/
theorem vfsOpen_openable {f : Nat} (opened : Fs.vfsOpen s none uartPath 0 = some (s', result, some f)) :
    ∃ ops, Openable s.toGraph ops := by
  unfold Fs.vfsOpen at opened
  obtain ⟨⟨s₁, found, v⟩, looked, opened⟩ := Option.bind_eq_some_iff.mp opened
  unfold Fs.vfsLookup at looked
  split at looked
  · cases looked
    cases opened
  · next s₂ pathCopy allocated =>
      obtain ⟨⟨found', v'⟩, resolved, same⟩ := Option.bind_eq_some_iff.mp looked
      cases same
      have graph : s₂.toGraph = s.toGraph := by
        have same := Fs.alloc_toGraph s (uartPath.length + 1)
        rw [allocated] at same
        exact same
      dsimp only at opened
      split at opened
      · cases opened
      · next isFound =>
          obtain ⟨u, isVnode, opened⟩ := Option.bind_eq_some_iff.mp opened
          obtain ⟨ops, isOps, _⟩ := Option.bind_eq_some_iff.mp opened
          cases isVnode
          rw [not_not.mp isFound, graph] at resolved
          refine ⟨ops, u, resolved, ?_⟩
          rw [← graph]
          exact isOps

end Opening

/-! ## The beginning of a thread -/

section Threads

variable {k k' : Kernel H} {counter priority preemptCount : Int} {task : Nat}

/-- Whether a thread gets its memory depends on the heap only. -/
theorem allocThread_served (served : ThreadServed k.toState) :
    ∃ k₁ task, allocThread k counter priority preemptCount = (k₁, some task) ∧
      k₁.toState = afterStacks k.toState := by
  obtain ⟨task, ks, us, first, second, third⟩ := served
  unfold allocThread Kernel.allocTask Kernel.alloc
  rw [first]
  dsimp only [enrol, Kernel.modify]
  rw [second]
  dsimp only
  rw [third]
  exact ⟨_, _, rfl, rfl⟩

theorem allocThread_none_iff :
    (allocThread k counter priority preemptCount).2 = none ↔ ¬ ThreadServed k.toState := by
  constructor
  · intro failed served
    obtain ⟨k₁, task, made, _⟩ := @allocThread_served _ _ k counter priority preemptCount served
    rw [made] at failed
    cases failed
  · intro notServed
    unfold allocThread Kernel.allocTask Kernel.alloc
    cases first : (k.toState.alloc taskSize).2 with
    | none => rfl
    | some task =>
        dsimp only [enrol, Kernel.modify]
        cases second : ((k.toState.alloc taskSize).1.alloc threadStackSize).2 with
        | none => rfl
        | some ks =>
            dsimp only
            cases third : (((k.toState.alloc taskSize).1.alloc threadStackSize).1.alloc threadStackSize).2 with
            | none => rfl
            | some us => exact absurd ⟨task, ks, us, first, second, third⟩ notServed

/-- A thread that is made has its stacks. -/
theorem allocThread_some {k₁ : Kernel H} (made : allocThread k counter priority preemptCount = (k₁, some task)) :
    ThreadServed k.toState ∧ k₁.toState = afterStacks k.toState ∧ ∃ ks us,
      ThreadMemory k.toState task (some ks) (some us) ∧ (k₁.tasks task).kernelStack = some ks ∧
        (k₁.tasks task).userStack = some us := by
  have served : ThreadServed k.toState := by
    by_contra notServed
    have failed := (@allocThread_none_iff _ _ k counter priority preemptCount).mpr notServed
    rw [made] at failed
    cases failed
  obtain ⟨k₂, task', made', state⟩ := @allocThread_served _ _ k counter priority preemptCount served
  cases made.symm.trans made'
  obtain ⟨kernelStack, userStack, memory, tasks⟩ := allocThread_task made
  refine ⟨served, state, ?_⟩
  obtain ⟨p, ks, us, memory'⟩ := served
  cases memory.task.symm.trans memory'.task
  rw [memory.kernelStack.symm.trans memory'.kernelStack, memory.userStack.symm.trans memory'.userStack] at tasks
  refine ⟨ks, us, memory', ?_⟩
  rw [tasks, Function.update_self]
  exact ⟨rfl, rfl⟩

theorem allocThread_listed {a : Threads} {c : Option Nat} {k₁ : Kernel H} (tidy : a.Tidy)
    (represents : Listed c k a) (fresh : FreshTask k)
    (made : allocThread k counter priority preemptCount = (k₁, some task)) :
    task ∉ a.live ∧ Listed c k₁ { a.setState task .ready with live := task :: a.live } := by
  have outcome := @allocThread_refines _ _ _ k a counter priority preemptCount tidy represents fresh
  rw [made] at outcome
  rcases outcome with ⟨missing, _⟩ | ⟨task', same, notLive, represents₁⟩
  · cases missing
  · cases same
    exact ⟨notLive, represents₁⟩

omit [Allocator H] in
/-- A thread that has been built is added to the ready queue. -/
theorem Builds.addReady {a : Threads} {c : Option Nat} {k₁ : Kernel H} (builds : Builds k k₁ task)
    (represents : Listed c k { a.setState task .ready with live := task :: a.live }) (tidy : a.Tidy)
    (notLive : task ∉ a.live) :
    ∃ k', addThreadTask k₁ .ready task = some k' ∧ Listed c k' (a.create task) := by
  have notReady : task ∉ a.ready := fun member => notLive (tidy.readyLive member)
  have notZombie : task ∉ a.zombies := fun member => notLive (tidy.zombiesLive member)
  have short : a.ready.length ≤ (task :: a.live).length := Nat.le_succ_of_le tidy.readyShort
  exact (builds.listed represents notReady notZombie).addReady short notReady notZombie tidy.apart

/-- A failed creation is undone. -/
theorem allocThread_undone {a : Threads} (ordered : a.Ordered) (represents : Represents k a)
    (fresh : FreshTask k) (failed : allocThread k counter priority preemptCount = (k', none)) :
    Undone k k' := by
  have outcome := @allocThread_refines _ _ _ k a counter priority preemptCount ordered.toTidy represents fresh
  rw [failed] at outcome
  obtain ⟨_, outcome⟩ : (none : Option Nat) = none ∧ Outcome (some a.current) k' a none :=
    outcome.resolve_right fun ⟨task, isSome, _⟩ => nomatch isSome
  cases outcome with
  | failed same represents' =>
      refine ⟨represents'.current.trans represents.current.symm, fun q nodes chain => ?_,
        fun live holds => allocThread_none holds failed⟩
      cases q with
      | ready => exact chain.unique represents.ready ▸ represents'.ready
      | wait =>
          have empty : k.head .wait = none := represents.wait
          have empty' : k'.head .wait = none := represents'.wait
          rw [empty] at chain
          rw [empty', chain.empty]
          exact .nil
      | zombie => exact chain.unique represents.zombies ▸ represents'.zombies

/-- The fields that the rest of `thread_create` sets. -/
theorem threadInit_fields {callback : Word} (made : threadInit k task callback = some k') :
    ∃ s₁ s₂ s₃ r₀ r₁ r₂ f₀ f₁ f₂,
      Fs.vfsOpen (k.toState.alloc trapFrameSize).1 none uartPath 0 = some (s₁, r₀, f₀) ∧
      Fs.vfsOpen s₁ none uartPath 0 = some (s₂, r₁, f₁) ∧
      Fs.vfsOpen s₂ none uartPath 0 = some (s₃, r₂, f₂) ∧
      (k'.tasks task).kernelStack = (k.tasks task).kernelStack ∧
      (k'.tasks task).userStack = (k.tasks task).userStack ∧
      (k'.tasks task).sigFrame = (k.toState.alloc trapFrameSize).2 ∧
      (k'.tasks task).fdTable 0 = f₀ ∧ (k'.tasks task).fdTable 1 = f₁ ∧ (k'.tasks task).fdTable 2 = f₂ := by
  unfold threadInit openUart at made
  dsimp only at made
  obtain ⟨root, _, made⟩ := Option.bind_eq_some_iff.mp made
  obtain ⟨k₂, first, made⟩ := Option.bind_eq_some_iff.mp made
  obtain ⟨⟨s₁, r₀, f₀⟩, opened₀, same⟩ := Option.bind_eq_some_iff.mp first
  cases same
  obtain ⟨k₃, second, made⟩ := Option.bind_eq_some_iff.mp made
  obtain ⟨⟨s₂, r₁, f₁⟩, opened₁, same⟩ := Option.bind_eq_some_iff.mp second
  cases same
  obtain ⟨k₄, third, made⟩ := Option.bind_eq_some_iff.mp made
  obtain ⟨⟨s₃, r₂, f₂⟩, opened₂, same⟩ := Option.bind_eq_some_iff.mp third
  cases same
  have fields := addThreadTask_self made
  refine ⟨s₁, s₂, s₃, r₀, r₁, r₂, f₀, f₁, f₂, opened₀, opened₁, opened₂, ?_⟩
  rw [fields]
  simp [Kernel.modify, Kernel.alloc, Function.update_self]

omit [Allocator H] in
theorem Openable.root {g : Graph} {ops : FileOps} (openable : Openable g ops) : g.rootVnode.isSome := by
  obtain ⟨v, resolved, _⟩ := openable
  have absolute : Fs.charAt (Fs.strdup uartPath) 0 = some '/' := by decide
  unfold Fs.resolve at resolved
  dsimp only at resolved
  rw [if_pos absolute] at resolved
  obtain ⟨root, isRoot, _⟩ := Option.bind_eq_some_iff.mp resolved
  rw [isRoot]
  rfl

theorem openUart_served {ops : FileOps} (openable : Openable k.toGraph ops) (fd : Fin threadMaxFd) :
    ∃ k', openUart k task fd = some k' ∧ k'.toGraph = k.toGraph := by
  obtain ⟨s, result, target, opened, graph, _⟩ := vfsOpen_served openable
  unfold openUart
  rw [opened]
  exact ⟨_, rfl, graph⟩

/-- When the path can be resolved, `thread_create` comes to its end. -/
theorem threadInit_served {ops : FileOps} {callback : Word} (openable : Openable k.toGraph ops) :
    ∃ k₁, Builds k k₁ task ∧ threadInit k task callback = addThreadTask k₁ .ready task := by
  obtain ⟨root, isRoot⟩ := Option.isSome_iff_exists.mp openable.root
  -- the task before the opens, step by step
  let framed := ((k.modify task fun t =>
    { t with pendingSig := 0, sigHandlers := defaultHandlers }).alloc trapFrameSize).1.modify task fun t =>
      { t with sigFrame := (k.toState.alloc trapFrameSize).2, next := none }
  let ready := framed.modify task fun t => { t with cwd := root, fdTable := fun _ => none }
  have builds : Builds k ready task := by
    refine .trans ?_ (builds_modify framed task _ fun _ => rfl)
    refine .trans ?_ (builds_modify _ task _ fun _ => rfl)
    refine .trans ?_ (builds_alloc _ trapFrameSize task)
    exact builds_modify k task _ fun _ => rfl
  obtain ⟨k₂, first, graph₂⟩ := @openUart_served _ _ ready task ops openable 0
  obtain ⟨k₃, second, graph₃⟩ := @openUart_served _ _ k₂ task ops (graph₂ ▸ openable) 1
  obtain ⟨k₄, third, _⟩ := @openUart_served _ _ k₃ task ops (graph₃ ▸ graph₂ ▸ openable) 2
  have opened := (builds.trans (openUart_builds first)).trans ((openUart_builds second).trans (openUart_builds third))
  let begun := k₄.modify task fun t =>
    let sp := addr t.userStack + BitVec.ofNat 64 threadStackSize
    { t with cpuContext := { CpuContext.zero with lr := callback, sp := sp, fp := sp } }
  refine ⟨begun, opened.trans (builds_modify k₄ task _ fun _ => rfl), ?_⟩
  unfold threadInit
  have isRoot' : framed.rootVnode = some root := isRoot
  change Option.bind framed.rootVnode _ = _
  rw [isRoot', Option.bind_some]
  change Option.bind (openUart ready task 0) _ = _
  rw [first, Option.bind_some]
  change Option.bind (openUart k₂ task 1) _ = _
  rw [second, Option.bind_some]
  change Option.bind (openUart k₃ task 2) _ = _
  rw [third, Option.bind_some]

end Threads

/-! ## The conditions -/

section Conditions

variable {k k' : Kernel H} {a : Threads}

/-- What an open finds, and what the next one has left. -/
theorem vfsOpen_file {s s' : Fs.State H} {ops : FileOps} {result : Int} {target : Option Nat}
    (openable : Openable s.toGraph ops) (opened : Fs.vfsOpen s none uartPath 0 = some (s', result, target)) :
    Openable s'.toGraph ops ∧ s'.heap = (serveOpen ops s.heap).1 ∧
      (target ≠ none ↔ (serveOpen ops s.heap).2) := by
  obtain ⟨s₁, result₁, target₁, opened₁, graph, heap, served⟩ := vfsOpen_served openable
  cases opened.symm.trans opened₁
  exact ⟨graph ▸ openable, heap, served⟩

omit [Allocator H] in
/-- A task on the ready queue, behind the others. -/
theorem appended_create {p : Nat} (ordered : a.Ordered) (represents : Represents k a) (fresh : p ∉ a.live)
    (represents' : Represents k' (a.create p)) : Appended k k' p :=
  ⟨a.ready, represents.ready, fun member => fresh (ordered.readyLive member), represents'.ready⟩

/-- Exactly then the three pointers to files and the signal frame are set. -/
theorem threadInit_equipped_iff {k₁ : Kernel H} {task ks us : Nat} {callback : Word}
    (made : threadInit k₁ task callback = some k') (kernelStack : (k₁.tasks task).kernelStack = some ks)
    (userStack : (k₁.tasks task).userStack = some us) :
    Equipped (k'.tasks task) ↔ ∃ ops, Openable k₁.toGraph ops ∧ FullyServed ops k₁.heap := by
  obtain ⟨s₁, s₂, s₃, r₀, r₁, r₂, f₀, f₁, f₂, opened₀, opened₁, opened₂, sameKernel, sameUser, sigFrame,
    fd₀, fd₁, fd₂⟩ := threadInit_fields made
  have files : ∀ ops, Openable k₁.toGraph ops → ((f₀ ≠ none ∧ f₁ ≠ none ∧ f₂ ≠ none) ∧
      (k₁.toState.alloc trapFrameSize).2 ≠ none ↔ FullyServed ops k₁.heap) := by
    intro ops openable
    have afterFrame : Openable (k₁.toState.alloc trapFrameSize).1.toGraph ops := openable
    obtain ⟨openable₁, heap₁, served₀⟩ := vfsOpen_file afterFrame opened₀
    obtain ⟨openable₂, heap₂, served₁⟩ := vfsOpen_file openable₁ opened₁
    obtain ⟨_, _, served₂⟩ := vfsOpen_file openable₂ opened₂
    rw [served₀, served₁, served₂, heap₂, heap₁]
    exact and_comm
  constructor
  · intro equipped
    have isFile := equipped.stdin
    rw [fd₀] at isFile
    obtain ⟨f, isFile'⟩ := Option.ne_none_iff_exists'.mp isFile
    rw [isFile'] at opened₀
    obtain ⟨ops, openable⟩ := vfsOpen_openable opened₀
    refine ⟨ops, openable, (files ops openable).mp ⟨⟨isFile, ?_, ?_⟩, ?_⟩⟩
    · exact fd₁ ▸ equipped.stdout
    · exact fd₂ ▸ equipped.stderr
    · exact sigFrame ▸ equipped.sigFrame
  · rintro ⟨ops, openable, served⟩
    obtain ⟨⟨isFile₀, isFile₁, isFile₂⟩, isFrame⟩ := (files ops openable).mpr served
    constructor
    · rw [sameKernel, kernelStack]
      exact nofun
    · rw [sameUser, userStack]
      exact nofun
    · exact sigFrame ▸ isFrame
    · exact fd₀ ▸ isFile₀
    · exact fd₁ ▸ isFile₁
    · exact fd₂ ▸ isFile₂

/-- `thread_create` is all or nothing unless it gets its stacks and then something is missing. -/
theorem createsWhole_iff (ordered : a.Ordered) (represents : Represents k a) (fresh : FreshTask k)
    (callback : Word) : CreatesWhole k callback ↔ (ThreadServed k.toState →
      ∃ ops, Openable k.toGraph ops ∧ FullyServed ops (afterStacks k.toState).heap) := by
  unfold CreatesWhole threadCreate
  cases allocated : allocThread k defaultPriority defaultPriority 1 with
  | mk k₁ found =>
      cases found with
      | none =>
          have notServed : ¬ ThreadServed k.toState := allocThread_none_iff.mp (congrArg Prod.snd allocated)
          have undone := allocThread_undone ordered represents fresh allocated
          exact ⟨fun _ served => absurd served notServed, fun _ => ⟨k₁, none, rfl, undone⟩⟩
      | some task =>
          obtain ⟨served, state, ks, us, _, kernelStack, userStack⟩ := allocThread_some allocated
          have graph : k₁.toGraph = (afterStacks k.toState).toGraph := congrArg Fs.State.toGraph state
          have sameGraph : (afterStacks k.toState).toGraph = k.toGraph := rfl
          have heap : k₁.heap = (afterStacks k.toState).heap := congrArg Fs.State.heap state
          obtain ⟨notLive, represents₁⟩ := allocThread_listed ordered.toTidy represents fresh allocated
          rw [← sameGraph, ← graph, ← heap]
          constructor
          · rintro ⟨k', result, made, whole⟩ _
            obtain ⟨k₂, inited, same⟩ := Option.bind_eq_some_iff.mp made
            cases same
            exact (threadInit_equipped_iff inited kernelStack userStack).mp whole.1
          · intro condition
            obtain ⟨ops, openable, full⟩ := condition served
            obtain ⟨k₂, builds, inited⟩ := @threadInit_served _ _ k₁ task ops callback openable
            obtain ⟨k', added, represents'⟩ := builds.addReady represents₁ ordered.toTidy notLive
            rw [added] at inited
            refine ⟨k', some task, ?_, ?_, appended_create ordered represents notLive represents'⟩
            · dsimp only
              rw [inited]
              rfl
            · exact (threadInit_equipped_iff inited kernelStack userStack).mpr ⟨ops, openable, full⟩

omit [Allocator H] in
/-- The rest of `sys_fork` writes the child, and adds it to the ready queue. -/
theorem forkInit_built {parent child : Nat} {frame : TrapFrame} {currSp forkEnd : Word} :
    ∃ k₁ frames, Builds k k₁ child ∧ forkInit k parent child frame currSp forkEnd =
      (addThreadTask k₁ .ready child).bind fun k' => some (k', frames) := by
  unfold forkInit
  refine ⟨_, _, ?_, rfl⟩
  refine .trans ?_ (builds_modify _ child _ fun _ => rfl)
  exact builds_modify k child _ fun _ => rfl

omit [Allocator H] in
/-- The pointers that `sys_fork` leaves as they are in memory. -/
def LeftEquipped (t : Task) : Prop :=
  t.sigFrame ≠ none ∧ t.fdTable 0 ≠ none ∧ t.fdTable 1 ≠ none ∧ t.fdTable 2 ≠ none

/-- A child is equipped when its memory was. -/
theorem sysFork_equipped_iff {frame frame' childFrame : TrapFrame} {currSp forkEnd : Word} {child : Nat}
    (ordered : a.Ordered) (represents : Represents k a) (fresh : FreshTask k)
    (forked : sysFork k frame currSp forkEnd = some (k', frame', some (child, childFrame))) {ks us : Nat}
    (memory : ThreadMemory k.toState child (some ks) (some us)) :
    (Equipped (k'.tasks child) ∧ Appended k k' child) ↔ LeftEquipped (k.tasks child) := by
  obtain ⟨notLive, represents'⟩ : child ∉ a.live ∧ Represents k' (a.create child) := by
    cases sysFork_refines ordered.toTidy represents fresh forked with
    | made notLive represents' => exact ⟨notLive, represents'⟩
  have apart : child ≠ a.current := by
    rintro rfl
    exact notLive ordered.currentLive
  obtain ⟨kernelStack, userStack, memory', fields⟩ := sysFork_child represents.current forked
  cases memory'.kernelStack.symm.trans memory.kernelStack
  cases memory'.userStack.symm.trans memory.userStack
  rw [fields apart]
  constructor
  · rintro ⟨equipped, _⟩
    exact ⟨equipped.sigFrame, equipped.stdin, equipped.stdout, equipped.stderr⟩
  · rintro ⟨sigFrame, stdin, stdout, stderr⟩
    exact ⟨⟨nofun, nofun, sigFrame, stdin, stdout, stderr⟩,
      appended_create ordered represents notLive represents'⟩

section Fork

variable {frame : TrapFrame} {currSp forkEnd : Word}

theorem sysFork_unserved (ordered : a.Ordered) (represents : Represents k a) (fresh : FreshTask k)
    (notServed : ¬ ThreadServed k.toState) :
    ∃ k', sysFork k frame currSp forkEnd = some (k', frame.setX 0 (-1), none) ∧ Undone k k' := by
  unfold sysFork
  rw [represents.current]
  dsimp only
  have failed := (@allocThread_none_iff _ _ k (k.tasks a.current).counter (k.tasks a.current).priority
    (k.tasks a.current).preemptCount).mpr notServed
  cases allocated : allocThread k (k.tasks a.current).counter (k.tasks a.current).priority
      (k.tasks a.current).preemptCount with
  | mk k₁ found =>
      rw [allocated] at failed
      cases failed
      exact ⟨k₁, rfl, allocThread_undone ordered represents fresh allocated⟩

theorem sysFork_served (ordered : a.Ordered) (represents : Represents k a) (fresh : FreshTask k)
    (served : ThreadServed k.toState) :
    ∃ k' frame' child childFrame, sysFork k frame currSp forkEnd = some (k', frame', some (child, childFrame)) := by
  unfold sysFork
  rw [represents.current]
  dsimp only
  obtain ⟨k₁, child, allocated, _⟩ := @allocThread_served _ _ k (k.tasks a.current).counter
    (k.tasks a.current).priority (k.tasks a.current).preemptCount served
  obtain ⟨notLive, represents₁⟩ := allocThread_listed ordered.toTidy represents fresh allocated
  obtain ⟨k₂, frames, builds, inited⟩ := @forkInit_built _ k₁ a.current child frame currSp forkEnd
  obtain ⟨k', added, _⟩ := builds.addReady represents₁ ordered.toTidy notLive
  rw [allocated]
  dsimp only
  rw [inited, added]
  exact ⟨_, _, _, _, rfl⟩

/-- `sys_fork` is all or nothing unless it gets its stacks and the memory of the task was not
that of an equipped one. -/
theorem forksWhole_iff (ordered : a.Ordered) (represents : Represents k a) (fresh : FreshTask k) :
    ForksWhole k frame currSp forkEnd ↔
      ∀ child ks us, ThreadMemory k.toState child (some ks) (some us) → LeftEquipped (k.tasks child) := by
  by_cases served : ThreadServed k.toState
  · obtain ⟨k', frame', child, childFrame, forked⟩ :=
      @sysFork_served _ _ k a frame currSp forkEnd ordered represents fresh served
    obtain ⟨task, ks, us, memory⟩ := served
    obtain ⟨_, _, own, _⟩ := sysFork_child represents.current forked
    cases own.task.symm.trans memory.task
    have equipped_iff := sysFork_equipped_iff ordered represents fresh forked memory
    constructor
    · rintro ⟨k₁, frame₁, result, forked₁, whole, _⟩ task _ _ memory'
      cases memory'.task.symm.trans memory.task
      cases forked.symm.trans forked₁
      exact equipped_iff.mp whole
    · intro condition
      exact ⟨k', frame', _, forked, equipped_iff.mpr (condition child ks us memory), nofun⟩
  · obtain ⟨k', forked, undone⟩ :=
      @sysFork_unserved _ _ k a frame currSp forkEnd ordered represents fresh served
    have result : (frame.setX 0 (-1)).x 0 = -1 := by
      unfold TrapFrame.setX
      dsimp only
      rw [Function.update_self]
    refine iff_of_true ⟨k', _, none, forked, undone, fun _ => result⟩ ?_
    exact fun child ks us memory => absurd ⟨child, ks, us, memory⟩ served

end Fork

/-- `_exec` never comes back from a creation that fails. -/
theorem execReturns_iff (execSize : Nat) : ExecReturns k execSize ↔ (execSize ≠ 0 →
    (k.alloc execSize).2 ≠ none → ThreadServed (k.alloc execSize).1.toState) := by
  have created : ∀ (k : Kernel H) (callback : Word), (∃ k', threadCreate k callback = some (k', none)) ↔
      ¬ ThreadServed k.toState := by
    intro k callback
    rw [← @allocThread_none_iff _ _ k defaultPriority defaultPriority 1]
    unfold threadCreate
    cases allocThread k defaultPriority defaultPriority 1 with
    | mk k₁ found =>
        cases found with
        | none => exact iff_of_true ⟨k₁, rfl⟩ rfl
        | some task =>
            refine iff_of_false ?_ nofun
            rintro ⟨k', made⟩
            obtain ⟨k₂, _, same⟩ := Option.bind_eq_some_iff.mp made
            cases same
  constructor
  · intro returns nonzero loaded
    by_contra notServed
    obtain ⟨image, isImage⟩ := Option.ne_none_iff_exists'.mp loaded
    obtain ⟨k₂, failed⟩ := (created _ (addr (some image))).mpr notServed
    obtain ⟨k', execed, _⟩ := returns image k₂ nonzero isImage failed
    unfold exec at execed
    have whole : k.alloc execSize = ((k.alloc execSize).1, some image) := Prod.ext rfl isImage
    rw [if_neg nonzero, whole] at execed
    obtain ⟨⟨k₃, newThread⟩, _, rest⟩ := Option.bind_eq_some_iff.mp execed
    obtain ⟨p, _, same⟩ := Option.bind_eq_some_iff.mp rest
    cases same
  · intro condition image k₂ nonzero isImage failed
    have served := condition nonzero (Option.ne_none_iff_exists'.mpr ⟨image, isImage⟩)
    exact absurd served ((created _ _).mp ⟨k₂, failed⟩)

/-- The exact conditions, in any state that is reached, whichever allocations fail. -/
theorem run_creation_whole_iff {allowed : Kernel H → Op → Prop} (reached : Reachable allowed k)
    {live : List Nat} (holds : Holds k.heap live) (inUse : ∀ p ∈ k.live, p ∈ live) :
    (∀ callback, CreatesWhole k callback ↔ (ThreadServed k.toState →
      ∃ ops, Openable k.toGraph ops ∧ FullyServed ops (afterStacks k.toState).heap)) ∧
    (∀ frame currSp forkEnd, ForksWhole k frame currSp forkEnd ↔
      ∀ child ks us, ThreadMemory k.toState child (some ks) (some us) → LeftEquipped (k.tasks child)) ∧
    ∀ execSize, ExecReturns k execSize ↔ (execSize ≠ 0 →
      (k.alloc execSize).2 ≠ none → ThreadServed (k.alloc execSize).1.toState) := by
  obtain ⟨a, ordered, represents⟩ := reached.represented
  have fresh : FreshTask k := fun p found member =>
    (Allocator.alloc_some holds found).1 (inUse p member)
  refine ⟨fun callback => ?_, fun frame currSp forkEnd => ?_, fun execSize => ?_⟩
  · exact createsWhole_iff ordered represents fresh callback
  · exact forksWhole_iff ordered represents fresh
  · exact execReturns_iff execSize

end Conditions

/-! ## The first fork -/

open Fs (BootHeap)

/-- The tasks are among the pointers in use. -/
theorem ledgerStarted_inUse : ∃ live, Holds ledgerStarted.heap live ∧ ∀ p ∈ ledgerStarted.live, p ∈ live := by
  obtain ⟨live, holds⟩ := ledgerStarted_holds
  have recorded : ∀ p ∈ ledgerStarted.live, p ∈ ledgerStarted.heap.live := by decide +kernel
  exact ⟨live, holds, fun p member => (Ledger.Holds.ledger holds).mem_iff.mp (recorded p member)⟩

def uartVnode : Nat :=
  ((Fs.resolve ledgerStarted.toGraph none uartPath).bind Prod.snd).get (by decide +kernel)

/-- After a start the heap is large enough for a thread. -/
theorem ledgerStarted_served : Fs.resolve ledgerStarted.toGraph none uartPath = some (0, some uartVnode) ∧
    (ledgerStarted.vnodes uartVnode).fOps = some .uart ∧
      FullyServed .uart (afterStacks ledgerStarted.toState).heap := by
  unfold FullyServed
  decide +kernel

theorem run_creation_whole_iff_first : CreatesWhole ledgerStarted 0 := by
  obtain ⟨live, holds, inUse⟩ := ledgerStarted_inUse
  obtain ⟨resolved, isOps, served⟩ := ledgerStarted_served
  exact ((run_creation_whole_iff ledgerStarted_reachable holds inUse).1 0).mpr fun _ =>
    ⟨.uart, ⟨uartVnode, resolved, isOps⟩, served⟩

/-- The first child has no signal frame. -/
theorem first_fork_not_whole : ∃ k : Kernel (Ledger BootHeap), Reachable (fun _ _ => True) k ∧
    (∃ live, Holds k.heap live ∧ ∀ p ∈ k.live, p ∈ live) ∧ ¬ ForksWhole k blankFrame 0 0 := by
  refine ⟨ledgerStarted, ledgerStarted_reachable, ledgerStarted_inUse, ?_⟩
  have forked : sysFork ledgerStarted blankFrame 0 0 = some ledgerFork := (Option.some_get _).symm
  have isChild : ledgerFork.2.2 = some ledgerChild := (Option.some_get _).symm
  have missing : (ledgerFork.1.tasks ledgerChild.1).sigFrame = none := by decide +kernel
  generalize ledgerStarted = k at forked
  generalize ledgerFork = fork at *
  rintro ⟨k', frame', child, forked', whole, _⟩
  cases forked.symm.trans forked'
  dsimp only at isChild missing
  subst isChild
  exact whole.1.sigFrame missing

end OsdiKernel.Sched
