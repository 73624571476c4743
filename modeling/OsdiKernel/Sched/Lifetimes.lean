import OsdiKernel.Sched.Balance
import OsdiKernel.Sched.Exec
import OsdiKernel.Sched.Fork

/-!
# Whole lives of threads

Threads are created, end by an exit or because they are killed, and are released,
in any order.  When all of them have ended and `kill_zombies` has run, what is
left allocated is what `thread_create` has allocated besides a task and its stacks.
-/

namespace OsdiKernel.Sched

open Allocator (Holds)
open Queue (Chain)

variable {H : Type} [Allocator H]

/-- Threads are created and end.  The lists are the threads that have been created
and have not ended, before and after; only these end.  All allocations succeed. -/
inductive Life : Kernel H → List Nat → List (Kernel H × Op) → Kernel H → List Nat → Prop
  | done {k : Kernel H} {running : List Nat} : Life k running [] k running
  | threadCreate {k k' last : Kernel H} {running left : List Nat} {trace : List (Kernel H × Op)}
      {callback : Word} {p : Nat} (fresh : FreshTask k)
      (made : Sched.threadCreate k callback = some (k', some p))
      (frame : (k'.tasks p).sigFrame ≠ none) (rest : Life k' (p :: running) trace last left) :
      Life k running ((k, .threadCreate) :: trace) last left
  | fork {k k' last : Kernel H} {running left : List Nat} {trace : List (Kernel H × Op)}
      {frame frame' childFrame : TrapFrame} {currSp forkEnd : Word} {p : Nat} (fresh : FreshTask k)
      (made : sysFork k frame currSp forkEnd = some (k', frame', some (p, childFrame)))
      (rest : Life k' (p :: running) trace last left) :
      Life k running ((k, .fork) :: trace) last left
  | schedule {k k' last : Kernel H} {running left : List Nat} {trace : List (Kernel H × Op)}
      {registers : CpuContext} (switched : Sched.schedule k registers = some k')
      (rest : Life k' running trace last left) : Life k running ((k, .schedule) :: trace) last left
  | exit {k k' last : Kernel H} {running left : List Nat} {trace : List (Kernel H × Op)}
      {registers : CpuContext} {p : Nat} (isCurrent : k.current = some p) (member : p ∈ running)
      (exited : Sched.exit k registers = some k') (rest : Life k' (running.erase p) trace last left) :
      Life k running ((k, .exit) :: trace) last left
  | kill {k k' last : Kernel H} {running left : List Nat} {trace : List (Kernel H × Op)}
      {registers : CpuContext} {pid : BitVec 32} {result : Int} {p : Nat}
      (found : getThreadTaskById k pid = some (some p)) (member : p ∈ running)
      (killed : Sched.kill k pid registers = some (k', result))
      (rest : Life k' (running.erase p) trace last left) :
      Life k running ((k, .kill pid) :: trace) last left
  | killZombies {k k' last : Kernel H} {running left : List Nat} {trace : List (Kernel H × Op)}
      (reaped : Sched.killZombies k = some k') (rest : Life k' running trace last left) :
      Life k running ((k, .killZombies) :: trace) last left

/-- No thread that has exited is still allocated. -/
def Unspent (k : Kernel H) : Prop := ∀ p ∈ k.live, (k.tasks p).state ≠ .exited

namespace Threads

variable {a : Threads} {p : Nat}

/-- A thread that has not exited makes no zombie when it waits. -/
theorem Stopped.schedule_zombies (stopped : a.Stopped) (ordered : a.Ordered) :
    a.schedule.zombies = a.zombies := by
  unfold Threads.schedule
  split
  · rfl
  · split
    · rfl
    · split
      · rfl
      · next exited => exact absurd (stopped _ ordered.currentLive exited) ordered.currentState.1
      · rfl
      · rfl

theorem schedule_live (a : Threads) : a.schedule.live = a.live := by
  unfold schedule
  repeat' split
  all_goals rfl

theorem exit_live (a : Threads) : a.exit.live = a.live := schedule_live _

end Threads

/-- The created threads and the zombies are all that have been allocated, besides `live`
from before and what is lost. -/
structure Living (k : Kernel H) (a : Threads) (running live lost : List Nat) : Prop where
  ordered : a.Ordered
  represents : Represents k a
  stopped : a.Stopped
  distinct : (running ++ a.zombies).Nodup
  isLive : running ⊆ a.live
  holds : Holds k.heap ((running ++ a.zombies).flatMap k.blocks ++ (lost ++ live))

section Steps

variable {k k' : Kernel H} {a : Threads} {running live lost : List Nat} {p : Nat}

omit [Allocator H] in
theorem mem_blocks (k : Kernel H) {q : Nat} {threads : List Nat} (member : q ∈ threads) :
    q ∈ threads.flatMap k.blocks :=
  List.mem_flatMap.mpr ⟨q, member, List.mem_cons_self⟩

omit [Allocator H] in
theorem flatMap_blocks {threads : List Nat} (same : ∀ q ∈ threads, k'.blocks q = k.blocks q) :
    threads.flatMap k'.blocks = threads.flatMap k.blocks :=
  List.flatMap_congr same

/-- A thread that has been created. -/
theorem Living.create {more : List Nat} (living : Living k a running live lost)
    (represents : Represents k' (a.create p)) (fresh : p ∉ a.live)
    (held : Holds k'.heap (k'.blocks p ++
      (more ++ ((running ++ a.zombies).flatMap k.blocks ++ (lost ++ live)))))
    (unused : p ∉ (running ++ a.zombies).flatMap k.blocks ++ (lost ++ live))
    (others : ∀ q, q ≠ p → k'.blocks q = k.blocks q) :
    Living k' (a.create p) (p :: running) live (more ++ lost) := by
  have apart : ∀ q ∈ running ++ a.zombies, q ≠ p := by
    rintro q member rfl
    exact unused (List.mem_append_left _ (mem_blocks k member))
  have same := flatMap_blocks fun q member => others q (apart q member)
  constructor
  · exact living.ordered.create fresh
  · exact represents
  · exact living.stopped.create
  · exact List.nodup_cons.mpr ⟨fun member => apart p member rfl, living.distinct⟩
  · exact List.cons_subset_cons p living.isLive
  · refine Allocator.perm held (List.perm_iff_count.mpr fun q => ?_)
    show List.count q _ = List.count q ((p :: (running ++ a.zombies)).flatMap k'.blocks ++
      (more ++ lost ++ live))
    rw [List.flatMap_cons, same]
    simp only [List.count_append]
    omega

/-- An operation that uses no memory. -/
theorem Living.move {b : Threads} {running' : List Nat} (living : Living k a running live lost)
    (memory : SameMemory k k') (represents : Represents k' b) (ordered : b.Ordered)
    (stopped : b.Stopped) (sameLive : b.live = a.live) (kept : running' ⊆ running)
    (moved : (running' ++ b.zombies).Perm (running ++ a.zombies)) :
    Living k' b running' live lost where
  ordered := ordered
  represents := represents
  stopped := stopped
  distinct := moved.nodup_iff.mpr living.distinct
  isLive := sameLive ▸ List.Subset.trans kept living.isLive
  holds := by
    have same := flatMap_blocks fun q (_ : q ∈ running' ++ b.zombies) => blocks_eq (memory.pointers q)
    rw [same, memory.state]
    exact Allocator.perm living.holds ((moved.symm.flatMap_right k.blocks).append_right _)

/-- A thread that ends becomes a zombie. -/
theorem ended_perm (member : p ∈ running) :
    (running.erase p ++ (a.zombies ++ [p])).Perm (running ++ a.zombies) := by
  refine List.perm_iff_count.mpr fun q => ?_
  have counted := (List.perm_cons_erase member).count_eq q
  simp only [List.count_append, List.count_cons, List.count_nil] at counted ⊢
  omega

theorem Living.schedule {registers : CpuContext} (living : Living k a running live lost)
    (switched : Sched.schedule k registers = some k') :
    ∃ b, Living k' b running live lost := by
  obtain ⟨k₁, switched₁, represents⟩ := schedule_refines living.ordered living.represents registers
  rw [switched] at switched₁
  cases switched₁
  refine ⟨_, living.move (schedule_untouched switched).sameMemory represents living.ordered.schedule
    living.stopped.schedule a.schedule_live (List.Subset.refl _) ?_⟩
  rw [living.stopped.schedule_zombies living.ordered]

/-- The current thread ends while another one is ready. -/
theorem Living.exits (living : Living k a running live lost) (memory : SameMemory k k')
    (member : a.current ∈ running) (represents : Represents k' a.exit) {next : Nat} {rest : List Nat}
    (shape : a.ready.erase a.current = next :: rest) (other : next ≠ a.current) :
    Living k' a.exit (running.erase a.current) live lost := by
  have zombies : a.exit.zombies = a.zombies ++ [a.current] := by
    rw [Threads.exit_eq shape other]
  refine living.move memory represents living.ordered.exit (living.stopped.exit shape other)
    a.exit_live List.erase_subset ?_
  rw [zombies]
  exact ended_perm member

theorem Living.exit {registers : CpuContext} (living : Living k a running live lost)
    (isCurrent : k.current = some p) (member : p ∈ running)
    (exited : Sched.exit k registers = some k') (other : OtherReady k .exit) :
    ∃ b, Living k' b (running.erase p) live lost := by
  rw [living.represents.current] at isCurrent
  cases isCurrent
  obtain ⟨next, rest, shape, notCurrent⟩ :=
    other.successor (Or.inl rfl) living.ordered living.represents
  obtain ⟨k₁, exited₁, represents⟩ := exit_refines living.ordered living.represents registers
  rw [exited] at exited₁
  cases exited₁
  exact ⟨_, living.exits (exit_untouched exited).sameMemory member represents shape notCurrent⟩

theorem Living.kill {registers : CpuContext} {pid : BitVec 32} {result : Int}
    (living : Living k a running live lost) (found : getThreadTaskById k pid = some (some p))
    (member : p ∈ running) (killed : Sched.kill k pid registers = some (k', result))
    (other : OtherReady k (.kill pid)) : ∃ b, Living k' b (running.erase p) live lost := by
  have memory := (kill_untouched killed).sameMemory
  obtain ⟨k₁, result₁, killed₁, outcome⟩ :=
    kill_refines living.ordered living.represents pid registers
  rw [killed] at killed₁
  cases killed₁
  cases outcome with
  | missed missing _ =>
      rw [getThreadTaskById_spec living.ordered living.represents] at found
      have isFound := Option.some.inj found
      have isPid := List.find?_some isFound
      exact absurd (of_decide_eq_true isPid) (missing p (List.mem_of_find?_eq_some isFound))
  | @hit q ready found' represents =>
      rw [found] at found'
      cases found'
      by_cases here : a.current = p
      · subst here
        have self : getThreadTaskById k pid = some k.current :=
          found.trans (congrArg some living.represents.current.symm)
        obtain ⟨next, rest, shape, notCurrent⟩ :=
          other.successor (Or.inr ⟨pid, rfl, self⟩) living.ordered living.represents
        rw [Threads.kill_current] at represents
        exact ⟨_, living.exits memory member represents shape notCurrent⟩
      · have whole : a.kill p = { a.retire p with zombies := a.zombies ++ [p] } := if_neg here
        have zombies : (a.kill p).zombies = a.zombies ++ [p] := by rw [whole]
        have sameLive : (a.kill p).live = a.live := by
          rw [whole]
          rfl
        refine ⟨_, living.move memory represents (living.ordered.kill ready)
          (living.stopped.kill here) sameLive List.erase_subset ?_⟩
        rw [zombies]
        exact ended_perm member

/-- The zombies are released. -/
theorem Living.killZombies (living : Living k a running live lost)
    (reaped : Sched.killZombies k = some k') :
    Living k' a.reap running live lost := by
  obtain ⟨k₁, reaped₁, represents⟩ := killZombies_refines living.ordered living.represents
  rw [reaped] at reaped₁
  cases reaped₁
  have apart : ∀ q ∈ running, q ∉ a.zombies := fun q inRunning inZombies =>
    (List.nodup_append.mp living.distinct).2.2 q inRunning q inZombies rfl
  have moved : ((running ++ a.zombies).flatMap k.blocks ++ (lost ++ live)).Perm
      (a.zombies.flatMap k.blocks ++ (running.flatMap k.blocks ++ (lost ++ live))) := by
    refine List.perm_iff_count.mpr fun q => ?_
    simp only [List.flatMap_append, List.count_append]
    omega
  obtain ⟨held, sameTasks⟩ := killZombies_holds living.represents.zombies reaped
    (Allocator.perm (h := k.heap) living.holds moved)
  constructor
  · exact living.ordered.reap
  · exact represents
  · exact living.stopped.reap living.ordered
  · show (running ++ []).Nodup
    rw [List.append_nil]
    exact (List.nodup_append.mp living.distinct).1
  · intro q inRunning
    exact living.ordered.live.mem_sdiff_iff.mpr ⟨living.isLive inRunning, apart q inRunning⟩
  · have same : running.flatMap k'.blocks = running.flatMap k.blocks :=
      flatMap_blocks fun q _ => blocks_eq (by rw [sameTasks])
    show Holds k'.heap ((running ++ []).flatMap k'.blocks ++ (lost ++ live))
    rw [List.append_nil, same]
    exact held

/-- A thread that `thread_create` has made leaves its signal frame, at least. -/
theorem Living.threadCreate {callback : Word} (living : Living k a running live lost)
    (fresh : FreshTask k) (made : Sched.threadCreate k callback = some (k', some p))
    (frame : (k'.tasks p).sigFrame ≠ none) :
    ∃ b lost', Living k' b (p :: running) live lost' ∧ lost' ≠ [] := by
  obtain ⟨⟨more, held⟩, unused, others⟩ := threadCreate_holds living.holds made
  cases threadCreate_refines living.ordered.toTidy living.represents fresh made with
  | made notLive represents =>
      obtain ⟨sigFrame, isFrame⟩ := Option.ne_none_iff_exists'.mp frame
      rw [isFrame, ← List.append_assoc more] at held
      refine ⟨_, _, living.create represents notLive held unused others, fun empty => ?_⟩
      have noFrame := (List.append_eq_nil_iff.mp (List.append_eq_nil_iff.mp empty).1).2
      cases noFrame

/-- A thread that `sys_fork` has made leaves nothing. -/
theorem Living.fork {frame frame' childFrame : TrapFrame} {currSp forkEnd : Word}
    (living : Living k a running live lost) (fresh : FreshTask k)
    (made : sysFork k frame currSp forkEnd = some (k', frame', some (p, childFrame))) :
    ∃ b, Living k' b (p :: running) live lost := by
  obtain ⟨held, unused, others⟩ := sysFork_holds living.holds made
  cases sysFork_refines living.ordered.toTidy living.represents fresh made with
  | made notLive represents =>
      exact ⟨_, @Living.create _ _ _ _ _ _ _ _ _ [] living represents notLive held unused others⟩

/-- What is lost over many lives: nothing more unless a thread was made by `thread_create`. -/
theorem Life.living {trace : List (Kernel H × Op)} {last : Kernel H} {left : List Nat}
    (life : Life k running trace last left) (living : Living k a running live lost)
    (other : ∀ entry ∈ trace, OtherReady entry.1 entry.2) :
    ∃ b lost', Living last b left live lost' ∧
      (lost' = [] ↔ lost = [] ∧ ∀ entry ∈ trace, entry.2 ≠ .threadCreate) := by
  induction life generalizing a lost with
  | done => exact ⟨a, lost, living, by simp⟩
  | threadCreate fresh made frame _ ih =>
      obtain ⟨b, lost₁, living₁, some⟩ := living.threadCreate fresh made frame
      obtain ⟨c, lost', living', lost_iff⟩ := ih living₁ (List.forall_mem_cons.mp other).2
      exact ⟨c, lost', living', by simp [lost_iff, some]⟩
  | fork fresh made _ ih =>
      obtain ⟨b, living₁⟩ := living.fork fresh made
      obtain ⟨c, lost', living', lost_iff⟩ := ih living₁ (List.forall_mem_cons.mp other).2
      exact ⟨c, lost', living', by simp [lost_iff]⟩
  | schedule switched _ ih =>
      obtain ⟨b, living₁⟩ := living.schedule switched
      obtain ⟨c, lost', living', lost_iff⟩ := ih living₁ (List.forall_mem_cons.mp other).2
      exact ⟨c, lost', living', by simp [lost_iff]⟩
  | exit isCurrent member exited _ ih =>
      obtain ⟨first, others⟩ := List.forall_mem_cons.mp other
      obtain ⟨b, living₁⟩ := living.exit isCurrent member exited first
      obtain ⟨c, lost', living', lost_iff⟩ := ih living₁ others
      exact ⟨c, lost', living', by simp [lost_iff]⟩
  | kill found member killed _ ih =>
      obtain ⟨first, others⟩ := List.forall_mem_cons.mp other
      obtain ⟨b, living₁⟩ := living.kill found member killed first
      obtain ⟨c, lost', living', lost_iff⟩ := ih living₁ others
      exact ⟨c, lost', living', by simp [lost_iff]⟩
  | killZombies reaped _ ih =>
      obtain ⟨c, lost', living', lost_iff⟩ :=
        ih (living.killZombies reaped) (List.forall_mem_cons.mp other).2
      exact ⟨c, lost', living', by simp [lost_iff]⟩

/-- Before the first thread is created. -/
theorem Reachable.living {allowed : Kernel H → Op → Prop} (reached : Reachable allowed k)
    (holds : Holds k.heap live) (unspent : Unspent k) : ∃ a : Threads, Living k a [] live [] := by
  obtain ⟨a, ordered, represents⟩ := reached.represented
  have running : ∀ p ∈ a.live, a.state p ≠ .exited := by
    intro p isLive
    rw [← represents.state]
    exact unspent p (represents.live ▸ isLive)
  have none_ : a.zombies = [] := by
    refine List.eq_nil_iff_forall_not_mem.mpr fun p zombie => ?_
    exact running p (ordered.zombiesLive zombie) (ordered.zombiesState p zombie)
  refine ⟨a, ordered, represents, ?_, ?_, List.nil_subset _, ?_⟩
  · exact fun p isLive exited => absurd exited (running p isLive)
  · rw [none_]
    exact List.nodup_nil
  · rw [none_]
    exact holds

end Steps

/-- When every thread that was created has ended and has been released, the heap is as
before exactly when none of them was made by `thread_create`. -/
theorem lifetimes_neutral {allowed : Kernel (Ledger H) → Op → Prop} {k k₁ k₂ : Kernel (Ledger H)}
    {trace : List (Kernel (Ledger H) × Op)} {live : List Nat} (reached : Reachable allowed k)
    (holds : Holds k.heap live) (unspent : Unspent k) (life : Life k [] trace k₁ [])
    (other : ∀ entry ∈ trace, OtherReady entry.1 entry.2) (reaped : killZombies k₁ = some k₂) :
    Ledger.Neutral k.heap k₂.heap ↔ ∀ entry ∈ trace, entry.2 ≠ .threadCreate := by
  obtain ⟨a, living⟩ := reached.living holds unspent
  obtain ⟨b, lost, living₁, lost_iff⟩ := life.living living other
  have released := living₁.killZombies reaped
  rw [Ledger.neutral_iff holds released.holds, lost_iff]
  exact and_iff_right rfl

/-! ## One thread -/

open Fs (BootHeap ledgerInit)

theorem Life.forked {k k₁ k₂ : Kernel H} {frame frame' childFrame : TrapFrame}
    {currSp forkEnd : Word} {pid : BitVec 32} {registers : CpuContext} {result : Int} {p : Nat}
    (fresh : FreshTask k)
    (made : sysFork k frame currSp forkEnd = some (k₁, frame', some (p, childFrame)))
    (found : getThreadTaskById k₁ pid = some (some p))
    (killed : Sched.kill k₁ pid registers = some (k₂, result)) :
    Life k [] [(k, .fork), (k₁, .kill pid)] k₂ [] := by
  refine .fork fresh made (.kill found List.mem_cons_self killed ?_)
  rw [List.erase_cons_head]
  exact .done

theorem Life.created {k k₁ k₂ : Kernel H} {callback : Word} {pid : BitVec 32}
    {registers : CpuContext} {result : Int} {p : Nat} (fresh : FreshTask k)
    (made : Sched.threadCreate k callback = some (k₁, some p))
    (frame : (k₁.tasks p).sigFrame ≠ none) (found : getThreadTaskById k₁ pid = some (some p))
    (killed : Sched.kill k₁ pid registers = some (k₂, result)) :
    Life k [] [(k, .threadCreate), (k₁, .kill pid)] k₂ [] := by
  refine .threadCreate fresh made frame (.kill found List.mem_cons_self killed ?_)
  rw [List.erase_cons_head]
  exact .done

omit [Allocator H] in
/-- Another thread may be killed whether or not one is ready. -/
theorem otherReady_killed {k : Kernel H} {pid : BitVec 32} {p : Nat}
    (found : getThreadTaskById k pid = some (some p)) (other : k.current ≠ some p) :
    OtherReady k (.kill pid) := by
  rintro (impossible | ⟨pid', same, self⟩)
  · cases impossible
  · cases same
    rw [found] at self
    exact absurd (Option.some.inj self).symm other

omit [Allocator H] in
theorem otherReady_of_ne {k : Kernel H} {op : Op} (notExit : op ≠ .exit)
    (notKill : ∀ pid, op ≠ .kill pid) : OtherReady k op := by
  rintro (exits | ⟨pid, kills, _⟩)
  · exact absurd exits notExit
  · exact absurd kills (notKill pid)

omit [Allocator H] in
theorem otherReady_created {k k₁ : Kernel H} {op : Op} {pid : BitVec 32} {p : Nat}
    (creates : op = .threadCreate ∨ op = .fork) (found : getThreadTaskById k₁ pid = some (some p))
    (other : k₁.current ≠ some p) :
    ∀ entry ∈ [(k, op), (k₁, .kill pid)], OtherReady entry.1 entry.2 := by
  refine List.forall_mem_cons.mpr ⟨?_, List.forall_mem_singleton.mpr (otherReady_killed found other)⟩
  rcases creates with rfl | rfl
  · exact otherReady_of_ne nofun nofun
  · exact otherReady_of_ne nofun nofun

/-- Before `sched_init`, in any state of the file system. -/
def beforeSchedOn (s : Fs.State H) : Kernel H :=
  { s with
    tasks := fun _ => blankTask
    readyQueue := none
    waitQueue := none
    zombieQueue := none
    threadCnt := 0
    current := none
    live := []
    addedUnlinked := True
    releasedZombies := True }

theorem schedInit_holds {s : Fs.State H} {k : Kernel H} {live : List Nat} {idle : Word}
    (holds : Holds s.heap live) (booted : schedInit (beforeSchedOn s) idle = some k) :
    ∃ live', Holds k.heap live' := by
  have held : Holds (beforeSchedOn s).heap live := holds
  obtain ⟨more, held'⟩ := schedInit_keeps held booted
  exact ⟨more ++ live, held'⟩

/-- After a start on a heap with a ledger. -/
def ledgerStarted : Kernel (Ledger BootHeap) :=
  (schedInit (beforeSchedOn ledgerInit) 0).get (by decide +kernel)

/-- The task of the idle thread. -/
def ledgerIdle : Nat := ((beforeSchedOn ledgerInit).alloc taskSize).2.get (by decide +kernel)

/-- The heap gives out new addresses, and no thread has exited. -/
theorem ledgerStarted_facts :
    (((beforeSchedOn ledgerInit).alloc taskSize).1.alloc taskSize).2 ≠ some ledgerIdle ∧
      (∀ p ∈ ledgerStarted.live, (ledgerStarted.tasks p).state ≠ .exited) ∧
        ((ledgerStarted.alloc taskSize).2.all fun p => p ∉ ledgerStarted.live) := by
  decide +kernel

theorem ledgerStarted_reachable : Reachable (fun _ _ => True) ledgerStarted := by
  have first : ((beforeSchedOn ledgerInit).alloc taskSize).2 = some ledgerIdle :=
    (Option.some_get _).symm
  exact .boot (.init rfl trivial trivial first ledgerStarted_facts.1 (Option.some_get _).symm)

theorem ledgerStarted_holds : ∃ live, Holds ledgerStarted.heap live := by
  obtain ⟨live, holds⟩ := Fs.ledgerInit_holds
  exact schedInit_holds holds (Option.some_get _).symm

theorem ledgerStarted_unspent : Unspent ledgerStarted := ledgerStarted_facts.2.1

/-- The first thread forks a child. -/
def ledgerFork : Kernel (Ledger BootHeap) × TrapFrame × Option (Nat × TrapFrame) :=
  (sysFork ledgerStarted blankFrame 0 0).get (by decide +kernel)

def ledgerChild : Nat × TrapFrame := ledgerFork.2.2.get (by decide +kernel)

/-- The child is killed. -/
def ledgerKilled : Kernel (Ledger BootHeap) × Int := (kill ledgerFork.1 1 .zero).get (by decide +kernel)

theorem ledgerFork_facts :
    getThreadTaskById ledgerFork.1 1 = some (some ledgerChild.1) ∧
      ledgerFork.1.current ≠ some ledgerChild.1 ∧ (kill ledgerFork.1 1 .zero).isSome ∧
        (killZombies ledgerKilled.1).isSome := by
  decide +kernel

theorem ledgerFork_life :
    Life ledgerStarted [] [(ledgerStarted, .fork), (ledgerFork.1, .kill 1)] ledgerKilled.1 [] := by
  have made : sysFork ledgerStarted blankFrame 0 0 =
      some (ledgerFork.1, ledgerFork.2.1, some (ledgerChild.1, ledgerChild.2)) := by
    have returned : some ledgerFork = sysFork ledgerStarted blankFrame 0 0 := Option.some_get _
    unfold ledgerChild
    rw [← returned, Prod.mk.eta, Option.some_get]
  obtain ⟨found, _, killed, _⟩ := ledgerFork_facts
  exact .forked (freshTask_of ledgerStarted_facts.2.2) made found (Fs.eq_some_get killed rfl)

/-- A child is forked, killed and released. -/
theorem lifetimes_neutral_fork : ∃ (k₁ k₂ : Kernel (Ledger BootHeap)) (trace : List _),
    Life ledgerStarted [] trace k₁ [] ∧ killZombies k₁ = some k₂ ∧
      Ledger.Neutral ledgerStarted.heap k₂.heap := by
  obtain ⟨live, holds⟩ := ledgerStarted_holds
  obtain ⟨found, other, _, returns⟩ := ledgerFork_facts
  obtain ⟨k₂, reaped⟩ := Option.isSome_iff_exists.mp returns
  refine ⟨_, k₂, _, ledgerFork_life, reaped, ?_⟩
  have ready := @otherReady_created _ ledgerStarted _ _ _ _ (Or.inr rfl) found other
  refine (lifetimes_neutral ledgerStarted_reachable holds ledgerStarted_unspent ledgerFork_life ready
    reaped).mpr ?_
  exact List.forall_mem_cons.mpr ⟨nofun, List.forall_mem_singleton.mpr nofun⟩

/-- The first thread creates another one. -/
def ledgerCreate : Kernel (Ledger BootHeap) × Option Nat :=
  (threadCreate ledgerStarted 0).get (by decide +kernel)

def ledgerThread : Nat := ledgerCreate.2.get (by decide +kernel)

/-- The new thread is killed. -/
def ledgerEnded : Kernel (Ledger BootHeap) × Int := (kill ledgerCreate.1 1 .zero).get (by decide +kernel)

theorem ledgerCreate_facts :
    (ledgerCreate.1.tasks ledgerThread).sigFrame ≠ none ∧
      getThreadTaskById ledgerCreate.1 1 = some (some ledgerThread) ∧
        ledgerCreate.1.current ≠ some ledgerThread ∧ (kill ledgerCreate.1 1 .zero).isSome ∧
          (killZombies ledgerEnded.1).isSome := by
  decide +kernel

theorem ledgerCreate_life : Life ledgerStarted []
    [(ledgerStarted, .threadCreate), (ledgerCreate.1, .kill 1)] ledgerEnded.1 [] := by
  have made : threadCreate ledgerStarted 0 = some (ledgerCreate.1, some ledgerThread) := by
    have returned : some ledgerCreate = threadCreate ledgerStarted 0 := Option.some_get _
    unfold ledgerThread
    rw [← returned, Option.some_get]
  obtain ⟨frame, found, _, killed, _⟩ := ledgerCreate_facts
  exact .created (freshTask_of ledgerStarted_facts.2.2) made frame found (Fs.eq_some_get killed rfl)

/-- A thread is created, killed and released, and the heap is not as before. -/
theorem created_thread_leaks : ∃ (k k₁ k₂ : Kernel (Ledger BootHeap)) (trace : List _),
    Reachable (fun _ _ => True) k ∧ (∃ live, Holds k.heap live) ∧ Unspent k ∧
      Life k [] trace k₁ [] ∧ killZombies k₁ = some k₂ ∧ ¬ Ledger.Neutral k.heap k₂.heap := by
  obtain ⟨live, holds⟩ := ledgerStarted_holds
  obtain ⟨_, found, other, _, returns⟩ := ledgerCreate_facts
  obtain ⟨k₂, reaped⟩ := Option.isSome_iff_exists.mp returns
  refine ⟨_, _, k₂, _, ledgerStarted_reachable, ⟨live, holds⟩, ledgerStarted_unspent,
    ledgerCreate_life, reaped, fun neutral => ?_⟩
  have ready := @otherReady_created _ ledgerStarted _ _ _ _ (Or.inl rfl) found other
  obtain ⟨living, start⟩ := ledgerStarted_reachable.living holds ledgerStarted_unspent
  obtain ⟨b, lost, ended, lost_iff⟩ := ledgerCreate_life.living start ready
  have released := ended.killZombies reaped
  have kept := (lost_iff.mp ((Ledger.neutral_iff holds released.holds).mp neutral)).2
  exact (List.forall_mem_cons.mp kept).1 rfl

end OsdiKernel.Sched
