import OsdiKernel.Fs.Opening
import OsdiKernel.Sched.Fork

/-!
# File descriptors

The system calls on the table of open files of the current task.  Their
arguments are in the trap frame, and so is their result.  Where the code
dereferences a null pointer there is no result.
-/

namespace OsdiKernel.Sched

open Fs (Name FileOps enosys einval BootHeap)

variable {H : Type} [Allocator H]

/-! ## Seeking -/

/-- `dev_uart_lseek64` and `dev_framebuffer_lseek64`: the end is where the file stands. -/
def deviceSeekTarget (fPos : Nat) (offset whence : Int) : Option Int :=
  if whence = 0 then some offset
  else if whence = 1 then some (Int.bmod (fPos + offset) (2 ^ 64))
  else if whence = 2 then some (Int.bmod fPos (2 ^ 64))
  else none

/-- The end of every `lseek64`. -/
def moveTo (s : Fs.State H) (file : Nat) (newPos : Option Int) : Fs.State H × Int :=
  match newPos with
  | none => (s, einval)
  | some newPos =>
      if newPos < 0 then (s, einval)
      else (s.setFile file { s.files file with fPos := newPos.toNat }, newPos)

/-- The common body of `tmpfs_lseek64` and `initramfs_lseek64`. -/
def nodeLseek64 (s : Fs.State H) (file : Nat) (offset whence : Int) : Fs.State H × Int :=
  match (s.files file).vnode.bind fun v => (s.vnodes v).internal with
  | none => (s, einval)
  | some n =>
      if (s.nodes n).type ≠ .file then (s, einval)
      else moveTo s file (Tmpfs.seekTarget (s.files file).fPos (s.nodes n).size offset whence)

def fileLseek64 (ops : FileOps) (s : Fs.State H) (file : Nat) (offset whence : Int) :
    Fs.State H × Int :=
  match ops with
  | .tmpfs => nodeLseek64 s file offset whence
  | .initramfs => nodeLseek64 s file offset whence
  | .uart => moveTo s file (deviceSeekTarget (s.files file).fPos offset whence)
  | .framebuffer => moveTo s file (deviceSeekTarget (s.files file).fPos offset whence)

/-- The return value is an `int`. -/
def vfsLseek64 (s : Fs.State H) (file : Option Nat) (offset whence : Int) : Fs.State H × Int :=
  match file with
  | none => (s, einval)
  | some f =>
      match (s.files f).fOps with
      | none => (s, enosys)
      | some ops =>
          let (s, newPos) := fileLseek64 ops s f offset whence
          (s, Int.bmod newPos (2 ^ 32))

/-! ## System calls -/

/-- The functions `write` and `read` of the four tables of file operations, on
an open file, a buffer of the caller and a length. -/
structure FileIo (H : Type) where
  write : FileOps → Kernel H → Nat → Word → Word → Option (Kernel H × Int)
  read : FileOps → Kernel H → Nat → Word → Word → Option (Kernel H × Int)

/-- The first argument as an `int`. -/
def fdArg (frame : TrapFrame) : Int := ((frame.x 0).setWidth 32).toInt

/-- The slot of a descriptor, if it is in range. -/
def slot (fd : Int) : Option (Fin threadMaxFd) :=
  if range : fd < 0 ∨ (threadMaxFd : Int) ≤ fd then none
  else some ⟨fd.toNat, by omega⟩

/-- The loop of `sys_open`: the first slot that is null. -/
def freeSlot (fdTable : Fin threadMaxFd → Option Nat) : Option (Fin threadMaxFd) :=
  (List.finRange threadMaxFd).find? fun i => (fdTable i).isNone

/-- `strings` is the memory of the caller: the string at each address. -/
def sysOpen (strings : Word → Name) (k : Kernel H) (frame : TrapFrame) :
    Option (Kernel H × TrapFrame) :=
  let pathname := strings (frame.x 0)
  let flags := ((frame.x 1).setWidth 32).toNat
  if frame.x 0 = 0 ∨ pathname = [] then some (k, frame.setX 0 (-1))
  else do
    let curr ← k.current
    match freeSlot (k.tasks curr).fdTable with
    | none => return (k, frame)
    | some i =>
        let (s, ret, file) ← Fs.vfsOpen k.toState (k.tasks curr).cwd pathname flags
        let k := { k with toState := s }.modify curr fun t =>
          { t with fdTable := Function.update t.fdTable i file }
        if ret ≠ 0 then return (k, frame.setX 0 (BitVec.ofInt 64 (-ret)))
        return (k, frame.setX 0 (BitVec.ofNat 64 i))

/-- `vfs_close` of a slot, which may be null. -/
def closeSlot (s : Fs.State H) (file : Option Nat) : Fs.State H × Int :=
  match file with
  | none => (s, einval)
  | some f => Fs.vfsClose s f

def sysClose (k : Kernel H) (frame : TrapFrame) : Option (Kernel H × TrapFrame) :=
  match slot (fdArg frame) with
  | none => some (k, frame.setX 0 (-1))
  | some fd =>
      match k.current with
      | none => some (k, frame)
      | some curr =>
          let (s, ret) := closeSlot k.toState ((k.tasks curr).fdTable fd)
          some ({ k with toState := s }.modify curr fun t =>
            { t with fdTable := Function.update t.fdTable fd none },
            frame.setX 0 (BitVec.ofInt 64 ret))

/-- The common end of `sys_write` and `sys_read`: the file must be there. -/
def transfer (io : FileOps → Kernel H → Nat → Word → Word → Option (Kernel H × Int)) (k : Kernel H)
    (frame : TrapFrame) (fd : Fin threadMaxFd) (buf count : Word) : Option (Kernel H × TrapFrame) :=
  match k.current with
  | none => some (k, frame.setX 0 (-1))
  | some curr => do
      let file ← (k.tasks curr).fdTable fd
      match (k.files file).vnode, (k.files file).fOps with
      | some _, some ops =>
          let (k, ret) ← io ops k file buf count
          return (k, frame.setX 0 (BitVec.ofInt 64 ret))
      | _, _ => return (k, frame.setX 0 (-1))

def sysWrite (io : FileIo H) (k : Kernel H) (frame : TrapFrame) : Option (Kernel H × TrapFrame) :=
  let buf := frame.x 1
  let count := ((frame.x 2).setWidth 32).setWidth 64
  match slot (fdArg frame) with
  | none => some (k, frame.setX 0 (-1))
  | some fd =>
      if buf = 0 ∨ count = 0 then some (k, frame.setX 0 (-1))
      else transfer io.write k frame fd buf count

def sysRead (io : FileIo H) (k : Kernel H) (frame : TrapFrame) : Option (Kernel H × TrapFrame) :=
  match slot (fdArg frame) with
  | none => some (k, frame.setX 0 (-1))
  | some fd => transfer io.read k frame fd (frame.x 1) (frame.x 2)

/-- The result of `vfs_lseek64` is dropped. -/
def sysLseek64 (k : Kernel H) (frame : TrapFrame) : Option (Kernel H × TrapFrame) :=
  let offset := (frame.x 1).toInt
  let whence := ((frame.x 2).setWidth 32).toInt
  match slot (fdArg frame) with
  | none => some (k, frame.setX 0 (-1))
  | some fd => do
      let curr ← k.current
      let (s, _) := vfsLseek64 k.toState ((k.tasks curr).fdTable fd) offset whence
      return ({ k with toState := s }, frame)

/-! ## The contract -/

inductive FdOp where
  | open
  | close
  | read
  | write
  | lseek64
  deriving DecidableEq

/-- A call with its arguments and the memory of its caller. -/
structure Call where
  op : FdOp
  frame : TrapFrame
  strings : Word → Name

def perform (io : FileIo H) (k : Kernel H) (call : Call) : Option (Kernel H × TrapFrame) :=
  match call.op with
  | .open => sysOpen call.strings k call.frame
  | .close => sysClose k call.frame
  | .read => sysRead io k call.frame
  | .write => sysWrite io k call.frame
  | .lseek64 => sysLseek64 k call.frame

omit [Allocator H] in
/-- The descriptor is out of range, or its slot is null. -/
def NoFile (k : Kernel H) (curr : Nat) (frame : TrapFrame) : Prop :=
  ∀ fd, slot (fdArg frame) = some fd → (k.tasks curr).fdTable fd = none

omit [Allocator H] in
/-- Nothing is changed but the first register, which is negative. -/
def Refused (k : Kernel H) (frame : TrapFrame) (result : Option (Kernel H × TrapFrame)) : Prop :=
  ∃ value : Word, value.toInt < 0 ∧ result = some (k, frame.setX 0 value)

/-- A file that was not in use is in the lowest slot that was null. -/
def Opens (k : Kernel H) (curr : Nat) (frame : TrapFrame)
    (result : Option (Kernel H × TrapFrame)) : Prop :=
  ∃ (k' : Kernel H) (fd : Fin threadMaxFd) (file v : Nat) (ops : FileOps),
    result = some (k', frame.setX 0 (BitVec.ofNat 64 fd)) ∧
      (k.tasks curr).fdTable fd = none ∧ (∀ i < fd, (k.tasks curr).fdTable i ≠ none) ∧
      k'.tasks = (k.modify curr fun t =>
        { t with fdTable := Function.update t.fdTable fd (some file) }).tasks ∧
      k'.files file = ⟨some v, 0, some ops, ((frame.x 1).setWidth 32).toNat⟩ ∧
      ∀ live, Allocator.Holds k.heap live → file ∉ live

omit [Allocator H] in
/-- The table is as it was, and the first register is negative. -/
def FailsToOpen (k : Kernel H) (frame : TrapFrame) (result : Option (Kernel H × TrapFrame)) : Prop :=
  ∃ (k' : Kernel H) (value : Word), value.toInt < 0 ∧
    result = some (k', frame.setX 0 value) ∧ k'.tasks = k.tasks

/-- What a call promises to its caller. -/
def Contract (io : FileIo H) (k : Kernel H) (call : Call) : Prop :=
  ∀ curr, k.current = some curr →
    match call.op with
    | .open => Opens k curr call.frame (perform io k call) ∨
        FailsToOpen k call.frame (perform io k call)
    | _ => NoFile k curr call.frame → Refused k call.frame (perform io k call)

/-- When the code keeps the promise. -/
def Conforms (k : Kernel H) (call : Call) : Prop :=
  ∀ curr, k.current = some curr →
    match call.op with
    | .open =>
        call.frame.x 0 = 0 ∨ call.strings (call.frame.x 0) = [] ∨
          match freeSlot (k.tasks curr).fdTable with
          | none => (call.frame.x 0).toInt < 0
          | some _ => ∃ s file, Fs.vfsOpen k.toState (k.tasks curr).cwd
              (call.strings (call.frame.x 0)) ((call.frame.x 1).setWidth 32).toNat = some (s, 0, file)
    | .close => True
    | .read => NoFile k curr call.frame → slot (fdArg call.frame) = none
    | .write => NoFile k curr call.frame → slot (fdArg call.frame) = none ∨
        call.frame.x 1 = 0 ∨ (call.frame.x 2).setWidth 32 = 0
    | .lseek64 => NoFile k curr call.frame → slot (fdArg call.frame) = none ∨
        (call.frame.x 0).toInt < 0

/-- A property of every call of a sequence, in the state in which it is made. -/
def Along (io : FileIo H) (P : Kernel H → Call → Prop) : Kernel H → List Call → Prop
  | _, [] => True
  | k, call :: calls => P k call ∧
      ∀ k' frame', perform io k call = some (k', frame') → Along io P k' calls

/-! ## Slots and registers -/

theorem freeSlot_none {fdTable : Fin threadMaxFd → Option Nat} (full : freeSlot fdTable = none)
    (i : Fin threadMaxFd) : fdTable i ≠ none := by
  have taken := List.find?_eq_none.mp full i (List.mem_finRange i)
  intro free
  rw [free] at taken
  exact taken rfl

theorem freeSlot_some {fdTable : Fin threadMaxFd → Option Nat} {i : Fin threadMaxFd}
    (found : freeSlot fdTable = some i) : fdTable i = none ∧ ∀ j < i, fdTable j ≠ none := by
  obtain ⟨isFree, before, after, shape, taken⟩ := List.find?_eq_some_iff_append.mp found
  refine ⟨Option.isNone_iff_eq_none.mp isFree, fun j earlier free => ?_⟩
  have sorted : (before ++ i :: after).Pairwise (· < ·) := shape ▸ List.pairwise_lt_finRange _
  have member : j ∈ before ++ i :: after := shape ▸ List.mem_finRange j
  rcases List.mem_append.mp member with first | later
  · have occupied := taken j first
    rw [free] at occupied
    cases occupied
  · rcases List.mem_cons.mp later with rfl | last
    · exact Nat.lt_irrefl _ earlier
    · have above := (List.pairwise_cons.mp (List.pairwise_append.mp sorted).2.1).1 j last
      exact Nat.lt_asymm earlier above

theorem setX_self (frame : TrapFrame) : frame.setX 0 (frame.x 0) = frame := by
  unfold TrapFrame.setX
  rw [Function.update_eq_self]

@[simp] theorem setX_x (frame : TrapFrame) (value : Word) : (frame.setX 0 value).x 0 = value := by
  simp [TrapFrame.setX]

/-- The negation of the code of an error is positive. -/
theorem negated_code {ret : Int} (code : Fs.IsCode ret) :
    ¬ (BitVec.ofInt 64 (-ret)).toInt < 0 := by
  obtain ⟨lower, upper⟩ := code
  rw [BitVec.toInt_ofInt, Int.bmod_def]
  omega

omit [Allocator H] in
theorem modify_same {k : Kernel H} {p : Nat} (f : Task → Task) (same : f (k.tasks p) = k.tasks p) :
    k.modify p f = k := by
  unfold Kernel.modify
  rw [same, Function.update_eq_self]

omit [Allocator H] in
/-- A call that returns with its registers as they were is refused only if the
first one is negative by chance. -/
theorem refused_unchanged_iff {k : Kernel H} {frame : TrapFrame} :
    Refused k frame (some (k, frame)) ↔ (frame.x 0).toInt < 0 := by
  constructor
  · rintro ⟨value, negative, same⟩
    have x0 := congrArg (fun r => r.2.x 0) (Option.some.inj same)
    rw [setX_x] at x0
    exact x0 ▸ negative
  · intro negative
    exact ⟨frame.x 0, negative, by rw [setX_self]⟩

/-! ## Each call -/

section Calls

variable {io : FileIo H} {k : Kernel H} {curr : Nat} {frame : TrapFrame} {strings : Word → Name}

theorem open_iff (isCurrent : k.current = some curr) :
    (Opens k curr frame (sysOpen strings k frame) ∨ FailsToOpen k frame (sysOpen strings k frame)) ↔
      frame.x 0 = 0 ∨ strings (frame.x 0) = [] ∨
        match freeSlot (k.tasks curr).fdTable with
        | none => (frame.x 0).toInt < 0
        | some _ => ∃ s file, Fs.vfsOpen k.toState (k.tasks curr).cwd
            (strings (frame.x 0)) ((frame.x 1).setWidth 32).toNat = some (s, 0, file) := by
  by_cases named : frame.x 0 = 0 ∨ strings (frame.x 0) = []
  · have result : sysOpen strings k frame = some (k, frame.setX 0 (-1)) := by
      unfold sysOpen
      exact if_pos named
    rw [result]
    exact ⟨fun _ => named.imp_right Or.inl, fun _ => Or.inr ⟨k, -1, by decide, rfl, rfl⟩⟩
  · have result : sysOpen strings k frame = (k.current.bind fun curr =>
        match freeSlot (k.tasks curr).fdTable with
        | none => some (k, frame)
        | some i => (Fs.vfsOpen k.toState (k.tasks curr).cwd (strings (frame.x 0))
            ((frame.x 1).setWidth 32).toNat).bind fun r =>
              let k := { k with toState := r.1 }.modify curr fun t =>
                { t with fdTable := Function.update t.fdTable i r.2.2 }
              if r.2.1 ≠ 0 then some (k, frame.setX 0 (BitVec.ofInt 64 (-r.2.1)))
              else some (k, frame.setX 0 (BitVec.ofNat 64 i))) := by
      unfold sysOpen
      exact if_neg named
    rw [isCurrent, Option.bind_some] at result
    rw [result, or_iff_right (fun null => named (Or.inl null)),
      or_iff_right (fun empty => named (Or.inr empty))]
    clear result
    cases free : freeSlot (k.tasks curr).fdTable with
    | none =>
        dsimp only
        constructor
        · rintro (⟨_, fd, _, _, _, _, isNull, _⟩ | ⟨k', value, negative, same, _⟩)
          · exact absurd isNull (freeSlot_none free fd)
          · have x0 := congrArg (fun r => r.2.x 0) (Option.some.inj same)
            rw [setX_x] at x0
            exact x0 ▸ negative
        · exact fun negative => Or.inr ⟨k, frame.x 0, negative, by rw [setX_self], rfl⟩
    | some i =>
        obtain ⟨isNull, lowest⟩ := freeSlot_some free
        dsimp only
        cases opened : Fs.vfsOpen k.toState (k.tasks curr).cwd (strings (frame.x 0))
            ((frame.x 1).setWidth 32).toNat with
        | none =>
            constructor
            · rintro (⟨_, _, _, _, _, impossible, _⟩ | ⟨_, _, _, impossible, _⟩) <;> cases impossible
            · rintro ⟨_, _, impossible⟩
              cases impossible
        | some outcome =>
            obtain ⟨s, ret, file⟩ := outcome
            obtain ⟨code, failed, succeeded⟩ := Fs.vfsOpen_result opened
            rw [Option.bind_some]
            dsimp only
            by_cases success : ret = 0
            · subst success
              obtain ⟨f, v, ops, rfl, contents⟩ := succeeded rfl
              rw [if_neg (not_not.mpr rfl)]
              refine iff_of_true (Or.inl ?_) ⟨s, some f, rfl⟩
              exact ⟨_, i, f, v, ops, rfl, isNull, lowest, rfl, contents,
                fun live holds => Fs.vfsOpen_fresh holds opened⟩
            · obtain rfl := failed success
              rw [if_pos success]
              refine iff_of_false ?_ ?_
              · rintro (⟨k', fd, file, _, _, same, wasNull, _, tasks, _⟩ | ⟨_, value, negative, same, _⟩)
                · obtain ⟨sameState, _⟩ := Prod.mk.inj (Option.some.inj same)
                  rw [← sameState] at tasks
                  have tables := congrFun (congrArg Task.fdTable (congrFun tasks curr)) fd
                  dsimp only [Kernel.modify] at tables
                  rw [Function.update_self, Function.update_self] at tables
                  dsimp only at tables
                  rw [Function.update_self] at tables
                  by_cases here : fd = i
                  · rw [here, Function.update_self] at tables
                    cases tables
                  · rw [Function.update_of_ne here, wasNull] at tables
                    cases tables
                · have x0 := congrArg (fun r => r.2.x 0) (Option.some.inj same)
                  dsimp only at x0
                  rw [setX_x, setX_x] at x0
                  exact negated_code code (x0 ▸ negative)
              · rintro ⟨_, _, same⟩
                cases same
                exact success rfl

theorem close_refused (isCurrent : k.current = some curr) (noFile : NoFile k curr frame) :
    Refused k frame (sysClose k frame) := by
  unfold sysClose
  cases inRange : slot (fdArg frame) with
  | none => exact ⟨-1, by decide, rfl⟩
  | some fd =>
      have isNull := noFile fd inRange
      dsimp only
      split
      · next missing =>
          rw [isCurrent] at missing
          cases missing
      · next found =>
          rw [isCurrent] at found
          cases found
          rw [isNull]
          refine ⟨BitVec.ofInt 64 einval, by decide, congrArg some (Prod.ext ?_ rfl)⟩
          have cleared : Function.update (k.tasks curr).fdTable fd none = (k.tasks curr).fdTable := by
            rw [← isNull, Function.update_eq_self]
          refine modify_same (fun t => { t with fdTable := Function.update t.fdTable fd none }) ?_
          dsimp only
          rw [cleared]

omit [Allocator H] in
/-- A null slot is dereferenced. -/
theorem transfer_faults {ops : FileOps → Kernel H → Nat → Word → Word → Option (Kernel H × Int)}
    {fd : Fin threadMaxFd} {buf count : Word} (isCurrent : k.current = some curr)
    (isNull : (k.tasks curr).fdTable fd = none) : transfer ops k frame fd buf count = none := by
  unfold transfer
  rw [isCurrent]
  dsimp only
  rw [isNull]
  rfl

omit [Allocator H] in
theorem read_iff (isCurrent : k.current = some curr) (noFile : NoFile k curr frame) :
    Refused k frame (sysRead io k frame) ↔ slot (fdArg frame) = none := by
  unfold sysRead
  cases inRange : slot (fdArg frame) with
  | none => exact iff_of_true ⟨-1, by decide, rfl⟩ rfl
  | some fd =>
      dsimp only
      rw [transfer_faults isCurrent (noFile fd inRange)]
      refine iff_of_false ?_ (Option.some_ne_none fd)
      rintro ⟨_, _, impossible⟩
      cases impossible

omit [Allocator H] in
theorem write_iff (isCurrent : k.current = some curr) (noFile : NoFile k curr frame) :
    Refused k frame (sysWrite io k frame) ↔
      slot (fdArg frame) = none ∨ frame.x 1 = 0 ∨ (frame.x 2).setWidth 32 = 0 := by
  have count : ((frame.x 2).setWidth 32).setWidth 64 = (0 : Word) ↔ (frame.x 2).setWidth 32 = 0 := by
    generalize (frame.x 2).setWidth 32 = word
    bv_omega
  refine Iff.trans ?_ (or_congr_right (or_congr_right count))
  unfold sysWrite
  dsimp only
  cases inRange : slot (fdArg frame) with
  | none => exact iff_of_true ⟨-1, by decide, rfl⟩ (Or.inl rfl)
  | some fd =>
      dsimp only
      split
      · next checked => exact iff_of_true ⟨-1, by decide, rfl⟩ (Or.inr checked)
      · next unchecked =>
          rw [transfer_faults isCurrent (noFile fd inRange)]
          refine iff_of_false ?_ (fun holds => holds.elim (Option.some_ne_none fd) unchecked)
          rintro ⟨_, _, impossible⟩
          cases impossible

omit [Allocator H] in
theorem lseek64_iff (isCurrent : k.current = some curr) (noFile : NoFile k curr frame) :
    Refused k frame (sysLseek64 k frame) ↔
      slot (fdArg frame) = none ∨ (frame.x 0).toInt < 0 := by
  cases inRange : slot (fdArg frame) with
  | none =>
      refine iff_of_true ⟨-1, by decide, ?_⟩ (Or.inl rfl)
      unfold sysLseek64
      rw [inRange]
  | some fd =>
      have result : sysLseek64 k frame = some (k, frame) := by
        unfold sysLseek64
        rw [inRange]
        refine Option.bind_eq_some_iff.mpr ⟨curr, isCurrent, ?_⟩
        rw [noFile fd inRange]
        rfl
      rw [result]
      exact refused_unchanged_iff.trans (or_iff_right (Option.some_ne_none fd)).symm

/-- A call keeps the promise just when it is well behaved. -/
theorem contract_iff (io : FileIo H) (k : Kernel H) (call : Call) :
    Contract io k call ↔ Conforms k call := by
  obtain ⟨op, frame, strings⟩ := call
  unfold Contract Conforms
  refine forall_congr' fun curr => forall_congr' fun isCurrent => ?_
  cases op with
  | «open» => exact open_iff isCurrent
  | close => exact iff_of_true (fun noFile => close_refused isCurrent noFile) trivial
  | read => exact forall_congr' fun noFile => read_iff isCurrent noFile
  | write => exact forall_congr' fun noFile => write_iff isCurrent noFile
  | lseek64 => exact forall_congr' fun noFile => lseek64_iff isCurrent noFile

/-- A read in range without a file breaks the promise. -/
theorem read_breaks {fd : Fin threadMaxFd} (isCurrent : k.current = some curr)
    (inRange : slot (fdArg frame) = some fd) (isNull : (k.tasks curr).fdTable fd = none) :
    ¬ Contract io k ⟨.read, frame, strings⟩ := by
  intro contract
  have noFile : NoFile k curr frame := by
    intro i found
    rw [inRange] at found
    cases found
    exact isNull
  have outOfRange := (read_iff isCurrent noFile).mp (contract curr isCurrent noFile)
  rw [inRange] at outOfRange
  cases outOfRange

/-- In every sequence the calls keep the promise just when they are well behaved. -/
theorem calls_contract_iff (io : FileIo H) (k : Kernel H) (calls : List Call) :
    Along io (Contract io) k calls ↔ Along io Conforms k calls := by
  induction calls generalizing k with
  | nil => exact Iff.rfl
  | cons call calls ih =>
      refine and_congr (contract_iff io k call) ?_
      exact forall_congr' fun k' => forall_congr' fun _ => forall_congr' fun _ => ih k'

end Calls

/-! ## A read of a null slot -/

/-- The arguments of `sys_read` of the descriptor 3. -/
def readFrame : TrapFrame := ⟨fun i => if i = 0 then 3 else 1, 0, 0, 0⟩

/-- A read of a descriptor that is not open is not refused: it faults. -/
theorem read_of_null_slot : ∃ (k : Kernel BootHeap) (call : Call),
    Reachable (fun _ _ => True) k ∧ ∀ io, ¬ Contract io k call := by
  have third : slot (fdArg readFrame) = some 3 := by decide
  have isNull : (secondRuns.tasks idleThread).fdTable 3 = none := by decide +kernel
  exact ⟨secondRuns, ⟨.read, readFrame, fun _ => []⟩, secondRuns_reachable,
    fun _ => read_breaks idleThread_current third isNull⟩

end OsdiKernel.Sched
