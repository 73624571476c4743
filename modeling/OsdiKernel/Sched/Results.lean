import OsdiKernel.Fs.Transfer
import OsdiKernel.Sched.Descriptors

/-!
# The results of the system calls on files

The first register of the trap frame is the result that a program sees.  It
should be negative when the operation failed, and else what the operation returned.
-/

namespace OsdiKernel.Sched

open Fs (Name FileOps einval enosys BootHeap IsCode IsError)

variable {H : Type} [Allocator H]

/-! ## The other system calls -/

/-- The functions `write` and `read` of the tables, with the characters that arrive
at the UART. -/
def fileIo (input : Nat → UInt8) : FileIo H where
  write ops k file buf count := do
    let (s, done) ← ops.write k.toState file buf.toNat count.toNat
    return ({ k with toState := s }, Fs.returned done)
  read ops k file buf count :=
    let (s, done) := ops.read input k.toState file buf.toNat count.toNat
    some ({ k with toState := s }, Fs.returned done)

/-- A string argument that is refused. -/
abbrev noString (strings : Word → Name) (p : Word) : Prop := p = 0 ∨ strings p = []

/-- The common end of `sys_mkdir`, `sys_mount` and `sys_chdir`. -/
def finish (frame : TrapFrame) (ret : Int) : TrapFrame :=
  if ret < 0 then frame.setX 0 (BitVec.ofInt 64 ret) else frame.setX 0 0

/-- `vfs_mkdir` reads the current directory of the current task. -/
def sysMkdir (strings : Word → Name) (k : Kernel H) (frame : TrapFrame) :
    Option (Kernel H × TrapFrame) :=
  if noString strings (frame.x 0) then some (k, frame.setX 0 (-1))
  else do
    let curr ← k.current
    let (s, ret, _) ← Fs.vfsMkdir k.toState (k.tasks curr).cwd (strings (frame.x 0))
    return ({ k with toState := s }, finish frame ret)

def sysMount (strings : Word → Name) (k : Kernel H) (frame : TrapFrame) :
    Option (Kernel H × TrapFrame) :=
  if noString strings (frame.x 1) then some (k, frame.setX 0 (-1))
  else if noString strings (frame.x 2) then some (k, frame.setX 0 (-1))
  else do
    let curr ← k.current
    let (s, ret) ← Fs.vfsMount k.toState (k.tasks curr).cwd (strings (frame.x 1))
      (strings (frame.x 2))
    return ({ k with toState := s }, finish frame ret)

/-- `vfs_lookup(path, &curr->cwd)`: the target of the lookup is the field that it reads,
and it is set to null first. -/
def lookupCwd (k : Kernel H) (curr : Nat) (path : Name) : Option (Kernel H × Int) := do
  let k := k.modify curr fun t => { t with cwd := none }
  let (s, ret, target) ← Fs.vfsLookup k.toState (k.tasks curr).cwd path
  return ({ k with toState := s }.modify curr fun t => { t with cwd := target }, ret)

def sysChdir (strings : Word → Name) (k : Kernel H) (frame : TrapFrame) :
    Option (Kernel H × TrapFrame) :=
  if noString strings (frame.x 0) then some (k, frame.setX 0 (-1))
  else
    match k.current with
    | none => some (k, frame.setX 0 (-1))
    | some curr => do
        let (k, ret) ← lookupCwd k curr (strings (frame.x 0))
        return (k, finish frame ret)

/-! ## The convention -/

inductive SysOp where
  | fd (op : FdOp)
  | mkdir
  | mount
  | chdir
  deriving DecidableEq

/-- A system call with its arguments, the memory of its caller and the characters that
arrive at the UART. -/
structure SysCall where
  op : SysOp
  frame : TrapFrame
  strings : Word → Name
  input : Nat → UInt8

/-- The effect of a system call. -/
def handle (k : Kernel H) (call : SysCall) : Option (Kernel H × TrapFrame) :=
  match call.op with
  | .fd op => perform (fileIo call.input) k ⟨op, call.frame, call.strings⟩
  | .mkdir => sysMkdir call.strings k call.frame
  | .mount => sysMount call.strings k call.frame
  | .chdir => sysChdir call.strings k call.frame

/-- An operation that has no result but 0. -/
def ofCode (ret : Int) : Except Int Int := if ret < 0 then .error ret else .ok ret

/-- A refused argument. -/
def refused : Option (Except Int Int) := some (.error (-1))

/-- The common check of `sys_write` and `sys_read`: the operations of an open file. -/
def openFile (k : Kernel H) (curr : Nat) (fd : Fin threadMaxFd) : Option (Nat × FileOps) := do
  let file ← (k.tasks curr).fdTable fd
  let _ ← (k.files file).vnode
  let ops ← (k.files file).fOps
  return (file, ops)

/-- What `lseek64` does to a file, with the position as a `long`. -/
def seekOutcome (s : Fs.State H) (file : Option Nat) (offset whence : Int) : Except Int Int :=
  match file with
  | none => .error einval
  | some f =>
      match (s.files f).fOps with
      | none => .error enosys
      | some ops => ofCode (fileLseek64 ops s f offset whence).2

/-- What the operation behind a call does: the code of its error, or its result.  There
is none where the code faults inside. -/
def outcome (k : Kernel H) (curr : Nat) (call : SysCall) : Option (Except Int Int) :=
  let frame := call.frame
  match call.op with
  | .fd .open =>
      if noString call.strings (frame.x 0) then refused
      else
        match freeSlot (k.tasks curr).fdTable with
        | none => refused
        | some i => do
            let (_, ret, _) ← Fs.vfsOpen k.toState (k.tasks curr).cwd (call.strings (frame.x 0))
              ((frame.x 1).setWidth 32).toNat
            return if ret = 0 then .ok i else .error ret
  | .fd .close =>
      match slot (fdArg frame) with
      | none => refused
      | some fd => some (ofCode (closeSlot k.toState ((k.tasks curr).fdTable fd)).2)
  | .fd .read =>
      match (slot (fdArg frame)).bind (openFile k curr) with
      | none => refused
      | some (file, ops) =>
          some ((ops.read call.input k.toState file (frame.x 1).toNat (frame.x 2).toNat).2.map (↑))
  | .fd .write =>
      let count := ((frame.x 2).setWidth 32).toNat
      match (slot (fdArg frame)).bind (openFile k curr) with
      | none => refused
      | some (file, ops) =>
          if frame.x 1 = 0 ∨ count = 0 then refused
          else do
            let (_, done) ← ops.write k.toState file (frame.x 1).toNat count
            return done.map (↑)
  | .fd .lseek64 =>
      match slot (fdArg frame) with
      | none => refused
      | some fd => some (seekOutcome k.toState ((k.tasks curr).fdTable fd) (frame.x 1).toInt
          ((frame.x 2).setWidth 32).toInt)
  | .mkdir =>
      if noString call.strings (frame.x 0) then refused
      else do
        let (_, ret, _) ← Fs.vfsMkdir k.toState (k.tasks curr).cwd (call.strings (frame.x 0))
        return ofCode ret
  | .mount =>
      if noString call.strings (frame.x 1) ∨ noString call.strings (frame.x 2) then refused
      else do
        let (_, ret) ← Fs.vfsMount k.toState (k.tasks curr).cwd (call.strings (frame.x 1))
          (call.strings (frame.x 2))
        return ofCode ret
  | .chdir =>
      if noString call.strings (frame.x 0) then refused
      else do
        let (_, ret) ← lookupCwd k curr (call.strings (frame.x 0))
        return ofCode ret

/-- The register is negative after a failure, and else the result. -/
def Conveys (done : Except Int Int) (x0 : Word) : Prop :=
  match done with
  | .error _ => x0.toInt < 0
  | .ok value => 0 ≤ x0.toInt ∧ x0.toInt = value

/-- The call returns, and its first register conveys what the operation did. -/
def Follows (done : Option (Except Int Int)) (result : Option (Kernel H × TrapFrame)) : Prop :=
  ∃ d k' frame', done = some d ∧ result = some (k', frame') ∧ Conveys d (frame'.x 0)

/-- When the convention is kept. -/
def Conveyed (k : Kernel H) (curr : Nat) (call : SysCall) : Prop :=
  let frame := call.frame
  match call.op with
  | .fd .open =>
      noString call.strings (frame.x 0) ∨
        match freeSlot (k.tasks curr).fdTable with
        | none => (frame.x 0).toInt < 0
        | some _ => ∃ s file, Fs.vfsOpen k.toState (k.tasks curr).cwd
            (call.strings (frame.x 0)) ((frame.x 1).setWidth 32).toNat = some (s, 0, file)
  | .fd .close => True
  | .fd .read =>
      ∀ fd, slot (fdArg frame) = some fd → (k.tasks curr).fdTable fd ≠ none ∧
        ∀ file ops n, openFile k curr fd = some (file, ops) →
          (ops.read call.input k.toState file (frame.x 1).toNat (frame.x 2).toNat).2 = .ok n →
            n < 2 ^ 31
  | .fd .write =>
      let count := ((frame.x 2).setWidth 32).toNat
      frame.x 1 = 0 ∨ count = 0 ∨
        ∀ fd, slot (fdArg frame) = some fd → (k.tasks curr).fdTable fd ≠ none ∧
          ∀ file ops, openFile k curr fd = some (file, ops) →
            ∃ s done, ops.write k.toState file (frame.x 1).toNat count = some (s, done) ∧
              ∀ n, done = .ok n → n < 2 ^ 31
  | .fd .lseek64 =>
      ∀ fd, slot (fdArg frame) = some fd →
        match seekOutcome k.toState ((k.tasks curr).fdTable fd) (frame.x 1).toInt
          ((frame.x 2).setWidth 32).toInt with
        | .error _ => (frame.x 0).toInt < 0
        | .ok newPos => (frame.x 0).toInt = newPos
  | .mkdir => noString call.strings (frame.x 0) ∨
      Fs.vfsMkdir k.toState (k.tasks curr).cwd (call.strings (frame.x 0)) ≠ none
  | .mount => noString call.strings (frame.x 1) ∨ noString call.strings (frame.x 2) ∨
      Fs.vfsMount k.toState (k.tasks curr).cwd (call.strings (frame.x 1))
        (call.strings (frame.x 2)) ≠ none
  | .chdir => noString call.strings (frame.x 0) ∨
      Fs.vfsLookup k.toState none (call.strings (frame.x 0)) ≠ none

/-! ## Registers -/

section Registers

variable {k : Kernel H} {frame : TrapFrame} {d : Except Int Int} {ret : Int}

theorem toInt_ofInt_of {n : Int} (lower : -2 ^ 63 ≤ n) (upper : n < 2 ^ 63) :
    (BitVec.ofInt 64 n).toInt = n := by
  rw [BitVec.toInt_ofInt]
  exact Int.bmod_eq_of_le (by omega) (by omega)

theorem toInt_code (code : IsCode ret) : (BitVec.ofInt 64 ret).toInt = ret := by
  obtain ⟨lower, upper⟩ := code
  exact toInt_ofInt_of (by omega) (by omega)

omit [Allocator H] in
theorem follows_iff {frame' : TrapFrame} :
    Follows (some d) (some (k, frame')) ↔ Conveys d (frame'.x 0) := by
  constructor
  · rintro ⟨d', k', f', same, result, conveys⟩
    cases same
    cases result
    exact conveys
  · exact fun conveys => ⟨d, k, frame', rfl, rfl, conveys⟩

omit [Allocator H] in
theorem not_follows {done : Option (Except Int Int)} :
    ¬ Follows done (none : Option (Kernel H × TrapFrame)) := by
  rintro ⟨_, _, _, _, impossible, _⟩
  cases impossible

omit [Allocator H] in
/-- A refused argument is reported. -/
theorem follows_refused : Follows refused (some (k, frame.setX 0 (-1))) := by
  refine follows_iff.mpr ?_
  rw [setX_x]
  show (-1 : Word).toInt < 0
  decide

/-- The code of an error, and 0, are reported. -/
theorem conveys_code (code : IsCode ret) : Conveys (ofCode ret) (BitVec.ofInt 64 ret) := by
  unfold ofCode
  split
  · next negative =>
      show (BitVec.ofInt 64 ret).toInt < 0
      rwa [toInt_code code]
  · next nonnegative =>
      refine ⟨?_, toInt_code code⟩
      rw [toInt_code code]
      omega

theorem conveys_slot (i : Fin threadMaxFd) : Conveys (.ok (i : Int)) (BitVec.ofNat 64 i) := by
  have inRange : i.val < 16 := i.isLt
  have same : (BitVec.ofNat 64 i).toInt = (i : Int) := by
    rw [BitVec.toInt_ofNat', Int.bmod_def]
    omega
  exact ⟨by omega, same⟩

theorem conveys_finish (code : IsCode ret) : Conveys (ofCode ret) ((finish frame ret).x 0) := by
  unfold finish
  split
  · rw [setX_x]
    exact conveys_code code
  · next nonnegative =>
      have zero : ret = 0 := by
        have upper := code.2
        omega
      subst zero
      rw [setX_x]
      exact conveys_code code

/-- A number of bytes is reported if it is a number of the type `int`. -/
theorem conveys_returned {done : Except Int Nat}
    (errors : ∀ code, done = .error code → IsError code) :
    Conveys (done.map (↑)) (BitVec.ofInt 64 (Fs.returned done)) ↔ ∀ n, done = .ok n → n < 2 ^ 31 := by
  cases done with
  | error code =>
      obtain ⟨⟨lower, upper⟩, nonzero⟩ := errors code rfl
      refine iff_of_true ?_ (fun n impossible => nomatch impossible)
      show (BitVec.ofInt 64 code).toInt < 0
      rw [toInt_ofInt_of (by omega) (by omega)]
      omega
  | ok count =>
      have kept : (BitVec.ofInt 64 (Tmpfs.toInt count)).toInt = Tmpfs.toInt count := by
        have lower := @Int.le_bmod count (2 ^ 32) (by decide)
        have upper := @Int.bmod_lt count (2 ^ 32) (by decide)
        unfold Tmpfs.toInt
        exact toInt_ofInt_of (by omega) (by omega)
      have fits : Tmpfs.toInt count = count ↔ count < 2 ^ 31 := by
        unfold Tmpfs.toInt
        rw [Int.bmod_def]
        omega
      constructor
      · rintro ⟨_, same⟩ n isCount
        cases isCount
        exact fits.mp (kept.symm.trans same)
      · intro small
        have same := kept.trans (fits.mpr (small count rfl))
        refine ⟨?_, same⟩
        show 0 ≤ (BitVec.ofInt 64 (Tmpfs.toInt count)).toInt
        rw [same]
        omega

end Registers

/-! ## Each call -/

section Calls

variable {k : Kernel H} {curr : Nat} {frame : TrapFrame} {strings : Word → Name}
  {input : Nat → UInt8}

theorem open_follows (isCurrent : k.current = some curr) :
    Follows (outcome k curr ⟨.fd .open, frame, strings, input⟩) (sysOpen strings k frame) ↔
      Conveyed k curr ⟨.fd .open, frame, strings, input⟩ := by
  unfold outcome Conveyed sysOpen
  dsimp only
  by_cases named : noString strings (frame.x 0)
  · rw [if_pos named]
    exact iff_of_true ((if_pos named).symm ▸ follows_refused) (Or.inl named)
  · rw [if_neg named, or_iff_right named, if_neg named, isCurrent]
    show Follows _ (match freeSlot (k.tasks curr).fdTable with | none => _ | some i => _) ↔ _
    cases freeSlot (k.tasks curr).fdTable with
    | none => exact follows_iff
    | some i =>
        dsimp only
        cases opened : Fs.vfsOpen k.toState (k.tasks curr).cwd (strings (frame.x 0))
            ((frame.x 1).setWidth 32).toNat with
        | none =>
            refine iff_of_false not_follows ?_
            rintro ⟨_, _, impossible⟩
            cases impossible
        | some result =>
            obtain ⟨s, ret, file⟩ := result
            have code := (Fs.vfsOpen_result opened).1
            show Follows (some (if ret = 0 then .ok (i : Int) else .error ret))
              (if ret ≠ 0 then some _ else some _) ↔ _
            by_cases success : ret = 0
            · subst success
              rw [if_pos rfl, if_neg (not_not.mpr rfl)]
              refine iff_of_true (follows_iff.mpr ?_) ⟨s, file, rfl⟩
              rw [setX_x]
              exact conveys_slot i
            · rw [if_neg success, if_pos success, follows_iff, setX_x]
              refine iff_of_false (negated_code code) ?_
              rintro ⟨_, _, same⟩
              cases same
              exact success rfl

theorem close_follows (isCurrent : k.current = some curr) :
    Follows (outcome k curr ⟨.fd .close, frame, strings, input⟩) (sysClose k frame) := by
  unfold outcome sysClose
  dsimp only
  cases slot (fdArg frame) with
  | none => exact follows_refused
  | some fd =>
      dsimp only
      rw [isCurrent]
      refine follows_iff.mpr ?_
      rw [setX_x]
      refine conveys_code ?_
      unfold closeSlot
      cases (k.tasks curr).fdTable fd with
      | none =>
          show IsCode einval
          decide
      | some f => exact Fs.vfsClose_code k.toState f

omit [Allocator H] in
/-- What `transfer` does with a descriptor. -/
theorem transfer_eq {io : FileOps → Kernel H → Nat → Word → Word → Option (Kernel H × Int)}
    {fd : Fin threadMaxFd} {buf count : Word} (isCurrent : k.current = some curr)
    (taken : (k.tasks curr).fdTable fd ≠ none) :
    transfer io k frame fd buf count =
      match openFile k curr fd with
      | none => some (k, frame.setX 0 (-1))
      | some (file, ops) => (io ops k file buf count).map fun r =>
          (r.1, frame.setX 0 (BitVec.ofInt 64 r.2)) := by
  obtain ⟨file, isFile⟩ := Option.ne_none_iff_exists'.mp taken
  unfold transfer openFile
  rw [isCurrent]
  dsimp only
  rw [isFile]
  dsimp only [bind, Option.bind]
  cases (k.files file).vnode with
  | none => rfl
  | some v =>
      cases (k.files file).fOps with
      | none => rfl
      | some ops =>
          dsimp only [pure]
          cases io ops k file buf count <;> rfl

theorem read_follows (isCurrent : k.current = some curr) :
    Follows (outcome k curr ⟨.fd .read, frame, strings, input⟩) (sysRead (fileIo input) k frame) ↔
      Conveyed k curr ⟨.fd .read, frame, strings, input⟩ := by
  unfold outcome Conveyed sysRead
  dsimp only
  cases slot (fdArg frame) with
  | none => exact iff_of_true follows_refused (fun _ impossible => nomatch impossible)
  | some fd =>
      dsimp only [Option.bind_some]
      by_cases taken : (k.tasks curr).fdTable fd = none
      · rw [transfer_faults isCurrent taken]
        exact iff_of_false not_follows fun holds => (holds fd rfl).1 taken
      · rw [transfer_eq isCurrent taken]
        cases opened : openFile k curr fd with
        | none =>
            refine iff_of_true follows_refused ?_
            rintro _ ⟨⟩
            refine ⟨taken, fun file ops n found => ?_⟩
            rw [opened] at found
            cases found
        | some found =>
            obtain ⟨file, ops⟩ := found
            refine follows_iff.trans ?_
            rw [setX_x]
            refine (conveys_returned fun code failed => Fs.read_error (Prod.ext rfl failed)).trans ?_
            constructor
            · rintro small _ ⟨⟩
              refine ⟨taken, fun file' ops' n found => ?_⟩
              rw [opened] at found
              cases found
              exact small n
            · intro holds n
              exact (holds fd rfl).2 file ops n opened

theorem write_follows (isCurrent : k.current = some curr) :
    Follows (outcome k curr ⟨.fd .write, frame, strings, input⟩) (sysWrite (fileIo input) k frame) ↔
      Conveyed k curr ⟨.fd .write, frame, strings, input⟩ := by
  have count : ((frame.x 2).setWidth 32).setWidth 64 = (0 : Word) ↔
      ((frame.x 2).setWidth 32).toNat = 0 := by
    generalize (frame.x 2).setWidth 32 = word
    bv_omega
  have length : (((frame.x 2).setWidth 32).setWidth 64 : Word).toNat =
      ((frame.x 2).setWidth 32).toNat := by
    generalize (frame.x 2).setWidth 32 = word
    bv_omega
  have checks := or_congr_right (a := frame.x 1 = 0) count
  unfold outcome Conveyed sysWrite
  dsimp only
  cases slot (fdArg frame) with
  | none => exact iff_of_true follows_refused (Or.inr (Or.inr fun _ impossible => nomatch impossible))
  | some fd =>
      dsimp only [Option.bind_some]
      by_cases checked : frame.x 1 = 0 ∨ ((frame.x 2).setWidth 32).toNat = 0
      · rw [if_pos (checks.mpr checked)]
        refine iff_of_true ?_ (checked.imp_right Or.inl)
        cases openFile k curr fd with
        | none => exact follows_refused
        | some found =>
            dsimp only
            rw [if_pos checked]
            exact follows_refused
      · rw [if_neg (mt checks.mp checked), ← or_assoc, or_iff_right checked]
        by_cases taken : (k.tasks curr).fdTable fd = none
        · rw [transfer_faults isCurrent taken]
          exact iff_of_false not_follows fun holds => (holds fd rfl).1 taken
        · rw [transfer_eq isCurrent taken]
          cases opened : openFile k curr fd with
          | none =>
              refine iff_of_true follows_refused ?_
              rintro _ ⟨⟩
              refine ⟨taken, fun file ops found => ?_⟩
              rw [opened] at found
              cases found
          | some found =>
              obtain ⟨file, ops⟩ := found
              dsimp only
              rw [if_neg checked]
              unfold fileIo
              dsimp only
              rw [length]
              cases written : ops.write k.toState file (frame.x 1).toNat
                  ((frame.x 2).setWidth 32).toNat with
              | none =>
                  refine iff_of_false not_follows fun holds => ?_
                  obtain ⟨_, _, impossible, _⟩ := (holds fd rfl).2 file ops opened
                  rw [written] at impossible
                  cases impossible
              | some result =>
                  obtain ⟨s, done⟩ := result
                  refine follows_iff.trans ?_
                  rw [setX_x]
                  refine (conveys_returned fun code failed => ?_).trans ?_
                  · subst failed
                    exact Fs.write_error written
                  · constructor
                    · rintro small _ ⟨⟩
                      refine ⟨taken, fun file' ops' found => ?_⟩
                      rw [opened] at found
                      cases found
                      exact ⟨s, done, written, small⟩
                    · intro holds
                      obtain ⟨s', done', same, small⟩ := (holds fd rfl).2 file ops opened
                      rw [written] at same
                      cases same
                      exact small

omit [Allocator H] in
/-- A position is not negative. -/
theorem seekOutcome_ok {s : Fs.State H} {file : Option Nat} {offset whence newPos : Int}
    (sought : seekOutcome s file offset whence = .ok newPos) : 0 ≤ newPos := by
  unfold seekOutcome at sought
  split at sought
  · cases sought
  · split at sought
    · cases sought
    · unfold ofCode at sought
      split at sought
      · cases sought
      · next nonnegative =>
          cases sought
          omega

theorem lseek64_follows (isCurrent : k.current = some curr) :
    Follows (outcome k curr ⟨.fd .lseek64, frame, strings, input⟩) (sysLseek64 k frame) ↔
      Conveyed k curr ⟨.fd .lseek64, frame, strings, input⟩ := by
  unfold outcome Conveyed sysLseek64
  dsimp only
  cases slot (fdArg frame) with
  | none => exact iff_of_true follows_refused (fun _ impossible => nomatch impossible)
  | some fd =>
      rw [isCurrent]
      refine follows_iff.trans ?_
      constructor
      · rintro conveys _ ⟨⟩
        revert conveys
        cases seekOutcome k.toState ((k.tasks curr).fdTable fd) (frame.x 1).toInt
            ((frame.x 2).setWidth 32).toInt with
        | error code => exact id
        | ok newPos => exact And.right
      · intro holds
        have here := holds fd rfl
        cases sought : seekOutcome k.toState ((k.tasks curr).fdTable fd) (frame.x 1).toInt
            ((frame.x 2).setWidth 32).toInt with
        | error code =>
            rw [sought] at here
            exact here
        | ok newPos =>
            rw [sought] at here
            have position := seekOutcome_ok sought
            have same : (frame.x 0).toInt = newPos := here
            exact ⟨same ▸ position, same⟩

omit [Allocator H] in
theorem bind_current {α : Type} (isCurrent : k.current = some curr) (f : Nat → Option α) :
    (k.current >>= f) = f curr := by
  rw [isCurrent]
  rfl

omit [Allocator H] in
/-- The calls that end in the same way. -/
theorem finish_follows {α : Type} {result : Option α} (code : α → Int) (after : α → Kernel H)
    (codes : ∀ r, result = some r → IsCode (code r)) :
    Follows (result.bind fun r => some (ofCode (code r)))
      (result.bind fun r => some (after r, finish frame (code r))) ↔ result ≠ none := by
  cases result with
  | none => exact iff_of_false not_follows fun holds => holds rfl
  | some r =>
      refine iff_of_true (follows_iff.mpr ?_) (Option.some_ne_none r)
      exact conveys_finish (codes r rfl)

theorem mkdir_follows (isCurrent : k.current = some curr) :
    Follows (outcome k curr ⟨.mkdir, frame, strings, input⟩) (sysMkdir strings k frame) ↔
      Conveyed k curr ⟨.mkdir, frame, strings, input⟩ := by
  unfold outcome Conveyed sysMkdir
  dsimp only
  by_cases named : noString strings (frame.x 0)
  · rw [if_pos named, if_pos named]
    exact iff_of_true follows_refused (Or.inl named)
  · rw [if_neg named, if_neg named, or_iff_right named, bind_current isCurrent]
    exact finish_follows (fun r : Fs.State H × Int × Option Nat => r.2.1)
      (fun r => { k with toState := r.1 }) fun r made => Fs.vfsMkdir_code made

theorem mount_follows (isCurrent : k.current = some curr) :
    Follows (outcome k curr ⟨.mount, frame, strings, input⟩) (sysMount strings k frame) ↔
      Conveyed k curr ⟨.mount, frame, strings, input⟩ := by
  unfold outcome Conveyed sysMount
  dsimp only
  by_cases target : noString strings (frame.x 1)
  · rw [if_pos (Or.inl target), if_pos target]
    exact iff_of_true follows_refused (Or.inl target)
  · by_cases filesystem : noString strings (frame.x 2)
    · rw [if_pos (Or.inr filesystem), if_neg target, if_pos filesystem]
      exact iff_of_true follows_refused (Or.inr (Or.inl filesystem))
    · rw [if_neg (not_or.mpr ⟨target, filesystem⟩), if_neg target, if_neg filesystem,
        or_iff_right target, or_iff_right filesystem, bind_current isCurrent]
      exact finish_follows (fun r : Fs.State H × Int => r.2) (fun r => { k with toState := r.1 })
        fun r mounted => Fs.vfsMount_code mounted

/-- Relative paths are looked up without a current directory. -/
theorem lookupCwd_eq (k : Kernel H) (curr : Nat) (path : Name) :
    lookupCwd k curr path = (Fs.vfsLookup k.toState none path).map fun r =>
      ({ k with toState := r.1 }.modify curr fun t => { t with cwd := r.2.2 }, r.2.1) := by
  have cleared : ((k.modify curr fun t => { t with cwd := none }).tasks curr).cwd = none := by
    dsimp only [Kernel.modify]
    rw [Function.update_self]
  unfold lookupCwd
  dsimp only
  rw [cleared]
  show (Fs.vfsLookup k.toState none path).bind _ = _
  cases Fs.vfsLookup k.toState none path with
  | none => rfl
  | some r =>
      refine congrArg some (Prod.ext ?_ rfl)
      dsimp only [Kernel.modify]
      rw [Function.update_idem, Function.update_self]

theorem chdir_follows (isCurrent : k.current = some curr) :
    Follows (outcome k curr ⟨.chdir, frame, strings, input⟩) (sysChdir strings k frame) ↔
      Conveyed k curr ⟨.chdir, frame, strings, input⟩ := by
  unfold outcome Conveyed sysChdir
  dsimp only
  by_cases named : noString strings (frame.x 0)
  · rw [if_pos named, if_pos named]
    exact iff_of_true follows_refused (Or.inl named)
  · rw [if_neg named, if_neg named, or_iff_right named]
    split
    · next missing =>
        rw [isCurrent] at missing
        cases missing
    · next found =>
        rw [isCurrent] at found
        cases found
        refine (finish_follows (fun r : Kernel H × Int => r.2) (fun r => r.1) ?_).trans ?_
        · intro r looked
          rw [lookupCwd_eq] at looked
          obtain ⟨r', looked', rfl⟩ := Option.map_eq_some_iff.mp looked
          exact Fs.vfsLookup_code looked'
        · rw [lookupCwd_eq, Ne, Option.map_eq_none_iff]

/-- The convention, exactly: for every call in every state. -/
theorem handle_follows_iff (isCurrent : k.current = some curr) (call : SysCall) :
    Follows (outcome k curr call) (handle k call) ↔ Conveyed k curr call := by
  obtain ⟨op, frame, strings, input⟩ := call
  cases op with
  | fd op =>
      cases op with
      | «open» => exact open_follows isCurrent
      | close => exact iff_of_true (close_follows isCurrent) trivial
      | read => exact read_follows isCurrent
      | write => exact write_follows isCurrent
      | lseek64 => exact lseek64_follows isCurrent
  | mkdir => exact mkdir_follows isCurrent
  | mount => exact mount_follows isCurrent
  | chdir => exact chdir_follows isCurrent

/-- A call that is refused by `vfs_open` looks like a descriptor. -/
theorem open_breaks {i : Fin threadMaxFd} {s : Fs.State H} {ret : Int} {file : Option Nat}
    (isCurrent : k.current = some curr) (named : ¬ noString strings (frame.x 0))
    (isFree : freeSlot (k.tasks curr).fdTable = some i)
    (failed : Fs.vfsOpen k.toState (k.tasks curr).cwd (strings (frame.x 0))
      ((frame.x 1).setWidth 32).toNat = some (s, ret, file)) (nonzero : ret ≠ 0) :
    ¬ Follows (outcome k curr ⟨.fd .open, frame, strings, input⟩)
      (handle k ⟨.fd .open, frame, strings, input⟩) := by
  rw [handle_follows_iff isCurrent]
  rintro (refusal | opened)
  · exact named refusal
  · rw [isFree] at opened
    obtain ⟨s', file', same⟩ := opened
    dsimp only at same
    rw [failed] at same
    cases same
    exact nonzero rfl

end Calls

/-! ## A file that is missing -/

/-- The descriptor 3 is closed while it is not open. -/
def closeCall : SysCall := ⟨.fd .close, readFrame, fun _ => [], fun _ => 0⟩

theorem handle_follows_close :
    Follows (outcome secondRuns idleThread closeCall) (handle secondRuns closeCall) :=
  (handle_follows_iff idleThread_current closeCall).mpr trivial

/-- A file `x` is opened, and there is none. -/
def openCall : SysCall := ⟨.fd .open, readFrame, fun _ => ['x'], fun _ => 0⟩

omit [Allocator H] in
theorem returned_of {o : Option (Fs.State H × Int × Option Nat)} {ret : Int}
    (code : o.map (fun r => r.2.1) = some ret) : ∃ s file, o = some (s, ret, file) := by
  obtain ⟨⟨s, r, file⟩, rfl, rfl⟩ := Option.map_eq_some_iff.mp code
  exact ⟨s, file, rfl⟩

/-- The program sees the descriptor 2. -/
theorem open_missing_positive : ∃ (k : Kernel BootHeap) (curr : Nat) (call : SysCall),
    Reachable (fun _ _ => True) k ∧ k.current = some curr ∧
      (handle k call).map (fun r => r.2.x 0) = some 2 ∧ outcome k curr call = some (.error (-2)) ∧
        ¬ Follows (outcome k curr call) (handle k call) := by
  refine ⟨secondRuns, idleThread, openCall, secondRuns_reachable, idleThread_current,
    by decide +kernel, by decide +kernel, ?_⟩
  have named : ¬ noString (fun _ => ['x']) (readFrame.x 0) := by decide
  have isFree : freeSlot (secondRuns.tasks idleThread).fdTable = some 3 := by decide +kernel
  obtain ⟨s, file, failed⟩ := @returned_of _ (Fs.vfsOpen secondRuns.toState
    (secondRuns.tasks idleThread).cwd ['x'] ((readFrame.x 1).setWidth 32).toNat) (-2) (by decide +kernel)
  exact open_breaks idleThread_current named isFree failed (by decide)

end OsdiKernel.Sched
