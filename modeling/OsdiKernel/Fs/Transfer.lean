import OsdiKernel.Fs.Opening

/-!
# Reading and writing

The functions `write` and `read` of the four tables of file operations, as far
as they concern positions, sizes and buffers.  The bytes themselves are left out.
A function returns the code of an error, or the number of bytes as an `int`.
-/

namespace OsdiKernel.Fs

variable {H : Type} [Allocator H]

/-- The return value: a code, or the number of bytes converted to an `int`. -/
def returned : Except Int Nat → Int
  | .error code => code
  | .ok count => Tmpfs.toInt count

/-- `file->f_pos += count`. -/
def advance (s : State H) (file count : Nat) : State H :=
  s.setFile file { s.files file with fPos := ((s.files file).fPos + count) % 2 ^ 64 }

/-- `file->vnode->internal`, if no pointer on the way is null. -/
def fileNode (s : State H) (file : Nat) : Option Nat :=
  (s.files file).vnode.bind fun v => (s.vnodes v).internal

/-! ## Writing -/

/-- The part of `tmpfs_write` that replaces the buffer by a larger one.  There
is no result when the loop does not end. -/
def reallocate (s : State H) (n required : Nat) : Option (State H × Int) :=
  if (s.nodes n).capacity < required then do
    let newCapacity ← Tmpfs.growLoop required 65
      (if 0 < (s.nodes n).capacity then (s.nodes n).capacity else defaultFileSize)
    if (s.nodes n).capacity < newCapacity then
      match s.alloc (newCapacity % 2 ^ 32) with
      | (s, none) => return (s, enomem)
      | (s, some newData) =>
          let s := s.freePtr (s.nodes n).data
          return (s.setNode n { s.nodes n with data := some newData, capacity := newCapacity }, 0)
    else return (s, 0)
  else some (s, 0)

def tmpfsWrite (s : State H) (file buf len : Nat) : Option (State H × Except Int Nat) :=
  match fileNode s file with
  | none => some (s, .error einval)
  | some n =>
      if buf = 0 then some (s, .error einval)
      else if len = 0 then some (s, .ok 0)
      else if (s.nodes n).type ≠ .file then some (s, .error eacces)
      else do
        let (s, result) ← reallocate s n (((s.files file).fPos + len) % 2 ^ 64)
        if result ≠ 0 then return (s, .error result)
        let s := advance s file len
        if (s.nodes n).size < (s.files file).fPos then
          return (s.setNode n { s.nodes n with size := (s.files file).fPos }, .ok len)
        return (s, .ok len)

/-- The common body of `dev_uart_write` and `dev_framebuffer_write`. -/
def deviceWrite (s : State H) (file buf len : Nat) : State H × Except Int Nat :=
  if buf = 0 ∨ len = 0 then (s, .error einval) else (advance s file len, .ok len)

def FileOps.write (ops : FileOps) (s : State H) (file buf len : Nat) :
    Option (State H × Except Int Nat) :=
  match ops with
  | .tmpfs => tmpfsWrite s file buf len
  | .initramfs => some (s, .error eacces)
  | .uart => some (deviceWrite s file buf len)
  | .framebuffer => some (deviceWrite s file buf len)

/-! ## Reading -/

/-- The common body of `tmpfs_read` and `initramfs_read`. -/
def nodeRead (s : State H) (file buf len : Nat) : State H × Except Int Nat :=
  match fileNode s file with
  | none => (s, .error einval)
  | some n =>
      if buf = 0 then (s, .error einval)
      else if len = 0 then (s, .ok 0)
      else if (s.nodes n).type ≠ .file then (s, .error eacces)
      else if (s.nodes n).size ≤ (s.files file).fPos then (s, .ok 0)
      else
        let readableLen :=
          if (s.nodes n).size < ((s.files file).fPos + len) % 2 ^ 64 then
            (s.nodes n).size - (s.files file).fPos
          else len
        (advance s file readableLen, .ok readableLen)

/-- The loop of `dev_uart_read` on the characters that arrive. -/
def uartReadLoop (input : Nat → UInt8) : Nat → Nat → Nat
  | 0, bytesRead => bytesRead
  | left + 1, bytesRead =>
      if input bytesRead = 0 then bytesRead else uartReadLoop input left (bytesRead + 1)

def uartRead (input : Nat → UInt8) (s : State H) (file buf len : Nat) :
    State H × Except Int Nat :=
  if buf = 0 ∨ len = 0 then (s, .error einval)
  else
    let bytesRead := uartReadLoop input len 0
    (advance s file bytesRead, .ok bytesRead)

def FileOps.read (input : Nat → UInt8) (ops : FileOps) (s : State H) (file buf len : Nat) :
    State H × Except Int Nat :=
  match ops with
  | .tmpfs => nodeRead s file buf len
  | .initramfs => nodeRead s file buf len
  | .uart => uartRead input s file buf len
  | .framebuffer => (s, .error (-1))

/-! ## Codes -/

/-- The code of an error. -/
def IsError (code : Int) : Prop := IsCode code ∧ code ≠ 0

instance (code : Int) : Decidable (IsError code) := by
  unfold IsError
  infer_instance

section Codes

variable {s s' : State H} {file buf len n required : Nat} {result code : Int}

theorem reallocate_code (grown : reallocate s n required = some (s', result)) : IsCode result := by
  unfold reallocate at grown
  split at grown
  · obtain ⟨newCapacity, _, grown⟩ := Option.bind_eq_some_iff.mp grown
    repeat' split at grown
    all_goals
      cases grown
      decide
  · cases grown
    decide

theorem tmpfsWrite_error (failed : tmpfsWrite s file buf len = some (s', .error code)) :
    IsError code := by
  unfold tmpfsWrite at failed
  split at failed
  · cases failed
    decide
  · split at failed
    · cases failed
      decide
    · split at failed
      · cases failed
      · split at failed
        · cases failed
          decide
        · obtain ⟨⟨s₁, result⟩, grown, failed⟩ := Option.bind_eq_some_iff.mp failed
          dsimp only at failed
          split at failed
          · next nonzero =>
              cases failed
              exact ⟨reallocate_code grown, nonzero⟩
          · split at failed <;> cases failed

omit [Allocator H] in
theorem deviceWrite_error (failed : deviceWrite s file buf len = (s', .error code)) :
    IsError code := by
  unfold deviceWrite at failed
  split at failed
  · cases failed
    decide
  · cases failed

theorem write_error {ops : FileOps} (failed : ops.write s file buf len = some (s', .error code)) :
    IsError code := by
  cases ops with
  | tmpfs => exact tmpfsWrite_error failed
  | initramfs =>
      cases failed
      decide
  | uart | framebuffer => exact deviceWrite_error (Option.some.inj failed)

omit [Allocator H] in
theorem nodeRead_error (failed : nodeRead s file buf len = (s', .error code)) : IsError code := by
  unfold nodeRead at failed
  repeat' split at failed
  all_goals
    cases failed
    try decide

omit [Allocator H] in
theorem uartRead_error {input : Nat → UInt8}
    (failed : uartRead input s file buf len = (s', .error code)) : IsError code := by
  unfold uartRead at failed
  split at failed
  · cases failed
    decide
  · cases failed

omit [Allocator H] in
theorem read_error {input : Nat → UInt8} {ops : FileOps}
    (failed : ops.read input s file buf len = (s', .error code)) : IsError code := by
  cases ops with
  | tmpfs | initramfs => exact nodeRead_error failed
  | uart => exact uartRead_error failed
  | framebuffer =>
      cases failed
      decide

end Codes

/-! ## Codes of creations -/

section Creation

variable {s s' : State H} {cwd target target' : Option Nat} {pathname name : Name}
  {result : Int} {dirNode : Nat}

theorem tmpfsAddChild_code {parentInternal : Nat} {type : Tmpfs.NodeType}
    (made : tmpfsAddChild s dirNode parentInternal name type = some (s', result, target)) :
    IsCode result := by
  unfold tmpfsAddChild at made
  split at made
  · cases made
    decide
  · split at made
    · cases made
      decide
    · obtain ⟨_, _, same⟩ := Option.bind_eq_some_iff.mp made
      cases same
      decide

theorem tmpfsCreateOrMkdir_code {type : Tmpfs.NodeType}
    (made : tmpfsCreateOrMkdir s dirNode target name type = some (s', result, target')) :
    IsCode result := by
  unfold tmpfsCreateOrMkdir at made
  repeat' split at made
  all_goals first
    | exact tmpfsAddChild_code made
    | (cases made; decide)
    | cases made

theorem mkdir_code {ops : FsType}
    (made : ops.mkdir s dirNode target name = some (s', result, target')) : IsCode result := by
  cases ops with
  | tmpfs => exact tmpfsCreateOrMkdir_code made
  | initramfs =>
      cases made
      decide

theorem mkdirParent_code (found : mkdirParent s cwd pathname = some (s', result, target)) :
    IsCode result := by
  unfold mkdirParent at found
  split at found
  · split at found <;> cases found <;> decide
  · rw [lookupParent_eq] at found
    exact vfsLookup_code found

theorem vfsMkdir_code (made : vfsMkdir s cwd pathname = some (s', result, target)) :
    IsCode result := by
  unfold vfsMkdir at made
  split at made
  · cases made
    decide
  · obtain ⟨⟨s₁, r, parent⟩, found, made⟩ := Option.bind_eq_some_iff.mp made
    dsimp only at made
    split at made
    · cases made
      exact mkdirParent_code found
    · split at made
      · cases made
        decide
      · split at made
        · cases made
          decide
        · split at made
          · cases made
            decide
          · obtain ⟨⟨s₂, r₂, child⟩, created, same⟩ := Option.bind_eq_some_iff.mp made
            cases same
            exact mkdir_code created

theorem setupRoot_code {mount root : Nat} {ops : FsType} {fOps : FileOps} :
    IsCode (setupRoot s mount root ops fOps).2 := by
  unfold setupRoot
  split
  · show IsCode enomem
    decide
  · show IsCode 0
    decide

theorem setupMount_code {fs : FsType} {mount : Nat} : IsCode (fs.setupMount s mount).2 := by
  cases fs with
  | tmpfs =>
      unfold FsType.setupMount tmpfsSetupMount
      dsimp only
      split
      · show IsCode enomem
        decide
      · exact setupRoot_code
  | initramfs =>
      unfold FsType.setupMount initramfsSetupMount
      dsimp only
      split
      · show IsCode enomem
        decide
      · exact setupRoot_code

theorem mountOnto_code {v : Nat} {fs : Filesystem}
    (mounted : mountOnto s v fs = some (s', result)) : IsCode result := by
  unfold mountOnto at mounted
  split at mounted
  · cases mounted
    decide
  · dsimp only at mounted
    split at mounted
    · cases mounted
      decide
    · split at mounted
      · cases mounted
        exact setupMount_code
      · obtain ⟨_, _, same⟩ := Option.bind_eq_some_iff.mp mounted
        cases same
        decide

theorem vfsMount_code {filesystemName : Name}
    (mounted : vfsMount s cwd pathname filesystemName = some (s', result)) : IsCode result := by
  unfold vfsMount at mounted
  split at mounted
  · cases mounted
    decide
  · obtain ⟨⟨s₁, r, found⟩, looked, mounted⟩ := Option.bind_eq_some_iff.mp mounted
    dsimp only at mounted
    split at mounted
    · cases mounted
      exact vfsLookup_code looked
    · obtain ⟨v, _, mounted⟩ := Option.bind_eq_some_iff.mp mounted
      repeat' split at mounted
      all_goals first
        | exact mountOnto_code mounted
        | (cases mounted; decide)

theorem vfsClose_code (s : State H) (file : Nat) : IsCode (vfsClose s file).2 := by
  unfold vfsClose
  split
  · show IsCode enosys
    decide
  · next ops _ =>
      have closed : (ops.close s file).2 = 0 := by cases ops <;> rfl
      rw [closed]
      decide

end Creation

end OsdiKernel.Fs
