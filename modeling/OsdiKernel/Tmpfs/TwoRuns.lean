import OsdiKernel.Tmpfs.Reading

/-!
# Stale memory

Neither the allocator nor tmpfs clears memory, so the buffer of a file holds
what was there before wherever nothing was written.  Two runs of the same
operations that start with different bytes in memory go through the same states
apart from these bytes.  What they read is the same as long as it was written.
-/

namespace OsdiKernel.Tmpfs

open Kmem (Layout)

/-! ## Operations -/

/-- What programs and the rest of the kernel do, in any order. -/
inductive Op where
  | create (v : Nat)
  | openFile (v f : Nat)
  | close (f : Nat)
  | write (f : Nat) (buf : Nat → UInt8) (len : Nat)
  | read (f len : Nat)
  | seek (f : Nat) (offset whence : Int)
  | otherAlloc (size : Nat)
  | otherFree (use : Nat × Nat)

/-- The return value and the bytes that a caller receives. -/
abbrev Output : Type := Int × List UInt8

/-- A machine with the allocations in use and the abstract files. -/
structure World where
  machine : Machine
  live : List (Nat × Nat)
  files : Files

/-- The effect of an operation; there is none when a loop does not end. -/
def World.step (layout : Layout) (w : World) : Op → Option (World × Output)
  | .create v =>
      match tmpfsCreateInternalNode layout w.machine .file with
      | (m, some n) =>
          some (⟨{ m with vnodes := Function.update m.vnodes v (some n) },
            bufferOf m n :: (n, nodeSize) :: w.live,
            Function.update w.files n (some ByteFile.empty)⟩, 0, [])
      | (m, none) => some ({ w with machine := m }, enomem, [])
  | .openFile v f =>
      let (m, result) := tmpfsOpen w.machine (some v) (some f)
      some ({ w with machine := m }, result, [])
  | .close f =>
      let (m, result) := tmpfsClose w.machine (some f)
      some ({ w with machine := m }, result, [])
  | .write f buf len =>
      (tmpfsWrite layout w.machine (some f) (some buf) len).map fun (m, result) =>
        (⟨m, liveAfterWrite w.live w.machine m f, w.files.afterWrite w.machine f buf len result⟩,
          result, [])
  | .read f len =>
      let (m, result, bytes) := tmpfsRead w.machine (some f) true len
      some ({ w with machine := m }, result, bytes)
  | .seek f offset whence =>
      let (m, result) := tmpfsLseek64 w.machine (some f) offset whence
      some ({ w with machine := m }, result, [])
  | .otherAlloc size =>
      let (heap, ptr) := Kmem.alloc w.machine.heap size
      some (⟨{ w.machine with heap := heap }, Mm.keep ptr size w.live, w.files⟩, ptr, [])
  | .otherFree use =>
      some (⟨{ w.machine with heap := Kmem.free layout w.machine.heap use.1 }, w.live.erase use,
        w.files⟩, 0, [])

/-- A list of operations, with their results. -/
def World.run (layout : Layout) (w : World) : List Op → Option (World × List Output)
  | [] => some (w, [])
  | op :: ops => do
      let (w, output) ← w.step layout op
      let (w, outputs) ← w.run layout ops
      return (w, output :: outputs)

/-- The arguments are ones that system calls pass on: the length of a write is an
`unsigned int`, the one of a read a `size_t`, an offset a `long`.  The rest of
the kernel frees its own allocations only. -/
def Valid (w : World) : Op → Prop
  | .write _ _ len => len < 2 ^ 32
  | .read _ len => len < 2 ^ 64
  | .seek _ offset _ => -2 ^ 63 ≤ offset ∧ offset < 2 ^ 63
  | .otherFree use => use ∈ w.live ∧ ∀ other ∈ w.live, w.files other.1 ≠ none →
      use ≠ bufferOf w.machine other.1 ∧ use ≠ (other.1, nodeSize)
  | _ => True

/-- The value that was last written at a position of a file. -/
def Files.writtenAt (A : Files) (n i : Nat) : Option UInt8 := (A n).bind fun file => file.written i

/-- A read does not wrap, and every position that it delivers was written. -/
def Covered (w : World) : Op → Prop
  | .read f len =>
      match w.machine.internal (some f) with
      | some (_, n) =>
          ReadFits (w.machine.nodes n).size (w.machine.files f).fPos len ∧
          ∀ i, i < min len ((w.machine.nodes n).size - (w.machine.files f).fPos) →
            w.files.writtenAt n ((w.machine.files f).fPos + i) ≠ none
      | none => True
  | _ => True

/-- All operations of a run are valid, and its reads are covered. -/
def Meets (layout : Layout) (w : World) : List Op → Prop
  | [] => True
  | op :: ops => Valid w op ∧ Covered w op ∧
      match w.step layout op with
      | some after => Meets layout after.1 ops
      | none => True

instance (size fPos len : Nat) : Decidable (ReadFits size fPos len) := by
  unfold ReadFits
  infer_instance

instance (w : World) : (op : Op) → Decidable (Valid w op)
  | .create _ => isTrue trivial
  | .openFile _ _ => isTrue trivial
  | .close _ => isTrue trivial
  | .write _ _ len => inferInstanceAs (Decidable (len < 2 ^ 32))
  | .read _ len => inferInstanceAs (Decidable (len < 2 ^ 64))
  | .seek _ offset _ => inferInstanceAs (Decidable (-2 ^ 63 ≤ offset ∧ offset < 2 ^ 63))
  | .otherAlloc _ => isTrue trivial
  | .otherFree use => inferInstanceAs (Decidable (use ∈ w.live ∧ ∀ other ∈ w.live,
      w.files other.1 ≠ none → use ≠ bufferOf w.machine other.1 ∧ use ≠ (other.1, nodeSize)))

instance (w : World) : (op : Op) → Decidable (Covered w op)
  | .create _ => isTrue trivial
  | .openFile _ _ => isTrue trivial
  | .close _ => isTrue trivial
  | .write _ _ _ => isTrue trivial
  | .read f len =>
      match isOpen : w.machine.internal (some f) with
      | some (_, _) => decidable_of_iff _ (iff_of_eq (by simp only [Covered, isOpen]; rfl)).symm
      | none => isTrue (by simp only [Covered, isOpen])
  | .seek _ _ _ => isTrue trivial
  | .otherAlloc _ => isTrue trivial
  | .otherFree _ => isTrue trivial

instance decidableMeets (layout : Layout) : (w : World) → (ops : List Op) → Decidable (Meets layout w ops)
  | _, [] => isTrue trivial
  | w, op :: ops => by
      unfold Meets
      split
      · next after stepped =>
          have := decidableMeets layout after.1 ops
          infer_instance
      · infer_instance

/-! ## Other bytes in memory -/

def Machine.withBytes (m : Machine) (bytes : Nat → UInt8) : Machine := { m with bytes := bytes }

def World.withBytes (w : World) (bytes : Nat → UInt8) : World :=
  { w with machine := w.machine.withBytes bytes }

section Bytes

variable {layout : Layout} {m : Machine} {target : Option Nat} {f n len : Nat} {buf : Nat → UInt8}
  {bytes : Nat → UInt8}

theorem create_withBytes (type : NodeType) :
    tmpfsCreateInternalNode layout (m.withBytes bytes) type =
      ((tmpfsCreateInternalNode layout m type).1.withBytes bytes,
        (tmpfsCreateInternalNode layout m type).2) := by
  unfold tmpfsCreateInternalNode Machine.withBytes Machine.setNode
  dsimp only
  repeat' split
  all_goals rfl

theorem seek_withBytes (offset whence : Int) :
    tmpfsLseek64 (m.withBytes bytes) target offset whence =
      ((tmpfsLseek64 m target offset whence).1.withBytes bytes,
        (tmpfsLseek64 m target offset whence).2) := by
  have internal : (m.withBytes bytes).internal target = m.internal target := rfl
  unfold tmpfsLseek64
  rw [internal]
  cases m.internal target with
  | none => rfl
  | some pair =>
      obtain ⟨f, n⟩ := pair
      dsimp +instances only [Machine.withBytes]
      split
      · rfl
      · split
        · rfl
        · split <;> rfl

theorem reallocate_withBytes (required : Nat) : ∃ bytes',
    reallocate layout (m.withBytes bytes) n required =
      (reallocate layout m n required).map fun after => (after.1.withBytes bytes', after.2) := by
  unfold reallocate
  dsimp +instances only [Machine.withBytes]
  split
  · split
    · exact ⟨bytes, rfl⟩
    · split
      · split
        · exact ⟨bytes, rfl⟩
        · split <;> exact ⟨_, rfl⟩
      · exact ⟨bytes, rfl⟩
  · exact ⟨bytes, rfl⟩

theorem writeBuffer_withBytes : ∃ bytes',
    writeBuffer (m.withBytes bytes) f n buf len =
      (writeBuffer m f n buf len).withBytes bytes' := by
  unfold writeBuffer Machine.withBytes Machine.memcpyFrom Machine.setPos Machine.setNode
  dsimp only
  split <;> exact ⟨_, rfl⟩

/-- A write takes the same way whatever is in memory. -/
theorem write_withBytes : ∃ bytes',
    tmpfsWrite layout (m.withBytes bytes) target (some buf) len =
      (tmpfsWrite layout m target (some buf) len).map fun after =>
        (after.1.withBytes bytes', after.2) := by
  have internal : (m.withBytes bytes).internal target = m.internal target := rfl
  unfold tmpfsWrite
  rw [internal]
  cases m.internal target with
  | none => exact ⟨bytes, rfl⟩
  | some pair =>
      obtain ⟨f, n⟩ := pair
      dsimp only
      obtain ⟨bytes', same⟩ := @reallocate_withBytes layout m n bytes
        (((m.files f).fPos + len) % 2 ^ 64)
      change ∃ bytes', (if len = 0 then some (m.withBytes bytes, 0)
        else if (m.nodes n).type ≠ .file then some (m.withBytes bytes, eacces)
        else _) = _
      split
      · exact ⟨bytes, rfl⟩
      · split
        · exact ⟨bytes, rfl⟩
        · have files : (m.withBytes bytes).files = m.files := rfl
          rw [files, same]
          cases reallocate layout m n (((m.files f).fPos + len) % 2 ^ 64) with
          | none => exact ⟨bytes, rfl⟩
          | some after =>
              obtain ⟨m', result⟩ := after
              dsimp only [Option.map_some]
              split
              · exact ⟨bytes', rfl⟩
              · obtain ⟨bytes'', stored⟩ := @writeBuffer_withBytes m' f n len buf bytes'
                exact ⟨bytes'', by rw [stored, Option.map_some]⟩

end Bytes

/-! ## Reads -/

section Reads

variable {layout : Layout} {ranges live : List (Nat × Nat)} {m : Machine} {A : Files} {f n len : Nat}

theorem tmpfsRead_nothing (isOpen : m.internal (some f) = some (f, n))
    (regular : (m.nodes n).type = .file) (nothing : len = 0 ∨ (m.nodes n).size ≤ (m.files f).fPos) :
    tmpfsRead m (some f) true len = (m, 0, []) := by
  rw [tmpfsRead_eq isOpen regular, if_pos nothing]

/-- A read that fits delivers the bytes from the position on. -/
theorem tmpfsRead_something {count : Nat} (isOpen : m.internal (some f) = some (f, n))
    (regular : (m.nodes n).type = .file)
    (something : ¬ (len = 0 ∨ (m.nodes n).size ≤ (m.files f).fPos))
    (fits : ReadFits (m.nodes n).size (m.files f).fPos len)
    (counted : min len ((m.nodes n).size - (m.files f).fPos) = count) :
    tmpfsRead m (some f) true len =
      ({ m with
          files := Function.update m.files f { m.files f with fPos := (m.files f).fPos + count }
          accesses := ((m.nodes n).data + (m.files f).fPos, count) :: m.accesses },
        (count : Int),
        (List.range count).map fun i => m.bytes ((m.nodes n).data + ((m.files f).fPos + i))) := by
  obtain ⟨nonzero, before⟩ := not_or.mp something
  rw [tmpfsRead_eq isOpen regular, if_neg something]
  rcases fits with zero | atEnd | ⟨noWrap, short⟩
  · exact absurd zero nonzero
  · exact absurd atEnd before
  · rw [readableLen_min noWrap, counted]
    rw [counted] at short
    have small : count % 2 ^ 32 = count := Nat.mod_eq_of_lt (by omega)
    have position : ((m.files f).fPos + count) % 2 ^ 64 = (m.files f).fPos + count :=
      Nat.mod_eq_of_lt (by omega)
    unfold Machine.memcpyTo Machine.setPos
    dsimp only
    rw [small, position, toInt_of_small short]
    simp only [Nat.add_assoc]

theorem tmpfsRead_closed (closed : m.internal (some f) = none) :
    tmpfsRead m (some f) true len = (m, einval, []) := by
  unfold tmpfsRead
  rw [closed]

theorem Inv.afterFittingRead (inv : Inv layout ranges live m A)
    (fits : ∀ n, m.internal (some f) = some (f, n) →
      ReadFits (m.nodes n).size (m.files f).fPos len) :
    Inv layout ranges live (Tmpfs.tmpfsRead m (some f) true len).1 A := by
  cases isOpen : m.internal (some f) with
  | none =>
      rw [tmpfsRead_closed isOpen]
      exact inv
  | some pair =>
      obtain ⟨f', n⟩ := pair
      obtain ⟨same, file, found⟩ := inv.of_internal isOpen
      cases same
      have ok := inv.node found
      have sizeLimit : (m.nodes n).size ≤ 2 ^ 25 := by
        rw [ok.size]
        exact ok.fits.trans ok.large.2
      have position := inv.pos f
      by_cases nothing : len = 0 ∨ (m.nodes n).size ≤ (m.files f).fPos
      · rw [tmpfsRead_nothing isOpen ok.type nothing]
        exact inv
      · rw [tmpfsRead_something isOpen ok.type nothing (fits n isOpen) rfl]
        exact inv.setFiles (update_pos inv (by omega))

/-- What was written is read, whatever else is in memory. -/
theorem covered_reads_agree {bytes : Nat → UInt8} (inv : Inv layout ranges live m A)
    (inv' : Inv layout ranges live (m.withBytes bytes) A)
    (covered : ∀ n, m.internal (some f) = some (f, n) →
      ReadFits (m.nodes n).size (m.files f).fPos len ∧
      ∀ i, i < min len ((m.nodes n).size - (m.files f).fPos) →
        ∃ file b, A n = some file ∧ file.written ((m.files f).fPos + i) = some b) :
    Tmpfs.tmpfsRead (m.withBytes bytes) (some f) true len =
      ((Tmpfs.tmpfsRead m (some f) true len).1.withBytes bytes,
        (Tmpfs.tmpfsRead m (some f) true len).2) := by
  cases isOpen : m.internal (some f) with
  | none =>
      rw [tmpfsRead_closed isOpen, tmpfsRead_closed (m := m.withBytes bytes) isOpen]
  | some pair =>
      obtain ⟨f', n⟩ := pair
      obtain ⟨same, file, found⟩ := inv.of_internal isOpen
      cases same
      obtain ⟨fits, written⟩ := covered n isOpen
      have ok := inv.node found
      have ok' := inv'.node found
      by_cases nothing : len = 0 ∨ (m.nodes n).size ≤ (m.files f).fPos
      · rw [tmpfsRead_nothing isOpen ok.type nothing,
          @tmpfsRead_nothing (m.withBytes bytes) f n len isOpen ok'.type nothing]
      · rw [tmpfsRead_something isOpen ok.type nothing fits rfl,
          @tmpfsRead_something (m.withBytes bytes) f n len _ isOpen ok'.type nothing fits rfl]
        have sameBytes : ∀ i ∈ List.range (min len ((m.nodes n).size - (m.files f).fPos)),
            bytes ((m.nodes n).data + ((m.files f).fPos + i)) =
              m.bytes ((m.nodes n).data + ((m.files f).fPos + i)) := by
          intro i member
          obtain ⟨file', b, found', value⟩ := written i (List.mem_range.mp member)
          rw [found] at found'
          cases found'
          exact (ok'.content.value value).trans (ok.content.value value).symm
        have delivered := List.map_congr_left sameBytes
        unfold Machine.withBytes
        dsimp only
        rw [delivered]

end Reads

/-! ## Runs -/

/-- The invariant of the machine, for the files and allocations of the world. -/
def World.Ok (layout : Layout) (ranges : List (Nat × Nat)) (w : World) : Prop :=
  Inv layout ranges w.live w.machine w.files

/-- No file has been created and no handle is open; the bytes in memory are arbitrary. -/
structure World.Started (layout : Layout) (ranges : List (Nat × Nat)) (w : World) : Prop where
  heap : Kmem.Run layout ranges w.live w.machine.heap
  noVnodes : ∀ v, w.machine.vnodes v = none
  closed : ∀ f, w.machine.files f = ⟨none, 0⟩
  noFiles : w.files = fun _ => none

section Runs

variable {layout : Layout} {ranges : List (Nat × Nat)} {w w' : World} {op : Op} {ops : List Op}
  {output : Output} {bytes : Nat → UInt8}

theorem World.Started.ok (start : w.Started layout ranges) : w.Ok layout ranges := by
  unfold World.Ok
  rw [start.noFiles]
  exact (Run.start start.heap start.noVnodes start.closed).inv

theorem World.Started.withBytes (start : w.Started layout ranges) (bytes : Nat → UInt8) :
    (w.withBytes bytes).Started layout ranges :=
  ⟨start.heap, start.noVnodes, start.closed, start.noFiles⟩

theorem Covered.read {f f' n len : Nat} (covered : Covered w (.read f len))
    (isOpen : w.machine.internal (some f) = some (f', n)) :
    ReadFits (w.machine.nodes n).size (w.machine.files f).fPos len ∧
      ∀ i, i < min len ((w.machine.nodes n).size - (w.machine.files f).fPos) →
        ∃ file b, w.files n = some file ∧ file.written ((w.machine.files f).fPos + i) = some b := by
  simp only [Covered, isOpen] at covered
  refine ⟨covered.1, fun i below => ?_⟩
  obtain ⟨b, written⟩ := Option.ne_none_iff_exists'.mp (covered.2 i below)
  obtain ⟨file, found, value⟩ := Option.bind_eq_some_iff.mp written
  exact ⟨file, b, found, value⟩

theorem Valid.unused {use : Nat × Nat} (ok : w.Ok layout ranges) (valid : Valid w (.otherFree use))
    (n : Nat) (known : w.files n ≠ none) : use ≠ bufferOf w.machine n ∧ use ≠ (n, nodeSize) := by
  obtain ⟨file, found⟩ := Option.ne_none_iff_exists'.mp known
  exact valid.2 (n, nodeSize) (Inv.node ok found).node known

/-- A write that ends keeps the invariant, also at the largest positions. -/
theorem World.Ok.write {f len : Nat} {buf : Nat → UInt8} {m' : Machine} {result : Int}
    (ok : w.Ok layout ranges) (narrow : len < 2 ^ 32)
    (written : tmpfsWrite layout w.machine (some f) (some buf) len = some (m', result)) :
    Inv layout ranges (liveAfterWrite w.live w.machine m' f) m'
      (w.files.afterWrite w.machine f buf len result) := by
  by_cases bounded : (w.machine.files f).fPos + len ≤ 2 ^ 63
  · exact Inv.afterWrite ok bounded written
  · cases isOpen : w.machine.internal (some f) with
    | none =>
        unfold tmpfsWrite at written
        rw [isOpen] at written
        cases written
        unfold liveAfterWrite Files.afterWrite
        rw [isOpen]
        exact ok
    | some pair =>
        obtain ⟨f', n⟩ := pair
        obtain ⟨same, file, found⟩ := Inv.of_internal ok isOpen
        cases same
        have node := Inv.node ok found
        have position := Inv.pos ok f
        obtain ⟨e, lower, upper, power⟩ := node.power
        have capacity : CapacityOk (w.machine.nodes n).capacity := by
          refine ⟨e - 12, by omega, ?_⟩
          rw [power, show defaultFileSize = 2 ^ 12 by decide, ← Nat.pow_add]
          congr 1
          omega
        rw [tmpfsWrite_diverges isOpen node.type capacity (by omega) (by omega) (by omega)] at written
        cases written

/-- Every operation keeps the invariant. -/
theorem World.Ok.step (ok : w.Ok layout ranges) (valid : Valid w op) (covered : Covered w op)
    (stepped : w.step layout op = some (w', output)) : w'.Ok layout ranges := by
  unfold World.step at stepped
  cases op with
  | create v =>
      dsimp only at stepped
      split at stepped
      · next m n result =>
          cases stepped
          exact Inv.create ok result
      · next m result =>
          cases stepped
          exact Inv.createFails ok result
  | openFile v f =>
      cases stepped
      exact Inv.setFiles ok (update_pos ok (by decide))
  | close f =>
      cases stepped
      exact Inv.setFiles ok (update_pos ok (by decide))
  | write f buf len =>
      obtain ⟨⟨m', result⟩, written, same⟩ := Option.map_eq_some_iff.mp stepped
      cases same
      exact ok.write valid written
  | read f len =>
      cases stepped
      exact Inv.afterFittingRead ok fun n isOpen => (covered.read isOpen).1
  | seek f offset whence =>
      cases stepped
      exact Inv.afterSeek ok f valid.2
  | otherAlloc size =>
      cases stepped
      exact Inv.setHeap ok (Inv.heap ok |>.alloc size) (fun _ => mem_keep) fun _ => rfl
  | otherFree use =>
      have unused := valid.unused ok
      cases stepped
      exact Inv.otherFree ok valid.1 unused

/-- An operation has the same result with other bytes in memory. -/
theorem World.step_withBytes (ok : w.Ok layout ranges) (ok' : (w.withBytes bytes).Ok layout ranges)
    (covered : Covered w op) : ∃ bytes', (w.withBytes bytes).step layout op =
      (w.step layout op).map fun after => (after.1.withBytes bytes', after.2) := by
  unfold World.step
  cases op with
  | create v =>
      refine ⟨bytes, ?_⟩
      dsimp only [World.withBytes]
      rw [create_withBytes]
      cases tmpfsCreateInternalNode layout w.machine .file with
      | mk m result => cases result <;> rfl
  | openFile v f => exact ⟨bytes, rfl⟩
  | close f => exact ⟨bytes, rfl⟩
  | write f buf len =>
      obtain ⟨bytes', same⟩ :=
        @write_withBytes layout w.machine (some f) len buf bytes
      refine ⟨bytes', ?_⟩
      dsimp only [World.withBytes]
      rw [same]
      cases tmpfsWrite layout w.machine (some f) (some buf) len <;> rfl
  | read f len =>
      refine ⟨bytes, ?_⟩
      dsimp only [World.withBytes]
      rw [covered_reads_agree ok ok' fun n isOpen => covered.read isOpen]
      rfl
  | seek f offset whence =>
      refine ⟨bytes, ?_⟩
      dsimp only [World.withBytes]
      rw [seek_withBytes]
      rfl
  | otherAlloc size => exact ⟨bytes, rfl⟩
  | otherFree use => exact ⟨bytes, rfl⟩

theorem World.outputs_cons (w : World) (op : Op) (ops : List Op) :
    (w.run layout (op :: ops)).map Prod.snd = (w.step layout op).bind fun after =>
      ((after.1.run layout ops).map Prod.snd).map (after.2 :: ·) := by
  rw [World.run]
  cases w.step layout op with
  | none => rfl
  | some after =>
      simp only [Option.bind_eq_bind, Option.bind_some]
      cases after.1.run layout ops <;> rfl

/-- Two runs that differ in the bytes of memory give the same results. -/
theorem World.run_withBytes (ok : w.Ok layout ranges)
    (ok' : (w.withBytes bytes).Ok layout ranges) (meets : Meets layout w ops) :
    ((w.withBytes bytes).run layout ops).map Prod.snd = (w.run layout ops).map Prod.snd := by
  induction ops generalizing w bytes with
  | nil => rfl
  | cons op ops ih =>
      obtain ⟨valid, covered, rest⟩ := meets
      obtain ⟨bytes', same⟩ := World.step_withBytes ok ok' covered
      rw [World.outputs_cons, World.outputs_cons, same]
      cases stepped : w.step layout op with
      | none => rfl
      | some after =>
          obtain ⟨w₁, output⟩ := after
          rw [stepped] at same rest
          have later := ih (ok.step valid covered stepped)
            (ok'.step (w := w.withBytes bytes) valid covered same) rest
          exact congrArg (Option.map (output :: ·)) later

/-- Whatever was in memory before, the operations of a run that reads only what
was written have the same results. -/
theorem reads_reveal_nothing (start : w.Started layout ranges) (meets : Meets layout w ops)
    (bytes : Nat → UInt8) :
    ((w.withBytes bytes).run layout ops).map Prod.snd = (w.run layout ops).map Prod.snd :=
  World.run_withBytes start.ok (start.withBytes bytes).ok meets

end Runs

/-! ## Files without gaps -/

/-- Every position of a file was written. -/
def Full (A : Files) : Prop := ∀ n file, A n = some file → ∀ i, i < file.size → file.written i ≠ none

/-- A write starts within the file or at its end, and a read does not wrap. -/
def NoGap (w : World) : Op → Prop
  | .write f _ _ => ∀ f' n, w.machine.internal (some f) = some (f', n) →
      (w.machine.files f).fPos ≤ (w.machine.nodes n).size
  | .read f len => ∀ f' n, w.machine.internal (some f) = some (f', n) →
      ReadFits (w.machine.nodes n).size (w.machine.files f).fPos len
  | _ => True

/-- All operations of a run are valid, and none leaves a gap. -/
def Gapless (layout : Layout) (w : World) : List Op → Prop
  | [] => True
  | op :: ops => Valid w op ∧ NoGap w op ∧
      ∀ w' output, w.step layout op = some (w', output) → Gapless layout w' ops

section Gapless

variable {layout : Layout} {ranges : List (Nat × Nat)} {w w' : World} {op : Op} {ops : List Op}
  {output : Output}

theorem Full.covered (full : Full w.files) (ok : w.Ok layout ranges) (noGap : NoGap w op) :
    Covered w op := by
  cases op with
  | read f len =>
      unfold Covered
      dsimp only
      split
      · next f' n isOpen =>
          refine ⟨noGap f' n isOpen, fun i below => ?_⟩
          obtain ⟨_, file, found⟩ := Inv.of_internal ok isOpen
          have size := (Inv.node ok found).size
          unfold Files.writtenAt
          rw [found]
          exact full n file found _ (by omega)
      · trivial
  | _ => trivial

/-- A write that leaves no gap keeps a file full. -/
theorem Full.write {A : Files} {n pos len : Nat} {buf : Nat → UInt8} (full : Full A)
    (noGap : ∀ file, A n = some file → pos ≤ file.size) : Full (A.write n pos buf len) := by
  unfold Files.write
  cases found : A n with
  | none => exact full
  | some file =>
      intro n' file' found' i below
      dsimp only at found'
      by_cases same : n' = n
      · rw [same, Function.update_self] at found'
        cases found'
        by_cases inside : pos ≤ i ∧ i < pos + len
        · rw [ByteFile.write_inside inside]
          simp
        · have start := noGap file found
          have limit : i < max file.size (pos + len) := below
          rw [ByteFile.write_outside inside]
          exact full n file found i (by omega)
      · rw [Function.update_of_ne same] at found'
        exact full n' file' found' i below

theorem Full.step (full : Full w.files) (ok : w.Ok layout ranges) (noGap : NoGap w op)
    (stepped : w.step layout op = some (w', output)) : Full w'.files := by
  unfold World.step at stepped
  cases op with
  | create v =>
      dsimp only at stepped
      split at stepped
      · next m n result =>
          cases stepped
          intro n' file found i below
          by_cases same : n' = n
          · rw [same] at found
            dsimp only at found
            rw [Function.update_self] at found
            cases found
            exact absurd below (Nat.not_lt_zero i)
          · dsimp only at found
            rw [Function.update_of_ne same] at found
            exact full n' file found i below
      · cases stepped
        exact full
  | write f buf len =>
      obtain ⟨⟨m', result⟩, written, same⟩ := Option.map_eq_some_iff.mp stepped
      cases same
      unfold Files.afterWrite
      dsimp only
      split
      · next f' n isOpen =>
          split
          · refine full.write fun file found => ?_
            have size := (Inv.node ok found).size
            have start := noGap f' n isOpen
            omega
          · exact full
      · exact full
  | _ =>
      cases stepped
      exact full

/-- Files that are written without gaps are read the same whatever was in memory. -/
theorem Full.meets (full : Full w.files) (ok : w.Ok layout ranges) (gapless : Gapless layout w ops) :
    Meets layout w ops := by
  induction ops generalizing w with
  | nil => trivial
  | cons op ops ih =>
      obtain ⟨valid, noGap, rest⟩ := gapless
      have covered := full.covered ok noGap
      refine ⟨valid, covered, ?_⟩
      split
      · next after stepped =>
          exact ih (full.step ok noGap stepped) (ok.step valid covered stepped) (rest _ _ stepped)
      · trivial

theorem World.Started.meets (start : w.Started layout ranges) (gapless : Gapless layout w ops) :
    Meets layout w ops := by
  refine Full.meets ?_ start.ok gapless
  rw [start.noFiles]
  nofun

end Gapless

/-! ## A gap -/

/-- The world of a kernel that has just booted from the small image. -/
def bootedWorld : World where
  machine := bootedMachine
  live := []
  files _ := none

theorem bootedWorld_started :
    bootedWorld.Started Kmem.smallImage [(Kmem.imageStart, Kmem.smallImage.stackTop), (0, 0x1000)] where
  heap := by
    unfold bootedWorld bootedMachine
    dsimp only
    exact .boot Kmem.smallImage_boot.1 Kmem.smallImage_boot.2 List.mem_cons_self
  noVnodes _ := rfl
  closed _ := rfl
  noFiles := rfl

/-- A file is written twice, and read where it was written. -/
def writtenOps : List Op :=
  [.create 0, .openFile 0 0, .write 0 (fun _ => 7) 2, .write 0 (fun _ => 8) 1, .seek 0 1 0, .read 0 5]

theorem reads_reveal_nothing_written :
    ((bootedWorld.withBytes fun _ => 9).run Kmem.smallImage writtenOps).map Prod.snd =
      (bootedWorld.run Kmem.smallImage writtenOps).map Prod.snd :=
  reads_reveal_nothing bootedWorld_started (by decide +kernel) fun _ => 9

/-- A byte is written behind a gap, and the gap is read. -/
def gapOps : List Op :=
  [.create 0, .openFile 0 0, .seek 0 1 0, .write 0 (fun _ => 7) 1, .seek 0 0 0, .read 0 1]

/-- The byte in the gap is what was in memory before. -/
theorem gap_reveals_memory :
    ∃ (layout : Layout) (ranges : List (Nat × Nat)) (w : World) (bytes : Nat → UInt8),
      w.Started layout ranges ∧
        ((w.withBytes bytes).run layout gapOps).map Prod.snd ≠ (w.run layout gapOps).map Prod.snd := by
  refine ⟨Kmem.smallImage, _, bootedWorld, fun _ => 9, bootedWorld_started, ?_⟩
  have reads : ((bootedWorld.withBytes fun _ => 9).run Kmem.smallImage gapOps).map (fun after =>
        after.2.map Prod.snd) = some [[], [], [], [], [], [9]] ∧
      (bootedWorld.run Kmem.smallImage gapOps).map (fun after => after.2.map Prod.snd) =
        some [[], [], [], [], [], [0]] := by decide +kernel
  intro same
  have bytes := congrArg (Option.map (List.map Prod.snd)) same
  rw [Option.map_map, Option.map_map] at bytes
  exact absurd (reads.1.symm.trans (bytes.trans reads.2)) (by decide)

end OsdiKernel.Tmpfs
