import OsdiKernel.Tmpfs.Refinement

/-!
# Runs over open files

Files are created, opened and closed, and any number of handles write, read and
seek, in any order.  Other parts of the kernel may allocate, free their own blocks
and write their own memory in between.  Throughout, every file behaves like
its abstract counterpart.
-/

namespace OsdiKernel.Tmpfs

open Kmem (Heap Layout bytesOf)

/-! ## The operations -/

section Operations

variable {layout : Layout} {ranges live : List (Nat × Nat)} {m : Machine} {A : Files} {f n : Nat}
  {target : Option Nat} {len : Nat}

theorem toInt_of_small {k : Nat} (small : k < 2 ^ 31) : toInt k = k := by
  unfold toInt
  rw [Int.bmod_eq_of_le] <;> omega

theorem AccessesWithin.trans {m' m'' : Machine} {first second : Nat × Nat}
    (before : AccessesWithin m m' first second) (after : AccessesWithin m' m'' second second) :
    AccessesWithin m m'' first second := by
  obtain ⟨new, same, inside⟩ := before
  obtain ⟨later, same', inside'⟩ := after
  refine ⟨later ++ new, ?_, fun range member => ?_⟩
  · rw [same', same, List.append_assoc]
  · rcases List.mem_append.mp member with inLater | inNew
    · rcases inside' range inLater with within | within
      · exact Or.inr within
      · exact Or.inr within
    · exact inside range inNew

/-- A write of at least one byte stores all of them, or fails and changes nothing. -/
theorem Inv.tmpfsWrite (inv : Inv layout ranges live m A) (buf : Nat → UInt8)
    (isOpen : m.internal target = some (f, n)) (positive : len ≠ 0)
    (bounded : (m.files f).fPos + len ≤ 2 ^ 63) :
    (∃ live' m', Tmpfs.tmpfsWrite layout m target (some buf) len = some (m', (len : Int)) ∧
        Inv layout ranges live' m' (A.write n (m.files f).fPos buf len) ∧
        Stored m A f n buf len m' ∧ AccessesWithin m m' (bufferOf m n) (bufferOf m' n) ∧
        live' = if (m'.nodes n).data = (m.nodes n).data then live
          else bufferOf m' n :: live.erase (bufferOf m n)) ∨
      ∃ heap, Tmpfs.tmpfsWrite layout m target (some buf) len =
          some ({ m with heap := heap }, enomem) ∧ Kmem.Run layout ranges live heap := by
  obtain ⟨_, file, found⟩ := inv.of_internal isOpen
  have ok := inv.node found
  have isFile : ¬ (m.nodes n).type ≠ .file := not_not_intro ok.type
  have wraps : ((m.files f).fPos + len) % 2 ^ 64 = (m.files f).fPos + len :=
    Nat.mod_eq_of_lt (by omega)
  unfold Tmpfs.tmpfsWrite
  rw [isOpen]
  dsimp only
  rw [if_neg positive, if_neg isFile, wraps]
  rcases inv.reallocate found bounded with ⟨live', m₁, result, grown⟩ | ⟨heap, result, run⟩
  · left
    have samePos : (m₁.files f).fPos = (m.files f).fPos := by rw [grown.files]
    have fits : (m₁.files f).fPos + len ≤ (m₁.nodes n).capacity := by
      rw [samePos]
      exact grown.enough
    obtain ⟨inv', stored, accesses, buffer⟩ := grown.inv.writeBuffer found buf fits
    have limit := (grown.inv.node found).large.2
    have short : len < 2 ^ 31 := by omega
    have data : ((Tmpfs.writeBuffer m₁ f n buf len).nodes n).data = (m₁.nodes n).data :=
      congrArg Prod.fst buffer
    rw [samePos] at inv'
    refine ⟨live', Tmpfs.writeBuffer m₁ f n buf len, ?_, inv', ?_, ?_, ?_⟩
    · rw [result]
      dsimp only
      rw [if_neg (not_not_intro rfl), toInt_of_small short]
    · constructor
      · rw [stored.pos, grown.files]
      · rw [stored.vnodes, grown.vnodes]
      · rw [stored.size, grown.size, samePos]
      · intro i below
        rw [← samePos]
        exact stored.stored i below
      · intro i below outside
        rw [← samePos] at outside
        rw [stored.kept i (grown.size ▸ below) outside, grown.content i below]
      · intro n' some_ other
        obtain ⟨fields, memory⟩ := stored.others some_ other
        rw [grown.others other] at fields memory
        exact ⟨fields, fun i below => (memory i below).trans (grown.memory some_ other i below)⟩
    · rw [buffer]
      exact grown.accesses.trans accesses
    · rw [data, buffer]
      exact grown.held
  · right
    refine ⟨heap, ?_, run⟩
    rw [result]
    rfl

/-- What a read returns: the bytes of the file from the position on. -/
structure Returned (m : Machine) (A : Files) (f n : Nat) (len : Nat)
    (result : Machine × Int × List UInt8) : Prop where
  count : result.2.1 = (min len ((m.nodes n).size - (m.files f).fPos) : Nat)
  bytes : result.2.2 = (List.range (min len ((m.nodes n).size - (m.files f).fPos))).map
    fun i => m.bytes ((m.nodes n).data + (m.files f).fPos + i)
  state : ∃ accesses, result.1 =
    { m with
      files := Function.update m.files f
        { m.files f with
          fPos := (m.files f).fPos + min len ((m.nodes n).size - (m.files f).fPos) }
      accesses := accesses }
  accesses : AccessesWithin m result.1 (bufferOf m n) (bufferOf m n)

theorem Inv.tmpfsRead (inv : Inv layout ranges live m A) (isOpen : m.internal target = some (f, n))
    (bounded : (m.files f).fPos + len < 2 ^ 63) :
    Returned m A f n len (Tmpfs.tmpfsRead m target true len) := by
  obtain ⟨_, file, found⟩ := inv.of_internal isOpen
  have ok := inv.node found
  have isFile : ¬ (m.nodes n).type ≠ .file := not_not_intro ok.type
  have wraps : ((m.files f).fPos + len) % 2 ^ 64 = (m.files f).fPos + len :=
    Nat.mod_eq_of_lt (by omega)
  have sizeLimit : (m.nodes n).size ≤ 2 ^ 25 := by
    rw [ok.size]
    exact ok.fits.trans ok.large.2
  have nothing : min len ((m.nodes n).size - (m.files f).fPos) = 0 →
      Returned m A f n len (m, 0, []) := by
    intro zero
    constructor
    · rw [zero]
      rfl
    · rw [zero]
      rfl
    · refine ⟨m.accesses, ?_⟩
      rw [zero, Nat.add_zero, Function.update_eq_self]
    · exact .refl _ _ _
  unfold Tmpfs.tmpfsRead
  rw [isOpen]
  dsimp only
  by_cases zero : len = 0
  · rw [if_pos zero]
    exact nothing (by omega)
  · rw [if_neg zero, if_neg isFile]
    by_cases atEnd : (m.nodes n).size ≤ (m.files f).fPos
    · rw [if_pos atEnd]
      exact nothing (by omega)
    · have readable : (if (m.nodes n).size < ((m.files f).fPos + len) % 2 ^ 64 then
          (m.nodes n).size - (m.files f).fPos else len) =
            min len ((m.nodes n).size - (m.files f).fPos) := by
        rw [wraps]
        split <;> omega
      rw [if_neg atEnd, readable]
      generalize counted : min len ((m.nodes n).size - (m.files f).fPos) = count
      have small : count < 2 ^ 31 := by omega
      have narrow : count % 2 ^ 32 = count := Nat.mod_eq_of_lt (by omega)
      have advance : ((m.files f).fPos + count) % 2 ^ 64 = (m.files f).fPos + count :=
        Nat.mod_eq_of_lt (by omega)
      unfold Machine.memcpyTo Machine.setPos
      dsimp only
      rw [narrow, advance, toInt_of_small small]
      constructor
      · rw [counted]
      · rw [counted]
      · rw [counted]
        exact ⟨_, rfl⟩
      · refine ⟨[((m.nodes n).data + (m.files f).fPos, count)], rfl, fun range member => ?_⟩
        rw [List.mem_singleton.mp member]
        refine Or.inl (bytesOf_subset rfl ?_)
        have fits := ok.fits
        rw [← ok.size] at fits
        change (m.files f).fPos + count ≤ (m.nodes n).capacity
        omega

/-- Moving handles keeps the invariant. -/
theorem Inv.setFiles (inv : Inv layout ranges live m A) {files : Nat → File}
    {accesses : List (Nat × Nat)} (pos : ∀ f, (files f).fPos < 2 ^ 63) :
    Inv layout ranges live { m with files := files, accesses := accesses } A where
  heap := inv.heap
  node found := (inv.node found).frame rfl (inv.node found).node (inv.node found).buffer
    fun _ _ => rfl
  apart := inv.apart
  vnodes := inv.vnodes
  pos := pos

theorem update_pos (inv : Inv layout ranges live m A) {vnode : Option Nat} {pos : Nat}
    (bounded : pos < 2 ^ 63) (f' : Nat) :
    (Function.update m.files f ⟨vnode, pos⟩ f').fPos < 2 ^ 63 := by
  by_cases same : f' = f
  · rw [same, Function.update_self]
    exact bounded
  · rw [Function.update_of_ne same]
    exact inv.pos f'

theorem Inv.afterRead (inv : Inv layout ranges live m A) (bounded : (m.files f).fPos + len < 2 ^ 63) :
    Inv layout ranges live (Tmpfs.tmpfsRead m (some f) true len).1 A := by
  cases isOpen : m.internal (some f) with
  | none =>
      unfold Tmpfs.tmpfsRead
      rw [isOpen]
      exact inv
  | some pair =>
      obtain ⟨f', n⟩ := pair
      obtain ⟨same, _⟩ := inv.of_internal isOpen
      cases same
      obtain ⟨accesses, state⟩ := (inv.tmpfsRead isOpen bounded).state
      rw [state]
      exact inv.setFiles (update_pos inv (by omega))

theorem Inv.afterSeek (inv : Inv layout ranges live m A) (f : Nat) {offset whence : Int}
    (long : offset < 2 ^ 63) :
    Inv layout ranges live (tmpfsLseek64 m (some f) offset whence).1 A := by
  unfold tmpfsLseek64
  split
  · next f' n isOpen =>
      split
      · exact inv
      · split
        · exact inv
        · next newPos target =>
            split
            · exact inv
            · next nonneg =>
                have bounded : newPos.toNat < 2 ^ 63 := by
                  unfold seekTarget at target
                  split at target
                  · cases target
                    omega
                  · split at target
                    · cases target
                      have upper := Int.bmod_lt (x := ((m.files f').fPos : Int) + offset)
                        (by decide : 0 < 2 ^ 64)
                      omega
                    · split at target
                      · cases target
                        have upper := Int.bmod_lt (x := ((m.nodes n).size : Int) + offset)
                          (by decide : 0 < 2 ^ 64)
                        omega
                      · cases target
                exact inv.setFiles (update_pos inv bounded)
  · exact inv

end Operations

/-! ## New files -/

section Create

variable {layout : Layout} {ranges live : List (Nat × Nat)} {m : Machine} {A : Files}

/-- A node at an address that was not in use is no node of an existing file. -/
theorem Inv.new_address (inv : Inv layout ranges live m A)
    (success : (Kmem.alloc m.heap nodeSize).2 ≠ 0) : A (Kmem.alloc m.heap nodeSize).2 = none := by
  by_contra known
  obtain ⟨file, found⟩ := Option.ne_none_iff_exists'.mp known
  exact inv.heap.fresh success (inv.node found).node rfl

/-- The machine after the node and the first buffer of a file were allocated. -/
def created (m : Machine) : Machine :=
  { m with
    heap := (Kmem.alloc (Kmem.alloc m.heap nodeSize).1 defaultFileSize).1
    nodes := Function.update m.nodes (Kmem.alloc m.heap nodeSize).2
      ⟨.file, (Kmem.alloc (Kmem.alloc m.heap nodeSize).1 defaultFileSize).2, 0,
        defaultFileSize⟩ }

/-- The three ways in which the creation of a node for a regular file ends. -/
theorem create_cases (layout : Layout) (m : Machine) :
    ((Kmem.alloc m.heap nodeSize).2 = 0 ∧ tmpfsCreateInternalNode layout m .file =
        ({ m with heap := (Kmem.alloc m.heap nodeSize).1 }, none)) ∨
      (Kmem.alloc m.heap nodeSize).2 ≠ 0 ∧
        ((Kmem.alloc (Kmem.alloc m.heap nodeSize).1 defaultFileSize).2 = 0 ∧
            (∃ node, tmpfsCreateInternalNode layout m .file =
              ({ m with
                heap := Kmem.free layout
                  (Kmem.alloc (Kmem.alloc m.heap nodeSize).1 defaultFileSize).1
                  (Kmem.alloc m.heap nodeSize).2
                nodes := Function.update m.nodes (Kmem.alloc m.heap nodeSize).2 node }, none)) ∨
          (Kmem.alloc (Kmem.alloc m.heap nodeSize).1 defaultFileSize).2 ≠ 0 ∧
            tmpfsCreateInternalNode layout m .file =
              (created m, some (Kmem.alloc m.heap nodeSize).2)) := by
  unfold tmpfsCreateInternalNode created Machine.setNode
  dsimp only
  by_cases noNode : (Kmem.alloc m.heap nodeSize).2 = 0
  · rw [if_pos noNode]
    exact Or.inl ⟨noNode, rfl⟩
  · right
    refine ⟨noNode, ?_⟩
    rw [if_neg noNode, if_pos rfl]
    by_cases noData : (Kmem.alloc (Kmem.alloc m.heap nodeSize).1 defaultFileSize).2 = 0
    · rw [if_pos noData]
      left
      refine ⟨noData, ?_⟩
      simp only [Function.update_idem]
      exact ⟨_, rfl⟩
    · rw [if_neg noData]
      right
      refine ⟨noData, ?_⟩
      simp only [Function.update_self, Function.update_idem]

/-- Writing the fields of an address that is no node keeps the invariant. -/
theorem Inv.setHeap (inv : Inv layout ranges live m A) {heap : Heap} {nodes : Nat → Node}
    {live' : List (Nat × Nat)} (run : Kmem.Run layout ranges live' heap)
    (subset : ∀ use ∈ live, use ∈ live') (fields : ∀ {n}, A n ≠ none → nodes n = m.nodes n) :
    Inv layout ranges live' { m with heap := heap, nodes := nodes } A where
  heap := run
  node {n file} found := by
    have ok := inv.node found
    exact ok.frame (fields (by simp [found])) (subset _ ok.node) (subset _ ok.buffer) fun _ _ => rfl
  apart some₁ some₂ different := by
    dsimp only
    rw [fields some₁, fields some₂]
    exact inv.apart some₁ some₂ different
  vnodes := inv.vnodes
  pos := inv.pos

theorem Inv.createFails (inv : Inv layout ranges live m A) {m' : Machine}
    (result : tmpfsCreateInternalNode layout m .file = (m', none)) :
    Inv layout ranges live m' A := by
  have first := inv.heap.alloc nodeSize
  rcases create_cases layout m with
    ⟨noNode, shape⟩ | ⟨success, ⟨noData, node, shape⟩ | ⟨_, shape⟩⟩
  · rw [shape] at result
    cases result
    rw [Mm.keep, if_pos noNode] at first
    exact inv.setHeap first (fun _ => id) fun _ => rfl
  · rw [shape] at result
    cases result
    rw [Kmem.keep_of_ne success] at first
    have second := first.alloc defaultFileSize
    rw [Mm.keep, if_pos noData] at second
    have freed := second.free List.mem_cons_self
    rw [List.erase_cons_head] at freed
    apply inv.setHeap freed (fun _ => id)
    intro n known
    apply Function.update_of_ne
    rintro rfl
    exact known (inv.new_address success)
  · rw [shape] at result
    cases result

theorem Inv.create (inv : Inv layout ranges live m A) {m' : Machine} {n v : Nat}
    (result : tmpfsCreateInternalNode layout m .file = (m', some n)) :
    Inv layout ranges (bufferOf m' n :: (n, nodeSize) :: live)
      { m' with vnodes := Function.update m'.vnodes v (some n) }
      (Function.update A n (some ByteFile.empty)) := by
  have first := inv.heap.alloc nodeSize
  rcases create_cases layout m with
    ⟨_, shape⟩ | ⟨success, ⟨_, node, shape⟩ | ⟨hasData, shape⟩⟩
  · rw [shape] at result
    cases result
  · rw [shape] at result
    cases result
  · rw [shape] at result
    cases result
    rw [Kmem.keep_of_ne success] at first
    have second := first.alloc defaultFileSize
    rw [Kmem.keep_of_ne hasData] at second
    have newAddress := inv.new_address success
    have freshData : ∀ use ∈ live, use.1 ≠
        (Kmem.alloc (Kmem.alloc m.heap nodeSize).1 defaultFileSize).2 :=
      fun use member => first.fresh hasData (List.mem_cons_of_mem _ member)
    generalize address : (Kmem.alloc m.heap nodeSize).2 = n at *
    generalize dataAddress : (Kmem.alloc (Kmem.alloc m.heap nodeSize).1 defaultFileSize).2 = data
      at *
    have self : (created m).nodes n = ⟨.file, data, 0, defaultFileSize⟩ := by
      rw [← address, ← dataAddress]
      exact Function.update_self _ _ _
    have others : ∀ {n'}, n' ≠ n → (created m).nodes n' = m.nodes n' := by
      intro n' other
      rw [← address] at other
      exact Function.update_of_ne other _ _
    have buffer : bufferOf (created m) n = (data, defaultFileSize) := by
      unfold bufferOf
      rw [self]
    have known : ∀ {n'}, Function.update A n (some ByteFile.empty) n' ≠ none → n' ≠ n →
        A n' ≠ none := by
      intro n' some_ other
      rwa [Function.update_of_ne other] at some_
    constructor
    · rw [buffer]
      exact second
    · intro n' file found
      by_cases same : n' = n
      · subst same
        rw [Function.update_self] at found
        cases found
        constructor
        · dsimp only
          rw [self]
        · exact List.mem_cons_of_mem _ List.mem_cons_self
        · exact List.mem_cons_self
        · dsimp only
          rw [self]
          rfl
        · exact Nat.zero_le _
        · dsimp only
          rw [self]
          exact ⟨12, by decide, by decide, rfl⟩
        · exact .empty _ _
      · rw [Function.update_of_ne same] at found
        have ok := inv.node found
        exact ok.frame (others same) (List.mem_cons_of_mem _ (List.mem_cons_of_mem _ ok.node))
          (List.mem_cons_of_mem _ (List.mem_cons_of_mem _ ok.buffer)) fun _ _ => rfl
    · have distinct : ∀ {n'}, A n' ≠ none → n' ≠ n → ((created m).nodes n').data ≠ data := by
        intro n' some_ other
        obtain ⟨file, found⟩ := Option.ne_none_iff_exists'.mp some_
        rw [others other]
        exact freshData _ (inv.node found).buffer
      intro n₁ n₂ some₁ some₂ different
      dsimp only
      by_cases atFirst : n₁ = n
      · have atSecond : n₂ ≠ n := fun same => different (atFirst.trans same.symm)
        rw [atFirst, self]
        exact (distinct (known some₂ atSecond) atSecond).symm
      · by_cases atSecond : n₂ = n
        · rw [atSecond, self]
          exact distinct (known some₁ atFirst) atFirst
        · rw [others atFirst, others atSecond]
          exact inv.apart (known some₁ atFirst) (known some₂ atSecond) different
    · intro v' n' isInternal
      by_cases same : n' = n
      · rw [same, Function.update_self]
        simp
      · rw [Function.update_of_ne same]
        by_cases atV : v' = v
        · subst atV
          dsimp only at isInternal
          rw [Function.update_self] at isInternal
          exact absurd (Option.some.inj isInternal).symm same
        · dsimp only at isInternal
          rw [Function.update_of_ne atV] at isInternal
          exact inv.vnodes isInternal
    · exact inv.pos

end Create

/-! ## Runs -/

/-- The abstract files after a call of `tmpfs_write` with this return value. -/
def Files.afterWrite (A : Files) (m : Machine) (f : Nat) (buf : Nat → UInt8) (len : Nat)
    (result : Int) : Files :=
  match m.internal (some f) with
  | some (_, n) => if 0 < result then A.write n (m.files f).fPos buf len else A
  | none => A

/-- The allocations in use after a call of `tmpfs_write`. -/
def liveAfterWrite (live : List (Nat × Nat)) (m m' : Machine) (f : Nat) : List (Nat × Nat) :=
  match m.internal (some f) with
  | some (_, n) =>
      if (m'.nodes n).data = (m.nodes n).data then live
      else bufferOf m' n :: live.erase (bufferOf m n)
  | none => live

/-- The machines that are reached by operations on files, with the allocations
in use and the abstract files. -/
inductive Run (layout : Layout) (ranges : List (Nat × Nat)) :
    List (Nat × Nat) → Machine → Files → Prop
  | start {live : List (Nat × Nat)} {m : Machine} (heap : Kmem.Run layout ranges live m.heap)
      (noVnodes : ∀ v, m.vnodes v = none) (closed : ∀ f, m.files f = ⟨none, 0⟩) :
      Run layout ranges live m fun _ => none
  | create {live : List (Nat × Nat)} {m m' : Machine} {A : Files} {n v : Nat}
      (earlier : Run layout ranges live m A)
      (result : tmpfsCreateInternalNode layout m .file = (m', some n)) :
      Run layout ranges (bufferOf m' n :: (n, nodeSize) :: live)
        { m' with vnodes := Function.update m'.vnodes v (some n) }
        (Function.update A n (some ByteFile.empty))
  | createFails {live : List (Nat × Nat)} {m m' : Machine} {A : Files}
      (earlier : Run layout ranges live m A)
      (result : tmpfsCreateInternalNode layout m .file = (m', none)) :
      Run layout ranges live m' A
  | openFile {live : List (Nat × Nat)} {m : Machine} {A : Files}
      (earlier : Run layout ranges live m A) (v f : Nat) :
      Run layout ranges live (tmpfsOpen m (some v) (some f)).1 A
  | close {live : List (Nat × Nat)} {m : Machine} {A : Files}
      (earlier : Run layout ranges live m A) (f : Nat) :
      Run layout ranges live (tmpfsClose m (some f)).1 A
  | write {live : List (Nat × Nat)} {m m' : Machine} {A : Files} {f len : Nat}
      {buf : Nat → UInt8} {result : Int} (earlier : Run layout ranges live m A)
      (bounded : (m.files f).fPos + len < 2 ^ 63)
      (written : tmpfsWrite layout m (some f) (some buf) len = some (m', result)) :
      Run layout ranges (liveAfterWrite live m m' f) m' (A.afterWrite m f buf len result)
  | read {live : List (Nat × Nat)} {m : Machine} {A : Files} {f len : Nat}
      (earlier : Run layout ranges live m A) (bounded : (m.files f).fPos + len < 2 ^ 63) :
      Run layout ranges live (tmpfsRead m (some f) true len).1 A
  | seek {live : List (Nat × Nat)} {m : Machine} {A : Files} {f : Nat} {offset whence : Int}
      (earlier : Run layout ranges live m A) (long : offset < 2 ^ 63) :
      Run layout ranges live (tmpfsLseek64 m (some f) offset whence).1 A
  | otherAlloc {live : List (Nat × Nat)} {m : Machine} {A : Files}
      (earlier : Run layout ranges live m A) (size : Nat) :
      Run layout ranges (Mm.keep (Kmem.alloc m.heap size).2 size live)
        { m with heap := (Kmem.alloc m.heap size).1 } A
  | otherFree {live : List (Nat × Nat)} {m : Machine} {A : Files} {use : Nat × Nat}
      (earlier : Run layout ranges live m A) (member : use ∈ live)
      (unused : ∀ n, A n ≠ none → use ≠ bufferOf m n ∧ use ≠ (n, nodeSize)) :
      Run layout ranges (live.erase use)
        { m with heap := Kmem.free layout m.heap use.1 } A
  | otherStore {live : List (Nat × Nat)} {m : Machine} {A : Files} {bytes : Nat → UInt8}
      (earlier : Run layout ranges live m A)
      (outside : ∀ n, A n ≠ none → ∀ i, i < (m.nodes n).capacity →
        bytes ((m.nodes n).data + i) = m.bytes ((m.nodes n).data + i)) :
      Run layout ranges live { m with bytes := bytes } A

theorem mem_keep {ptr size : Nat} {live : List (Nat × Nat)} {use : Nat × Nat}
    (member : use ∈ live) : use ∈ Mm.keep ptr size live := by
  unfold Mm.keep
  split
  · exact member
  · exact List.mem_cons_of_mem _ member

theorem Inv.afterWrite {layout : Layout} {ranges live : List (Nat × Nat)} {m m' : Machine}
    {A : Files} {f len : Nat} {buf : Nat → UInt8} {result : Int}
    (inv : Inv layout ranges live m A) (bounded : (m.files f).fPos + len ≤ 2 ^ 63)
    (written : Tmpfs.tmpfsWrite layout m (some f) (some buf) len = some (m', result)) :
    Inv layout ranges (liveAfterWrite live m m' f) m' (A.afterWrite m f buf len result) := by
  unfold liveAfterWrite Files.afterWrite
  cases isOpen : m.internal (some f) with
  | none =>
      unfold Tmpfs.tmpfsWrite at written
      rw [isOpen] at written
      cases written
      exact inv
  | some pair =>
      obtain ⟨f', n⟩ := pair
      obtain ⟨same, _⟩ := inv.of_internal isOpen
      cases same
      dsimp only
      by_cases zero : len = 0
      · unfold Tmpfs.tmpfsWrite at written
        rw [isOpen] at written
        dsimp only at written
        rw [if_pos zero] at written
        cases written
        rw [if_pos rfl, if_neg (Int.lt_irrefl 0)]
        exact inv
      · rcases inv.tmpfsWrite buf isOpen zero bounded with
          ⟨live', m₁, shape, next, _, _, held⟩ | ⟨heap, shape, run⟩
        · rw [shape] at written
          cases written
          have succeeds : 0 < (len : Int) := by omega
          rw [if_pos succeeds, ← held]
          exact next
        · rw [shape] at written
          cases written
          rw [if_pos rfl, if_neg (by decide)]
          exact inv.setHeap run (fun _ => id) fun _ => rfl

/-- The rest of the kernel frees an allocation that no file uses. -/
theorem Inv.otherFree {layout : Layout} {ranges live : List (Nat × Nat)} {m : Machine} {A : Files}
    {use : Nat × Nat} (inv : Inv layout ranges live m A) (member : use ∈ live)
    (unused : ∀ n, A n ≠ none → use ≠ bufferOf m n ∧ use ≠ (n, nodeSize)) :
    Inv layout ranges (live.erase use) { m with heap := Kmem.free layout m.heap use.1 } A := by
  refine ⟨inv.heap.free member, ?_, inv.apart, inv.vnodes, inv.pos⟩
  intro n file found
  have ok := inv.node found
  obtain ⟨notBuffer, notNode⟩ := unused n (by simp [found])
  exact ok.frame rfl ((List.mem_erase_of_ne notNode.symm).mpr ok.node)
    ((List.mem_erase_of_ne notBuffer.symm).mpr ok.buffer) fun _ _ => rfl

/-- The invariant holds throughout every run. -/
theorem Run.inv {layout : Layout} {ranges live : List (Nat × Nat)} {m : Machine} {A : Files}
    (run : Run layout ranges live m A) : Inv layout ranges live m A := by
  induction run with
  | start heap noVnodes closed =>
      refine ⟨heap, (fun impossible => by cases impossible),
        (fun impossible => absurd rfl impossible), ?_, ?_⟩
      · intro v n isInternal
        rw [noVnodes v] at isInternal
        cases isInternal
      · intro f
        rw [closed f]
        decide
  | create earlier result ih => exact ih.create result
  | createFails earlier result ih => exact ih.createFails result
  | openFile earlier v f ih => exact ih.setFiles (update_pos ih (by decide))
  | close earlier f ih => exact ih.setFiles (update_pos ih (by decide))
  | write earlier bounded written ih => exact ih.afterWrite (Nat.le_of_lt bounded) written
  | read earlier bounded ih => exact ih.afterRead bounded
  | seek earlier long ih => exact ih.afterSeek _ long
  | otherAlloc earlier size ih =>
      exact ih.setHeap (ih.heap.alloc size) (fun _ => mem_keep) fun _ => rfl
  | otherFree earlier member unused ih => exact ih.otherFree member unused
  | otherStore earlier outside ih =>
      refine ⟨ih.heap, ?_, ih.apart, ih.vnodes, ih.pos⟩
      intro n file found
      have ok := ih.node found
      exact ok.frame rfl ok.node ok.buffer (outside n (by simp [found]))

/-! ## Files behave like their abstract counterparts -/

/-- A call of `tmpfs_write` stores everything and returns `len`, or it fails
with `ENOMEM_VFS` and changes no file. -/
def WriteSafe (layout : Layout) (m : Machine) (A : Files) (f n : Nat) (buf : Nat → UInt8)
    (len : Nat) : Prop :=
  (∃ m', tmpfsWrite layout m (some f) (some buf) len = some (m', (len : Int)) ∧
      Stored m A f n buf len m' ∧ AccessesWithin m m' (bufferOf m n) (bufferOf m' n)) ∨
    ∃ heap, tmpfsWrite layout m (some f) (some buf) len =
      some ({ m with heap := heap }, enomem)

structure FileSafe (layout : Layout) (ranges live : List (Nat × Nat)) (m : Machine) (A : Files) :
    Prop where
  /-- The allocations in use are those of a run of the heap. -/
  heap : Kmem.Run layout ranges live m.heap
  /-- The buffer of a file is an allocation of `capacity` bytes. -/
  buffer : ∀ {n file}, A n = some file → bufferOf m n ∈ live
  size : ∀ {n file}, A n = some file →
    (m.nodes n).size = file.size ∧ (m.nodes n).size ≤ (m.nodes n).capacity
  /-- Every byte that was written is in the buffer. -/
  content : ∀ {n file i b}, A n = some file → file.written i = some b →
    i < (m.nodes n).size ∧ m.bytes ((m.nodes n).data + i) = b
  apart : ∀ {n n'}, A n ≠ none → A n' ≠ none → n ≠ n' →
    Disjoint (bytesOf (bufferOf m n)) (bytesOf (bufferOf m n'))
  write : ∀ {f n} (buf : Nat → UInt8) {len}, m.internal (some f) = some (f, n) → len ≠ 0 →
    (m.files f).fPos + len < 2 ^ 63 → WriteSafe layout m A f n buf len
  writeNothing : ∀ {f n} (buf : Nat → UInt8), m.internal (some f) = some (f, n) →
    tmpfsWrite layout m (some f) (some buf) 0 = some (m, 0)
  read : ∀ {f n len}, m.internal (some f) = some (f, n) → (m.files f).fPos + len < 2 ^ 63 →
    Returned m A f n len (tmpfsRead m (some f) true len)
  /-- A byte that is returned is the one that was last written there. -/
  lastWritten : ∀ {f n len file i b}, m.internal (some f) = some (f, n) →
    (m.files f).fPos + len < 2 ^ 63 → A n = some file →
    i < min len ((m.nodes n).size - (m.files f).fPos) →
    file.written ((m.files f).fPos + i) = some b →
    (tmpfsRead m (some f) true len).2.2[i]? = some b
  /-- Opening a file and moving a handle change nothing else. -/
  openSeek : ∀ (f v : Nat) (offset whence : Int),
    (∃ file, (tmpfsOpen m (some v) (some f)).1 =
        { m with files := Function.update m.files f file }) ∧
      ∃ file, (tmpfsLseek64 m (some f) offset whence).1 =
        { m with files := Function.update m.files f file }

theorem Inv.written_returned {layout : Layout} {ranges live : List (Nat × Nat)} {m : Machine}
    {A : Files} {f n len i : Nat} {file : ByteFile UInt8} {b : UInt8}
    (inv : Inv layout ranges live m A) (isOpen : m.internal (some f) = some (f, n))
    (bounded : (m.files f).fPos + len < 2 ^ 63) (found : A n = some file)
    (below : i < min len ((m.nodes n).size - (m.files f).fPos))
    (written : file.written ((m.files f).fPos + i) = some b) :
    (Tmpfs.tmpfsRead m (some f) true len).2.2[i]? = some b := by
  rw [(inv.tmpfsRead isOpen bounded).bytes, List.getElem?_map, List.getElem?_range below,
    Option.map_some, Nat.add_assoc, (inv.node found).content.value written]

theorem tmpfsWrite_nothing (layout : Layout) {m : Machine} {f n : Nat} (buf : Nat → UInt8)
    (isOpen : m.internal (some f) = some (f, n)) :
    tmpfsWrite layout m (some f) (some buf) 0 = some (m, 0) := by
  unfold tmpfsWrite
  rw [isOpen]
  exact if_pos rfl

theorem seek_only_moves (m : Machine) (f : Nat) (offset whence : Int) :
    ∃ file, (tmpfsLseek64 m (some f) offset whence).1 =
      { m with files := Function.update m.files f file } := by
  have unchanged : m = { m with files := Function.update m.files f (m.files f) } := by
    rw [Function.update_eq_self]
  unfold tmpfsLseek64
  split
  · next f' n isOpen =>
      have same : f' = f := by
        unfold Machine.internal at isOpen
        simp only [Option.bind_eq_bind, Option.bind_eq_some_iff, Option.pure_def] at isOpen
        obtain ⟨_, target, _, _, _, _, same⟩ := isOpen
        cases same
        exact (Option.some.inj target).symm
      subst same
      split
      · exact ⟨_, unchanged⟩
      · split
        · exact ⟨_, unchanged⟩
        · split
          · exact ⟨_, unchanged⟩
          · exact ⟨_, rfl⟩
  · exact ⟨_, unchanged⟩

/-- In every run the files of tmpfs are those that were written, whatever the
order of the operations and the number of handles. -/
theorem run_fileSafe {layout : Layout} {ranges live : List (Nat × Nat)} {m : Machine} {A : Files}
    (run : Run layout ranges live m A) : FileSafe layout ranges live m A := by
  have inv := run.inv
  constructor
  · exact inv.heap
  · exact fun found => (inv.node found).buffer
  · intro n file found
    have ok := inv.node found
    exact ⟨ok.size, ok.size ▸ ok.fits⟩
  · intro n file i b found written
    have ok := inv.node found
    exact ⟨ok.size ▸ ok.content.within written, ok.content.value written⟩
  · intro n n' some_ some' different
    obtain ⟨file, found⟩ := Option.ne_none_iff_exists'.mp some_
    obtain ⟨file', found'⟩ := Option.ne_none_iff_exists'.mp some'
    have apart := (inv.buffers_apart found found' different).2
    rw [Set.disjoint_left]
    intro y inside inside'
    unfold bufferOf at inside inside'
    rw [bytesOf, Set.mem_Ico] at inside inside'
    omega
  · intro f n buf len isOpen positive bounded
    rcases inv.tmpfsWrite buf isOpen positive (Nat.le_of_lt bounded) with
      ⟨_, m', result, _, stored, accesses, _⟩ | ⟨heap, result, _⟩
    · exact Or.inl ⟨m', result, stored, accesses⟩
    · exact Or.inr ⟨heap, result⟩
  · exact fun buf isOpen => tmpfsWrite_nothing layout buf isOpen
  · exact fun isOpen bounded => inv.tmpfsRead isOpen bounded
  · exact fun isOpen bounded found below written =>
      inv.written_returned isOpen bounded found below written
  · exact fun f v offset whence => ⟨⟨_, rfl⟩, seek_only_moves m f offset whence⟩

/-! ## One file -/

/-- The machine of a kernel that has just booted from the small image. -/
def bootedMachine : Machine where
  heap := Kmem.kmemCacheInit (Kmem.uninitialised
    (Mm.reserve (Mm.reserve Mm.mmInit 0 0x1000) Kmem.imageStart Kmem.smallImage.stackTop))
  bytes _ := 0
  nodes _ := ⟨.directory, 0, 0, 0⟩
  vnodes _ := none
  files _ := ⟨none, 0⟩
  accesses := []

/-- The address of the first node that is created. -/
def firstNode : Nat := (Kmem.alloc bootedMachine.heap nodeSize).2

/-- One file, to which vnode 0 refers. -/
def oneFile : Machine :=
  { created bootedMachine with
    vnodes := Function.update (created bootedMachine).vnodes 0 (some firstNode) }

theorem oneFile_run :
    Run Kmem.smallImage [(Kmem.imageStart, Kmem.smallImage.stackTop), (0, 0x1000)]
      [bufferOf (created bootedMachine) firstNode, (firstNode, nodeSize)] oneFile
      (Function.update (fun _ => none) firstNode (some ByteFile.empty)) := by
  have heap : Kmem.Run Kmem.smallImage
      [(Kmem.imageStart, Kmem.smallImage.stackTop), (0, 0x1000)] [] bootedMachine.heap := by
    unfold bootedMachine
    dsimp only
    exact .boot Kmem.smallImage_boot.1 Kmem.smallImage_boot.2 List.mem_cons_self
  have start : Run Kmem.smallImage [(Kmem.imageStart, Kmem.smallImage.stackTop), (0, 0x1000)] []
      bootedMachine fun _ => none :=
    .start heap (fun _ => rfl) fun _ => rfl
  apply start.create
  rcases create_cases Kmem.smallImage bootedMachine with
    ⟨noNode, _⟩ | ⟨_, ⟨noData, _⟩ | ⟨_, shape⟩⟩
  · exact absurd noNode (by decide +kernel)
  · exact absurd noData (by decide +kernel)
  · exact shape

/-- The file, open and empty. -/
theorem run_fileSafe_open :
    FileSafe Kmem.smallImage [(Kmem.imageStart, Kmem.smallImage.stackTop), (0, 0x1000)]
      [bufferOf (created bootedMachine) firstNode, (firstNode, nodeSize)]
      (tmpfsOpen oneFile (some 0) (some 0)).1
      (Function.update (fun _ => none) firstNode (some ByteFile.empty)) :=
  run_fileSafe (oneFile_run.openFile 0 0)

/-- A write of no bytes past the end succeeds and leaves the size as it is. -/
theorem zero_write_keeps_size :
    ∃ live m A f n, Run Kmem.smallImage
        [(Kmem.imageStart, Kmem.smallImage.stackTop), (0, 0x1000)] live m A ∧
      m.internal (some f) = some (f, n) ∧
      tmpfsWrite Kmem.smallImage m (some f) (some fun _ => 0) 0 = some (m, 0) ∧
      (m.nodes n).size ≠ max (m.nodes n).size ((m.files f).fPos + 0) := by
  have run := @Run.seek _ _ _ _ _ 0 10 0 (oneFile_run.openFile 0 0) (by decide)
  have isOpen : (tmpfsLseek64 (tmpfsOpen oneFile (some 0) (some 0)).1 (some 0) 10 0).1.internal
      (some 0) = some (0, firstNode) := by decide +kernel
  exact ⟨_, _, _, 0, firstNode, run, isOpen, tmpfsWrite_nothing _ _ isOpen, by decide +kernel⟩

end OsdiKernel.Tmpfs
