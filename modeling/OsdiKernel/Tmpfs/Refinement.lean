import OsdiKernel.Kmem.Safety
import OsdiKernel.Tmpfs.Model

/-!
# Files of tmpfs as abstract byte files

The invariant says that the buffer of every file is an allocation of the heap
of exactly `capacity` bytes and represents the abstract file.  Replacing the
buffer and storing into it keep the invariant.
-/

namespace OsdiKernel.Tmpfs

open Kmem (Heap Layout bytesOf)

/-! ## The invariant -/

/-- The abstract files, by the address of their node. -/
abbrev Files : Type := Nat → Option (ByteFile UInt8)

/-- The buffer of a node, as an allocation of the heap. -/
def bufferOf (m : Machine) (n : Nat) : Nat × Nat := ((m.nodes n).data, (m.nodes n).capacity)

structure NodeOk (live : List (Nat × Nat)) (m : Machine) (n : Nat) (file : ByteFile UInt8) :
    Prop where
  type : (m.nodes n).type = .file
  node : (n, nodeSize) ∈ live
  buffer : bufferOf m n ∈ live
  size : (m.nodes n).size = file.size
  fits : file.size ≤ (m.nodes n).capacity
  power : ∃ e, 12 ≤ e ∧ e ≤ 25 ∧ (m.nodes n).capacity = 2 ^ e
  content : Represents m.bytes (m.nodes n).data file

structure Inv (layout : Layout) (ranges live : List (Nat × Nat)) (m : Machine) (A : Files) :
    Prop where
  heap : Kmem.Run layout ranges live m.heap
  node : ∀ {n file}, A n = some file → NodeOk live m n file
  apart : ∀ {n n'}, A n ≠ none → A n' ≠ none → n ≠ n' → (m.nodes n).data ≠ (m.nodes n').data
  vnodes : ∀ {v n}, m.vnodes v = some n → A n ≠ none
  pos : ∀ f, (m.files f).fPos < 2 ^ 63

section Inv

variable {layout : Layout} {ranges live : List (Nat × Nat)} {m : Machine} {A : Files} {n : Nat}
  {file : ByteFile UInt8}

theorem NodeOk.large (ok : NodeOk live m n file) :
    defaultFileSize ≤ (m.nodes n).capacity ∧ (m.nodes n).capacity ≤ 2 ^ 25 := by
  obtain ⟨e, lower, upper, same⟩ := ok.power
  rw [same]
  have least : defaultFileSize = 2 ^ 12 := by decide
  rw [least]
  exact ⟨Nat.pow_le_pow_right (by decide) lower, Nat.pow_le_pow_right (by decide) upper⟩

/-- The structures of nodes are no buffers, for they are smaller. -/
theorem NodeOk.node_ne_buffer (ok : NodeOk live m n file) (n' : Nat) :
    (n', nodeSize) ≠ bufferOf m n := by
  intro same
  have sizes : nodeSize = (m.nodes n).capacity := congrArg Prod.snd same
  have large := ok.large.1
  rw [← sizes] at large
  exact absurd large (by decide)

/-- The buffers of two files do not overlap. -/
theorem Inv.buffers_apart (inv : Inv layout ranges live m A) {n' : Nat} {file' : ByteFile UInt8}
    (found : A n = some file) (found' : A n' = some file') (different : n ≠ n') :
    bufferOf m n ≠ bufferOf m n' ∧
      ((m.nodes n).data + (m.nodes n).capacity ≤ (m.nodes n').data ∨
        (m.nodes n').data + (m.nodes n').capacity ≤ (m.nodes n).data) := by
  have other : bufferOf m n ≠ bufferOf m n' := fun same =>
    inv.apart (by simp [found]) (by simp [found']) different (congrArg Prod.fst same)
  exact ⟨other, inv.heap.apart (inv.node found).buffer (inv.node found').buffer other⟩

/-- The invariant of a node only depends on its fields, its memory and the heap. -/
theorem NodeOk.frame {live' : List (Nat × Nat)} {m' : Machine} (ok : NodeOk live m n file)
    (fields : m'.nodes n = m.nodes n) (node : (n, nodeSize) ∈ live')
    (buffer : bufferOf m n ∈ live')
    (same : ∀ i, i < (m.nodes n).capacity →
      m'.bytes ((m.nodes n).data + i) = m.bytes ((m.nodes n).data + i)) :
    NodeOk live' m' n file := by
  constructor
  · rw [fields]
    exact ok.type
  · exact node
  · unfold bufferOf
    rw [fields]
    exact buffer
  · rw [fields]
    exact ok.size
  · rw [fields]
    exact ok.fits
  · rw [fields]
    exact ok.power
  · rw [fields]
    exact ok.content.frame fun i below => same i (Nat.lt_of_lt_of_le below ok.fits)

/-- A file that is open has a node with an abstract file. -/
theorem Inv.of_internal (inv : Inv layout ranges live m A) {target : Option Nat} {f : Nat}
    (open_ : m.internal target = some (f, n)) : target = some f ∧ ∃ file, A n = some file := by
  unfold Machine.internal at open_
  simp only [Option.bind_eq_bind, Option.bind_eq_some_iff, Option.pure_def] at open_
  obtain ⟨f', target', v, _, n', isInternal, same⟩ := open_
  cases same
  exact ⟨target', Option.ne_none_iff_exists'.mp (inv.vnodes isInternal)⟩

end Inv

/-! ## The capacity loop -/

theorem growLoop_power {required : Nat} (bounded : required ≤ 2 ^ 63) {e fuel : Nat}
    (small : e ≤ 63) (enough : 63 < e + fuel) :
    ∃ e', e ≤ e' ∧ e' ≤ 63 ∧ growLoop required fuel (2 ^ e) = some (2 ^ e') ∧
      required ≤ 2 ^ e' := by
  induction fuel generalizing e with
  | zero => omega
  | succ fuel ih =>
      unfold growLoop
      by_cases below : 2 ^ e < required
      · have before : e < 63 := by
          rcases Nat.lt_or_eq_of_le small with smaller | rfl
          · exact smaller
          · omega
        have next : 2 ^ e * 2 % 2 ^ 64 = 2 ^ (e + 1) := by
          rw [← Nat.pow_succ]
          exact Nat.mod_eq_of_lt (Nat.pow_lt_pow_right (by decide) (by omega))
        rw [if_pos below, next]
        obtain ⟨e', above, atMost, result, reached⟩ := ih before (by omega)
        exact ⟨e', Nat.le_of_succ_le above, atMost, result, reached⟩
      · rw [if_neg below]
        exact ⟨e, Nat.le_refl e, small, rfl, Nat.le_of_not_lt below⟩

/-- Truncated to an `unsigned int`, a capacity is either itself or zero. -/
theorem power_mod (e : Nat) : 2 ^ e % 2 ^ 32 = if e < 32 then 2 ^ e else 0 := by
  split
  · next small => exact Nat.mod_eq_of_lt (Nat.pow_lt_pow_right (by decide) small)
  · next large =>
      exact Nat.mod_eq_zero_of_dvd (Nat.pow_dvd_pow 2 (Nat.le_of_not_lt large))

/-! ## Replacing the buffer -/

/-- Some ranges of memory were accessed, all of them inside one of two buffers. -/
def AccessesWithin (m m' : Machine) (first second : Nat × Nat) : Prop :=
  ∃ new, m'.accesses = new ++ m.accesses ∧ ∀ range ∈ new,
    bytesOf range ⊆ bytesOf first ∨ bytesOf range ⊆ bytesOf second

/-- The buffer of a node is large enough now; contents and positions are the same. -/
structure Grown (layout : Layout) (ranges live : List (Nat × Nat)) (m : Machine) (A : Files)
    (n required : Nat) (live' : List (Nat × Nat)) (m' : Machine) : Prop where
  inv : Inv layout ranges live' m' A
  enough : required ≤ (m'.nodes n).capacity
  size : (m'.nodes n).size = (m.nodes n).size
  others : ∀ {n'}, n' ≠ n → m'.nodes n' = m.nodes n'
  files : m'.files = m.files
  vnodes : m'.vnodes = m.vnodes
  content : ∀ i, i < (m.nodes n).size →
    m'.bytes ((m'.nodes n).data + i) = m.bytes ((m.nodes n).data + i)
  memory : ∀ {n'}, A n' ≠ none → n' ≠ n → ∀ i, i < (m.nodes n').capacity →
    m'.bytes ((m.nodes n').data + i) = m.bytes ((m.nodes n').data + i)
  accesses : AccessesWithin m m' (bufferOf m n) (bufferOf m' n)
  held : live' = if (m'.nodes n).data = (m.nodes n).data then live
    else bufferOf m' n :: live.erase (bufferOf m n)

theorem AccessesWithin.refl (m : Machine) (first second : Nat × Nat) :
    AccessesWithin m m first second :=
  ⟨[], rfl, fun _ impossible => by cases impossible⟩

/-- A range that starts at a buffer and is no longer is inside it. -/
theorem bytesOf_subset {start length offset : Nat} {buffer : Nat × Nat}
    (starts : start = buffer.1 + offset) (fits : offset + length ≤ buffer.2) :
    bytesOf (start, length) ⊆ bytesOf buffer := by
  intro y inside
  rw [bytesOf, Set.mem_Ico] at inside ⊢
  omega

section Grow

variable {layout : Layout} {ranges live : List (Nat × Nat)} {m : Machine} {A : Files} {n : Nat}
  {file : ByteFile UInt8}

theorem Inv.grown_refl (inv : Inv layout ranges live m A) {required : Nat}
    (enough : required ≤ (m.nodes n).capacity) : Grown layout ranges live m A n required live m where
  inv := inv
  enough := enough
  size := rfl
  others _ := rfl
  files := rfl
  vnodes := rfl
  content _ _ := rfl
  memory _ _ _ _ := rfl
  accesses := .refl _ _ _
  held := (if_pos rfl).symm

/-- The machine after the old buffer of a node was copied to a new one and freed. -/
def moved (layout : Layout) (m : Machine) (n newCapacity : Nat) : Machine where
  heap := Kmem.free layout (Kmem.alloc m.heap newCapacity).1 (m.nodes n).data
  bytes := copyLoop m.bytes (Kmem.alloc m.heap newCapacity).2 (m.nodes n).data (m.nodes n).size
  nodes := Function.update m.nodes n
    { m.nodes n with data := (Kmem.alloc m.heap newCapacity).2, capacity := newCapacity }
  vnodes := m.vnodes
  files := m.files
  accesses := ((Kmem.alloc m.heap newCapacity).2, (m.nodes n).size) ::
    ((m.nodes n).data, (m.nodes n).size) :: m.accesses

/-- Moving to a larger buffer keeps all contents. -/
theorem Inv.moved (inv : Inv layout ranges live m A) (found : A n = some file) {e required : Nat}
    (atLeast : 12 ≤ e) (success : (Kmem.alloc m.heap (2 ^ e)).2 ≠ 0)
    (enough : required ≤ 2 ^ e) (larger : (m.nodes n).capacity ≤ 2 ^ e) :
    Grown layout ranges live m A n required
      (bufferOf (Tmpfs.moved layout m n (2 ^ e)) n :: live.erase (bufferOf m n))
      (Tmpfs.moved layout m n (2 ^ e)) := by
  have ok := inv.node found
  have bound := (Kmem.alloc_bounds success).2
  have atMost : e ≤ 25 := by
    have limit : Mm.maxAllocSize = 2 ^ 25 := by decide
    rw [limit] at bound
    exact (Nat.pow_le_pow_iff_right (by decide)).mp bound
  have allocated := inv.heap.alloc (2 ^ e)
  rw [Kmem.keep_of_ne success] at allocated
  have fresh : ∀ use ∈ live, use.1 ≠ (Kmem.alloc m.heap (2 ^ e)).2 :=
    fun use member => inv.heap.fresh success member
  generalize newData : (Kmem.alloc m.heap (2 ^ e)).2 = new at *
  have self : (Tmpfs.moved layout m n (2 ^ e)).nodes n =
      { m.nodes n with data := new, capacity := 2 ^ e } := by
    rw [← newData]
    exact Function.update_self _ _ _
  have others : ∀ {n'}, n' ≠ n → (Tmpfs.moved layout m n (2 ^ e)).nodes n' = m.nodes n' :=
    fun other => Function.update_of_ne other _ _
  have buffer : bufferOf (Tmpfs.moved layout m n (2 ^ e)) n = (new, 2 ^ e) := by
    unfold bufferOf
    rw [self]
  have notOld : (new, 2 ^ e) ≠ bufferOf m n := fun same =>
    fresh _ ok.buffer (congrArg Prod.fst same).symm
  -- the new buffer overlaps none of the allocations in use
  have clear : ∀ use ∈ live, new + 2 ^ e ≤ use.1 ∨ use.1 + use.2 ≤ new := by
    intro use member
    apply allocated.apart List.mem_cons_self (List.mem_cons_of_mem _ member)
    exact fun same => fresh use member (congrArg Prod.fst same).symm
  have sizeFits : (m.nodes n).size ≤ (m.nodes n).capacity := by
    rw [ok.size]
    exact ok.fits
  have bytes : (Tmpfs.moved layout m n (2 ^ e)).bytes =
      copyLoop m.bytes new (m.nodes n).data (m.nodes n).size := by
    unfold Tmpfs.moved
    rw [newData]
  have copyApart : new + (m.nodes n).size ≤ (m.nodes n).data ∨
      (m.nodes n).data + (m.nodes n).size ≤ new := by
    have old := clear _ ok.buffer
    unfold bufferOf at old
    omega
  have kept : ∀ use ∈ live, ∀ i, i < use.2 →
      (Tmpfs.moved layout m n (2 ^ e)).bytes (use.1 + i) = m.bytes (use.1 + i) := by
    intro use member i below
    have old := clear use member
    rw [bytes, copyLoop_apply _ _ _ _ _ copyApart, if_neg (by omega)]
  have freed := allocated.free (List.mem_cons_of_mem _ ok.buffer)
  have held : ((new, 2 ^ e) :: live).erase (bufferOf m n) =
      (new, 2 ^ e) :: live.erase (bufferOf m n) :=
    List.erase_cons_tail (by simpa using notOld)
  rw [held] at freed
  constructor
  · constructor
    · rw [buffer]
      exact freed
    · intro n' file' found'
      by_cases same : n' = n
      · subst same
        rw [found] at found'
        cases found'
        constructor
        · rw [self]
          exact ok.type
        · rw [buffer]
          exact List.mem_cons_of_mem _
            ((List.mem_erase_of_ne (ok.node_ne_buffer n')).mpr ok.node)
        · exact List.mem_cons_self
        · rw [self]
          exact ok.size
        · rw [self]
          exact ok.fits.trans larger
        · rw [self]
          exact ⟨e, atLeast, atMost, rfl⟩
        · rw [self, bytes, ok.size]
          apply ok.content.copy
          rw [← ok.size]
          exact copyApart
      · have ok' := inv.node found'
        have different := (inv.buffers_apart found' found same).1
        apply ok'.frame (others same)
        · exact List.mem_cons_of_mem _ ((List.mem_erase_of_ne (ok.node_ne_buffer n')).mpr ok'.node)
        · exact List.mem_cons_of_mem _ ((List.mem_erase_of_ne different).mpr ok'.buffer)
        · exact kept _ ok'.buffer
    · have distinct : ∀ {n'}, A n' ≠ none → n' ≠ n →
          ((Tmpfs.moved layout m n (2 ^ e)).nodes n').data ≠ new := by
        intro n' some_ other
        obtain ⟨file', found'⟩ := Option.ne_none_iff_exists'.mp some_
        rw [others other]
        exact fresh _ (inv.node found').buffer
      intro n₁ n₂ some₁ some₂ different
      by_cases first : n₁ = n
      · have second : n₂ ≠ n := fun same => different (first.trans same.symm)
        rw [first, self]
        exact (distinct some₂ second).symm
      · by_cases second : n₂ = n
        · rw [second, self]
          exact distinct some₁ first
        · rw [others first, others second]
          exact inv.apart some₁ some₂ different
    · exact inv.vnodes
    · exact inv.pos
  · rw [self]
    exact enough
  · rw [self]
  · exact others
  · rfl
  · rfl
  · intro i below
    rw [self, bytes, copyLoop_apply _ _ _ _ _ copyApart, if_pos (by dsimp only; omega)]
    dsimp only
    rw [Nat.add_sub_cancel_left]
  · intro n' some_ _
    obtain ⟨file', found'⟩ := Option.ne_none_iff_exists'.mp some_
    exact kept _ (inv.node found').buffer
  · refine ⟨[(new, (m.nodes n).size), ((m.nodes n).data, (m.nodes n).size)], ?_, ?_⟩
    · unfold Tmpfs.moved
      rw [newData]
      rfl
    · intro range member
      rw [buffer]
      rcases List.mem_cons.mp member with rfl | member
      · exact Or.inr (bytesOf_subset (Nat.add_zero _).symm (by dsimp only; omega))
      · rw [List.mem_singleton.mp member]
        exact Or.inl (bytesOf_subset (Nat.add_zero _).symm (by unfold bufferOf; dsimp only; omega))
  · have moved : ((Tmpfs.moved layout m n (2 ^ e)).nodes n).data ≠ (m.nodes n).data := by
      rw [self]
      exact (fresh _ ok.buffer).symm
    rw [if_neg moved]

/-- The writes of `tmpfs_write` that replace the buffer. -/
theorem reallocate_moved {required capacity : Nat} (below : (m.nodes n).capacity < required)
    (positive : 0 < (m.nodes n).capacity) (nonnull : (m.nodes n).data ≠ 0)
    (grown : growLoop required 65 (m.nodes n).capacity = some capacity)
    (larger : (m.nodes n).capacity < capacity) (small : capacity % 2 ^ 32 = capacity)
    (smallSize : (m.nodes n).size % 2 ^ 32 = (m.nodes n).size)
    (success : (Kmem.alloc m.heap capacity).2 ≠ 0) :
    reallocate layout m n required = some (Tmpfs.moved layout m n capacity, 0) := by
  unfold reallocate Tmpfs.moved Machine.memcpy Machine.setNode
  rw [if_pos below, if_pos positive, grown]
  dsimp only
  rw [if_pos larger, small, if_neg success, if_pos nonnull]
  dsimp only
  rw [Function.update_idem, Function.update_self, smallSize]

theorem Inv.reallocate (inv : Inv layout ranges live m A) (found : A n = some file)
    {required : Nat} (bounded : required ≤ 2 ^ 63) :
    (∃ live' m', Tmpfs.reallocate layout m n required = some (m', 0) ∧
        Grown layout ranges live m A n required live' m') ∨
      ∃ heap, Tmpfs.reallocate layout m n required = some ({ m with heap := heap }, enomem) ∧
        Kmem.Run layout ranges live heap := by
  have ok := inv.node found
  by_cases below : (m.nodes n).capacity < required
  · obtain ⟨e, lower, upper, power⟩ := ok.power
    have positive : 0 < (m.nodes n).capacity := power ▸ Nat.two_pow_pos e
    obtain ⟨e', above, atMost, grown, reached⟩ :=
      growLoop_power bounded (by omega : e ≤ 63) (by omega : 63 < e + 65)
    rw [← power] at grown
    have larger : (m.nodes n).capacity < 2 ^ e' := Nat.lt_of_lt_of_le below reached
    have truncated := power_mod e'
    by_cases failure : (Kmem.alloc m.heap (2 ^ e' % 2 ^ 32)).2 = 0
    · right
      have next := inv.heap.alloc (2 ^ e' % 2 ^ 32)
      rw [Mm.keep, if_pos failure] at next
      refine ⟨_, ?_, next⟩
      unfold Tmpfs.reallocate
      rw [if_pos below, if_pos positive, grown]
      dsimp only
      rw [if_pos larger, if_pos failure]
    · left
      have small : e' < 32 := by
        by_contra large
        rw [truncated, if_neg large] at failure
        exact failure rfl
      rw [truncated, if_pos small] at failure
      have nonnull : (m.nodes n).data ≠ 0 := (inv.heap.use_positive ok.buffer).1
      have sizeLimit : (m.nodes n).size < 2 ^ 32 := by
        rw [ok.size]
        have limit := ok.large.2
        exact Nat.lt_of_le_of_lt (ok.fits.trans limit) (by decide)
      have shape := @reallocate_moved layout m n required (2 ^ e') below positive nonnull grown larger
        (truncated.trans (if_pos small)) (Nat.mod_eq_of_lt sizeLimit) failure
      exact ⟨_, _, shape, inv.moved found (lower.trans above) failure reached (Nat.le_of_lt larger)⟩
  · refine Or.inl ⟨live, m, ?_, inv.grown_refl (Nat.le_of_not_lt below)⟩
    unfold Tmpfs.reallocate
    rw [if_neg below]

end Grow

/-! ## Storing into the buffer -/

/-- Record a write in the abstract files. -/
def Files.write (A : Files) (n pos : Nat) (buf : Nat → UInt8) (len : Nat) : Files :=
  match A n with
  | none => A
  | some file => Function.update A n (some (file.write pos buf len))

/-- The effect of a successful write at the position of an open file. -/
structure Stored (m : Machine) (A : Files) (f n : Nat) (buf : Nat → UInt8) (len : Nat)
    (m' : Machine) : Prop where
  pos : m'.files = Function.update m.files f { m.files f with fPos := (m.files f).fPos + len }
  vnodes : m'.vnodes = m.vnodes
  size : (m'.nodes n).size = max (m.nodes n).size ((m.files f).fPos + len)
  stored : ∀ i, i < len → m'.bytes ((m'.nodes n).data + ((m.files f).fPos + i)) = buf i
  kept : ∀ i, i < (m.nodes n).size → ¬ ((m.files f).fPos ≤ i ∧ i < (m.files f).fPos + len) →
    m'.bytes ((m'.nodes n).data + i) = m.bytes ((m.nodes n).data + i)
  others : ∀ {n'}, A n' ≠ none → n' ≠ n → m'.nodes n' = m.nodes n' ∧
    ∀ i, i < (m.nodes n').capacity →
      m'.bytes ((m.nodes n').data + i) = m.bytes ((m.nodes n').data + i)

section Store

variable {layout : Layout} {ranges live : List (Nat × Nat)} {m : Machine} {A : Files} {f n : Nat}
  {file : ByteFile UInt8} {buf : Nat → UInt8} {len : Nat}

/-- The machine after the bytes were stored; the last fields are the only ones that change. -/
theorem writeBuffer_eq (small : len < 2 ^ 32) (bounded : (m.files f).fPos + len < 2 ^ 64) :
    writeBuffer m f n buf len =
      { heap := m.heap
        bytes := storeLoop m.bytes ((m.nodes n).data + (m.files f).fPos) buf len
        nodes := Function.update m.nodes n
          { m.nodes n with size := max (m.nodes n).size ((m.files f).fPos + len) }
        vnodes := m.vnodes
        files := Function.update m.files f
          { m.files f with fPos := (m.files f).fPos + len }
        accesses := ((m.nodes n).data + (m.files f).fPos, len) :: m.accesses } := by
  unfold writeBuffer Machine.memcpyFrom Machine.setPos Machine.setNode
  dsimp only
  simp only [Nat.mod_eq_of_lt small, Nat.mod_eq_of_lt bounded, Function.update_self]
  split
  · next beyond => rw [Nat.max_eq_right (Nat.le_of_lt beyond)]
  · next within => rw [Nat.max_eq_left (Nat.le_of_not_lt within), Function.update_eq_self]

theorem Inv.writeBuffer (inv : Inv layout ranges live m A) (found : A n = some file)
    (buf : Nat → UInt8) (fits : (m.files f).fPos + len ≤ (m.nodes n).capacity) :
    Inv layout ranges live (Tmpfs.writeBuffer m f n buf len)
        (A.write n (m.files f).fPos buf len) ∧
      Stored m A f n buf len (Tmpfs.writeBuffer m f n buf len) ∧
      AccessesWithin m (Tmpfs.writeBuffer m f n buf len) (bufferOf m n) (bufferOf m n) ∧
      bufferOf (Tmpfs.writeBuffer m f n buf len) n = bufferOf m n := by
  have ok := inv.node found
  have limit := ok.large.2
  rw [writeBuffer_eq (by omega) (by omega)]
  have abstract_ : A.write n (m.files f).fPos buf len =
      Function.update A n (some (file.write (m.files f).fPos buf len)) := by
    unfold Files.write
    rw [found]
  rw [abstract_]
  generalize position : (m.files f).fPos = pos at *
  have self : Function.update m.nodes n
      { m.nodes n with size := max (m.nodes n).size (pos + len) } n =
        { m.nodes n with size := max (m.nodes n).size (pos + len) } := Function.update_self _ _ _
  have others : ∀ {n'}, n' ≠ n → Function.update m.nodes n
      { m.nodes n with size := max (m.nodes n).size (pos + len) } n' = m.nodes n' :=
    fun other => Function.update_of_ne other _ _
  have elsewhere : ∀ {n'}, A n' ≠ none → n' ≠ n → ∀ i, i < (m.nodes n').capacity →
      storeLoop m.bytes ((m.nodes n).data + pos) buf len ((m.nodes n').data + i) =
        m.bytes ((m.nodes n').data + i) := by
    intro n' some_ other i below
    obtain ⟨file', found'⟩ := Option.ne_none_iff_exists'.mp some_
    have apart := (inv.buffers_apart found' found other).2
    rw [storeLoop_apply, if_neg (by omega)]
  refine ⟨⟨inv.heap, ?_, ?_, ?_, ?_⟩, ⟨?_, rfl, ?_, ?_, ?_, ?_⟩, ?_, ?_⟩
  · intro n' file' found'
    by_cases same : n' = n
    · subst same
      rw [Function.update_self] at found'
      cases found'
      constructor
      · dsimp only
        rw [self]
        exact ok.type
      · exact ok.node
      · unfold bufferOf
        dsimp only
        rw [self]
        exact ok.buffer
      · dsimp only
        rw [self, ByteFile.write, ok.size]
      · dsimp only
        rw [self, ByteFile.write]
        exact Nat.max_le.mpr ⟨ok.fits, fits⟩
      · dsimp only
        rw [self]
        exact ok.power
      · dsimp only
        rw [self]
        exact ok.content.store pos buf len
    · rw [Function.update_of_ne same] at found'
      have ok' := inv.node found'
      exact ok'.frame (others same) ok'.node ok'.buffer (elsewhere (by simp [found']) same)
  · have domain : ∀ {n'}, Function.update A n (some (file.write pos buf len)) n' ≠ none →
        A n' ≠ none := by
      intro n' some_
      by_cases same : n' = n
      · rw [same, found]
        simp
      · rwa [Function.update_of_ne same] at some_
    have data : ∀ n', (Function.update m.nodes n
        { m.nodes n with size := max (m.nodes n).size (pos + len) } n').data =
          (m.nodes n').data := by
      intro n'
      by_cases same : n' = n
      · rw [same, self]
      · rw [others same]
    intro n₁ n₂ some₁ some₂ different
    dsimp only
    rw [data, data]
    exact inv.apart (domain some₁) (domain some₂) different
  · intro v n' known
    by_cases same : n' = n
    · rw [same, Function.update_self]
      simp
    · rw [Function.update_of_ne same]
      exact inv.vnodes known
  · intro f'
    by_cases same : f' = f
    · subst same
      dsimp only
      rw [Function.update_self]
      exact Nat.lt_of_le_of_lt (fits.trans limit) (by decide)
    · dsimp only
      rw [Function.update_of_ne same]
      exact inv.pos f'
  · rw [position]
  · dsimp only
    rw [self, position]
  · intro i below
    dsimp only
    rw [self, position]
    dsimp only
    rw [storeLoop_apply, if_pos (by omega)]
    congr 1
    omega
  · intro i below outside
    dsimp only
    rw [position] at outside
    rw [self]
    dsimp only
    rw [storeLoop_apply, if_neg (by omega)]
  · exact fun some_ other => ⟨others other, elsewhere some_ other⟩
  · refine ⟨[((m.nodes n).data + pos, len)], rfl, fun range member => ?_⟩
    rw [List.mem_singleton.mp member]
    exact Or.inl (bytesOf_subset rfl fits)
  · unfold bufferOf
    dsimp only
    rw [self]

end Store

end OsdiKernel.Tmpfs
