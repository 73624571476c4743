import OsdiKernel.Archive.Serving

/-!
# Loading any archive

Names and sizes are as long as their fields allow.  The loop ends, with each of
its stores where it belongs, just if every name fits in a node, all entries fit
below the root and every allocation is served.
-/

namespace OsdiKernel.Archive

open Boot (IsString from_ strcmp hexToUint)
open Fs (State Vnode initramfsEntry nodeSize vnodeSize maxFileName maxChildren)

/-! ## Headers that are not read further -/

section Round

variable {σ ρ : Type} {reader : Reader σ ρ} {magic : Nat → UInt8} {buffers : Buffers}
  {fuel header : Nat} {s : σ} {e : Entry}

/-- A comparison that does not end is not left. -/
theorem loop_uncompared (stored : Stored (reader.memory s) header magicText)
    (compared : strcmp magic (withMagic buffers.headerMagic) = none) :
    reader.loop magic fuel header buffers s = none := by
  cases fuel with
  | zero => rfl
  | succ fuel => simp [Reader.loop, storeLoop_magic stored, compared]

theorem loop_invalid {result : Int} (stored : Stored (reader.memory s) header magicText)
    (compared : strcmp magic (withMagic buffers.headerMagic) = some result) (other : result ≠ 0) :
    reader.loop magic (fuel + 1) header buffers s =
      reader.invalid (withMagic buffers.headerMagic) s := by
  simp [Reader.loop, storeLoop_magic stored, compared, other]

/-- A name that is too long leaves the array `filename`. -/
theorem loop_long (recognised : strcmp magic (withMagic buffers.headerMagic) = some 0)
    (placed : Placed (reader.memory s) header e) (long : 255 < e.name.length)
    (word : e.name.length + 1 < 2 ^ 32) : reader.loop magic fuel header buffers s = none := by
  have namesize : (BitVec.ofNat 32 (e.name.length + 1)).toNat = e.name.length + 1 :=
    (BitVec.toNat_ofNat _ _).trans (Nat.mod_eq_of_lt word)
  have beyond : filenameSize < e.name.length + 1 := Nat.lt_succ_of_le long
  cases fuel with
  | zero => rfl
  | succ fuel =>
      simp only [Reader.loop, storeLoop_magic placed.magic, recognised, placed.namesize, namesize,
        if_pos beyond, Option.bind_eq_bind, Option.bind_some, Option.bind_none, if_true]

end Round

/-! ## One entry -/

section Entry

variable {H : Type} [Allocator H] {s : State H} {r n : Nat} {e : Entry}

omit [Allocator H] in
theorem storeChild_room {s' : State H} {child : Nat} (stored : Fs.storeChild s n child = some s') :
    0 ≤ (s.nodes n).numChildren ∧ (s.nodes n).numChildren < maxChildren := by
  unfold Fs.storeChild at stored
  split at stored
  · next room => exact room
  · cases stored

/-- An entry has a result just if its name and the root have room, and all three
allocations are served. -/
theorem initramfsEntry_some_iff (internal : (s.vnodes r).internal = some n)
    (newNode : ∀ N, (s.alloc nodeSize).2 = some N → n ≠ N)
    (newVnode : ∀ W, (((s.alloc nodeSize).1.alloc e.data.length).1.alloc vnodeSize).2 = some W → r ≠ W) :
    (∃ s', initramfsEntry s r (toName e.name) e.data.length = some s') ↔
      e.name.length + 1 < maxFileName ∧
        (0 ≤ (s.nodes n).numChildren ∧ (s.nodes n).numChildren < maxChildren) ∧
        Serves s.heap [nodeSize, e.data.length, vnodeSize] := by
  constructor
  · rintro ⟨s', entered⟩
    have length : (toName e.name).length = e.name.length := List.length_map _
    unfold initramfsEntry at entered
    simp only [length, Option.bind_eq_bind] at entered
    obtain ⟨N, gotNode, entered⟩ := Option.bind_eq_some_iff.mp entered
    by_cases short : e.name.length + 1 < maxFileName
    · rw [if_neg (Nat.not_le_of_lt short)] at entered
      by_cases failed : e.data.length ≠ 0 ∧ ((s.alloc nodeSize).1.alloc e.data.length).2 = none
      · rw [if_pos failed] at entered
        cases entered
      · rw [if_neg failed] at entered
        obtain ⟨W, gotVnode, entered⟩ := Option.bind_eq_some_iff.mp entered
        obtain ⟨n', internal', entered⟩ := Option.bind_eq_some_iff.mp entered
        have allocated : (((s.alloc nodeSize).1.alloc e.data.length).1.alloc vnodeSize).2 = some W :=
          gotVnode
        have same : n = n' := by
          have kept := congrArg Vnode.internal
            (Function.update_of_ne (newVnode W allocated) (fileVnode r N) s.vnodes)
          exact Option.some.inj ((internal.symm.trans kept.symm).trans internal')
        subst same
        have room : 0 ≤ (Function.update s.nodes N _ n).numChildren ∧
            (Function.update s.nodes N _ n).numChildren < maxChildren := storeChild_room entered
        rw [Function.update_of_ne (newNode N gotNode)] at room
        refine ⟨short, room, fun _ missing => ?_, fun nonempty missing => failed ⟨nonempty, missing⟩,
          fun _ missing => ?_, trivial⟩
        · cases gotNode.symm.trans missing
        · cases allocated.symm.trans missing
    · rw [if_pos (Nat.le_of_not_lt short)] at entered
      cases entered
  · rintro ⟨short, room, serveNode, serveData, serveVnode, _⟩
    obtain ⟨N, gotNode⟩ := Option.ne_none_iff_exists'.mp (serveNode (by decide))
    obtain ⟨W, gotVnode⟩ := Option.ne_none_iff_exists'.mp (serveVnode (by decide))
    obtain ⟨s', entered, _⟩ := @initramfsEntry_some _ _ s r n e N W _ gotNode rfl gotVnode serveData
      short internal (newVnode W gotVnode) (newNode N gotNode) room
    exact ⟨s', entered⟩

end Entry

/-! ## All entries -/

/-- The entries fit below a root with `c` children. -/
structure Fits {H : Type} [Allocator H] (h : H) (c : Int) (entries : List Entry) : Prop where
  names : ∀ e ∈ entries, e.name.length + 1 < maxFileName
  children : entries = [] ∨ 0 ≤ c ∧ c + entries.length ≤ maxChildren
  serves : Serves h (requests entries)

theorem fits_nil {H : Type} [Allocator H] (h : H) (c : Int) : Fits h c [] :=
  ⟨nofun, .inl rfl, trivial⟩

theorem fits_cons {H : Type} [Allocator H] {h : H} {c : Int} {e : Entry} {entries : List Entry} :
    Fits h c (e :: entries) ↔
      (e.name.length + 1 < maxFileName ∧ (0 ≤ c ∧ c < maxChildren) ∧
        Serves h [nodeSize, e.data.length, vnodeSize]) ∧
      Fits ([nodeSize, e.data.length, vnodeSize].foldl (fun h size => (Allocator.alloc h size).1) h)
        (c + 1) entries := by
  have split := @serves_append _ _ h [nodeSize, e.data.length, vnodeSize] (requests entries)
  have length : ((e :: entries).length : Int) = entries.length + 1 := rfl
  constructor
  · rintro ⟨names, children, serves⟩
    obtain ⟨first, later⟩ := split.mp serves
    obtain ⟨low, high⟩ := children.resolve_left nofun
    rw [length] at high
    exact ⟨⟨names e List.mem_cons_self, ⟨low, by omega⟩, first⟩,
      fun e' member => names e' (List.mem_cons_of_mem _ member), .inr ⟨by omega, by omega⟩, later⟩
  · rintro ⟨⟨short, ⟨low, high⟩, first⟩, names, children, later⟩
    refine ⟨fun e' member => ?_, .inr ⟨low, ?_⟩, split.mpr ⟨first, later⟩⟩
    · rcases List.mem_cons.mp member with rfl | member
      · exact short
      · exact names e' member
    · rw [length]
      rcases children with rfl | ⟨_, bound⟩
      · rw [List.length_nil]
        omega
      · omega

section Loop

variable {layout : Kmem.Layout} {ranges uses : List (Nat × Nat)}
  {m : Machine (Kmem.KernelHeap layout ranges)} {r n fuel header first last : Nat}
  {entries : List Entry} {bytes : List UInt8} {magic filename : Nat → UInt8} {buffers : Buffers} {e : Entry}

/-- The root `r` has the node `n`; both are in use. -/
structure HasRoot (m : Machine (Kmem.KernelHeap layout ranges)) (uses : List (Nat × Nat)) (r n : Nat) :
    Prop where
  run : Kmem.Run layout ranges uses m.fs.heap
  vnode : r ∈ uses.map Prod.fst
  node : n ∈ uses.map Prod.fst
  internal : (m.fs.vnodes r).internal = some n

/-- A pointer in use is none that the next allocation returns. -/
theorem fresh_of_alloc {h : Kmem.KernelHeap layout ranges} {size p q : Nat}
    (run : Kmem.Run layout ranges uses h) (inUse : q ∈ uses.map Prod.fst)
    (allocated : (Allocator.alloc h size).2 = some p) : q ≠ p := by
  obtain ⟨use, member, rfl⟩ := List.mem_map.mp inUse
  obtain ⟨_, _, _, new⟩ := run.allocated size
  exact (new p allocated).2.2.2 use member

/-- What an entry needs of the heap and of the root. -/
def EntryFits (m : Machine (Kmem.KernelHeap layout ranges)) (n : Nat) (e : Entry) : Prop :=
  e.name.length + 1 < maxFileName ∧
    (0 ≤ (m.fs.nodes n).numChildren ∧ (m.fs.nodes n).numChildren < maxChildren) ∧
    Serves m.fs.heap [nodeSize, e.data.length, vnodeSize]

/-- An entry is loaded just if it fits. -/
theorem HasRoot.entry (hasRoot : HasRoot m uses r n) (located : Located m.bytes header e)
    (isName : IsString filename e.name) (reserved : (first, last) ∈ ranges) (after : first ≤ header)
    (before : header + e.dataStart + e.data.length ≤ last) :
    (¬ EntryFits m n e →
      (initramfsReader r).entry header (BitVec.ofNat 32 (e.name.length + 1)) filename m = none) ∧
    (EntryFits m n e → ∃ m' uses',
      (initramfsReader r).entry header (BitVec.ofNat 32 (e.name.length + 1)) filename m =
        some (m', none) ∧
      HasRoot m' uses' r n ∧ (m'.fs.nodes n).numChildren = (m.fs.nodes n).numChildren + 1 ∧
      m'.fs.heap = (((m.fs.alloc nodeSize).1.alloc e.data.length).1.alloc vnodeSize).1.heap ∧
      ∀ a, first ≤ a → a < last → m'.bytes a = m.bytes a) := by
  obtain ⟨run, vnode, node, internal⟩ := hasRoot
  obtain ⟨uses₁, run₁, kept₁, _⟩ := run.allocated nodeSize
  obtain ⟨uses₂, run₂, kept₂, _⟩ := run₁.allocated e.data.length
  obtain ⟨uses₃, run₃, kept₃, _⟩ := run₂.allocated vnodeSize
  have keeps : ∀ {p}, p ∈ uses.map Prod.fst → p ∈ uses₂.map Prod.fst ∧ p ∈ uses₃.map Prod.fst := by
    intro p inUse
    obtain ⟨use, member, rfl⟩ := List.mem_map.mp inUse
    have still := kept₂ _ (kept₁ _ member)
    exact ⟨List.mem_map_of_mem still, List.mem_map_of_mem (kept₃ _ still)⟩
  have newNode : ∀ N, (m.fs.alloc nodeSize).2 = some N → n ≠ N :=
    fun N allocated => fresh_of_alloc run node allocated
  have newVnode : ∀ W,
      (((m.fs.alloc nodeSize).1.alloc e.data.length).1.alloc vnodeSize).2 = some W → r ≠ W :=
    fun W allocated => fresh_of_alloc run₂ (keeps vnode).1 allocated
  have fits := initramfsEntry_some_iff internal newNode newVnode
  rw [initramfsReader_entry located isName]
  constructor
  · intro unfit
    have failed : initramfsEntry m.fs r (toName e.name) e.data.length = none :=
      Option.eq_none_iff_forall_ne_some.mpr fun s' entered => unfit (fits.mp ⟨s', entered⟩)
    rw [failed, Option.bind_none]
  · rintro ⟨short, room, serves⟩
    obtain ⟨serveNode, serveData, serveVnode, _⟩ := serves
    obtain ⟨N, gotNode⟩ := Option.ne_none_iff_exists'.mp (serveNode (by decide))
    obtain ⟨W, gotVnode⟩ := Option.ne_none_iff_exists'.mp (serveVnode (by decide))
    obtain ⟨s', entered, added⟩ := @initramfsEntry_some _ _ m.fs r n e N W _ gotNode rfl gotVnode
      serveData short internal (newVnode W gotVnode) (newNode N gotNode) room
    obtain ⟨bytes', copied⟩ := @copyTo_served m.bytes
      ((m.fs.alloc nodeSize).1.alloc e.data.length).2 (header + e.dataStart) _ serveData
    obtain ⟨_, archive, _⟩ := copyTo_spec run₁ reserved (by omega) before located.data copied
    rw [entered, Option.bind_some, copied]
    refine ⟨⟨s', bytes'⟩, uses₃, rfl, ⟨?_, (keeps vnode).2, (keeps node).2, ?_⟩, ?_, added.heap, archive⟩
    · rw [added.heap]
      exact run₃
    · rw [added.vnodes, Function.update_of_ne (newVnode W gotVnode)]
      exact internal
    · rw [added.nodes, Function.update_self]
      rfl

/-- All entries are loaded just if they fit. -/
theorem HasRoot.loop_iff (hasRoot : HasRoot m uses r n)
    (recognised : strcmp magic (withMagic buffers.headerMagic) = some 0)
    (wellFormed : WellFormed entries bytes) (stored : Stored m.bytes header bytes)
    (small : bytes.length < 2 ^ 32) (reserved : (first, last) ∈ ranges) (after : first ≤ header)
    (before : header + bytes.length ≤ last) :
    (∃ fuel m', (initramfsReader r).loop magic fuel header buffers m = some (m', ())) ↔
      Fits m.fs.heap (m.fs.nodes n).numChildren entries := by
  induction wellFormed generalizing m uses header buffers with
  | @trailer data bytes isLast =>
      have located := isLast.located stored (by simp only; decide) (by simp only; decide) small
      obtain ⟨_, _, round⟩ := @loop_recognised _ _ (initramfsReader r) _ _ _ m _ recognised located
      refine iff_of_true ⟨1, m, ?_⟩ (fits_nil _ _)
      rw [round, if_pos rfl]
      rfl
  | @entry e entries bytes rest proper other isFirst later ih =>
      rw [List.length_append] at small before
      have length := isFirst.length
      have padding : e.data.length ≤ Boot.padded e.data.length := by unfold Boot.padded; omega
      rw [fits_cons]
      by_cases short : e.name.length ≤ 255
      · have located := isFirst.located stored.left proper short (by omega)
        obtain ⟨filename, isName, round⟩ :=
          @loop_recognised _ _ (initramfsReader r) _ _ _ m _ recognised located
        obtain ⟨unfit, fits⟩ := hasRoot.entry located isName reserved after
          (by unfold Entry.length at length; omega)
        by_cases fit : EntryFits m n e
        · obtain ⟨m', uses', entered, hasRoot', count, heap, archive⟩ := fits fit
          have behind : Stored m'.bytes (header + e.length) rest := by
            have stored' := stored.right
            rw [length] at stored'
            exact stored'.congr fun i inside => archive _ (by omega) (by omega)
          have goesOn := @ih _ _ _ ⟨filename, withMagic buffers.headerMagic⟩ hasRoot'
            (by rw [withMagic_again]; exact recognised) behind (by omega) (by omega) (by omega)
          rw [count, heap] at goesOn
          refine Iff.trans ?_ (goesOn.trans (and_iff_right fit).symm)
          constructor
          · rintro ⟨fuel, m'', finished⟩
            cases fuel with
            | zero => cases finished
            | succ fuel =>
                rw [round, if_neg other, entered] at finished
                exact ⟨fuel, m'', finished⟩
          · rintro ⟨fuel, m'', finished⟩
            refine ⟨fuel + 1, m'', ?_⟩
            rw [round, if_neg other, entered]
            exact finished
        · refine iff_of_false ?_ fun fits => fit fits.1
          rintro ⟨fuel, m', finished⟩
          cases fuel with
          | zero => cases finished
          | succ fuel =>
              rw [round, if_neg other, unfit fit] at finished
              cases finished
      · have placed := isFirst.placed stored.left
        have inside : e.name.length + 1 < 2 ^ 32 := by
          have start : e.name.length + 1 ≤ e.dataStart := by
            unfold Entry.dataStart Boot.padded headerSize
            omega
          unfold Entry.length at length
          omega
        refine iff_of_false ?_ fun fits => ?_
        · rintro ⟨fuel, m', finished⟩
          rw [loop_long recognised placed (Nat.lt_of_not_le short) inside] at finished
          cases finished
        · have limit : maxFileName = 64 := rfl
          have fit := fits.1.1
          omega

/-- `initramfs_init` ends, and all of its stores are to the arrays and the
allocations that they are meant for. -/
def Loads (magic : Nat → UInt8) (buffers : Buffers) (cpioAddr : Nat)
    (m : Machine (Kmem.KernelHeap layout ranges)) (r : Nat) : Prop :=
  ∃ fuel m', initramfsInit magic buffers fuel cpioAddr m r = some m'

/-- The root after `initramfs_init` has made it a directory. -/
def retyped (m : Machine (Kmem.KernelHeap layout ranges)) (n : Nat) :
    Machine (Kmem.KernelHeap layout ranges) :=
  { m with fs := m.fs.setNode n { m.fs.nodes n with type := .directory } }

theorem HasRoot.retyped (hasRoot : HasRoot m uses r n) : HasRoot (retyped m n) uses r n :=
  ⟨hasRoot.run, hasRoot.vnode, hasRoot.node, hasRoot.internal⟩

theorem retyped_count (m : Machine (Kmem.KernelHeap layout ranges)) (n : Nat) :
    ((retyped m n).fs.nodes n).numChildren = (m.fs.nodes n).numChildren := by
  unfold Archive.retyped State.setNode
  rw [Fs.setNode_self]

theorem HasRoot.loads (hasRoot : HasRoot m uses r n) {cpioAddr : Nat} :
    Loads magic buffers cpioAddr m r ↔
      ∃ fuel m', (initramfsReader r).loop magic fuel cpioAddr buffers (Archive.retyped m n) =
        some (m', ()) := by
  have started : ∀ fuel, initramfsInit magic buffers fuel cpioAddr m r =
      ((initramfsReader r).loop magic fuel cpioAddr buffers (Archive.retyped m n)).map Prod.fst := by
    intro fuel
    unfold initramfsInit Archive.retyped
    rw [hasRoot.internal]
    simp only [Option.bind_eq_bind, Option.bind_some]
    cases (initramfsReader (H := Kmem.KernelHeap layout ranges) r).loop magic fuel cpioAddr buffers _ <;> rfl
  unfold Loads
  simp only [started, Option.map_eq_some_iff]
  exact ⟨fun ⟨fuel, _, ⟨m', ()⟩, ended, _⟩ => ⟨fuel, m', ended⟩,
    fun ⟨fuel, m', ended⟩ => ⟨fuel, m', _, ended, rfl⟩⟩

theorem HasRoot.loads_recognised (hasRoot : HasRoot m uses r n) {cpioAddr cpioEnd : Nat}
    (recognised : strcmp magic (withMagic buffers.headerMagic) = some 0)
    (wellFormed : WellFormed entries bytes) (stored : Stored m.bytes cpioAddr bytes)
    (reserved : (cpioAddr, cpioEnd) ∈ ranges) (within : cpioAddr + bytes.length ≤ cpioEnd) :
    Loads magic buffers cpioAddr m r ↔ Fits m.fs.heap (m.fs.nodes n).numChildren entries := by
  have small : bytes.length < 2 ^ 32 := by
    have limit : Mm.memorySize < 2 ^ 32 := by decide
    have last := (hasRoot.run.valid reserved).2
    dsimp only at last
    omega
  rw [hasRoot.loads, hasRoot.retyped.loop_iff recognised wellFormed stored small reserved
    (Nat.le_refl _) within, retyped_count]
  rfl

/-- The archive is loaded just if its header is not recognised, or all of its
entries fit. -/
theorem initramfsInit_loads_iff {cpioAddr cpioEnd : Nat} (hasRoot : HasRoot m uses r n)
    (wellFormed : WellFormed entries bytes) (stored : Stored m.bytes cpioAddr bytes)
    (reserved : (cpioAddr, cpioEnd) ∈ ranges) (within : cpioAddr + bytes.length ≤ cpioEnd) :
    Loads magic buffers cpioAddr m r ↔
      ∃ result, strcmp magic (withMagic buffers.headerMagic) = some result ∧
        (result = 0 → Fits m.fs.heap (m.fs.nodes n).numChildren entries) := by
  have header : Stored (Archive.retyped m n).bytes cpioAddr magicText := by
    cases wellFormed with
    | trailer last => exact (last.placed stored).magic
    | entry _ _ first _ => exact (first.placed stored.left).magic
  cases compared : strcmp magic (withMagic buffers.headerMagic) with
  | none =>
      rw [hasRoot.loads]
      refine iff_of_false ?_ fun ⟨_, impossible, _⟩ => nomatch impossible
      rintro ⟨fuel, m', ended⟩
      rw [@loop_uncompared _ _ (initramfsReader r) _ _ _ _ (Archive.retyped m n) header compared] at ended
      cases ended
  | some result =>
      by_cases recognised : result = 0
      · subst recognised
        rw [hasRoot.loads_recognised compared wellFormed stored reserved within]
        exact ⟨fun fits => ⟨0, rfl, fun _ => fits⟩, fun ⟨_, isZero, fits⟩ =>
          fits (Option.some.inj isZero).symm⟩
      · rw [hasRoot.loads]
        refine iff_of_true ⟨1, Archive.retyped m n, ?_⟩ ⟨result, rfl, fun zero => absurd zero recognised⟩
        rw [@loop_invalid _ _ (initramfsReader r) _ _ 0 _ (Archive.retyped m n) _ header compared recognised]
        rfl

end Loop

/-- A state in which the archive can be loaded has a root. -/
theorem Ready.hasRoot {layout : Kmem.Layout} {ranges : List (Nat × Nat)}
    {m : Machine (Kmem.KernelHeap layout ranges)} {root r n : Nat} {V : Set Nat} {own others : List Nat}
    (ready : Ready m root r n V own others) : ∃ uses, HasRoot m uses r n := by
  obtain ⟨uses, run, same⟩ := ready.sound.holds
  obtain ⟨v, member, isRoot, _⟩ := (ready.sound.tree.resolve_visible rfl ready.resolved).1 rfl
  cases isRoot
  have inUse : ∀ {p}, p ∈ own → p ∈ uses.map Prod.fst :=
    fun owned => same.mem_iff.mp (List.mem_append_left _ owned)
  exact ⟨uses, run, inUse (ready.sound.used.vnodes member),
    inUse (ready.sound.used.nodes member ready.internal), ready.internal⟩

/-- An archive with one file, whose name has 63 characters. -/
def longEntry : Entry := ⟨List.replicate 63 97, []⟩

theorem longArchive_wellFormed : ∃ bytes, bytes.length = 300 ∧ WellFormed [longEntry] bytes := by
  have four : HexDigit 52 4 := .decimal (by decide) (by decide)
  have file := @Entry.Encoded.intro longEntry (List.replicate 48 48) _ (List.replicate 32 48) _
    (List.replicate 8 48) [0, 0] [] rfl (.ofDigits .zero .zero) rfl (.ofDigits four .zero) rfl rfl rfl
  refine ⟨_, ?_, .entry (by decide) (by decide) file (.trailer trailer_encoded)⟩
  rw [List.length_append, file.length, trailer_encoded.length]
  rfl

/-- The buffers of a call on a stack that reads as zero. -/
def zeroBuffers : Buffers := ⟨fun _ => 0, fun _ => 0⟩

theorem zeroBuffers_recognised :
    strcmp (literal magicText) (withMagic zeroBuffers.headerMagic) = some 0 :=
  NullBehind.recognised ⟨literal_isString (by decide) (by decide), rfl⟩

theorem initramfsInit_loads_file : ∃ m : Machine Fs.BootHeap,
    Loads (literal magicText) zeroBuffers 0 m initArchive := by
  have encoded := fileArchive_encoded
  have length := fileArchive_length
  generalize fileArchive = bytes at encoded length
  obtain ⟨root, V, own, others, ready⟩ := init_ready fun a => bytes.getD a 0
  obtain ⟨uses, hasRoot⟩ := ready.hasRoot
  have count := ready.empty
  have serves : Serves Fs.initState.heap (requests [⟨[97], [1, 2]⟩]) :=
    ⟨fun _ => by decide +kernel, fun _ => by decide +kernel, fun _ => by decide +kernel, trivial⟩
  generalize Fs.initState = s at *
  refine ⟨⟨s, fun a => bytes.getD a 0⟩, (initramfsInit_loads_iff hasRoot encoded.wellFormed
    (Stored.getD _ 0) (List.mem_cons_of_mem _ List.mem_cons_self) (by omega)).mpr
      ⟨0, zeroBuffers_recognised, fun _ => ⟨fun e member => ?_, .inr ?_, serves⟩⟩⟩
  · rw [List.mem_singleton.mp member]
    decide
  · rw [count]
    decide

/-- A name of 63 characters has 64 bytes with its null character, and
`initramfs_init` stores another one behind the array `name`. -/
theorem long_name_overflows : ∃ bytes, WellFormed [longEntry] bytes ∧
    ∃ m : Machine Fs.BootHeap, Stored m.bytes 0 bytes ∧ m.fs = Fs.initState ∧
      ¬ Loads (literal magicText) zeroBuffers 0 m initArchive := by
  obtain ⟨bytes, length, wellFormed⟩ := longArchive_wellFormed
  obtain ⟨root, V, own, others, ready⟩ := init_ready fun a => bytes.getD a 0
  obtain ⟨uses, hasRoot⟩ := ready.hasRoot
  generalize Fs.initState = s at *
  refine ⟨bytes, wellFormed, ⟨s, fun a => bytes.getD a 0⟩, Stored.getD _ 0, rfl, fun loads => ?_⟩
  have fits := (hasRoot.loads_recognised zeroBuffers_recognised wellFormed (Stored.getD _ 0)
    (List.mem_cons_of_mem _ List.mem_cons_self) (by omega)).mp loads
  exact absurd (fits.names longEntry List.mem_cons_self) (by decide)

end OsdiKernel.Archive
