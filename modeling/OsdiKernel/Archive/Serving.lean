import OsdiKernel.Archive.Loading
import OsdiKernel.Fs.Visible
import OsdiKernel.Fs.System

/-!
# The archive as a directory

What is served below the directory of the archive is what the readers of the
archive find: the first file with a name, and its contents.
-/

namespace OsdiKernel.Archive

open Boot (IsString)
open Fs (Name State Graph Node Sound fileSize maxFileName maxChildren enoent eacces initramfsName
  components step walk resolve settle findChild searchChildren)

/-! ## The start -/

section Start

variable {layout : Kmem.Layout} {ranges : List (Nat × Nat)}
  {m : Machine (Kmem.KernelHeap layout ranges)} {root r n : Nat} {V : Set Nat} {own others : List Nat}

/-- The root `r` of the archive before it is loaded: the file system is in order,
the directory leads there, and there are no children yet. -/
structure Ready (m : Machine (Kmem.KernelHeap layout ranges)) (root r n : Nat) (V : Set Nat)
    (own others : List Nat) : Prop where
  sound : Sound m.fs root V own others
  resolved : resolve m.fs.toGraph none ('/' :: initramfsName) = some (0, some r)
  vOps : (m.fs.vnodes r).vOps = some .initramfs
  internal : (m.fs.vnodes r).internal = some n
  empty : (m.fs.nodes n).numChildren = 0

theorem Ready.of_state {s : State (Kmem.KernelHeap layout ranges)} (bytes : Nat → UInt8)
    (sound : Sound s root V own others)
    (resolved : resolve s.toGraph none ('/' :: initramfsName) = some (0, some r))
    (vOps : (s.vnodes r).vOps = some .initramfs) (internal : (s.vnodes r).internal = some n)
    (empty : (s.nodes n).numChildren = 0) : Ready ⟨s, bytes⟩ root r n V own others :=
  ⟨sound, resolved, vOps, internal, empty⟩

/-- A step that succeeds does so when a node becomes a directory. -/
theorem step_retype {g : Graph} {v x : Nat} {name : Name} {next : Option Nat} (tree : Fs.Tree g root V)
    (member : v ∈ V) (isName : Fs.IsName name) (stepped : step g (some v) name = some (0, next)) :
    step (g.setNode x { g.nodes x with type := .directory }) (some v) name = some (0, next) := by
  obtain ⟨e, inTree, crossed, _⟩ := tree.cross member
  obtain ⟨ops, hasOps⟩ := tree.ops inTree
  obtain ⟨n', internal⟩ := tree.internal inTree
  generalize retyped : g.setNode x { g.nodes x with type := .directory } = g'
  have fields : ∀ y, (g'.nodes y).name = (g.nodes y).name ∧
      (g'.nodes y).numChildren = (g.nodes y).numChildren ∧ (g'.nodes y).children = (g.nodes y).children ∧
      ((g.nodes y).type = .directory → (g'.nodes y).type = .directory) := by
    intro y
    rw [← retyped]
    by_cases here : y = x
    · rw [here, Fs.setNode_self]
      exact ⟨rfl, rfl, rfl, fun _ => rfl⟩
    · rw [Fs.setNode_of_ne _ here]
      exact ⟨rfl, rfl, rfl, id⟩
  have vnodes : g'.vnodes = g.vnodes := by
    rw [← retyped]
    rfl
  have crossed' : g'.cross v = some e := by
    rw [← retyped]
    exact crossed
  have search : findChild g' (g'.nodes n') name = findChild g (g.nodes n') name := by
    unfold findChild
    rw [(fields n').2.1]
    refine Fs.searchChildren_congr (tree.present inTree internal) (fun j _ _ => by rw [(fields n').2.2.1]) ?_
    intro j c y _ _ _ internal
    exact ⟨by rw [vnodes]; exact internal, (fields y).1⟩
  rw [Fs.step_name isName crossed hasOps internal] at stepped
  rw [Fs.step_name isName crossed' (by rw [vnodes]; exact hasOps) (by rw [vnodes]; exact internal), search]
  split at stepped
  · cases stepped
  · next directory =>
      rw [if_neg (not_not_intro ((fields n').2.2.2 (not_not.mp directory)))]
      refine Eq.trans ?_ stepped
      cases findChild g (g.nodes n') name with
      | none => rfl
      | some found =>
          cases found with
          | none => rfl
          | some c =>
              rw [← retyped]
              rfl

theorem Ready.loading (ready : Ready m root r n V own others) : ∃ uses,
    Loading { m with fs := m.fs.setNode n { m.fs.nodes n with type := .directory } } root r n V own others
      uses [] := by
  have sound := ready.sound
  have tree := sound.tree
  obtain ⟨uses, run, _⟩ := sound.holds
  obtain ⟨v, member, same, visible⟩ := (tree.resolve_visible rfl ready.resolved).1 rfl
  cases same
  have settled := Fs.settle_resolve m.fs.toGraph none ('/' :: initramfsName)
  rw [ready.resolved] at settled
  have one : components ('/' :: initramfsName) = [initramfsName] := by decide
  have slash : Fs.startsWithSlash ('/' :: initramfsName) = true := rfl
  rw [one, slash] at settled
  unfold Fs.walkPath Fs.origin at settled
  rw [if_pos rfl, tree.rootVnode] at settled
  have walked : walk m.fs.toGraph (some root) [initramfsName] = some (0, some r) := settled.symm
  refine ⟨uses, sound.retype n .directory, run, member, tree.visible_clear visible, ready.vOps,
    ready.internal, ?_, ?_, ?_, fun i e impossible => ?_⟩
  · exact congrArg Node.type (Fs.setNode_self _)
  · have count : ((m.fs.setNode n { m.fs.nodes n with type := .directory }).nodes n).numChildren =
        (m.fs.nodes n).numChildren := (congrArg Node.numChildren (Fs.setNode_self _)).trans rfl
    rw [count, ready.empty]
    rfl
  · rw [walk] at walked ⊢
    obtain ⟨⟨result, next⟩, stepped, rest⟩ := Option.bind_eq_some_iff.mp walked
    dsimp only at rest
    by_cases failed : result = 0
    · subst failed
      have retyped := @step_retype root V m.fs.toGraph root n _ _ tree tree.root_mem
        ⟨by decide, by decide⟩ stepped
      exact Option.bind_eq_some_iff.mpr ⟨_, retyped, rest⟩
    · rw [if_pos failed] at rest
      cases rest
  · cases impossible

end Start

/-! ## Lookup -/

/-- A name that can be looked up. -/
structure IsFileName (name : List UInt8) : Prop where
  nonempty : name ≠ []
  proper : 0 ∉ name
  noSlash : 47 ∉ name
  notDot : name ≠ [46]
  notDots : name ≠ [46, 46]

/-- The path of a file of the archive. -/
def pathOf (name : List UInt8) : Name := '/' :: (initramfsName ++ '/' :: toName name)

theorem components_pathOf {name : List UInt8} (isName : IsFileName name) :
    components (pathOf name) = [initramfsName, toName name] := by
  have nonempty : toName name ≠ [] := fun empty => isName.nonempty (List.map_eq_nil_iff.mp empty)
  have noSlash : '/' ∉ toName name := by
    intro member
    obtain ⟨c, inName, same⟩ := List.mem_map.mp member
    have slash : toName [c] = toName [47] := congrArg (fun ch => [ch]) same
    cases toName_inj slash
    exact isName.noSlash inName
  have notDot : toName name ≠ ['.'] := fun dot => isName.notDot (@toName_inj name [46] dot)
  have first : components ('/' :: initramfsName) = [initramfsName] := by decide
  have split : pathOf name = ('/' :: initramfsName) ++ '/' :: toName name := rfl
  rw [split, Fs.components_append, first, components, Fs.tokens_single nonempty noSlash]
  simp [notDot]

section Lookup

variable {layout : Kmem.Layout} {ranges uses : List (Nat × Nat)}
  {m : Machine (Kmem.KernelHeap layout ranges)} {root r n : Nat} {V : Set Nat} {own others : List Nat}
  {entries : List Entry} {name : List UInt8}

/-- The search finds the first child with the name. -/
theorem searchChildren_files {g : Graph} {node : Node} {i : Nat} (room : i + entries.length ≤ maxChildren)
    (files : ∀ j e, entries[j]? = some e → ∃ w x, node.children (i + j) = some w ∧
      (g.vnodes w).internal = some x ∧ (g.nodes x).name = toName e.name) :
    (lookup entries name = none →
        searchChildren g node (toName name) entries.length i = some none) ∧
      ∀ e, lookup entries name = some e → ∃ j w, entries[j]? = some e ∧
        node.children (i + j) = some w ∧
        searchChildren g node (toName name) entries.length i = some (some w) := by
  induction entries generalizing i with
  | nil => exact ⟨fun _ => rfl, fun e impossible => nomatch impossible⟩
  | cons e entries ih =>
      rw [List.length_cons] at room ⊢
      obtain ⟨w, x, child, internal, named⟩ := files 0 e rfl
      rw [Nat.add_zero] at child
      obtain ⟨absent, found⟩ := @ih (i + 1) (by omega) fun j e' later => by
        obtain ⟨w', x', child', rest⟩ := files (j + 1) e' later
        exact ⟨w', x', by rw [Nat.add_assoc, Nat.add_comm 1]; exact child', rest⟩
      rw [Fs.searchChildren_succ (by omega) child internal, named]
      by_cases same : e.name = name
      · have first : lookup (e :: entries) name = some e :=
          List.find?_cons_of_pos (by simpa using same)
        rw [first, same, if_pos rfl]
        refine ⟨fun impossible => (nomatch impossible), fun e' same' => ?_⟩
        cases same'
        exact ⟨0, w, rfl, child, rfl⟩
      · have rest : lookup (e :: entries) name = lookup entries name :=
          List.find?_cons_of_neg (by simpa using same)
        rw [rest, if_neg fun equal => same (toName_inj equal)]
        refine ⟨absent, fun e' occurs => ?_⟩
        obtain ⟨j, w', at_, child', result⟩ := found e' occurs
        exact ⟨j + 1, w', at_, by rw [Nat.add_comm j, ← Nat.add_assoc]; exact child', result⟩

/-- A lookup below the directory finds the file of the first entry with the name. -/
theorem Loading.resolve (loading : Loading m root r n V own others uses entries) (isName : IsFileName name)
    (room : entries.length ≤ maxChildren) (cwd : Option Nat) :
    (lookup entries name = none → ∃ target, Fs.resolve m.fs.toGraph cwd (pathOf name) = some (enoent, target)) ∧
      ∀ e, lookup entries name = some e → ∃ w,
        Fs.resolve m.fs.toGraph cwd (pathOf name) = some (0, some w) ∧ IsFile m uses w e := by
  have notDots : Fs.IsName (toName name) :=
    ⟨fun dot => isName.notDot (@toName_inj name [46] dot),
      fun dots => isName.notDots (@toName_inj name [46, 46] dots)⟩
  have settled := Fs.settle_resolve m.fs.toGraph cwd (pathOf name)
  rw [components_pathOf isName, show Fs.startsWithSlash (pathOf name) = true from rfl] at settled
  unfold Fs.walkPath Fs.origin at settled
  rw [if_pos rfl, loading.sound.tree.rootVnode, Option.map_some, Option.bind_some,
    if_neg (not_not_intro rfl), show [initramfsName, toName name] = [initramfsName] ++ [toName name] from rfl,
    Fs.walk_append, loading.path, Option.bind_some, if_neg (not_not_intro rfl)] at settled
  have crossed : m.fs.cross r = some r := by
    unfold Graph.cross
    rw [loading.clear]
  have count : (m.fs.nodes n).numChildren.toNat = entries.length := by
    rw [loading.count]
    rfl
  obtain ⟨absent, found⟩ := @searchChildren_files entries name m.fs.toGraph (m.fs.nodes n) 0
    (by omega) fun j e at_ => by
      obtain ⟨w, _, child, isFile⟩ := loading.files j e at_
      obtain ⟨x, data, internal, node, _⟩ := isFile.node
      exact ⟨w, x, by rwa [Nat.zero_add], internal, by rw [node]; rfl⟩
  have stepped := Fs.step_name notDots crossed loading.vOps loading.internal
  rw [if_neg (not_not_intro loading.directory), findChild, count] at stepped
  have outcome : ∀ {outcome : Int × Option Nat}, step m.fs.toGraph (some r) (toName name) = some outcome →
      (Fs.resolve m.fs.toGraph cwd (pathOf name)).map settle = some (settle outcome) := by
    rintro ⟨result, next⟩ stepped
    rw [settled]
    dsimp only
    rw [walk, stepped, Option.bind_eq_bind, Option.bind_some]
    by_cases failed : result = 0
    · subst failed
      rfl
    · exact (if_pos failed).trans (congrArg some (if_neg failed).symm)
  constructor
  · intro missing
    rw [absent missing] at stepped
    obtain ⟨⟨result, target⟩, resolved, same⟩ := Option.map_eq_some_iff.mp (outcome stepped)
    refine ⟨target, resolved.trans ?_⟩
    unfold settle at same
    by_cases success : result = 0
    · rw [if_pos success] at same
      cases same
      cases success
    · rw [if_neg success] at same
      cases same
      rfl
  · intro e occurs
    obtain ⟨j, w, at_, child, search⟩ := found e occurs
    obtain ⟨w', _, child', isFile⟩ := loading.files j e at_
    rw [Nat.zero_add, child'] at child
    cases child
    have crossedFile : m.fs.cross w = some w := by
      unfold Graph.cross
      rw [isFile.mount]
    rw [search, Option.map_some] at stepped
    dsimp only at stepped
    rw [crossedFile] at stepped
    obtain ⟨⟨result, target⟩, resolved, same⟩ := Option.map_eq_some_iff.mp (outcome stepped)
    refine ⟨w, resolved.trans ?_, isFile⟩
    unfold settle at same
    by_cases success : result = 0
    · rw [if_pos success] at same
      exact congrArg some same
    · rw [if_neg success] at same
      cases same

end Lookup

/-! ## Opening -/

section Opening

variable {H : Type} [Allocator H] {s : State H} {cwd target : Option Nat} {pathname : Name} {w : Nat}

/-- The heap serves the copy of the path and the open file. -/
def OpenServed (s : State H) (pathname : Name) : Prop :=
  ∃ copy, (s.alloc (pathname.length + 1)).2 = some copy ∧
    (((s.alloc (pathname.length + 1)).1.free copy).alloc fileSize).2 ≠ none

theorem vfsOpen_found (served : OpenServed s pathname)
    (resolved : resolve s.toGraph cwd pathname = some (0, some w))
    (fOps : (s.vnodes w).fOps = some .initramfs) :
    ∃ s' f, Fs.vfsOpen s cwd pathname 0 = some (s', 0, some f) ∧ s'.toGraph = s.toGraph ∧
      s'.files f = ⟨some w, 0, some .initramfs, 0⟩ := by
  obtain ⟨copy, copied, given⟩ := served
  obtain ⟨f, allocated⟩ := Option.ne_none_iff_exists'.mp given
  have looked : Fs.vfsLookup s cwd pathname =
      some ((s.alloc (pathname.length + 1)).1.free copy, 0, some w) := by
    rw [Fs.vfsLookup_eq, copied]
    dsimp only
    rw [resolved]
    rfl
  have fOps' : (((s.alloc (pathname.length + 1)).1.free copy).alloc fileSize).1.vnodes w = s.vnodes w := rfl
  unfold Fs.vfsOpen
  rw [looked]
  simp only [Option.bind_eq_bind, Option.bind_some, ne_eq, not_true_eq_false, if_false, Fs.openVnode,
    allocated, fOps', fOps, Fs.FileOps.open, Fs.openNode, Option.pure_def]
  refine ⟨_, f, rfl, rfl, ?_⟩
  simp [State.setFile]

theorem vfsOpen_missing (served : OpenServed s pathname)
    (resolved : resolve s.toGraph cwd pathname = some (enoent, target)) :
    ∃ s', Fs.vfsOpen s cwd pathname 0 = some (s', enoent, none) := by
  obtain ⟨copy, copied, _⟩ := served
  have looked : Fs.vfsLookup s cwd pathname =
      some ((s.alloc (pathname.length + 1)).1.free copy, enoent, target) := by
    rw [Fs.vfsLookup_eq, copied]
    dsimp only
    rw [resolved]
    rfl
  refine ⟨(s.alloc (pathname.length + 1)).1.free copy, ?_⟩
  unfold Fs.vfsOpen
  rw [looked]
  rfl

end Opening

/-! ## Reading -/

section Reading

variable {H : Type}

/-- Opening a file does not change what it holds. -/
theorem IsFile.congr {m m' : Machine H} {uses : List (Nat × Nat)} {w : Nat} {e : Entry}
    (isFile : IsFile m uses w e) (graph : m'.fs.toGraph = m.fs.toGraph) (bytes : m'.bytes = m.bytes) :
    IsFile m' uses w e := by
  have vnodes : m'.fs.vnodes = m.fs.vnodes := congrArg Graph.vnodes graph
  have nodes : m'.fs.nodes = m.fs.nodes := congrArg Graph.nodes graph
  refine ⟨?_, ?_, ?_⟩
  · rw [vnodes]
    exact isFile.mount
  · rw [vnodes]
    exact isFile.fOps
  · rw [vnodes, nodes, bytes]
    exact isFile.node

/-- Reads from an open file with these lengths, with what each returns. -/
def readAll (m : Machine H) (f : Nat) : List Nat → Option (Machine H × List (Int × List UInt8))
  | [] => some (m, [])
  | len :: lens => do
      let (m, result, bytes) ← initramfsRead m (some f) true len
      let (m, rest) ← readAll m f lens
      return (m, (result, bytes) :: rest)

/-- What the reads from a position on return. -/
def deliveries (data : List UInt8) : Nat → List Nat → List (Int × List UInt8)
  | _, [] => []
  | pos, len :: lens =>
      ((((data.drop pos).take len).length : Int), (data.drop pos).take len) ::
        deliveries data (pos + ((data.drop pos).take len).length) lens

variable {m : Machine H} {f w x pos len : Nat} {e : Entry} {data : Option Nat}

/-- The handle reads the file of an entry. -/
structure Handles (m : Machine H) (f w : Nat) (pos : Nat) (e : Entry) : Prop where
  vnode : (m.fs.files f).vnode = some w
  fPos : (m.fs.files f).fPos = pos
  file : ∃ uses, IsFile m uses w e
  within : pos ≤ e.data.length
  small : e.data.length < 2 ^ 31

theorem Handles.read (handles : Handles m f w pos e) (positive : 1 ≤ len) (small : len < 2 ^ 63) :
    ∃ m', initramfsRead m (some f) true len =
        some (m', (((e.data.drop pos).take len).length : Int), (e.data.drop pos).take len) ∧
      Handles m' f w (pos + ((e.data.drop pos).take len).length) e := by
  obtain ⟨uses, isFile⟩ := handles.file
  obtain ⟨x, data, internal, node, stored⟩ := isFile.node
  have within := handles.within
  have smallFile := handles.small
  have notZero : ¬ len = 0 := by omega
  have isType : ¬ (fileNode e data).type ≠ .file := not_not_intro rfl
  have size : (fileNode e data).size = e.data.length := rfl
  unfold initramfsRead
  simp only [handles.vnode, internal, Option.bind_eq_bind, Option.bind_some, Option.pure_def, node,
    if_neg notZero, if_neg isType, size, handles.fPos]
  by_cases finished : e.data.length ≤ pos
  · have nothing : (e.data.drop pos).take len = [] := by rw [List.drop_of_length_le finished, List.take_nil]
    rw [if_pos finished, nothing]
    exact ⟨m, rfl, handles⟩
  · have noWrap : (pos + len) % 2 ^ 64 = pos + len := Nat.mod_eq_of_lt (by omega)
    have chunk : (if e.data.length < pos + len then e.data.length - pos else len) =
        ((e.data.drop pos).take len).length := by
      rw [List.length_take, List.length_drop]
      split <;> omega
    have short : ((e.data.drop pos).take len).length ≤ e.data.length - pos := by
      rw [List.length_take, List.length_drop]
      omega
    obtain ⟨p, pointer, _, stored⟩ := stored fun empty => finished (by rw [empty]; exact Nat.zero_le _)
    have pointer' : (fileNode e data).data = some p := pointer
    rw [if_neg finished, noWrap, chunk, pointer', Option.bind_some]
    have result : Tmpfs.toInt ((e.data.drop pos).take len).length =
        (((e.data.drop pos).take len).length : Int) := by
      unfold Tmpfs.toInt
      exact Int.bmod_eq_of_le (by omega) (by omega)
    have bytes : ((List.range (((e.data.drop pos).take len).length % 2 ^ 32)).map fun i =>
        m.bytes (p + pos + i)) = (e.data.drop pos).take len := by
      rw [Nat.mod_eq_of_lt (by omega)]
      refine List.ext_getElem (by simp) fun i _ inside => ?_
      simp only [List.getElem_map, List.getElem_range, List.getElem_take, List.getElem_drop]
      rw [Nat.add_assoc]
      exact stored.cell (List.getElem?_eq_getElem _)
    rw [result, bytes, Nat.mod_eq_of_lt (by omega)]
    refine ⟨_, rfl, ?_, ?_, ⟨uses, isFile.mount, isFile.fOps, isFile.node⟩, by omega, smallFile⟩
    · simp [State.setFile]
    · simp [State.setFile]

theorem Handles.readAll {lens : List Nat} (handles : Handles m f w pos e)
    (lengths : ∀ len ∈ lens, 1 ≤ len ∧ len < 2 ^ 63) :
    ∃ m', Archive.readAll m f lens = some (m', deliveries e.data pos lens) := by
  induction lens generalizing m pos with
  | nil => exact ⟨m, rfl⟩
  | cons len lens ih =>
      obtain ⟨positive, small⟩ := lengths len List.mem_cons_self
      obtain ⟨m₁, read, handles₁⟩ := handles.read positive small
      obtain ⟨m₂, rest⟩ := ih handles₁ fun len later => lengths len (List.mem_cons_of_mem _ later)
      refine ⟨m₂, ?_⟩
      rw [Archive.readAll, read]
      simp only [Option.bind_eq_bind, Option.bind_some, rest]
      rfl

/-- The reads return the contents piece by piece. -/
theorem drop_chunk (data : List UInt8) (pos len : Nat) :
    data.drop (pos + ((data.drop pos).take len).length) = (data.drop pos).drop len := by
  rw [List.length_take, List.length_drop, List.drop_drop]
  by_cases enough : len ≤ data.length - pos
  · rw [Nat.min_eq_left enough]
  · rw [Nat.min_eq_right (by omega), List.drop_of_length_le (by omega), List.drop_of_length_le (by omega)]

theorem deliveries_take (data : List UInt8) (pos : Nat) (lens : List Nat) :
    (deliveries data pos lens).flatMap Prod.snd = (data.drop pos).take lens.sum := by
  induction lens generalizing pos with
  | nil => simp [deliveries]
  | cons len lens ih =>
      rw [deliveries, List.flatMap_cons, ih, List.sum_cons, List.take_add, drop_chunk]

/-- A read that returns nothing comes after all of the contents. -/
theorem deliveries_end {data : List UInt8} {pos : Nat} {lens : List Nat}
    (lengths : ∀ len ∈ lens, 1 ≤ len) (finished : (0, []) ∈ deliveries data pos lens) :
    (deliveries data pos lens).flatMap Prod.snd = data.drop pos := by
  induction lens generalizing pos with
  | nil => cases finished
  | cons len lens ih =>
      rw [deliveries] at finished
      rcases List.mem_cons.mp finished with first | later
      · have nothing : (data.drop pos).take len = [] := (Prod.mk.inj first).2.symm
        have positive := lengths len List.mem_cons_self
        have none_left : data.drop pos = [] := by
          rcases List.take_eq_nil_iff.mp nothing with zero | empty
          · omega
          · exact empty
        rw [deliveries_take, none_left, List.take_nil]
      · rw [deliveries, List.flatMap_cons, ih (fun len later => lengths len (List.mem_cons_of_mem _ later)) later,
          drop_chunk]
        exact List.take_append_drop len (data.drop pos)

end Reading

/-! ## Agreement -/

section Agreement

variable {layout : Kmem.Layout} {ranges : List (Nat × Nat)}
  {m : Machine (Kmem.KernelHeap layout ranges)} {root r n fuel cpioAddr cpioEnd : Nat} {V : Set Nat}
  {own others : List Nat} {entries : List Entry} {bytes : List UInt8} {magic : Nat → UInt8}
  {buffers : Buffers}

/-- An open file gives the contents that `cpio_cat` prints, in whatever pieces it is read. -/
structure Reads (magic : Nat → UInt8) (buffers : Buffers) (fuel cpioAddr : Nat) (archive : Nat → UInt8)
    (m : Machine (Kmem.KernelHeap layout ranges)) (f : Nat) (name data : List UInt8) : Prop where
  fOps : (m.fs.files f).fOps = some .initramfs
  cat : ∀ target output, IsString target name →
    (cpioCat target).loop magic fuel cpioAddr buffers ⟨archive, output⟩ =
      some (⟨archive, output ++ (data.map .putc ++ [.puts newline])⟩, ())
  reads : ∀ lens : List Nat, (∀ len ∈ lens, 1 ≤ len ∧ len < 2 ^ 63) →
    ∃ m' results, readAll m f lens = some (m', results) ∧
      results.flatMap Prod.snd = data.take lens.sum ∧
      (∀ result ∈ results, result.1 = result.2.length) ∧
      ((0, []) ∈ results → results.flatMap Prod.snd = data)

theorem deliveries_length {data : List UInt8} {pos : Nat} {lens : List Nat} {result : Int × List UInt8}
    (delivered : result ∈ deliveries data pos lens) : result.1 = result.2.length := by
  induction lens generalizing pos with
  | nil => cases delivered
  | cons len lens ih =>
      rcases List.mem_cons.mp delivered with rfl | later
      · rfl
      · exact ih later

/-- What is served below the directory of the archive is the archive: a name can
be opened just when there is an entry with it, and reads give what `cpio_cat`
prints.  All attempts to change something fail and change nothing. -/
theorem initramfs_agrees (ready : Ready m root r n V own others) (encoded : Encoded entries bytes)
    (stored : Stored m.bytes cpioAddr bytes) (small : bytes.length < 2 ^ 32)
    (behind : NullBehind magic buffers) (enough : entries.length < fuel)
    (reserved : (cpioAddr, cpioEnd) ∈ ranges) (within : cpioAddr + bytes.length ≤ cpioEnd)
    (room : entries.length ≤ maxChildren) (names : ∀ e ∈ entries, e.name.length ≤ maxFileName - 2)
    (sizes : ∀ e ∈ entries, e.data.length ≤ Mm.maxAllocSize)
    (serves : Serves m.fs.heap (requests entries)) :
    (∃ m', initramfsInit magic buffers fuel cpioAddr m r = some m' ∧
      ∀ name cwd, IsFileName name → OpenServed m'.fs (pathOf name) →
        ∃ m₁ result target, vfsOpen m' cwd (pathOf name) 0 = some (m₁, result, target) ∧
          (result = 0 ↔ ∃ e ∈ entries, e.name = name) ∧
          ∀ e, lookup entries name = some e → ∃ f, target = some f ∧
            Reads magic buffers fuel cpioAddr m.bytes m₁ f name e.data) ∧
      ∀ (m : Machine (Kmem.KernelHeap layout ranges)) dirNode target componentName file buf len,
        initramfsCreate m dirNode target componentName = some (m, eacces, target) ∧
        initramfsMkdir m dirNode target componentName = some (m, eacces, target) ∧
        initramfsWrite m file buf len = (m, eacces) := by
  refine ⟨?_, fun m dirNode target componentName file buf len => ⟨rfl, rfl, rfl⟩⟩
  obtain ⟨uses, start⟩ := ready.loading
  obtain ⟨m', V', own', uses', loads, loading⟩ := start.all encoded stored small behind enough
    (fun e member => by have := names e member; unfold maxFileName at *; omega) (by simpa using room)
    serves reserved (Nat.le_refl _) within
  rw [List.nil_append] at loading
  refine ⟨m', ?_, fun name cwd isName served => ?_⟩
  · unfold initramfsInit
    rw [ready.internal]
    simp only [Option.bind_eq_bind, Option.bind_some]
    rw [loads]
    rfl
  · obtain ⟨absent, found⟩ := loading.resolve isName room cwd
    cases occurs : lookup entries name with
    | none =>
        obtain ⟨target, resolved⟩ := absent occurs
        obtain ⟨s', opened⟩ := vfsOpen_missing served resolved
        refine ⟨⟨s', m'.bytes⟩, enoent, none, ?_, ?_, fun e impossible => (nomatch impossible)⟩
        · unfold vfsOpen
          rw [opened]
          rfl
        · refine ⟨fun impossible => (nomatch impossible), fun ⟨e, member, same⟩ => ?_⟩
          have other := List.find?_eq_none.mp occurs e member
          simp [same] at other
    | some e =>
        have member : e ∈ entries := List.mem_of_find?_eq_some occurs
        have same : e.name = name := by simpa using List.find?_some occurs
        obtain ⟨w, resolved, isFile⟩ := found e occurs
        obtain ⟨s', f, opened, graph, handle⟩ := vfsOpen_found served resolved isFile.fOps
        have handles : Handles (⟨s', m'.bytes⟩ : Machine (Kmem.KernelHeap layout ranges)) f w 0 e := by
          have limit : Mm.maxAllocSize < 2 ^ 31 := by decide
          exact ⟨by rw [handle], by rw [handle], ⟨uses', isFile.congr graph rfl⟩, Nat.zero_le _,
            Nat.lt_of_le_of_lt (sizes e member) limit⟩
        refine ⟨⟨s', m'.bytes⟩, 0, some f, ?_, ⟨fun _ => ⟨e, member, same⟩, fun _ => rfl⟩,
          fun e' isFirst => ⟨f, rfl, ?_⟩⟩
        · unfold vfsOpen
          rw [opened]
          rfl
        cases isFirst
        constructor
        · rw [handle]
        · intro target output isTarget
          exact @cpioCat_found magic buffers fuel cpioAddr ⟨m.bytes, output⟩ entries name target e behind
            (encoded.archived stored small) isTarget enough occurs
        · intro lens lengths
          obtain ⟨m₂, delivered⟩ := handles.readAll lengths
          refine ⟨m₂, _, delivered, deliveries_take _ _ _, fun _ => deliveries_length, fun finished => ?_⟩
          exact deliveries_end (fun len member => (lengths len member).1) finished

/-- The root of the archive after the start without an archive, and its node. -/
def initArchive : Nat :=
  ((resolve Fs.initState.toGraph none ('/' :: initramfsName)).bind fun outcome => outcome.2).get
    (by decide +kernel)

def initArchiveNode : Nat := (Fs.initState.vnodes initArchive).internal.get (by decide +kernel)

theorem init_ready (bytes : Nat → UInt8) : ∃ root V own others,
    Ready (⟨Fs.initState, bytes⟩ : Machine Fs.BootHeap) root initArchive initArchiveNode V own others := by
  obtain ⟨root, V, own, running, _⟩ := Fs.init_booted.running
  have sound := running.sound
  rw [Fs.initSystem_state] at sound
  exact ⟨root, V, own, _, .of_state bytes sound (by decide +kernel) (by decide +kernel)
    (by decide +kernel) (by decide +kernel)⟩

/-- An archive with one file is loaded, and the file can be read in pieces. -/
theorem initramfs_agrees_file : ∃ m' : Machine Fs.BootHeap, ∀ cwd, OpenServed m'.fs (pathOf [97]) →
    ∃ m₁ f, vfsOpen m' cwd (pathOf [97]) 0 = some (m₁, 0, some f) ∧
      ∃ m₂ results, readAll m₁ f [1, 1, 1] = some (m₂, results) ∧ results.flatMap Prod.snd = [1, 2] := by
  have encoded := fileArchive_encoded
  have length := fileArchive_length
  generalize fileArchive = bytes at encoded length
  have behind : NullBehind (literal magicText) ⟨fun _ => 0, fun _ => 0⟩ :=
    ⟨literal_isString (by decide) (by decide), rfl⟩
  obtain ⟨root, V, own, _, ready⟩ := init_ready fun a => bytes.getD a 0
  have serves : Serves Fs.initState.heap (requests [⟨[97], [1, 2]⟩]) :=
    ⟨fun _ => by decide +kernel, fun _ => by decide +kernel, fun _ => by decide +kernel, trivial⟩
  obtain ⟨⟨m', _, opens⟩, _⟩ := initramfs_agrees ready encoded (Stored.getD _ 0) (by omega)
    behind (by decide : 1 < 2) (List.mem_cons_of_mem _ List.mem_cons_self) (by omega) (by decide)
    (fun e member => by rw [List.mem_singleton.mp member]; decide)
    (fun e member => by rw [List.mem_singleton.mp member]; decide) serves
  have isName : IsFileName [97] := ⟨by decide, by decide, by decide, by decide, by decide⟩
  refine ⟨m', fun cwd served => ?_⟩
  obtain ⟨m₁, result, target, opened, found, reads⟩ := opens [97] cwd isName served
  have success := found.mpr ⟨_, List.mem_cons_self, rfl⟩
  obtain ⟨f, isHandle, handle⟩ := reads _ rfl
  obtain ⟨m₂, results, delivered, contents, _⟩ := handle.reads [1, 1, 1] (by decide)
  subst success isHandle
  exact ⟨m₁, f, opened, m₂, results, delivered, contents⟩

end Agreement

end OsdiKernel.Archive
