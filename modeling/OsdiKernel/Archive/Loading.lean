import OsdiKernel.Archive.Initramfs
import OsdiKernel.Archive.Readers
import OsdiKernel.Fs.Start
import OsdiKernel.Kmem.Allocator

/-!
# Loading the archive

Each entry becomes a file of its own below the root of the archive, with a copy
of its contents.
-/

namespace OsdiKernel.Archive

open Boot (IsString textOf textOf_eq from_)
open Fs (Name State Node Vnode Sound Graph nodeSize vnodeSize maxFileName maxChildren alloc_eq
  initramfsEntry initramfsName)

/-! ## Names -/

theorem toName_inj {first second : List UInt8} (same : toName first = toName second) : first = second := by
  refine List.map_injective_iff.mpr (fun c d equal => ?_) same
  have bytes : ∀ c : UInt8, (Char.ofNat c.toNat).toNat = c.toNat := by
    intro c
    have small := c.toNat_lt
    unfold Char.ofNat
    rw [dif_pos (Or.inl (by omega))]
    rfl
  have values := congrArg Char.toNat equal
  rw [bytes, bytes] at values
  exact UInt8.toNat_inj.mp values

/-- The name of a node is that of its entry, if it fits. -/
theorem nodeName_eq {filename : Nat → UInt8} {name : List UInt8} (isName : IsString filename name) :
    nodeName filename (name.length + 1) =
      if maxFileName ≤ name.length + 1 then none else some (toName name) := by
  unfold nodeName
  split
  · rfl
  · have same : IsString (Function.update filename (name.length + 1) 0) name := by
      refine ⟨isName.stored.congr fun i inside => ?_, isName.proper, isName.short⟩
      rw [List.length_append, List.length_singleton] at inside
      rw [Function.update_of_ne (by omega)]
    rw [textOf_eq same]
    rfl

variable {H : Type} [Allocator H]

/-! ## One entry -/

/-- Only a copy of some bytes needs a buffer. -/
theorem copyTo_served {bytes : Nat → UInt8} {dest : Option Nat} {src n : Nat}
    (given : n ≠ 0 → dest ≠ none) : ∃ bytes', copyTo bytes dest src n = some bytes' := by
  cases dest with
  | some p => exact ⟨_, rfl⟩
  | none =>
      refine ⟨_, if_pos ?_⟩
      by_contra full
      exact given full rfl

section Entry

variable {m : Machine H} {s : State H} {r n header size : Nat} {e : Entry} {filename : Nat → UInt8}
  {name : Name}

/-- The reader does what the file system does at an entry, and copies the contents. -/
theorem initramfsReader_entry (located : Located m.bytes header e) (isName : IsString filename e.name) :
    (initramfsReader r).entry header (BitVec.ofNat 32 (e.name.length + 1)) filename m =
      (initramfsEntry m.fs r (toName e.name) e.data.length).bind fun fs =>
        (copyTo m.bytes ((m.fs.alloc nodeSize).1.alloc e.data.length).2 (header + e.dataStart)
          e.data.length).map fun bytes => (⟨fs, bytes⟩, none) := by
  have short := located.short
  have small := located.small
  have length : (toName e.name).length = e.name.length := List.length_map _
  have namesize : (BitVec.ofNat 32 (e.name.length + 1)).toNat = e.name.length + 1 :=
    (BitVec.toNat_ofNat _ _).trans (Nat.mod_eq_of_lt (by omega))
  have filesize : (BitVec.ofNat 32 e.data.length).toNat = e.data.length :=
    (BitVec.toNat_ofNat _ _).trans (Nat.mod_eq_of_lt (by omega))
  unfold initramfsReader initramfsEntry
  simp only [located.filesize, located.dataOffset_eq, namesize, filesize, nodeName_eq isName, length]
  cases first : (m.fs.alloc nodeSize).2 with
  | none => rfl
  | some newNode =>
      simp only [Option.bind_eq_bind, Option.bind_some]
      split
      · rfl
      · generalize (m.fs.alloc nodeSize).1 = s₁
        generalize s₁.alloc e.data.length = second
        obtain ⟨s₂, data⟩ := second
        dsimp only [Option.bind_some]
        by_cases failed : e.data.length ≠ 0 ∧ data = none
        · obtain ⟨full, rfl⟩ := failed
          rw [if_pos ⟨full, rfl⟩]
          simp [copyTo, full]
        · obtain ⟨bytes, copy⟩ := @copyTo_served m.bytes data (header + e.dataStart) e.data.length
            fun full missing => failed ⟨full, missing⟩
          simp only [copy, if_neg failed, Option.bind_some, Option.map_some, Option.bind_assoc]
          rfl

/-- The file of an entry. -/
def fileNode (e : Entry) (data : Option Nat) : Node :=
  ⟨toName e.name, .file, none, data, e.data.length, e.data.length, fun _ => none, 0⟩

def fileVnode (r newNode : Nat) : Vnode where
  mount := none
  vOps := some .initramfs
  fOps := some .initramfs
  internal := some newNode
  parent := some r
  parentIsMount := false

/-- What an entry does to memory when the three allocations succeed. -/
structure EntryAdded (s s' : State H) (r n N W : Nat) (e : Entry) (data : Option Nat) : Prop where
  heap : s'.heap = (((s.alloc nodeSize).1.alloc e.data.length).1.alloc vnodeSize).1.heap
  vnodes : s'.vnodes = Function.update s.vnodes W (fileVnode r N)
  nodes : s'.nodes = Function.update (Function.update s.nodes N (fileNode e data)) n ((s.nodes n).push W)

theorem initramfsEntry_some {N W : Nat} {data : Option Nat} (first : (s.alloc nodeSize).2 = some N)
    (second : ((s.alloc nodeSize).1.alloc e.data.length).2 = data)
    (third : (((s.alloc nodeSize).1.alloc e.data.length).1.alloc vnodeSize).2 = some W)
    (given : e.data.length ≠ 0 → data ≠ none) (short : e.name.length + 1 < maxFileName)
    (internal : (s.vnodes r).internal = some n) (otherVnode : r ≠ W) (otherNode : n ≠ N)
    (room : 0 ≤ (s.nodes n).numChildren ∧ (s.nodes n).numChildren < maxChildren) :
    ∃ s', initramfsEntry s r (toName e.name) e.data.length = some s' ∧ EntryAdded s s' r n N W e data := by
  have length : (toName e.name).length = e.name.length := List.length_map _
  have served : ¬ (e.data.length ≠ 0 ∧ data = none) := fun failed => given failed.1 failed.2
  have third' : ∀ node,
      ((((s.alloc nodeSize).1.alloc e.data.length).1.setNode N node).alloc vnodeSize).2 = some W :=
    fun _ => third
  have atRoot : (Function.update s.vnodes W (fileVnode r N) r).internal = some n := by
    rw [Function.update_of_ne otherVnode]
    exact internal
  have atNode : Function.update s.nodes N (fileNode e data) n = s.nodes n :=
    Function.update_of_ne otherNode _ _
  unfold initramfsEntry
  simp only [first, second, third', length, if_neg (Nat.not_le_of_lt short), if_neg served,
    Option.bind_eq_bind, Option.bind_some]
  generalize linked : ((((s.alloc nodeSize).1.alloc e.data.length).1.setNode N
    (fileNode e data)).alloc vnodeSize).1.setVnode W (fileVnode r N) = s₄
  have vnodes : s₄.vnodes = Function.update s.vnodes W (fileVnode r N) := by
    rw [← linked]
    rfl
  have nodes : s₄.nodes = Function.update s.nodes N (fileNode e data) := by
    rw [← linked]
    rfl
  have heap : s₄.heap = (((s.alloc nodeSize).1.alloc e.data.length).1.alloc vnodeSize).1.heap := by
    rw [← linked]
    rfl
  rw [← nodes] at atNode
  have stored : Fs.storeChild s₄ n W = some (s₄.setNode n ((s₄.nodes n).push W)) := by
    unfold Fs.storeChild
    rw [atNode, if_pos room]
    rfl
  refine ⟨s₄.setNode n ((s₄.nodes n).push W), Option.bind_eq_some_iff.mpr ⟨n, ?_, ?_⟩, heap, vnodes, ?_⟩
  · rw [← vnodes, ← linked] at atRoot
    exact atRoot
  · rw [← stored, ← linked]
    rfl
  · change Function.update s₄.nodes n ((s₄.nodes n).push W) = _
    rw [atNode, nodes]

end Entry

/-- The heap serves nonempty requests of these sizes, one after the other. -/
def Serves (h : H) : List Nat → Prop
  | [] => True
  | size :: sizes => (size ≠ 0 → (Allocator.alloc h size).2 ≠ none) ∧
      Serves (Allocator.alloc h size).1 sizes

/-- The sizes that are requested for the entries. -/
def requests (entries : List Entry) : List Nat :=
  entries.flatMap fun e => [nodeSize, e.data.length, vnodeSize]

/-! ## Contents -/

section Contents

variable {layout : Kmem.Layout} {ranges uses uses' : List (Nat × Nat)} {h : Kmem.KernelHeap layout ranges}
  {size p first last src : Nat} {bytes bytes' : Nat → UInt8} {data : List UInt8}

/-- The copy to a new buffer changes nothing else, and nothing of the archive. -/
theorem copyTo_spec (run : Kmem.Run layout ranges uses h) (reserved : (first, last) ∈ ranges)
    (after : first ≤ src) (before : src + data.length ≤ last) (stored : Stored bytes src data)
    (copied : copyTo bytes (Allocator.alloc h data.length).2 src data.length = some bytes') :
    (∀ p, (Allocator.alloc h data.length).2 = some p → Stored bytes' p data) ∧
      (∀ a, first ≤ a → a < last → bytes' a = bytes a) ∧
      ∀ use ∈ uses, ∀ i, i < use.2 → bytes' (use.1 + i) = bytes (use.1 + i) := by
  obtain ⟨uses', run', kept, new⟩ := run.allocated data.length
  cases allocated : (Allocator.alloc h data.length).2 with
  | none =>
      rw [allocated, copyTo] at copied
      split at copied
      · cases copied
        exact ⟨fun p impossible => (nomatch impossible), fun _ _ _ => rfl, fun _ _ _ _ => rfl⟩
      · cases copied
  | some p =>
      obtain ⟨pointer, success, inUse, fresh⟩ := new p allocated
      rw [allocated] at copied
      cases copied
      rw [pointer] at success
      have apart := alloc_apart run reserved after before success
      rw [← pointer] at apart
      refine ⟨fun p' same => ?_, fun a low high => ?_, fun use member i inside => ?_⟩
      · cases same
        exact stored.copyLoop apart
      · rw [copyLoop_apply _ _ _ _ _ apart, if_neg]
        rintro ⟨above, below⟩
        rw [pointer] at above below
        have outside := alloc_outside run reserved success above below
        omega
      · have disjoint := run'.apart (kept use member) inUse fun same => fresh use member (congrArg Prod.fst same)
        rw [copyLoop_apply _ _ _ _ _ apart, if_neg (by simp only at disjoint; omega)]

end Contents

/-! ## All entries -/

/-- A vnode is the file of an entry. -/
structure IsFile (m : Machine H) (uses : List (Nat × Nat)) (w : Nat) (e : Entry) : Prop where
  mount : (m.fs.vnodes w).mount = none
  fOps : (m.fs.vnodes w).fOps = some .initramfs
  node : ∃ x data, (m.fs.vnodes w).internal = some x ∧ m.fs.nodes x = fileNode e data ∧
    (e.data ≠ [] → ∃ p, data = some p ∧ (p, e.data.length) ∈ uses ∧ Stored m.bytes p e.data)

/-- The root `r` of the archive, with the node `n`, holds the entries. -/
structure Loading {layout : Kmem.Layout} {ranges : List (Nat × Nat)}
    (m : Machine (Kmem.KernelHeap layout ranges)) (root r n : Nat) (V : Set Nat) (own others : List Nat)
    (uses : List (Nat × Nat)) (entries : List Entry) : Prop where
  sound : Sound m.fs root V own others
  run : Kmem.Run layout ranges uses m.fs.heap
  member : r ∈ V
  clear : (m.fs.vnodes r).mount = none
  vOps : (m.fs.vnodes r).vOps = some .initramfs
  internal : (m.fs.vnodes r).internal = some n
  directory : (m.fs.nodes n).type = .directory
  count : (m.fs.nodes n).numChildren = entries.length
  path : Fs.walk m.fs.toGraph (some root) [initramfsName] = some (0, some r)
  files : ∀ i e, entries[i]? = some e →
    ∃ w ∈ V, (m.fs.nodes n).children i = some w ∧ IsFile m uses w e

section Step

variable {layout : Kmem.Layout} {ranges uses : List (Nat × Nat)}
  {m : Machine (Kmem.KernelHeap layout ranges)} {root r n header first last : Nat} {V : Set Nat}
  {own others : List Nat} {entries : List Entry} {e : Entry} {filename : Nat → UInt8}

/-- One entry is loaded. -/
theorem Loading.entry (loading : Loading m root r n V own others uses entries)
    (located : Located m.bytes header e) (isName : IsString filename e.name)
    (short : e.name.length + 1 < maxFileName) (room : entries.length < maxChildren)
    (serves : Serves m.fs.heap [nodeSize, e.data.length, vnodeSize])
    (reserved : (first, last) ∈ ranges) (after : first ≤ header)
    (before : header + e.dataStart + e.data.length ≤ last) :
    ∃ m' V' own' uses', (initramfsReader r).entry header (BitVec.ofNat 32 (e.name.length + 1)) filename m =
        some (m', none) ∧
      Loading m' root r n V' own' others uses' (entries ++ [e]) ∧
      (∀ a, first ≤ a → a < last → m'.bytes a = m.bytes a) ∧
      m'.fs.heap = (((m.fs.alloc nodeSize).1.alloc e.data.length).1.alloc vnodeSize).1.heap := by
  obtain ⟨serveNode, serveData, serveVnode, _⟩ := serves
  obtain ⟨N, gotNode⟩ := Option.ne_none_iff_exists'.mp (serveNode (by decide))
  obtain ⟨W, gotVnode⟩ := Option.ne_none_iff_exists'.mp (serveVnode (by decide))
  obtain ⟨uses₁, run₁, kept₁, _⟩ := loading.run.allocated nodeSize
  obtain ⟨uses₂, run₂, kept₂, new₂⟩ := run₁.allocated e.data.length
  obtain ⟨uses₃, run₃, kept₃, _⟩ := run₂.allocated vnodeSize
  have holds := loading.sound.holds
  obtain ⟨freshNode, holds₁⟩ := Fs.alloc_some holds gotNode
  have holds₂ : ∃ more, Allocator.Holds ((m.fs.alloc nodeSize).1.alloc e.data.length).1.heap
      (more ++ N :: (own ++ others)) := by
    cases gotData : ((m.fs.alloc nodeSize).1.alloc e.data.length).2 with
    | none => exact ⟨[], Fs.alloc_none holds₁ gotData⟩
    | some p => exact ⟨[p], (Fs.alloc_some holds₁ gotData).2⟩
  obtain ⟨more, holds₂⟩ := holds₂
  obtain ⟨freshVnode, _⟩ := Fs.alloc_some holds₂ gotVnode
  have notVnode : W ∉ own := fun old =>
    freshVnode (List.mem_append_right _ (List.mem_cons_of_mem _ (List.mem_append_left _ old)))
  have notNode : N ∉ own := fun old => freshNode (List.mem_append_left _ old)
  have otherVnode : ∀ {v}, v ∈ V → v ≠ W := fun inTree same =>
    notVnode (same ▸ loading.sound.used.vnodes inTree)
  have otherNode : ∀ {v x}, v ∈ V → (m.fs.vnodes v).internal = some x → x ≠ N :=
    fun inTree internal same => notNode (same ▸ loading.sound.used.nodes inTree internal)
  have notSame := otherNode loading.member loading.internal
  have count : 0 ≤ (m.fs.nodes n).numChildren ∧ (m.fs.nodes n).numChildren < maxChildren := by
    rw [loading.count]
    omega
  have full : e.data.length ≠ 0 → ((m.fs.alloc nodeSize).1.alloc e.data.length).2 ≠ none := serveData
  obtain ⟨s', entered, added⟩ := @initramfsEntry_some _ _ m.fs r n e N W _ gotNode rfl gotVnode full short
    loading.internal (otherVnode loading.member) notSame count
  obtain ⟨⟨V', own', effect, _, sound', adds, change⟩, clear'⟩ :=
    Fs.initramfsEntry_spec loading.sound loading.member loading.clear entered
  have path' : Fs.walk s'.toGraph (some root) [initramfsName] = some (0, some r) := by
    cases change with
    | same agree => cases adds
    | child created proper =>
        exact created.walk loading.sound.tree proper loading.sound.tree.root_mem
          (Fs.proper_of_clear loading.sound.tree.rootMount) .root (by decide) loading.path
    | mount mounted => cases adds
  have larger := change.larger
  obtain ⟨bytes', copied⟩ := @copyTo_served m.bytes _ (header + e.dataStart) _ full
  obtain ⟨contents, archive, framed⟩ := copyTo_spec run₁ reserved (by omega) before located.data copied
  have internal' : (s'.vnodes r).internal = some n := by
    rw [added.vnodes, Function.update_of_ne (otherVnode loading.member)]
    exact loading.internal
  have atRoot : s'.nodes n = (m.fs.nodes n).push W := by
    rw [added.nodes, Function.update_self]
  have children : (s'.nodes n).children =
      Function.update (m.fs.nodes n).children entries.length (some W) := by
    rw [atRoot, Fs.Node.push, loading.count]
    rfl
  have more' : (s'.nodes n).numChildren = entries.length + 1 := by
    rw [atRoot, Fs.Node.push, loading.count]
  refine ⟨⟨s', bytes'⟩, V', own', uses₃, ?_, ?_, archive, added.heap⟩
  · rw [initramfsReader_entry located isName, entered, Option.bind_some, copied]
    rfl
  · refine ⟨sound', ?_, larger loading.member, clear', ?_, internal', ?_, ?_, path', ?_⟩
    · rw [added.heap]
      exact run₃
    · rw [added.vnodes, Function.update_of_ne (otherVnode loading.member)]
      exact loading.vOps
    · rw [atRoot]
      exact loading.directory
    · rw [more', List.length_append]
      rfl
    · intro i e' found
      by_cases last_ : i = entries.length
      · subst last_
        rw [List.getElem?_concat_length] at found
        cases found
        have isChild : (s'.nodes n).children entries.length = some W := by
          rw [children, Function.update_self]
        obtain ⟨c, inTree, isChild', _⟩ := sound'.tree.child (i := entries.length) (larger loading.member)
          internal' (by rw [more']; omega)
        rw [isChild] at isChild'
        cases isChild'
        refine ⟨W, inTree, isChild, ?_, ?_, N, ((m.fs.alloc nodeSize).1.alloc e.data.length).2, ?_, ?_,
          fun nonempty => ?_⟩
        · rw [added.vnodes, Function.update_self]
          rfl
        · rw [added.vnodes, Function.update_self]
          rfl
        · rw [added.vnodes, Function.update_self]
          rfl
        · rw [added.nodes, Function.update_of_ne notSame.symm, Function.update_self]
        · obtain ⟨p, gotData⟩ := Option.ne_none_iff_exists'.mp
            (full fun empty => nonempty (List.length_eq_zero_iff.mp empty))
          exact ⟨p, gotData, kept₃ _ (new₂ p gotData).2.2.1, contents p gotData⟩
      · have inside : i < entries.length := by
          obtain ⟨below, _⟩ := List.getElem?_eq_some_iff.mp found
          rw [List.length_append, List.length_singleton] at below
          omega
        rw [List.getElem?_append_left inside] at found
        obtain ⟨w, inTree, isChild, isFile⟩ := loading.files i e' found
        obtain ⟨x, data, internal, node, stored⟩ := isFile.node
        have isFileNode : x ≠ n := by
          rintro rfl
          have directory := loading.directory
          rw [node] at directory
          cases directory
        have vnode : s'.vnodes w = m.fs.vnodes w := by
          rw [added.vnodes, Function.update_of_ne (otherVnode inTree)]
        refine ⟨w, larger inTree, ?_, ?_, ?_, x, data, ?_, ?_, fun nonempty => ?_⟩
        · rw [children, Function.update_of_ne last_]
          exact isChild
        · rw [vnode]
          exact isFile.mount
        · rw [vnode]
          exact isFile.fOps
        · rw [vnode]
          exact internal
        · rw [added.nodes, Function.update_of_ne isFileNode, Function.update_of_ne (otherNode inTree internal)]
          exact node
        · obtain ⟨p, pointer, inUse, stored⟩ := stored nonempty
          exact ⟨p, pointer, kept₃ _ (kept₂ _ (kept₁ _ inUse)),
            stored.congr fun i inside => framed _ (kept₁ _ inUse) i inside⟩

theorem serves_append {H : Type} [Allocator H] {h : H} {sizes later : List Nat} :
    Serves h (sizes ++ later) ↔
      Serves h sizes ∧ Serves (sizes.foldl (fun h size => (Allocator.alloc h size).1) h) later := by
  induction sizes generalizing h with
  | nil => exact iff_and_self.mpr fun _ => trivial
  | cons size sizes ih => exact (and_congr_right fun _ => ih).trans and_assoc.symm

/-- All entries are loaded. -/
theorem Loading.all {bytes : List UInt8} {magic : Nat → UInt8} {buffers : Buffers} {fuel : Nat}
    {loaded : List Entry} (loading : Loading m root r n V own others uses loaded)
    (encoded : Encoded entries bytes) (stored : Stored m.bytes header bytes) (small : bytes.length < 2 ^ 32)
    (behind : NullBehind magic buffers) (enough : entries.length < fuel)
    (short : ∀ e ∈ entries, e.name.length + 1 < maxFileName)
    (room : loaded.length + entries.length ≤ maxChildren) (serves : Serves m.fs.heap (requests entries))
    (reserved : (first, last) ∈ ranges) (after : first ≤ header) (before : header + bytes.length ≤ last) :
    ∃ m' V' own' uses', (initramfsReader r).loop magic fuel header buffers m = some (m', ()) ∧
      Loading m' root r n V' own' others uses' (loaded ++ entries) := by
  induction encoded generalizing m V own uses loaded header fuel buffers with
  | @trailer data bytes isLast =>
      obtain ⟨fuel, rfl⟩ := Nat.exists_eq_succ_of_ne_zero (Nat.ne_of_gt enough)
      have located := isLast.located stored (by simp only; decide) (by simp only; decide) small
      obtain ⟨_, _, _, round⟩ := @loop_entry _ _ (initramfsReader r) _ _ fuel _ m _ behind located
      refine ⟨m, V, own, uses, ?_, by rwa [List.append_nil]⟩
      rw [round, if_pos rfl]
      rfl
  | @entry e entries bytes rest proper shortName other isFirst later ih =>
      obtain ⟨fuel, rfl⟩ := Nat.exists_eq_succ_of_ne_zero (Nat.ne_of_gt (Nat.zero_lt_of_lt enough))
      rw [List.length_append] at small before
      rw [List.length_cons] at room enough
      have length := isFirst.length
      have located := isFirst.located stored.left proper shortName (by omega)
      have padding : e.data.length ≤ Boot.padded e.data.length := by unfold Boot.padded; omega
      obtain ⟨serveFirst, serveRest⟩ := (@serves_append _ _ _ [nodeSize, e.data.length, vnodeSize] _).mp serves
      obtain ⟨buffers', behind', filename, round⟩ :=
        @loop_entry _ _ (initramfsReader r) _ _ fuel _ m _ behind located
      obtain ⟨m', V', own', uses', entered, loading', unchanged, heap⟩ :=
        loading.entry located filename (short e List.mem_cons_self) (by omega) serveFirst reserved after
          (by unfold Entry.length at length; omega)
      have behindFirst : Stored m'.bytes (header + e.length) rest := by
        have stored' := stored.right
        rw [length] at stored'
        exact stored'.congr fun i inside => unchanged _ (by omega) (by omega)
      have served : Serves m'.fs.heap (requests entries) := by
        rw [heap]
        exact serveRest
      obtain ⟨m'', V'', own'', uses'', finished, loading''⟩ := ih loading' behindFirst (by omega) behind'
        (Nat.lt_of_succ_lt_succ enough) (fun e member => short e (List.mem_cons_of_mem _ member))
        (by rw [List.length_append, List.length_singleton]; omega) served (by omega) (by omega)
      refine ⟨m'', V'', own'', uses'', ?_, by rwa [List.append_assoc] at loading''⟩
      rw [round, if_neg other, entered]
      exact finished

end Step

end OsdiKernel.Archive
