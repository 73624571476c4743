import OsdiKernel.Lib.Ledger
import OsdiKernel.Fs.Opening
import OsdiKernel.Fs.System

/-!
# What opening and closing files leaves allocated

`vfs_open` allocates a structure for the file.  `open` of a device replaces it by
one of its own, and `close` of a device releases that one; `close` of a node of
tmpfs or initramfs only clears the structure.  Either way one structure is lost
for every file that is opened.
-/

namespace OsdiKernel.Fs

open Allocator (Holds)

variable {H : Type} [Allocator H]

/-! ## One file -/

section Files

variable {s s' : State H} {live : List Nat} {flags : Nat}

/-- What an open leaves in use besides what was in use. -/
theorem vfsOpen_opens {cwd target : Option Nat} {pathname : Name} {result : Int}
    (holds : Holds s.heap live)
    (opened : vfsOpen s cwd pathname flags = some (s', result, target)) :
    Opened s' live result target := by
  unfold vfsOpen at opened
  obtain ⟨⟨s₁, lookupResult, v⟩, looked, opened⟩ := Option.bind_eq_some_iff.mp opened
  have held := (vfsLookup_looked holds looked).1.holds
  dsimp only at opened
  split at opened
  · next missing =>
      split at opened
      · obtain ⟨⟨s₂, outcome⟩, created, opened⟩ := Option.bind_eq_some_iff.mp opened
        obtain ⟨more, held'⟩ := openCreate_keeps held created
        cases outcome with
        | error r =>
            have nonzero := (openCreate_code created).2
            cases opened
            exact .failure more nonzero held'
        | ok pair =>
            obtain ⟨_, _, failed, opened⟩ := openVnode_spec held' opened
            constructor
            · intro nonzero
              obtain ⟨leaked, held''⟩ := failed nonzero
              exact ⟨leaked ++ more, by rwa [List.append_assoc]⟩
            · intro success
              obtain ⟨f, leaked, isFile, held''⟩ := opened success
              exact ⟨f, leaked ++ more, isFile, by rwa [List.append_assoc]⟩
      · cases opened
        exact .failure [] missing held
  · exact (openVnode_spec held opened).2.2

/-- Whatever the result of an open is, what was in use stays in use. -/
theorem vfsOpen_keeps {cwd target : Option Nat} {pathname : Name} {result : Int}
    (holds : Holds s.heap live)
    (opened : vfsOpen s cwd pathname flags = some (s', result, target)) : Keeps s' live := by
  have opens := vfsOpen_opens holds opened
  by_cases success : result = 0
  · obtain ⟨f, leaked, _, held⟩ := opens.opened success
    exact ⟨f :: leaked, held⟩
  · exact opens.failed success

end Files

/-! ## Sessions -/

/-- A call that succeeds, with its arguments and the file. -/
inductive FileEvent where
  | opened (cwd : Option Nat) (pathname : Name) (flags f : Nat)
  | closed (f : Nat)

/-- Files of existing vnodes are opened, and files that are open are closed.  The
lists are the files that are open before and after. -/
inductive Session : State H → List Nat → List (State H × FileEvent) → State H → List Nat → Prop
  | done {s : State H} {files : List Nat} : Session s files [] s files
  | open {s t s' last : State H} {files left : List Nat} {cwd : Option Nat} {pathname : Name}
      {flags v f : Nat} {trace : List (State H × FileEvent)}
      (found : vfsLookup s cwd pathname = some (t, 0, some v))
      (opened : vfsOpen s cwd pathname flags = some (s', 0, some f))
      (rest : Session s' (f :: files) trace last left) :
      Session s files ((s, .opened cwd pathname flags f) :: trace) last left
  | close {s last : State H} {files left : List Nat} {f : Nat} {trace : List (State H × FileEvent)}
      (isOpen : f ∈ files) (rest : Session (vfsClose s f).1 (files.erase f) trace last left) :
      Session s files ((s, .closed f) :: trace) last left

/-- The structure that a call of `vfs_open` allocates itself. -/
def FileEvent.structure? (s : State H) : FileEvent → Option Nat
  | .opened cwd pathname _ _ =>
      (vfsLookup s cwd pathname).bind fun outcome => (outcome.1.alloc fileSize).2
  | .closed _ => none

/-- The structures that the calls of a session have allocated in `vfs_open` itself. -/
def structures (trace : List (State H × FileEvent)) : List Nat :=
  trace.filterMap fun entry => entry.2.structure? entry.1

section Sessions

variable {s s' last : State H} {files left live nodes devices lost : List Nat} {f : Nat}
  {trace : List (State H × FileEvent)}

/-- The open files are of nodes and of devices; `lost` are the structures that no file uses. -/
structure Accounts (s : State H) (files live nodes devices lost : List Nat) : Prop where
  split : files.Perm (nodes ++ devices)
  distinct : (nodes ++ devices).Nodup
  node : ∀ f ∈ nodes, ∃ ops, (s.files f).fOps = some ops ∧ ops.isDevice = false
  device : ∀ f ∈ devices, ∃ ops, (s.files f).fOps = some ops ∧ ops.isDevice = true
  holds : Holds s.heap (nodes ++ devices ++ lost ++ live)

theorem vfsOpen_opened {t : State H} {cwd : Option Nat} {pathname : Name} {flags v : Nat}
    (holds : Holds s.heap live) (found : vfsLookup s cwd pathname = some (t, 0, some v))
    (opened : vfsOpen s cwd pathname flags = some (s', 0, some f)) :
    ∃ ops, FileOpened s s' live ((FileEvent.opened cwd pathname flags f).structure? s) f ops := by
  have looked := (vfsLookup_looked holds found).1
  unfold vfsOpen at opened
  rw [found] at opened
  have opened' : openVnode t (some v) flags = some (s', 0, some f) := opened
  obtain ⟨ops, result⟩ := openVnode_opened looked.holds opened'
  have own : (FileEvent.opened cwd pathname flags f).structure? s = (t.alloc fileSize).2 := by
    simp [FileEvent.structure?, found]
  rw [own]
  refine ⟨ops, result.fresh, result.fOps, fun g other => ?_, result.node, result.device⟩
  rw [result.others g other, looked.files]

/-- A file that is opened takes one structure, and for a device another one is lost. -/
theorem Accounts.opens {first : Option Nat} {ops : FileOps}
    (accounts : Accounts s files live nodes devices lost)
    (opened : FileOpened s s' (nodes ++ devices ++ lost ++ live) first f ops) :
    ∃ nodes' devices' lost', Accounts s' (f :: files) live nodes' devices' lost' ∧
      nodes'.length + lost'.length = nodes.length + lost.length + first.toList.length := by
  have unused : f ∉ nodes ++ devices := fun member =>
    opened.fresh (List.mem_append_left _ (List.mem_append_left _ member))
  have kept : ∀ g ∈ nodes ++ devices, s'.files g = s.files g := by
    intro g member
    refine opened.others g ?_
    rintro rfl
    exact unused member
  have oldNode : ∀ g ∈ nodes, ∃ ops, (s'.files g).fOps = some ops ∧ ops.isDevice = false := by
    intro g member
    rw [kept g (List.mem_append_left _ member)]
    exact accounts.node g member
  have oldDevice : ∀ g ∈ devices, ∃ ops, (s'.files g).fOps = some ops ∧ ops.isDevice = true := by
    intro g member
    rw [kept g (List.mem_append_right _ member)]
    exact accounts.device g member
  cases kind : ops.isDevice with
  | false =>
      obtain ⟨rfl, holds⟩ := opened.node kind
      refine ⟨f :: nodes, devices, lost, ⟨accounts.split.cons f, ?_, ?_, oldDevice, holds⟩, ?_⟩
      · exact List.nodup_cons.mpr ⟨unused, accounts.distinct⟩
      · intro g member
        rcases List.mem_cons.mp member with rfl | old
        · exact ⟨ops, opened.fOps, kind⟩
        · exact oldNode g old
      · simp only [List.length_cons, Option.toList_some, List.length_nil]
        omega
  | true =>
      have moved : (f :: files).Perm (nodes ++ f :: devices) :=
        (accounts.split.cons f).trans List.perm_middle.symm
      refine ⟨nodes, f :: devices, first.toList ++ lost, ⟨moved, ?_, oldNode, ?_, ?_⟩, ?_⟩
      · exact List.perm_middle.nodup_iff.mpr (List.nodup_cons.mpr ⟨unused, accounts.distinct⟩)
      · intro g member
        rcases List.mem_cons.mp member with rfl | old
        · exact ⟨ops, opened.fOps, kind⟩
        · exact oldDevice g old
      · refine Allocator.perm (opened.device kind) ?_
        refine List.perm_iff_count.mpr fun p => ?_
        simp only [List.count_append, List.count_cons]
        omega
      · rw [List.length_append]
        omega

/-- `close` of a node of tmpfs or initramfs clears the structure. -/
theorem vfsClose_node {ops : FileOps} (isOps : (s.files f).fOps = some ops)
    (isNode : ops.isDevice = false) : vfsClose s f = (s.setFile f ⟨none, 0, none, 0⟩, 0) := by
  unfold vfsClose
  rw [isOps]
  cases ops with
  | tmpfs | initramfs => rfl
  | uart | framebuffer => cases isNode

/-- `close` of a device releases it. -/
theorem vfsClose_device {ops : FileOps} (isOps : (s.files f).fOps = some ops)
    (isDevice : ops.isDevice = true) : vfsClose s f = (s.free f, 0) := by
  unfold vfsClose
  rw [isOps]
  cases ops with
  | tmpfs | initramfs => cases isDevice
  | uart | framebuffer => rfl

/-- A file of a node that is closed is lost. -/
theorem Accounts.closes_node (accounts : Accounts s files live nodes devices lost)
    (member : f ∈ nodes) :
    Accounts (vfsClose s f).1 (files.erase f) live (nodes.erase f) devices (f :: lost) := by
  obtain ⟨ops, isOps, isNode⟩ := accounts.node f member
  rw [vfsClose_node isOps isNode]
  have notDevice : f ∉ devices := fun inDevices =>
    (List.nodup_append.mp accounts.distinct).2.2 f member f inDevices rfl
  have nodesDistinct := (List.nodup_append.mp accounts.distinct).1
  have erased : (nodes ++ devices).erase f = nodes.erase f ++ devices :=
    List.erase_append_left devices member
  have kept : ∀ g, g ≠ f → (s.setFile f ⟨none, 0, none, 0⟩).files g = s.files g :=
    fun g other => Function.update_of_ne other _ _
  constructor
  · exact erased ▸ accounts.split.erase f
  · exact erased ▸ accounts.distinct.erase f
  · intro g inNodes
    obtain ⟨other, old⟩ := (List.Nodup.mem_erase_iff nodesDistinct).mp inNodes
    rw [kept g other]
    exact accounts.node g old
  · intro g inDevices
    have other : g ≠ f := fun same => notDevice (same ▸ inDevices)
    rw [kept g other]
    exact accounts.device g inDevices
  · refine Allocator.perm (h := s.heap) accounts.holds ?_
    refine List.perm_iff_count.mpr fun p => ?_
    have counted := (List.perm_cons_erase member).count_eq p
    simp only [List.count_append, List.count_cons] at counted ⊢
    omega

/-- A file of a device that is closed is released. -/
theorem Accounts.closes_device (accounts : Accounts s files live nodes devices lost)
    (member : f ∈ devices) :
    Accounts (vfsClose s f).1 (files.erase f) live nodes (devices.erase f) lost := by
  obtain ⟨ops, isOps, isDevice⟩ := accounts.device f member
  rw [vfsClose_device isOps isDevice]
  have notNode : f ∉ nodes := fun inNodes =>
    (List.nodup_append.mp accounts.distinct).2.2 f inNodes f member rfl
  have erased : (nodes ++ devices).erase f = nodes ++ devices.erase f :=
    List.erase_append_right devices notNode
  constructor
  · exact erased ▸ accounts.split.erase f
  · exact erased ▸ accounts.distinct.erase f
  · exact accounts.node
  · exact fun g inDevices => accounts.device g (List.mem_of_mem_erase inDevices)
  · have inUse : f ∈ nodes ++ devices ++ lost ++ live :=
      List.mem_append_left _ (List.mem_append_left _ (List.mem_append_right _ member))
    have released : Holds (s.free f).heap ((nodes ++ devices ++ lost ++ live).erase f) :=
      Allocator.free_live accounts.holds inUse
    refine Allocator.perm released (List.perm_iff_count.mpr fun p => ?_)
    have whole := (List.perm_cons_erase inUse).count_eq p
    have counted := (List.perm_cons_erase member).count_eq p
    simp only [List.count_append, List.count_cons] at whole counted ⊢
    omega

/-- Every file that is opened costs one structure, if `vfs_open` could allocate its own. -/
theorem Session.accounts (accounts : Accounts s files live nodes devices lost)
    (session : Session s files trace last left) :
    ∃ nodes' devices' lost', Accounts last left live nodes' devices' lost' ∧
      nodes'.length + lost'.length = nodes.length + lost.length + (structures trace).length := by
  induction session generalizing nodes devices lost with
  | done => exact ⟨nodes, devices, lost, accounts, rfl⟩
  | @«open» s t s' last files left cwd pathname flags v f trace found opened rest ih =>
      obtain ⟨ops, made⟩ := vfsOpen_opened accounts.holds found opened
      obtain ⟨nodes₁, devices₁, lost₁, accounts₁, count₁⟩ := accounts.opens made
      obtain ⟨nodes', devices', lost', accounts', count'⟩ := ih accounts₁
      refine ⟨nodes', devices', lost', accounts', ?_⟩
      have more : (structures ((s, .opened cwd pathname flags f) :: trace)).length =
          ((FileEvent.opened cwd pathname flags f).structure? s).toList.length +
            (structures trace).length := by
        unfold structures
        rw [List.filterMap_cons]
        cases (FileEvent.opened cwd pathname flags f).structure? s with
        | none => simp
        | some p => simp [Nat.add_comm]
      omega
  | @close s last files left f trace isOpen rest ih =>
      have none : structures ((s, .closed f) :: trace) = structures trace := rfl
      rw [none]
      rcases List.mem_append.mp (accounts.split.mem_iff.mp isOpen) with inNodes | inDevices
      · obtain ⟨nodes', devices', lost', accounts', count'⟩ := ih (accounts.closes_node inNodes)
        have fewer := List.length_erase_of_mem inNodes
        have positive := List.length_pos_of_mem inNodes
        rw [List.length_cons] at count'
        exact ⟨nodes', devices', lost', accounts', by omega⟩
      · exact ih (accounts.closes_device inDevices)

/-- When all files have been closed, the structures that `vfs_open` has allocated are lost. -/
theorem Session.leaks (holds : Holds s.heap live) (session : Session s [] trace last []) :
    ∃ lost, Holds last.heap (lost ++ live) ∧ lost.length = (structures trace).length := by
  have accounts : Accounts s [] live [] [] [] :=
    ⟨.refl [], List.nodup_nil, fun _ member => (nomatch member), fun _ member => (nomatch member),
      holds⟩
  obtain ⟨nodes, devices, lost, after, count⟩ := session.accounts accounts
  obtain ⟨rfl, rfl⟩ := List.append_eq_nil_iff.mp (List.nil_perm.mp after.split)
  exact ⟨lost, after.holds, by simpa using count⟩

end Sessions

/-- A session in which every file is closed again is heap-neutral exactly when
`vfs_open` never allocates a structure. -/
theorem session_neutral {s last : State (Ledger H)} {trace : List (State (Ledger H) × FileEvent)}
    {live : List Nat} (holds : Holds s.heap live) (session : Session s [] trace last []) :
    Ledger.Neutral s.heap last.heap ↔ ∀ entry ∈ trace, entry.2.structure? entry.1 = none := by
  obtain ⟨lost, held, count⟩ := session.leaks holds
  rw [Ledger.neutral_iff holds held, ← List.length_eq_zero_iff, count, List.length_eq_zero_iff]
  exact List.filterMap_eq_nil_iff

/-! ## One file -/

/-- A file is opened and closed. -/
theorem session_one {s t s' : State H} {cwd : Option Nat} {pathname : Name} {flags v f : Nat}
    (found : vfsLookup s cwd pathname = some (t, 0, some v))
    (opened : vfsOpen s cwd pathname flags = some (s', 0, some f)) :
    Session s [] [(s, .opened cwd pathname flags f), (s', .closed f)] (vfsClose s' f).1 [] := by
  refine .open found opened (.close List.mem_cons_self ?_)
  rw [List.erase_cons_head]
  exact .done

theorem succeeded {α : Type} {o : Option (α × Int × Option Nat)}
    (success : (o.map fun r => (r.2.1, r.2.2.isSome)) = some (0, true)) :
    ∃ s v, o = some (s, 0, some v) := by
  obtain ⟨⟨s, result, target⟩, rfl, same⟩ := Option.map_eq_some_iff.mp success
  obtain ⟨rfl, isSome⟩ := Prod.mk.inj same
  obtain ⟨v, rfl⟩ := Option.isSome_iff_exists.mp isSome
  exact ⟨s, v, rfl⟩

/-- A session of one file for which `vfs_open` allocates a structure. -/
theorem session_one_leaks {s last : State (Ledger H)} {live : List Nat} {cwd : Option Nat}
    {pathname : Name} {flags f : Nat} {s' : State (Ledger H)} (holds : Holds s.heap live)
    (session : Session s [] [(s, .opened cwd pathname flags f), (s', .closed f)] last [])
    (allocated : ((vfsLookup s cwd pathname).bind fun outcome =>
      (outcome.1.alloc fileSize).2).isSome) : ¬ Ledger.Neutral s.heap last.heap := by
  intro neutral
  obtain ⟨lost, held, count⟩ := session.leaks holds
  obtain rfl := (Ledger.neutral_iff holds held).mp neutral
  obtain ⟨p, own⟩ := Option.isSome_iff_exists.mp allocated
  have one : (FileEvent.opened cwd pathname flags f).structure? s = some p := own
  simp [structures, one] at count

theorem structure_first {s : State H} {cwd : Option Nat} {pathname : Name} {flags f : Nat}
    {trace : List (State H × FileEvent)}
    (none_ : ∀ entry ∈ (s, .opened cwd pathname flags f) :: trace, entry.2.structure? entry.1 = none) :
    ((vfsLookup s cwd pathname).bind fun outcome => (outcome.1.alloc fileSize).2) = none :=
  none_ _ List.mem_cons_self

/-- The state in which the kernel boots, on any heap. -/
def bootStateOn (h : H) : State H where
  toGraph := emptyState.toGraph
  heap := h
  files := emptyState.files
  filesystems := []

/-- After a start on a new ledger, the ledger agrees with what is in use. -/
theorem bootStateOn_holds {h : H} {s' : State (Ledger H)} (holds : Holds h [])
    (booted : vfsInit (bootStateOn ⟨h, [], false⟩) [] = some s') (running : s'.rootfs ≠ none) :
    ∃ live, Holds s'.heap live := by
  have held : Holds (bootStateOn (⟨h, [], false⟩ : Ledger H)).heap [] := ⟨holds, .refl [], rfl⟩
  have blank : Blank (bootStateOn (⟨h, [], false⟩ : Ledger H)).toGraph [] := fun _ _ => ⟨rfl, rfl⟩
  obtain ⟨_, _, own, sound, _⟩ := vfsInit_sound held blank rfl booted running
  exact ⟨own ++ [], sound.holds⟩

/-- The state after `vfs_init` without an archive, on a heap with a ledger. -/
def ledgerInit : State (Ledger BootHeap) :=
  (vfsInit (bootStateOn ⟨bootHeap, [], false⟩) []).get (by decide +kernel)

theorem ledgerInit_holds : ∃ live, Holds ledgerInit.heap live :=
  bootStateOn_holds bootHeap_holds (Option.some_get _).symm (by decide +kernel)

/-- After the root directory has been opened and closed, a structure is left. -/
theorem session_neutral_root : ∃ (last : State (Ledger BootHeap)) (trace : List _),
    Session ledgerInit [] trace last [] ∧ ¬ Ledger.Neutral ledgerInit.heap last.heap := by
  obtain ⟨live, holds⟩ := ledgerInit_holds
  obtain ⟨t, v, found⟩ := @succeeded _ (vfsLookup ledgerInit none ['/']) (by decide +kernel)
  obtain ⟨s', f, opened⟩ := @succeeded _ (vfsOpen ledgerInit none ['/'] 0) (by decide +kernel)
  have session := session_one found opened
  refine ⟨_, _, session, fun neutral => ?_⟩
  have missing := structure_first ((session_neutral holds session).mp neutral)
  exact absurd missing (by decide +kernel)

/-- A device leaves one, too. -/
theorem uart_leaks : ∃ (last : State (Ledger BootHeap)) (trace : List _),
    Session ledgerInit [] trace last [] ∧ ¬ Ledger.Neutral ledgerInit.heap last.heap := by
  obtain ⟨live, holds⟩ := ledgerInit_holds
  obtain ⟨t, v, found⟩ := @succeeded _
    (vfsLookup ledgerInit none ['/', 'd', 'e', 'v', '/', 'u', 'a', 'r', 't']) (by decide +kernel)
  obtain ⟨s', f, opened⟩ := @succeeded _
    (vfsOpen ledgerInit none ['/', 'd', 'e', 'v', '/', 'u', 'a', 'r', 't'] 0) (by decide +kernel)
  have session := session_one found opened
  exact ⟨_, _, session, session_one_leaks holds session (by decide +kernel)⟩

end OsdiKernel.Fs
