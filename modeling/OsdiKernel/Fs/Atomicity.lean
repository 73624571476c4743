import OsdiKernel.Fs.FailedCreation
import OsdiKernel.Fs.Sessions

/-!
# Calls that fail

`vfs_mkdir` undoes what it has done before it returns an error.  `vfs_mount` marks
the covered vnode before it asks for `setup_mount`, and does not take the mark
back when there is none.  The setup of initramfs releases the data of its root
node, which nothing has initialised, when it cannot allocate the root vnode.
-/

namespace OsdiKernel.Fs

open Allocator (Holds)

/-! ## Nothing has changed -/

section Reverted

variable {H : Type} [Allocator H] {s s' s'' : State H} {live : List Nat} {size p : Nat}

/-- The vnodes, the nodes in use and the pointers in use are as before. -/
structure Reverted (s s' : State H) (live : List Nat) : Prop where
  vnodes : s'.vnodes = s.vnodes
  nodes : ∀ n ∈ live, s'.nodes n = s.nodes n
  holds : Holds s'.heap live

theorem Untraced.reverted (untraced : Untraced s s') (holds : Holds s.heap live) :
    Reverted s s' live where
  vnodes := by rw [untraced.graph]
  nodes _ _ := by rw [untraced.graph]
  holds := untraced.holds live holds

theorem Reverted.after (untraced : Untraced s s') (reverted : Reverted s' s'' live) :
    Reverted s s'' live where
  vnodes := reverted.vnodes.trans (by rw [untraced.graph])
  nodes n member := (reverted.nodes n member).trans (by rw [untraced.graph])
  holds := reverted.holds

/-- Memory that is released again. -/
theorem Reverted.released (between : Reverted (s.alloc size).1 s' (p :: live)) :
    Reverted s (s'.free p) live where
  vnodes := between.vnodes
  nodes n member := between.nodes n (List.mem_cons_of_mem p member)
  holds := free_head between.holds

end Reverted

/-- Nothing is left of a call: the vnodes and the children of all nodes in use are
as before, the same pointers are in use, no other pointer has been released, and
no vnode has got a pointer that is not in use. -/
structure Atomic {H : Type} [Allocator H] (s s' : State (Ledger H)) : Prop where
  vnodes : ∀ v, (s'.vnodes v).mount = (s.vnodes v).mount ∧
    (s'.vnodes v).parent = (s.vnodes v).parent
  children : ∀ n ∈ s.heap.live, (s'.nodes n).children = (s.nodes n).children ∧
    (s'.nodes n).numChildren = (s.nodes n).numChildren
  neutral : Ledger.Neutral s.heap s'.heap
  dangling : ∀ v p, p ∈ (s'.vnodes v).mount ∨ p ∈ (s'.vnodes v).parent ∨
      p ∈ (s'.vnodes v).internal →
    p ∈ s'.heap.live ∨
      p ∉ s.heap.live ∧ (p ∈ (s.vnodes v).mount ∨ p ∈ (s.vnodes v).parent ∨
        p ∈ (s.vnodes v).internal)

theorem Reverted.atomic {H : Type} [Allocator H] {s s' : State (Ledger H)} {live : List Nat}
    (reverted : Reverted s s' live) (holds : Holds s.heap live) : Atomic s s' := by
  have before : s.heap.live.Perm live := Ledger.Holds.ledger holds
  have after : s'.heap.live.Perm live := Ledger.Holds.ledger reverted.holds
  constructor
  · intro v
    rw [reverted.vnodes]
    exact ⟨rfl, rfl⟩
  · intro n member
    rw [reverted.nodes n (before.mem_iff.mp member)]
    exact ⟨rfl, rfl⟩
  · exact ⟨after.trans before.symm, Ledger.Holds.proper reverted.holds⟩
  · intro v p pointer
    rw [reverted.vnodes] at pointer
    by_cases inUse : p ∈ s.heap.live
    · exact Or.inl (after.mem_iff.mpr (before.mem_iff.mp inUse))
    · exact Or.inr ⟨inUse, pointer⟩

variable {H : Type} [Allocator H]

/-! ## Directories -/

section Mkdir

variable {s s' : State H} {live : List Nat} {cwd target target' : Option Nat} {pathname : Name}
  {result : Int}

theorem mkdirParent_untraced (found : mkdirParent s cwd pathname = some (s', result, target)) :
    Untraced s s' := by
  unfold mkdirParent at found
  split at found
  · split at found
    · cases found
      exact .refl s
    · cases found
      exact .refl s
  · rw [lookupParent_eq] at found
    exact vfsLookup_untraced found

theorem mkdir_reverted {ops : FsType} {d : Nat} {name : Name} (holds : Holds s.heap live)
    (made : ops.mkdir s d target name = some (s', result, target')) (failed : result ≠ 0) :
    Reverted s s' live := by
  cases ops with
  | tmpfs =>
      obtain ⟨untouched, held⟩ := tmpfsCreateOrMkdir_failed holds made failed
      exact ⟨untouched.vnodes, untouched.nodes, held⟩
  | initramfs =>
      cases made
      exact (Untraced.refl s).reverted holds

/-- What is in use after a directory was made, or was not. -/
theorem vfsMkdir_outcome (holds : Holds s.heap live)
    (made : vfsMkdir s cwd pathname = some (s', result, target)) :
    Keeps s' live ∧ (result ≠ 0 → Reverted s s' live) := by
  have reverted : Reverted s s' live → Keeps s' live ∧ (result ≠ 0 → Reverted s s' live) :=
    fun same => ⟨⟨[], same.holds⟩, fun _ => same⟩
  unfold vfsMkdir at made
  cases copied : (s.alloc (pathname.length + 1)).2 with
  | none =>
      rw [alloc_eq copied] at made
      cases made
      exact reverted ((untraced_of_failed copied).reverted holds)
  | some pathCopy =>
      rw [alloc_eq copied] at made
      have held := (alloc_some holds copied).2
      obtain ⟨⟨s₁, r, parent⟩, found, made⟩ := Option.bind_eq_some_iff.mp made
      have between := mkdirParent_untraced found
      have early : Reverted s (s₁.free pathCopy) live :=
        Reverted.released (between.reverted held)
      dsimp only at made
      split at made
      · cases made
        exact reverted early
      · split at made
        · cases made
          exact reverted early
        · split at made
          · cases made
            exact reverted early
          · split at made
            · cases made
              exact reverted early
            · obtain ⟨⟨s₂, r₂, child⟩, created, same⟩ := Option.bind_eq_some_iff.mp made
              cases same
              have held₁ := between.holds _ held
              obtain ⟨more, held₂⟩ := mkdir_keeps held₁ created
              exact ⟨⟨more, free_later held₂⟩, fun failed =>
                Reverted.released (Reverted.after between (mkdir_reverted held₁ created failed))⟩

end Mkdir

/-! ## Mounts -/

section Mount

variable {s s' : State H} {live : List Nat} {cwd : Option Nat} {t m : Nat}
  {targetPathname filesystemName : Name} {fsToMount : Filesystem} {result : Int}

/-- If there is memory for the mount, the file system has a setup function; and
if that of initramfs has memory for the root node but not for the root vnode,
then the memory of the root node holds no data pointer. -/
def CleanSetup (s : State H) (fsToMount : Filesystem) : Prop :=
  (s.alloc mountSize).2 ≠ none → ∃ setup, fsToMount.setupMount = some setup ∧
    (setup = .initramfs → ∀ n, ((s.alloc mountSize).1.alloc nodeSize).2 = some n →
      (((s.alloc mountSize).1.alloc nodeSize).1.alloc vnodeSize).2 = none →
        (s.nodes n).data = none)

/-- The same, for a path that can be mounted on. -/
def CleanMount (s : State H) (cwd : Option Nat) (targetPathname filesystemName : Name) : Prop :=
  ∀ fsToMount s' t, s.filesystems.find? (fun fs => fs.name = filesystemName) = some fsToMount →
    mountTarget s cwd targetPathname = some (s', t) → CleanSetup s' fsToMount

theorem mountTarget_untraced (found : mountTarget s cwd targetPathname = some (s', t)) :
    Untraced s s' ∧ (s'.vnodes t).mount = none := by
  obtain ⟨looked, _, free⟩ := mountTarget_iff.mp found
  exact ⟨vfsLookup_untraced looked, not_not.mp (not_or.mp free).1⟩

/-- `vfs_mount` fails in its checks, or goes on. -/
theorem vfsMount_cases
    (mounted : vfsMount s cwd targetPathname filesystemName = some (s', result)) :
    (Untraced s s' ∧ result ≠ 0 ∧ CleanMount s cwd targetPathname filesystemName) ∨
      ∃ fsToMount s₁ t,
        s.filesystems.find? (fun fs => fs.name = filesystemName) = some fsToMount ∧
          mountTarget s cwd targetPathname = some (s₁, t) ∧
            mountOnto s₁ t fsToMount = some (s', result) := by
  unfold vfsMount at mounted
  unfold CleanMount mountTarget
  cases registered : s.filesystems.find? (fun fs => fs.name = filesystemName) with
  | none =>
      rw [registered] at mounted
      cases mounted
      refine Or.inl ⟨.refl s, by decide, fun _ _ _ impossible => ?_⟩
      cases impossible
  | some fsToMount =>
      rw [registered] at mounted
      obtain ⟨⟨s₁, r, v⟩, looked, mounted⟩ := Option.bind_eq_some_iff.mp mounted
      have untraced := vfsLookup_untraced looked
      rw [looked]
      simp only [bind, Option.bind_some] at mounted ⊢
      split at mounted
      · next failed =>
          cases mounted
          refine Or.inl ⟨untraced, failed, fun _ _ _ _ impossible => ?_⟩
          rw [if_pos failed] at impossible
          cases impossible
      · next success =>
          rw [if_neg success]
          cases v with
          | none => cases mounted
          | some t =>
              simp only [Option.bind_some] at mounted ⊢
              split at mounted
              · next noOps =>
                  cases mounted
                  refine Or.inl ⟨untraced, by decide, fun _ _ _ _ impossible => ?_⟩
                  rw [if_pos noOps] at impossible
                  cases impossible
              · next hasOps =>
                  rw [if_neg hasOps]
                  split at mounted
                  · next busy =>
                      cases mounted
                      refine Or.inl ⟨untraced, by decide, fun _ _ _ _ impossible => ?_⟩
                      rw [if_pos busy] at impossible
                      cases impossible
                  · next free =>
                      rw [if_neg free]
                      exact Or.inr ⟨fsToMount, s₁, t, rfl, rfl, mounted⟩

/-- The setup of initramfs has no memory for the root node, or for the root
vnode, or it succeeds. -/
theorem initramfsSetupMount_cases (s : State H) (m : Nat) :
    ((s.alloc nodeSize).2 = none ∧ initramfsSetupMount s m = ((s.alloc nodeSize).1, enomem)) ∨
      ∃ n, (s.alloc nodeSize).2 = some n ∧
        (((s.alloc nodeSize).1.alloc vnodeSize).2 = none ∧
            initramfsSetupMount s m =
              (((((s.alloc nodeSize).1.alloc vnodeSize).1.setMount m ⟨none⟩).freePtr
                (s.nodes n).data).free n, enomem) ∨
          ∃ k, ((s.alloc nodeSize).1.alloc vnodeSize).2 = some k ∧
            (initramfsSetupMount s m).2 = 0 ∧
              (initramfsSetupMount s m).1.heap =
                ((s.alloc nodeSize).1.alloc vnodeSize).1.heap) := by
  unfold initramfsSetupMount
  cases first : (s.alloc nodeSize).2 with
  | none =>
      rw [alloc_eq first]
      exact Or.inl ⟨rfl, rfl⟩
  | some n =>
      right
      rw [alloc_eq first]
      refine ⟨n, rfl, ?_⟩
      unfold setupRoot
      dsimp only
      cases second : ((s.alloc nodeSize).1.alloc vnodeSize).2 with
      | none =>
          rw [alloc_eq second]
          exact Or.inl ⟨rfl, rfl⟩
      | some k =>
          rw [alloc_eq second]
          exact Or.inr ⟨k, rfl, rfl, rfl⟩

theorem initramfsSetupMount_outcome (holds : Holds s.heap live) (m : Nat)
    (clean : ∀ n, (s.alloc nodeSize).2 = some n →
      ((s.alloc nodeSize).1.alloc vnodeSize).2 = none → (s.nodes n).data = none) :
    ((initramfsSetupMount s m).2 = 0 ∧ Keeps (initramfsSetupMount s m).1 live) ∨
      (initramfsSetupMount s m).2 ≠ 0 ∧ Reverted s (initramfsSetupMount s m).1 live := by
  rcases initramfsSetupMount_cases s m with
    ⟨first, failed⟩ | ⟨n, first, ⟨second, failed⟩ | ⟨k, second, success, heap⟩⟩
  · rw [failed]
    exact Or.inr ⟨show enomem ≠ 0 by decide, (untraced_of_failed first).reverted holds⟩
  · have held := alloc_none (alloc_some holds first).2 second
    rw [failed, clean n first second]
    exact Or.inr ⟨show enomem ≠ 0 by decide, rfl, fun _ _ => rfl, free_head held⟩
  · left
    refine ⟨success, [k, n], ?_⟩
    rw [heap]
    exact (alloc_some (alloc_some holds first).2 second).2

theorem tmpfsSetupMount_outcome (holds : Holds s.heap live) (m : Nat) :
    ((tmpfsSetupMount s m).2 = 0 ∧ Keeps (tmpfsSetupMount s m).1 live) ∨
      (tmpfsSetupMount s m).2 ≠ 0 ∧ Reverted s (tmpfsSetupMount s m).1 live := by
  obtain ⟨outcome, _⟩ := tmpfsSetupMount_spec holds m
  generalize (tmpfsSetupMount s m).2 = r at *
  cases outcome with
  | failed nonzero vnodes nodes mounts held => exact Or.inr ⟨nonzero, vnodes, nodes, held⟩
  | @done k n node fOps new _ _ _ _ _ _ _ held => exact Or.inl ⟨rfl, new, held⟩

/-- The state in which `vfs_mount` calls the setup function. -/
def cover (s : State H) (t m : Nat) : State H :=
  (s.setMount m ⟨none⟩).setVnode t { s.vnodes t with mount := some m }

/-- A setup that fails is undone. -/
theorem Reverted.uncover (clear : (s.vnodes t).mount = none)
    (reverted : Reverted (cover s t m) s' live) :
    Reverted s (s'.setVnode t { s'.vnodes t with mount := none }) live where
  vnodes := by
    change Function.update s'.vnodes t { s'.vnodes t with mount := none } = s.vnodes
    rw [reverted.vnodes]
    change Function.update (Function.update s.vnodes t { s.vnodes t with mount := some m }) t
      { Function.update s.vnodes t { s.vnodes t with mount := some m } t with mount := none } =
        s.vnodes
    rw [Function.update_self, Function.update_idem, Function.update_eq_self_iff, ← clear]
  nodes := reverted.nodes
  holds := reverted.holds

/-- What is in use after a clean setup: it fails and is undone, or it succeeds. -/
theorem mountOnto_outcome (holds : Holds s.heap live) (clear : (s.vnodes t).mount = none)
    (clean : CleanSetup s fsToMount) (mounted : mountOnto s t fsToMount = some (s', result)) :
    Keeps s' live ∧ (result ≠ 0 → Reverted s s' live) := by
  unfold mountOnto at mounted
  cases allocated : (s.alloc mountSize).2 with
  | none =>
      rw [alloc_eq allocated] at mounted
      cases mounted
      have untraced := (untraced_of_failed allocated).reverted holds
      exact ⟨⟨[], untraced.holds⟩, fun _ => untraced⟩
  | some m =>
      have held : Holds (cover (s.alloc mountSize).1 t m).heap (m :: live) :=
        (alloc_some holds allocated).2
      obtain ⟨setup, isSetup, noData⟩ := clean (by rw [allocated]; simp)
      rw [alloc_eq allocated] at mounted
      dsimp only at mounted
      rw [isSetup] at mounted
      change (if (setup.setupMount (cover (s.alloc mountSize).1 t m) m).2 ≠ 0 then
          some (((setup.setupMount (cover (s.alloc mountSize).1 t m) m).1.setVnode t
            { (setup.setupMount (cover (s.alloc mountSize).1 t m) m).1.vnodes t with
              mount := none }).free m,
            (setup.setupMount (cover (s.alloc mountSize).1 t m) m).2)
        else _) = some (s', result) at mounted
      have outcome : ((setup.setupMount (cover (s.alloc mountSize).1 t m) m).2 = 0 ∧
            Keeps (setup.setupMount (cover (s.alloc mountSize).1 t m) m).1 (m :: live)) ∨
          (setup.setupMount (cover (s.alloc mountSize).1 t m) m).2 ≠ 0 ∧
            Reverted (cover (s.alloc mountSize).1 t m)
              (setup.setupMount (cover (s.alloc mountSize).1 t m) m).1 (m :: live) := by
        cases setup with
        | tmpfs => exact tmpfsSetupMount_outcome held m
        | initramfs => exact initramfsSetupMount_outcome held m (noData rfl)
      rcases outcome with ⟨success, more, held'⟩ | ⟨failed, reverted⟩
      · rw [if_neg (not_not_intro success)] at mounted
        obtain ⟨root, _, same⟩ := Option.bind_eq_some_iff.mp mounted
        cases same
        exact ⟨⟨more ++ [m], by rw [List.append_assoc]; exact held'⟩, fun nonzero =>
          absurd rfl nonzero⟩
      · rw [if_pos failed] at mounted
        cases mounted
        have undone : Reverted s _ live :=
          Reverted.released (reverted.uncover (s := (s.alloc mountSize).1) clear)
        exact ⟨⟨[], undone.holds⟩, fun _ => undone⟩

theorem vfsMount_outcome (holds : Holds s.heap live)
    (clean : CleanMount s cwd targetPathname filesystemName)
    (mounted : vfsMount s cwd targetPathname filesystemName = some (s', result)) :
    Keeps s' live ∧ (result ≠ 0 → Reverted s s' live) := by
  rcases vfsMount_cases mounted with ⟨untraced, _, _⟩ | ⟨fs, s₁, t, found, target, mounted⟩
  · have reverted := untraced.reverted holds
    exact ⟨⟨[], reverted.holds⟩, fun _ => reverted⟩
  · obtain ⟨untraced, clear⟩ := mountTarget_untraced target
    obtain ⟨keeps, reverted⟩ := mountOnto_outcome (untraced.holds live holds) clear
      (clean fs s₁ t found target) mounted
    exact ⟨keeps, fun failed => (reverted failed).after untraced⟩

end Mount

/-! ## Calls that leave something -/

section Unclean

variable {s s' : State (Ledger H)} {live : List Nat} {cwd : Option Nat} {t : Nat}
  {targetPathname filesystemName : Name} {fsToMount : Filesystem} {result : Int}

/-- Releasing a pointer besides the two that were allocated is a misuse, or
takes a pointer out of use that was in use before. -/
theorem stray_release {h : Ledger H} {m n q : Nat} (holds : Holds h (n :: m :: live)) :
    ¬ ((Allocator.free (Allocator.free (Allocator.free h q) n) m).live.Perm live ∧
      (Allocator.free (Allocator.free (Allocator.free h q) n) m).misused = false) := by
  rintro ⟨same, proper⟩
  obtain ⟨proper₂, third⟩ := Ledger.free_length proper
  obtain ⟨proper₁, second⟩ := Ledger.free_length proper₂
  obtain ⟨_, first⟩ := Ledger.free_length proper₁
  have start : h.live.Perm (n :: m :: live) := Ledger.Holds.ledger holds
  have before := start.length_eq
  have after := same.length_eq
  simp only [List.length_cons] at before
  omega

/-- Without a setup function, or with stray data in the root node, something is left. -/
theorem mountOnto_unclean (holds : Holds s.heap live)
    (unclean : ¬ CleanSetup s fsToMount) (mounted : mountOnto s t fsToMount = some (s', result)) :
    (∃ m, (s'.vnodes t).mount = some m) ∨
      ¬ (s'.heap.live.Perm live ∧ s'.heap.misused = false) := by
  obtain ⟨memory, unclean⟩ := Classical.not_imp.mp unclean
  obtain ⟨m, allocated⟩ := Option.ne_none_iff_exists'.mp memory
  unfold mountOnto at mounted
  rw [alloc_eq allocated] at mounted
  dsimp only at mounted
  cases isSetup : fsToMount.setupMount with
  | none =>
      rw [isSetup] at mounted
      cases mounted
      refine Or.inl ⟨m, ?_⟩
      change (Function.update s.vnodes t { s.vnodes t with mount := some m } t).mount = some m
      rw [Function.update_self]
  | some setup =>
      right
      rw [isSetup] at mounted
      have stray := not_exists.mp unclean setup
      rw [not_and, Classical.not_imp] at stray
      obtain ⟨rfl, data⟩ := stray isSetup
      obtain ⟨n, data⟩ := not_forall.mp data
      obtain ⟨first, data⟩ := Classical.not_imp.mp data
      obtain ⟨second, hasData⟩ := Classical.not_imp.mp data
      obtain ⟨q, isData⟩ := Option.ne_none_iff_exists'.mp hasData
      have held := alloc_none (alloc_some (alloc_some holds allocated).2 first).2 second
      have failed := initramfsSetupMount_cases (cover (s.alloc mountSize).1 t m) m
      have sameFirst : ((cover (s.alloc mountSize).1 t m).alloc nodeSize).2 = some n := first
      rcases failed with ⟨impossible, _⟩ | ⟨n', first', ⟨_, failed⟩ | ⟨k, impossible, _⟩⟩
      · rw [sameFirst] at impossible
        cases impossible
      · rw [sameFirst] at first'
        cases first'
        change (if (initramfsSetupMount (cover (s.alloc mountSize).1 t m) m).2 ≠ 0 then
            some (((initramfsSetupMount (cover (s.alloc mountSize).1 t m) m).1.setVnode t
              { (initramfsSetupMount (cover (s.alloc mountSize).1 t m) m).1.vnodes t with
                mount := none }).free m,
              (initramfsSetupMount (cover (s.alloc mountSize).1 t m) m).2)
          else _) = some (s', result) at mounted
        have nonzero : (initramfsSetupMount (cover (s.alloc mountSize).1 t m) m).2 ≠ 0 := by
          rw [failed]
          exact show enomem ≠ 0 by decide
        rw [if_pos nonzero, failed] at mounted
        cases mounted
        have data : ((cover (s.alloc mountSize).1 t m).nodes n).data = some q := isData
        rw [data]
        exact stray_release held
      · have sameSecond : (((cover (s.alloc mountSize).1 t m).alloc nodeSize).1.alloc
            vnodeSize).2 = none := second
        rw [sameSecond] at impossible
        cases impossible

/-- A mount that fails leaves nothing exactly when the setup is clean. -/
theorem vfsMount_atomic_iff (holds : Holds s.heap live)
    (mounted : vfsMount s cwd targetPathname filesystemName = some (s', result))
    (failed : result ≠ 0) :
    Atomic s s' ↔ CleanMount s cwd targetPathname filesystemName := by
  constructor
  · intro atomic
    rcases vfsMount_cases mounted with ⟨_, _, clean⟩ | ⟨fs, s₁, t, found, target, mounted⟩
    · exact clean
    · intro fs' s₁' t' found' target'
      rw [found] at found'
      cases found'
      rw [target] at target'
      cases target'
      by_contra unclean
      obtain ⟨untraced, clear⟩ := mountTarget_untraced target
      rcases mountOnto_unclean (untraced.holds live holds) unclean mounted with
        ⟨m, covered⟩ | strayed
      · have same := (atomic.vnodes t).1
        rw [covered, ← untraced.graph, clear] at same
        cases same
      · exact strayed ⟨atomic.neutral.1.trans (Ledger.Holds.ledger holds), atomic.neutral.2⟩
  · intro clean
    exact ((vfsMount_outcome holds clean mounted).2 failed).atomic holds

end Unclean

/-! ## Runs -/

section Runs

variable {s s' : State H} {others live : List Nat} {cwd : Option Nat} {pathname : Name}
  {fOps : FileOps} {result : Int}

/-- The states after a boot and any calls, with the pointers that the rest of the
kernel has in use.  Any file system may be registered; the mounts are clean. -/
inductive Served : State H → List Nat → Prop
  | boot {sys : System H} (booted : Booted sys) : Served sys.state sys.others
  | register {s : State H} {others : List Nat} (earlier : Served s others) (fs : Filesystem) :
      Served (registerFilesystem s fs).1 others
  | lookup {s s' : State H} {others : List Nat} {cwd target : Option Nat} {pathname : Name}
      {result : Int} (earlier : Served s others)
      (looked : vfsLookup s cwd pathname = some (s', result, target)) : Served s' others
  | mkdir {s s' : State H} {others : List Nat} {cwd target : Option Nat} {pathname : Name}
      {result : Int} (earlier : Served s others)
      (made : vfsMkdir s cwd pathname = some (s', result, target)) : Served s' others
  | open {s s' : State H} {others : List Nat} {cwd target : Option Nat} {pathname : Name}
      {flags : Nat} {result : Int} (earlier : Served s others)
      (opened : vfsOpen s cwd pathname flags = some (s', result, target)) :
      Served s' (if result = 0 then target.toList ++ others else others)
  | mknod {s s' : State H} {others : List Nat} {cwd : Option Nat} {pathname : Name}
      {fOps : FileOps} {result : Int} (earlier : Served s others)
      (made : vfsMknod s cwd pathname fOps = some (s', result)) : Served s' others
  | mount {s s' : State H} {others : List Nat} {cwd : Option Nat}
      {targetPathname filesystemName : Name} {result : Int} (earlier : Served s others)
      (clean : CleanMount s cwd targetPathname filesystemName)
      (mounted : vfsMount s cwd targetPathname filesystemName = some (s', result)) :
      Served s' others
  | close {s : State H} {others : List Nat} {file : Nat} (earlier : Served s others)
      (inUse : file ∈ others) : Served (vfsClose s file).1 (others.erase file)
  | alloc {s : State H} {others : List Nat} (earlier : Served s others) (size : Nat) :
      Served (s.alloc size).1 ((s.alloc size).2.toList ++ others)
  | free {s : State H} {others : List Nat} {p : Nat} (earlier : Served s others)
      (inUse : p ∈ others) : Served (s.free p) (others.erase p)

theorem vfsMknod_keeps (holds : Holds s.heap live)
    (made : vfsMknod s cwd pathname fOps = some (s', result)) : Keeps s' live := by
  unfold vfsMknod at made
  obtain ⟨⟨s₁, r, dev⟩, opened, rest⟩ := Option.bind_eq_some_iff.mp made
  have opens := vfsOpen_opens holds opened
  dsimp only at rest
  split at rest
  · next failed =>
      cases rest
      exact opens.failed failed
  · next success =>
      obtain ⟨f, leaked, rfl, held⟩ := opens.opened (not_not.mp success)
      obtain ⟨dev, isDev, last⟩ := Option.bind_eq_some_iff.mp rest
      cases isDev
      obtain ⟨v, _, last⟩ := Option.bind_eq_some_iff.mp last
      have closes := Option.some.inj last
      have held' : Holds (s₁.setVnode v { s₁.vnodes v with fOps := some fOps }).heap
          (f :: (leaked ++ live)) := held
      obtain ⟨_, _, kept, after⟩ := vfsClose_spec held'
      rw [closes] at after
      exact ⟨kept ++ leaked, by rwa [List.append_assoc]⟩

omit [Allocator H] in
theorem registerFilesystem_heap (s : State H) (fs : Filesystem) :
    (registerFilesystem s fs).1.heap = s.heap := by
  unfold registerFilesystem
  split
  · split <;> rfl
  · rfl

/-- A pointer of the rest of the kernel, moved to the front. -/
theorem move_front {own : List Nat} {p : Nat} (inUse : p ∈ others)
    (holds : Holds s.heap (own ++ others)) : Holds s.heap (p :: (own ++ others.erase p)) :=
  Allocator.perm holds
    (((List.perm_cons_erase inUse).append_left own).trans List.perm_middle)

/-- In every run the pointers in use are known: those of the rest of the kernel, and more. -/
theorem Served.holds (served : Served s others) : ∃ own, Holds s.heap (own ++ others) := by
  have keeps : ∀ {s' : State H} {own others : List Nat}, Keeps s' (own ++ others) →
      ∃ own, Holds s'.heap (own ++ others) := by
    rintro s' own others ⟨more, held⟩
    exact ⟨more ++ own, by rwa [List.append_assoc]⟩
  induction served with
  | boot booted =>
      obtain ⟨_, _, own, running, _⟩ := booted.running
      exact ⟨own, running.sound.holds⟩
  | register earlier fs ih =>
      obtain ⟨own, holds⟩ := ih
      exact ⟨own, by rwa [registerFilesystem_heap]⟩
  | lookup earlier looked ih =>
      obtain ⟨own, holds⟩ := ih
      exact ⟨own, (vfsLookup_looked holds looked).1.holds⟩
  | mkdir earlier made ih =>
      obtain ⟨own, holds⟩ := ih
      exact keeps (vfsMkdir_outcome holds made).1
  | «open» earlier opened ih =>
      obtain ⟨own, holds⟩ := ih
      have opens := vfsOpen_opens holds opened
      split
      · next success =>
          obtain ⟨f, leaked, rfl, held⟩ := opens.opened success
          refine ⟨leaked ++ own, Allocator.perm held ?_⟩
          rw [Option.toList_some, List.singleton_append, ← List.append_assoc]
          exact List.perm_middle.symm
      · next failed => exact keeps (opens.failed failed)
  | mknod earlier made ih =>
      obtain ⟨own, holds⟩ := ih
      exact keeps (vfsMknod_keeps holds made)
  | mount earlier clean mounted ih =>
      obtain ⟨own, holds⟩ := ih
      exact keeps (vfsMount_outcome holds clean mounted).1
  | close earlier inUse ih =>
      obtain ⟨own, holds⟩ := ih
      obtain ⟨_, _, kept, held⟩ := vfsClose_spec (move_front inUse holds)
      exact keeps ⟨kept, held⟩
  | alloc earlier size ih =>
      obtain ⟨own, holds⟩ := ih
      refine ⟨own, Allocator.perm (alloc_holds holds size) ?_⟩
      rw [← List.append_assoc, ← List.append_assoc]
      exact List.perm_append_comm.append_right _
  | free earlier inUse ih =>
      obtain ⟨own, holds⟩ := ih
      exact ⟨own, free_head (move_front inUse holds)⟩

end Runs

/-- In every run, a call of `vfs_mkdir` that fails leaves nothing, and so does a
call of `vfs_mount` exactly when its setup is clean. -/
theorem failed_call_atomic_iff {s : State (Ledger H)} {others : List Nat}
    (served : Served s others) :
    (∀ cwd pathname s' result target,
      vfsMkdir s cwd pathname = some (s', result, target) → result ≠ 0 → Atomic s s') ∧
    ∀ cwd targetPathname filesystemName s' result,
      vfsMount s cwd targetPathname filesystemName = some (s', result) → result ≠ 0 →
        (Atomic s s' ↔ CleanMount s cwd targetPathname filesystemName) := by
  obtain ⟨own, holds⟩ := served.holds
  constructor
  · intro cwd pathname s' result target made failed
    exact ((vfsMkdir_outcome holds made).2 failed).atomic holds
  · intro cwd targetPathname filesystemName s' result mounted failed
    exact vfsMount_atomic_iff holds mounted failed

theorem bootStateOn_served {h : H} {s' : State (Ledger H)} (holds : Holds h [])
    (booted : vfsInit (bootStateOn ⟨h, [], false⟩) [] = some s') (running : s'.rootfs ≠ none) :
    Served s' [] := by
  have held : Holds (bootStateOn (⟨h, [], false⟩ : Ledger H)).heap [] := ⟨holds, .refl [], rfl⟩
  have blank : Blank (bootStateOn (⟨h, [], false⟩ : Ledger H)).toGraph [] := fun _ _ => ⟨rfl, rfl⟩
  exact Served.boot (Booted.init held blank rfl booted running)

/-- The kernel has just booted, on a heap with a ledger. -/
theorem ledgerInit_served : Served ledgerInit [] :=
  bootStateOn_served bootHeap_holds (Option.some_get _).symm (by decide +kernel)

theorem failed_call_atomic_boot :
    (∀ cwd pathname s' result target,
      vfsMkdir ledgerInit cwd pathname = some (s', result, target) → result ≠ 0 →
        Atomic ledgerInit s') ∧
    ∀ cwd targetPathname filesystemName s' result,
      vfsMount ledgerInit cwd targetPathname filesystemName = some (s', result) → result ≠ 0 →
        (Atomic ledgerInit s' ↔ CleanMount ledgerInit cwd targetPathname filesystemName) :=
  failed_call_atomic_iff ledgerInit_served

/-- A file system without a setup function has been registered. -/
def plainInit : State (Ledger BootHeap) :=
  (registerFilesystem ledgerInit ⟨['p', 'l', 'a', 'i', 'n'], none⟩).1

/-- The vnode of "/dev". -/
def plainDev : Nat :=
  ((resolve plainInit.toGraph none ['/', 'd', 'e', 'v']).bind fun outcome => outcome.2).get
    (by decide +kernel)

/-- The mount fails and leaves the released structure in the vnode. -/
theorem failed_mount_leaves_mark : ∃ s', Served plainInit [] ∧
    vfsMount plainInit none ['/', 'd', 'e', 'v'] ['p', 'l', 'a', 'i', 'n'] = some (s', enosys) ∧
      ¬ Atomic plainInit s' := by
  have served : Served plainInit [] := ledgerInit_served.register _
  obtain ⟨fails, before⟩ :
      (vfsMount plainInit none ['/', 'd', 'e', 'v'] ['p', 'l', 'a', 'i', 'n']).map
          (fun outcome => (outcome.2, (outcome.1.vnodes plainDev).mount.isSome)) =
        some (enosys, true) ∧ (plainInit.vnodes plainDev).mount = none := by
    decide +kernel
  obtain ⟨⟨s', result⟩, mounted, same⟩ := Option.map_eq_some_iff.mp fails
  obtain ⟨rfl, covered⟩ := Prod.mk.inj same
  refine ⟨s', served, mounted, fun atomic => ?_⟩
  rw [(atomic.vnodes plainDev).1, before] at covered
  cases covered

end OsdiKernel.Fs
