import OsdiKernel.Fs.Hiding

/-!
# Creating and looking up again

A file or directory that was created by a path is what the path leads to from
then on, and other paths lead where they led before.  This takes a last
component that is a name, and a directory that no mount covers.
-/

namespace OsdiKernel.Fs

open Allocator (Holds)

variable {H : Type} [Allocator H]

/-! ## The two ways to create -/

/-- The path was created, with the vnode `w`. -/
inductive Makes (s : State H) (cwd : Option Nat) (pathname : Name) (s' : State H) (w : Nat) : Prop
  | mkdir (made : vfsMkdir s cwd pathname = some (s', 0, some w)) : Makes s cwd pathname s' w
  | open {s₁ s₂ : State H} {flags f : Nat} {result : Int} {vnode : Option Nat}
      (opened : vfsOpen s cwd pathname flags = some (s', 0, some f))
      (looked : vfsLookup s cwd pathname = some (s₁, result, vnode)) (failed : result ≠ 0)
      (creates : flags &&& oCreat ≠ 0)
      (created : openCreate s₁ cwd pathname vnode = some (s₂, .ok (0, some w))) :
      Makes s cwd pathname s' w

section Makes

variable {s s' : State H} {root w : Nat} {V : Set Nat} {live : List Nat} {cwd : Option Nat}
  {pathname : Name}

/-- The directory of the path has a new child. -/
theorem Makes.newChild (inv : Inv s root V live) (ok : CwdOk s.toGraph V cwd)
    (made : Makes s cwd pathname s' w) :
    ∃ d new type, ParentOf s.toGraph root cwd pathname d ∧
      NewChild s.toGraph s'.toGraph V live new d w (baseName pathname) type := by
  cases made with
  | mkdir made =>
      rcases (vfsMkdir_spec inv ok made).1 with ⟨failed, _⟩ | ⟨d, parent, outcome⟩
      · exact absurd rfl failed
      · cases outcome with
        | failed nonzero _ _ => exact absurd rfl nonzero
        | made child _ => exact ⟨d, _, _, parent, child⟩
  | @«open» s₁ s₂ flags f result vnode opened looked failed creates created =>
      have looks := (vfsLookup_looked inv.holds looked).1
      have inv₁ := inv.looked looks
      rw [← looks.graph] at ok ⊢
      obtain ⟨⟨d, parent, outcome⟩, _⟩ := openCreate_spec inv₁ ok created
      have last : openVnode s₂ (some w) flags = some (s', 0, some f) := by
        unfold vfsOpen at opened
        rw [looked] at opened
        dsimp only [Option.bind_eq_bind, Option.bind_some] at opened
        rw [if_pos failed, if_pos creates, created] at opened
        exact opened
      cases outcome with
      | failed nonzero _ _ => exact absurd rfl nonzero
      | made child holds =>
          rw [(openVnode_spec holds last).1]
          exact ⟨d, _, _, parent, child⟩

end Makes

/-! ## The last component -/

section LastComponent

variable {pathname : Name} {i k : Nat}

theorem lastSlashLoop_some (found : lastSlashLoop pathname k = some i) :
    i < k ∧ pathname[i]? = some '/' ∧ ∀ j, i < j → j < k → pathname[j]? ≠ some '/' := by
  induction k with
  | zero => cases found
  | succ k ih =>
      unfold lastSlashLoop at found
      split at found
      · next slash =>
          cases found
          exact ⟨Nat.lt_succ_self i, slash, fun j lower upper => by omega⟩
      · next other =>
          obtain ⟨below, slash, later⟩ := ih found
          refine ⟨Nat.lt_succ_of_lt below, slash, fun j lower upper => ?_⟩
          rcases Nat.lt_succ_iff_lt_or_eq.mp upper with before | rfl
          · exact later j lower before
          · exact other

theorem lastSlashLoop_none (missing : lastSlashLoop pathname k = none) (below : i < k) :
    pathname[i]? ≠ some '/' :=
  fun slash => lastSlashLoop_of_slash slash below missing

/-- What follows the last slash has none. -/
theorem baseName_noSlash (pathname : Name) : '/' ∉ baseName pathname := by
  intro member
  obtain ⟨j, below, here⟩ := List.mem_iff_getElem.mp member
  have at_ : (baseName pathname)[j]? = some '/' := by rw [List.getElem?_eq_getElem below, here]
  unfold baseName at at_ below
  cases last : lastSlash pathname with
  | none =>
      rw [last] at at_ below
      exact lastSlashLoop_none last below at_
  | some i =>
      rw [last] at at_ below
      dsimp only at at_ below
      rw [List.getElem?_drop] at at_
      rw [List.length_drop] at below
      exact (lastSlashLoop_some last).2.2 _ (by omega) (by omega) at_

theorem split_at_slash (last : lastSlash pathname = some i) :
    pathname = pathname.take i ++ '/' :: baseName pathname := by
  obtain ⟨below, slash, _⟩ := lastSlashLoop_some last
  unfold baseName
  rw [last]
  have here : pathname[i] = '/' := by
    rw [List.getElem?_eq_getElem below] at slash
    exact Option.some.inj slash
  rw [← here, List.getElem_cons_drop, List.take_append_drop]

/-- The components are those of the directory and the last one. -/
theorem components_parentPath (last : lastSlash pathname = some i) (nonempty : baseName pathname ≠ [])
    (isName : IsName (baseName pathname)) :
    components pathname = components (parentPath pathname i) ++ [baseName pathname] := by
  have isComponent : IsComponent (baseName pathname) :=
    ⟨nonempty, baseName_noSlash pathname, isName⟩
  have parent : components (parentPath pathname i) = components (pathname.take i) := by
    unfold parentPath
    split
    · next zero => rw [zero]; rfl
    · rfl
  rw [parent, ← components_child _ isComponent, ← split_at_slash last]

theorem components_relative (last : lastSlash pathname = none) (nonempty : baseName pathname ≠ [])
    (isName : IsName (baseName pathname)) : components pathname = [baseName pathname] := by
  have isComponent : IsComponent (baseName pathname) :=
    ⟨nonempty, baseName_noSlash pathname, isName⟩
  have whole : baseName pathname = pathname := by
    unfold baseName
    rw [last]
  conv_lhs => rw [← whole]
  exact isComponent.components

theorem startsWithSlash_parentPath_iff (last : lastSlash pathname = some i) :
    startsWithSlash (parentPath pathname i) = startsWithSlash pathname := by
  unfold parentPath
  split
  · next zero =>
      subst zero
      have whole := split_at_slash last
      rw [List.take_zero, List.nil_append] at whole
      rw [whole]
      rfl
  · next positive =>
      obtain ⟨j, rfl⟩ := Nat.exists_eq_succ_of_ne_zero positive
      cases pathname with
      | nil => rfl
      | cons c rest => rfl

end LastComponent

/-! ## The path of the new vnode -/

section Resolution

variable {g g' : Graph} {root d w n : Nat} {V : Set Nat} {cwd : Option Nat} {pathname : Name}

/-- The walk of the path goes through the directory. -/
theorem ParentOf.walk (tree : Tree g root V) (ok : CwdOk g V cwd)
    (parent : ParentOf g root cwd pathname d) (nonempty : baseName pathname ≠ [])
    (isName : IsName (baseName pathname))
    (isSet : startsWithSlash pathname = true ∨ cwd ≠ none) :
    ∃ start above, StartsAt root cwd pathname start ∧
      components pathname = above ++ [baseName pathname] ∧
      Fs.walk g (some start) above = some (0, some d) := by
  unfold ParentOf at parent
  split at parent
  · next last =>
      have relative : ¬ startsWithSlash pathname = true := fun absolute =>
        lastSlash_absolute absolute last
      refine ⟨d, [], ?_, components_relative last nonempty isName, rfl⟩
      unfold StartsAt
      rw [if_neg relative]
      rcases parent with here | ⟨null, _⟩
      · exact here
      · exact (isSet.resolve_left relative null).elim
  · next i last =>
      obtain ⟨v, start, starts, same, _⟩ := resolve_located tree ok parent
      refine ⟨start, components (parentPath pathname i), ?_,
        components_parentPath last nonempty isName, ?_⟩
      · unfold StartsAt at starts ⊢
        rwa [startsWithSlash_parentPath_iff last] at starts
      · rw [← settle_resolve_of_starts tree starts]
        exact map_settle_success parent

theorem walk_last {start : Nat} {above : List Name} {name : Name} {result : Int} {v : Option Nat}
    (before : walk g (some start) above = some (0, some d))
    (last : step g (some d) name = some (result, v)) :
    walk g (some start) (above ++ [name]) = some (settle (result, v)) := by
  rw [walk_append, before]
  dsimp only [Option.bind_some]
  rw [if_neg (not_not_intro rfl), walk, last]
  dsimp only [Option.bind_eq_bind, Option.bind_some]
  unfold settle
  dsimp only
  by_cases success : result = 0
  · rw [if_pos success, if_neg (not_not_intro success), success]
    rfl
  · rw [if_neg success, if_pos success]
    rfl

variable (tree : Tree g root V)
include tree

/-- A name that is not listed is not found. -/
theorem Tree.step_absent {name : Name} (member : d ∈ V) (clear : (g.vnodes d).mount = none)
    (isName : IsName name) (creatable : Creatable g d name) :
    step g (some d) name = some (enoent, some d) := by
  obtain ⟨nd, internal, directory, absent, _⟩ := creatable.directory
  obtain ⟨ops, hasOps⟩ := tree.ops member
  have crossed : g.cross d = some d := by
    unfold Graph.cross
    rw [clear]
  rw [step_name isName crossed hasOps internal, if_neg (not_not_intro directory), absent]
  rfl

end Resolution

/-! ## The effect of a creation -/

/-- The path avoids the place of another one, from its own starting point. -/
def AvoidsPath (g : Graph) (cwd cwd' : Option Nat) (pathname other : Name) : Prop :=
  ∀ root start start' place place', g.rootVnode = some (some root) →
    StartsAt root cwd pathname start → PathOf g root start place →
      StartsAt root cwd' other start' → PathOf g root start' place' →
        Avoids place' (normalise place (components pathname)) (components other)

/-- The path was not found before and now leads to the new vnode.  Paths that
do not go through its place are not affected, whatever the thread. -/
structure CreatedAt (sys : System H) (s' : State H) (thread : Nat) (pathname : Name) (w : Nat) :
    Prop where
  before : lookupOutcome sys.state (sys.cwd thread) pathname =
    some (if CopyAllocated sys.state pathname then enoent else enomem, none)
  isNew : ¬ Linked sys.state.toGraph w
  after : Yields s' (sys.cwd thread) pathname w
  elsewhere : ∀ thread' other,
    AvoidsPath sys.state.toGraph (sys.cwd thread) (sys.cwd thread') pathname other →
      CopyAllocated sys.state other → CopyAllocated s' other →
        lookupOutcome s' (sys.cwd thread') other = lookupOutcome sys.state (sys.cwd thread') other

section Effect

variable {s s' : State H} {root start : Nat} {V : Set Nat} {cwd : Option Nat} {pathname : Name}

theorem lookupOutcome_ite (s : State H) (cwd : Option Nat) (pathname : Name) :
    lookupOutcome s cwd pathname =
      if CopyAllocated s pathname then (resolve s.toGraph cwd pathname).map settle
      else some (enomem, none) := by
  split
  · next allocated => rw [lookupOutcome_eq allocated, settle_resolve]
  · next failed => exact lookupOutcome_of_not_allocated failed

/-- In every state that is reached, what is created by a path is found there. -/
theorem run_created {allowed : System H → Op → Prop} (sys : System H)
    (reached : Reachable allowed sys) (thread : Nat) (pathname : Name) (s' : State H) (w : Nat)
    (made : Makes sys.state (sys.cwd thread) pathname s' w)
    (isName : IsName (baseName pathname))
    (uncovered : CreatesUncovered sys.state.toGraph (sys.cwd thread) pathname)
    (isSet : startsWithSlash pathname = true ∨ sys.cwd thread ≠ none) :
    CreatedAt sys s' thread pathname w := by
  obtain ⟨root, V, own, running⟩ := reached.running
  have tree := running.sound.tree
  have ok := running.cwds thread
  obtain ⟨d, new, type, parent, child⟩ := made.newChild running.sound.inv ok
  obtain ⟨n, _, created, _⟩ := child.created
  obtain ⟨nd, internal, directory, absent, _⟩ := child.creatable.directory
  have clear := uncovered root d tree.rootVnode parent child.creatable
  have tree' := created.isTree tree child.proper
  obtain ⟨start, above, starts, names, walked⟩ :=
    parent.walk tree ok child.creatable.nonempty isName isSet
  obtain ⟨member, proper⟩ := startsAt_mem tree ok starts
  obtain ⟨place, path⟩ := tree.path member
  have aboveDots : ∀ name ∈ above, name ≠ ['.'] := fun name inAbove =>
    components_ne_dot pathname name (names ▸ List.mem_append_left _ inAbove)
  constructor
  · rw [lookupOutcome_ite, settle_resolve_of_starts tree starts, names,
      walk_last walked (tree.step_absent created.dir clear isName child.creatable)]
    split <;> rfl
  · exact fun linked => created.newVnode (tree.linked linked)
  · have found := walk_last (created.walk tree child.proper member proper path aboveDots walked)
      (created.step_new tree child.proper isName clear internal directory absent)
    unfold Yields
    rw [lookupOutcome_ite, settle_resolve_of_starts tree' starts, names, found]
    split <;> rfl
  · intro thread' other avoids allocated allocated'
    rw [lookupOutcome_ite, lookupOutcome_ite, if_pos allocated, if_pos allocated']
    rcases startsAt_or_null root (sys.cwd thread') other with ⟨start', starts'⟩ | ⟨relative, null⟩
    · obtain ⟨member', proper'⟩ := startsAt_mem tree (running.cwds thread') starts'
      obtain ⟨place', path'⟩ := tree.path member'
      rw [settle_resolve_of_starts tree starts', settle_resolve_of_starts tree' starts']
      have off := avoids root start start' place place' tree.rootVnode starts path starts' path'
      obtain ⟨d', _, same, _, pathDir⟩ := tree.walk_located member proper path aboveDots walked
      cases same
      rw [names, normalise_append] at off
      have last : normalise (normalise place above) [baseName pathname] =
          normalise place above ++ [baseName pathname] :=
        normalise_descends _ fun name isLast => by
          rw [List.mem_singleton.mp isLast]
          exact isName.2
      rw [last] at off
      exact walk_frame tree (created.sameOff tree child.proper pathDir) member' proper' path'
        (components_ne_dot other) off
    · rw [null, settle_resolve_of_null relative, settle_resolve_of_null relative]

end Effect

/-! ## A new directory in the root -/

def pathA : Name := ['/', 'a']

/-- The directory, from the state after the start. -/
def freshA : State BootHeap × Int × Option Nat :=
  (vfsMkdir initState none pathA).get (by decide +kernel)

def freshVnode : Nat := freshA.2.2.get (by decide +kernel)

theorem eq_some_get_of {o : Option (State BootHeap × Int × Option Nat)} (isSome : o.isSome)
    {result : Int} {w : Nat} (second : (o.get isSome).2 = (result, some w)) :
    o = some ((o.get isSome).1, result, some w) := eq_some_get isSome second

theorem freshA_made : Makes initState none pathA freshA.1 freshVnode := by
  have outcome : freshA.2 = (0, some freshVnode) := by decide +kernel
  exact .mkdir (eq_some_get_of _ outcome)

theorem run_created_fresh : CreatedAt initSystem freshA.1 0 pathA freshVnode := by
  apply run_created initSystem (@Reachable.boot _ _ (fun _ _ => True) _ init_booted) 0 pathA freshA.1
    freshVnode
  · rw [initSystem_state]
    exact freshA_made
  · exact ⟨by decide +kernel, by decide +kernel⟩
  · rw [initSystem_state]
    intro root d _ parent _
    have isParent : resolve initState.toGraph none ['/'] = some (0, some d) := parent
    obtain ⟨isRoot, uncovered⟩ : resolve initState.toGraph none ['/'] = some (0, some initRoot) ∧
        (initState.vnodes initRoot).mount = none := by decide +kernel
    have same := isRoot.symm.trans isParent
    rw [← Option.some.inj (Prod.mk.inj (Option.some.inj same)).2]
    exact uncovered
  · exact Or.inl (by decide)

/-- The directory "/.", from the state after the start. -/
def dotDirectory : State BootHeap × Int × Option Nat :=
  (vfsMkdir initState none ['/', '.']).get (by decide +kernel)

def dotVnode : Nat := dotDirectory.2.2.get (by decide +kernel)

/-- Through the directory and up again. -/
def throughA : Name := ['/', 'a', '/', '.', '.', '/', 'd', 'e', 'v']

/-- A path that goes through the new directory and up again was not found
before, whatever it normalises to.  A directory named "." was found before,
and one in a covered directory is not found afterwards. -/
theorem created_not_found :
    (∃ sys : System BootHeap, Reachable (fun _ _ => True) sys ∧ ∃ p s' w q,
      Makes sys.state (sys.cwd 0) p s' w ∧ startsWithSlash q = true ∧
        ¬ components p <+: normalise [] (components q) ∧
          CopyAllocated sys.state q ∧ CopyAllocated s' q ∧
            lookupOutcome s' (sys.cwd 0) q ≠ lookupOutcome sys.state (sys.cwd 0) q) ∧
    (∃ sys : System BootHeap, Reachable (fun _ _ => True) sys ∧ ∃ p s' w v,
      Makes sys.state (sys.cwd 0) p s' w ∧
        lookupOutcome sys.state (sys.cwd 0) p = some (0, some v)) ∧
    ∃ sys : System BootHeap, Reachable (fun _ _ => True) sys ∧ ∃ p s' w,
      Makes sys.state (sys.cwd 0) p s' w ∧
        lookupOutcome s' (sys.cwd 0) p = some (enoent, none) := by
  have booted : Reachable (fun _ _ => True) initSystem := .boot init_booted
  refine ⟨⟨initSystem, booted, ?_⟩, ⟨initSystem, booted, ?_⟩,
    mountedSystem, mountedSystem_reachable, ?_⟩
  · rw [initSystem_state]
    obtain ⟨unrelated, before, after, differs⟩ :
        ¬ components pathA <+: normalise [] (components throughA) ∧
          CopyAllocated initState throughA ∧ CopyAllocated freshA.1 throughA ∧
            lookupOutcome freshA.1 none throughA ≠ lookupOutcome initState none throughA := by
      decide +kernel
    exact ⟨pathA, freshA.1, freshVnode, throughA, freshA_made, by decide, unrelated, before, after,
      differs⟩
  · rw [initSystem_state]
    obtain ⟨outcome, found⟩ : dotDirectory.2 = (0, some dotVnode) ∧
        lookupOutcome initState none ['/', '.'] = some (0, some initRoot) := by decide +kernel
    exact ⟨['/', '.'], dotDirectory.1, dotVnode, initRoot, .mkdir (eq_some_get_of _ outcome), found⟩
  · rw [mountedSystem_state, mountedSystem_cwd]
    obtain ⟨outcome, missing⟩ : madeB.2 = (0, some nodeB) ∧
        lookupOutcome madeB.1 enteredA.2.2 ['b'] = some (enoent, none) := by decide +kernel
    exact ⟨['b'], madeB.1, nodeB, .mkdir (eq_some_get_of _ outcome), missing⟩

end OsdiKernel.Fs
