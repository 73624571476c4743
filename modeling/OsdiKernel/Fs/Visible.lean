import OsdiKernel.Fs.Invariant

/-!
# What absolute paths reach

A lookup from the root never stops at a vnode that is covered by a mount.  It
sees the children of the vnodes it has seen, or the roots mounted on them.
From each of these, ".." leads back to where the lookup came from.
-/

namespace OsdiKernel.Fs

variable {g : Graph} {root v : Nat} {V : Set Nat}

/-- The vnodes that are seen from the root. -/
inductive Visible (g : Graph) (root : Nat) : Nat → Prop
  | root : Visible g root root
  | child {v e : Nat} (above : Visible g root e) (parent : (g.vnodes v).parent = some e)
      (isChild : (g.vnodes v).parentIsMount = false) (clear : (g.vnodes v).mount = none) :
      Visible g root v
  | mounted {k m t e : Nat} (above : Visible g root e) (parent : (g.vnodes t).parent = some e)
      (on : MountOn g m k t) : Visible g root k

theorem Tree.visible_clear (tree : Tree g root V) (visible : Visible g root v) :
    (g.vnodes v).mount = none := by
  cases visible with
  | root => exact tree.rootMount
  | child _ _ _ clear => exact clear
  | mounted _ _ on => exact on.clear

section Steps

variable {name : Name} {names : List Name} (tree : Tree g root V)
include tree

/-- A name leads to a vnode that is seen, from which ".." leads back. -/
theorem Tree.step_back (member : v ∈ V) (visible : Visible g root v) (isName : IsName name)
    {next : Option Nat} (stepped : step g (some v) name = some (0, next)) :
    ∃ u ∈ V, next = some u ∧ Visible g root u ∧ step g (some u) ['.', '.'] = some (0, some v) := by
  have clear := tree.visible_clear visible
  have crossed : g.cross v = some v := by
    unfold Graph.cross
    rw [clear]
  obtain ⟨ops, hasOps⟩ := tree.ops member
  obtain ⟨n, internal⟩ := tree.internal member
  obtain ⟨found, result, isChild⟩ := tree.find member internal name
  rw [step_name isName crossed hasOps internal, result] at stepped
  split at stepped
  · cases stepped
  · cases found with
    | none => cases stepped
    | some c =>
        obtain ⟨childInTree, parent, notRoot, _⟩ := isChild c rfl
        have next_ : g.cross c = next := by
          cases stepped
          rfl
        cases mount : (g.vnodes c).mount with
        | none =>
            have here : g.cross c = some c := by
              unfold Graph.cross
              rw [mount]
            have other : c ≠ root := by
              rintro rfl
              rw [tree.rootIsMount] at notRoot
              cases notRoot
            obtain ⟨p, _, u, _, parent', _, cases_, up⟩ := tree.step_up childInTree other
            rw [parent] at parent'
            cases parent'
            rcases cases_ with ⟨_, rfl⟩ | ⟨flag, _⟩
            · exact ⟨c, childInTree, next_.symm.trans here, .child visible parent notRoot mount, up⟩
            · rw [notRoot] at flag
              cases flag
        | some m =>
            obtain ⟨k, rootInTree, t, _, on, same⟩ := tree.mount childInTree mount
            have target : t = c := by
              rcases same with same | ⟨p, parent', copied⟩
              · exact same
              · rw [parent] at parent'
                cases parent'
                rw [clear] at copied
                cases copied
            subst target
            have here : g.cross t = some k := by
              unfold Graph.cross
              rw [mount]
              exact on.root
            have other : k ≠ root := by
              rintro rfl
              have none_ := on.parent
              rw [tree.rootParent] at none_
              cases none_
            obtain ⟨p, _, u, _, parent', _, cases_, up⟩ := tree.step_up rootInTree other
            rw [on.parent] at parent'
            cases parent'
            rcases cases_ with ⟨flag, _⟩ | ⟨_, _, above⟩
            · rw [on.isRoot] at flag
              cases flag
            · rw [parent] at above
              cases above
              exact ⟨k, rootInTree, next_.symm.trans here, .mounted visible parent on, up⟩

/-- From a vnode that is seen, ".." leads to another one. -/
theorem Tree.step_up_visible (member : v ∈ V) (visible : Visible g root v) {u : Nat}
    (stepped : step g (some v) ['.', '.'] = some (0, some u)) : Visible g root u := by
  by_cases atRoot : v = root
  · subst atRoot
    rw [tree.step_up_root] at stepped
    cases stepped
    exact visible
  · obtain ⟨p, _, u', _, parent, _, cases_, result⟩ := tree.step_up member atRoot
    rw [result] at stepped
    cases stepped
    cases visible with
    | root => exact absurd rfl atRoot
    | child above parent' isChild _ =>
        rw [parent] at parent'
        cases parent'
        rcases cases_ with ⟨_, rfl⟩ | ⟨flag, _⟩
        · exact above
        · rw [isChild] at flag
          cases flag
    | mounted above parent' on =>
        rw [on.parent] at parent
        cases parent
        rcases cases_ with ⟨flag, _⟩ | ⟨_, _, higher⟩
        · rw [on.isRoot] at flag
          cases flag
        · rw [parent'] at higher
          cases higher
          exact above

/-- A walk over vnodes that are seen succeeds, or fails as a lookup in a directory fails. -/
theorem Tree.walk_visible (member : v ∈ V) (visible : Visible g root v)
    (noDots : ∀ name ∈ names, name ≠ ['.']) {result : Int} {next : Option Nat}
    (walked : walk g (some v) names = some (result, next)) :
    (result = 0 → ∃ u ∈ V, next = some u ∧ Visible g root u) ∧ result ≠ einterr := by
  induction names generalizing v with
  | nil =>
      cases walked
      exact ⟨fun _ => ⟨v, member, rfl, visible⟩, by decide⟩
  | cons name names ih =>
      have notDot := noDots name List.mem_cons_self
      have later := fun x (inRest : x ∈ names) => noDots x (List.mem_cons_of_mem name inRest)
      rw [walk] at walked
      obtain ⟨⟨r, mid⟩, stepped, rest⟩ := Option.bind_eq_some_iff.mp walked
      dsimp only at rest
      by_cases up : name = ['.', '.']
      · subst up
        obtain ⟨u, inTree, up⟩ : ∃ u ∈ V, step g (some v) ['.', '.'] = some (0, some u) := by
          by_cases atRoot : v = root
          · subst atRoot
            exact ⟨v, member, tree.step_up_root⟩
          · obtain ⟨_, _, u, inTree, _, _, _, up⟩ := tree.step_up member atRoot
            exact ⟨u, inTree, up⟩
        rw [up] at stepped
        cases stepped
        rw [if_neg (not_not_intro rfl)] at rest
        exact ih inTree (tree.step_up_visible member visible up) later rest
      · by_cases failed : r = 0
        · subst failed
          obtain ⟨u, inTree, rfl, visible', _⟩ :=
            tree.step_back member visible ⟨notDot, up⟩ stepped
          rw [if_neg (not_not_intro rfl)] at rest
          exact ih inTree visible' later rest
        · rw [if_pos failed] at rest
          cases rest
          refine ⟨fun zero => absurd zero failed, ?_⟩
          obtain ⟨e, inTree, crossed, _⟩ := tree.cross member
          obtain ⟨ops, hasOps⟩ := tree.ops inTree
          obtain ⟨n, internal⟩ := tree.internal inTree
          obtain ⟨found, found_, _⟩ := tree.find inTree internal name
          rw [step_name ⟨notDot, up⟩ crossed hasOps internal, found_] at stepped
          split at stepped
          · cases stepped
            decide
          · cases found <;> cases stepped <;> decide

/-- What a lookup of an absolute path returns. -/
theorem Tree.resolve_visible {cwd target : Option Nat} {pathname : Name} {result : Int}
    (absolute : startsWithSlash pathname = true)
    (resolved : resolve g cwd pathname = some (result, target)) :
    (result = 0 → ∃ v ∈ V, target = some v ∧ Visible g root v) ∧ result ≠ einterr := by
  have starts : StartsAt root cwd pathname root := by
    unfold StartsAt
    rw [if_pos absolute]
  have walked := settle_resolve_of_starts tree starts
  rw [resolved, Option.map_some] at walked
  unfold settle at walked
  have facts := @Tree.walk_visible g root root V (components pathname) tree tree.root_mem .root
    (components_ne_dot pathname)
  by_cases success : result = 0
  · subst success
    rw [if_pos rfl] at walked
    exact facts walked.symm
  · rw [if_neg success] at walked
    exact ⟨fun zero => absurd zero success, (facts walked.symm).2⟩

end Steps

end OsdiKernel.Fs
