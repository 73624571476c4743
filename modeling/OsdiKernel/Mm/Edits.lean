import Mathlib.Logic.Relation
import OsdiKernel.Mm.Safety

/-!
# The calls as sequences of edits

Between two calls no block is in hand.  Every call of the allocator takes a
block in hand, or withdraws one, and goes on with a few kinds of edits until no
block is in hand again.  A property that every edit preserves is therefore
preserved by every call.
-/

namespace OsdiKernel.Mm

open DyadicBlock Tiling Relation

/-- One edit of a state, with the block that is in hand before and after it. -/
inductive Edit : State × Option Nat → State × Option Nat → Prop where
  | lift {s : State} {T : PageTiling} {L : Nat → List Nat} {c k : Nat}
      (inv : Inv s T L) (member : c ∈ L k) : Edit (s, none) (rmFromFreeList s (some c) k, some c)
  | hold {s : State} {T : PageTiling} {L : Nat → List Nat} {c : Nat}
      (inv : Inv s T L) (null : (s.pageList c).entryInList = none) : Edit (s, none) (s, some c)
  | upper {s : State} {T : PageTiling} {L : Nat → List Nat} {c k : Nat}
      (inv : InvExcept s T L (some c)) (whole : T.order c = some (k + 1)) :
      Edit (s, some c) (enlist s (c + 2 ^ k) k, some c)
  | lower {s : State} {T : PageTiling} {L : Nat → List Nat} {c k : Nat}
      (inv : InvExcept s T L (some c)) (whole : T.order c = some (k + 1)) :
      Edit (s, some c) (enlist s c k, some (c + 2 ^ k))
  | merge {s : State} {T : PageTiling} {L : Nat → List Nat} {c k : Nat}
      (inv : InvExcept s T L (some c)) (orderC : T.order c = some k) (listed : buddy c k ∈ L k) :
      Edit (s, some c) (mergeBuddy s c (buddy c k) (buddy c k) k, some (parent c k))
  | settle {s : State} {T : PageTiling} {L : Nat → List Nat} {c k : Nat}
      (inv : InvExcept s T L (some c)) (orderC : T.order c = some k) :
      Edit (s, some c) (settle s c k, none)
  | enlist {s : State} {T : PageTiling} {L : Nat → List Nat} {c k : Nat}
      (inv : InvExcept s T L (some c)) (orderC : T.order c = some k) :
      Edit (s, some c) (enlist s c k, none)
  | drop {s : State} {T : PageTiling} {L : Nat → List Nat} {c : Nat}
      (inv : InvExcept s T L (some c)) (field : (s.pageList c).order = topOrder) :
      Edit (s, some c) (s, none)
  | withdraw {s : State} {T : PageTiling} {L : Nat → List Nat} {c k : Nat}
      (settled : Settled s T L) (orderC : T.order c = some k) : Edit (s, none) (withdraw s c k, none)

/-- A sequence of edits. -/
abbrev Edits : State × Option Nat → State × Option Nat → Prop := ReflTransGen Edit

/-! ## Allocation -/

section Alloc

variable {s : State} {T : PageTiling} {L : Nat → List Nat} {c i o : Nat}

theorem splitDown_edits (inv : InvExcept s T L (some c)) (orderC : T.order c = some i)
    (idxC : (s.pageList c).idx = c) (wanted : o ≤ i) :
    Edits (s, some c) (splitDown s c o i, some c) := by
  induction i generalizing s T L with
  | zero => exact .refl
  | succ i ih =>
      rcases Nat.lt_or_eq_of_le wanted with larger | same
      · have bounded : i < maxOrder := by
          have top := T.le_top orderC
          have limit := topOrder_lt
          omega
        have first := carve_step inv orderC idxC
        rw [splitDown_step larger bounded idxC]
        exact .head (.upper inv orderC)
          (ih first.inv first.order first.idx (Nat.le_of_lt_succ larger))
      · rw [splitDown, if_neg (Nat.not_lt_of_le (Nat.le_of_eq same.symm))]

theorem takeBlock_edits (inv : Inv s T L) (head : s.freeList i = some c) (bounded : i < maxOrder)
    (wanted : o ≤ i) : Edits (s, none) ((takeBlock s o i c).1, none) := by
  have member := inv.lists.head_mem bounded head
  have lifted := inv.lift member
  have orderC := inv.order_of_mem member
  have idxC : ((rmFromFreeList s (some c) i).pageList c).idx = c := by
    rw [rmFromFreeList_eq s c bounded (inv.lists.head_prev bounded), State.relink_idx]
    exact (inv.listed member).2.2
  obtain ⟨T', L', carved⟩ := splitDown_carved lifted orderC idxC wanted
  rw [takeBlock_eq carved.idx]
  have start : Edits (s, none) (rmFromFreeList s (some c) i, some c) := .single (.lift inv member)
  exact (start.trans (splitDown_edits lifted orderC idxC wanted)).tail
    (.settle carved.inv carved.order)

theorem alloc_edits (inv : Inv s T L) (size : Nat) : Edits (s, none) ((alloc s size).1, none) := by
  unfold alloc
  split
  · exact .refl
  · next valid =>
      have fits : size ≤ maxAllocSize := Nat.le_of_not_lt fun larger => valid (Or.inr larger)
      have limit := Nat.lt_of_le_of_lt (order_le_top fits) topOrder_lt
      dsimp only
      rcases allocLoop_spec s (getOrder (round size)) (maxOrder - getOrder (round size))
        (getOrder (round size)) with ⟨_, result⟩ | ⟨i, c, lower, upper, head, _, result⟩
      · rw [result]
      · rw [result]
        exact takeBlock_edits inv head (by omega) lower

end Alloc

/-! ## Release -/

section Free

variable {s s' : State} {T : PageTiling} {L : Nat → List Nat} {c k left : Nat}

theorem freeLoop_edits (inv : InvExcept s T L (some c)) (orderC : T.order c = some k)
    (field : (s.pageList c).order = k) (fuel : k + left = topOrder)
    (ended : freeLoop s c (buddy c k) k left = some s') : Edits (s, some c) (s', none) := by
  induction left generalizing s T L c k with
  | zero =>
      have atTop : k = topOrder := fuel
      subst atTop
      cases ended
      exact .single (.drop inv field)
  | succ left ih =>
      have below : k < topOrder := by omega
      rcases freeLoop_cases left inv orderC field below with ⟨_, result⟩ | ⟨listed, result⟩
      · rw [result, enlist_eq_putBack (Nat.lt_trans below topOrder_lt)] at ended
        cases ended
        exact .single (.enlist inv orderC)
      · obtain ⟨T₁, L₁, merged⟩ := merge_step inv orderC below listed
        rw [result] at ended
        exact .head (.merge inv orderC listed)
          (ih merged.inv merged.order merged.field (by omega) ended)

theorem free_edits (inv : Inv s T L) (orderC : T.order c = some k)
    (taken : (s.pageList c).entryInList = none) (nonzero : c ≠ 0) :
    Edits (s, none) (free s (c * pageSize), none) := by
  have field : (s.pageList c).order = k := inv.order orderC (by simp)
  have held := inv.hold (inv.absent_of_null taken)
  have ended := (free_spec inv orderC taken nonzero).1
  rw [freeOrFault_inUse inv orderC taken nonzero] at ended
  exact .head (.hold inv taken)
    (freeLoop_edits held orderC field (Nat.add_sub_cancel' (T.le_top orderC)) ended)

end Free

/-! ## Reservation -/

section Reserve

variable {s s' : State} {T T' : PageTiling} {L L' : Nat → List Nat} {c k lo hi : Nat}

theorem split_edits (settled : Settled s T L) (whole : T.order c = some (k + 1)) :
    Edits (s, none) (split s c (k + 1), none) := by
  have bounded : k + 1 < maxOrder := Nat.lt_of_le_of_lt (T.le_top whole) topOrder_lt
  obtain ⟨withdrawn, absent⟩ := settled.withdraw whole
  have held := withdrawn.inv.hold absent
  have null : ((withdraw s c (k + 1 : Nat)).pageList c).entryInList = none := by
    rw [(withdraw_fields bounded (settled.inv.lists.head_prev bounded)).2.2, if_pos rfl]
  rw [split_eq (T.lt_pageNum whole) bounded, buddy_of_aligned (T.aligned whole)]
  have inHand : Edits (s, none) (withdraw s c (k + 1 : Nat), some c) :=
    .tail (.single (.withdraw settled whole)) (.hold withdrawn.inv null)
  exact .tail (inHand.tail (.lower held whole))
    (.enlist (held.splitLower whole) (T.split_order_upper whole))

theorem Splits.edits (splits : Splits lo hi s T L s' T' L') : Edits (s, none) (s', none) := by
  induction splits with
  | nothing => exact .refl
  | split settled whole _ _ ih => exact (split_edits settled whole).trans ih

theorem reserveLoop_edits {i left : Nat} (settled : Settled s T L) (hiInRange : hi < pageNum)
    (head : i ≤ hi → ∃ j, T.order i = some j) (fuel : hi + 1 - i ≤ left) :
    Edits (s, none) (reserveLoop hi left s i, none) := by
  induction left generalizing s L i with
  | zero => exact .refl
  | succ left ih =>
      rcases Nat.lt_or_ge hi i with past | before
      · rw [reserveLoop, if_neg (Nat.not_le_of_lt past)]
      · obtain ⟨j, orderI⟩ := head before
        have positive := Nat.two_pow_pos j
        rw [reserveLoop_step left settled orderI before]
        exact .head (.withdraw settled orderI)
          (ih (settled.withdraw orderI).1 (next_in_range orderI hiInRange) (by omega))

theorem reserve_edits (settled : Settled s T L) {range : Nat × Nat} (valid : ValidRange range) :
    Edits (s, none) (reserve s range.1 range.2, none) := by
  have ordered := firstPage_le valid
  have hiInRange := lastPage_lt valid
  have loInRange := Nat.lt_of_le_of_lt ordered hiInRange
  rw [reserve_eq s valid.1 valid.2]
  obtain ⟨T₁, L₁, splits, fineLo, _⟩ := splitEnds_splits settled loInRange hiInRange
    (AtMost.top T (firstPage range)) (AtMost.top T (lastPage range))
  have refined := splits.refined settled
  exact splits.edits.trans (reserveLoop_edits refined.settled hiInRange
    (fun _ => ⟨0, fineLo.single loInRange⟩) (Nat.le_refl _))

end Reserve

end OsdiKernel.Mm
