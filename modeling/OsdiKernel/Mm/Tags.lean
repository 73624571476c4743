import OsdiKernel.Mm.Reserve

/-!
# The page tags

The chunk allocator marks its pages in their `cache_order` fields.  No
function of the page allocator touches those fields after `mm_init`.
-/

namespace OsdiKernel.Mm

namespace State

/-- The `cache_order` fields of all pages. -/
def tags (s : State) (i : Nat) : Int := (s.pageList i).cacheOrder

@[simp] theorem tags_retag (s : State) (tags : Nat → Int) : (s.retag tags).tags = tags := rfl

@[simp] theorem tags_setFreeList (s : State) (k : Nat) (head : Option Nat) :
    (s.setFreeList k head).tags = s.tags := rfl

@[simp] theorem tags_modifyPage (s : State) (i : Nat) (f : PageInfo → PageInfo)
    (same : ∀ page, (f page).cacheOrder = page.cacheOrder) :
    (s.modifyPage i f).tags = s.tags := by
  funext j
  unfold tags
  rw [modifyPage_pageList]
  split
  · exact same _
  · rfl

@[simp] theorem tags_modifyAt (s : State) (pointer : Option Nat) (f : PageInfo → PageInfo)
    (same : ∀ page, (f page).cacheOrder = page.cacheOrder) :
    (s.modifyAt pointer f).tags = s.tags := by
  cases pointer with
  | none => rfl
  | some i => exact tags_modifyPage s i f same

/-- Writing one tag is a special case of writing all of them. -/
theorem modifyPage_cacheOrder (s : State) (i : Nat) (tag : Int) :
    (s.modifyPage i fun info => { info with cacheOrder := tag }) =
      s.retag (Function.update s.tags i tag) := by
  unfold modifyPage retag
  rw [State.mk.injEq]
  refine ⟨rfl, funext fun j => ?_⟩
  by_cases same : j = i
  · subst same
    simp
  · simp [same, tags]

end State

@[simp] theorem tags_addToFreeList (s : State) (entry : Option Nat) (order : Int) :
    (addToFreeList s entry order).tags = s.tags := by
  unfold addToFreeList
  split
  · rfl
  · split
    · rfl
    · split <;> simp

@[simp] theorem tags_rmFromFreeList (s : State) (entry : Option Nat) (order : Int) :
    (rmFromFreeList s entry order).tags = s.tags := by
  unfold rmFromFreeList
  split
  · rfl
  · split
    · rfl
    · dsimp only
      split <;> simp

@[simp] theorem tags_splitDown (s : State) (c order i : Nat) :
    (splitDown s c order i).tags = s.tags := by
  induction i generalizing s with
  | zero => rfl
  | succ i ih =>
      unfold splitDown
      split
      · simp [ih]
      · rfl

theorem tags_allocLoop (s : State) (order left i : Nat) :
    (allocLoop s order left i).1.tags = s.tags := by
  induction left generalizing i with
  | zero => rfl
  | succ left ih =>
      unfold allocLoop
      split
      · simp [takeBlock]
      · exact ih (i + 1)

@[simp] theorem tags_alloc (s : State) (size : Nat) : (alloc s size).1.tags = s.tags := by
  unfold alloc
  split
  · rfl
  · exact tags_allocLoop s _ _ _

theorem tags_freeLoop {s s' : State} {curr left : Nat} {buddy order : Int}
    (ended : freeLoop s curr buddy order left = some s') : s'.tags = s.tags := by
  induction left generalizing s curr buddy order with
  | zero =>
      cases ended
      rfl
  | succ left ih =>
      unfold freeLoop at ended
      split at ended
      · split at ended
        · cases ended
        · split at ended
          · split at ended
            · have merged := ih ended
              simpa [mergeBuddy] using merged
            · cases ended
              simp [putBack]
          · cases ended
            simp [putBack]
      · cases ended
        rfl

theorem tags_freeOrFault {s s' : State} {ptr : Nat} (freed : freeOrFault s ptr = some s') :
    s'.tags = s.tags := by
  unfold freeOrFault at freed
  split at freed
  · cases freed
    rfl
  · dsimp only at freed
    split at freed
    · cases freed
      rfl
    · exact tags_freeLoop freed

@[simp] theorem tags_free (s : State) (ptr : Nat) : (free s ptr).tags = s.tags := by
  cases result : freeOrFault s ptr with
  | none => rw [free, result, Option.getD_none]
  | some s' => rw [free_of_some result, tags_freeOrFault result]

/-! ## The boot phase -/

theorem tags_split (s : State) (idx order : Nat) : (split s idx order).tags = s.tags := by
  unfold split
  split
  · rfl
  · simp

theorem tags_splitEnds (startIdx endIdx k : Nat) (s : State) :
    (splitEnds startIdx endIdx k s).tags = s.tags := by
  have atEnd : ∀ s target order, (splitAt s target order).tags = s.tags := by
    intro s target order
    unfold splitAt
    dsimp only
    split
    · exact tags_split _ _ _
    · rfl
  induction k generalizing s with
  | zero => rfl
  | succ k ih =>
      unfold splitEnds
      dsimp only
      rw [ih]
      split
      · exact atEnd _ _ _
      · rw [atEnd, atEnd]

theorem tags_reserveLoop (endIdx left : Nat) (s : State) (i : Nat) :
    (reserveLoop endIdx left s i).tags = s.tags := by
  induction left generalizing s i with
  | zero => rfl
  | succ left ih =>
      unfold reserveLoop
      split
      · dsimp only
        rw [ih]
        split <;> simp
      · rfl

@[simp] theorem tags_reserve (s : State) (start end_ : Nat) :
    (reserve s start end_).tags = s.tags := by
  unfold reserve
  dsimp only
  rw [tags_reserveLoop, tags_splitEnds]

/-- After `mm_init` no page is marked. -/
theorem tags_mmInit {i : Nat} (inRange : i < pageNum) : mmInit.tags i = -1 := by
  unfold State.tags mmInit
  dsimp only
  rw [if_pos inRange]

end OsdiKernel.Mm
