import Mathlib.Data.List.ReduceOption

/-!
# Pathnames

A pathname is copied into a buffer, and the tokeniser cuts the copy into
components by storing a terminating null in place of a slash.  Whatever the
slashes, the components it delivers are the nonempty pieces between them.
-/

namespace OsdiKernel.Fs

/-- A string, without its terminating null. -/
abbrev Name : Type := List Char

/-! ## The tokeniser -/

/-- The bytes of a buffer; none is the null that ends a string. -/
abbrev Buffer : Type := List (Option Char)

def strdup (s : Name) : Buffer := s.map some ++ [none]

def charAt (buf : Buffer) (i : Nat) : Option Char := buf.getD i none

/-- The string that starts at a position of the buffer. -/
def stringAt (buf : Buffer) (i : Nat) : Name := ((buf.drop i).takeWhile Option.isSome).reduceOption

/-- The loop that skips slashes; the fuel bounds the number of iterations. -/
def skipSlashes (buf : Buffer) : Nat → Nat → Nat
  | 0, component => component
  | fuel + 1, component =>
      if charAt buf component = some '/' then skipSlashes buf fuel (component + 1) else component

/-- The loop that looks for the end of a component. -/
def findEnd (buf : Buffer) : Nat → Nat → Nat
  | 0, stop => stop
  | fuel + 1, stop =>
      if charAt buf stop ≠ none ∧ charAt buf stop ≠ some '/' then findEnd buf fuel (stop + 1)
      else stop

/-- The results are the buffer, the new value of `*path_ptr` and the component. -/
def getNextComponent (buf : Buffer) (pathPtr : Nat) : Buffer × Nat × Option Nat :=
  if charAt buf pathPtr = none then (buf, pathPtr, none)
  else
    let component := skipSlashes buf buf.length pathPtr
    if charAt buf component = none then (buf, component, none)
    else
      let stop := findEnd buf buf.length component
      if charAt buf stop = some '/' then (buf.set stop none, stop + 1, some component)
      else (buf, stop, some component)

/-! ## Components -/

/-- The nonempty pieces between slashes. -/
def tokens (path : Name) : List Name := (path.splitOn '/').filter (· ≠ [])

/-- The components that take part in a lookup. -/
def components (path : Name) : List Name := (tokens path).filter (· ≠ ['.'])

def startsWithSlash (path : Name) : Bool := path.head? = some '/'

@[simp] theorem tokens_nil : tokens [] = [] := rfl

theorem tokens_append (p q : Name) : tokens (p ++ '/' :: q) = tokens p ++ tokens q := by
  unfold tokens
  rw [List.splitOn_append_cons_self, List.filter_append]

@[simp] theorem tokens_slash (p : Name) : tokens ('/' :: p) = tokens p := tokens_append [] p

theorem tokens_single {name : Name} (nonempty : name ≠ []) (noSlash : '/' ∉ name) :
    tokens name = [name] := by
  unfold tokens
  rw [List.splitOn_eq_singleton noSlash, List.filter_cons_of_pos (by simpa using nonempty),
    List.filter_nil]

theorem tokens_cons {name : Name} (nonempty : name ≠ []) (noSlash : '/' ∉ name) (rest : Name) :
    tokens (name ++ '/' :: rest) = name :: tokens rest := by
  rw [tokens_append, tokens_single nonempty noSlash, List.singleton_append]

theorem tokens_dropSlashes (p : Name) : tokens (p.dropWhile (· == '/')) = tokens p := by
  induction p with
  | nil => rfl
  | cons c p ih =>
      by_cases slash : c = '/'
      · subst slash
        rw [List.dropWhile_cons_of_pos (by decide), ih, tokens_slash]
      · rw [List.dropWhile_cons_of_neg (by simpa using slash)]

theorem components_append (p q : Name) : components (p ++ '/' :: q) = components p ++ components q := by
  unfold components
  rw [tokens_append, List.filter_append]

/-! ## What the tokeniser delivers -/

/-- The string that is left in the buffer from a position on. -/
def Reads (buf : Buffer) (i : Nat) (rest : Name) : Prop := buf.drop i = strdup rest

theorem reads_strdup (path : Name) : Reads (strdup path) 0 path := rfl

section Reads

variable {buf : Buffer} {i : Nat} {c : Char} {rest : Name}

theorem charAt_eq (buf : Buffer) (i : Nat) : charAt buf i = (buf.drop i).head?.getD none := by
  unfold charAt
  rw [List.getD_eq_getElem?_getD, List.head?_drop]

theorem Reads.charAt_nil (reads : Reads buf i []) : charAt buf i = none := by
  rw [charAt_eq, reads]
  rfl

theorem Reads.charAt_cons (reads : Reads buf i (c :: rest)) : charAt buf i = some c := by
  rw [charAt_eq, reads]
  rfl

theorem Reads.next (reads : Reads buf i (c :: rest)) : Reads buf (i + 1) rest := by
  unfold Reads at *
  rw [← List.drop_drop, reads]
  rfl

theorem Reads.length (reads : Reads buf i rest) : rest.length < buf.length := by
  have lengths := congrArg List.length reads
  unfold strdup at lengths
  rw [List.length_drop, List.length_append, List.length_map, List.length_singleton] at lengths
  omega

theorem skipSlashes_reads {fuel : Nat} (reads : Reads buf i rest) (enough : rest.length < fuel) :
    Reads buf (skipSlashes buf fuel i) (rest.dropWhile (· == '/')) := by
  induction fuel generalizing i rest with
  | zero => exact absurd enough (Nat.not_lt_zero _)
  | succ fuel ih =>
      unfold skipSlashes
      cases rest with
      | nil =>
          rw [reads.charAt_nil, if_neg (by decide)]
          exact reads
      | cons c rest =>
          rw [reads.charAt_cons]
          by_cases slash : c = '/'
          · subst slash
            rw [if_pos rfl, List.dropWhile_cons_of_pos (by decide)]
            exact ih reads.next (Nat.lt_of_succ_lt_succ enough)
          · rw [if_neg (by simpa using slash), List.dropWhile_cons_of_neg (by simpa using slash)]
            exact reads

/-- The component ends where the string has its first slash or its end. -/
theorem findEnd_reads {fuel : Nat} (reads : Reads buf i rest) (enough : rest.length < fuel) :
    findEnd buf fuel i = i + (rest.takeWhile (· != '/')).length ∧
      Reads buf (findEnd buf fuel i) (rest.dropWhile (· != '/')) := by
  induction fuel generalizing i rest with
  | zero => exact absurd enough (Nat.not_lt_zero _)
  | succ fuel ih =>
      unfold findEnd
      cases rest with
      | nil =>
          rw [reads.charAt_nil, if_neg (by simp)]
          exact ⟨rfl, reads⟩
      | cons c rest =>
          rw [reads.charAt_cons]
          by_cases slash : c = '/'
          · subst slash
            rw [if_neg (by simp), List.takeWhile_cons_of_neg (by decide),
              List.dropWhile_cons_of_neg (by decide)]
            exact ⟨rfl, reads⟩
          · obtain ⟨position, later⟩ := ih reads.next (Nat.lt_of_succ_lt_succ enough)
            rw [if_pos ⟨by simp, by simpa using slash⟩,
              List.takeWhile_cons_of_pos (by simpa using slash),
              List.dropWhile_cons_of_pos (by simpa using slash), List.length_cons]
            exact ⟨by omega, later⟩

theorem stringAt_of_drop {name : Name} (tail : Buffer)
    (here : buf.drop i = name.map some ++ none :: tail) : stringAt buf i = name := by
  unfold stringAt
  rw [here]
  clear here
  induction name with
  | nil => rfl
  | cons c name ih =>
      rw [List.map_cons, List.cons_append, List.takeWhile_cons_of_pos rfl,
        List.reduceOption_cons_of_some, ih]

/-- Storing a null after a component makes it a string of its own. -/
theorem stringAt_set {name after : Name}
    (reads : Reads buf i (name ++ '/' :: after)) :
    stringAt (buf.set (i + name.length) none) i = name ∧
      Reads (buf.set (i + name.length) none) (i + name.length + 1) after := by
  unfold Reads at reads
  constructor
  · apply stringAt_of_drop (strdup after)
    rw [List.drop_set, if_neg (by omega), Nat.add_sub_cancel_left, reads]
    unfold strdup
    rw [List.map_append, List.append_assoc, List.set_append_right _ _ (by simp), List.length_map,
      Nat.sub_self, List.map_cons]
    rfl
  · unfold Reads
    have whole : strdup (name ++ '/' :: after) = (name.map some ++ [some '/']) ++ strdup after := by
      simp [strdup]
    rw [List.drop_set, if_pos (by omega), Nat.add_assoc, ← List.drop_drop, reads, whole,
      List.drop_left' (by simp)]

/-- What `get_next_component` returns when `rest` is left in the buffer. -/
inductive Delivered (rest : Name) : Buffer × Nat × Option Nat → Prop
  | nothing {buf : Buffer} {i : Nat} (none_ : tokens rest = []) : Delivered rest (buf, i, none)
  | component {buf : Buffer} {i start : Nat} {after : Name}
      (first : tokens rest = stringAt buf start :: tokens after)
      (shorter : after.length < rest.length) (reads : Reads buf i after) :
      Delivered rest (buf, i, some start)

theorem getNextComponent_delivered (reads : Reads buf i rest) :
    Delivered rest (getNextComponent buf i) := by
  have enough := reads.length
  unfold getNextComponent
  split
  · next atEnd =>
      cases rest with
      | nil => exact .nothing rfl
      | cons c rest =>
          rw [reads.charAt_cons] at atEnd
          cases atEnd
  · dsimp only
    have skipped := skipSlashes_reads reads enough
    generalize skipSlashes buf buf.length i = start at *
    have dropped := tokens_dropSlashes rest
    have noLonger : (rest.dropWhile (· == '/')).length ≤ rest.length :=
      (List.dropWhile_sublist _).length_le
    have head : ∀ c, (rest.dropWhile (· == '/')).head? = some c → c ≠ '/' := by
      intro c isHead same
      have stops := List.head?_dropWhile_not (· == '/') rest
      rw [isHead, same] at stops
      simp at stops
    generalize rest.dropWhile (· == '/') = left at *
    split
    · next atEnd =>
        cases left with
        | nil => exact .nothing dropped.symm
        | cons c left =>
            rw [skipped.charAt_cons] at atEnd
            cases atEnd
    · next some_ =>
        obtain ⟨position, stopped⟩ :=
          findEnd_reads skipped (Nat.lt_of_le_of_lt noLonger enough)
        have parts : left.takeWhile (· != '/') ++ left.dropWhile (· != '/') = left :=
          List.takeWhile_append_dropWhile
        have noSlash : '/' ∉ left.takeWhile (· != '/') := by
          intro member
          have kept := List.all_eq_true.mp List.all_takeWhile _ member
          simp at kept
        have nonempty : left.takeWhile (· != '/') ≠ [] := by
          cases left with
          | nil => exact absurd skipped.charAt_nil some_
          | cons c left =>
              rw [List.takeWhile_cons_of_pos (by simpa using head c rfl)]
              simp
        generalize left.takeWhile (· != '/') = name at *
        cases after : left.dropWhile (· != '/') with
        | nil =>
            rw [after] at stopped parts
            rw [stopped.charAt_nil, if_neg (by decide)]
            rw [List.append_nil] at parts
            subst parts
            have string : stringAt buf start = name :=
              stringAt_of_drop [] (by rw [skipped]; rfl)
            refine .component ?_ ?_ stopped
            · rw [string, ← dropped, tokens_single nonempty noSlash, tokens_nil]
            · have positive := List.length_pos_of_ne_nil nonempty
              exact Nat.lt_of_lt_of_le positive noLonger
        | cons c after' =>
            have slash : c = '/' := by
              have stops := List.head?_dropWhile_not (· != '/') left
              rw [after, List.head?_cons] at stops
              simpa using stops
            subst slash
            rw [after] at stopped parts
            rw [stopped.charAt_cons, if_pos rfl, position]
            rw [← parts] at skipped
            obtain ⟨string, reads'⟩ := stringAt_set skipped
            refine .component ?_ ?_ reads'
            · rw [string, ← dropped, ← parts, tokens_cons nonempty noSlash]
            · have lengths := congrArg List.length parts
              rw [List.length_append, List.length_cons] at lengths
              omega

end Reads

end OsdiKernel.Fs
