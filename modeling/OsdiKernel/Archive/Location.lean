import OsdiKernel.Archive.Walk
import OsdiKernel.Boot.Devicetree

/-!
# Where the archive is

The walk over the device tree tells a callback of every token.  The callback
that looks for the archive compares the name of each of them, also of the
tokens that have none.
-/

namespace OsdiKernel.Archive

open Boot

/-! ## The callback -/

/-- `cpio_addr` and `cpio_end`. -/
@[ext] structure CpioRange where
  cpioAddr : BitVec 32
  cpioEnd : BitVec 32
  deriving DecidableEq

def initrdStart : List UInt8 := ascii (String.toList "linux,initrd-start")
def initrdEnd : List UInt8 := ascii (String.toList "linux,initrd-end")

/-- There is no state after a null pointer has been read. -/
def initramfsCallback (m : Nat → UInt8) (s : Option CpioRange) (call : Call) : Option CpioRange × Int :=
  let s := do
    let range ← s
    let name ← call.name
    if (← strcmp (from_ m name) (literal initrdStart)) = 0 then
      let data ← call.data
      return { range with cpioAddr := be2leU32 (loadWord m data) }
    else if (← strcmp (from_ m name) (literal initrdEnd)) = 0 then
      let data ← call.data
      return { range with cpioEnd := be2leU32 (loadWord m data) }
    else return range
  (s, 0)

/-! ## What it is for -/

/-- The value of the last property with a name. -/
def lastValue (name : List UInt8) : List Token → Option (List UInt8)
  | [] => none
  | .prop _ other value :: tokens => (lastValue name tokens).or (if other = name then some value else none)
  | _ :: tokens => lastValue name tokens

/-- A variable has the value of the last property with a name, or its old one. -/
def IsLast (name : List UInt8) (tokens : List Token) (old new : BitVec 32) : Prop :=
  match lastValue name tokens with
  | none => new = old
  | some value => value = bigEndian new

/-- The traversal returns zero without reading a null pointer, and then the
variables have the values of the last properties. -/
def LocatesInitrd (m : Nat → UInt8) (base structure_ strings : Nat) (tokens : List Token)
    (range : CpioRange) : Prop :=
  ∀ fuel, tokens.length < fuel → ∃ range',
    fdtTraverse m base structure_ strings (some (initramfsCallback m)) fuel (some range) =
      some (some range', 0) ∧
    IsLast initrdStart tokens range.cpioAddr range'.cpioAddr ∧
    IsLast initrdEnd tokens range.cpioEnd range'.cpioEnd

/-- A token without a name, or without a value but with one of the two names. -/
def Misleads : Token → Prop
  | .beginNode name => name = initrdStart ∨ name = initrdEnd
  | .endNode => True
  | .prop _ _ _ => False
  | .nop => False

instance : DecidablePred Misleads
  | .beginNode name => inferInstanceAs (Decidable (name = initrdStart ∨ name = initrdEnd))
  | .endNode => isTrue trivial
  | .prop _ _ _ => isFalse id
  | .nop => isFalse id

/-- The last properties have values of four bytes. -/
def HasCells (tokens : List Token) : Prop :=
  ∀ name, name = initrdStart ∨ name = initrdEnd → ∀ value, lastValue name tokens = some value →
    value.length = 4

/-! ### Trees -/

def IsProperty : Token → Prop
  | .prop _ _ _ => True
  | .nop => True
  | _ => False

/-- The tokens of nodes that follow each other; the properties of a node come
before the nodes in it. -/
inductive Nodes : List Token → Prop
  | nil : Nodes []
  | nop {tokens : List Token} (later : Nodes tokens) : Nodes (.nop :: tokens)
  | node {name : List UInt8} {properties children rest : List Token}
      (areProperties : ∀ token ∈ properties, IsProperty token) (inside : Nodes children)
      (later : Nodes rest) :
      Nodes (.beginNode name :: (properties ++ (children ++ .endNode :: rest)))

/-- The tokens of a tree: those of its root node, among `FDT_NOP`s. -/
inductive IsTree : List Token → Prop
  | nop {tokens : List Token} (later : IsTree tokens) : IsTree (.nop :: tokens)
  | root {name : List UInt8} {properties children rest : List Token}
      (areProperties : ∀ token ∈ properties, IsProperty token) (inside : Nodes children)
      (behind : ∀ token ∈ rest, token = .nop) :
      IsTree (.beginNode name :: (properties ++ (children ++ .endNode :: rest)))

theorem IsTree.endNode {tokens : List Token} (tree : IsTree tokens) : .endNode ∈ tokens := by
  induction tree with
  | nop later ih => exact List.mem_cons_of_mem _ ih
  | root areProperties inside behind => simp

/-! ## One token -/

section Token

variable {m : Nat → UInt8} {strings p : Nat} {token : Token} {bytes name value : List UInt8}
  {range : CpioRange}

/-- The variables after a token at an address. -/
def note (m : Nat → UInt8) (strings p : Nat) (token : Token) (s : Option CpioRange) :
    Option CpioRange :=
  match token.call strings p with
  | none => s
  | some call => (initramfsCallback m s call).1

theorem strcmp_literal {s : Nat → UInt8} (isString : IsString s name) (text : List UInt8)
    (proper : 0 ∉ text) (short : text.length < addressSpace) :
    ∃ r, strcmp s (literal text) = some r ∧ (r = 0 ↔ name = text) :=
  strcmp_eq isString (literal_isString proper short)

/-- The callback on a name. -/
theorem initramfsCallback_named {call : Call} {q : Nat} (isName : call.name = some q)
    (isString : IsString (from_ m q) name) :
    (initramfsCallback m (some range) call).1 =
      if name = initrdStart then
        call.data.map fun data => { range with cpioAddr := be2leU32 (loadWord m data) }
      else if name = initrdEnd then
        call.data.map fun data => { range with cpioEnd := be2leU32 (loadWord m data) }
      else some range := by
  obtain ⟨r, compared, equal⟩ := strcmp_literal isString initrdStart (by decide) (by decide)
  obtain ⟨r', compared', equal'⟩ := strcmp_literal isString initrdEnd (by decide) (by decide)
  unfold initramfsCallback
  simp only [isName, compared, compared', equal, equal', Option.bind_eq_bind, Option.bind_some]
  cases call.data <;> rfl

theorem note_misleads (encoded : token.Encoded bytes) (wellFormed : token.WellFormed m strings)
    (stored : Stored m p bytes) (misleads : Misleads token) :
    note m strings p token (some range) = none := by
  cases encoded with
  | endNode => rfl
  | beginNode full =>
      obtain ⟨proper, short⟩ := wellFormed
      have isString := isString_from stored.right.left proper (by unfold addressSpace; omega)
      change (initramfsCallback m (some range) _).1 = none
      rw [initramfsCallback_named rfl isString]
      rcases misleads with start | last
      · rw [if_pos start]
        rfl
      · rw [if_pos last]
        exact ite_self none
  | prop full => exact misleads.elim
  | nop => exact misleads.elim

/-- A variable has the value of the last property with a name, if that has four bytes. -/
def IsLastCell (name : List UInt8) (tokens : List Token) (old new : BitVec 32) : Prop :=
  match lastValue name tokens with
  | none => new = old
  | some value => value.length = 4 → value = bigEndian new

theorem bigEndian_be2leU32 (stored : Stored m p value) (cell : value.length = 4) :
    value = bigEndian (be2leU32 (loadWord m p)) := by
  obtain ⟨b₀, b₁, b₂, b₃, rfl⟩ : ∃ b₀ b₁ b₂ b₃, value = [b₀, b₁, b₂, b₃] := by
    match value, cell with
    | [b₀, b₁, b₂, b₃], _ => exact ⟨b₀, b₁, b₂, b₃, rfl⟩
  obtain ⟨h₀, h₁, h₂, h₃, _⟩ := stored
  unfold loadWord bigEndian
  rw [h₀, h₁, h₂, h₃, be2leU32_word, littleEndian_word]
  rfl

theorem note_quiet (encoded : token.Encoded bytes) (wellFormed : token.WellFormed m strings)
    (stored : Stored m p bytes) (quiet : ¬ Misleads token) :
    ∃ range', note m strings p token (some range) = some range' ∧
      IsLastCell initrdStart [token] range.cpioAddr range'.cpioAddr ∧
      IsLastCell initrdEnd [token] range.cpioEnd range'.cpioEnd := by
  have different : initrdStart ≠ initrdEnd := by decide
  cases encoded with
  | endNode => exact absurd trivial quiet
  | nop => exact ⟨range, rfl, rfl, rfl⟩
  | @beginNode name padding full =>
      obtain ⟨proper, short⟩ := wellFormed
      have isString := isString_from stored.right.left proper (by unfold addressSpace; omega)
      have notStart : ¬ name = initrdStart := fun same => quiet (Or.inl same)
      have notEnd : ¬ name = initrdEnd := fun same => quiet (Or.inr same)
      refine ⟨range, ?_, rfl, rfl⟩
      change (initramfsCallback m (some range) _).1 = _
      rw [initramfsCallback_named rfl isString, if_neg notStart, if_neg notEnd]
  | @prop nameoff name value padding full =>
      obtain ⟨isString, short⟩ := wellFormed
      have data := stored.right.right.right.left
      have note_eq : note m strings p (.prop nameoff name value) (some range) =
          if name = initrdStart then
            some { range with cpioAddr := be2leU32 (loadWord m (p + 12)) }
          else if name = initrdEnd then
            some { range with cpioEnd := be2leU32 (loadWord m (p + 12)) }
          else some range := initramfsCallback_named rfl isString
      rw [note_eq]
      unfold IsLastCell lastValue
      by_cases isStart : name = initrdStart
      · rw [if_pos isStart, if_pos isStart, if_neg (isStart ▸ different)]
        exact ⟨_, rfl, bigEndian_be2leU32 data, rfl⟩
      · by_cases isEnd : name = initrdEnd
        · rw [if_neg isStart, if_neg isStart, if_pos isEnd, if_pos isEnd]
          exact ⟨_, rfl, rfl, bigEndian_be2leU32 data⟩
        · rw [if_neg isStart, if_neg isStart, if_neg isEnd, if_neg isEnd]
          exact ⟨_, rfl, rfl, rfl⟩

end Token

/-! ## All tokens -/

section Tokens

variable {m : Nat → UInt8} {base strings p : Nat} {tokens : List Token} {bytes : List UInt8}
  {range : CpioRange}

/-- The variables after some tokens from an address on. -/
def noteAll (m : Nat → UInt8) (strings : Nat) : List Token → Nat → Option CpioRange → Option CpioRange
  | [], _, s => s
  | token :: tokens, p, s => noteAll m strings tokens (p + token.length) (note m strings p token s)

theorem deliver_calls (tokens : List Token) (p : Nat) (s : Option CpioRange) :
    deliver (some (initramfsCallback m)) (calls strings tokens p) s =
      (noteAll m strings tokens p s, none) := by
  induction tokens generalizing p s with
  | nil => rfl
  | cons token tokens ih =>
      rw [calls, noteAll, note]
      cases token.call strings p with
      | none => exact ih _ s
      | some call => exact ih _ _

theorem note_none (token : Token) (p : Nat) : note m strings p token none = none := by
  unfold note
  cases token.call strings p <;> rfl

theorem noteAll_none (tokens : List Token) (p : Nat) : noteAll m strings tokens p none = none := by
  induction tokens generalizing p with
  | nil => rfl
  | cons token tokens ih =>
      rw [noteAll, note_none]
      exact ih _

theorem IsLastCell.cons {name : List UInt8} {token : Token} {old between new : BitVec 32}
    (first : IsLastCell name [token] old between) (later : IsLastCell name tokens between new) :
    IsLastCell name (token :: tokens) old new := by
  unfold IsLastCell at *
  cases token with
  | prop nameoff other value =>
      simp only [lastValue, Option.none_or] at first ⊢
      cases found : lastValue name tokens with
      | none =>
          rw [found] at later
          rw [Option.none_or, later]
          exact first
      | some value' =>
          rw [found] at later
          exact later
  | beginNode other => exact first ▸ later
  | endNode => exact first ▸ later
  | nop => exact first ▸ later

theorem noteAll_quiet (encoded : Boot.Encoded tokens bytes)
    (wellFormed : ∀ token ∈ tokens, token.WellFormed m strings) (stored : Stored m p bytes)
    (quiet : ∀ token ∈ tokens, ¬ Misleads token) :
    ∃ range', noteAll m strings tokens p (some range) = some range' ∧
      IsLastCell initrdStart tokens range.cpioAddr range'.cpioAddr ∧
      IsLastCell initrdEnd tokens range.cpioEnd range'.cpioEnd := by
  induction encoded generalizing p range with
  | nil => exact ⟨range, rfl, rfl, rfl⟩
  | @cons token tokens bytes rest first later ih =>
      have behind := stored.right
      rw [first.length] at behind
      obtain ⟨range₁, noted, start₁, end₁⟩ := @note_quiet m strings p token bytes range first
        (wellFormed token List.mem_cons_self) stored.left (quiet token List.mem_cons_self)
      obtain ⟨range₂, rest, start₂, end₂⟩ := @ih _ range₁
        (fun token member => wellFormed token (List.mem_cons_of_mem _ member)) behind
        fun token member => quiet token (List.mem_cons_of_mem _ member)
      refine ⟨range₂, ?_, start₁.cons start₂, end₁.cons end₂⟩
      rw [noteAll, noted]
      exact rest

theorem noteAll_misleads (encoded : Boot.Encoded tokens bytes)
    (wellFormed : ∀ token ∈ tokens, token.WellFormed m strings) (stored : Stored m p bytes)
    {token : Token} (member : token ∈ tokens) (misleads : Misleads token) (s : Option CpioRange) :
    noteAll m strings tokens p s = none := by
  induction encoded generalizing p s with
  | nil => cases member
  | @cons first tokens bytes rest encoded later ih =>
      have behind := stored.right
      rw [encoded.length] at behind
      rw [noteAll]
      rcases List.mem_cons.mp member with rfl | inRest
      · have lost : note m strings p token s = none := by
          cases s with
          | none => exact note_none token p
          | some range =>
              exact note_misleads encoded (wellFormed token List.mem_cons_self) stored.left misleads
        rw [lost]
        exact noteAll_none tokens _
      · exact ih (fun token member => wellFormed token (List.mem_cons_of_mem _ member)) behind inRest _

theorem IsLast.of_cell {name : List UInt8} {old new : BitVec 32} (cell : IsLastCell name tokens old new)
    (four : ∀ value, lastValue name tokens = some value → value.length = 4) :
    IsLast name tokens old new := by
  unfold IsLast IsLastCell at *
  cases found : lastValue name tokens with
  | none =>
      rw [found] at cell
      exact cell
  | some value =>
      rw [found] at cell
      exact cell (four value found)

theorem IsLast.four {name : List UInt8} {old new : BitVec 32} (isLast : IsLast name tokens old new)
    {value : List UInt8} (found : lastValue name tokens = some value) : value.length = 4 := by
  unfold IsLast at isLast
  rw [found] at isLast
  rw [isLast]
  rfl

section Traversal

variable (encoded : Boot.Encoded tokens bytes)
  (wellFormed : ∀ token ∈ tokens, token.WellFormed m strings)
  (stored : Stored m p (bytes ++ bigEndian fdtEnd)) (initialized : base ≠ 0) (notNull : p ≠ 0)
include encoded wellFormed stored initialized notNull

theorem fdtTraverse_noted {fuel : Nat} (enough : tokens.length < fuel) :
    fdtTraverse m base p strings (some (initramfsCallback m)) fuel (some range) =
      some (noteAll m strings tokens p (some range), 0) := by
  rw [fdtTraverse_tokens encoded wellFormed stored enough initialized notNull, deliver_calls]
  rfl

theorem LocatesInitrd.quiet (locates : LocatesInitrd m base p strings tokens range) :
    ∀ token ∈ tokens, ¬ Misleads token := by
  intro token member misleads
  have enough := Nat.lt_succ_self tokens.length
  obtain ⟨range', result, _⟩ := locates _ enough
  rw [fdtTraverse_noted encoded wellFormed stored initialized notNull enough,
    noteAll_misleads encoded wellFormed stored.left member misleads] at result
  cases result

theorem IsTree.not_locates (tree : IsTree tokens) : ¬ LocatesInitrd m base p strings tokens range :=
  fun locates => locates.quiet encoded wellFormed stored initialized notNull .endNode tree.endNode trivial

/-- The archive is located just if no token misleads the callback and the last
properties have values of four bytes.  In a tree the ends of nodes mislead it. -/
theorem locatesInitrd_iff :
    (LocatesInitrd m base p strings tokens range ↔
      (∀ token ∈ tokens, ¬ Misleads token) ∧ HasCells tokens) ∧
    (IsTree tokens → ¬ LocatesInitrd m base p strings tokens range) := by
  refine ⟨⟨fun locates => ⟨locates.quiet encoded wellFormed stored initialized notNull, ?_⟩, ?_⟩,
    fun tree => tree.not_locates encoded wellFormed stored initialized notNull⟩
  · intro name isName value found
    obtain ⟨range', _, start, last⟩ := locates _ (Nat.lt_succ_self tokens.length)
    rcases isName with rfl | rfl
    · exact start.four found
    · exact last.four found
  · rintro ⟨quiet, cells⟩ fuel enough
    obtain ⟨range', noted, start, last⟩ := @noteAll_quiet _ _ _ _ _ range encoded wellFormed
      stored.left quiet
    refine ⟨range', ?_, .of_cell start (cells _ (Or.inl rfl)), .of_cell last (cells _ (Or.inr rfl))⟩
    rw [fdtTraverse_noted encoded wellFormed stored initialized notNull enough, noted]

end Traversal

end Tokens

/-! ## A root node -/

/-- The tokens of a root node with the two properties. -/
def chosen : List Token :=
  [.beginNode [], .prop 0 initrdStart [8, 0, 0, 0], .prop 19 initrdEnd [9, 0, 0, 0], .endNode]

def chosenBytes : List UInt8 :=
  (bigEndian fdtBeginNode ++ ([] ++ [0] ++ [0, 0, 0])) ++
    ((bigEndian fdtProp ++ (bigEndian 4 ++ (bigEndian 0 ++ ([8, 0, 0, 0] ++ [])))) ++
      ((bigEndian fdtProp ++ (bigEndian 4 ++ (bigEndian 19 ++ ([9, 0, 0, 0] ++ [])))) ++
        (bigEndian fdtEndNode ++ [])))

/-- The structure block at address 1, and the names behind it. -/
def chosenMemory : Nat → UInt8 := fun a =>
  ((0 :: (chosenBytes ++ bigEndian fdtEnd)) ++ (initrdStart ++ [0] ++ (initrdEnd ++ [0]))).getD a 0

theorem chosen_encoded : Boot.Encoded chosen chosenBytes :=
  .cons (@Token.Encoded.beginNode [] [0, 0, 0] rfl) (.cons (@Token.Encoded.prop 0 _ _ [] rfl)
    (.cons (@Token.Encoded.prop 19 _ _ [] rfl) (.cons .endNode .nil)))

theorem chosen_stored : Stored chosenMemory 1 (chosenBytes ++ bigEndian fdtEnd) :=
  (Stored.getD ((0 :: (chosenBytes ++ bigEndian fdtEnd)) ++
    (initrdStart ++ [0] ++ (initrdEnd ++ [0]))) 0).left.2

theorem chosen_wellFormed : ∀ token ∈ chosen, token.WellFormed chosenMemory 49 := by
  have names : Stored chosenMemory 49 (initrdStart ++ [0] ++ (initrdEnd ++ [0])) :=
    (Stored.getD ((0 :: (chosenBytes ++ bigEndian fdtEnd)) ++
      (initrdStart ++ [0] ++ (initrdEnd ++ [0]))) 0).right
  intro token member
  simp only [chosen, List.mem_cons, List.not_mem_nil, or_false] at member
  obtain rfl | rfl | rfl | rfl := member
  · exact ⟨by decide, by decide⟩
  · exact ⟨isString_from names.left (by decide) (by decide), by decide⟩
  · exact ⟨isString_from names.right (by decide) (by decide), by decide⟩
  · trivial

theorem chosen_tree : IsTree chosen :=
  @IsTree.root [] [.prop 0 initrdStart [8, 0, 0, 0], .prop 19 initrdEnd [9, 0, 0, 0]] [] []
    (by simp [IsProperty]) .nil nofun

theorem locatesInitrd_chosen :
    (LocatesInitrd chosenMemory 1 1 49 chosen ⟨0, 0⟩ ↔
      (∀ token ∈ chosen, ¬ Misleads token) ∧ HasCells chosen) ∧
    (IsTree chosen → ¬ LocatesInitrd chosenMemory 1 1 49 chosen ⟨0, 0⟩) :=
  locatesInitrd_iff chosen_encoded chosen_wellFormed chosen_stored (by decide) (by decide)

/-- The name of the end of the root node is read through a null pointer. -/
theorem chosen_not_located : ∃ m base p strings tokens bytes range, IsTree tokens ∧
    Boot.Encoded tokens bytes ∧ (∀ token ∈ tokens, token.WellFormed m strings) ∧
      Stored m p (bytes ++ bigEndian fdtEnd) ∧ base ≠ 0 ∧ p ≠ 0 ∧
        ¬ LocatesInitrd m base p strings tokens range :=
  ⟨chosenMemory, 1, 1, 49, chosen, chosenBytes, ⟨0, 0⟩, chosen_tree, chosen_encoded,
    chosen_wellFormed, chosen_stored, by decide, by decide,
    chosen_tree.not_locates chosen_encoded chosen_wellFormed chosen_stored (by decide) (by decide)⟩

end OsdiKernel.Archive
