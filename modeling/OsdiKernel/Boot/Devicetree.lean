import OsdiKernel.Boot.Strings

/-!
# The structure block of a device tree

A structure block is a sequence of tokens: words in big-endian order, names
with a null character, and values, both padded to a multiple of four.  The walk
hands each token to a callback, which may keep a state of its own.
-/

namespace OsdiKernel.Boot

/-! ## The walk -/

def fdtBeginNode : BitVec 32 := 0x1
def fdtEndNode : BitVec 32 := 0x2
def fdtProp : BitVec 32 := 0x3
def fdtNop : BitVec 32 := 0x4
def fdtEnd : BitVec 32 := 0x9

/-- `sizeof(struct fdt_prop)`. -/
def fdtPropSize : Nat := 8

/-- The arguments of a callback; the last one is always null. -/
@[ext] structure Call where
  type : BitVec 32
  name : Option Nat
  data : Option Nat
  size : BitVec 32
  deriving DecidableEq

/-- The callback, which may be null. -/
abbrev FdtCallback (σ : Type) : Type := Option (σ → Call → σ × Int)

section Walk

variable {σ : Type}

/-- The result is that of `callback && callback(...)`. -/
def FdtCallback.invoke (callback : FdtCallback σ) (s : σ) (call : Call) : σ × Int :=
  match callback with
  | some callback => callback s call
  | none => (s, 0)

/-- The loop of `fdt_parse_node`: the state of the callback, the return value
and `*ptr`. -/
def fdtParseNodeLoop (m : Nat → UInt8) (strings : Nat) (callback : FdtCallback σ) :
    Nat → Nat → σ → Option (σ × Int × Nat)
  | 0, _, _ => none
  | fuel + 1, p, s =>
      let token := be2leU32 (loadWord m p)
      let p := p + 4
      if token = fdtBeginNode then do
        let name := p
        let len ← strlen (from_ m name)
        let p := p + (align (len + 1) 4).toNat
        let (s, ret) := callback.invoke s ⟨fdtBeginNode, some name, none, 0⟩
        if ret ≠ 0 then return (s, -1, p)
        fdtParseNodeLoop m strings callback fuel p s
      else if token = fdtEndNode then
        let (s, ret) := callback.invoke s ⟨fdtEndNode, none, none, 0⟩
        if ret ≠ 0 then some (s, -1, p) else fdtParseNodeLoop m strings callback fuel p s
      else if token = fdtProp then
        let len := be2leU32 (loadWord m p)
        let nameoff := be2leU32 (loadWord m (p + 4))
        let name := strings + nameoff.toNat
        let data := p + fdtPropSize
        let p := p + (fdtPropSize + (align len 4).toNat)
        let (s, ret) := callback.invoke s ⟨fdtProp, some name, some data, len⟩
        if ret ≠ 0 then some (s, -1, p) else fdtParseNodeLoop m strings callback fuel p s
      else if token = fdtNop then fdtParseNodeLoop m strings callback fuel p s
      else if token = fdtEnd then some (s, 0, p)
      else some (s, -1, p)

/-- The fuel bounds the number of tokens. -/
def fdtParseNode (m : Nat → UInt8) (strings : Nat) (callback : FdtCallback σ) (fuel ptr : Nat)
    (s : σ) : Option (σ × Int × Nat) := fdtParseNodeLoop m strings callback fuel ptr s

/-- The addresses are null before `fdt_init`. -/
def fdtTraverse (m : Nat → UInt8) (base structure_ strings : Nat) (callback : FdtCallback σ)
    (fuel : Nat) (s : σ) : Option (σ × Int) :=
  if base = 0 ∨ structure_ = 0 then some (s, -1)
  else (fdtParseNode m strings callback fuel structure_ s).map fun result => (result.1, result.2.1)

end Walk

/-! ## The format -/

inductive Token where
  | beginNode (name : List UInt8)
  | endNode
  | prop (nameoff : BitVec 32) (name value : List UInt8)
  | nop

namespace Token

/-- The number of bytes of a token. -/
def length : Token → Nat
  | .beginNode name => 4 + padded (name.length + 1)
  | .endNode => 4
  | .prop _ _ value => 12 + padded value.length
  | .nop => 4

/-- The bytes of a token, whatever the padding holds. -/
inductive Encoded : Token → List UInt8 → Prop
  | beginNode {name padding : List UInt8} (full : name.length + 1 + padding.length = padded (name.length + 1)) :
      Encoded (.beginNode name) (bigEndian fdtBeginNode ++ (name ++ [0] ++ padding))
  | endNode : Encoded .endNode (bigEndian fdtEndNode)
  | prop {nameoff : BitVec 32} {name value padding : List UInt8}
      (full : value.length + padding.length = padded value.length) :
      Encoded (.prop nameoff name value) (bigEndian fdtProp ++
        (bigEndian (BitVec.ofNat 32 value.length) ++ (bigEndian nameoff ++ (value ++ padding))))
  | nop : Encoded .nop (bigEndian fdtNop)

/-- Names have no null character and the name of a property is in the strings
block.  The size of the structure block is a word, hence the bound on a name. -/
def WellFormed (m : Nat → UInt8) (strings : Nat) : Token → Prop
  | .beginNode name => 0 ∉ name ∧ name.length + 4 < 2 ^ 32
  | .endNode => True
  | .prop nameoff name value =>
      IsString (from_ m (strings + nameoff.toNat)) name ∧ value.length < 2 ^ 31
  | .nop => True

/-- What the callback is told of a token at an address; nothing of a `FDT_NOP`. -/
def call (strings p : Nat) : Token → Option Call
  | .beginNode _ => some ⟨fdtBeginNode, some (p + 4), none, 0⟩
  | .endNode => some ⟨fdtEndNode, none, none, 0⟩
  | .prop nameoff _ value =>
      some ⟨fdtProp, some (strings + nameoff.toNat), some (p + 12), BitVec.ofNat 32 value.length⟩
  | .nop => none

/-- The arguments of a call point at the name and the value of a token. -/
def Describes (m : Nat → UInt8) (call : Call) : Token → Prop
  | .beginNode name => call.type = fdtBeginNode ∧
      (∃ p, call.name = some p ∧ IsString (from_ m p) name) ∧ call.data = none ∧ call.size = 0
  | .endNode => call = ⟨fdtEndNode, none, none, 0⟩
  | .prop _ name value => call.type = fdtProp ∧
      (∃ p, call.name = some p ∧ IsString (from_ m p) name) ∧
      (∃ p, call.data = some p ∧ Stored m p value) ∧ call.size.toNat = value.length
  | .nop => False

end Token

/-- The bytes of a sequence of tokens. -/
inductive Encoded : List Token → List UInt8 → Prop
  | nil : Encoded [] []
  | cons {token : Token} {tokens : List Token} {bytes rest : List UInt8} (first : token.Encoded bytes)
      (later : Encoded tokens rest) : Encoded (token :: tokens) (bytes ++ rest)

/-- One call for each token but `FDT_NOP`, in order; each describes its token and
comes with the address of the following one. -/
inductive Told (m : Nat → UInt8) : List Token → List (Call × Nat) → Prop
  | nil : Told m [] []
  | nop {tokens : List Token} {told : List (Call × Nat)} (later : Told m tokens told) :
      Told m (.nop :: tokens) told
  | call {token : Token} {tokens : List Token} {call : Call} {next : Nat} {told : List (Call × Nat)}
      {rest : List UInt8} (describes : token.Describes m call) (encoded : Encoded tokens rest)
      (stored : Stored m next (rest ++ bigEndian fdtEnd)) (later : Told m tokens told) :
      Told m (token :: tokens) ((call, next) :: told)

/-- The calls for the tokens from an address on, each with the address behind its token. -/
def calls (strings : Nat) : List Token → Nat → List (Call × Nat)
  | [], _ => []
  | token :: tokens, p =>
      ((token.call strings p).toList.map fun call => (call, p + token.length)) ++
        calls strings tokens (p + token.length)

/-- The calls are made in order until one returns a nonzero value; then the
result has the address behind its token. -/
def deliver {σ : Type} (callback : FdtCallback σ) : List (Call × Nat) → σ → σ × Option Nat
  | [], s => (s, none)
  | (call, next) :: rest, s =>
      if (callback.invoke s call).2 ≠ 0 then ((callback.invoke s call).1, some next)
      else deliver callback rest (callback.invoke s call).1

/-- What `fdt_parse_node` makes of it. -/
def outcome {σ : Type} (last : Nat) : σ × Option Nat → σ × Int × Nat
  | (s, none) => (s, 0, last)
  | (s, some next) => (s, -1, next)

/-! ## One token -/

section Step

variable {σ : Type} {m : Nat → UInt8} {strings p fuel : Nat} {callback : FdtCallback σ} {s : σ}
  {token : Token} {tokens : List Token} {bytes name : List UInt8}

/-- The name of a node and its padding are passed. -/
theorem align_strlen (stored : Stored m p (name ++ [0])) (proper : 0 ∉ name)
    (short : name.length + 4 < 2 ^ 32) :
    ∃ len, strlen (from_ m p) = some len ∧ (align (len + 1) 4).toNat = padded (name.length + 1) := by
  have next : (BitVec.ofNat 32 name.length + 1).toNat = name.length + 1 := by
    rw [show (1 : BitVec 32) = BitVec.ofNat 32 1 from rfl, ← BitVec.ofNat_add, BitVec.toNat_ofNat]
    exact Nat.mod_eq_of_lt (by omega)
  refine ⟨_, strlen_eq (isString_from stored proper (by unfold addressSpace; omega)), ?_⟩
  rw [align_four (by omega), next]

theorem align_value {n : Nat} (short : n < 2 ^ 31) :
    (align (BitVec.ofNat 32 n) 4).toNat = padded n := by
  have fits : (BitVec.ofNat 32 n).toNat = n :=
    (BitVec.toNat_ofNat _ _).trans (Nat.mod_eq_of_lt (by omega))
  rw [align_four (by omega), fits]

theorem Token.Encoded.length (encoded : token.Encoded bytes) : bytes.length = token.length := by
  cases encoded with
  | beginNode full => simp [Token.length, bigEndian, littleEndian, ← full]; omega
  | endNode => rfl
  | prop full => simp [Token.length, bigEndian, littleEndian, ← full]; omega
  | nop => rfl

/-- One round of the loop on a token: the callback is told of it, and the walk
goes on behind it or stops there. -/
theorem fdtParseNodeLoop_token (encoded : token.Encoded bytes)
    (wellFormed : token.WellFormed m strings) (stored : Stored m p bytes) :
    fdtParseNodeLoop m strings callback (fuel + 1) p s =
      match token.call strings p with
      | none => fdtParseNodeLoop m strings callback fuel (p + token.length) s
      | some call =>
          if (callback.invoke s call).2 ≠ 0 then
            some ((callback.invoke s call).1, -1, p + token.length)
          else fdtParseNodeLoop m strings callback fuel (p + token.length) (callback.invoke s call).1 := by
  cases encoded with
  | beginNode full =>
      have word := be2leU32_loadWord stored.left
      obtain ⟨len, measured, passed⟩ :=
        align_strlen stored.right.left wellFormed.1 wellFormed.2
      change strlen (from_ m (p + 4)) = some len at measured
      simp only [fdtParseNodeLoop, word, measured, passed, Token.call, Token.length, if_true,
        Option.bind_eq_bind, Option.bind_some, Option.pure_def, Nat.add_assoc]
  | endNode =>
      have word := be2leU32_loadWord stored
      have other : ¬ fdtEndNode = fdtBeginNode := by decide
      simp only [fdtParseNodeLoop, word, if_neg other, if_true, Token.call, Token.length]
  | @prop nameoff name value padding full =>
      have word := be2leU32_loadWord stored.left
      have len := be2leU32_loadWord stored.right.left
      have offset := be2leU32_loadWord stored.right.right.left
      change be2leU32 (loadWord m (p + 4)) = _ at len
      change be2leU32 (loadWord m (p + 4 + 4)) = _ at offset
      have first : ¬ fdtProp = fdtBeginNode := by decide
      have second : ¬ fdtProp = fdtEndNode := by decide
      simp only [fdtParseNodeLoop, word, len, offset, if_neg first, if_neg second, if_true, Token.call,
        Token.length, align_value wellFormed.2, fdtPropSize, Nat.add_assoc, Nat.reduceAdd]
      simp only [← Nat.add_assoc, Nat.reduceAdd]
  | nop =>
      have word := be2leU32_loadWord stored
      have first : ¬ fdtNop = fdtBeginNode := by decide
      have second : ¬ fdtNop = fdtEndNode := by decide
      have third : ¬ fdtNop = fdtProp := by decide
      simp only [fdtParseNodeLoop, word, if_neg first, if_neg second, if_neg third, if_true, Token.call,
        Token.length]

theorem fdtParseNodeLoop_end (stored : Stored m p (bigEndian fdtEnd)) :
    fdtParseNodeLoop m strings callback (fuel + 1) p s = some (s, 0, p + 4) := by
  have word := be2leU32_loadWord stored
  have first : ¬ fdtEnd = fdtBeginNode := by decide
  have second : ¬ fdtEnd = fdtEndNode := by decide
  have third : ¬ fdtEnd = fdtProp := by decide
  have fourth : ¬ fdtEnd = fdtNop := by decide
  simp only [fdtParseNodeLoop, word, if_neg first, if_neg second, if_neg third, if_neg fourth, if_true]

/-- The call for a token describes it. -/
theorem Token.Encoded.describes {call : Call} (encoded : token.Encoded bytes)
    (wellFormed : token.WellFormed m strings) (stored : Stored m p bytes)
    (told : token.call strings p = some call) : token.Describes m call := by
  cases encoded with
  | beginNode full =>
      cases told
      have short := wellFormed.2
      exact ⟨rfl, ⟨_, rfl, isString_from stored.right.left wellFormed.1 (by unfold addressSpace; omega)⟩,
        rfl, rfl⟩
  | endNode =>
      cases told
      rfl
  | prop full =>
      cases told
      have short := wellFormed.2
      refine ⟨rfl, ⟨_, rfl, wellFormed.1⟩, ⟨_, rfl, stored.right.right.right.left⟩, ?_⟩
      exact (BitVec.toNat_ofNat _ _).trans (Nat.mod_eq_of_lt (by omega))
  | nop => cases told

end Step

/-! ## All tokens -/

section Run

variable {σ : Type} {m : Nat → UInt8} {strings p fuel : Nat} {callback : FdtCallback σ} {s : σ}
  {tokens : List Token} {bytes : List UInt8}

theorem calls_told (encoded : Encoded tokens bytes)
    (wellFormed : ∀ token ∈ tokens, token.WellFormed m strings)
    (stored : Stored m p (bytes ++ bigEndian fdtEnd)) : Told m tokens (calls strings tokens p) := by
  induction encoded generalizing p with
  | nil => exact .nil
  | @cons token tokens bytes rest first later ih =>
      rw [List.append_assoc] at stored
      have behind := stored.right
      rw [first.length] at behind
      have told := ih (fun token mem => wellFormed token (List.mem_cons_of_mem _ mem)) behind
      have describes : ∀ call, token.call strings p = some call → token.Describes m call :=
        fun _ => first.describes (wellFormed token List.mem_cons_self) stored.left
      cases first with
      | beginNode full => exact .call (describes _ rfl) later behind told
      | endNode => exact .call (describes _ rfl) later behind told
      | prop full => exact .call (describes _ rfl) later behind told
      | nop => exact .nop told

theorem fdtParseNodeLoop_tokens (encoded : Encoded tokens bytes)
    (wellFormed : ∀ token ∈ tokens, token.WellFormed m strings)
    (stored : Stored m p (bytes ++ bigEndian fdtEnd)) (enough : tokens.length < fuel) :
    fdtParseNodeLoop m strings callback fuel p s =
      some (outcome (p + bytes.length + 4) (deliver callback (calls strings tokens p) s)) := by
  induction encoded generalizing p fuel s with
  | nil =>
      obtain ⟨fuel, rfl⟩ := Nat.exists_eq_succ_of_ne_zero (Nat.ne_of_gt enough)
      exact fdtParseNodeLoop_end stored
  | @cons token tokens bytes rest first later ih =>
      obtain ⟨fuel, rfl⟩ := Nat.exists_eq_succ_of_ne_zero (Nat.ne_of_gt (Nat.zero_lt_of_lt enough))
      rw [List.append_assoc] at stored
      have behind := stored.right
      rw [first.length] at behind
      have goesOn : ∀ s, fdtParseNodeLoop m strings callback fuel (p + token.length) s =
          some (outcome (p + (bytes ++ rest).length + 4)
            (deliver callback (calls strings tokens (p + token.length)) s)) := by
        intro s
        rw [List.length_append, first.length, ← Nat.add_assoc]
        exact ih (fun token mem => wellFormed token (List.mem_cons_of_mem _ mem)) behind
          (Nat.lt_of_succ_lt_succ enough)
      rw [fdtParseNodeLoop_token first (wellFormed token List.mem_cons_self) stored.left, calls]
      cases token.call strings p with
      | none => exact goesOn s
      | some call =>
          simp only [Option.toList_some, List.map_cons, List.map_nil, List.cons_append, List.nil_append,
            deliver]
          split
          · rfl
          · exact goesOn _

/-- A block of well-formed tokens is decoded: the calls tell of its tokens one
after the other, and the walk ends behind the block or at the first call that
returns a nonzero value. -/
theorem fdtParseNode_decodes (encoded : Encoded tokens bytes)
    (wellFormed : ∀ token ∈ tokens, token.WellFormed m strings)
    (stored : Stored m p (bytes ++ bigEndian fdtEnd)) :
    ∃ told, Told m tokens told ∧ ∀ fuel, tokens.length < fuel →
      fdtParseNode m strings callback fuel p s =
        some (outcome (p + bytes.length + 4) (deliver callback told s)) :=
  ⟨_, calls_told encoded wellFormed stored, fun _ enough =>
    fdtParseNodeLoop_tokens encoded wellFormed stored enough⟩

/-- A node with a property of three bytes, and a callback that notes its calls. -/
theorem fdtParseNode_decodes_node : ∃ (m : Nat → UInt8) (told : List (Call × Nat)),
    Told m [.beginNode [97], .prop 0 [98] [1, 2, 3], .nop, .endNode] told ∧
      ∀ fuel, 4 < fuel → fdtParseNode m 36 (some fun s call => (s ++ [call], 0)) fuel 0 [] =
        some (outcome 36 (deliver (some fun s call => (s ++ [call], 0)) told [])) := by
  have encoded := Encoded.cons (@Token.Encoded.beginNode [97] [0, 0] rfl)
    (.cons (@Token.Encoded.prop 0 [98] [1, 2, 3] [0] rfl) (.cons .nop (.cons .endNode .nil)))
  refine ⟨_, fdtParseNode_decodes encoded ?_ (@Stored.left _ _ _ _ [98, 0] (Stored.getD _ 0))⟩
  · intro token mem
    simp only [List.mem_cons, List.not_mem_nil, or_false] at mem
    obtain rfl | rfl | rfl | rfl := mem
    · exact ⟨by decide, by decide⟩
    · exact ⟨⟨⟨by decide, by decide, trivial⟩, by decide, by decide⟩, by decide⟩
    · trivial
    · trivial

theorem fdtTraverse_tokens {base : Nat} (encoded : Encoded tokens bytes)
    (wellFormed : ∀ token ∈ tokens, token.WellFormed m strings)
    (stored : Stored m p (bytes ++ bigEndian fdtEnd)) (enough : tokens.length < fuel)
    (initialized : base ≠ 0) (notNull : p ≠ 0) :
    fdtTraverse m base p strings callback fuel s =
      some ((deliver callback (calls strings tokens p) s).1,
        if (deliver callback (calls strings tokens p) s).2 = none then 0 else -1) := by
  rw [fdtTraverse, if_neg (by simp [initialized, notNull]), fdtParseNode,
    fdtParseNodeLoop_tokens encoded wellFormed stored enough]
  generalize deliver callback (calls strings tokens p) s = delivered
  obtain ⟨s, next⟩ := delivered
  cases next with
  | none => rfl
  | some next => rfl

end Run

end OsdiKernel.Boot
