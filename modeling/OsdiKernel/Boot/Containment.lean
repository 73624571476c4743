import OsdiKernel.Boot.Devicetree

/-!
# What the walk over a device tree reads

`fdt_init` takes the places and the sizes of the two blocks from the header.
The walk does not look at the sizes: it stays inside the blocks just if their
contents keep it there.
-/

namespace OsdiKernel.Boot

/-! ## The header -/

def fdtMagic : BitVec 32 := 0xd00dfeed

/-- The variables of `devicetree.c`; addresses that are null are zero. -/
structure FdtGlobals where
  base : Nat
  structure_ : Nat
  strings : Nat
  totalSize : BitVec 32
  stringsSize : BitVec 32
  structureSize : BitVec 32

/-- `fdt_init`.  The total size is kept in the order of the header. -/
def fdtInit (m : Nat → UInt8) (g : FdtGlobals) (fdtBase : Nat) : FdtGlobals × Int :=
  if fdtBase = 0 then (g, 0)
  else
    let g := { g with base := fdtBase }
    let field := fun offset => be2leU32 (loadWord m (fdtBase + offset))
    if field 0 ≠ fdtMagic then (g, -1)
    else
      ({ g with
          totalSize := loadWord m (fdtBase + 4)
          structure_ := fdtBase + (field 8).toNat
          strings := fdtBase + (field 12).toNat
          stringsSize := field 32
          structureSize := field 36 }, 0)

/-! ## The accesses -/

/-- A byte that is read, or a place from which the name of a property is taken. -/
inductive Access where
  | read (address : Nat)
  | name (address : Nat)

def wordReads (p : Nat) : List Access := [.read p, .read (p + 1), .read (p + 2), .read (p + 3)]

/-- The reads of `strlen`. -/
def strlenReads (m : Nat → UInt8) : Nat → Nat → List Access
  | 0, _ => []
  | fuel + 1, p => .read p :: if m p ≠ 0 then strlenReads m fuel (p + 1) else []

section Walk

variable {σ : Type}

/-- The accesses of the loop of `fdt_parse_node`, in order. -/
def fdtParseNodeLog (m : Nat → UInt8) (strings : Nat) (callback : FdtCallback σ) :
    Nat → Nat → σ → List Access
  | 0, _, _ => []
  | fuel + 1, p, s =>
      let token := be2leU32 (loadWord m p)
      let reads := wordReads p
      let p := p + 4
      if token = fdtBeginNode then
        let name := p
        reads ++ (strlenReads m addressSpace name ++
          match strlen (from_ m name) with
          | none => []
          | some len =>
              let p := p + (align (len + 1) 4).toNat
              let (s, ret) := callback.invoke s ⟨fdtBeginNode, some name, none, 0⟩
              if ret ≠ 0 then [] else fdtParseNodeLog m strings callback fuel p s)
      else if token = fdtEndNode then
        let (s, ret) := callback.invoke s ⟨fdtEndNode, none, none, 0⟩
        reads ++ if ret ≠ 0 then [] else fdtParseNodeLog m strings callback fuel p s
      else if token = fdtProp then
        let len := be2leU32 (loadWord m p)
        let nameoff := be2leU32 (loadWord m (p + 4))
        let name := strings + nameoff.toNat
        let data := p + fdtPropSize
        let reads := reads ++ (wordReads p ++ (wordReads (p + 4) ++ [.name name]))
        let p := p + (fdtPropSize + (align len 4).toNat)
        let (s, ret) := callback.invoke s ⟨fdtProp, some name, some data, len⟩
        reads ++ if ret ≠ 0 then [] else fdtParseNodeLog m strings callback fuel p s
      else if token = fdtNop then reads ++ fdtParseNodeLog m strings callback fuel p s
      else reads

end Walk

/-! ## Staying inside -/

/-- The string at an address has its null character after so many others. -/
structure Text (m : Nat → UInt8) (p n : Nat) : Prop where
  goes : ∀ i < n, m (p + i) ≠ 0
  ends : m (p + n) = 0

/-- From an address on, tokens that are inside the block follow each other up to
a `FDT_END`. -/
inductive Ends (m : Nat → UInt8) (last : Nat) : Nat → Prop
  | finish {p : Nat} (inside : p + 4 ≤ last) (token : be2leU32 (loadWord m p) = fdtEnd) : Ends m last p
  | endNode {p : Nat} (token : be2leU32 (loadWord m p) = fdtEndNode) (later : Ends m last (p + 4)) :
      Ends m last p
  | nop {p : Nat} (token : be2leU32 (loadWord m p) = fdtNop) (later : Ends m last (p + 4)) :
      Ends m last p
  | beginNode {p n : Nat} (token : be2leU32 (loadWord m p) = fdtBeginNode) (text : Text m (p + 4) n)
      (later : Ends m last (p + 4 + padded (n + 1))) : Ends m last p
  | prop {p : Nat} (token : be2leU32 (loadWord m p) = fdtProp)
      (later : Ends m last (p + 12 + padded (be2leU32 (loadWord m (p + 4))).toNat)) : Ends m last p

/-- The walk reads bytes of the structure block only, takes names from the
strings block only and comes to an end, whatever it calls.  It returns -1 if the
tokens do not go on to a `FDT_END` inside the block. -/
structure StaysInside (m : Nat → UInt8) (g : FdtGlobals) : Prop where
  reads : ∀ (σ : Type) (callback : FdtCallback σ) s fuel a,
    .read a ∈ fdtParseNodeLog m g.strings callback fuel g.structure_ s →
      g.structure_ ≤ a ∧ a < g.structure_ + g.structureSize.toNat
  names : ∀ (σ : Type) (callback : FdtCallback σ) s fuel a,
    .name a ∈ fdtParseNodeLog m g.strings callback fuel g.structure_ s →
      g.strings ≤ a ∧ a < g.strings + g.stringsSize.toNat
  returns : ∀ (σ : Type) (callback : FdtCallback σ) s, ∃ enough result,
    (∀ fuel, enough ≤ fuel →
      fdtParseNode m g.strings callback fuel g.structure_ s = some result) ∧
    (¬ Ends m (g.structure_ + g.structureSize.toNat) g.structure_ → result.2.1 = -1)

/-- The contents of the blocks from an address on: tokens inside the block, with
names inside the other block, up to a `FDT_END`, if it may end there, or to a
word that is no token.  A value whose length does not fit a word once it is
padded is passed as if it were empty; what follows may not end then. -/
inductive Contained (m : Nat → UInt8) (last namesSize : Nat) : Bool → Nat → Prop
  | finish {p : Nat} (inside : p + 4 ≤ last) (token : be2leU32 (loadWord m p) = fdtEnd) :
      Contained m last namesSize true p
  | unknown {mayEnd : Bool} {p : Nat} (inside : p + 4 ≤ last)
      (token : be2leU32 (loadWord m p) ∉ [fdtBeginNode, fdtEndNode, fdtProp, fdtNop, fdtEnd]) :
      Contained m last namesSize mayEnd p
  | endNode {mayEnd : Bool} {p : Nat} (token : be2leU32 (loadWord m p) = fdtEndNode)
      (later : Contained m last namesSize mayEnd (p + 4)) : Contained m last namesSize mayEnd p
  | nop {mayEnd : Bool} {p : Nat} (token : be2leU32 (loadWord m p) = fdtNop)
      (later : Contained m last namesSize mayEnd (p + 4)) : Contained m last namesSize mayEnd p
  | beginNode {mayEnd : Bool} {p n : Nat} (token : be2leU32 (loadWord m p) = fdtBeginNode)
      (text : Text m (p + 4) n)
      (later : Contained m last namesSize mayEnd (p + 4 + padded (n + 1))) :
      Contained m last namesSize mayEnd p
  | prop {mayEnd : Bool} {p : Nat} (token : be2leU32 (loadWord m p) = fdtProp)
      (name : (be2leU32 (loadWord m (p + 8))).toNat < namesSize)
      (later : Contained m last namesSize mayEnd
        (p + 12 + padded (be2leU32 (loadWord m (p + 4))).toNat)) : Contained m last namesSize mayEnd p
  | wraps {mayEnd : Bool} {p : Nat} (token : be2leU32 (loadWord m p) = fdtProp)
      (name : (be2leU32 (loadWord m (p + 8))).toNat < namesSize)
      (long : 2 ^ 32 ≤ (be2leU32 (loadWord m (p + 4))).toNat + 3)
      (later : Contained m last namesSize false (p + 12)) : Contained m last namesSize mayEnd p

/-! ## Strings -/

section Strings

variable {m : Nat → UInt8} {p n fuel i : Nat} {len r : BitVec 32}

theorem Text.first (text : Text m p 0) : m p = 0 := text.ends

theorem Text.head (text : Text m p (n + 1)) : m p ≠ 0 := text.goes 0 (Nat.zero_lt_succ n)

theorem text_succ_iff : Text m p (n + 1) ↔ m p ≠ 0 ∧ Text m (p + 1) n := by
  constructor
  · intro text
    refine ⟨text.head, fun j below => ?_, ?_⟩
    · rw [Nat.add_right_comm]
      exact text.goes (j + 1) (Nat.succ_lt_succ below)
    · rw [Nat.add_right_comm]
      exact text.ends
  · rintro ⟨head, goes, ends⟩
    refine ⟨fun j below => ?_, ?_⟩
    · cases j with
      | zero => exact head
      | succ j =>
          rw [Nat.add_comm j, ← Nat.add_assoc]
          exact goes j (Nat.lt_of_succ_lt_succ below)
    · rw [Nat.add_comm n, ← Nat.add_assoc]
      exact ends

/-- The loop of `strlen` ends at the first null character. -/
theorem strlenLoop_some (measured : strlenLoop (from_ m p) fuel i len = some r) :
    ∃ n, n < fuel ∧ Text m (p + i) n ∧ r = len + BitVec.ofNat 32 n := by
  induction fuel generalizing i len with
  | zero => cases measured
  | succ fuel ih =>
      rw [strlenLoop] at measured
      split at measured
      · next goes =>
          obtain ⟨n, small, text, rfl⟩ := ih measured
          refine ⟨n + 1, Nat.succ_lt_succ small, text_succ_iff.mpr ⟨goes, text⟩, ?_⟩
          rw [BitVec.ofNat_add, BitVec.add_assoc, BitVec.add_comm 1]
          rfl
      · next ends =>
          cases measured
          exact ⟨0, Nat.zero_lt_succ fuel, ⟨fun j before => absurd before (Nat.not_lt_zero j),
            not_not.mp ends⟩, by simp⟩

theorem Text.strlenLoop (text : Text m (p + i) n) (enough : n < fuel) :
    Boot.strlenLoop (from_ m p) fuel i len = some (len + BitVec.ofNat 32 n) := by
  induction n generalizing fuel i len with
  | zero =>
      obtain ⟨fuel, rfl⟩ := Nat.exists_eq_succ_of_ne_zero (Nat.ne_of_gt enough)
      have ends : from_ m p i = 0 := text.first
      simp [Boot.strlenLoop, ends]
  | succ n ih =>
      obtain ⟨fuel, rfl⟩ := Nat.exists_eq_succ_of_ne_zero (Nat.ne_of_gt (Nat.zero_lt_of_lt enough))
      obtain ⟨goes, rest⟩ := text_succ_iff.mp text
      have goesOn : from_ m p i ≠ 0 := goes
      rw [Boot.strlenLoop, if_pos goesOn, ih rest (Nat.lt_of_succ_lt_succ enough), BitVec.ofNat_add,
        BitVec.add_assoc, BitVec.add_comm 1]
      rfl

theorem Text.strlen (text : Text m p n) (enough : n < addressSpace) :
    Boot.strlen (from_ m p) = some (BitVec.ofNat 32 n) :=
  (Text.strlenLoop (i := 0) text enough).trans (congrArg some (BitVec.zero_add _))

/-- `strlen` reads a string with its null character. -/
theorem Text.reads (text : Text m p n) (enough : n < fuel) :
    strlenReads m fuel p = (List.range' p (n + 1)).map .read := by
  induction n generalizing fuel p with
  | zero =>
      obtain ⟨fuel, rfl⟩ := Nat.exists_eq_succ_of_ne_zero (Nat.ne_of_gt enough)
      rw [strlenReads, if_neg (not_not_intro text.first)]
      rfl
  | succ n ih =>
      obtain ⟨fuel, rfl⟩ := Nat.exists_eq_succ_of_ne_zero (Nat.ne_of_gt (Nat.zero_lt_of_lt enough))
      obtain ⟨goes, rest⟩ := text_succ_iff.mp text
      rw [strlenReads, if_pos goes, ih rest (Nat.lt_of_succ_lt_succ enough)]
      rfl

theorem Text.unique {n' : Nat} (text : Text m p n) (text' : Text m p n') : n = n' := by
  rcases Nat.lt_trichotomy n n' with below | same | above
  · exact absurd text.ends (text'.goes n below)
  · exact same
  · exact absurd text'.ends (text.goes n' above)

end Strings

/-! ## One token -/

/-- The walk goes past a token: what the callback is told of it, the accesses, and
where the next token is. -/
inductive Passes (m : Nat → UInt8) (strings p : Nat) : Option Call → List Access → Nat → Prop
  | beginNode {len : BitVec 32} (token : be2leU32 (loadWord m p) = fdtBeginNode)
      (measured : strlen (from_ m (p + 4)) = some len) :
      Passes m strings p (some ⟨fdtBeginNode, some (p + 4), none, 0⟩)
        (wordReads p ++ strlenReads m addressSpace (p + 4)) (p + 4 + (align (len + 1) 4).toNat)
  | endNode (token : be2leU32 (loadWord m p) = fdtEndNode) :
      Passes m strings p (some ⟨fdtEndNode, none, none, 0⟩) (wordReads p) (p + 4)
  | prop (token : be2leU32 (loadWord m p) = fdtProp) :
      Passes m strings p
        (some ⟨fdtProp, some (strings + (be2leU32 (loadWord m (p + 8))).toNat), some (p + 12),
          be2leU32 (loadWord m (p + 4))⟩)
        (wordReads p ++ (wordReads (p + 4) ++ (wordReads (p + 8) ++
          [.name (strings + (be2leU32 (loadWord m (p + 8))).toNat)])))
        (p + 12 + (align (be2leU32 (loadWord m (p + 4))) 4).toNat)
  | nop (token : be2leU32 (loadWord m p) = fdtNop) : Passes m strings p none (wordReads p) (p + 4)

section Rounds

variable {σ : Type} {m : Nat → UInt8} {strings p next fuel : Nat} {callback : FdtCallback σ} {s : σ}
  {call : Option Call} {reads : List Access}

theorem tokens_ne : fdtEndNode ≠ fdtBeginNode ∧ fdtProp ≠ fdtBeginNode ∧ fdtProp ≠ fdtEndNode ∧
    fdtNop ≠ fdtBeginNode ∧ fdtNop ≠ fdtEndNode ∧ fdtNop ≠ fdtProp := by decide

theorem Passes.loop (passes : Passes m strings p call reads next) :
    fdtParseNodeLoop m strings callback (fuel + 1) p s =
      match call with
      | none => fdtParseNodeLoop m strings callback fuel next s
      | some call =>
          if (callback.invoke s call).2 ≠ 0 then some ((callback.invoke s call).1, -1, next)
          else fdtParseNodeLoop m strings callback fuel next (callback.invoke s call).1 := by
  obtain ⟨endBegin, propBegin, propEnd, nopBegin, nopEnd, nopProp⟩ := tokens_ne
  cases passes with
  | beginNode token measured =>
      simp only [fdtParseNodeLoop, token, measured, if_true, Option.bind_eq_bind, Option.bind_some,
        Option.pure_def]
  | endNode token =>
      simp only [fdtParseNodeLoop, token, if_neg endBegin, if_true]
  | prop token =>
      simp only [fdtParseNodeLoop, token, if_neg propBegin,
        if_neg propEnd, if_true, fdtPropSize, Nat.add_assoc, Nat.reduceAdd]
      simp only [← Nat.add_assoc, Nat.reduceAdd]
  | nop token =>
      simp only [fdtParseNodeLoop, token, if_neg nopBegin,
        if_neg nopEnd, if_neg nopProp, if_true]

theorem Passes.log (passes : Passes m strings p call reads next) :
    fdtParseNodeLog m strings callback (fuel + 1) p s = reads ++
      match call with
      | none => fdtParseNodeLog m strings callback fuel next s
      | some call =>
          if (callback.invoke s call).2 ≠ 0 then []
          else fdtParseNodeLog m strings callback fuel next (callback.invoke s call).1 := by
  obtain ⟨endBegin, propBegin, propEnd, nopBegin, nopEnd, nopProp⟩ := tokens_ne
  cases passes with
  | beginNode token measured =>
      simp only [fdtParseNodeLog, token, measured, if_true, List.append_assoc]
  | endNode token =>
      simp only [fdtParseNodeLog, token, if_neg endBegin, if_true]
  | prop token =>
      simp only [fdtParseNodeLog, token, if_neg propBegin,
        if_neg propEnd, if_true, fdtPropSize, Nat.add_assoc, Nat.reduceAdd]
      simp only [← Nat.add_assoc, Nat.reduceAdd]
  | nop token =>
      simp only [fdtParseNodeLog, token, if_neg nopBegin,
        if_neg nopEnd, if_neg nopProp, if_true]

/-- The other rounds are the last ones. -/
inductive Stops (m : Nat → UInt8) (p : Nat) : Prop
  | finish (token : be2leU32 (loadWord m p) = fdtEnd)
  | unknown (token : be2leU32 (loadWord m p) ∉ [fdtBeginNode, fdtEndNode, fdtProp, fdtNop, fdtEnd])
  | unended (token : be2leU32 (loadWord m p) = fdtBeginNode) (unended : strlen (from_ m (p + 4)) = none)

theorem stops_or_passes (m : Nat → UInt8) (strings p : Nat) :
    Stops m p ∨ ∃ call reads next, Passes m strings p call reads next := by
  by_cases isBegin : be2leU32 (loadWord m p) = fdtBeginNode
  · cases measured : strlen (from_ m (p + 4)) with
    | none => exact .inl (.unended isBegin measured)
    | some len => exact .inr ⟨_, _, _, .beginNode isBegin measured⟩
  by_cases isEndNode : be2leU32 (loadWord m p) = fdtEndNode
  · exact .inr ⟨_, _, _, .endNode isEndNode⟩
  by_cases isProp : be2leU32 (loadWord m p) = fdtProp
  · exact .inr ⟨_, _, _, .prop isProp⟩
  by_cases isNop : be2leU32 (loadWord m p) = fdtNop
  · exact .inr ⟨_, _, _, .nop isNop⟩
  by_cases isEnd : be2leU32 (loadWord m p) = fdtEnd
  · exact .inl (.finish isEnd)
  · refine .inl (.unknown ?_)
    simp [isBegin, isEndNode, isProp, isNop, isEnd]

theorem loop_end (token : be2leU32 (loadWord m p) = fdtEnd) :
    fdtParseNodeLoop m strings callback (fuel + 1) p s = some (s, 0, p + 4) ∧
      fdtParseNodeLog m strings callback (fuel + 1) p s = wordReads p := by
  have others : ¬ fdtEnd = fdtBeginNode ∧ ¬ fdtEnd = fdtEndNode ∧ ¬ fdtEnd = fdtProp ∧ ¬ fdtEnd = fdtNop := by
    decide
  obtain ⟨first, second, third, fourth⟩ := others
  simp only [fdtParseNodeLoop, fdtParseNodeLog, token, if_neg first, if_neg second, if_neg third,
    if_neg fourth, if_true, and_self]

theorem loop_unknown
    (token : be2leU32 (loadWord m p) ∉ [fdtBeginNode, fdtEndNode, fdtProp, fdtNop, fdtEnd]) :
    fdtParseNodeLoop m strings callback (fuel + 1) p s = some (s, -1, p + 4) ∧
      fdtParseNodeLog m strings callback (fuel + 1) p s = wordReads p := by
  simp only [List.mem_cons, List.not_mem_nil, or_false, not_or] at token
  obtain ⟨first, second, third, fourth, fifth⟩ := token
  simp only [fdtParseNodeLoop, fdtParseNodeLog, if_neg first, if_neg second, if_neg third,
    if_neg fourth, if_neg fifth, and_self]

/-! ### Nothing else is read -/

variable {m' : Nat → UInt8}

theorem loadWord_congr (same : ∀ a, .read a ∈ wordReads p → m' a = m a) :
    loadWord m' p = loadWord m p := by
  unfold loadWord
  rw [same p (by simp [wordReads]), same (p + 1) (by simp [wordReads]), same (p + 2) (by simp [wordReads]),
    same (p + 3) (by simp [wordReads])]

theorem strlenLoop_congr {i : Nat} {len : BitVec 32}
    (same : ∀ a, .read a ∈ strlenReads m fuel (p + i) → m' a = m a) :
    strlenLoop (from_ m' p) fuel i len = strlenLoop (from_ m p) fuel i len := by
  induction fuel generalizing i len with
  | zero => rfl
  | succ fuel ih =>
      have here : from_ m' p i = from_ m p i := same (p + i) List.mem_cons_self
      rw [strlenLoop, strlenLoop, here]
      split
      · next goes =>
          have goesOn : m (p + i) ≠ 0 := goes
          refine ih fun a member => same a ?_
          rw [strlenReads, if_pos goesOn]
          exact List.mem_cons_of_mem _ member
      · rfl

/-- The result depends on the bytes that are read only. -/
theorem fdtParseNodeLoop_congr
    (same : ∀ a, .read a ∈ fdtParseNodeLog m strings callback fuel p s → m' a = m a) :
    fdtParseNodeLoop m' strings callback fuel p s = fdtParseNodeLoop m strings callback fuel p s := by
  induction fuel generalizing p s with
  | zero => rfl
  | succ fuel ih =>
      have word : ∀ reads, fdtParseNodeLog m strings callback (fuel + 1) p s = wordReads p ++ reads →
          loadWord m' p = loadWord m p := fun reads log =>
        loadWord_congr fun a member => same a (log ▸ List.mem_append_left reads member)
      rcases stops_or_passes m strings p with stops | ⟨call, reads, next, passes⟩
      · cases stops with
        | finish token =>
            have token' := token
            rw [← word [] ((loop_end token).2.trans (List.append_nil _).symm)] at token'
            rw [(loop_end token).1, (loop_end token').1]
        | unknown token =>
            have token' := token
            rw [← word [] ((loop_unknown token).2.trans (List.append_nil _).symm)] at token'
            rw [(loop_unknown token).1, (loop_unknown token').1]
        | unended token unended =>
            have log : fdtParseNodeLog m strings callback (fuel + 1) p s =
                wordReads p ++ strlenReads m addressSpace (p + 4) := by
              simp only [fdtParseNodeLog, token, unended, if_true, List.append_nil]
            have token' := token
            rw [← word _ log] at token'
            have unended' : strlen (from_ m' (p + 4)) = none := by
              rw [← unended]
              refine @strlenLoop_congr m (p + 4) _ m' 0 0 fun a member => same a ?_
              rw [log]
              exact List.mem_append_right _ member
            simp only [fdtParseNodeLoop, token, token', unended, unended', if_true, Option.bind_eq_bind,
              Option.bind_none]
      · have inReads : ∀ a, .read a ∈ reads → m' a = m a := fun a member =>
          same a (by rw [passes.log]; exact List.mem_append_left _ member)
        obtain ⟨_, passes'⟩ : ∃ reads', Passes m' strings p call reads' next := by
          cases passes with
          | endNode token => exact ⟨_, .endNode ((loadWord_congr inReads).symm ▸ token)⟩
          | nop token => exact ⟨_, .nop ((loadWord_congr inReads).symm ▸ token)⟩
          | @beginNode len token measured =>
              have word := loadWord_congr fun a member => inReads a (List.mem_append_left _ member)
              have string := @strlenLoop_congr m (p + 4) addressSpace m' 0 0
                fun a member => inReads a (List.mem_append_right _ member)
              exact ⟨_, .beginNode (word.symm ▸ token) (string.trans measured)⟩
          | prop token =>
              have word := loadWord_congr fun a member => inReads a (List.mem_append_left _ member)
              have later := fun a member => inReads a (List.mem_append_right _ member)
              have len := loadWord_congr fun a member => later a (List.mem_append_left _ member)
              have offset := loadWord_congr fun a member =>
                later a (List.mem_append_right _ (List.mem_append_left _ member))
              have passes' : Passes m' strings p _ _ _ := .prop (word.symm ▸ token)
              rw [len, offset] at passes'
              exact ⟨_, passes'⟩
        rw [passes.loop, passes'.loop]
        cases call with
        | none => exact ih fun a member => same a (by rw [passes.log]; exact List.mem_append_right _ member)
        | some call =>
            dsimp only
            split
            · rfl
            · next goes =>
                refine ih fun a member => same a ?_
                rw [passes.log]
                dsimp only
                rw [if_neg goes]
                exact List.mem_append_right _ member

end Rounds

/-! ## Accesses inside the blocks -/

/-- What is read is in one block, and names are in the other. -/
structure Inside (start last strings namesSize : Nat) (accesses : List Access) : Prop where
  reads : ∀ a, .read a ∈ accesses → start ≤ a ∧ a < last
  names : ∀ a, .name a ∈ accesses → strings ≤ a ∧ a < strings + namesSize

section Inside

variable {m : Nat → UInt8} {start last strings namesSize p n : Nat} {first second : List Access}
  {len : BitVec 32} {mayEnd : Bool}

theorem inside_append_iff : Inside start last strings namesSize (first ++ second) ↔
    Inside start last strings namesSize first ∧ Inside start last strings namesSize second := by
  constructor
  · rintro ⟨reads, names⟩
    exact ⟨⟨fun a member => reads a (List.mem_append_left _ member),
        fun a member => names a (List.mem_append_left _ member)⟩,
      ⟨fun a member => reads a (List.mem_append_right _ member),
        fun a member => names a (List.mem_append_right _ member)⟩⟩
  · rintro ⟨⟨reads, names⟩, ⟨reads', names'⟩⟩
    exact ⟨fun a member => (List.mem_append.mp member).elim (reads a) (reads' a),
      fun a member => (List.mem_append.mp member).elim (names a) (names' a)⟩

theorem Inside.nil : Inside start last strings namesSize [] :=
  ⟨fun _ member => (List.not_mem_nil member).elim, fun _ member => (List.not_mem_nil member).elim⟩

theorem inside_wordReads (above : start ≤ p) :
    Inside start last strings namesSize (wordReads p) ↔ p + 4 ≤ last := by
  constructor
  · rintro ⟨reads, _⟩
    have bound := (reads (p + 3) (by simp [wordReads])).2
    omega
  · intro fits
    refine ⟨fun a member => ?_, fun a member => ?_⟩
    · simp only [wordReads, List.mem_cons, Access.read.injEq, List.not_mem_nil, or_false] at member
      omega
    · simp [wordReads] at member

theorem Text.inside_iff (text : Text m p n) (enough : n < addressSpace) (above : start ≤ p) :
    Inside start last strings namesSize (strlenReads m addressSpace p) ↔ p + n < last := by
  rw [text.reads enough]
  constructor
  · rintro ⟨reads, _⟩
    refine (reads (p + n) (List.mem_map_of_mem ?_)).2
    rw [List.mem_range'_1]
    omega
  · intro fits
    refine ⟨fun a member => ?_, fun a member => ?_⟩
    · obtain ⟨b, inRange, same⟩ := List.mem_map.mp member
      cases same
      rw [List.mem_range'_1] at inRange
      omega
    · obtain ⟨b, _, same⟩ := List.mem_map.mp member
      cases same

theorem inside_name : Inside start last strings namesSize [.name (strings + n)] ↔ n < namesSize := by
  constructor
  · rintro ⟨_, names⟩
    have bound := (names _ List.mem_cons_self).2
    omega
  · intro fits
    refine ⟨fun a member => ?_, fun a member => ?_⟩
    · cases List.mem_singleton.mp member
    · cases List.mem_singleton.mp member
      omega

theorem align_name (short : n + 4 < 2 ^ 32) :
    (align (BitVec.ofNat 32 n + 1) 4).toNat = padded (n + 1) := by
  have next : (BitVec.ofNat 32 n + 1).toNat = n + 1 := by
    rw [show (1 : BitVec 32) = BitVec.ofNat 32 1 from rfl, ← BitVec.ofNat_add, BitVec.toNat_ofNat]
    exact Nat.mod_eq_of_lt (by omega)
  rw [align_four (by omega), next]

/-- The padded length of the longest values does not fit a word. -/
theorem align_wraps (long : 2 ^ 32 ≤ len.toNat + 3) : (align len 4).toNat = 0 := by
  have cases : len = 0xfffffffd ∨ len = 0xfffffffe ∨ len = 0xffffffff := by
    have bound := len.isLt
    have number : len.toNat = 0xfffffffd ∨ len.toNat = 0xfffffffe ∨ len.toNat = 0xffffffff := by omega
    exact number.imp (fun same => BitVec.eq_of_toNat_eq same) fun number =>
      number.imp (fun same => BitVec.eq_of_toNat_eq same) fun same => BitVec.eq_of_toNat_eq same
  obtain rfl | rfl | rfl := cases <;> rfl

theorem Ends.bound (ends : Ends m last p) : p + 4 ≤ last := by
  induction ends with
  | finish inside token => exact inside
  | endNode token later ih => omega
  | nop token later ih => omega
  | beginNode token text later ih => omega
  | prop token later ih => omega

/-- What follows the token at an address from which the tokens go on to the end. -/
theorem Ends.later (ends : Ends m last p) :
    (be2leU32 (loadWord m p) = fdtEndNode → Ends m last (p + 4)) ∧
    (be2leU32 (loadWord m p) = fdtNop → Ends m last (p + 4)) ∧
    (be2leU32 (loadWord m p) = fdtBeginNode → ∃ n, Text m (p + 4) n ∧
      Ends m last (p + 4 + padded (n + 1))) ∧
    (be2leU32 (loadWord m p) = fdtProp →
      Ends m last (p + 12 + padded (be2leU32 (loadWord m (p + 4))).toNat)) := by
  have other : ∀ {first second : BitVec 32} {P : Prop}, be2leU32 (loadWord m p) = first →
      first ≠ second → be2leU32 (loadWord m p) = second → P :=
    fun isFirst differ isSecond => absurd (isFirst.symm.trans isSecond) differ
  cases ends with
  | finish inside token =>
      exact ⟨other token (by decide), other token (by decide), other token (by decide),
        other token (by decide)⟩
  | endNode token later =>
      exact ⟨fun _ => later, other token (by decide), other token (by decide), other token (by decide)⟩
  | nop token later =>
      exact ⟨other token (by decide), fun _ => later, other token (by decide), other token (by decide)⟩
  | beginNode token text later =>
      exact ⟨other token (by decide), other token (by decide), fun _ => ⟨_, text, later⟩,
        other token (by decide)⟩
  | prop token later =>
      exact ⟨other token (by decide), other token (by decide), other token (by decide), fun _ => later⟩

theorem Contained.bound (contained : Contained m last namesSize mayEnd p) : p + 4 ≤ last := by
  induction contained with
  | finish inside token => exact inside
  | unknown inside token => exact inside
  | endNode token later ih => omega
  | nop token later ih => omega
  | beginNode token text later ih => omega
  | prop token name later ih => omega
  | wraps token name long later ih => omega

end Inside

/-! ## All tokens -/

/-- The walk from an address on stays inside, and comes to an end.  It returns
another value than -1 only where it may end. -/
def Walks {σ : Type} (m : Nat → UInt8) (start last strings namesSize : Nat) (callback : FdtCallback σ)
    (mayEnd : Bool) (p : Nat) : Prop :=
  ∀ s, (∀ fuel, Inside start last strings namesSize (fdtParseNodeLog m strings callback fuel p s)) ∧
    ∃ enough result,
      (∀ fuel, enough ≤ fuel → fdtParseNodeLoop m strings callback fuel p s = some result) ∧
      (result.2.1 ≠ -1 → mayEnd = true ∧ Ends m last p)

section Walks

variable {σ : Type} {m : Nat → UInt8} {start last strings namesSize p next : Nat}
  {callback : FdtCallback σ} {mayEnd mayEnd' : Bool} {call : Option Call} {reads : List Access}

/-- A walk that goes past a token. -/
theorem Walks.step (later : Walks m start last strings namesSize callback mayEnd' next)
    (passes : Passes m strings p call reads next) (inside : Inside start last strings namesSize reads)
    (ends : mayEnd' = true → Ends m last next → mayEnd = true ∧ Ends m last p) :
    Walks m start last strings namesSize callback mayEnd p := by
  intro s
  constructor
  · intro fuel
    cases fuel with
    | zero => exact .nil
    | succ fuel =>
        rw [passes.log]
        refine inside_append_iff.mpr ⟨inside, ?_⟩
        cases call with
        | none => exact (later s).1 fuel
        | some call =>
            dsimp only
            split
            · exact .nil
            · exact (later _).1 fuel
  · have goesOn : ∀ s', (∀ fuel, fdtParseNodeLoop m strings callback (fuel + 1) p s =
        fdtParseNodeLoop m strings callback fuel next s') → ∃ enough result,
          (∀ fuel, enough ≤ fuel → fdtParseNodeLoop m strings callback fuel p s = some result) ∧
          (result.2.1 ≠ -1 → mayEnd = true ∧ Ends m last p) := by
      intro s' same
      obtain ⟨enough, result, runs, rejects⟩ := (later s').2
      refine ⟨enough + 1, result, fun fuel above => ?_, fun other => ?_⟩
      · obtain ⟨fuel, rfl⟩ := Nat.exists_eq_succ_of_ne_zero (Nat.ne_of_gt (Nat.zero_lt_of_lt above))
        rw [same]
        exact runs fuel (Nat.le_of_succ_le_succ above)
      · obtain ⟨may, endsLater⟩ := rejects other
        exact ends may endsLater
    cases call with
    | none => exact goesOn s fun fuel => passes.loop
    | some call =>
        by_cases stops : (callback.invoke s call).2 ≠ 0
        · refine ⟨1, ((callback.invoke s call).1, -1, next), fun fuel above => ?_, fun other => absurd rfl other⟩
          obtain ⟨fuel, rfl⟩ := Nat.exists_eq_succ_of_ne_zero (Nat.ne_of_gt (Nat.zero_lt_of_lt above))
          rw [passes.loop]
          exact if_pos stops
        · refine goesOn (callback.invoke s call).1 fun fuel => ?_
          rw [passes.loop]
          exact if_neg stops

/-- A walk that ends at a token. -/
theorem walks_last {ret : Int} (inside : start ≤ p ∧ p + 4 ≤ last)
    (runs : ∀ fuel s, fdtParseNodeLoop m strings callback (fuel + 1) p s = some (s, ret, p + 4) ∧
      fdtParseNodeLog m strings callback (fuel + 1) p s = wordReads p)
    (rejects : ret ≠ -1 → mayEnd = true ∧ Ends m last p) :
    Walks m start last strings namesSize callback mayEnd p := by
  intro s
  refine ⟨fun fuel => ?_, 1, (s, ret, p + 4), fun fuel above => ?_, rejects⟩
  · cases fuel with
    | zero => exact .nil
    | succ fuel =>
        rw [(runs fuel s).2]
        exact (inside_wordReads inside.1).mpr inside.2
  · obtain ⟨fuel, rfl⟩ := Nat.exists_eq_succ_of_ne_zero (Nat.ne_of_gt (Nat.zero_lt_of_lt above))
    exact (runs fuel s).1

theorem Contained.walks (contained : Contained m last namesSize mayEnd p) (above : start ≤ p)
    (small : last < start + 2 ^ 32) : Walks m start last strings namesSize callback mayEnd p := by
  have fits := contained.bound
  induction contained with
  | finish inside token =>
      exact walks_last ⟨above, inside⟩ (fun _ _ => loop_end token) fun _ => ⟨rfl, .finish inside token⟩
  | unknown inside token =>
      exact walks_last ⟨above, inside⟩ (fun _ _ => loop_unknown token) fun other => absurd rfl other
  | endNode token later ih =>
      refine (ih (by omega) later.bound).step (.endNode token) ((inside_wordReads above).mpr fits) ?_
      exact fun may ends => ⟨may, .endNode token ends⟩
  | nop token later ih =>
      refine (ih (by omega) later.bound).step (.nop token) ((inside_wordReads above).mpr fits) ?_
      exact fun may ends => ⟨may, .nop token ends⟩
  | @beginNode mayEnd p n token text later ih =>
      have room := later.bound
      have longer : n + 1 ≤ padded (n + 1) := by
        unfold padded
        omega
      have short : n < addressSpace := by
        unfold addressSpace
        omega
      have passes : Passes m strings p _ _ _ := .beginNode token (text.strlen short)
      rw [align_name (by omega)] at passes
      refine (ih (by omega) room).step passes ?_ fun may ends => ⟨may, .beginNode token text ends⟩
      refine inside_append_iff.mpr ⟨(inside_wordReads above).mpr fits, ?_⟩
      exact (text.inside_iff short (by omega)).mpr (by omega)
  | @prop mayEnd p token name later ih =>
      have room := later.bound
      have passes : Passes m strings p _ _ _ := .prop token
      have longer : (be2leU32 (loadWord m (p + 4))).toNat ≤ padded (be2leU32 (loadWord m (p + 4))).toNat := by
        unfold padded
        omega
      rw [align_four (by unfold padded at room; omega)] at passes
      refine (ih (by omega) room).step passes ?_ fun may ends => ⟨may, .prop token ends⟩
      refine inside_append_iff.mpr ⟨(inside_wordReads above).mpr fits, ?_⟩
      refine inside_append_iff.mpr ⟨(inside_wordReads (by omega)).mpr (by omega), ?_⟩
      exact inside_append_iff.mpr ⟨(inside_wordReads (by omega)).mpr (by omega), inside_name.mpr name⟩
  | @wraps mayEnd p token name long later ih =>
      have room := later.bound
      have passes : Passes m strings p _ _ _ := .prop token
      rw [align_wraps long] at passes
      refine (ih (by omega) room).step passes ?_ nofun
      refine inside_append_iff.mpr ⟨(inside_wordReads above).mpr fits, ?_⟩
      refine inside_append_iff.mpr ⟨(inside_wordReads (by omega)).mpr (by omega), ?_⟩
      exact inside_append_iff.mpr ⟨(inside_wordReads (by omega)).mpr (by omega), inside_name.mpr name⟩

/-- A walk that stays inside without a callback goes over contents that keep it there. -/
theorem contained_of_walk {fuel : Nat} {result : Unit × Int × Nat} (above : start ≤ p)
    (small : last < start + 2 ^ 32)
    (inside : ∀ fuel, Inside start last strings namesSize (fdtParseNodeLog m strings none fuel p ()))
    (runs : fdtParseNodeLoop m strings none fuel p () = some result)
    (rejects : result.2.1 ≠ -1 → mayEnd = true ∧ Ends m last p) :
    Contained m last namesSize mayEnd p := by
  induction fuel generalizing p mayEnd with
  | zero => cases runs
  | succ fuel ih =>
      rcases stops_or_passes m strings p with stops | ⟨call, reads, next, passes⟩
      · cases stops with
        | finish token =>
            have log := inside 1
            rw [(loop_end token).2, inside_wordReads above] at log
            rw [(loop_end token).1] at runs
            cases runs
            obtain ⟨rfl, _⟩ := rejects (show (0 : Int) ≠ -1 by decide)
            exact .finish log token
        | unknown token =>
            have log := inside 1
            rw [(loop_unknown token).2, inside_wordReads above] at log
            exact .unknown log token
        | unended token unended =>
            simp only [fdtParseNodeLoop, token, unended, if_true, Option.bind_eq_bind, Option.bind_none] at runs
            cases runs
      · have readsInside : Inside start last strings namesSize reads := by
          have log := inside 1
          rw [passes.log] at log
          exact (inside_append_iff.mp log).1
        have insideNext : ∀ fuel, Inside start last strings namesSize
            (fdtParseNodeLog m strings (none : FdtCallback Unit) fuel next ()) := by
          intro fuel
          have log := inside (fuel + 1)
          rw [passes.log] at log
          have rest := (inside_append_iff.mp log).2
          cases call with
          | none => exact rest
          | some call => exact rest
        have runsNext : fdtParseNodeLoop m strings (none : FdtCallback Unit) fuel next () = some result := by
          rw [passes.loop] at runs
          cases call with
          | none => exact runs
          | some call => exact runs
        cases passes with
        | endNode token =>
            refine .endNode token (ih (by omega) insideNext runsNext fun other => ?_)
            obtain ⟨may, ends⟩ := rejects other
            exact ⟨may, ends.later.1 token⟩
        | nop token =>
            refine .nop token (ih (by omega) insideNext runsNext fun other => ?_)
            obtain ⟨may, ends⟩ := rejects other
            exact ⟨may, ends.later.2.1 token⟩
        | @beginNode len token measured =>
            obtain ⟨n, short, text, rfl⟩ := strlenLoop_some measured
            have textInside := (inside_append_iff.mp readsInside).2
            rw [Text.inside_iff text short (show start ≤ p + 4 by omega)] at textInside
            rw [zero_add, align_name (by omega)] at insideNext runsNext
            refine .beginNode token text (ih (by omega) insideNext runsNext fun other => ?_)
            obtain ⟨may, ends⟩ := rejects other
            obtain ⟨n', text', later⟩ := ends.later.2.2.1 token
            exact ⟨may, text.unique text' ▸ later⟩
        | prop token =>
            have name := (inside_append_iff.mp (inside_append_iff.mp
              (inside_append_iff.mp readsInside).2).2).2
            rw [inside_name] at name
            by_cases long : 2 ^ 32 ≤ (be2leU32 (loadWord m (p + 4))).toNat + 3
            · rw [align_wraps long] at insideNext runsNext
              refine .wraps token name long (ih (by omega) insideNext runsNext fun other => ?_)
              obtain ⟨_, ends⟩ := rejects other
              have room := (ends.later.2.2.2 token).bound
              unfold padded at room
              omega
            · rw [align_four (by omega)] at insideNext runsNext
              refine .prop token name (ih (by omega) insideNext runsNext fun other => ?_)
              obtain ⟨may, ends⟩ := rejects other
              exact ⟨may, ends.later.2.2.2 token⟩

end Walks

/-! ## The blocks of a tree -/

section Blob

variable {m : Nat → UInt8} {g : FdtGlobals}

theorem StaysInside.contained (stays : StaysInside m g) :
    Contained m (g.structure_ + g.structureSize.toNat) g.stringsSize.toNat true g.structure_ := by
  obtain ⟨enough, result, runs, rejects⟩ := stays.returns Unit none ()
  refine contained_of_walk (Nat.le_refl _) (Nat.add_lt_add_left g.structureSize.isLt _)
    (fun fuel => ⟨stays.reads Unit none () fuel, stays.names Unit none () fuel⟩)
    (runs enough (Nat.le_refl _)) fun other => ⟨rfl, ?_⟩
  by_contra endless
  exact other (rejects endless)

theorem Contained.staysInside (contained : Contained m (g.structure_ + g.structureSize.toNat)
    g.stringsSize.toNat true g.structure_) : StaysInside m g := by
  have walks : ∀ (σ : Type) (callback : FdtCallback σ), Walks m g.structure_
      (g.structure_ + g.structureSize.toNat) g.strings g.stringsSize.toNat callback true g.structure_ :=
    fun σ callback => contained.walks (Nat.le_refl _) (Nat.add_lt_add_left g.structureSize.isLt _)
  refine ⟨fun σ callback s fuel => ((walks σ callback s).1 fuel).reads,
    fun σ callback s fuel => ((walks σ callback s).1 fuel).names, fun σ callback s => ?_⟩
  obtain ⟨enough, result, runs, rejects⟩ := (walks σ callback s).2
  refine ⟨enough, result, runs, fun endless => ?_⟩
  by_contra other
  exact endless (rejects other).2

end Blob

/-- After `fdt_init` of a blob with a valid magic number the walk stays inside just if
the contents of the blocks keep it there. -/
theorem staysInside_iff (m : Nat → UInt8) (g : FdtGlobals) (fdtBase : Nat) (notNull : fdtBase ≠ 0)
    (valid : be2leU32 (loadWord m fdtBase) = fdtMagic) :
    (fdtInit m g fdtBase).2 = 0 ∧
      (StaysInside m (fdtInit m g fdtBase).1 ↔
        Contained m (fdtBase + (be2leU32 (loadWord m (fdtBase + 8))).toNat +
            (be2leU32 (loadWord m (fdtBase + 36))).toNat)
          (be2leU32 (loadWord m (fdtBase + 32))).toNat true
          (fdtBase + (be2leU32 (loadWord m (fdtBase + 8))).toNat)) := by
  unfold fdtInit
  rw [if_neg notNull]
  simp only [Nat.add_zero, valid, ne_eq, not_true_eq_false, if_false, true_and]
  exact ⟨fun stays => stays.contained, fun contained => Contained.staysInside contained⟩

/-! ### Small blobs -/

/-- A header at address 4 with these words, whose structure block has one word. -/
def blob (token behind : BitVec 32) : Nat → UInt8 := fun a =>
  ([fdtMagic, 48, 40, 44, 48, 17, 16, 0, 0, 4, token, behind].flatMap bigEndian).getD (a - 4) 0

def unset : FdtGlobals := ⟨0, 0, 0, 0, 0, 0⟩

theorem blob_valid (token behind : BitVec 32) :
    be2leU32 (loadWord (blob token behind) 4) = fdtMagic :=
  be2leU32_loadWord (w := fdtMagic) ⟨rfl, rfl, rfl, rfl, trivial⟩

theorem staysInside_end : (fdtInit (blob fdtEnd 0) unset 4).2 = 0 ∧
    (StaysInside (blob fdtEnd 0) (fdtInit (blob fdtEnd 0) unset 4).1 ↔
      Contained (blob fdtEnd 0) (4 + (be2leU32 (loadWord (blob fdtEnd 0) (4 + 8))).toNat +
          (be2leU32 (loadWord (blob fdtEnd 0) (4 + 36))).toNat)
        (be2leU32 (loadWord (blob fdtEnd 0) (4 + 32))).toNat true
        (4 + (be2leU32 (loadWord (blob fdtEnd 0) (4 + 8))).toNat)) :=
  staysInside_iff _ unset 4 (by decide) (blob_valid fdtEnd 0)

/-- The walk over a block with one `FDT_NOP` reads the word behind it. -/
theorem nop_leaves : ∃ m fdtBase, fdtBase ≠ 0 ∧ be2leU32 (loadWord m fdtBase) = fdtMagic ∧
    ¬ StaysInside m (fdtInit m unset fdtBase).1 := by
  refine ⟨blob fdtNop 0, 4, by decide, blob_valid fdtNop 0, fun stays => ?_⟩
  have places : (fdtInit (blob fdtNop 0) unset 4).1.structure_ = 44 ∧
      (fdtInit (blob fdtNop 0) unset 4).1.structureSize = 4 ∧
        be2leU32 (loadWord (blob fdtNop 0) 44) = fdtNop := by decide
  obtain ⟨structure_, size, token⟩ := places
  have passes : Passes (blob fdtNop 0) (fdtInit (blob fdtNop 0) unset 4).1.strings 44 none _ _ := .nop token
  have behind := (stays.reads Unit none () 2 48 ?_).2
  · rw [structure_, size] at behind
    exact absurd behind (by decide)
  · rw [structure_, passes.log]
    refine List.mem_append_right _ ?_
    rw [(loop_unknown (by decide)).2]
    exact List.mem_cons_self

end OsdiKernel.Boot
