import OsdiKernel.Boot.Strings
import OsdiKernel.Lib.Words

/-!
# Command lines

`strtok` cuts a line in place and keeps a pointer behind the last cut.
`parse_cmd` takes the name and the arguments of a command from it.
-/

namespace OsdiKernel.Shell

open Boot (addressSpace IsString from_)

def space : UInt8 := 0x20

def maxArgs : Nat := 8

/-- The memory, and the static pointer of `strtok`. -/
structure Tokenizer where
  mem : Nat → UInt8
  p : Option Nat

/-- The arguments; an index from `maxArgs` on is behind the array. -/
structure Command where
  name : Option Nat
  args : Nat → Option Nat
  argc : Nat

/-- The loop of `strtok`: where it ends. -/
def strtokLoop (mem : Nat → UInt8) (delim : UInt8) : Nat → Nat → Option Nat
  | 0, _ => none
  | fuel + 1, p => if mem p ≠ delim ∧ mem p ≠ 0 then strtokLoop mem delim fuel (p + 1) else some p

/-- The null pointer is `none`. -/
def strtok (t : Tokenizer) (str : Option Nat) (delim : UInt8) : Option (Tokenizer × Option Nat) :=
  let t := if str.isSome then { t with p := str } else t
  match t.p with
  | none => some (t, none)
  | some ret =>
      if t.mem ret = 0 then some (t, none)
      else do
        let p ← strtokLoop t.mem delim addressSpace ret
        if t.mem p = delim then some (⟨Function.update t.mem p 0, some (p + 1)⟩, some ret)
        else some ({ t with p := some p }, some ret)

/-- The loop of `parse_cmd`. -/
def parseLoop : Nat → Tokenizer → Command → Option Nat → Option (Int × Tokenizer × Command)
  | 0, _, _, _ => none
  | _ + 1, t, cmd, none => some (0, t, cmd)
  | fuel + 1, t, cmd, some arg =>
      if maxArgs ≤ cmd.argc then some (2, t, cmd)
      else do
        let cmd := { cmd with args := Function.update cmd.args cmd.argc (some arg), argc := cmd.argc + 1 }
        let (t, arg) ← strtok t none space
        parseLoop fuel t cmd arg

def parseCmd (t : Tokenizer) (str : Option Nat) (cmd : Command) : Option (Int × Tokenizer × Command) :=
  match str with
  | none => some (1, t, cmd)
  | some _ => do
      let (t, name) ← strtok t str space
      let cmd := { cmd with name := name, argc := 0 }
      let (t, arg) ← strtok t none space
      parseLoop addressSpace t cmd arg

/-! ## What a line means -/

/-- A pointer to a text. -/
def PointsTo (mem : Nat → UInt8) (ptr : Option Nat) (text : List UInt8) : Prop :=
  ∃ p, ptr = some p ∧ IsString (from_ mem p) text

/-- The arguments behind the name. -/
def arguments (line : List UInt8) : List (List UInt8) := (words space line).tail

/-- The command has a name and at most `maxArgs` arguments, and they are the line. -/
structure Parsed (line : List UInt8) (t : Tokenizer) (cmd : Command) : Prop where
  few : cmd.argc ≤ maxArgs
  texts : ∃ name args, PointsTo t.mem cmd.name name ∧ args.length = cmd.argc ∧
    (∀ i text, args[i]? = some text → PointsTo t.mem (cmd.args i) text) ∧
    (line = [space].intercalate (name :: args) ∨ line = [space].intercalate (name :: args) ++ [space])

/-- The line at `p` is parsed faithfully, and nothing else is written. -/
structure Faithful (line : List UInt8) (p : Nat) (t : Tokenizer) (cmd : Command)
    (result : Int × Tokenizer × Command) : Prop where
  tooMany : result.1 = 2 ↔ maxArgs < (arguments line).length
  parsed : result.1 ≠ 2 → result.1 = 0 ∧ Parsed line result.2.1 result.2.2
  args : ∀ i, maxArgs ≤ i → result.2.2.args i = cmd.args i
  mem : ∀ a, a < p ∨ p + line.length ≤ a → result.2.1.mem a = t.mem a

section Strtok

variable {mem : Nat → UInt8} {t : Tokenizer} {cmd : Command} {delim c : UInt8} {p fuel : Nat}
  {word rest line : List UInt8}

theorem strtokLoop_eq (stored : Stored mem p (word ++ [c])) (plain : delim ∉ word) (proper : 0 ∉ word)
    (ends : c = delim ∨ c = 0) (enough : word.length < fuel) :
    strtokLoop mem delim fuel p = some (p + word.length) := by
  induction word generalizing p fuel with
  | nil =>
      obtain ⟨fuel, rfl⟩ := Nat.exists_eq_succ_of_ne_zero (Nat.ne_of_gt enough)
      have last : mem p = c := stored.1
      exact if_neg (by rw [last]; tauto)
  | cons a word ih =>
      obtain ⟨fuel, rfl⟩ := Nat.exists_eq_succ_of_ne_zero (Nat.ne_of_gt (Nat.zero_lt_of_lt enough))
      have first : mem p = a := stored.1
      simp only [List.mem_cons, not_or] at plain proper
      have goes : mem p ≠ delim ∧ mem p ≠ 0 := ⟨first ▸ Ne.symm plain.1, first ▸ Ne.symm proper.1⟩
      rw [strtokLoop, if_pos goes, ih stored.2 plain.2 proper.2 (Nat.lt_of_succ_lt_succ enough)]
      rw [List.length_cons, Nat.add_assoc, Nat.add_comm 1]

/-- At the end of the line there is no word. -/
theorem strtok_nil (cursor : t.p = some p) (ends : t.mem p = 0) : strtok t none delim = some (t, none) := by
  simp [strtok, cursor, ends]

/-- What `strtok` has done: the first word of the line at `p` is a string of its own, and the rest
of the line is at the pointer. -/
structure Cut (t : Tokenizer) (p : Nat) (line word rest : List UInt8) (t' : Tokenizer) (p' : Nat) : Prop where
  words : words space line = word :: words space rest
  suffix : rest <:+ line
  cursor : t'.p = some p'
  stored : Stored t'.mem p (word ++ [0])
  later : Stored t'.mem p' (rest ++ [0])
  behind : p + word.length ≤ p'
  apart : rest = [] ∨ p + word.length < p'
  extent : p' + rest.length = p + line.length
  frame : ∀ a, a < p ∨ p + line.length ≤ a → t'.mem a = t.mem a

/-- A string that ends before the rest stays when only the rest is written. -/
theorem Cut.kept {t' : Tokenizer} {p' : Nat} (cut : Cut t p line word rest t' p')
    (frame : ∀ a, a < p' ∨ p' + rest.length ≤ a → mem a = t'.mem a) : Stored mem p (word ++ [0]) := by
  refine cut.stored.congr fun i inside => frame _ ?_
  have behind := cut.behind
  simp only [List.length_append, List.length_singleton] at inside
  obtain empty | before := cut.apart
  · subst empty
    exact (Nat.lt_or_ge (p + i) p').imp_right (by simpa using ·)
  · exact .inl (by omega)

/-- The next call takes a word from a line that is not empty. -/
theorem strtok_word (cursor : t.p = some p) (stored : Stored t.mem p (line ++ [0])) (proper : 0 ∉ line)
    (short : line.length < addressSpace) (some_ : line ≠ []) :
    ∃ word rest t' p', strtok t none space = some (t', some p) ∧ Cut t p line word rest t' p' := by
  have notNull : t.mem p ≠ 0 := by
    obtain ⟨c, tail, rfl⟩ := List.exists_cons_of_ne_nil some_
    have first : t.mem p = c := stored.1
    exact fun null => proper (by simp [← first, null])
  induction line using words_induction space with
  | nil => exact absurd rfl some_
  | last word plain _ =>
      have loop := strtokLoop_eq stored plain proper (.inr rfl) short
      have ends : t.mem (p + word.length) = 0 := stored.right.1
      refine ⟨word, [], { t with p := some (p + word.length) }, p + word.length, ?_, ?_⟩
      · simp [strtok, cursor, notNull, loop, ends, show ¬ (0 : UInt8) = space by decide]
      · exact
          { words := by rw [words_last plain some_, words_nil]
            suffix := List.nil_suffix
            cursor := rfl
            stored := stored
            later := ⟨ends, trivial⟩
            behind := Nat.le_refl _
            apart := .inl rfl
            extent := rfl
            frame := fun _ _ => rfl }
  | cons word rest plain _ =>
      have split : Stored t.mem p ((word ++ [space]) ++ (rest ++ [0])) := by
        simpa only [List.append_assoc, List.cons_append, List.nil_append] using stored
      simp only [List.mem_append, List.mem_cons, not_or] at proper
      simp only [List.length_append, List.length_cons] at short
      have enough : word.length < addressSpace := by omega
      have loop := strtokLoop_eq split.left plain proper.1 (.inl rfl) enough
      have ends : t.mem (p + word.length) = space := split.left.right.1
      refine ⟨word, rest, ⟨Function.update t.mem (p + word.length) 0, some (p + word.length + 1)⟩,
        p + word.length + 1, ?_, ?_⟩
      · simp [strtok, cursor, notNull, loop, ends]
      · exact
          { words := words_cons plain rest
            suffix := ⟨word ++ [space], by simp⟩
            cursor := rfl
            stored := by
              refine Stored.append_iff.mpr ⟨split.left.left.congr fun i inside => ?_, ?_, trivial⟩
              · exact Function.update_of_ne (by omega) _ _
              · exact Function.update_self ..
            later := by
              have at_ := split.right
              rw [List.length_append, List.length_singleton, ← Nat.add_assoc] at at_
              exact at_.congr fun i _ => Function.update_of_ne (by omega) _ _
            behind := Nat.le_succ _
            apart := .inr (Nat.lt_succ_self _)
            extent := by
              simp only [List.length_append, List.length_cons]
              omega
            frame := by
              intro a outside
              simp only [List.length_append, List.length_cons] at outside
              exact Function.update_of_ne (by omega) _ _ }

end Strtok

/-! ## Parsing -/

section Parsing

variable {t : Tokenizer} {cmd : Command} {p fuel : Nat} {line : List UInt8}

/-- What the loop does for the line at the pointer. -/
structure Parses (line : List UInt8) (p : Nat) (t : Tokenizer) (cmd : Command)
    (result : Int × Tokenizer × Command) : Prop where
  ret : result.1 = if cmd.argc + (words space line).length ≤ maxArgs then 0 else 2
  name : result.2.2.name = cmd.name
  frame : ∀ a, a < p ∨ p + line.length ≤ a → result.2.1.mem a = t.mem a
  kept : ∀ i, i < cmd.argc ∨ maxArgs ≤ i → result.2.2.args i = cmd.args i
  argc : result.1 = 0 → result.2.2.argc = cmd.argc + (words space line).length
  stored : result.1 = 0 → ∀ i text, (words space line)[i]? = some text →
    ∃ q, result.2.2.args (cmd.argc + i) = some q ∧ Stored result.2.1.mem q (text ++ [0])

/-- The next word and the loop. -/
def next (fuel : Nat) (t : Tokenizer) (cmd : Command) : Option (Int × Tokenizer × Command) :=
  (strtok t none space).bind fun cut => parseLoop fuel cut.1 cmd cut.2

theorem next_parses (cmd : Command) (cursor : t.p = some p) (stored : Stored t.mem p (line ++ [0])) (proper : 0 ∉ line)
    (short : line.length < addressSpace) (room : cmd.argc ≤ maxArgs) (enough : maxArgs < cmd.argc + fuel) :
    ∃ result, next fuel t cmd = some result ∧ Parses line p t cmd result := by
  obtain ⟨fuel, rfl⟩ := Nat.exists_eq_succ_of_ne_zero (show fuel ≠ 0 by omega)
  generalize texts : words space line = ws
  induction ws generalizing line p t cmd fuel with
  | nil =>
      have empty := words_eq_nil_iff.mp texts
      subst empty
      refine ⟨(0, t, cmd), by simp [next, strtok_nil cursor stored.1, parseLoop], ?_⟩
      exact
        { ret := by simp [room]
          name := rfl
          frame := fun _ _ => rfl
          kept := fun _ _ => rfl
          argc := fun _ => by simp
          stored := fun _ i text found => by simp at found }
  | cons w ws ih =>
      have some_ : line ≠ [] := fun empty => by simp [empty] at texts
      obtain ⟨word, rest, t', p', cuts, cut⟩ := strtok_word cursor stored proper short some_
      obtain ⟨rfl, more⟩ := List.cons.inj (texts.symm.trans cut.words)
      have behind := cut.behind
      have extent := cut.extent
      by_cases full : maxArgs ≤ cmd.argc
      · refine ⟨(2, t', cmd), by simp [next, cuts, parseLoop, full], ?_⟩
        exact
          { ret := by
              rw [texts, List.length_cons, if_neg (by omega)]
            name := rfl
            frame := cut.frame
            kept := fun _ _ => rfl
            argc := fun impossible => by cases impossible
            stored := fun impossible => by cases impossible }
      · obtain ⟨fuel, rfl⟩ := Nat.exists_eq_succ_of_ne_zero (show fuel ≠ 0 by omega)
        obtain ⟨result, runs, parses⟩ := ih (t := t')
          { cmd with args := Function.update cmd.args cmd.argc (some p), argc := cmd.argc + 1 } cut.cursor cut.later (fun mem => proper (cut.suffix.subset mem))
          (Nat.lt_of_le_of_lt cut.suffix.length_le short) (by simp only; omega) fuel (by simp only; omega) more.symm
        have ret := parses.ret
        have argc := parses.argc
        simp only at ret argc
        refine ⟨result, ?_, ?_⟩
        · simpa [next, cuts, parseLoop, full, Option.bind_eq_bind] using runs
        · exact
            { ret := by
                rw [ret, texts, more, List.length_cons, Nat.add_assoc, Nat.add_comm 1]
              name := parses.name
              frame := fun a outside =>
                (parses.frame a (by omega)).trans (cut.frame a outside)
              kept := fun i other => (parses.kept i (by simp only; omega)).trans
                (Function.update_of_ne (by omega) _ _)
              argc := fun ok => by
                rw [argc ok, texts, more, List.length_cons]
                omega
              stored := by
                intro ok i text found
                rw [texts] at found
                cases i with
                | zero =>
                    obtain rfl := Option.some.inj found
                    refine ⟨p, ?_, cut.kept parses.frame⟩
                    exact (parses.kept cmd.argc (.inl (Nat.lt_succ_self _))).trans (Function.update_self ..)
                | succ i =>
                    rw [List.getElem?_cons_succ, more] at found
                    obtain ⟨q, pointer, string⟩ := parses.stored ok i text found
                    refine ⟨q, ?_, string⟩
                    rw [← pointer]
                    exact congrArg _ (by simp only; omega) }

/-- The name and the rest of a line that is not empty. -/
theorem parseCmd_parses (cmd : Command) (stored : Stored t.mem p (line ++ [0])) (proper : 0 ∉ line)
    (short : line.length < addressSpace) (some_ : line ≠ []) :
    ∃ result word rest t' p', parseCmd t (some p) cmd = some result ∧
      Cut { t with p := some p } p line word rest t' p' ∧
      Parses rest p' t' { cmd with name := some p, argc := 0 } result := by
  obtain ⟨word, rest, t', p', cuts, cut⟩ :=
    strtok_word (t := { t with p := some p }) rfl stored proper short some_
  have first : strtok t (some p) space = some (t', some p) := cuts
  obtain ⟨result, runs, parses⟩ := next_parses { cmd with name := some p, argc := 0 } cut.cursor cut.later (fun mem => proper (cut.suffix.subset mem))
    (Nat.lt_of_le_of_lt cut.suffix.length_le short) (Nat.zero_le _) (show maxArgs < 0 + addressSpace by decide)
  exact ⟨result, word, rest, t', p', by simpa [parseCmd, first, next] using runs, cut, parses⟩

/-- For an empty line there is no name, but the result is 0. -/
theorem parseCmd_nil (t : Tokenizer) (cmd : Command) (ends : t.mem p = 0) :
    parseCmd t (some p) cmd = some (0, { t with p := some p }, { cmd with name := none, argc := 0 }) := by
  have loop : ∀ t cmd, parseLoop addressSpace t cmd none = some (0, t, cmd) := fun _ _ => rfl
  simp [parseCmd, strtok, ends, loop]

theorem isString_of_stored {mem : Nat → UInt8} {word : List UInt8} (stored : Stored mem p (word ++ [0]))
    (mem_ : word ∈ words space line) (proper : 0 ∉ line) (short : line.length < addressSpace) :
    IsString (from_ mem p) word :=
  Boot.isString_from stored (fun null => proper (words_sublist mem_ |>.subset null))
    (Nat.lt_of_le_of_lt (words_sublist mem_).length_le short)

end Parsing

/-- A line is parsed faithfully just when it is not empty. -/
theorem parseCmd_faithful_iff {t : Tokenizer} {p : Nat} {line : List UInt8} (cmd : Command)
    (stored : Stored t.mem p (line ++ [0])) (proper : 0 ∉ line) (short : line.length < addressSpace) :
    (∃ result, parseCmd t (some p) cmd = some result ∧ Faithful line p t cmd result) ↔ line ≠ [] := by
  constructor
  · rintro ⟨result, runs, faithful⟩ rfl
    rw [parseCmd_nil t cmd stored.1] at runs
    obtain rfl := Option.some.inj runs
    obtain ⟨_, parsed⟩ := faithful.parsed (show (0 : Int) ≠ 2 by decide)
    obtain ⟨name, _, ⟨_, impossible, _⟩, _⟩ := parsed.texts
    cases impossible
  · intro some_
    obtain ⟨result, word, rest, t', p', runs, cut, parses⟩ := parseCmd_parses cmd stored proper short some_
    have count : (arguments line).length = (words space rest).length := by rw [arguments, cut.words, List.tail_cons]
    have ret := parses.ret
    have extent := cut.extent
    have behind := cut.behind
    simp only [Nat.zero_add] at ret
    have string : ∀ {mem q text}, Stored mem q (text ++ [0]) → text ∈ words space line → IsString (from_ mem q) text :=
      fun at_ mem => isString_of_stored at_ mem proper short
    refine ⟨result, runs, ?_⟩
    exact
      { tooMany := by
          rw [ret, count]
          split
          next room => exact iff_of_false (by decide) (by omega)
          next many => exact iff_of_true rfl (by omega)
        parsed := by
          intro few
          have room : (words space rest).length ≤ maxArgs := by
            by_contra many
            exact few (by rw [ret, if_neg many])
          have ok : result.1 = 0 := by rw [ret, if_pos room]
          have argc := parses.argc ok
          simp only [Nat.zero_add] at argc
          refine ⟨ok, argc ▸ room, word, words space rest, ⟨p, parses.name, ?_⟩, argc.symm, ?_, ?_⟩
          · exact string (cut.kept parses.frame) (cut.words ▸ List.mem_cons_self)
          · intro i text found
            obtain ⟨q, pointer, at_⟩ := parses.stored ok i text found
            have mem := List.mem_of_getElem? found
            exact ⟨q, by simpa using pointer, string at_ (cut.words ▸ List.mem_cons_of_mem word mem)⟩
          · rw [← cut.words]
            exact join_words some_
        args := fun i beyond => parses.kept i (.inr beyond)
        mem := fun a outside => (parses.frame a (by omega)).trans (cut.frame a outside) }

/-- A line in the memory of a shell that has not parsed one before. -/
def lineAt (line : List UInt8) : Tokenizer := ⟨fun a => line.getD (a - 4096) 0, none⟩

def noCommand : Command := ⟨none, fun _ => none, 0⟩

theorem parseCmd_cat : ∃ result, parseCmd (lineAt [0x63, 0x20, 0x66]) (some 4096) noCommand = some result ∧
    Faithful [0x63, 0x20, 0x66] 4096 (lineAt [0x63, 0x20, 0x66]) noCommand result :=
  (parseCmd_faithful_iff noCommand (t := lineAt [0x63, 0x20, 0x66]) (by simp [Stored, lineAt]) (by decide)
    (by decide)).mpr (by decide)

/-- The shell compares the name, which is the null pointer. -/
theorem parseCmd_empty : ∃ result, parseCmd (lineAt []) (some 4096) noCommand = some result ∧
    result.1 = 0 ∧ result.2.2.name = none ∧ ¬ Faithful [] 4096 (lineAt []) noCommand result := by
  refine ⟨_, parseCmd_nil (lineAt []) noCommand rfl, rfl, rfl, fun faithful => ?_⟩
  obtain ⟨_, parsed⟩ := faithful.parsed (show (0 : Int) ≠ 2 by decide)
  obtain ⟨name, _, ⟨_, impossible, _⟩, _⟩ := parsed.texts
  cases impossible

end OsdiKernel.Shell
