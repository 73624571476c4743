import Mathlib.Data.List.Basic

/-!
# Words of a line

The pieces of a line between the separators.  An empty piece behind the last
separator is no word, so that a separator ends a word.
-/

namespace OsdiKernel

variable {α : Type} [DecidableEq α] {sep : α} {line word rest : List α}

def words (sep : α) (line : List α) : List (List α) :=
  let pieces := line.splitOn sep
  if pieces.getLast? = some [] then pieces.dropLast else pieces

section Words

@[simp] theorem words_nil (sep : α) : words sep [] = [] := by
  simp [words]

/-- A line that no separator ends. -/
theorem words_last (plain : sep ∉ word) (some_ : word ≠ []) : words sep word = [word] := by
  simp [words, List.splitOn_eq_singleton plain, some_]

/-- The first separator ends the first word. -/
theorem words_cons (plain : sep ∉ word) (rest : List α) :
    words sep (word ++ sep :: rest) = word :: words sep rest := by
  obtain ⟨first, pieces, split⟩ := List.exists_cons_of_ne_nil (List.splitOn_ne_nil sep rest)
  simp only [words, List.splitOn_append_cons_self_of_not_mem plain, split, List.getLast?_cons_cons,
    List.dropLast_cons_cons]
  exact (apply_ite (word :: ·) _ _ _).symm

/-- The words are taken from a line one by one. -/
@[elab_as_elim] theorem words_induction (sep : α) {motive : List α → Prop} (nil : motive [])
    (last : ∀ word, sep ∉ word → word ≠ [] → motive word)
    (cons : ∀ word rest, sep ∉ word → motive rest → motive (word ++ sep :: rest)) (line : List α) :
    motive line := by
  induction line using WellFounded.induction (measure List.length).wf with
  | _ line ih =>
      by_cases separated : sep ∈ line
      · obtain ⟨word, rest, rfl, plain⟩ := List.eq_append_cons_of_mem separated
        have shorter : rest.length < (word ++ sep :: rest).length := by
          simp only [List.length_append, List.length_cons]
          omega
        exact cons word rest plain (ih rest shorter)
      · cases line with
        | nil => exact nil
        | cons a line => exact last (a :: line) separated (List.cons_ne_nil a line)

theorem words_sublist (mem : word ∈ words sep line) : word.Sublist line := by
  induction line using words_induction sep with
  | nil => simp at mem
  | last whole plain some_ =>
      rw [words_last plain some_, List.mem_singleton] at mem
      exact mem ▸ List.Sublist.refl _
  | cons first rest plain ih =>
      rw [words_cons plain, List.mem_cons] at mem
      obtain rfl | later := mem
      · exact List.sublist_append_left _ _
      · exact (ih later).trans ((List.sublist_cons_self sep rest).trans (List.sublist_append_right _ _))

theorem words_eq_nil_iff : words sep line = [] ↔ line = [] := by
  induction line using words_induction sep with
  | nil => simp
  | last word plain some_ => simp [words_last plain some_, some_]
  | cons word rest plain _ => simp [words_cons plain]

/-- The line is its words with single separators between them, and perhaps one behind them. -/
theorem join_words (some_ : line ≠ []) :
    line = [sep].intercalate (words sep line) ∨ line = [sep].intercalate (words sep line) ++ [sep] := by
  induction line using words_induction sep with
  | nil => exact absurd rfl some_
  | last word plain notEmpty => exact .inl (by simp [words_last plain notEmpty])
  | cons word rest plain ih =>
      rw [words_cons plain]
      by_cases ends : rest = []
      · exact .inr (by simp [ends])
      · obtain ⟨first, more, later⟩ := List.exists_cons_of_ne_nil (mt words_eq_nil_iff.mp ends)
        rw [later] at ih ⊢
        exact (ih ends).imp (fun eq => by simp [List.intercalate_cons_cons, ← eq])
          (fun eq => by simp [List.intercalate_cons_cons, eq])

end Words

end OsdiKernel
