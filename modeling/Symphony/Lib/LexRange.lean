import Mathlib.Data.List.Lex
import Mathlib.Order.Lattice

/-! Ranges of strings in lexicographic order, and the strings with a given beginning. -/

namespace Symphony.LexRange

variable {α : Type} [LinearOrder α]

theorem append_lt_append_iff (common first second : List α) :
    common ++ first < common ++ second ↔ first < second := by
  induction common with
  | nil => rfl
  | cons letter common ih =>
      rw [List.cons_append, List.cons_append, List.cons_lt_cons_iff, ih]
      simp

theorem append_le_append_iff (common first second : List α) :
    common ++ first ≤ common ++ second ↔ first ≤ second := by
  rw [← not_lt, ← not_lt, append_lt_append_iff]

theorem le_append (word rest : List α) : word ≤ word ++ rest := by
  have empty : ([] : List α) ≤ rest := by
    cases rest with
    | nil => exact le_refl _
    | cons letter rest => exact le_of_lt (List.nil_lt_cons letter rest)
  calc word = word ++ [] := (List.append_nil word).symm
    _ ≤ word ++ rest := (append_le_append_iff word [] rest).mpr empty

theorem lt_or_eq_of_append_lt {first second left right : List α} (length : first.length = second.length)
    (below : first ++ left < second ++ right) : first < second ∨ first = second := by
  induction first generalizing second with
  | nil =>
      have empty : second = [] := List.length_eq_zero_iff.mp length.symm
      exact Or.inr empty.symm
  | cons letter first ih =>
      cases second with
      | nil => cases length
      | cons other second =>
          rw [List.cons_append, List.cons_append, List.cons_lt_cons_iff] at below
          rcases below with less | ⟨rfl, below⟩
          · exact Or.inl (List.cons_lt_cons_iff.mpr (Or.inl less))
          · rcases ih (Nat.succ.inj length) below with less | same
            · exact Or.inl (List.cons_lt_cons_iff.mpr (Or.inr ⟨rfl, less⟩))
            · exact Or.inr (congrArg (List.cons letter) same)

theorem prefix_of_between (common first second key : List α) (above : common ++ first ≤ key)
    (below : key < common ++ second) : common <+: key := by
  induction common generalizing key with
  | nil => exact List.nil_prefix
  | cons letter common ih =>
      cases key with
      | nil => exact absurd (List.nil_lt_cons letter (common ++ first)) (not_lt.mpr above)
      | cons head key =>
          rw [List.cons_append, List.cons_lt_cons_iff] at below
          rw [List.cons_append, ← not_lt, List.cons_lt_cons_iff, not_or] at above
          rcases below with less | ⟨rfl, below⟩
          · exact absurd less above.1
          · have rest : common ++ first ≤ key := by
              rw [← not_lt]
              intro less
              exact above.2 ⟨rfl, less⟩
            exact (List.prefix_cons_inj head).mpr (ih key rest below)

theorem replicate_prefix_of_le {top : α} (greatest : ∀ letter, letter ≤ top) (count : Nat)
    (word : List α) (above : List.replicate count top ≤ word) : List.replicate count top <+: word := by
  induction count generalizing word with
  | zero => exact List.nil_prefix
  | succ count ih =>
      rw [List.replicate_succ] at above ⊢
      cases word with
      | nil => exact absurd (List.nil_lt_cons top _) (not_lt.mpr above)
      | cons head word =>
          rw [← not_lt, List.cons_lt_cons_iff, not_or] at above
          obtain rfl : head = top := le_antisymm (greatest head) (not_lt.mp above.1)
          rw [List.prefix_cons_inj]
          apply ih
          rw [← not_lt]
          intro less
          exact above.2 ⟨rfl, less⟩

/-- The range up to the successor of the last letter below the top one holds exactly the
strings that begin with the word. -/
theorem successor_range {top letter next : α} (greatest : ∀ letter, letter ≤ top)
    (covers : ∀ other, letter < other ↔ next ≤ other) (front : List α) (count : Nat) (key : List α) :
    front ++ letter :: List.replicate count top ≤ key ∧ key < front ++ [next] ↔
      front ++ letter :: List.replicate count top <+: key := by
  constructor
  · intro ⟨above, below⟩
    obtain ⟨rest, rfl⟩ := prefix_of_between front _ _ key above below
    rw [append_le_append_iff] at above
    rw [append_lt_append_iff] at below
    rw [List.prefix_append_right_inj]
    cases rest with
    | nil => exact absurd (List.nil_lt_cons letter _) (not_lt.mpr above)
    | cons head rest =>
        rw [List.cons_lt_cons_iff] at below
        rw [← not_lt, List.cons_lt_cons_iff, not_or] at above
        have small : head < next := by
          rcases below with less | ⟨_, impossible⟩
          · exact less
          · exact absurd impossible (List.not_lt_nil rest)
        have atMost : head ≤ letter := not_lt.mp (fun more => not_le.mpr small ((covers head).mp more))
        obtain rfl : head = letter := le_antisymm atMost (not_lt.mp above.1)
        rw [List.prefix_cons_inj]
        apply replicate_prefix_of_le greatest
        rw [← not_lt]
        intro less
        exact above.2 ⟨rfl, less⟩
  · rintro ⟨rest, rfl⟩
    refine ⟨le_append _ _, ?_⟩
    rw [List.append_assoc, append_lt_append_iff, List.cons_append, List.cons_lt_cons_iff]
    exact Or.inl ((covers next).mpr (le_refl next))

end Symphony.LexRange
