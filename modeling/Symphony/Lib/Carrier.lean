import Mathlib.Data.List.Basic

/-! First in, first out, until it breaks.

A carrier takes items in at its end and gives them out at its front. When it breaks it loses some of
the last items, and takes in nothing from then on. -/

namespace Symphony.Carrier

structure Transit {α : Type*} (broken broken' : Prop) (before entered left after : List α) : Prop where
  ordered : left ++ after <+: before ++ entered
  closed : broken → left ++ after <+: before
  exact : ¬ broken' → left ++ after = before ++ entered
  lasting : broken → broken'

namespace Transit

variable {α : Type*} {broken broken' broken'' : Prop}
variable {before entered left middle entered' left' after : List α}

theorem give (broken : Prop) (left after : List α) :
    Transit broken broken (left ++ after) [] left after where
  ordered := List.prefix_append _ _
  closed _ := List.prefix_rfl
  exact _ := (List.append_nil _).symm
  lasting := id

theorem refl (broken : Prop) (held : List α) : Transit broken broken held [] [] held :=
  give broken [] held

theorem take (whole : ¬ broken) (held entered : List α) :
    Transit broken broken held entered [] (held ++ entered) where
  ordered := List.prefix_rfl
  closed ended := absurd ended whole
  exact _ := rfl
  lasting := id

theorem refuse (ended : broken) (held entered : List α) : Transit broken broken held entered [] held where
  ordered := List.prefix_append held entered
  closed _ := List.prefix_rfl
  exact whole := absurd ended whole
  lasting := id

theorem lose (ended : broken') (kept : after <+: before) : Transit broken broken' before [] [] after where
  ordered := by
    rw [List.append_nil]
    exact kept
  closed _ := kept
  exact whole := absurd ended whole
  lasting _ := ended

theorem trans (first : Transit broken broken' before entered left middle)
    (second : Transit broken' broken'' middle entered' left' after) :
    Transit broken broken'' before (entered ++ entered') (left ++ left') after := by
  have further (held : left' ++ after <+: middle) : left ++ left' ++ after <+: left ++ middle := by
    rw [List.append_assoc]
    exact (List.prefix_append_right_inj left).mpr held
  constructor
  · by_cases ended : broken'
    · rw [← List.append_assoc before]
      exact ((further (second.closed ended)).trans first.ordered).trans (List.prefix_append _ _)
    · rw [← List.append_assoc, ← first.exact ended, List.append_assoc, List.append_assoc]
      exact (List.prefix_append_right_inj left).mpr second.ordered
  · intro ended
    exact (further (second.closed (first.lasting ended))).trans (first.closed ended)
  · intro whole
    have whole' : ¬ broken' := fun ended => whole (second.lasting ended)
    rw [List.append_assoc, second.exact whole, ← List.append_assoc, first.exact whole',
      List.append_assoc]
  · exact second.lasting ∘ first.lasting

/-- What an empty carrier gives out has come in, in that order. -/
theorem left_prefix (transit : Transit broken broken' [] entered left after) : left <+: entered := by
  have ordered := transit.ordered
  rw [List.nil_append] at ordered
  exact (List.prefix_append left after).trans ordered

end Transit

end Symphony.Carrier
