import Mathlib.Algebra.BigOperators.Group.List.Basic
import Mathlib.Algebra.Ring.Nat

/-! Runs that pay for their moves.

Each move spends some of a budget, and some moves add to it. A machine that can always make a paid move
until it is done comes to its end. -/

namespace Symphony

variable {State Move : Type*}

/-- Moves keep an invariant, and pay what they spend from what is left or from what they earn. -/
structure Budgeted (step : State → Move → Option State) (allowed : Move → Prop) (holds : State → Prop)
    (left : State → Nat) (spent earned : Move → Nat) : Prop where
  keeps : ∀ {state move next}, holds state → allowed move → step state move = some next → holds next
  pays : ∀ {state move next}, holds state → allowed move → step state move = some next →
    left next + spent move ≤ left state + earned move

namespace Budgeted

variable {step : State → Move → Option State} {allowed : Move → Prop} {holds : State → Prop}
variable {left : State → Nat} {spent earned : Move → Nat} {state finish : State} {moves : List Move}

theorem run (budgeted : Budgeted step allowed holds left spent earned) (start : holds state)
    (all : ∀ move ∈ moves, allowed move) (ran : moves.foldlM step state = some finish) :
    holds finish ∧ left finish + (moves.map spent).sum ≤ left state + (moves.map earned).sum := by
  induction moves generalizing state with
  | nil =>
      cases ran
      exact ⟨start, Nat.le_refl _⟩
  | cons move moves ih =>
      rw [List.foldlM_cons] at ran
      obtain ⟨next, stepped, rest⟩ := Option.bind_eq_some_iff.mp ran
      rw [List.forall_mem_cons] at all
      have kept := budgeted.keeps start all.1 stepped
      have paid := budgeted.pays start all.1 stepped
      obtain ⟨held, bound⟩ := ih kept all.2 rest
      refine ⟨held, ?_⟩
      rw [List.map_cons, List.sum_cons, List.map_cons, List.sum_cons]
      omega

theorem completes (budgeted : Budgeted step allowed holds left spent earned) {done : State → Prop}
    {paid : Move → Prop} (fair : ∀ move, paid move → allowed move ∧ 0 < spent move ∧ earned move = 0)
    (moves : ∀ state, holds state → done state ∨ ∃ move, paid move ∧ (step state move).isSome)
    (start : holds state) :
    ∃ (later : List Move) (finish : State), (∀ move ∈ later, paid move) ∧ later.length ≤ left state ∧
      later.foldlM step state = some finish ∧ done finish := by
  induction bound : left state using Nat.strongRecOn generalizing state with
  | ind count ih =>
      cases moves state start with
      | inl done => exact ⟨[], state, List.forall_mem_nil _, Nat.zero_le _, rfl, done⟩
      | inr enabled =>
          obtain ⟨move, pays, some⟩ := enabled
          obtain ⟨next, stepped⟩ := Option.isSome_iff_exists.mp some
          obtain ⟨permitted, positive, nothing⟩ := fair move pays
          have paid := budgeted.pays start permitted stepped
          have kept := budgeted.keeps start permitted stepped
          obtain ⟨later, finish, all, short, ran, done⟩ := ih (left next) (by omega) kept rfl
          refine ⟨move :: later, finish, List.forall_mem_cons.mpr ⟨pays, all⟩, ?_, ?_, done⟩
          · rw [List.length_cons]
            omega
          · rw [List.foldlM_cons, stepped]
            exact ran

end Budgeted

end Symphony
