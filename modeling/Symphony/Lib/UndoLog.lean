import Mathlib.Data.List.Chain

/-! Undo logs: each step saves the cell every key it changes held before the step, and
writing the saved cells back, newest step first, returns to an earlier state. -/

namespace Symphony.UndoLog

variable {Key Cell : Type}

/-- The cells a step saved: `none` where it changed nothing. -/
abbrev Saved (Key Cell : Type) := Key → Option Cell

def restore (saved : Saved Key Cell) (state : Key → Cell) : Key → Cell :=
  fun key => (saved key).getD (state key)

def restoreAll (steps : List (Saved Key Cell)) (state : Key → Cell) : Key → Cell :=
  steps.foldl (fun current saved => restore saved current) state

/-- A step together with the state it led to. -/
structure Entry (Key Cell : Type) where
  saved : Saved Key Cell
  state : Key → Cell

/-- Two states hold the same cells on the keys in `keys`. -/
def Agree (keys : Key → Prop) (first second : Key → Cell) : Prop :=
  ∀ key, keys key → first key = second key

theorem Agree.symm {keys : Key → Prop} {first second : Key → Cell}
    (agree : Agree keys first second) : Agree keys second first := by
  intro key inside
  exact (agree key inside).symm

theorem Agree.trans {keys : Key → Prop} {first second third : Key → Cell}
    (agree : Agree keys first second) (next : Agree keys second third) :
    Agree keys first third := by
  intro key inside
  exact (agree key inside).trans (next key inside)

/-- Undoing a step of the history leads to the state of the step below it. -/
def Consistent (keys : Key → Prop) (history : List (Entry Key Cell)) : Prop :=
  history.IsChain (fun newer older => Agree keys (restore newer.saved newer.state) older.state)

/-- A step that saved every cell it changed is undone by restoring them. -/
theorem restore_changed (keys : Key → Prop) (saved : Saved Key Cell) (before after : Key → Cell)
    (savedCells : ∀ key cell, keys key → saved key = some cell → cell = before key)
    (unchanged : ∀ key, keys key → saved key = none → after key = before key) :
    Agree keys (restore saved after) before := by
  intro key inside
  cases stored : saved key with
  | none => simpa [restore, stored] using unchanged key inside stored
  | some cell => simpa [restore, stored] using savedCells key cell inside stored

theorem restore_agree (keys : Key → Prop) (saved : Saved Key Cell) (first second : Key → Cell)
    (same : Agree keys first second) : Agree keys (restore saved first) (restore saved second) := by
  intro key inside
  simp only [restore, same key inside]

theorem restoreAll_cases (steps : List (Saved Key Cell)) (state : Key → Cell) (key : Key) :
    restoreAll steps state key = state key ∨
      ∃ saved ∈ steps, saved key = some (restoreAll steps state key) := by
  induction steps generalizing state with
  | nil => exact Or.inl rfl
  | cons saved steps ih =>
      have step : restoreAll (saved :: steps) state = restoreAll steps (restore saved state) := rfl
      rw [step]
      rcases ih (restore saved state) with kept | ⟨other, member, found⟩
      · rw [kept]
        cases here : saved key with
        | none =>
            left
            rw [restore, here, Option.getD_none]
        | some cell =>
            right
            refine ⟨saved, List.mem_cons_self, ?_⟩
            rw [restore, here, Option.getD_some]
      · exact Or.inr ⟨other, List.mem_cons_of_mem _ member, found⟩

theorem restoreAll_unsaved (steps : List (Saved Key Cell)) (state : Key → Cell) (key : Key)
    (unsaved : ∀ saved ∈ steps, saved key = none) : restoreAll steps state key = state key := by
  induction steps generalizing state with
  | nil => rfl
  | cons saved steps ih =>
      have rest := ih (restore saved state) (by
        intro other member
        exact unsaved other (List.mem_cons_of_mem saved member))
      calc restoreAll (saved :: steps) state key
          = restoreAll steps (restore saved state) key := rfl
        _ = restore saved state key := rest
        _ = state key := by simp only [restore, unsaved saved List.mem_cons_self, Option.getD_none]

theorem consistent_drop (keys : Key → Prop) (history : List (Entry Key Cell)) (count : Nat)
    (consistent : Consistent keys history) : Consistent keys (history.drop count) :=
  List.IsChain.drop consistent count

theorem consistent_take (keys : Key → Prop) (history : List (Entry Key Cell)) (count : Nat)
    (consistent : Consistent keys history) : Consistent keys (history.take count) :=
  List.IsChain.take consistent count

theorem restoreAll_take (keys : Key → Prop) (history : List (Entry Key Cell)) (count : Nat)
    (state : Key → Cell) (entry : Entry Key Cell)
    (consistent : Consistent keys history)
    (current : ∀ newest, history.head? = some newest → Agree keys state newest.state)
    (found : history[count]? = some entry) :
    Agree keys (restoreAll ((history.take count).map Entry.saved) state) entry.state := by
  induction count generalizing history state with
  | zero =>
      have head : history.head? = some entry := by rw [← found, List.head?_eq_getElem?]
      simpa [restoreAll] using current entry head
  | succ count ih =>
      cases history with
      | nil => simp at found
      | cons newest rest =>
          have below : rest[count]? = some entry := by simpa using found
          simp only [List.take_succ_cons, List.map_cons, restoreAll, List.foldl_cons]
          refine ih rest (restore newest.saved state) (List.IsChain.tail consistent) ?_ below
          intro next head
          have undone : Agree keys (restore newest.saved newest.state) next.state := by
            cases rest with
            | nil => simp at head
            | cons second others =>
                obtain rfl : second = next := by simpa using head
                exact (List.isChain_cons_cons.mp consistent).1
          intro key inside
          rw [← undone key inside]
          exact restore_agree keys newest.saved state newest.state (current newest rfl) key inside

/-- Recording one more step keeps the history consistent. -/
theorem consistent_cons (keys : Key → Prop) (history : List (Entry Key Cell))
    (entry : Entry Key Cell) (consistent : Consistent keys history)
    (undone : ∀ newest, history.head? = some newest →
      Agree keys (restore entry.saved entry.state) newest.state) :
    Consistent keys (entry :: history) := by
  cases history with
  | nil => exact List.isChain_singleton entry
  | cons newest rest => exact List.isChain_cons_cons.mpr ⟨undone newest rfl, consistent⟩

end Symphony.UndoLog
