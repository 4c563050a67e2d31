import Symphony.Sync.RuneFlow

/-! What a transaction allocates to its outputs, in natural numbers.

The shares of a rune are what is left of it and what each output was given; nothing is said of
hash maps, of machine integers or of failures. -/

namespace Symphony

structure RuneShares where
  rest : RuneId → Nat
  given : Nat → RuneId → Nat

namespace RuneShares

/-- Before the first edict all is left. -/
def start (total : RuneId → Nat) : RuneShares := ⟨total, fun _ _ => 0⟩

def give (id : RuneId) (amount output : Nat) (shares : RuneShares) : RuneShares where
  rest other := if other = id then shares.rest id - amount else shares.rest other
  given place other := shares.given place other + if place = output ∧ other = id then amount else 0

/-- The same to every output, and one more to the first ones until the remainder is gone. -/
def giveEach (id : RuneId) (amount remainder : Nat) : Nat → List Nat → RuneShares → RuneShares
  | _, [], shares => shares
  | place, output :: outputs, shares => giveEach id amount remainder (place + 1) outputs
      (shares.give id (amount + if place < remainder then 1 else 0) output)

/-- The amount to every output as long as there is enough, then what is left. -/
def giveUpTo (id : RuneId) (amount : Nat) : List Nat → RuneShares → RuneShares
  | [], shares => shares
  | output :: outputs, shares =>
      giveUpTo id amount outputs (shares.give id (min amount (shares.rest id)) output)

/-- An edict names an output, or with the number of outputs all that are no OP_RETURN; an amount
of zero stands for all that is left. -/
def applyEdict (outputs : List TxOut) (etched : Option RuneId) (edict : Edict)
    (shares : RuneShares) : RuneShares :=
  match if edict.id = RuneId.zero then etched else some edict.id with
  | none => shares
  | some id =>
      let places := RuneLedger.destinations outputs
      if edict.output.toNat = outputs.length then
        if edict.amount = 0 then
          shares.giveEach id (shares.rest id / places.length) (shares.rest id % places.length) 0 places
        else shares.giveUpTo id edict.amount.toNat places
      else shares.give id (if edict.amount = 0 then shares.rest id
        else min edict.amount.toNat (shares.rest id)) edict.output.toNat

def applyEdicts (outputs : List TxOut) (etched : Option RuneId) (edicts : List Edict)
    (shares : RuneShares) : RuneShares :=
  edicts.foldl (fun shares edict => shares.applyEdict outputs etched edict) shares

/-- The output that is given what is left, if there is one. -/
def restPlace (outputs : List TxOut) : Option Artifact → Option Nat
  | some (.cenotaph _) => none
  | some (.runestone stone) => match stone.pointer with
      | some pointer => some pointer.toNat
      | none => (RuneLedger.destinations outputs).head?
  | none => (RuneLedger.destinations outputs).head?

def edictsOf : Option Artifact → List Edict
  | some (.runestone stone) => stone.edicts
  | _ => []

/-- What an output is given of a rune in the end, from the totals of the transaction. -/
def allocation (outputs : List TxOut) (artifact : Option Artifact) (etched : Option RuneId)
    (total : RuneId → Nat) (place : Nat) (id : RuneId) : Nat :=
  let shares := (start total).applyEdicts outputs etched (edictsOf artifact)
  shares.given place id + if restPlace outputs artifact = some place then shares.rest id else 0

section Split

variable {shares : RuneShares} {id : RuneId} {amount output place : Nat} {places : List Nat}

theorem rest_give : (shares.give id amount output).rest id = shares.rest id - amount := if_pos rfl

theorem given_give : (shares.give id amount output).given place id =
    shares.given place id + if place = output then amount else 0 := by
  simp only [give, and_true]

theorem given_le_giveUpTo :
    shares.given place id ≤ (shares.giveUpTo id amount places).given place id := by
  induction places generalizing shares with
  | nil => exact le_rfl
  | cons output places ih =>
      apply le_trans _ ih
      rw [given_give]
      exact Nat.le_add_right _ _

theorem giveUpTo_pos (some : 0 < amount) (enough : amount * places.length ≤ shares.rest id)
    (member : place ∈ places) : 0 < (shares.giveUpTo id amount places).given place id := by
  induction places generalizing shares with
  | nil => cases member
  | cons output places ih =>
      rw [List.length_cons, Nat.mul_succ] at enough
      rw [giveUpTo, Nat.min_eq_left (by omega)]
      rcases List.mem_cons.mp member with rfl | later
      · apply lt_of_lt_of_le _ given_le_giveUpTo
        rw [given_give, if_pos rfl]
        omega
      · apply ih _ later
        rw [rest_give]
        omega

end Split

end RuneShares

end Symphony
