import Mathlib.Data.Set.Card
import Symphony.Proof.RuneActivity

/-! The movements of runes in a transaction, one for each record of the activity log. -/

namespace Symphony

open Encdec
open RunesIndexer

/-- A script sends some of a rune, or an output receives some. -/
inductive Movement where
  | sent (script : ScriptPubKey) (id : RuneId)
  | received (place : Nat) (id : RuneId)
  deriving DecidableEq

/-- The movements of a transaction that spends the outputs of a set and allocates these totals. -/
def movementsOf (set : UtxoSet) (tx : TransactionWithId) (artifact : Option Artifact)
    (etched : Option RuneId) (total : RuneId → Nat) : Set Movement :=
  fun movement => match movement with
    | .sent script id => 0 < sentOf set tx.spends script id
    | .received place id => place < tx.tx.output.length ∧
        0 < RuneShares.allocation tx.tx.output artifact etched total place id

def broughtBy (set : UtxoSet) (tx : TransactionWithId) (runes : RuneState) (height : BlockHeight)
    (artifact : Option Artifact) (etched : Option RuneId) (id : RuneId) : Nat :=
  amountIn (heldRunes set tx.spends) id + amountIn (mintOf runes height artifact).toList id +
    amountIn (premineOf artifact etched) id

namespace RunesIndexer

variable (indexer : RunesIndexer)

def etchedBy (runes : RuneState) (tx : TransactionWithId) (blockIndex : Nat) (ctx : TxContext) :
    Option RuneId :=
  ((indexer.ordinals.decipher tx.tx).bind
    (indexer.etchOf runes.names tx.tx blockIndex ctx)).map Prod.fst

def movements (set : UtxoSet) (runes : RuneState) (tx : TransactionWithId) (blockIndex : Nat)
    (ctx : TxContext) : Set Movement :=
  movementsOf set tx (indexer.ordinals.decipher tx.tx) (indexer.etchedBy runes tx blockIndex ctx)
    (broughtBy set tx runes ctx.point.height (indexer.ordinals.decipher tx.tx)
      (indexer.etchedBy runes tx blockIndex ctx))

/-- Below the start height nothing is recorded; else the movements can be numbered in 16 bits. -/
def FewMovements (set : UtxoSet) (runes : RuneState) (tx : TransactionWithId) (blockIndex : Nat)
    (ctx : TxContext) : Prop :=
  ctx.point.height < indexer.startHeight ∨
    (indexer.movements set runes tx blockIndex ctx).encard ≤ 65535

end RunesIndexer

def RuneBalanceChange.movement (record : RuneBalanceChange) : Movement :=
  match record.outputIndex with
  | none => .sent record.script record.runeId
  | some place => .received place.toNat record.runeId

section Count

variable {set : UtxoSet} {tx : TransactionWithId} {allocated : List RuneBalances}
variable {records : List RuneBalanceChange}

theorem movement_eq_sent {record : RuneBalanceChange} {script : ScriptPubKey} {id : RuneId} :
    record.movement = .sent script id ↔
      record.outputIndex = none ∧ record.script = script ∧ record.runeId = id := by
  rw [RuneBalanceChange.movement]
  cases record.outputIndex with
  | none => simp
  | some place => simp

theorem movement_eq_received {record : RuneBalanceChange} {place : Nat} (small : place < 2 ^ 32)
    {id : RuneId} : record.movement = .received place id ↔
      record.outputIndex = some (BitVec.ofNat 32 place) ∧ record.runeId = id := by
  rw [RuneBalanceChange.movement]
  cases record.outputIndex with
  | none => simp
  | some other =>
      have number : other.toNat = place ↔ other = BitVec.ofNat 32 place := by
        constructor
        · intro same
          rw [← same, BitVec.ofNat_toNat, BitVec.setWidth_eq]
        · intro same
          rw [same, BitVec.toNat_ofNat, Nat.mod_eq_of_lt small]
      simp [number]

theorem ExactRecords.of_movement (exact : ExactRecords set tx allocated records)
    (small : tx.tx.output.length < 2 ^ 32) (count : allocated.length = tx.tx.output.length)
    {artifact : Option Artifact} {etched : Option RuneId} {total : RuneId → Nat}
    (shares : ∀ place balances, allocated[place]? = some balances → ∀ id,
      RuneBalances.amount balances id =
        RuneShares.allocation tx.tx.output artifact etched total place id) (movement : Movement) :
    (movement ∈ movementsOf set tx artifact etched total →
      ∃ record, records.filter (fun record => record.movement = movement) = [record]) ∧
    (movement ∉ movementsOf set tx artifact etched total →
      records.filter (fun record => record.movement = movement) = []) := by
  cases movement with
  | sent script id =>
      have listed := exact.sent script id
      simp only [← movement_eq_sent] at listed
      have moves : Movement.sent script id ∈ movementsOf set tx artifact etched total ↔
          0 < sentOf set tx.spends script id := Iff.rfl
      rw [listed, moves]
      constructor
      · intro some
        rw [if_neg (by omega)]
        exact ⟨_, rfl⟩
      · intro none
        rw [if_pos (by omega)]
  | received place id =>
      have moves : Movement.received place id ∈ movementsOf set tx artifact etched total ↔
          place < tx.tx.output.length ∧
            0 < RuneShares.allocation tx.tx.output artifact etched total place id := Iff.rfl
      rw [moves]
      by_cases inside : place < tx.tx.output.length
      · have bound : place < allocated.length := by omega
        have listed := exact.received place _ _ (List.getElem?_eq_getElem inside)
          (List.getElem?_eq_getElem bound) id
        simp only [← movement_eq_received (show place < 2 ^ 32 by omega)] at listed
        rw [listed, shares place _ (List.getElem?_eq_getElem bound) id]
        constructor
        · intro some
          rw [if_neg (by omega)]
          exact ⟨_, rfl⟩
        · intro none
          rw [if_pos (by omega)]
      · constructor
        · intro some
          exact absurd some.1 inside
        · intro _
          rw [List.filter_eq_nil_iff]
          intro record member
          rw [decide_eq_true_eq]
          intro same
          rw [RuneBalanceChange.movement] at same
          cases at' : record.outputIndex with
          | none =>
              rw [at'] at same
              cases same
          | some other =>
              rw [at'] at same
              have bound := exact.placed record member other at'
              simp only [Movement.received.injEq] at same
              omega

theorem ExactRecords.encard_movements (exact : ExactRecords set tx allocated records)
    (small : tx.tx.output.length < 2 ^ 32) (count : allocated.length = tx.tx.output.length)
    {artifact : Option Artifact} {etched : Option RuneId} {total : RuneId → Nat}
    (shares : ∀ place balances, allocated[place]? = some balances → ∀ id,
      RuneBalances.amount balances id =
        RuneShares.allocation tx.tx.output artifact etched total place id) :
    (movementsOf set tx artifact etched total).encard = records.length := by
  have single := exact.of_movement small count shares
  have counted (movement : Movement) : (records.map RuneBalanceChange.movement).count movement =
      (records.filter (fun record => record.movement = movement)).length := by
    rw [List.count, List.countP_map, List.countP_eq_length_filter]
    congr 1
  have distinct : (records.map RuneBalanceChange.movement).Nodup := by
    rw [List.nodup_iff_count_le_one]
    intro movement
    rw [counted]
    by_cases moves : movement ∈ movementsOf set tx artifact etched total
    · rcases (single movement).1 moves with ⟨record, listed⟩
      rw [listed, List.length_singleton]
    · rw [(single movement).2 moves]
      exact Nat.zero_le _
  have shown : movementsOf set tx artifact etched total =
      (records.map RuneBalanceChange.movement).toFinset := by
    ext movement
    rw [Finset.mem_coe, List.mem_toFinset, ← List.count_pos_iff, counted]
    by_cases moves : movement ∈ movementsOf set tx artifact etched total
    · rcases (single movement).1 moves with ⟨record, listed⟩
      rw [listed, List.length_singleton]
      exact ⟨fun _ => Nat.one_pos, fun _ => moves⟩
    · rw [(single movement).2 moves]
      exact ⟨fun some => absurd some moves, fun some => absurd some (Nat.lt_irrefl 0)⟩
  rw [shown, Set.encard_coe_eq_coe_finsetCard, List.toFinset_card_of_nodup distinct, List.length_map]

theorem le_encard_movementsOf {stone : Runestone} {edict : Edict} {etched : Option RuneId}
    {total : RuneId → Nat} (alone : stone.edicts = [edict]) (named : edict.id ≠ RuneId.zero)
    (given : edict.amount ≠ 0) (all : edict.output.toNat = tx.tx.output.length)
    (enough : edict.amount.toNat * (RuneLedger.destinations tx.tx.output).length ≤ total edict.id) :
    ((RuneLedger.destinations tx.tx.output).length : ENat) ≤
      (movementsOf set tx (some (.runestone stone)) etched total).encard := by
  let places := RuneLedger.destinations tx.tx.output
  have positive : 0 < edict.amount.toNat := by
    rw [Nat.pos_iff_ne_zero]
    intro zero
    exact given (BitVec.eq_of_toNat_eq zero)
  have received : ∀ place ∈ places, Movement.received place edict.id ∈
      movementsOf set tx (some (.runestone stone)) etched total := by
    intro place member
    refine ⟨RuneLedger.destinations_lt member, ?_⟩
    have share := @RuneShares.giveUpTo_pos (.start total) edict.id edict.amount.toNat place places
      positive enough member
    apply lt_of_lt_of_le share
    simp only [RuneShares.allocation, RuneShares.edictsOf, alone, RuneShares.applyEdicts,
      List.foldl_cons, List.foldl_nil, RuneShares.applyEdict, if_neg named, if_pos all, if_neg given]
    exact Nat.le_add_right _ _
  have injective : Function.Injective (fun place => Movement.received place edict.id) := by
    intro first second same
    exact (Movement.received.inj same).1
  calc ((places.length : Nat) : ENat)
      = (places.toFinset : Set Nat).encard := by
        rw [Set.encard_coe_eq_coe_finsetCard,
          List.toFinset_card_of_nodup (RuneLedger.nodup_destinations _)]
    _ = ((fun place => Movement.received place edict.id) '' (places.toFinset : Set Nat)).encard :=
        (injective.encard_image _).symm
    _ ≤ (movementsOf set tx (some (.runestone stone)) etched total).encard := by
        apply Set.encard_le_encard
        rintro _ ⟨place, member, rfl⟩
        exact received place (List.mem_toFinset.mp (Finset.mem_coe.mp member))

end Count

end Symphony
