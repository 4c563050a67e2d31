import Mathlib.Data.List.Dedup
import Symphony.Storage.CounterSpec
import Symphony.Sync.CustomTables
import Symphony.Spec.UtxoSet
import Symphony.Sync.IndexSpec

/-! The number of transactions per script (`custom/tx_count_by_address.rs`).

The count is never read back by its indexer: a key of the table stands at what the database
holds plus the increments pending in the task. -/

namespace Symphony

open Encdec
open IndexingTask (SameSource Touches Written)

/-- The order in which the scripts of a `HashSet` come, which may be another one at every call. -/
structure SetOrder where
  iterate : TransactionWithId → Nat → TxContext → List ScriptPubKey → List ScriptPubKey
  perm : ∀ tx blockIndex ctx scripts, (iterate tx blockIndex ctx scripts).Perm scripts

namespace TxCountByAddressIndexer

def table : IndexerTable ScriptPubKey U64 := ⟨.txCountByAddress, 0⟩

def inputScripts (ctx : TxContext) : List TxIn → Except Error (List ScriptPubKey)
  | [] => .ok []
  | input :: inputs => match ctx.resolveInput input.previousOutput with
      | none => .error (.missingUtxo input.previousOutput)
      | some utxo => (inputScripts ctx inputs).map (fun scripts => utxo.script :: scripts)

def seenScripts (ctx : TxContext) (tx : Transaction) : Except Error (List ScriptPubKey) :=
  (if tx.isCoinbase then .ok [] else inputScripts ctx tx.input).map
    (fun spent => (spent ++ tx.output.map TxOut.scriptPubkey).dedup)

def countScripts : List ScriptPubKey → Script Unit
  | [] => .pure ()
  | script :: scripts => (table.increment script 1).bind (fun _ => countScripts scripts)

def processTx (order : SetOrder) : Indexer := fun tx blockIndex ctx =>
  (Script.lift (seenScripts ctx tx.tx)).bind
    (fun scripts => countScripts (order.iterate tx blockIndex ctx scripts))

end TxCountByAddressIndexer

def Tallies (cell : Cell) (count : Nat) : Prop :=
  ∃ value, amounts (IndexingTask.decodeCell cell : Except Error (Option U128)) = .ok value ∧
    value.getD 0 = min count (2 ^ 128 - 1)

theorem Tallies.decode {cell : Cell} {count : Nat} (tallies : Tallies cell count)
    (fits : count < 2 ^ 64) :
    ∃ value : Option U64, IndexingTask.decodeCell cell = .ok value ∧ (value.getD 0).toNat = count := by
  rcases tallies with ⟨number, wide, total⟩
  have small : ∀ amount ∈ number, amount < 2 ^ VarUIntEncoded.width U64 := by
    rintro amount rfl
    rw [Option.getD_some] at total
    have width : VarUIntEncoded.width U64 = 64 := rfl
    rw [width]
    omega
  have narrow := (@amounts_decodeCell U64 _ _ _ cell number).mpr ⟨wide, small⟩
  cases read : (IndexingTask.decodeCell cell : Except Error (Option U64)) with
  | error failure =>
      rw [read] at narrow
      cases narrow
  | ok value =>
      rw [read] at narrow
      obtain rfl : value.map amountOf = number := Except.ok.inj narrow
      refine ⟨value, rfl, ?_⟩
      cases value with
      | none =>
          have none : (0 : U64).toNat = 0 := rfl
          rw [Option.map_none, Option.getD_none] at total
          rw [Option.getD_none]
          omega
      | some amount =>
          have same : amountOf amount = amount.toNat := toNat_widen (by decide) amount
          rw [Option.map_some, Option.getD_some] at total
          rw [Option.getD_some]
          omega

/-- The increments pending for a key. -/
inductive PendingIncrements : Option StorageAction → Nat → Prop
  | none : PendingIncrements none 0
  | merge (amount : U128) (total : Nat) (sum : amount.toNat = min total (2 ^ 128 - 1)) :
      PendingIncrements (some (.merge (.increment amount))) total

theorem toNat_saturatingAdd_min (first second : U128) :
    (saturatingAdd first second).toNat = min (first.toNat + second.toNat) (2 ^ 128 - 1) := by
  rw [saturatingAdd]
  split
  · rename_i inside
    rw [BitVec.toNat_add, Nat.mod_eq_of_lt inside]
    omega
  · rw [BitVec.toNat_allOnes]
    omega

namespace IndexingTask

/-- The key stands at a count: what the database holds and what is pending. -/
def TalliesAt (task : IndexingTask) (key : RawKey) (count : Nat) : Prop :=
  ∃ earlier pending, Tallies (task.db.get task.readTs key) earlier ∧
    PendingIncrements (task.writeBuffer.lookup key) pending ∧ earlier + pending = count

variable {task after : IndexingTask} {key : RawKey} {count : Nat}

theorem TalliesAt.frame (tallies : task.TalliesAt key count) (same : SameSource task after)
    (lookup : after.writeBuffer.lookup key = task.writeBuffer.lookup key) :
    after.TalliesAt key count := by
  rw [TalliesAt, same.db, same.readTs, lookup]
  exact tallies

theorem TalliesAt.written {allowed : RawKey → Prop} (tallies : task.TalliesAt key count)
    (writes : Written allowed task after) (outside : ¬ allowed key) : after.TalliesAt key count :=
  tallies.frame writes.sameSource (writes.lookup_of_not_allowed key outside)

theorem TalliesAt.getRaw (tallies : task.TalliesAt key count) : Tallies (task.getRaw key) count := by
  rcases tallies with ⟨earlier, pending, ⟨value, read, total⟩, increments, rfl⟩
  generalize waiting : task.writeBuffer.lookup key = action at increments
  cases increments with
  | none =>
      refine ⟨value, ?_, total⟩
      simp only [IndexingTask.getRaw, waiting, read]
  | merge amount pending sum =>
      rcases getRaw_merge waiting read with ⟨start, base, raw⟩
      refine ⟨_, by rw [raw, amounts_encode], ?_⟩
      rw [Option.getD_some, MergeOperation.perform, toNat_saturatingAdd_min, base, total, sum]
      omega

theorem TalliesAt.increment (tallies : task.TalliesAt key count)
    (success : task.mergeOpRaw key (.increment 1) = .ok after) :
    after.TalliesAt key (count + 1) := by
  rcases tallies with ⟨earlier, pending, held, increments, rfl⟩
  have touches := mergeOpRaw_touches success
  have source := touches.sameSource
  rcases touches with ⟨short, stored, _, _, storing, _⟩
  have same : stored.writeBuffer.lookup key = task.writeBuffer.lookup key := by
    rcases maybeStoreOriginalKv_cases storing with ⟨_, rfl⟩ | ⟨_, _, _, rfl⟩ | ⟨_, _, _, _, _, rfl⟩
    all_goals rfl
  simp only [mergeOpRaw, allocate_short short, storing, same, bind, Except.bind, pure, Except.pure]
    at success
  rw [TalliesAt, source.db, source.readTs]
  refine ⟨earlier, pending + 1, held, ?_, by omega⟩
  generalize task.writeBuffer.lookup key = action at increments success
  cases increments with
  | none =>
      obtain rfl := Except.ok.inj success
      rw [buffer, AList.lookup_insert]
      exact .merge 1 1 rfl
  | merge amount total sum =>
      obtain rfl := Except.ok.inj success
      rw [buffer, AList.lookup_insert]
      refine .merge _ _ ?_
      have one : (1 : U128).toNat = 1 := rfl
      rw [toNat_saturatingAdd_min, sum, one]
      omega

end IndexingTask

def txCountKey (script : ScriptPubKey) : RawKey := TxCountByAddressKV.encodeKey script

theorem isCustomKey_txCountKey (script : ScriptPubKey) : IsCustomKey (txCountKey script) := rfl

namespace TxCountByAddressIndexer

variable {task after : IndexingTask} {ctx ctx' : IndexingContext}

theorem txCountKey_injective {script other : ScriptPubKey} (fits : script.length < 2 ^ 64)
    (short : (txCountKey other).length < 2 ^ 63) (same : txCountKey script = txCountKey other) :
    script = other := by
  have body : other.length ≤ (txCountKey other).length := by
    have items : (other.flatMap (encode : BigEndian.Byte → List BigEndian.Byte)).length =
        other.length := by simp [encode]
    simp only [txCountKey, Table.encodeKey, encode, List.length_append] at items ⊢
    omega
  have own : Fits script := ⟨fits, by intro _ _; trivial⟩
  have given : Fits other := ⟨by omega, by intro _ _; trivial⟩
  exact Table.encodeKey_injective TxCountByAddressKV own given same

/-- Every script of the list is counted once for each time it is there. -/
theorem countScripts_tallies {scripts : List ScriptPubKey} {script : ScriptPubKey} {count : Nat}
    (fits : script.length < 2 ^ 64) (tallies : task.TalliesAt (txCountKey script) count)
    (success : (countScripts scripts).run task ctx = .ok ((), after, ctx')) :
    after.TalliesAt (txCountKey script) (count + scripts.count script) := by
  induction scripts generalizing task count with
  | nil =>
      cases success
      rw [List.count_nil]
      exact tallies
  | cons first scripts ih =>
      simp only [countScripts, IndexerTable.increment, Script.bind, Script.run] at success
      split at success
      · rename_i middle step
        have counted : task.mergeOpRaw (txCountKey first) (.increment 1) = .ok middle := step
        have touches := IndexingTask.mergeOpRaw_touches counted
        by_cases same : script = first
        · subst same
          have rest := ih (tallies.increment counted) success
          rw [List.count_cons_self, Nat.add_comm (List.count _ _) 1, ← Nat.add_assoc]
          exact rest
        · have other : txCountKey script ≠ txCountKey first := by
            intro equal
            exact same (txCountKey_injective fits touches.1 equal)
          rw [List.count_cons_of_ne (fun equal => same equal.symm)]
          exact ih (tallies.frame touches.sameSource (touches.lookup_ne other)) success
      · cases success

theorem inputScripts_ok {txCtx : TxContext} {inputs : List TxIn} {scripts : List ScriptPubKey}
    (success : inputScripts txCtx inputs = .ok scripts) (script : ScriptPubKey) :
    script ∈ scripts ↔ ∃ input ∈ inputs, ∃ utxo,
      txCtx.resolveInput input.previousOutput = some utxo ∧ utxo.script = script := by
  induction inputs generalizing scripts with
  | nil =>
      cases success
      simp
  | cons input inputs ih =>
      simp only [inputScripts] at success
      split at success
      · cases success
      · rename_i utxo found
        cases rest : inputScripts txCtx inputs with
        | error failure =>
            rw [rest] at success
            cases success
        | ok later =>
            rw [rest] at success
            obtain rfl := Except.ok.inj success
            rw [List.exists_mem_cons_iff]
            simp only [List.mem_cons, ih rest, found, Option.some.injEq, exists_eq_left']
            rw [eq_comm]

theorem seenScripts_ok {txCtx : TxContext} {tx : TransactionWithId} {scripts : List ScriptPubKey}
    (success : seenScripts txCtx tx.tx = .ok scripts) :
    scripts.Nodup ∧ ∀ script, script ∈ scripts ↔
      (∃ ref ∈ tx.spends, ∃ utxo, txCtx.resolveInput ref = some utxo ∧ utxo.script = script) ∨
      ∃ output ∈ tx.tx.output, output.scriptPubkey = script := by
  rw [seenScripts] at success
  cases spent : (if tx.tx.isCoinbase then .ok [] else inputScripts txCtx tx.tx.input :
      Except Error (List ScriptPubKey)) with
  | error failure =>
      rw [spent] at success
      cases success
  | ok inputs =>
      rw [spent] at success
      obtain rfl := Except.ok.inj success
      refine ⟨List.nodup_dedup _, ?_⟩
      intro script
      rw [List.mem_dedup, List.mem_append, List.mem_map, TransactionWithId.spends]
      split at spent
      · rename_i coinbase
        cases spent
        simp [coinbase]
      · rename_i plain
        rw [inputScripts_ok spent, if_neg plain]
        simp

end TxCountByAddressIndexer

end Symphony
