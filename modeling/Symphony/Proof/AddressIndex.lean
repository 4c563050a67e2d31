import Symphony.Proof.TxRule
import Symphony.Spec.OutputIndex
import Symphony.Sync.UtxosByAddress

/-! The address index against the UTXO set.

The indexer lists every output, while the UTXO set leaves out those of OP_RETURN scripts; nothing
spends these, so their keys stay. Apart from them the index is exact. -/

namespace Symphony

open Encdec
open VersionedLog (Increasing)

/-- The reference names an OP_RETURN output of a transaction indexed at the height. -/
def Unspendable (txs : List IndexedTx) (script : ScriptPubKey) (height : BlockHeight)
    (ref : TxoRef) : Prop :=
  isOpReturn script = true ∧ ∃ step ∈ txs, step.point.height = height ∧
    (step.tx.outputAt ref).map TxOut.scriptPubkey = some script

/-- The output is unspent, with that script and that height. -/
def HoldsOutput (set : UtxoSet) (script : ScriptPubKey) (height : BlockHeight) (ref : TxoRef) : Prop :=
  ∃ utxo, set ref = some utxo ∧ utxo.script = script ∧ utxo.height = height

section Sets

variable {past : List IndexedTx} {script : ScriptPubKey} {height : BlockHeight} {ref : TxoRef}

theorem HoldsOutput.txId (held : HoldsOutput (unspentAfter past) script height ref) :
    ref.txHash ∈ past.map IndexedTx.txId ∧ isOpReturn script = false := by
  rcases held with ⟨utxo, found, rfl, _⟩
  exact unspentAfter_some found

theorem Unspendable.txId (stuck : Unspendable past script height ref) :
    ref.txHash ∈ past.map IndexedTx.txId := by
  rcases stuck.2 with ⟨step, member, _, named⟩
  rw [step.tx.txHash_of_outputAt (by rw [← Option.isSome_map, named]; rfl)]
  exact List.mem_map_of_mem member

variable {point : Point} {blockIndex : Nat} {tx : TransactionWithId}
variable {attached : TxoRef → ExtendedUtxoData}

theorem unspendable_cons : Unspendable (⟨point, blockIndex, tx, attached⟩ :: past) script height ref ↔
    (isOpReturn script = true ∧ point.height = height ∧
      (tx.outputAt ref).map TxOut.scriptPubkey = some script) ∨
    Unspendable past script height ref := by
  simp only [Unspendable, List.exists_mem_cons_iff, and_or_left]

theorem holdsOutput_own {output : TxOut} (own : tx.outputAt ref = some output)
    (fresh : tx.txId ∉ past.map IndexedTx.txId) :
    HoldsOutput (unspentAfter (⟨point, blockIndex, tx, attached⟩ :: past)) script height ref ↔
      isOpReturn script = false ∧ output.scriptPubkey = script ∧ point.height = height := by
  have hash := tx.txHash_of_outputAt (by rw [own]; rfl)
  have before : unspentAfter past ref = none := by
    cases found : unspentAfter past ref with
    | none => rfl
    | some utxo => exact absurd (hash ▸ (unspentAfter_some found).1) fresh
  have creation := tx.creates_eq ref
  rw [own] at creation
  simp only [HoldsOutput, unspentAfter, applyTx, creation]
  by_cases plain : isOpReturn output.scriptPubkey = false
  · rw [Option.filter_some, if_pos (by rw [plain]; rfl)]
    simp only [Option.some.injEq, exists_eq_left']
    constructor
    · rintro ⟨rfl, same⟩
      exact ⟨plain, rfl, same⟩
    · rintro ⟨_, same⟩
      exact same
  · rw [Option.filter_some, if_neg (by simpa using plain)]
    simp only [before, ite_self, reduceCtorEq, false_and, exists_false, false_iff]
    rintro ⟨open_, rfl, _⟩
    exact plain open_

theorem holdsOutput_other (other : tx.outputAt ref = none) :
    HoldsOutput (unspentAfter (⟨point, blockIndex, tx, attached⟩ :: past)) script height ref ↔
      ref ∉ tx.spends ∧ HoldsOutput (unspentAfter past) script height ref := by
  have creation := tx.creates_eq ref
  rw [other] at creation
  simp only [HoldsOutput, unspentAfter, applyTx, creation, Option.filter_none]
  by_cases spent : ref ∈ tx.spends
  · simp [spent]
  · simp [spent]

end Sets

namespace UtxosByAddressIndexer

variable {refs : TxoRef → Prop}

theorem consumed_within (ctx : TxContext) (inputs : List TxIn) :
    (consumed ctx inputs).Within (.own .utxosByAddress (OwnedRaw [table]) refs) := by
  induction inputs with
  | nil => trivial
  | cons input inputs ih =>
      rw [consumed]
      split
      · trivial
      · exact (table.delete_within _).bind (fun _ => ih)

theorem produced_within (tx : TransactionWithId) (height : BlockHeight)
    (outputs : List (TxOut × Nat)) :
    (produced tx height outputs).Within (.own .utxosByAddress (OwnedRaw [table]) refs) := by
  induction outputs with
  | nil => trivial
  | cons item outputs ih =>
      exact (table.insert_within List.mem_cons_self _).bind (fun _ => ih)

theorem processTx_within (tx : TransactionWithId) (blockIndex : Nat) (ctx : TxContext) :
    (processTx tx blockIndex ctx).Within (.own .utxosByAddress (OwnedRaw [table]) refs) := by
  apply Script.Within.bind
  · split
    · trivial
    · exact consumed_within ctx tx.tx.input
  · intro _
    exact produced_within tx ctx.point.height tx.tx.output.zipIdx

end UtxosByAddressIndexer

section Calls

open UtxosByAddressIndexer

variable {state : TableState} {listed : OwnedUtxoKey → Prop}

theorem consumed_yields {ctx : TxContext} {inputs : List TxIn}
    (lists : Lists state.cells table listed) :
    (consumed ctx inputs).Yields (fun _ after => after.attached = state.attached ∧
      (∀ input ∈ inputs, (ctx.resolveInput input.previousOutput).isSome) ∧
      Lists after.cells table (fun key => listed key ∧ ¬ ∃ input ∈ inputs, ∃ utxo,
        ctx.resolveInput input.previousOutput = some utxo ∧
          key = ⟨utxo.script, utxo.height, input.previousOutput⟩)) state := by
  induction inputs generalizing state listed with
  | nil =>
      refine ⟨rfl, by simp, ?_⟩
      apply lists.same
      simp
  | cons input inputs ih =>
      simp only [consumed]
      cases found : ctx.resolveInput input.previousOutput with
      | none => trivial
      | some utxo =>
          simp only [Script.bind_eq, Script.yields_bind, IndexerTable.yields_delete]
          intro short
          apply (ih (lists.delete short)).mono
          rintro _ after ⟨attached, resolved, left⟩
          refine ⟨attached, ?_, ?_⟩
          · intro other member
            rcases List.mem_cons.mp member with rfl | later
            · rw [found]
              rfl
            · exact resolved other later
          · apply left.same
            intro key
            simp only [List.exists_mem_cons_iff, found, Option.some.injEq, exists_eq_left', not_or]
            tauto

theorem produced_yields {tx : TransactionWithId} {height : BlockHeight}
    {outputs : List (TxOut × Nat)} (lists : Lists state.cells table listed) :
    (produced tx height outputs).Yields (fun _ after => after.attached = state.attached ∧
      Lists after.cells table (fun key => listed key ∨ ∃ item ∈ outputs,
        key = ⟨item.1.scriptPubkey, height, tx.txoRef item.2⟩)) state := by
  induction outputs generalizing state listed with
  | nil =>
      refine ⟨rfl, ?_⟩
      apply lists.same
      simp
  | cons item outputs ih =>
      rcases item with ⟨output, index⟩
      simp only [produced, Script.bind_eq, Script.yields_bind, IndexerTable.yields_set]
      intro short
      apply (ih (lists.set short)).mono
      rintro _ after ⟨attached, left⟩
      refine ⟨attached, ?_⟩
      apply left.same
      intro key
      simp only [List.exists_mem_cons_iff]
      tauto

/-- What the table lists after a sequence of transactions. -/
def AddressListed (past : List IndexedTx) (key : OwnedUtxoKey) : Prop :=
  HoldsOutput (unspentAfter past) key.owner key.producedHeight key.txoRef ∨
    Unspendable past key.owner key.producedHeight key.txoRef

theorem AddressListed.step {past : List IndexedTx} {key : OwnedUtxoKey}
    (listed : AddressListed past key) :
    ∃ step ∈ past, step.point.height = key.producedHeight := by
  rcases listed with ⟨utxo, found, _, height⟩ | ⟨_, step, member, height, _⟩
  · rcases unspentAfter_creator found with ⟨step, member, output, _, rfl⟩
    exact ⟨step, member, height⟩
  · exact ⟨step, member, height⟩

def AddressesListed (past : List IndexedTx) (cells : RawKey → Cell) : Prop :=
  Lists cells table (AddressListed past)

theorem addressListed_step {past : List IndexedTx} {point : Point} {blockIndex : Nat}
    {tx : TransactionWithId} {attached : TxoRef → ExtendedUtxoData}
    (valid : ValidTx (liveRefs (unspentAfter past)) tx) (fresh : tx.txId ∉ past.map IndexedTx.txId)
    (key : OwnedUtxoKey) :
    ((AddressListed past key ∧ ¬ ∃ ref ∈ tx.spends, ∃ utxo, unspentAfter past ref = some utxo ∧
        key = ⟨utxo.script, utxo.height, ref⟩) ∨
      ∃ item ∈ tx.tx.output.zipIdx, key = ⟨item.1.scriptPubkey, point.height, tx.txoRef item.2⟩) ↔
    AddressListed (⟨point, blockIndex, tx, attached⟩ :: past) key := by
  rcases key with ⟨script, height, ref⟩
  have created : (∃ item ∈ tx.tx.output.zipIdx, (⟨script, height, ref⟩ : OwnedUtxoKey) =
      ⟨item.1.scriptPubkey, point.height, tx.txoRef item.2⟩) ↔
        ∃ output, tx.outputAt ref = some output ∧ output.scriptPubkey = script ∧
          point.height = height := by
    simp only [OwnedUtxoKey.mk.injEq, TransactionWithId.outputAt_iff valid.small]
    constructor
    · rintro ⟨⟨output, index⟩, member, rfl, rfl, rfl⟩
      exact ⟨output, ⟨index, List.mem_zipIdx_iff_getElem?.mp member, rfl⟩, rfl, rfl⟩
    · rintro ⟨output, ⟨index, listed, rfl⟩, rfl, rfl⟩
      exact ⟨(output, index), List.mem_zipIdx_iff_getElem?.mpr listed, rfl, rfl, rfl⟩
  have deleted : (∃ spent ∈ tx.spends, ∃ utxo, unspentAfter past spent = some utxo ∧
      (⟨script, height, ref⟩ : OwnedUtxoKey) = ⟨utxo.script, utxo.height, spent⟩) ↔
        ref ∈ tx.spends ∧ HoldsOutput (unspentAfter past) script height ref := by
    simp only [OwnedUtxoKey.mk.injEq, HoldsOutput]
    constructor
    · rintro ⟨spent, member, utxo, found, rfl, rfl, rfl⟩
      exact ⟨member, utxo, found, rfl, rfl⟩
    · rintro ⟨member, utxo, found, rfl, rfl⟩
      exact ⟨ref, member, utxo, found, rfl, rfl, rfl⟩
  simp only [created, deleted, AddressListed, unspendable_cons]
  cases own : tx.outputAt ref with
  | none =>
      -- not one of this transaction's outputs: it stays unless it is spent now
      have apart : Unspendable past script height ref →
          ¬ HoldsOutput (unspentAfter past) script height ref := by
        intro stuck held
        rw [Unspendable, held.txId.2] at stuck
        cases stuck.1
      simp only [holdsOutput_other own, Option.map_none, reduceCtorEq, false_and, and_false,
        exists_false, false_or, or_false]
      tauto
  | some output =>
      have hash := tx.txHash_of_outputAt (by rw [own]; rfl)
      have unheld : ¬ HoldsOutput (unspentAfter past) script height ref :=
        fun held => fresh (hash ▸ held.txId.1)
      have unstuck : ¬ Unspendable past script height ref := fun stuck => fresh (hash ▸ stuck.txId)
      simp only [holdsOutput_own own fresh, unheld, unstuck, Option.map_some, Option.some.injEq,
        exists_eq_left', false_or, or_false, false_and]
      cases isOpReturn script with
      | false => simp
      | true => simp [and_comm]

theorem addressesListed_rule : TxRule .utxosByAddress processTx AddressesListed := by
  constructor
  · intro past cells other same listed
    apply Lists.congr listed
    intro key
    exact same _ (table.owns_raw key)
  · intro key _
    refine ⟨?_, fun _ => rfl⟩
    rintro (⟨_, absent, _⟩ | ⟨_, _, member, _⟩)
    · cases absent
    · cases member
  · intro past point blockIndex tx network resolve state listed called
    let ctx : TxContext := ⟨point, network, resolve⟩
    have spending : (if tx.tx.isCoinbase then Script.pure () else consumed ctx tx.tx.input).Yields
        (fun _ after => after.attached = state.attached ∧ Lists after.cells table (fun key =>
          AddressListed past key ∧ ¬ ∃ ref ∈ tx.spends, ∃ utxo, unspentAfter past ref = some utxo ∧
            key = ⟨utxo.script, utxo.height, ref⟩)) state := by
      by_cases coinbase : tx.tx.isCoinbase
      · rw [if_pos coinbase]
        refine ⟨rfl, Lists.same listed ?_⟩
        intro key
        simp [TransactionWithId.spends, coinbase]
      · rw [if_neg coinbase]
        apply (consumed_yields listed).mono
        rintro _ after ⟨attached, _, left⟩
        refine ⟨attached, left.same ?_⟩
        intro key
        have spends : tx.spends = tx.tx.input.map TxIn.previousOutput := by
          rw [TransactionWithId.spends, if_neg coinbase]
        simp only [spends, List.mem_map, exists_exists_and_eq_and]
        apply and_congr_right
        intro _
        apply not_congr
        apply exists_congr
        intro input
        apply and_congr_right
        intro member
        rcases called.resolved input.previousOutput (by
          rw [spends]
          exact List.mem_map_of_mem member) with ⟨utxo, found, unspent⟩
        rw [show ctx.resolveInput input.previousOutput = some utxo from found, unspent]
    apply spending.bind
    rintro _ middle ⟨attached, left⟩
    apply (produced_yields left).mono
    rintro _ after ⟨attached', final⟩
    constructor
    · intro metadata _
      apply final.same
      exact addressListed_step called.valid called.fresh
    · intro ref _
      rw [attached', attached]

end Calls

theorem AddressListed.iff {past : List IndexedTx} {script : ScriptPubKey} {height : BlockHeight}
    {ref : TxoRef} :
    (AddressListed past ⟨script, height, ref⟩ ↔
      HoldsOutput (unspentAfter past) script height ref) ↔ ¬ Unspendable past script height ref := by
  have apart : Unspendable past script height ref →
      ¬ HoldsOutput (unspentAfter past) script height ref := by
    intro stuck holds
    rw [Unspendable, holds.txId.2] at stuck
    cases stuck.1
  simp only [AddressListed]
  tauto

theorem Records.address_iff {history : History} {machine : Machine}
    (records : Records AddressesListed history machine) {script : ScriptPubKey}
    (short : script.length < 2 ^ 64) (height : BlockHeight) (ref : TxoRef) :
    ((machine.stage.db.reader Timestamp.latest).get UtxosByAddressKV ⟨script, height, ref⟩ =
        .ok (some ()) ↔
      ∃ utxo, (machine.stage.db.reader Timestamp.latest).get UtxoByTxoRefKV ref = .ok (some utxo) ∧
        utxo.script = script ∧ utxo.height = height) ↔
      ¬ Unspendable (chainTxs history.blocks) script height ref := by
  have listed : (machine.stage.db.reader Timestamp.latest).get UtxosByAddressKV
      ⟨script, height, ref⟩ = .ok (some ()) ↔
        AddressListed (chainTxs history.blocks) ⟨script, height, ref⟩ := by
    have lists : Lists machine.stage.db.db.view UtxosByAddressIndexer.table
        (AddressListed (chainTxs history.blocks)) := records.good
    have read := @Lists.read _ _ ⟨script, height, ref⟩ _ lists short
    exact read
  have held := records.stores.read ref
  rw [← unspentAfter_chainTxs] at held
  rw [listed, held]
  simp only [Except.ok.injEq]
  exact AddressListed.iff

/-- After every run of valid blocks, snapshots and rollbacks, a key is in the address index just
when the UTXO table has that output, unless it is that of an OP_RETURN output of an indexed
transaction. -/
theorem utxos_by_address_iff (blockHash : Header → BlockHash) (config : Config)
    (others : Others .utxosByAddress) (stage : Stage) (events : List (Env × ChainEvent))
    (fresh : Stage.new config (StorageHandler.openDb DB.empty) = .ok stage)
    (fed : ∀ event ∈ events, event.2.Valid (HashedBy blockHash))
    (increasing : Increasing ((Machine.bootstrap (others.with UtxosByAddressIndexer.processTx)
      stage).run events).stage.db.db.log)
    (valid : (Machine.bootstrap (others.with UtxosByAddressIndexer.processTx)
      stage).uncached.ValidFrom ⟨[], []⟩ events)
    (script : ScriptPubKey) (short : script.length < 2 ^ 64) (height : BlockHeight) (ref : TxoRef) :
    let machine := Machine.bootstrap (others.with UtxosByAddressIndexer.processTx) stage
    let reader := (machine.run events).stage.db.reader Timestamp.latest
    (reader.get UtxosByAddressKV ⟨script, height, ref⟩ = .ok (some ()) ↔
      ∃ utxo, reader.get UtxoByTxoRefKV ref = .ok (some utxo) ∧ utxo.script = script ∧
        utxo.height = height) ↔
      ¬ Unspendable (chainTxs (machine.uncached.history events).blocks) script height ref := by
  rw [Stage.new_empty, Except.ok.injEq] at fresh
  subst fresh
  exact (addressesListed_rule.run others (HashedBy blockHash) config events fed valid
    increasing).address_iff short height ref

def addressMachine : Machine :=
  Machine.bootstrap ((attachBeside .utxosByAddress (by decide)).with UtxosByAddressIndexer.processTx)
    (Stage.empty (mainnetConfig 2))

theorem addressMachine_run : Increasing (addressMachine.run spendEvents).stage.db.db.log ∧
    addressMachine.uncached.ValidFrom ⟨[], []⟩ spendEvents := by
  decide +kernel

/-- The output of the second pseudo block is listed at its pseudo height. -/
theorem utxos_by_address_snapshot :
    let reader := (addressMachine.run spendEvents).stage.db.reader Timestamp.latest
    (∃ utxo, reader.get UtxoByTxoRefKV ⟨txIdOf 3, 0⟩ = .ok (some utxo) ∧ utxo.script = [82] ∧
      utxo.height = 3) ∧
    ((reader.get UtxosByAddressKV ⟨[82], 3, ⟨txIdOf 3, 0⟩⟩ = .ok (some ()) ↔
      ∃ utxo, reader.get UtxoByTxoRefKV ⟨txIdOf 3, 0⟩ = .ok (some utxo) ∧ utxo.script = [82] ∧
        utxo.height = 3) ↔
      ¬ Unspendable (chainTxs (addressMachine.uncached.history spendEvents).blocks) [82] 3
        ⟨txIdOf 3, 0⟩) :=
  ⟨⟨⟨40, [82], 3, IndexMap.empty.insert .runes [7]⟩, by decide +kernel, rfl, rfl⟩,
    utxos_by_address_iff mainnetHash (mainnetConfig 2) (attachBeside .utxosByAddress (by decide)) _
      spendEvents (Stage.new_empty _) spendEvents_fed addressMachine_run.1 addressMachine_run.2
      [82] (by decide) 3 ⟨txIdOf 3, 0⟩⟩

/-- The OP_RETURN output of a coinbase is in the index and not in the UTXO table. -/
theorem utxos_by_address_op_return :
    (∀ event ∈ spendEvents, event.2.Valid (HashedBy mainnetHash)) ∧
      Increasing (addressMachine.run spendEvents).stage.db.db.log ∧
      addressMachine.uncached.ValidFrom ⟨[], []⟩ spendEvents ∧
      ((addressMachine.run spendEvents).stage.db.reader Timestamp.latest).get UtxosByAddressKV
        ⟨[opReturn], 1, ⟨txIdOf 1, 1⟩⟩ = .ok (some ()) ∧
      ((addressMachine.run spendEvents).stage.db.reader Timestamp.latest).get UtxoByTxoRefKV
        ⟨txIdOf 1, 1⟩ = .ok none :=
  ⟨spendEvents_fed, addressMachine_run.1, addressMachine_run.2, by decide +kernel, by decide +kernel⟩

end Symphony
