import Symphony.Proof.RuneBalances
import Symphony.Proof.RuneRecords

/-! The log of rune activity along a chain. -/

namespace Symphony

open Encdec
open RunesIndexer
open VersionedLog (Increasing)

section Logged

variable {txId : Txid} {records : List RuneBalanceChange} {key : RuneActivityByTxKey}
variable {log : RuneActivityByTxKey → Option RuneBalanceChange}

theorem logged_ne (other : key.txHash ≠ txId) : logged txId 0 records log key = log key :=
  if_neg (fun both => other both.1)

theorem logged_own (fresh : ∀ seq, log ⟨txId, seq⟩ = none) (seq : U16) :
    logged txId 0 records log ⟨txId, seq⟩ = records[seq.toNat]? := by
  rw [logged]
  by_cases inside : seq.toNat < records.length
  · rw [if_pos ⟨rfl, Nat.zero_le _, by rw [Nat.zero_add]; exact inside⟩, Nat.sub_zero]
  · rw [if_neg, fresh, List.getElem?_eq_none (Nat.le_of_not_lt inside)]
    rintro ⟨_, _, below⟩
    rw [Nat.zero_add] at below
    exact inside below

end Logged

namespace RuneRun

variable {indexer : RunesIndexer} {past later : List IndexedTx} {step : IndexedTx}
variable {runes : RuneState} {key : RuneActivityByTxKey}

theorem log_known (run : RuneRun indexer past runes) (logged : runes.log key ≠ none) :
    key.txHash ∈ past.map IndexedTx.txId := by
  induction run with
  | nil => exact absurd rfl logged
  | @cons past step before after run ordered fresh valid leads ih =>
      rw [List.map_cons, List.mem_cons]
      by_cases own : key.txHash = step.txId
      · exact Or.inl own
      · right
        cases leads with
        | idle early plain => exact ih logged
        | active call attached =>
            have kept : call.after.log key = before.log key := logged_ne own
            exact ih (by rw [← kept]; exact logged)

theorem log_fresh (run : RuneRun indexer past runes) (fresh : step.txId ∉ past.map IndexedTx.txId)
    (seq : U16) : runes.log ⟨step.txId, seq⟩ = none := by
  by_contra logged
  exact fresh (run.log_known logged)

theorem recorded (run : RuneRun indexer (later ++ step :: past) runes)
    (started : ¬ step.point.height < indexer.startHeight) :
    ∃ before, RuneRun indexer past before ∧ InOrder (step :: past) ∧
      ValidTx (liveRefs (unspentAfter past)) step.tx ∧
      ∃ call : RuneCall indexer (unspentAfter past) step.point.height step.blockIndex step.tx before,
        (∀ ref, ref.txHash = step.txId →
          (step.attached ref).get? .runes = (call.attachedTo ref).map encode) ∧
        ∀ seq, runes.log ⟨step.txId, seq⟩ = call.records[seq.toNat]? := by
  induction later generalizing runes with
  | nil =>
      cases run with
      | cons run ordered fresh valid leads =>
          cases leads with
          | idle early plain => exact absurd early started
          | active call attached =>
              exact ⟨_, run, ordered, valid, call, attached, logged_own (run.log_fresh fresh)⟩
  | cons next later ih =>
      cases run with
      | cons run ordered fresh valid leads =>
          rcases ih run with ⟨before, earlier, order, sound, call, attached, records⟩
          refine ⟨before, earlier, order, sound, call, attached, ?_⟩
          cases leads with
          | idle early plain => exact records
          | active call' attached' =>
              have other : step.txId ≠ next.txId := by
                intro same
                apply fresh
                rw [← same]
                exact List.mem_map_of_mem (List.mem_append_right _ List.mem_cons_self)
              intro seq
              have kept : call'.after.log ⟨step.txId, seq⟩ = _ := logged_ne other
              rw [kept, records]

theorem shortScripts (run : RuneRun indexer past runes) {ref : TxoRef} {utxo : Utxo}
    (found : unspentAfter past ref = some utxo) (holds : utxo.runes ≠ []) :
    utxo.script.length < 2 ^ 64 := by
  induction run with
  | nil => cases found
  | @cons past step before after run ordered fresh valid leads ih =>
      rcases unspentAfter_cons_cases found with ⟨output, created, rfl⟩ | ⟨_, before⟩
      · have own := TransactionWithId.txHash_of_creates created
        cases leads with
        | idle early nothing => exact absurd (step.runes_utxo (nothing ref own)) holds
        | active call attached =>
            cases listing : call.attachedTo ref with
            | none =>
                have data := attached ref own
                rw [listing] at data
                exact absurd (step.runes_utxo data) holds
            | some listed =>
                rcases call.item_of_attachedTo listing with ⟨item, member, _, place, _, some⟩
                rw [TransactionWithId.creates, if_pos own, place, Option.filter_eq_some_iff,
                  Option.some.injEq] at created
                have short := (call.short item member listed some).2
                rw [created.1] at short
                exact short
      · exact ih before

end RuneRun

theorem ExactRecords.script_of {set : UtxoSet} {tx : TransactionWithId}
    {allocated : List RuneBalances} {records : List RuneBalanceChange} {record : RuneBalanceChange}
    (exact : ExactRecords set tx allocated records) (count : allocated.length = tx.tx.output.length)
    (member : record ∈ records) :
    (∃ ref ∈ tx.spends, ∃ utxo, set ref = some utxo ∧ utxo.runes ≠ [] ∧ utxo.script = record.script) ∨
    ∃ (index : Nat) (output : TxOut) (balances : RuneBalances), tx.tx.output[index]? = some output ∧
      allocated[index]? = some balances ∧ RuneBalances.amount balances record.runeId ≠ 0 ∧
        output.scriptPubkey = record.script := by
  cases at' : record.outputIndex with
  | none =>
      left
      have own : record ∈ records.filter (fun other => other.outputIndex = none ∧
          other.script = record.script ∧ other.runeId = record.runeId) :=
        List.mem_filter.mpr ⟨member, decide_eq_true ⟨at', rfl, rfl⟩⟩
      rw [exact.sent] at own
      split at own
      · cases own
      · rename_i some
        -- one of the inputs holds some of the rune
        by_contra missing
        apply some
        rw [sentOf, List.sum_eq_zero_iff]
        intro amount inside
        rcases List.mem_map.mp inside with ⟨ref, named, rfl⟩
        cases found : set ref with
        | none => rfl
        | some utxo =>
            simp only
            split
            · rename_i script
              have empty : utxo.runes = [] := by
                by_contra holds
                exact missing ⟨ref, named, utxo, found, holds, script⟩
              rw [empty, amountIn_nil]
            · rfl
  | some place =>
      right
      have bound := exact.placed record member place at'
      have number : BitVec.ofNat 32 place.toNat = place := by
        rw [BitVec.ofNat_toNat, BitVec.setWidth_eq]
      have listed := List.getElem?_eq_getElem bound
      have allocated' := List.getElem?_eq_getElem (show place.toNat < allocated.length by omega)
      have own : record ∈ records.filter (fun other => other.outputIndex =
          some (BitVec.ofNat 32 place.toNat) ∧ other.runeId = record.runeId) :=
        List.mem_filter.mpr ⟨member, decide_eq_true ⟨by rw [at', number], rfl⟩⟩
      rw [exact.received _ _ _ listed allocated'] at own
      split at own
      · cases own
      · rename_i some
        have script := congrArg RuneBalanceChange.script (List.mem_singleton.mp own)
        exact ⟨place.toNat, _, _, listed, allocated', some, script.symm⟩

theorem ExactRecords.fits_record {set : UtxoSet} {tx : TransactionWithId}
    {allocated : List RuneBalances} {records : List RuneBalanceChange} {record : RuneBalanceChange}
    (exact : ExactRecords set tx allocated records) (count : allocated.length = tx.tx.output.length)
    (spent : ∀ ref ∈ tx.spends, ∀ utxo, set ref = some utxo → utxo.runes ≠ [] →
      utxo.script.length < 2 ^ 64)
    (given : ∀ (index : Nat) output balances, tx.tx.output[index]? = some output →
      allocated[index]? = some balances → ∀ id, RuneBalances.amount balances id ≠ 0 →
        output.scriptPubkey.length < 2 ^ 64)
    (member : record ∈ records) : Fits record := by
  have short : record.script.length < 2 ^ 64 := by
    rcases exact.script_of count member with ⟨ref, named, utxo, found, holds, script⟩ |
      ⟨index, output, balances, listed, allocated', some, script⟩
    · rw [← script]
      exact spent ref named utxo found holds
    · rw [← script]
      exact given index output balances listed allocated' record.runeId some
  exact ⟨⟨trivial, trivial⟩, ⟨short, fun _ _ => trivial⟩, trivial, trivial, fun _ _ => trivial⟩

namespace RuneCall

variable {indexer : RunesIndexer} {set : UtxoSet} {height : BlockHeight} {blockIndex : Nat}
variable {tx : TransactionWithId} {before : RuneState}
variable (call : RuneCall indexer set height blockIndex tx before)

theorem short_output {index : Nat} {output : TxOut} {balances : RuneBalances}
    (listed : tx.tx.output[index]? = some output) (given : call.allocated[index]? = some balances)
    {id : RuneId} (some : RuneBalances.amount balances id ≠ 0) :
    output.scriptPubkey.length < 2 ^ 64 := by
  have member := call.mem_items listed given
  have filled : ¬ balances.entries.isEmpty := by
    intro empty
    apply some
    rw [← RuneBalances.amountIn_listed, RuneBalances.listed, List.isEmpty_iff.mp empty]
    rfl
  exact (call.short _ member _ (if_neg filled)).2

end RuneCall

namespace RuneRun

variable {indexer : RunesIndexer} {past : List IndexedTx} {step : IndexedTx}
variable {before runes : RuneState}

theorem exactRecords (run : RuneRun indexer past before) (ordered : InOrder (step :: past))
    (guaranteed : indexer.ordinals.Guaranteed) (active : indexer.indexActivity)
    (valid : ValidTx (liveRefs (unspentAfter past)) step.tx)
    (call : RuneCall indexer (unspentAfter past) step.point.height step.blockIndex step.tx before) :
    ExactRecords (unspentAfter past) step.tx call.allocated call.records ∧
      ∀ record ∈ call.records, Fits record := by
  have supplied := run.supplied guaranteed
  have total := supplied.total_lt guaranteed valid call (run.unknown_etched ordered call)
  have exact := call.exactRecords active valid.small (supplied.spends_lt valid)
  refine ⟨exact, ?_⟩
  intro record member
  apply exact.fits_record (call.flow guaranteed total).1 _ _ member
  · intro ref _ utxo found holds
    exact run.shortScripts found holds
  · intro index output balances listed given id some
    exact call.short_output listed given some

theorem fits_log (run : RuneRun indexer past runes) (guaranteed : indexer.ordinals.Guaranteed)
    (key : RuneActivityByTxKey) (change : RuneBalanceChange) (logged : runes.log key = some change) :
    Fits change := by
  induction run with
  | nil => cases logged
  | @cons past step before after run ordered fresh valid leads ih =>
      cases leads with
      | idle early plain => exact ih logged
      | active call attached =>
          by_cases own : key.txHash = step.txId
          · rcases key with ⟨hash, seq⟩
            obtain rfl : hash = step.txId := own
            have found : call.after.log ⟨step.txId, seq⟩ = _ := logged_own (run.log_fresh fresh) seq
            rw [found] at logged
            have member := List.mem_of_getElem? logged
            by_cases active : indexer.indexActivity
            · exact (run.exactRecords ordered guaranteed active valid call).2 change member
            · rw [RuneReceipts.records, if_neg active] at member
              cases member
          · have kept : call.after.log key = before.log key := logged_ne own
            exact ih (by rw [← kept]; exact logged)

end RuneRun

/-- The transaction of the step was processed after the others, and this is what its outputs were
allocated; what is attached to them keeps it. -/
def AllocatedBy (indexer : RunesIndexer) (past : List IndexedTx) (step : IndexedTx)
    (allocated : List RuneBalances) : Prop :=
  ∃ before, RuneRun indexer past before ∧
    ∃ call : RuneCall indexer (unspentAfter past) step.point.height step.blockIndex step.tx before,
      call.allocated = allocated ∧ ∀ ref, ref.txHash = step.txId →
        (step.attached ref).get? .runes = (call.attachedTo ref).map encode

def runeEdict (record : RuneBalanceChange) : Serve.RuneEdict :=
  ⟨record.runeId, record.received, record.outputIndex, record.runeId.block⟩

theorem collectEdicts_eq (script : ScriptPubKey)
    (entries : List (RuneActivityByTxKey × RuneBalanceChange)) :
    Serve.collectEdicts script (entries.map .ok) =
      .ok (((entries.map Prod.snd).filter (fun record => record.script = script)).map runeEdict) := by
  induction entries with
  | nil => rfl
  | cons entry entries ih =>
      simp only [List.map_cons, Serve.collectEdicts, ih, List.filter_cons]
      by_cases own : entry.2.script = script
      · simp [own, runeEdict]
      · simp [own]

/-- After every run of valid blocks, snapshots and rollbacks the records of every transaction that
was processed are exact, whatever the orders of the maps; the scan of its hash yields these records,
numbered from zero, and nothing else, and the route shows those of a script. -/
theorem activity_log_exact (blockHash : Header → BlockHash) (config : Config)
    (indexer : RunesIndexer) (others : Others .runes) (stage : Stage)
    (events : List (Env × ChainEvent)) (guaranteed : indexer.ordinals.Guaranteed)
    (active : indexer.indexActivity = true)
    (fresh : Stage.new config (StorageHandler.openDb DB.empty) = .ok stage)
    (fed : ∀ event ∈ events, event.2.Valid (HashedBy blockHash))
    (increasing : Increasing ((Machine.bootstrap (others.with indexer.processTx) stage).run
      events).stage.db.db.log)
    (valid : (Machine.bootstrap (others.with indexer.processTx) stage).uncached.ValidFrom ⟨[], []⟩
      events)
    (fits : ((Machine.bootstrap (others.with indexer.processTx) stage).uncached.history
      events).blocks.length < 2 ^ 64)
    (reader : Reader) (sees : reader.Sees ((Machine.bootstrap (others.with indexer.processTx)
      stage).run events).stage.db.db.view)
    (later past : List IndexedTx) (step : IndexedTx)
    (split : chainTxs ((Machine.bootstrap (others.with indexer.processTx) stage).uncached.history
      events).blocks = later ++ step :: past)
    (started : ¬ step.point.height < indexer.startHeight) :
    ∃ allocated records, AllocatedBy indexer past step allocated ∧
      ExactRecords (unspentAfter past) step.tx allocated records ∧ records.length ≤ 65535 ∧
      (∀ seq, reader.get RuneActivityByTxKV ⟨step.txId, seq⟩ = .ok records[seq.toNat]?) ∧
      Serve.runesByTxScan reader step.txId =
        records.zipIdx.map (fun item => .ok (⟨step.txId, BitVec.ofNat 16 item.2⟩, item.1)) ∧
      ∀ script, Serve.addressesRunesByTx reader script step.txId =
        .ok ((records.filter (fun record => record.script = script)).map runeEdict) := by
  rw [Stage.new_empty, Except.ok.injEq] at fresh
  subst fresh
  have records := (runes_rule indexer).run others (HashedBy blockHash) config events fed valid
    increasing
  have keyed := (runesKeyed_rule indexer).run others (HashedBy blockHash) config events fed valid
    increasing
  rcases records.runeRun fits with ⟨runes, shown, run⟩
  have bounded := run.fits_log guaranteed
  rw [split] at run
  rcases run.recorded started with ⟨before, earlier, ordered, sound, call, attached, logged⟩
  have few : call.records.length ≤ 65535 := by
    rw [RuneReceipts.records, if_pos active]
    exact call.few active
  have scan : Serve.runesByTxScan reader step.txId = (call.records.zipIdx.map (fun item =>
      ((⟨step.txId, BitVec.ofNat 16 item.2⟩ : RuneActivityByTxKey), item.1))).map .ok := by
    rcases keyed.good.recordScan shown bounded sees step.txId with ⟨entries, scanned, sorted, mem⟩
    rw [scanned, numbered_eq few sorted]
    intro entry
    rw [mem]
    constructor
    · rintro ⟨found, own, _⟩
      rcases entry with ⟨⟨hash, seq⟩, change⟩
      obtain rfl : hash = step.txId := own
      exact ⟨by rw [← logged]; exact found, rfl⟩
    · rintro ⟨found, own⟩
      rcases entry with ⟨⟨hash, seq⟩, change⟩
      obtain rfl : hash = step.txId := own
      have inside := (List.getElem?_eq_some_iff.mp found).1
      refine ⟨by rw [logged]; exact found, rfl, ?_⟩
      rw [BitVec.lt_def, BitVec.toNat_allOnes]
      simp only at inside ⊢
      omega
  refine ⟨call.allocated, call.records, ⟨before, earlier, call, rfl, attached⟩,
    (earlier.exactRecords ordered guaranteed active sound call).1, few, ?_, ?_, ?_⟩
  · intro seq
    rw [sees.get_latest, ← logged]
    exact shown.log.read ⟨trivial, trivial⟩ (fun change found => bounded _ change found)
  · rw [scan, List.map_map]
    rfl
  · intro script
    rw [Serve.addressesRunesByTx, scan, collectEdicts_eq, List.map_map]
    have same : (Prod.snd ∘ fun item : RuneBalanceChange × Nat =>
        ((⟨step.txId, BitVec.ofNat 16 item.2⟩ : RuneActivityByTxKey), item.1)) = Prod.fst := rfl
    rw [same, List.zipIdx_map_fst]

/-- The last transaction sends what the one before received. -/
theorem activity_log_exact_spend :
    let reader := (runesMachine.run spendEvents).stage.db.reader Timestamp.latest
    ∃ step past allocated records,
      chainTxs (runesMachine.uncached.history spendEvents).blocks = step :: past ∧
      step.txId = txIdOf 3 ∧ ExactRecords (unspentAfter past) step.tx allocated records ∧
      records.length = 2 ∧ Serve.runesByTxScan reader (txIdOf 3) =
        records.zipIdx.map (fun item => .ok (⟨txIdOf 3, BitVec.ofNat 16 item.2⟩, item.1)) := by
  have first : (chainTxs (runesMachine.uncached.history spendEvents).blocks).head?.map
      IndexedTx.txId = some (txIdOf 3) := by decide +kernel
  have count : (Serve.runesByTxScan ((runesMachine.run spendEvents).stage.db.reader Timestamp.latest)
      (txIdOf 3)).length = 2 := by decide +kernel
  unfold runesMachine at first count ⊢
  intro reader
  cases split : chainTxs ((Machine.bootstrap ((Others.alone .runes).with spendRunes.processTx)
      (Stage.empty (mainnetConfig 2))).uncached.history spendEvents).blocks with
  | nil =>
      rw [split] at first
      cases first
  | cons step past =>
      rw [split, List.head?_cons, Option.map_some, Option.some.injEq] at first
      rcases activity_log_exact mainnetHash (mainnetConfig 2) spendRunes (.alone .runes) _ spendEvents
        spendOrdinals_guaranteed rfl (Stage.new_empty _) spendEvents_fed runesMachine_run.1
        runesMachine_run.2.1 (Nat.lt_of_succ_lt runesMachine_run.2.2) reader (StorageHandler.sees_latest _) [] past step split
        (fun below => absurd below (Nat.not_lt_zero _)) with
        ⟨allocated, records, _, exact, _, _, scan, _⟩
      rw [first] at scan
      refine ⟨step, past, allocated, records, rfl, first, exact, ?_, scan⟩
      rw [scan, List.length_map, List.length_zipIdx] at count
      exact count

end Symphony
