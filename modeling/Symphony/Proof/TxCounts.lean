import Symphony.Proof.CacheTransparent
import Symphony.Sync.TxCountByAddress

/-! Transaction counts are exact across blocks, snapshots and rollbacks. -/

namespace Symphony

open Encdec
open UndoLog (Agree)
open VersionedLog (Increasing)

/-- Enabled indexers with the counting one among them; the others keep off its table. -/
structure CountingIndexers where
  before : List Indexer
  order : SetOrder
  after : List Indexer
  others : ∀ indexer ∈ before ++ after,
    indexer.Within (fun key => ¬ TxCountByAddressKV.Holds key)

namespace CountingIndexers

def list (indexers : CountingIndexers) : List Indexer :=
  indexers.before ++ TxCountByAddressIndexer.processTx indexers.order :: indexers.after

end CountingIndexers

theorem runIndexers_append {tx : TransactionWithId} {blockIndex : Nat} {task : IndexingTask}
    {ctx : IndexingContext} {first second : List Indexer} {final : IndexingTask × IndexingContext}
    (success : runIndexers tx blockIndex task ctx (first ++ second) = .ok final) :
    ∃ middle inner, runIndexers tx blockIndex task ctx first = .ok (middle, inner) ∧
      runIndexers tx blockIndex middle inner second = .ok final := by
  induction first generalizing task ctx with
  | nil => exact ⟨task, ctx, rfl, success⟩
  | cons indexer first ih =>
      simp only [List.cons_append, runIndexers] at success ⊢
      split at success
      · cases success
      · exact ih success

section Blocks

variable {indexers : CountingIndexers} {task after : IndexingTask} {ctx ctx' : IndexingContext}
variable {set : UtxoSet} {script : ScriptPubKey} {count : Nat}

theorem txCountKey_holds (script : ScriptPubKey) : TxCountByAddressKV.Holds (txCountKey script) :=
  Table.holds_encodeKey _ _

theorem tallies_others {called : List Indexer} {tx : TransactionWithId} {blockIndex : Nat}
    (others : ∀ indexer ∈ called, indexer.Within (fun key => ¬ TxCountByAddressKV.Holds key))
    (tallies : task.TalliesAt (txCountKey script) count)
    (ran : runIndexers tx blockIndex task ctx called = .ok (after, ctx')) :
    after.TalliesAt (txCountKey script) count :=
  tallies.written (runIndexers_within others ran).1 (fun outside => outside (txCountKey_holds script))

theorem Between.tallies_tx {tx : TransactionWithId} {rest : BlockTxs} {blockIndex : Nat}
    (between : Between task ctx set (tx :: rest)) (valid : ValidTx (liveRefs set) tx)
    (fits : script.length < 2 ^ 64) (tallies : task.TalliesAt (txCountKey script) count)
    (ran : runIndexers tx blockIndex task ctx indexers.list = .ok (after, ctx')) :
    after.TalliesAt (txCountKey script) (count + if tx.Involves set script then 1 else 0) := by
  rcases runIndexers_append ran with ⟨middle, inner, early, called⟩
  have resolver : InputsResolved indexers.list task ctx set tx blockIndex :=
    between.inputsResolved valid blockIndex
  have resolved := resolver indexers.before middle inner (List.prefix_append _ _) early
  have waiting := tallies_others (fun indexer member =>
    indexers.others indexer (List.mem_append_left _ member)) tallies early
  simp only [runIndexers, TxCountByAddressIndexer.processTx] at called
  split at called
  · cases called
  · rename_i counted last step
    cases seen : TxCountByAddressIndexer.seenScripts inner.toTxContext tx.tx with
    | error failure =>
        rw [seen] at step
        cases step
    | ok scripts =>
        rw [seen] at step
        rcases TxCountByAddressIndexer.seenScripts_ok seen with ⟨once, members⟩
        have involved : script ∈ scripts ↔ tx.Involves set script := by
          rw [members, TransactionWithId.Involves]
          apply or_congr_left
          constructor
          · rintro ⟨ref, spent, utxo, found, same⟩
            rcases resolved ref spent with ⟨other, found', live⟩
            rw [found, Option.some.injEq] at found'
            rw [← found'] at live
            exact ⟨ref, spent, by rw [live, Option.map_some, same]⟩
          · rintro ⟨ref, spent, same⟩
            rcases resolved ref spent with ⟨utxo, found, live⟩
            rw [live, Option.map_some, Option.some.injEq] at same
            exact ⟨ref, spent, utxo, found, same⟩
        have total := TxCountByAddressIndexer.countScripts_tallies fits waiting step
        rw [(indexers.order.perm _ _ _ scripts).count_eq, once.count] at total
        simp only [involved] at total
        exact tallies_others (fun indexer member =>
          indexers.others indexer (List.mem_append_right _ member)) total called

theorem Between.tallies_run {txs remaining : BlockTxs} {start : Nat} {coinbase : Bool}
    {cache cache' : Option UtxoCache} (between : Between task ctx set (txs ++ remaining))
    (valid : ValidTxs coinbase (liveRefs set) (txs ++ remaining))
    (fits : script.length < 2 ^ 64) (tallies : task.TalliesAt (txCountKey script) count)
    (success : indexTxs indexers.list task ctx cache (txs.zipIdx start) =
      (cache', .ok (after, ctx')))
    (height : BlockHeight) (attached : TxoRef → ExtendedUtxoData) :
    after.TalliesAt (txCountKey script) (count + involving script set height attached txs) := by
  induction txs generalizing task ctx set cache start coinbase count with
  | nil =>
      cases success
      exact tallies
  | cons tx txs ih =>
      rw [List.zipIdx_cons] at success
      simp only [indexTxs] at success
      split at success
      · cases success
      · rename_i middle inner ran
        split at success
        · cases success
        · rename_i held ctx'' task'' updated
          have counted := between.tallies_tx valid.2.1 fits tallies ran
          have kept := counted.written (IndexingContext.updateUtxoSet_written updated)
            (fun utxo => not_isCustomKey_of_core 85 _ utxo (isCustomKey_txCountKey script))
          rcases between.indexed ran with ⟨indexed, _⟩
          rcases indexed.step valid.2.1 updated with ⟨stepped, _⟩
          have later : ValidTxs false (liveRefs (applyTx set inner.point.height inner.metadataOf tx))
              (txs ++ remaining) := by
            rw [liveRefs_applyTx]
            exact valid.2.2
          have total := ih stepped later kept success
          have scripts (ref : TxoRef) :
              (applyTx set height attached tx ref).map Utxo.script =
                (applyTx set inner.point.height inner.metadataOf tx ref).map Utxo.script := by
            simp only [applyTx]
            cases tx.creates ref with
            | some output => rfl
            | none => rfl
          rw [involving, ← Nat.add_assoc, involving_congr scripts height height attached attached]
          exact total

theorem Between.tallies_pseudo {tip : Point} {blocks : List BlockTxs} {start : Nat}
    {base : List IndexedBlock} {remaining : BlockTxs} {cache cache' : Option UtxoCache}
    (between : Between task ctx (unspent base) (blocks.flatten ++ remaining))
    (valid : ValidTxs false (liveRefs (unspent base)) (blocks.flatten ++ remaining))
    (fits : script.length < 2 ^ 64)
    (tallies : task.TalliesAt (txCountKey script) (txCount script base))
    (success : indexPseudoBlocks indexers.list tip task ctx cache (blocks.zipIdx start) =
      (cache', .ok (after, ctx'))) :
    after.TalliesAt (txCountKey script) (txCount script ((pseudoBlocks indexers.list tip task ctx
      (blocks.zipIdx start)).reverse ++ base)) := by
  induction blocks generalizing task ctx cache start base with
  | nil =>
      cases success
      exact tallies
  | cons txs blocks ih =>
      rw [List.zipIdx_cons] at success ⊢
      rcases indexPseudoBlocks_cons success with ⟨held, indexed, inner, informed, ran, info, rest, same⟩
      rw [List.flatten_cons, List.append_assoc] at between valid
      have moved := between.moved (pseudoPoint tip start)
      have block := (moved.run valid ran).1
      have counted := moved.tallies_run valid fits tallies ran (pseudoPoint tip start).height
        (attachedTxs indexers.list task (ctx.updatePoint (pseudoPoint tip start)) txs.zipIdx)
      have touches := IndexingTask.setRaw_touches info
      have kept := counted.frame touches.sameSource (touches.lookup_ne (by
        intro equal
        exact not_isCustomKey_of_core 73 _ (Table.holds_encodeKey IndexerInfoKV ())
          (equal ▸ isCustomKey_txCountKey script)))
      rw [same, List.reverse_cons, List.append_assoc, List.singleton_append]
      apply ih (block.informed info) _ _ rest
      · exact valid.drop (Or.inr rfl)
      · rw [txCount, Nat.add_comm]
        exact kept

end Blocks

def TxsCounted (history : History) (view : RawKey → Cell) : Prop :=
  history.Valid → Stores view (unspent history.blocks) ∧
    ∀ script : ScriptPubKey, script.length < 2 ^ 64 →
      Tallies (view (txCountKey script)) (txCount script history.blocks)

section Commits

variable {indexers : CountingIndexers} {network : Network} {handler after : StorageHandler}

theorem Tallies.begun {task : IndexingTask} {key : RawKey} {count : Nat}
    (tallies : Tallies (handler.db.view key) count) (current : handler.Current)
    (db : task.db = handler.db) (readTs : task.readTs = handler.readTs)
    (empty : task.writeBuffer = ∅) : task.TalliesAt key count := by
  refine ⟨count, 0, ?_, ?_, rfl⟩
  · rw [db, readTs, handler.get_readTs key current]
    exact tallies
  · rw [empty, AList.lookup_empty]
    exact .none

theorem IndexingTask.TalliesAt.committed {task : IndexingTask} {now : U64} {accepted : Bool}
    {point : Point} {maxRollback : U64} {mempoolTimestamp : Option U64} {script : ScriptPubKey}
    {count : Nat} (tallies : task.TalliesAt (txCountKey script) count) (current : handler.Current)
    (db : task.db = handler.db) (readTs : task.readTs = handler.readTs)
    (applied : handler.applyIndexingTask now accepted task.finalize point maxRollback
      mempoolTimestamp = .ok after) (increasing : Increasing after.db.log) :
    Tallies (after.db.view (txCountKey script)) count := by
  have data : IsData (txCountKey script) := isData_custom (isCustomKey_txCountKey script)
  have counted := tallies.getRaw
  cases read : task.getRaw (txCountKey script) with
  | error failure =>
      rw [read] at counted
      rcases counted with ⟨value, impossible, _⟩
      cases impossible
  | ok stored =>
      rw [view_of_getRaw current db readTs applied increasing data read, ← read]
      exact counted

theorem IndexesBlock.tallies {block : IndexedBlock} {confirmed : List IndexedBlock}
    {script : ScriptPubKey} (indexes : IndexesBlock indexers.list network handler after block)
    (before : Stores handler.db.view (unspent confirmed))
    (sound : ValidOn true confirmed block.txs) (fits : script.length < 2 ^ 64)
    (counts : Tallies (handler.db.view (txCountKey script)) (txCount script confirmed)) :
    Tallies (after.db.view (txCountKey script)) (txCount script (block :: confirmed)) := by
  rcases indexes.between before sound with ⟨mutable, ctx, cache, indexed, inner, task, now, accepted,
    maxRollback, between, place, ran, attached, writes, applied⟩
  have valid := sound.valid
  rw [← List.append_nil block.txs] at valid
  have start : (handler.beginIndexingTask mutable).TalliesAt (txCountKey script)
      (txCount script confirmed) := counts.begun indexes.1 rfl rfl rfl
  have counted := between.tallies_run valid fits start ran block.point.height block.attached
  have outside : ¬ IsStageKey (txCountKey script) := by
    rintro (info | hash)
    · exact not_isCustomKey_of_core 73 _ info (isCustomKey_txCountKey script)
    · exact not_isCustomKey_of_core 72 _ hash (isCustomKey_txCountKey script)
  have whole := (indexTxs_written ran).sameSource.trans writes.sameSource
  rw [txCount, Nat.add_comm]
  exact (counted.written writes outside).committed indexes.1 whole.db whole.readTs applied indexes.2.1

theorem IndexesSnapshot.tallies {tip : Point} {blocks : List BlockTxs}
    {confirmed : List IndexedBlock} {script : ScriptPubKey}
    (indexes : IndexesSnapshot indexers.list network handler after tip blocks)
    (before : Stores handler.db.view (unspent confirmed))
    (sound : ValidOn false confirmed blocks.flatten) (fits : script.length < 2 ^ 64)
    (counts : Tallies (handler.db.view (txCountKey script)) (txCount script confirmed)) :
    Tallies (after.db.view (txCountKey script)) (txCount script (snapshotBlocks indexers.list
      handler.beginMempoolIndexingTask tip blocks network none ++ confirmed)) := by
  rcases indexes.between before sound with
    ⟨ctx, cache, task, inner, now, accepted, pseudo, maxRollback, timestamp, between, ran, same,
      source, applied⟩
  have valid := sound.valid
  rw [← List.append_nil blocks.flatten] at valid
  have start : handler.beginMempoolIndexingTask.TalliesAt (txCountKey script)
      (txCount script confirmed) := counts.begun indexes.1 rfl rfl rfl
  rw [same]
  exact (between.tallies_pseudo valid fits start ran).committed indexes.1 source.db source.readTs
    applied indexes.2.1

end Commits

theorem txsCounted_invariant (indexers : CountingIndexers) (network : Network) :
    HistoryInvariant indexers.list network TxsCounted := by
  constructor
  · intro history view other agree counted valid
    rcases counted valid with ⟨stores, tallies⟩
    constructor
    · apply stores.congr
      intro key held
      exact agree key (isData_utxo held)
    · intro script fits
      rw [agree _ (isData_custom (isCustomKey_txCountKey script))]
      exact tallies script fits
  · intro valid
    constructor
    · exact (utxosIndexed_invariant indexers.list network).empty valid
    · intro script _
      exact ⟨none, rfl, rfl⟩
  · intro confirmed handler after block indexes before _ valid
    rcases before valid.below with ⟨stores, tallies⟩
    constructor
    · exact indexes.stores stores valid.validOn_block
    · intro script fits
      exact indexes.tallies stores valid.validOn_block fits (tallies script fits)
  · intro confirmed handler after tip blocks indexes before _ valid
    rcases indexes.parts with ⟨ctx, _, _, _, _, _, _, _, _, _, ran, same, _⟩
    have listed := pseudoBlocks_txs ran
    rcases before valid.base with ⟨stores, tallies⟩
    rw [same] at valid
    have sound := valid.validOn_snapshot
    rw [List.flatMap_def, listed] at sound
    constructor
    · exact indexes.stores stores sound
    · intro script fits
      exact indexes.tallies stores sound fits (tallies script fits)

section Valid

variable {indexers : List Indexer} {network : Network} {names : Header → Point → Prop}
variable {genesis : BlockHash} {machine : Machine} {history : History} {ledger : List LedgerEntry}

theorem History.Valid.suffix {confirmed below : List IndexedBlock}
    (valid : History.Valid ⟨confirmed, []⟩) (suffix : below <:+ confirmed) :
    History.Valid ⟨below, []⟩ := by
  rcases suffix with ⟨above, rfl⟩
  induction above with
  | nil => exact valid
  | cons block above ih => exact ih valid.below

theorem Machine.snapshotBlocks_valid {env : Env} {info : MempoolSnapshotInfo}
    {blocks : List BlockTxs} {confirmed : List IndexedBlock}
    (idle : machine.stage.processedMempool = false)
    (sound : ValidOn false confirmed blocks.flatten)
    (processed : (machine.indexSnapshot env info blocks).1.stage.processedMempool = true) :
    History.Valid ⟨confirmed, snapshotBlocks machine.worker.indexers
      machine.stage.db.beginMempoolIndexingTask machine.stage.lastProcessed blocks
      machine.stage.network (machine.liveCache env)⟩ := by
  rcases machine.indexSnapshot_cases env info blocks with
    ⟨cache, ⟨failure, result⟩ | ⟨final, db, indexed, applied, result⟩⟩
  · rw [result] at processed
    exact absurd (idle.symm.trans processed) (by decide)
  · rcases indexMempool_run indexed with ⟨resolved, ctx, task, inner, created, ran, _⟩
    have listed := pseudoBlocks_txs ran
    rw [snapshotBlocks, created]
    apply ValidOn.snapshot
    rw [List.flatMap_def, listed]
    exact sound

theorem Chronicle.record_valid
    (chronicle : Chronicle indexers network UtxosIndexed names genesis machine history ledger)
    (valid : history.Valid) {env : Env} {event : ChainEvent}
    (on : event.ValidOn machine.stage.lastProcessed history)
    (increasing : Increasing (machine.execute env event).1.stage.db.db.log) :
    (machine.record history env event).Valid := by
  have base : History.Valid ⟨history.confirmed, []⟩ := History.Valid.base valid
  cases event with
  | rollForward point header txs tip =>
      simp only [Machine.record]
      split
      · exact valid
      · rename_i stage undone
        split
        · exact base
        · rename_i moved
          have tips := Machine.undoMempool_lastProcessed undone
          by_cases next : point.height = stage.lastProcessed.height + 1 ∧
              header.prevBlockhash = stage.lastProcessed.hash
          · rw [tips] at next
            exact ValidOn.extended (on next.1 next.2)
          · refine absurd ?_ moved
            rw [Machine.execute, Machine.rollForward_stopped undone next]
            exact tips
  | rollBack rbPoint =>
      simp only [Machine.record]
      split
      · exact valid
      · exact base.suffix (List.dropWhile_suffix _)
  | mempoolBlocks info blocks =>
      simp only [Machine.record]
      split
      · exact valid
      · rename_i stage undone
        split
        · rename_i processed
          have tips := Machine.undoSnapshot_lastProcessed undone
          by_cases tip : info.tip = stage.lastProcessed.hash
          · have indexing : machine.mempoolBlocks env info blocks =
                Machine.indexSnapshot { machine with stage } env info blocks := by
              simp only [Machine.mempoolBlocks, undone, tip, ne_eq, not_true, if_false]
            rw [Machine.execute, indexing] at processed increasing
            have between : Increasing stage.db.db.log :=
              VersionedLog.increasing_prefix
                (Machine.indexSnapshot_log { machine with stage } env info blocks) increasing
            rcases chronicle.undoSnapshot (utxosIndexed_invariant indexers network) undone between
              with ⟨_, _, idle, _⟩
            rw [tips] at tip
            exact Machine.snapshotBlocks_valid idle (on tip) processed
          · have skipped : machine.mempoolBlocks env info blocks = ({ machine with stage }, .ok ()) := by
              simp only [Machine.mempoolBlocks, undone, ne_eq, tip, not_false_eq_true, if_true]
            rw [Machine.execute, skipped] at processed increasing
            rcases chronicle.undoSnapshot (utxosIndexed_invariant indexers network) undone increasing
              with ⟨_, _, idle, _⟩
            rw [idle] at processed
            cases processed
        · exact base

theorem Machine.ValidFrom.history_valid {config : Config} {stage : Stage}
    (events : List (Env × ChainEvent))
    (fresh : Stage.new config (StorageHandler.openDb DB.empty) = .ok stage)
    (uncached : config.utxoCache = false) (fed : ∀ event ∈ events, event.2.Valid names)
    (increasing : Increasing ((Machine.bootstrap indexers stage).run events).stage.db.db.log)
    (valid : (Machine.bootstrap indexers stage).ValidFrom ⟨[], []⟩ events) :
    ((Machine.bootstrap indexers stage).history events).Valid := by
  induction events using List.reverseRecOn with
  | nil => exact ⟨List.nodup_nil, trivial, trivial⟩
  | append_singleton events event ih =>
      rcases event with ⟨env, event⟩
      rw [Machine.run_snoc] at increasing
      rw [Machine.history_snoc]
      have earlier : Increasing ((Machine.bootstrap indexers stage).run events).stage.db.db.log :=
        VersionedLog.increasing_prefix
          (((Machine.bootstrap indexers stage).run events).execute_log env event) increasing
      have fed' : ∀ event ∈ events, event.2.Valid names := by
        intro other member
        exact fed other (List.mem_append_left _ member)
      rcases (Machine.validFrom_snoc _ events env event).mp valid with ⟨before, on⟩
      rcases (utxosIndexed_invariant indexers config.network).run names config stage events fresh
        uncached fed' earlier with ⟨ledger, chronicle⟩
      exact chronicle.record_valid (ih fed' earlier before) on increasing

end Valid

/-- A run of valid blocks, whatever the configuration, goes the way of the one without a cache and
keeps an invariant of its history. -/
theorem HistoryInvariant.run_valid {indexers : List Indexer}
    {Good : History → (RawKey → Cell) → Prop} {config : Config}
    (invariant : HistoryInvariant indexers config.network Good) (names : Header → Point → Prop)
    (events : List (Env × ChainEvent)) (fed : ∀ event ∈ events, event.2.Valid names) :
    let machine := Machine.bootstrap indexers (Stage.empty config)
    machine.uncached.ValidFrom ⟨[], []⟩ events →
      Increasing (machine.run events).stage.db.db.log →
        (machine.run events).uncached = machine.uncached.run events ∧
          (machine.uncached.history events).Valid ∧
          ∃ ledger, Chronicle indexers config.network Good names config.genesisHash
            (machine.uncached.run events) (machine.uncached.history events) ledger := by
  intro machine valid increasing
  rcases transparent_run names config indexers events fed valid increasing with ⟨_, runs, _⟩
  have same : (machine.run events).uncached = machine.uncached.run events :=
    runs events List.prefix_rfl
  have ordered : Increasing (machine.uncached.run events).stage.db.db.log := by
    rw [← same]
    exact increasing
  refine ⟨same, ?_, ?_⟩
  · exact Machine.ValidFrom.history_valid events (Stage.new_empty { config with utxoCache := false })
      rfl fed ordered valid
  · exact invariant.run names { config with utxoCache := false } _ events (Stage.new_empty _) rfl fed
      ordered

/-- After every run of valid blocks, snapshots and rollbacks, with or without the UTXO cache, the
count of a script is the number of transactions that involve it, on the confirmed chain and in
the snapshot that is indexed. -/
theorem tx_counts_exact (blockHash : Header → BlockHash) (config : Config)
    (indexers : CountingIndexers) (stage : Stage) (events : List (Env × ChainEvent))
    (fresh : Stage.new config (StorageHandler.openDb DB.empty) = .ok stage)
    (fed : ∀ event ∈ events, event.2.Valid (HashedBy blockHash))
    (increasing : Increasing
      ((Machine.bootstrap indexers.list stage).run events).stage.db.db.log)
    (valid : (Machine.bootstrap indexers.list stage).uncached.ValidFrom ⟨[], []⟩ events)
    (script : ScriptPubKey) (fits : script.length < 2 ^ 64) :
    let machine := Machine.bootstrap indexers.list stage
    let count := txCount script (machine.uncached.history events).blocks
    count < 2 ^ 64 →
      ∃ value, ((machine.run events).stage.db.reader Timestamp.latest).get TxCountByAddressKV
        script = .ok value ∧ (value.getD 0).toNat = count := by
  intro machine count small
  rw [Stage.new_empty, Except.ok.injEq] at fresh
  subst fresh
  rcases (txsCounted_invariant indexers config.network).run_valid (HashedBy blockHash) events fed
    valid increasing with ⟨same, history, ledger, chronicle⟩
  have tallies : Tallies ((machine.uncached.run events).stage.db.db.view (txCountKey script)) count :=
    (chronicle.now history).2 script fits
  rw [← same] at tallies
  exact tallies.decode small

def countingAfterAttach : CountingIndexers := ⟨[attachFirst], ⟨fun _ _ _ scripts => scripts,
  fun _ _ _ scripts => List.Perm.refl scripts⟩, [], by
    intro indexer member tx blockIndex ctx
    obtain rfl := List.mem_singleton.mp member
    trivial⟩

/-- The script of the outputs of `spendOne` is in a pseudo block twice and counts twice: once
for the transaction that creates it, once for the one that also spends it. -/
theorem tx_counts_exact_snapshot :
    let machine := Machine.bootstrap countingAfterAttach.list
      (Stage.empty { mainnetConfig 2 with utxoCache := true })
    let count := txCount [82] (machine.uncached.history spendEvents).blocks
    count = 2 ∧ ∃ value, ((machine.run spendEvents).stage.db.reader Timestamp.latest).get
      TxCountByAddressKV [82] = .ok value ∧ (value.getD 0).toNat = count :=
  ⟨by decide +kernel, tx_counts_exact mainnetHash { mainnetConfig 2 with utxoCache := true }
    countingAfterAttach _ spendEvents (Stage.new_empty _) spendEvents_fed (by decide +kernel)
    (by decide +kernel) [82] (by decide) (by decide +kernel)⟩

end Symphony
