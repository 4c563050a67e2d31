import Symphony.Proof.PipelineInStep
import Symphony.Proof.Snapshot
import Symphony.Serve.AddressRoutes
import Symphony.Serve.ScanSpec

/-! The moments of a life that requests are served from.

Indexing commits write the entries of `TimestampsKV`, undoing leaves them alone. So each names a
moment right after such a commit, even of a process that is long gone. -/

namespace Symphony

open Encdec
open VersionedLog (Commit Increasing)

/-- What an entry of a kind says of the moment right after the commit it names. -/
def TimestampEntry.Describes (entry : TimestampEntry) (kind : PointKind) (tip : Point)
    (history : History) : Prop :=
  match kind with
  | .confirmed => tip = ⟨entry.tipHeight, entry.tipHash⟩ ∧ history.snapshot = []
  | .mempool => tip.hash = entry.tipHash ∧
      entry.tipHeight = tip.height + BitVec.ofNat 64 history.snapshot.length

section Calls

variable {names : Header → Point → Prop} {machine : Machine} {history : History}

def StampKept (before after : Machine) (history : History) (kind : PointKind) : Prop :=
  after.stage.db.db.view (TimestampsKV.encodeKey kind) =
      before.stage.db.db.view (TimestampsKV.encodeKey kind) ∨
    ∃ entry : TimestampEntry,
      after.stage.db.db.view (TimestampsKV.encodeKey kind) = .ok (some (encode entry)) ∧
      NamesCommit entry after after.stage.db.db.log ∧
      entry.Describes kind after.stage.lastProcessed history

theorem stampKept_applied {before after : Machine} {now : U64} {accepted : Bool}
    {begun task : IndexingTask} {point : Point} {maxRollback : U64} {mempoolTimestamp : Option U64}
    {kind : PointKind} (written : IndexingTask.Written IsIndexKey begun task)
    (fresh : begun.writeBuffer = ∅)
    (applied : before.stage.db.applyIndexingTask now accepted task.finalize point maxRollback
      mempoolTimestamp = .ok after.stage.db)
    (increasing : Increasing after.stage.db.db.log)
    (describes : ∀ time, task.finalize.kind = kind →
      TimestampEntry.Describes ⟨point.height, point.hash, time, mempoolTimestamp⟩ kind
        after.stage.lastProcessed history) :
    StampKept before after history kind := by
  have committed := StorageHandler.applyIndexingTask_committed applied
  rw [StampKept, view_timestamps_applied applied increasing kind (lookup_timestamps written fresh kind)]
  by_cases own : task.finalize.kind = kind
  · rw [if_pos own]
    refine Or.inr ⟨_, rfl, ⟨List.prefix_rfl, _, _, committed.log, ?_⟩, describes _ own⟩
    rw [Timestamp.asRocksTs, Timestamp.asRocksTs, Timestamp.asU64_fromU64]
  · rw [if_neg own]
    exact Or.inl rfl

theorem StampKept.of_undone {stage : Stage} {before after : Machine} {kind : PointKind}
    (kept : StampKept { before with stage } after history kind)
    (same : stage.db.db.view (TimestampsKV.encodeKey kind) =
      before.stage.db.db.view (TimestampsKV.encodeKey kind)) :
    StampKept before after history kind := by
  rw [StampKept, ← same]
  exact kept

theorem Machine.length_snapshotBlocks {stage : Stage} {env : Env} {blocks : List BlockTxs}
    {cache : Option UtxoCache} {final : FinalizedTask}
    (indexing : indexMempool machine.worker.indexers stage.db.beginMempoolIndexingTask
      stage.lastProcessed blocks stage.network (liveCache { machine with stage } env) =
        (cache, .ok final)) :
    (snapshotBlocks machine.worker.indexers stage.db.beginMempoolIndexingTask stage.lastProcessed
      blocks stage.network (liveCache { machine with stage } env)).length = blocks.length := by
  rcases indexMempool_run indexing with ⟨resolved, ctx, task, inner, created, ran, _⟩
  have listed := congrArg List.length (pseudoBlocks_txs ran)
  rw [List.length_map] at listed
  rw [snapshotBlocks, created]
  simp only [List.length_reverse]
  exact listed

theorem Machine.stampKept (machine : Machine) (history : History)
    (indexed : BufferIndexed machine.stage.rollbackBuffer) {env : Env} {event : ChainEvent}
    (valid : event.Valid names)
    (increasing : Increasing (machine.execute env event).1.stage.db.db.log) (kind : PointKind) :
    StampKept machine (machine.execute env event).1 (machine.record history env event) kind := by
  have same {stage : Stage} (undone : Undone machine.stage env stage)
      (between : Increasing stage.db.db.log) : stage.db.db.view (TimestampsKV.encodeKey kind) =
        machine.stage.db.db.view (TimestampsKV.encodeKey kind) := by
    rcases undone with rfl | undone
    · rfl
    · exact Stage.view_timestamps_rollback indexed undone between kind
  have call := machine.execute_call env event
  generalize result : machine.execute env event = outcome at call increasing ⊢
  cases call with
  | refused => exact Or.inl rfl
  | stopped undone _ => exact Or.inl (same (undoMempool_undone undone) increasing)
  | unindexed undone =>
      have kept := same (undoMempool_undone undone) increasing
      exact Or.inl kept
  | @indexed point tip header txs stage cache final db undone _ _ indexing applied =>
      have between := (StorageHandler.applyIndexingTask_committed applied).increasing increasing
      have unpseudo : (machine.record history env (.rollForward point header txs tip)).snapshot = [] := by
        simp only [record, undone]
        split
        · rfl
        · rfl
      rcases indexBlock_written indexing with ⟨task, written, rfl⟩
      apply StampKept.of_undone _ (same (undoMempool_undone undone) between)
      apply stampKept_applied written rfl applied increasing
      intro time own
      have confirmed : task.finalize.kind = .confirmed := by
        rw [FinalizedTask.kind, IndexingTask.finalize, written.sameSource.mempool]
        rfl
      rw [← own, confirmed]
      exact ⟨rfl, unpseudo⟩
  | rolledBack undone => exact Or.inl (Stage.view_timestamps_rollback indexed undone increasing kind)
  | skipped undone _ => exact Or.inl (same (undoSnapshot_undone undone) increasing)
  | unsnapshotted undone =>
      have kept := same (undoSnapshot_undone undone) increasing
      exact Or.inl kept
  | @snapshotted info blocks stage cache final db undone _ indexing applied =>
      have between := (StorageHandler.applyIndexingTask_committed applied).increasing increasing
      have length : (machine.record history env (.mempoolBlocks info blocks)).snapshot.length =
          blocks.length := by
        simp only [record, undone, result, if_true]
        exact length_snapshotBlocks indexing
      rcases indexMempool_written valid indexing with ⟨task, written, rfl⟩
      apply StampKept.of_undone _ (same (undoSnapshot_undone undone) between)
      apply stampKept_applied written rfl applied increasing
      intro time own
      have mempool : task.finalize.kind = .mempool := by
        rw [FinalizedTask.kind, IndexingTask.finalize, written.sameSource.mempool]
        rfl
      rw [← own, mempool]
      refine ⟨rfl, ?_⟩
      rw [length]

end Calls

section Moments

variable (names : Header → Point → Prop) (config : Config) (indexers : List Indexer)

structure Life.Moment (past life : Life) : Prop where
  lived : Life.Lived names config indexers past
  leads : Relation.ReflTransGen (Life.Step names config indexers) past life

/-- Each entry of `TimestampsKV` names a moment of the life that is in the log. -/
def Life.Stamped (life : Life) (log : List (Commit RocksTs WriteOp)) : Prop :=
  ∀ kind, DB.view ⟨log, 0⟩ (TimestampsKV.encodeKey kind) = .ok none ∨
    ∃ (entry : TimestampEntry) (past : Life),
      DB.view ⟨log, 0⟩ (TimestampsKV.encodeKey kind) = .ok (some (encode entry)) ∧
      past.Moment names config indexers life ∧ NamesCommit entry past.machine log ∧
      entry.Describes kind past.tip past.history

variable {names config indexers} {life after : Life} {log : List (Commit RocksTs WriteOp)}

theorem Life.Moment.log_prefix {past : Life} (moment : past.Moment names config indexers life) :
    past.log <+: life.log := by
  rcases moment with ⟨_, leads⟩
  induction leads with
  | refl => exact List.prefix_rfl
  | tail _ step ih => exact ih.trans step.log_prefix

theorem Life.Stamped.grow (stamped : life.Stamped names config indexers log)
    {grown : List (Commit RocksTs WriteOp)} (longer : log <+: grown)
    (same : ∀ kind, DB.view ⟨grown, 0⟩ (TimestampsKV.encodeKey kind) =
      DB.view ⟨log, 0⟩ (TimestampsKV.encodeKey kind)) : life.Stamped names config indexers grown := by
  intro kind
  rw [same kind]
  rcases stamped kind with none | ⟨entry, past, cell, moment, named, described⟩
  · exact Or.inl none
  · exact Or.inr ⟨entry, past, cell, moment, named.grow longer, described⟩

theorem Life.Stamped.step (stamped : life.Stamped names config indexers log)
    (step : Life.Step names config indexers life after) : after.Stamped names config indexers log := by
  intro kind
  rcases stamped kind with none | ⟨entry, past, cell, moment, rest⟩
  · exact Or.inl none
  · exact Or.inr ⟨entry, past, cell, ⟨moment.lived, moment.leads.tail step⟩, rest⟩

theorem Life.Sound.bufferIndexed (sound : life.Sound names config indexers) :
    BufferIndexed life.machine.stage.rollbackBuffer := by
  rcases sound.restartable with ⟨chain, ledger, state⟩
  intro block member
  exact (state.fileable block member).index

theorem Life.Sound.stamped_call (sound : life.Sound names config indexers)
    (lived : Life.Lived names config indexers life) {env : Env} {event : ChainEvent}
    (valid : event.Valid names) (on : config.utxoCache = true → event.ValidOn life.tip life.history)
    (increasing : Increasing (life.called env event).log)
    (stamped : life.Stamped names config indexers life.log) (above : life.log <+: log)
    (below : log <+: (life.called env event).log) :
    (life.called env event).Stamped names config indexers log := by
  have step : Life.Step names config indexers life (life.called env event) :=
    .call life env event valid on
  rcases Machine.execute_commits above below with rfl | rfl | ⟨stage, undone, rfl⟩
  · exact stamped.step step
  · have goes : (life.machine.uncached.execute env event).1 =
        (life.called env event).machine.uncached := by
      rw [(sound.transparent valid on increasing).1]
      rfl
    have kept := life.machine.uncached.stampKept life.history sound.bufferIndexed valid
      (by rw [goes]; exact increasing)
    rw [goes] at kept
    intro kind
    rcases kept kind with same | ⟨entry, cell, named, described⟩
    · have grown := (stamped.step step) kind
      have view : DB.view ⟨(life.called env event).log, 0⟩ (TimestampsKV.encodeKey kind) =
          DB.view ⟨life.log, 0⟩ (TimestampsKV.encodeKey kind) := same
      rcases grown with none | ⟨entry, past, cell, moment, named, described⟩
      · exact Or.inl (view.trans none)
      · exact Or.inr ⟨entry, past, view.trans cell, moment, named.grow step.log_prefix, described⟩
    · exact Or.inr ⟨entry, _, cell, ⟨lived.tail step, .refl⟩, named, described⟩
  · rcases Stage.rollbackToPoint_log undone with ⟨commit, grown⟩
    apply (stamped.step step).grow above
    intro kind
    exact Stage.view_timestamps_rollback sound.bufferIndexed undone
      (VersionedLog.increasing_prefix below increasing) kind

theorem Life.Lived.stamped (lived : Life.Lived names config indexers life)
    (small : config.maxRollbacks < 2 ^ 64) (increasing : Increasing life.log)
    (inside : log <+: life.log) : life.Stamped names config indexers log := by
  induction lived generalizing log with
  | refl =>
      have nothing : log = [] := List.prefix_nil.mp inside
      rw [nothing]
      intro kind
      exact Or.inl rfl
  | @tail before after lived step ih =>
      have earlier := VersionedLog.increasing_prefix step.log_prefix increasing
      rcases List.prefix_or_prefix_of_prefix inside step.log_prefix with within | beyond
      · exact (ih earlier within).step step
      · have stamped := ih earlier List.prefix_rfl
        cases step with
        | call env event valid on =>
            have lived' : Life.Lived names config indexers before := lived
            exact (lived'.sound small earlier).stamped_call lived' valid on increasing stamped beyond
              inside
        | reboot =>
            have same : log = before.log := inside.eq_of_length_le beyond.length_le
            rw [same]
            exact stamped.step (.reboot before)
        | restart low stage rebuilt =>
            have same : log = before.log := by
              rw [Life.booted_log rebuilt] at inside
              exact inside.eq_of_length_le beyond.length_le
            rw [same]
            exact stamped.step (.restart before low stage rebuilt)

theorem Life.Sound.tip_eq {other : Life} (tell : HashesTell names config.genesisHash)
    (sound : life.Sound names config indexers) (sound' : other.Sound names config indexers)
    (same : life.tip.hash = other.tip.hash) : life.tip = other.tip := by
  rcases sound.chronicle UtxosIndexed (utxosIndexed_invariant indexers config.network) with
    ⟨_, chronicle⟩
  rcases sound'.chronicle UtxosIndexed (utxosIndexed_invariant indexers config.network) with
    ⟨_, chronicle'⟩
  have top : life.tip = chainTop config.genesisHash _ := chronicle.chain.tip
  have top' : other.tip = chainTop config.genesisHash _ := chronicle'.chain.tip
  rw [top, top'] at same ⊢
  rw [chronicle.chain.linked.eq_of_hash tell chronicle'.chain.linked same]

/-- A request is served from a moment of the life: the reader sees it whatever is committed later, as
long as the database keeps the versions of its timestamp, and the response reports its tip and its
pseudo blocks. -/
structure Life.Serves (names : Header → Point → Prop) (config : Config) (indexers : List Indexer)
    (life past : Life) (storage : StorageHandler) (reader : Reader) (info : Serve.IndexerInfo) :
    Prop where
  moment : past.Moment names config indexers life
  inside : past.log <+: storage.db.log
  sees : ∀ later : DB, storage.db.log <+: later.log → later.log <+: life.log →
    later.Keeps reader.timestamp →
      Reader.Sees ⟨later, reader.timestamp⟩ past.machine.stage.db.db.view
  tip : info.chainTip = ⟨Serve.displayHash past.tip.hash, past.tip.height⟩
  estimated : past.history.blocks.length < 2 ^ 64 →
    info.estimatedBlocks.length = past.history.snapshot.length

theorem Life.Sound.height (sound : life.Sound names config indexers) :
    life.tip.height.toNat = life.history.confirmed.length := by
  rcases sound.chronicle UtxosIndexed (utxosIndexed_invariant indexers config.network) with
    ⟨_, chronicle⟩
  exact chronicle.height

end Moments

section Requests

variable {names : Header → Point → Prop} {config : Config} {indexers : List Indexer} {life : Life}
variable {formatUtc : Nat → Option String} {storage : StorageHandler} {mempool : Bool}
variable {reader : Reader} {info : Serve.IndexerInfo}

theorem Life.Lived.served (lived : Life.Lived names config indexers life)
    (small : config.maxRollbacks < 2 ^ 64) (tell : HashesTell names config.genesisHash)
    (increasing : Increasing life.log) (reached : storage.db.log <+: life.log)
    (success : Serve.startReader formatUtc storage mempool = .ok (reader, info)) :
    ∃ past, life.Serves names config indexers past storage reader info ∧
      (mempool = false → past.history.snapshot = []) := by
  have stamped := lived.stamped small increasing reached
  have sound {past : Life} (moment : past.Moment names config indexers life) :
      past.Sound names config indexers :=
    moment.lived.sound small (VersionedLog.increasing_prefix moment.log_prefix increasing)
  have sees {entry : TimestampEntry} {past : Life}
      (named : NamesCommit entry past.machine storage.db.log) (later : DB)
      (grown : storage.db.log <+: later.log) (within : later.log <+: life.log)
      (_ : later.Keeps (Timestamp.fromU64 entry.rocksTimestamp)) :
      Reader.Sees ⟨later, Timestamp.fromU64 entry.rocksTimestamp⟩ past.machine.stage.db.db.view :=
    named.get grown (VersionedLog.increasing_prefix within increasing)
  rcases Serve.startReader_cases success with ⟨confirmed, read, tip, rest⟩
  rcases stamped .confirmed with missing | ⟨entry, past, cell, moment, named, described⟩
  · have absent : IndexingTask.decodeCell (.ok none) = .ok (some confirmed) := missing ▸ read
    cases absent
  · obtain rfl : entry = confirmed := decodeCell_encode trivial cell read
    rcases rest with ⟨rfl, estimated, _⟩ | ⟨snapshot, asked, stored, same, rfl, estimated⟩
    · refine ⟨past, ⟨moment, named.1, sees named, ?_, ?_⟩, fun _ => described.2⟩
      · rw [tip, described.1]
      · intro _
        rw [estimated, described.2]
        rfl
    · rcases stamped .mempool with missing | ⟨other, based, cell', moment', named', described'⟩
      · have absent : IndexingTask.decodeCell (.ok none) = .ok (some snapshot) := missing ▸ stored
        cases absent
      · obtain rfl : other = snapshot := decodeCell_encode trivial cell' stored
        have hashes : based.tip.hash = past.tip.hash := by
          rw [described'.1, same, described.1]
        have tips := (sound moment').tip_eq tell (sound moment) hashes
        have place : based.tip = ⟨entry.tipHeight, entry.tipHash⟩ := tips.trans described.1
        refine ⟨based, ⟨moment', named'.1, sees named', ?_, ?_⟩, ?_⟩
        · rw [tip, place]
        · intro fits
          have height := (sound moment').height
          rw [History.blocks, List.length_append] at fits
          rw [estimated]
          apply length_estimatedBlocks entry other
          · rw [described'.2, place]
          · rw [place] at height
            simp only at height
            omega
        · intro plain
          rw [plain] at asked
          cases asked

theorem Life.Serves.sound {past : Life} (serves : life.Serves names config indexers past storage reader info)
    (small : config.maxRollbacks < 2 ^ 64) (increasing : Increasing life.log) :
    past.Sound names config indexers :=
  serves.moment.lived.sound small (VersionedLog.increasing_prefix serves.moment.log_prefix increasing)

end Requests

/-- Every request that gets a reader is served from a moment of the life it is made in, across all
processes that worked on the database: one without a snapshot, or the one a snapshot was indexed at
if the mempool was asked for. What it reads is what indexing the blocks of that moment leaves. -/
theorem served_moment (names : Header → Point → Prop) (config : Config) (indexers : List Indexer)
    (life : Life) (formatUtc : Nat → Option String) (storage : StorageHandler) (mempool : Bool)
    (reader : Reader) (info : Serve.IndexerInfo) (small : config.maxRollbacks < 2 ^ 64)
    (tell : HashesTell names config.genesisHash)
    (lived : Life.Lived names config indexers life) (increasing : Increasing life.log)
    (reached : storage.db.log <+: life.log)
    (success : Serve.startReader formatUtc storage mempool = .ok (reader, info)) :
    ∃ past, life.Serves names config indexers past storage reader info ∧
      (mempool = false → past.history.snapshot = []) ∧
      Reflects indexers config.network past.history past.machine.stage.db.db.view := by
  rcases lived.served small tell increasing reached success with ⟨past, serves, asked⟩
  rcases (serves.sound small increasing).chronicle _ (reflects_invariant indexers config.network) with
    ⟨_, chronicle⟩
  exact ⟨past, serves, asked, chronicle.now⟩

/-- A request that asks for the mempool is served from the snapshot on block one. -/
theorem served_moment_block_one :
    let names := FedBy mainnetHash snapshotEvents
    let life := Life.after (mainnetConfig 2) [] snapshotEvents
    ∃ reader info, Serve.startReader epochOnly life.machine.stage.db true = .ok (reader, info) ∧
      info.estimatedBlocks.length = 1 ∧
      ∃ past, life.Serves names (mainnetConfig 2) [] past life.machine.stage.db reader info ∧
        (true = false → past.history.snapshot = []) ∧
        Reflects [] .mainnet past.history past.machine.stage.db.db.view := by
  have fed := FedBy.valid (show ∀ event ∈ snapshotEvents, event.2.Valid (HashedBy mainnetHash) by
    decide +kernel)
  have lives : Life.Lived (FedBy mainnetHash snapshotEvents) (mainnetConfig 2) []
        (Life.after (mainnetConfig 2) [] snapshotEvents) ∧
      (Life.after (mainnetConfig 2) [] snapshotEvents).machine =
        snapshotStart.run snapshotEvents := Life.after_lived rfl fed
  have success : ∃ reader info, Serve.startReader epochOnly
      (snapshotStart.run snapshotEvents).stage.db true = .ok (reader, info) ∧
        info.estimatedBlocks.length = 1 := ⟨_, _, rfl, by decide +kernel⟩
  rw [← lives.2] at success
  rcases success with ⟨reader, info, success, one⟩
  refine ⟨reader, info, success, one, ?_⟩
  apply served_moment _ _ _ _ epochOnly _ true reader info (by decide) snapshotEvents_hashes.tell
    lives.1 _ List.prefix_rfl success
  rw [Life.log, lives.2]
  decide +kernel

/-- Whatever part of the log a storage has seen, the newest entry of its table of hashes is the newest
block of that moment; the pseudo blocks of a snapshot are not in it. -/
theorem tip_served (names : Header → Point → Prop) (config : Config) (indexers : List Indexer)
    (life : Life) (storage : StorageHandler) (small : config.maxRollbacks < 2 ^ 64)
    (lived : Life.Lived names config indexers life) (increasing : Increasing life.log)
    (reached : storage.db.log <+: life.log) :
    ∃ past earlier, Life.Lived names config indexers past ∧
      Relation.ReflTransGen (Life.Step names config indexers) past life ∧
      Life.Lived names config indexers earlier ∧ earlier.log = storage.db.log ∧
      (earlier.history = past.history ∨ earlier.history = ⟨past.history.confirmed, []⟩) ∧
      Serve.tip storage = past.history.confirmed.head?.map
        (fun block => (block.point.height, block.point.hash)) ∧
      past.tip = ((Serve.tip storage).map (fun top => ⟨top.1, top.2⟩)).getD
        ⟨0, config.genesisHash⟩ := by
  obtain ⟨past, earlier, pastLived, steps, earlierLived, log, same, moment⟩ :=
    lived.truncated small increasing reached
  have confirmed : earlier.history.confirmed = past.history.confirmed := by
    cases moment with
    | inl whole => rw [whole]
    | inr undone => rw [undone]
  have grown : Increasing earlier.log := by
    rw [log]
    exact VersionedLog.increasing_prefix reached increasing
  obtain ⟨holds, _, top⟩ := (earlierLived.sound small grown).holds
  rw [confirmed] at holds top
  have held : HoldsChain storage.db (past.history.confirmed.map IndexedBlock.point) := by
    refine ⟨holds.contiguous, ?_⟩
    intro key table
    have cell := holds.hashes key table
    have shown : earlier.machine.stage.db.db.log = storage.db.log := log
    rw [DB.view, DB.get, shown] at cell
    exact cell
  have newest : Serve.tip storage = past.history.confirmed.head?.map
      (fun block => (block.point.height, block.point.hash)) := by
    have first := held.newest
    rw [Serve.tip, StorageHandler.reader, first, List.head?_map]
    cases past.history.confirmed.head? with
    | none => rfl
    | some block => rfl
  refine ⟨past, earlier, pastLived, steps, earlierLived, log, moment, newest, ?_⟩
  rw [← same, top, newest]
  cases past.history.confirmed with
  | nil => rfl
  | cons block below => rfl

/-- A snapshot on block one is not the tip. -/
theorem tip_served_snapshot :
    let names := FedBy mainnetHash snapshotEvents
    let life := Life.after (mainnetConfig 2) [] snapshotEvents
    let storage := life.machine.stage.db
    Serve.tip storage = some (1, mainnetBlockOne) ∧
      ∃ past earlier, Life.Lived names (mainnetConfig 2) [] past ∧
        Relation.ReflTransGen (Life.Step names (mainnetConfig 2) []) past life ∧
        Life.Lived names (mainnetConfig 2) [] earlier ∧ earlier.log = storage.db.log ∧
        (earlier.history = past.history ∨ earlier.history = ⟨past.history.confirmed, []⟩) ∧
        Serve.tip storage = past.history.confirmed.head?.map
          (fun block => (block.point.height, block.point.hash)) ∧
        past.tip = ((Serve.tip storage).map (fun top => ⟨top.1, top.2⟩)).getD
          ⟨0, (mainnetConfig 2).genesisHash⟩ := by
  have fed := FedBy.valid (show ∀ event ∈ snapshotEvents, event.2.Valid (HashedBy mainnetHash) by
    decide +kernel)
  have lives : Life.Lived (FedBy mainnetHash snapshotEvents) (mainnetConfig 2) []
        (Life.after (mainnetConfig 2) [] snapshotEvents) ∧
      (Life.after (mainnetConfig 2) [] snapshotEvents).machine =
        snapshotStart.run snapshotEvents := Life.after_lived rfl fed
  intro names life storage
  have shown : Serve.tip (snapshotStart.run snapshotEvents).stage.db = some (1, mainnetBlockOne) := by
    decide +kernel
  rw [← lives.2] at shown
  refine ⟨shown, tip_served names (mainnetConfig 2) [] life storage (by decide) lives.1 ?_
    List.prefix_rfl⟩
  rw [Life.log, lives.2]
  decide +kernel

end Symphony
