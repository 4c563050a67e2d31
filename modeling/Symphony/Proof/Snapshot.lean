import Symphony.Proof.ChainInvariant
import Symphony.Serve.StartReader

/-! API readers see the state right after the commit they name.

The two entries of `TimestampsKV` are written by indexing commits only and never undone, so
each always names a commit of the log, however far the chain has moved on since. -/

namespace Symphony

open Encdec
open VersionedLog (Commit Increasing replay)

theorem not_rollback_of_timestamps {key : RawKey} (held : TimestampsKV.Holds key) :
    ¬ RollbackBufferKV.Holds key := by
  intro other
  have tags := Table.tag_eq_of_holds TimestampsKV RollbackBufferKV key rfl held other
  exact absurd tags (by decide)

theorem not_isIndexKey_timestamps (kind : PointKind) :
    ¬ IsIndexKey (TimestampsKV.encodeKey kind) := by
  intro written
  exact written.isData.1 (Table.holds_encodeKey _ _)

theorem encodeKey_kind_ne {first second : PointKind} (different : first ≠ second) :
    TimestampsKV.encodeKey first ≠ TimestampsKV.encodeKey second := by
  intro same
  exact different (Table.encodeKey_injective TimestampsKV trivial trivial same)

def FinalizedTask.kind (task : FinalizedTask) : PointKind :=
  if task.mempool then .mempool else .confirmed

theorem FinalizedTask.replay_batch_timestamps (task : FinalizedTask) (point : Point)
    (maxRollback : U64) (commitTs : Timestamp) (mempoolTimestamp : Option U64) (kind : PointKind)
    (cell : Cell) (untouched : task.writeBuffer.lookup (TimestampsKV.encodeKey kind) = none) :
    replay WriteOp.act (TimestampsKV.encodeKey kind) cell
        (task.batch point maxRollback commitTs mempoolTimestamp) =
      if task.kind = kind then
        .ok (some (encode
          (⟨point.height, point.hash, commitTs.asU64, mempoolTimestamp⟩ : TimestampEntry)))
      else cell := by
  have outside : ¬ RollbackBufferKV.Holds (TimestampsKV.encodeKey kind) :=
    not_rollback_of_timestamps (Table.holds_encodeKey _ _)
  rw [batch, VersionedLog.replay_append, VersionedLog.replay_append, replay_actionOps, untouched,
    replay_rollbackOps _ _ _ _ _ outside, VersionedLog.replay_cons, timestampOp]
  by_cases same : task.kind = kind
  · have own : TimestampsKV.encodeKey (if task.mempool then .mempool else .confirmed) =
        TimestampsKV.encodeKey kind := congrArg TimestampsKV.encodeKey same
    simp only [WriteOp.act, if_pos own, if_pos same]
    rfl
  · have other : TimestampsKV.encodeKey (if task.mempool then .mempool else .confirmed) ≠
        TimestampsKV.encodeKey kind := encodeKey_kind_ne same
    simp only [WriteOp.act, if_neg other, if_neg same]
    rfl

/-- The originals in the buffer are those of keys the stage indexes. -/
def BufferIndexed (buffer : RollbackBuffer) : Prop :=
  ∀ block ∈ buffer.points, ∀ key ∈ block.originalKvs, IsIndexKey key

theorem replay_undo_timestamps (blocks : List PointWithOriginalKVs) (kind : PointKind)
    (state : RawKey → Cell)
    (indexed : ∀ block ∈ blocks, ∀ key ∈ block.originalKvs, IsIndexKey key) :
    replay WriteOp.act (TimestampsKV.encodeKey kind) (state (TimestampsKV.encodeKey kind))
      (blocks.flatMap PointWithOriginalKVs.undoOps) = state (TimestampsKV.encodeKey kind) := by
  rw [replay_undo _ _ _ (not_rollback_of_timestamps (Table.holds_encodeKey _ _))]
  apply UndoLog.restoreAll_unsaved
  intro saved member
  rcases List.mem_map.mp member with ⟨block, inside, rfl⟩
  rw [PointWithOriginalKVs.saved, Option.map_eq_none_iff, AList.lookup_eq_none]
  intro present
  exact not_isIndexKey_timestamps kind (indexed block inside _ present)

section Records

variable {start : Machine} {events : List (Env × ChainEvent)}

/-- A call of the run that indexed the block at `point`, with the state it left. -/
def BlockIndexed (start : Machine) (events : List (Env × ChainEvent)) (point : Point)
    (after : Machine) : Prop :=
  ∃ before env header txs tip, before ++ [(env, .rollForward point header txs tip)] <+: events ∧
    point.height = (start.run before).stage.lastProcessed.height + 1 ∧
    (start.run before).execute env (.rollForward point header txs tip) = (after, .ok ())

/-- A call of the run that indexed a snapshot on top of `base`, with the state it left. -/
def SnapshotIndexed (start : Machine) (events : List (Env × ChainEvent)) (base : Point)
    (blocks : List BlockTxs) (after : Machine) : Prop :=
  ∃ before env info, before ++ [(env, .mempoolBlocks info blocks)] <+: events ∧
    (start.run before).stage.lastProcessed = base ∧ info.tip = base.hash ∧
    (start.run before).execute env (.mempoolBlocks info blocks) = (after, .ok ())

/-- The entry names the last commit of a state the log has gone through. -/
def NamesCommit (entry : TimestampEntry) (after : Machine)
    (log : List (Commit RocksTs WriteOp)) : Prop :=
  after.stage.db.db.log <+: log ∧ ∃ older commit, after.stage.db.db.log = older ++ [commit] ∧
    commit.ts = (Timestamp.fromU64 entry.rocksTimestamp).asRocksTs

def ConfirmedStamp (start : Machine) (events : List (Env × ChainEvent))
    (log : List (Commit RocksTs WriteOp)) (cell : Cell) : Prop :=
  cell = .ok none ∨ ∃ entry : TimestampEntry, ∃ after, cell = .ok (some (encode entry)) ∧
    BlockIndexed start events ⟨entry.tipHeight, entry.tipHash⟩ after ∧ NamesCommit entry after log

def MempoolStamp (start : Machine) (events : List (Env × ChainEvent))
    (log : List (Commit RocksTs WriteOp)) (cell : Cell) : Prop :=
  cell = .ok none ∨ ∃ entry : TimestampEntry, ∃ base blocks after,
    cell = .ok (some (encode entry)) ∧ SnapshotIndexed start events base blocks after ∧
    entry.tipHash = base.hash ∧ entry.tipHeight = base.height + BitVec.ofNat 64 blocks.length ∧
    NamesCommit entry after log

structure Stamps (start : Machine) (events : List (Env × ChainEvent))
    (log : List (Commit RocksTs WriteOp)) : Prop where
  confirmed : ConfirmedStamp start events log
    (DB.view ⟨log, 0⟩ (TimestampsKV.encodeKey .confirmed))
  mempool : MempoolStamp start events log (DB.view ⟨log, 0⟩ (TimestampsKV.encodeKey .mempool))

theorem NamesCommit.grow {entry : TimestampEntry} {after : Machine}
    {log grown : List (Commit RocksTs WriteOp)} (named : NamesCommit entry after log)
    (longer : log <+: grown) : NamesCommit entry after grown :=
  ⟨named.1.trans longer, named.2⟩

theorem ConfirmedStamp.grow {later : List (Env × ChainEvent)} {cell : Cell}
    {log grown : List (Commit RocksTs WriteOp)} (stamp : ConfirmedStamp start events log cell)
    (more : events <+: later) (longer : log <+: grown) : ConfirmedStamp start later grown cell := by
  rcases stamp with none | ⟨entry, after, read, ⟨before, env, header, txs, tip, inside, rest⟩, named⟩
  · exact Or.inl none
  · exact Or.inr ⟨entry, after, read, ⟨before, env, header, txs, tip, inside.trans more, rest⟩,
      named.grow longer⟩

theorem MempoolStamp.grow {later : List (Env × ChainEvent)} {cell : Cell}
    {log grown : List (Commit RocksTs WriteOp)} (stamp : MempoolStamp start events log cell)
    (more : events <+: later) (longer : log <+: grown) : MempoolStamp start later grown cell := by
  rcases stamp with none |
    ⟨entry, base, blocks, after, read, ⟨before, env, info, inside, rest⟩, hash, height, named⟩
  · exact Or.inl none
  · exact Or.inr ⟨entry, base, blocks, after, read, ⟨before, env, info, inside.trans more, rest⟩,
      hash, height, named.grow longer⟩

theorem Stamps.undo {log grown : List (Commit RocksTs WriteOp)}
    (stamps : Stamps start events log) (longer : log <+: grown)
    (same : ∀ kind, DB.view ⟨grown, 0⟩ (TimestampsKV.encodeKey kind) =
      DB.view ⟨log, 0⟩ (TimestampsKV.encodeKey kind)) : Stamps start events grown := by
  constructor
  · rw [same]
    exact stamps.confirmed.grow List.prefix_rfl longer
  · rw [same]
    exact stamps.mempool.grow List.prefix_rfl longer

/-- The entries are in order after every commit, and undoing never touches them. -/
structure Stamping (start : Machine) (events : List (Env × ChainEvent)) (stage : Stage) : Prop where
  stamps : ∀ log, log <+: stage.db.db.log → Stamps start events log
  buffer : BufferIndexed stage.rollbackBuffer

theorem Stamping.snoc {stage : Stage} {log : List (Commit RocksTs WriteOp)}
    {commit : Commit RocksTs WriteOp} (stamping : Stamping start events stage)
    (grown : log = stage.db.db.log ++ [commit]) (stamps : Stamps start events log) :
    ∀ front, front <+: log → Stamps start events front := by
  intro front inside
  rw [grown] at inside
  rcases List.prefix_concat_iff.mp inside with whole | shorter
  · rw [whole, ← grown]
    exact stamps
  · exact stamping.stamps front shorter

theorem Stage.view_timestamps_rollback {stage after : Stage} {now : U64} {accepted : Bool}
    {rbPoint : Point} (indexed : BufferIndexed stage.rollbackBuffer)
    (success : stage.rollbackToPoint now accepted rbPoint = .ok after)
    (increasing : Increasing after.db.db.log) (kind : PointKind) :
    after.db.db.view (TimestampsKV.encodeKey kind) =
      stage.db.db.view (TimestampsKV.encodeKey kind) := by
  rcases Stage.rollbackToPoint_ok success with ⟨index, db, _, wrote, rfl⟩
  have committed := StorageHandler.commit_committed wrote
  rw [committed.view increasing]
  apply replay_undo_timestamps
  intro block member
  exact indexed block (List.mem_of_mem_take member)

theorem BufferIndexed.rollback {stage after : Stage} {now : U64} {accepted : Bool} {rbPoint : Point}
    (indexed : BufferIndexed stage.rollbackBuffer)
    (success : stage.rollbackToPoint now accepted rbPoint = .ok after) :
    BufferIndexed after.rollbackBuffer := by
  rcases Stage.rollbackToPoint_ok success with ⟨index, db, _, _, rfl⟩
  intro block member
  exact indexed block (List.mem_of_mem_drop member)

theorem Stamping.rollback {stage after : Stage} {now : U64} {accepted : Bool} {rbPoint : Point}
    (stamping : Stamping start events stage)
    (success : stage.rollbackToPoint now accepted rbPoint = .ok after)
    (increasing : Increasing after.db.db.log) : Stamping start events after := by
  rcases Stage.rollbackToPoint_log success with ⟨commit, log⟩
  refine ⟨stamping.snoc log ?_, stamping.buffer.rollback success⟩
  exact (stamping.stamps _ List.prefix_rfl).undo ⟨_, log.symm⟩
    (Stage.view_timestamps_rollback stamping.buffer success increasing)

theorem view_timestamps_applied {handler after : StorageHandler} {now : U64} {accepted : Bool}
    {task : FinalizedTask} {point : Point} {maxRollback : U64} {mempoolTimestamp : Option U64}
    (applied : handler.applyIndexingTask now accepted task point maxRollback mempoolTimestamp =
      .ok after) (increasing : Increasing after.db.log) (kind : PointKind)
    (untouched : task.writeBuffer.lookup (TimestampsKV.encodeKey kind) = none) :
    after.db.view (TimestampsKV.encodeKey kind) =
      if task.kind = kind then
        .ok (some (encode (⟨point.height, point.hash,
          (Timestamp.next handler.previousTimestamp now).asU64, mempoolTimestamp⟩ : TimestampEntry)))
      else handler.db.view (TimestampsKV.encodeKey kind) := by
  rw [(StorageHandler.applyIndexingTask_committed applied).view increasing,
    FinalizedTask.replay_batch_timestamps _ _ _ _ _ _ _ untouched]

theorem lookup_timestamps {begun task : IndexingTask}
    (written : IndexingTask.Written IsIndexKey begun task) (fresh : begun.writeBuffer = ∅)
    (kind : PointKind) :
    task.finalize.writeBuffer.lookup (TimestampsKV.encodeKey kind) = none := by
  rw [IndexingTask.finalize, written.lookup_of_not_allowed _ (not_isIndexKey_timestamps kind), fresh]
  rfl

theorem BufferIndexed.addBlock {buffer : RollbackBuffer} {point : Point}
    {kvs : HashMap RawKey PreviousValue} (indexed : BufferIndexed buffer)
    (keys : ∀ key ∈ kvs, IsIndexKey key) : BufferIndexed (buffer.addBlock point kvs) := by
  intro block member
  rcases List.mem_cons.mp (List.mem_of_mem_take member) with rfl | old
  · exact keys
  · exact indexed block old

theorem BufferIndexed.pushed {buffer : RollbackBuffer} {point : Point} {begun task : IndexingTask}
    (indexed : BufferIndexed buffer) (written : IndexingTask.Written IsIndexKey begun task)
    (tracks : begun.originalKvs = none ∨ begun.Tracks ∅) (fresh : begun.writeBuffer = ∅) :
    BufferIndexed (task.finalize.originalKvs.elim buffer (buffer.addBlock point)) := by
  cases stored : task.finalize.originalKvs with
  | none => exact indexed
  | some kvs =>
      apply indexed.addBlock
      intro key member
      rcases tracks with immutable | tracks
      · have tracking := written.sameSource.tracking
        rw [immutable, show task.originalKvs = some kvs from stored] at tracking
        cases tracking
      · exact written.originals tracks fresh stored member

theorem Stamping.forward {stage : Stage} {cache cache' : Option UtxoCache} {mutable : Bool}
    {indexers : List Indexer} {now : U64} {accepted : Bool} {point : Point} {txs : BlockTxs}
    {final : FinalizedTask} {db : StorageHandler} {after : Machine}
    (stamping : Stamping start events stage)
    (indexed : indexBlock indexers (stage.db.beginIndexingTask mutable) point txs stage.network
      cache = (cache', .ok final))
    (applied : stage.db.applyIndexingTask now accepted final point stage.maxRollbacks none = .ok db)
    (increasing : Increasing db.db.log) (call : BlockIndexed start events point after)
    (result : after.stage = { stage with
      utxoCache := cache'
      db
      lastProcessed := point
      rollbackBuffer := final.originalKvs.elim stage.rollbackBuffer
        (stage.rollbackBuffer.addBlock point) }) :
    Stamping start events after.stage := by
  rcases indexBlock_written indexed with ⟨task, written, rfl⟩
  have committed := StorageHandler.applyIndexingTask_committed applied
  have confirmed : task.finalize.kind = .confirmed := by
    rw [FinalizedTask.kind, IndexingTask.finalize, written.sameSource.mempool]
    rfl
  have log : after.stage.db.db.log = db.db.log := by rw [result]
  have older := stamping.stamps _ List.prefix_rfl
  have grows : stage.db.db.log <+: db.db.log := ⟨_, committed.log.symm⟩
  constructor
  · rw [log]
    apply stamping.snoc committed.log
    constructor
    · refine Or.inr ⟨⟨point.height, point.hash,
        (Timestamp.next stage.db.previousTimestamp now).asU64, none⟩, after, ?_, call, ?_⟩
      · show db.db.view _ = _
        rw [view_timestamps_applied applied increasing .confirmed
          (lookup_timestamps written rfl .confirmed),
          if_pos confirmed]
      · refine ⟨by rw [log], _, _, by rw [log, committed.log], ?_⟩
        rw [Timestamp.asRocksTs, Timestamp.asRocksTs, Timestamp.asU64_fromU64]
    · have kept : db.db.view (TimestampsKV.encodeKey .mempool) =
          stage.db.db.view (TimestampsKV.encodeKey .mempool) := by
        rw [view_timestamps_applied applied increasing .mempool
          (lookup_timestamps written rfl .mempool),
          if_neg (by rw [confirmed]; decide)]
      have same : DB.view ⟨db.db.log, 0⟩ (TimestampsKV.encodeKey .mempool) =
          DB.view ⟨stage.db.db.log, 0⟩ (TimestampsKV.encodeKey .mempool) := kept
      rw [same]
      exact older.mempool.grow List.prefix_rfl grows
  · rw [result]
    apply stamping.buffer.pushed written _ rfl
    cases mutable with
    | false => exact Or.inl rfl
    | true => exact Or.inr stage.db.tracks_beginIndexingTask

theorem Stamping.snapshot {stage : Stage} {cache cache' : Option UtxoCache}
    {indexers : List Indexer} {now : U64} {accepted : Bool} {blocks : List BlockTxs}
    {timestamp : U64} {final : FinalizedTask} {db : StorageHandler} {after : Machine}
    (stamping : Stamping start events stage) (nonempty : blocks ≠ [])
    (indexed : indexMempool indexers stage.db.beginMempoolIndexingTask stage.lastProcessed blocks
      stage.network cache = (cache', .ok final))
    (applied : stage.db.applyIndexingTask now accepted final
      ⟨stage.lastProcessed.height + BitVec.ofNat 64 blocks.length, stage.lastProcessed.hash⟩
      stage.maxRollbacks (some timestamp) = .ok db)
    (increasing : Increasing db.db.log)
    (call : SnapshotIndexed start events stage.lastProcessed blocks after)
    (result : after.stage = { stage with
      utxoCache := cache'
      db
      processedMempool := true
      rollbackBuffer := final.originalKvs.elim stage.rollbackBuffer
        (stage.rollbackBuffer.addBlock (Machine.mempoolPoint stage.lastProcessed)) }) :
    Stamping start events after.stage := by
  rcases indexMempool_written nonempty indexed with ⟨task, written, rfl⟩
  have committed := StorageHandler.applyIndexingTask_committed applied
  have mempool : task.finalize.kind = .mempool := by
    rw [FinalizedTask.kind, IndexingTask.finalize, written.sameSource.mempool]
    rfl
  have log : after.stage.db.db.log = db.db.log := by rw [result]
  have older := stamping.stamps _ List.prefix_rfl
  have grows : stage.db.db.log <+: db.db.log := ⟨_, committed.log.symm⟩
  constructor
  · rw [log]
    apply stamping.snoc committed.log
    constructor
    · have kept : db.db.view (TimestampsKV.encodeKey .confirmed) =
          stage.db.db.view (TimestampsKV.encodeKey .confirmed) := by
        rw [view_timestamps_applied applied increasing .confirmed
          (lookup_timestamps written rfl .confirmed),
          if_neg (by rw [mempool]; decide)]
      have same : DB.view ⟨db.db.log, 0⟩ (TimestampsKV.encodeKey .confirmed) =
          DB.view ⟨stage.db.db.log, 0⟩ (TimestampsKV.encodeKey .confirmed) := kept
      rw [same]
      exact older.confirmed.grow List.prefix_rfl grows
    · refine Or.inr ⟨⟨stage.lastProcessed.height + BitVec.ofNat 64 blocks.length,
        stage.lastProcessed.hash, (Timestamp.next stage.db.previousTimestamp now).asU64,
        some timestamp⟩, stage.lastProcessed, blocks, after, ?_, call, rfl, rfl, ?_⟩
      · show db.db.view _ = _
        rw [view_timestamps_applied applied increasing .mempool
          (lookup_timestamps written rfl .mempool),
          if_pos mempool]
      · refine ⟨by rw [log], _, _, by rw [log, committed.log], ?_⟩
        rw [Timestamp.asRocksTs, Timestamp.asRocksTs, Timestamp.asU64_fromU64]
  · rw [result]
    exact stamping.buffer.pushed written (Or.inr stage.db.tracks_beginMempoolIndexingTask) rfl

theorem Stamping.later {stage : Stage} (stamping : Stamping start events stage)
    (more : List (Env × ChainEvent)) : Stamping start (events ++ more) stage := by
  refine ⟨?_, stamping.buffer⟩
  intro log inside
  have stamps := stamping.stamps log inside
  have longer : events <+: events ++ more := List.prefix_append events more
  exact ⟨stamps.confirmed.grow longer List.prefix_rfl, stamps.mempool.grow longer List.prefix_rfl⟩

theorem Stamping.undone {stage after : Stage} {env : Env} (stamping : Stamping start events stage)
    (undone : Machine.Undone stage env after) (increasing : Increasing after.db.db.log) :
    Stamping start events after := by
  rcases undone with rfl | undone
  · exact stamping
  · exact stamping.rollback undone increasing

theorem Stamping.execute {names : Header → Point → Prop} {env : Env} {event : ChainEvent}
    (stamping : Stamping start events (start.run events).stage) (valid : event.Valid names)
    (increasing : Increasing ((start.run events).execute env event).1.stage.db.db.log) :
    Stamping start (events ++ [(env, event)]) ((start.run events).execute env event).1.stage := by
  have before := stamping.later [(env, event)]
  have call := (start.run events).execute_call env event
  generalize result : (start.run events).execute env event = outcome at call increasing ⊢
  cases call with
  | refused => exact before
  | stopped undone below => exact before.undone (Machine.undoMempool_undone undone) increasing
  | unindexed undone =>
      have clean := before.undone (Machine.undoMempool_undone undone) increasing
      exact ⟨clean.stamps, clean.buffer⟩
  | indexed undone height parent indexing applied =>
      have between := (StorageHandler.applyIndexingTask_committed applied).increasing increasing
      have clean := before.undone (Machine.undoMempool_undone undone) between
      apply clean.forward indexing applied increasing _ rfl
      refine ⟨events, env, _, _, _, List.prefix_rfl, ?_, result⟩
      rw [height, Machine.undoMempool_lastProcessed undone]
  | rolledBack undone => exact before.rollback undone increasing
  | skipped undone other => exact before.undone (Machine.undoSnapshot_undone undone) increasing
  | unsnapshotted undone =>
      have clean := before.undone (Machine.undoSnapshot_undone undone) increasing
      exact ⟨clean.stamps, clean.buffer⟩
  | snapshotted undone same indexing applied =>
      have between := (StorageHandler.applyIndexingTask_committed applied).increasing increasing
      have clean := before.undone (Machine.undoSnapshot_undone undone) between
      apply clean.snapshot valid indexing applied increasing _ rfl
      exact ⟨events, env, _, List.prefix_rfl, (Machine.undoSnapshot_lastProcessed undone).symm, same,
        result⟩

theorem stamping_run {names : Header → Point → Prop} (start : Machine)
    (events : List (Env × ChainEvent))
    (empty : start.stage.db.db.log = []) (idle : start.stage.rollbackBuffer.points = [])
    (valid : ∀ event ∈ events, event.2.Valid names)
    (increasing : Increasing (start.run events).stage.db.db.log) :
    Stamping start events (start.run events).stage := by
  induction events using List.reverseRecOn with
  | nil =>
      constructor
      · intro log inside
        rw [show (start.run []).stage.db.db.log = [] from empty, List.prefix_nil] at inside
        rw [inside]
        exact ⟨Or.inl rfl, Or.inl rfl⟩
      · intro block member
        rw [show (start.run []).stage.rollbackBuffer.points = [] from idle] at member
        cases member
  | append_singleton events event ih =>
      rcases event with ⟨env, event⟩
      rw [Machine.run_snoc] at increasing ⊢
      have earlier : Increasing (start.run events).stage.db.db.log :=
        VersionedLog.increasing_prefix ((start.run events).execute_log env event) increasing
      have before := ih (by
        intro other member
        exact valid other (List.mem_append_left _ member)) earlier
      exact before.execute (valid (env, event) (by simp)) increasing

end Records

theorem NamesCommit.get {entry : TimestampEntry} {after : Machine} {low : RocksTs}
    {log later : List (Commit RocksTs WriteOp)} (named : NamesCommit entry after log)
    (grown : log <+: later) (increasing : Increasing later) (key : RawKey) :
    DB.get ⟨later, low⟩ (Timestamp.fromU64 entry.rocksTimestamp) key =
      after.stage.db.db.view key := by
  rcases named with ⟨inside, older, commit, split, ts⟩
  rcases inside.trans grown with ⟨more, rfl⟩
  rw [split, List.append_assoc, List.singleton_append] at increasing
  have read := VersionedLog.readAt_commit WriteOp.act (.ok none) older more commit
    Timestamp.latest.asRocksTs key increasing (by
      intro other _
      exact Timestamp.asRocksTs_le_latest other.ts)
  simp only [DB.get, DB.view]
  rw [split, List.append_assoc, List.singleton_append, ← ts]
  exact read

theorem decodeCell_encode {Value : Type} [Codec Value] {cell : Cell} {stored read : Value}
    (fits : Fits stored) (cellIs : cell = .ok (some (encode stored)))
    (decoded : IndexingTask.decodeCell cell = .ok (some read)) : stored = read := by
  rw [cellIs] at decoded
  simp only [IndexingTask.decodeCell, bind, Except.bind, decodeAll_encode stored fits, liftDecoding, pure,
    Except.pure, Except.ok.injEq, Option.some.injEq] at decoded
  exact decoded

/-- Headers fed with a block at `point`. -/
def FedBy (blockHash : Header → BlockHash) (events : List (Env × ChainEvent)) (header : Header)
    (point : Point) : Prop :=
  point.hash = blockHash header ∧ ∃ env txs tip, (env, .rollForward point header txs tip) ∈ events

/-- What a run relies on of block hashes: no two headers fed to it collide, and only the
block at height zero carries the genesis hash. -/
structure HashesSound (blockHash : Header → BlockHash) (genesis : BlockHash)
    (events : List (Env × ChainEvent)) : Prop where
  collisionFree : ∀ first second point other, FedBy blockHash events first point →
    FedBy blockHash events second other → blockHash first = blockHash second → first = second
  genesisLow : ∀ header point, FedBy blockHash events header point → point.height ≠ 0 →
    point.hash ≠ genesis

theorem HashesSound.tell {blockHash : Header → BlockHash} {genesis : BlockHash}
    {events : List (Env × ChainEvent)} (hashes : HashesSound blockHash genesis events) :
    HashesTell (FedBy blockHash events) genesis where
  same := by
    intro first second point other fed fed' same
    apply hashes.collisionFree first second point other fed fed'
    rw [← fed.1, ← fed'.1]
    exact same
  above := by
    intro header point fed positive
    exact hashes.genesisLow header point fed positive

theorem Coherent.height_eq {blockHash : Header → BlockHash} {genesis : BlockHash}
    {events : List (Env × ChainEvent)} {first second : Machine}
    (hashes : HashesSound blockHash genesis events)
    (one : Coherent (FedBy blockHash events) genesis first)
    (two : Coherent (FedBy blockHash events) genesis second)
    (same : first.stage.lastProcessed.hash = second.stage.lastProcessed.hash) :
    first.stage.lastProcessed.height = second.stage.lastProcessed.height := by
  rcases one.inv with ⟨chain, _, inv⟩
  rcases two.inv with ⟨chain', _, inv'⟩
  rw [inv.tip, inv'.tip] at same ⊢
  apply BitVec.eq_of_toNat_eq
  rw [inv.linked.height_top, inv'.linked.height_top]
  rw [inv.linked.eq_of_hash hashes.tell inv'.linked same]

theorem FedBy.valid {blockHash : Header → BlockHash} {events : List (Env × ChainEvent)}
    (valid : ∀ event ∈ events, event.2.Valid (HashedBy blockHash)) :
    ∀ event ∈ events, event.2.Valid (FedBy blockHash events) := by
  intro event member
  rcases event with ⟨env, event⟩
  have admitted := valid _ member
  cases event with
  | rollForward point header txs tip =>
      exact ⟨⟨admitted.1, env, txs, tip, member⟩, admitted.2⟩
  | rollBack point => exact admitted
  | mempoolBlocks info blocks => exact admitted

theorem coherent_front {names : Header → Point → Prop} {genesis : BlockHash} {start : Machine}
    {front events : List (Env × ChainEvent)} (coherent : Coherent names genesis start)
    (inside : front <+: events) (valid : ∀ event ∈ events, event.2.Valid names)
    (increasing : Increasing (start.run events).stage.db.db.log) :
    Coherent names genesis (start.run front) ∧
      (start.run front).stage.db.db.log <+: (start.run events).stage.db.db.log := by
  rcases inside with ⟨rest, rfl⟩
  have grows : (start.run front).stage.db.db.log <+: (start.run (front ++ rest)).stage.db.db.log := by
    induction rest using List.reverseRecOn with
    | nil => simp
    | append_singleton rest event ih =>
        rcases event with ⟨env, event⟩
        rw [← List.append_assoc, Machine.run_snoc] at increasing ⊢
        have step := (start.run (front ++ rest)).execute_log env event
        refine (ih ?_ ?_).trans step
        · intro other member
          exact valid other (by
            rw [← List.append_assoc]
            exact List.mem_append_left _ member)
        · exact VersionedLog.increasing_prefix step increasing
  refine ⟨?_, grows⟩
  apply (kept_coherent names genesis).run coherent
  · intro event member
    exact valid event (List.mem_append_left _ member)
  · exact VersionedLog.increasing_prefix grows increasing

theorem BlockIndexed.tip {start after : Machine} {events : List (Env × ChainEvent)}
    {point : Point} (call : BlockIndexed start events point after) :
    after.stage.lastProcessed = point ∧
      ∃ front, front <+: events ∧ after = start.run front := by
  rcases call with ⟨before, env, header, txs, tip, inside, height, success⟩
  refine ⟨?_, _, inside, by rw [Machine.run_snoc, success]⟩
  have call := (start.run before).execute_call env (.rollForward point header txs tip)
  rw [success] at call
  generalize stored : (after, (Except.ok () : Except WorkerError Unit)) = outcome at call
  cases call with
  | refused => cases stored
  | stopped undone below =>
      have low := below (Prod.mk.inj stored).2.symm
      rw [height, Machine.undoMempool_lastProcessed undone] at low
      exact absurd low (BitVec.lt_irrefl _)
  | unindexed undone => cases stored
  | indexed undone height parent indexing applied => rw [(Prod.mk.inj stored).1]

theorem length_estimatedBlocks (confirmed mempool : TimestampEntry) (count : Nat)
    (height : mempool.tipHeight = confirmed.tipHeight + BitVec.ofNat 64 count)
    (fits : confirmed.tipHeight.toNat + count < 2 ^ 64) :
    (Serve.estimatedBlocks confirmed mempool).length = count := by
  have sum : (confirmed.tipHeight + BitVec.ofNat 64 count).toNat =
      confirmed.tipHeight.toNat + count := by
    rw [BitVec.toNat_add, BitVec.toNat_ofNat, Nat.add_mod_mod, Nat.mod_eq_of_lt fits]
  rw [Serve.estimatedBlocks, List.length_map, List.length_range, height, toNat_saturatingSub, sum,
    Nat.add_sub_cancel_left]

/-- A reader sees the state right after the commit of the block it reports or, if asked for
the mempool, right after that of a snapshot on a block with the reported hash; commits made
since do not change what it returns. -/
theorem start_reader_snapshot (blockHash : Header → BlockHash) (config : Config)
    (indexers : List Indexer) (stage : Stage) (events : List (Env × ChainEvent))
    (formatUtc : Nat → Option String) (storage : StorageHandler) (mempool : Bool) (reader : Reader)
    (info : Serve.IndexerInfo) (later : List (Commit RocksTs WriteOp))
    (fresh : Stage.new config (StorageHandler.openDb DB.empty) = .ok stage)
    (valid : ∀ event ∈ events, event.2.Valid (HashedBy blockHash))
    (hashes : HashesSound blockHash config.genesisHash events)
    (fits : ∀ base blocks after,
      SnapshotIndexed (Machine.bootstrap indexers stage) events base blocks after →
        base.height.toNat + blocks.length < 2 ^ 64)
    (increasing : Increasing ((Machine.bootstrap indexers stage).run events).stage.db.db.log)
    (reached : storage.db.log <+: later)
    (inRun : later <+: ((Machine.bootstrap indexers stage).run events).stage.db.db.log)
    (success : Serve.startReader formatUtc storage mempool = .ok (reader, info)) :
    ∃ point after, BlockIndexed (Machine.bootstrap indexers stage) events point after ∧
      info.chainTip = ⟨Serve.displayHash point.hash, point.height⟩ ∧
      ((info.estimatedBlocks = [] ∧
          (mempool = true → ∀ snapshot : TimestampEntry,
            (storage.reader Timestamp.latest).get TimestampsKV .mempool = .ok (some snapshot) →
              snapshot.tipHash ≠ point.hash) ∧
          ∀ low key, DB.get ⟨later, low⟩ reader.timestamp key = after.stage.db.db.view key) ∨
        (mempool = true ∧ ∃ base blocks indexed,
          SnapshotIndexed (Machine.bootstrap indexers stage) events base blocks indexed ∧
          base.hash = point.hash ∧ info.estimatedBlocks.length = blocks.length ∧
          ∀ low key, DB.get ⟨later, low⟩ reader.timestamp key = indexed.stage.db.db.view key)) := by
  have begun := coherent_bootstrap (FedBy blockHash events) config indexers stage fresh
  have fed := FedBy.valid valid
  have laterIncreasing : Increasing later :=
    VersionedLog.increasing_prefix inRun increasing
  have empty : stage = Stage.empty config := by
    rw [Stage.new_empty] at fresh
    exact (Except.ok.inj fresh).symm
  have stamping := stamping_run (Machine.bootstrap indexers stage) events
    (by rw [empty]; rfl) (by rw [empty]; rfl) valid increasing
  have stamps := stamping.stamps storage.db.log (reached.trans inRun)
  rcases Serve.startReader_cases success with ⟨confirmed, read, tip, rest⟩
  rcases stamps.confirmed with missing | ⟨entry, after, cell, call, named⟩
  · have absent : IndexingTask.decodeCell (.ok none) = .ok (some confirmed) := missing ▸ read
    cases absent
  · obtain rfl : entry = confirmed := decodeCell_encode trivial cell read
    refine ⟨⟨entry.tipHeight, entry.tipHash⟩, after, call, tip, ?_⟩
    rcases rest with ⟨rfl, estimated, differs⟩ | ⟨snapshot, asked, stored, same, rfl, estimated⟩
    · refine Or.inl ⟨estimated, differs, ?_⟩
      intro low key
      exact named.get reached laterIncreasing key
    · rcases stamps.mempool with missing |
        ⟨mempoolEntry, base, blocks, indexed, cell, made, hash, height, names⟩
      · have absent : IndexingTask.decodeCell (.ok none) = .ok (some snapshot) := missing ▸ stored
        cases absent
      · obtain rfl : mempoolEntry = snapshot := decodeCell_encode trivial cell stored
        have reported : base.hash = entry.tipHash := hash.symm.trans same
        refine Or.inr ⟨asked, base, blocks, indexed, made, reported, ?_, ?_⟩
        · rcases call.tip with ⟨processed, front, inside, rfl⟩
          have fitting := fits base blocks indexed made
          rcases made with ⟨before, env, snapshotInfo, within, rfl, _⟩
          have one := (coherent_front begun inside fed increasing).1
          have two := (coherent_front begun ((List.prefix_append before _).trans within) fed
            increasing).1
          have level := Coherent.height_eq hashes two one (by rw [processed]; exact reported)
          rw [processed] at level
          rw [level] at height fitting
          rw [estimated]
          exact length_estimatedBlocks entry mempoolEntry blocks.length height fitting
        · intro low key
          exact names.get reached laterIncreasing key

def snapshotEvents : List (Env × ChainEvent) := blockOneEvents.take 2

def snapshotStart : Machine := Machine.bootstrap [] (Stage.empty (mainnetConfig 2))

theorem snapshotEvents_fed {header : Header} {point : Point}
    (fed : FedBy mainnetHash snapshotEvents header point) :
    header = mainnetHeaderOne ∧ point = ⟨1, mainnetBlockOne⟩ := by
  rcases fed.2 with ⟨env, txs, tip, member⟩
  rcases List.mem_cons.mp member with first | second
  · cases first
    exact ⟨rfl, rfl⟩
  · cases List.mem_singleton.mp second

theorem snapshotEvents_hashes : HashesSound mainnetHash mainnetGenesis snapshotEvents := by
  constructor
  · intro first second point other one two _
    rw [(snapshotEvents_fed one).1, (snapshotEvents_fed two).1]
  · intro header point fed _
    rw [(snapshotEvents_fed fed).2]
    decide

theorem snapshotEvents_fits (base : Point) (blocks : List BlockTxs) (after : Machine)
    (made : SnapshotIndexed snapshotStart snapshotEvents base blocks after) :
    base.height.toNat + blocks.length < 2 ^ 64 := by
  rcases made with ⟨before, env, info, ⟨rest, split⟩, rfl, _⟩
  cases before with
  | nil => cases split
  | cons first before =>
      cases before with
      | nil =>
          cases split
          decide +kernel
      | cons second before =>
          have lengths := congrArg List.length split
          simp [snapshotEvents, blockOneEvents] at lengths

def epochOnly (seconds : Nat) : Option String :=
  if seconds = 0 then some "1970-01-01 00:00:00" else none

theorem start_reader_block_one :
    ∃ reader info,
      Serve.startReader epochOnly (snapshotStart.run snapshotEvents).stage.db true =
        .ok (reader, info) ∧
      ∃ point after, BlockIndexed snapshotStart snapshotEvents point after ∧
        info.chainTip = ⟨Serve.displayHash point.hash, point.height⟩ ∧
        ((info.estimatedBlocks = [] ∧
            (true = true → ∀ snapshot : TimestampEntry,
              ((snapshotStart.run snapshotEvents).stage.db.reader Timestamp.latest).get TimestampsKV
                .mempool = .ok (some snapshot) → snapshot.tipHash ≠ point.hash) ∧
            ∀ low key, DB.get ⟨(snapshotStart.run snapshotEvents).stage.db.db.log, low⟩
              reader.timestamp key = after.stage.db.db.view key) ∨
          (true = true ∧ ∃ base blocks indexed,
            SnapshotIndexed snapshotStart snapshotEvents base blocks indexed ∧
            base.hash = point.hash ∧ info.estimatedBlocks.length = blocks.length ∧
            ∀ low key, DB.get ⟨(snapshotStart.run snapshotEvents).stage.db.db.log, low⟩
              reader.timestamp key = indexed.stage.db.db.view key)) := by
  have success : ∃ reader info, Serve.startReader epochOnly
      (snapshotStart.run snapshotEvents).stage.db true = .ok (reader, info) := ⟨_, _, rfl⟩
  rcases success with ⟨reader, info, success⟩
  exact ⟨reader, info, success, start_reader_snapshot mainnetHash (mainnetConfig 2) []
    (Stage.empty (mainnetConfig 2)) snapshotEvents epochOnly _ true reader info _
    (Stage.new_empty _) (by decide +kernel) snapshotEvents_hashes snapshotEvents_fits
    (by decide +kernel) List.prefix_rfl List.prefix_rfl success⟩

end Symphony
