import Symphony.Proof.Locator
import Symphony.Proof.Snapshot

/-! Readers and the garbage-collection horizon.

The horizon is the timestamp of the last confirmed commit. The entry of a snapshot keeps its
own timestamp when its block is undone and indexed again, so equal hashes do not tell that the
snapshot is the newer one. -/

namespace Symphony

open Encdec
open VersionedLog (Commit Increasing replay)

inductive IndexCommit where
  | block (hash : BlockHash)
  | snapshot (base : BlockHash) (seconds : U64)
  deriving DecidableEq

namespace IndexCommit

def lastBlock : List IndexCommit → Option BlockHash
  | [] => none
  | .block hash :: _ => some hash
  | .snapshot _ _ :: earlier => lastBlock earlier

def lastSnapshot : List IndexCommit → Option (BlockHash × U64)
  | [] => none
  | .block _ :: earlier => lastSnapshot earlier
  | .snapshot base seconds :: _ => some (base, seconds)

def blockOnTop : List IndexCommit → Bool
  | .block _ :: _ => true
  | _ => false

/-- The newest commit indexed the block that the stored snapshot is built on; the snapshot was
there before, and its time can be shown. -/
def Reindexed (formatUtc : Nat → Option String) : List IndexCommit → Prop
  | .block hash :: earlier => ∃ seconds, lastSnapshot earlier = some (hash, seconds) ∧
      ∃ text, Serve.formatTimestamp formatUtc seconds = .ok text
  | _ => False

end IndexCommit

namespace Machine

def indexCommit (machine : Machine) (env : Env) (event : ChainEvent) : Option IndexCommit :=
  match event, (machine.execute env event).2 with
  | .rollForward point _ _ _, .ok () =>
      if point.height = machine.stage.lastProcessed.height + 1 then some (.block point.hash) else none
  | .mempoolBlocks info _, .ok () =>
      if info.tip = machine.stage.lastProcessed.hash then some (.snapshot info.tip info.timestamp)
      else none
  | _, _ => none

def commits (machine : Machine) (events : List (Env × ChainEvent)) : List IndexCommit :=
  (events.foldl (fun (state : Machine × List IndexCommit) event =>
    ((state.1.execute event.1 event.2).1,
      (state.1.indexCommit event.1 event.2).toList ++ state.2)) (machine, [])).2

theorem commits_snoc (machine : Machine) (events : List (Env × ChainEvent)) (env : Env)
    (event : ChainEvent) :
    machine.commits (events ++ [(env, event)]) =
      ((machine.run events).indexCommit env event).toList ++ machine.commits events := by
  have runs (state : Machine × List IndexCommit) : (events.foldl
      (fun (state : Machine × List IndexCommit) event => ((state.1.execute event.1 event.2).1,
        (state.1.indexCommit event.1 event.2).toList ++ state.2)) state).1 = state.1.run events := by
    induction events generalizing state with
    | nil => rfl
    | cons first rest ih =>
        rw [List.foldl_cons, ih]
        rfl
  have whole := runs (machine, [])
  rw [commits, List.foldl_append, List.foldl_cons, List.foldl_nil, whole, commits]

inductive Shows (machine : Machine) : StorageHandler → Prop
  | left : machine.Shows machine.stage.db
  | undone (env : Env) (stage : Stage)
      (undoing : machine.stage.rollbackToPoint env.undoNow env.undoAccepted
        machine.stage.lastProcessed = .ok stage) : machine.Shows stage.db

end Machine

structure Horizoned (indexed : List IndexCommit) (db : DB) : Prop where
  low : db.fullHistoryTsLow = 0 ∨ ∃ commit ∈ db.log, commit.ts = db.fullHistoryTsLow
  confirmed : (IndexCommit.lastBlock indexed = none ∧
      db.view (TimestampsKV.encodeKey .confirmed) = .ok none) ∨
    ∃ hash height, IndexCommit.lastBlock indexed = some hash ∧
      db.view (TimestampsKV.encodeKey .confirmed) = .ok (some (encode
        (⟨height, hash, BitVec.ofFin db.fullHistoryTsLow, none⟩ : TimestampEntry)))
  mempool : (IndexCommit.lastSnapshot indexed = none ∧
      db.view (TimestampsKV.encodeKey .mempool) = .ok none) ∨
    ∃ base seconds height ts, IndexCommit.lastSnapshot indexed = some (base, seconds) ∧
      db.view (TimestampsKV.encodeKey .mempool) = .ok (some (encode
        (⟨height, base, BitVec.ofFin ts, some seconds⟩ : TimestampEntry))) ∧
      (∃ commit ∈ db.log, commit.ts = ts) ∧
      (ts < db.fullHistoryTsLow ↔ IndexCommit.blockOnTop indexed = true)

structure StageHorizon (indexed : List IndexCommit) (stage : Stage) : Prop where
  entries : Horizoned indexed stage.db.db
  buffer : BufferIndexed stage.rollbackBuffer

section Steps

variable {indexed : List IndexCommit} {stage after : Stage}

theorem Horizoned.grow {db grown : DB} (entries : Horizoned indexed db)
    (longer : db.log <+: grown.log) (low : grown.fullHistoryTsLow = db.fullHistoryTsLow)
    (same : ∀ kind, grown.view (TimestampsKV.encodeKey kind) =
      db.view (TimestampsKV.encodeKey kind)) : Horizoned indexed grown := by
  have kept {ts : RocksTs} (old : ∃ commit ∈ db.log, commit.ts = ts) :
      ∃ commit ∈ grown.log, commit.ts = ts := by
    rcases old with ⟨commit, member, at_⟩
    exact ⟨commit, longer.subset member, at_⟩
  constructor
  · rw [low]
    exact entries.low.imp_right kept
  · rw [low, same]
    exact entries.confirmed
  · rw [low, same]
    rcases entries.mempool with absent | ⟨base, seconds, height, ts, last, cell, old, order⟩
    · exact Or.inl absent
    · exact Or.inr ⟨base, seconds, height, ts, last, cell, kept old, order⟩

theorem StorageHandler.commit_low {handler next : StorageHandler} {now : U64} {accepted : Bool}
    {batch : Timestamp → List WriteOp} (success : handler.commit now accepted batch = .ok next) :
    next.db.fullHistoryTsLow = handler.db.fullHistoryTsLow := by
  simp only [commit] at success
  split at success
  · cases success
    rfl
  · cases success

/-- A confirmed commit moves the horizon to its own timestamp, a snapshot leaves it. -/
theorem StorageHandler.applyIndexingTask_low {handler next : StorageHandler} {now : U64}
    {accepted : Bool} {task : FinalizedTask} {point : Point} {maxRollback : U64}
    {mempoolTimestamp : Option U64}
    (success : handler.applyIndexingTask now accepted task point maxRollback mempoolTimestamp =
      .ok next) :
    next.db.fullHistoryTsLow =
      if task.mempool then handler.db.fullHistoryTsLow
      else max handler.db.fullHistoryTsLow
        (Timestamp.next handler.previousTimestamp now).asRocksTs := by
  simp only [applyIndexingTask, bind, Except.bind] at success
  split at success
  · cases success
  · rename_i written wrote
    have kept := commit_low wrote
    have previous := (commit_committed wrote).previous
    simp only [pure, Except.pure, Except.ok.injEq] at success
    subst success
    split
    · exact kept
    · simp only [DB.increaseFullHistoryTsLow, readTs, previous, Option.getD_some, kept]
      split
      · rename_i below
        rw [kept]
        exact (max_eq_left (le_of_lt below)).symm
      · rename_i above
        exact (max_eq_right (not_lt.mp above)).symm

theorem StageHorizon.rollback {now : U64} {accepted : Bool} {rbPoint : Point}
    (horizon : StageHorizon indexed stage)
    (success : stage.rollbackToPoint now accepted rbPoint = .ok after)
    (increasing : Increasing after.db.db.log) : StageHorizon indexed after := by
  have same := Stage.view_timestamps_rollback horizon.buffer success increasing
  refine ⟨?_, horizon.buffer.rollback success⟩
  rcases Stage.rollbackToPoint_ok success with ⟨index, db, _, wrote, rfl⟩
  have log := (StorageHandler.commit_committed wrote).log
  exact horizon.entries.grow ⟨_, log.symm⟩ (StorageHandler.commit_low wrote) same

theorem StageHorizon.undone {env : Env} (horizon : StageHorizon indexed stage)
    (undone : Machine.Undone stage env after) (increasing : Increasing after.db.db.log) :
    StageHorizon indexed after := by
  rcases undone with rfl | undone
  · exact horizon
  · exact horizon.rollback undone increasing

theorem Horizoned.before {handler next : StorageHandler} {ts : Timestamp} {batch : List WriteOp}
    (committed : StorageHandler.Committed handler next ts batch)
    (increasing : Increasing next.db.log) {earlier : RocksTs}
    (old : ∃ commit ∈ handler.db.log, commit.ts = earlier) : earlier < ts.asRocksTs := by
  rcases old with ⟨commit, member, rfl⟩
  rw [committed.log] at increasing
  exact VersionedLog.increasing_lt increasing member (List.mem_singleton_self _)

theorem Horizoned.below {handler next : StorageHandler} {ts : Timestamp} {batch : List WriteOp}
    (entries : Horizoned indexed handler.db)
    (committed : StorageHandler.Committed handler next ts batch)
    (increasing : Increasing next.db.log) : handler.db.fullHistoryTsLow ≤ ts.asRocksTs := by
  rcases entries.low with zero | old
  · rw [zero]
    exact Fin.zero_le _
  · exact le_of_lt (Horizoned.before committed increasing old)

theorem Horizoned.block {handler next : StorageHandler} {now : U64} {accepted : Bool}
    {begun task : IndexingTask} {point : Point} {maxRollback : U64}
    (entries : Horizoned indexed handler.db)
    (written : IndexingTask.Written IsIndexKey begun task) (fresh : begun.writeBuffer = ∅)
    (confirmed : begun.mempool = false)
    (applied : handler.applyIndexingTask now accepted task.finalize point maxRollback none =
      .ok next) (increasing : Increasing next.db.log) :
    Horizoned (.block point.hash :: indexed) next.db := by
  have committed := StorageHandler.applyIndexingTask_committed applied
  have immutable : task.finalize.mempool = false := by
    rw [IndexingTask.finalize, written.sameSource.mempool, confirmed]
  have kind : task.finalize.kind = .confirmed := by
    rw [FinalizedTask.kind, immutable]
    rfl
  have low : next.db.fullHistoryTsLow =
      (Timestamp.next handler.previousTimestamp now).asRocksTs := by
    rw [StorageHandler.applyIndexingTask_low applied, immutable, if_neg (by decide),
      max_eq_right (entries.below committed increasing)]
  constructor
  · exact Or.inr ⟨_, by rw [committed.log]; exact List.mem_append_right _ (List.mem_singleton_self _),
      low.symm⟩
  · refine Or.inr ⟨point.hash, point.height, rfl, ?_⟩
    rw [view_timestamps_applied applied increasing .confirmed
      (lookup_timestamps written fresh .confirmed), if_pos kind, low]
    rfl
  · rw [view_timestamps_applied applied increasing .mempool
      (lookup_timestamps written fresh .mempool), if_neg (by rw [kind]; decide)]
    rcases entries.mempool with absent | ⟨base, seconds, height, ts, last, cell, old, _⟩
    · exact Or.inl absent
    · have earlier := Horizoned.before committed increasing old
      rcases old with ⟨commit, member, at_⟩
      refine Or.inr ⟨base, seconds, height, ts, last, cell, ⟨commit, ?_, at_⟩, ?_⟩
      · rw [committed.log]
        exact List.mem_append_left _ member
      · rw [low]
        simp only [earlier, IndexCommit.blockOnTop]

theorem Horizoned.snapshot {handler next : StorageHandler} {now : U64} {accepted : Bool}
    {begun task : IndexingTask} {point : Point} {maxRollback seconds : U64}
    (entries : Horizoned indexed handler.db)
    (written : IndexingTask.Written IsIndexKey begun task) (fresh : begun.writeBuffer = ∅)
    (mempool : begun.mempool = true)
    (applied : handler.applyIndexingTask now accepted task.finalize point maxRollback
      (some seconds) = .ok next) (increasing : Increasing next.db.log) :
    Horizoned (.snapshot point.hash seconds :: indexed) next.db := by
  have committed := StorageHandler.applyIndexingTask_committed applied
  have pending : task.finalize.mempool = true := by
    rw [IndexingTask.finalize, written.sameSource.mempool, mempool]
  have kind : task.finalize.kind = .mempool := by
    rw [FinalizedTask.kind, pending]
    rfl
  have low : next.db.fullHistoryTsLow = handler.db.fullHistoryTsLow := by
    rw [StorageHandler.applyIndexingTask_low applied, pending, if_pos rfl]
  constructor
  · rw [low, committed.log]
    rcases entries.low with zero | ⟨commit, member, at_⟩
    · exact Or.inl zero
    · exact Or.inr ⟨commit, List.mem_append_left _ member, at_⟩
  · rw [low, view_timestamps_applied applied increasing .confirmed
      (lookup_timestamps written fresh .confirmed), if_neg (by rw [kind]; decide)]
    exact entries.confirmed
  · refine Or.inr ⟨point.hash, seconds, point.height,
      (Timestamp.next handler.previousTimestamp now).asRocksTs, rfl, ?_, ?_, ?_⟩
    · rw [view_timestamps_applied applied increasing .mempool
        (lookup_timestamps written fresh .mempool), if_pos kind]
      rfl
    · exact ⟨_, by rw [committed.log]; exact List.mem_append_right _ (List.mem_singleton_self _), rfl⟩
    · rw [low]
      simp only [IndexCommit.blockOnTop, Bool.false_eq_true, iff_false, not_lt]
      exact entries.below committed increasing

end Steps

section Runs

variable {indexed : List IndexCommit} {machine : Machine}

theorem StageHorizon.execute {names : Header → Point → Prop} {env : Env} {event : ChainEvent}
    (horizon : StageHorizon indexed machine.stage) (valid : event.Valid names)
    (increasing : Increasing (machine.execute env event).1.stage.db.db.log) :
    StageHorizon ((machine.indexCommit env event).toList ++ indexed)
      (machine.execute env event).1.stage := by
  have call := machine.execute_call env event
  unfold Machine.indexCommit
  generalize machine.execute env event = outcome at call increasing ⊢
  cases call with
  | refused => cases event <;> exact horizon
  | @stopped point tip header txs stage result undone below =>
      have clean := horizon.undone (Machine.undoMempool_undone undone) increasing
      cases result with
      | error failure => exact clean
      | ok =>
          have low := below rfl
          rw [Machine.undoMempool_lastProcessed undone] at low
          have other : point.height ≠ machine.stage.lastProcessed.height + 1 := BitVec.ne_of_lt low
          simp only [if_neg other]
          exact clean
  | unindexed undone =>
      have clean := horizon.undone (Machine.undoMempool_undone undone) increasing
      exact ⟨clean.entries, clean.buffer⟩
  | @indexed point tip header txs stage cache final db undone height parent indexing applied =>
      rw [Machine.undoMempool_lastProcessed undone] at height
      simp only [height, if_true]
      have between := (StorageHandler.applyIndexingTask_committed applied).increasing increasing
      have before := horizon.undone (Machine.undoMempool_undone undone) between
      rcases indexBlock_written indexing with ⟨task, written, rfl⟩
      refine ⟨before.entries.block written rfl rfl applied increasing, ?_⟩
      apply before.buffer.pushed written _ rfl
      cases Machine.mutableAt { machine with stage } point tip with
      | false => exact Or.inl rfl
      | true => exact Or.inr stage.db.tracks_beginIndexingTask
  | rolledBack undone => exact horizon.rollback undone increasing
  | skipped undone other =>
      rw [Machine.undoSnapshot_lastProcessed undone] at other
      simp only [if_neg other]
      exact horizon.undone (Machine.undoSnapshot_undone undone) increasing
  | unsnapshotted undone =>
      have clean := horizon.undone (Machine.undoSnapshot_undone undone) increasing
      exact ⟨clean.entries, clean.buffer⟩
  | @snapshotted info blocks stage cache final db undone same indexing applied =>
      have tip := same
      rw [Machine.undoSnapshot_lastProcessed undone] at tip
      simp only [tip, if_true]
      rw [← tip, same]
      have between := (StorageHandler.applyIndexingTask_committed applied).increasing increasing
      have before := horizon.undone (Machine.undoSnapshot_undone undone) between
      rcases indexMempool_written valid indexing with ⟨task, written, rfl⟩
      have entries := before.entries.snapshot written rfl rfl applied increasing
      exact ⟨entries,
        before.buffer.pushed written (Or.inr stage.db.tracks_beginMempoolIndexingTask) rfl⟩

theorem stageHorizon_run {names : Header → Point → Prop} (config : Config)
    (indexers : List Indexer) (events : List (Env × ChainEvent))
    (valid : ∀ event ∈ events, event.2.Valid names)
    (increasing : Increasing
      ((Machine.bootstrap indexers (Stage.empty config)).run events).stage.db.db.log) :
    StageHorizon ((Machine.bootstrap indexers (Stage.empty config)).commits events)
      ((Machine.bootstrap indexers (Stage.empty config)).run events).stage := by
  induction events using List.reverseRecOn with
  | nil =>
      refine ⟨⟨Or.inl rfl, Or.inl ⟨rfl, rfl⟩, Or.inl ⟨rfl, rfl⟩⟩, ?_⟩
      intro block member
      cases member
  | append_singleton events event ih =>
      rcases event with ⟨env, event⟩
      rw [Machine.commits_snoc]
      rw [Machine.run_snoc] at increasing ⊢
      have earlier : Increasing
          ((Machine.bootstrap indexers (Stage.empty config)).run events).stage.db.db.log :=
        VersionedLog.increasing_prefix
          (((Machine.bootstrap indexers (Stage.empty config)).run events).execute_log env event) increasing
      have before := ih (by
        intro other member
        exact valid other (List.mem_append_left _ member)) earlier
      exact before.execute (valid (env, event) (by simp)) increasing

theorem StageHorizon.shows {storage : StorageHandler} (horizon : StageHorizon indexed machine.stage)
    (shows : machine.Shows storage) (increasing : Increasing storage.db.log) :
    Horizoned indexed storage.db := by
  cases shows with
  | left => exact horizon.entries
  | undone env stage undoing => exact (horizon.rollback undoing increasing).entries

end Runs

theorem IndexCommit.lastBlock_of_blockOnTop {indexed : List IndexCommit}
    (top : blockOnTop indexed = true) : ∃ hash earlier, indexed = .block hash :: earlier := by
  cases indexed with
  | nil => cases top
  | cons commit earlier =>
      cases commit with
      | block hash => exact ⟨hash, earlier, rfl⟩
      | snapshot base seconds => cases top

theorem StorageHandler.get_stamp {storage : StorageHandler} {kind : PointKind}
    {entry : TimestampEntry}
    (cell : storage.db.view (TimestampsKV.encodeKey kind) = .ok (some (encode entry))) :
    (storage.reader Timestamp.latest).get TimestampsKV kind = .ok (some entry) := by
  have read : storage.db.get Timestamp.latest (TimestampsKV.encodeKey kind) = _ := cell
  simp only [Reader.get, StorageHandler.reader, read, IndexingTask.decodeCell, bind, Except.bind,
    decodeAll_encode entry trivial, liftDecoding, pure, Except.pure]

theorem asRocksTs_fromU64 (ts : RocksTs) : (Timestamp.fromU64 (BitVec.ofFin ts)).asRocksTs = ts := by
  rw [Timestamp.asRocksTs, Timestamp.asU64_fromU64]

/-- A reader is never below the horizon, unless the block of the stored snapshot was indexed
again after it. -/
theorem Horizoned.reader_iff {indexed : List IndexCommit} {storage : StorageHandler}
    (entries : Horizoned indexed storage.db) (formatUtc : Nat → Option String) :
    (∀ mempool reader info, Serve.startReader formatUtc storage mempool = .ok (reader, info) →
      storage.db.fullHistoryTsLow ≤ reader.timestamp.asRocksTs) ↔
        ¬ IndexCommit.Reindexed formatUtc indexed := by
  constructor
  · intro above reindexed
    cases indexed with
    | nil => cases reindexed
    | cons commit earlier =>
        cases commit with
        | snapshot base seconds => cases reindexed
        | block hash =>
            rcases reindexed with ⟨seconds, last, text, formatted⟩
            rcases entries.confirmed with ⟨none, _⟩ | ⟨top, height, same, stored⟩
            · cases none
            rcases entries.mempool with ⟨none, _⟩ |
              ⟨base, seconds', height', ts, same', stored', _, order⟩
            · exact absurd (last.symm.trans none) (by simp)
            obtain ⟨rfl, rfl⟩ : hash = base ∧ seconds = seconds' := by
              have equal := last.symm.trans same'
              simpa using equal
            obtain rfl : hash = top := Option.some.inj same
            have one := StorageHandler.get_stamp stored
            have two := StorageHandler.get_stamp stored'
            have chosen : ∃ info, Serve.startReader formatUtc storage true =
                .ok (storage.reader (Timestamp.fromU64 (BitVec.ofFin ts)), info) := by
              simp only [Serve.startReader, Serve.getExpected, Serve.getMaybe, one, two, bind,
                Except.bind, pure, Except.pure, if_true, ne_eq, not_true, if_false,
                Serve.mempoolTimestamp, formatted, Except.map]
              exact ⟨_, rfl⟩
            rcases chosen with ⟨info, success⟩
            have reached := above true _ info success
            rw [StorageHandler.reader, asRocksTs_fromU64] at reached
            exact absurd (order.mpr rfl) (not_lt.mpr reached)
  · intro fresh mempool reader info success
    rcases Serve.startReader_cases success with
      ⟨confirmed, read, _, ⟨rfl, _⟩ | ⟨snapshot, asked, read', tip, rfl, _⟩⟩
    · rcases entries.confirmed with ⟨_, absent⟩ | ⟨hash, height, _, stored⟩
      · have none : IndexingTask.decodeCell (.ok none) = .ok (some confirmed) := absent ▸ read
        cases none
      · have same := (StorageHandler.get_stamp stored).symm.trans read
        simp only [Except.ok.injEq, Option.some.injEq] at same
        rw [← same, StorageHandler.reader, asRocksTs_fromU64]
    · by_contra below
      rcases entries.mempool with ⟨_, absent⟩ | ⟨base, seconds, height, ts, last, stored, _, order⟩
      · have none : IndexingTask.decodeCell (.ok none) = .ok (some snapshot) := absent ▸ read'
        cases none
      · have two := StorageHandler.get_stamp stored
        obtain rfl : _ = snapshot := Option.some.inj (Except.ok.inj (two.symm.trans read'))
        rw [StorageHandler.reader, asRocksTs_fromU64, not_le] at below
        rcases IndexCommit.lastBlock_of_blockOnTop (order.mp below) with ⟨hash, earlier, rfl⟩
        rcases entries.confirmed with ⟨none, _⟩ | ⟨top, level, same, stored'⟩
        · cases none
        · obtain rfl : hash = top := Option.some.inj same
          have one := StorageHandler.get_stamp stored'
          obtain rfl : _ = confirmed := Option.some.inj (Except.ok.inj (one.symm.trans read))
          obtain rfl : base = hash := tip
          refine fresh ⟨seconds, last, ?_⟩
          cases formatted : Serve.formatTimestamp formatUtc seconds with
          | ok text => exact ⟨text, rfl⟩
          | error failure =>
              obtain rfl : mempool = true := asked
              simp only [Serve.startReader, Serve.getExpected, Serve.getMaybe, one, two, bind,
                Except.bind, pure, Except.pure, if_true, ne_eq, not_true, if_false,
                Serve.mempoolTimestamp, formatted, Except.map] at success
              cases success

/-- Between two commits of any run, every reader is at or above the horizon, unless the newest
confirmed commit indexed again the block that the stored snapshot is built on. -/
theorem reader_above_horizon_iff (blockHash : Header → BlockHash) (config : Config)
    (indexers : List Indexer) (stage : Stage) (events : List (Env × ChainEvent))
    (formatUtc : Nat → Option String) (storage : StorageHandler)
    (fresh : Stage.new config (StorageHandler.openDb DB.empty) = .ok stage)
    (valid : ∀ event ∈ events, event.2.Valid (HashedBy blockHash))
    (reached : ((Machine.bootstrap indexers stage).run events).Shows storage)
    (increasing : Increasing storage.db.log) :
    (∀ mempool reader info, Serve.startReader formatUtc storage mempool = .ok (reader, info) →
      storage.db.fullHistoryTsLow ≤ reader.timestamp.asRocksTs) ↔
        ¬ IndexCommit.Reindexed formatUtc ((Machine.bootstrap indexers stage).commits events) := by
  rw [Stage.new_empty, Except.ok.injEq] at fresh
  subst fresh
  have before : Increasing
      ((Machine.bootstrap indexers (Stage.empty config)).run events).stage.db.db.log := by
    cases reached with
    | left => exact increasing
    | undone env stage undoing =>
        rcases Stage.rollbackToPoint_ok undoing with ⟨_, db, _, wrote, rfl⟩
        rw [(StorageHandler.commit_committed wrote).log] at increasing
        exact VersionedLog.increasing_left increasing
  have horizon := stageHorizon_run config indexers events valid before
  exact (horizon.shows reached increasing).reader_iff formatUtc

/-- Blocks one and two and a snapshot on block two, which is then undone and indexed again. -/
def reindexEvents : List (Env × ChainEvent) :=
  let tip : Point := ⟨2, hashOf 2⟩
  [(acceptAt 5, .rollForward ⟨1, hashOf 1⟩ ⟨hashOf 0, [1]⟩ [] tip),
    (acceptAt 7, .rollForward ⟨2, hashOf 2⟩ ⟨hashOf 1, [2]⟩ [] tip),
    (acceptAt 9, .mempoolBlocks ⟨0, hashOf 2⟩ [[]]),
    (acceptAt 11, .rollBack ⟨1, hashOf 1⟩),
    (acceptAt 13, .rollForward ⟨2, hashOf 2⟩ ⟨hashOf 1, [2]⟩ [] tip)]

def reindexing (count : Nat) : Machine :=
  (Machine.bootstrap [] (Stage.empty byteConfig)).run (reindexEvents.take count)

theorem not_reindexed_snapshot : ¬ IndexCommit.Reindexed epochOnly
    ((Machine.bootstrap [] (Stage.empty byteConfig)).commits (reindexEvents.take 3)) := by
  have commits : (Machine.bootstrap [] (Stage.empty byteConfig)).commits (reindexEvents.take 3) =
      [.snapshot (hashOf 2) 0, .block (hashOf 2), .block (hashOf 1)] := by decide +kernel
  rw [commits]
  intro reindexed
  cases reindexed

/-- While the snapshot is the newest commit, readers are above the horizon. -/
theorem reader_above_horizon_snapshot :
    Increasing (reindexing 3).stage.db.db.log ∧
      ∀ mempool reader info,
        Serve.startReader epochOnly (reindexing 3).stage.db mempool = .ok (reader, info) →
          (reindexing 3).stage.db.db.fullHistoryTsLow ≤ reader.timestamp.asRocksTs :=
  ⟨by decide +kernel, (reader_above_horizon_iff byteHash byteConfig [] (Stage.empty byteConfig)
    (reindexEvents.take 3) epochOnly (reindexing 3).stage.db (Stage.new_empty byteConfig) (by decide)
    .left (by decide +kernel)).mpr not_reindexed_snapshot⟩

/-- Block two is indexed again, and the snapshot of before is taken for one on the new tip. -/
theorem reader_below_horizon :
    (∀ event ∈ reindexEvents, event.2.Valid (HashedBy byteHash)) ∧
      Increasing (reindexing 5).stage.db.db.log ∧
      ∃ reader info, Serve.startReader epochOnly (reindexing 5).stage.db true = .ok (reader, info) ∧
        reader.timestamp.asRocksTs < (reindexing 5).stage.db.db.fullHistoryTsLow :=
  ⟨by decide, by decide +kernel, _, _, rfl, by decide +kernel⟩

end Symphony
