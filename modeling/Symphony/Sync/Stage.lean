import Symphony.Sync.Context
import Symphony.Sync.RollbackBuffer

/-! The index stage (`worker/stage.rs`).

A call of `Worker::execute` gives the state it leaves behind together with its result: an
error returned after a commit keeps that commit. -/

namespace Symphony

open Encdec

inductive WorkerError where
  | panic
  | restart
  | unwound (message : String)
  deriving DecidableEq, Repr

def orElse {α : Type} (result : Except Error α) (failure : WorkerError) : Except WorkerError α :=
  match result with
  | .ok value => .ok value
  | .error (.panicked message) => .error (.unwound message)
  | .error _ => .error failure

def orPanic {α : Type} (result : Except Error α) : Except WorkerError α := orElse result .panic

def orRestart {α : Type} (result : Except Error α) : Except WorkerError α :=
  orElse result .restart

/-- The environment of one call: clock readings and RocksDB's answers for its at most two
commits, and which cache entries are still there when inputs are resolved. -/
structure Env where
  undoNow : U64
  undoAccepted : Bool
  commitNow : U64
  commitAccepted : Bool
  cached : TxoRef → Bool

structure Stage where
  db : StorageHandler
  network : Network
  rollbackBuffer : RollbackBuffer
  maxRollbacks : U64
  lastProcessed : Point
  processedMempool : Bool
  utxoCache : Option UtxoCache

def undoOp (key : RawKey) (original : PreviousValue) : WriteOp :=
  match original with
  | .present prev => .put key prev
  | .notPresent => .delete key

def rollbackKey (point : Point) (key : RawKey) : RawKey :=
  RollbackBufferKV.encodeKey ⟨point.height, point.hash, key⟩

/-- The inverse actions of one block, with the removal of their persisted entries. -/
def PointWithOriginalKVs.undoOps (block : PointWithOriginalKVs) : List WriteOp :=
  block.originalKvs.entries.flatMap (fun entry =>
    [undoOp entry.1 entry.2, .delete (rollbackKey block.point entry.1)])

namespace Stage

def rollbackToPoint (stage : Stage) (now : U64) (accepted : Bool) (rbPoint : Point) :
    Except WorkerError Stage := do
  let blocksToUndo ← orPanic (stage.rollbackBuffer.pointsSince rbPoint)
  let db ← orRestart (stage.db.commit now accepted
    (fun _ => blocksToUndo.flatMap PointWithOriginalKVs.undoOps))
  let (_, rollbackBuffer) ← orPanic (stage.rollbackBuffer.rollbackToPoint rbPoint)
  return { stage with db, rollbackBuffer, lastProcessed := rbPoint, processedMempool := false }

end Stage

def runIndexers (tx : TransactionWithId) (blockIndex : Nat) (task : IndexingTask)
    (ctx : IndexingContext) : List Indexer → Except Error (IndexingTask × IndexingContext)
  | [] => .ok (task, ctx)
  | indexer :: indexers => match (indexer tx blockIndex ctx.toTxContext).run task ctx with
      | .error failure => .error failure
      | .ok (_, task, ctx) => runIndexers tx blockIndex task ctx indexers

def indexTxs (indexers : List Indexer) (task : IndexingTask) (ctx : IndexingContext)
    (cache : Option UtxoCache) :
    List (TransactionWithId × Nat) → Option UtxoCache × Except Error (IndexingTask × IndexingContext)
  | [] => (cache, .ok (task, ctx))
  | (tx, blockIndex) :: txs => match runIndexers tx blockIndex task ctx indexers with
      | .error failure => (cache, .error failure)
      | .ok (task, ctx) => match ctx.updateUtxoSet task tx cache with
          | (cache, .error failure) => (cache, .error failure)
          | (cache, .ok (ctx, task)) => indexTxs indexers task ctx cache txs

def setInfo (task : IndexingTask) (point : Point) (mempool : Bool) : Except Error IndexingTask :=
  task.set IndexerInfoKV () ⟨point.height, point.hash, mempool⟩

def indexBlock (indexers : List Indexer) (task : IndexingTask) (point : Point) (txs : BlockTxs)
    (network : Network) (cache : Option UtxoCache) : Option UtxoCache × Except Error FinalizedTask :=
  match IndexingContext.new task txs point network cache with
  | (cache, .error failure) => (cache, .error failure)
  | (cache, .ok ctx) => match indexTxs indexers task ctx cache txs.zipIdx with
      | (cache, .error failure) => (cache, .error failure)
      | (cache, .ok (task, _)) => (cache, do
          let task ← setInfo task point false
          let task ← task.set HashByHeightKV point.height point.hash
          return task.finalize)

/-- The pseudo blocks of a mempool snapshot, heights counting up from the tip. -/
def indexPseudoBlocks (indexers : List Indexer) (tip : Point) (task : IndexingTask)
    (ctx : IndexingContext) (cache : Option UtxoCache) :
    List (BlockTxs × Nat) → Option UtxoCache × Except Error (IndexingTask × IndexingContext)
  | [] => (cache, .ok (task, ctx))
  | (txs, index) :: blocks =>
      let pseudoPoint : Point := ⟨tip.height + 1 + BitVec.ofNat 64 index, tip.hash⟩
      match indexTxs indexers task (ctx.updatePoint pseudoPoint) cache txs.zipIdx with
      | (cache, .error failure) => (cache, .error failure)
      | (cache, .ok (task, ctx)) => match setInfo task pseudoPoint true with
          | .error failure => (cache, .error failure)
          | .ok task => indexPseudoBlocks indexers tip task ctx cache blocks

def indexMempool (indexers : List Indexer) (task : IndexingTask) (tip : Point)
    (blocks : List BlockTxs) (network : Network) (cache : Option UtxoCache) :
    Option UtxoCache × Except Error FinalizedTask :=
  match IndexingContext.new task blocks.flatten tip network cache with
  | (cache, .error failure) => (cache, .error failure)
  | (cache, .ok ctx) =>
      let (cache, indexed) := indexPseudoBlocks indexers tip task ctx cache blocks.zipIdx
      (cache, indexed.map (fun (task, _) => task.finalize))

structure Worker where
  indexers : List Indexer
  mutable : Bool

/-- The state of the stage and its worker between two calls. -/
structure Machine where
  worker : Worker
  stage : Stage

abbrev Outcome := Machine × Except WorkerError Unit

namespace Machine

/-- What is left of the UTXO cache when a call resolves its inputs. -/
def liveCache (machine : Machine) (env : Env) : Option UtxoCache :=
  machine.stage.utxoCache.map (fun cache =>
    (cache.keys.filter (fun ref => !env.cached ref)).foldl (fun c ref => c.erase ref) cache)

def undoMempool (stage : Stage) (env : Env) : Except WorkerError Stage :=
  if stage.processedMempool then
    stage.rollbackToPoint env.undoNow env.undoAccepted stage.lastProcessed
  else .ok stage

/-- The part of a roll forward after the mempool blocks have been undone. -/
def indexForward (machine : Machine) (env : Env) (point : Point) (txs : BlockTxs) (tip : Point) :
    Outcome :=
  let stage := machine.stage
  let worker := { machine.worker with
    mutable := machine.worker.mutable ||
      decide (saturatingSub tip.height stage.maxRollbacks < point.height) }
  let task := stage.db.beginIndexingTask worker.mutable
  let (cache, indexed) := indexBlock worker.indexers task point txs stage.network
    (machine.liveCache env)
  let stage := { stage with utxoCache := cache }
  match orRestart indexed with
  | .error failure => (⟨worker, stage⟩, .error failure)
  | .ok task => match orRestart (stage.db.applyIndexingTask env.commitNow env.commitAccepted task
        point stage.maxRollbacks none) with
      | .error failure => (⟨worker, stage⟩, .error failure)
      | .ok db => (⟨worker, { stage with
          db
          lastProcessed := point
          rollbackBuffer := match task.originalKvs with
            | some kvs => stage.rollbackBuffer.addBlock point kvs
            | none => stage.rollbackBuffer }⟩, .ok ())

def rollForward (machine : Machine) (env : Env) (point : Point) (header : Header) (txs : BlockTxs)
    (tip : Point) : Outcome :=
  match undoMempool machine.stage env with
  | .error failure => (machine, .error failure)
  | .ok stage =>
      let machine := { machine with stage }
      let expectedHeight := stage.lastProcessed.height + 1
      if point.height < expectedHeight then (machine, .ok ())
      else if expectedHeight < point.height then (machine, .error .panic)
      else if header.prevBlockhash ≠ stage.lastProcessed.hash then (machine, .error .panic)
      else machine.indexForward env point txs tip

def rollBack (machine : Machine) (env : Env) (rbPoint : Point) : Outcome :=
  match machine.stage.rollbackToPoint env.undoNow env.undoAccepted rbPoint with
  | .error failure => (machine, .error failure)
  | .ok stage => ({ machine with stage }, .ok ())

def mempoolPoint (tip : Point) : Point := ⟨u64Max, tip.hash⟩

def indexSnapshot (machine : Machine) (env : Env) (info : MempoolSnapshotInfo)
    (blocks : List BlockTxs) : Outcome :=
  let stage := machine.stage
  let task := stage.db.beginMempoolIndexingTask
  let (cache, indexed) := indexMempool machine.worker.indexers task stage.lastProcessed blocks
    stage.network (machine.liveCache env)
  let stage := { stage with utxoCache := cache }
  let pseudoPoint : Point :=
    ⟨stage.lastProcessed.height + BitVec.ofNat 64 blocks.length, stage.lastProcessed.hash⟩
  match orRestart indexed with
  | .error failure => ({ machine with stage }, .error failure)
  | .ok task => match orRestart (stage.db.applyIndexingTask env.commitNow env.commitAccepted task
        pseudoPoint stage.maxRollbacks (some info.timestamp)) with
      | .error failure => ({ machine with stage }, .error failure)
      | .ok db => ({ machine with stage := { stage with
          db
          processedMempool := true
          rollbackBuffer := match task.originalKvs with
            | some kvs => stage.rollbackBuffer.addBlock (mempoolPoint stage.lastProcessed) kvs
            | none => stage.rollbackBuffer } }, .ok ())

/-- Undo the blocks of an earlier snapshot, if the buffer holds any above the tip. -/
def undoSnapshot (stage : Stage) (env : Env) : Except WorkerError Stage :=
  let trueTip := stage.lastProcessed
  match orPanic (stage.rollbackBuffer.pointsSince trueTip) with
  | .error failure => .error failure
  | .ok blocksToUndo =>
      if blocksToUndo.isEmpty then .ok stage
      else stage.rollbackToPoint env.undoNow env.undoAccepted trueTip

def mempoolBlocks (machine : Machine) (env : Env) (info : MempoolSnapshotInfo)
    (blocks : List BlockTxs) : Outcome :=
  match undoSnapshot machine.stage env with
  | .error failure => (machine, .error failure)
  | .ok stage =>
      let machine := { machine with stage }
      if info.tip ≠ stage.lastProcessed.hash then (machine, .ok ())
      else machine.indexSnapshot env info blocks

def execute (machine : Machine) (env : Env) (event : ChainEvent) : Outcome :=
  match event with
  | .rollForward point header txs tip => machine.rollForward env point header txs tip
  | .rollBack rbPoint => machine.rollBack env rbPoint
  | .mempoolBlocks info blocks => machine.mempoolBlocks env info blocks

def run (machine : Machine) (events : List (Env × ChainEvent)) : Machine :=
  events.foldl (fun current event => (current.execute event.1 event.2).1) machine

end Machine

structure Config where
  network : Network
  genesisHash : BlockHash
  maxRollback : Option Nat
  safeMode : Option Bool
  utxoCache : Bool

def Config.maxRollbacks (config : Config) : Nat := config.maxRollback.getD defaultMaxRollback

def Point.genesis (config : Config) : Point := ⟨0, config.genesisHash⟩

namespace Stage

/-- The consistency assertions made when a stage is rebuilt. -/
def startAssertions (rollbackBuffer : RollbackBuffer) (lastProcessed : Point)
    (info : Option IndexerInfo) : Bool :=
  match info, rollbackBuffer.latest with
  | some info, some rbbufLatest =>
      let infoCursor : Point := ⟨info.lastPointHeight, info.lastPointHash⟩
      if info.mempool then
        rbbufLatest.point.hash = infoCursor.hash ∧ rbbufLatest.point.hash = lastProcessed.hash
      else rbbufLatest.point = lastProcessed ∧ rbbufLatest.point = infoCursor
  | _, _ => true

def new (config : Config) (db : StorageHandler) : Except Error Stage := do
  let rollbackBuffer ←
    RollbackBuffer.fetchFromStorage config.maxRollbacks (config.safeMode.getD false) db
  let storage := db.reader Timestamp.latest
  let range := HashByHeightKV.encodeRange none none
  let lastProcessed ← match (storage.iterKvs HashByHeightKV range true).head? with
    | some item => do
        let (height, hash) ← item
        .ok (⟨height, hash⟩ : Point)
    | none => .ok (Point.genesis config)
  let info ← storage.get IndexerInfoKV ()
  let processedMempool := (info.map IndexerInfo.mempool).getD false
  if startAssertions rollbackBuffer lastProcessed info then
    return {
      db
      network := config.network
      rollbackBuffer
      maxRollbacks := BitVec.ofNat 64 config.maxRollbacks
      lastProcessed
      processedMempool
      utxoCache := if config.utxoCache then some ∅ else none }
  else .error (.panicked "rollback buffer does not match the indexed chain")

end Stage

/-- `Worker::bootstrap` on a stage. -/
def Machine.bootstrap (indexers : List Indexer) (stage : Stage) : Machine :=
  ⟨⟨indexers, !stage.rollbackBuffer.isEmpty⟩, stage⟩

end Symphony
