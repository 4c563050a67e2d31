import Symphony.Proof.UtxoExact
import Symphony.Sync.CacheSpec

/-! The UTXO cache is transparent: with it, and whatever is evicted from it, the stage gives the
results and the database it gives without it. -/

namespace Symphony

open Encdec
open UndoLog (Agree)
open VersionedLog (Increasing)

def Stage.uncached (stage : Stage) : Stage := { stage with utxoCache := none }

def Machine.uncached (machine : Machine) : Machine := { machine with stage := machine.stage.uncached }

def uncachedOutcome (outcome : Outcome) : Outcome := (outcome.1.uncached, outcome.2)

@[simp]
theorem uncachedOutcome_tip (outcome : Outcome) :
    (uncachedOutcome outcome).1.stage.lastProcessed = outcome.1.stage.lastProcessed := rfl

@[simp]
theorem uncachedOutcome_db (outcome : Outcome) :
    (uncachedOutcome outcome).1.stage.db = outcome.1.stage.db := rfl

@[simp]
theorem Machine.uncached_tip (machine : Machine) :
    machine.uncached.stage.lastProcessed = machine.stage.lastProcessed := rfl

section Commutes

theorem Stage.rollbackToPoint_uncached (stage : Stage) (now : U64) (accepted : Bool)
    (rbPoint : Point) :
    stage.uncached.rollbackToPoint now accepted rbPoint =
      (stage.rollbackToPoint now accepted rbPoint).map Stage.uncached := by
  simp only [rollbackToPoint, uncached, bind, Except.bind, pure, Except.pure]
  cases orPanic (stage.rollbackBuffer.pointsSince rbPoint) with
  | error failure => rfl
  | ok blocks =>
      simp only
      cases orRestart (stage.db.commit now accepted
          (fun _ => blocks.flatMap PointWithOriginalKVs.undoOps)) with
      | error failure => rfl
      | ok db =>
          simp only
          cases orPanic (stage.rollbackBuffer.rollbackToPoint rbPoint) with
          | error failure => rfl
          | ok rest => rfl

namespace Machine

theorem undoMempool_uncached (stage : Stage) (env : Env) :
    undoMempool stage.uncached env = (undoMempool stage env).map Stage.uncached := by
  simp only [undoMempool]
  rw [show stage.uncached.processedMempool = stage.processedMempool from rfl]
  split
  · exact stage.rollbackToPoint_uncached _ _ _
  · rfl

theorem undoSnapshot_uncached (stage : Stage) (env : Env) :
    undoSnapshot stage.uncached env = (undoSnapshot stage env).map Stage.uncached := by
  have rolled := stage.rollbackToPoint_uncached env.undoNow env.undoAccepted stage.lastProcessed
  simp only [undoSnapshot]
  rw [show stage.uncached.rollbackBuffer = stage.rollbackBuffer from rfl,
    show stage.uncached.lastProcessed = stage.lastProcessed from rfl]
  cases orPanic (stage.rollbackBuffer.pointsSince stage.lastProcessed) with
  | error failure => rfl
  | ok blocks =>
      simp only
      split
      · rfl
      · exact rolled

theorem undoMempool_cache {stage after : Stage} {env : Env}
    (success : undoMempool stage env = .ok after) : after.utxoCache = stage.utxoCache := by
  rcases undoMempool_cases success with ⟨_, rfl⟩ | ⟨_, undone⟩
  · rfl
  · rcases Stage.rollbackToPoint_ok undone with ⟨_, _, _, _, rfl⟩
    rfl

theorem undoSnapshot_cache {stage after : Stage} {env : Env}
    (success : undoSnapshot stage env = .ok after) : after.utxoCache = stage.utxoCache := by
  rcases undoSnapshot_cases success with ⟨_, rfl⟩ | undone
  · rfl
  · rcases Stage.rollbackToPoint_ok undone with ⟨_, _, _, _, rfl⟩
    rfl

def forwardOutcome (machine : Machine) (env : Env) (point tip : Point) (cache : Option UtxoCache)
    (indexed : Except Error FinalizedTask) : Outcome :=
  let worker := { machine.worker with mutable := machine.mutableAt point tip }
  let stage := { machine.stage with utxoCache := cache }
  match orRestart indexed with
  | .error failure => (⟨worker, stage⟩, .error failure)
  | .ok task => match orRestart (stage.db.applyIndexingTask env.commitNow env.commitAccepted task
        point stage.maxRollbacks none) with
      | .error failure => (⟨worker, stage⟩, .error failure)
      | .ok db => (⟨worker, { stage with
          db
          lastProcessed := point
          rollbackBuffer := match task.originalKvs with
            | some kvs => stage.rollbackBuffer.addBlock point kvs
            | none => stage.rollbackBuffer }⟩, .ok ())

theorem indexForward_eq {machine : Machine} {env : Env} {point tip : Point} {txs : BlockTxs}
    {cache : Option UtxoCache} {indexed : Except Error FinalizedTask}
    (result : indexBlock machine.worker.indexers
      (machine.stage.db.beginIndexingTask (machine.mutableAt point tip)) point txs
      machine.stage.network (machine.liveCache env) = (cache, indexed)) :
    machine.indexForward env point txs tip =
      machine.forwardOutcome env point tip cache indexed := by
  rw [mutableAt] at result
  simp only [indexForward, result]
  rfl

theorem forwardOutcome_uncached (machine : Machine) (env : Env) (point tip : Point)
    (cache : Option UtxoCache) (indexed : Except Error FinalizedTask) :
    machine.uncached.forwardOutcome env point tip none indexed =
      uncachedOutcome (machine.forwardOutcome env point tip cache indexed) := by
  simp only [forwardOutcome, uncached, Stage.uncached, uncachedOutcome]
  cases orRestart indexed with
  | error failure => rfl
  | ok task =>
      simp only
      cases orRestart (machine.stage.db.applyIndexingTask env.commitNow env.commitAccepted task point
        machine.stage.maxRollbacks none) with
      | error failure => rfl
      | ok db => rfl

theorem indexForward_uncached (machine : Machine) (env : Env) (point : Point) (txs : BlockTxs)
    (tip : Point)
    (same : (indexBlock machine.worker.indexers
        (machine.stage.db.beginIndexingTask (machine.mutableAt point tip)) point txs
        machine.stage.network none).2 =
      (indexBlock machine.worker.indexers
        (machine.stage.db.beginIndexingTask (machine.mutableAt point tip)) point txs
        machine.stage.network (machine.liveCache env)).2) :
    machine.uncached.indexForward env point txs tip =
      uncachedOutcome (machine.indexForward env point txs tip) := by
  rcases cached : indexBlock machine.worker.indexers
    (machine.stage.db.beginIndexingTask (machine.mutableAt point tip)) point txs
    machine.stage.network (machine.liveCache env) with ⟨cache, indexed⟩
  rw [cached] at same
  have plain : indexBlock machine.worker.indexers
      (machine.stage.db.beginIndexingTask (machine.mutableAt point tip)) point txs
      machine.stage.network none = (none, indexed) :=
    Prod.ext (indexBlock_uncached _ _ _ _ _) same
  calc machine.uncached.indexForward env point txs tip
      = machine.uncached.forwardOutcome env point tip none indexed := indexForward_eq plain
    _ = uncachedOutcome (machine.forwardOutcome env point tip cache indexed) :=
        machine.forwardOutcome_uncached env point tip cache indexed
    _ = uncachedOutcome (machine.indexForward env point txs tip) := by
        rw [indexForward_eq cached]

def snapshotOutcome (machine : Machine) (env : Env) (info : MempoolSnapshotInfo)
    (blocks : List BlockTxs) (cache : Option UtxoCache) (indexed : Except Error FinalizedTask) :
    Outcome :=
  let stage := { machine.stage with utxoCache := cache }
  let pseudoPoint : Point :=
    ⟨stage.lastProcessed.height + BitVec.ofNat 64 blocks.length, stage.lastProcessed.hash⟩
  match orRestart indexed with
  | .error failure => ({ machine with stage }, .error failure)
  | .ok task => match orRestart (stage.db.applyIndexingTask env.commitNow env.commitAccepted task
        pseudoPoint stage.maxRollbacks (some info.timestamp)) with
      | .error failure => ({ machine with stage }, .error failure)
      | .ok db => ({ machine with stage := { stage with
          db
          processedMempool := true
          rollbackBuffer := match task.originalKvs with
            | some kvs => stage.rollbackBuffer.addBlock (mempoolPoint stage.lastProcessed) kvs
            | none => stage.rollbackBuffer } }, .ok ())

theorem indexSnapshot_eq {machine : Machine} {env : Env} {info : MempoolSnapshotInfo}
    {blocks : List BlockTxs} {cache : Option UtxoCache} {indexed : Except Error FinalizedTask}
    (result : indexMempool machine.worker.indexers machine.stage.db.beginMempoolIndexingTask
      machine.stage.lastProcessed blocks machine.stage.network (machine.liveCache env) =
        (cache, indexed)) :
    machine.indexSnapshot env info blocks =
      machine.snapshotOutcome env info blocks cache indexed := by
  simp only [indexSnapshot, result]
  rfl

theorem snapshotOutcome_uncached (machine : Machine) (env : Env) (info : MempoolSnapshotInfo)
    (blocks : List BlockTxs) (cache : Option UtxoCache) (indexed : Except Error FinalizedTask) :
    machine.uncached.snapshotOutcome env info blocks none indexed =
      uncachedOutcome (machine.snapshotOutcome env info blocks cache indexed) := by
  simp only [snapshotOutcome, uncached, Stage.uncached, uncachedOutcome]
  cases orRestart indexed with
  | error failure => rfl
  | ok task =>
      simp only
      cases orRestart (machine.stage.db.applyIndexingTask env.commitNow env.commitAccepted task
        ⟨machine.stage.lastProcessed.height + BitVec.ofNat 64 blocks.length,
          machine.stage.lastProcessed.hash⟩ machine.stage.maxRollbacks (some info.timestamp)) with
      | error failure => rfl
      | ok db => rfl

theorem indexSnapshot_uncached (machine : Machine) (env : Env) (info : MempoolSnapshotInfo)
    (blocks : List BlockTxs)
    (same : (indexMempool machine.worker.indexers machine.stage.db.beginMempoolIndexingTask
        machine.stage.lastProcessed blocks machine.stage.network none).2 =
      (indexMempool machine.worker.indexers machine.stage.db.beginMempoolIndexingTask
        machine.stage.lastProcessed blocks machine.stage.network (machine.liveCache env)).2) :
    machine.uncached.indexSnapshot env info blocks =
      uncachedOutcome (machine.indexSnapshot env info blocks) := by
  rcases cached : indexMempool machine.worker.indexers machine.stage.db.beginMempoolIndexingTask
    machine.stage.lastProcessed blocks machine.stage.network (machine.liveCache env) with
    ⟨cache, indexed⟩
  rw [cached] at same
  have plain : indexMempool machine.worker.indexers machine.stage.db.beginMempoolIndexingTask
      machine.stage.lastProcessed blocks machine.stage.network none = (none, indexed) :=
    Prod.ext (indexMempool_uncached _ _ _ _ _) same
  calc machine.uncached.indexSnapshot env info blocks
      = machine.uncached.snapshotOutcome env info blocks none indexed := indexSnapshot_eq plain
    _ = uncachedOutcome (machine.snapshotOutcome env info blocks cache indexed) :=
        machine.snapshotOutcome_uncached env info blocks cache indexed
    _ = uncachedOutcome (machine.indexSnapshot env info blocks) := by
        rw [indexSnapshot_eq cached]

end Machine

end Commutes

section Sets

theorem Stores.unique {read : RawKey → Cell} {set other : UtxoSet} (stores : Stores read set)
    (stores' : Stores read other) : set = other := by
  funext ref
  have entries := (stores.entry ref).symm.trans (stores'.entry ref)
  rw [Except.ok.injEq] at entries
  cases live : set ref with
  | none =>
      rw [live, Option.map_none] at entries
      exact (Option.map_eq_none_iff.mp entries.symm).symm
  | some utxo =>
      rw [live, Option.map_some] at entries
      rcases Option.map_eq_some_iff.mp entries.symm with ⟨utxo', live', same⟩
      rw [live', encode_injective (stores'.fits ref utxo' live') (stores.fits ref utxo live) same]

theorem ValidOn.extended {block : IndexedBlock} {chain : List IndexedBlock}
    (sound : ValidOn true chain block.txs) : History.Valid ⟨block :: chain, []⟩ := by
  refine ⟨?_, ⟨?_, sound.base.confirmed⟩, trivial⟩
  · simp only [History.blocks, List.nil_append, List.flatMap_cons]
    exact sound.distinct
  · rw [List.append_nil]
    exact sound.valid

theorem ValidOn.unknown {coinbase : Bool} {chain : List IndexedBlock} {txs : BlockTxs}
    (sound : ValidOn coinbase chain txs) (depth : Nat) {ref : TxoRef}
    (live : (unspent (chain.drop depth) ref).isSome) :
    ref.txHash ∉ txs.map TransactionWithId.txId := by
  intro named
  have below := txHash_mem_of_unspent live
  have listed : ref.txHash ∈ chain.flatMap IndexedBlock.txIds := by
    rcases List.mem_flatMap.mp below with ⟨block, member, inside⟩
    exact List.mem_flatMap.mpr ⟨block, List.mem_of_mem_drop member, inside⟩
  exact (List.nodup_append.mp sound.distinct).2.2 _ named _ listed rfl

theorem liveCache_from (machine : Machine) (env : Env) (ids : List Txid) :
    CacheFrom ids machine.stage.utxoCache (machine.liveCache env) := by
  intro held same ref utxo found
  rcases Option.map_eq_some_iff.mp same with ⟨old, kept, rfl⟩
  refine Or.inl ⟨old, kept, ?_⟩
  have erased (refs : List TxoRef) (cache : UtxoCache)
      (found : (refs.foldl (fun c ref => c.erase ref) cache).lookup ref = some utxo) :
      cache.lookup ref = some utxo := by
    induction refs generalizing cache with
    | nil => exact found
    | cons first refs ih =>
        have inner := ih _ found
        by_cases same : ref = first
        · rw [same, AList.lookup_erase] at inner
          cases inner
        · rwa [AList.lookup_erase_ne same] at inner
  exact erased _ _ found

end Sets

/-- What the cache holds is right for the chain and for every chain below it. -/
def SoundlyCached (confirmed : List IndexedBlock) (cache : Option UtxoCache) : Prop :=
  ∀ depth, CacheSound (unspent (confirmed.drop depth)) cache

section Soundness

variable {confirmed : List IndexedBlock} {cache grown : Option UtxoCache}

theorem SoundlyCached.drop (sound : SoundlyCached confirmed cache) (depth : Nat) :
    SoundlyCached (confirmed.drop depth) cache := by
  intro deeper
  rw [List.drop_drop]
  exact sound _

theorem SoundlyCached.from {ids : List Txid} (sound : SoundlyCached confirmed cache)
    (from' : CacheFrom ids cache grown)
    (unknown : ∀ depth ref, (unspent (confirmed.drop depth) ref).isSome → ref.txHash ∉ ids) :
    SoundlyCached confirmed grown := by
  intro depth
  exact (sound depth).from from' (unknown depth)

theorem SoundlyCached.shrunk (sound : SoundlyCached confirmed cache)
    (from' : CacheFrom [] cache grown) : SoundlyCached confirmed grown := by
  apply sound.from from'
  intro _ _ _ impossible
  cases impossible

theorem SoundlyCached.pushed {block : IndexedBlock} (sound : SoundlyCached confirmed cache)
    (top : CacheSound (unspent (block :: confirmed)) cache) :
    SoundlyCached (block :: confirmed) cache := by
  intro depth
  cases depth with
  | zero => exact top
  | succ depth => exact sound depth

end Soundness

section Steps

variable {indexers : List Indexer} {network : Network} {names : Header → Point → Prop}
variable {genesis : BlockHash} {machine : Machine} {history : History} {ledger : List LedgerEntry}

theorem Chronicle.stores
    (chronicle : Chronicle indexers network UtxosIndexed names genesis machine.uncached history ledger)
    (idle : machine.stage.processedMempool = false)
    (valid : History.Valid ⟨history.confirmed, []⟩) :
    Stores machine.stage.db.db.view (unspent history.confirmed) := by
  have now := chronicle.now
  rw [chronicle.confirmed idle] at now
  exact now valid

theorem Chronicle.forward_transparent
    (chronicle : Chronicle indexers network UtxosIndexed names genesis machine.uncached history ledger)
    (idle : machine.stage.processedMempool = false)
    (sound : SoundlyCached history.confirmed machine.stage.utxoCache) {txs : BlockTxs}
    (valid : ValidOn true history.confirmed txs) (env : Env) (point tip : Point) :
    machine.uncached.indexForward env point txs tip =
      uncachedOutcome (machine.indexForward env point txs tip) := by
  apply machine.indexForward_uncached
  have stores := (chronicle.stores idle valid.base).begun chronicle.chain.journal.current
    (show (machine.stage.db.beginIndexingTask (machine.mutableAt point tip)).db = _ from rfl) rfl rfl
  exact indexBlock_transparent machine.worker.indexers point machine.stage.network stores
    ((sound.shrunk (liveCache_from machine env [])) 0) valid.valid

theorem Chronicle.snapshot_transparent
    (chronicle : Chronicle indexers network UtxosIndexed names genesis machine.uncached history ledger)
    (idle : machine.stage.processedMempool = false)
    (sound : SoundlyCached history.confirmed machine.stage.utxoCache) {blocks : List BlockTxs}
    (valid : ValidOn false history.confirmed blocks.flatten) (env : Env)
    (info : MempoolSnapshotInfo) :
    machine.uncached.indexSnapshot env info blocks =
      uncachedOutcome (machine.indexSnapshot env info blocks) := by
  apply machine.indexSnapshot_uncached
  have stores := (chronicle.stores idle valid.base).begun chronicle.chain.journal.current
    (show machine.stage.db.beginMempoolIndexingTask.db = _ from rfl) rfl rfl
  exact indexMempool_transparent machine.worker.indexers _ machine.stage.network stores
    ((sound.shrunk (liveCache_from machine env [])) 0) valid.valid

theorem indexBlock_cached {handler after : StorageHandler} {mutable : Bool} {point : Point}
    {txs : BlockTxs} {cache cache' : Option UtxoCache} {final : FinalizedTask} {now : U64}
    {accepted : Bool} {maxRollback : U64} {confirmed : List IndexedBlock} {set : UtxoSet}
    (stores : Stores handler.db.view (unspent confirmed)) (current : handler.Current)
    (sound : CacheSound (unspent confirmed) cache) (valid : ValidOn true confirmed txs)
    (indexed : indexBlock indexers (handler.beginIndexingTask mutable) point txs network cache =
      (cache', .ok final))
    (applied : handler.applyIndexingTask now accepted final point maxRollback none = .ok after)
    (increasing : Increasing after.db.log) (next : Stores after.db.view set) :
    CacheSound set cache' := by
  rcases indexBlock_run indexed with
    ⟨resolved, ctx, task, inner, informed, hashed, created, ran, info, hash, rfl⟩
  have begun := stores.begun current
    (show (handler.beginIndexingTask mutable).db = handler.db from rfl) rfl rfl
  have split := List.nodup_append.mp valid.distinct
  rcases IndexingContext.new_between point network begun sound valid.valid (by
      intro ref live
      exact valid.unknown 0 live) valid.base.null split.1 with
    ⟨resolved', ctx', created', place, _, between⟩
  obtain ⟨rfl, rfl⟩ : resolved = resolved' ∧ ctx = ctx' := by
    rw [created, Prod.mk.injEq, Except.ok.injEq] at created'
    exact created'
  have kept : CacheReads (handler.beginIndexingTask mutable) resolved := by
    have from' := IndexingContext.new_from [] (handler.beginIndexingTask mutable) txs point network
      cache
    rw [created] at from'
    have still : CacheSound (unspent confirmed) resolved := by
      apply sound.from from'
      intro _ _ impossible
      cases impossible
    exact still.reads begun
  have reads := kept.run rfl ran
  rw [← List.append_nil txs] at between
  have whole := valid.valid
  rw [← List.append_nil txs] at whole
  have settled := (between.run whole ran).1.settled
  -- the info and the hash of the block are no UTXOs
  have writes : IndexingTask.Written IsStageKey task hashed :=
    (Relation.ReflTransGen.single ⟨_, Or.inl (Table.holds_encodeKey _ _),
      IndexingTask.setRaw_touches info⟩ : IndexingTask.Written IsStageKey task informed).tail
      ⟨_, Or.inr (Table.holds_encodeKey _ _), IndexingTask.setRaw_touches hash⟩
  have stored : Stores hashed.getRaw _ := settled.congr (by
    intro key held
    exact writes.getRaw_of_not_allowed key (not_isStageKey_of_utxo held))
  have source := (indexTxs_written ran).sameSource.trans writes.sameSource
  have committed := stored.committed current source.db source.readTs applied increasing
  rw [next.unique committed]
  exact reads.sound settled

theorem Chronicle.forward_sound
    (chronicle : Chronicle indexers network UtxosIndexed names genesis machine.uncached history ledger)
    (idle : machine.stage.processedMempool = false)
    (sound : SoundlyCached history.confirmed machine.stage.utxoCache) {txs : BlockTxs}
    (valid : ValidOn true history.confirmed txs) {env : Env} {point tip : Point} {header : Header}
    (height : point.height = machine.stage.lastProcessed.height + 1)
    (parent : header.prevBlockhash = machine.stage.lastProcessed.hash)
    (hash : names header point) (low : point.height ≠ u64Max)
    (increasing : Increasing (machine.indexForward env point txs tip).1.stage.db.db.log) :
    SoundlyCached
      (if (machine.indexForward env point txs tip).1.stage.lastProcessed =
          machine.stage.lastProcessed then history.confirmed
        else machine.uncached.forwardBlock env point txs tip :: history.confirmed)
      (machine.indexForward env point txs tip).1.stage.utxoCache := by
  have live := sound.shrunk (liveCache_from machine env [])
  have same := chronicle.forward_transparent idle sound valid env point tip
  have from' := indexBlock_from machine.worker.indexers
    (machine.stage.db.beginIndexingTask (machine.mutableAt point tip)) point txs
    machine.stage.network (machine.liveCache env)
  have below := live.from from' (by
    intro depth ref inside
    exact valid.unknown depth inside)
  rw [← machine.indexForward_cache env point txs tip] at below
  split
  · exact below
  · rename_i moved
    apply below.pushed
    rcases machine.indexForward_cases env point txs tip with
      ⟨cache, ⟨failure, result⟩ | ⟨final, db, indexed, applied, result⟩⟩
    · rw [result] at moved
      exact absurd rfl moved
    · have ordered : Increasing (machine.uncached.indexForward env point txs tip).1.stage.db.db.log := by
        rw [same, uncachedOutcome_db]
        exact increasing
      rcases chronicle.forward (utxosIndexed_invariant indexers network) idle height parent hash low
        ordered with ⟨_, next⟩
      have moved' : (machine.uncached.indexForward env point txs tip).1.stage.lastProcessed ≠
          machine.uncached.stage.lastProcessed := by
        rw [same, uncachedOutcome_tip, Machine.uncached_tip]
        exact moved
      have now := next.now
      rw [if_neg moved', same, uncachedOutcome_db] at now
      have block : (machine.uncached.forwardBlock env point txs tip).txs = txs := rfl
      have stores := now (ValidOn.extended (by rw [block]; exact valid))
      rw [result] at stores increasing ⊢
      exact indexBlock_cached (chronicle.stores idle valid.base) chronicle.chain.journal.current
        (live 0) valid indexed applied increasing stores

theorem dropWhile_eq_drop {α : Type} (test : α → Bool) (items : List α) :
    ∃ count, items.dropWhile test = items.drop count := by
  induction items with
  | nil => exact ⟨0, rfl⟩
  | cons first rest ih =>
      rw [List.dropWhile_cons]
      split
      · rcases ih with ⟨count, same⟩
        exact ⟨count + 1, same⟩
      · exact ⟨0, rfl⟩

end Steps

/-- What the event adds to the chain is valid there. -/
def ChainEvent.ValidOn (tip : Point) (history : History) : ChainEvent → Prop
  | .rollForward point header txs _ => point.height = tip.height + 1 →
      header.prevBlockhash = tip.hash → Symphony.ValidOn true history.confirmed txs
  | .rollBack _ => True
  | .mempoolBlocks info blocks => info.tip = tip.hash →
      Symphony.ValidOn false history.confirmed blocks.flatten

section Calls

variable {indexers : List Indexer} {network : Network} {names : Header → Point → Prop}
variable {genesis : BlockHash} {machine : Machine} {history : History} {ledger : List LedgerEntry}

def Transparent (machine : Machine) (history : History) (env : Env) (event : ChainEvent) : Prop :=
  machine.uncached.execute env event = uncachedOutcome (machine.execute env event) ∧
    SoundlyCached (machine.uncached.record history env event).confirmed
      (machine.execute env event).1.stage.utxoCache

theorem SoundlyCached.rollBack
    (sound : SoundlyCached history.confirmed machine.stage.utxoCache) (env : Env) (rbPoint : Point) :
    Transparent machine history env (.rollBack rbPoint) := by
  have commutes : machine.uncached.stage.rollbackToPoint env.undoNow env.undoAccepted rbPoint =
      (machine.stage.rollbackToPoint env.undoNow env.undoAccepted rbPoint).map Stage.uncached :=
    machine.stage.rollbackToPoint_uncached env.undoNow env.undoAccepted rbPoint
  simp only [Transparent, Machine.execute, Machine.rollBack, Machine.record, commutes]
  cases undone : machine.stage.rollbackToPoint env.undoNow env.undoAccepted rbPoint with
  | error failure => exact ⟨rfl, sound⟩
  | ok stage =>
      refine ⟨rfl, ?_⟩
      rcases dropWhile_eq_drop (fun block : IndexedBlock => decide (block.point ≠ rbPoint))
        history.confirmed with ⟨count, dropped⟩
      rcases Stage.rollbackToPoint_ok undone with ⟨_, _, _, _, rfl⟩
      have still := sound.drop count
      rw [← dropped] at still
      exact still

theorem Chronicle.rollForward_indexed
    (chronicle : Chronicle indexers network UtxosIndexed names genesis machine.uncached history ledger)
    (sound : SoundlyCached history.confirmed machine.stage.utxoCache) {env : Env} {stage : Stage}
    {point tip : Point} {header : Header} {txs : BlockTxs}
    (undone : Machine.undoMempool machine.stage env = .ok stage)
    (height : point.height = stage.lastProcessed.height + 1)
    (parent : header.prevBlockhash = stage.lastProcessed.hash)
    (fed : (ChainEvent.rollForward point header txs tip).Valid names)
    (valid : Symphony.ValidOn true history.confirmed txs)
    (increasing : Increasing (machine.execute env
      (.rollForward point header txs tip)).1.stage.db.db.log) :
    Transparent machine history env (.rollForward point header txs tip) := by
  have commutes : Machine.undoMempool machine.uncached.stage env = .ok stage.uncached := by
    have mapped := Machine.undoMempool_uncached machine.stage env
    rw [undone] at mapped
    exact mapped
  let clean : Machine := { machine with stage }
  have tips := Machine.undoMempool_lastProcessed undone
  have forwarded : machine.rollForward env point header txs tip =
      clean.indexForward env point txs tip := by
    simp only [Machine.rollForward, undone, height, parent, ne_eq, not_true, if_false,
      BitVec.lt_irrefl, clean]
  have forwarded' : machine.uncached.rollForward env point header txs tip =
      clean.uncached.indexForward env point txs tip := by
    have tip' : stage.uncached.lastProcessed = stage.lastProcessed := rfl
    simp only [Machine.rollForward, commutes, tip', height, parent, ne_eq, not_true, if_false,
      BitVec.lt_irrefl]
    rfl
  rw [Machine.execute, forwarded] at increasing
  have between : Increasing stage.uncached.db.db.log :=
    VersionedLog.increasing_prefix (Machine.indexForward_log clean env point txs tip) increasing
  rcases chronicle.undoMempool (utxosIndexed_invariant indexers network) commutes between with
    ⟨ledger', undoing, idle⟩
  have chronicle' : Chronicle indexers network UtxosIndexed names genesis clean.uncached
    ⟨history.confirmed, []⟩ ledger' := undoing
  have sound' : SoundlyCached history.confirmed clean.stage.utxoCache := by
    rw [show clean.stage.utxoCache = machine.stage.utxoCache from Machine.undoMempool_cache undone]
    exact sound
  have same : clean.uncached.indexForward env point txs tip =
      uncachedOutcome (clean.indexForward env point txs tip) :=
    chronicle'.forward_transparent idle sound' valid env point tip
  have kept := chronicle'.forward_sound idle sound' valid height parent fed.1 fed.2 increasing
  constructor
  · rw [Machine.execute, Machine.execute, forwarded, forwarded', same]
  · have moves : (machine.uncached.execute env
        (.rollForward point header txs tip)).1.stage.lastProcessed =
          (clean.indexForward env point txs tip).1.stage.lastProcessed := by
      rw [Machine.execute, forwarded', same, uncachedOutcome_tip]
    have base : machine.uncached.stage.lastProcessed = clean.stage.lastProcessed := tips.symm
    simp only [Machine.record, commutes, moves]
    rw [Machine.execute, forwarded, base]
    split
    · rename_i stays
      rw [if_pos stays] at kept
      exact kept
    · rename_i moved
      rw [if_neg moved] at kept
      exact kept

theorem SoundlyCached.rollForward_stopped
    (sound : SoundlyCached history.confirmed machine.stage.utxoCache) {env : Env} {stage : Stage}
    {point tip : Point} {header : Header} {txs : BlockTxs}
    (undone : Machine.undoMempool machine.stage env = .ok stage)
    (other : ¬ (point.height = stage.lastProcessed.height + 1 ∧
      header.prevBlockhash = stage.lastProcessed.hash)) :
    Transparent machine history env (.rollForward point header txs tip) := by
  have commutes : Machine.undoMempool machine.uncached.stage env = .ok stage.uncached := by
    have mapped := Machine.undoMempool_uncached machine.stage env
    rw [undone] at mapped
    exact mapped
  have stopped : ∃ result,
      machine.rollForward env point header txs tip = ({ machine with stage }, result) ∧
      machine.uncached.rollForward env point header txs tip =
        ({ machine with stage := stage.uncached }, result) := by
    have tip' : stage.uncached.lastProcessed = stage.lastProcessed := rfl
    simp only [Machine.rollForward, undone, commutes, tip']
    by_cases below : point.height < stage.lastProcessed.height + 1
    · simp only [if_pos below]
      exact ⟨_, rfl, rfl⟩
    · by_cases above : stage.lastProcessed.height + 1 < point.height
      · simp only [if_neg below, if_pos above]
        exact ⟨_, rfl, rfl⟩
      · have height := BitVec.le_antisymm (BitVec.not_lt.mp above) (BitVec.not_lt.mp below)
        have unlinked : header.prevBlockhash ≠ stage.lastProcessed.hash := by
          intro linked
          exact other ⟨height, linked⟩
        simp only [if_neg below, if_neg above, if_pos unlinked]
        exact ⟨_, rfl, rfl⟩
  rcases stopped with ⟨result, first, second⟩
  constructor
  · rw [Machine.execute, Machine.execute, first, second]
    rfl
  · have stays : (machine.uncached.execute env
        (.rollForward point header txs tip)).1.stage.lastProcessed =
          machine.uncached.stage.lastProcessed := by
      rw [Machine.execute, second]
      exact Machine.undoMempool_lastProcessed commutes
    simp only [Machine.record, commutes, if_pos stays]
    rw [Machine.execute, first, show stage.utxoCache = machine.stage.utxoCache from
      Machine.undoMempool_cache undone]
    exact sound

theorem Chronicle.mempool_transparent
    (chronicle : Chronicle indexers network UtxosIndexed names genesis machine.uncached history ledger)
    (sound : SoundlyCached history.confirmed machine.stage.utxoCache) {env : Env}
    {info : MempoolSnapshotInfo} {blocks : List BlockTxs}
    (valid : info.tip = machine.stage.lastProcessed.hash →
      Symphony.ValidOn false history.confirmed blocks.flatten)
    (increasing : Increasing (machine.execute env
      (.mempoolBlocks info blocks)).1.stage.db.db.log) :
    Transparent machine history env (.mempoolBlocks info blocks) := by
  have mapped : Machine.undoSnapshot machine.uncached.stage env =
      (Machine.undoSnapshot machine.stage env).map Stage.uncached :=
    Machine.undoSnapshot_uncached machine.stage env
  have chain : (machine.uncached.record history env (.mempoolBlocks info blocks)).confirmed =
      history.confirmed := by
    simp only [Machine.record]
    split
    · rfl
    · split
      · rfl
      · rfl
  rw [Transparent, chain]
  cases undone : Machine.undoSnapshot machine.stage env with
  | error failure =>
      rw [undone, Except.map] at mapped
      simp only [Machine.execute, Machine.mempoolBlocks, undone, mapped]
      exact ⟨rfl, sound⟩
  | ok stage =>
      rw [undone, Except.map] at mapped
      let clean : Machine := { machine with stage }
      have tips := Machine.undoSnapshot_lastProcessed undone
      have sound' : SoundlyCached history.confirmed clean.stage.utxoCache := by
        rw [show clean.stage.utxoCache = machine.stage.utxoCache from
          Machine.undoSnapshot_cache undone]
        exact sound
      by_cases tip : info.tip = stage.lastProcessed.hash
      · have indexing : machine.mempoolBlocks env info blocks =
            clean.indexSnapshot env info blocks := by
          simp only [Machine.mempoolBlocks, undone, tip, ne_eq, not_true, if_false, clean]
        have indexing' : machine.uncached.mempoolBlocks env info blocks =
            clean.uncached.indexSnapshot env info blocks := by
          have tip' : stage.uncached.lastProcessed = stage.lastProcessed := rfl
          simp only [Machine.mempoolBlocks, mapped, tip', tip, ne_eq, not_true, if_false]
          rfl
        rw [Machine.execute, indexing] at increasing
        have between : Increasing stage.uncached.db.db.log :=
          VersionedLog.increasing_prefix
            (Machine.indexSnapshot_log clean env info blocks) increasing
        rcases chronicle.undoSnapshot (utxosIndexed_invariant indexers network) mapped between with
          ⟨ledger', undoing, idle, _⟩
        have chronicle' : Chronicle indexers network UtxosIndexed names genesis clean.uncached
          ⟨history.confirmed, []⟩ ledger' := undoing
        have same := chronicle'.snapshot_transparent idle sound' (valid (by rw [tip, tips])) env info
        rw [Machine.execute, Machine.execute, indexing, indexing']
        refine ⟨same, ?_⟩
        rw [clean.indexSnapshot_cache env info blocks]
        exact (sound'.shrunk (liveCache_from clean env [])).shrunk
          (indexMempool_from clean.worker.indexers _ _ blocks _ _ rfl)
      · have skipped : machine.mempoolBlocks env info blocks = (clean, .ok ()) := by
          simp only [Machine.mempoolBlocks, undone, ne_eq, tip, not_false_eq_true, if_true, clean]
        have skipped' : machine.uncached.mempoolBlocks env info blocks = (clean.uncached, .ok ()) := by
          have tip' : stage.uncached.lastProcessed = stage.lastProcessed := rfl
          simp only [Machine.mempoolBlocks, mapped, ne_eq, tip', tip, not_false_eq_true, if_true]
          rfl
        rw [Machine.execute, Machine.execute, skipped, skipped']
        exact ⟨rfl, sound'⟩

/-- One call gives the same outcome with and without the cache, and leaves the cache right. -/
theorem Chronicle.transparent
    (chronicle : Chronicle indexers network UtxosIndexed names genesis machine.uncached history ledger)
    (sound : SoundlyCached history.confirmed machine.stage.utxoCache) {env : Env}
    {event : ChainEvent} (fed : event.Valid names)
    (valid : event.ValidOn machine.stage.lastProcessed history)
    (increasing : Increasing (machine.execute env event).1.stage.db.db.log) :
    Transparent machine history env event := by
  cases event with
  | rollBack rbPoint => exact sound.rollBack env rbPoint
  | mempoolBlocks info blocks => exact chronicle.mempool_transparent sound valid increasing
  | rollForward point header txs tip =>
      cases undone : Machine.undoMempool machine.stage env with
      | error failure =>
          have mapped : Machine.undoMempool machine.uncached.stage env = .error failure := by
            have commutes := Machine.undoMempool_uncached machine.stage env
            rw [undone] at commutes
            exact commutes
          simp only [Transparent, Machine.execute, Machine.rollForward, Machine.record, undone, mapped]
          exact ⟨rfl, sound⟩
      | ok stage =>
          by_cases next : point.height = stage.lastProcessed.height + 1 ∧
              header.prevBlockhash = stage.lastProcessed.hash
          · apply chronicle.rollForward_indexed sound undone next.1 next.2 fed _ increasing
            have tips := Machine.undoMempool_lastProcessed undone
            rw [tips] at next
            exact valid next.1 next.2
          · exact sound.rollForward_stopped undone next

end Calls

section Runs

instance (coinbase : Bool) (chain : List IndexedBlock) (txs : BlockTxs) :
    Decidable (ValidOn coinbase chain txs) :=
  decidable_of_iff (((chain.flatMap IndexedBlock.txIds).Nodup ∧ ValidBlocks true [] chain) ∧
    ValidTxs coinbase (liveRefs (unspent chain)) txs ∧
    (txs.map TransactionWithId.txId ++ chain.flatMap IndexedBlock.txIds).Nodup)
    ⟨fun ⟨⟨distinct, blocks⟩, valid, all⟩ => ⟨⟨distinct, blocks, trivial⟩, valid, all⟩,
      fun sound => ⟨⟨sound.base.distinct, sound.base.confirmed⟩, sound.valid, sound.distinct⟩⟩

instance (tip : Point) (history : History) (event : ChainEvent) :
    Decidable (event.ValidOn tip history) :=
  match event with
  | .rollForward .. => inferInstanceAs (Decidable (_ → _ → _))
  | .rollBack .. => inferInstanceAs (Decidable True)
  | .mempoolBlocks .. => inferInstanceAs (Decidable (_ → _))

/-- Every block and snapshot that is indexed is valid on the chain at that moment. -/
def Machine.ValidFrom (machine : Machine) (history : History) : List (Env × ChainEvent) → Prop
  | [] => True
  | (env, event) :: events => event.ValidOn machine.stage.lastProcessed history ∧
      (machine.execute env event).1.ValidFrom (machine.record history env event) events

instance Machine.decidableValidFrom (machine : Machine) (history : History) :
    (events : List (Env × ChainEvent)) → Decidable (machine.ValidFrom history events)
  | [] => inferInstanceAs (Decidable True)
  | (env, event) :: events =>
      have := Machine.decidableValidFrom (machine.execute env event).1
        (machine.record history env event) events
      inferInstanceAs (Decidable (_ ∧ _))

def Machine.results (machine : Machine) : List (Env × ChainEvent) → List (Except WorkerError Unit)
  | [] => []
  | (env, event) :: events =>
      (machine.execute env event).2 :: (machine.execute env event).1.results events

theorem Machine.results_snoc (machine : Machine) (events : List (Env × ChainEvent)) (env : Env)
    (event : ChainEvent) :
    machine.results (events ++ [(env, event)]) =
      machine.results events ++ [((machine.run events).execute env event).2] := by
  induction events generalizing machine with
  | nil => rfl
  | cons first events ih =>
      rcases first with ⟨env', event'⟩
      rw [List.cons_append, Machine.results, ih, Machine.results]
      rfl

theorem Machine.validFrom_append (machine : Machine) (history : History)
    (events : List (Env × ChainEvent)) (env : Env) (event : ChainEvent) :
    machine.ValidFrom history (events ++ [(env, event)]) ↔ machine.ValidFrom history events ∧
      event.ValidOn (machine.run events).stage.lastProcessed
        (events.foldl (fun (state : Machine × History) event =>
          ((state.1.execute event.1 event.2).1, state.1.record state.2 event.1 event.2))
          (machine, history)).2 := by
  induction events generalizing machine history with
  | nil => simp [Machine.ValidFrom, Machine.run]
  | cons first events ih =>
      rw [List.cons_append, Machine.ValidFrom, Machine.ValidFrom, ih, and_assoc]
      rfl

theorem Machine.validFrom_snoc (machine : Machine) (events : List (Env × ChainEvent)) (env : Env)
    (event : ChainEvent) :
    machine.ValidFrom ⟨[], []⟩ (events ++ [(env, event)]) ↔ machine.ValidFrom ⟨[], []⟩ events ∧
      event.ValidOn (machine.run events).stage.lastProcessed (machine.history events) :=
  machine.validFrom_append ⟨[], []⟩ events env event

theorem transparent_run (names : Header → Point → Prop) (config : Config) (indexers : List Indexer)
    (events : List (Env × ChainEvent)) (fed : ∀ event ∈ events, event.2.Valid names) :
    let cached := Machine.bootstrap indexers (Stage.empty config)
    cached.uncached.ValidFrom ⟨[], []⟩ events →
    Increasing (cached.run events).stage.db.db.log →
      cached.results events = cached.uncached.results events ∧
      (∀ front, front <+: events → (cached.run front).uncached = cached.uncached.run front) ∧
      SoundlyCached (cached.uncached.history events).confirmed
        (cached.run events).stage.utxoCache := by
  intro cached
  induction events using List.reverseRecOn with
  | nil =>
      intro _ _
      refine ⟨rfl, ?_, ?_⟩
      · intro front inside
        rw [List.prefix_nil.mp inside]
        rfl
      · intro depth held same ref utxo stored found live
        rw [show (cached.uncached.history []).confirmed = [] from rfl, List.drop_nil] at live
        cases live
  | append_singleton events last ih =>
      rcases last with ⟨env, event⟩
      intro valid increasing
      rcases (cached.uncached.validFrom_snoc events env event).mp valid with ⟨before, on⟩
      rw [Machine.run_snoc] at increasing
      have earlier : Increasing (cached.run events).stage.db.db.log :=
        VersionedLog.increasing_prefix ((cached.run events).execute_log env event) increasing
      have fed' : ∀ event ∈ events, event.2.Valid names := by
        intro other member
        exact fed other (List.mem_append_left _ member)
      rcases ih fed' before earlier with ⟨results, runs, sound⟩
      have here : (cached.run events).uncached = cached.uncached.run events :=
        runs events List.prefix_rfl
      have earlier' : Increasing (cached.uncached.run events).stage.db.db.log := by
        rw [← here]
        exact earlier
      rcases (utxosIndexed_invariant indexers config.network).run names
        { config with utxoCache := false } _ events (Stage.new_empty _) rfl fed' earlier' with
        ⟨ledger, chronicle⟩
      have chronicle' : Chronicle indexers config.network UtxosIndexed names config.genesisHash
        (cached.uncached.run events) (cached.uncached.history events) ledger := chronicle
      rw [← here] at chronicle' on
      have step := chronicle'.transparent sound (fed (env, event) (by simp)) on increasing
      have next : cached.uncached.run (events ++ [(env, event)]) =
          (cached.run (events ++ [(env, event)])).uncached := by
        rw [Machine.run_snoc, Machine.run_snoc, ← here, step.1]
        rfl
      refine ⟨?_, ?_, ?_⟩
      · rw [Machine.results_snoc, Machine.results_snoc, results, ← here, step.1]
        rfl
      · intro front inside
        rcases List.prefix_concat_iff.mp inside with whole | shorter
        · rw [whole]
          exact next.symm
        · exact runs front shorter
      · rw [Machine.history_snoc, Machine.run_snoc, ← here]
        exact step.2

/-- With the cache on, a run of valid blocks gives after every event the results and the stage it
gives with the cache off, whatever is evicted. -/
theorem utxo_cache_transparent (blockHash : Header → BlockHash) (config : Config)
    (indexers : List Indexer) (cachedStage plainStage : Stage) (events : List (Env × ChainEvent))
    (fresh : Stage.new { config with utxoCache := true } (StorageHandler.openDb DB.empty) =
      .ok cachedStage)
    (fresh' : Stage.new { config with utxoCache := false } (StorageHandler.openDb DB.empty) =
      .ok plainStage)
    (fed : ∀ event ∈ events, event.2.Valid (HashedBy blockHash))
    (valid : (Machine.bootstrap indexers plainStage).ValidFrom ⟨[], []⟩ events)
    (increasing : Increasing ((Machine.bootstrap indexers cachedStage).run events).stage.db.db.log) :
    let cached := Machine.bootstrap indexers cachedStage
    let plain := Machine.bootstrap indexers plainStage
    cached.results events = plain.results events ∧
      ∀ front, front <+: events → (cached.run front).uncached = plain.run front := by
  rw [Stage.new_empty, Except.ok.injEq] at fresh fresh'
  subst fresh fresh'
  rcases transparent_run (HashedBy blockHash) { config with utxoCache := true } indexers events fed
    valid increasing with ⟨results, runs, _⟩
  exact ⟨results, runs⟩

def spendCached : Machine :=
  Machine.bootstrap [attachFirst] (Stage.empty { mainnetConfig 2 with utxoCache := true })

theorem utxo_cache_transparent_spend :
    (((spendCached.run (spendEvents.take 1)).stage.utxoCache.bind
      (fun cache => cache.lookup ⟨txIdOf 1, 0⟩)).isSome = true ∧
      spendCached.results spendEvents = [.ok (), .ok ()]) ∧
    spendCached.results spendEvents = spendStart.results spendEvents ∧
      ∀ front, front <+: spendEvents → (spendCached.run front).uncached = spendStart.run front :=
  ⟨by decide +kernel, utxo_cache_transparent mainnetHash (mainnetConfig 2) [attachFirst] _ _
    spendEvents (Stage.new_empty _) (Stage.new_empty _) (by decide +kernel) (by decide +kernel)
    (by decide +kernel)⟩

end Runs

end Symphony
