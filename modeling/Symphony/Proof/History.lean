import Symphony.Proof.ChainInvariant
import Symphony.Sync.UtxoRun

/-! The blocks a run has indexed, and invariants that relate them to the latest view.

A history invariant is proved for one confirmed block and for one snapshot; undoing blocks
leads back to a view the invariant held for, so every run keeps it. -/

namespace Symphony

open Encdec
open UndoLog (Agree)
open VersionedLog (Increasing)

def attachedBlock (indexers : List Indexer) (task : IndexingTask) (point : Point) (txs : BlockTxs)
    (network : Network) (cache : Option UtxoCache) : TxoRef → ExtendedUtxoData :=
  match (IndexingContext.new task txs point network cache).2 with
  | .error _ => fun _ => IndexMap.empty
  | .ok ctx => attachedTxs indexers task ctx txs.zipIdx

def snapshotBlocks (indexers : List Indexer) (task : IndexingTask) (tip : Point)
    (blocks : List BlockTxs) (network : Network) (cache : Option UtxoCache) : List IndexedBlock :=
  match (IndexingContext.new task blocks.flatten tip network cache).2 with
  | .error _ => []
  | .ok ctx => (pseudoBlocks indexers tip task ctx blocks.zipIdx).reverse

namespace Machine

/-- The block that indexing a roll forward adds to the chain. -/
def forwardBlock (machine : Machine) (env : Env) (point : Point) (txs : BlockTxs) (tip : Point) :
    IndexedBlock :=
  ⟨point, txs, attachedBlock machine.worker.indexers
    (machine.stage.db.beginIndexingTask (machine.mutableAt point tip)) point txs
    machine.stage.network (machine.liveCache env)⟩

/-- What a call makes of the history: a block is added when the tip moves to it, a rollback
drops the blocks above its target, and pseudo blocks are there while the flag is set. -/
def record (machine : Machine) (history : History) (env : Env) (event : ChainEvent) : History :=
  let after := (machine.execute env event).1.stage
  match event with
  | .rollForward point _ txs tip => match undoMempool machine.stage env with
      | .error _ => history
      | .ok stage =>
          if after.lastProcessed = machine.stage.lastProcessed then ⟨history.confirmed, []⟩
          else ⟨forwardBlock { machine with stage } env point txs tip :: history.confirmed, []⟩
  | .rollBack point => match machine.stage.rollbackToPoint env.undoNow env.undoAccepted point with
      | .error _ => history
      | .ok _ => ⟨history.confirmed.dropWhile (fun block => block.point ≠ point), []⟩
  | .mempoolBlocks _ blocks => match undoSnapshot machine.stage env with
      | .error _ => history
      | .ok stage =>
          if after.processedMempool then ⟨history.confirmed, snapshotBlocks machine.worker.indexers
            stage.db.beginMempoolIndexingTask stage.lastProcessed blocks stage.network
            (liveCache { machine with stage } env)⟩
          else ⟨history.confirmed, []⟩

def history (machine : Machine) (events : List (Env × ChainEvent)) : History :=
  (events.foldl (fun (state : Machine × History) event =>
    ((state.1.execute event.1 event.2).1, state.1.record state.2 event.1 event.2))
    (machine, ⟨[], []⟩)).2

theorem history_snoc (machine : Machine) (events : List (Env × ChainEvent)) (env : Env)
    (event : ChainEvent) :
    machine.history (events ++ [(env, event)]) =
      (machine.run events).record (machine.history events) env event := by
  have runs (state : Machine × History) : (events.foldl (fun (state : Machine × History) event =>
      ((state.1.execute event.1 event.2).1, state.1.record state.2 event.1 event.2)) state).1 =
        state.1.run events := by
    induction events generalizing state with
    | nil => rfl
    | cons first rest ih =>
        rw [List.foldl_cons, ih]
        rfl
  have whole := runs (machine, ⟨[], []⟩)
  rw [history, List.foldl_append, List.foldl_cons, List.foldl_nil, whole, history]

end Machine

def IndexesBlock (indexers : List Indexer) (network : Network) (handler after : StorageHandler)
    (block : IndexedBlock) : Prop :=
  handler.Current ∧ Increasing after.db.log ∧ ∃ mutable cache final now accepted maxRollback,
    indexBlock indexers (handler.beginIndexingTask mutable) block.point block.txs network none =
      (cache, .ok final) ∧
    handler.applyIndexingTask now accepted final block.point maxRollback none = .ok after ∧
    block.attached = attachedBlock indexers (handler.beginIndexingTask mutable) block.point
      block.txs network none

def IndexesSnapshot (indexers : List Indexer) (network : Network) (handler after : StorageHandler)
    (tip : Point) (blocks : List BlockTxs) : Prop :=
  handler.Current ∧ Increasing after.db.log ∧ blocks ≠ [] ∧
    ∃ cache final now accepted pseudo maxRollback timestamp,
      indexMempool indexers handler.beginMempoolIndexingTask tip blocks network none =
        (cache, .ok final) ∧
      handler.applyIndexingTask now accepted final pseudo maxRollback timestamp = .ok after

theorem pseudoBlocks_contents {indexers : List Indexer} {tip : Point} {task after : IndexingTask}
    {ctx ctx' : IndexingContext} {cache cache' : Option UtxoCache} {blocks : List (BlockTxs × Nat)}
    (success : indexPseudoBlocks indexers tip task ctx cache blocks = (cache', .ok (after, ctx'))) :
    (pseudoBlocks indexers tip task ctx blocks).map IndexedBlock.content =
      blocks.map (fun block => (pseudoPoint tip block.2, block.1)) := by
  induction blocks generalizing task ctx cache with
  | nil => rfl
  | cons block blocks ih =>
      rcases indexPseudoBlocks_cons success with ⟨_, _, _, _, _, _, rest, same⟩
      rw [same, List.map_cons, List.map_cons, ih rest, IndexedBlock.content]

theorem pseudoBlocks_txs {indexers : List Indexer} {tip : Point} {task after : IndexingTask}
    {ctx ctx' : IndexingContext} {cache cache' : Option UtxoCache} {blocks : List BlockTxs}
    (success : indexPseudoBlocks indexers tip task ctx cache blocks.zipIdx =
      (cache', .ok (after, ctx'))) :
    (pseudoBlocks indexers tip task ctx blocks.zipIdx).map IndexedBlock.txs = blocks := by
  calc (pseudoBlocks indexers tip task ctx blocks.zipIdx).map IndexedBlock.txs
      = ((pseudoBlocks indexers tip task ctx blocks.zipIdx).map IndexedBlock.content).map
          Prod.snd := by
        rw [List.map_map]
        rfl
    _ = blocks.zipIdx.map Prod.fst := by
        rw [pseudoBlocks_contents success, List.map_map]
        rfl
    _ = blocks := List.zipIdx_map_fst 0 blocks

def IsStageKey (key : RawKey) : Prop := IndexerInfoKV.Holds key ∨ HashByHeightKV.Holds key

/-- The parts of indexing and committing a confirmed block. -/
theorem IndexesBlock.parts {indexers : List Indexer} {network : Network}
    {handler after : StorageHandler} {block : IndexedBlock}
    (indexes : IndexesBlock indexers network handler after block) :
    ∃ mutable ctx cache indexed inner task now accepted maxRollback,
      IndexingContext.new (handler.beginIndexingTask mutable) block.txs block.point network none =
        (none, .ok ctx) ∧
      indexTxs indexers (handler.beginIndexingTask mutable) ctx none block.txs.zipIdx =
        (cache, .ok (indexed, inner)) ∧
      block.attached = attachedTxs indexers (handler.beginIndexingTask mutable) ctx
        block.txs.zipIdx ∧
      IndexingTask.Written IsStageKey indexed task ∧
      handler.applyIndexingTask now accepted task.finalize block.point maxRollback none =
        .ok after := by
  rcases indexes with
    ⟨_, _, mutable, cache, final, now, accepted, maxRollback, indexed, applied, attached⟩
  rcases indexBlock_run indexed with
    ⟨resolved, ctx, task, inner, informed, hashed, created, ran, info, hash, rfl⟩
  obtain rfl : resolved = none := (congrArg Prod.fst created).symm
  refine ⟨mutable, ctx, cache, task, inner, hashed, now, accepted, maxRollback, created, ran, ?_, ?_,
    applied⟩
  · rw [attached, attachedBlock, created]
  · have first : IndexingTask.Written IsStageKey task informed :=
      Relation.ReflTransGen.single ⟨_, Or.inl (Table.holds_encodeKey _ _),
        IndexingTask.setRaw_touches info⟩
    exact first.tail ⟨_, Or.inr (Table.holds_encodeKey _ _), IndexingTask.setRaw_touches hash⟩

theorem IndexesSnapshot.parts {indexers : List Indexer} {network : Network}
    {handler after : StorageHandler} {tip : Point} {blocks : List BlockTxs}
    (indexes : IndexesSnapshot indexers network handler after tip blocks) :
    ∃ ctx cache task inner now accepted pseudo maxRollback timestamp,
      IndexingContext.new handler.beginMempoolIndexingTask blocks.flatten tip network none =
        (none, .ok ctx) ∧
      indexPseudoBlocks indexers tip handler.beginMempoolIndexingTask ctx none blocks.zipIdx =
        (cache, .ok (task, inner)) ∧
      snapshotBlocks indexers handler.beginMempoolIndexingTask tip blocks network none =
        (pseudoBlocks indexers tip handler.beginMempoolIndexingTask ctx blocks.zipIdx).reverse ∧
      handler.applyIndexingTask now accepted task.finalize pseudo maxRollback timestamp =
        .ok after := by
  rcases indexes with
    ⟨_, _, _, cache, final, now, accepted, pseudo, maxRollback, timestamp, indexed, applied⟩
  rcases indexMempool_run indexed with ⟨resolved, ctx, task, inner, created, ran, rfl⟩
  obtain rfl : resolved = none := (congrArg Prod.fst created).symm
  refine ⟨ctx, cache, task, inner, now, accepted, pseudo, maxRollback, timestamp, created, ran, ?_,
    applied⟩
  rw [snapshotBlocks, created]

/-- A property of the indexed blocks and the latest view that indexing a block and indexing a
snapshot keep. -/
structure HistoryInvariant (indexers : List Indexer) (network : Network)
    (Good : History → (RawKey → Cell) → Prop) : Prop where
  agree : ∀ history view other, Agree IsData view other → Good history other → Good history view
  empty : Good ⟨[], []⟩ DB.empty.view
  forward : ∀ confirmed handler after block, IndexesBlock indexers network handler after block →
    Good ⟨confirmed, []⟩ handler.db.view → block.point.height.toNat = confirmed.length + 1 →
      Good ⟨block :: confirmed, []⟩ after.db.view
  snapshot : ∀ confirmed handler after tip blocks,
    IndexesSnapshot indexers network handler after tip blocks →
    Good ⟨confirmed, []⟩ handler.db.view → tip.height.toNat = confirmed.length →
      Good ⟨confirmed, snapshotBlocks indexers handler.beginMempoolIndexingTask tip blocks network
        none⟩ after.db.view

/-- The history matches the state of the stage, and the property holds of the latest view and
of every view the buffer can lead back to. -/
structure Chronicle (indexers : List Indexer) (network : Network)
    (Good : History → (RawKey → Cell) → Prop) (names : Header → Point → Prop)
    (genesis : BlockHash) (machine : Machine) (history : History) (ledger : List LedgerEntry) :
    Prop where
  indexers : machine.worker.indexers = indexers
  network : machine.stage.network = network
  uncached : machine.stage.utxoCache = none
  chain : ChainInv names genesis machine (history.confirmed.map IndexedBlock.point) ledger
  past : ∀ index entry,
    (confirmedEntries machine.stage.processedMempool ledger)[index]? = some entry →
      Good ⟨history.confirmed.drop index, []⟩ entry.view
  now : Good history machine.stage.db.db.view
  idle : machine.stage.processedMempool = false → history.snapshot = []

section Steps

variable {indexers : List Indexer} {network : Network} {Good : History → (RawKey → Cell) → Prop}
variable {names : Header → Point → Prop} {genesis : BlockHash} {machine : Machine}
variable {history : History} {ledger : List LedgerEntry}

theorem Chronicle.rollback (invariant : HistoryInvariant indexers network Good)
    (chronicle : Chronicle indexers network Good names genesis machine history ledger) {now : U64}
    {accepted : Bool} {rbPoint : Point} {stage : Stage}
    (success : machine.stage.rollbackToPoint now accepted rbPoint = .ok stage)
    (low : rbPoint.height ≠ u64Max) (increasing : Increasing stage.db.db.log) :
    ∃ ledger', Chronicle indexers network Good names genesis { machine with stage }
      ⟨history.confirmed.dropWhile (fun block => block.point ≠ rbPoint), []⟩ ledger' ∧
      stage.processedMempool = false := by
  rcases chronicle.chain.rollback success low increasing with
    ⟨below, entry, top, some, undone, found, restored, inv⟩
  have dropped : history.confirmed.dropWhile (fun block => block.point ≠ rbPoint) =
      history.confirmed.drop below := by
    have points := chronicle.chain.linked.dropWhile top some
    rw [List.dropWhile_map, ← List.map_drop] at points
    have lengths := congrArg List.length points
    rw [List.length_map, List.length_map] at lengths
    apply List.IsSuffix.eq_of_length _ lengths
    exact List.suffix_of_suffix_length_le (List.dropWhile_suffix _) (List.drop_suffix _ _)
      (le_of_eq lengths)
  rw [dropped]
  refine ⟨(confirmedEntries machine.stage.processedMempool ledger).drop below,
    ⟨chronicle.indexers, ?_, ?_, ?_, ?_, ?_, ?_⟩, undone⟩
  · rcases Stage.rollbackToPoint_ok success with ⟨_, _, _, _, rfl⟩
    exact chronicle.network
  · rcases Stage.rollbackToPoint_ok success with ⟨_, _, _, _, rfl⟩
    exact chronicle.uncached
  · rw [List.map_drop]
    exact inv
  · intro index other listed
    rw [undone] at listed
    simp only [confirmedEntries, Bool.false_eq_true, if_false, List.getElem?_drop] at listed
    rw [List.drop_drop]
    exact chronicle.past (below + index) other listed
  · exact invariant.agree _ _ _ restored (chronicle.past below entry found)
  · intro _
    rfl

theorem Chronicle.liveCache (chronicle : Chronicle indexers network Good names genesis machine history
    ledger) (env : Env) : machine.liveCache env = none := by
  rw [Machine.liveCache, chronicle.uncached]
  rfl

theorem Chronicle.height (chronicle : Chronicle indexers network Good names genesis machine history
    ledger) : machine.stage.lastProcessed.height.toNat = history.confirmed.length := by
  rw [chronicle.chain.tip, chronicle.chain.linked.height_top, List.length_map]

theorem Chronicle.confirmed (chronicle : Chronicle indexers network Good names genesis machine history
    ledger) (idle : machine.stage.processedMempool = false) : history = ⟨history.confirmed, []⟩ := by
  rw [← chronicle.idle idle]

theorem Chronicle.dropWhile_tip
    (chronicle : Chronicle indexers network Good names genesis machine history ledger) :
    history.confirmed.dropWhile (fun block => block.point ≠ machine.stage.lastProcessed) =
      history.confirmed := by
  cases blocks : history.confirmed with
  | nil => rfl
  | cons block below =>
      have tip := chronicle.chain.tip
      rw [blocks] at tip
      rw [List.dropWhile_cons_of_neg (by rw [tip]; simp [chainTop])]

theorem Chronicle.undo (invariant : HistoryInvariant indexers network Good)
    (chronicle : Chronicle indexers network Good names genesis machine history ledger) {now : U64}
    {accepted : Bool} {stage : Stage}
    (success : machine.stage.rollbackToPoint now accepted machine.stage.lastProcessed = .ok stage)
    (increasing : Increasing stage.db.db.log) :
    ∃ ledger', Chronicle indexers network Good names genesis { machine with stage }
      ⟨history.confirmed, []⟩ ledger' ∧ stage.processedMempool = false := by
  rcases chronicle.rollback invariant success chronicle.chain.tip_low increasing with
    ⟨ledger', rolled, undone⟩
  rw [chronicle.dropWhile_tip] at rolled
  exact ⟨ledger', rolled, undone⟩

theorem Chronicle.undoMempool (invariant : HistoryInvariant indexers network Good)
    (chronicle : Chronicle indexers network Good names genesis machine history ledger) {env : Env}
    {stage : Stage} (success : Machine.undoMempool machine.stage env = .ok stage)
    (increasing : Increasing stage.db.db.log) :
    ∃ ledger', Chronicle indexers network Good names genesis { machine with stage }
      ⟨history.confirmed, []⟩ ledger' ∧ stage.processedMempool = false := by
  rcases Machine.undoMempool_cases success with ⟨idle, rfl⟩ | ⟨_, undone⟩
  · rw [chronicle.confirmed idle] at chronicle
    exact ⟨ledger, chronicle, idle⟩
  · exact chronicle.undo invariant undone increasing

theorem Chronicle.undoSnapshot (invariant : HistoryInvariant indexers network Good)
    (chronicle : Chronicle indexers network Good names genesis machine history ledger) {env : Env}
    {stage : Stage} (success : Machine.undoSnapshot machine.stage env = .ok stage)
    (increasing : Increasing stage.db.db.log) :
    ∃ ledger', Chronicle indexers network Good names genesis { machine with stage }
      ⟨history.confirmed, []⟩ ledger' ∧ stage.processedMempool = false ∧
      stage.rollbackBuffer.points ≠ [] := by
  rcases Machine.undoSnapshot_cases success with ⟨front, rfl⟩ | undone
  · have idle := chronicle.chain.idle_of_front front
    rw [chronicle.confirmed idle] at chronicle
    refine ⟨ledger, chronicle, idle, ?_⟩
    intro none
    rw [RollbackBuffer.position, none] at front
    cases front
  · rcases chronicle.undo invariant undone increasing with ⟨ledger', rolled, idle⟩
    exact ⟨ledger', rolled, idle, Stage.rollbackToPoint_points undone⟩

theorem Chronicle.failed (chronicle : Chronicle indexers network Good names genesis machine history
    ledger) (mutable : Bool) (rises : machine.worker.mutable = true → mutable = true) :
    Chronicle indexers network Good names genesis
      ⟨{ machine.worker with mutable }, { machine.stage with utxoCache := none }⟩ history ledger :=
  ⟨chronicle.indexers, chronicle.network, rfl, chronicle.chain.failed mutable none rises,
    chronicle.past, chronicle.now, chronicle.idle⟩

theorem Chronicle.forward (invariant : HistoryInvariant indexers network Good)
    (chronicle : Chronicle indexers network Good names genesis machine history ledger) {env : Env}
    {point tip : Point} {header : Header} {txs : BlockTxs}
    (idle : machine.stage.processedMempool = false)
    (height : point.height = machine.stage.lastProcessed.height + 1)
    (parent : header.prevBlockhash = machine.stage.lastProcessed.hash)
    (hash : names header point) (low : point.height ≠ u64Max)
    (increasing : Increasing (machine.indexForward env point txs tip).1.stage.db.db.log) :
    ∃ ledger', Chronicle indexers network Good names genesis
      (machine.indexForward env point txs tip).1
      (if (machine.indexForward env point txs tip).1.stage.lastProcessed =
          machine.stage.lastProcessed then history
        else ⟨machine.forwardBlock env point txs tip :: history.confirmed, []⟩) ledger' := by
  have live := chronicle.liveCache env
  rcases machine.indexForward_cases env point txs tip with
    ⟨cache, ⟨failure, result⟩ | ⟨final, db, indexed, applied, result⟩⟩
  · have uncached : cache = none := by
      have kept := machine.indexForward_cache env point txs tip
      rw [result, live, indexBlock_uncached] at kept
      exact kept
    rw [result, if_pos rfl, uncached]
    exact ⟨ledger, chronicle.failed _ (mutableAt_rises machine point tip)⟩
  · rw [result] at increasing ⊢
    rcases chronicle.chain.forward idle height parent hash low indexed applied increasing with
      ⟨ledger', grown, extended⟩
    have moved : point ≠ machine.stage.lastProcessed := by
      rintro rfl
      have heights := congrArg BitVec.toNat height
      rw [BitVec.toNat_add] at heights
      have bound := machine.stage.lastProcessed.height.isLt
      rw [show (1 : U64).toNat = 1 from rfl] at heights
      omega
    have uncached : cache = none := by
      have none := indexBlock_uncached machine.worker.indexers
        (machine.stage.db.beginIndexingTask (machine.mutableAt point tip)) point txs
        machine.stage.network
      rw [live] at indexed
      rw [indexed] at none
      exact none
    rw [if_neg moved]
    have good : Good ⟨machine.forwardBlock env point txs tip :: history.confirmed, []⟩ db.db.view := by
      have before := chronicle.now
      rw [chronicle.confirmed idle] at before
      apply invariant.forward history.confirmed machine.stage.db db _ _ before
      · have counted := extended.linked.1
        rw [List.length_map] at counted
        exact counted
      · refine ⟨chronicle.chain.journal.current, increasing, machine.mutableAt point tip, cache, final,
          env.commitNow, env.commitAccepted, machine.stage.maxRollbacks, ?_, applied, ?_⟩
        · rw [← live, ← chronicle.indexers, ← chronicle.network]
          exact indexed
        · rw [← live, ← chronicle.indexers, ← chronicle.network]
          rfl
    refine ⟨ledger', chronicle.indexers, chronicle.network, uncached, extended, ?_, good, ?_⟩
    · intro index entry listed
      rw [show machine.stage.processedMempool = false from idle] at listed
      rcases grown index entry listed with ⟨rfl, view⟩ | ⟨below, rfl, old⟩
      · rw [view]
        exact good
      · apply chronicle.past below entry
        rw [idle]
        exact old
    · intro _
      rfl

theorem Chronicle.snapshot (invariant : HistoryInvariant indexers network Good)
    (chronicle : Chronicle indexers network Good names genesis machine history ledger) {env : Env}
    {info : MempoolSnapshotInfo} {blocks : List BlockTxs}
    (idle : machine.stage.processedMempool = false)
    (holds : machine.stage.rollbackBuffer.points ≠ []) (nonempty : blocks ≠ [])
    (increasing : Increasing (machine.indexSnapshot env info blocks).1.stage.db.db.log) :
    ∃ ledger', Chronicle indexers network Good names genesis
      (machine.indexSnapshot env info blocks).1
      (if (machine.indexSnapshot env info blocks).1.stage.processedMempool then
        ⟨history.confirmed, snapshotBlocks machine.worker.indexers
          machine.stage.db.beginMempoolIndexingTask machine.stage.lastProcessed blocks
          machine.stage.network (machine.liveCache env)⟩
        else history) ledger' := by
  have live := chronicle.liveCache env
  rcases machine.indexSnapshot_cases env info blocks with
    ⟨cache, ⟨failure, result⟩ | ⟨final, db, indexed, applied, result⟩⟩
  · have uncached : cache = none := by
      have kept := machine.indexSnapshot_cache env info blocks
      rw [result, live, indexMempool_uncached] at kept
      exact kept
    rw [result, uncached, if_neg (by simpa using idle)]
    exact ⟨ledger, chronicle.failed machine.worker.mutable (by intro kept; exact kept)⟩
  · rw [result] at increasing ⊢
    rcases chronicle.chain.snapshot idle holds nonempty indexed applied increasing with
      ⟨ledger', grown, extended⟩
    have uncached : cache = none := by
      have none := indexMempool_uncached machine.worker.indexers
        machine.stage.db.beginMempoolIndexingTask machine.stage.lastProcessed blocks
        machine.stage.network
      rw [live] at indexed
      rw [indexed] at none
      exact none
    have good : Good ⟨history.confirmed, snapshotBlocks machine.worker.indexers
        machine.stage.db.beginMempoolIndexingTask machine.stage.lastProcessed blocks
        machine.stage.network (machine.liveCache env)⟩ db.db.view := by
      have before := chronicle.now
      rw [chronicle.confirmed idle] at before
      rw [live, chronicle.indexers, chronicle.network] at indexed ⊢
      exact invariant.snapshot history.confirmed machine.stage.db db _ blocks
        ⟨chronicle.chain.journal.current, increasing, nonempty, cache, final, _, _, _, _, _, indexed,
          applied⟩ before chronicle.height
    refine ⟨ledger', chronicle.indexers, chronicle.network, uncached, extended, ?_, good, ?_⟩
    · intro index entry listed
      -- below the pseudo blocks stand the entries of the confirmed ones
      simp only [confirmedEntries, if_true, List.getElem?_drop] at listed
      rcases grown (1 + index) entry listed with ⟨zero, _⟩ | ⟨below, same, old⟩
      · omega
      · obtain rfl : index = below := by omega
        apply chronicle.past index entry
        rw [idle]
        exact old
    · intro impossible
      cases impossible

theorem Machine.rollForward_stopped {env : Env} {stage : Stage} {point tip : Point}
    {header : Header} {txs : BlockTxs} (undone : Machine.undoMempool machine.stage env = .ok stage)
    (other : ¬ (point.height = stage.lastProcessed.height + 1 ∧
      header.prevBlockhash = stage.lastProcessed.hash)) :
    (machine.rollForward env point header txs tip).1 = { machine with stage } := by
  simp only [Machine.rollForward, undone]
  split
  · rfl
  · rename_i notBelow
    split
    · rfl
    · rename_i notAbove
      split
      · rfl
      · rename_i linked
        refine absurd ⟨?_, not_not.mp linked⟩ other
        exact BitVec.le_antisymm (BitVec.not_lt.mp notAbove) (BitVec.not_lt.mp notBelow)

/-- A call of the worker, whatever it returns, keeps the chronicle. -/
theorem Chronicle.execute (invariant : HistoryInvariant indexers network Good)
    (chronicle : Chronicle indexers network Good names genesis machine history ledger) {env : Env}
    {event : ChainEvent} (valid : event.Valid names)
    (increasing : Increasing (machine.execute env event).1.stage.db.db.log) :
    ∃ ledger', Chronicle indexers network Good names genesis (machine.execute env event).1
      (machine.record history env event) ledger' := by
  cases event with
  | rollForward point header txs tip =>
      cases undone : Machine.undoMempool machine.stage env with
      | error failure =>
          simp only [Machine.record, Machine.execute, Machine.rollForward, undone]
          exact ⟨ledger, chronicle⟩
      | ok stage =>
          have same := Machine.undoMempool_lastProcessed undone
          by_cases next : point.height = stage.lastProcessed.height + 1 ∧
              header.prevBlockhash = stage.lastProcessed.hash
          · have forwarded : machine.rollForward env point header txs tip =
                Machine.indexForward { machine with stage } env point txs tip := by
              simp only [Machine.rollForward, undone, next.1, next.2, ne_eq, not_true, if_false,
                BitVec.lt_irrefl]
            simp only [Machine.record, Machine.execute, undone, forwarded] at increasing ⊢
            have between : Increasing stage.db.db.log :=
              VersionedLog.increasing_prefix
                (Machine.indexForward_log { machine with stage } env point txs tip) increasing
            rcases chronicle.undoMempool invariant undone between with ⟨middle, clean, idle⟩
            rw [← same]
            exact clean.forward invariant idle next.1 next.2 valid.1 valid.2 increasing
          · have stopped : (machine.rollForward env point header txs tip).1 = { machine with stage } :=
              Machine.rollForward_stopped undone next
            simp only [Machine.record, Machine.execute, undone, stopped, same, if_true]
              at increasing ⊢
            rcases chronicle.undoMempool invariant undone increasing with ⟨ledger', clean, _⟩
            exact ⟨ledger', clean⟩
  | rollBack rbPoint =>
      cases undone : machine.stage.rollbackToPoint env.undoNow env.undoAccepted rbPoint with
      | error failure =>
          simp only [Machine.record, Machine.execute, Machine.rollBack, undone]
          exact ⟨ledger, chronicle⟩
      | ok stage =>
          simp only [Machine.record, Machine.execute, Machine.rollBack, undone] at increasing ⊢
          rcases chronicle.rollback invariant undone valid increasing with ⟨ledger', rolled, _⟩
          exact ⟨ledger', rolled⟩
  | mempoolBlocks info blocks =>
      cases undone : Machine.undoSnapshot machine.stage env with
      | error failure =>
          simp only [Machine.record, Machine.execute, Machine.mempoolBlocks, undone]
          exact ⟨ledger, chronicle⟩
      | ok stage =>
          by_cases tip : info.tip = stage.lastProcessed.hash
          · have indexing : machine.mempoolBlocks env info blocks =
                Machine.indexSnapshot { machine with stage } env info blocks := by
              simp only [Machine.mempoolBlocks, undone, tip, ne_eq, not_true, if_false]
            simp only [Machine.record, Machine.execute, undone, indexing] at increasing ⊢
            have between : Increasing stage.db.db.log :=
              VersionedLog.increasing_prefix
                (Machine.indexSnapshot_log { machine with stage } env info blocks) increasing
            rcases chronicle.undoSnapshot invariant undone between with ⟨_, clean, idle, holds⟩
            exact clean.snapshot invariant idle holds valid increasing
          · have skipped : machine.mempoolBlocks env info blocks = ({ machine with stage }, .ok ()) := by
              simp only [Machine.mempoolBlocks, undone, ne_eq, tip, not_false_eq_true, if_true]
            simp only [Machine.record, Machine.execute, undone, skipped] at increasing ⊢
            rcases chronicle.undoSnapshot invariant undone increasing with ⟨ledger', clean, idle, _⟩
            rw [if_neg (by simpa using idle)]
            exact ⟨ledger', clean⟩

end Steps

/-- A history invariant holds after every run from an empty database without a UTXO cache. -/
theorem HistoryInvariant.run {indexers : List Indexer} {Good : History → (RawKey → Cell) → Prop}
    (names : Header → Point → Prop) (config : Config) (stage : Stage)
    (events : List (Env × ChainEvent))
    (invariant : HistoryInvariant indexers config.network Good)
    (fresh : Stage.new config (StorageHandler.openDb DB.empty) = .ok stage)
    (uncached : config.utxoCache = false) (valid : ∀ event ∈ events, event.2.Valid names)
    (increasing : Increasing ((Machine.bootstrap indexers stage).run events).stage.db.db.log) :
    ∃ ledger, Chronicle indexers config.network Good names config.genesisHash
      ((Machine.bootstrap indexers stage).run events)
      ((Machine.bootstrap indexers stage).history events) ledger := by
  induction events using List.reverseRecOn with
  | nil =>
      rw [Stage.new_empty, Except.ok.injEq] at fresh
      subst fresh
      refine ⟨[], rfl, rfl, by simp [Machine.bootstrap, Machine.run, Stage.empty, uncached], ?_, ?_,
        invariant.empty, by intro _; rfl⟩
      · refine ⟨trivial, by simp [Machine.history], chainTables_empty, rfl, ?_, rfl,
          ⟨[], trivial, rfl⟩, ?_, ?_⟩
        · apply Journal.nil rfl
          intro previous found
          cases found
        · intro some
          exact absurd rfl some
        · exact Nat.le_add_left 2 _
      · intro index entry found
        simp [confirmedEntries, Machine.bootstrap, Machine.run, Stage.empty] at found
  | append_singleton events event ih =>
      rcases event with ⟨env, event⟩
      rw [Machine.run_snoc] at increasing ⊢
      rw [Machine.history_snoc]
      have earlier : Increasing ((Machine.bootstrap indexers stage).run events).stage.db.db.log :=
        VersionedLog.increasing_prefix
          (((Machine.bootstrap indexers stage).run events).execute_log env event) increasing
      rcases ih (by
        intro other member
        exact valid other (List.mem_append_left _ member)) earlier with ⟨ledger, before⟩
      exact before.execute invariant (valid (env, event) (by simp)) increasing

end Symphony
