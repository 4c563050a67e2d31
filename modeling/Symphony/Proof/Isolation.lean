import Symphony.Proof.CacheTransparent
import Symphony.Proof.Replay

/-! Mempool snapshots leave no trace in the confirmed state.

A run is followed by a companion that is fed the same events without the mempool ones. -/

namespace Symphony

open Encdec
open UndoLog (Agree)
open VersionedLog (Increasing)

namespace Stage

theorem kept_idle {stage : Stage} (idle : stage.processedMempool = false) :
    stage.kept = stage.rollbackBuffer.points.length := by
  simp [kept, pseudo, idle]

theorem kept_le {stage other : Stage} (idle : stage.processedMempool = false)
    (idle' : other.processedMempool = false)
    (points : stage.rollbackBuffer.points.length ≤ other.rollbackBuffer.points.length) :
    stage.kept ≤ other.kept := by
  rw [kept_idle idle, kept_idle idle']
  exact points

end Stage

section Buffer

variable {names : Header → Point → Prop} {genesis : BlockHash} {machine : Machine}
variable {chain : List Point} {ledger : List LedgerEntry}

theorem Linked.index_inj (linked : Linked names genesis chain) {first second : Nat} {point : Point}
    (found : chain[first]? = some point) (found' : chain[second]? = some point) :
    first = second := by
  have one := linked.height_at found
  have two := linked.height_at found'
  omega

theorem ChainInv.position_ok (inv : ChainInv names genesis machine chain ledger) {point : Point}
    {index : Nat} (low : point.height ≠ u64Max)
    (found : machine.stage.rollbackBuffer.position point = some index) :
    ∃ below, index = machine.stage.pseudo.length + below ∧ below < machine.stage.kept ∧
      chain[below]? = some point := by
  rcases RollbackBuffer.position_some found with ⟨entry, listed, same, _⟩
  have mapped : (machine.stage.pseudo ++ chain.take machine.stage.kept)[index]? = some point := by
    rw [← inv.points, List.getElem?_map, listed, Option.map_some, same]
  have above : machine.stage.pseudo.length ≤ index := by
    by_contra inside
    rw [List.getElem?_append_left (by omega)] at mapped
    have member := List.mem_of_getElem? mapped
    simp only [Stage.pseudo] at member
    split at member
    · rw [List.mem_singleton.mp member] at low
      exact low rfl
    · cases member
  rw [List.getElem?_append_right above] at mapped
  refine ⟨index - machine.stage.pseudo.length, by omega, ?_⟩
  rw [List.getElem?_take] at mapped
  split at mapped
  · exact ⟨by assumption, mapped⟩
  · cases mapped

theorem ChainInv.position_of_kept (inv : ChainInv names genesis machine chain ledger) {point : Point}
    {below : Nat} (low : point.height ≠ u64Max) (kept : below < machine.stage.kept)
    (listed : chain[below]? = some point) :
    machine.stage.rollbackBuffer.position point = some (machine.stage.pseudo.length + below) := by
  have member : point ∈ machine.stage.rollbackBuffer.points.map PointWithOriginalKVs.point := by
    rw [inv.points, List.mem_append]
    right
    apply List.mem_of_getElem? (i := below)
    rw [List.getElem?_take_of_lt kept, listed]
  rcases List.mem_map.mp member with ⟨block, inside, same⟩
  cases found : machine.stage.rollbackBuffer.position point with
  | none =>
      rw [RollbackBuffer.position, List.findIdx?_eq_none_iff] at found
      exact absurd (found block inside) (by simpa using same)
  | some index =>
      rcases inv.position_ok low found with ⟨other, rfl, _, listed'⟩
      rw [inv.linked.index_inj listed listed']

/-- What a rollback to a confirmed point does to the buffer. -/
theorem ChainInv.kept_rollback (inv : ChainInv names genesis machine chain ledger) {now : U64}
    {accepted : Bool} {rbPoint : Point} {stage : Stage}
    (success : machine.stage.rollbackToPoint now accepted rbPoint = .ok stage)
    (low : rbPoint.height ≠ u64Max) :
    ∃ below, below < machine.stage.kept ∧ chain[below]? = some rbPoint ∧
      stage.kept = machine.stage.kept - below ∧ stage.processedMempool = false := by
  rcases Stage.rollbackToPoint_ok success with ⟨index, db, found, _, rfl⟩
  rcases inv.position_ok low found with ⟨below, rfl, inside, listed⟩
  refine ⟨below, inside, listed, ?_, rfl⟩
  rw [Stage.kept_idle rfl, List.length_drop, Stage.kept]
  omega

theorem kept_snapshot {stage : Stage} (idle : stage.processedMempool = false) (final : FinalizedTask)
    (db : StorageHandler) (cache : Option UtxoCache) :
    Stage.kept { stage with
      utxoCache := cache
      db
      processedMempool := true
      rollbackBuffer := final.originalKvs.elim stage.rollbackBuffer
        (stage.rollbackBuffer.addBlock (Machine.mempoolPoint stage.lastProcessed)) } ≤ stage.kept := by
  rw [Stage.kept_idle idle]
  cases final.originalKvs with
  | none => simp [Stage.kept, Stage.pseudo]
  | some kvs =>
      simp only [Stage.kept, Stage.pseudo, Option.elim_some, RollbackBuffer.addBlock, if_true,
        List.length_take, List.length_cons, List.length_nil]
      omega

end Buffer

def Env.Accepts (env : Env) : Prop := env.undoAccepted = true ∧ env.commitAccepted = true

instance (env : Env) : Decidable env.Accepts := inferInstanceAs (Decidable (_ ∧ _))

theorem StorageHandler.applyIndexingTask_accepted (handler : StorageHandler) (now : U64)
    (task : FinalizedTask) (point : Point) (maxRollback : U64) (timestamp : Option U64) :
    ∃ after, handler.applyIndexingTask now true task point maxRollback timestamp = .ok after := by
  simp only [applyIndexingTask, commit, if_true, bind, Except.bind, pure, Except.pure]
  exact ⟨_, rfl⟩

theorem Machine.indexForward_accepted {machine : Machine} {env : Env} {point tip : Point}
    {txs : BlockTxs} {final : FinalizedTask} (accepted : env.commitAccepted = true)
    (indexed : (indexBlock machine.worker.indexers
      (machine.stage.db.beginIndexingTask (machine.mutableAt point tip)) point txs
      machine.stage.network (machine.liveCache env)).2 = .ok final) :
    (machine.indexForward env point txs tip).2 = .ok () := by
  rcases machine.stage.db.applyIndexingTask_accepted env.commitNow final point
    machine.stage.maxRollbacks none with ⟨db, applied⟩
  rw [← accepted] at applied
  rw [mutableAt] at indexed
  simp only [indexForward, indexed, orRestart, orElse, applied]

def ChainEvent.isMempool : ChainEvent → Bool
  | .mempoolBlocks _ _ => true
  | _ => false

/-- The companion stands where the run stands, with at least its confirmed blocks in the buffer
and no snapshot. -/
structure Companion (machine other : Machine) : Prop where
  worker : other.worker = machine.worker
  network : other.stage.network = machine.stage.network
  maxRollbacks : other.stage.maxRollbacks = machine.stage.maxRollbacks
  tip : other.stage.lastProcessed = machine.stage.lastProcessed
  idle : other.stage.processedMempool = false
  size : other.stage.rollbackBuffer.size = machine.stage.rollbackBuffer.size
  kept : machine.stage.kept ≤ other.stage.kept

def History.chain (history : History) : List (Point × BlockTxs) :=
  history.confirmed.map IndexedBlock.content

section Steps

variable {indexers : List Indexer} {network : Network} {names : Header → Point → Prop}
variable {genesis : BlockHash} {machine other : Machine} {history history' : History}
variable {ledger ledger' : List LedgerEntry}

theorem Companion.rollback (companion : Companion machine other) {chain : List Point}
    (inv : ChainInv names genesis machine chain ledger) {now : U64} {accepted : Bool}
    {rbPoint : Point} {stage : Stage}
    (success : machine.stage.rollbackToPoint now accepted rbPoint = .ok stage)
    (low : rbPoint.height ≠ u64Max) (stays : rbPoint = machine.stage.lastProcessed) :
    Companion { machine with stage } other := by
  rcases inv.kept_rollback success low with ⟨below, _, _, kept, _⟩
  rcases Stage.rollbackToPoint_ok success with ⟨index, db, _, _, rfl⟩
  refine ⟨companion.worker, companion.network, companion.maxRollbacks, ?_, companion.idle,
    companion.size, ?_⟩
  · rw [companion.tip, stays]
  · have before := companion.kept
    rw [kept]
    omega

theorem Companion.undoMempool (companion : Companion machine other) {chain : List Point}
    (inv : ChainInv names genesis machine chain ledger) {env : Env} {stage : Stage}
    (success : Machine.undoMempool machine.stage env = .ok stage) :
    Companion { machine with stage } other := by
  rcases Machine.undoMempool_cases success with ⟨_, rfl⟩ | ⟨_, undone⟩
  · exact companion
  · exact companion.rollback inv undone inv.tip_low rfl

theorem Companion.mempool (companion : Companion machine other) {chain : List Point}
    (inv : ChainInv names genesis machine chain ledger) (env : Env) (info : MempoolSnapshotInfo)
    (blocks : List BlockTxs) :
    Companion (machine.mempoolBlocks env info blocks).1 other := by
  rcases machine.mempoolBlocks_cases env info blocks with
    ⟨failure, result⟩ | ⟨stage, undone, ended⟩
  · rw [result]
    exact companion
  · have clean : Companion { machine with stage } other ∧ stage.processedMempool = false := by
      rcases Machine.undoSnapshot_cases undone with ⟨front, rfl⟩ | undone
      · exact ⟨companion, inv.idle_of_front front⟩
      · refine ⟨companion.rollback inv undone inv.tip_low rfl, ?_⟩
        rcases Stage.rollbackToPoint_ok undone with ⟨_, _, _, _, rfl⟩
        rfl
    rcases ended with ⟨_, result⟩ | ⟨_, result⟩
    · rw [result]
      exact clean.1
    · rw [result]
      rcases Machine.indexSnapshot_cases { machine with stage } env info blocks with
        ⟨cache, ⟨failure, result⟩ | ⟨final, db, _, _, result⟩⟩
      · rw [result]
        exact ⟨clean.1.worker, clean.1.network, clean.1.maxRollbacks, clean.1.tip, clean.1.idle,
          clean.1.size, clean.1.kept⟩
      · rw [result]
        refine ⟨clean.1.worker, clean.1.network, clean.1.maxRollbacks, clean.1.tip, clean.1.idle, ?_,
          le_trans (kept_snapshot clean.2 final db cache) clean.1.kept⟩
        cases final.originalKvs with
        | none => exact clean.1.size
        | some kvs => exact clean.1.size

theorem Chronicle.agree
    (chronicle : Chronicle indexers network (Reflects indexers network) names genesis machine
      history ledger)
    (chronicle' : Chronicle indexers network (Reflects indexers network) names genesis other
      history' ledger')
    (same : history'.chain = history.chain)
    (snapshot : history'.snapshot.map IndexedBlock.content =
      history.snapshot.map IndexedBlock.content) :
    Agree IsData other.stage.db.db.view machine.stage.db.db.view :=
  Reflects.agree chronicle.now chronicle'.now same snapshot

theorem Companion.forward (companion : Companion machine other)
    (chronicle : Chronicle indexers network (Reflects indexers network) names genesis machine
      history ledger)
    (chronicle' : Chronicle indexers network (Reflects indexers network) names genesis other
      history' ledger')
    (same : history'.chain = history.chain) (idle : machine.stage.processedMempool = false)
    {env env' : Env} {point tip : Point} {txs : BlockTxs}
    (accepts : env'.Accepts) (success : (machine.indexForward env point txs tip).2 = .ok ()) :
    (other.indexForward env' point txs tip).2 = .ok () ∧
      Companion (machine.indexForward env point txs tip).1
        (other.indexForward env' point txs tip).1 ∧
      (other.indexForward env' point txs tip).1.stage.lastProcessed = point ∧
      (machine.indexForward env point txs tip).1.stage.lastProcessed = point := by
  have agree : Agree IsData other.stage.db.db.view machine.stage.db.db.view := by
    apply chronicle.agree chronicle' same
    rw [chronicle.idle idle, chronicle'.idle companion.idle]
  have flag : other.mutableAt point tip = machine.mutableAt point tip := by
    rw [Machine.mutableAt, Machine.mutableAt, companion.worker, companion.maxRollbacks]
  rcases machine.indexForward_cases env point txs tip with
    ⟨cache, ⟨failure, result⟩ | ⟨final, db, indexed, applied, result⟩⟩
  · rw [result] at success
    cases success
  · rw [chronicle.liveCache env] at indexed
    have begun : Twins True (machine.stage.db.beginIndexingTask (machine.mutableAt point tip))
        (other.stage.db.beginIndexingTask (machine.mutableAt point tip)) :=
      Twins.begun chronicle.chain.journal.current chronicle'.chain.journal.current agree (Or.inl rfl)
    rcases (indexBlock_twins machine.worker.indexers point txs machine.stage.network none none begun
      (begun.resolved txs point machine.stage.network none)).ok (congrArg Prod.snd indexed) with
      ⟨final', indexed', twins⟩
    rw [← flag, ← chronicle'.liveCache env', ← companion.network, ← companion.worker] at indexed'
    have success' := Machine.indexForward_accepted accepts.2 indexed'
    refine ⟨success', ?_⟩
    rcases other.indexForward_cases env' point txs tip with
      ⟨cache', ⟨failure, result'⟩ | ⟨final'', db', indexed'', applied', result'⟩⟩
    · rw [result'] at success'
      cases success'
    · obtain rfl : final' = final'' := by
        rw [indexed''] at indexed'
        exact (Except.ok.inj indexed').symm
      rw [result, result']
      refine ⟨⟨?_, companion.network, companion.maxRollbacks, rfl, companion.idle, ?_, ?_⟩, rfl, rfl⟩
      · simp only [companion.worker, flag]
      · rcases final'.originalKvs with none | kvs
        all_goals
          rcases final.originalKvs with none | kvs
          all_goals exact companion.size
      · have kept := companion.kept
        rw [Stage.kept_idle idle, Stage.kept_idle companion.idle] at kept
        have grown : (final.originalKvs.elim machine.stage.rollbackBuffer
              (machine.stage.rollbackBuffer.addBlock point)).points.length ≤
            (final'.originalKvs.elim other.stage.rollbackBuffer
              (other.stage.rollbackBuffer.addBlock point)).points.length := by
          rcases twins.originals with originals | ⟨strict, _⟩
          · rw [originals]
            cases final.originalKvs with
            | none => exact kept
            | some kvs =>
                simp only [Option.elim_some, RollbackBuffer.addBlock, List.length_take,
                  List.length_cons, companion.size]
                omega
          · exact absurd trivial strict
        exact Stage.kept_le idle companion.idle grown

theorem chain_dropWhile (point : Point) (confirmed : List IndexedBlock) :
    (confirmed.dropWhile (fun block => block.point ≠ point)).map IndexedBlock.content =
      (confirmed.map IndexedBlock.content).dropWhile (fun content => content.1 ≠ point) := by
  rw [List.dropWhile_map]
  rfl

theorem Companion.rolledBack (companion : Companion machine other)
    (chronicle : Chronicle indexers network (Reflects indexers network) names genesis machine
      history ledger)
    (chronicle' : Chronicle indexers network (Reflects indexers network) names genesis other
      history' ledger')
    (same : history'.chain = history.chain) {env env' : Env} {rbPoint : Point} {stage : Stage}
    (accepts : env'.Accepts) (low : rbPoint.height ≠ u64Max)
    (success : machine.stage.rollbackToPoint env.undoNow env.undoAccepted rbPoint = .ok stage) :
    ∃ stage', other.stage.rollbackToPoint env'.undoNow env'.undoAccepted rbPoint = .ok stage' ∧
      Companion { machine with stage } { other with stage := stage' } := by
  have points : history'.confirmed.map IndexedBlock.point =
      history.confirmed.map IndexedBlock.point := by
    have first := congrArg (List.map Prod.fst) same
    rw [History.chain, History.chain, List.map_map, List.map_map] at first
    exact first
  rcases chronicle.chain.kept_rollback success low with ⟨below, inside, listed, kept, _⟩
  have found : other.stage.rollbackBuffer.position rbPoint =
      some (other.stage.pseudo.length + below) := by
    apply chronicle'.chain.position_of_kept low (lt_of_lt_of_le inside companion.kept)
    rw [points]
    exact listed
  rcases Stage.rollbackToPoint_accepted env'.undoNow found with ⟨stage', success'⟩
  rw [← accepts.1] at success'
  refine ⟨stage', success', ?_⟩
  rcases chronicle'.chain.kept_rollback success' low with ⟨below', _, listed', kept', _⟩
  obtain rfl : below = below' := by
    rw [points] at listed'
    exact chronicle.chain.linked.index_inj listed listed'
  rcases Stage.rollbackToPoint_ok success with ⟨_, _, _, _, rfl⟩
  rcases Stage.rollbackToPoint_ok success' with ⟨_, _, _, _, rfl⟩
  refine ⟨companion.worker, companion.network, companion.maxRollbacks, rfl, rfl, companion.size, ?_⟩
  have before := companion.kept
  rw [kept, kept']
  omega

theorem record_forward {env : Env} {point tip : Point} {header : Header} {txs : BlockTxs}
    {stage : Stage} (undone : Machine.undoMempool machine.stage env = .ok stage) :
    (machine.record history env (.rollForward point header txs tip)).chain =
      if (machine.execute env (.rollForward point header txs tip)).1.stage.lastProcessed =
        machine.stage.lastProcessed then history.chain else (point, txs) :: history.chain := by
  simp only [Machine.record, undone]
  split
  · rfl
  · rfl

/-- The companion follows every event on confirmed blocks. -/
theorem Companion.step (companion : Companion machine other)
    (chronicle : Chronicle indexers network (Reflects indexers network) names genesis machine
      history ledger)
    (chronicle' : Chronicle indexers network (Reflects indexers network) names genesis other
      history' ledger')
    (same : history'.chain = history.chain) {env env' : Env} {event : ChainEvent}
    (accepts : env'.Accepts) (valid : event.Valid names) (confirmed : event.isMempool = false)
    (success : (machine.execute env event).2 = .ok ())
    (increasing : Increasing (machine.execute env event).1.stage.db.db.log) :
    (other.execute env' event).2 = .ok () ∧
      Companion (machine.execute env event).1 (other.execute env' event).1 ∧
      (other.record history' env' event).chain = (machine.record history env event).chain := by
  cases event with
  | mempoolBlocks info blocks => cases confirmed
  | rollBack rbPoint =>
      rw [Machine.execute] at success
      rcases machine.rollBack_cases env rbPoint with ⟨failure, result⟩ | ⟨stage, undone, result⟩
      · rw [result] at success
        cases success
      · rcases companion.rolledBack chronicle chronicle' same accepts valid undone with
          ⟨stage', undone', next⟩
        have result' : other.rollBack env' rbPoint = ({ other with stage := stage' }, .ok ()) := by
          rw [Machine.rollBack, undone']
        simp only [Machine.execute, result, result', Machine.record, undone, undone']
        refine ⟨trivial, next, ?_⟩
        rw [History.chain, History.chain, chain_dropWhile, chain_dropWhile]
        rw [History.chain, History.chain] at same
        rw [same]
  | rollForward point header txs tip =>
      have kept : Machine.undoMempool other.stage env' = .ok other.stage := by
        rw [Machine.undoMempool, if_neg (by simp [companion.idle])]
      rw [Machine.execute] at success increasing
      rcases machine.rollForward_cases env point header txs tip with
        ⟨failure, result⟩ | ⟨stage, undone, ⟨outcome, below, result⟩ | ⟨height, parent, result⟩⟩
      · rw [result] at success
        cases success
      · rw [result] at success
        have next := companion.undoMempool chronicle.chain undone
        have result' : other.rollForward env' point header txs tip = (other, .ok ()) := by
          have low := below success
          rw [← show other.stage.lastProcessed = stage.lastProcessed from next.tip] at low
          simp only [Machine.rollForward, kept, if_pos low]
        rw [record_forward kept, record_forward undone, Machine.execute, Machine.execute, result,
          result', same, if_pos rfl, if_pos (Machine.undoMempool_lastProcessed undone)]
        exact ⟨rfl, next, rfl⟩
      · rw [result] at success increasing
        have between : Increasing stage.db.db.log :=
          VersionedLog.increasing_prefix
            (Machine.indexForward_log { machine with stage } env point txs tip) increasing
        rcases chronicle.undoMempool (reflects_invariant indexers network) undone between with
          ⟨_, clean, idle⟩
        have next := companion.undoMempool chronicle.chain undone
        rcases next.forward clean chronicle' same idle accepts success with
          ⟨success', after, moved', moved⟩
        have tips : other.stage.lastProcessed = stage.lastProcessed := next.tip
        have result' : other.rollForward env' point header txs tip =
            other.indexForward env' point txs tip := by
          simp only [Machine.rollForward, kept, tips, height, parent, ne_eq, not_true, if_false,
            BitVec.lt_irrefl]
        rw [record_forward kept, record_forward undone, Machine.execute, Machine.execute, result,
          result', same, moved, moved', companion.tip]
        exact ⟨success', after, rfl⟩

end Steps

section Runs

def Machine.Completes (machine : Machine) : List (Env × ChainEvent) → Prop
  | [] => True
  | (env, event) :: events => (machine.execute env event).2 = .ok () ∧
      (machine.execute env event).1.Completes events

instance Machine.decidableCompletes (machine : Machine) :
    (events : List (Env × ChainEvent)) → Decidable (machine.Completes events)
  | [] => inferInstanceAs (Decidable True)
  | (env, event) :: events =>
      have := Machine.decidableCompletes (machine.execute env event).1 events
      inferInstanceAs (Decidable (_ ∧ _))

theorem Machine.completes_snoc (machine : Machine) (events : List (Env × ChainEvent)) (env : Env)
    (event : ChainEvent) :
    machine.Completes (events ++ [(env, event)]) ↔
      machine.Completes events ∧ ((machine.run events).execute env event).2 = .ok () := by
  induction events generalizing machine with
  | nil => simp [Machine.Completes, Machine.run]
  | cons first events ih =>
      rcases first with ⟨env', event'⟩
      rw [List.cons_append, Machine.Completes, Machine.Completes, ih, and_assoc]
      rfl

def confirmedEvents (events : List (Env × ChainEvent)) : List ChainEvent :=
  (events.map Prod.snd).filter (fun event => !event.isMempool)

theorem confirmedEvents_valid {names : Header → Point → Prop}
    {events others : List (Env × ChainEvent)} (same : others.map Prod.snd = confirmedEvents events)
    (fed : ∀ event ∈ events, event.2.Valid names) : ∀ event ∈ others, event.2.Valid names := by
  intro event member
  have listed := List.mem_map_of_mem (f := Prod.snd) member
  rw [same, confirmedEvents, List.mem_filter, List.mem_map] at listed
  rcases listed with ⟨⟨item, inside, equal⟩, _⟩
  rw [← equal]
  exact fed item inside

theorem confirmedEvents_snoc (events : List (Env × ChainEvent)) (env : Env) (event : ChainEvent) :
    confirmedEvents (events ++ [(env, event)]) =
      confirmedEvents events ++ if event.isMempool then [] else [event] := by
  cases mempool : event.isMempool with
  | true => simp [confirmedEvents, mempool]
  | false => simp [confirmedEvents, mempool]

theorem record_mempool (machine : Machine) (history : History) (env : Env) {event : ChainEvent}
    (mempool : event.isMempool = true) :
    (machine.record history env event).chain = history.chain := by
  cases event with
  | rollForward point header txs tip => cases mempool
  | rollBack point => cases mempool
  | mempoolBlocks info blocks =>
      simp only [Machine.record]
      split
      · rfl
      · split
        · rfl
        · rfl

/-- The events are as the stage is fed them, all calls succeed, and commits are ordered. -/
structure Machine.Clean (names : Header → Point → Prop) (machine : Machine)
    (events : List (Env × ChainEvent)) : Prop where
  fed : ∀ event ∈ events, event.2.Valid names
  completes : machine.Completes events
  increasing : Increasing (machine.run events).stage.db.db.log

theorem Machine.Clean.front {names : Header → Point → Prop} {machine : Machine}
    {events : List (Env × ChainEvent)} {env : Env} {event : ChainEvent}
    (clean : machine.Clean names (events ++ [(env, event)])) : machine.Clean names events := by
  constructor
  · intro other member
    exact clean.fed other (List.mem_append_left _ member)
  · exact ((machine.completes_snoc events env event).mp clean.completes).1
  · have increasing := clean.increasing
    rw [Machine.run_snoc] at increasing
    exact VersionedLog.increasing_prefix ((machine.run events).execute_log env event) increasing

section Validity

variable {chain other : List IndexedBlock}

theorem txIds_of_contents (same : other.map IndexedBlock.content = chain.map IndexedBlock.content) :
    other.flatMap IndexedBlock.txIds = chain.flatMap IndexedBlock.txIds := by
  have ids (blocks : List IndexedBlock) : blocks.flatMap IndexedBlock.txIds =
      (blocks.map IndexedBlock.content).flatMap
        (fun content => content.2.map TransactionWithId.txId) := by
    rw [List.flatMap_map]
    rfl
  rw [ids, ids, same]

theorem liveRefs_of_contents
    (same : other.map IndexedBlock.content = chain.map IndexedBlock.content) :
    liveRefs (unspent other) = liveRefs (unspent chain) := by
  induction chain generalizing other with
  | nil =>
      rw [List.map_nil, List.map_eq_nil_iff] at same
      rw [same]
  | cons block below ih =>
      cases other with
      | nil => cases same
      | cons block' below' =>
          rw [List.map_cons, List.map_cons, List.cons.injEq] at same
          have txs : block'.txs = block.txs := congrArg Prod.snd same.1
          rw [unspent, unspent, liveRefs_applyTxs, liveRefs_applyTxs, txs, ih same.2]

theorem validBlocks_of_contents {coinbase : Bool}
    (same : other.map IndexedBlock.content = chain.map IndexedBlock.content)
    (valid : ValidBlocks coinbase [] chain) : ValidBlocks coinbase [] other := by
  induction chain generalizing other with
  | nil =>
      rw [List.map_nil, List.map_eq_nil_iff] at same
      rw [same]
      trivial
  | cons block below ih =>
      cases other with
      | nil => cases same
      | cons block' below' =>
          rw [List.map_cons, List.map_cons, List.cons.injEq] at same
          have txs : block'.txs = block.txs := congrArg Prod.snd same.1
          have first := valid.1
          rw [List.append_nil] at first
          refine ⟨?_, ih same.2 valid.2⟩
          rw [List.append_nil, txs, liveRefs_of_contents same.2]
          exact first

theorem ValidOn.congr {coinbase : Bool} {txs : BlockTxs} (sound : ValidOn coinbase chain txs)
    (same : other.map IndexedBlock.content = chain.map IndexedBlock.content) :
    ValidOn coinbase other txs := by
  have ids := txIds_of_contents same
  refine ⟨⟨?_, validBlocks_of_contents same sound.base.confirmed, trivial⟩, ?_, ?_⟩
  · have distinct := sound.base.distinct
    simp only [History.blocks, List.nil_append] at distinct ⊢
    rw [ids]
    exact distinct
  · rw [liveRefs_of_contents same]
    exact sound.valid
  · rw [ids]
    exact sound.distinct

theorem ChainEvent.ValidOn.congr {tip : Point} {history history' : History} {event : ChainEvent}
    (valid : event.ValidOn tip history) (same : history'.chain = history.chain) :
    event.ValidOn tip history' := by
  cases event with
  | rollForward point header txs next =>
      intro height parent
      exact (valid height parent).congr same
  | rollBack point => trivial
  | mempoolBlocks info blocks =>
      intro onTip
      exact (valid onTip).congr same

end Validity

theorem Machine.Clean.reflects {names : Header → Point → Prop} {config : Config}
    {indexers : List Indexer} {events : List (Env × ChainEvent)}
    (uncached : config.utxoCache = false)
    (clean : (Machine.bootstrap indexers (Stage.empty config)).Clean names events) :
    let start := Machine.bootstrap indexers (Stage.empty config)
    ∃ ledger, Chronicle indexers config.network (Reflects indexers config.network) names
      config.genesisHash (start.run events) (start.history events) ledger :=
  (reflects_invariant indexers config.network).run names config _ events (Stage.new_empty config)
    uncached clean.fed clean.increasing

/-- One more event on confirmed blocks, for a run and for its companion. -/
theorem Companion.snoc {names : Header → Point → Prop} {config : Config} {indexers : List Indexer}
    {events front : List (Env × ChainEvent)} {env env' : Env} {event : ChainEvent}
    (uncached : config.utxoCache = false) (accepts : env'.Accepts)
    (confirmed : event.isMempool = false) :
    let start := Machine.bootstrap indexers (Stage.empty config)
    start.Clean names (events ++ [(env, event)]) → start.Clean names front →
    Companion (start.run events) (start.run front) →
    (start.history front).chain = (start.history events).chain →
    Increasing (start.run (front ++ [(env', event)])).stage.db.db.log →
      start.Clean names (front ++ [(env', event)]) ∧
        Companion (start.run (events ++ [(env, event)])) (start.run (front ++ [(env', event)])) ∧
        (start.history (front ++ [(env', event)])).chain =
          (start.history (events ++ [(env, event)])).chain := by
  intro start clean clean' companion chains increasing
  rcases clean.front.reflects uncached with ⟨_, chronicle⟩
  rcases clean'.reflects uncached with ⟨_, chronicle'⟩
  have fed : event.Valid names := clean.fed (env, event) (by simp)
  have success := ((start.completes_snoc events env event).mp clean.completes).2
  have ordered := clean.increasing
  rw [Machine.run_snoc] at ordered
  rcases companion.step chronicle chronicle' chains accepts fed confirmed success ordered with
    ⟨success', next, chains'⟩
  refine ⟨⟨?_, ?_, increasing⟩, ?_, ?_⟩
  · intro other member
    rcases List.mem_append.mp member with old | new
    · exact clean'.fed other old
    · rw [List.mem_singleton.mp new]
      exact fed
  · exact (start.completes_snoc front env' event).mpr ⟨clean'.completes, success'⟩
  · rw [Machine.run_snoc, Machine.run_snoc]
    exact next
  · rw [Machine.history_snoc, Machine.history_snoc]
    exact chains'

/-- Without the mempool events the run goes through as well and ends on the same blocks. -/
theorem Companion.run (names : Header → Point → Prop) (config : Config) (indexers : List Indexer)
    (uncached : config.utxoCache = false) (events others : List (Env × ChainEvent))
    (clean : (Machine.bootstrap indexers (Stage.empty config)).Clean names events)
    (same : others.map Prod.snd = confirmedEvents events)
    (accepts : ∀ event ∈ others, event.1.Accepts)
    (increasing : ∀ front, front <+: others →
      ((Machine.bootstrap indexers (Stage.empty config)).ValidFrom ⟨[], []⟩ events →
        (Machine.bootstrap indexers (Stage.empty config)).ValidFrom ⟨[], []⟩ front) →
      Increasing ((Machine.bootstrap indexers (Stage.empty config)).run front).stage.db.db.log) :
    let start := Machine.bootstrap indexers (Stage.empty config)
    start.Clean names others ∧ Companion (start.run events) (start.run others) ∧
      (start.history others).chain = (start.history events).chain ∧
      (start.ValidFrom ⟨[], []⟩ events → start.ValidFrom ⟨[], []⟩ others) := by
  intro start
  induction events using List.reverseRecOn generalizing others with
  | nil =>
      obtain rfl : others = [] := List.map_eq_nil_iff.mp same
      refine ⟨clean, ?_, rfl, by intro valid; exact valid⟩
      exact ⟨rfl, rfl, rfl, rfl, rfl, rfl, le_refl _⟩
  | append_singleton events last ih =>
      rcases last with ⟨env, event⟩
      rw [confirmedEvents_snoc] at same
      have earlier := clean.front
      rcases earlier.reflects uncached with ⟨ledger, chronicle⟩
      cases mempool : event.isMempool with
      | true =>
          rw [mempool, if_pos rfl, List.append_nil] at same
          rcases ih others earlier same accepts (by
            intro shorter inside follows
            apply increasing shorter inside
            intro valid
            exact follows ((start.validFrom_snoc events env event).mp valid).1) with
            ⟨clean', companion, chains, transports⟩
          refine ⟨clean', ?_, ?_, ?_⟩
          · cases event with
            | rollForward point header txs tip => cases mempool
            | rollBack point => cases mempool
            | mempoolBlocks info blocks =>
                rw [Machine.run_snoc]
                exact companion.mempool chronicle.chain env info blocks
          · rw [Machine.history_snoc, record_mempool _ _ _ mempool]
            exact chains
          · intro valid
            exact transports ((start.validFrom_snoc events env event).mp valid).1
      | false =>
          rw [mempool, if_neg (by simp)] at same
          rcases List.eq_nil_or_concat others with none | ⟨front, ⟨env', event'⟩, rfl⟩
          · rw [none] at same
            exact absurd same.symm (by simp)
          · rw [List.concat_eq_append] at same accepts increasing ⊢
            rw [List.map_append, List.map_singleton] at same
            rcases List.append_inj' same rfl with ⟨fronts, lasts⟩
            obtain rfl : event' = event := by simpa using lasts
            rcases ih front earlier fronts (by
              intro other member
              exact accepts other (List.mem_append_left _ member)) (by
              intro shorter inside follows
              apply increasing shorter (inside.trans (List.prefix_append _ _))
              intro valid
              exact follows ((start.validFrom_snoc events env event').mp valid).1) with
              ⟨clean', companion, chains, transports⟩
            have transports' : start.ValidFrom ⟨[], []⟩ (events ++ [(env, event')]) →
                start.ValidFrom ⟨[], []⟩ (front ++ [(env', event')]) := by
              intro valid
              rcases (start.validFrom_snoc events env event').mp valid with ⟨before, on⟩
              refine (start.validFrom_snoc front env' event').mpr ⟨transports before, ?_⟩
              rw [companion.tip]
              exact on.congr chains
            rcases companion.snoc uncached (accepts (env', event') (by simp)) mempool clean clean'
              chains (increasing _ List.prefix_rfl transports') with ⟨done, next, chains'⟩
            exact ⟨done, next, chains', transports'⟩

/-- The confirmed chain after one more event that was processed, newest block first. -/
def ChainEvent.extend (chain : List (Point × BlockTxs)) : ChainEvent → List (Point × BlockTxs)
  | .rollForward point _ txs _ =>
      if point.height.toNat = chain.length + 1 then (point, txs) :: chain else chain
  | .rollBack point => chain.dropWhile (fun block => block.1 ≠ point)
  | .mempoolBlocks _ _ => chain

def confirmedChain (events : List (Env × ChainEvent)) : List (Point × BlockTxs) :=
  events.foldl (fun chain event => event.2.extend chain) []

section Chains

variable {indexers : List Indexer} {network : Network} {names : Header → Point → Prop}
variable {genesis : BlockHash} {machine : Machine} {history : History} {ledger : List LedgerEntry}
variable {Good : History → (RawKey → Cell) → Prop}

theorem Chronicle.chain_record
    (chronicle : Chronicle indexers network Good names genesis machine history ledger) {env : Env}
    {event : ChainEvent} (success : (machine.execute env event).2 = .ok ()) :
    (machine.record history env event).chain = event.extend history.chain := by
  cases event with
  | mempoolBlocks info blocks => exact record_mempool machine history env rfl
  | rollBack point =>
      rw [Machine.execute, Machine.rollBack] at success
      simp only [Machine.record]
      cases undone : machine.stage.rollbackToPoint env.undoNow env.undoAccepted point with
      | error failure =>
          rw [undone] at success
          cases success
      | ok stage => exact chain_dropWhile point history.confirmed
  | rollForward point header txs tip =>
      have height := chronicle.height
      have length : history.chain.length = history.confirmed.length := List.length_map _
      have bound := machine.stage.lastProcessed.height.isLt
      have low : machine.stage.lastProcessed.height.toNat ≠ 2 ^ 64 - 1 := by
        intro full
        apply chronicle.chain.tip_low
        apply BitVec.eq_of_toNat_eq
        rw [full, u64Max, BitVec.toNat_allOnes]
      have next : (machine.stage.lastProcessed.height + 1).toNat = history.chain.length + 1 := by
        rw [BitVec.toNat_add, show (1 : U64).toNat = 1 from rfl, length]
        omega
      rcases machine.rollForward_cases env point header txs tip with
        ⟨failure, result⟩ | ⟨stage, undone, ⟨outcome, below, result⟩ | ⟨extends', parent, result⟩⟩
      · rw [Machine.execute, result] at success
        cases success
      · have tips := Machine.undoMempool_lastProcessed undone
        rw [record_forward undone, Machine.execute, result, if_pos tips]
        rw [Machine.execute, result] at success
        have under := below success
        rw [tips, BitVec.lt_def, next] at under
        rw [ChainEvent.extend, if_neg (by omega)]
      · have tips := Machine.undoMempool_lastProcessed undone
        rw [tips] at extends'
        have extended : (ChainEvent.rollForward point header txs tip).extend history.chain =
            (point, txs) :: history.chain := by
          rw [ChainEvent.extend, if_pos (by rw [extends', next])]
        rw [record_forward undone, extended]
        rw [Machine.execute, result] at success ⊢
        rcases Machine.indexForward_cases { machine with stage } env point txs tip with
          ⟨cache, ⟨failure, failed⟩ | ⟨final, db, _, _, indexed⟩⟩
        · rw [failed] at success
          cases success
        · rw [indexed, if_neg]
          intro same
          have heights := congrArg (fun point => point.height.toNat) same
          have rose := congrArg BitVec.toNat extends'
          rw [next] at rose
          simp only at heights
          omega

theorem record_snapshot_confirmed {env : Env} {event : ChainEvent}
    (confirmed : event.isMempool = false) (success : (machine.execute env event).2 = .ok ()) :
    (machine.record history env event).snapshot = [] := by
  cases event with
  | mempoolBlocks info blocks => cases confirmed
  | rollBack point =>
      rw [Machine.execute, Machine.rollBack] at success
      simp only [Machine.record]
      cases undone : machine.stage.rollbackToPoint env.undoNow env.undoAccepted point with
      | error failure =>
          rw [undone] at success
          cases success
      | ok stage => rfl
  | rollForward point header txs tip =>
      rw [Machine.execute, Machine.rollForward] at success
      simp only [Machine.record]
      cases undone : Machine.undoMempool machine.stage env with
      | error failure =>
          rw [undone] at success
          cases success
      | ok stage =>
          simp only
          split
          · rfl
          · rfl

def pseudoContents (tip : Point) (blocks : List BlockTxs) : List (Point × BlockTxs) :=
  (blocks.zipIdx.map (fun block => (pseudoPoint tip block.2, block.1))).reverse

/-- A mempool event that succeeds leaves its own blocks, or none when it is not for the tip. -/
theorem Chronicle.record_snapshot_mempool
    (chronicle : Chronicle indexers network Good names genesis machine history ledger) {env : Env}
    {info : MempoolSnapshotInfo} {blocks : List BlockTxs}
    (success : (machine.execute env (.mempoolBlocks info blocks)).2 = .ok ()) :
    (machine.execute env (.mempoolBlocks info blocks)).1.stage.lastProcessed =
      machine.stage.lastProcessed ∧
    (machine.record history env (.mempoolBlocks info blocks)).snapshot.map IndexedBlock.content =
      if info.tip = machine.stage.lastProcessed.hash then
        pseudoContents machine.stage.lastProcessed blocks else [] := by
  cases undone : Machine.undoSnapshot machine.stage env with
  | error failure =>
      simp only [Machine.execute, Machine.mempoolBlocks, undone] at success
      cases success
  | ok stage =>
      have tips := Machine.undoSnapshot_lastProcessed undone
      have idle : stage.processedMempool = false := by
        rcases Machine.undoSnapshot_cases undone with ⟨front, rfl⟩ | rolled
        · exact chronicle.chain.idle_of_front front
        · rcases Stage.rollbackToPoint_ok rolled with ⟨_, _, _, _, rfl⟩
          rfl
      by_cases tip : info.tip = stage.lastProcessed.hash
      · have indexing : machine.mempoolBlocks env info blocks =
            Machine.indexSnapshot { machine with stage } env info blocks := by
          simp only [Machine.mempoolBlocks, undone, tip, ne_eq, not_true, if_false]
        rw [Machine.execute, indexing] at success
        rcases Machine.indexSnapshot_cases { machine with stage } env info blocks with
          ⟨cache, ⟨failure, failed⟩ | ⟨final, db, indexed, applied, result⟩⟩
        · rw [failed] at success
          cases success
        · have flag : (machine.execute env (.mempoolBlocks info blocks)).1.stage.processedMempool =
              true := by
            rw [Machine.execute, indexing, result]
          refine ⟨by rw [Machine.execute, indexing, result]; exact tips, ?_⟩
          rw [← tips, if_pos tip]
          simp only [Machine.record, undone, if_pos flag]
          rcases indexMempool_run indexed with ⟨resolved, ctx, task, inner, created, ran, _⟩
          have listed := pseudoBlocks_contents ran
          rw [snapshotBlocks, created, List.map_reverse, pseudoContents, ← listed]
      · have skipped : machine.mempoolBlocks env info blocks = ({ machine with stage }, .ok ()) := by
          simp only [Machine.mempoolBlocks, undone, ne_eq, tip, not_false_eq_true, if_true]
        have flag : (machine.execute env (.mempoolBlocks info blocks)).1.stage.processedMempool ≠
            true := by
          rw [Machine.execute, skipped]
          simpa using idle
        refine ⟨by rw [Machine.execute, skipped]; exact tips, ?_⟩
        rw [← tips, if_neg tip]
        simp only [Machine.record, undone, if_neg flag, List.map_nil]

variable {other : Machine} {history' : History} {ledger' : List LedgerEntry}
variable {Good' : History → (RawKey → Cell) → Prop}

theorem Chronicle.same_tip
    (chronicle : Chronicle indexers network Good names genesis machine history ledger)
    (chronicle' : Chronicle indexers network Good' names genesis other history' ledger')
    (same : history'.chain = history.chain) :
    other.stage.lastProcessed = machine.stage.lastProcessed := by
  have points : history'.confirmed.map IndexedBlock.point =
      history.confirmed.map IndexedBlock.point := by
    have contents := congrArg (List.map Prod.fst) same
    rw [History.chain, History.chain, List.map_map, List.map_map] at contents
    exact contents
  rw [chronicle.chain.tip, chronicle'.chain.tip, points]

theorem Chronicle.record_mempool_same
    (chronicle : Chronicle indexers network Good names genesis machine history ledger)
    (chronicle' : Chronicle indexers network Good' names genesis other history' ledger')
    {env env' : Env} {info : MempoolSnapshotInfo} {blocks : List BlockTxs}
    (same : history'.chain = history.chain)
    (success : (machine.execute env (.mempoolBlocks info blocks)).2 = .ok ())
    (success' : (other.execute env' (.mempoolBlocks info blocks)).2 = .ok ()) :
    (other.record history' env' (.mempoolBlocks info blocks)).chain =
        (machine.record history env (.mempoolBlocks info blocks)).chain ∧
      (other.record history' env' (.mempoolBlocks info blocks)).snapshot.map IndexedBlock.content =
        (machine.record history env (.mempoolBlocks info blocks)).snapshot.map
          IndexedBlock.content := by
  constructor
  · rw [chronicle.chain_record success, chronicle'.chain_record success', same]
  · rw [(chronicle.record_snapshot_mempool success).2,
      (chronicle'.record_snapshot_mempool success').2, chronicle.same_tip chronicle' same]

end Chains

theorem confirmedChain_snoc (events : List (Env × ChainEvent)) (env : Env) (event : ChainEvent) :
    confirmedChain (events ++ [(env, event)]) = event.extend (confirmedChain events) := by
  rw [confirmedChain, List.foldl_append]
  rfl

theorem Machine.Clean.chain {names : Header → Point → Prop} {config : Config}
    {indexers : List Indexer} {events : List (Env × ChainEvent)}
    (uncached : config.utxoCache = false)
    (clean : (Machine.bootstrap indexers (Stage.empty config)).Clean names events) :
    ((Machine.bootstrap indexers (Stage.empty config)).history events).chain =
      confirmedChain events := by
  induction events using List.reverseRecOn with
  | nil => rfl
  | append_singleton events last ih =>
      rcases last with ⟨env, event⟩
      rcases clean.front.reflects uncached with ⟨ledger, chronicle⟩
      have success := ((Machine.completes_snoc _ events env event).mp clean.completes).2
      rw [Machine.history_snoc, confirmedChain_snoc, chronicle.chain_record success, ih clean.front]

section Endings

variable {names : Header → Point → Prop} {config : Config} {indexers : List Indexer}
variable {events others front rivals : List (Env × ChainEvent)} {env env' : Env}

theorem Machine.Clean.agree (uncached : config.utxoCache = false)
    (clean : (Machine.bootstrap indexers (Stage.empty config)).Clean names events)
    (clean' : (Machine.bootstrap indexers (Stage.empty config)).Clean names others) :
    let start := Machine.bootstrap indexers (Stage.empty config)
    (start.history others).chain = (start.history events).chain →
    (start.history others).snapshot.map IndexedBlock.content =
        (start.history events).snapshot.map IndexedBlock.content →
      Agree IsData (start.run others).stage.db.db.view (start.run events).stage.db.db.view := by
  intro start chains snapshots
  rcases clean.reflects uncached with ⟨_, chronicle⟩
  rcases clean'.reflects uncached with ⟨_, chronicle'⟩
  exact chronicle.agree chronicle' chains snapshots

/-- An event on confirmed blocks, or a snapshot that is not for the tip, leaves no snapshot. -/
theorem Machine.Clean.settled {event : ChainEvent} (uncached : config.utxoCache = false)
    (clean : (Machine.bootstrap indexers (Stage.empty config)).Clean names
      (front ++ [(env, event)])) :
    let start := Machine.bootstrap indexers (Stage.empty config)
    (event.isMempool = false ∨ ∃ info blocks, event = .mempoolBlocks info blocks ∧
      info.tip ≠ (start.run front).stage.lastProcessed.hash) →
    (start.history (front ++ [(env, event)])).snapshot.map IndexedBlock.content = [] := by
  intro start kind
  have success := ((Machine.completes_snoc _ front env event).mp clean.completes).2
  rw [Machine.history_snoc]
  rcases kind with confirmed | ⟨info, blocks, rfl, mismatch⟩
  · rw [record_snapshot_confirmed confirmed success]
    rfl
  · rcases clean.front.reflects uncached with ⟨_, before⟩
    rw [(before.record_snapshot_mempool success).2, if_neg mismatch]

/-- Clean runs with the same blocks that end with the same snapshot end with the same history. -/
theorem Machine.Clean.same_ending {info : MempoolSnapshotInfo} {blocks : List BlockTxs}
    (uncached : config.utxoCache = false)
    (clean : (Machine.bootstrap indexers (Stage.empty config)).Clean names
      (front ++ [(env, .mempoolBlocks info blocks)]))
    (clean' : (Machine.bootstrap indexers (Stage.empty config)).Clean names
      (rivals ++ [(env', .mempoolBlocks info blocks)]))
    (same : confirmedChain rivals = confirmedChain front) :
    let start := Machine.bootstrap indexers (Stage.empty config)
    let history := start.history (front ++ [(env, .mempoolBlocks info blocks)])
    let history' := start.history (rivals ++ [(env', .mempoolBlocks info blocks)])
    history'.chain = history.chain ∧
      history'.snapshot.map IndexedBlock.content = history.snapshot.map IndexedBlock.content := by
  intro start history history'
  rcases clean.front.reflects uncached with ⟨_, before⟩
  rcases clean'.front.reflects uncached with ⟨_, before'⟩
  have success := ((Machine.completes_snoc _ front env _).mp clean.completes).2
  have success' := ((Machine.completes_snoc _ rivals env' _).mp clean'.completes).2
  have base : (start.history rivals).chain = (start.history front).chain := by
    calc (start.history rivals).chain
      _ = confirmedChain rivals := clean'.front.chain uncached
      _ = confirmedChain front := same
      _ = (start.history front).chain := (clean.front.chain uncached).symm
  simp only [history, history', Machine.history_snoc]
  exact before.record_mempool_same before' base success success'

end Endings

theorem Machine.completes_iff (machine : Machine) (events : List (Env × ChainEvent)) :
    machine.Completes events ↔ ∀ result ∈ machine.results events, result = .ok () := by
  induction events generalizing machine with
  | nil => simp [Machine.Completes, Machine.results]
  | cons first events ih =>
      rcases first with ⟨env, event⟩
      rw [Machine.Completes, ih]
      simp [Machine.results]

theorem Machine.shadow (names : Header → Point → Prop) (config : Config) (indexers : List Indexer)
    (events : List (Env × ChainEvent)) (fed : ∀ event ∈ events, event.2.Valid names) :
    let start := Machine.bootstrap indexers (Stage.empty config)
    (config.utxoCache = true → start.uncached.ValidFrom ⟨[], []⟩ events) →
    Increasing (start.run events).stage.db.db.log →
      start.results events = start.uncached.results events ∧
        (start.run events).uncached = start.uncached.run events := by
  intro start valid increasing
  cases cached : config.utxoCache with
  | false =>
      have plain (machine : Machine) (none : machine.stage.utxoCache = none) :
          machine.uncached = machine := by
        simp only [Machine.uncached, Stage.uncached, ← none]
      rcases (reflects_invariant indexers config.network).run names config _ events
        (Stage.new_empty config) cached fed increasing with ⟨_, chronicle⟩
      have begun : start.stage.utxoCache = none := by
        simp only [start, Machine.bootstrap, Stage.empty, cached]
        rfl
      rw [plain start begun, plain _ chronicle.uncached]
      exact ⟨rfl, rfl⟩
  | true =>
      rcases transparent_run names config indexers events fed (valid cached) increasing with
        ⟨results, runs, _⟩
      exact ⟨results, runs events List.prefix_rfl⟩

/-- The run without a cache goes through where the run with one does, and writes the same. -/
theorem Machine.Clean.uncached {names : Header → Point → Prop} {config : Config}
    {indexers : List Indexer} {events : List (Env × ChainEvent)} :
    let start := Machine.bootstrap indexers (Stage.empty config)
    start.Clean names events → (config.utxoCache = true → start.uncached.ValidFrom ⟨[], []⟩ events) →
      start.uncached.Clean names events ∧
        (start.run events).uncached = start.uncached.run events := by
  intro start clean valid
  rcases Machine.shadow names config indexers events clean.fed valid clean.increasing with
    ⟨results, run⟩
  refine ⟨⟨clean.fed, ?_, ?_⟩, run⟩
  · rw [Machine.completes_iff, ← results, ← Machine.completes_iff]
    exact clean.completes
  · rw [← run]
    exact clean.increasing

theorem Machine.Clean.same_db {names : Header → Point → Prop} {config : Config}
    {indexers : List Indexer} {events : List (Env × ChainEvent)} :
    let start := Machine.bootstrap indexers (Stage.empty config)
    start.Clean names events → (config.utxoCache = true → start.uncached.ValidFrom ⟨[], []⟩ events) →
      (start.uncached.run events).stage.db = (start.run events).stage.db ∧
        (start.uncached.run events).stage.lastProcessed =
          (start.run events).stage.lastProcessed := by
  intro start clean valid
  rw [← (clean.uncached valid).2]
  exact ⟨rfl, rfl⟩

/-- The companion of a run, with the cache or without it. -/
theorem Machine.Clean.companion {names : Header → Point → Prop} {config : Config}
    {indexers : List Indexer} {events others : List (Env × ChainEvent)}
    (same : others.map Prod.snd = confirmedEvents events)
    (accepts : ∀ event ∈ others, event.1.Accepts) :
    let start := Machine.bootstrap indexers (Stage.empty config)
    start.Clean names events → (config.utxoCache = true → start.uncached.ValidFrom ⟨[], []⟩ events) →
    Increasing (start.run others).stage.db.db.log →
      start.Clean names others ∧
        (config.utxoCache = true → start.uncached.ValidFrom ⟨[], []⟩ others) ∧
        Companion (start.uncached.run events) (start.uncached.run others) ∧
        (start.uncached.history others).chain = (start.uncached.history events).chain := by
  intro start clean valid increasing
  let plain : Config := { config with utxoCache := false }
  have fed (event) (member : event ∈ others) : event.2.Valid names :=
    confirmedEvents_valid same clean.fed event member
  -- every prefix of the shorter run goes the way of the run without the cache
  have along (front : List (Env × ChainEvent)) (inside : front <+: others)
      (follows : start.uncached.ValidFrom ⟨[], []⟩ events →
        start.uncached.ValidFrom ⟨[], []⟩ front) :
      Increasing (start.run front).stage.db.db.log ∧
        start.results front = start.uncached.results front ∧
        (start.run front).uncached = start.uncached.run front := by
    have shorter : Increasing (start.run front).stage.db.db.log := by
      rcases inside with ⟨rest, rfl⟩
      rw [Machine.run_append] at increasing
      exact VersionedLog.increasing_prefix ((start.run front).run_log rest) increasing
    refine ⟨shorter, Machine.shadow names config indexers front ?_ ?_ shorter⟩
    · intro event member
      exact fed event (inside.subset member)
    · intro cached
      exact follows (valid cached)
  have ordered (front : List (Env × ChainEvent)) (inside : front <+: others)
      (follows : start.uncached.ValidFrom ⟨[], []⟩ events →
        start.uncached.ValidFrom ⟨[], []⟩ front) :
      Increasing (start.uncached.run front).stage.db.db.log := by
    rcases along front inside follows with ⟨shorter, _, run⟩
    rw [← run]
    exact shorter
  rcases Companion.run names plain indexers rfl events others (clean.uncached valid).1 same accepts
    ordered with ⟨done, companion, chains, transports⟩
  rcases along others List.prefix_rfl transports with ⟨_, results, _⟩
  refine ⟨⟨fed, ?_, increasing⟩, ?_, companion, chains⟩
  · rw [Machine.completes_iff, results, ← Machine.completes_iff]
    exact done.completes
  · intro cached
    exact transports (valid cached)

/-- Take away the mempool events of a run that goes through: the rest goes through as well. After
each event on confirmed blocks, and after each snapshot that is not for the tip, both runs show the
same data; after a snapshot for the tip the data is determined by the confirmed chain and that
snapshot. -/
theorem mempool_isolated (blockHash : Header → BlockHash) (config : Config)
    (indexers : List Indexer) (stage : Stage) (events others : List (Env × ChainEvent))
    (fresh : Stage.new config (StorageHandler.openDb DB.empty) = .ok stage)
    (clean : (Machine.bootstrap indexers stage).Clean (HashedBy blockHash) events)
    (valid : config.utxoCache = true →
      (Machine.bootstrap indexers stage).uncached.ValidFrom ⟨[], []⟩ events)
    (same : others.map Prod.snd = confirmedEvents events)
    (accepts : ∀ event ∈ others, event.1.Accepts)
    (increasing : Increasing ((Machine.bootstrap indexers stage).run others).stage.db.db.log) :
    let start := Machine.bootstrap indexers stage
    start.Completes others ∧
    (∀ front env event, events = front ++ [(env, event)] →
      (event.isMempool = false ∨ ∃ info blocks, event = .mempoolBlocks info blocks ∧
        info.tip ≠ (start.run front).stage.lastProcessed.hash) →
      Agree IsData (start.run others).stage.db.db.view (start.run events).stage.db.db.view) ∧
    ∀ front env rivals env' info blocks, events = front ++ [(env, .mempoolBlocks info blocks)] →
      start.Clean (HashedBy blockHash) (rivals ++ [(env', .mempoolBlocks info blocks)]) →
      (config.utxoCache = true →
        start.uncached.ValidFrom ⟨[], []⟩ (rivals ++ [(env', .mempoolBlocks info blocks)])) →
      confirmedChain rivals = confirmedChain front →
      Agree IsData (start.run (rivals ++ [(env', .mempoolBlocks info blocks)])).stage.db.db.view
        (start.run events).stage.db.db.view := by
  rw [Stage.new_empty, Except.ok.injEq] at fresh
  subst fresh
  intro start
  rcases clean.companion same accepts valid increasing with ⟨clean', valid', companion, chains⟩
  rcases clean.uncached valid with ⟨whole, _⟩
  rcases clean'.uncached valid' with ⟨shorter, _⟩
  have off : ({ config with utxoCache := false } : Config).utxoCache = false := rfl
  refine ⟨clean'.completes, ?_, ?_⟩
  · intro front env event split kind
    subst split
    have tips := (clean.front.same_db (by
      intro cached
      exact ((Machine.validFrom_snoc _ _ _ _).mp (valid cached)).1)).2
    rcases shorter.reflects off with ⟨_, chronicle⟩
    rw [← (clean.same_db valid).1, ← (clean'.same_db valid').1]
    apply whole.agree off shorter chains
    rw [chronicle.idle companion.idle, List.map_nil]
    apply (whole.settled off _).symm
    rcases kind with confirmed | ⟨info, blocks, same, mismatch⟩
    · exact .inl confirmed
    · rw [← tips] at mismatch
      exact .inr ⟨info, blocks, same, mismatch⟩
  · intro front env rivals env' info blocks split rival rivalValid base
    subst split
    have whole' := (rival.uncached rivalValid).1
    rcases whole.same_ending off whole' base with ⟨ending, contents⟩
    rw [← (clean.same_db valid).1, ← (rival.same_db rivalValid).1]
    exact whole.agree off whole' ending contents

/-- Block one with a coinbase, then a snapshot that spends it, with the cache on. -/
theorem mempool_isolated_spend :
    (spendCached.run (spendEvents.take 1)).stage.processedMempool = false ∧
      (spendCached.run spendEvents).stage.processedMempool = true ∧
    spendCached.Completes (spendEvents.take 1) ∧
    (∀ front env event, spendEvents = front ++ [(env, event)] →
      (event.isMempool = false ∨ ∃ info blocks, event = .mempoolBlocks info blocks ∧
        info.tip ≠ (spendCached.run front).stage.lastProcessed.hash) →
      Agree IsData (spendCached.run (spendEvents.take 1)).stage.db.db.view
        (spendCached.run spendEvents).stage.db.db.view) ∧
    ∀ front env rivals env' info blocks,
      spendEvents = front ++ [(env, .mempoolBlocks info blocks)] →
      spendCached.Clean (HashedBy mainnetHash) (rivals ++ [(env', .mempoolBlocks info blocks)]) →
      (true = true → spendCached.uncached.ValidFrom ⟨[], []⟩
        (rivals ++ [(env', .mempoolBlocks info blocks)])) →
      confirmedChain rivals = confirmedChain front →
      Agree IsData
        (spendCached.run (rivals ++ [(env', .mempoolBlocks info blocks)])).stage.db.db.view
        (spendCached.run spendEvents).stage.db.db.view :=
  ⟨by decide +kernel, by decide +kernel,
    mempool_isolated mainnetHash { mainnetConfig 2 with utxoCache := true } [attachFirst] _
      spendEvents (spendEvents.take 1) (Stage.new_empty _)
      ⟨by decide +kernel, by decide +kernel, by decide +kernel⟩
      (by intro _; decide +kernel) (by decide +kernel) (by decide +kernel) (by decide +kernel)⟩

def spentHeight : Indexer := fun tx _ ctx =>
  match tx.tx.input.head?.bind (fun input => ctx.resolveInput input.previousOutput) with
  | some utxo => .set ⟨[customIndexerTag], rfl⟩ (encode utxo.height) (.pure ())
  | none => .pure ()

def testHash (byte : BigEndian.Byte) : BlockHash := List.Vector.replicate 32 byte

def testBlock (now : U64) (parent : BlockHash) (height : U64) (hash : BigEndian.Byte)
    (txs : BlockTxs) : Env × ChainEvent :=
  let point : Point := ⟨height, testHash hash⟩
  (acceptAt now, .rollForward point ⟨parent, []⟩ txs point)

def pseudoRollback : List (Env × ChainEvent) :=
  [testBlock 5 mainnetGenesis 1 1 [coinbaseOne],
    (acceptAt 7, .mempoolBlocks ⟨0, testHash 1⟩ [[spendOne 2 ⟨txIdOf 1, 0⟩]]),
    (acceptAt 9, .rollBack ⟨u64Max, testHash 1⟩)]

/-- Two blocks with the same coinbase, a rollback to the first, a snapshot that spends the
coinbase and another second block that spends it. -/
def repeatedCoinbase : List (Env × ChainEvent) :=
  [testBlock 5 mainnetGenesis 1 1 [coinbaseOne],
    testBlock 7 (testHash 1) 2 2 [coinbaseOne],
    (acceptAt 9, .rollBack ⟨1, testHash 1⟩),
    (acceptAt 11, .mempoolBlocks ⟨0, testHash 1⟩ [[spendOne 2 ⟨txIdOf 1, 0⟩]]),
    testBlock 13 (testHash 1) 2 3 [spendOne 2 ⟨txIdOf 1, 0⟩]]

def isConfirmed (event : Env × ChainEvent) : Bool := !event.2.isMempool

def heightCached : Machine :=
  Machine.bootstrap [spentHeight] (Stage.empty { mainnetConfig 2 with utxoCache := true })

/-- A snapshot shows in the confirmed state after a rollback to its pseudo point, and after a
block that spends an output the cache holds with the height of an abandoned block. -/
theorem mempool_leaks :
    (spendStart.Completes pseudoRollback ∧
      let key := UtxoByTxoRefKV.encodeKey ⟨txIdOf 1, 0⟩
      IsData key ∧ (spendStart.run (pseudoRollback.filter isConfirmed)).stage.db.db.view key ≠
        (spendStart.run pseudoRollback).stage.db.db.view key) ∧
    (heightCached.Completes repeatedCoinbase ∧
      heightCached.Completes (repeatedCoinbase.filter isConfirmed) ∧
      IsData [customIndexerTag] ∧
      (heightCached.run (repeatedCoinbase.filter isConfirmed)).stage.db.db.view [customIndexerTag] ≠
        (heightCached.run repeatedCoinbase).stage.db.db.view [customIndexerTag]) := by
  decide +kernel

end Runs

end Symphony
