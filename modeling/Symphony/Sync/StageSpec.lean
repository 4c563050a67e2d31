import Symphony.Storage.TaskSpec
import Symphony.Sync.Stage

/-! What the operations of the index stage do when they succeed. -/

namespace Symphony

open Encdec

theorem orElse_ok {α : Type} {result : Except Error α} {failure : WorkerError} {value : α}
    (success : orElse result failure = .ok value) : result = .ok value := by
  cases result with
  | ok inner =>
      simp only [orElse, Except.ok.injEq] at success
      rw [success]
  | error inner => cases inner <;> simp [orElse] at success

theorem orElse_error (α : Type) (error : Error) (failure : WorkerError) :
    ∃ raised, (orElse (.error error) failure : Except WorkerError α) = .error raised := by
  cases error <;> exact ⟨_, rfl⟩

namespace Stage

/-- Everything a successful rollback does. -/
theorem rollbackToPoint_ok {stage after : Stage} {now : U64} {accepted : Bool} {rbPoint : Point}
    (success : stage.rollbackToPoint now accepted rbPoint = .ok after) :
    ∃ index db, stage.rollbackBuffer.position rbPoint = some index ∧
      stage.db.commit now accepted (fun _ =>
        (stage.rollbackBuffer.points.take index).flatMap PointWithOriginalKVs.undoOps) = .ok db ∧
      after = { stage with
        db
        rollbackBuffer := { stage.rollbackBuffer with
          points := stage.rollbackBuffer.points.drop index }
        lastProcessed := rbPoint
        processedMempool := false } := by
  simp only [rollbackToPoint, bind, Except.bind, pure, Except.pure] at success
  split at success
  · cases success
  · rename_i blocks since
    obtain ⟨index, found, rfl⟩ := RollbackBuffer.pointsSince_ok (orElse_ok since)
    split at success
    · cases success
    · rename_i db wrote
      refine ⟨index, db, found, orElse_ok wrote, ?_⟩
      simp only [RollbackBuffer.rollbackToPoint, found, orPanic, orElse, Except.ok.injEq] at success
      exact success.symm

/-- A rollback to a point of the buffer goes through once its batch is accepted. -/
theorem rollbackToPoint_accepted {stage : Stage} {rbPoint : Point} {index : Nat} (now : U64)
    (found : stage.rollbackBuffer.position rbPoint = some index) :
    ∃ after, stage.rollbackToPoint now true rbPoint = .ok after := by
  simp only [rollbackToPoint, RollbackBuffer.pointsSince, RollbackBuffer.rollbackToPoint, found,
    StorageHandler.commit, orPanic, orRestart, orElse, bind, Except.bind, pure, Except.pure, if_pos]
  exact ⟨_, rfl⟩

theorem rollbackToPoint_points {stage after : Stage} {now : U64} {accepted : Bool}
    {rbPoint : Point} (success : stage.rollbackToPoint now accepted rbPoint = .ok after) :
    after.rollbackBuffer.points ≠ [] := by
  rcases rollbackToPoint_ok success with ⟨index, db, found, _, rfl⟩
  rcases RollbackBuffer.position_some found with ⟨entry, listed, _⟩
  have inside := (List.getElem?_eq_some_iff.mp listed).1
  rw [ne_eq, List.drop_eq_nil_iff]
  omega

theorem rollbackToPoint_log {stage after : Stage} {now : U64} {accepted : Bool} {rbPoint : Point}
    (success : stage.rollbackToPoint now accepted rbPoint = .ok after) :
    ∃ commit, after.db.db.log = stage.db.db.log ++ [commit] := by
  rcases rollbackToPoint_ok success with ⟨index, db, _, wrote, rfl⟩
  exact ⟨_, (StorageHandler.commit_committed wrote).log⟩

theorem rollbackToPoint_idle {stage after : Stage} {now : U64} {accepted : Bool} {rbPoint : Point}
    (success : stage.rollbackToPoint now accepted rbPoint = .ok after) :
    after.processedMempool = false := by
  rcases rollbackToPoint_ok success with ⟨_, _, _, _, rfl⟩
  rfl

theorem rollbackToPoint_lastProcessed {stage after : Stage} {now : U64} {accepted : Bool}
    {rbPoint : Point} (success : stage.rollbackToPoint now accepted rbPoint = .ok after) :
    after.lastProcessed = rbPoint := by
  rcases rollbackToPoint_ok success with ⟨_, _, _, _, rfl⟩
  rfl

end Stage

namespace Machine

theorem undoMempool_cases {stage after : Stage} {env : Env}
    (success : undoMempool stage env = .ok after) :
    (stage.processedMempool = false ∧ after = stage) ∨
    (stage.processedMempool = true ∧
      stage.rollbackToPoint env.undoNow env.undoAccepted stage.lastProcessed = .ok after) := by
  simp only [undoMempool] at success
  split at success
  · rename_i processed
    exact Or.inr ⟨processed, success⟩
  · rename_i idle
    exact Or.inl ⟨by simpa using idle, (Except.ok.inj success).symm⟩

/-- Whether a block is indexed with originals: once it has been, or close to the tip. -/
def mutableAt (machine : Machine) (point tip : Point) : Bool :=
  machine.worker.mutable ||
    decide (saturatingSub tip.height machine.stage.maxRollbacks < point.height)

/-- Everything indexing a confirmed block can do to the machine. -/
theorem indexForward_cases (machine : Machine) (env : Env) (point : Point) (txs : BlockTxs)
    (tip : Point) :
    ∃ cache,
      (∃ failure, machine.indexForward env point txs tip =
        (⟨{ machine.worker with mutable := machine.mutableAt point tip },
          { machine.stage with utxoCache := cache }⟩, .error failure)) ∨
      ∃ final db,
        indexBlock machine.worker.indexers
          (machine.stage.db.beginIndexingTask (machine.mutableAt point tip)) point txs
          machine.stage.network (machine.liveCache env) = (cache, .ok final) ∧
        machine.stage.db.applyIndexingTask env.commitNow env.commitAccepted final point
          machine.stage.maxRollbacks none = .ok db ∧
        machine.indexForward env point txs tip =
          (⟨{ machine.worker with mutable := machine.mutableAt point tip }, { machine.stage with
            utxoCache := cache
            db
            lastProcessed := point
            rollbackBuffer := final.originalKvs.elim machine.stage.rollbackBuffer
              (machine.stage.rollbackBuffer.addBlock point) }⟩, .ok ()) := by
  rcases indexed : indexBlock machine.worker.indexers
    (machine.stage.db.beginIndexingTask (machine.mutableAt point tip)) point txs
    machine.stage.network (machine.liveCache env) with ⟨cache, result⟩
  refine ⟨cache, ?_⟩
  rw [mutableAt] at indexed ⊢
  cases result with
  | error failure =>
      obtain ⟨raised, error⟩ := orElse_error FinalizedTask failure .restart
      refine Or.inl ⟨raised, ?_⟩
      simp only [indexForward, indexed, orRestart, error]
  | ok final =>
      cases applied : machine.stage.db.applyIndexingTask env.commitNow env.commitAccepted final
        point machine.stage.maxRollbacks none with
      | error failure =>
          obtain ⟨raised, error⟩ := orElse_error StorageHandler failure .restart
          refine Or.inl ⟨raised, ?_⟩
          have passed : orRestart (.ok final : Except Error FinalizedTask) = .ok final := rfl
          simp only [indexForward, indexed, passed, applied]
          simp only [orRestart, error]
      | ok db =>
          refine Or.inr ⟨final, db, rfl, applied, ?_⟩
          simp only [indexForward, indexed, orRestart, orElse, applied]
          cases final.originalKvs <;> rfl

/-- Everything a roll forward can do: fail to undo the mempool blocks, stop after undoing
them, or go on to index a block that extends the tip. -/
theorem rollForward_cases (machine : Machine) (env : Env) (point : Point) (header : Header)
    (txs : BlockTxs) (tip : Point) :
    (∃ failure, machine.rollForward env point header txs tip = (machine, .error failure)) ∨
    ∃ stage, undoMempool machine.stage env = .ok stage ∧
      ((∃ result, (result = .ok () → point.height < stage.lastProcessed.height + 1) ∧
          machine.rollForward env point header txs tip = ({ machine with stage }, result)) ∨
        (point.height = stage.lastProcessed.height + 1 ∧
          header.prevBlockhash = stage.lastProcessed.hash ∧
          machine.rollForward env point header txs tip =
            Machine.indexForward { machine with stage } env point txs tip)) := by
  simp only [rollForward]
  split
  · exact Or.inl ⟨_, rfl⟩
  · rename_i stage undone
    refine Or.inr ⟨stage, undone, ?_⟩
    split
    · rename_i below
      exact Or.inl ⟨.ok (), by intro _; exact below, rfl⟩
    · rename_i notBelow
      split
      · refine Or.inl ⟨.error .panic, ?_, rfl⟩
        intro impossible
        cases impossible
      · rename_i notAbove
        split
        · refine Or.inl ⟨.error .panic, ?_, rfl⟩
          intro impossible
          cases impossible
        · rename_i linked
          refine Or.inr ⟨?_, not_not.mp linked, rfl⟩
          exact BitVec.le_antisymm (BitVec.not_lt.mp notAbove) (BitVec.not_lt.mp notBelow)

theorem rollBack_cases (machine : Machine) (env : Env) (rbPoint : Point) :
    (∃ failure, machine.rollBack env rbPoint = (machine, .error failure)) ∨
    ∃ stage, machine.stage.rollbackToPoint env.undoNow env.undoAccepted rbPoint = .ok stage ∧
      machine.rollBack env rbPoint = ({ machine with stage }, .ok ()) := by
  simp only [rollBack]
  split
  · exact Or.inl ⟨_, rfl⟩
  · rename_i stage undone
    exact Or.inr ⟨stage, undone, rfl⟩

theorem undoSnapshot_cases {stage after : Stage} {env : Env}
    (success : undoSnapshot stage env = .ok after) :
    (stage.rollbackBuffer.position stage.lastProcessed = some 0 ∧ after = stage) ∨
    stage.rollbackToPoint env.undoNow env.undoAccepted stage.lastProcessed = .ok after := by
  cases since : stage.rollbackBuffer.pointsSince stage.lastProcessed with
  | error failure =>
      rcases orElse_error (List PointWithOriginalKVs) failure .panic with ⟨raised, error⟩
      simp only [undoSnapshot, orPanic, since, error] at success
      cases success
  | ok undo =>
      rcases RollbackBuffer.pointsSince_ok since with ⟨index, found, rfl⟩
      simp only [undoSnapshot, orPanic, orElse, since] at success
      split at success
      · rename_i nothing
        refine Or.inl ⟨?_, (Except.ok.inj success).symm⟩
        rcases RollbackBuffer.position_some found with ⟨entry, listed, _⟩
        have inside := (List.getElem?_eq_some_iff.mp listed).1
        have length := congrArg List.length (List.isEmpty_iff.mp nothing)
        rw [List.length_take, List.length_nil] at length
        rw [found]
        congr 1
        omega
      · exact Or.inr success

/-- The stage once a call has undone what the buffer holds above the tip, if there is any. -/
def Undone (stage : Stage) (env : Env) (after : Stage) : Prop :=
  after = stage ∨
    stage.rollbackToPoint env.undoNow env.undoAccepted stage.lastProcessed = .ok after

theorem undoMempool_undone {stage after : Stage} {env : Env}
    (success : undoMempool stage env = .ok after) : Undone stage env after :=
  (undoMempool_cases success).imp And.right And.right

theorem undoSnapshot_undone {stage after : Stage} {env : Env}
    (success : undoSnapshot stage env = .ok after) : Undone stage env after :=
  (undoSnapshot_cases success).imp_left And.right

theorem Undone.lastProcessed {stage after : Stage} {env : Env} (undone : Undone stage env after) :
    after.lastProcessed = stage.lastProcessed := by
  rcases undone with rfl | undone
  · rfl
  · exact Stage.rollbackToPoint_lastProcessed undone

theorem Undone.log {stage after : Stage} {env : Env} (undone : Undone stage env after) :
    stage.db.db.log <+: after.db.db.log := by
  rcases undone with rfl | undone
  · exact List.prefix_rfl
  · rcases Stage.rollbackToPoint_log undone with ⟨commit, log⟩
    exact ⟨[commit], log.symm⟩

theorem undoMempool_lastProcessed {stage after : Stage} {env : Env}
    (success : undoMempool stage env = .ok after) : after.lastProcessed = stage.lastProcessed :=
  (undoMempool_undone success).lastProcessed

theorem undoSnapshot_lastProcessed {stage after : Stage} {env : Env}
    (success : undoSnapshot stage env = .ok after) : after.lastProcessed = stage.lastProcessed :=
  (undoSnapshot_undone success).lastProcessed

theorem mempoolBlocks_cases (machine : Machine) (env : Env) (info : MempoolSnapshotInfo)
    (blocks : List BlockTxs) :
    (∃ failure, machine.mempoolBlocks env info blocks = (machine, .error failure)) ∨
    ∃ stage, undoSnapshot machine.stage env = .ok stage ∧
      ((info.tip ≠ stage.lastProcessed.hash ∧
          machine.mempoolBlocks env info blocks = ({ machine with stage }, .ok ())) ∨
        (info.tip = stage.lastProcessed.hash ∧ machine.mempoolBlocks env info blocks =
          Machine.indexSnapshot { machine with stage } env info blocks)) := by
  simp only [mempoolBlocks]
  split
  · exact Or.inl ⟨_, rfl⟩
  · rename_i stage undone
    refine Or.inr ⟨stage, undone, ?_⟩
    split
    · rename_i other
      exact Or.inl ⟨other, rfl⟩
    · rename_i same
      exact Or.inr ⟨not_not.mp same, rfl⟩

/-- Everything indexing a mempool snapshot can do to the machine. -/
theorem indexSnapshot_cases (machine : Machine) (env : Env) (info : MempoolSnapshotInfo)
    (blocks : List BlockTxs) :
    ∃ cache,
      (∃ failure, machine.indexSnapshot env info blocks =
        ({ machine with stage := { machine.stage with utxoCache := cache } }, .error failure)) ∨
      ∃ final db,
        indexMempool machine.worker.indexers machine.stage.db.beginMempoolIndexingTask
          machine.stage.lastProcessed blocks machine.stage.network (machine.liveCache env) =
            (cache, .ok final) ∧
        machine.stage.db.applyIndexingTask env.commitNow env.commitAccepted final
          ⟨machine.stage.lastProcessed.height + BitVec.ofNat 64 blocks.length,
            machine.stage.lastProcessed.hash⟩
          machine.stage.maxRollbacks (some info.timestamp) = .ok db ∧
        machine.indexSnapshot env info blocks =
          ({ machine with stage := { machine.stage with
            utxoCache := cache
            db
            processedMempool := true
            rollbackBuffer := final.originalKvs.elim machine.stage.rollbackBuffer
              (machine.stage.rollbackBuffer.addBlock (mempoolPoint machine.stage.lastProcessed)) } },
            .ok ()) := by
  rcases indexed : indexMempool machine.worker.indexers machine.stage.db.beginMempoolIndexingTask
    machine.stage.lastProcessed blocks machine.stage.network (machine.liveCache env) with
    ⟨cache, result⟩
  refine ⟨cache, ?_⟩
  cases result with
  | error failure =>
      obtain ⟨raised, error⟩ := orElse_error FinalizedTask failure .restart
      refine Or.inl ⟨raised, ?_⟩
      simp only [indexSnapshot, indexed, orRestart, error]
  | ok final =>
      cases applied : machine.stage.db.applyIndexingTask env.commitNow env.commitAccepted final
        ⟨machine.stage.lastProcessed.height + BitVec.ofNat 64 blocks.length,
          machine.stage.lastProcessed.hash⟩ machine.stage.maxRollbacks (some info.timestamp) with
      | error failure =>
          obtain ⟨raised, error⟩ := orElse_error StorageHandler failure .restart
          refine Or.inl ⟨raised, ?_⟩
          have passed : orRestart (.ok final : Except Error FinalizedTask) = .ok final := rfl
          simp only [indexSnapshot, indexed, passed, applied]
          simp only [orRestart, error]
      | ok db =>
          refine Or.inr ⟨final, db, rfl, applied, ?_⟩
          simp only [indexSnapshot, indexed, orRestart, orElse, applied]
          cases final.originalKvs <;> rfl

/-- Everything a call of the worker can do. -/
inductive Call (machine : Machine) (env : Env) :
    ChainEvent → Machine × Except WorkerError Unit → Prop where
  | refused {event : ChainEvent} {failure : WorkerError} :
      Call machine env event (machine, .error failure)
  | stopped {point tip : Point} {header : Header} {txs : BlockTxs} {stage : Stage}
      {result : Except WorkerError Unit} (undone : undoMempool machine.stage env = .ok stage)
      (below : result = .ok () → point.height < stage.lastProcessed.height + 1) :
      Call machine env (.rollForward point header txs tip) ({ machine with stage }, result)
  | unindexed {point tip : Point} {header : Header} {txs : BlockTxs} {stage : Stage}
      {cache : Option UtxoCache} {failure : WorkerError}
      (undone : undoMempool machine.stage env = .ok stage) :
      Call machine env (.rollForward point header txs tip)
        (⟨{ machine.worker with mutable := Machine.mutableAt { machine with stage } point tip },
          { stage with utxoCache := cache }⟩, .error failure)
  | indexed {point tip : Point} {header : Header} {txs : BlockTxs} {stage : Stage}
      {cache : Option UtxoCache} {final : FinalizedTask} {db : StorageHandler}
      (undone : undoMempool machine.stage env = .ok stage)
      (height : point.height = stage.lastProcessed.height + 1)
      (parent : header.prevBlockhash = stage.lastProcessed.hash)
      (indexing : indexBlock machine.worker.indexers
        (stage.db.beginIndexingTask (Machine.mutableAt { machine with stage } point tip)) point txs
        stage.network (Machine.liveCache { machine with stage } env) = (cache, .ok final))
      (applied : stage.db.applyIndexingTask env.commitNow env.commitAccepted final point
        stage.maxRollbacks none = .ok db) :
      Call machine env (.rollForward point header txs tip)
        (⟨{ machine.worker with mutable := Machine.mutableAt { machine with stage } point tip },
          { stage with
            utxoCache := cache
            db
            lastProcessed := point
            rollbackBuffer := final.originalKvs.elim stage.rollbackBuffer
              (stage.rollbackBuffer.addBlock point) }⟩, .ok ())
  | rolledBack {rbPoint : Point} {stage : Stage}
      (undone : machine.stage.rollbackToPoint env.undoNow env.undoAccepted rbPoint = .ok stage) :
      Call machine env (.rollBack rbPoint) ({ machine with stage }, .ok ())
  | skipped {info : MempoolSnapshotInfo} {blocks : List BlockTxs} {stage : Stage}
      (undone : undoSnapshot machine.stage env = .ok stage)
      (other : info.tip ≠ stage.lastProcessed.hash) :
      Call machine env (.mempoolBlocks info blocks) ({ machine with stage }, .ok ())
  | unsnapshotted {info : MempoolSnapshotInfo} {blocks : List BlockTxs} {stage : Stage}
      {cache : Option UtxoCache} {failure : WorkerError}
      (undone : undoSnapshot machine.stage env = .ok stage) :
      Call machine env (.mempoolBlocks info blocks)
        ({ machine with stage := { stage with utxoCache := cache } }, .error failure)
  | snapshotted {info : MempoolSnapshotInfo} {blocks : List BlockTxs} {stage : Stage}
      {cache : Option UtxoCache} {final : FinalizedTask} {db : StorageHandler}
      (undone : undoSnapshot machine.stage env = .ok stage)
      (same : info.tip = stage.lastProcessed.hash)
      (indexing : indexMempool machine.worker.indexers stage.db.beginMempoolIndexingTask
        stage.lastProcessed blocks stage.network (Machine.liveCache { machine with stage } env) =
          (cache, .ok final))
      (applied : stage.db.applyIndexingTask env.commitNow env.commitAccepted final
        ⟨stage.lastProcessed.height + BitVec.ofNat 64 blocks.length, stage.lastProcessed.hash⟩
        stage.maxRollbacks (some info.timestamp) = .ok db) :
      Call machine env (.mempoolBlocks info blocks)
        ({ machine with stage := { stage with
          utxoCache := cache
          db
          processedMempool := true
          rollbackBuffer := final.originalKvs.elim stage.rollbackBuffer
            (stage.rollbackBuffer.addBlock (mempoolPoint stage.lastProcessed)) } }, .ok ())

theorem execute_call (machine : Machine) (env : Env) (event : ChainEvent) :
    Call machine env event (machine.execute env event) := by
  cases event with
  | rollForward point header txs tip =>
      rcases machine.rollForward_cases env point header txs tip with
        ⟨failure, result⟩ | ⟨stage, undone, ⟨outcome, below, result⟩ | ⟨height, parent, result⟩⟩
      · rw [execute, result]
        exact .refused
      · rw [execute, result]
        exact .stopped undone below
      · rw [execute, result]
        rcases Machine.indexForward_cases { machine with stage } env point txs tip with
          ⟨cache, ⟨failure, failed⟩ | ⟨final, db, indexing, applied, success⟩⟩
        · rw [failed]
          exact .unindexed undone
        · rw [success]
          exact .indexed undone height parent indexing applied
  | rollBack rbPoint =>
      rcases machine.rollBack_cases env rbPoint with ⟨failure, result⟩ | ⟨stage, undone, result⟩
      · rw [execute, result]
        exact .refused
      · rw [execute, result]
        exact .rolledBack undone
  | mempoolBlocks info blocks =>
      rcases machine.mempoolBlocks_cases env info blocks with
        ⟨failure, result⟩ | ⟨stage, undone, ⟨other, result⟩ | ⟨same, result⟩⟩
      · rw [execute, result]
        exact .refused
      · rw [execute, result]
        exact .skipped undone other
      · rw [execute, result]
        rcases Machine.indexSnapshot_cases { machine with stage } env info blocks with
          ⟨cache, ⟨failure, failed⟩ | ⟨final, db, indexing, applied, success⟩⟩
        · rw [failed]
          exact .unsnapshotted undone
        · rw [success]
          exact .snapshotted undone same indexing applied

theorem indexForward_cache (machine : Machine) (env : Env) (point : Point) (txs : BlockTxs)
    (tip : Point) :
    (machine.indexForward env point txs tip).1.stage.utxoCache =
      (indexBlock machine.worker.indexers
        (machine.stage.db.beginIndexingTask (machine.mutableAt point tip)) point txs
        machine.stage.network (machine.liveCache env)).1 := by
  simp only [indexForward, mutableAt]
  split
  · rfl
  · split
    · rfl
    · rfl

theorem indexSnapshot_cache (machine : Machine) (env : Env) (info : MempoolSnapshotInfo)
    (blocks : List BlockTxs) :
    (machine.indexSnapshot env info blocks).1.stage.utxoCache =
      (indexMempool machine.worker.indexers machine.stage.db.beginMempoolIndexingTask
        machine.stage.lastProcessed blocks machine.stage.network (machine.liveCache env)).1 := by
  simp only [indexSnapshot]
  split
  · rfl
  · split
    · rfl
    · rfl

theorem indexForward_log (machine : Machine) (env : Env) (point : Point) (txs : BlockTxs)
    (tip : Point) :
    machine.stage.db.db.log <+: (machine.indexForward env point txs tip).1.stage.db.db.log := by
  rcases machine.indexForward_cases env point txs tip with
    ⟨cache, ⟨failure, result⟩ | ⟨final, db, _, applied, result⟩⟩
  · exact ⟨[], by rw [result, List.append_nil]⟩
  · rw [result]
    exact ⟨_, (StorageHandler.applyIndexingTask_committed applied).log.symm⟩

theorem indexSnapshot_log (machine : Machine) (env : Env) (info : MempoolSnapshotInfo)
    (blocks : List BlockTxs) :
    machine.stage.db.db.log <+: (machine.indexSnapshot env info blocks).1.stage.db.db.log := by
  rcases machine.indexSnapshot_cases env info blocks with
    ⟨cache, ⟨failure, result⟩ | ⟨final, db, _, applied, result⟩⟩
  · exact ⟨[], by rw [result, List.append_nil]⟩
  · rw [result]
    exact ⟨_, (StorageHandler.applyIndexingTask_committed applied).log.symm⟩

theorem execute_log (machine : Machine) (env : Env) (event : ChainEvent) :
    machine.stage.db.db.log <+: (machine.execute env event).1.stage.db.db.log := by
  have call := machine.execute_call env event
  generalize machine.execute env event = outcome at call ⊢
  cases call with
  | refused => exact List.prefix_rfl
  | stopped undone below => exact (undoMempool_undone undone).log
  | unindexed undone =>
      have grown := (undoMempool_undone undone).log
      exact grown
  | indexed undone height parent indexing applied =>
      exact (undoMempool_undone undone).log.trans
        ⟨_, (StorageHandler.applyIndexingTask_committed applied).log.symm⟩
  | rolledBack undone =>
      rcases Stage.rollbackToPoint_log undone with ⟨commit, log⟩
      exact ⟨[commit], log.symm⟩
  | skipped undone other => exact (undoSnapshot_undone undone).log
  | unsnapshotted undone =>
      have grown := (undoSnapshot_undone undone).log
      exact grown
  | snapshotted undone same indexing applied =>
      exact (undoSnapshot_undone undone).log.trans
        ⟨_, (StorageHandler.applyIndexingTask_committed applied).log.symm⟩

theorem run_snoc (machine : Machine) (events : List (Env × ChainEvent)) (env : Env)
    (event : ChainEvent) :
    machine.run (events ++ [(env, event)]) = ((machine.run events).execute env event).1 := by
  rw [run, List.foldl_append]
  rfl

theorem run_append (machine : Machine) (front rest : List (Env × ChainEvent)) :
    machine.run (front ++ rest) = (machine.run front).run rest :=
  List.foldl_append

theorem run_log (machine : Machine) (events : List (Env × ChainEvent)) :
    machine.stage.db.db.log <+: (machine.run events).stage.db.db.log := by
  induction events generalizing machine with
  | nil => exact List.prefix_rfl
  | cons first events ih => exact (machine.execute_log first.1 first.2).trans (ih _)

end Machine

end Symphony
