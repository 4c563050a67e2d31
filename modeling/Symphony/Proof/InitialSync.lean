import Symphony.Proof.ChainInvariant

/-! What an initial sync leaves in the rollback buffer, and which rollbacks it allows. -/

namespace Symphony

open Encdec

/-- Roll forwards from height one on, all processed, with the tip estimated at `tip`
throughout; the indexed points are listed newest first. -/
inductive Synced (start : Machine) (tip : BlockHeight) : List Point → Machine → Prop where
  | start : Synced start tip [] start
  | block {chain : List Point} {machine after : Machine} (before : Synced start tip chain machine)
      (env : Env) (point : Point) (header : Header) (txs : BlockTxs) (estimate : Point)
      (height : point.height.toNat = chain.length + 1) (estimated : estimate.height = tip)
      (processed : machine.execute env (.rollForward point header txs estimate) = (after, .ok ())) :
      Synced start tip (point :: chain) after

def recent (tip maxRollback indexed : Nat) : Nat := indexed - (tip - maxRollback)

structure SyncState (tip maxRollback : Nat) (chain : List Point) (machine : Machine) : Prop where
  idle : machine.stage.processedMempool = false
  height : machine.stage.lastProcessed.height.toNat = chain.length
  maxRollbacks : machine.stage.maxRollbacks.toNat = maxRollback
  size : machine.stage.rollbackBuffer.size = maxRollback + 2
  mutable : machine.worker.mutable = decide (0 < recent tip maxRollback chain.length)
  points : machine.stage.rollbackBuffer.points.map PointWithOriginalKVs.point =
    chain.take (min (recent tip maxRollback chain.length) (maxRollback + 2))
  heights : ∀ index point, chain[index]? = some point → point.height.toNat = chain.length - index

theorem take_push (point : Point) (chain : List Point) (count size : Nat) :
    (point :: chain.take (min count size)).take size =
      (point :: chain).take (min (count + 1) size) := by
  cases size with
  | zero => simp
  | succ size =>
      rw [Nat.succ_min_succ, List.take_succ_cons, List.take_succ_cons, List.take_take]
      congr 2
      omega

theorem indexBlock_originals {handler : StorageHandler} {mutable : Bool} {indexers : List Indexer}
    {point : Point} {txs : BlockTxs} {network : Network} {cache cache' : Option UtxoCache}
    {final : FinalizedTask}
    (indexed : indexBlock indexers (handler.beginIndexingTask mutable) point txs network cache =
      (cache', .ok final)) :
    final.originalKvs.isSome = mutable := by
  rcases indexBlock_written indexed with ⟨after, written, rfl⟩
  have tracking := written.sameSource.tracking
  cases mutable with
  | false => exact tracking
  | true => exact tracking

theorem rollForward_indexed {machine after : Machine} {env : Env} {point : Point}
    {header : Header} {txs : BlockTxs} {tip : Point}
    (idle : machine.stage.processedMempool = false)
    (height : point.height = machine.stage.lastProcessed.height + 1)
    (processed : machine.execute env (.rollForward point header txs tip) = (after, .ok ())) :
    ∃ cache, ∃ final : FinalizedTask, ∃ db, final.originalKvs.isSome = machine.mutableAt point tip ∧
      after = ⟨{ machine.worker with mutable := machine.mutableAt point tip }, { machine.stage with
        utxoCache := cache
        db
        lastProcessed := point
        rollbackBuffer := final.originalKvs.elim machine.stage.rollbackBuffer
          (machine.stage.rollbackBuffer.addBlock point) }⟩ := by
  have call := machine.execute_call env (.rollForward point header txs tip)
  rw [processed] at call
  have clean {stage : Stage} (undone : Machine.undoMempool machine.stage env = .ok stage) :
      stage = machine.stage := by
    rcases Machine.undoMempool_cases undone with ⟨_, same⟩ | ⟨snapshot, _⟩
    · exact same
    · rw [idle] at snapshot
      cases snapshot
  generalize stored : (after, (Except.ok () : Except WorkerError Unit)) = outcome at call
  cases call with
  | refused => cases stored
  | stopped undone below =>
      have low := below (Prod.mk.inj stored).2.symm
      rw [height, clean undone] at low
      exact absurd low (BitVec.lt_irrefl _)
  | unindexed undone => cases stored
  | @indexed _ _ _ _ stage cache final db undone _ _ indexing _ =>
      obtain rfl := clean undone
      exact ⟨cache, final, db, indexBlock_originals indexing, (Prod.mk.inj stored).1⟩

theorem SyncState.step {tip : U64} {maxRollback : Nat} {chain : List Point} {machine after : Machine}
    {env : Env} {point : Point} {header : Header} {txs : BlockTxs} {estimate : Point}
    (state : SyncState tip.toNat maxRollback chain machine)
    (height : point.height.toNat = chain.length + 1) (estimated : estimate.height = tip)
    (processed : machine.execute env (.rollForward point header txs estimate) = (after, .ok ())) :
    SyncState tip.toNat maxRollback (point :: chain) after := by
  have next : point.height = machine.stage.lastProcessed.height + 1 := by
    apply BitVec.eq_of_toNat_eq
    have bound := point.height.isLt
    rw [BitVec.toNat_add, state.height, show (1 : U64).toNat = 1 from rfl]
    omega
  have mutable : machine.mutableAt point estimate =
      decide (0 < recent tip.toNat maxRollback (point :: chain).length) := by
    rw [Machine.mutableAt, state.mutable, ← Bool.decide_or, decide_eq_decide, BitVec.lt_def,
      toNat_saturatingSub, estimated, state.maxRollbacks, height, List.length_cons, recent, recent]
    omega
  rcases rollForward_indexed state.idle next processed with ⟨cache, final, db, originals, rfl⟩
  rw [mutable] at originals
  refine ⟨state.idle, by rw [List.length_cons]; exact height, state.maxRollbacks, ?_, mutable, ?_, ?_⟩
  · cases final.originalKvs <;> exact state.size
  · cases stored : final.originalKvs with
    | none =>
        rw [stored] at originals
        have old : ¬ 0 < recent tip.toNat maxRollback (point :: chain).length := by
          exact of_decide_eq_false originals.symm
        have points := state.points
        simp only [recent, List.length_cons] at old points ⊢
        rw [show chain.length - (tip.toNat - maxRollback) = 0 by omega, Nat.zero_min] at points
        rw [show chain.length + 1 - (tip.toNat - maxRollback) = 0 by omega, Nat.zero_min]
        exact points
    | some kvs =>
        rw [stored] at originals
        have close : 0 < recent tip.toNat maxRollback (point :: chain).length := by
          exact of_decide_eq_true originals.symm
        have points := state.points
        simp only [recent, List.length_cons] at close points ⊢
        simp only [Option.elim_some, RollbackBuffer.addBlock, state.size, List.map_take,
          List.map_cons, points, take_push]
        congr 2
        omega
  · intro index other found
    cases index with
    | zero =>
        obtain rfl : point = other := by simpa using found
        rw [List.length_cons, height]
        rfl
    | succ index =>
        have older := state.heights index other (by simpa using found)
        rw [older, List.length_cons]
        omega

theorem Synced.state {config : Config} {indexers : List Indexer} {stage : Stage} {tip : U64}
    {chain : List Point} {machine : Machine}
    (fresh : Stage.new config (StorageHandler.openDb DB.empty) = .ok stage)
    (beyond : config.maxRollbacks < tip.toNat)
    (synced : Synced (Machine.bootstrap indexers stage) tip chain machine) :
    SyncState tip.toNat config.maxRollbacks chain machine := by
  induction synced with
  | start =>
      rw [Stage.new_empty, Except.ok.injEq] at fresh
      subst fresh
      have small : config.maxRollbacks < 2 ^ 64 := by
        have bound := tip.isLt
        omega
      have none : recent tip.toNat config.maxRollbacks ([] : List Point).length = 0 :=
        Nat.zero_sub _
      refine ⟨rfl, rfl, ?_, rfl, ?_, ?_, ?_⟩
      · exact (BitVec.toNat_ofNat _ 64).trans (Nat.mod_eq_of_lt small)
      · rw [none]
        rfl
      · rw [none]
        rfl
      · intro index point found
        cases found
  | block _ env point header txs estimate height estimated processed ih =>
      exact ih.step height estimated processed

theorem SyncState.at_depth {tip maxRollback : Nat} {chain : List Point} {machine : Machine}
    (state : SyncState tip maxRollback chain machine) {point : Point} {depth : Nat}
    (member : point ∈ chain) (height : point.height.toNat = chain.length - depth)
    (within : depth < chain.length) : chain[depth]? = some point := by
  rcases List.mem_iff_getElem?.mp member with ⟨index, found⟩
  have inside := (List.getElem?_eq_some_iff.mp found).1
  have same := state.heights index point found
  obtain rfl : index = depth := by omega
  exact found

/-- After a full sync the buffer holds the `maxRollback` newest points: a point is found at
its depth, and only above that bound. -/
theorem SyncState.position {tip maxRollback : Nat} {chain : List Point} {machine : Machine}
    (state : SyncState tip maxRollback chain machine) (complete : chain.length = tip)
    (beyond : maxRollback < tip) {point : Point} {depth : Nat}
    (target : chain[depth]? = some point) :
    machine.stage.rollbackBuffer.position point = if depth < maxRollback then some depth else none := by
  have buffered : machine.stage.rollbackBuffer.points.map PointWithOriginalKVs.point =
      chain.take maxRollback := by
    rw [state.points, recent, complete]
    congr 1
    omega
  have searched : machine.stage.rollbackBuffer.position point =
      (chain.take maxRollback).findIdx? (fun other => other = point) := by
    rw [← buffered, List.findIdx?_map]
    rfl
  have depths : ∀ index other, chain[index]? = some other → other = point → index = depth := by
    intro index other found same
    have first := state.heights index other found
    have second := state.heights depth point target
    have inside := (List.getElem?_eq_some_iff.mp found).1
    have bound := (List.getElem?_eq_some_iff.mp target).1
    rw [same] at first
    omega
  rw [searched]
  split
  · rename_i within
    rw [List.findIdx?_eq_some_iff_getElem]
    have bound := (List.getElem?_eq_some_iff.mp target).1
    refine ⟨by rw [List.length_take]; omega, ?_, ?_⟩
    · rw [List.getElem_take]
      simpa using (List.getElem?_eq_some_iff.mp target).2
    · intro index smaller found
      rw [List.getElem_take] at found
      have same := depths index chain[index] (List.getElem?_eq_getElem (by omega)) (by simpa using found)
      omega
  · rename_i beyondBuffer
    rw [List.findIdx?_eq_none_iff]
    intro other member
    rcases List.mem_iff_getElem?.mp member with ⟨index, found⟩
    have kept : index < maxRollback := by
      have inside := (List.getElem?_eq_some_iff.mp found).1
      rw [List.length_take] at inside
      omega
    rw [List.getElem?_take_of_lt kept] at found
    by_contra same
    have equal := depths index other found (by simpa using same)
    omega

/-- After an initial sync with the tip known throughout, a rollback by `depth` blocks is
accepted and undoes just these blocks exactly if `depth` is below `max_rollback`. -/
theorem synced_rollback_iff (config : Config) (indexers : List Indexer) (stage : Stage)
    (tip : BlockHeight) (chain : List Point) (machine : Machine) (env : Env) (depth : Nat)
    (point : Point) (fresh : Stage.new config (StorageHandler.openDb DB.empty) = .ok stage)
    (synced : Synced (Machine.bootstrap indexers stage) tip chain machine)
    (complete : chain.length = tip.toNat) (beyond : config.maxRollbacks < tip.toNat)
    (some : 1 ≤ depth) (within : depth ≤ config.maxRollbacks) (member : point ∈ chain)
    (height : point.height.toNat = tip.toNat - depth) (accepted : env.undoAccepted = true) :
    (∃ undone after, machine.stage.rollbackBuffer.pointsSince point = .ok undone ∧
      undone.map PointWithOriginalKVs.point = chain.take depth ∧
      machine.execute env (.rollBack point) = (after, .ok ()) ∧
      after.stage.lastProcessed = point) ↔ depth < config.maxRollbacks := by
  have state := synced.state fresh beyond
  have target := state.at_depth member (by rw [complete]; exact height) (by omega)
  have position := state.position complete beyond target
  constructor
  · rintro ⟨undone, after, since, _⟩
    rcases RollbackBuffer.pointsSince_ok since with ⟨index, found, _⟩
    rw [position] at found
    split at found
    · rename_i inside
      exact inside
    · cases found
  · intro inside
    rw [if_pos inside] at position
    rcases Stage.rollbackToPoint_accepted env.undoNow position with ⟨rolled, success⟩
    rw [← accepted] at success
    refine ⟨machine.stage.rollbackBuffer.points.take depth, { machine with stage := rolled }, ?_, ?_,
      ?_, ?_⟩
    · rw [RollbackBuffer.pointsSince, position]
    · rw [List.map_take, state.points, List.take_take, recent, complete]
      congr 1
      omega
    · rw [Machine.execute, Machine.rollBack, success]
    · rcases Stage.rollbackToPoint_ok success with ⟨_, db, _, _, rfl⟩
      rfl

theorem Synced.next {start machine : Machine} {tip : BlockHeight} {chain : List Point}
    (before : Synced start tip chain machine) (env : Env) (point : Point) (header : Header)
    (txs : BlockTxs) (estimate : Point) (height : point.height.toNat = chain.length + 1)
    (estimated : estimate.height = tip)
    (processed : (machine.execute env (.rollForward point header txs estimate)).2 = .ok ()) :
    Synced start tip (point :: chain)
      (machine.execute env (.rollForward point header txs estimate)).1 :=
  .block before env point header txs estimate height estimated (Prod.ext rfl processed)

theorem rollback_one_of_two :
    ∃ machine, Synced (Machine.bootstrap [] (Stage.empty (mainnetConfig 2))) 3
        [⟨3, zeroHash⟩, ⟨2, zeroHash⟩, ⟨1, mainnetBlockOne⟩] machine ∧
      ((∃ undone after, machine.stage.rollbackBuffer.pointsSince ⟨2, zeroHash⟩ = .ok undone ∧
        undone.map PointWithOriginalKVs.point = [⟨3, zeroHash⟩] ∧
        machine.execute (acceptAt 11) (.rollBack ⟨2, zeroHash⟩) = (after, .ok ()) ∧
        after.stage.lastProcessed = ⟨2, zeroHash⟩) ↔ 1 < 2) := by
  have synced := Synced.next (.next (.next
    (.start : Synced (Machine.bootstrap [] (Stage.empty (mainnetConfig 2))) 3 [] _)
    (acceptAt 5) ⟨1, mainnetBlockOne⟩ mainnetHeaderOne [] ⟨3, zeroHash⟩ rfl rfl rfl)
    (acceptAt 7) ⟨2, zeroHash⟩ ⟨mainnetBlockOne, []⟩ [] ⟨3, zeroHash⟩ rfl rfl rfl)
    (acceptAt 9) ⟨3, zeroHash⟩ ⟨zeroHash, []⟩ [] ⟨3, zeroHash⟩ rfl rfl rfl
  exact ⟨_, synced, synced_rollback_iff (mainnetConfig 2) [] (Stage.empty (mainnetConfig 2)) 3 _ _
    (acceptAt 11) 1 ⟨2, zeroHash⟩ (Stage.new_empty _) synced rfl (by decide) (by decide) (by decide)
    (by simp) rfl rfl⟩

/-- With `max_rollback` one and two blocks synced, rolling back one block is refused: the
block at the target was indexed without originals and is not in the buffer. -/
theorem rollback_by_max_rollback_refused :
    ∃ stage machine, Stage.new (mainnetConfig 1) (StorageHandler.openDb DB.empty) = .ok stage ∧
      Synced (Machine.bootstrap [] stage) 2 [⟨2, zeroHash⟩, ⟨1, mainnetBlockOne⟩] machine ∧
      machine.stage.rollbackBuffer.pointsSince ⟨1, mainnetBlockOne⟩ =
        .error (.rollback ⟨1, mainnetBlockOne⟩) ∧
      ∀ env, machine.execute env (.rollBack ⟨1, mainnetBlockOne⟩) = (machine, .error .panic) := by
  refine ⟨_, _, Stage.new_empty (mainnetConfig 1), .next (.next .start (acceptAt 5)
    ⟨1, mainnetBlockOne⟩ mainnetHeaderOne [] ⟨2, zeroHash⟩ rfl rfl rfl) (acceptAt 7)
    ⟨2, zeroHash⟩ ⟨mainnetBlockOne, []⟩ [] ⟨2, zeroHash⟩ rfl rfl rfl, rfl, ?_⟩
  intro env
  rfl

end Symphony
