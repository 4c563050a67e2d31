import Symphony.Proof.Filed
import Symphony.Proof.InitialSync
import Symphony.Proof.Locator

/-! What a restarted stage can still undo.

The buffer in memory is bounded by a count, the table by a range of heights below the tip of
each confirmed commit. The table therefore lacks the blocks of the buffer that lie too far
below the highest tip of the run. -/

namespace Symphony

open Encdec
open PointWithOriginalKVs (Fileable)
open VersionedLog (Increasing)

/-- The block is within reach of a tip at `peak`. -/
def PointWithOriginalKVs.retained (maxRollback peak : Nat) (block : PointWithOriginalKVs) : Bool :=
  decide (peak ≤ block.point.height.toNat + maxRollback)

section Heights

variable {names : Header → Point → Prop} {genesis : BlockHash} {machine : Machine}
variable {chain : List Point} {ledger : List LedgerEntry}

theorem Linked.descending (linked : Linked names genesis chain) :
    chain.Pairwise (fun newer older => older.height < newer.height) := by
  induction chain with
  | nil => exact List.Pairwise.nil
  | cons point below ih =>
      refine List.pairwise_cons.mpr ⟨?_, ih linked.2.2⟩
      intro older member
      have bound := linked.2.2.contiguous.height_le member
      have height := linked.1
      rw [BitVec.lt_def]
      omega

theorem ChainInv.descending (inv : ChainInv names genesis machine chain ledger) :
    machine.stage.rollbackBuffer.points.Pairwise
      (fun newer older => older.point.height < newer.point.height) := by
  have confirmed : (chain.take machine.stage.kept).Pairwise
      (fun newer older => older.height < newer.height) :=
    inv.linked.descending.sublist (List.take_sublist _ chain)
  have whole : (machine.stage.rollbackBuffer.points.map PointWithOriginalKVs.point).Pairwise
      (fun newer older => older.height < newer.height) := by
    rw [inv.points, Stage.pseudo]
    split
    · refine List.pairwise_cons.mpr ⟨?_, confirmed⟩
      intro older member
      have low := inv.low older (List.mem_of_mem_take member)
      have bound := older.height.isLt
      have top : (Machine.mempoolPoint machine.stage.lastProcessed).height.toNat = 2 ^ 64 - 1 := rfl
      rw [BitVec.lt_def, top]
      by_contra high
      apply low
      apply BitVec.eq_of_toNat_eq
      rw [show u64Max.toNat = 2 ^ 64 - 1 from rfl]
      omega
    · exact confirmed
  rw [List.pairwise_map] at whole
  exact whole

theorem ChainInv.tip_height (inv : ChainInv names genesis machine chain ledger) :
    machine.stage.lastProcessed.height.toNat = chain.length := by
  rw [inv.tip]
  exact inv.linked.height_top

theorem ChainInv.height_at (inv : ChainInv names genesis machine chain ledger)
    (idle : machine.stage.processedMempool = false) {index : Nat} {block : PointWithOriginalKVs}
    (listed : machine.stage.rollbackBuffer.points[index]? = some block) :
    block.point.height.toNat + index = machine.stage.lastProcessed.height.toNat := by
  have mapped : (chain.take machine.stage.kept)[index]? = some block.point := by
    have points := inv.points
    rw [Stage.pseudo, idle, if_neg Bool.false_ne_true, List.nil_append] at points
    rw [← points, List.getElem?_map, listed]
    rfl
  rw [List.getElem?_take] at mapped
  split at mapped
  · rw [inv.tip_height]
    exact inv.linked.height_at mapped
  · cases mapped

end Heights

/-- What the table holds of the buffer in a run that never stood above `peak`. -/
structure Restartable (names : Header → Point → Prop) (genesis : BlockHash) (maxRollback peak : Nat)
    (machine : Machine) (chain : List Point) (ledger : List LedgerEntry) : Prop where
  inv : ChainInv names genesis machine chain ledger
  size : machine.stage.rollbackBuffer.size = maxRollback + 2
  limit : machine.stage.maxRollbacks.toNat = maxRollback
  room : machine.stage.rollbackBuffer.points.length ≤ maxRollback + 2
  bounded : peak < 2 ^ 64
  reached : machine.stage.lastProcessed.height.toNat ≤ peak
  near : peak ≤ machine.stage.lastProcessed.height.toNat + maxRollback + 1
  floor : ∀ block ∈ machine.stage.rollbackBuffer.points,
    peak ≤ block.point.height.toNat + maxRollback + 1
  fileable : ∀ block ∈ machine.stage.rollbackBuffer.points, Fileable block
  values : ShortValues machine.stage.db.db.view
  persisted : Persisted machine.stage.db.db.view
    (machine.stage.rollbackBuffer.points.filter (PointWithOriginalKVs.retained maxRollback peak))

section Steps

variable {names : Header → Point → Prop} {genesis : BlockHash} {maxRollback peak : Nat}
variable {machine : Machine} {chain : List Point} {ledger : List LedgerEntry}

theorem Restartable.rollback {now : U64} {accepted : Bool} {rbPoint : Point} {stage : Stage}
    (state : Restartable names genesis maxRollback peak machine chain ledger)
    (success : machine.stage.rollbackToPoint now accepted rbPoint = .ok stage)
    (low : rbPoint.height ≠ u64Max) (increasing : Increasing stage.db.db.log) :
    ∃ chain' ledger', Restartable names genesis maxRollback peak { machine with stage } chain' ledger' := by
  rcases state.inv.rollback success low increasing with ⟨below, entry, top, _, _, _, _, rolled⟩
  rcases Stage.rollbackToPoint_ok success with ⟨index, db, found, wrote, rfl⟩
  have committed := StorageHandler.commit_committed wrote
  rcases RollbackBuffer.position_some found with ⟨block, lookup, target, _⟩
  have member := List.mem_of_getElem? lookup
  have split := List.take_append_drop index machine.stage.rollbackBuffer.points
  have apart := state.inv.descending
  rw [← split, List.pairwise_append] at apart
  refine ⟨chain.drop below, _, rolled, state.size, state.limit, ?_, state.bounded, ?_, ?_, ?_, ?_, ?_, ?_⟩
  · have short := state.room
    rw [List.length_drop]
    omega
  · have height := (state.inv.linked.drop below).height_top
    have reached := state.reached
    rw [state.inv.tip_height] at reached
    rw [top, List.length_drop] at height
    rw [height]
    omega
  · rw [← target]
    exact state.floor block member
  · intro other inside
    exact state.floor other (List.mem_of_mem_drop inside)
  · intro other inside
    exact state.fileable other (List.mem_of_mem_drop inside)
  · apply state.values.undo _ (committed.view increasing)
    intro other inside
    exact state.fileable other (List.mem_of_mem_take inside)
  · have persisted := state.persisted
    rw [← split, List.filter_append] at persisted
    refine persisted.undo ?_ ?_ ?_ (fun raw _ => committed.view increasing raw)
    · intro other inside
      exact (List.mem_filter.mp inside).1
    · intro other inside
      apply state.fileable
      rcases List.mem_append.mp inside with undone | kept
      · exact List.mem_of_mem_take undone
      · exact List.mem_of_mem_drop (List.mem_filter.mp kept).1
    · intro older inside newer undone same
      have less := apart.2.2 newer undone older (List.mem_filter.mp inside).1
      rw [same] at less
      exact absurd less (BitVec.lt_irrefl _)

theorem Restartable.failed (state : Restartable names genesis maxRollback peak machine chain ledger)
    (mutable : Bool) (cache : Option UtxoCache)
    (rises : machine.worker.mutable = true → mutable = true) :
    Restartable names genesis maxRollback peak
      ⟨{ machine.worker with mutable }, { machine.stage with utxoCache := cache }⟩ chain ledger :=
  ⟨state.inv.failed mutable cache rises, state.size, state.limit, state.room, state.bounded,
    state.reached, state.near, state.floor, state.fileable, state.values, state.persisted⟩

theorem Restartable.mem_take (state : Restartable names genesis maxRollback peak machine chain ledger)
    (idle : machine.stage.processedMempool = false) {block : PointWithOriginalKVs}
    (member : block ∈ machine.stage.rollbackBuffer.points) :
    block.point.height.toNat ≤ machine.stage.lastProcessed.height.toNat ∧
      (block ∈ machine.stage.rollbackBuffer.points.take (maxRollback + 1) ↔
        machine.stage.lastProcessed.height.toNat ≤ block.point.height.toNat + maxRollback) := by
  rcases List.getElem?_of_mem member with ⟨index, listed⟩
  have height := state.inv.height_at idle listed
  refine ⟨by omega, ?_⟩
  constructor
  · intro taken
    rcases List.getElem?_of_mem taken with ⟨position, found⟩
    rw [List.getElem?_take] at found
    split at found
    · have same := state.inv.height_at idle found
      omega
    · cases found
  · intro close
    apply List.mem_of_getElem? (i := index)
    rw [List.getElem?_take, if_pos (by omega)]
    exact listed

theorem mem_addBlock (buffer : RollbackBuffer) (point : Point) (kvs : HashMap RawKey PreviousValue)
    (size : buffer.size = maxRollback + 2) (block : PointWithOriginalKVs) :
    block ∈ (buffer.addBlock point kvs).points ↔
      block = ⟨point, kvs⟩ ∨ block ∈ buffer.points.take (maxRollback + 1) := by
  rw [RollbackBuffer.addBlock, size, List.take_succ_cons, List.mem_cons]

theorem Restartable.confirmed {point : Point} {kvs : HashMap RawKey PreviousValue} {after : Machine}
    {ledger' : List LedgerEntry} (state : Restartable names genesis maxRollback peak machine chain ledger)
    (idle : machine.stage.processedMempool = false)
    (height : point.height.toNat = machine.stage.lastProcessed.height.toNat + 1)
    (extended : ChainInv names genesis after (point :: chain) ledger')
    (tip : after.stage.lastProcessed = point)
    (limit : after.stage.maxRollbacks = machine.stage.maxRollbacks)
    (buffer : after.stage.rollbackBuffer = machine.stage.rollbackBuffer.addBlock point kvs)
    (fileable : Fileable ⟨point, kvs⟩) (values : ShortValues after.stage.db.db.view)
    (persisted : Persisted after.stage.db.db.view ((⟨point, kvs⟩ ::
      machine.stage.rollbackBuffer.points.filter (PointWithOriginalKVs.retained maxRollback peak)).filter
      (fun block => decide (saturatingSub point.height machine.stage.maxRollbacks ≤ block.point.height)))) :
    Restartable names genesis maxRollback (max peak after.stage.lastProcessed.height.toNat) after
      (point :: chain) ledger' := by
  have reached := state.reached
  have near := state.near
  have bounded := state.bounded
  have members := mem_addBlock machine.stage.rollbackBuffer point kvs state.size
  rw [← buffer] at members
  rw [tip, height]
  refine ⟨extended, ?_, by rw [limit]; exact state.limit, ?_, ?_, ?_, ?_, ?_, ?_, values, ?_⟩
  · rw [buffer]
    exact state.size
  · rw [buffer, RollbackBuffer.addBlock, state.size]
    exact List.length_take_le _ _
  · have bound := point.height.isLt
    omega
  · rw [tip, height]
    omega
  · rw [tip, height]
    omega
  · intro block member
    rcases (members block).mp member with rfl | old
    · rw [height]
      omega
    · have inside := List.mem_of_mem_take old
      have close := ((state.mem_take idle inside).2).mp old
      have floor := state.floor block inside
      omega
  · intro block member
    rcases (members block).mp member with rfl | old
    · exact fileable
    · exact state.fileable block (List.mem_of_mem_take old)
  · apply persisted.congr
    intro block
    rw [List.mem_filter, List.mem_filter, List.mem_cons, List.mem_filter, members block,
      decide_eq_true_eq, BitVec.le_def, toNat_saturatingSub, state.limit, height,
      PointWithOriginalKVs.retained, PointWithOriginalKVs.retained, decide_eq_true_eq,
      decide_eq_true_eq]
    constructor
    · rintro ⟨rfl | ⟨member, kept⟩, close⟩
      · refine ⟨Or.inl rfl, ?_⟩
        rw [height]
        omega
      · refine ⟨Or.inr (((state.mem_take idle member).2).mpr (by omega)), by omega⟩
    · rintro ⟨rfl | taken, kept⟩
      · refine ⟨Or.inl rfl, ?_⟩
        rw [height]
        omega
      · exact ⟨Or.inr ⟨List.mem_of_mem_take taken, by omega⟩, by omega⟩

theorem Restartable.immutable {point : Point} {after : Machine} {ledger' : List LedgerEntry}
    (state : Restartable names genesis maxRollback peak machine chain ledger)
    (empty : machine.stage.rollbackBuffer.points = [])
    (height : point.height.toNat = machine.stage.lastProcessed.height.toNat + 1)
    (extended : ChainInv names genesis after (point :: chain) ledger')
    (tip : after.stage.lastProcessed = point)
    (limit : after.stage.maxRollbacks = machine.stage.maxRollbacks)
    (buffer : after.stage.rollbackBuffer = machine.stage.rollbackBuffer)
    (values : ShortValues after.stage.db.db.view) (persisted : Persisted after.stage.db.db.view []) :
    Restartable names genesis maxRollback (max peak after.stage.lastProcessed.height.toNat) after
      (point :: chain) ledger' := by
  have reached := state.reached
  have near := state.near
  have bounded := state.bounded
  have bound := point.height.isLt
  rw [tip, height]
  refine ⟨extended, ?_, by rw [limit]; exact state.limit, ?_, by omega, ?_, ?_, ?_, ?_, values, ?_⟩
  · rw [buffer]
    exact state.size
  · rw [buffer]
    exact state.room
  · rw [tip, height]
    omega
  · rw [tip, height]
    omega
  · rw [buffer, empty]
    simp
  · rw [buffer, empty]
    simp
  · rw [buffer, empty]
    exact persisted

theorem Restartable.forward {env : Env} {point tip : Point} {header : Header} {txs : BlockTxs}
    {cache : Option UtxoCache} {final : FinalizedTask} {db : StorageHandler}
    (state : Restartable names genesis maxRollback peak machine chain ledger)
    (undone : machine.stage.processedMempool = false)
    (height : point.height = machine.stage.lastProcessed.height + 1)
    (parent : header.prevBlockhash = machine.stage.lastProcessed.hash)
    (hash : names header point) (low : point.height ≠ u64Max)
    (indexed : indexBlock machine.worker.indexers
      (machine.stage.db.beginIndexingTask (machine.mutableAt point tip)) point txs
      machine.stage.network (machine.liveCache env) = (cache, .ok final))
    (applied : machine.stage.db.applyIndexingTask env.commitNow env.commitAccepted final point
      machine.stage.maxRollbacks none = .ok db)
    (increasing : Increasing db.db.log) :
    ∃ chain' ledger', Restartable names genesis maxRollback (max peak point.height.toNat)
      ⟨{ machine.worker with mutable := machine.mutableAt point tip }, { machine.stage with
        utxoCache := cache
        db
        lastProcessed := point
        rollbackBuffer := final.originalKvs.elim machine.stage.rollbackBuffer
          (machine.stage.rollbackBuffer.addBlock point) }⟩ chain' ledger' := by
  rcases state.inv.forward undone height parent hash low indexed applied increasing with
    ⟨ledger', _, extended⟩
  refine ⟨point :: chain, ledger', ?_⟩
  have next : point.height.toNat = machine.stage.lastProcessed.height.toNat + 1 := by
    rw [state.inv.tip_height]
    exact extended.linked.1
  have writes := indexBlock_lookup indexed rfl (IndexerInfoKV.encodeKey ()) not_isTxKey_info
  rcases indexBlock_written indexed with ⟨task, written, rfl⟩
  have index (key : RawKey) (member : key ∈ task.finalize.writeBuffer) : IsIndexKey key :=
    written.buffered rfl member
  have values := state.values.applied (written.short (IndexingTask.short_of_fresh rfl)) applied
    increasing
  cases originals : task.finalize.originalKvs with
  | some kvs =>
      rw [originals] at extended
      have tracked : machine.mutableAt point tip = true := by
        rw [← indexBlock_originals indexed, originals]
        rfl
      rw [tracked] at written
      have fileable : Fileable ⟨point, kvs⟩ := by
        apply fileable_of_written written machine.stage.db.tracks_beginIndexingTask rfl rfl rfl
          state.inv.journal.current originals state.values
        refine ⟨IndexerInfoKV.encodeKey (), ?_⟩
        have other : IndexerInfoKV.encodeKey () ≠ HashByHeightKV.encodeKey point.height :=
          (info_ne_of_hash (Table.holds_encodeKey _ _)).symm
        rw [if_neg other, if_pos rfl] at writes
        rw [← AList.lookup_isSome, show task.writeBuffer.lookup _ = _ from writes]
        rfl
      apply state.confirmed undone next extended rfl rfl rfl fileable values
      apply Persisted.confirmed applied increasing index originals written.sameSource.mempool
        state.persisted fileable
      intro other member
      have inside := (List.mem_filter.mp member).1
      refine ⟨state.fileable other inside, ?_⟩
      rintro rfl
      have below := (state.mem_take undone inside).1
      omega
  | none =>
      rw [originals] at extended
      have empty : machine.stage.rollbackBuffer.points = [] := by
        by_contra some
        have tracked := indexBlock_originals indexed
        rw [mutableAt_rises machine point tip (state.inv.mutable some), originals] at tracked
        cases tracked
      have persisted := state.persisted
      rw [empty, List.filter_nil] at persisted
      exact state.immutable empty next extended rfl rfl rfl values
        (persisted.immutable applied increasing index originals)

theorem Restartable.pseudo {kvs : HashMap RawKey PreviousValue} {after : Machine}
    {ledger' : List LedgerEntry} (state : Restartable names genesis maxRollback peak machine chain ledger)
    (idle : machine.stage.processedMempool = false)
    (extended : ChainInv names genesis after chain ledger')
    (tip : after.stage.lastProcessed = machine.stage.lastProcessed)
    (limit : after.stage.maxRollbacks = machine.stage.maxRollbacks)
    (buffer : after.stage.rollbackBuffer = machine.stage.rollbackBuffer.addBlock
      (Machine.mempoolPoint machine.stage.lastProcessed) kvs)
    (fileable : Fileable ⟨Machine.mempoolPoint machine.stage.lastProcessed, kvs⟩)
    (values : ShortValues after.stage.db.db.view)
    (persisted : Persisted after.stage.db.db.view
      (⟨Machine.mempoolPoint machine.stage.lastProcessed, kvs⟩ ::
        machine.stage.rollbackBuffer.points.filter (PointWithOriginalKVs.retained maxRollback peak))) :
    Restartable names genesis maxRollback peak after chain ledger' := by
  have reached := state.reached
  have bounded := state.bounded
  have top : (Machine.mempoolPoint machine.stage.lastProcessed).height.toNat = 2 ^ 64 - 1 := rfl
  have members := mem_addBlock machine.stage.rollbackBuffer
    (Machine.mempoolPoint machine.stage.lastProcessed) kvs state.size
  rw [← buffer] at members
  refine ⟨extended, ?_, by rw [limit]; exact state.limit, ?_, bounded, by rw [tip]; exact reached,
    by rw [tip]; exact state.near, ?_, ?_, values, ?_⟩
  · rw [buffer]
    exact state.size
  · rw [buffer, RollbackBuffer.addBlock, state.size]
    exact List.length_take_le _ _
  · intro block member
    rcases (members block).mp member with rfl | old
    · rw [top]
      omega
    · exact state.floor block (List.mem_of_mem_take old)
  · intro block member
    rcases (members block).mp member with rfl | old
    · exact fileable
    · exact state.fileable block (List.mem_of_mem_take old)
  · apply persisted.congr
    intro block
    rw [List.mem_cons, List.mem_filter, List.mem_filter, members block,
      PointWithOriginalKVs.retained, decide_eq_true_eq]
    constructor
    · rintro (rfl | ⟨member, kept⟩)
      · refine ⟨Or.inl rfl, ?_⟩
        rw [top]
        omega
      · exact ⟨Or.inr (((state.mem_take idle member).2).mpr (by omega)), kept⟩
    · rintro ⟨rfl | taken, kept⟩
      · exact Or.inl rfl
      · exact Or.inr ⟨List.mem_of_mem_take taken, kept⟩

theorem Restartable.snapshot {env : Env} {timestamp : U64} {blocks : List BlockTxs}
    {cache : Option UtxoCache} {final : FinalizedTask} {db : StorageHandler}
    (state : Restartable names genesis maxRollback peak machine chain ledger)
    (undone : machine.stage.processedMempool = false)
    (holds : machine.stage.rollbackBuffer.points ≠ []) (nonempty : blocks ≠ [])
    (indexed : indexMempool machine.worker.indexers machine.stage.db.beginMempoolIndexingTask
      machine.stage.lastProcessed blocks machine.stage.network (machine.liveCache env) =
        (cache, .ok final))
    (applied : machine.stage.db.applyIndexingTask env.commitNow env.commitAccepted final
      ⟨machine.stage.lastProcessed.height + BitVec.ofNat 64 blocks.length,
        machine.stage.lastProcessed.hash⟩ machine.stage.maxRollbacks (some timestamp) = .ok db)
    (increasing : Increasing db.db.log) :
    ∃ chain' ledger', Restartable names genesis maxRollback peak
      { machine with stage := { machine.stage with
        utxoCache := cache
        db
        processedMempool := true
        rollbackBuffer := final.originalKvs.elim machine.stage.rollbackBuffer
          (machine.stage.rollbackBuffer.addBlock
            (Machine.mempoolPoint machine.stage.lastProcessed)) } } chain' ledger' := by
  rcases state.inv.snapshot undone holds nonempty indexed applied increasing with
    ⟨ledger', _, extended⟩
  refine ⟨chain, ledger', ?_⟩
  rcases indexMempool_lookup nonempty indexed rfl with ⟨height, writes⟩
  have informed := writes (IndexerInfoKV.encodeKey ()) not_isTxKey_info
  rw [if_pos rfl] at informed
  rcases indexMempool_written nonempty indexed with ⟨task, written, rfl⟩
  have index (key : RawKey) (member : key ∈ task.finalize.writeBuffer) : IsIndexKey key :=
    written.buffered rfl member
  have values := state.values.applied (written.short (IndexingTask.short_of_fresh rfl)) applied
    increasing
  rcases written.tracks machine.stage.db.tracks_beginMempoolIndexingTask with ⟨kvs, tracks⟩
  have originals : task.finalize.originalKvs = some kvs := tracks.originals
  rw [originals] at extended ⊢
  have fileable : Fileable ⟨Machine.mempoolPoint machine.stage.lastProcessed, kvs⟩ := by
    apply fileable_of_written written machine.stage.db.tracks_beginMempoolIndexingTask rfl rfl rfl
      state.inv.journal.current originals state.values
    refine ⟨IndexerInfoKV.encodeKey (), ?_⟩
    rw [← AList.lookup_isSome, show task.writeBuffer.lookup _ = _ from informed]
    rfl
  apply state.pseudo undone extended rfl rfl rfl fileable values
  apply Persisted.mempool applied increasing index originals written.sameSource.mempool
    state.persisted fileable
  intro other member
  have inside := (List.mem_filter.mp member).1
  refine ⟨state.fileable other inside, ?_⟩
  intro same
  have below := (state.mem_take undone inside).1
  have low := state.inv.tip_low
  apply low
  apply BitVec.eq_of_toNat_eq
  have bound := machine.stage.lastProcessed.height.isLt
  have top : other.point.height.toNat = u64Max.toNat := by rw [same]
  have full : u64Max.toNat = 2 ^ 64 - 1 := rfl
  omega

end Steps

theorem ledger_replaced {blocks : List PointWithOriginalKVs} {ledger : List LedgerEntry}
    (same : List.Forall₂ PointWithOriginalKVs.Same blocks (ledger.map LedgerEntry.block)) :
    ∃ ledger', ledger'.map LedgerEntry.block = blocks ∧
      ledger'.map LedgerEntry.toUndo = ledger.map LedgerEntry.toUndo ∧
      List.Forall₂ (fun entry entry' => entry'.block.point = entry.block.point ∧
        entry'.view = entry.view) ledger ledger' := by
  induction ledger generalizing blocks with
  | nil =>
      rw [List.map_nil, List.forall₂_nil_right_iff] at same
      exact ⟨[], same.symm, rfl, List.Forall₂.nil⟩
  | cons entry rest ih =>
      rw [List.map_cons, List.forall₂_cons_right_iff] at same
      rcases same with ⟨block, others, first, remaining, rfl⟩
      rcases ih remaining with ⟨ledger', blocks', undo, paired⟩
      have saved : block.saved = entry.block.saved := by
        funext key
        rw [PointWithOriginalKVs.saved, PointWithOriginalKVs.saved, first.2 key]
      refine ⟨{ entry with block } :: ledger', ?_, ?_, List.Forall₂.cons ⟨first.1, rfl⟩ paired⟩
      · rw [List.map_cons, blocks']
      · rw [List.map_cons, List.map_cons, undo, LedgerEntry.toUndo, LedgerEntry.toUndo, saved]

theorem Tracked.replaced {chain : List Point} {ledger ledger' : List LedgerEntry}
    (tracked : Tracked chain ledger)
    (paired : List.Forall₂ (fun entry entry' => entry'.block.point = entry.block.point ∧
      entry'.view = entry.view) ledger ledger') : Tracked chain ledger' := by
  induction paired generalizing chain with
  | nil => cases chain <;> trivial
  | cons first _ ih =>
      cases chain with
      | nil => cases tracked
      | cons point below =>
          refine ⟨first.1.trans tracked.1, ?_, ih tracked.2.2⟩
          rw [first.2]
          exact tracked.2.1

section Rebuilt

variable {names : Header → Point → Prop} {genesis : BlockHash} {maxRollback peak : Nat}
variable {machine : Machine} {chain : List Point} {ledger : List LedgerEntry}

theorem ChainInv.rebuilt {after : Machine} {count : Nat}
    (inv : ChainInv names genesis machine chain ledger)
    (same : List.Forall₂ PointWithOriginalKVs.Same after.stage.rollbackBuffer.points
      (machine.stage.rollbackBuffer.points.take count))
    (pseudo : machine.stage.processedMempool = true → 0 < count)
    (db : after.stage.db = StorageHandler.openDb machine.stage.db.db)
    (tip : after.stage.lastProcessed = machine.stage.lastProcessed)
    (mempool : after.stage.processedMempool = machine.stage.processedMempool)
    (mutable : after.stage.rollbackBuffer.points ≠ [] → after.worker.mutable = true)
    (size : 2 ≤ after.stage.rollbackBuffer.size) :
    ∃ ledger', ChainInv names genesis after chain ledger' ∧
      ledger'.map LedgerEntry.view = (ledger.take count).map LedgerEntry.view := by
  rw [inv.held, ← List.map_take] at same
  rcases ledger_replaced same with ⟨ledger', blocks, undo, paired⟩
  have views := congrArg (List.map UndoLog.Entry.state) undo
  rw [List.map_map, List.map_map] at views
  refine ⟨ledger', ⟨inv.linked, inv.low, ?_, by rw [tip]; exact inv.tip, ?_, blocks.symm, ?_, mutable,
    size⟩, views⟩
  · rw [db, mempool]
    exact inv.tables
  · refine ⟨?_, ?_, ?_, ?_⟩
    · rw [blocks]
    · rw [undo, List.map_take]
      exact UndoLog.consistent_take _ _ _ inv.journal.consistent
    · intro newest head
      rw [db]
      cases paired' : ledger.take count with
      | nil =>
          rw [paired', List.forall₂_nil_left_iff] at paired
          rw [paired] at head
          cases head
      | cons first rest =>
          rw [paired', List.forall₂_cons_left_iff] at paired
          rcases paired with ⟨entry, others, equal, _, rfl⟩
          obtain rfl : entry = newest := by simpa using head
          rw [equal.2]
          apply inv.journal.top first
          have front := congrArg List.head? paired'
          rw [List.head?_take, List.head?_cons] at front
          split at front
          · cases front
          · exact front
    · rw [db]
      intro previous found
      cases found
  · rcases inv.layers with ⟨confirmed, tracked, layered⟩
    rw [mempool, tip]
    cases snapshot : machine.stage.processedMempool with
    | false =>
        rw [snapshot] at layered
        obtain rfl : ledger = confirmed := layered
        exact ⟨ledger', (tracked.take count).replaced paired, rfl⟩
    | true =>
        rw [snapshot] at layered
        rcases layered with ⟨entry, point, rfl⟩
        rcases Nat.exists_eq_succ_of_ne_zero (Nat.pos_iff_ne_zero.mp (pseudo snapshot)) with ⟨below, rfl⟩
        rw [List.take_succ_cons, List.forall₂_cons_left_iff] at paired
        rcases paired with ⟨entry', others, equal, remaining, rfl⟩
        exact ⟨others, (tracked.take below).replaced remaining, entry', equal.1.trans point, rfl⟩

theorem Restartable.newest (state : Restartable names genesis maxRollback peak machine chain ledger) :
    ∃ count, machine.stage.rollbackBuffer.points.filter
        (PointWithOriginalKVs.retained maxRollback peak) =
      machine.stage.rollbackBuffer.points.take count := by
  have descending := state.inv.descending
  generalize machine.stage.rollbackBuffer.points = points at descending
  induction points with
  | nil => exact ⟨0, rfl⟩
  | cons block rest ih =>
      rw [List.pairwise_cons] at descending
      rcases ih descending.2 with ⟨count, newest⟩
      cases kept : block.retained maxRollback peak with
      | true =>
          refine ⟨count + 1, ?_⟩
          rw [List.filter_cons_of_pos kept, newest, List.take_succ_cons]
      | false =>
          refine ⟨0, ?_⟩
          rw [List.filter_cons_of_neg (by rw [kept]; exact Bool.false_ne_true), List.take_zero,
            List.filter_eq_nil_iff]
          intro older member
          have less := descending.1 older member
          rw [BitVec.lt_def] at less
          rw [PointWithOriginalKVs.retained, decide_eq_false_iff_not] at kept
          rw [PointWithOriginalKVs.retained, decide_eq_true_eq]
          omega

theorem ChainInv.front (inv : ChainInv names genesis machine chain ledger)
    {block : PointWithOriginalKVs} (front : machine.stage.rollbackBuffer.points.head? = some block) :
    block.point = if machine.stage.processedMempool then Machine.mempoolPoint machine.stage.lastProcessed
      else machine.stage.lastProcessed := by
  have mapped := congrArg List.head? inv.points
  rw [List.head?_map, front, Option.map_some, Stage.pseudo] at mapped
  cases snapshot : machine.stage.processedMempool with
  | true =>
      rw [snapshot, if_pos rfl] at mapped
      rw [if_pos rfl]
      exact Option.some.inj mapped
  | false =>
      rw [snapshot, if_neg Bool.false_ne_true, List.nil_append, List.head?_take] at mapped
      rw [if_neg Bool.false_ne_true, inv.tip]
      split at mapped
      · cases mapped
      · cases chain with
        | nil => cases mapped
        | cons point below => exact Option.some.inj mapped

theorem InfoMatches.read {mempool : Bool} {db : DB}
    (matching : InfoMatches chain mempool (db.view (IndexerInfoKV.encodeKey ()))) :
    ∃ info : Option IndexerInfo,
      (Reader.mk db Timestamp.latest).get IndexerInfoKV () = .ok info ∧
      (info.map IndexerInfo.mempool).getD false = mempool ∧
      ∀ found, info = some found → ∃ point below, chain = point :: below ∧
        found.lastPointHash = point.hash ∧
        (mempool = false → found.lastPointHeight = point.height) := by
  rcases matching with ⟨_, idle, cell⟩ | ⟨point, below, info, top, cell, hash, same, height⟩
  · refine ⟨none, ?_, idle.symm, ?_⟩
    · rw [Reader.get, show db.get Timestamp.latest _ = _ from cell]
      rfl
    · intro found impossible
      cases impossible
  · refine ⟨some info, ?_, same, ?_⟩
    · rw [Reader.get, show db.get Timestamp.latest _ = _ from cell]
      simp only [IndexingTask.decodeCell, bind, Except.bind, pure, Except.pure,
        decodeAll_encode info trivial, liftDecoding]
    · intro found equal
      rw [← Option.some.inj equal]
      exact ⟨point, below, top, hash, height⟩

theorem Restartable.stored_front (state : Restartable names genesis maxRollback peak machine chain ledger)
    {block : PointWithOriginalKVs} {rest : List PointWithOriginalKVs}
    (same : List.Forall₂ PointWithOriginalKVs.Same (block :: rest)
      (machine.stage.rollbackBuffer.points.filter (PointWithOriginalKVs.retained maxRollback peak))) :
    block.point = if machine.stage.processedMempool then Machine.mempoolPoint machine.stage.lastProcessed
      else machine.stage.lastProcessed := by
  rcases state.newest with ⟨count, newest⟩
  rw [newest, List.forall₂_cons_left_iff] at same
  rcases same with ⟨other, others, equal, _, taken⟩
  have head := congrArg List.head? taken
  rw [List.head?_take, List.head?_cons] at head
  rw [equal.1]
  split at head
  · cases head
  · exact state.inv.front head

theorem Restartable.new {config : Config}
    (state : Restartable names config.genesisHash config.maxRollbacks peak machine chain ledger) :
    ∃ stage, Stage.new config (StorageHandler.openDb machine.stage.db.db) = .ok stage ∧
      List.Forall₂ PointWithOriginalKVs.Same stage.rollbackBuffer.points
        (machine.stage.rollbackBuffer.points.filter
          (PointWithOriginalKVs.retained config.maxRollbacks peak)) ∧
      stage.db = StorageHandler.openDb machine.stage.db.db ∧
      stage.rollbackBuffer.size = config.maxRollbacks + 2 ∧
      stage.maxRollbacks = BitVec.ofNat 64 config.maxRollbacks ∧
      stage.lastProcessed = machine.stage.lastProcessed ∧
      stage.processedMempool = machine.stage.processedMempool := by
  have inside (block : PointWithOriginalKVs) (member : block ∈ machine.stage.rollbackBuffer.points.filter
      (PointWithOriginalKVs.retained config.maxRollbacks peak)) :
      block ∈ machine.stage.rollbackBuffer.points := (List.mem_filter.mp member).1
  rcases state.persisted.reload (fun block member => state.fileable block (inside block member))
    (state.inv.descending.sublist List.filter_sublist)
    (le_trans (List.length_filter_le _ _) state.room) (config.safeMode.getD false) with
    ⟨blocks, same, loaded⟩
  rcases state.inv.tables.info.read with ⟨info, read, mempool, found⟩
  have holds : HoldsChain machine.stage.db.db chain :=
    ⟨state.inv.linked.contiguous, state.inv.tables.hashes⟩
  have assertions : Stage.startAssertions
      ⟨blocks, config.maxRollbacks + 2, config.safeMode.getD false⟩ machine.stage.lastProcessed info =
        true := by
    simp only [Stage.startAssertions, RollbackBuffer.latest]
    cases listed : blocks with
    | nil => cases info <;> rfl
    | cons block rest =>
        cases recorded : info with
        | none => rfl
        | some stored =>
            rcases found stored recorded with ⟨point, below, top, hash, height⟩
            rw [listed] at same
            have front := state.stored_front same
            have tip : machine.stage.lastProcessed = point := by
              rw [state.inv.tip, top]
              rfl
            rw [recorded, Option.map_some, Option.getD_some] at mempool
            simp only [List.head?_cons, mempool]
            cases snapshot : machine.stage.processedMempool with
            | true =>
                rw [snapshot, if_pos rfl] at front
                simp [front, Machine.mempoolPoint, tip, hash]
            | false =>
                rw [snapshot, if_neg Bool.false_ne_true] at front
                simp [front, tip, hash, height snapshot]
  let stage : Stage := {
    db := StorageHandler.openDb machine.stage.db.db
    network := config.network
    rollbackBuffer := ⟨blocks, config.maxRollbacks + 2, config.safeMode.getD false⟩
    maxRollbacks := BitVec.ofNat 64 config.maxRollbacks
    lastProcessed := machine.stage.lastProcessed
    processedMempool := machine.stage.processedMempool
    utxoCache := if config.utxoCache then some ∅ else none }
  refine ⟨stage, ?_, same, rfl, rfl, rfl, rfl, rfl⟩
  have opened : (StorageHandler.openDb machine.stage.db.db).db = machine.stage.db.db := rfl
  have newest := holds.newest
  have tip := state.inv.tip
  cases chain with
  | nil =>
      have last : Point.genesis config = machine.stage.lastProcessed := tip.symm
      rw [List.head?_nil, Option.map_none] at newest
      simp only [Stage.new, loaded, bind, Except.bind, StorageHandler.reader, opened, newest, read, last,
        mempool, assertions, if_true, pure, Except.pure]
      rfl
  | cons point below =>
      have last : (⟨point.height, point.hash⟩ : Point) = machine.stage.lastProcessed := tip.symm
      rw [List.head?_cons, Option.map_some] at newest
      simp only [Stage.new, loaded, bind, Except.bind, StorageHandler.reader, opened, newest, read, last,
        mempool, assertions, if_true, pure, Except.pure]
      rfl

theorem Restartable.pseudo_kept
    (state : Restartable names genesis maxRollback peak machine chain ledger) {count : Nat}
    (newest : machine.stage.rollbackBuffer.points.filter
        (PointWithOriginalKVs.retained maxRollback peak) =
      machine.stage.rollbackBuffer.points.take count)
    (snapshot : machine.stage.processedMempool = true) : 0 < count := by
  rcases state.inv.layers with ⟨confirmed, _, layered⟩
  rw [snapshot] at layered
  rcases layered with ⟨entry, point, rfl⟩
  by_contra none
  obtain rfl : count = 0 := by omega
  have held := state.inv.held
  rw [List.map_cons] at held
  have kept : entry.block.retained maxRollback peak = true := by
    have bounded := state.bounded
    have top : (Machine.mempoolPoint machine.stage.lastProcessed).height.toNat = 2 ^ 64 - 1 := rfl
    rw [PointWithOriginalKVs.retained, point, top, decide_eq_true_eq]
    omega
  rw [held, List.filter_cons_of_pos kept, List.take_zero] at newest
  cases newest

/-- A restarted process goes on as the one before it, with the blocks of the table. -/
theorem Restartable.restart {config : Config} {stage : Stage} (indexers : List Indexer)
    (state : Restartable names config.genesisHash config.maxRollbacks peak machine chain ledger)
    (rebuilt : Stage.new config (StorageHandler.openDb machine.stage.db.db) = .ok stage) :
    ∃ ledger', Restartable names config.genesisHash config.maxRollbacks peak
      (Machine.bootstrap indexers stage) chain ledger' := by
  rcases state.new with ⟨stage', rebuilt', same, db, size, limit, tip, mempool⟩
  obtain rfl : stage = stage' := Except.ok.inj (rebuilt.symm.trans rebuilt')
  rcases state.newest with ⟨count, newest⟩
  have paired := same
  rw [newest] at paired
  have mutable : (Machine.bootstrap indexers stage).stage.rollbackBuffer.points ≠ [] →
      (Machine.bootstrap indexers stage).worker.mutable = true := by
    intro some
    have held : stage.rollbackBuffer.points ≠ [] := some
    simp [Machine.bootstrap, RollbackBuffer.isEmpty, held]
  have room : 2 ≤ (Machine.bootstrap indexers stage).stage.rollbackBuffer.size := by
    rw [Machine.bootstrap, size]
    exact Nat.le_add_left 2 _
  rcases state.inv.rebuilt paired (state.pseudo_kept newest) db tip mempool mutable room with ⟨ledger', inv, _⟩
  have stored (block : PointWithOriginalKVs) (member : block ∈ stage.rollbackBuffer.points) :
      ∃ other ∈ machine.stage.rollbackBuffer.points, block.Same other ∧
        block.retained config.maxRollbacks peak = true := by
    rcases PointWithOriginalKVs.forall₂_same_exists same member with ⟨other, inside, equal⟩
    rw [List.mem_filter] at inside
    refine ⟨other, inside.1, equal, ?_⟩
    rw [PointWithOriginalKVs.retained, equal.1]
    exact inside.2
  refine ⟨ledger', inv, size, ?_, ?_, state.bounded, ?_, ?_, ?_, ?_, ?_, ?_⟩
  · have bound := machine.stage.maxRollbacks.isLt
    rw [state.limit] at bound
    rw [Machine.bootstrap, limit, BitVec.toNat_ofNat, Nat.mod_eq_of_lt bound]
  · rw [Machine.bootstrap, same.length_eq]
    exact le_trans (List.length_filter_le _ _) state.room
  · rw [Machine.bootstrap, tip]
    exact state.reached
  · rw [Machine.bootstrap, tip]
    exact state.near
  · intro block member
    rcases stored block member with ⟨other, inside, equal, _⟩
    rw [equal.1]
    exact state.floor other inside
  · intro block member
    rcases stored block member with ⟨other, inside, equal, _⟩
    exact equal.symm.fileable (state.fileable other inside)
  · rw [Machine.bootstrap, db]
    exact state.values
  · have whole : stage.rollbackBuffer.points.filter
        (PointWithOriginalKVs.retained config.maxRollbacks peak) = stage.rollbackBuffer.points := by
      rw [List.filter_eq_self]
      intro block member
      rcases stored block member with ⟨_, _, _, kept⟩
      exact kept
    rw [Machine.bootstrap, whole, db]
    exact state.persisted.of_same same

end Rebuilt

theorem Stage.new_db {config : Config} {handler : StorageHandler} {stage : Stage}
    (rebuilt : Stage.new config handler = .ok stage) : stage.db = handler := by
  simp only [Stage.new, bind, Except.bind] at rebuilt
  split at rebuilt
  · cases rebuilt
  · split at rebuilt
    · split at rebuilt
      · cases rebuilt
      · split at rebuilt
        · cases rebuilt
        · split at rebuilt
          · cases rebuilt
            rfl
          · cases rebuilt
    · split at rebuilt
      · cases rebuilt
      · split at rebuilt
        · cases rebuilt
          rfl
        · cases rebuilt

/-- The runs of a stage from an empty database, restarts included, under one configuration;
`peak` is the greatest height the stage has stood at. -/
inductive Reached (names : Header → Point → Prop) (config : Config) (indexers : List Indexer) :
    Nat → Machine → Prop where
  | start {stage : Stage} (fresh : Stage.new config (StorageHandler.openDb DB.empty) = .ok stage) :
      Reached names config indexers 0 (Machine.bootstrap indexers stage)
  | call {peak : Nat} {machine : Machine} (before : Reached names config indexers peak machine)
      (env : Env) (event : ChainEvent) (valid : event.Valid names) :
      Reached names config indexers
        (max peak (machine.execute env event).1.stage.lastProcessed.height.toNat)
        (machine.execute env event).1
  | restart {peak : Nat} {machine : Machine} {stage : Stage}
      (before : Reached names config indexers peak machine)
      (rebuilt : Stage.new config (StorageHandler.openDb machine.stage.db.db) = .ok stage) :
      Reached names config indexers peak (Machine.bootstrap indexers stage)

theorem kept_restartable (names : Header → Point → Prop) (genesis : BlockHash)
    (maxRollback peak : Nat) :
    Kept names genesis
      (fun machine => ∃ chain ledger, Restartable names genesis maxRollback peak machine chain ledger)
      (fun machine => ∃ chain ledger, Restartable names genesis maxRollback
        (max peak machine.stage.lastProcessed.height.toNat) machine chain ledger) where
  inv := by
    intro machine ⟨chain, ledger, state⟩
    exact ⟨chain, ledger, state.inv⟩
  after := by
    intro machine ⟨chain, ledger, state⟩
    rw [max_eq_left state.reached]
    exact ⟨chain, ledger, state⟩
  rollback := by
    intro machine now accepted rbPoint stage ⟨chain, ledger, state⟩
    exact state.rollback
  failed := by
    intro machine mutable cache ⟨chain, ledger, state⟩ rises
    have failed := state.failed mutable cache rises
    rw [max_eq_left failed.reached]
    exact ⟨chain, ledger, failed⟩
  forward := by
    intro machine env point tip header txs cache final db ⟨chain, ledger, state⟩
    exact state.forward
  snapshot := by
    intro machine env timestamp blocks cache final db ⟨chain, ledger, state⟩ undone holds
      nonempty indexed applied increasing
    rcases state.snapshot undone holds nonempty indexed applied increasing with
      ⟨chain', ledger', pending⟩
    rw [max_eq_left pending.reached]
    exact ⟨chain', ledger', pending⟩

theorem persisted_empty : Persisted DB.empty.view [] := by
  intro raw _
  refine ⟨none, rfl, ?_⟩
  intro value
  simp

theorem restartable_bootstrap (names : Header → Point → Prop) (config : Config)
    (indexers : List Indexer) (stage : Stage) (small : config.maxRollbacks < 2 ^ 64)
    (fresh : Stage.new config (StorageHandler.openDb DB.empty) = .ok stage) :
    ∃ chain ledger, Restartable names config.genesisHash config.maxRollbacks 0
      (Machine.bootstrap indexers stage) chain ledger := by
  rcases (coherent_bootstrap names config indexers stage fresh).inv with ⟨chain, ledger, inv⟩
  rw [Stage.new_empty, Except.ok.injEq] at fresh
  subst fresh
  refine ⟨chain, ledger, inv, rfl, ?_, Nat.zero_le _, by decide, Nat.le_refl _, Nat.zero_le _, ?_, ?_, ?_,
    persisted_empty⟩
  · rw [Machine.bootstrap, Stage.empty, BitVec.toNat_ofNat, Nat.mod_eq_of_lt small]
  · intro block member
    cases member
  · intro block member
    cases member
  · intro key value _ found
    cases found

theorem Reached.restartable {names : Header → Point → Prop} {config : Config}
    {indexers : List Indexer} {peak : Nat} {machine : Machine}
    (reached : Reached names config indexers peak machine) (small : config.maxRollbacks < 2 ^ 64)
    (increasing : Increasing machine.stage.db.db.log) :
    ∃ chain ledger, Restartable names config.genesisHash config.maxRollbacks peak machine chain ledger := by
  induction reached with
  | start fresh => exact restartable_bootstrap names config indexers _ small fresh
  | call before env event valid ih =>
      rename_i peak machine
      have earlier : Increasing machine.stage.db.db.log :=
        VersionedLog.increasing_prefix (machine.execute_log env event) increasing
      exact (kept_restartable names config.genesisHash config.maxRollbacks peak).execute (ih earlier)
        valid increasing
  | restart before rebuilt ih =>
      have same := Stage.new_db rebuilt
      rw [Machine.bootstrap, same] at increasing
      rcases ih increasing with ⟨chain, ledger, state⟩
      rcases state.restart indexers rebuilt with ⟨ledger', state'⟩
      exact ⟨chain, ledger', state'⟩

/-- The stage can roll back to the target, by undoing these blocks. -/
def Stage.Undoes (stage : Stage) (target : Point) (blocks : List PointWithOriginalKVs) : Prop :=
  stage.rollbackBuffer.pointsSince target = .ok blocks ∧
    ∀ now, ∃ after, stage.rollbackToPoint now true target = .ok after

theorem Stage.undoes_of_position {stage : Stage} {target : Point} {index : Nat}
    (found : stage.rollbackBuffer.position target = some index) :
    stage.Undoes target (stage.rollbackBuffer.points.take index) := by
  refine ⟨?_, ?_⟩
  · rw [RollbackBuffer.pointsSince, found]
  · intro now
    exact Stage.rollbackToPoint_accepted now found

theorem position_take {buffer newer : RollbackBuffer} {target : Point} {index count : Nat}
    (found : buffer.position target = some index) (inside : index < count)
    (same : List.Forall₂ PointWithOriginalKVs.Same newer.points (buffer.points.take count)) :
    newer.position target = some index := by
  have points : newer.points.map PointWithOriginalKVs.point =
      (buffer.points.take count).map PointWithOriginalKVs.point := by
    rw [← List.forall₂_eq_eq_eq, List.forall₂_map_left_iff, List.forall₂_map_right_iff]
    exact same.imp (fun _ _ equal => equal.1)
  have mapped (blocks : List PointWithOriginalKVs) :
      blocks.findIdx? (fun entry => decide (entry.point = target)) =
        (blocks.map PointWithOriginalKVs.point).findIdx? (fun point => decide (point = target)) := by
    rw [List.findIdx?_map]
    rfl
  rw [RollbackBuffer.position] at found ⊢
  rw [mapped, points, ← mapped]
  rw [← List.take_append_drop count buffer.points, List.findIdx?_append] at found
  cases front : (buffer.points.take count).findIdx? (fun entry => decide (entry.point = target)) with
  | some first =>
      rw [front, Option.some_or] at found
      exact found
  | none =>
      rw [front, Option.none_or, Option.map_eq_some_iff] at found
      rcases found with ⟨below, lower, rfl⟩
      have short : (buffer.points.take count).length = count := by
        rw [List.length_take]
        rcases List.findIdx?_eq_some_iff_getElem.mp lower with ⟨bound, _⟩
        rw [List.length_drop] at bound
        omega
      omega

/-- After a restart the stage can go back to a point the running one could go back to, by
undoing the same keys to the same originals, if and only if no tip of the run was more than
`max_rollback` above that point. -/
theorem restart_keeps_undo (blockHash : Header → BlockHash) (config : Config)
    (indexers : List Indexer) (peak : Nat) (machine : Machine)
    (small : config.maxRollbacks < 2 ^ 64)
    (reached : Reached (HashedBy blockHash) config indexers peak machine)
    (increasing : Increasing machine.stage.db.db.log) :
    ∃ rebuilt, Stage.new config (StorageHandler.openDb machine.stage.db.db) = .ok rebuilt ∧
      ∀ target blocks, machine.stage.Undoes target blocks →
        ((∃ blocks', rebuilt.Undoes target blocks' ∧
            List.Forall₂ PointWithOriginalKVs.Same blocks' blocks) ↔
          peak ≤ target.height.toNat + config.maxRollbacks) := by
  rcases reached.restartable small increasing with ⟨chain, ledger, state⟩
  rcases state.new with ⟨rebuilt, new, same, _, _, _, _, _⟩
  refine ⟨rebuilt, new, ?_⟩
  intro target blocks undoes
  rcases RollbackBuffer.pointsSince_ok undoes.1 with ⟨index, found, rfl⟩
  rcases RollbackBuffer.position_some found with ⟨block, listed, here, first⟩
  constructor
  · rintro ⟨blocks', undoes', _⟩
    rcases RollbackBuffer.pointsSince_ok undoes'.1 with ⟨index', found', rfl⟩
    rcases RollbackBuffer.position_some found' with ⟨block', listed', here', _⟩
    rcases PointWithOriginalKVs.forall₂_same_exists same (List.mem_of_getElem? listed') with
      ⟨other, inside, equal⟩
    have kept := (List.mem_filter.mp inside).2
    rw [PointWithOriginalKVs.retained, decide_eq_true_eq, ← equal.1, here'] at kept
    exact kept
  · intro close
    rcases state.newest with ⟨count, newest⟩
    have taken : block ∈ machine.stage.rollbackBuffer.points.take count := by
      rw [← newest, List.mem_filter, PointWithOriginalKVs.retained, decide_eq_true_eq, here]
      exact ⟨List.mem_of_getElem? listed, close⟩
    have inside : index < count := by
      rcases List.getElem?_of_mem taken with ⟨place, there⟩
      rw [List.getElem?_take] at there
      split at there
      · rename_i below
        by_contra beyond
        exact first place block (by omega) there here
      · cases there
    rw [newest] at same
    refine ⟨_, Stage.undoes_of_position (position_take found inside same), ?_⟩
    have paired := List.forall₂_take index same
    rw [List.take_take, Nat.min_eq_left inside.le] at paired
    exact paired

def loweredConfig : Config := ⟨.regtest, hashOf 0, some 1, none, false⟩

def loweredEvents : List (Env × ChainEvent) :=
  let tip : Point := ⟨1, hashOf 1⟩
  [(acceptAt 5, .rollForward ⟨1, hashOf 1⟩ ⟨hashOf 0, [1]⟩ [] tip),
    (acceptAt 7, .rollForward ⟨2, hashOf 2⟩ ⟨hashOf 1, [2]⟩ [] tip),
    (acceptAt 9, .rollForward ⟨3, hashOf 3⟩ ⟨hashOf 2, [3]⟩ [] tip),
    (acceptAt 11, .rollBack ⟨2, hashOf 2⟩)]

def lowered (count : Nat) : Machine :=
  (Machine.bootstrap [] (Stage.empty loweredConfig)).run (loweredEvents.take count)

theorem lowered_reached_three :
    ∃ peak ≤ 3, Reached (HashedBy byteHash) loweredConfig [] peak (lowered 3) := by
  have tips : (lowered 1).stage.lastProcessed.height.toNat ≤ 3 ∧
      (lowered 2).stage.lastProcessed.height.toNat ≤ 3 ∧
      (lowered 3).stage.lastProcessed.height.toNat ≤ 3 := by decide +kernel
  have start : Reached (HashedBy byteHash) loweredConfig [] 0 (lowered 0) :=
    .start (Stage.new_empty loweredConfig)
  have one := start.call (acceptAt 5) (.rollForward ⟨1, hashOf 1⟩ ⟨hashOf 0, [1]⟩ [] ⟨1, hashOf 1⟩)
    (by decide)
  have two := one.call (acceptAt 7) (.rollForward ⟨2, hashOf 2⟩ ⟨hashOf 1, [2]⟩ [] ⟨1, hashOf 1⟩)
    (by decide)
  have three := two.call (acceptAt 9) (.rollForward ⟨3, hashOf 3⟩ ⟨hashOf 2, [3]⟩ [] ⟨1, hashOf 1⟩)
    (by decide)
  refine ⟨_, ?_, three⟩
  exact max_le (max_le (max_le (Nat.zero_le _) tips.1) tips.2.1) tips.2.2

theorem lowered_reached :
    ∃ peak, Reached (HashedBy byteHash) loweredConfig [] peak (lowered 4) := by
  rcases lowered_reached_three with ⟨peak, _, three⟩
  exact ⟨_, three.call (acceptAt 11) (.rollBack ⟨2, hashOf 2⟩) (by decide)⟩

/-- Before the rollback a restart keeps what block three has changed. -/
theorem restart_keeps_undo_third :
    ∃ peak rebuilt blocks blocks', Reached (HashedBy byteHash) loweredConfig [] peak (lowered 3) ∧
      Stage.new loweredConfig (StorageHandler.openDb (lowered 3).stage.db.db) = .ok rebuilt ∧
      (lowered 3).stage.Undoes ⟨2, hashOf 2⟩ blocks ∧
      blocks.map PointWithOriginalKVs.point = [⟨3, hashOf 3⟩] ∧
      rebuilt.Undoes ⟨2, hashOf 2⟩ blocks' ∧ List.Forall₂ PointWithOriginalKVs.Same blocks' blocks := by
  rcases lowered_reached_three with ⟨peak, low, reached⟩
  rcases restart_keeps_undo byteHash loweredConfig [] peak (lowered 3) (by decide) reached
    (by decide +kernel) with ⟨rebuilt, new, exact⟩
  have undoes := @Stage.undoes_of_position (lowered 3).stage ⟨2, hashOf 2⟩ 1 (by decide +kernel)
  rcases (exact ⟨2, hashOf 2⟩ _ undoes).mpr low with ⟨blocks', undoes', same⟩
  exact ⟨peak, rebuilt, _, blocks', reached, new, undoes, by decide +kernel, undoes', same⟩

/-- With `max_rollback` one, block one is still in the buffer after the rollback, but no longer
in the table. -/
theorem restart_loses_undo :
    (∃ peak, Reached (HashedBy byteHash) loweredConfig [] peak (lowered 4)) ∧
      Increasing (lowered 4).stage.db.db.log ∧
      (lowered 4).stage.lastProcessed.height.toNat = 1 + loweredConfig.maxRollbacks ∧
      (∃ blocks, (lowered 4).stage.Undoes ⟨1, hashOf 1⟩ blocks) ∧
      ∀ rebuilt, Stage.new loweredConfig (StorageHandler.openDb (lowered 4).stage.db.db) = .ok rebuilt →
        ¬ ∃ blocks, rebuilt.Undoes ⟨1, hashOf 1⟩ blocks := by
  refine ⟨lowered_reached, by decide +kernel, by decide +kernel,
    ⟨_, @Stage.undoes_of_position (lowered 4).stage ⟨1, hashOf 1⟩ 1 (by decide +kernel)⟩, ?_⟩
  rintro rebuilt new ⟨blocks, undoes⟩
  rcases RollbackBuffer.pointsSince_ok undoes.1 with ⟨index, found, _⟩
  have absent : (Stage.new loweredConfig (StorageHandler.openDb (lowered 4).stage.db.db)).map
      (fun stage => stage.rollbackBuffer.position ⟨1, hashOf 1⟩) = .ok none := by decide +kernel
  rw [new, Except.map, Except.ok.injEq, found] at absent
  cases absent

end Symphony
