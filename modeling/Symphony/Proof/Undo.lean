import Mathlib.Data.List.Infix
import Symphony.Lib.UndoLog
import Symphony.Sync.StageSpec

/-! Rolling back undoes blocks exactly.

The ledger lists the committed blocks with the latest view right after each; the in-memory
buffer holds its newest part. Undoing a block is an undo step in the sense of `UndoLog`. -/

namespace Symphony

open Encdec
open UndoLog (Agree Consistent restore restoreAll)
open VersionedLog (replay Increasing)

def PointWithOriginalKVs.saved (block : PointWithOriginalKVs) : UndoLog.Saved RawKey Cell :=
  fun key => (block.originalKvs.lookup key).map (fun previous => .ok previous.toOption)

theorem act_undoOp (target key : RawKey) (original : PreviousValue) (cell : Cell) :
    (undoOp target original).act key cell = if target = key then .ok original.toOption else cell := by
  cases original <;> rfl

theorem act_delete_rollbackKey (point : Point) (target key : RawKey) (cell : Cell)
    (outside : ¬ RollbackBufferKV.Holds key) :
    (WriteOp.delete (rollbackKey point target)).act key cell = cell := by
  have other : rollbackKey point target ≠ key := by
    intro equal
    exact outside (equal ▸ Table.holds_encodeKey _ _)
  simp only [WriteOp.act, if_neg other]

theorem replay_undoOps (block : PointWithOriginalKVs) (key : RawKey) (cell : Cell)
    (outside : ¬ RollbackBufferKV.Holds key) :
    replay WriteOp.act key cell block.undoOps = (block.saved key).getD cell := by
  rw [PointWithOriginalKVs.undoOps]
  rw [VersionedLog.replay_keyed WriteOp.act key cell block.originalKvs.entries
    (fun target original => [undoOp target original, .delete (rollbackKey block.point target)])
    (fun original _ => .ok original.toOption) ?_ block.originalKvs.nodupKeys]
  · rw [PointWithOriginalKVs.saved, AList.lookup]
    cases block.originalKvs.entries.dlookup key <;> rfl
  · intro target original current
    rw [VersionedLog.replay_cons, VersionedLog.replay_cons, act_undoOp,
      act_delete_rollbackKey _ _ _ _ outside]
    rfl

theorem replay_undo (blocks : List PointWithOriginalKVs) (state : RawKey → Cell) (key : RawKey)
    (outside : ¬ RollbackBufferKV.Holds key) :
    replay WriteOp.act key (state key) (blocks.flatMap PointWithOriginalKVs.undoOps) =
      restoreAll (blocks.map PointWithOriginalKVs.saved) state key := by
  induction blocks generalizing state with
  | nil => rfl
  | cons block blocks ih =>
      rw [List.flatMap_cons, VersionedLog.replay_append, replay_undoOps _ _ _ outside]
      exact ih (restore block.saved state)

/-- No persisted entry of an undone block is left, unless an undone block wrote that very key
as data and has it restored. -/
theorem replay_undo_rollbackKey (blocks : List PointWithOriginalKVs) (block : PointWithOriginalKVs)
    (key : RawKey) (cell : Cell) (member : block ∈ blocks) (saved : key ∈ block.originalKvs)
    (untouched : ∀ other ∈ blocks, rollbackKey block.point key ∉ other.originalKvs) :
    replay WriteOp.act (rollbackKey block.point key) cell
      (blocks.flatMap PointWithOriginalKVs.undoOps) = .ok none := by
  apply VersionedLog.replay_settled
  · intro op inside current
    obtain ⟨other, present, inner⟩ := List.mem_flatMap.mp inside
    obtain ⟨entry, listed, either⟩ := List.mem_flatMap.mp inner
    rcases List.mem_pair.mp either with rfl | rfl
    · refine Or.inl ?_
      have different : entry.1 ≠ rollbackKey block.point key := by
        intro same
        exact untouched other present (same ▸ AList.mem_keys.mpr (List.mem_keys_of_mem listed))
      rw [act_undoOp, if_neg different]
    · simp only [WriteOp.act]
      split
      · exact Or.inr rfl
      · exact Or.inl rfl
  · obtain ⟨entry, listed, rfl⟩ := List.mem_map.mp (AList.mem_keys.mp saved)
    refine ⟨.delete (rollbackKey block.point entry.1), ?_, ?_⟩
    · exact List.mem_flatMap.mpr ⟨block, member, List.mem_flatMap.mpr ⟨entry, listed, by simp⟩⟩
    · intro current
      simp only [WriteOp.act, if_pos]

/-- A committed block with the latest view right after its commit and the keys of the
rollback entries the commit wrote. -/
structure LedgerEntry where
  block : PointWithOriginalKVs
  view : RawKey → Cell
  filed : List RawKey

def LedgerEntry.toUndo (entry : LedgerEntry) : UndoLog.Entry RawKey Cell :=
  ⟨entry.block.saved, entry.view⟩

/-- The buffer holds the newest blocks of a ledger that undoes back through its views. -/
structure Journal (handler : StorageHandler) (buffer : RollbackBuffer)
    (ledger : List LedgerEntry) : Prop where
  held : buffer.points <+: ledger.map LedgerEntry.block
  consistent : Consistent IsData (ledger.map LedgerEntry.toUndo)
  top : ∀ newest, ledger.head? = some newest → Agree IsData handler.db.view newest.view
  current : handler.Current

theorem Journal.nil {handler : StorageHandler} {buffer : RollbackBuffer}
    (empty : buffer.points = []) (current : handler.Current) : Journal handler buffer [] := by
  refine ⟨?_, List.IsChain.nil, ?_, current⟩
  · rw [empty]
    exact List.nil_prefix
  · intro newest found
    cases found

theorem Journal.lookup {handler : StorageHandler} {buffer : RollbackBuffer}
    {ledger : List LedgerEntry} (journal : Journal handler buffer ledger) {index : Nat}
    {block : PointWithOriginalKVs} (found : buffer.points[index]? = some block) :
    ∃ entry, ledger[index]? = some entry ∧ entry.block = block := by
  obtain ⟨rest, split⟩ := journal.held
  have inside : index < buffer.points.length := (List.getElem?_eq_some_iff.mp found).1
  have listed : (ledger.map LedgerEntry.block)[index]? = some block := by
    rw [← split, List.getElem?_append_left inside]
    exact found
  rw [List.getElem?_map, Option.map_eq_some_iff] at listed
  exact listed

theorem Journal.take {handler : StorageHandler} {buffer : RollbackBuffer}
    {ledger : List LedgerEntry} (journal : Journal handler buffer ledger) {index : Nat}
    (inside : index ≤ buffer.points.length) :
    buffer.points.take index = (ledger.take index).map LedgerEntry.block := by
  obtain ⟨rest, split⟩ := journal.held
  rw [List.map_take, ← split, List.take_append_of_le_length inside]

theorem Journal.trim {handler : StorageHandler} {buffer : RollbackBuffer}
    {ledger : List LedgerEntry} (journal : Journal handler buffer ledger) :
    Journal handler buffer (ledger.take buffer.points.length) ∧
      buffer.points = (ledger.take buffer.points.length).map LedgerEntry.block := by
  have same : buffer.points = (ledger.take buffer.points.length).map LedgerEntry.block := by
    rw [List.map_take]
    exact List.prefix_iff_eq_take.mp journal.held
  refine ⟨⟨?_, ?_, ?_, journal.current⟩, same⟩
  · rw [← same]
  · rw [List.map_take]
    exact UndoLog.consistent_take _ _ _ journal.consistent
  · intro newest head
    rw [List.head?_take] at head
    split at head
    · cases head
    · exact journal.top newest head

section Task

variable {handler after : StorageHandler} {buffer : RollbackBuffer} {ledger : List LedgerEntry}
variable {task : IndexingTask} {kvs : HashMap RawKey PreviousValue} {batch : List WriteOp}
variable {ts : Timestamp}

theorem restore_committed (tracks : task.Tracks kvs) (db : task.db = handler.db)
    (readTs : task.readTs = handler.readTs) (current : handler.Current)
    (committed : StorageHandler.Committed handler after ts batch)
    (effect : ∀ key cell, IsData key → replay WriteOp.act key cell batch =
      (task.writeBuffer.lookup key).elim cell (fun action => action.apply cell))
    (increasing : Increasing after.db.log) (point : Point) :
    Agree IsData (restore (PointWithOriginalKVs.saved ⟨point, kvs⟩) after.db.view)
      handler.db.view := by
  apply UndoLog.restore_changed
  · intro key cell _ saved
    obtain ⟨previous, found, rfl⟩ := Option.map_eq_some_iff.mp saved
    rw [← tracks.saved key previous found, db, readTs, handler.get_readTs key current]
  · intro key data unsaved
    have untouched : task.writeBuffer.lookup key = none := by
      rw [AList.lookup_eq_none]
      intro buffered
      have present : (kvs.lookup key).isSome := AList.lookup_isSome.mpr (tracks.covers key buffered)
      rw [Option.map_eq_none_iff.mp unsaved] at present
      cases present
    rw [committed.view increasing key, effect key _ data, untouched]
    rfl

theorem Journal.addBlock (journal : Journal handler buffer ledger) (tracks : task.Tracks kvs)
    (db : task.db = handler.db) (readTs : task.readTs = handler.readTs)
    (committed : StorageHandler.Committed handler after ts batch)
    (effect : ∀ key cell, IsData key → replay WriteOp.act key cell batch =
      (task.writeBuffer.lookup key).elim cell (fun action => action.apply cell))
    (increasing : Increasing after.db.log) (point : Point) (filed : List RawKey) :
    Journal after (buffer.addBlock point kvs) (⟨⟨point, kvs⟩, after.db.view, filed⟩ :: ledger) := by
  have undone := restore_committed tracks db readTs journal.current committed effect increasing point
  refine ⟨?_, ?_, ?_, committed.current increasing⟩
  · rw [RollbackBuffer.addBlock, List.map_cons]
    exact (List.take_prefix _ _).trans (List.cons_prefix_cons.mpr ⟨rfl, journal.held⟩)
  · apply UndoLog.consistent_cons _ _ _ journal.consistent
    intro newest head
    rw [List.head?_map, Option.map_eq_some_iff] at head
    obtain ⟨entry, first, rfl⟩ := head
    intro key data
    exact (undone key data).trans (journal.top entry first key data)
  · intro newest head
    rw [← Option.some.inj head]
    intro key _
    rfl

end Task

theorem Journal.commitTask {handler after : StorageHandler} {buffer : RollbackBuffer}
    {ledger : List LedgerEntry} {begun task : IndexingTask} {kvs : HashMap RawKey PreviousValue}
    {allowed : RawKey → Prop} {now : U64} {accepted : Bool} {point : Point} {maxRollback : U64}
    {mempoolTimestamp : Option U64} (journal : Journal handler buffer ledger)
    (tracks : begun.Tracks ∅) (db : begun.db = handler.db) (readTs : begun.readTs = handler.readTs)
    (written : IndexingTask.Written allowed begun task)
    (originals : task.finalize.originalKvs = some kvs)
    (applied : handler.applyIndexingTask now accepted task.finalize point maxRollback
      mempoolTimestamp = .ok after)
    (increasing : Increasing after.db.log) (pushed : Point) (filed : List RawKey) :
    Journal after (buffer.addBlock pushed kvs)
      (⟨⟨pushed, kvs⟩, after.db.view, filed⟩ :: ledger) := by
  obtain ⟨tracked, tracks⟩ := written.tracks tracks
  obtain rfl : tracked = kvs := Option.some.inj (tracks.originals.symm.trans originals)
  apply journal.addBlock tracks (written.sameSource.db.trans db)
    (written.sameSource.readTs.trans readTs) (StorageHandler.applyIndexingTask_committed applied) _
    increasing
  intro key cell data
  exact FinalizedTask.replay_batch _ _ _ _ _ key cell data

/-- Writing back the blocks above a position leads to the view recorded there. -/
theorem Journal.undo {handler after : StorageHandler} {buffer : RollbackBuffer}
    {ledger : List LedgerEntry} {ts : Timestamp} {index : Nat} {entry : LedgerEntry}
    (journal : Journal handler buffer ledger) (inside : index ≤ buffer.points.length)
    (found : ledger[index]? = some entry)
    (committed : StorageHandler.Committed handler after ts
      ((buffer.points.take index).flatMap PointWithOriginalKVs.undoOps))
    (increasing : Increasing after.db.log) :
    Agree IsData after.db.view entry.view := by
  intro key data
  rw [committed.view increasing key, replay_undo _ handler.db.view key data.2, journal.take inside,
    List.map_map]
  have restored := UndoLog.restoreAll_take IsData (ledger.map LedgerEntry.toUndo) index
    handler.db.view entry.toUndo journal.consistent (by
      intro newest head
      rw [List.head?_map, Option.map_eq_some_iff] at head
      obtain ⟨first, head, rfl⟩ := head
      exact journal.top first head) (by rw [List.getElem?_map, found]; rfl)
  rw [← List.map_take, List.map_map] at restored
  exact restored key data

theorem Journal.rollback {handler after : StorageHandler} {buffer : RollbackBuffer}
    {ledger : List LedgerEntry} {ts : Timestamp} {index : Nat} {entry : LedgerEntry}
    (journal : Journal handler buffer ledger) (inside : index ≤ buffer.points.length)
    (found : ledger[index]? = some entry)
    (committed : StorageHandler.Committed handler after ts
      ((buffer.points.take index).flatMap PointWithOriginalKVs.undoOps))
    (increasing : Increasing after.db.log) :
    Journal after { buffer with points := buffer.points.drop index } (ledger.drop index) := by
  have restored := journal.undo inside found committed increasing
  refine ⟨?_, ?_, ?_, committed.current increasing⟩
  · rw [List.map_drop]
    exact List.IsPrefix.drop journal.held index
  · rw [List.map_drop]
    exact UndoLog.consistent_drop _ _ index journal.consistent
  · intro newest head
    rw [List.head?_drop, found] at head
    rw [← Option.some.inj head]
    exact restored

def WriteOp.putKey (op : WriteOp) : Option RawKey :=
  match op with
  | .put key _ => some key
  | _ => none

def FinalizedTask.filed (task : FinalizedTask) (point : Point) (maxRollback : U64) : List RawKey :=
  (task.rollbackOps point maxRollback).filterMap WriteOp.putKey

theorem FinalizedTask.mem_filed {task : FinalizedTask} {point : Point} {maxRollback : U64}
    {kvs : HashMap RawKey PreviousValue} {rollback : RawKey}
    (originals : task.originalKvs = some kvs) (member : rollback ∈ task.filed point maxRollback) :
    ∃ key ∈ kvs, rollback = rollbackKey ⟨task.rollbackHeight point, point.hash⟩ key := by
  obtain ⟨op, inside, put⟩ := List.mem_filterMap.mp member
  simp only [rollbackOps, originals, List.mem_append, List.mem_map] at inside
  rcases inside with ⟨entry, listed, rfl⟩ | removal
  · refine ⟨entry.1, AList.mem_keys.mpr (List.mem_keys_of_mem listed), ?_⟩
    exact (Option.some.inj put).symm
  · split at removal
    · cases removal
    · rw [List.mem_singleton.mp removal] at put
      cases put

/-- A write through an indexing task, on any key of any table. -/
inductive WriteCall where
  | set (key : RawKey) (value : RawValue)
  | delete (key : RawKey)
  | increment (key : RawKey) (amount : U128)
  | decrement (key : RawKey) (amount : U128)

namespace IndexingTask

def perform (task : IndexingTask) (call : WriteCall) : Except Error IndexingTask :=
  match call with
  | .set key value => task.setRaw key value
  | .delete key => task.deleteRaw key
  | .increment key amount => task.mergeOpRaw key (.increment amount)
  | .decrement key amount => task.mergeOpRaw key (.decrement amount)

def performAll (task : IndexingTask) (calls : List WriteCall) : Except Error IndexingTask :=
  calls.foldlM perform task

theorem perform_touches {task after : IndexingTask} {call : WriteCall}
    (success : task.perform call = .ok after) : ∃ key, task.Touches key after := by
  cases call with
  | set key value => exact ⟨key, setRaw_touches success⟩
  | delete key => exact ⟨key, deleteRaw_touches success⟩
  | increment key amount => exact ⟨key, mergeOpRaw_touches success⟩
  | decrement key amount => exact ⟨key, mergeOpRaw_touches success⟩

theorem performAll_written {task after : IndexingTask} {calls : List WriteCall}
    (success : task.performAll calls = .ok after) : Written (fun _ => True) task after := by
  induction calls generalizing task with
  | nil =>
      cases success
      exact Relation.ReflTransGen.refl
  | cons call calls ih =>
      simp only [performAll, List.foldlM_cons, bind, Except.bind] at success
      split at success
      · cases success
      · rename_i middle step
        obtain ⟨key, touches⟩ := perform_touches step
        exact Relation.ReflTransGen.head ⟨key, trivial, touches⟩ (ih success)

end IndexingTask

inductive Indexed (start : Stage) : List LedgerEntry → Stage → Prop where
  | start : Indexed start [] start
  | block {ledger : List LedgerEntry} {stage : Stage} (before : Indexed start ledger stage)
      (calls : List WriteCall) (task : IndexingTask) (kvs : HashMap RawKey PreviousValue)
      (now : U64) (accepted : Bool) (point : Point) (db : StorageHandler)
      (written : (stage.db.beginIndexingTask true).performAll calls = .ok task)
      (originals : task.finalize.originalKvs = some kvs)
      (applied : stage.db.applyIndexingTask now accepted task.finalize point stage.maxRollbacks none =
        .ok db) :
      Indexed start (⟨⟨point, kvs⟩, db.db.view, task.finalize.filed point stage.maxRollbacks⟩ ::
        ledger) { stage with
        db
        lastProcessed := point
        rollbackBuffer := stage.rollbackBuffer.addBlock point kvs }

/-- The blocks, optionally with a mempool task on top. -/
inductive IndexedWithMempool (start : Stage) : List LedgerEntry → Stage → Prop where
  | confirmed {ledger : List LedgerEntry} {stage : Stage} (blocks : Indexed start ledger stage) :
      IndexedWithMempool start ledger stage
  | mempool {ledger : List LedgerEntry} {stage : Stage} (blocks : Indexed start ledger stage)
      (calls : List WriteCall) (task : IndexingTask) (kvs : HashMap RawKey PreviousValue)
      (now : U64) (accepted : Bool) (height : BlockHeight) (timestamp : U64) (db : StorageHandler)
      (written : stage.db.beginMempoolIndexingTask.performAll calls = .ok task)
      (originals : task.finalize.originalKvs = some kvs)
      (applied : stage.db.applyIndexingTask now accepted task.finalize
        ⟨height, stage.lastProcessed.hash⟩ stage.maxRollbacks (some timestamp) = .ok db) :
      IndexedWithMempool start
        (⟨⟨Machine.mempoolPoint stage.lastProcessed, kvs⟩, db.db.view,
          task.finalize.filed ⟨height, stage.lastProcessed.hash⟩ stage.maxRollbacks⟩ :: ledger)
        { stage with
          db
          processedMempool := true
          rollbackBuffer :=
            stage.rollbackBuffer.addBlock (Machine.mempoolPoint stage.lastProcessed) kvs }

/-- The rollback entries of a block are those its undo removes. -/
def LedgerEntry.Filed (entry : LedgerEntry) : Prop :=
  ∀ rollback ∈ entry.filed, ∃ key ∈ entry.block.originalKvs,
    rollback = rollbackKey entry.block.point key

theorem filed_finalize {begun task : IndexingTask} {kvs : HashMap RawKey PreviousValue}
    {allowed : RawKey → Prop} {point pushed : Point} {maxRollback : U64} {view : RawKey → Cell}
    (written : IndexingTask.Written allowed begun task)
    (originals : task.finalize.originalKvs = some kvs)
    (height : pushed.height = if begun.mempool then u64Max else point.height)
    (hash : pushed.hash = point.hash) :
    LedgerEntry.Filed ⟨⟨pushed, kvs⟩, view, task.finalize.filed point maxRollback⟩ := by
  intro rollback listed
  obtain ⟨key, saved, rfl⟩ := FinalizedTask.mem_filed originals listed
  refine ⟨key, saved, ?_⟩
  rw [rollbackKey, rollbackKey, height, hash, FinalizedTask.rollbackHeight, IndexingTask.finalize,
    written.sameSource.mempool]

theorem Indexed.journal {start stage : Stage} {ledger : List LedgerEntry}
    (indexed : Indexed start ledger stage) (empty : start.rollbackBuffer.points = [])
    (current : start.db.Current) (increasing : Increasing stage.db.db.log) :
    Journal stage.db stage.rollbackBuffer ledger ∧ ∀ entry ∈ ledger, entry.Filed := by
  induction indexed with
  | start => exact ⟨Journal.nil empty current, by simp⟩
  | @block ledger stage before calls task kvs now accepted point db written originals applied ih =>
      have committed := StorageHandler.applyIndexingTask_committed applied
      have older : Increasing stage.db.db.log := by
        apply VersionedLog.increasing_left
        rw [← committed.log]
        exact increasing
      have writes := IndexingTask.performAll_written written
      obtain ⟨journal, filed⟩ := ih older
      constructor
      · exact journal.commitTask stage.db.tracks_beginIndexingTask rfl rfl writes originals applied
          increasing _ _
      · intro entry member
        rcases List.mem_cons.mp member with rfl | old
        · exact filed_finalize writes originals rfl rfl
        · exact filed entry old

theorem IndexedWithMempool.journal {start stage : Stage} {ledger : List LedgerEntry}
    (indexed : IndexedWithMempool start ledger stage) (empty : start.rollbackBuffer.points = [])
    (current : start.db.Current) (increasing : Increasing stage.db.db.log) :
    Journal stage.db stage.rollbackBuffer ledger ∧ ∀ entry ∈ ledger, entry.Filed := by
  cases indexed with
  | confirmed blocks => exact blocks.journal empty current increasing
  | @mempool ledger stage blocks calls task kvs now accepted height timestamp db written originals
      applied =>
      have committed := StorageHandler.applyIndexingTask_committed applied
      have older : Increasing stage.db.db.log := by
        apply VersionedLog.increasing_left
        rw [← committed.log]
        exact increasing
      have writes := IndexingTask.performAll_written written
      obtain ⟨journal, filed⟩ := blocks.journal empty current older
      constructor
      · exact journal.commitTask stage.db.tracks_beginMempoolIndexingTask rfl rfl writes originals
          applied increasing _ _
      · intro entry member
        rcases List.mem_cons.mp member with rfl | old
        · exact filed_finalize writes originals rfl rfl
        · exact filed entry old

theorem Journal.findIdx {handler : StorageHandler} {buffer : RollbackBuffer}
    {ledger : List LedgerEntry} {point : Point} {index : Nat}
    (journal : Journal handler buffer ledger) (found : buffer.position point = some index) :
    ledger.findIdx? (fun entry => entry.block.point = point) = some index := by
  obtain ⟨rest, split⟩ := journal.held
  have mapped : (ledger.map LedgerEntry.block).findIdx? (fun block => block.point = point) =
      some index := by
    rw [RollbackBuffer.position] at found
    rw [← split, List.findIdx?_append, found]
    rfl
  rw [List.findIdx?_map] at mapped
  exact mapped

/-- Rolling back to a point of the buffer restores every data key to the view right after the
block there, and removes the rollback entries of the blocks it undoes. -/
theorem rollback_exact (start stage : Stage) (ledger : List LedgerEntry) (point : Point)
    (now : U64) (indexed : IndexedWithMempool start ledger stage)
    (empty : start.rollbackBuffer.points = []) (current : start.db.Current)
    (held : ∃ block ∈ stage.rollbackBuffer.points, block.point = point) :
    ∃ after, stage.rollbackToPoint now true point = .ok after ∧
      (Increasing after.db.db.log → ∃ index entry,
        ledger.findIdx? (fun entry => entry.block.point = point) = some index ∧
        ledger[index]? = some entry ∧
        (∀ key, IsData key → after.db.db.view key = entry.view key) ∧
        ∀ undone ∈ ledger.take index, ∀ rollback ∈ undone.filed,
          (∀ other ∈ ledger.take index, rollback ∉ other.block.originalKvs) →
            after.db.db.view rollback = .ok none) := by
  obtain ⟨index, found⟩ : ∃ index, stage.rollbackBuffer.position point = some index := by
    apply Option.isSome_iff_exists.mp
    rw [RollbackBuffer.position, List.findIdx?_isSome, List.any_eq_true]
    obtain ⟨block, member, same⟩ := held
    exact ⟨block, member, by simpa using same⟩
  obtain ⟨after, success⟩ := Stage.rollbackToPoint_accepted now found
  refine ⟨after, success, ?_⟩
  intro increasing
  obtain ⟨_, db, position, wrote, rfl⟩ := Stage.rollbackToPoint_ok success
  obtain rfl := Option.some.inj (found.symm.trans position)
  have committed := StorageHandler.commit_committed wrote
  have older : Increasing stage.db.db.log := by
    apply VersionedLog.increasing_left
    rw [← committed.log]
    exact increasing
  obtain ⟨journal, filed⟩ := indexed.journal empty current older
  obtain ⟨block, lookup, _, _⟩ := RollbackBuffer.position_some found
  obtain ⟨entry, listed, _⟩ := journal.lookup lookup
  have inside : index ≤ stage.rollbackBuffer.points.length :=
    le_of_lt (List.getElem?_eq_some_iff.mp lookup).1
  refine ⟨index, entry, journal.findIdx found, listed,
    journal.undo inside listed committed increasing, ?_⟩
  intro undone member rollback listed untouched
  obtain ⟨key, saved, rfl⟩ := filed undone (List.mem_of_mem_take member) rollback listed
  rw [committed.view increasing, journal.take inside]
  apply replay_undo_rollbackKey _ _ _ _ (List.mem_map_of_mem member) saved
  intro other present
  obtain ⟨source, taken, rfl⟩ := List.mem_map.mp present
  exact untouched source taken

def zeroHash : Bytes32 := List.Vector.replicate 32 0

def freshStage (maxRollback : Nat) : Stage where
  db := StorageHandler.openDb DB.empty
  network := .regtest
  rollbackBuffer := RollbackBuffer.new maxRollback false
  maxRollbacks := BitVec.ofNat 64 maxRollback
  lastProcessed := ⟨0, zeroHash⟩
  processedMempool := false
  utxoCache := none

theorem fresh_current (maxRollback : Nat) : (freshStage maxRollback).db.Current := by
  intro previous found
  cases found

theorem rollback_exact_overwritten_key :
    ∃ stage ledger after, IndexedWithMempool (freshStage 1) ledger stage ∧
      stage.rollbackToPoint 7 true ⟨1, zeroHash⟩ = .ok after ∧
      stage.db.db.view [1] = .ok (some [8]) ∧ after.db.db.view [1] = .ok (some [7]) := by
  have blocks : ∃ stage ledger, IndexedWithMempool (freshStage 1) ledger stage ∧
      (∃ block ∈ stage.rollbackBuffer.points, block.point = ⟨1, zeroHash⟩) ∧
      stage.db.db.view [1] = .ok (some [8]) ∧
      (∀ after, stage.rollbackToPoint 7 true ⟨1, zeroHash⟩ = .ok after →
        Increasing after.db.db.log) ∧
      ledger[1]?.map (fun entry => entry.view [1]) = some (.ok (some [7])) ∧
      ledger.findIdx? (fun entry => entry.block.point = ⟨1, zeroHash⟩) = some 1 := by
    refine ⟨_, _, .confirmed (.block
      (.block .start [.set [1] [7]] _ _ 5 true ⟨1, zeroHash⟩ _ rfl rfl rfl)
      [.set [1] [8]] _ _ 6 true ⟨2, zeroHash⟩ _ rfl rfl rfl),
      ⟨_, List.mem_cons_of_mem _ List.mem_cons_self, rfl⟩, by decide, ?_, rfl, by decide⟩
    intro after success
    cases success
    decide
  obtain ⟨stage, ledger, indexed, held, before, increasing, restored, position⟩ := blocks
  obtain ⟨after, success, exact⟩ := rollback_exact (freshStage 1) stage ledger ⟨1, zeroHash⟩ 7
    indexed rfl (fresh_current 1) held
  obtain ⟨index, entry, found, listed, views, _⟩ := exact (increasing after success)
  obtain rfl := Option.some.inj (position.symm.trans found)
  refine ⟨stage, ledger, after, indexed, success, before, ?_⟩
  rw [views [1] (by decide)]
  rw [listed] at restored
  exact Option.some.inj restored

end Symphony
