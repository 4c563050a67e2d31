import Mathlib.Logic.Relation
import Symphony.Storage.KvStore

/-! What tasks and commits do: the effect of a committed batch on the latest view, and
what an indexing task records while keys are written through it. -/

namespace Symphony

open Encdec
open VersionedLog (Commit readAt replay Increasing)

def StorageAction.apply (action : StorageAction) (cell : Cell) : Cell :=
  match action with
  | .set value => .ok (some value)
  | .delete => .ok none
  | .merge op => resolveMerge (encode op) cell

def StorageAction.Short : StorageAction → Prop
  | .set value => value.length < 2 ^ 63
  | .delete => True
  | .merge _ => True

theorem length_encode_u128 (value : U128) : (encode value : RawValue).length < 2 ^ 63 := by
  have short := VarUInt.length_data_le value.toNat
  have length : (encode value : RawValue).length =
      (BigEndian.trim (BigEndian.toBytes 16 value.toNat)).length + 1 := rfl
  omega

theorem StorageAction.act_toWriteOp (action : StorageAction) (target key : RawKey) (cell : Cell) :
    (action.toWriteOp target).act key cell = if target = key then action.apply cell else cell := by
  cases action <;> rfl

theorem Timestamp.asRocksTs_le_latest (ts : RocksTs) : ts ≤ Timestamp.latest.asRocksTs := by
  have bound := ts.isLt
  rw [Fin.le_def, Timestamp.asRocksTs, Timestamp.asU64_latest]
  simp only [BitVec.toFin_allOnes, Fin.ofNat_eq_cast]
  simpa using Nat.le_sub_one_of_lt bound

namespace DB

theorem view_write (db : DB) (ts : Timestamp) (batch : List WriteOp) (key : RawKey)
    (increasing : Increasing (db.write ts batch).log) :
    (db.write ts batch).view key = replay WriteOp.act key (db.view key) batch :=
  VersionedLog.readAt_append_seen _ _ _ _ _ _ increasing (Timestamp.asRocksTs_le_latest _)

theorem get_covering (db : DB) (ts : Timestamp) (key : RawKey)
    (covers : ∀ commit ∈ db.log, commit.ts ≤ ts.asRocksTs) : db.get ts key = db.view key := by
  apply VersionedLog.readAt_covering
  · exact covers
  · intro commit _
    exact Timestamp.asRocksTs_le_latest commit.ts

end DB

namespace StorageHandler

/-- Tasks of the handler read everything committed so far. -/
def Current (handler : StorageHandler) : Prop :=
  ∀ prev, handler.previousTimestamp = some prev →
    ∀ commit ∈ handler.db.log, commit.ts ≤ prev.asRocksTs

theorem get_readTs (handler : StorageHandler) (key : RawKey) (current : handler.Current) :
    handler.db.get handler.readTs key = handler.db.view key := by
  cases previous : handler.previousTimestamp with
  | none => simp only [readTs, previous, Option.getD_none, DB.view]
  | some prev =>
      rw [readTs, previous, Option.getD_some]
      exact DB.get_covering _ _ _ (current prev previous)

/-- One batch was written at `ts` and nothing else happened to the log. -/
structure Committed (before after : StorageHandler) (ts : Timestamp) (batch : List WriteOp) :
    Prop where
  log : after.db.log = before.db.log ++ [⟨ts.asRocksTs, batch⟩]
  previous : after.previousTimestamp = some ts

theorem Committed.current {before after : StorageHandler} {ts : Timestamp} {batch : List WriteOp}
    (committed : Committed before after ts batch) (increasing : Increasing after.db.log) :
    after.Current := by
  intro prev previous commit member
  rw [committed.previous, Option.some.injEq] at previous
  subst previous
  rw [committed.log] at member increasing
  rcases List.mem_append.mp member with old | new
  · exact le_of_lt (VersionedLog.increasing_lt increasing old (List.mem_singleton_self _))
  · rw [List.mem_singleton.mp new]

theorem Committed.increasing {before after : StorageHandler} {ts : Timestamp} {batch : List WriteOp}
    (committed : Committed before after ts batch) (increasing : Increasing after.db.log) :
    Increasing before.db.log := by
  rw [committed.log] at increasing
  exact VersionedLog.increasing_left increasing

theorem Committed.view {before after : StorageHandler} {ts : Timestamp} {batch : List WriteOp}
    (committed : Committed before after ts batch) (increasing : Increasing after.db.log)
    (key : RawKey) :
    after.db.view key = replay WriteOp.act key (before.db.view key) batch := by
  have step := DB.view_write before.db ts batch key (by
    rw [DB.write, ← committed.log]
    exact increasing)
  rw [← step]
  simp only [DB.view, DB.get, DB.write, committed.log]

theorem commit_committed {handler after : StorageHandler} {now : U64} {accepted : Bool}
    {batch : Timestamp → List WriteOp}
    (success : handler.commit now accepted batch = .ok after) :
    Committed handler after (Timestamp.next handler.previousTimestamp now)
      (batch (Timestamp.next handler.previousTimestamp now)) := by
  simp only [commit] at success
  split at success
  · cases success
    exact ⟨rfl, rfl⟩
  · cases success

theorem applyIndexingTask_committed {handler after : StorageHandler} {now : U64} {accepted : Bool}
    {task : FinalizedTask} {point : Point} {maxRollback : U64} {mempoolTimestamp : Option U64}
    (success : handler.applyIndexingTask now accepted task point maxRollback mempoolTimestamp =
      .ok after) :
    Committed handler after (Timestamp.next handler.previousTimestamp now)
      (task.batch point maxRollback (Timestamp.next handler.previousTimestamp now)
        mempoolTimestamp) := by
  simp only [applyIndexingTask, bind, Except.bind] at success
  split at success
  · cases success
  · rename_i written wrote
    have committed := commit_committed wrote
    simp only [pure, Except.pure, Except.ok.injEq] at success
    subst success
    split
    · exact committed
    · refine ⟨?_, committed.previous⟩
      simp only [DB.increaseFullHistoryTsLow]
      split
      · exact committed.log
      · exact committed.log

end StorageHandler

namespace FinalizedTask

theorem replay_actionOps (task : FinalizedTask) (key : RawKey) (cell : Cell) :
    replay WriteOp.act key cell task.actionOps =
      (task.writeBuffer.lookup key).elim cell (fun action => action.apply cell) := by
  have listed : task.actionOps =
      task.writeBuffer.entries.flatMap (fun entry => [entry.2.toWriteOp entry.1]) := by
    rw [actionOps, List.map_eq_flatMap]
  rw [listed]
  apply VersionedLog.replay_keyed WriteOp.act key cell _ (fun target action => [action.toWriteOp target])
    StorageAction.apply
  · intro target action current
    exact StorageAction.act_toWriteOp action target key current
  · exact task.writeBuffer.nodupKeys

theorem replay_rollbackOps (task : FinalizedTask) (point : Point) (maxRollback : U64)
    (key : RawKey) (cell : Cell) (outside : ¬ RollbackBufferKV.Holds key) :
    replay WriteOp.act key cell (task.rollbackOps point maxRollback) = cell := by
  apply VersionedLog.replay_untouched
  intro op member current
  cases originals : task.originalKvs with
  | none => simp [rollbackOps, originals] at member
  | some kvs =>
      simp only [rollbackOps, originals, List.mem_append, List.mem_map] at member
      rcases member with ⟨entry, _, rfl⟩ | removal
      · have other : RollbackBufferKV.encodeKey
            ⟨task.rollbackHeight point, point.hash, entry.1⟩ ≠ key := by
          intro equal
          exact outside (equal ▸ Table.holds_encodeKey _ _)
        simp only [WriteOp.act, if_neg other]
      · split at removal
        · cases removal
        · rw [List.mem_singleton.mp removal]
          simp only [WriteOp.act]
          rw [if_neg]
          rintro ⟨above, below⟩
          exact outside (rollback_range_holds _ key above below)

theorem act_timestampOp (task : FinalizedTask) (point : Point) (commitTs : Timestamp)
    (mempoolTimestamp : Option U64) (key : RawKey) (cell : Cell)
    (outside : ¬ TimestampsKV.Holds key) :
    (task.timestampOp point commitTs mempoolTimestamp).act key cell = cell := by
  have other : TimestampsKV.encodeKey (if task.mempool then .mempool else .confirmed) ≠ key := by
    intro equal
    exact outside (equal ▸ Table.holds_encodeKey _ _)
  simp only [timestampOp, WriteOp.act, if_neg other]

/-- On data keys a commit does exactly what the write buffer says. -/
theorem replay_batch (task : FinalizedTask) (point : Point) (maxRollback : U64)
    (commitTs : Timestamp) (mempoolTimestamp : Option U64) (key : RawKey) (cell : Cell)
    (data : IsData key) :
    replay WriteOp.act key cell (task.batch point maxRollback commitTs mempoolTimestamp) =
      (task.writeBuffer.lookup key).elim cell (fun action => action.apply cell) := by
  rw [batch, VersionedLog.replay_append, VersionedLog.replay_append, replay_actionOps,
    replay_rollbackOps _ _ _ _ _ data.2, VersionedLog.replay_cons, act_timestampOp _ _ _ _ _ _ data.1]
  rfl

end FinalizedTask

theorem mergeOperator_single (existing : Option RawValue) (op : MergeOperation) :
    mergeOperator existing [encode op] =
      (match existing with
        | some bytes => (decodeOption bytes : Option U128)
        | none => some 0).map (fun base => encode (op.perform base)) := by
  have operand : (decodeOption (encode op) : Option MergeOperation) = some op := by
    simp only [decodeOption, decodeAll_encode op trivial, Except.toOption]
  cases existing with
  | none => simp [mergeOperator, operand]
  | some bytes =>
      cases started : (decodeOption bytes : Option U128) with
      | none => simp [mergeOperator, started]
      | some base => simp [mergeOperator, operand, started]

namespace IndexingTask

/-- The task's own folding and the merge operator of the database compute the same value. -/
theorem toOption_getRaw (task : IndexingTask) (key : RawKey) :
    (task.getRaw key).toOption =
      ((task.writeBuffer.lookup key).elim (task.db.get task.readTs key)
        (fun action => action.apply (task.db.get task.readTs key))).toOption := by
  simp only [getRaw]
  cases task.writeBuffer.lookup key with
  | none => rfl
  | some action =>
      cases action with
      | set value => rfl
      | delete => rfl
      | merge op =>
          simp only [Option.elim_some, StorageAction.apply]
          cases task.db.get task.readTs key with
          | error failure => rfl
          | ok existing =>
              simp only [resolveMerge, mergeOperator_single]
              cases existing with
              | none => rfl
              | some bytes =>
                  cases decoded : (decodeAll bytes : Except DecodingError U128) with
                  | error failure =>
                      simp [bind, Except.bind, decodeOption, decoded, liftDecoding, Except.toOption]
                  | ok base =>
                      simp [bind, Except.bind, pure, Except.pure, decodeOption, decoded, liftDecoding,
                        Except.toOption]

/-- One key was written: its original was looked up first, then its action buffered. -/
def Touches (task : IndexingTask) (key : RawKey) (after : IndexingTask) : Prop :=
  key.length < 2 ^ 63 ∧ ∃ stored action, StorageAction.Short action ∧
    task.maybeStoreOriginalKv key = .ok stored ∧ after = stored.buffer key action

theorem allocate_ok {bytes out : List BigEndian.Byte} (success : allocate bytes = .ok out) :
    bytes.length < 2 ^ 63 ∧ out = bytes := by
  simp only [allocate] at success
  split at success
  · rename_i bound
    cases success
    exact ⟨bound, rfl⟩
  · cases success

theorem setRaw_ok {task after : IndexingTask} {key : RawKey} {value : RawValue}
    (success : task.setRaw key value = .ok after) :
    key.length < 2 ^ 63 ∧ value.length < 2 ^ 63 ∧
      ∃ stored, task.maybeStoreOriginalKv key = .ok stored ∧ after = stored.buffer key (.set value) := by
  simp only [setRaw, bind, Except.bind, pure, Except.pure] at success
  split at success
  · cases success
  · rename_i keyBytes keyFits
    obtain ⟨keyBound, rfl⟩ := allocate_ok keyFits
    split at success
    · cases success
    · rename_i valueBytes valueFits
      obtain ⟨valueBound, rfl⟩ := allocate_ok valueFits
      split at success
      · cases success
      · rename_i stored storing
        exact ⟨keyBound, valueBound, stored, storing, (Except.ok.inj success).symm⟩

theorem deleteRaw_ok {task after : IndexingTask} {key : RawKey}
    (success : task.deleteRaw key = .ok after) :
    key.length < 2 ^ 63 ∧
      ∃ stored, task.maybeStoreOriginalKv key = .ok stored ∧ after = stored.buffer key .delete := by
  simp only [deleteRaw, bind, Except.bind, pure, Except.pure] at success
  split at success
  · cases success
  · rename_i keyBytes keyFits
    obtain ⟨keyBound, rfl⟩ := allocate_ok keyFits
    split at success
    · cases success
    · rename_i stored storing
      exact ⟨keyBound, stored, storing, (Except.ok.inj success).symm⟩

theorem setRaw_touches {task after : IndexingTask} {key : RawKey} {value : RawValue}
    (success : task.setRaw key value = .ok after) : task.Touches key after := by
  obtain ⟨bound, short, stored, storing, result⟩ := setRaw_ok success
  exact ⟨bound, stored, .set value, short, storing, result⟩

theorem deleteRaw_touches {task after : IndexingTask} {key : RawKey}
    (success : task.deleteRaw key = .ok after) : task.Touches key after := by
  obtain ⟨bound, stored, storing, result⟩ := deleteRaw_ok success
  exact ⟨bound, stored, .delete, trivial, storing, result⟩

theorem mergeOpRaw_touches {task after : IndexingTask} {key : RawKey} {op : MergeOperation}
    (success : task.mergeOpRaw key op = .ok after) : task.Touches key after := by
  simp only [mergeOpRaw, bind, Except.bind, pure, Except.pure] at success
  split at success
  · cases success
  · rename_i keyBytes keyFits
    obtain ⟨keyBound, rfl⟩ := allocate_ok keyFits
    split at success
    · cases success
    · rename_i stored storing
      refine ⟨keyBound, stored, ?_⟩
      split at success
      · split at success
        · cases success
        · exact ⟨.set (encode _), length_encode_u128 _, storing, (Except.ok.inj success).symm⟩
      · exact ⟨.merge _, trivial, storing, (Except.ok.inj success).symm⟩
      · exact ⟨.merge _, trivial, storing, (Except.ok.inj success).symm⟩
      · exact ⟨.merge _, trivial, storing, (Except.ok.inj success).symm⟩

theorem maybeStoreOriginalKv_cases {task stored : IndexingTask} {key : RawKey}
    (success : task.maybeStoreOriginalKv key = .ok stored) :
    (task.originalKvs = none ∧ stored = task) ∨
    (∃ kvs, task.originalKvs = some kvs ∧ key ∈ kvs ∧ stored = task) ∨
    (∃ kvs original, task.originalKvs = some kvs ∧ key ∉ kvs ∧
      task.db.get task.readTs key = .ok original ∧
      stored = { task with originalKvs := some (kvs.insert key (PreviousValue.ofOption original)) }) := by
  simp only [maybeStoreOriginalKv] at success
  split at success
  · rename_i immutable
    exact Or.inl ⟨immutable, (Except.ok.inj success).symm⟩
  · rename_i kvs tracked
    split at success
    · rename_i present
      exact Or.inr (Or.inl ⟨kvs, tracked, present, (Except.ok.inj success).symm⟩)
    · rename_i absent
      simp only [bind, Except.bind, pure, Except.pure] at success
      split at success
      · cases success
      · rename_i original reading
        exact Or.inr (Or.inr ⟨kvs, original, tracked, absent, reading, (Except.ok.inj success).symm⟩)

structure SameSource (task after : IndexingTask) : Prop where
  db : after.db = task.db
  readTs : after.readTs = task.readTs
  mempool : after.mempool = task.mempool
  tracking : after.originalKvs.isSome = task.originalKvs.isSome

theorem SameSource.refl (task : IndexingTask) : SameSource task task := ⟨rfl, rfl, rfl, rfl⟩

theorem SameSource.trans {first second third : IndexingTask} (left : SameSource first second)
    (right : SameSource second third) : SameSource first third :=
  ⟨right.db.trans left.db, right.readTs.trans left.readTs, right.mempool.trans left.mempool,
    right.tracking.trans left.tracking⟩

theorem Touches.sameSource {task after : IndexingTask} {key : RawKey}
    (touches : task.Touches key after) : SameSource task after := by
  obtain ⟨_, stored, action, _, storing, rfl⟩ := touches
  rcases maybeStoreOriginalKv_cases storing with ⟨_, rfl⟩ | ⟨_, _, _, rfl⟩ | ⟨kvs, _, tracked, _, _, rfl⟩
  · exact ⟨rfl, rfl, rfl, rfl⟩
  · exact ⟨rfl, rfl, rfl, rfl⟩
  · exact ⟨rfl, rfl, rfl, by simp [buffer, tracked]⟩

/-- The originals of every buffered key, as the database held them when the task began. -/
structure Tracks (task : IndexingTask) (kvs : HashMap RawKey PreviousValue) : Prop where
  originals : task.originalKvs = some kvs
  covers : ∀ key, key ∈ task.writeBuffer → key ∈ kvs
  buffered : ∀ key, key ∈ kvs → key ∈ task.writeBuffer
  saved : ∀ key previous, kvs.lookup key = some previous →
    task.db.get task.readTs key = .ok previous.toOption
  short : ∀ key, key ∈ kvs → key.length < 2 ^ 63

theorem Touches.tracks {task after : IndexingTask} {key : RawKey}
    {kvs : HashMap RawKey PreviousValue} (touches : task.Touches key after)
    (tracks : task.Tracks kvs) : ∃ kvs', after.Tracks kvs' := by
  obtain ⟨bound, stored, action, _, storing, rfl⟩ := touches
  rcases maybeStoreOriginalKv_cases storing with
    ⟨immutable, _⟩ | ⟨kvs', tracked, present, rfl⟩ | ⟨kvs', original, tracked, _, reading, rfl⟩
  · rw [tracks.originals] at immutable
    cases immutable
  · obtain rfl : kvs = kvs' := Option.some.inj (tracks.originals.symm.trans tracked)
    refine ⟨kvs, tracked, ?_, ?_, tracks.saved, tracks.short⟩
    · intro other member
      rcases AList.mem_insert _ |>.mp member with rfl | old
      · exact present
      · exact tracks.covers other old
    · intro other member
      exact (AList.mem_insert _).mpr (Or.inr (tracks.buffered other member))
  · obtain rfl : kvs = kvs' := Option.some.inj (tracks.originals.symm.trans tracked)
    refine ⟨kvs.insert key (PreviousValue.ofOption original), rfl, ?_, ?_, ?_, ?_⟩
    · intro other member
      rcases AList.mem_insert _ |>.mp member with rfl | old
      · exact (AList.mem_insert _).mpr (Or.inl rfl)
      · exact (AList.mem_insert _).mpr (Or.inr (tracks.covers other old))
    · intro other member
      rcases AList.mem_insert _ |>.mp member with rfl | old
      · exact (AList.mem_insert _).mpr (Or.inl rfl)
      · exact (AList.mem_insert _).mpr (Or.inr (tracks.buffered other old))
    · intro other previous found
      by_cases same : other = key
      · subst same
        rw [AList.lookup_insert, Option.some.injEq] at found
        rw [← found, PreviousValue.toOption_ofOption]
        exact reading
      · rw [AList.lookup_insert_ne same] at found
        exact tracks.saved other previous found
    · intro other member
      rcases AList.mem_insert _ |>.mp member with rfl | old
      · exact bound
      · exact tracks.short other old

/-- Reachable by writing keys that satisfy `allowed`. -/
def Written (allowed : RawKey → Prop) : IndexingTask → IndexingTask → Prop :=
  Relation.ReflTransGen (fun task after => ∃ key, allowed key ∧ task.Touches key after)

theorem Written.sameSource {allowed : RawKey → Prop} {task after : IndexingTask}
    (written : Written allowed task after) : SameSource task after := by
  induction written with
  | refl => exact SameSource.refl task
  | tail _ step ih =>
      obtain ⟨key, _, touches⟩ := step
      exact ih.trans touches.sameSource

theorem Written.tracks {allowed : RawKey → Prop} {task after : IndexingTask}
    {kvs : HashMap RawKey PreviousValue} (written : Written allowed task after)
    (tracks : task.Tracks kvs) : ∃ kvs', after.Tracks kvs' := by
  induction written with
  | refl => exact ⟨kvs, tracks⟩
  | tail _ step ih =>
      obtain ⟨key, _, touches⟩ := step
      obtain ⟨middle, tracked⟩ := ih
      exact touches.tracks tracked

theorem Touches.lookup_ne {task after : IndexingTask} {key other : RawKey}
    (touches : task.Touches key after) (different : other ≠ key) :
    after.writeBuffer.lookup other = task.writeBuffer.lookup other := by
  obtain ⟨_, stored, action, _, storing, rfl⟩ := touches
  have same : stored.writeBuffer = task.writeBuffer := by
    rcases maybeStoreOriginalKv_cases storing with ⟨_, rfl⟩ | ⟨_, _, _, rfl⟩ | ⟨_, _, _, _, _, rfl⟩
    · rfl
    · rfl
    · rfl
  rw [buffer, AList.lookup_insert_ne different, same]

/-- Everything that has been set fits in memory. -/
def Short (task : IndexingTask) : Prop :=
  ∀ key action, task.writeBuffer.lookup key = some action → StorageAction.Short action

theorem short_of_fresh {task : IndexingTask} (fresh : task.writeBuffer = ∅) : task.Short := by
  intro key action found
  rw [fresh, AList.lookup_empty] at found
  cases found

theorem Touches.short {task after : IndexingTask} {key : RawKey} (touches : task.Touches key after)
    (short : task.Short) : after.Short := by
  intro other action found
  by_cases same : other = key
  · obtain ⟨_, stored, buffered, fits, _, rfl⟩ := touches
    rw [same, buffer, AList.lookup_insert, Option.some.injEq] at found
    rw [← found]
    exact fits
  · rw [touches.lookup_ne same] at found
    exact short other action found

theorem Written.short {allowed : RawKey → Prop} {task after : IndexingTask}
    (written : Written allowed task after) (short : task.Short) : after.Short := by
  induction written with
  | refl => exact short
  | tail _ step ih =>
      obtain ⟨key, _, touches⟩ := step
      exact touches.short ih

theorem Written.lookup_of_not_allowed {allowed : RawKey → Prop} {task after : IndexingTask}
    (written : Written allowed task after) (key : RawKey) (outside : ¬ allowed key) :
    after.writeBuffer.lookup key = task.writeBuffer.lookup key := by
  induction written with
  | refl => rfl
  | tail _ step ih =>
      obtain ⟨target, inside, touches⟩ := step
      have different : key ≠ target := by
        rintro rfl
        exact outside inside
      rw [touches.lookup_ne different, ih]

theorem Written.mono {allowed wider : RawKey → Prop} {task after : IndexingTask}
    (written : Written allowed task after) (grows : ∀ key, allowed key → wider key) :
    Written wider task after :=
  Relation.ReflTransGen.mono (fun _ _ ⟨key, inside, touches⟩ =>
    ⟨key, grows key inside, touches⟩) _ _ written

end IndexingTask

namespace StorageHandler

theorem tracks_beginIndexingTask (handler : StorageHandler) :
    (handler.beginIndexingTask true).Tracks ∅ :=
  ⟨rfl, by intro key member; exact absurd member (AList.notMem_empty key),
    by intro key member; exact absurd member (AList.notMem_empty key),
    by intro key previous found; simp at found,
    by intro key member; exact absurd member (AList.notMem_empty key)⟩

theorem tracks_beginMempoolIndexingTask (handler : StorageHandler) :
    handler.beginMempoolIndexingTask.Tracks ∅ :=
  ⟨rfl, by intro key member; exact absurd member (AList.notMem_empty key),
    by intro key member; exact absurd member (AList.notMem_empty key),
    by intro key previous found; simp at found,
    by intro key member; exact absurd member (AList.notMem_empty key)⟩

end StorageHandler

end Symphony
