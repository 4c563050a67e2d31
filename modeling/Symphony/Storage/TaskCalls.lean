import Symphony.Storage.TaskSpec
import Symphony.Sync.CustomTables

/-! Sequences of calls on an indexing task, and what a commit makes of them. -/

namespace Symphony

open Encdec
open VersionedLog (Increasing)

/-- One call of an indexer on its task. -/
inductive TaskCall : Type 1
  | set {Key Value : Type} [Encode Key] [Encode Value] (table : Table Key Value) (key : Key)
      (value : Value)
  | delete {Key Value : Type} [Encode Key] (table : Table Key Value) (key : Key)
  | increment {Key Value : Type} [Encode Key] [Encode Value] [Decode Value] [VarUIntEncoded Value]
      (table : Table Key Value) (key : Key) (amount : Value)
  | decrement {Key Value : Type} [Encode Key] [Encode Value] [Decode Value] [VarUIntEncoded Value]
      (table : Table Key Value) (key : Key) (amount : Value)

namespace TaskCall

def target : TaskCall → RawKey
  | @set _ _ _ _ table key _ => table.encodeKey key
  | @delete _ _ _ table key => table.encodeKey key
  | @increment _ _ _ _ _ _ table key _ => table.encodeKey key
  | @decrement _ _ _ _ _ _ table key _ => table.encodeKey key

def run (task : IndexingTask) : TaskCall → Except Error IndexingTask
  | @set _ _ _ _ table key value => task.set table key value
  | @delete _ _ _ table key => task.delete table key
  | @increment _ _ _ _ _ _ table key amount => task.increment table key amount
  | @decrement _ _ _ _ _ _ table key amount => task.decrement table key amount

theorem run_touches {task after : IndexingTask} {call : TaskCall}
    (success : call.run task = .ok after) : task.Touches call.target after := by
  cases call with
  | set table key value => exact IndexingTask.setRaw_touches success
  | delete table key => exact IndexingTask.deleteRaw_touches success
  | increment table key amount => exact IndexingTask.mergeOpRaw_touches success
  | decrement table key amount => exact IndexingTask.mergeOpRaw_touches success

end TaskCall

def IndexingTask.runCalls (task : IndexingTask) (calls : List TaskCall) :
    Except Error IndexingTask :=
  calls.foldlM TaskCall.run task

namespace IndexingTask

theorem runCalls_snoc (task : IndexingTask) (calls : List TaskCall) (call : TaskCall) :
    task.runCalls (calls ++ [call]) =
      (task.runCalls calls >>= fun middle => call.run middle) := by
  simp only [runCalls, List.foldlM_append, List.foldlM_cons, List.foldlM_nil, bind_pure]

theorem runCalls_written {task after : IndexingTask} {calls : List TaskCall}
    (success : task.runCalls calls = .ok after) :
    Written (fun key => ∃ call ∈ calls, call.target = key) task after := by
  induction calls generalizing task with
  | nil =>
      obtain rfl : task = after := Except.ok.inj success
      exact Relation.ReflTransGen.refl
  | cons call calls ih =>
      simp only [runCalls, List.foldlM_cons, bind, Except.bind] at success
      split at success
      · cases success
      · rename_i middle ran
        apply Relation.ReflTransGen.head ⟨call.target, ⟨call, List.mem_cons_self, rfl⟩, TaskCall.run_touches ran⟩
        apply (ih success).mono
        rintro key ⟨other, member, same⟩
        exact ⟨other, List.mem_cons_of_mem call member, same⟩

theorem toOption_decodeCell {Value : Type} [Decode Value] (cell other : Cell)
    (same : cell.toOption = other.toOption) :
    (decodeCell cell : Except Error (Option Value)).toOption = (decodeCell other).toOption := by
  cases cell with
  | error failure =>
      cases other with
      | error _ => rfl
      | ok value => cases same
  | ok value =>
      cases other with
      | error _ => cases same
      | ok value' =>
          obtain rfl : value = value' := Option.some.inj same
          rfl

end IndexingTask

/-- The tasks a handler hands out: for a block, mutable or not, and for a snapshot. -/
inductive StorageHandler.Begins (handler : StorageHandler) : IndexingTask → Prop
  | block (mutable : Bool) : handler.Begins (handler.beginIndexingTask mutable)
  | mempool : handler.Begins handler.beginMempoolIndexingTask

theorem StorageHandler.Begins.fresh {handler : StorageHandler} {task : IndexingTask}
    (begins : handler.Begins task) :
    task.db = handler.db ∧ task.readTs = handler.readTs ∧ task.writeBuffer = ∅ := by
  cases begins with
  | block mutable => exact ⟨rfl, rfl, rfl⟩
  | mempool => exact ⟨rfl, rfl, rfl⟩

namespace StorageHandler

theorem Committed.get_data {handler after : StorageHandler} {task : FinalizedTask} {point : Point}
    {maxRollback : U64} {ts : Timestamp} {mempoolTimestamp : Option U64}
    (committed : Committed handler after ts (task.batch point maxRollback ts mempoolTimestamp))
    (increasing : Increasing after.db.log) (key : RawKey) (data : IsData key) :
    after.db.get ts key =
      (task.writeBuffer.lookup key).elim (handler.db.view key)
        (fun action => action.apply (handler.db.view key)) := by
  have latest : after.db.get ts key = after.db.view key :=
    DB.get_covering _ _ _ (committed.current increasing ts committed.previous)
  rw [latest, committed.view increasing key, FinalizedTask.replay_batch _ _ _ _ _ _ _ data]

end StorageHandler

/-- Committing a task changes nothing about what it reads: a reader at the commit timestamp
gets what the task got, or both fail, and untouched keys keep their value. -/
theorem commit_keeps_reads (handler after : StorageHandler) (begun task : IndexingTask)
    (calls : List TaskCall) (now : U64) (accepted : Bool) (point : Point) (maxRollback : U64)
    (mempoolTimestamp : Option U64) (current : handler.Current) (begins : handler.Begins begun)
    (ran : begun.runCalls calls = .ok task)
    (applied : handler.applyIndexingTask now accepted task.finalize point maxRollback
      mempoolTimestamp = .ok after)
    (increasing : Increasing after.db.log) :
    ∀ (Key Value : Type) [Encode Key] [Decode Value] (table : Table Key Value) (key : Key),
      IsData (table.encodeKey key) →
      (task.get table key).toOption =
        ((after.reader (Timestamp.next handler.previousTimestamp now)).get table key).toOption ∧
      ((∀ call ∈ calls, call.target ≠ table.encodeKey key) →
        (after.reader (Timestamp.next handler.previousTimestamp now)).get table key =
          (handler.reader handler.readTs).get table key) := by
  intro Key Value _ _ table key data
  obtain ⟨freshDb, freshTs, freshBuffer⟩ := begins.fresh
  have written := IndexingTask.runCalls_written ran
  have source := written.sameSource
  have below : task.db.get task.readTs (table.encodeKey key) = handler.db.view (table.encodeKey key) := by
    rw [source.db, source.readTs, freshDb, freshTs]
    exact handler.get_readTs _ current
  have committed := StorageHandler.applyIndexingTask_committed applied
  have stored := committed.get_data increasing (table.encodeKey key) data
  constructor
  · apply IndexingTask.toOption_decodeCell
    have folded := task.toOption_getRaw (table.encodeKey key)
    rw [below] at folded
    exact folded.trans (congrArg Except.toOption stored.symm)
  · intro untouched
    have absent : task.writeBuffer.lookup (table.encodeKey key) = none := by
      rw [written.lookup_of_not_allowed _ (by
        rintro ⟨call, member, same⟩
        exact untouched call member same), freshBuffer]
      rfl
    have kept : after.db.get (Timestamp.next handler.previousTimestamp now) (table.encodeKey key) =
        handler.db.get handler.readTs (table.encodeKey key) := by
      rw [stored, handler.get_readTs _ current]
      simp only [IndexingTask.finalize, absent, Option.elim_none]
    exact congrArg IndexingTask.decodeCell kept

def countedDb (script : ScriptPubKey) (count : U64) : DB where
  log := [⟨5, [.put (TxCountByAddressKV.encodeKey script) (encode count)]⟩]
  fullHistoryTsLow := 0

def saturatingCalls : List TaskCall :=
  [.increment TxCountByAddressKV [1] (5 : U64), .decrement TxCountByAddressKV [1] (40 : U64),
    .increment TxCountByAddressKV [1] (3 : U64)]

def countedHandler : StorageHandler := StorageHandler.openDb (countedDb [1] 10)

def saturatedTask : IndexingTask :=
  { countedHandler.beginIndexingTask true with
    writeBuffer := AList.singleton (TxCountByAddressKV.encodeKey [1]) (.merge (.decrement 32))
    originalKvs := some (AList.singleton (TxCountByAddressKV.encodeKey [1]) (.present (encode (10 : U64)))) }

def saturatedHandler : StorageHandler where
  db := (countedHandler.db.write (Timestamp.new 1)
    (saturatedTask.finalize.batch ⟨1, List.Vector.replicate 32 7⟩ 6 (Timestamp.new 1) none)
    ).increaseFullHistoryTsLow (Timestamp.new 1)
  previousTimestamp := some (Timestamp.new 1)

theorem commit_keeps_reads_saturated :
    (saturatedTask.get TxCountByAddressKV [1]).toOption =
      ((saturatedHandler.reader (Timestamp.new 1)).get TxCountByAddressKV [1]).toOption ∧
    saturatedTask.get TxCountByAddressKV [1] = .ok (some 0) := by
  constructor
  · exact (commit_keeps_reads countedHandler saturatedHandler (countedHandler.beginIndexingTask true)
      saturatedTask saturatingCalls 1 true ⟨1, List.Vector.replicate 32 7⟩ 6 none
      (by intro prev previous; cases previous) (.block true) rfl rfl (by decide +kernel)
      ScriptPubKey U64 TxCountByAddressKV [1] (by decide +kernel)).1
  · rfl

end Symphony
