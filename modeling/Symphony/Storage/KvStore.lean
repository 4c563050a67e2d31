import Mathlib.Data.List.AList
import Symphony.Lib.VersionedLog
import Symphony.Storage.MergeOperation
import Symphony.Storage.Table
import Symphony.Storage.Timestamp

/-! The key-value store (`storage/kv_store.rs`).

RocksDB is taken as a log of atomic batches, one timestamp each: a batch acts on a key
through its operations in order, so the last one wins, and a merge record is resolved by
the registered merge operator on the value below it. -/

namespace Symphony

open BigEndian (Byte)
open Encdec
open VersionedLog (Commit readAt replay Increasing)

abbrev HashMap (Key Value : Type) := AList (fun _ : Key => Value)

abbrev Cell := Except Error (Option RawValue)

inductive WriteOp where
  | put (key : RawKey) (value : RawValue)
  | delete (key : RawKey)
  | merge (key : RawKey) (operand : RawValue)
  | deleteRange (start stop : RawKey)
  deriving DecidableEq

def resolveMerge (operand : RawValue) (cell : Cell) : Cell :=
  match cell with
  | .error failure => .error failure
  | .ok existing => match mergeOperator existing [operand] with
      | some value => .ok (some value)
      | none => .error (.rocks "merge operator failed")

def WriteOp.act (op : WriteOp) (key : RawKey) (cell : Cell) : Cell :=
  match op with
  | .put target value => if target = key then .ok (some value) else cell
  | .delete target => if target = key then .ok none else cell
  | .merge target operand => if target = key then resolveMerge operand cell else cell
  | .deleteRange start stop => if start ≤ key ∧ key < stop then .ok none else cell

abbrev RocksTs := Fin (2 ^ 64)

instance neZeroRocksTs : NeZero (2 ^ 64) := ⟨by decide⟩

def Timestamp.asRocksTs (ts : Timestamp) : RocksTs := ts.asU64.toFin

structure DB where
  log : List (Commit RocksTs WriteOp)
  fullHistoryTsLow : RocksTs
  deriving DecidableEq

namespace DB

def empty : DB := ⟨[], 0⟩

/-- RocksDB keeps every version from `fullHistoryTsLow` on, and refuses to read below it. -/
def Keeps (db : DB) (ts : Timestamp) : Prop := db.fullHistoryTsLow ≤ ts.asRocksTs

/-- A read at a timestamp that the database keeps. -/
def get (db : DB) (ts : Timestamp) (key : RawKey) : Cell :=
  readAt WriteOp.act (.ok none) db.log ts.asRocksTs key

def view (db : DB) (key : RawKey) : Cell := db.get Timestamp.latest key

def write (db : DB) (ts : Timestamp) (batch : List WriteOp) : DB :=
  { db with log := db.log ++ [⟨ts.asRocksTs, batch⟩] }

/-- Lowering the bound is refused and only logged. -/
def increaseFullHistoryTsLow (db : DB) (ts : Timestamp) : DB :=
  if ts.asRocksTs < db.fullHistoryTsLow then db
  else { db with fullHistoryTsLow := ts.asRocksTs }

end DB

inductive StorageAction where
  | set (value : RawValue)
  | delete
  | merge (op : MergeOperation)
  deriving DecidableEq

def StorageAction.toWriteOp (action : StorageAction) (key : RawKey) : WriteOp :=
  match action with
  | .set value => .put key value
  | .delete => .delete key
  | .merge op => .merge key (encode op)

structure IndexingTask where
  db : DB
  readTs : Timestamp
  writeBuffer : HashMap RawKey StorageAction
  originalKvs : Option (HashMap RawKey PreviousValue)
  mempool : Bool

/-- Keys and values are `Vec<u8>`s: growing one past `isize::MAX` bytes panics. -/
def allocate (bytes : List Byte) : Except Error (List Byte) :=
  if bytes.length < 2 ^ 63 then .ok bytes else .error (.panicked "capacity overflow")

namespace IndexingTask

/-- The bytes `get` decodes: the pending action first, then the database at `readTs`. -/
def getRaw (task : IndexingTask) (key : RawKey) : Cell :=
  match task.writeBuffer.lookup key with
  | some (.set value) => .ok (some value)
  | some .delete => .ok none
  | some (.merge op) => do
      let base ← match ← task.db.get task.readTs key with
        | some bytes => liftDecoding (decodeAll bytes : Except DecodingError U128)
        | none => .ok 0
      return some (encode (op.perform base))
  | none => task.db.get task.readTs key

def decodeCell {Value : Type} [Decode Value] (cell : Cell) : Except Error (Option Value) := do
  match ← cell with
  | some bytes => return some (← liftDecoding (decodeAll bytes : Except DecodingError Value))
  | none => return none

def get {Key Value : Type} [Encode Key] [Decode Value] (task : IndexingTask)
    (table : Table Key Value) (key : Key) : Except Error (Option Value) :=
  decodeCell (task.getRaw (table.encodeKey key))

/-- Keys pending in the write buffer come first, the fetched ones follow in key order. -/
def multiGet {Key Value : Type} [Encode Key] [Decode Value] (task : IndexingTask)
    (table : Table Key Value) (keys : List Key) : Except Error (List (Key × Option Value)) :=
  let pending := keys.filter (fun key => (task.writeBuffer.lookup (table.encodeKey key)).isSome)
  let toFetch := (keys.filter
    (fun key => (task.writeBuffer.lookup (table.encodeKey key)).isNone)).insertionSort
      (fun first second => table.encodeKey first ≤ table.encodeKey second)
  (pending ++ toFetch).mapM (fun key => do return (key, ← task.get table key))

def maybeStoreOriginalKv (task : IndexingTask) (key : RawKey) : Except Error IndexingTask :=
  match task.originalKvs with
  | none => .ok task
  | some kvs =>
      if key ∈ kvs then .ok task
      else do
        let original ← task.db.get task.readTs key
        return { task with originalKvs := some (kvs.insert key (PreviousValue.ofOption original)) }

def buffer (task : IndexingTask) (key : RawKey) (action : StorageAction) : IndexingTask :=
  { task with writeBuffer := task.writeBuffer.insert key action }

def setRaw (task : IndexingTask) (key : RawKey) (value : RawValue) :
    Except Error IndexingTask := do
  let key ← allocate key
  let value ← allocate value
  let task ← task.maybeStoreOriginalKv key
  return task.buffer key (.set value)

def deleteRaw (task : IndexingTask) (key : RawKey) : Except Error IndexingTask := do
  let key ← allocate key
  let task ← task.maybeStoreOriginalKv key
  return task.buffer key .delete

def mergeOpRaw (task : IndexingTask) (key : RawKey) (op : MergeOperation) :
    Except Error IndexingTask := do
  let key ← allocate key
  let task ← task.maybeStoreOriginalKv key
  match task.writeBuffer.lookup key with
  | some (.set existing) => do
      let result ← liftDecoding (applyMergeToValue op existing)
      return task.buffer key (.set (encode result))
  | some (.merge existing) => return task.buffer key (.merge (combineMergeOperations existing op))
  | some .delete => return task.buffer key (.merge op)
  | none => return task.buffer key (.merge op)

def set {Key Value : Type} [Encode Key] [Encode Value] (task : IndexingTask)
    (table : Table Key Value) (key : Key) (value : Value) : Except Error IndexingTask :=
  task.setRaw (table.encodeKey key) (encode value)

def delete {Key Value : Type} [Encode Key] (task : IndexingTask)
    (table : Table Key Value) (key : Key) : Except Error IndexingTask :=
  task.deleteRaw (table.encodeKey key)

def increment {Key Value : Type} [Encode Key] [Encode Value] [Decode Value] [VarUIntEncoded Value]
    (task : IndexingTask) (table : Table Key Value) (key : Key) (amount : Value) :
    Except Error IndexingTask :=
  task.mergeOpRaw (table.encodeKey key) (.increment (VarUIntEncoded.asU128 amount))

def decrement {Key Value : Type} [Encode Key] [Encode Value] [Decode Value] [VarUIntEncoded Value]
    (task : IndexingTask) (table : Table Key Value) (key : Key) (amount : Value) :
    Except Error IndexingTask :=
  task.mergeOpRaw (table.encodeKey key) (.decrement (VarUIntEncoded.asU128 amount))

end IndexingTask

structure FinalizedTask where
  writeBuffer : HashMap RawKey StorageAction
  originalKvs : Option (HashMap RawKey PreviousValue)
  mempool : Bool

def IndexingTask.finalize (task : IndexingTask) : FinalizedTask :=
  ⟨task.writeBuffer, task.originalKvs, task.mempool⟩

namespace FinalizedTask

/-- The height under which the originals of a task are filed. -/
def rollbackHeight (task : FinalizedTask) (point : Point) : BlockHeight :=
  if task.mempool then u64Max else point.height

def actionOps (task : FinalizedTask) : List WriteOp :=
  task.writeBuffer.entries.map (fun entry => entry.2.toWriteOp entry.1)

def rollbackOps (task : FinalizedTask) (point : Point) (maxRollback : U64) : List WriteOp :=
  match task.originalKvs with
  | none => []
  | some kvs =>
      kvs.entries.map (fun entry => .put
        (RollbackBufferKV.encodeKey ⟨task.rollbackHeight point, point.hash, entry.1⟩)
        (encode entry.2)) ++
      if task.mempool then []
      else
        let removeBefore := saturatingSub point.height maxRollback
        let range := RollbackBufferKV.encodeRange none (some (encode removeBefore))
        [.deleteRange range.1 range.2]

def timestampOp (task : FinalizedTask) (point : Point) (commitTs : Timestamp)
    (mempoolTimestamp : Option U64) : WriteOp :=
  .put (TimestampsKV.encodeKey (if task.mempool then .mempool else .confirmed))
    (encode (⟨point.height, point.hash, commitTs.asU64, mempoolTimestamp⟩ : TimestampEntry))

def batch (task : FinalizedTask) (point : Point) (maxRollback : U64) (commitTs : Timestamp)
    (mempoolTimestamp : Option U64) : List WriteOp :=
  task.actionOps ++ task.rollbackOps point maxRollback ++
    [task.timestampOp point commitTs mempoolTimestamp]

end FinalizedTask

structure StorageHandler where
  db : DB
  previousTimestamp : Option Timestamp
  deriving DecidableEq

namespace StorageHandler

/-- A process starts with no previous timestamp, whatever the database holds. -/
def openDb (db : DB) : StorageHandler := ⟨db, none⟩

def readTs (handler : StorageHandler) : Timestamp :=
  handler.previousTimestamp.getD Timestamp.latest

def beginIndexingTask (handler : StorageHandler) (mutable : Bool) : IndexingTask where
  db := handler.db
  readTs := handler.readTs
  writeBuffer := ∅
  originalKvs := if mutable then some ∅ else none
  mempool := false

def beginMempoolIndexingTask (handler : StorageHandler) : IndexingTask where
  db := handler.db
  readTs := handler.readTs
  writeBuffer := ∅
  originalKvs := some ∅
  mempool := true

/-- Write one batch at the next commit timestamp; `accepted` is RocksDB's answer. -/
def commit (handler : StorageHandler) (now : U64) (accepted : Bool)
    (batch : Timestamp → List WriteOp) : Except Error StorageHandler :=
  let commitTs := Timestamp.next handler.previousTimestamp now
  if accepted then .ok ⟨handler.db.write commitTs (batch commitTs), some commitTs⟩
  else .error (.rocks "write failed")

def applyIndexingTask (handler : StorageHandler) (now : U64) (accepted : Bool)
    (task : FinalizedTask) (point : Point) (maxRollback : U64) (mempoolTimestamp : Option U64) :
    Except Error StorageHandler := do
  let handler ← handler.commit now accepted
    (fun commitTs => task.batch point maxRollback commitTs mempoolTimestamp)
  let commitTs := handler.readTs
  return if task.mempool then handler
    else { handler with db := handler.db.increaseFullHistoryTsLow commitTs }

end StorageHandler

structure Reader where
  db : DB
  timestamp : Timestamp

def StorageHandler.reader (handler : StorageHandler) (timestamp : Timestamp) : Reader :=
  ⟨handler.db, timestamp⟩

namespace Reader

def get {Key Value : Type} [Encode Key] [Decode Value] (reader : Reader)
    (table : Table Key Value) (key : Key) : Except Error (Option Value) :=
  IndexingTask.decodeCell (reader.db.get reader.timestamp (table.encodeKey key))

def writtenKeys (db : DB) : List RawKey :=
  db.log.flatMap (fun commit => commit.ops.filterMap (fun op => match op with
    | .put key _ => some key
    | .merge key _ => some key
    | _ => none))

def rangeKeys (db : DB) (range : RawKey × RawKey) : List RawKey :=
  ((writtenKeys db).filter (fun key => range.1 ≤ key ∧ key < range.2)).dedup.insertionSort (· ≤ ·)

def decodeEntry {Key Value : Type} [Decode Key] [Decode Value] (table : Table Key Value)
    (key : RawKey) (value : RawValue) : Except Error (Key × Value) := do
  let keyOut ← liftDecoding (decodeAll (key.drop table.tag.length) : Except DecodingError Key)
  let valueOut ← liftDecoding (decodeAll value : Except DecodingError Value)
  return (keyOut, valueOut)

def iterKvs {Key Value : Type} [Decode Key] [Decode Value] (reader : Reader)
    (table : Table Key Value) (range : RawKey × RawKey) (reverse : Bool) :
    List (Except Error (Key × Value)) :=
  let keys := rangeKeys reader.db range
  let ordered := if reverse then keys.reverse else keys
  ordered.filterMap (fun key => match reader.db.get reader.timestamp key with
    | .ok none => none
    | .ok (some value) => some (decodeEntry table key value)
    | .error failure => some (.error failure))

end Reader

end Symphony
