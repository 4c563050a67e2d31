import Symphony.Storage.KvStore

/-! Transaction indexers (`indexers/custom/id.rs`) as scripts over the task.

`ProcessTransaction::process_tx` reads and writes the tables of its indexer through the
task, reads the context and attaches metadata to outputs. A `Script` is such a run as a
decision tree over the values read, hence a deterministic function of these reads. -/

namespace Symphony

open BigEndian (Byte)
open Encdec

/-- A raw key of some transaction indexer's table. -/
structure IndexerKey where
  raw : RawKey
  custom : raw.head? = some customIndexerTag

inductive Script (α : Type) where
  | pure (value : α)
  | fail (failure : Error)
  | get (key : IndexerKey) (next : Option RawValue → Script α)
  | set (key : IndexerKey) (value : RawValue) (next : Script α)
  | delete (key : IndexerKey) (next : Script α)
  | mergeOp (key : IndexerKey) (op : MergeOperation) (next : Script α)
  | attach (ref : TxoRef) (indexer : TransactionIndexer) (data : List Byte) (next : Script α)

namespace Script

variable {α β : Type}

def bind (script : Script α) (next : α → Script β) : Script β :=
  match script with
  | .pure value => next value
  | .fail failure => .fail failure
  | .get key rest => .get key (fun value => (rest value).bind next)
  | .set key value rest => .set key value (rest.bind next)
  | .delete key rest => .delete key (rest.bind next)
  | .mergeOp key op rest => .mergeOp key op (rest.bind next)
  | .attach ref indexer data rest => .attach ref indexer data (rest.bind next)

instance : Monad Script where
  pure := .pure
  bind := bind

def lift (result : Except Error α) : Script α :=
  match result with
  | .ok value => .pure value
  | .error failure => .fail failure

end Script

/-- What the public methods of `IndexingContext` show an indexer. -/
structure TxContext where
  point : Point
  network : Network
  resolveInput : TxoRef → Option Utxo

abbrev Indexer := TransactionWithId → Nat → TxContext → Script Unit

structure IndexingContext where
  point : Point
  resolver : HashMap TxoRef Utxo
  utxoMetadata : HashMap TxoRef ExtendedUtxoData
  chainedTxos : List TxoRef
  network : Network

namespace IndexingContext

def resolveInput (ctx : IndexingContext) (ref : TxoRef) : Option Utxo := ctx.resolver.lookup ref

def toTxContext (ctx : IndexingContext) : TxContext := ⟨ctx.point, ctx.network, ctx.resolveInput⟩

def metadataOf (ctx : IndexingContext) (ref : TxoRef) : ExtendedUtxoData :=
  (ctx.utxoMetadata.lookup ref).getD IndexMap.empty

def attachUtxoMetadata (ctx : IndexingContext) (ref : TxoRef) (indexer : TransactionIndexer)
    (data : List Byte) : IndexingContext :=
  { ctx with utxoMetadata := ctx.utxoMetadata.insert ref ((ctx.metadataOf ref).insert indexer data) }

def updatePoint (ctx : IndexingContext) (point : Point) : IndexingContext := { ctx with point }

end IndexingContext

/-- Run an indexer's script on the task and the context. -/
def Script.run {α : Type} (script : Script α) (task : IndexingTask) (ctx : IndexingContext) :
    Except Error (α × IndexingTask × IndexingContext) :=
  match script with
  | .pure value => .ok (value, task, ctx)
  | .fail failure => .error failure
  | .get key next => match task.getRaw key.raw with
      | .ok value => (next value).run task ctx
      | .error failure => .error failure
  | .set key value next => match task.setRaw key.raw value with
      | .ok task => next.run task ctx
      | .error failure => .error failure
  | .delete key next => match task.deleteRaw key.raw with
      | .ok task => next.run task ctx
      | .error failure => .error failure
  | .mergeOp key op next => match task.mergeOpRaw key.raw op with
      | .ok task => next.run task ctx
      | .error failure => .error failure
  | .attach ref indexer data next => next.run task (ctx.attachUtxoMetadata ref indexer data)

/-- A table of a transaction indexer, `define_indexer_table!`. -/
structure IndexerTable (Key Value : Type) where
  indexer : TransactionIndexer
  table : Byte

namespace IndexerTable

variable {Key Value : Type}

def toTable (kv : IndexerTable Key Value) : Table Key Value :=
  indexerTable Key Value kv.indexer kv.table

def key [Encode Key] (kv : IndexerTable Key Value) (key : Key) : IndexerKey :=
  ⟨kv.toTable.encodeKey key, rfl⟩

def get [Encode Key] [Decode Value] (kv : IndexerTable Key Value) (key : Key) :
    Script (Option Value) :=
  .get (kv.key key) (fun value => match value with
    | some bytes => Script.lift
        ((liftDecoding (decodeAll bytes : Except DecodingError Value)).map some)
    | none => .pure none)

def set [Encode Key] [Encode Value] (kv : IndexerTable Key Value) (key : Key) (value : Value) :
    Script Unit :=
  .set (kv.key key) (encode value) (.pure ())

def delete [Encode Key] (kv : IndexerTable Key Value) (key : Key) : Script Unit :=
  .delete (kv.key key) (.pure ())

def increment [Encode Key] (kv : IndexerTable Key Value) (key : Key) (amount : U128) :
    Script Unit :=
  .mergeOp (kv.key key) (.increment amount) (.pure ())

end IndexerTable

end Symphony
