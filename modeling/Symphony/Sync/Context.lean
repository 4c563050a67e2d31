import Symphony.Sync.Indexer

/-! Input resolution and the UTXO set (`core/utxo_by_txo_ref.rs`, `worker/context.rs`). -/

namespace Symphony

open Encdec

/-- The entries of the UTXO cache that have not been evicted. -/
abbrev UtxoCache := HashMap TxoRef Utxo

structure ResolvedUtxos where
  resolver : HashMap TxoRef Utxo
  chainedTxos : List TxoRef

/-- Take the cached inputs out of the cache; the others have to be fetched. -/
def takeCached (cache : UtxoCache) (resolver : HashMap TxoRef Utxo) (toFetch : List TxoRef) :
    List TxoRef → UtxoCache × HashMap TxoRef Utxo × List TxoRef
  | [] => (cache, resolver, toFetch)
  | ref :: refs => match cache.lookup ref with
      | some utxo => takeCached (cache.erase ref) (resolver.insert ref utxo) toFetch refs
      | none => takeCached cache resolver (toFetch ++ [ref]) refs

/-- The outputs the transactions of a block spend, without those of a leading coinbase. -/
def inputRefs (txs : BlockTxs) : List TxoRef :=
  let skip := if (txs.head?.map (fun tx => tx.tx.isCoinbase)).getD false then 1 else 0
  ((txs.drop skip).flatMap (fun tx => tx.tx.input.map TxIn.previousOutput)).dedup

def collectFetched (resolver : HashMap TxoRef Utxo) :
    List (TxoRef × Option Utxo) → Except Error (HashMap TxoRef Utxo)
  | [] => .ok resolver
  | (ref, some utxo) :: rest => collectFetched (resolver.insert ref utxo) rest
  | (_, none) :: _ => .error (.panicked "missing non chained utxo")

/-- `UtxoByTxoRefKV::resolve_inputs`; the cache changes even when it fails. -/
def resolveInputs (task : IndexingTask) (txs : BlockTxs) (cache : Option UtxoCache) :
    Option UtxoCache × Except Error ResolvedUtxos :=
  let txIds := txs.map TransactionWithId.txId
  let refs := inputRefs txs
  let chainedTxos := refs.filter (fun ref => ref.txHash ∈ txIds)
  let required := refs.filter (fun ref => ref.txHash ∉ txIds)
  let (taken, resolver, toFetch) := takeCached (cache.getD ∅) ∅ [] required
  (cache.map (fun _ => taken), do
    let fetched ← task.multiGet UtxoByTxoRefKV toFetch
    return ⟨← collectFetched resolver fetched, chainedTxos⟩)

namespace IndexingContext

def new (task : IndexingTask) (txs : BlockTxs) (point : Point) (network : Network)
    (cache : Option UtxoCache) : Option UtxoCache × Except Error IndexingContext :=
  let (cache, resolved) := resolveInputs task txs cache
  (cache, resolved.map (fun utxos => ⟨point, utxos.resolver, ∅, utxos.chainedTxos, network⟩))

def consumeInputs (ctx : IndexingContext) (task : IndexingTask) :
    List TxIn → Except Error (IndexingContext × IndexingTask)
  | [] => .ok (ctx, task)
  | input :: inputs =>
      let ref := input.previousOutput
      let ctx := if task.mempool then ctx else { ctx with resolver := ctx.resolver.erase ref }
      match task.delete UtxoByTxoRefKV ref with
      | .error failure => .error failure
      | .ok task => ctx.consumeInputs task inputs

def produced (ctx : IndexingContext) (output : TxOut) (ref : TxoRef) : Utxo where
  satoshis := output.value
  script := output.scriptPubkey
  height := ctx.point.height
  extended := ctx.metadataOf ref

/-- Outputs spent later in the block go to the resolver, the others to storage. -/
def produceOutputs (ctx : IndexingContext) (task : IndexingTask) (cache : Option UtxoCache)
    (tx : TransactionWithId) :
    List (TxOut × Nat) → Option UtxoCache × Except Error (IndexingContext × IndexingTask)
  | [] => (cache, .ok (ctx, task))
  | (output, index) :: outputs =>
      if isOpReturn output.scriptPubkey then ctx.produceOutputs task cache tx outputs
      else
        let ref := tx.txoRef index
        let utxo := ctx.produced output ref
        let ctx := { ctx with utxoMetadata := ctx.utxoMetadata.erase ref }
        if ref ∈ ctx.chainedTxos then
          IndexingContext.produceOutputs { ctx with resolver := ctx.resolver.insert ref utxo }
            task cache tx outputs
        else
          let cache := if task.mempool then cache else cache.map (fun c => c.insert ref utxo)
          match task.set UtxoByTxoRefKV ref utxo with
          | .error failure => (cache, .error failure)
          | .ok task => ctx.produceOutputs task cache tx outputs

def updateUtxoSet (ctx : IndexingContext) (task : IndexingTask) (tx : TransactionWithId)
    (cache : Option UtxoCache) :
    Option UtxoCache × Except Error (IndexingContext × IndexingTask) :=
  match ctx.consumeInputs task tx.tx.input with
  | .error failure => (cache, .error failure)
  | .ok (ctx, task) => ctx.produceOutputs task cache tx tx.tx.output.zipIdx

end IndexingContext

end Symphony
