import Symphony.Sync.OwnedIndex

/-! The outputs of a script (`custom/utxos_by_address.rs`). -/

namespace Symphony

open Encdec

namespace UtxosByAddressIndexer

def table : OwnedTable := ⟨.utxosByAddress, 0⟩

def consumed (ctx : TxContext) : List TxIn → Script Unit
  | [] => .pure ()
  | input :: inputs => match ctx.resolveInput input.previousOutput with
      | none => .fail (.panicked "called `Option::unwrap()` on a `None` value")
      | some utxo => do
          table.delete ⟨utxo.script, utxo.height, input.previousOutput⟩
          consumed ctx inputs

def produced (tx : TransactionWithId) (height : BlockHeight) : List (TxOut × Nat) → Script Unit
  | [] => .pure ()
  | (output, index) :: outputs => do
      table.set ⟨output.scriptPubkey, height, tx.txoRef index⟩ ()
      produced tx height outputs

def processTx : Indexer := fun tx _ ctx =>
  (if tx.tx.isCoinbase then .pure () else consumed ctx tx.tx.input).bind
    (fun _ => produced tx ctx.point.height tx.tx.output.zipIdx)

end UtxosByAddressIndexer

end Symphony
