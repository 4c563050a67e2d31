import Symphony.Serve.RuneRoutes

/-! The routes for the outputs and the transactions of an address (`serve/routes/addresses`), and
the tip (`serve/mod.rs`).

As with the rune routes, each works on the reader of its request and the script of its address. -/

namespace Symphony.Serve

open Encdec

structure AddressUtxo where
  txHash : Txid
  outputIndex : U32
  height : U64
  satoshis : U64
  deriving DecidableEq

/-- The keys of an owner in a table, of all heights but the last. -/
def ownerRange (table : Table OwnedUtxoKey Unit) (owner : List BigEndian.Byte) : RawKey × RawKey :=
  table.encodeRange (some (encode (owner, (0 : U64)))) (some (encode (owner, u64Max)))

def collectAddressUtxos (reader : Reader) :
    List (Except Error (UtxosByAddressKey × Unit)) → Except ServeError (List AddressUtxo)
  | [] => .ok []
  | .error failure :: _ => .error (.symphony failure)
  | .ok (key, _) :: entries => match getExpectedAt reader UtxoByTxoRefKV debugTxoRef key.txoRef with
      | .error failure => .error failure
      | .ok utxo => match collectAddressUtxos reader entries with
          | .error failure => .error failure
          | .ok utxos => .ok (⟨key.txoRef.txHash, key.txoRef.txoIndex, key.producedHeight, utxo.satoshis⟩ ::
              utxos)

/-- The range ends at `to_height.saturating_add(1)`, which is `u64::MAX` again. -/
def addressesUtxosByAddress (reader : Reader) (script : ScriptPubKey) :
    Except ServeError (List AddressUtxo) :=
  collectAddressUtxos reader (reader.iterKvs UtxosByAddressKV (UtxosByAddressKV.encodeRange
    (some (encode (script, (0 : U64))))
    (some (encode (script, RunesIndexer.heightAfter u64Max 1)))) false)

def addressesTxCountByAddress (reader : Reader) (script : ScriptPubKey) : Except ServeError U64 :=
  match reader.get TxCountByAddressKV script with
  | .ok count => .ok (count.getD 0)
  | .error failure => .error (.symphony failure)

def tip (storage : StorageHandler) : Option (BlockHeight × BlockHash) :=
  match ((storage.reader Timestamp.latest).iterKvs HashByHeightKV (HashByHeightKV.encodeRange none none)
      true).head? with
  | some (.ok entry) => some entry
  | _ => none

end Symphony.Serve
