import Symphony.Sync.Charms
import Symphony.Sync.Runes
import Symphony.Sync.TxCountByAddress
import Symphony.Sync.UtxosByAddress

/-! The transaction indexers that a configuration enables (`indexers/custom/mod.rs`).

Each works on tables under its own prefix and files the metadata of outputs under its own name. -/

namespace Symphony

open Encdec

/-- An entry of `transaction_indexers`, with the libraries its indexer is built on. -/
inductive TransactionIndexerFactory where
  | txCountByAddress (order : SetOrder)
  | runes (indexer : RunesIndexer)
  | utxosByAddress
  | charms (indexer : CharmsIndexer)

namespace TransactionIndexerFactory

def kind : TransactionIndexerFactory → TransactionIndexer
  | .txCountByAddress _ => .txCountByAddress
  | .runes _ => .runes
  | .utxosByAddress => .utxosByAddress
  | .charms _ => .charms

def createIndexer : TransactionIndexerFactory → Indexer
  | .txCountByAddress order => TxCountByAddressIndexer.processTx order
  | .runes indexer => indexer.processTx
  | .utxosByAddress => UtxosByAddressIndexer.processTx
  | .charms indexer => indexer.processTx

end TransactionIndexerFactory

def createIndexers (factories : List TransactionIndexerFactory) : List Indexer :=
  factories.map TransactionIndexerFactory.createIndexer

theorem TransactionIndexer.Owns.unique {who other : TransactionIndexer} {key : RawKey}
    (owns : who.Owns key) (owns' : other.Owns key) : who = other := by
  have lengths : ([customIndexerTag] ++ encode (BitVec.ofNat 16 who.kind.val)).length =
      ([customIndexerTag] ++ encode (BitVec.ofNat 16 other.kind.val)).length := by
    cases who <;> cases other <;> rfl
  rcases List.prefix_or_prefix_of_prefix owns owns' with inside | inside
  · have same := inside.eq_of_length lengths
    cases who <;> cases other <;> first | rfl | exact absurd same (by decide)
  · have same := inside.eq_of_length lengths.symm
    cases who <;> cases other <;> first | rfl | exact absurd same (by decide)

end Symphony
