import Mathlib.Logic.Equiv.Defs
import Symphony.Storage.Table

/-! The tables of the transaction indexers (`sync/stages/index/indexers/custom`). -/

namespace Symphony

open BigEndian (Byte)
open Encdec

/-- What the `Encode` and `Decode` derive macros make of a struct: its fields in order. -/
@[reducible] def Encdec.Codec.ofFields {α Fields : Type} [Codec Fields] (fields : α ≃ Fields) : Codec α where
  encode value := encode (fields value)
  decode bytes := (decode bytes : DecodingResult Fields).map (Prod.map fields.symm id)
  Fits value := Fits (fields value)
  decode_encode value rest fits := by
    simp only [decode_encode (fields value) rest fits, Except.map, Prod.map, Equiv.symm_apply_apply, id]

/-- A rune is named by the block and the transaction that etched it. -/
structure RuneId where
  block : U64
  tx : U32
  deriving DecidableEq

def RuneId.fields : RuneId ≃ U64 × U32 where
  toFun id := (id.block, id.tx)
  invFun pair := ⟨pair.1, pair.2⟩
  left_inv _ := rfl
  right_inv _ := rfl

instance : Codec RuneId := Codec.ofFields RuneId.fields

structure RuneTerms where
  amount : Option U128
  cap : Option U128
  startHeight : Option U64
  endHeight : Option U64
  deriving DecidableEq

def RuneTerms.fields : RuneTerms ≃ Option U128 × Option U128 × Option U64 × Option U64 where
  toFun terms := (terms.amount, terms.cap, terms.startHeight, terms.endHeight)
  invFun fields := ⟨fields.1, fields.2.1, fields.2.2.1, fields.2.2.2⟩
  left_inv _ := rfl
  right_inv _ := rfl

instance : Codec RuneTerms := Codec.ofFields RuneTerms.fields

structure RuneInfo where
  name : U128
  terms : Option RuneTerms
  symbol : Option U32
  divisibility : Byte
  etchingHeight : U64
  etchingTx : Txid
  premine : U128
  spacers : U32
  deriving DecidableEq

def RuneInfo.fields : RuneInfo ≃
    U128 × Option RuneTerms × Option U32 × Byte × U64 × Txid × U128 × U32 where
  toFun info := (info.name, info.terms, info.symbol, info.divisibility, info.etchingHeight,
    info.etchingTx, info.premine, info.spacers)
  invFun fields := ⟨fields.1, fields.2.1, fields.2.2.1, fields.2.2.2.1, fields.2.2.2.2.1,
    fields.2.2.2.2.2.1, fields.2.2.2.2.2.2.1, fields.2.2.2.2.2.2.2⟩
  left_inv _ := rfl
  right_inv _ := rfl

instance : Codec RuneInfo := Codec.ofFields RuneInfo.fields

/-- The sequence number keeps the keys of one transaction unique and ordered. -/
structure RuneActivityByTxKey where
  txHash : Txid
  seq : U16
  deriving DecidableEq

def RuneActivityByTxKey.fields : RuneActivityByTxKey ≃ Txid × U16 where
  toFun key := (key.txHash, key.seq)
  invFun pair := ⟨pair.1, pair.2⟩
  left_inv _ := rfl
  right_inv _ := rfl

instance : Codec RuneActivityByTxKey := Codec.ofFields RuneActivityByTxKey.fields

structure RuneBalanceChange where
  runeId : RuneId
  script : ScriptPubKey
  sent : U128
  received : U128
  outputIndex : Option U32
  deriving DecidableEq

def RuneBalanceChange.fields : RuneBalanceChange ≃
    RuneId × ScriptPubKey × U128 × U128 × Option U32 where
  toFun change := (change.runeId, change.script, change.sent, change.received, change.outputIndex)
  invFun fields := ⟨fields.1, fields.2.1, fields.2.2.1, fields.2.2.2.1, fields.2.2.2.2⟩
  left_inv _ := rfl
  right_inv _ := rfl

instance : Codec RuneBalanceChange := Codec.ofFields RuneBalanceChange.fields

/-- The outputs of one owner, a script or the bytes of a charm app, by height. -/
structure OwnedUtxoKey where
  owner : List Byte
  producedHeight : U64
  txoRef : TxoRef
  deriving DecidableEq

def OwnedUtxoKey.fields : OwnedUtxoKey ≃ List Byte × U64 × TxoRef where
  toFun key := (key.owner, key.producedHeight, key.txoRef)
  invFun fields := ⟨fields.1, fields.2.1, fields.2.2⟩
  left_inv _ := rfl
  right_inv _ := rfl

instance : Codec OwnedUtxoKey := Codec.ofFields OwnedUtxoKey.fields

abbrev RuneUtxosByScriptKey := OwnedUtxoKey
abbrev UtxosByAddressKey := OwnedUtxoKey
abbrev CharmsUtxosByScriptKey := OwnedUtxoKey
abbrev CharmsUtxosByAppKey := OwnedUtxoKey

/-- The runes and the charms the indexers attach to an output. -/
abbrev UtxoRunes := List (RuneId × U128)
abbrev UtxoCharms := List (List Byte × List Byte)

def TxCountByAddressKV : Table ScriptPubKey U64 := indexerTable _ _ .txCountByAddress 0
def RuneInfoByIdKV : Table RuneId RuneInfo := indexerTable _ _ .runes 0
def RuneIdByNameKV : Table U128 RuneId := indexerTable _ _ .runes 1
def RuneMintsByIdKV : Table RuneId U128 := indexerTable _ _ .runes 2
def RuneUtxosByScriptKV : Table RuneUtxosByScriptKey Unit := indexerTable _ _ .runes 3
def RuneActivityByTxKV : Table RuneActivityByTxKey RuneBalanceChange := indexerTable _ _ .runes 4
def UtxosByAddressKV : Table UtxosByAddressKey Unit := indexerTable _ _ .utxosByAddress 0
def CharmsUtxosByScriptKV : Table CharmsUtxosByScriptKey Unit := indexerTable _ _ .charms 0
def CharmsUtxosByAppKV : Table CharmsUtxosByAppKey Unit := indexerTable _ _ .charms 1

end Symphony
