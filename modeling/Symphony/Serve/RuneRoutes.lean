import Symphony.Serve.StartReader
import Symphony.Sync.Runes

/-! The rune routes of an address (`serve/routes/addresses`).

Each works on the reader of its request and the script of its address. Numbers, ids and hashes of a
response are kept as values; the source prints them. -/

namespace Symphony

open BigEndian (Byte)
open Encdec

def RuneId.precedes (first second : RuneId) : Prop :=
  first.block < second.block ∨ first.block = second.block ∧ first.tx ≤ second.tx

instance : DecidableRel RuneId.precedes :=
  fun _ _ => inferInstanceAs (Decidable (_ ∨ _))

namespace Serve

/-- `{:?}` of the keys that a route can miss. -/
def debugTxoRef (ref : TxoRef) : String :=
  "TxoRef \x7b tx_hash: [" ++ String.intercalate ", " (ref.txHash.toList.map (fun byte => toString byte.val)) ++
    "], txo_index: " ++ toString ref.txoIndex.toNat ++ " \x7d"

def debugRuneId (id : RuneId) : String :=
  "RuneId \x7b block: " ++ toString id.block.toNat ++ ", tx: " ++ toString id.tx.toNat ++ " \x7d"

/-- `get_expected`, with `{:?}` of the key. -/
def getExpectedAt {Key Value : Type} [Encode Key] [Decode Value] (reader : Reader)
    (table : Table Key Value) (debug : Key → String) (key : Key) : Except ServeError Value :=
  match reader.get table key with
  | .ok (some value) => .ok value
  | .ok none => .error (.unexpectedMissingData (debug key))
  | .error failure => .error (.symphony failure)

/-- A rune in the path of a request, by id or by name. -/
inductive RuneIdentifier where
  | id (id : RuneId)
  | name (name : U128)
  deriving DecidableEq

def RuneIdentifier.specified (reader : Reader) : RuneIdentifier → Except ServeError RuneId
  | .id rune => .ok rune
  | .name given => match reader.get RuneIdByNameKV given with
      | .ok (some rune) => .ok rune
      | .ok none => .error .notFound
      | .error failure => .error (.symphony failure)

structure RuneUtxo where
  txHash : Txid
  outputIndex : U32
  height : U64
  satoshis : U64
  runes : UtxoRunes
  deriving DecidableEq

/-- A balance, with the entry of the rune if it was asked for. -/
structure RuneBalanceWithInfo where
  id : RuneId
  amount : U128
  info : Option RuneInfo
  deriving DecidableEq

structure RuneEdict where
  runeId : RuneId
  amount : U128
  output : Option U32
  blockHeight : U64
  deriving DecidableEq

abbrev RuneEntry := Except Error (RuneUtxosByScriptKey × Unit)

def runeOutput (reader : Reader) (entry : RuneEntry) :
    Except ServeError (RuneUtxosByScriptKey × Utxo × UtxoRunes) :=
  match entry with
  | .error failure => .error (.symphony failure)
  | .ok (key, _) => match getExpectedAt reader UtxoByTxoRefKV debugTxoRef key.txoRef with
      | .error failure => .error failure
      | .ok utxo => match utxo.extended.get? .runes with
          | none => .error (.internal "missing expected data")
          | some raw => match (decodeAll raw : Except DecodingError UtxoRunes) with
              | .error failure => .error (.decoding failure)
              | .ok runes => .ok (key, utxo, runes)

def collectUtxos (reader : Reader) (wanted : UtxoRunes → Bool) :
    List RuneEntry → Except ServeError (List RuneUtxo)
  | [] => .ok []
  | entry :: entries => match runeOutput reader entry with
      | .error failure => .error failure
      | .ok (key, utxo, runes) => match collectUtxos reader wanted entries with
          | .error failure => .error failure
          | .ok utxos => .ok (if wanted runes
              then ⟨key.txoRef.txHash, key.txoRef.txoIndex, key.producedHeight, utxo.satoshis, runes⟩ ::
                utxos
              else utxos)

def utxosScan (reader : Reader) (script : ScriptPubKey) : List RuneEntry :=
  reader.iterKvs RuneUtxosByScriptKV (RuneUtxosByScriptKV.encodeRange
    (some (encode (script, (0 : U64))))
    (some (encode (script, RunesIndexer.heightAfter u64Max 1)))) false

def addressesAllRuneUtxos (reader : Reader) (script : ScriptPubKey) :
    Except ServeError (List RuneUtxo) :=
  collectUtxos reader (fun _ => true) (utxosScan reader script)

def addressesSpecificRuneUtxos (reader : Reader) (script : ScriptPubKey) (rune : RuneIdentifier) :
    Except ServeError (List RuneUtxo) :=
  match rune.specified reader with
  | .error failure => .error failure
  | .ok id => collectUtxos reader (fun runes => (runes.map Prod.fst).contains id)
      (utxosScan reader script)

def balancesScan (reader : Reader) (script : ScriptPubKey) : List RuneEntry :=
  reader.iterKvs RuneUtxosByScriptKV (RuneUtxosByScriptKV.encodeRange
    (some (encode (script, (0 : U64)))) (some (encode (script, u64Max)))) false

def sumBalances (build : Build) (reader : Reader) :
    List RuneEntry → RuneBalances → Except ServeError RuneBalances
  | [], balances => .ok balances
  | entry :: entries, balances => match runeOutput reader entry with
      | .error failure => .error failure
      | .ok (_, _, runes) => match balances.creditAll build runes with
          | .error failure => .error (.symphony failure)
          | .ok balances => sumBalances build reader entries balances

def withInfo (reader : Reader) (includeInfo : Bool) :
    UtxoRunes → Except ServeError (List RuneBalanceWithInfo)
  | [] => .ok []
  | (id, amount) :: balances =>
      match (if includeInfo then
          (getExpectedAt reader RuneInfoByIdKV debugRuneId id).map some else .ok none) with
      | .error failure => .error failure
      | .ok info => match withInfo reader includeInfo balances with
          | .error failure => .error failure
          | .ok processed => .ok (⟨id, amount, info⟩ :: processed)

def addressesAllRuneBalances (build : Build) (reader : Reader) (script : ScriptPubKey)
    (includeInfo : Bool) : Except ServeError (List RuneBalanceWithInfo) :=
  match sumBalances build reader (balancesScan reader script) ∅ with
  | .error failure => .error failure
  | .ok balances => withInfo reader includeInfo
      ((balances.entries.map (fun entry => (entry.1, entry.2))).insertionSort
        (fun first second => RuneId.precedes first.1 second.1))

/-- The amount of the first entry of a rune; the loop breaks there. -/
def firstAmount (id : RuneId) (runes : UtxoRunes) : Option U128 :=
  (runes.find? (fun rune => rune.1 = id)).map Prod.snd

def sumBalance (build : Build) (reader : Reader) (id : RuneId) :
    List RuneEntry → U128 → Except ServeError U128
  | [], balance => .ok balance
  | entry :: entries, balance => match runeOutput reader entry with
      | .error failure => .error failure
      | .ok (_, _, runes) => match firstAmount id runes with
          | none => sumBalance build reader id entries balance
          | some quantity => match build.add balance quantity with
              | .error failure => .error (.symphony failure)
              | .ok balance => sumBalance build reader id entries balance

def addressesSpecificRuneBalance (build : Build) (reader : Reader) (script : ScriptPubKey)
    (rune : RuneIdentifier) : Except ServeError U128 :=
  match rune.specified reader with
  | .error failure => .error failure
  | .ok id => sumBalance build reader id (balancesScan reader script) 0

def runesByTxScan (reader : Reader) (txHash : Txid) :
    List (Except Error (RuneActivityByTxKey × RuneBalanceChange)) :=
  reader.iterKvs RuneActivityByTxKV (RuneActivityByTxKV.encodeRange
    (some (encode (⟨txHash, 0⟩ : RuneActivityByTxKey)))
    (some (encode (⟨txHash, BitVec.allOnes 16⟩ : RuneActivityByTxKey)))) false

def collectEdicts (script : ScriptPubKey) :
    List (Except Error (RuneActivityByTxKey × RuneBalanceChange)) → Except ServeError (List RuneEdict)
  | [] => .ok []
  | .error failure :: _ => .error (.symphony failure)
  | .ok (_, change) :: entries => match collectEdicts script entries with
      | .error failure => .error failure
      | .ok edicts => .ok (if change.script ≠ script then edicts
          else ⟨change.runeId, change.received, change.outputIndex, change.runeId.block⟩ :: edicts)

def addressesRunesByTx (reader : Reader) (script : ScriptPubKey) (txHash : Txid) :
    Except ServeError (List RuneEdict) :=
  collectEdicts script (runesByTxScan reader txHash)

end Serve

end Symphony
