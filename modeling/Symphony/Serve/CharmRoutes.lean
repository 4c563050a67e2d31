import Symphony.Serve.AddressRoutes
import Symphony.Serve.RuneIdentifier
import Symphony.Sync.Charms

/-! The charm routes (`serve/routes/charms`), and those for the charms of an address.

The text in the path of a request names an app or an output, the script is that of its address. -/

namespace Symphony.Serve

open BigEndian (Byte)
open Encdec

/-- The bytes of a text in UTF-8. -/
def Utf8.encode (text : String) : List Byte := text.toUTF8.data.toList.map UInt8.toFin

/-- The text that the bytes encode, if they encode one. -/
def Utf8.decode (bytes : List Byte) : Option String :=
  String.fromUTF8? ⟨(bytes.map UInt8.ofFin).toArray⟩

/-- What the routes call: `charms_data` on the bytes of a charm, `serde_json` on what they decode to,
and `{:?}` of a scan that fails. -/
structure CharmsLibrary (Value : Type) where
  Data : Type
  tryFromBytes : List Byte → Except String Data
  toValue : Data → Except String Value
  debugError : Error → String

structure CharmAndValue (Value : Type) where
  app : String
  value : Value
  deriving DecidableEq

structure CharmUtxo (Value : Type) where
  txHash : Txid
  outputIndex : U32
  height : U64
  satoshis : U64
  charms : List (CharmAndValue Value)
  deriving DecidableEq

def parseCharmPath (pathParam : String) : String :=
  String.ofList (pathParam.toList.map (fun char => if char = '-' then '/' else char))

def parseUtxoRef (fromStr : String → Option Txid) (text : String) : Except ServeError TxoRef :=
  match text.toList.splitOn ':' with
  | [txid, vout] => match fromStr (String.ofList txid) with
      | none => .error (.malformedRequest "invalid txid in utxo reference")
      | some txHash => match parseUInt 32 vout with
          | .error _ => .error (.malformedRequest "invalid output index in utxo reference")
          | .ok txoIndex => .ok ⟨txHash, txoIndex⟩
  | _ => .error (.malformedRequest "invalid utxo reference")

variable {Value : Type} (library : CharmsLibrary Value)

def charmAndValue (charm : List Byte × List Byte) : Except ServeError (CharmAndValue Value) :=
  match Utf8.decode charm.1 with
  | none => .error (.internal "invalid charm app encoding")
  | some app => match library.tryFromBytes charm.2 with
      | .error failure => .error (.internal ("failed to decode charm data: " ++ failure))
      | .ok data => match library.toValue data with
          | .error failure => .error (.internal ("failed to serialize charm value: " ++ failure))
          | .ok value => .ok ⟨app, value⟩

/-- The first charm that fails decides. -/
def showCharms : UtxoCharms → Except ServeError (List (CharmAndValue Value))
  | [] => .ok []
  | charm :: charms => match charmAndValue library charm with
      | .error failure => .error failure
      | .ok shown => match showCharms charms with
          | .error failure => .error failure
          | .ok rest => .ok (shown :: rest)

def decodeUtxoCharms (raw : List Byte) : Except ServeError (List (CharmAndValue Value)) :=
  match (decodeAll raw : Except DecodingError UtxoCharms) with
  | .error failure => .error (.decoding failure)
  | .ok charms => showCharms library charms

def charmUtxo (reader : Reader) (missing : String) (key : OwnedUtxoKey) :
    Except ServeError (CharmUtxo Value) :=
  match getExpectedAt reader UtxoByTxoRefKV debugTxoRef key.txoRef with
  | .error failure => .error failure
  | .ok utxo => match utxo.extended.get? .charms with
      | none => .error (.internal missing)
      | some raw => match decodeUtxoCharms library raw with
          | .error failure => .error failure
          | .ok charms => .ok ⟨key.txoRef.txHash, key.txoRef.txoIndex, key.producedHeight,
              utxo.satoshis, charms⟩

def collectCharmUtxos (reader : Reader) (wanted : List (CharmAndValue Value) → Bool) :
    List (Except Error (CharmsUtxosByScriptKey × Unit)) → Except ServeError (List (CharmUtxo Value))
  | [] => .ok []
  | .error failure :: _ => .error (.symphony failure)
  | .ok (key, _) :: entries =>
      match charmUtxo library reader "missing expected charms data" key with
      | .error failure => .error failure
      | .ok utxo => match collectCharmUtxos reader wanted entries with
          | .error failure => .error failure
          | .ok utxos => .ok (if wanted utxo.charms then utxo :: utxos else utxos)

def ofApp (app : String) (charms : List (CharmAndValue Value)) : Bool :=
  charms.any (fun charm => charm.app = app)

def charmsScan (reader : Reader) (script : ScriptPubKey) :
    List (Except Error (CharmsUtxosByScriptKey × Unit)) :=
  reader.iterKvs CharmsUtxosByScriptKV (ownerRange CharmsUtxosByScriptKV script) false

def addressesAllCharmUtxos (reader : Reader) (script : ScriptPubKey) :
    Except ServeError (List (CharmUtxo Value)) :=
  collectCharmUtxos library reader (fun _ => true) (charmsScan reader script)

def addressesSpecificCharmUtxos (reader : Reader) (script : ScriptPubKey) (charm : String) :
    Except ServeError (List (CharmUtxo Value)) :=
  collectCharmUtxos library reader (ofApp (parseCharmPath charm)) (charmsScan reader script)

def charmLatest (reader : Reader) (charm : String) : Except ServeError (CharmUtxo Value) :=
  match (reader.iterKvs CharmsUtxosByAppKV
      (ownerRange CharmsUtxosByAppKV (Utf8.encode (parseCharmPath charm))) true).head? with
  | none => .error .notFound
  | some (.error failure) => .error (.internal (library.debugError failure))
  | some (.ok (key, _)) => charmUtxo library reader "missing charms data" key

def charmValueAtUtxo (reader : Reader) (charm : String) (ref : TxoRef) :
    Except ServeError (CharmAndValue Value) :=
  match reader.get UtxoByTxoRefKV ref with
  | .error failure => .error (.symphony failure)
  | .ok none => .error .notFound
  | .ok (some utxo) => match utxo.extended.get? .charms with
      | none => .error .notFound
      | some raw => match decodeUtxoCharms library raw with
          | .error failure => .error failure
          | .ok charms =>
              match charms.find? (fun shown => shown.app = parseCharmPath charm) with
              | none => .error .notFound
              | some shown => .ok shown

end Symphony.Serve
