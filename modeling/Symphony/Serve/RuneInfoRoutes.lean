import Symphony.Serve.RuneIdentifier

/-! The rune routes that are not about an address (`serve/routes/runes`). -/

namespace Symphony

open BigEndian (Byte)
open Encdec

def RuneId.display (id : RuneId) : String :=
  toString id.block.toNat ++ ":" ++ toString id.tx.toNat

namespace Serve

/-- What the routes call of the ordinals crate: `Rune::from_str`, and how a name is printed, without
spacers and with them. -/
structure RuneText where
  fromStr : String → Option U128
  display : U128 → String
  spaced : U128 → U32 → String

def charFromU32 (code : U32) : Option Char :=
  if code.toNat.isValidChar then some (Char.ofNat code.toNat) else none

structure RuneInfoResponse where
  id : RuneId
  name : String
  spacedName : String
  symbol : Option Char
  divisibility : Byte
  etchingTx : Txid
  etchingHeight : U64
  terms : Option RuneTerms
  premine : U128
  deriving DecidableEq

def runeInfoResponse (text : RuneText) (id : RuneId) (info : RuneInfo) : RuneInfoResponse where
  id := id
  name := text.display info.name
  spacedName := text.spaced info.name info.spacers
  symbol := info.symbol.bind charFromU32
  divisibility := info.divisibility
  etchingTx := info.etchingTx
  etchingHeight := info.etchingHeight
  terms := info.terms
  premine := info.premine

def specifiedRune (text : RuneText) (reader : Reader) (rune : String) : Except ServeError RuneId :=
  match RuneIdentifier.parse text.fromStr rune with
  | .error panic => .error (.symphony panic)
  | .ok (.error failure) => .error failure
  | .ok (.ok identifier) => identifier.specified reader

def runeInfo (text : RuneText) (reader : Reader) (rune : String) :
    Except ServeError RuneInfoResponse :=
  match specifiedRune text reader rune with
  | .error failure => .error failure
  | .ok id => match reader.get RuneInfoByIdKV id with
      | .error failure => .error (.symphony failure)
      | .ok none => .error .notFound
      | .ok (some info) => .ok (runeInfoResponse text id info)

/-- `char::is_whitespace`, the property `White_Space`. -/
def isWhitespace (char : Char) : Bool :=
  let code := char.toNat
  9 ≤ code ∧ code ≤ 13 ∨ 8192 ≤ code ∧ code ≤ 8202 ∨
    code ∈ [32, 133, 160, 5760, 8232, 8233, 8239, 8287, 12288]

def trim (string : String) : String :=
  String.ofList (((string.toList.dropWhile isWhitespace).reverse.dropWhile isWhitespace).reverse)

/-- The order in which a hash set of strings is iterated. -/
structure StringOrder where
  iter : List String → List String
  perm : ∀ strings, (iter strings).Perm strings

/-- The strings of the body without blanks, each once. -/
def uniqueIds (runeIds : List String) : List String :=
  ((runeIds.map trim).filter (fun string => string ≠ "")).dedup

abbrev RuneInfos := HashMap String (Option RuneInfoResponse)

/-- The rune of a string in the body: none where the string can not be parsed or its name is unknown. -/
def batchRune (text : RuneText) (reader : Reader) (rune : String) :
    Except ServeError (Option RuneId) :=
  match RuneIdentifier.parse text.fromStr rune with
  | .error panic => .error (.symphony panic)
  | .ok (.error _) => .ok none
  | .ok (.ok (.id id)) => .ok (some id)
  | .ok (.ok (.name name)) => match reader.get RuneIdByNameKV name with
      | .error failure => .error (.symphony failure)
      | .ok found => .ok found

def collectInfos (text : RuneText) (reader : Reader) :
    List String → RuneInfos → Except ServeError RuneInfos
  | [], infos => .ok infos
  | rune :: runes, infos => match batchRune text reader rune with
      | .error failure => .error failure
      | .ok none => collectInfos text reader runes (infos.insert rune none)
      | .ok (some id) =>
          if id.display ∈ infos then collectInfos text reader runes infos
          else match reader.get RuneInfoByIdKV id with
            | .error failure => .error (.symphony failure)
            | .ok none => collectInfos text reader runes (infos.insert rune none)
            | .ok (some info) => collectInfos text reader runes
                (infos.insert (id.display) (some (runeInfoResponse text id info)))

def runesRuneInfoBatch (text : RuneText) (order : StringOrder) (reader : Reader)
    (runeIds : List String) : Except ServeError RuneInfos :=
  collectInfos text reader (order.iter (uniqueIds runeIds)) ∅

def runeBalanceAtUtxo (text : RuneText) (reader : Reader) (rune : String) (ref : TxoRef) :
    Except ServeError U128 :=
  match specifiedRune text reader rune with
  | .error failure => .error failure
  | .ok id => match reader.get UtxoByTxoRefKV ref with
      | .error failure => .error (.symphony failure)
      | .ok none => .error .notFound
      | .ok (some utxo) => match utxo.extended.get? .runes with
          | none => .ok 0
          | some raw => match (decodeAll raw : Except DecodingError UtxoRunes) with
              | .error failure => .error (.decoding failure)
              | .ok runes => .ok ((firstAmount id runes).getD 0)

end Serve

end Symphony
