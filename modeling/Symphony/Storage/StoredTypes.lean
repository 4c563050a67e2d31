import Symphony.Storage.MergeOperation
import Symphony.Sync.CustomTables

/-! The storage format: the types built from the codecs of `storage/encdec` and by the derive
macros of `macros/src/lib.rs`, and that decoding undoes encoding on all of them. -/

namespace Symphony

open BigEndian (Byte)
open Encdec

def decodeVariant {count : Nat} (Payload : Fin count → Type) [∀ kind, Decode (Payload kind)]
    (bytes : List Byte) : DecodingResult (Σ kind, Payload kind) :=
  match bytes with
  | [] => malformedInput "enum insufficient bytes" []
  | kind :: bytes =>
      if known : kind.val < count then
        (decode bytes : DecodingResult (Payload ⟨kind.val, known⟩)).map (Prod.map (Sigma.mk _) id)
      else .error (.invalidEnumKind bytes)

/-- The stored types, with the values whose lengths fit in a `usize` of 64 bits. -/
inductive Stored : (α : Type) → [Encode α] → [Decode α] → (α → Prop) → Prop
  | u8 : Stored Byte (fun _ => True)
  | u16 : Stored U16 (fun _ => True)
  | u32 : Stored U32 (fun _ => True)
  /-- `u64` and `usize`. -/
  | u64 : Stored U64 (fun _ => True)
  | u128 : Stored U128 (fun _ => True)
  | bool : Stored Bool (fun _ => True)
  | unit : Stored Unit (fun _ => True)
  | array (n : Nat) : Stored (List.Vector Byte n) (fun _ => True)
  | mergeOperation : Stored MergeOperation (fun _ => True)
  | vec {α : Type} [Encode α] [Decode α] {fits : α → Prop} (item : Stored α fits) :
      Stored (List α) (fun items => items.length < 2 ^ 64 ∧ ∀ item ∈ items, fits item)
  | indexMap {α β : Type} [DecidableEq α] [Encode α] [Decode α] [Encode β] [Decode β]
      {fitsKey : α → Prop} {fitsValue : β → Prop} (key : Stored α fitsKey)
      (value : Stored β fitsValue) :
      Stored (IndexMap α β) (fun map => map.entries.length < 2 ^ 64 ∧
        ∀ entry ∈ map.entries, fitsKey entry.1 ∧ fitsValue entry.2)
  | option {α : Type} [Encode α] [Decode α] {fits : α → Prop} (inner : Stored α fits) :
      Stored (Option α) (fun value => ∀ inner, value = some inner → fits inner)
  | pair {α β : Type} [Encode α] [Decode α] [Encode β] [Decode β] {fitsFirst : α → Prop}
      {fitsSecond : β → Prop} (first : Stored α fitsFirst) (second : Stored β fitsSecond) :
      Stored (α × β) (fun pair => fitsFirst pair.1 ∧ fitsSecond pair.2)
  /-- A struct is the sequence of its fields. -/
  | struct {α Fields : Type} [Encode α] [Decode α] [Encode Fields] [Decode Fields]
      {fits : α → Prop} {fitsFields : Fields → Prop} (fields : α ≃ Fields)
      (stored : Stored Fields fitsFields) (within : ∀ value, fits value → fitsFields (fields value))
      (encodes : ∀ value : α, encode value = encode (fields value))
      (decodes : ∀ bytes, (decode bytes : DecodingResult α) =
        (decode bytes : DecodingResult Fields).map (Prod.map fields.symm id)) :
      Stored α fits
  /-- An enum is the index of its variant and then the fields of the variant. -/
  | enum {α : Type} {count : Nat} (small : count ≤ 256) {Payload : Fin count → Type} [Encode α]
      [Decode α] [∀ kind, Encode (Payload kind)] [∀ kind, Decode (Payload kind)] {fits : α → Prop}
      {fitsPayload : ∀ kind, Payload kind → Prop} (variants : α ≃ Σ kind, Payload kind)
      (stored : ∀ kind, Stored (Payload kind) (fitsPayload kind))
      (within : ∀ value, fits value → fitsPayload _ (variants value).2)
      (encodes : ∀ value : α, encode value =
        Fin.castLE small (variants value).1 :: encode (variants value).2)
      (decodes : ∀ bytes, (decode bytes : DecodingResult α) =
        (decodeVariant Payload bytes).map (Prod.map variants.symm id)) :
      Stored α fits

namespace Stored

theorem decode_encode {α : Type} [Encode α] [Decode α] {fits : α → Prop} (stored : Stored α fits) :
    ∀ (value : α) (rest : List Byte), fits value →
      decode (encode value ++ rest) = .ok (value, rest) := by
  induction stored with
  | u8 => exact Codec.decode_encode
  | u16 => exact Codec.decode_encode
  | u32 => exact Codec.decode_encode
  | u64 => exact Codec.decode_encode
  | u128 => exact Codec.decode_encode
  | bool => exact Codec.decode_encode
  | unit => exact Codec.decode_encode
  | array n => exact Codec.decode_encode
  | mergeOperation => exact Codec.decode_encode
  | @vec α _ _ fits item ih =>
      let codec : Codec α := ⟨fits, ih⟩
      exact (inferInstance : Codec (List α)).decode_encode
  | @indexMap α β _ _ _ _ _ fitsKey fitsValue key value ihKey ihValue =>
      let codecKey : Codec α := ⟨fitsKey, ihKey⟩
      let codecValue : Codec β := ⟨fitsValue, ihValue⟩
      exact (inferInstance : Codec (IndexMap α β)).decode_encode
  | @option α _ _ fits inner ih =>
      let codec : Codec α := ⟨fits, ih⟩
      exact (inferInstance : Codec (Option α)).decode_encode
  | @pair α β _ _ _ _ fitsFirst fitsSecond first second ihFirst ihSecond =>
      let codecFirst : Codec α := ⟨fitsFirst, ihFirst⟩
      let codecSecond : Codec β := ⟨fitsSecond, ihSecond⟩
      exact (inferInstance : Codec (α × β)).decode_encode
  | struct fields stored within encodes decodes ih =>
      intro value rest fits
      rw [encodes, decodes, ih (fields value) rest (within value fits)]
      simp [Except.map]
  | enum small variants stored within encodes decodes ih =>
      intro value rest fits
      rw [encodes, decodes, List.cons_append]
      have payload := ih (variants value).1 (variants value).2 rest (within value fits)
      simp only [decodeVariant, Fin.val_castLE, Fin.is_lt, dite_true, payload, Except.map]
      simp

/-- An encoding is no proper prefix of another one of its type. -/
theorem encode_prefix {α : Type} [Encode α] [Decode α] {fits : α → Prop} (stored : Stored α fits)
    {first second : α} (fitsFirst : fits first) (fitsSecond : fits second)
    (shorter : (encode first : List Byte) <+: encode second) : first = second := by
  obtain ⟨rest, extended⟩ := shorter
  have whole := stored.decode_encode second [] fitsSecond
  rw [List.append_nil, ← extended, stored.decode_encode first rest fitsFirst] at whole
  exact congrArg Prod.fst (Except.ok.inj whole)

end Stored

section Derived

theorem stored_ofFields {α Fields : Type} [Codec Fields] {fitsFields : Fields → Prop}
    (fields : α ≃ Fields) (stored : Stored Fields fitsFields)
    (within : ∀ value, Fits (fields value) → fitsFields (fields value)) :
    @Stored α (Codec.ofFields fields).toEncode (Codec.ofFields fields).toDecode
      (fun value => Fits (fields value)) :=
  @Stored.struct α Fields (Codec.ofFields fields).toEncode (Codec.ofFields fields).toDecode _ _ _ _
    fields stored within (fun _ => rfl) (fun _ => rfl)

theorem stored_runeId : Stored RuneId Fits :=
  stored_ofFields RuneId.fields (.pair .u64 .u32) (fun _ fits => fits)

theorem stored_runeTerms : Stored RuneTerms Fits :=
  stored_ofFields RuneTerms.fields
    (.pair (.option .u128) (.pair (.option .u128) (.pair (.option .u64) (.option .u64))))
    (fun _ fits => fits)

theorem stored_runeInfo : Stored RuneInfo Fits :=
  stored_ofFields RuneInfo.fields
    (.pair .u128 (.pair (.option stored_runeTerms) (.pair (.option .u32) (.pair .u8 (.pair .u64
      (.pair (.array 32) (.pair .u128 .u32))))))) (fun _ fits => fits)

theorem stored_runeActivityByTxKey : Stored RuneActivityByTxKey Fits :=
  stored_ofFields RuneActivityByTxKey.fields (.pair (.array 32) .u16) (fun _ fits => fits)

theorem stored_runeBalanceChange : Stored RuneBalanceChange Fits :=
  stored_ofFields RuneBalanceChange.fields
    (.pair stored_runeId (.pair (.vec .u8) (.pair .u128 (.pair .u128 (.option .u32)))))
    (fun _ fits => fits)

theorem decode_fields {α β γ : Type} [Decode α] [Decode β] (build : α × β → γ) (bytes : List Byte) :
    (decode bytes : DecodingResult (α × β)).map (Prod.map build id) =
      (decode bytes : DecodingResult α) >>= fun first =>
        (decode first.2 : DecodingResult β).map (Prod.map (fun second => build (first.1, second)) id) := by
  simp only [decode, bind, Except.bind, pure, Except.pure]
  cases (decode bytes : DecodingResult α) with
  | error failure => rfl
  | ok first =>
      cases second : (decode first.2 : DecodingResult β) with
      | error failure => simp only [second, Except.map]
      | ok last =>
          simp only [second, Except.map]
          rfl

theorem bind_return {α γ : Type} (result : Except DecodingError (α × List Byte)) (build : α → γ) :
    (result >>= fun last => pure (build last.1, last.2)) = result.map (Prod.map build id) := by
  cases result <;> rfl

def TxoRef.fields : TxoRef ≃ Txid × U32 where
  toFun ref := (ref.txHash, ref.txoIndex)
  invFun pair := ⟨pair.1, pair.2⟩
  left_inv _ := rfl
  right_inv _ := rfl

theorem stored_txoRef : Stored TxoRef Fits := by
  refine .struct TxoRef.fields (.pair (.array 32) .u32) (fun _ _ => ⟨trivial, trivial⟩) (fun _ => rfl) ?_
  intro bytes
  rw [decode_fields]
  refine bind_congr ?_
  rintro ⟨txHash, bytes⟩
  exact bind_return _ _

theorem stored_ownedUtxoKey : Stored OwnedUtxoKey Fits :=
  stored_ofFields OwnedUtxoKey.fields (.pair (.vec .u8) (.pair .u64 stored_txoRef)) (fun _ fits => fits)

def TransactionIndexer.variants : TransactionIndexer ≃ Σ _ : Fin 4, Unit where
  toFun indexer := match indexer with
    | .txCountByAddress => ⟨0, ()⟩
    | .runes => ⟨1, ()⟩
    | .utxosByAddress => ⟨2, ()⟩
    | .charms => ⟨3, ()⟩
  invFun variant := match variant.1 with
    | 0 => .txCountByAddress
    | 1 => .runes
    | 2 => .utxosByAddress
    | 3 => .charms
  left_inv indexer := by cases indexer <;> rfl
  right_inv
    | ⟨0, ()⟩ => rfl
    | ⟨1, ()⟩ => rfl
    | ⟨2, ()⟩ => rfl
    | ⟨3, ()⟩ => rfl

theorem stored_transactionIndexer : Stored TransactionIndexer Fits := by
  refine .enum (by decide) TransactionIndexer.variants (fun _ => .unit) (fun _ _ => trivial) ?_ ?_
  · intro indexer
    cases indexer <;> rfl
  · intro bytes
    match bytes with
    | [] => rfl
    | ⟨0, _⟩ :: _ => rfl
    | ⟨1, _⟩ :: _ => rfl
    | ⟨2, _⟩ :: _ => rfl
    | ⟨3, _⟩ :: _ => rfl
    | ⟨n + 4, _⟩ :: _ => rfl

def Utxo.fields : Utxo ≃ U64 × ScriptPubKey × U64 × ExtendedUtxoData where
  toFun utxo := (utxo.satoshis, utxo.script, utxo.height, utxo.extended)
  invFun fields := ⟨fields.1, fields.2.1, fields.2.2.1, fields.2.2.2⟩
  left_inv _ := rfl
  right_inv _ := rfl

theorem stored_utxo : Stored Utxo Fits := by
  refine .struct Utxo.fields
    (.pair .u64 (.pair (.vec .u8) (.pair .u64 (.indexMap stored_transactionIndexer (.vec .u8)))))
    (fun _ fits => ⟨trivial, fits.1, trivial, fits.2⟩) ?_ ?_
  · intro utxo
    simp only [encode, Utxo.fields, Equiv.coe_fn_mk, List.append_assoc]
  · intro bytes
    rw [decode_fields]
    refine bind_congr ?_
    rintro ⟨satoshis, bytes⟩
    rw [decode_fields]
    refine bind_congr ?_
    rintro ⟨script, bytes⟩
    rw [decode_fields]
    refine bind_congr ?_
    rintro ⟨height, bytes⟩
    exact bind_return _ _

def IndexerInfo.fields : IndexerInfo ≃ U64 × Bytes32 × Bool where
  toFun info := (info.lastPointHeight, info.lastPointHash, info.mempool)
  invFun fields := ⟨fields.1, fields.2.1, fields.2.2⟩
  left_inv _ := rfl
  right_inv _ := rfl

theorem stored_indexerInfo : Stored IndexerInfo Fits := by
  refine .struct IndexerInfo.fields (.pair .u64 (.pair (.array 32) .bool))
    (fun _ _ => ⟨trivial, trivial, trivial⟩) ?_ ?_
  · intro info
    exact List.append_assoc _ _ _
  · intro bytes
    rw [decode_fields]
    refine bind_congr ?_
    rintro ⟨height, bytes⟩
    rw [decode_fields]
    refine bind_congr ?_
    rintro ⟨hash, bytes⟩
    exact bind_return _ _

def RollbackKey.fields : RollbackKey ≃ BlockHeight × Bytes32 × List Byte where
  toFun rollback := (rollback.height, rollback.hash, rollback.key)
  invFun fields := ⟨fields.1, fields.2.1, fields.2.2⟩
  left_inv _ := rfl
  right_inv _ := rfl

theorem stored_rollbackKey : Stored RollbackKey Fits := by
  refine .struct RollbackKey.fields (.pair .u64 (.pair (.array 32) (.vec .u8)))
    (fun _ fits => ⟨trivial, trivial, fits⟩) ?_ ?_
  · intro rollback
    exact List.append_assoc _ _ _
  · intro bytes
    rw [decode_fields]
    refine bind_congr ?_
    rintro ⟨height, bytes⟩
    rw [decode_fields]
    refine bind_congr ?_
    rintro ⟨hash, bytes⟩
    exact bind_return _ _

def TimestampEntry.fields : TimestampEntry ≃ U64 × Bytes32 × U64 × Option U64 where
  toFun entry := (entry.tipHeight, entry.tipHash, entry.rocksTimestamp, entry.mempoolTimestamp)
  invFun fields := ⟨fields.1, fields.2.1, fields.2.2.1, fields.2.2.2⟩
  left_inv _ := rfl
  right_inv _ := rfl

theorem stored_timestampEntry : Stored TimestampEntry Fits := by
  refine .struct TimestampEntry.fields (.pair .u64 (.pair (.array 32) (.pair .u64 (.option .u64))))
    (fun _ _ => ⟨trivial, trivial, trivial, fun _ _ => trivial⟩) ?_ ?_
  · intro entry
    simp only [encode, TimestampEntry.fields, Equiv.coe_fn_mk, List.append_assoc]
  · intro bytes
    rw [decode_fields]
    refine bind_congr ?_
    rintro ⟨tipHeight, bytes⟩
    rw [decode_fields]
    refine bind_congr ?_
    rintro ⟨tipHash, bytes⟩
    rw [decode_fields]
    refine bind_congr ?_
    rintro ⟨rocksTimestamp, bytes⟩
    exact bind_return _ _

def PointKind.variants : PointKind ≃ Σ _ : Fin 2, Unit where
  toFun kind := match kind with
    | .confirmed => ⟨0, ()⟩
    | .mempool => ⟨1, ()⟩
  invFun variant := match variant.1 with
    | 0 => .confirmed
    | 1 => .mempool
  left_inv kind := by cases kind <;> rfl
  right_inv
    | ⟨0, ()⟩ => rfl
    | ⟨1, ()⟩ => rfl

theorem stored_pointKind : Stored PointKind Fits := by
  refine .enum (by decide) PointKind.variants (fun _ => .unit) (fun _ _ => trivial) ?_ ?_
  · intro kind
    cases kind <;> rfl
  · intro bytes
    match bytes with
    | [] => rfl
    | ⟨0, _⟩ :: _ => rfl
    | ⟨1, _⟩ :: _ => rfl
    | ⟨n + 2, _⟩ :: _ => rfl

def PreviousValue.Payload : Fin 2 → Type
  | 0 => RawValue
  | 1 => Unit

instance (kind : Fin 2) : Codec (PreviousValue.Payload kind) :=
  match kind with
  | 0 => inferInstanceAs (Codec RawValue)
  | 1 => inferInstanceAs (Codec Unit)

def PreviousValue.variants : PreviousValue ≃ Σ kind, PreviousValue.Payload kind where
  toFun previous := match previous with
    | .present value => ⟨0, value⟩
    | .notPresent => ⟨1, ()⟩
  invFun
    | ⟨0, value⟩ => .present value
    | ⟨1, _⟩ => .notPresent
  left_inv previous := by cases previous <;> rfl
  right_inv
    | ⟨0, _⟩ => rfl
    | ⟨1, _⟩ => rfl

theorem stored_previousValue : Stored PreviousValue Fits := by
  have payload : ∀ kind, Stored (PreviousValue.Payload kind) Fits
    | 0 => .vec .u8
    | 1 => .unit
  refine .enum (by decide) PreviousValue.variants payload ?_ ?_ ?_
  · intro previous fits
    cases previous with
    | present value => exact fits value rfl
    | notPresent => trivial
  · intro previous
    cases previous <;> rfl
  · intro bytes
    match bytes with
    | [] => rfl
    | ⟨0, _⟩ :: bytes =>
        change ((decode bytes : Except DecodingError (RawValue × List Byte)) >>= fun last =>
            pure (PreviousValue.present last.1, last.2)) =
          ((decode bytes : DecodingResult RawValue).map (Prod.map (Sigma.mk (0 : Fin 2)) id)).map
            (Prod.map PreviousValue.variants.symm id)
        cases (decode bytes : DecodingResult RawValue) <;> rfl
    | ⟨1, _⟩ :: _ => rfl
    | ⟨n + 2, _⟩ :: _ => rfl

end Derived

/-- Decoding undoes encoding over the whole storage format, whatever bytes follow; so encoding
is injective and no encoding is a proper prefix of another one. The keys and values of all
tables are of stored types. -/
theorem storage_format_roundtrips :
    (∀ (α : Type) [Encode α] [Decode α] (fits : α → Prop), Stored α fits →
      (∀ (value : α) (rest : List Byte), fits value →
        decode (encode value ++ rest) = .ok (value, rest)) ∧
      (∀ first second : α, fits first → fits second →
        (encode first : List Byte) = encode second → first = second) ∧
      (∀ first second : α, fits first → fits second →
        (encode first : List Byte) <+: encode second → first = second)) ∧
    Stored TxoRef Fits ∧ Stored Utxo Fits ∧ Stored TransactionIndexer Fits ∧
    Stored IndexerInfo Fits ∧ Stored RollbackKey Fits ∧ Stored PreviousValue Fits ∧
    Stored PointKind Fits ∧ Stored TimestampEntry Fits ∧ Stored RuneId Fits ∧
    Stored RuneTerms Fits ∧ Stored RuneInfo Fits ∧ Stored RuneActivityByTxKey Fits ∧
    Stored RuneBalanceChange Fits ∧ Stored RuneUtxosByScriptKey Fits ∧
    Stored UtxosByAddressKey Fits ∧ Stored CharmsUtxosByScriptKey Fits ∧
    Stored CharmsUtxosByAppKey Fits ∧ Stored UtxoRunes Fits ∧ Stored UtxoCharms Fits := by
  refine ⟨?_, stored_txoRef, stored_utxo, stored_transactionIndexer, stored_indexerInfo,
    stored_rollbackKey, stored_previousValue, stored_pointKind, stored_timestampEntry, stored_runeId,
    stored_runeTerms, stored_runeInfo, stored_runeActivityByTxKey, stored_runeBalanceChange,
    stored_ownedUtxoKey, stored_ownedUtxoKey, stored_ownedUtxoKey, stored_ownedUtxoKey,
    .vec (.pair stored_runeId .u128), .vec (.pair (.vec .u8) (.vec .u8))⟩
  intro α _ _ fits stored
  refine ⟨stored.decode_encode, ?_, ?_⟩
  · intro first second fitsFirst fitsSecond same
    exact stored.encode_prefix fitsFirst fitsSecond (same ▸ List.prefix_rfl)
  · intro first second fitsFirst fitsSecond shorter
    exact stored.encode_prefix fitsFirst fitsSecond shorter

end Symphony
