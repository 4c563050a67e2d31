import Symphony.Lib.LexRange
import Symphony.Sync.Types

/-! Tables (`storage/table.rs`): every key starts with the tag of its table. -/

namespace Symphony

open BigEndian (Byte)
open Encdec

abbrev RawKey := List Byte
abbrev RawValue := List Byte

structure Table (Key Value : Type) where
  tag : List Byte

def coreIndexerTag : Byte := 67
def customIndexerTag : Byte := 85

def coreTable (Key Value : Type) (indexer : Byte) : Table Key Value := ⟨[coreIndexerTag, indexer]⟩

def indexerTable (Key Value : Type) (indexer : TransactionIndexer) (table : Byte) :
    Table Key Value :=
  ⟨[customIndexerTag] ++ encode (BitVec.ofNat 16 indexer.kind.val) ++ [table]⟩

/-- All keys that start with `bytes`: the last byte below 255 is raised by one. -/
def prefixKeyRange (bytes : List Byte) : List Byte × List Byte :=
  match bytes.reverse.dropWhile (fun byte => byte = 255) with
  | [] => (bytes, [])
  | byte :: rest => (bytes, ((byte + 1) :: rest).reverse)

namespace Table

variable {Key Value : Type}

def encodeKey [Encode Key] (table : Table Key Value) (key : Key) : RawKey :=
  table.tag ++ encode key

def encodeRange (table : Table Key Value) (start stop : Option (List Byte)) : RawKey × RawKey :=
  (table.tag ++ start.getD [], match stop with
    | some bound => table.tag ++ bound
    | none => (prefixKeyRange table.tag).2)

def Holds (table : Table Key Value) (key : RawKey) : Prop := table.tag <+: key

instance (table : Table Key Value) (key : RawKey) : Decidable (table.Holds key) :=
  inferInstanceAs (Decidable (table.tag <+: key))

theorem holds_encodeKey [Encode Key] (table : Table Key Value) (key : Key) :
    table.Holds (table.encodeKey key) :=
  ⟨encode key, rfl⟩

theorem encodeKey_injective [Codec Key] (table : Table Key Value) {first second : Key}
    (fitsFirst : Fits first) (fitsSecond : Fits second)
    (same : table.encodeKey first = table.encodeKey second) : first = second :=
  encode_injective fitsFirst fitsSecond (List.append_cancel_left same)

theorem tag_eq_of_holds {OtherKey OtherValue : Type} (table : Table Key Value)
    (other : Table OtherKey OtherValue) (key : RawKey) (length : table.tag.length = other.tag.length)
    (first : table.Holds key) (second : other.Holds key) : table.tag = other.tag := by
  obtain ⟨left, rfl⟩ := first
  obtain ⟨right, equal⟩ := second
  exact (List.append_inj_left equal length.symm).symm

end Table

structure IndexerInfo where
  lastPointHeight : U64
  lastPointHash : Bytes32
  mempool : Bool
  deriving DecidableEq

instance : Codec IndexerInfo where
  encode info := encode info.lastPointHeight ++ encode info.lastPointHash ++ encode info.mempool
  decode bytes := do
    let (height, bytes) ← (decode bytes : Except DecodingError (U64 × List Byte))
    let (hash, bytes) ← (decode bytes : Except DecodingError (Bytes32 × List Byte))
    let (mempool, bytes) ← (decode bytes : Except DecodingError (Bool × List Byte))
    return (⟨height, hash, mempool⟩, bytes)
  Fits _ := True
  decode_encode info rest _ := by
    have height := decode_encode info.lastPointHeight
      (encode info.lastPointHash ++ (encode info.mempool ++ rest)) trivial
    have hash := decode_encode info.lastPointHash (encode info.mempool ++ rest) trivial
    have mempool := decode_encode info.mempool rest trivial
    simp only [List.append_assoc, height, hash, mempool, bind, Except.bind, pure, Except.pure]

structure RollbackKey where
  height : BlockHeight
  hash : Bytes32
  key : List Byte
  deriving DecidableEq

instance : Codec RollbackKey where
  encode rollback := encode rollback.height ++ encode rollback.hash ++ encode rollback.key
  decode bytes := do
    let (height, bytes) ← (decode bytes : Except DecodingError (U64 × List Byte))
    let (hash, bytes) ← (decode bytes : Except DecodingError (Bytes32 × List Byte))
    let (key, bytes) ← (decode bytes : Except DecodingError (List Byte × List Byte))
    return (⟨height, hash, key⟩, bytes)
  Fits rollback := Fits rollback.key
  decode_encode rollback rest fits := by
    have height := decode_encode rollback.height
      (encode rollback.hash ++ (encode rollback.key ++ rest)) trivial
    have hash := decode_encode rollback.hash (encode rollback.key ++ rest) trivial
    have key := decode_encode rollback.key rest fits
    simp only [List.append_assoc, height, hash, key, bind, Except.bind, pure, Except.pure]

inductive PreviousValue where
  | present (value : RawValue)
  | notPresent
  deriving DecidableEq, Repr

namespace PreviousValue

def ofOption : Option RawValue → PreviousValue
  | some value => .present value
  | none => .notPresent

def toOption : PreviousValue → Option RawValue
  | .present value => some value
  | .notPresent => none

@[simp] theorem toOption_ofOption (value : Option RawValue) : (ofOption value).toOption = value := by
  cases value <;> rfl

instance : Codec PreviousValue where
  encode
    | .present value => [0] ++ encode value
    | .notPresent => [1]
  decode
    | [] => malformedInput "enum insufficient bytes" []
    | kind :: bytes => match kind with
        | 0 => do
            let (value, bytes) ← (decode bytes : Except DecodingError (RawValue × List Byte))
            return (.present value, bytes)
        | 1 => .ok (.notPresent, bytes)
        | _ => .error (.invalidEnumKind bytes)
  Fits previous := Fits previous.toOption
  decode_encode previous rest fits := by
    cases previous with
    | present value =>
        have body := decode_encode value rest (fits value rfl)
        simp only [List.cons_append, List.nil_append, body, bind, Except.bind, pure, Except.pure]
    | notPresent => rfl

end PreviousValue

inductive PointKind where
  | confirmed
  | mempool
  deriving DecidableEq, Repr

instance : Codec PointKind where
  encode
    | .confirmed => [0]
    | .mempool => [1]
  decode
    | [] => malformedInput "enum insufficient bytes" []
    | kind :: bytes => match kind with
        | 0 => .ok (.confirmed, bytes)
        | 1 => .ok (.mempool, bytes)
        | _ => .error (.invalidEnumKind bytes)
  Fits _ := True
  decode_encode kind rest _ := by cases kind <;> rfl

structure TimestampEntry where
  tipHeight : U64
  tipHash : Bytes32
  rocksTimestamp : U64
  mempoolTimestamp : Option U64
  deriving DecidableEq

instance : Codec TimestampEntry where
  encode entry := encode entry.tipHeight ++ encode entry.tipHash ++ encode entry.rocksTimestamp ++
    encode entry.mempoolTimestamp
  decode bytes := do
    let (tipHeight, bytes) ← (decode bytes : Except DecodingError (U64 × List Byte))
    let (tipHash, bytes) ← (decode bytes : Except DecodingError (Bytes32 × List Byte))
    let (rocksTimestamp, bytes) ← (decode bytes : Except DecodingError (U64 × List Byte))
    let (mempoolTimestamp, bytes) ←
      (decode bytes : Except DecodingError (Option U64 × List Byte))
    return (⟨tipHeight, tipHash, rocksTimestamp, mempoolTimestamp⟩, bytes)
  Fits _ := True
  decode_encode entry rest _ := by
    have height := decode_encode entry.tipHeight
      (encode entry.tipHash ++ (encode entry.rocksTimestamp ++
        (encode entry.mempoolTimestamp ++ rest))) trivial
    have hash := decode_encode entry.tipHash
      (encode entry.rocksTimestamp ++ (encode entry.mempoolTimestamp ++ rest)) trivial
    have rocks := decode_encode entry.rocksTimestamp (encode entry.mempoolTimestamp ++ rest) trivial
    have mempool := decode_encode entry.mempoolTimestamp rest (by intro inner _; trivial)
    simp only [List.append_assoc, height, hash, rocks, mempool, bind, Except.bind, pure, Except.pure]

def IndexerInfoKV : Table Unit IndexerInfo := coreTable _ _ 73
def UtxoByTxoRefKV : Table TxoRef Utxo := coreTable _ _ 85
def TimestampsKV : Table PointKind TimestampEntry := coreTable _ _ 84
def HashByHeightKV : Table U64 Bytes32 := coreTable _ _ 72
def RollbackBufferKV : Table RollbackKey PreviousValue := coreTable _ _ 82

/-- The keys that carry index data: `TimestampsKV` and `RollbackBufferKV` are written by
the commit itself and are not subject to rollback. -/
def IsData (key : RawKey) : Prop := ¬ TimestampsKV.Holds key ∧ ¬ RollbackBufferKV.Holds key

instance (key : RawKey) : Decidable (IsData key) := inferInstanceAs (Decidable (_ ∧ _))

theorem rollback_range_holds (stop : List Byte) (key : RawKey)
    (above : (RollbackBufferKV.encodeRange none (some stop)).1 ≤ key)
    (below : key < (RollbackBufferKV.encodeRange none (some stop)).2) :
    RollbackBufferKV.Holds key := by
  apply LexRange.prefix_of_between RollbackBufferKV.tag [] stop key
  · rw [List.append_nil]
    exact above
  · exact below

end Symphony
