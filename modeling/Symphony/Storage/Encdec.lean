import Mathlib.Data.Vector.Basic
import Symphony.Lib.BigEndian
import Symphony.Lib.IndexMap

/-! The byte encoding of keys and values (`storage/encdec`).

`usize` is taken as 64 bits. `Fits` records what the Rust type of a value already
guarantees and the Lean type does not: a `Vec` holds fewer than 2^64 elements. -/

namespace Symphony.Encdec

open BigEndian (Byte)

abbrev U16 := BitVec 16
abbrev U32 := BitVec 32
abbrev U64 := BitVec 64
abbrev U128 := BitVec 128

abbrev Bytes32 := List.Vector Byte 32

inductive DecodingError where
  | malformedInput (message : String) (bytes : List Byte)
  | varUIntCasting (value : Nat)
  | invalidEnumKind (bytes : List Byte)
  deriving DecidableEq, Repr

abbrev DecodingResult (α : Type) := Except DecodingError (α × List Byte)

def malformedInput {α : Type} (message : String) (bytes : List Byte) : DecodingResult α :=
  .error (.malformedInput message bytes)

class Encode (α : Type) where
  encode : α → List Byte

class Decode (α : Type) where
  decode : List Byte → Except DecodingError (α × List Byte)

export Encode (encode)
export Decode (decode)

def decodeAll {α : Type} [Decode α] (bytes : List Byte) : Except DecodingError α :=
  (decode bytes).map Prod.fst

/-- Decoding reads back what encoding wrote and leaves the rest of the input. -/
class Codec (α : Type) extends Encode α, Decode α where
  Fits : α → Prop
  decode_encode : ∀ (value : α) (rest : List Byte), Fits value →
    decode (encode value ++ rest) = .ok (value, rest)

export Codec (Fits decode_encode)

theorem decodeAll_encode {α : Type} [Codec α] (value : α) (fits : Fits value) :
    decodeAll (encode value) = .ok value := by
  have whole := decode_encode value [] fits
  rw [List.append_nil] at whole
  simp only [decodeAll, whole, Except.map]

theorem encode_injective {α : Type} [Codec α] {first second : α} (fitsFirst : Fits first)
    (fitsSecond : Fits second) (same : (encode first : List Byte) = encode second) :
    first = second := by
  have left := decodeAll_encode first fitsFirst
  rw [same, decodeAll_encode second fitsSecond] at left
  exact (Except.ok.inj left).symm

instance {n : Nat} : Encode (List.Vector Byte n) := ⟨fun array => array.toList⟩

instance {n : Nat} : Decode (List.Vector Byte n) where
  decode bytes :=
    if enough : (bytes.take n).length = n then .ok (⟨bytes.take n, enough⟩, bytes.drop n)
    else malformedInput "array insufficient bytes" bytes

instance {n : Nat} : Codec (List.Vector Byte n) where
  Fits _ := True
  decode_encode value rest _ := by
    have front : (value.toList ++ rest).take n = value.toList := by
      rw [List.take_append_of_le_length (by simp), List.take_of_length_le (by simp)]
    have back : (value.toList ++ rest).drop n = rest := by
      rw [List.drop_append_of_le_length (by simp), List.drop_of_length_le (by simp),
        List.nil_append]
    have long : ((value.toList ++ rest).take n).length = n := by rw [front]; simp
    simp only [encode, decode, dif_pos long, back]
    congr 2
    exact Subtype.ext front

instance : Encode Byte := ⟨fun byte => [byte]⟩

instance : Decode Byte where
  decode
    | [] => malformedInput "u8 insufficient bytes" []
    | byte :: rest => .ok (byte, rest)

instance : Codec Byte where
  Fits _ := True
  decode_encode _ _ _ := rfl

instance : Encode U16 := ⟨fun value => BigEndian.toBytes 2 value.toNat⟩

instance : Decode U16 where
  decode bytes := do
    let (pair, rest) ← (decode bytes : Except DecodingError (List.Vector Byte 2 × List Byte))
    return (BitVec.ofNat 16 (BigEndian.ofBytes pair.toList), rest)

instance : Codec U16 where
  Fits _ := True
  decode_encode value rest _ := by
    let bytes : List.Vector Byte 2 :=
      ⟨BigEndian.toBytes 2 value.toNat, BigEndian.length_toBytes 2 value.toNat⟩
    have pair : decode (BigEndian.toBytes 2 value.toNat ++ rest) = .ok (bytes, rest) :=
      decode_encode bytes rest trivial
    have number : BigEndian.ofBytes (BigEndian.toBytes 2 value.toNat) = value.toNat := by
      rw [BigEndian.ofBytes_toBytes]
      exact Nat.mod_eq_of_lt (by simpa using value.isLt)
    have read : BigEndian.ofBytes bytes.toList = value.toNat := number
    simp only [encode, decode, bind, Except.bind, pure, Except.pure] at pair ⊢
    rw [pair]
    simp [read]

namespace VarUInt

def encode (value : Nat) : List Byte :=
  let data := BigEndian.trim (BigEndian.toBytes 16 value)
  Fin.ofNat 256 data.length :: data

def decode (bytes : List Byte) : DecodingResult Nat :=
  match bytes with
  | [] => malformedInput "varuint insufficient bytes" bytes
  | len :: rest =>
      if 16 < len.val then malformedInput "varuint len exceeds maximum" bytes
      else if rest.length < len.val then malformedInput "varuint insufficient bytes" bytes
      else .ok (BigEndian.ofBytes (rest.take len.val), rest.drop len.val)

theorem length_data_le (value : Nat) :
    (BigEndian.trim (BigEndian.toBytes 16 value)).length ≤ 16 := by
  simpa using BigEndian.length_trim_le (BigEndian.toBytes 16 value)

theorem val_length_data (value : Nat) :
    (Fin.ofNat 256 (BigEndian.trim (BigEndian.toBytes 16 value)).length).val =
      (BigEndian.trim (BigEndian.toBytes 16 value)).length :=
  Nat.mod_eq_of_lt (by have := length_data_le value; omega)

theorem decode_encode (value : Nat) (rest : List Byte) (bound : value < 2 ^ 128) :
    decode (encode value ++ rest) = .ok (value, rest) := by
  have short := length_data_le value
  have len := val_length_data value
  have number : BigEndian.ofBytes (BigEndian.trim (BigEndian.toBytes 16 value)) = value := by
    rw [BigEndian.ofBytes_trim, BigEndian.ofBytes_toBytes]
    exact Nat.mod_eq_of_lt (by simpa using bound)
  simp only [encode, decode, List.cons_append, len]
  rw [if_neg (by omega), if_neg (by rw [List.length_append]; omega),
    List.take_left, List.drop_left, number]

theorem append_lt_append (first second : Nat) (left right : List Byte)
    (below : first < second) (bound : second < 2 ^ 128) :
    encode first ++ left < encode second ++ right := by
  have value (n : Nat) (small : n < 2 ^ 128) :
      BigEndian.ofBytes (BigEndian.toBytes 16 n) = n := by
    rw [BigEndian.ofBytes_toBytes]
    exact Nat.mod_eq_of_lt (by simpa using small)
  have ordered : BigEndian.ofBytes (BigEndian.toBytes 16 first) <
      BigEndian.ofBytes (BigEndian.toBytes 16 second) := by
    rw [value first (by omega), value second bound]
    exact below
  have lengths := BigEndian.length_trim_mono _ _ ordered
  simp only [encode, List.cons_append, List.cons_lt_cons_iff]
  rcases Nat.lt_or_eq_of_le lengths with shorter | same
  · left
    rw [Fin.lt_def, val_length_data, val_length_data]
    exact shorter
  · right
    refine ⟨by rw [same], ?_⟩
    apply BigEndian.append_lt_append _ _ _ _ same
    rwa [BigEndian.ofBytes_trim, BigEndian.ofBytes_trim]

end VarUInt

/-- `u32`, `u64`, `u128` and `usize` share the variable-length encoding. -/
def encodeUInt {width : Nat} (value : BitVec width) : List Byte := VarUInt.encode value.toNat

def decodeUInt (width : Nat) (bytes : List Byte) : DecodingResult (BitVec width) :=
  match VarUInt.decode bytes with
  | .error failure => .error failure
  | .ok (value, rest) =>
      if value < 2 ^ width then .ok (BitVec.ofNat width value, rest)
      else .error (.varUIntCasting value)

theorem decodeUInt_encodeUInt {width : Nat} (value : BitVec width) (rest : List Byte)
    (wide : width ≤ 128) : decodeUInt width (encodeUInt value ++ rest) = .ok (value, rest) := by
  have bound : value.toNat < 2 ^ 128 :=
    lt_of_lt_of_le value.isLt (Nat.pow_le_pow_right (by decide) wide)
  rw [decodeUInt, encodeUInt, VarUInt.decode_encode _ _ bound]
  simp [value.isLt]

instance : Codec U32 where
  encode := encodeUInt
  decode := decodeUInt 32
  Fits _ := True
  decode_encode value rest _ := decodeUInt_encodeUInt value rest (by decide)

instance : Codec U64 where
  encode := encodeUInt
  decode := decodeUInt 64
  Fits _ := True
  decode_encode value rest _ := decodeUInt_encodeUInt value rest (by decide)

instance : Codec U128 where
  encode := encodeUInt
  decode := decodeUInt 128
  Fits _ := True
  decode_encode value rest _ := decodeUInt_encodeUInt value rest (by decide)

/-- The types stored as variable-length integers, so that counters over them can be merged
without knowing which one it is. -/
class VarUIntEncoded (Value : Type) [Encode Value] [Decode Value] where
  width : Nat
  asU128 : Value → U128
  width_le : width ≤ 128
  fits : ∀ value, (asU128 value).toNat < 2 ^ width
  covers : ∀ amount : U128, amount.toNat < 2 ^ width → ∃ value, asU128 value = amount
  encode_eq : ∀ value, encode value = encode (asU128 value)
  decode_iff : ∀ bytes value, decodeAll bytes = .ok value ↔ decodeAll bytes = .ok (asU128 value)

theorem decodeUInt_widen {width : Nat} (wide : width ≤ 128) (bytes : List Byte)
    (value : BitVec width) :
    (decodeUInt width bytes).map (·.1) = .ok value ↔
      (decodeUInt 128 bytes).map (·.1) = .ok (value.setWidth 128) := by
  have bound : value.toNat < 2 ^ 128 :=
    lt_of_lt_of_le value.isLt (Nat.pow_le_pow_right (by decide) wide)
  simp only [decodeUInt]
  cases VarUInt.decode bytes with
  | error failure => simp [Except.map]
  | ok pair =>
      obtain ⟨number, rest⟩ := pair
      have larger : 2 ^ width ≤ 2 ^ 128 := Nat.pow_le_pow_right (by decide) wide
      have narrow : value.toNat < 2 ^ width := value.isLt
      by_cases small : number < 2 ^ width
      · simp only [if_pos small, if_pos (lt_of_lt_of_le small larger), Except.map, Except.ok.injEq]
        rw [← BitVec.toNat_inj, ← BitVec.toNat_inj, BitVec.toNat_ofNat, BitVec.toNat_ofNat,
          BitVec.toNat_setWidth, Nat.mod_eq_of_lt small,
          Nat.mod_eq_of_lt (lt_of_lt_of_le small larger), Nat.mod_eq_of_lt bound]
      · simp only [if_neg small, Except.map]
        constructor
        · intro impossible
          cases impossible
        · intro read
          by_cases inside : number < 2 ^ 128
          · simp only [if_pos inside, Except.ok.injEq] at read
            rw [← BitVec.toNat_inj, BitVec.toNat_ofNat, BitVec.toNat_setWidth,
              Nat.mod_eq_of_lt inside, Nat.mod_eq_of_lt bound] at read
            omega
          · simp only [if_neg inside, reduceCtorEq] at read

section VarUIntEncoded

variable {width : Nat} (wide : width ≤ 128)
include wide

theorem toNat_widen (value : BitVec width) : (value.setWidth 128).toNat = value.toNat := by
  rw [BitVec.toNat_setWidth]
  exact Nat.mod_eq_of_lt (lt_of_lt_of_le value.isLt (Nat.pow_le_pow_right (by decide) wide))

theorem widen_covers (amount : U128) (bound : amount.toNat < 2 ^ width) :
    ∃ value : BitVec width, value.setWidth 128 = amount := by
  refine ⟨BitVec.ofNat width amount.toNat, BitVec.eq_of_toNat_eq ?_⟩
  rw [toNat_widen wide, BitVec.toNat_ofNat, Nat.mod_eq_of_lt bound]

theorem encodeUInt_widen (value : BitVec width) :
    encodeUInt value = encodeUInt (value.setWidth 128) := by
  rw [encodeUInt, encodeUInt, toNat_widen wide]

end VarUIntEncoded

instance : VarUIntEncoded U32 where
  width := 32
  width_le := by decide
  asU128 value := value.setWidth 128
  fits value := by rw [toNat_widen (by decide)]; exact value.isLt
  covers := widen_covers (by decide)
  encode_eq := encodeUInt_widen (by decide)
  decode_iff := decodeUInt_widen (by decide)

instance : VarUIntEncoded U64 where
  width := 64
  width_le := by decide
  asU128 value := value.setWidth 128
  fits value := by rw [toNat_widen (by decide)]; exact value.isLt
  covers := widen_covers (by decide)
  encode_eq := encodeUInt_widen (by decide)
  decode_iff := decodeUInt_widen (by decide)

instance : VarUIntEncoded U128 where
  width := 128
  width_le := le_refl _
  asU128 value := value
  fits value := value.isLt
  covers amount _ := ⟨amount, rfl⟩
  encode_eq _ := rfl
  decode_iff _ _ := Iff.rfl

section Composite

variable {α β : Type}

def decodeMany [Decode α] : Nat → List Byte → Except DecodingError (List α × List Byte)
  | 0, bytes => .ok ([], bytes)
  | count + 1, bytes => do
      let (item, bytes) ← (decode bytes : Except DecodingError (α × List Byte))
      let (items, bytes) ← decodeMany count bytes
      return (item :: items, bytes)

theorem decodeMany_encode [Codec α] (items : List α) (rest : List Byte)
    (fits : ∀ item ∈ items, Fits item) :
    decodeMany items.length (items.flatMap encode ++ rest) = .ok (items, rest) := by
  induction items with
  | nil => rfl
  | cons item items ih =>
      have head := decode_encode item (items.flatMap encode ++ rest) (fits item List.mem_cons_self)
      have tail := ih (by intro other member; exact fits other (List.mem_cons_of_mem item member))
      simp only [List.length_cons, List.flatMap_cons, List.append_assoc, decodeMany, head, tail,
        bind, Except.bind, pure, Except.pure]

def encodeLen (length : Nat) : List Byte := VarUInt.encode length

def decodeLen (bytes : List Byte) : Except DecodingError (Nat × List Byte) := do
  let (len, rest) ← decodeUInt 64 bytes
  return (len.toNat, rest)

theorem decodeLen_encodeLen (length : Nat) (rest : List Byte) (bound : length < 2 ^ 64) :
    decodeLen (encodeLen length ++ rest) = .ok (length, rest) := by
  have whole := decodeUInt_encodeUInt (BitVec.ofNat 64 length) rest (by decide)
  rw [encodeUInt, BitVec.toNat_ofNat, Nat.mod_eq_of_lt bound] at whole
  simp only [decodeLen, encodeLen, whole, bind, Except.bind, pure, Except.pure,
    BitVec.toNat_ofNat, Nat.mod_eq_of_lt bound]

instance [Encode α] : Encode (List α) :=
  ⟨fun items => encodeLen items.length ++ items.flatMap encode⟩

instance [Decode α] : Decode (List α) where
  decode bytes := do
    let (len, bytes) ← decodeLen bytes
    -- the source reserves `len` places first, which panics on a length that no encoder writes
    decodeMany len bytes

instance [Codec α] : Codec (List α) where
  Fits items := items.length < 2 ^ 64 ∧ ∀ item ∈ items, Fits item
  decode_encode items rest fits := by
    have len := decodeLen_encodeLen items.length (items.flatMap encode ++ rest) fits.1
    simp only [encode, decode, List.append_assoc, len, bind, Except.bind]
    exact decodeMany_encode items rest fits.2

instance : Codec Unit where
  encode _ := []
  decode bytes := .ok ((), bytes)
  Fits _ := True
  decode_encode _ _ _ := rfl

instance : Encode Bool := ⟨fun flag => [if flag then 1 else 0]⟩

instance : Decode Bool where
  decode bytes := do
    let (byte, rest) ← (decode bytes : Except DecodingError (Byte × List Byte))
    match byte with
    | 0 => return (false, rest)
    | 1 => return (true, rest)
    | _ => malformedInput "invalid bool byte" bytes

instance : Codec Bool where
  Fits _ := True
  decode_encode flag rest _ := by cases flag <;> rfl

instance [Encode α] : Encode (Option α) where
  encode
    | none => encode false
    | some value => encode true ++ encode value

instance [Decode α] : Decode (Option α) where
  decode bytes := do
    let (presence, bytes) ← (decode bytes : Except DecodingError (Bool × List Byte))
    if !presence then return (none, bytes)
    let (value, bytes) ← (decode bytes : Except DecodingError (α × List Byte))
    return (some value, bytes)

instance [Codec α] : Codec (Option α) where
  Fits value := ∀ inner, value = some inner → Fits inner
  decode_encode value rest fits := by
    cases value with
    | none => rfl
    | some inner =>
        have flag := decode_encode true (encode inner ++ rest) trivial
        have body := decode_encode inner rest (fits inner rfl)
        simp only [encode, decode, List.append_assoc, bind, Except.bind, pure, Except.pure]
          at flag body ⊢
        rw [flag]
        simp [body]

instance [Encode α] [Encode β] : Encode (α × β) := ⟨fun pair => encode pair.1 ++ encode pair.2⟩

instance [Decode α] [Decode β] : Decode (α × β) where
  decode bytes := do
    let (first, bytes) ← (decode bytes : Except DecodingError (α × List Byte))
    let (second, bytes) ← (decode bytes : Except DecodingError (β × List Byte))
    return ((first, second), bytes)

instance [Codec α] [Codec β] : Codec (α × β) where
  Fits pair := Fits pair.1 ∧ Fits pair.2
  decode_encode pair rest fits := by
    have first := decode_encode pair.1 (encode pair.2 ++ rest) fits.1
    have second := decode_encode pair.2 rest fits.2
    simp only [encode, decode, List.append_assoc, bind, Except.bind, pure, Except.pure]
      at first second ⊢
    rw [first]
    simp [second]

variable [DecidableEq α]

def decodeEntries [Decode α] [Decode β] :
    Nat → IndexMap α β → List Byte → Except DecodingError (IndexMap α β × List Byte)
  | 0, map, bytes => .ok (map, bytes)
  | count + 1, map, bytes => do
      let (key, bytes) ← (decode bytes : Except DecodingError (α × List Byte))
      let (value, bytes) ← (decode bytes : Except DecodingError (β × List Byte))
      decodeEntries count (map.insert key value) bytes

instance [Encode α] [Encode β] : Encode (IndexMap α β) where
  encode map := encodeLen map.entries.length ++
    map.entries.flatMap (fun entry => encode entry.1 ++ encode entry.2)

instance [Decode α] [Decode β] : Decode (IndexMap α β) where
  decode bytes := do
    let (len, bytes) ← decodeLen bytes
    decodeEntries len IndexMap.empty bytes

/-- The entries decoded so far followed by the remaining ones are the whole map, so
re-inserting in order rebuilds it with its order. -/
theorem decodeEntries_encode [Codec α] [Codec β] (done remaining : List (α × β))
    (distinct : ((done ++ remaining).map Prod.fst).Nodup) (map : IndexMap α β)
    (rest : List Byte) (loaded : map.entries = done)
    (fits : ∀ entry ∈ remaining, Fits entry.1 ∧ Fits entry.2) :
    decodeEntries remaining.length map
      (remaining.flatMap (fun entry => encode entry.1 ++ encode entry.2) ++ rest) =
        .ok (⟨done ++ remaining, distinct⟩, rest) := by
  induction remaining generalizing done map with
  | nil =>
      cases map
      simp_all [decodeEntries]
  | cons entry remaining ih =>
      have key := decode_encode entry.1 (encode entry.2 ++
        (remaining.flatMap (fun entry => encode entry.1 ++ encode entry.2) ++ rest))
        (fits entry List.mem_cons_self).1
      have value := decode_encode entry.2
        (remaining.flatMap (fun entry => encode entry.1 ++ encode entry.2) ++ rest)
        (fits entry List.mem_cons_self).2
      have fresh : entry.1 ∉ map.entries.map Prod.fst := by
        rw [loaded]
        intro present
        rw [List.map_append, List.map_cons] at distinct
        exact (List.nodup_append.mp distinct).2.2 _ present _ List.mem_cons_self rfl
      have grown : (map.insert entry.1 entry.2).entries = done ++ [entry] := by
        show IndexMap.write entry.1 entry.2 map.entries = _
        rw [IndexMap.write_fresh _ _ _ fresh, loaded]
      have shifted : ((done ++ [entry] ++ remaining).map Prod.fst).Nodup := by simpa using distinct
      have tail := ih (done ++ [entry]) shifted (map.insert entry.1 entry.2) grown
        (by intro other member; exact fits other (List.mem_cons_of_mem entry member))
      simp only [List.length_cons, List.flatMap_cons, List.append_assoc, decodeEntries, key, value,
        bind, Except.bind, tail]
      simp only [List.cons_append, List.nil_append]

instance [Codec α] [Codec β] : Codec (IndexMap α β) where
  Fits map := map.entries.length < 2 ^ 64 ∧ ∀ entry ∈ map.entries, Fits entry.1 ∧ Fits entry.2
  decode_encode map rest fits := by
    have len := decodeLen_encodeLen map.entries.length
      (map.entries.flatMap (fun entry => encode entry.1 ++ encode entry.2) ++ rest) fits.1
    have body := decodeEntries_encode [] map.entries map.distinct IndexMap.empty rest rfl fits.2
    simp only [encode, decode, List.append_assoc, len, bind, Except.bind]
    exact body

end Composite

end Symphony.Encdec
