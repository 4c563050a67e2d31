import Mathlib.Data.List.Dedup
import Mathlib.Data.List.TakeWhile
import Symphony.Lib.LexRange
import Symphony.Storage.KvStore
import Symphony.Sync.CustomTables

/-! Range scans: which keys a range of a table holds, and in which order. -/

namespace Symphony

open BigEndian (Byte)
open Encdec
open Reader (writtenKeys rangeKeys)

inductive TableName where
  | indexerInfo
  | utxoByTxoRef
  | timestamps
  | hashByHeight
  | rollbackBuffer
  | txCountByAddress
  | runeInfoById
  | runeIdByName
  | runeMintsById
  | runeUtxosByScript
  | runeActivityByTx
  | utxosByAddress
  | charmsUtxosByScript
  | charmsUtxosByApp
  deriving DecidableEq

namespace TableName

def Key : TableName → Type
  | indexerInfo => Unit
  | utxoByTxoRef => TxoRef
  | timestamps => PointKind
  | hashByHeight => U64
  | rollbackBuffer => RollbackKey
  | txCountByAddress => ScriptPubKey
  | runeInfoById => RuneId
  | runeIdByName => U128
  | runeMintsById => RuneId
  | runeUtxosByScript => RuneUtxosByScriptKey
  | runeActivityByTx => RuneActivityByTxKey
  | utxosByAddress => UtxosByAddressKey
  | charmsUtxosByScript => CharmsUtxosByScriptKey
  | charmsUtxosByApp => CharmsUtxosByAppKey

def Value : TableName → Type
  | indexerInfo => IndexerInfo
  | utxoByTxoRef => Utxo
  | timestamps => TimestampEntry
  | hashByHeight => Bytes32
  | rollbackBuffer => PreviousValue
  | txCountByAddress => U64
  | runeInfoById => RuneInfo
  | runeIdByName => RuneId
  | runeMintsById => U128
  | runeUtxosByScript => Unit
  | runeActivityByTx => RuneBalanceChange
  | utxosByAddress => Unit
  | charmsUtxosByScript => Unit
  | charmsUtxosByApp => Unit

def table : (name : TableName) → Table name.Key name.Value
  | indexerInfo => IndexerInfoKV
  | utxoByTxoRef => UtxoByTxoRefKV
  | timestamps => TimestampsKV
  | hashByHeight => HashByHeightKV
  | rollbackBuffer => RollbackBufferKV
  | txCountByAddress => TxCountByAddressKV
  | runeInfoById => RuneInfoByIdKV
  | runeIdByName => RuneIdByNameKV
  | runeMintsById => RuneMintsByIdKV
  | runeUtxosByScript => RuneUtxosByScriptKV
  | runeActivityByTx => RuneActivityByTxKV
  | utxosByAddress => UtxosByAddressKV
  | charmsUtxosByScript => CharmsUtxosByScriptKV
  | charmsUtxosByApp => CharmsUtxosByAppKV

instance (name : TableName) : Codec name.Key :=
  match name with
  | indexerInfo => inferInstanceAs (Codec Unit)
  | utxoByTxoRef => inferInstanceAs (Codec TxoRef)
  | timestamps => inferInstanceAs (Codec PointKind)
  | hashByHeight => inferInstanceAs (Codec U64)
  | rollbackBuffer => inferInstanceAs (Codec RollbackKey)
  | txCountByAddress => inferInstanceAs (Codec ScriptPubKey)
  | runeInfoById => inferInstanceAs (Codec RuneId)
  | runeIdByName => inferInstanceAs (Codec U128)
  | runeMintsById => inferInstanceAs (Codec RuneId)
  | runeUtxosByScript => inferInstanceAs (Codec OwnedUtxoKey)
  | runeActivityByTx => inferInstanceAs (Codec RuneActivityByTxKey)
  | utxosByAddress => inferInstanceAs (Codec OwnedUtxoKey)
  | charmsUtxosByScript => inferInstanceAs (Codec OwnedUtxoKey)
  | charmsUtxosByApp => inferInstanceAs (Codec OwnedUtxoKey)

theorem tag_prefix (name other : TableName) (shorter : name.table.tag <+: other.table.tag) :
    name = other := by
  cases name <;> cases other <;> first | rfl | exact absurd shorter (by decide)

end TableName

def Tabled (raw : RawKey) : Prop :=
  ∃ (name : TableName) (key : name.Key), Fits key ∧ raw = name.table.encodeKey key

theorem Tabled.of_holds {raw : RawKey} (tabled : Tabled raw) {name : TableName}
    (holds : name.table.Holds raw) : ∃ key : name.Key, Fits key ∧ raw = name.table.encodeKey key := by
  obtain ⟨other, key, fits, rfl⟩ := tabled
  have same : name = other := by
    rcases List.prefix_or_prefix_of_prefix holds (Table.holds_encodeKey other.table key) with
      shorter | longer
    · exact TableName.tag_prefix _ _ shorter
    · exact (TableName.tag_prefix _ _ longer).symm
  subst same
  exact ⟨key, fits, rfl⟩

/-- A range over a prefix holds exactly the keys that start with it, unless the prefix is all
255 and no string is above it. -/
theorem prefixKeyRange_exact (bytes : List Byte) (bounded : ∃ byte ∈ bytes, byte ≠ 255)
    (key : RawKey) : bytes ≤ key ∧ key < (prefixKeyRange bytes).2 ↔ bytes <+: key := by
  have parts := @List.takeWhile_append_dropWhile _ (fun byte : Byte => byte = 255) bytes.reverse
  have tops : bytes.reverse.takeWhile (fun byte : Byte => byte = 255) =
      List.replicate (bytes.reverse.takeWhile (fun byte : Byte => byte = 255)).length 255 := by
    apply List.eq_replicate_of_mem
    intro byte member
    simpa using List.mem_takeWhile_imp member
  simp only [prefixKeyRange]
  generalize bytes.reverse.takeWhile (fun byte : Byte => byte = 255) = full at parts tops
  cases rest : bytes.reverse.dropWhile (fun byte : Byte => byte = 255) with
  | nil =>
      rw [rest, List.append_nil] at parts
      obtain ⟨byte, member, below⟩ := bounded
      have inside : byte ∈ full := by
        rw [parts]
        exact List.mem_reverse.mpr member
      rw [tops] at inside
      exact absurd (List.eq_of_mem_replicate inside) below
  | cons byte rest' =>
      have head := List.head_dropWhile_not (fun byte : Byte => byte = 255)
        (by rw [rest]; exact List.cons_ne_nil byte rest')
      simp only [rest, List.head_cons, decide_eq_false_iff_not] at head
      rw [rest] at parts
      have whole : bytes = rest'.reverse ++ byte :: List.replicate full.length 255 := by
        rw [← List.reverse_reverse bytes, ← parts, tops]
        simp
      have successor : ∀ other : Byte, byte < other ↔ byte + 1 ≤ other := by
        intro other
        have small : byte.val + 1 < 256 := by
          have bound := byte.isLt
          have different : byte.val ≠ 255 := fun same => head (Fin.ext same)
          omega
        have next : (byte + 1).val = byte.val + 1 := by
          rw [Fin.val_add]
          exact Nat.mod_eq_of_lt small
        rw [Fin.lt_def, Fin.le_def, next]
        exact Iff.rfl
      change bytes ≤ key ∧ key < ((byte + 1) :: rest').reverse ↔ bytes <+: key
      rw [List.reverse_cons, whole]
      exact LexRange.successor_range (fun other => Fin.le_last other) successor rest'.reverse _ key

theorem mem_rangeKeys (db : DB) (range : RawKey × RawKey) (raw : RawKey) :
    raw ∈ rangeKeys db range ↔ raw ∈ writtenKeys db ∧ range.1 ≤ raw ∧ raw < range.2 := by
  simp [rangeKeys, List.mem_insertionSort, List.mem_dedup]

theorem pairwise_rangeKeys (db : DB) (range : RawKey × RawKey) :
    (rangeKeys db range).Pairwise (· ≤ ·) :=
  List.pairwise_insertionSort _ _

theorem TableName.range_exact (name : TableName) (raw : RawKey) :
    (name.table.encodeRange none none).1 ≤ raw ∧ raw < (name.table.encodeRange none none).2 ↔
      name.table.Holds raw := by
  have bounded : ∃ byte ∈ name.table.tag, byte ≠ 255 := by
    cases name <;> exact ⟨_, List.mem_cons_self, by decide⟩
  simp only [Table.encodeRange, Option.getD_none, List.append_nil]
  exact prefixKeyRange_exact name.table.tag bounded raw

theorem encode_append_lt {first second : U64} (left right : List Byte) (below : first < second) :
    encode first ++ left < encode second ++ right :=
  VarUInt.append_lt_append _ _ left right below (by have bound := second.isLt; omega)

theorem encode_lower (low number : U64) (rest : List Byte) :
    encode low ≤ encode number ++ rest ↔ low ≤ number := by
  constructor
  · intro above
    by_contra less
    have before := encode_append_lt rest [] (BitVec.not_le.mp less)
    rw [List.append_nil] at before
    exact absurd before (not_lt.mpr above)
  · intro above
    by_cases same : low = number
    · rw [same]
      exact LexRange.le_append _ _
    · have before := encode_append_lt [] rest (BitVec.lt_of_le_ne above same)
      rw [List.append_nil] at before
      exact le_of_lt before

theorem encode_upper (high number : U64) (rest : List Byte) :
    encode number ++ rest < encode high ↔ number < high := by
  constructor
  · intro below
    by_contra more
    have above := (encode_lower high number rest).mpr (BitVec.not_lt.mp more)
    exact absurd below (not_lt.mpr above)
  · intro below
    have before := encode_append_lt rest [] below
    rwa [List.append_nil] at before

theorem height_le_of_le {common left right : List Byte} {first second : U64}
    (ordered : common ++ (encode first ++ left) ≤ common ++ (encode second ++ right)) :
    first ≤ second := by
  rw [LexRange.append_le_append_iff] at ordered
  by_contra less
  exact absurd (encode_append_lt right left (BitVec.not_le.mp less)) (not_lt.mpr ordered)

def ownedTables : List (Table OwnedUtxoKey Unit) :=
  [RuneUtxosByScriptKV, UtxosByAddressKV, CharmsUtxosByScriptKV, CharmsUtxosByAppKV]

theorem Tabled.owned {raw : RawKey} (tabled : Tabled raw) {table : Table OwnedUtxoKey Unit}
    (member : table ∈ ownedTables) (holds : table.Holds raw) :
    ∃ key, Fits key ∧ raw = table.encodeKey key := by
  simp only [ownedTables, List.mem_cons, List.not_mem_nil, or_false] at member
  rcases member with rfl | rfl | rfl | rfl
  · exact @Tabled.of_holds raw tabled .runeUtxosByScript holds
  · exact @Tabled.of_holds raw tabled .utxosByAddress holds
  · exact @Tabled.of_holds raw tabled .charmsUtxosByScript holds
  · exact @Tabled.of_holds raw tabled .charmsUtxosByApp holds

theorem encodeKey_owned (table : Table OwnedUtxoKey Unit) (key : OwnedUtxoKey) :
    table.encodeKey key =
      table.tag ++ (encode key.owner ++ (encode key.producedHeight ++ encode key.txoRef)) := rfl

theorem owned_range_iff (table : Table OwnedUtxoKey Unit) (owner : List Byte) (low high : U64)
    (key : OwnedUtxoKey) (fitsOwner : Fits owner) (fits : Fits key) :
    (table.encodeRange (some (encode (owner, low))) (some (encode (owner, high)))).1 ≤
        table.encodeKey key ∧
      table.encodeKey key <
        (table.encodeRange (some (encode (owner, low))) (some (encode (owner, high)))).2 ↔
    key.owner = owner ∧ low ≤ key.producedHeight ∧ key.producedHeight < high := by
  have start : (table.encodeRange (some (encode (owner, low))) (some (encode (owner, high)))).1 =
      table.tag ++ (encode owner ++ encode low) := rfl
  have stop : (table.encodeRange (some (encode (owner, low))) (some (encode (owner, high)))).2 =
      table.tag ++ (encode owner ++ encode high) := rfl
  rw [start, stop, encodeKey_owned, LexRange.append_le_append_iff, LexRange.append_lt_append_iff]
  constructor
  · intro ⟨above, below⟩
    -- the owner's bytes are a prefix of the key, and encodings are prefix free
    obtain ⟨rest, split⟩ := LexRange.prefix_of_between _ _ _ _ above below
    have mine := decode_encode owner rest fitsOwner
    rw [split, decode_encode key.owner _ fits.1] at mine
    obtain rfl : key.owner = owner := congrArg Prod.fst (Except.ok.inj mine)
    rw [LexRange.append_le_append_iff] at above
    rw [LexRange.append_lt_append_iff] at below
    exact ⟨rfl, (encode_lower low _ _).mp above, (encode_upper high _ _).mp below⟩
  · rintro ⟨rfl, above, below⟩
    rw [LexRange.append_le_append_iff, LexRange.append_lt_append_iff]
    exact ⟨(encode_lower low _ _).mpr above, (encode_upper high _ _).mpr below⟩

theorem encodeKey_rollback (key : RollbackKey) :
    RollbackBufferKV.encodeKey key =
      RollbackBufferKV.tag ++ (encode key.height ++ (encode key.hash ++ encode key.key)) := by
  rw [← List.append_assoc (encode key.height)]
  rfl

theorem rollback_range_iff (key : RollbackKey) (height : U64) :
    (RollbackBufferKV.encodeRange none (some (encode height))).1 ≤ RollbackBufferKV.encodeKey key ∧
      RollbackBufferKV.encodeKey key <
        (RollbackBufferKV.encodeRange none (some (encode height))).2 ↔ key.height < height := by
  have start : (RollbackBufferKV.encodeRange none (some (encode height))).1 = RollbackBufferKV.tag := rfl
  have stop : (RollbackBufferKV.encodeRange none (some (encode height))).2 =
      RollbackBufferKV.tag ++ encode height := rfl
  have above : RollbackBufferKV.tag ≤ RollbackBufferKV.encodeKey key := LexRange.le_append _ _
  rw [start, stop, and_iff_right above, encodeKey_rollback, LexRange.append_lt_append_iff]
  exact encode_upper height key.height _

theorem strict_rangeKeys (db : DB) (range : RawKey × RawKey) :
    (rangeKeys db range).Pairwise (fun first second => first ≤ second ∧ first ≠ second) := by
  have distinct : (rangeKeys db range).Nodup :=
    (List.perm_insertionSort _ _).nodup_iff.mpr (List.nodup_dedup _)
  exact (pairwise_rangeKeys db range).and distinct

theorem get_unwritten {db : DB} {key : RawKey} (absent : key ∉ writtenKeys db) (ts : Timestamp) :
    db.get ts key = .ok none := by
  have idle (op : WriteOp) (commit : VersionedLog.Commit RocksTs WriteOp) (inside : commit ∈ db.log)
      (member : op ∈ commit.ops) : op.act key (.ok none) = .ok none := by
    cases op with
    | put target value =>
        have other : target ≠ key := by
          rintro rfl
          exact absent (List.mem_flatMap.mpr
            ⟨commit, inside, List.mem_filterMap.mpr ⟨_, member, rfl⟩⟩)
        rw [WriteOp.act, if_neg other]
    | delete target => rw [WriteOp.act, ite_self]
    | merge target operand =>
        have other : target ≠ key := by
          rintro rfl
          exact absent (List.mem_flatMap.mpr
            ⟨commit, inside, List.mem_filterMap.mpr ⟨_, member, rfl⟩⟩)
        rw [WriteOp.act, if_neg other]
    | deleteRange start stop => rw [WriteOp.act, ite_self]
  rw [DB.get, VersionedLog.readAt]
  have listed : ∀ op ∈ (VersionedLog.visible db.log ts.asRocksTs).flatMap
      VersionedLog.Commit.ops, op.act key (.ok none) = .ok none := by
    intro op member
    rcases List.mem_flatMap.mp member with ⟨commit, inside, here⟩
    rw [VersionedLog.visible, List.mem_insertionSort, List.mem_filter] at inside
    exact idle op commit inside.1 here
  generalize (VersionedLog.visible db.log ts.asRocksTs).flatMap
    VersionedLog.Commit.ops = ops at listed
  induction ops with
  | nil => rfl
  | cons op ops ih =>
      rw [VersionedLog.replay_cons, listed op List.mem_cons_self]
      exact ih (by
        intro other member
        exact listed other (List.mem_cons_of_mem _ member))

theorem view_unwritten {db : DB} {key : RawKey} (absent : key ∉ writtenKeys db) :
    db.view key = .ok none :=
  get_unwritten absent Timestamp.latest

section Scans

variable {db : DB} (tabled : ∀ raw ∈ writtenKeys db, Tabled raw)
include tabled

theorem table_scan (name : TableName) (raw : RawKey) :
    raw ∈ rangeKeys db (name.table.encodeRange none none) ↔
      raw ∈ writtenKeys db ∧ ∃ key : name.Key, Fits key ∧ raw = name.table.encodeKey key := by
  rw [mem_rangeKeys, name.range_exact]
  constructor
  · intro ⟨written, holds⟩
    exact ⟨written, (tabled raw written).of_holds holds⟩
  · rintro ⟨written, key, _, rfl⟩
    exact ⟨written, Table.holds_encodeKey _ _⟩

theorem owned_scan {table : Table OwnedUtxoKey Unit} (member : table ∈ ownedTables)
    (owner : List Byte) (low high : U64) (fitsOwner : Fits owner) (raw : RawKey) :
    raw ∈ rangeKeys db (table.encodeRange (some (encode (owner, low))) (some (encode (owner, high)))) ↔
      raw ∈ writtenKeys db ∧ ∃ key, Fits key ∧ raw = table.encodeKey key ∧ key.owner = owner ∧
        low ≤ key.producedHeight ∧ key.producedHeight < high := by
  rw [mem_rangeKeys]
  constructor
  · intro ⟨written, above, below⟩
    have holds : table.Holds raw := LexRange.prefix_of_between _ _ _ _ above below
    obtain ⟨key, fits, rfl⟩ := (tabled raw written).owned member holds
    exact ⟨written, key, fits, rfl,
      (owned_range_iff table owner low high key fitsOwner fits).mp ⟨above, below⟩⟩
  · rintro ⟨written, key, fits, rfl, inside⟩
    exact ⟨written, (owned_range_iff table owner low high key fitsOwner fits).mpr inside⟩

theorem rollback_scan (height : U64) (raw : RawKey) :
    raw ∈ rangeKeys db (RollbackBufferKV.encodeRange none (some (encode height))) ↔
      raw ∈ writtenKeys db ∧ ∃ key : RollbackKey, Fits key ∧ raw = RollbackBufferKV.encodeKey key ∧
        key.height < height := by
  rw [mem_rangeKeys]
  constructor
  · intro ⟨written, above, below⟩
    have holds : RollbackBufferKV.Holds raw := LexRange.prefix_of_between _ _ _ _ above below
    obtain ⟨key, fits, rfl⟩ := @Tabled.of_holds raw (tabled raw written) .rollbackBuffer holds
    exact ⟨written, key, fits, rfl, (rollback_range_iff key height).mp ⟨above, below⟩⟩
  · rintro ⟨written, key, _, rfl, inside⟩
    exact ⟨written, (rollback_range_iff key height).mpr inside⟩

end Scans

def AscendingHeights (table : Table OwnedUtxoKey Unit) (owner : List Byte) (scan : List RawKey) : Prop :=
  scan.Pairwise (fun first second => ∀ earlier later : OwnedUtxoKey,
    earlier.owner = owner → later.owner = owner → first = table.encodeKey earlier →
      second = table.encodeKey later → earlier.producedHeight ≤ later.producedHeight)

theorem ascendingHeights_rangeKeys (table : Table OwnedUtxoKey Unit) (owner : List Byte) (db : DB)
    (range : RawKey × RawKey) : AscendingHeights table owner (rangeKeys db range) := by
  apply (pairwise_rangeKeys db range).imp
  rintro first second ordered earlier later rfl same rfl rfl
  rw [encodeKey_owned, encodeKey_owned, same, LexRange.append_le_append_iff] at ordered
  exact height_le_of_le ordered

theorem AscendingHeights.newest {table : Table OwnedUtxoKey Unit} {owner : List Byte}
    {scan : List RawKey} (ascending : AscendingHeights table owner scan) {newest key : OwnedUtxoKey}
    (first : scan.reverse.head? = some (table.encodeKey newest)) (member : table.encodeKey key ∈ scan)
    (ownNewest : newest.owner = owner) (own : key.owner = owner)
    (fitsNewest : Fits newest) (fits : Fits key) : key.producedHeight ≤ newest.producedHeight := by
  rw [List.head?_reverse, List.getLast?_eq_some_iff] at first
  obtain ⟨older, rfl⟩ := first
  rw [AscendingHeights, List.pairwise_append] at ascending
  rcases List.mem_append.mp member with before | last
  · exact ascending.2.2 _ before _ (List.mem_singleton_self _) key newest own ownNewest rfl rfl
  · have same : key = newest :=
      table.encodeKey_injective fits fitsNewest (List.mem_singleton.mp last)
    rw [same]
    exact BitVec.le_refl _

/-- Range scans over keys of all tables are exact and in order of height. -/
theorem range_scans_exact (db : DB) (tabled : ∀ raw ∈ writtenKeys db, Tabled raw) :
    (∀ (name : TableName) (raw : RawKey),
      raw ∈ rangeKeys db (name.table.encodeRange none none) ↔
        raw ∈ writtenKeys db ∧ ∃ key : name.Key, Fits key ∧ raw = name.table.encodeKey key) ∧
    (∀ table ∈ ownedTables, ∀ (owner : List Byte) (low high : U64), Fits owner →
      let scan := rangeKeys db
        (table.encodeRange (some (encode (owner, low))) (some (encode (owner, high))))
      (∀ raw, raw ∈ scan ↔ raw ∈ writtenKeys db ∧ ∃ key, Fits key ∧ raw = table.encodeKey key ∧
        key.owner = owner ∧ low ≤ key.producedHeight ∧ key.producedHeight < high) ∧
      AscendingHeights table owner scan ∧
      ∀ newest key : OwnedUtxoKey, Fits newest → Fits key →
        scan.reverse.head? = some (table.encodeKey newest) → table.encodeKey key ∈ scan →
          key.producedHeight ≤ newest.producedHeight) ∧
    (∀ (height : U64) (raw : RawKey),
      raw ∈ rangeKeys db (RollbackBufferKV.encodeRange none (some (encode height))) ↔
        raw ∈ writtenKeys db ∧ ∃ key : RollbackKey, Fits key ∧ raw = RollbackBufferKV.encodeKey key ∧
          key.height < height) ∧
    (rangeKeys db (HashByHeightKV.encodeRange none none)).Pairwise (fun first second =>
      ∀ earlier later : U64, first = HashByHeightKV.encodeKey earlier →
        second = HashByHeightKV.encodeKey later → earlier < later) ∧
    (rangeKeys db (RollbackBufferKV.encodeRange none none)).Pairwise (fun first second =>
      ∀ earlier later : RollbackKey, first = RollbackBufferKV.encodeKey earlier →
        second = RollbackBufferKV.encodeKey later →
          earlier.height ≤ later.height ∧ (earlier.height = u64Max → later.height = u64Max)) := by
  refine ⟨table_scan tabled, ?_, rollback_scan tabled, ?_, ?_⟩
  · intro table member owner low high fitsOwner
    have exact := owned_scan tabled member owner low high fitsOwner
    have ascending := ascendingHeights_rangeKeys table owner db
      (table.encodeRange (some (encode (owner, low))) (some (encode (owner, high))))
    have owned (key : OwnedUtxoKey) (fits : Fits key) (inside : table.encodeKey key ∈ rangeKeys db
        (table.encodeRange (some (encode (owner, low))) (some (encode (owner, high))))) :
        key.owner = owner := by
      obtain ⟨_, other, fitsOther, same, own, _⟩ := (exact _).mp inside
      rw [table.encodeKey_injective fits fitsOther same]
      exact own
    refine ⟨exact, ascending, ?_⟩
    intro newest key fitsNewest fits first inside
    have last := List.mem_reverse.mp (List.mem_of_mem_head? (Option.mem_def.mpr first))
    exact ascending.newest first inside (owned newest fitsNewest last) (owned key fits inside)
      fitsNewest fits
  · apply (strict_rangeKeys db _).imp
    rintro first second ⟨ordered, different⟩ earlier later rfl rfl
    have below : earlier ≤ later := by
      apply @height_le_of_le HashByHeightKV.tag [] [] earlier later
      rw [List.append_nil, List.append_nil]
      exact ordered
    apply BitVec.lt_of_le_ne below
    intro same
    exact different (congrArg HashByHeightKV.encodeKey same)
  · apply (pairwise_rangeKeys db _).imp
    rintro first second ordered earlier later rfl rfl
    rw [encodeKey_rollback, encodeKey_rollback] at ordered
    have below := height_le_of_le ordered
    refine ⟨below, ?_⟩
    intro mempool
    rw [mempool] at below
    apply BitVec.eq_of_toNat_eq
    have bound := later.height.isLt
    rw [BitVec.le_def, u64Max, BitVec.toNat_allOnes] at below
    rw [u64Max, BitVec.toNat_allOnes]
    omega

def scannedDb : DB where
  log := [⟨1, [.put (UtxosByAddressKV.encodeKey ⟨[1], 300, TxoRef.null⟩) [],
    .put (UtxosByAddressKV.encodeKey ⟨[1], 3, TxoRef.null⟩) [],
    .put (UtxosByAddressKV.encodeKey ⟨[1, 2], 4, TxoRef.null⟩) [],
    .put (HashByHeightKV.encodeKey 3) (encode (List.Vector.replicate 32 (7 : Byte)))]⟩]
  fullHistoryTsLow := 0

theorem tabled_scannedDb : ∀ raw ∈ writtenKeys scannedDb, Tabled raw := by
  intro raw member
  simp only [writtenKeys, scannedDb, List.flatMap_cons, List.flatMap_nil, List.filterMap_cons,
    List.filterMap_nil, List.append_nil, List.mem_cons, List.not_mem_nil, or_false] at member
  rcases member with rfl | rfl | rfl | rfl
  · exact ⟨.utxosByAddress, _, ⟨⟨by decide, fun _ _ => trivial⟩, trivial, trivial⟩, rfl⟩
  · exact ⟨.utxosByAddress, _, ⟨⟨by decide, fun _ _ => trivial⟩, trivial, trivial⟩, rfl⟩
  · exact ⟨.utxosByAddress, _, ⟨⟨by decide, fun _ _ => trivial⟩, trivial, trivial⟩, rfl⟩
  · exact ⟨.hashByHeight, _, trivial, rfl⟩

theorem range_scans_exact_script :
    UtxosByAddressKV.encodeKey ⟨[1], 3, TxoRef.null⟩ ∈ rangeKeys scannedDb
      (UtxosByAddressKV.encodeRange (some (encode (([1] : List Byte), (2 : U64))))
        (some (encode (([1] : List Byte), (300 : U64))))) := by
  have exact := ((range_scans_exact scannedDb tabled_scannedDb).2.1 UtxosByAddressKV (by
    simp [ownedTables]) [1] 2 300 ⟨by decide, fun _ _ => trivial⟩).1
  rw [exact]
  exact ⟨by decide +kernel, _, ⟨⟨by decide, fun _ _ => trivial⟩, trivial, trivial⟩, rfl, rfl, by decide,
    by decide⟩

end Symphony
