import Mathlib.Data.List.Induction
import Symphony.Storage.RangeSpec
import Symphony.Sync.RollbackBuffer

/-! Reloading the rollback buffer (`fetch_from_storage`).

The entries come in key order, so those of one point follow each other and the newest point
comes last. -/

namespace Symphony

open Encdec
open Reader (rangeKeys writtenKeys)

/-- The order of points in the table: by height, then by hash. -/
def Point.Below (first second : Point) : Prop :=
  first.height < second.height ∨
    (first.height = second.height ∧ first.hash.toList < second.hash.toList)

def RollbackKey.point (key : RollbackKey) : Point := ⟨key.height, key.hash⟩

/-- A key comes before another one: at the same point, or at an earlier point. -/
def RollbackKey.Precedes (first second : RollbackKey) : Prop :=
  (first.point = second.point ∧ first.key ≠ second.key) ∨ first.point.Below second.point

namespace Point.Below

variable {first second third : Point}

theorem irrefl (point : Point) : ¬ point.Below point := by
  intro below
  rcases below with less | ⟨_, less⟩
  · exact absurd less (BitVec.lt_irrefl _)
  · exact absurd less (lt_irrefl _)

theorem trans (left : first.Below second) (right : second.Below third) : first.Below third := by
  rcases left with less | ⟨same, less⟩
  · rcases right with less' | ⟨same', _⟩
    · exact Or.inl (BitVec.lt_trans less less')
    · rw [same'] at less
      exact Or.inl less
  · rcases right with less' | ⟨same', less'⟩
    · rw [← same] at less'
      exact Or.inl less'
    · exact Or.inr ⟨same.trans same', lt_trans less less'⟩

theorem ne (below : first.Below second) : first ≠ second := by
  intro same
  rw [same] at below
  exact irrefl second below

end Point.Below

theorem RollbackKey.precedes_of_le {first second : RollbackKey}
    (ordered : RollbackBufferKV.encodeKey first ≤ RollbackBufferKV.encodeKey second)
    (different : RollbackBufferKV.encodeKey first ≠ RollbackBufferKV.encodeKey second) :
    first.Precedes second := by
  have below := lt_of_le_of_ne ordered different
  rw [encodeKey_rollback, encodeKey_rollback] at ordered below
  have heights := height_le_of_le ordered
  by_cases same : first.height = second.height
  · rw [same, LexRange.append_lt_append_iff, LexRange.append_lt_append_iff] at below
    have lengths : (encode first.hash : List BigEndian.Byte).length =
        (encode second.hash : List BigEndian.Byte).length :=
      first.hash.toList_length.trans second.hash.toList_length.symm
    rcases LexRange.lt_or_eq_of_append_lt lengths below with less | equal
    · exact Or.inr (Or.inr ⟨same, less⟩)
    · refine Or.inl ⟨?_, ?_⟩
      · have hashes : first.hash = second.hash := List.Vector.toList_injective equal
        rw [RollbackKey.point, RollbackKey.point, same, hashes]
      · intro keys
        have hashes : first.hash = second.hash := List.Vector.toList_injective equal
        apply different
        rw [encodeKey_rollback, encodeKey_rollback, same, hashes, keys]
  · exact Or.inr (Or.inl (BitVec.lt_of_le_ne heights same))

/-- The blocks hold exactly the entries, in descending order of points. -/
structure Grouped (entries : List (RollbackKey × PreviousValue)) (blocks : List PointWithOriginalKVs) :
    Prop where
  descending : blocks.Pairwise (fun newer older => older.point.Below newer.point)
  exact : ∀ block ∈ blocks, ∀ key value, block.originalKvs.lookup key = some value ↔
    (⟨block.point.height, block.point.hash, key⟩, value) ∈ entries
  covers : ∀ entry ∈ entries, ∃ block ∈ blocks, block.point = entry.1.point
  filled : ∀ block ∈ blocks, ∃ entry ∈ entries, entry.1.point = block.point

theorem RollbackKey.eq_of_point {first second : RollbackKey} (points : first.point = second.point)
    (keys : first.key = second.key) : first = second := by
  cases first
  cases second
  simp only [point, Point.mk.injEq] at points
  rw [RollbackKey.mk.injEq]
  exact ⟨points.1, points.2, keys⟩

section Grouping

variable {entries : List (RollbackKey × PreviousValue)} {blocks : List PointWithOriginalKVs}
variable {entry : RollbackKey × PreviousValue}

theorem grouped_nil : Grouped [] [] :=
  ⟨List.Pairwise.nil, by simp, by simp, by simp⟩

theorem extend_singleton (block : PointWithOriginalKVs) (key : RawKey) (value : PreviousValue) :
    RollbackBuffer.extend block (AList.singleton key value) =
      { block with originalKvs := block.originalKvs.insert key value } := rfl

theorem lookup_singleton (target key : RawKey) (value : PreviousValue) :
    (AList.singleton target value : HashMap RawKey PreviousValue).lookup key =
      if key = target then some value else none := by
  by_cases same : key = target
  · rw [if_pos same, same]
    exact List.dlookup_cons_eq _ _ _
  · rw [if_neg same]
    exact List.dlookup_cons_ne _ _ same

theorem Grouped.below (grouped : Grouped entries blocks)
    (later : ∀ earlier ∈ entries, earlier.1.Precedes entry.1)
    (new : ∀ block, blocks.head? = some block → block.point ≠ entry.1.point) :
    ∀ block ∈ blocks, block.point.Below entry.1.point := by
  cases blocks with
  | nil => simp
  | cons front rest =>
      have above : front.point.Below entry.1.point := by
        rcases grouped.filled front List.mem_cons_self with ⟨earlier, listed, same⟩
        rcases later earlier listed with ⟨equal, _⟩ | below
        · exact absurd (same.symm.trans equal) (new front rfl)
        · rw [← same]
          exact below
      intro block member
      rcases List.mem_cons.mp member with rfl | older
      · exact above
      · exact ((List.pairwise_cons.mp grouped.descending).1 block older).trans above

theorem not_mem_of_point {block : PointWithOriginalKVs} {key : RawKey} {value : PreviousValue}
    (other : block.point ≠ entry.1.point) :
    ((⟨block.point.height, block.point.hash, key⟩ : RollbackKey), value) ≠ entry := by
  rintro rfl
  exact other rfl

theorem Grouped.snoc_front {front : PointWithOriginalKVs} {rest : List PointWithOriginalKVs}
    (grouped : Grouped entries (front :: rest))
    (later : ∀ earlier ∈ entries, earlier.1.Precedes entry.1)
    (same : front.point = entry.1.point) :
    Grouped (entries ++ [entry])
      ({ front with originalKvs := front.originalKvs.insert entry.1.key entry.2 } :: rest) := by
  have older := List.pairwise_cons.mp grouped.descending
  refine ⟨List.pairwise_cons.mpr older, ?_, ?_, ?_⟩
  · intro block member key value
    rw [List.mem_append, List.mem_singleton]
    rcases List.mem_cons.mp member with rfl | below
    · by_cases here : key = entry.1.key
      · have absent : (⟨front.point.height, front.point.hash, key⟩, value) ∉ entries := by
          intro listed
          rcases later _ listed with ⟨_, different⟩ | less
          · exact different here
          · exact less.ne same
        rw [here, AList.lookup_insert, ← here, or_iff_right absent, Option.some.injEq]
        constructor
        · intro equal
          have key' : (⟨front.point.height, front.point.hash, key⟩ : RollbackKey) = entry.1 :=
            RollbackKey.eq_of_point same here
          rw [key', ← equal]
        · intro equal
          rw [← equal]
      · have other : ((⟨front.point.height, front.point.hash, key⟩ : RollbackKey), value) ≠ entry := by
          rintro rfl
          exact here rfl
        rw [AList.lookup_insert_ne here, or_iff_left other]
        exact grouped.exact front List.mem_cons_self key value
    · have other : block.point ≠ entry.1.point := by
        rw [← same]
        exact (older.1 block below).ne
      rw [or_iff_left (not_mem_of_point other)]
      exact grouped.exact block (List.mem_cons_of_mem _ below) key value
  · intro other member
    rcases List.mem_append.mp member with old | new
    · rcases grouped.covers other old with ⟨block, listed, point⟩
      rcases List.mem_cons.mp listed with rfl | below
      · exact ⟨_, List.mem_cons_self, point⟩
      · exact ⟨block, List.mem_cons_of_mem _ below, point⟩
    · rw [List.mem_singleton.mp new]
      exact ⟨_, List.mem_cons_self, same⟩
  · intro block member
    rcases List.mem_cons.mp member with rfl | below
    · exact ⟨entry, List.mem_append_right _ List.mem_cons_self, same.symm⟩
    · rcases grouped.filled block (List.mem_cons_of_mem _ below) with ⟨earlier, listed, point⟩
      exact ⟨earlier, List.mem_append_left _ listed, point⟩

theorem Grouped.snoc_new (grouped : Grouped entries blocks)
    (above : ∀ block ∈ blocks, block.point.Below entry.1.point) :
    Grouped (entries ++ [entry]) (⟨entry.1.point, AList.singleton entry.1.key entry.2⟩ :: blocks) := by
  refine ⟨List.pairwise_cons.mpr ⟨above, grouped.descending⟩, ?_, ?_, ?_⟩
  · intro block member key value
    rw [List.mem_append, List.mem_singleton]
    rcases List.mem_cons.mp member with rfl | old
    · have absent : (⟨entry.1.point.height, entry.1.point.hash, key⟩, value) ∉ entries := by
        intro listed
        rcases grouped.covers _ listed with ⟨block, inside, same⟩
        exact (above block inside).ne same
      rw [lookup_singleton, or_iff_right absent]
      constructor
      · intro found
        split at found
        · rename_i here
          rw [here, ← Option.some.inj found]
          rfl
        · cases found
      · intro equal
        rw [← equal, if_pos rfl]
    · rw [or_iff_left (not_mem_of_point (above block old).ne)]
      exact grouped.exact block old key value
  · intro other member
    rcases List.mem_append.mp member with old | new
    · rcases grouped.covers other old with ⟨block, listed, same⟩
      exact ⟨block, List.mem_cons_of_mem _ listed, same⟩
    · rw [List.mem_singleton.mp new]
      exact ⟨_, List.mem_cons_self, rfl⟩
  · intro block member
    rcases List.mem_cons.mp member with rfl | old
    · exact ⟨entry, List.mem_append_right _ List.mem_cons_self, rfl⟩
    · rcases grouped.filled block old with ⟨earlier, listed, point⟩
      exact ⟨earlier, List.mem_append_left _ listed, point⟩

theorem Grouped.not_mem_front {front : PointWithOriginalKVs} {rest : List PointWithOriginalKVs}
    (grouped : Grouped entries (front :: rest))
    (later : ∀ earlier ∈ entries, earlier.1.Precedes entry.1)
    (same : front.point = entry.1.point) : entry.1.key ∉ front.originalKvs := by
  intro member
  rcases Option.isSome_iff_exists.mp (AList.lookup_isSome.mpr member) with ⟨value, found⟩
  rcases later _ ((grouped.exact front List.mem_cons_self _ value).mp found) with
    ⟨_, different⟩ | below
  · exact different rfl
  · exact below.ne same

theorem Grouped.insert (grouped : Grouped entries blocks) {buffer : RollbackBuffer}
    (held : buffer.points = blocks.take buffer.size) (room : 0 < buffer.size)
    (later : ∀ earlier ∈ entries, earlier.1.Precedes entry.1) :
    ∃ blocks', Grouped (entries ++ [entry]) blocks' ∧
      buffer.insertActionsForPoint entry.1.point (AList.singleton entry.1.key entry.2) =
        .ok { buffer with points := blocks'.take buffer.size } := by
  rcases Nat.exists_eq_succ_of_ne_zero (Nat.pos_iff_ne_zero.mp room) with ⟨count, size⟩
  by_cases front : ∃ block rest, blocks = block :: rest ∧ block.point = entry.1.point
  · rcases front with ⟨block, rest, rfl, same⟩
    refine ⟨_, grouped.snoc_front later same, ?_⟩
    rw [size, List.take_succ_cons] at held
    have position : buffer.position entry.1.point = some 0 := by
      rw [RollbackBuffer.position, held, List.findIdx?_cons, if_pos (by simpa using same)]
    have fresh : (AList.singleton entry.1.key entry.2 : HashMap RawKey PreviousValue).keys.any
        (fun key => (buffer.points[0]?.map
          (fun found => decide (key ∈ found.originalKvs))).getD false) = false := by
      rw [held]
      simpa [AList.keys_singleton] using grouped.not_mem_front later same
    simp only [RollbackBuffer.insertActionsForPoint, position, fresh, Bool.and_false,
      Bool.false_eq_true, if_false]
    simp only [held, size, List.take_succ_cons, List.modify_zero_cons, extend_singleton]
  · have below := grouped.below later (by
      intro block head same
      cases blocks with
      | nil => cases head
      | cons first rest =>
          obtain rfl : first = block := by simpa using head
          exact front ⟨first, rest, rfl, same⟩)
    refine ⟨_, grouped.snoc_new below, ?_⟩
    have position : buffer.position entry.1.point = none := by
      rw [RollbackBuffer.position, List.findIdx?_eq_none_iff, held]
      intro block member
      exact decide_eq_false (below block (List.mem_of_mem_take member)).ne
    simp only [RollbackBuffer.insertActionsForPoint, position, RollbackBuffer.addBlock, held, size,
      List.take_succ_cons, List.take_take, Nat.min_eq_left (Nat.le_succ count)]

end Grouping

theorem insert_entries (maxRollback : Nat) (safeMode : Bool)
    (entries : List (RollbackKey × PreviousValue))
    (ascending : entries.Pairwise (fun first second => first.1.Precedes second.1)) :
    ∃ blocks, Grouped entries blocks ∧
      (entries.map Except.ok).foldlM (fun buffer item => do
        let (key, value) ← item
        RollbackBuffer.insertActionsForPoint buffer ⟨key.height, key.hash⟩
          (AList.singleton key.key value)) (RollbackBuffer.new maxRollback safeMode) =
      (.ok ⟨blocks.take (maxRollback + 2), maxRollback + 2, safeMode⟩ : Except Error RollbackBuffer) := by
  induction entries using List.reverseRecOn with
  | nil => exact ⟨[], grouped_nil, rfl⟩
  | append_singleton entries entry ih =>
      rw [List.pairwise_append] at ascending
      rcases ih ascending.1 with ⟨blocks, grouped, loaded⟩
      rcases @Grouped.insert entries blocks entry grouped
        ⟨blocks.take (maxRollback + 2), maxRollback + 2, safeMode⟩ rfl (Nat.succ_pos _)
        (by
          intro earlier member
          exact ascending.2.2 earlier member entry List.mem_cons_self) with ⟨blocks', grouped', inserted⟩
      refine ⟨blocks', grouped', ?_⟩
      rw [RollbackKey.point] at inserted
      rw [List.map_append, List.foldlM_append, loaded]
      simp only [List.map_cons, List.map_nil, List.foldlM_cons, List.foldlM_nil, bind, Except.bind,
        inserted, pure, Except.pure]

/-- Every stored entry of the rollback table is a well-formed one. -/
def Readable (db : DB) : Prop :=
  ∀ raw, RollbackBufferKV.Holds raw → db.view raw = .ok none ∨
    ∃ (key : RollbackKey) (value : PreviousValue), Fits key ∧ Fits value ∧
      raw = RollbackBufferKV.encodeKey key ∧ db.view raw = .ok (some (encode value))

theorem holds_of_rollback_range {db : DB} {raw : RawKey}
    (member : raw ∈ rangeKeys db (RollbackBufferKV.encodeRange none none)) :
    RollbackBufferKV.Holds raw :=
  (TableName.range_exact .rollbackBuffer raw).mp ((mem_rangeKeys db _ raw).mp member).2

theorem decodeEntry_rollback {key : RollbackKey} {value : PreviousValue} (fits : Fits key)
    (fitsValue : Fits value) :
    Reader.decodeEntry RollbackBufferKV (RollbackBufferKV.encodeKey key) (encode value) =
      .ok (key, value) := by
  have body : (RollbackBufferKV.encodeKey key).drop RollbackBufferKV.tag.length = encode key :=
    List.drop_left
  simp only [Reader.decodeEntry, body, decodeAll_encode key fits, decodeAll_encode value fitsValue,
    liftDecoding, bind, Except.bind, pure, Except.pure]

theorem scan_entries {db : DB} (readable : Readable db) (keys : List RawKey)
    (held : ∀ raw ∈ keys, RollbackBufferKV.Holds raw)
    (ascending : keys.Pairwise (fun first second => first ≤ second ∧ first ≠ second)) :
    ∃ entries : List (RollbackKey × PreviousValue),
      keys.filterMap (fun key => match db.get Timestamp.latest key with
        | .ok none => none
        | .ok (some value) => some (Reader.decodeEntry RollbackBufferKV key value)
        | .error failure => some (.error failure)) = entries.map Except.ok ∧
      entries.Pairwise (fun first second => first.1.Precedes second.1) ∧
      ∀ key value, (key, value) ∈ entries ↔ Fits key ∧ Fits value ∧
        RollbackBufferKV.encodeKey key ∈ keys ∧
          db.view (RollbackBufferKV.encodeKey key) = .ok (some (encode value)) := by
  induction keys with
  | nil => exact ⟨[], rfl, List.Pairwise.nil, by simp⟩
  | cons raw keys ih =>
      rw [List.pairwise_cons] at ascending
      rcases ih (by
        intro other member
        exact held other (List.mem_cons_of_mem _ member)) ascending.2 with
        ⟨entries, scanned, ordered, exact⟩
      rcases readable raw (held raw List.mem_cons_self) with silent | ⟨key, value, fits, fitsValue, rfl, stored⟩
      · refine ⟨entries, ?_, ordered, ?_⟩
        · rw [List.filterMap_cons, show db.get Timestamp.latest raw = _ from silent]
          exact scanned
        · intro key value
          rw [exact key value, List.mem_cons]
          constructor
          · intro ⟨fits, fitsValue, member, stored⟩
            exact ⟨fits, fitsValue, Or.inr member, stored⟩
          · rintro ⟨fits, fitsValue, rfl | member, stored⟩
            · rw [silent] at stored
              cases stored
            · exact ⟨fits, fitsValue, member, stored⟩
      · refine ⟨(key, value) :: entries, ?_, ?_, ?_⟩
        · rw [List.filterMap_cons, show db.get Timestamp.latest _ = _ from stored]
          simp only [decodeEntry_rollback fits fitsValue, List.map_cons, scanned]
        · rw [List.pairwise_cons]
          refine ⟨?_, ordered⟩
          intro later member
          have above := ascending.1 _ ((exact later.1 later.2).mp member).2.2.1
          exact RollbackKey.precedes_of_le above.1 above.2
        · intro other original
          rw [List.mem_cons, exact other original, List.mem_cons]
          constructor
          · rintro (same | ⟨fitsOther, fitsOriginal, member, found⟩)
            · cases same
              exact ⟨fits, fitsValue, Or.inl rfl, stored⟩
            · exact ⟨fitsOther, fitsOriginal, Or.inr member, found⟩
          · rintro ⟨fitsOther, fitsOriginal, same | member, found⟩
            · left
              obtain rfl := RollbackBufferKV.encodeKey_injective fitsOther fits same
              rw [stored, Except.ok.injEq, Option.some.injEq] at found
              rw [encode_injective fitsValue fitsOriginal found]
            · exact Or.inr ⟨fitsOther, fitsOriginal, member, found⟩

theorem fetch_readable {db : DB} (readable : Readable db) (maxRollback : Nat) (safeMode : Bool) :
    ∃ entries blocks, Grouped entries blocks ∧
      (∀ key value, (key, value) ∈ entries ↔ Fits key ∧ Fits value ∧
        db.view (RollbackBufferKV.encodeKey key) = .ok (some (encode value))) ∧
      RollbackBuffer.fetchFromStorage maxRollback safeMode (StorageHandler.openDb db) =
        .ok ⟨blocks.take (maxRollback + 2), maxRollback + 2, safeMode⟩ := by
  rcases scan_entries readable (rangeKeys db (RollbackBufferKV.encodeRange none none))
    (fun raw member => holds_of_rollback_range member) (strict_rangeKeys db _) with
    ⟨entries, scanned, ordered, exact⟩
  rcases insert_entries maxRollback safeMode entries ordered with ⟨blocks, grouped, loaded⟩
  refine ⟨entries, blocks, grouped, ?_, ?_⟩
  · intro key value
    rw [exact key value]
    constructor
    · intro ⟨fits, fitsValue, _, stored⟩
      exact ⟨fits, fitsValue, stored⟩
    · intro ⟨fits, fitsValue, stored⟩
      refine ⟨fits, fitsValue, (mem_rangeKeys db _ _).mpr ⟨?_, ?_⟩, stored⟩
      · by_contra absent
        rw [view_unwritten absent] at stored
        cases stored
      · exact (TableName.range_exact .rollbackBuffer _).mpr (Table.holds_encodeKey RollbackBufferKV _)
  · rw [← loaded, ← scanned]
    rfl

def HoldsEntry (db : DB) (key : RollbackKey) (value : PreviousValue) : Prop :=
  Fits key ∧ Fits value ∧ db.view (RollbackBufferKV.encodeKey key) = .ok (some (encode value))

/-- The newest points of a table, each once and with all its entries. -/
structure Reloaded (db : DB) (capacity : Nat) (points : List PointWithOriginalKVs) : Prop where
  descending : points.Pairwise (fun newer older => older.point.Below newer.point)
  distinct : (points.map PointWithOriginalKVs.point).Nodup
  complete : ∀ block ∈ points, ∀ key value, block.originalKvs.lookup key = some value ↔
    HoldsEntry db ⟨block.point.height, block.point.hash, key⟩ value
  filled : ∀ block ∈ points, ∃ key value, HoldsEntry db key value ∧ key.point = block.point
  bounded : points.length ≤ capacity
  newest : ∀ key value, HoldsEntry db key value → (∃ block ∈ points, block.point = key.point) ∨
    points.length = capacity ∧ ∀ block ∈ points, key.point.Below block.point
  mempool : ∀ key value, HoldsEntry db key value → key.height = u64Max →
    ∃ block, points.head? = some block ∧ block.point.height = u64Max

theorem Point.Below.height_le {first second : Point} (below : first.Below second) :
    first.height ≤ second.height := by
  rw [BitVec.le_def]
  rcases below with less | ⟨same, _⟩
  · exact Nat.le_of_lt less
  · exact Nat.le_of_eq (congrArg BitVec.toNat same)

theorem Grouped.reloaded {entries : List (RollbackKey × PreviousValue)}
    {blocks : List PointWithOriginalKVs} {db : DB} {capacity : Nat} (grouped : Grouped entries blocks)
    (listed : ∀ key value, (key, value) ∈ entries ↔ HoldsEntry db key value)
    (room : 0 < capacity) : Reloaded db capacity (blocks.take capacity) := by
  have kept (block : PointWithOriginalKVs) (member : block ∈ blocks.take capacity) : block ∈ blocks :=
    List.mem_of_mem_take member
  have newest : ∀ key value, HoldsEntry db key value →
      (∃ block ∈ blocks.take capacity, block.point = key.point) ∨
        (blocks.take capacity).length = capacity ∧
          ∀ block ∈ blocks.take capacity, key.point.Below block.point := by
    intro key value holds
    rcases grouped.covers _ ((listed key value).mpr holds) with ⟨block, member, same⟩
    rw [← List.take_append_drop capacity blocks, List.mem_append] at member
    rcases member with front | cut
    · exact Or.inl ⟨block, front, same⟩
    · right
      have longer : capacity < blocks.length := by
        have some := List.length_pos_of_mem cut
        rw [List.length_drop] at some
        omega
      have order := grouped.descending
      rw [← List.take_append_drop capacity blocks, List.pairwise_append] at order
      refine ⟨by rw [List.length_take, Nat.min_eq_left (Nat.le_of_lt longer)], ?_⟩
      intro newer front
      rw [← same]
      exact order.2.2 newer front block cut
  have descending := grouped.descending.sublist (List.take_sublist capacity blocks)
  constructor
  · exact descending
  · rw [List.Nodup, List.pairwise_map]
    exact descending.imp (fun below => below.ne.symm)
  · intro block member key value
    rw [grouped.exact block (kept block member), listed]
  · intro block member
    rcases grouped.filled block (kept block member) with ⟨entry, inside, same⟩
    exact ⟨entry.1, entry.2, (listed _ _).mp inside, same⟩
  · rw [List.length_take]
    exact Nat.min_le_left _ _
  · exact newest
  · intro key value holds top
    -- the first point is at least as high as any other
    have highest (block : PointWithOriginalKVs) (above : key.height ≤ block.point.height) :
        block.point.height = u64Max := by
      have bound := block.point.height.isLt
      rw [top, u64Max, BitVec.le_def, BitVec.toNat_allOnes] at above
      apply BitVec.eq_of_toNat_eq
      rw [u64Max, BitVec.toNat_allOnes]
      omega
    cases points : blocks.take capacity with
    | nil =>
        rcases newest key value holds with ⟨block, member, _⟩ | ⟨full, _⟩
        · rw [points] at member
          cases member
        · rw [points, List.length_nil] at full
          omega
    | cons front rest =>
        refine ⟨front, rfl, highest front ?_⟩
        rw [points] at newest descending
        rcases newest key value holds with ⟨block, member, same⟩ | ⟨_, above⟩
        · have height : block.point.height = key.height := congrArg Point.height same
          rcases List.mem_cons.mp member with rfl | older
          · rw [height]
            exact BitVec.le_refl _
          · rw [← height]
            exact ((List.pairwise_cons.mp descending).1 block older).height_le
        · exact (above front List.mem_cons_self).height_le

/-- Whatever the table holds, the reload keeps exactly the newest points it has room for, in
descending order, each once and complete, with the mempool in front; no check fails. -/
theorem rollback_reload_exact (maxRollback : Nat) (safeMode : Bool) (handler : StorageHandler)
    (readable : Readable handler.db) :
    ∃ buffer, RollbackBuffer.fetchFromStorage maxRollback safeMode handler = .ok buffer ∧
      buffer.size = maxRollback + 2 ∧ buffer.safeMode = safeMode ∧
      Reloaded handler.db buffer.size buffer.points := by
  rcases fetch_readable readable maxRollback safeMode with ⟨entries, blocks, grouped, listed, loaded⟩
  exact ⟨_, loaded, rfl, rfl, grouped.reloaded listed (Nat.succ_pos _)⟩

def reloadedEntries : List (RollbackKey × PreviousValue) :=
  [(⟨7, List.Vector.replicate 32 1, [5]⟩, .notPresent),
    (⟨3, List.Vector.replicate 32 2, [5]⟩, .notPresent),
    (⟨u64Max, List.Vector.replicate 32 0, [6]⟩, .present [8]),
    (⟨7, List.Vector.replicate 32 0, [5]⟩, .notPresent),
    (⟨u64Max, List.Vector.replicate 32 0, [5]⟩, .notPresent)]

def reloadedDb : DB where
  log := [⟨1, reloadedEntries.map (fun entry =>
    .put (RollbackBufferKV.encodeKey entry.1) (encode entry.2))⟩]
  fullHistoryTsLow := 0

theorem readable_reloadedDb : Readable reloadedDb := by
  intro raw _
  by_cases written : raw ∈ writtenKeys reloadedDb
  · right
    have stored : ∀ entry ∈ reloadedEntries, reloadedDb.view (RollbackBufferKV.encodeKey entry.1) =
        .ok (some (encode entry.2)) := by decide +kernel
    have short : ∀ entry ∈ reloadedEntries, entry.1.key.length < 2 ^ 64 := by decide
    have keys : writtenKeys reloadedDb =
        reloadedEntries.map (fun entry => RollbackBufferKV.encodeKey entry.1) := by decide +kernel
    rw [keys, List.mem_map] at written
    rcases written with ⟨entry, member, rfl⟩
    have fits : Fits entry.1 := ⟨short entry member, fun _ _ => trivial⟩
    have small : ∀ entry ∈ reloadedEntries, ∀ bytes ∈ entry.2.toOption, bytes.length < 2 ^ 64 := by
      decide
    have fitsValue : Fits entry.2 :=
      fun bytes held => ⟨small entry member bytes held, fun _ _ => trivial⟩
    exact ⟨entry.1, entry.2, fits, fitsValue, rfl, stored entry member⟩
  · exact Or.inl (view_unwritten written)

/-- With room for two points the mempool and the newer of the two blocks are kept. -/
theorem rollback_reload_exact_mempool :
    ∃ buffer, RollbackBuffer.fetchFromStorage 0 true (StorageHandler.openDb reloadedDb) = .ok buffer ∧
      buffer.points.map (fun block => (block.point, block.originalKvs.keys)) =
        [(⟨u64Max, List.Vector.replicate 32 0⟩, [[6], [5]]), (⟨7, List.Vector.replicate 32 1⟩, [[5]])] ∧
      Reloaded reloadedDb 2 buffer.points := by
  rcases rollback_reload_exact 0 true (StorageHandler.openDb reloadedDb) readable_reloadedDb with
    ⟨buffer, loaded, size, _, reloaded⟩
  have points : (RollbackBuffer.fetchFromStorage 0 true (StorageHandler.openDb reloadedDb)).map
      (fun buffer => buffer.points.map (fun block => (block.point, block.originalKvs.keys))) =
        .ok [(⟨u64Max, List.Vector.replicate 32 0⟩, [[6], [5]]),
          (⟨7, List.Vector.replicate 32 1⟩, [[5]])] := by decide +kernel
  rw [loaded] at points
  rw [size] at reloaded
  exact ⟨buffer, loaded, Except.ok.inj points, reloaded⟩

end Symphony
