import Symphony.Storage.RangeSpec

/-! What the scans of the routes yield. -/

namespace Symphony

open Encdec
open Reader (rangeKeys writtenKeys)

/-- The reader sees these cells, whatever was committed since. -/
def Reader.Sees (reader : Reader) (view : RawKey → Cell) : Prop :=
  ∀ raw, reader.db.get reader.timestamp raw = view raw

theorem StorageHandler.sees_latest (handler : StorageHandler) :
    (handler.reader Timestamp.latest).Sees handler.db.view :=
  fun _ => rfl

section Scans

variable {Key Value : Type} [Codec Key] [Codec Value] {table : Table Key Value} {reader : Reader}
variable {view : RawKey → Cell} {range : RawKey × RawKey}

theorem Reader.Sees.get (sees : reader.Sees view) (key : Key) :
    reader.get table key = IndexingTask.decodeCell (view (table.encodeKey key)) := by
  rw [Reader.get, sees]

/-- The cell is empty, or that of an entry of the table. -/
def EntryCell (table : Table Key Value) (view : RawKey → Cell) (raw : RawKey) : Prop :=
  view raw = .ok none ∨ ∃ (key : Key) (value : Value), Fits key ∧ Fits value ∧
    raw = table.encodeKey key ∧ view raw = .ok (some (encode value))

structure Holds (table : Table Key Value) (view : RawKey → Cell) (keys : List RawKey)
    (items : List (Key × Value)) : Prop where
  order : (items.map (fun item => table.encodeKey item.1)).Sublist keys
  fits : ∀ item ∈ items, Fits item.1 ∧ Fits item.2
  mem : ∀ key value, Fits key → Fits value → ((key, value) ∈ items ↔
    table.encodeKey key ∈ keys ∧ view (table.encodeKey key) = .ok (some (encode value)))

theorem decodeEntry_encode {key : Key} {value : Value} (fits : Fits key) (fits' : Fits value) :
    Reader.decodeEntry table (table.encodeKey key) (encode value) = .ok (key, value) := by
  rw [Reader.decodeEntry, Table.encodeKey, List.drop_left, decodeAll_encode key fits,
    decodeAll_encode value fits']
  rfl

theorem holds_of_entries {keys : List RawKey} (distinct : keys.Nodup)
    (cells : ∀ raw ∈ keys, EntryCell table view raw) :
    ∃ items : List (Key × Value), keys.filterMap (fun key => match view key with
        | .ok none => none
        | .ok (some value) => some (Reader.decodeEntry table key value)
        | .error failure => some (.error failure)) = items.map .ok ∧ Holds table view keys items := by
  induction keys with
  | nil => exact ⟨[], rfl, List.Sublist.refl _, by simp, by simp⟩
  | cons raw keys ih =>
      rw [List.forall_mem_cons] at cells
      rw [List.nodup_cons] at distinct
      rcases ih distinct.2 cells.2 with ⟨items, same, holds⟩
      rcases cells.1 with empty | ⟨key, value, fits, fits', rfl, present⟩
      · refine ⟨items, ?_, holds.order.cons raw, holds.fits, ?_⟩
        · rw [List.filterMap_cons, empty]
          exact same
        · intro key value fits fits'
          rw [holds.mem key value fits fits', List.mem_cons]
          constructor
          · intro ⟨member, found⟩
            exact ⟨Or.inr member, found⟩
          · rintro ⟨rfl | member, found⟩
            · rw [empty] at found
              cases found
            · exact ⟨member, found⟩
      · refine ⟨(key, value) :: items, ?_, holds.order.cons_cons _, ?_, ?_⟩
        · rw [List.filterMap_cons, present, List.map_cons]
          simp only [decodeEntry_encode fits fits', same]
        · rw [List.forall_mem_cons]
          exact ⟨⟨fits, fits'⟩, holds.fits⟩
        · intro other value' fitsOther fitsValue
          rw [List.mem_cons, List.mem_cons, holds.mem other value' fitsOther fitsValue]
          constructor
          · rintro (equal | ⟨member, found⟩)
            · cases equal
              exact ⟨Or.inl rfl, present⟩
            · exact ⟨Or.inr member, found⟩
          · rintro ⟨equal | member, found⟩
            · obtain rfl := Table.encodeKey_injective table fitsOther fits equal
              rw [present, Except.ok.injEq, Option.some.injEq] at found
              rw [encode_injective fits' fitsValue found]
              exact Or.inl rfl
            · exact Or.inr ⟨member, found⟩

/-- A scan over entries of a table yields exactly those of the range, in the order of their keys. -/
theorem Reader.Sees.iterKvs (sees : reader.Sees view)
    (cells : ∀ raw, range.1 ≤ raw → raw < range.2 → EntryCell table view raw) :
    ∃ items : List (Key × Value), reader.iterKvs table range false = items.map .ok ∧
      (items.map (fun item => table.encodeKey item.1)).Pairwise (fun first second =>
        first ≤ second ∧ first ≠ second) ∧
      (∀ item ∈ items, Fits item.1 ∧ Fits item.2) ∧
      ∀ key value, Fits key → Fits value → ((key, value) ∈ items ↔
        range.1 ≤ table.encodeKey key ∧ table.encodeKey key < range.2 ∧
          view (table.encodeKey key) = .ok (some (encode value))) := by
  have sorted := strict_rangeKeys reader.db range
  have inside : ∀ raw ∈ rangeKeys reader.db range, EntryCell table view raw := by
    intro raw member
    rw [mem_rangeKeys] at member
    exact cells raw member.2.1 member.2.2
  rcases holds_of_entries (sorted.imp (fun both => both.2)) inside with ⟨items, same, holds⟩
  refine ⟨items, ?_, sorted.sublist holds.order, holds.fits, ?_⟩
  · rw [← same, Reader.iterKvs]
    simp only [Bool.false_eq_true, if_false]
    apply List.filterMap_congr
    intro raw _
    rewrite [sees raw]
    rfl
  · intro key value fits fits'
    rw [holds.mem key value fits fits', mem_rangeKeys]
    constructor
    · rintro ⟨⟨_, above, below⟩, found⟩
      exact ⟨above, below, found⟩
    · rintro ⟨above, below, found⟩
      refine ⟨⟨?_, above, below⟩, found⟩
      by_contra absent
      have empty := get_unwritten absent reader.timestamp
      rw [sees, found] at empty
      cases empty

end Scans

end Symphony
