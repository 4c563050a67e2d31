import Symphony.Proof.TxRule
import Symphony.Serve.AddressRoutes
import Symphony.Serve.ScanSpec
import Symphony.Sync.MappedTable
import Symphony.Sync.OwnedIndex

/-! Scans of the tables that list the outputs of an owner. -/

namespace Symphony

open BigEndian (Byte)
open Encdec

theorem Reader.iterKvs_reverse {Key Value : Type} [Decode Key] [Decode Value] (reader : Reader)
    (table : Table Key Value) (range : RawKey × RawKey) :
    reader.iterKvs table range true = (reader.iterKvs table range false).reverse := by
  simp only [Reader.iterKvs, if_true, Bool.false_eq_true, if_false, List.filterMap_reverse]

section Scans

variable {kv : OwnedTable} {tables : List OwnedTable} {listed : OwnedUtxoKey → Prop}
variable {view : RawKey → Cell} {reader : Reader} {owner : List Byte}

theorem Lists.entryCell (lists : Lists view kv listed)
    (keyed : ∀ raw, kv.indexer.Owns raw → ¬ OwnedRaw tables raw → view raw = .ok none)
    (apart : ∀ other ∈ tables, other = kv ∨ other.indexer = kv.indexer ∧ other.table ≠ kv.table)
    {raw : RawKey} (held : kv.toTable.Holds raw) : EntryCell kv.toTable view raw := by
  by_cases known : OwnedRaw tables raw
  · rcases known with ⟨other, member, key, short, rfl⟩
    rcases apart other member with rfl | ⟨same, different⟩
    · by_cases inside : listed key
      · exact Or.inr ⟨key, (), fits_owned short, trivial, rfl, (lists key short).1 inside⟩
      · exact Or.inl ((lists key short).2 inside)
    · exact absurd held (kv.not_holds_raw other same.symm different.symm key)
  · exact Or.inl (keyed raw (TransactionIndexer.owns_table held) known)

theorem Lists.scan (lists : Lists view kv listed) (sees : reader.Sees view)
    (cells : ∀ raw, kv.toTable.Holds raw → EntryCell kv.toTable view raw)
    (short : owner.length < 2 ^ 64) :
    ∃ keys : List OwnedUtxoKey,
      reader.iterKvs kv.toTable (Serve.ownerRange kv.toTable owner) false =
        keys.map (fun key => .ok (key, ())) ∧
      keys.Pairwise (fun first second => kv.raw first ≤ kv.raw second ∧ kv.raw first ≠ kv.raw second) ∧
      ∀ key, key ∈ keys ↔ listed key ∧ key.owner = owner ∧ key.producedHeight < u64Max := by
  have fitsOwner : Fits owner := ⟨short, fun _ _ => trivial⟩
  have inside : ∀ raw, (Serve.ownerRange kv.toTable owner).1 ≤ raw →
      raw < (Serve.ownerRange kv.toTable owner).2 → EntryCell kv.toTable view raw := by
    intro raw above below
    exact cells raw (LexRange.prefix_of_between _ _ _ _ above below)
  rcases sees.iterKvs inside with ⟨items, scan, sorted, fits, mem⟩
  refine ⟨items.map Prod.fst, ?_, List.pairwise_map.mpr (List.pairwise_map.mp sorted), ?_⟩
  · rw [scan, List.map_map]
    rfl
  · intro key
    have whole (bounded : Fits key) := owned_range_iff kv.toTable owner 0 u64Max key fitsOwner bounded
    rw [List.mem_map]
    constructor
    · rintro ⟨⟨other, value⟩, member, rfl⟩
      have bounded := (fits _ member).1
      have entry := (mem other value bounded trivial).mp member
      have place := (whole bounded).mp ⟨entry.1, entry.2.1⟩
      refine ⟨?_, place.1, place.2.2⟩
      by_contra absent
      have cell := (lists other bounded.1.1).2 absent
      have found : view (kv.raw other) = .ok (some (encode ())) := entry.2.2
      rw [cell] at found
      cases found
    · intro ⟨filed, own, below⟩
      have bounded : Fits key := fits_owned (by rw [own]; exact short)
      have place := (whole bounded).mpr ⟨own, BitVec.le_def.mpr (Nat.zero_le _), below⟩
      refine ⟨(key, ()), (mem key () bounded trivial).mpr ⟨place.1, place.2, ?_⟩, rfl⟩
      exact (lists key bounded.1.1).1 filed

theorem height_le_of_raw {first second : OwnedUtxoKey} (owned : first.owner = second.owner)
    (ordered : kv.raw first ≤ kv.raw second) : first.producedHeight ≤ second.producedHeight := by
  have bytes : kv.toTable.encodeKey first ≤ kv.toTable.encodeKey second := ordered
  rw [encodeKey_owned, encodeKey_owned, owned, LexRange.append_le_append_iff] at bytes
  exact height_le_of_le bytes

theorem heights_ascending {keys : List OwnedUtxoKey} (owned : ∀ key ∈ keys, key.owner = owner)
    (sorted : keys.Pairwise (fun first second => kv.raw first ≤ kv.raw second ∧
      kv.raw first ≠ kv.raw second)) :
    (keys.map OwnedUtxoKey.producedHeight).Pairwise (fun first second => first ≤ second) := by
  rw [List.pairwise_map]
  apply sorted.imp_of_mem
  intro first second left right both
  apply height_le_of_raw _ both.1
  rw [owned first left, owned second right]

theorem refs_distinct {keys : List OwnedUtxoKey} (owned : ∀ key ∈ keys, key.owner = owner)
    (sorted : keys.Pairwise (fun first second => kv.raw first ≤ kv.raw second ∧
      kv.raw first ≠ kv.raw second))
    (placed : ∀ first ∈ keys, ∀ second ∈ keys, first.txoRef = second.txoRef →
      first.producedHeight = second.producedHeight) : (keys.map OwnedUtxoKey.txoRef).Nodup := by
  have distinct : keys.Nodup := by
    apply sorted.imp
    intro first second both same
    exact both.2 (congrArg _ same)
  apply distinct.map_on
  intro first left second right same
  apply OwnedUtxoKey.fields.injective
  simp only [OwnedUtxoKey.fields, Equiv.coe_fn_mk, Prod.mk.injEq]
  exact ⟨(owned first left).trans (owned second right).symm, placed first left second right same, same⟩

end Scans

section Recorded

variable {Good : List IndexedTx → (RawKey → Cell) → Prop} {history : History} {machine : Machine}
variable {tables : List OwnedTable} {listed : OwnedUtxoKey → Prop} {reader : Reader}
variable {owner : List Byte}

theorem Records.low (records : Records Good history machine)
    (room : history.blocks.length + 1 < 2 ^ 64) {step : IndexedTx}
    (member : step ∈ chainTxs history.blocks) : step.point.height < u64Max := by
  have height := (records.numbered.inOrder (by omega)).2 step member
  rw [BitVec.lt_def, u64Max, BitVec.toNat_allOnes]
  omega

theorem Records.stored (records : Records Good history machine)
    (sees : reader.Sees machine.stage.db.db.view) (ref : TxoRef) :
    reader.get UtxoByTxoRefKV ref = .ok (unspent history.blocks ref) := by
  rw [sees.get]
  exact records.stores.read ref

/-- The keys of an owner, in a table that only lists outputs of the chain. -/
theorem Records.ownedKeys (records : Records Good history machine) (kv : OwnedTable)
    (keyed : Records (KeyedBy kv.indexer (OwnedRaw tables)) history machine)
    (apart : ∀ other ∈ tables, other = kv ∨ other.indexer = kv.indexer ∧ other.table ≠ kv.table)
    (lists : Lists machine.stage.db.db.view kv listed)
    (produced : ∀ key, listed key →
      ∃ step ∈ chainTxs history.blocks, step.point.height = key.producedHeight)
    (room : history.blocks.length + 1 < 2 ^ 64) (sees : reader.Sees machine.stage.db.db.view)
    (short : owner.length < 2 ^ 64) :
    ∃ keys : List OwnedUtxoKey,
      reader.iterKvs kv.toTable (Serve.ownerRange kv.toTable owner) false =
        keys.map (fun key => .ok (key, ())) ∧
      keys.Pairwise (fun first second => kv.raw first ≤ kv.raw second ∧ kv.raw first ≠ kv.raw second) ∧
      ∀ key, key ∈ keys ↔ key.owner = owner ∧ listed key := by
  have cells (raw : RawKey) (held : kv.toTable.Holds raw) :=
    lists.entryCell keyed.good apart held
  rcases lists.scan sees cells short with ⟨keys, scan, sorted, mem⟩
  refine ⟨keys, scan, sorted, ?_⟩
  intro key
  rw [mem]
  constructor
  · rintro ⟨holds, own, _⟩
    exact ⟨own, holds⟩
  · rintro ⟨own, holds⟩
    refine ⟨holds, own, ?_⟩
    rcases produced key holds with ⟨step, member, height⟩
    rw [← height]
    exact records.low room member

end Recorded

end Symphony
