import Symphony.Proof.RuneRun
import Symphony.Serve.RuneRoutes
import Symphony.Serve.ScanSpec

/-! The scans of the rune routes show the rune tables. -/

namespace Symphony

open Encdec
open RunesIndexer

theorem encode_seq_lt {first second : U16} (below : first < second) :
    (encode first : List BigEndian.Byte) < encode second := by
  have ordered := BigEndian.append_lt_append (BigEndian.toBytes 2 first.toNat)
    (BigEndian.toBytes 2 second.toNat) [] [] (by simp) (by
      have bound := second.isLt
      have less := BitVec.lt_def.mp below
      rw [BigEndian.ofBytes_toBytes, BigEndian.ofBytes_toBytes, Nat.mod_eq_of_lt (by omega),
        Nat.mod_eq_of_lt (by omega)]
      exact less)
  rw [List.append_nil, List.append_nil] at ordered
  exact ordered

theorem encode_seq_lt_iff {first second : U16} :
    (encode first : List BigEndian.Byte) < encode second ↔ first < second := by
  constructor
  · intro less
    by_contra above
    by_cases same : first = second
    · rw [same] at less
      exact lt_irrefl _ less
    · have below := encode_seq_lt (BitVec.lt_of_le_ne (BitVec.not_lt.mp above) (Ne.symm same))
      exact lt_asymm less below
  · exact encode_seq_lt

theorem encodeKey_activity (key : RuneActivityByTxKey) : RuneActivityByTxKV.encodeKey key =
    RuneActivityByTxKV.tag ++ (encode key.txHash ++ encode key.seq) := rfl

theorem activity_range_iff (txHash : Txid) (key : RuneActivityByTxKey) :
    (RuneActivityByTxKV.encodeRange (some (encode (⟨txHash, 0⟩ : RuneActivityByTxKey)))
        (some (encode (⟨txHash, BitVec.allOnes 16⟩ : RuneActivityByTxKey)))).1 ≤
        RuneActivityByTxKV.encodeKey key ∧
      RuneActivityByTxKV.encodeKey key <
        (RuneActivityByTxKV.encodeRange (some (encode (⟨txHash, 0⟩ : RuneActivityByTxKey)))
          (some (encode (⟨txHash, BitVec.allOnes 16⟩ : RuneActivityByTxKey)))).2 ↔
    key.txHash = txHash ∧ key.seq < BitVec.allOnes 16 := by
  have start : (RuneActivityByTxKV.encodeRange (some (encode (⟨txHash, 0⟩ : RuneActivityByTxKey)))
      (some (encode (⟨txHash, BitVec.allOnes 16⟩ : RuneActivityByTxKey)))).1 =
        RuneActivityByTxKV.tag ++ (encode txHash ++ encode (0 : U16)) := rfl
  have stop : (RuneActivityByTxKV.encodeRange (some (encode (⟨txHash, 0⟩ : RuneActivityByTxKey)))
      (some (encode (⟨txHash, BitVec.allOnes 16⟩ : RuneActivityByTxKey)))).2 =
        RuneActivityByTxKV.tag ++ (encode txHash ++ encode (BitVec.allOnes 16 : U16)) := rfl
  rw [start, stop, encodeKey_activity, LexRange.append_le_append_iff, LexRange.append_lt_append_iff]
  constructor
  · intro ⟨above, below⟩
    -- hashes have one length, so one that is a prefix is the other
    obtain ⟨rest, split⟩ := LexRange.prefix_of_between _ _ _ _ above below
    have lengths : (encode txHash : List BigEndian.Byte).length =
        (encode key.txHash : List BigEndian.Byte).length := by
      have first : (encode txHash : List BigEndian.Byte).length = 32 := txHash.2
      have second : (encode key.txHash : List BigEndian.Byte).length = 32 := key.txHash.2
      rw [first, second]
    have hashes := (List.append_inj split lengths).1
    obtain rfl : txHash = key.txHash := Subtype.ext hashes
    rw [LexRange.append_lt_append_iff, encode_seq_lt_iff] at below
    exact ⟨rfl, below⟩
  · rintro ⟨rfl, below⟩
    rw [LexRange.append_le_append_iff, LexRange.append_lt_append_iff, encode_seq_lt_iff]
    refine ⟨?_, below⟩
    rw [← not_lt, encode_seq_lt_iff]
    exact BitVec.not_lt.mpr (BitVec.le_def.mpr (Nat.zero_le _))

section Scans

variable {runes : RuneState} {view : RawKey → Cell} {raw : RawKey} {past : List IndexedTx}

theorem RunesKeyed.filed (keyed : RunesKeyed past view) (shown : runes.Shown view)
    (held : RuneUtxosByScriptKV.Holds raw) : EntryCell RuneUtxosByScriptKV view raw := by
  by_cases known : RuneKey raw
  · cases known with
    | info id => exact absurd held (utxoTable.not_holds_raw infoTable rfl (by decide) id)
    | name name => exact absurd held (utxoTable.not_holds_raw nameTable rfl (by decide) name)
    | mints id => exact absurd held (utxoTable.not_holds_raw mintsTable rfl (by decide) id)
    | log key => exact absurd held (utxoTable.not_holds_raw activityTable rfl (by decide) key)
    | filed key short =>
        by_cases listed : runes.filed key
        · exact Or.inr ⟨key, (), fits_owned short, trivial, rfl, (shown.filed key short).1 listed⟩
        · exact Or.inl ((shown.filed key short).2 listed)
  · exact Or.inl (keyed raw (TransactionIndexer.owns_table held) known)

theorem RunesKeyed.log (keyed : RunesKeyed past view) (shown : runes.Shown view)
    (fits : ∀ key change, runes.log key = some change → Fits change)
    (held : RuneActivityByTxKV.Holds raw) : EntryCell RuneActivityByTxKV view raw := by
  by_cases known : RuneKey raw
  · cases known with
    | info id => exact absurd held (activityTable.not_holds_raw infoTable rfl (by decide) id)
    | name name => exact absurd held (activityTable.not_holds_raw nameTable rfl (by decide) name)
    | mints id => exact absurd held (activityTable.not_holds_raw mintsTable rfl (by decide) id)
    | filed key short => exact absurd held (activityTable.not_holds_raw utxoTable rfl (by decide) key)
    | log key =>
        have cell := shown.log key ⟨trivial, trivial⟩
        cases logged : runes.log key with
        | none =>
            rw [logged] at cell
            exact Or.inl cell
        | some change =>
            rw [logged] at cell
            exact Or.inr ⟨key, change, ⟨trivial, trivial⟩, fits key change logged, rfl, cell⟩
  · exact Or.inl (keyed raw (TransactionIndexer.owns_table held) known)

theorem RunesKeyed.ownerScan (keyed : RunesKeyed past view) (shown : runes.Shown view)
    {reader : Reader} (sees : reader.Sees view) {script : ScriptPubKey}
    (short : script.length < 2 ^ 64) :
    ∃ keys : List RuneUtxosByScriptKey, Serve.balancesScan reader script =
        keys.map (fun key => .ok (key, ())) ∧ keys.Nodup ∧
      keys.Pairwise (fun first second => first.producedHeight ≤ second.producedHeight) ∧
      ∀ key, key ∈ keys ↔ runes.filed key ∧ key.owner = script ∧ key.producedHeight < u64Max := by
  let range := RuneUtxosByScriptKV.encodeRange (some (encode (script, (0 : U64))))
    (some (encode (script, u64Max)))
  have fitsScript : Fits script := ⟨short, fun _ _ => trivial⟩
  have cells : ∀ raw, range.1 ≤ raw → raw < range.2 → EntryCell RuneUtxosByScriptKV view raw := by
    intro raw above below
    exact keyed.filed shown (LexRange.prefix_of_between _ _ _ _ above below)
  rcases sees.iterKvs cells with ⟨items, scan, sorted, fits, mem⟩
  have listed (key : RuneUtxosByScriptKey) : key ∈ items.map Prod.fst ↔ runes.filed key ∧
      key.owner = script ∧ key.producedHeight < u64Max := by
    have whole (bounded : Fits key) := owned_range_iff RuneUtxosByScriptKV script 0 u64Max key
      fitsScript bounded
    rw [List.mem_map]
    constructor
    · rintro ⟨⟨other, value⟩, member, rfl⟩
      have bounded := (fits _ member).1
      have inside := (mem other value bounded trivial).mp member
      have place := (whole bounded).mp ⟨inside.1, inside.2.1⟩
      refine ⟨?_, place.1, place.2.2⟩
      by_contra absent
      have cell := (shown.filed other bounded.1.1).2 absent
      have found : view (utxoTable.raw other) = .ok (some (encode ())) := inside.2.2
      rw [cell] at found
      cases found
    · intro ⟨filed, own, below⟩
      have bounded : Fits key := fits_owned (by rw [own]; exact short)
      have place := (whole bounded).mpr ⟨own, BitVec.le_def.mpr (Nat.zero_le _), below⟩
      refine ⟨(key, ()), (mem key () bounded trivial).mpr ⟨place.1, place.2, ?_⟩, rfl⟩
      exact (shown.filed key bounded.1.1).1 filed
  refine ⟨items.map Prod.fst, ?_, ?_, ?_, listed⟩
  · rw [Serve.balancesScan, scan, List.map_map]
    rfl
  · apply (List.pairwise_map.mp sorted).imp _ |> List.pairwise_map.mpr
    intro first second both same
    exact both.2 (congrArg _ same)
  · have heights := List.pairwise_map.mp sorted
    rw [List.pairwise_map]
    apply heights.imp_of_mem
    intro first second left right both
    have owner := ((listed first.1).mp (List.mem_map_of_mem left)).2.1
    have owner' := ((listed second.1).mp (List.mem_map_of_mem right)).2.1
    have ordered := both.1
    rw [encodeKey_owned, encodeKey_owned, owner, owner', LexRange.append_le_append_iff] at ordered
    exact height_le_of_le ordered

theorem RunesKeyed.recordScan (keyed : RunesKeyed past view) (shown : runes.Shown view)
    (fits : ∀ key change, runes.log key = some change → Fits change)
    {reader : Reader} (sees : reader.Sees view) (txHash : Txid) :
    ∃ entries : List (RuneActivityByTxKey × RuneBalanceChange),
      Serve.runesByTxScan reader txHash = entries.map .ok ∧
      entries.Pairwise (fun first second => first.1.seq < second.1.seq) ∧
      ∀ entry, entry ∈ entries ↔ runes.log entry.1 = some entry.2 ∧ entry.1.txHash = txHash ∧
        entry.1.seq < BitVec.allOnes 16 := by
  let range := RuneActivityByTxKV.encodeRange (some (encode (⟨txHash, 0⟩ : RuneActivityByTxKey)))
    (some (encode (⟨txHash, BitVec.allOnes 16⟩ : RuneActivityByTxKey)))
  have cells : ∀ raw, range.1 ≤ raw → raw < range.2 → EntryCell RuneActivityByTxKV view raw := by
    intro raw above below
    exact keyed.log shown fits (LexRange.prefix_of_between _ _ _ _ above below)
  rcases sees.iterKvs cells with ⟨entries, scan, sorted, bounded, mem⟩
  have fitsKey (key : RuneActivityByTxKey) : Fits key := ⟨trivial, trivial⟩
  have listed (entry : RuneActivityByTxKey × RuneBalanceChange) :
      entry ∈ entries ↔ runes.log entry.1 = some entry.2 ∧ entry.1.txHash = txHash ∧
        entry.1.seq < BitVec.allOnes 16 := by
    have place := activity_range_iff txHash entry.1
    have cell : view (RuneActivityByTxKV.encodeKey entry.1) =
        .ok ((runes.log entry.1).map encode) := shown.log entry.1 (fitsKey entry.1)
    constructor
    · intro member
      have value := (bounded entry member).2
      have inside := (mem entry.1 entry.2 (fitsKey _) value).mp member
      refine ⟨?_, place.mp ⟨inside.1, inside.2.1⟩⟩
      have found := inside.2.2
      rw [cell, Except.ok.injEq, Option.map_eq_some_iff] at found
      rcases found with ⟨change, logged, same⟩
      rw [logged, encode_injective (fits _ _ logged) value same]
    · intro ⟨logged, own⟩
      apply (mem entry.1 entry.2 (fitsKey _) (fits _ _ logged)).mpr
      rw [cell, logged]
      exact ⟨(place.mpr own).1, (place.mpr own).2, rfl⟩
  refine ⟨entries, scan, ?_, listed⟩
  apply (List.pairwise_map.mp sorted).imp_of_mem
  intro first second left right both
  have ordered := lt_of_le_of_ne both.1 both.2
  rw [encodeKey_activity, encodeKey_activity, ((listed first).mp left).2.1,
    ((listed second).mp right).2.1, LexRange.append_lt_append_iff, LexRange.append_lt_append_iff,
    encode_seq_lt_iff] at ordered
  exact ordered

end Scans

theorem numbered_eq {entries : List (RuneActivityByTxKey × RuneBalanceChange)} {txHash : Txid}
    {records : List RuneBalanceChange} (few : records.length ≤ 65535)
    (sorted : entries.Pairwise (fun first second => first.1.seq < second.1.seq))
    (mem : ∀ entry, entry ∈ entries ↔ records[entry.1.seq.toNat]? = some entry.2 ∧
      entry.1.txHash = txHash) :
    entries = records.zipIdx.map (fun item => (⟨txHash, BitVec.ofNat 16 item.2⟩, item.1)) := by
  have irreflexive : Std.Irrefl (fun first second : RuneActivityByTxKey × RuneBalanceChange =>
      first.1.seq < second.1.seq) := ⟨fun _ => BitVec.lt_irrefl _⟩
  have antisymmetric : Std.Antisymm (fun first second : RuneActivityByTxKey × RuneBalanceChange =>
      first.1.seq < second.1.seq) := ⟨fun _ _ left right => absurd left (BitVec.lt_asymm right)⟩
  have number {item : RuneBalanceChange × Nat} (member : item ∈ records.zipIdx) :
      (BitVec.ofNat 16 item.2).toNat = item.2 := by
    have bound := List.snd_lt_of_mem_zipIdx member
    rw [BitVec.toNat_ofNat, Nat.mod_eq_of_lt (by omega)]
  apply List.Pairwise.eq_of_mem_iff sorted
  · have places : records.zipIdx.Pairwise (fun first second => first.2 < second.2) := by
      apply List.pairwise_map.mp
      rw [List.zipIdx_map_snd]
      exact List.pairwise_lt_range'
    rw [List.pairwise_map]
    apply places.imp_of_mem
    intro first second left right below
    rw [BitVec.lt_def, number left, number right]
    exact below
  · intro entry
    rw [mem, List.mem_map]
    constructor
    · intro ⟨found, own⟩
      refine ⟨(entry.2, entry.1.seq.toNat), List.mem_zipIdx_iff_getElem?.mpr found, ?_⟩
      rcases entry with ⟨⟨hash, seq⟩, change⟩
      simp only at own ⊢
      rw [own, BitVec.ofNat_toNat, BitVec.setWidth_eq]
    · rintro ⟨item, member, rfl⟩
      refine ⟨?_, rfl⟩
      rw [number member]
      exact List.mem_zipIdx_iff_getElem?.mp member

end Symphony
