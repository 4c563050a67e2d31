import Symphony.Proof.ChainInvariant
import Symphony.Sync.ReloadSpec

/-! What the rollback table holds.

A mutable commit files the originals of its block and drops those of low heights; a rollback
removes those of the blocks it undoes. -/

namespace Symphony

open Encdec
open VersionedLog (replay Increasing)

namespace PointWithOriginalKVs

def Files (block : PointWithOriginalKVs) (raw : RawKey) (value : RawValue) : Prop :=
  ∃ key previous, block.originalKvs.lookup key = some previous ∧
    raw = rollbackKey block.point key ∧ value = encode previous

/-- The originals of an indexed block: some keys of the indexes, short enough to be filed. -/
structure Fileable (block : PointWithOriginalKVs) : Prop where
  nonempty : ∃ key, key ∈ block.originalKvs
  index : ∀ key ∈ block.originalKvs, IsIndexKey key
  short : ∀ key ∈ block.originalKvs, key.length < 2 ^ 63
  values : ∀ key value, block.originalKvs.lookup key = some (.present value) →
    value.length < 2 ^ 63

end PointWithOriginalKVs

open PointWithOriginalKVs (Files Fileable)

def Persisted (view : RawKey → Cell) (blocks : List PointWithOriginalKVs) : Prop :=
  ∀ raw, RollbackBufferKV.Holds raw → ∃ stored, view raw = .ok stored ∧
    ∀ value, stored = some value ↔ ∃ block ∈ blocks, block.Files raw value

theorem fits_of_short {bytes : List BigEndian.Byte} (short : bytes.length < 2 ^ 63) : Fits bytes :=
  ⟨lt_trans short (by decide), fun _ _ => trivial⟩

theorem rollbackKey_injective {first second : Point} {key other : RawKey}
    (short : key.length < 2 ^ 63) (shortOther : other.length < 2 ^ 63)
    (same : rollbackKey first key = rollbackKey second other) : first = second ∧ key = other := by
  have keys : (⟨first.height, first.hash, key⟩ : RollbackKey) = ⟨second.height, second.hash, other⟩ :=
    RollbackBufferKV.encodeKey_injective (fits_of_short short) (fits_of_short shortOther) same
  rw [RollbackKey.mk.injEq] at keys
  refine ⟨?_, keys.2.2⟩
  cases first
  cases second
  rw [Point.mk.injEq]
  exact ⟨keys.1, keys.2.1⟩

section Table

variable {block : PointWithOriginalKVs} {raw : RawKey} {value : RawValue}

theorem PointWithOriginalKVs.Files.member (files : block.Files raw value) :
    ∃ key ∈ block.originalKvs, raw = rollbackKey block.point key := by
  rcases files with ⟨key, previous, found, same, _⟩
  refine ⟨key, ?_, same⟩
  rw [← AList.lookup_isSome, found]
  rfl

theorem PointWithOriginalKVs.Files.point_eq {other : PointWithOriginalKVs} {key : RawKey} (fileable : Fileable block)
    (fileableOther : Fileable other) (files : block.Files raw value) (member : key ∈ other.originalKvs)
    (same : raw = rollbackKey other.point key) : block.point = other.point := by
  rcases files.member with ⟨mine, inside, here⟩
  exact (rollbackKey_injective (fileable.short mine inside) (fileableOther.short key member)
    (here.symm.trans same)).1

theorem Persisted.congr {view : RawKey → Cell} {blocks others : List PointWithOriginalKVs}
    (persisted : Persisted view blocks) (same : ∀ block, block ∈ blocks ↔ block ∈ others) :
    Persisted view others := by
  intro raw held
  rcases persisted raw held with ⟨stored, here, exact⟩
  refine ⟨stored, here, ?_⟩
  intro value
  rw [exact value]
  simp only [same]

end Table

section Commits

variable {view after : RawKey → Cell} {blocks : List PointWithOriginalKVs}
variable {block : PointWithOriginalKVs}

theorem replay_filing (fileable : Fileable block) (raw : RawKey) (stored : Option RawValue) :
    ∃ filed, replay WriteOp.act raw (.ok stored) (block.originalKvs.entries.map (fun entry =>
        .put (rollbackKey block.point entry.1) (encode entry.2))) = .ok filed ∧
      ∀ value, filed = some value ↔ block.Files raw value ∨
        (stored = some value ∧ ¬ ∃ key ∈ block.originalKvs, raw = rollbackKey block.point key) := by
  by_cases mine : ∃ key ∈ block.originalKvs, raw = rollbackKey block.point key
  · rcases mine with ⟨key, member, rfl⟩
    rcases Option.isSome_iff_exists.mp (AList.lookup_isSome.mpr member) with ⟨previous, found⟩
    have only (other : RawKey) (original : PreviousValue)
        (listed : (⟨other, original⟩ : Sigma (fun _ : RawKey => PreviousValue)) ∈
          block.originalKvs.entries)
        (same : rollbackKey block.point other = rollbackKey block.point key) :
        original = previous := by
      have inside : other ∈ block.originalKvs := AList.mem_keys.mpr (List.mem_keys_of_mem listed)
      obtain rfl := (rollbackKey_injective (fileable.short other inside)
        (fileable.short key member) same).2
      have lookup := AList.mem_lookup_iff.mpr listed
      rw [Option.mem_def, found, Option.some.injEq] at lookup
      exact lookup.symm
    refine ⟨some (encode previous), ?_, ?_⟩
    · apply VersionedLog.replay_settled
      · intro op inside current
        rcases List.mem_map.mp inside with ⟨entry, listed, rfl⟩
        rw [WriteOp.act]
        split
        · rename_i same
          rw [only entry.1 entry.2 listed same]
          exact Or.inr rfl
        · exact Or.inl rfl
      · refine ⟨_, List.mem_map.mpr ⟨⟨key, previous⟩, AList.mem_lookup_iff.mp found, rfl⟩, ?_⟩
        intro current
        rw [WriteOp.act, if_pos rfl]
    · intro value
      constructor
      · intro same
        exact Or.inl ⟨key, previous, found, rfl, (Option.some.inj same).symm⟩
      · rintro (⟨other, original, lookup, same, rfl⟩ | ⟨_, none⟩)
        · rw [only other original (AList.mem_lookup_iff.mp lookup) same.symm]
        · exact absurd ⟨key, member, rfl⟩ none
  · refine ⟨stored, ?_, ?_⟩
    · apply VersionedLog.replay_untouched
      intro op inside current
      rcases List.mem_map.mp inside with ⟨entry, listed, rfl⟩
      rw [WriteOp.act, if_neg]
      intro same
      exact mine ⟨entry.1, AList.mem_keys.mpr (List.mem_keys_of_mem listed), same.symm⟩
    · intro value
      constructor
      · intro same
        exact Or.inr ⟨same, mine⟩
      · rintro (files | ⟨same, _⟩)
        · exact absurd files.member mine
        · exact same

theorem Persisted.file (persisted : Persisted view blocks) (fileable : Fileable block)
    (others : ∀ other ∈ blocks, Fileable other ∧ other.point ≠ block.point)
    (effect : ∀ raw, RollbackBufferKV.Holds raw → after raw =
      replay WriteOp.act raw (view raw) (block.originalKvs.entries.map (fun entry =>
        .put (rollbackKey block.point entry.1) (encode entry.2)))) :
    Persisted after (block :: blocks) := by
  intro raw held
  rcases persisted raw held with ⟨stored, here, exact⟩
  rcases replay_filing fileable raw stored with ⟨filed, wrote, entries⟩
  refine ⟨filed, by rw [effect raw held, here, wrote], ?_⟩
  intro value
  rw [entries value, exact value, List.exists_mem_cons_iff]
  constructor
  · rintro (mine | ⟨old, _⟩)
    · exact Or.inl mine
    · exact Or.inr old
  · rintro (mine | ⟨other, listed, files⟩)
    · exact Or.inl mine
    · refine Or.inr ⟨⟨other, listed, files⟩, ?_⟩
      rintro ⟨key, member, same⟩
      exact (others other listed).2 (files.point_eq (others other listed).1 fileable member same)

theorem Persisted.trim (persisted : Persisted view blocks) (height : U64)
    (effect : ∀ raw, RollbackBufferKV.Holds raw → after raw =
      (WriteOp.deleteRange (RollbackBufferKV.encodeRange none (some (encode height))).1
        (RollbackBufferKV.encodeRange none (some (encode height))).2).act raw (view raw)) :
    Persisted after (blocks.filter (fun block => decide (height ≤ block.point.height))) := by
  intro raw held
  rcases persisted raw held with ⟨stored, here, exact⟩
  have low (block : PointWithOriginalKVs) (value : RawValue) (files : block.Files raw value) :
      ((RollbackBufferKV.encodeRange none (some (encode height))).1 ≤ raw ∧
        raw < (RollbackBufferKV.encodeRange none (some (encode height))).2) ↔
      block.point.height < height := by
    rcases files with ⟨key, _, _, rfl, _⟩
    exact rollback_range_iff ⟨block.point.height, block.point.hash, key⟩ height
  rw [effect raw held, WriteOp.act, here]
  split
  · rename_i inside
    refine ⟨none, rfl, ?_⟩
    intro value
    constructor
    · intro impossible
      cases impossible
    · rintro ⟨block, member, files⟩
      rw [List.mem_filter, decide_eq_true_eq] at member
      exact absurd ((low block value files).mp inside) (BitVec.not_lt.mpr member.2)
  · rename_i outside
    refine ⟨stored, rfl, ?_⟩
    intro value
    rw [exact value]
    constructor
    · rintro ⟨block, member, files⟩
      refine ⟨block, List.mem_filter.mpr ⟨member, decide_eq_true ?_⟩, files⟩
      rw [low block value files] at outside
      exact BitVec.not_lt.mp outside
    · rintro ⟨block, member, files⟩
      exact ⟨block, (List.mem_filter.mp member).1, files⟩

theorem Persisted.undo {undone filed rest : List PointWithOriginalKVs}
    (persisted : Persisted view (filed ++ rest)) (inside : ∀ block ∈ filed, block ∈ undone)
    (fileable : ∀ block ∈ undone ++ rest, Fileable block)
    (apart : ∀ block ∈ rest, ∀ other ∈ undone, block.point ≠ other.point)
    (effect : ∀ raw, RollbackBufferKV.Holds raw → after raw =
      replay WriteOp.act raw (view raw) (undone.flatMap PointWithOriginalKVs.undoOps)) :
    Persisted after rest := by
  have index (block : PointWithOriginalKVs) (member : block ∈ undone) (key : RawKey)
      (saved : key ∈ block.originalKvs) : ¬ RollbackBufferKV.Holds key :=
    ((fileable block (List.mem_append_left _ member)).index key saved).isData.2
  intro raw held
  rcases persisted raw held with ⟨stored, here, exact⟩
  rw [effect raw held]
  by_cases touched : ∃ block ∈ undone, ∃ key ∈ block.originalKvs, raw = rollbackKey block.point key
  · rcases touched with ⟨block, member, key, saved, rfl⟩
    refine ⟨none, ?_, ?_⟩
    · apply replay_undo_rollbackKey _ _ _ _ member saved
      intro other listed again
      exact index other listed _ again held
    · intro value
      constructor
      · intro impossible
        cases impossible
      · rintro ⟨other, listed, files⟩
        exact absurd (files.point_eq (fileable other (List.mem_append_right _ listed))
          (fileable block (List.mem_append_left _ member)) saved rfl) (apart other listed block member)
  · refine ⟨stored, ?_, ?_⟩
    · rw [here]
      apply VersionedLog.replay_untouched
      intro op listed current
      rcases List.mem_flatMap.mp listed with ⟨block, member, inner⟩
      rcases List.mem_flatMap.mp inner with ⟨entry, saved, either⟩
      have present : entry.1 ∈ block.originalKvs := AList.mem_keys.mpr (List.mem_keys_of_mem saved)
      rcases List.mem_pair.mp either with rfl | rfl
      · rw [act_undoOp, if_neg]
        rintro rfl
        exact index block member _ present held
      · rw [WriteOp.act, if_neg]
        intro same
        exact touched ⟨block, member, entry.1, present, same.symm⟩
    · intro value
      rw [exact value]
      constructor
      · rintro ⟨block, listed, files⟩
        rcases List.mem_append.mp listed with old | kept
        · rcases files.member with ⟨key, saved, same⟩
          exact absurd ⟨block, inside block old, key, saved, same⟩ touched
        · exact ⟨block, kept, files⟩
      · rintro ⟨block, listed, files⟩
        exact ⟨block, List.mem_append_right _ listed, files⟩

end Commits

theorem not_timestamps_of_rollback {raw : RawKey} (held : RollbackBufferKV.Holds raw) :
    ¬ TimestampsKV.Holds raw := by
  intro other
  exact absurd (Table.tag_eq_of_holds RollbackBufferKV TimestampsKV raw rfl held other) (by decide)

theorem FinalizedTask.replay_batch_rollback (task : FinalizedTask) (point : Point) (maxRollback : U64)
    (commitTs : Timestamp) (mempoolTimestamp : Option U64) (raw : RawKey) (cell : Cell)
    (index : ∀ key ∈ task.writeBuffer, IsIndexKey key) (held : RollbackBufferKV.Holds raw) :
    replay WriteOp.act raw cell (task.batch point maxRollback commitTs mempoolTimestamp) =
      replay WriteOp.act raw cell (task.rollbackOps point maxRollback) := by
  have absent : task.writeBuffer.lookup raw = none := by
    rw [AList.lookup_eq_none]
    intro member
    exact (index raw member).isData.2 held
  rw [batch, VersionedLog.replay_append, VersionedLog.replay_append, replay_actionOps, absent,
    VersionedLog.replay_cons, act_timestampOp _ _ _ _ _ _ (not_timestamps_of_rollback held)]
  rfl

section Applied

variable {handler after : StorageHandler} {now : U64} {accepted : Bool} {task : FinalizedTask}
variable {point : Point} {maxRollback : U64} {mempoolTimestamp : Option U64}
variable {blocks : List PointWithOriginalKVs} {kvs : HashMap RawKey PreviousValue}

theorem view_applied_rollback
    (applied : handler.applyIndexingTask now accepted task point maxRollback mempoolTimestamp = .ok after)
    (increasing : Increasing after.db.log) (index : ∀ key ∈ task.writeBuffer, IsIndexKey key)
    (raw : RawKey) (held : RollbackBufferKV.Holds raw) :
    after.db.view raw =
      replay WriteOp.act raw (handler.db.view raw) (task.rollbackOps point maxRollback) := by
  rw [(StorageHandler.applyIndexingTask_committed applied).view increasing raw,
    FinalizedTask.replay_batch_rollback _ _ _ _ _ _ _ index held]

theorem Persisted.confirmed
    (applied : handler.applyIndexingTask now accepted task point maxRollback mempoolTimestamp = .ok after)
    (increasing : Increasing after.db.log) (index : ∀ key ∈ task.writeBuffer, IsIndexKey key)
    (originals : task.originalKvs = some kvs) (confirmed : task.mempool = false)
    (persisted : Persisted handler.db.view blocks) (fileable : Fileable ⟨point, kvs⟩)
    (others : ∀ other ∈ blocks, Fileable other ∧ other.point ≠ point) :
    Persisted after.db.view ((⟨point, kvs⟩ :: blocks).filter
      (fun block => decide (saturatingSub point.height maxRollback ≤ block.point.height))) := by
  have filed := persisted.file fileable others (fun _ _ => rfl)
  apply filed.trim
  intro raw held
  rw [view_applied_rollback applied increasing index raw held, FinalizedTask.rollbackOps]
  simp only [originals, confirmed, Bool.false_eq_true, if_false, FinalizedTask.rollbackHeight]
  rw [VersionedLog.replay_append]
  rfl

theorem Persisted.mempool
    (applied : handler.applyIndexingTask now accepted task point maxRollback mempoolTimestamp = .ok after)
    (increasing : Increasing after.db.log) (index : ∀ key ∈ task.writeBuffer, IsIndexKey key)
    (originals : task.originalKvs = some kvs) (mempool : task.mempool = true)
    (persisted : Persisted handler.db.view blocks) (fileable : Fileable ⟨⟨u64Max, point.hash⟩, kvs⟩)
    (others : ∀ other ∈ blocks, Fileable other ∧ other.point ≠ ⟨u64Max, point.hash⟩) :
    Persisted after.db.view (⟨⟨u64Max, point.hash⟩, kvs⟩ :: blocks) := by
  apply persisted.file fileable others
  intro raw held
  rw [view_applied_rollback applied increasing index raw held, FinalizedTask.rollbackOps]
  simp only [originals, mempool, if_true, FinalizedTask.rollbackHeight, List.append_nil]
  rfl

theorem Persisted.immutable
    (applied : handler.applyIndexingTask now accepted task point maxRollback mempoolTimestamp = .ok after)
    (increasing : Increasing after.db.log) (index : ∀ key ∈ task.writeBuffer, IsIndexKey key)
    (originals : task.originalKvs = none) (persisted : Persisted handler.db.view blocks) :
    Persisted after.db.view blocks := by
  intro raw held
  rw [view_applied_rollback applied increasing index raw held, FinalizedTask.rollbackOps, originals]
  exact persisted raw held

end Applied

def ShortValues (view : RawKey → Cell) : Prop :=
  ∀ key value, IsData key → view key = .ok (some value) → value.length < 2 ^ 63

theorem StorageAction.Short.apply {action : StorageAction} {cell : Cell} {value : RawValue}
    (short : action.Short) (applied : action.apply cell = .ok (some value)) :
    value.length < 2 ^ 63 := by
  cases action with
  | set written =>
      rw [StorageAction.apply, Except.ok.injEq, Option.some.injEq] at applied
      rw [← applied]
      exact short
  | delete => cases applied
  | merge op =>
      cases cell with
      | error failure => cases applied
      | ok existing =>
          simp only [StorageAction.apply, resolveMerge, mergeOperator_single] at applied
          split at applied
          · rename_i merged result
            rcases Option.map_eq_some_iff.mp result with ⟨base, _, rfl⟩
            rw [Except.ok.injEq, Option.some.injEq] at applied
            rw [← applied]
            exact length_encode_u128 _
          · cases applied

theorem ShortValues.applied {handler after : StorageHandler} {now : U64} {accepted : Bool}
    {task : IndexingTask} {point : Point} {maxRollback : U64} {mempoolTimestamp : Option U64}
    (values : ShortValues handler.db.view) (short : task.Short)
    (applied : handler.applyIndexingTask now accepted task.finalize point maxRollback
      mempoolTimestamp = .ok after)
    (increasing : Increasing after.db.log) : ShortValues after.db.view := by
  intro key value data found
  rw [view_applied applied increasing key data] at found
  cases buffered : task.finalize.writeBuffer.lookup key with
  | none =>
      rw [buffered] at found
      exact values key value data found
  | some action =>
      rw [buffered] at found
      exact (short key action buffered).apply found

theorem ShortValues.undo {view after : RawKey → Cell} {undone : List PointWithOriginalKVs}
    (values : ShortValues view) (fileable : ∀ block ∈ undone, Fileable block)
    (effect : ∀ key, after key =
      replay WriteOp.act key (view key) (undone.flatMap PointWithOriginalKVs.undoOps)) :
    ShortValues after := by
  intro key value data found
  rw [effect key, replay_undo undone view key data.2] at found
  rcases UndoLog.restoreAll_cases (undone.map PointWithOriginalKVs.saved) view key with
    kept | ⟨cells, listed, saved⟩
  · rw [kept] at found
    exact values key value data found
  · rcases List.mem_map.mp listed with ⟨block, member, rfl⟩
    rw [found, PointWithOriginalKVs.saved, Option.map_eq_some_iff] at saved
    rcases saved with ⟨previous, lookup, same⟩
    cases previous with
    | notPresent => cases same
    | present original =>
        cases same
        exact (fileable block member).values key value lookup

theorem fileable_of_written {handler : StorageHandler} {begun task : IndexingTask}
    {kvs : HashMap RawKey PreviousValue} {point : Point}
    (written : IndexingTask.Written IsIndexKey begun task) (tracks : begun.Tracks ∅)
    (fresh : begun.writeBuffer = ∅) (db : begun.db = handler.db)
    (readTs : begun.readTs = handler.readTs) (current : handler.Current)
    (originals : task.finalize.originalKvs = some kvs) (values : ShortValues handler.db.view)
    (nonempty : ∃ key, key ∈ task.writeBuffer) : Fileable ⟨point, kvs⟩ := by
  rcases written.tracks tracks with ⟨tracked, final⟩
  obtain rfl : tracked = kvs := Option.some.inj (final.originals.symm.trans originals)
  constructor
  · rcases nonempty with ⟨key, member⟩
    exact ⟨key, final.covers key member⟩
  · intro key member
    exact written.originals tracks fresh originals member
  · exact final.short
  · intro key value found
    have data : IsData key := by
      apply IsIndexKey.isData
      apply written.originals tracks fresh originals
      rw [← AList.lookup_isSome, found]
      rfl
    have saved := final.saved key _ found
    rw [written.sameSource.db, written.sameSource.readTs, db, readTs,
      handler.get_readTs key current] at saved
    exact values key value data saved

def PointWithOriginalKVs.Same (first second : PointWithOriginalKVs) : Prop :=
  first.point = second.point ∧
    ∀ key, first.originalKvs.lookup key = second.originalKvs.lookup key

namespace PointWithOriginalKVs

theorem Same.symm {first second : PointWithOriginalKVs} (same : first.Same second) :
    second.Same first := by
  refine ⟨same.1.symm, ?_⟩
  intro key
  exact (same.2 key).symm

theorem Same.files {first second : PointWithOriginalKVs} (same : first.Same second) {raw : RawKey}
    {value : RawValue} (files : first.Files raw value) : second.Files raw value := by
  rcases files with ⟨key, previous, found, here, written⟩
  refine ⟨key, previous, ?_, ?_, written⟩
  · rw [← same.2 key]
    exact found
  · rw [← same.1]
    exact here

theorem Same.fileable {first second : PointWithOriginalKVs} (same : first.Same second)
    (fileable : Fileable first) : Fileable second := by
  have members (key : RawKey) : key ∈ second.originalKvs ↔ key ∈ first.originalKvs := by
    rw [← AList.lookup_isSome, ← AList.lookup_isSome, same.2 key]
  constructor
  · rcases fileable.nonempty with ⟨key, saved⟩
    exact ⟨key, (members key).mpr saved⟩
  · intro key saved
    exact fileable.index key ((members key).mp saved)
  · intro key saved
    exact fileable.short key ((members key).mp saved)
  · intro key value found
    rw [← same.2 key] at found
    exact fileable.values key value found

theorem forall₂_same_exists {blocks others : List PointWithOriginalKVs}
    (same : List.Forall₂ Same blocks others) {block : PointWithOriginalKVs} (member : block ∈ blocks) :
    ∃ other ∈ others, block.Same other := by
  induction same with
  | nil => cases member
  | cons first _ ih =>
      rcases List.mem_cons.mp member with rfl | later
      · exact ⟨_, List.mem_cons_self, first⟩
      · rcases ih later with ⟨other, inside, equal⟩
        exact ⟨other, List.mem_cons_of_mem _ inside, equal⟩

theorem forall₂_same_symm {blocks others : List PointWithOriginalKVs}
    (same : List.Forall₂ Same blocks others) : List.Forall₂ Same others blocks :=
  List.Forall₂.flip (same.imp (fun _ _ => Same.symm))

end PointWithOriginalKVs

section Reload

variable {db : DB} {kept blocks : List PointWithOriginalKVs}
variable {entries : List (RollbackKey × PreviousValue)}

theorem PointWithOriginalKVs.Fileable.fits {block : PointWithOriginalKVs} (fileable : Fileable block) {key : RawKey}
    {value : PreviousValue} (found : block.originalKvs.lookup key = some value) :
    Fits (⟨block.point.height, block.point.hash, key⟩ : RollbackKey) ∧ Fits value := by
  constructor
  · apply fits_of_short (fileable.short key _)
    rw [← AList.lookup_isSome, found]
    rfl
  · intro bytes same
    cases value with
    | present bytes' =>
        obtain rfl : bytes' = bytes := Option.some.inj same
        exact fits_of_short (fileable.values key bytes' found)
    | notPresent => cases same

theorem Persisted.readable (persisted : Persisted db.view kept)
    (fileable : ∀ block ∈ kept, Fileable block) : Readable db := by
  intro raw held
  rcases persisted raw held with ⟨stored, here, exact⟩
  cases stored with
  | none => exact Or.inl here
  | some value =>
      rcases (exact value).mp rfl with ⟨block, member, key, previous, found, rfl, rfl⟩
      have fits := (fileable block member).fits found
      exact Or.inr ⟨⟨block.point.height, block.point.hash, key⟩, previous, fits.1, fits.2, rfl, here⟩

theorem Persisted.entry_iff (persisted : Persisted db.view kept)
    (fileable : ∀ block ∈ kept, Fileable block)
    (exact : ∀ key value, (key, value) ∈ entries ↔ Fits key ∧ Fits value ∧
      db.view (RollbackBufferKV.encodeKey key) = .ok (some (encode value)))
    (point : Point) (key : RawKey) (value : PreviousValue) :
    (⟨point.height, point.hash, key⟩, value) ∈ entries ↔
      ∃ block ∈ kept, block.point = point ∧ block.originalKvs.lookup key = some value := by
  rcases persisted (rollbackKey point key) (Table.holds_encodeKey _ _) with ⟨stored, here, files⟩
  rw [exact, show db.view (RollbackBufferKV.encodeKey ⟨point.height, point.hash, key⟩) = _ from here,
    Except.ok.injEq, files]
  constructor
  · rintro ⟨fits, fitsValue, block, member, other, previous, found, same, equal⟩
    have fits' := (fileable block member).fits found
    have keys := RollbackBufferKV.encodeKey_injective fits fits'.1 same
    rw [RollbackKey.mk.injEq] at keys
    refine ⟨block, member, ?_, ?_⟩
    · cases point
      cases block with
      | mk point originalKvs =>
          cases point
          rw [Point.mk.injEq]
          exact ⟨keys.1.symm, keys.2.1.symm⟩
    · rw [keys.2.2, found, encode_injective fitsValue fits'.2 equal]
  · rintro ⟨block, member, rfl, found⟩
    have fits := (fileable block member).fits found
    exact ⟨fits.1, fits.2, block, member, key, value, found, rfl, rfl⟩

instance : Std.Irrefl (fun newer older : Point => older.Below newer) := ⟨Point.Below.irrefl⟩

instance : Std.Antisymm (fun newer older : Point => older.Below newer) where
  antisymm _ _ below above := absurd (below.trans above) (Point.Below.irrefl _)

theorem Persisted.grouped (persisted : Persisted db.view kept)
    (fileable : ∀ block ∈ kept, Fileable block)
    (descending : kept.Pairwise (fun newer older => older.point.height < newer.point.height))
    (exact : ∀ key value, (key, value) ∈ entries ↔ Fits key ∧ Fits value ∧
      db.view (RollbackBufferKV.encodeKey key) = .ok (some (encode value)))
    (grouped : Grouped entries blocks) : List.Forall₂ PointWithOriginalKVs.Same blocks kept := by
  have listed := persisted.entry_iff fileable exact
  have points : blocks.map PointWithOriginalKVs.point = kept.map PointWithOriginalKVs.point := by
    apply List.Pairwise.eq_of_mem_iff (r := fun newer older : Point => older.Below newer)
    · exact List.pairwise_map.mpr grouped.descending
    · exact List.pairwise_map.mpr (descending.imp Or.inl)
    · intro point
      rw [List.mem_map, List.mem_map]
      constructor
      · rintro ⟨block, member, rfl⟩
        rcases grouped.filled block member with ⟨⟨key, value⟩, inside, same⟩
        rcases (listed key.point key.key value).mp inside with ⟨other, here, point, _⟩
        exact ⟨other, here, point.trans same⟩
      · rintro ⟨block, member, rfl⟩
        rcases (fileable block member).nonempty with ⟨key, saved⟩
        rcases Option.isSome_iff_exists.mp (AList.lookup_isSome.mpr saved) with ⟨value, found⟩
        exact grouped.covers _ ((listed block.point key value).mpr ⟨block, member, rfl, found⟩)
  have paired : List.Forall₂ (fun first second => first.point = second.point) blocks kept := by
    rw [← List.forall₂_eq_eq_eq, List.forall₂_map_left_iff, List.forall₂_map_right_iff] at points
    exact points
  have distinct : (kept.map PointWithOriginalKVs.point).Nodup := by
    rw [← points]
    exact (List.pairwise_map.mpr (grouped.descending.imp (fun below => below.ne.symm)))
  rw [List.forall₂_iff_get] at paired ⊢
  refine ⟨paired.1, ?_⟩
  intro index inside inside'
  have same := paired.2 index inside inside'
  have mine := List.get_mem blocks ⟨index, inside⟩
  have theirs := List.get_mem kept ⟨index, inside'⟩
  refine ⟨same, ?_⟩
  intro key
  apply Option.ext
  intro value
  rw [grouped.exact _ mine key value, listed]
  constructor
  · rintro ⟨other, member, point, found⟩
    have equal := List.inj_on_of_nodup_map distinct member theirs (point.trans same)
    rw [← equal]
    exact found
  · intro found
    exact ⟨_, theirs, same.symm, found⟩

theorem Persisted.of_same {view : RawKey → Cell} (persisted : Persisted view kept)
    (same : List.Forall₂ PointWithOriginalKVs.Same blocks kept) : Persisted view blocks := by
  intro raw held
  rcases persisted raw held with ⟨stored, here, exact⟩
  refine ⟨stored, here, ?_⟩
  intro value
  rw [exact value]
  constructor
  · rintro ⟨other, member, files⟩
    rcases PointWithOriginalKVs.forall₂_same_exists (PointWithOriginalKVs.forall₂_same_symm same)
      member with ⟨block, inside, equal⟩
    exact ⟨block, inside, equal.files files⟩
  · rintro ⟨block, member, files⟩
    rcases PointWithOriginalKVs.forall₂_same_exists same member with ⟨other, inside, equal⟩
    exact ⟨other, inside, equal.files files⟩

theorem Persisted.reload (persisted : Persisted db.view kept)
    (fileable : ∀ block ∈ kept, Fileable block)
    (descending : kept.Pairwise (fun newer older => older.point.height < newer.point.height))
    {maxRollback : Nat} (room : kept.length ≤ maxRollback + 2) (safeMode : Bool) :
    ∃ blocks, List.Forall₂ PointWithOriginalKVs.Same blocks kept ∧
      RollbackBuffer.fetchFromStorage maxRollback safeMode (StorageHandler.openDb db) =
        .ok ⟨blocks, maxRollback + 2, safeMode⟩ := by
  rcases fetch_readable (persisted.readable fileable) maxRollback safeMode with
    ⟨entries, blocks, grouped, exact, loaded⟩
  have same := persisted.grouped fileable descending exact grouped
  refine ⟨blocks, same, ?_⟩
  rw [loaded, List.take_of_length_le (by rw [same.length_eq]; exact room)]

end Reload

end Symphony
