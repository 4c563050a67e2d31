import Symphony.Sync.StageSpec

/-! Which keys indexing a block or a mempool snapshot writes.

Indexers write the keys of their own tables and the UTXO set those of `UtxoByTxoRefKV`; the
stage itself adds the indexer info and, for a confirmed block, the hash of its height. -/

namespace Symphony

open Encdec
open IndexingTask (Written Touches)

def IsCustomKey (key : RawKey) : Prop := key.head? = some customIndexerTag

/-- A key the transactions of a block can write. -/
def IsTxKey (key : RawKey) : Prop := IsCustomKey key ∨ UtxoByTxoRefKV.Holds key

structure SameInputs (ctx after : IndexingContext) : Prop where
  point : after.point = ctx.point
  resolver : after.resolver = ctx.resolver
  chainedTxos : after.chainedTxos = ctx.chainedTxos
  network : after.network = ctx.network

/-- A condition for each kind of action of a script. -/
structure Footprint where
  set : RawKey → Prop
  delete : RawKey → Prop
  merge : RawKey → Prop
  attach : TxoRef → TransactionIndexer → Prop

def Footprint.onKeys (allowed : RawKey → Prop) : Footprint := ⟨allowed, allowed, allowed, fun _ _ => True⟩

/-- Every action of the script meets its condition, whatever the script reads. -/
def Script.Within {α : Type} (may : Footprint) : Script α → Prop
  | .pure _ => True
  | .fail _ => True
  | .get _ next => ∀ value, (next value).Within may
  | .set key _ next => may.set key.raw ∧ next.Within may
  | .delete key next => may.delete key.raw ∧ next.Within may
  | .mergeOp key _ next => may.merge key.raw ∧ next.Within may
  | .attach ref indexer _ next => may.attach ref indexer ∧ next.Within may

theorem Script.within_custom {α : Type} (script : Script α) : script.Within (.onKeys IsCustomKey) := by
  induction script with
  | pure value => trivial
  | fail failure => trivial
  | get key next ih => exact ih
  | set key value next ih => exact ⟨key.custom, ih⟩
  | delete key next ih => exact ⟨key.custom, ih⟩
  | mergeOp key op next ih => exact ⟨key.custom, ih⟩
  | attach ref indexer data next ih => exact ⟨trivial, ih⟩

theorem Script.run_within {α : Type} {allowed : RawKey → Prop} {script : Script α}
    {task after : IndexingTask} {ctx ctx' : IndexingContext} {value : α}
    (within : script.Within (.onKeys allowed)) (success : script.run task ctx = .ok (value, after, ctx')) :
    Written allowed task after ∧ SameInputs ctx ctx' := by
  induction script generalizing task ctx with
  | pure result =>
      cases success
      exact ⟨Relation.ReflTransGen.refl, rfl, rfl, rfl, rfl⟩
  | fail failure => cases success
  | get key next ih =>
      simp only [Script.run] at success
      split at success
      · exact ih _ (within _) success
      · cases success
  | set key bytes next ih =>
      simp only [Script.run] at success
      split at success
      · rename_i middle step
        obtain ⟨writes, same⟩ := ih within.2 success
        refine ⟨Relation.ReflTransGen.head ⟨key.raw, within.1, ?_⟩ writes, same⟩
        exact IndexingTask.setRaw_touches step
      · cases success
  | delete key next ih =>
      simp only [Script.run] at success
      split at success
      · rename_i middle step
        obtain ⟨writes, same⟩ := ih within.2 success
        refine ⟨Relation.ReflTransGen.head ⟨key.raw, within.1, ?_⟩ writes, same⟩
        exact IndexingTask.deleteRaw_touches step
      · cases success
  | mergeOp key op next ih =>
      simp only [Script.run] at success
      split at success
      · rename_i middle step
        obtain ⟨writes, same⟩ := ih within.2 success
        refine ⟨Relation.ReflTransGen.head ⟨key.raw, within.1, ?_⟩ writes, same⟩
        exact IndexingTask.mergeOpRaw_touches step
      · cases success
  | attach ref indexer data next ih =>
      obtain ⟨writes, same⟩ := ih within.2 success
      exact ⟨writes, same.point, same.resolver, same.chainedTxos, same.network⟩

/-- Whatever it is called for, the indexer writes allowed keys only. -/
def Indexer.Within (allowed : RawKey → Prop) (indexer : Indexer) : Prop :=
  ∀ tx blockIndex ctx, (indexer tx blockIndex ctx).Within (.onKeys allowed)

theorem runIndexers_within {allowed : RawKey → Prop} {tx : TransactionWithId} {blockIndex : Nat}
    {indexers : List Indexer} {task after : IndexingTask} {ctx ctx' : IndexingContext}
    (within : ∀ indexer ∈ indexers, indexer.Within allowed)
    (success : runIndexers tx blockIndex task ctx indexers = .ok (after, ctx')) :
    Written allowed task after ∧ SameInputs ctx ctx' := by
  induction indexers generalizing task ctx with
  | nil =>
      cases success
      exact ⟨Relation.ReflTransGen.refl, rfl, rfl, rfl, rfl⟩
  | cons indexer indexers ih =>
      simp only [runIndexers] at success
      split at success
      · cases success
      · rename_i middle inner step
        obtain ⟨first, same⟩ := Script.run_within (within indexer List.mem_cons_self _ _ _) step
        obtain ⟨second, kept⟩ :=
          ih (fun other member => within other (List.mem_cons_of_mem _ member)) success
        exact ⟨first.trans second, kept.point.trans same.point, kept.resolver.trans same.resolver,
          kept.chainedTxos.trans same.chainedTxos, kept.network.trans same.network⟩

theorem runIndexers_written {tx : TransactionWithId} {blockIndex : Nat} {indexers : List Indexer}
    {task after : IndexingTask} {ctx ctx' : IndexingContext}
    (success : runIndexers tx blockIndex task ctx indexers = .ok (after, ctx')) :
    Written IsCustomKey task after ∧ SameInputs ctx ctx' :=
  runIndexers_within (fun indexer _ tx index ctx => (indexer tx index ctx).within_custom) success

namespace IndexingContext

theorem consumeInputs_written {inputs : List TxIn} {task after : IndexingTask}
    {ctx ctx' : IndexingContext} (success : ctx.consumeInputs task inputs = .ok (ctx', after)) :
    Written UtxoByTxoRefKV.Holds task after := by
  induction inputs generalizing task ctx with
  | nil =>
      cases success
      exact Relation.ReflTransGen.refl
  | cons input inputs ih =>
      simp only [consumeInputs] at success
      split at success
      · cases success
      · rename_i middle step
        exact Relation.ReflTransGen.head ⟨_, Table.holds_encodeKey _ _,
          IndexingTask.deleteRaw_touches step⟩ (ih success)

theorem produceOutputs_written {tx : TransactionWithId} {outputs : List (TxOut × Nat)}
    {task after : IndexingTask} {ctx ctx' : IndexingContext} {cache cache' : Option UtxoCache}
    (success : ctx.produceOutputs task cache tx outputs = (cache', .ok (ctx', after))) :
    Written UtxoByTxoRefKV.Holds task after := by
  induction outputs generalizing task ctx cache with
  | nil =>
      cases success
      exact Relation.ReflTransGen.refl
  | cons output outputs ih =>
      obtain ⟨output, index⟩ := output
      simp only [produceOutputs] at success
      split at success
      · exact ih success
      · split at success
        · exact ih success
        · split at success
          · cases success
          · rename_i middle step
            exact Relation.ReflTransGen.head ⟨_, Table.holds_encodeKey _ _,
              IndexingTask.setRaw_touches step⟩ (ih success)

theorem updateUtxoSet_written {tx : TransactionWithId} {task after : IndexingTask}
    {ctx ctx' : IndexingContext} {cache cache' : Option UtxoCache}
    (success : ctx.updateUtxoSet task tx cache = (cache', .ok (ctx', after))) :
    Written UtxoByTxoRefKV.Holds task after := by
  simp only [updateUtxoSet] at success
  split at success
  · cases success
  · rename_i middle inner step
    exact (consumeInputs_written step).trans (produceOutputs_written success)

end IndexingContext

theorem indexTxs_written {indexers : List Indexer} {txs : List (TransactionWithId × Nat)}
    {task after : IndexingTask} {ctx ctx' : IndexingContext} {cache cache' : Option UtxoCache}
    (success : indexTxs indexers task ctx cache txs = (cache', .ok (after, ctx'))) :
    Written IsTxKey task after := by
  induction txs generalizing task ctx cache with
  | nil =>
      cases success
      exact Relation.ReflTransGen.refl
  | cons tx txs ih =>
      obtain ⟨tx, blockIndex⟩ := tx
      simp only [indexTxs] at success
      split at success
      · cases success
      · rename_i indexed inner ran
        split at success
        · cases success
        · rename_i stored updated changed
          have custom : Written IsTxKey task indexed :=
            (runIndexers_written ran).1.mono (by intro key inside; exact Or.inl inside)
          have utxos : Written IsTxKey indexed updated :=
            (IndexingContext.updateUtxoSet_written changed).mono
              (by intro key inside; exact Or.inr inside)
          exact (custom.trans utxos).trans (ih success)

theorem indexBlock_run {indexers : List Indexer} {task : IndexingTask} {point : Point}
    {txs : BlockTxs} {network : Network} {cache cache' : Option UtxoCache} {final : FinalizedTask}
    (success : indexBlock indexers task point txs network cache = (cache', .ok final)) :
    ∃ resolved ctx indexed inner informed hashed,
      IndexingContext.new task txs point network cache = (resolved, .ok ctx) ∧
      indexTxs indexers task ctx resolved txs.zipIdx = (cache', .ok (indexed, inner)) ∧
      setInfo indexed point false = .ok informed ∧
      informed.set HashByHeightKV point.height point.hash = .ok hashed ∧
      final = hashed.finalize := by
  simp only [indexBlock] at success
  split at success
  · cases success
  · rename_i resolved ctx created
    split at success
    · cases success
    · rename_i held indexed inner ran
      simp only [bind, Except.bind, pure, Except.pure, Prod.mk.injEq] at success
      rcases success with ⟨rfl, success⟩
      split at success
      · cases success
      · rename_i informed first
        split at success
        · cases success
        · rename_i hashed second
          exact ⟨resolved, ctx, indexed, inner, informed, hashed, created, ran, first, second,
            (Except.ok.inj success).symm⟩

theorem indexBlock_ok {indexers : List Indexer} {task : IndexingTask} {point : Point}
    {txs : BlockTxs} {network : Network} {cache cache' : Option UtxoCache} {final : FinalizedTask}
    (success : indexBlock indexers task point txs network cache = (cache', .ok final)) :
    ∃ indexed informed hashed, Written IsTxKey task indexed ∧
      setInfo indexed point false = .ok informed ∧
      informed.set HashByHeightKV point.height point.hash = .ok hashed ∧
      final = hashed.finalize := by
  rcases indexBlock_run success with
    ⟨_, _, indexed, _, informed, hashed, _, ran, info, hash, same⟩
  exact ⟨indexed, informed, hashed, indexTxs_written ran, info, hash, same⟩

def IsMempoolKey (key : RawKey) : Prop := IsTxKey key ∨ key = IndexerInfoKV.encodeKey ()

theorem indexPseudoBlocks_ok {indexers : List Indexer} {tip : Point}
    {blocks : List (BlockTxs × Nat)} {task after : IndexingTask} {ctx ctx' : IndexingContext}
    {cache cache' : Option UtxoCache} (some : blocks ≠ [])
    (success : indexPseudoBlocks indexers tip task ctx cache blocks = (cache', .ok (after, ctx'))) :
    ∃ before height, Written IsMempoolKey task before ∧
      setInfo before ⟨height, tip.hash⟩ true = .ok after := by
  induction blocks generalizing task ctx cache with
  | nil => exact absurd rfl some
  | cons block blocks ih =>
      obtain ⟨txs, index⟩ := block
      simp only [indexPseudoBlocks] at success
      split at success
      · cases success
      · rename_i stored indexed inner ran
        have writes : Written IsMempoolKey task indexed :=
          (indexTxs_written ran).mono (by intro key inside; exact Or.inl inside)
        split at success
        · cases success
        · rename_i informed info
          by_cases last : blocks = []
          · subst last
            cases success
            exact ⟨indexed, _, writes, info⟩
          · obtain ⟨before, height, further, final⟩ := ih last success
            refine ⟨before, height, (writes.tail ⟨_, Or.inr rfl, ?_⟩).trans further, final⟩
            exact IndexingTask.setRaw_touches info

theorem indexMempool_run {indexers : List Indexer} {task : IndexingTask} {tip : Point}
    {blocks : List BlockTxs} {network : Network} {cache cache' : Option UtxoCache}
    {final : FinalizedTask}
    (success : indexMempool indexers task tip blocks network cache = (cache', .ok final)) :
    ∃ resolved ctx indexed inner,
      IndexingContext.new task blocks.flatten tip network cache = (resolved, .ok ctx) ∧
      indexPseudoBlocks indexers tip task ctx resolved blocks.zipIdx =
        (cache', .ok (indexed, inner)) ∧
      final = indexed.finalize := by
  simp only [indexMempool] at success
  split at success
  · cases success
  · rename_i resolved ctx created
    rcases ran : indexPseudoBlocks indexers tip task ctx resolved blocks.zipIdx with ⟨held, result⟩
    rw [ran] at success
    cases result with
    | error failure => cases success
    | ok pair =>
        rcases pair with ⟨indexed, inner⟩
        cases success
        exact ⟨resolved, ctx, indexed, inner, created, ran, rfl⟩

theorem indexMempool_ok {indexers : List Indexer} {task : IndexingTask} {tip : Point}
    {blocks : List BlockTxs} {network : Network} {cache cache' : Option UtxoCache}
    {final : FinalizedTask} (some : blocks ≠ [])
    (success : indexMempool indexers task tip blocks network cache = (cache', .ok final)) :
    ∃ before after height, Written IsMempoolKey task before ∧
      setInfo before ⟨height, tip.hash⟩ true = .ok after ∧ final = after.finalize := by
  rcases indexMempool_run success with ⟨_, _, after, _, _, ran, same⟩
  rcases indexPseudoBlocks_ok (by simpa using some) ran with ⟨before, height, writes, info⟩
  exact ⟨before, after, height, writes, info, same⟩

/-! The core tables share no key with each other or with the indexers' tables. -/

theorem not_isCustomKey_of_core {Key Value : Type} (indexer : BigEndian.Byte) (key : RawKey)
    (held : (coreTable Key Value indexer).Holds key) : ¬ IsCustomKey key := by
  rcases held with ⟨rest, rfl⟩
  simp [IsCustomKey, coreTable, coreIndexerTag, customIndexerTag]

theorem not_isTxKey_of_core {Key Value : Type} (indexer : BigEndian.Byte) (key : RawKey)
    (different : indexer ≠ 85) (held : (coreTable Key Value indexer).Holds key) : ¬ IsTxKey key := by
  rintro (custom | utxo)
  · exact not_isCustomKey_of_core indexer key held custom
  · obtain ⟨rest, rfl⟩ := held
    obtain ⟨other, same⟩ := utxo
    simp only [UtxoByTxoRefKV, coreTable, List.cons_append, List.cons.injEq] at same
    exact different same.2.1.symm

theorem isData_of_core {Key Value : Type} (indexer : BigEndian.Byte) (key : RawKey)
    (notTimestamps : indexer ≠ 84) (notRollback : indexer ≠ 82)
    (held : (coreTable Key Value indexer).Holds key) : IsData key := by
  obtain ⟨rest, rfl⟩ := held
  constructor
  · rintro ⟨other, same⟩
    simp only [TimestampsKV, coreTable, List.cons_append, List.cons.injEq] at same
    exact notTimestamps same.2.1.symm
  · rintro ⟨other, same⟩
    simp only [RollbackBufferKV, coreTable, List.cons_append, List.cons.injEq] at same
    exact notRollback same.2.1.symm

theorem info_ne_of_hash {key : RawKey} (held : HashByHeightKV.Holds key) :
    key ≠ IndexerInfoKV.encodeKey () := by
  rintro rfl
  have tags := Table.tag_eq_of_holds HashByHeightKV IndexerInfoKV _ rfl held
    (Table.holds_encodeKey IndexerInfoKV ())
  exact absurd tags (by decide)

theorem IndexingTask.setRaw_lookup {task after : IndexingTask} {key : RawKey} {value : RawValue}
    (success : task.setRaw key value = .ok after) :
    after.writeBuffer.lookup key = some (.set value) := by
  obtain ⟨_, _, stored, _, rfl⟩ := IndexingTask.setRaw_ok success
  exact AList.lookup_insert _

theorem indexBlock_lookup {indexers : List Indexer} {task : IndexingTask} {point : Point}
    {txs : BlockTxs} {network : Network} {cache cache' : Option UtxoCache} {final : FinalizedTask}
    (success : indexBlock indexers task point txs network cache = (cache', .ok final))
    (fresh : task.writeBuffer = ∅) (key : RawKey) (core : ¬ IsTxKey key) :
    final.writeBuffer.lookup key =
      if key = HashByHeightKV.encodeKey point.height then some (.set (encode point.hash))
      else if key = IndexerInfoKV.encodeKey () then
        some (.set (encode (⟨point.height, point.hash, false⟩ : IndexerInfo)))
      else none := by
  obtain ⟨indexed, informed, hashed, writes, info, hash, rfl⟩ := indexBlock_ok success
  have untouched : indexed.writeBuffer.lookup key = none := by
    rw [writes.lookup_of_not_allowed key core, fresh]
    rfl
  split
  · rename_i same
    rw [same]
    exact IndexingTask.setRaw_lookup hash
  · rename_i other
    have kept : hashed.writeBuffer.lookup key = informed.writeBuffer.lookup key :=
      (IndexingTask.setRaw_touches hash).lookup_ne other
    rw [IndexingTask.finalize, kept]
    split
    · rename_i same
      rw [same]
      exact IndexingTask.setRaw_lookup info
    · rename_i distinct
      rw [(IndexingTask.setRaw_touches info).lookup_ne distinct, untouched]

theorem indexMempool_lookup {indexers : List Indexer} {task : IndexingTask} {tip : Point}
    {blocks : List BlockTxs} {network : Network} {cache cache' : Option UtxoCache}
    {final : FinalizedTask} (some : blocks ≠ [])
    (success : indexMempool indexers task tip blocks network cache = (cache', .ok final))
    (fresh : task.writeBuffer = ∅) :
    ∃ height, ∀ key, ¬ IsTxKey key → final.writeBuffer.lookup key =
      if key = IndexerInfoKV.encodeKey () then
        Option.some (.set (encode (⟨height, tip.hash, true⟩ : IndexerInfo)))
      else none := by
  obtain ⟨before, after, height, writes, info, rfl⟩ := indexMempool_ok some success
  refine ⟨height, ?_⟩
  intro key core
  split
  · rename_i same
    rw [same]
    exact IndexingTask.setRaw_lookup info
  · rename_i distinct
    have outside : ¬ IsMempoolKey key := by
      rintro (tx | same)
      · exact core tx
      · exact distinct same
    rw [IndexingTask.finalize, (IndexingTask.setRaw_touches info).lookup_ne distinct,
      writes.lookup_of_not_allowed key outside, fresh]
    rfl

/-- A key the index stage writes through its tasks. -/
def IsIndexKey (key : RawKey) : Prop :=
  IsTxKey key ∨ IndexerInfoKV.Holds key ∨ HashByHeightKV.Holds key

theorem IsIndexKey.isData {key : RawKey} (written : IsIndexKey key) : IsData key := by
  rcases written with (custom | utxo) | info | hash
  · constructor
    · intro held
      exact not_isCustomKey_of_core 84 key held custom
    · intro held
      exact not_isCustomKey_of_core 82 key held custom
  · exact isData_of_core 85 key (by decide) (by decide) utxo
  · exact isData_of_core 73 key (by decide) (by decide) info
  · exact isData_of_core 72 key (by decide) (by decide) hash

theorem isData_custom {key : RawKey} (custom : IsCustomKey key) : IsData key :=
  IsIndexKey.isData (Or.inl (Or.inl custom))

theorem isData_utxo {key : RawKey} (held : UtxoByTxoRefKV.Holds key) : IsData key :=
  IsIndexKey.isData (Or.inl (Or.inr held))

theorem isData_info : IsData (IndexerInfoKV.encodeKey ()) :=
  isData_of_core 73 _ (by decide) (by decide) (Table.holds_encodeKey _ _)

theorem isData_hash {key : RawKey} (held : HashByHeightKV.Holds key) : IsData key :=
  isData_of_core 72 key (by decide) (by decide) held

theorem indexBlock_written {indexers : List Indexer} {task : IndexingTask} {point : Point}
    {txs : BlockTxs} {network : Network} {cache cache' : Option UtxoCache} {final : FinalizedTask}
    (success : indexBlock indexers task point txs network cache = (cache', .ok final)) :
    ∃ after, Written IsIndexKey task after ∧ final = after.finalize := by
  rcases indexBlock_ok success with ⟨indexed, informed, hashed, writes, info, hash, same⟩
  refine ⟨hashed, ?_, same⟩
  have indexing : Written IsIndexKey task indexed :=
    writes.mono (by intro key inside; exact Or.inl inside)
  exact (indexing.tail ⟨_, Or.inr (Or.inl (Table.holds_encodeKey _ _)),
    IndexingTask.setRaw_touches info⟩).tail
    ⟨_, Or.inr (Or.inr (Table.holds_encodeKey _ _)), IndexingTask.setRaw_touches hash⟩

theorem indexMempool_written {indexers : List Indexer} {task : IndexingTask} {tip : Point}
    {blocks : List BlockTxs} {network : Network} {cache cache' : Option UtxoCache}
    {final : FinalizedTask} (some : blocks ≠ [])
    (success : indexMempool indexers task tip blocks network cache = (cache', .ok final)) :
    ∃ after, Written IsIndexKey task after ∧ final = after.finalize := by
  rcases indexMempool_ok some success with ⟨before, after, height, writes, info, same⟩
  refine ⟨after, ?_, same⟩
  have indexing : Written IsIndexKey task before := by
    apply writes.mono
    rintro key (tx | rfl)
    · exact Or.inl tx
    · exact Or.inr (Or.inl (Table.holds_encodeKey _ _))
  exact indexing.tail ⟨_, Or.inr (Or.inl (Table.holds_encodeKey _ _)),
    IndexingTask.setRaw_touches info⟩

theorem IndexingTask.Written.buffered {allowed : RawKey → Prop} {task after : IndexingTask}
    (written : Written allowed task after) (fresh : task.writeBuffer = ∅) {key : RawKey}
    (member : key ∈ after.writeBuffer) : allowed key := by
  by_contra outside
  have absent := written.lookup_of_not_allowed key outside
  rw [fresh] at absent
  exact AList.lookup_eq_none.mp absent member

theorem IndexingTask.Written.originals {allowed : RawKey → Prop} {task after : IndexingTask}
    {kvs : HashMap RawKey PreviousValue} (written : Written allowed task after)
    (tracks : task.Tracks ∅) (fresh : task.writeBuffer = ∅)
    (stored : after.finalize.originalKvs = some kvs) {key : RawKey} (member : key ∈ kvs) :
    allowed key := by
  rcases written.tracks tracks with ⟨tracked, final⟩
  obtain rfl : tracked = kvs := Option.some.inj (final.originals.symm.trans stored)
  exact written.buffered fresh (final.buffered key member)

end Symphony
