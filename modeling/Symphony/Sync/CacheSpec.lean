import Symphony.Sync.Determinism
import Symphony.Sync.UtxoRun

/-! What indexing does to the UTXO cache.

An entry of the cache that the table also holds has the value the table holds; entries of
abandoned blocks may stay behind, under outputs the table does not hold. -/

namespace Symphony

open Encdec
open IndexingTask (Written)

/-- What the cache and the table both hold is the same UTXO. -/
def CacheReads (task : IndexingTask) (cache : Option UtxoCache) : Prop :=
  ∀ held, cache = some held → ∀ ref utxo bytes, held.lookup ref = some utxo →
    task.getRaw (UtxoByTxoRefKV.encodeKey ref) = .ok (some bytes) →
      Fits utxo ∧ bytes = encode utxo

/-- Every entry of `grown` was in `cache` or belongs to one of the transactions. -/
def CacheFrom (ids : List Txid) (cache grown : Option UtxoCache) : Prop :=
  ∀ held, grown = some held → ∀ ref utxo, held.lookup ref = some utxo →
    (∃ old, cache = some old ∧ old.lookup ref = some utxo) ∨ ref.txHash ∈ ids

section From

variable {ids more : List Txid} {cache middle grown : Option UtxoCache}

theorem CacheFrom.refl (ids : List Txid) (cache : Option UtxoCache) : CacheFrom ids cache cache := by
  intro held same ref utxo found
  exact Or.inl ⟨held, same, found⟩

theorem CacheFrom.trans (first : CacheFrom ids cache middle) (second : CacheFrom ids middle grown) :
    CacheFrom ids cache grown := by
  intro held same ref utxo found
  rcases second held same ref utxo found with ⟨old, kept, before⟩ | named
  · exact first old kept ref utxo before
  · exact Or.inr named

theorem CacheSound.from {set : UtxoSet} (sound : CacheSound set cache)
    (from' : CacheFrom ids cache grown) (unknown : ∀ ref, (set ref).isSome → ref.txHash ∉ ids) :
    CacheSound set grown := by
  intro held same ref utxo stored found live
  rcases from' held same ref utxo found with ⟨old, kept, before⟩ | named
  · exact sound old kept ref utxo stored before live
  · exact absurd named (unknown ref (by rw [live]; rfl))

end From

section Growth

variable (ids : List Txid)

theorem IndexingContext.produceOutputs_from (ctx : IndexingContext) (task : IndexingTask)
    (cache : Option UtxoCache) (tx : TransactionWithId) (outputs : List (TxOut × Nat))
    (named : task.mempool = false → tx.txId ∈ ids) :
    CacheFrom ids cache (ctx.produceOutputs task cache tx outputs).1 := by
  induction outputs generalizing ctx task cache with
  | nil => exact CacheFrom.refl ids cache
  | cons item outputs ih =>
      rcases item with ⟨output, index⟩
      simp only [produceOutputs]
      split
      · exact ih ctx task cache named
      · split
        · exact ih _ task cache named
        · have inserted : CacheFrom ids cache
              (if task.mempool then cache else cache.map (fun c => c.insert (tx.txoRef index)
                (ctx.produced output (tx.txoRef index)))) := by
            split
            · exact CacheFrom.refl ids cache
            · rename_i confirmed
              intro held same ref utxo found
              rcases Option.map_eq_some_iff.mp same with ⟨old, kept, rfl⟩
              by_cases new : ref = tx.txoRef index
              · rw [new]
                exact Or.inr (named (by simpa using confirmed))
              · rw [AList.lookup_insert_ne new] at found
                exact Or.inl ⟨old, kept, found⟩
          split
          · exact inserted
          · rename_i after stored
            apply inserted.trans
            apply ih
            rw [(IndexingTask.setRaw_touches stored).sameSource.mempool]
            exact named

theorem IndexingContext.updateUtxoSet_from (ctx : IndexingContext) (task : IndexingTask)
    (tx : TransactionWithId) (cache : Option UtxoCache)
    (named : task.mempool = false → tx.txId ∈ ids) :
    CacheFrom ids cache (ctx.updateUtxoSet task tx cache).1 := by
  simp only [updateUtxoSet]
  split
  · exact CacheFrom.refl ids cache
  · rename_i inner middle consumed
    apply produceOutputs_from
    rw [(consumeInputs_written consumed).sameSource.mempool]
    exact named

theorem indexTxs_from (indexers : List Indexer) (task : IndexingTask) (ctx : IndexingContext)
    (cache : Option UtxoCache) (txs : List (TransactionWithId × Nat))
    (named : task.mempool = false → ∀ item ∈ txs, item.1.txId ∈ ids) :
    CacheFrom ids cache (indexTxs indexers task ctx cache txs).1 := by
  induction txs generalizing task ctx cache with
  | nil => exact CacheFrom.refl ids cache
  | cons item txs ih =>
      rcases item with ⟨tx, blockIndex⟩
      simp only [indexTxs]
      split
      · exact CacheFrom.refl ids cache
      · rename_i middle inner ran
        have source := (runIndexers_written ran).1.sameSource
        have updated := inner.updateUtxoSet_from ids middle tx cache (by
          intro confirmed
          exact named (source.mempool ▸ confirmed) (tx, blockIndex) List.mem_cons_self)
        split
        · rename_i held failure step
          rw [step] at updated
          exact updated
        · rename_i held ctx' task' step
          rw [step] at updated
          apply updated.trans
          apply ih
          intro confirmed other member
          have same := (IndexingContext.updateUtxoSet_written step).sameSource
          rw [same.mempool, source.mempool] at confirmed
          exact named confirmed other (List.mem_cons_of_mem _ member)

theorem IndexingContext.new_from (task : IndexingTask) (txs : BlockTxs) (point : Point)
    (network : Network) (cache : Option UtxoCache) :
    CacheFrom ids cache (IndexingContext.new task txs point network cache).1 := by
  intro held same ref utxo found
  simp only [new, resolveInputs] at same
  rcases Option.map_eq_some_iff.mp same with ⟨old, rfl, rfl⟩
  have distinct : ((inputRefs txs).filter
      (fun ref => ref.txHash ∉ txs.map TransactionWithId.txId)).Nodup :=
    (List.nodup_dedup _).filter _
  rw [Option.getD_some, (takeCached_spec old ∅ [] distinct).1 ref] at found
  split at found
  · cases found
  · exact Or.inl ⟨old, rfl, found⟩

theorem indexBlock_from (indexers : List Indexer) (task : IndexingTask) (point : Point)
    (txs : BlockTxs) (network : Network) (cache : Option UtxoCache) :
    CacheFrom (txs.map TransactionWithId.txId) cache
      (indexBlock indexers task point txs network cache).1 := by
  have created := IndexingContext.new_from (txs.map TransactionWithId.txId) task txs point
    network cache
  simp only [indexBlock]
  split
  · rename_i held failure result
    rw [result] at created
    exact created
  · rename_i held ctx result
    rw [result] at created
    have ran := indexTxs_from (txs.map TransactionWithId.txId) indexers task ctx held
      txs.zipIdx (by
        intro _ item member
        exact List.mem_map_of_mem (List.fst_mem_of_mem_zipIdx member))
    split
    · rename_i kept failure result'
      rw [result'] at ran
      exact created.trans ran
    · rename_i kept after inner result'
      rw [result'] at ran
      exact created.trans ran

theorem indexPseudoBlocks_from (indexers : List Indexer) (tip : Point) (task : IndexingTask)
    (ctx : IndexingContext) (cache : Option UtxoCache) (blocks : List (BlockTxs × Nat))
    (mempool : task.mempool = true) :
    CacheFrom ids cache (indexPseudoBlocks indexers tip task ctx cache blocks).1 := by
  induction blocks generalizing task ctx cache with
  | nil => exact CacheFrom.refl ids cache
  | cons item blocks ih =>
      rcases item with ⟨txs, index⟩
      have ran := indexTxs_from ids indexers task
        (ctx.updatePoint ⟨tip.height + 1 + BitVec.ofNat 64 index, tip.hash⟩) cache txs.zipIdx (by
          intro confirmed
          rw [mempool] at confirmed
          cases confirmed)
      simp only [indexPseudoBlocks]
      split
      · rename_i held failure result
        rw [result] at ran
        exact ran
      · rename_i held after inner result
        rw [result] at ran
        split
        · exact ran
        · rename_i informed info
          apply ran.trans
          apply ih
          rw [(IndexingTask.setRaw_touches info).sameSource.mempool,
            (indexTxs_written result).sameSource.mempool]
          exact mempool

theorem indexMempool_from (indexers : List Indexer) (task : IndexingTask) (tip : Point)
    (blocks : List BlockTxs) (network : Network) (cache : Option UtxoCache)
    (mempool : task.mempool = true) :
    CacheFrom [] cache (indexMempool indexers task tip blocks network cache).1 := by
  have created := IndexingContext.new_from [] task blocks.flatten tip network cache
  simp only [indexMempool]
  split
  · rename_i held failure result
    rw [result] at created
    exact created
  · rename_i held ctx result
    rw [result] at created
    exact created.trans (indexPseudoBlocks_from [] indexers tip task ctx held blocks.zipIdx mempool)

end Growth

section Reads

variable {task after : IndexingTask} {ctx ctx' : IndexingContext} {cache cache' : Option UtxoCache}

theorem CacheReads.of_kept (reads : CacheReads task cache)
    (kept : ∀ ref, after.getRaw (UtxoByTxoRefKV.encodeKey ref) = .ok none ∨
      after.getRaw (UtxoByTxoRefKV.encodeKey ref) = task.getRaw (UtxoByTxoRefKV.encodeKey ref)) :
    CacheReads after cache := by
  intro held same ref utxo bytes found stored
  rcases kept ref with gone | unchanged
  · rw [gone] at stored
    cases stored
  · rw [unchanged] at stored
    exact reads held same ref utxo bytes found stored

theorem CacheReads.consumed {inputs : List TxIn} (reads : CacheReads task cache)
    (consumed : IndexingContext.Consumed ctx task inputs ctx' after) : CacheReads after cache := by
  apply reads.of_kept
  intro ref
  by_cases spent : ref ∈ inputs.map TxIn.previousOutput
  · exact Or.inl (consumed.gone ref spent)
  · right
    apply consumed.kept
    intro other member same
    exact spent (utxoKey_injective same ▸ member)

theorem CacheReads.produced {tx : TransactionWithId} {outputs : List (TxOut × Nat)}
    (reads : CacheReads task cache) (confirmed : task.mempool = false)
    (success : ctx.produceOutputs task cache tx outputs = (cache', .ok (ctx', after))) :
    CacheReads after cache' := by
  induction outputs generalizing ctx task cache with
  | nil =>
      cases success
      exact reads
  | cons item outputs ih =>
      rcases item with ⟨output, index⟩
      simp only [IndexingContext.produceOutputs] at success
      split at success
      · exact ih reads confirmed success
      · split at success
        · exact ih reads confirmed success
        · split at success
          · cases success
          · rename_i stored step
            have touches := IndexingTask.setRaw_touches step
            rw [confirmed] at success
            apply ih _ (touches.sameSource.mempool.trans confirmed) success
            intro held same ref utxo bytes found read
            rcases Option.map_eq_some_iff.mp same with ⟨old, kept, rfl⟩
            by_cases new : ref = tx.txoRef index
            · subst new
              rw [AList.lookup_insert, Option.some.injEq] at found
              rw [IndexingTask.setRaw_getRaw step, Except.ok.injEq, Option.some.injEq] at read
              rcases IndexingTask.setRaw_ok step with ⟨_, short, _⟩
              rw [← found]
              exact ⟨Utxo.fits_of_short short, read.symm⟩
            · rw [AList.lookup_insert_ne new] at found
              rw [touches.getRaw_ne (by
                intro same
                exact new (utxoKey_injective same))] at read
              exact reads old kept ref utxo bytes found read

theorem CacheReads.run {indexers : List Indexer} {txs : List (TransactionWithId × Nat)}
    (reads : CacheReads task cache) (confirmed : task.mempool = false)
    (success : indexTxs indexers task ctx cache txs = (cache', .ok (after, ctx'))) :
    CacheReads after cache' := by
  induction txs generalizing task ctx cache with
  | nil =>
      cases success
      exact reads
  | cons item txs ih =>
      rcases item with ⟨tx, blockIndex⟩
      simp only [indexTxs] at success
      split at success
      · cases success
      · rename_i middle inner ran
        have writes := (runIndexers_written ran).1
        have indexed : CacheReads middle cache := by
          apply reads.of_kept
          intro ref
          right
          exact writes.getRaw_of_not_allowed _ (not_isCustomKey_of_core 85 _
            (Table.holds_encodeKey UtxoByTxoRefKV ref))
        split at success
        · cases success
        · rename_i held ctx'' task'' step
          have source := (IndexingContext.updateUtxoSet_written step).sameSource.mempool
          rw [writes.sameSource.mempool, confirmed] at source
          apply ih _ source success
          simp only [IndexingContext.updateUtxoSet] at step
          split at step
          · cases step
          · rename_i spent between consuming
            apply (indexed.consumed (IndexingContext.consumeInputs_consumed consuming)).produced _ step
            rw [(IndexingContext.consumeInputs_written consuming).sameSource.mempool,
              writes.sameSource.mempool]
            exact confirmed

theorem CacheSound.reads {set : UtxoSet} (sound : CacheSound set cache)
    (stores : Stores task.getRaw set) : CacheReads task cache := by
  intro held same ref utxo bytes found read
  rw [stores.entry ref, Except.ok.injEq] at read
  rcases Option.map_eq_some_iff.mp read with ⟨stored, live, rfl⟩
  obtain rfl := sound held same ref utxo stored found live
  exact ⟨stores.fits ref _ live, rfl⟩

theorem CacheReads.sound {set : UtxoSet} (reads : CacheReads task cache)
    (stores : Stores task.getRaw set) : CacheSound set cache := by
  intro held same ref utxo stored found live
  have read := stores.entry ref
  rw [live, Option.map_some] at read
  rcases reads held same ref utxo _ found read with ⟨fits, encoded⟩
  exact encode_injective (stores.fits ref stored live) fits encoded

end Reads

section Transparent

variable {task : IndexingTask} {set : UtxoSet} {cache : Option UtxoCache}

theorem Twins.refl (strict : Prop) (task : IndexingTask) : Twins strict task task :=
  ⟨rfl, Or.inl rfl, rfl, by intro key _; rfl⟩

theorem TwinTasks.eq {task other : FinalizedTask} (twins : TwinTasks True task other) :
    other = task := by
  rcases task with ⟨writeBuffer, originalKvs, mempool⟩
  rcases other with ⟨writeBuffer', originalKvs', mempool'⟩
  have originals := twins.originals.resolve_right (by simp)
  rw [FinalizedTask.mk.injEq]
  exact ⟨twins.buffer, originals, twins.mempool⟩

theorem Alike.eq {first second : Except Error FinalizedTask}
    (alike : Alike True (TwinTasks True) first second) : second = first := by
  rcases alike with ⟨left, right, rfl, rfl, twins⟩ | ⟨failure, rfl, same⟩
  · rw [twins.eq]
  · exact same trivial

theorem IndexingContext.new_transparent {txs : BlockTxs} {coinbase : Bool} (point : Point)
    (network : Network) (stores : Stores task.getRaw set) (sound : CacheSound set cache)
    (valid : ValidTxs coinbase (liveRefs set) txs) :
    Alike True TwinContexts (IndexingContext.new task txs point network cache).2
      (IndexingContext.new task txs point network none).2 := by
  have present : ∀ ref ∈ inputRefs txs, ref.txHash ∉ txs.map TransactionWithId.txId →
      (set ref).isSome := by
    intro ref member outside
    rcases (mem_inputRefs valid).mp member with ⟨tx, listed, spent⟩
    exact (valid.spends_live listed spent).resolve_right outside
  have nothing : CacheSound set none := by
    intro held impossible
    cases impossible
  rcases resolveInputs_spec stores sound present with ⟨_, resolver, resolved, lookup, _⟩
  rcases resolveInputs_spec stores nothing present with ⟨_, resolver', resolved', lookup', _⟩
  simp only [new, resolved, resolved']
  apply Alike.success
  refine ⟨rfl, ?_, rfl, rfl, rfl⟩
  intro ref
  rw [lookup, lookup']

theorem indexBlock_transparent {txs : BlockTxs} {coinbase : Bool} (indexers : List Indexer)
    (point : Point) (network : Network) (stores : Stores task.getRaw set)
    (sound : CacheSound set cache) (valid : ValidTxs coinbase (liveRefs set) txs) :
    (indexBlock indexers task point txs network none).2 =
      (indexBlock indexers task point txs network cache).2 :=
  (indexBlock_twins indexers point txs network cache none (Twins.refl True task)
    (IndexingContext.new_transparent point network stores sound valid)).eq

theorem indexMempool_transparent {blocks : List BlockTxs} {coinbase : Bool}
    (indexers : List Indexer) (tip : Point) (network : Network) (stores : Stores task.getRaw set)
    (sound : CacheSound set cache) (valid : ValidTxs coinbase (liveRefs set) blocks.flatten) :
    (indexMempool indexers task tip blocks network none).2 =
      (indexMempool indexers task tip blocks network cache).2 :=
  (indexMempool_twins indexers tip blocks network cache none (Twins.refl True task)
    (IndexingContext.new_transparent tip network stores sound valid)).eq

end Transparent

end Symphony
