import Symphony.Sync.UtxoSpec

/-! The UTXO set along the transactions of a block and the pseudo blocks of a snapshot. -/

namespace Symphony

open Encdec

/-! The cache is only passed along while transactions are indexed. -/

theorem IndexingContext.produceOutputs_cache (ctx : IndexingContext) (task : IndexingTask)
    (cache : Option UtxoCache) (tx : TransactionWithId) (outputs : List (TxOut × Nat)) :
    (ctx.produceOutputs task cache tx outputs).2 = (ctx.produceOutputs task none tx outputs).2 := by
  induction outputs generalizing ctx task cache with
  | nil => rfl
  | cons output outputs ih =>
      rcases output with ⟨output, index⟩
      simp only [produceOutputs]
      split
      · exact ih _ _ _
      · split
        · exact ih _ _ _
        · split
          · rfl
          · exact (ih _ _ _).trans (ih _ _ _).symm

theorem IndexingContext.updateUtxoSet_cache (ctx : IndexingContext) (task : IndexingTask)
    (tx : TransactionWithId) (cache : Option UtxoCache) :
    (ctx.updateUtxoSet task tx cache).2 = (ctx.updateUtxoSet task tx none).2 := by
  simp only [updateUtxoSet]
  split
  · rfl
  · exact produceOutputs_cache _ _ _ _ _

def attachedTxs (indexers : List Indexer) (task : IndexingTask) (ctx : IndexingContext) :
    List (TransactionWithId × Nat) → TxoRef → ExtendedUtxoData
  | [], _ => IndexMap.empty
  | (tx, blockIndex) :: txs, ref => match runIndexers tx blockIndex task ctx indexers with
      | .error _ => IndexMap.empty
      | .ok (task, ctx) =>
          if ref.txHash = tx.txId then ctx.metadataOf ref
          else match (ctx.updateUtxoSet task tx none).2 with
            | .error _ => IndexMap.empty
            | .ok (ctx, task) => attachedTxs indexers task ctx txs ref

theorem applyTx_congr {set : UtxoSet} {height : BlockHeight}
    {first second : TxoRef → ExtendedUtxoData} {tx : TransactionWithId}
    (same : ∀ ref, ref.txHash = tx.txId → first ref = second ref) :
    applyTx set height first tx = applyTx set height second tx := by
  funext ref
  simp only [applyTx]
  cases created : tx.creates ref with
  | none => rfl
  | some output => simp only [same ref (TransactionWithId.txHash_of_creates created)]

theorem applyTxs_congr {set : UtxoSet} {height : BlockHeight}
    {first second : TxoRef → ExtendedUtxoData} {txs : BlockTxs}
    (same : ∀ ref, ref.txHash ∈ txs.map TransactionWithId.txId → first ref = second ref) :
    applyTxs set height first txs = applyTxs set height second txs := by
  induction txs generalizing set with
  | nil => rfl
  | cons tx txs ih =>
      have head : applyTx set height first tx = applyTx set height second tx := by
        apply applyTx_congr
        intro ref hash
        exact same ref (by rw [hash]; exact List.mem_cons_self)
      calc applyTxs set height first (tx :: txs)
          = applyTxs (applyTx set height first tx) height first txs := rfl
        _ = applyTxs (applyTx set height second tx) height second txs := by
            rw [head, ih (by intro ref member; exact same ref (List.mem_cons_of_mem _ member))]
        _ = applyTxs set height second (tx :: txs) := rfl

section Run

variable {indexers : List Indexer} {task after : IndexingTask} {ctx ctx' : IndexingContext}
variable {set : UtxoSet} {remaining : BlockTxs}

theorem Between.indexed {tx : TransactionWithId} {blockIndex : Nat}
    (between : Between task ctx set remaining)
    (ran : runIndexers tx blockIndex task ctx indexers = .ok (after, ctx')) :
    Between after ctx' set remaining ∧ ctx'.point = ctx.point := by
  rcases runIndexers_written ran with ⟨writes, same⟩
  refine ⟨between.frame ?_ same.resolver same.chainedTxos, same.point⟩
  intro key held
  exact writes.getRaw_of_not_allowed key (not_isCustomKey_of_core 85 key held)

theorem attachedTxs_head {tx : TransactionWithId} {blockIndex : Nat}
    {txs : List (TransactionWithId × Nat)} {ref : TxoRef}
    (ran : runIndexers tx blockIndex task ctx indexers = .ok (after, ctx'))
    (hash : ref.txHash = tx.txId) :
    attachedTxs indexers task ctx ((tx, blockIndex) :: txs) ref = ctx'.metadataOf ref := by
  simp only [attachedTxs, ran, if_pos hash]

theorem attachedTxs_tail {tx : TransactionWithId} {blockIndex : Nat} {middle : IndexingTask}
    {inner : IndexingContext} {txs : List (TransactionWithId × Nat)} {ref : TxoRef}
    {cache cache' : Option UtxoCache}
    (ran : runIndexers tx blockIndex task ctx indexers = .ok (middle, inner))
    (updated : inner.updateUtxoSet middle tx cache = (cache', .ok (ctx', after)))
    (hash : ref.txHash ≠ tx.txId) :
    attachedTxs indexers task ctx ((tx, blockIndex) :: txs) ref =
      attachedTxs indexers after ctx' txs ref := by
  have result : (inner.updateUtxoSet middle tx none).2 = .ok (ctx', after) := by
    rw [← inner.updateUtxoSet_cache middle tx cache, updated]
  simp only [attachedTxs, ran, if_neg hash, result]

theorem Between.run {txs : BlockTxs} {start : Nat} {coinbase : Bool}
    {cache cache' : Option UtxoCache} (between : Between task ctx set (txs ++ remaining))
    (valid : ValidTxs coinbase (liveRefs set) (txs ++ remaining))
    (success : indexTxs indexers task ctx cache (txs.zipIdx start) = (cache', .ok (after, ctx'))) :
    Between after ctx' (applyTxs set ctx.point.height
        (attachedTxs indexers task ctx (txs.zipIdx start)) txs) remaining ∧
      ctx'.point = ctx.point := by
  induction txs generalizing task ctx set cache start coinbase with
  | nil =>
      cases success
      exact ⟨between, rfl⟩
  | cons tx txs ih =>
      rw [List.zipIdx_cons] at success ⊢
      simp only [indexTxs] at success
      split at success
      · cases success
      · rename_i middle inner ran
        split at success
        · cases success
        · rename_i held ctx'' task'' updated
          rcases between.indexed ran with ⟨indexed, place⟩
          rcases indexed.step valid.2.1 updated with ⟨stepped, samePlace⟩
          have ids : tx.txId ∉ txs.map TransactionWithId.txId := by
            have distinct := between.distinct
            rw [List.cons_append, List.map_cons, List.nodup_cons, List.map_append] at distinct
            intro member
            exact distinct.1 (List.mem_append_left _ member)
          have head : applyTx set inner.point.height inner.metadataOf tx =
              applyTx set ctx.point.height
                (attachedTxs indexers task ctx ((tx, start) :: txs.zipIdx (start + 1))) tx := by
            rw [place]
            apply applyTx_congr
            intro ref hash
            exact (attachedTxs_head ran hash).symm
          have later : ValidTxs false (liveRefs (applyTx set inner.point.height inner.metadataOf tx))
              (txs ++ remaining) := by
            rw [liveRefs_applyTx]
            exact valid.2.2
          rcases ih stepped later success with ⟨rest, final⟩
          refine ⟨?_, final.trans (samePlace.point.trans place)⟩
          have tail : applyTxs (applyTx set inner.point.height inner.metadataOf tx)
              ctx''.point.height (attachedTxs indexers task'' ctx'' (txs.zipIdx (start + 1))) txs =
                applyTxs set ctx.point.height
                  (attachedTxs indexers task ctx ((tx, start) :: txs.zipIdx (start + 1)))
                  (tx :: txs) := by
            rw [samePlace.point, place] at *
            rw [head]
            apply applyTxs_congr
            intro ref member
            rw [attachedTxs_tail ran updated]
            rintro hash
            exact ids (hash ▸ member)
          rw [← tail]
          exact rest

end Run

theorem indexTxs_cache (indexers : List Indexer) (task : IndexingTask) (ctx : IndexingContext)
    (cache : Option UtxoCache) (txs : List (TransactionWithId × Nat)) :
    (indexTxs indexers task ctx cache txs).2 = (indexTxs indexers task ctx none txs).2 := by
  induction txs generalizing task ctx cache with
  | nil => rfl
  | cons tx txs ih =>
      rcases tx with ⟨tx, blockIndex⟩
      simp only [indexTxs]
      split
      · rfl
      · rename_i middle inner _
        have same := inner.updateUtxoSet_cache middle tx cache
        rcases first : inner.updateUtxoSet middle tx cache with ⟨left, result⟩
        rcases second : inner.updateUtxoSet middle tx none with ⟨right, other⟩
        rw [first, second] at same
        obtain rfl : result = other := same
        cases result with
        | error failure => rfl
        | ok pair => exact (ih _ _ _).trans (ih _ _ _).symm

def pseudoPoint (tip : Point) (index : Nat) : Point :=
  ⟨tip.height + 1 + BitVec.ofNat 64 index, tip.hash⟩

/-- The pseudo blocks a snapshot indexes, oldest first, with the metadata of their outputs. -/
def pseudoBlocks (indexers : List Indexer) (tip : Point) (task : IndexingTask)
    (ctx : IndexingContext) : List (BlockTxs × Nat) → List IndexedBlock
  | [] => []
  | (txs, index) :: blocks =>
      let ctx := ctx.updatePoint (pseudoPoint tip index)
      ⟨pseudoPoint tip index, txs, attachedTxs indexers task ctx txs.zipIdx⟩ ::
        match (indexTxs indexers task ctx none txs.zipIdx).2 with
        | .error _ => []
        | .ok (task, ctx) => match setInfo task (pseudoPoint tip index) true with
            | .error _ => []
            | .ok task => pseudoBlocks indexers tip task ctx blocks

section Pseudo

variable {indexers : List Indexer} {tip : Point} {task after : IndexingTask}
variable {ctx ctx' : IndexingContext} {cache cache' : Option UtxoCache}

theorem indexPseudoBlocks_cons {txs : BlockTxs} {index : Nat} {blocks : List (BlockTxs × Nat)}
    (success : indexPseudoBlocks indexers tip task ctx cache ((txs, index) :: blocks) =
      (cache', .ok (after, ctx'))) :
    ∃ held indexed inner informed,
      indexTxs indexers task (ctx.updatePoint (pseudoPoint tip index)) cache txs.zipIdx =
        (held, .ok (indexed, inner)) ∧
      setInfo indexed (pseudoPoint tip index) true = .ok informed ∧
      indexPseudoBlocks indexers tip informed inner held blocks = (cache', .ok (after, ctx')) ∧
      pseudoBlocks indexers tip task ctx ((txs, index) :: blocks) =
        ⟨pseudoPoint tip index, txs, attachedTxs indexers task
          (ctx.updatePoint (pseudoPoint tip index)) txs.zipIdx⟩ ::
          pseudoBlocks indexers tip informed inner blocks := by
  simp only [indexPseudoBlocks] at success
  split at success
  · cases success
  · rename_i held indexed inner ran
    split at success
    · cases success
    · rename_i informed info
      refine ⟨held, indexed, inner, informed, ran, info, success, ?_⟩
      have result : (indexTxs indexers task (ctx.updatePoint (pseudoPoint tip index)) none
          txs.zipIdx).2 = .ok (indexed, inner) := by
        rw [← indexTxs_cache indexers task _ cache]
        exact congrArg Prod.snd ran
      have informing : setInfo indexed (pseudoPoint tip index) true = .ok informed := info
      simp only [pseudoBlocks, result, informing]

theorem Between.informed {set : UtxoSet} {remaining : BlockTxs} {point : Point} {mempool : Bool}
    (between : Between task ctx set remaining) (info : setInfo task point mempool = .ok after) :
    Between after ctx set remaining := by
  refine between.frame ?_ rfl rfl
  intro key held
  apply (IndexingTask.setRaw_touches info).getRaw_ne
  rintro rfl
  have tags := Table.tag_eq_of_holds UtxoByTxoRefKV IndexerInfoKV _ rfl held
    (Table.holds_encodeKey IndexerInfoKV ())
  exact absurd tags (by decide)

theorem Between.moved {set : UtxoSet} {remaining : BlockTxs}
    (between : Between task ctx set remaining) (point : Point) :
    Between task (ctx.updatePoint point) set remaining :=
  between.frame (by intro key _; rfl) rfl rfl

theorem Between.runPseudo {blocks : List BlockTxs} {start : Nat} {base : List IndexedBlock}
    {remaining : BlockTxs}
    (between : Between task ctx (unspent base) (blocks.flatten ++ remaining))
    (valid : ValidTxs false (liveRefs (unspent base)) (blocks.flatten ++ remaining))
    (success : indexPseudoBlocks indexers tip task ctx cache (blocks.zipIdx start) =
      (cache', .ok (after, ctx'))) :
    Between after ctx' (unspent ((pseudoBlocks indexers tip task ctx
      (blocks.zipIdx start)).reverse ++ base)) remaining ∧
    ValidTxs false (liveRefs (unspent ((pseudoBlocks indexers tip task ctx
      (blocks.zipIdx start)).reverse ++ base))) remaining := by
  induction blocks generalizing task ctx cache start base with
  | nil =>
      cases success
      exact ⟨between, valid⟩
  | cons txs blocks ih =>
      rw [List.zipIdx_cons] at success ⊢
      rcases indexPseudoBlocks_cons success with ⟨held, indexed, inner, informed, ran, info, rest, same⟩
      rw [List.flatten_cons, List.append_assoc] at between valid
      have block := ((between.moved (pseudoPoint tip start)).run valid ran).1
      rw [same, List.reverse_cons, List.append_assoc, List.singleton_append]
      apply ih (block.informed info) _ rest
      exact valid.drop (Or.inr rfl)

end Pseudo

/-! Without a cache none comes into being. -/

theorem IndexingContext.produceOutputs_uncached (ctx : IndexingContext) (task : IndexingTask)
    (tx : TransactionWithId) (outputs : List (TxOut × Nat)) :
    (ctx.produceOutputs task none tx outputs).1 = none := by
  induction outputs generalizing ctx task with
  | nil => rfl
  | cons output outputs ih =>
      rcases output with ⟨output, index⟩
      have idle : (if task.mempool then none else Option.map (fun c : UtxoCache =>
          c.insert (tx.txoRef index) (ctx.produced output (tx.txoRef index))) none) = none := by
        simp
      simp only [produceOutputs, idle]
      split
      · exact ih _ _
      · split
        · exact ih _ _
        · split
          · rfl
          · exact ih _ _

theorem indexTxs_uncached (indexers : List Indexer) (task : IndexingTask) (ctx : IndexingContext)
    (txs : List (TransactionWithId × Nat)) : (indexTxs indexers task ctx none txs).1 = none := by
  induction txs generalizing task ctx with
  | nil => rfl
  | cons tx txs ih =>
      rcases tx with ⟨tx, blockIndex⟩
      simp only [indexTxs]
      split
      · rfl
      · rename_i middle inner _
        have updated : (inner.updateUtxoSet middle tx none).1 = none := by
          simp only [IndexingContext.updateUtxoSet]
          split
          · rfl
          · exact IndexingContext.produceOutputs_uncached _ _ _ _
        rcases result : inner.updateUtxoSet middle tx none with ⟨cache, outcome⟩
        rw [result] at updated
        obtain rfl : cache = none := updated
        cases outcome with
        | error failure => rfl
        | ok pair => exact ih _ _

theorem indexBlock_uncached (indexers : List Indexer) (task : IndexingTask) (point : Point)
    (txs : BlockTxs) (network : Network) :
    (indexBlock indexers task point txs network none).1 = none := by
  rcases created : IndexingContext.new task txs point network none with ⟨cache, result⟩
  obtain rfl : cache = none := (congrArg Prod.fst created).symm
  simp only [indexBlock, created]
  cases result with
  | error failure => rfl
  | ok ctx =>
      have kept := indexTxs_uncached indexers task ctx txs.zipIdx
      rcases ran : indexTxs indexers task ctx none txs.zipIdx with ⟨held, outcome⟩
      rw [ran] at kept
      simp only [ran]
      cases outcome with
      | error failure => exact kept
      | ok pair => exact kept

theorem indexPseudoBlocks_uncached (indexers : List Indexer) (tip : Point) (task : IndexingTask)
    (ctx : IndexingContext) (blocks : List (BlockTxs × Nat)) :
    (indexPseudoBlocks indexers tip task ctx none blocks).1 = none := by
  induction blocks generalizing task ctx with
  | nil => rfl
  | cons block blocks ih =>
      rcases block with ⟨txs, index⟩
      simp only [indexPseudoBlocks]
      have kept := indexTxs_uncached indexers task (ctx.updatePoint
        ⟨tip.height + 1 + BitVec.ofNat 64 index, tip.hash⟩) txs.zipIdx
      rcases ran : indexTxs indexers task (ctx.updatePoint
        ⟨tip.height + 1 + BitVec.ofNat 64 index, tip.hash⟩) none txs.zipIdx with ⟨held, outcome⟩
      rw [ran] at kept
      obtain rfl : held = none := kept
      cases outcome with
      | error failure => rfl
      | ok pair =>
          rcases pair with ⟨indexed, inner⟩
          simp only
          split
          · rfl
          · exact ih _ _

theorem indexMempool_uncached (indexers : List Indexer) (task : IndexingTask) (tip : Point)
    (blocks : List BlockTxs) (network : Network) :
    (indexMempool indexers task tip blocks network none).1 = none := by
  rcases created : IndexingContext.new task blocks.flatten tip network none with ⟨cache, result⟩
  obtain rfl : cache = none := (congrArg Prod.fst created).symm
  simp only [indexMempool, created]
  cases result with
  | error failure => rfl
  | ok ctx => exact indexPseudoBlocks_uncached indexers tip task ctx blocks.zipIdx

end Symphony
