import Symphony.Proof.TxRule

/-! Points between two transactions, of a block or a snapshot that is being indexed. -/

namespace Symphony

open VersionedLog (Increasing)

/-- Where the indexing of a block stands: what is done, the task and the context, the place of the
next transaction, and the transactions to come. -/
structure TxPoint where
  past : List IndexedTx
  task : IndexingTask
  ctx : IndexingContext
  blockIndex : Nat
  rest : BlockTxs

/-- The property at every point of a valid block on top of the chain, whose height fits. -/
def BlockPoints (indexers : List Indexer) (network : Network) (handler : StorageHandler)
    (confirmed : List IndexedBlock) (At : TxPoint → Prop) : Prop :=
  ∀ mutable point txs, confirmed.length + 1 < 2 ^ 64 →
    point.height = BitVec.ofNat 64 (confirmed.length + 1) → ValidOn true confirmed txs →
    let begun := handler.beginIndexingTask mutable
    ∃ ctx, IndexingContext.new begun txs point network none = (none, .ok ctx) ∧
      ∀ done rest cache task ctx', txs = done ++ rest →
        indexTxs indexers begun ctx none done.zipIdx = (cache, .ok (task, ctx')) →
          At ⟨pushTxs point (attachedTxs indexers begun ctx done.zipIdx) done.zipIdx
            (chainTxs confirmed), task, ctx', done.length, rest⟩

def SnapshotPoints (indexers : List Indexer) (network : Network) (handler : StorageHandler)
    (tip : Point) (confirmed : List IndexedBlock) (At : TxPoint → Prop) : Prop :=
  ∀ blocks, confirmed.length + blocks.length < 2 ^ 64 → ValidOn false confirmed blocks.flatten →
    let begun := handler.beginMempoolIndexingTask
    ∃ ctx, IndexingContext.new begun blocks.flatten tip network none = (none, .ok ctx) ∧
      ∀ front done rest back cache task inner cache' task' ctx',
        blocks = front ++ (done ++ rest) :: back →
        indexPseudoBlocks indexers tip begun ctx none front.zipIdx = (cache, .ok (task, inner)) →
        indexTxs indexers task (inner.updatePoint (pseudoPoint tip front.length)) none done.zipIdx =
          (cache', .ok (task', ctx')) →
          At ⟨pushTxs (pseudoPoint tip front.length)
            (attachedTxs indexers task (inner.updatePoint (pseudoPoint tip front.length)) done.zipIdx)
            done.zipIdx (chainTxs ((pseudoBlocks indexers tip begun ctx front.zipIdx).reverse ++
              confirmed)), task', ctx', done.length, rest⟩

/-- The property at every point of the valid block or the snapshot that a stage indexes next, once it
has undone the snapshot before. -/
def NextPoints (indexers : List Indexer) (network : Network) (last : Stage)
    (confirmed : List IndexedBlock) (At : TxPoint → Prop) : Prop :=
  ∀ env undone, Increasing undone.db.db.log →
    (Machine.undoMempool last env = .ok undone →
      BlockPoints indexers network undone.db confirmed At) ∧
    (Machine.undoSnapshot last env = .ok undone →
      SnapshotPoints indexers network undone.db last.lastProcessed confirmed At)

theorem NextPoints.mono {indexers : List Indexer} {network : Network} {last : Stage}
    {confirmed : List IndexedBlock} {At Weaker : TxPoint → Prop}
    (points : NextPoints indexers network last confirmed At) (implies : ∀ point, At point → Weaker point) :
    NextPoints indexers network last confirmed Weaker := by
  intro env undone ordered
  constructor
  · intro success mutable point txs fits height sound begun
    rcases (points env undone ordered).1 success mutable point txs fits height sound with
      ⟨ctx, created, at'⟩
    exact ⟨ctx, created, fun done rest cache task ctx' same ran =>
      implies _ (at' done rest cache task ctx' same ran)⟩
  · intro success blocks fits sound begun
    rcases (points env undone ordered).2 success blocks fits sound with ⟨ctx, created, at'⟩
    exact ⟨ctx, created, fun front done rest back cache task inner cache' task' ctx' same ran indexed =>
      implies _ (at' front done rest back cache task inner cache' task' ctx' same ran indexed)⟩

theorem NextPoints.first {indexers : List Indexer} {network : Network} {last : Stage}
    {confirmed : List IndexedBlock} {At : TxPoint → Prop} {point : Point} {txs : BlockTxs}
    (points : NextPoints indexers network last confirmed At) (env : Env) (mutable : Bool)
    (settled : last.processedMempool = false) (increasing : Increasing last.db.db.log)
    (fits : confirmed.length + 1 < 2 ^ 64)
    (height : point.height = BitVec.ofNat 64 (confirmed.length + 1))
    (sound : ValidOn true confirmed txs) :
    ∃ ctx, IndexingContext.new (last.db.beginIndexingTask mutable) txs point network none =
        (none, .ok ctx) ∧
      At ⟨chainTxs confirmed, last.db.beginIndexingTask mutable, ctx, 0, txs⟩ := by
  have undone : Machine.undoMempool last env = .ok last := by
    rw [Machine.undoMempool, settled]
    rfl
  rcases (points env last increasing).1 undone mutable point txs fits height sound with
    ⟨ctx, created, at'⟩
  exact ⟨ctx, created, at' [] txs none _ ctx rfl rfl⟩

/-- What is known at a point. -/
structure Midway (who : TransactionIndexer) (Good : List IndexedTx → (RawKey → Cell) → Prop)
    (point : TxPoint) : Prop where
  between : ∃ later, Between point.task point.ctx (unspentAfter point.past) (point.rest ++ later)
  holding : Holding who Good point.past point.task point.ctx
  next : ∀ tx ∈ point.rest.head?, ValidTx (liveRefs (unspentAfter point.past)) tx
  fresh : ∀ tx ∈ point.rest, tx.txId ∉ point.past.map IndexedTx.txId
  below : ∃ earlier, InOrder earlier ∧ Good earlier (point.task.db.get point.task.readTs)
  ordered : ∀ tx attached,
    InOrder (⟨point.ctx.point, point.blockIndex, tx, attached⟩ :: point.past)

theorem Midway.called {who : TransactionIndexer} {others : Others who}
    {Good : List IndexedTx → (RawKey → Cell) → Prop} {point : TxPoint} (midway : Midway who Good point)
    {tx : TransactionWithId} (head : tx ∈ point.rest.head?) {task : IndexingTask}
    {ctx : IndexingContext} (early : runIndexers tx point.blockIndex point.task point.ctx
      others.before = .ok (task, ctx)) :
    Called who point.past tx point.ctx.resolveInput (task.tables ctx) ∧
      TableState.Alike who (point.task.tables point.ctx) (task.tables ctx) ∧
        ctx.toTxContext = point.ctx.toTxContext := by
  rcases midway.between with ⟨later, between⟩
  rcases List.head?_eq_some_iff.mp head with ⟨rest, same⟩
  rw [same, List.cons_append] at between
  have fresh := midway.fresh tx (by rw [same]; exact List.mem_cons_self)
  exact called_after between (midway.next tx head) fresh midway.holding.plain early

section Points

variable {who : TransactionIndexer} {indexer : Indexer} {others : Others who}
variable {Good : List IndexedTx → (RawKey → Cell) → Prop} {network : Network}
variable {confirmed : List IndexedBlock}

theorem Numbered.inOrder_next {point : Point} {attached : TxoRef → ExtendedUtxoData} {done : BlockTxs}
    (numbered : Numbered confirmed) (height : point.height = BitVec.ofNat 64 (confirmed.length + 1))
    (fits : confirmed.length + 1 < 2 ^ 64) (tx : TransactionWithId)
    (attached' : TxoRef → ExtendedUtxoData) :
    InOrder (⟨point, done.length, tx, attached'⟩ ::
      pushTxs point attached done.zipIdx (chainTxs confirmed)) := by
  rcases numbered.inOrder (by omega) with ⟨ordered, heights⟩
  have above : ∀ step ∈ chainTxs confirmed, step.point.height < point.height := by
    intro step member
    have old := heights step member
    rw [BitVec.lt_def, height, BitVec.toNat_ofNat, Nat.mod_eq_of_lt fits]
    omega
  apply List.pairwise_cons.mpr
  constructor
  · intro step member
    rcases mem_pushTxs.mp member with old | ⟨item, listed, rfl⟩
    · exact Or.inl (above step old)
    · have place := List.snd_lt_of_mem_zipIdx listed
      exact Or.inr ⟨rfl, place⟩
  · exact ordered.push (fun step member => Or.inl (above step member))

theorem TxRule.below (rule : TxRule who indexer Good) {handler : StorageHandler} {task : IndexingTask}
    (good : Good (chainTxs confirmed) handler.db.view) (current : handler.Current)
    (numbered : Numbered confirmed) (fits : confirmed.length < 2 ^ 64) (db : task.db = handler.db)
    (readTs : task.readTs = handler.readTs) :
    ∃ earlier, InOrder earlier ∧ Good earlier (task.db.get task.readTs) := by
  refine ⟨chainTxs confirmed, (numbered.inOrder fits).1, ?_⟩
  apply rule.congr _ _ _ _ good
  intro key _
  rw [db, readTs]
  exact congrArg Except.toOption (handler.get_readTs key current)

/-- The transactions of a block, up to any of them. -/
theorem TxRule.midway (rule : TxRule who indexer Good) {task after : IndexingTask}
    {ctx ctx' : IndexingContext} {cache cache' : Option UtxoCache} {coinbase : Bool}
    {done rest later : BlockTxs}
    (between : Between task ctx (unspent confirmed) ((done ++ rest) ++ later))
    (valid : ValidTxs coinbase (liveRefs (unspent confirmed)) ((done ++ rest) ++ later))
    (apart : ∀ tx ∈ done ++ rest, tx.txId ∉ confirmed.flatMap IndexedBlock.txIds)
    (numbered : Numbered confirmed)
    (height : ctx.point.height = BitVec.ofNat 64 (confirmed.length + 1))
    (fits : confirmed.length + 1 < 2 ^ 64) (start : Holding who Good (chainTxs confirmed) task ctx)
    (below : ∃ earlier, InOrder earlier ∧ Good earlier (task.db.get task.readTs))
    (ran : indexTxs (others.with indexer) task ctx cache done.zipIdx = (cache', .ok (after, ctx'))) :
    Midway who Good ⟨pushTxs ctx.point (attachedTxs (others.with indexer) task ctx done.zipIdx)
      done.zipIdx (chainTxs confirmed), after, ctx', done.length, rest⟩ := by
  rw [← unspentAfter_chainTxs, List.append_assoc] at between valid
  have fresh : ∀ tx ∈ done ++ rest, tx.txId ∉ (chainTxs confirmed).map IndexedTx.txId := by
    intro tx member
    rw [txIds_chainTxs]
    exact apart tx member
  have holding := rule.block between valid
    (fun tx member => fresh tx (List.mem_append_left _ member)) start ran (fun _ _ => rfl)
  have reached := between.run valid ran
  have ids := between.distinct
  rw [← unspentAfter_pushTxs] at reached
  constructor
  · exact ⟨later, reached.1⟩
  · exact holding
  · intro tx head
    cases rest with
    | nil => cases head
    | cons first rest =>
        obtain rfl := Option.some.inj head
        rw [unspentAfter_pushTxs]
        exact valid.next
  · intro tx member
    rw [txIds_pushTxs, not_or]
    refine ⟨?_, fresh tx (List.mem_append_right _ member)⟩
    intro listed
    rw [List.map_append, List.nodup_append] at ids
    refine ids.2.2 tx.txId ?_ tx.txId (List.mem_map_of_mem (List.mem_append_left _ member)) rfl
    rw [List.mem_map] at listed ⊢
    rcases listed with ⟨item, inside, same⟩
    exact ⟨item.1, List.fst_mem_of_mem_zipIdx inside, same⟩
  · have source := (indexTxs_written ran).sameSource
    rw [source.db, source.readTs]
    exact below
  · intro tx attached
    rw [reached.2]
    exact numbered.inOrder_next height fits tx attached

theorem TxRule.blockPoints (rule : TxRule who indexer Good) {handler : StorageHandler}
    (stores : Stores handler.db.view (unspent confirmed))
    (good : Good (chainTxs confirmed) handler.db.view) (current : handler.Current)
    (numbered : Numbered confirmed) :
    BlockPoints (others.with indexer) network handler confirmed
      (Midway who Good) := by
  intro mutable point txs fits height sound begun
  rcases sound.new_between stores current rfl rfl (show begun.writeBuffer = ∅ from rfl) point
    network with ⟨ctx, created, place, between⟩
  refine ⟨ctx, created, ?_⟩
  rintro done rest cache task ctx' rfl ran
  have start : Holding who Good (chainTxs confirmed) begun ctx :=
    Holding.begun rule good current rfl rfl rfl (IndexingContext.metadata_new created)
  have valid := sound.valid
  have split := List.nodup_append.mp sound.distinct
  rw [← List.append_nil (done ++ rest)] at between valid
  rw [← place] at height ⊢
  have below : ∃ earlier, InOrder earlier ∧ Good earlier (begun.db.get begun.readTs) :=
    rule.below good current numbered (by omega) rfl rfl
  refine rule.midway between valid ?_ numbered height fits start below ran
  intro tx member listed
  exact split.2.2 _ (List.mem_map_of_mem member) _ listed rfl

theorem TxRule.snapshotPoints (rule : TxRule who indexer Good) {handler : StorageHandler} {tip : Point}
    (stores : Stores handler.db.view (unspent confirmed))
    (good : Good (chainTxs confirmed) handler.db.view) (current : handler.Current)
    (numbered : Numbered confirmed) (height : tip.height.toNat = confirmed.length) :
    SnapshotPoints (others.with indexer) network handler tip confirmed (Midway who Good) := by
  intro blocks fits sound begun
  rcases sound.new_between stores current rfl rfl (show begun.writeBuffer = ∅ from rfl) tip
    network with ⟨ctx, created, place, between⟩
  refine ⟨ctx, created, ?_⟩
  rintro front done rest back cache task inner cache' task' ctx' rfl ran indexed
  have start : Holding who Good (chainTxs confirmed) begun ctx :=
    Holding.begun rule good current rfl rfl rfl (IndexingContext.metadata_new created)
  have valid := sound.valid
  have split := List.nodup_append.mp sound.distinct
  rw [List.flatten_append, List.flatten_cons] at between valid split
  rcases between.runPseudo valid ran with ⟨reached, next⟩
  have outside : ∀ tx ∈ front.flatten ++ ((done ++ rest) ++ back.flatten),
      tx.txId ∉ confirmed.flatMap IndexedBlock.txIds := by
    intro tx member listed
    exact split.2.2 _ (List.mem_map_of_mem member) _ listed rfl
  have holding := rule.pseudoBlocks between valid
    (fun tx member => outside tx (List.mem_append_left _ member)) start ran
  have contents := pseudoBlocks_txs ran
  have below := numbered.pseudo height ran
  generalize Symphony.pseudoBlocks (others.with indexer) tip begun ctx front.zipIdx = pseudo at *
  have count : pseudo.length = front.length := by
    rw [← contents, List.length_map]
  simp only [List.length_append, List.length_cons] at fits
  refine rule.midway (reached.moved (pseudoPoint tip front.length)) next ?_ below ?_ ?_
    ⟨holding.good, holding.plain⟩ ?_ indexed
  · intro tx member listed
    rw [List.flatMap_append, List.mem_append] at listed
    rcases listed with pseudo' | old
    · have ids := split.1
      rw [List.map_append, List.nodup_append] at ids
      refine ids.2.2 tx.txId ?_ tx.txId (List.mem_map_of_mem (List.mem_append_left _ member)) rfl
      rcases List.mem_flatMap.mp pseudo' with ⟨block, inside, own⟩
      rcases List.mem_map.mp own with ⟨other, listed, same⟩
      rw [← same, ← contents]
      apply List.mem_map_of_mem
      exact List.mem_flatten.mpr ⟨block.txs, List.mem_map_of_mem (List.mem_reverse.mp inside), listed⟩
    · exact outside tx (List.mem_append_right _ (List.mem_append_left _ member)) old
  · rw [List.length_append, List.length_reverse, count]
    apply BitVec.eq_of_toNat_eq
    have one : (1 : Encdec.U64).toNat = 1 := rfl
    simp only [IndexingContext.updatePoint, pseudoPoint, BitVec.toNat_add, BitVec.toNat_ofNat, one,
      height]
    omega
  · rw [List.length_append, List.length_reverse, count]
    omega
  · have source : IndexingTask.SameSource begun task := by
      cases front with
      | nil =>
          cases ran
          exact IndexingTask.SameSource.refl begun
      | cons txs front =>
          rcases indexPseudoBlocks_ok (by simp) ran with ⟨middle, level, writes, info⟩
          exact writes.sameSource.trans (IndexingTask.setRaw_touches info).sameSource
    exact rule.below good current numbered (by omega) source.db source.readTs

/-- The property at every point of what is indexed after a run. -/
theorem TxRule.points (rule : TxRule who indexer Good) (others : Others who)
    (names : Header → Point → Prop) (config : Config) (events : List (Env × ChainEvent))
    (fed : ∀ event ∈ events, event.2.Valid names) :
    let machine := Machine.bootstrap (others.with indexer) (Stage.empty config)
    machine.uncached.ValidFrom ⟨[], []⟩ events →
      Increasing (machine.run events).stage.db.db.log →
        NextPoints (others.with indexer) config.network (machine.uncached.run events).stage
          (machine.uncached.history events).confirmed (Midway who Good) := by
  intro machine valid increasing
  have invariant : HistoryInvariant (others.with indexer) config.network (RecordedTxs Good) :=
    rule.invariant
  rcases invariant.run_valid names events fed valid increasing with ⟨_, history, ledger, chronicle⟩
  have base : History.Valid ⟨(machine.uncached.history events).confirmed, []⟩ := history.base
  intro env undone between
  constructor
  · intro success
    rcases chronicle.undoMempool invariant success between with ⟨_, clean, _⟩
    have now := clean.now
    exact rule.blockPoints (now.2 base).1 (now.2 base).2 clean.chain.journal.current now.1
  · intro success
    rcases chronicle.undoSnapshot invariant success between with ⟨_, clean, _⟩
    have now := clean.now
    exact rule.snapshotPoints (now.2 base).1 (now.2 base).2 clean.chain.journal.current now.1
      chronicle.height

end Points

end Symphony
