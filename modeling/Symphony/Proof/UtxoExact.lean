import Symphony.Proof.History

/-! The UTXO table holds exactly the unspent outputs of the chain. -/

namespace Symphony

open Encdec
open UndoLog (Agree)
open VersionedLog (Increasing)

theorem view_of_getRaw {handler after : StorageHandler} {task : IndexingTask} {now : U64}
    {accepted : Bool} {point : Point} {maxRollback : U64} {mempoolTimestamp : Option U64}
    (current : handler.Current) (db : task.db = handler.db) (readTs : task.readTs = handler.readTs)
    (applied : handler.applyIndexingTask now accepted task.finalize point maxRollback
      mempoolTimestamp = .ok after) (increasing : Increasing after.db.log)
    {key : RawKey} (data : IsData key) {value : Option RawValue}
    (read : task.getRaw key = .ok value) : after.db.view key = .ok value := by
  have below : task.db.get task.readTs key = handler.db.view key := by
    rw [db, readTs]
    exact handler.get_readTs key current
  have same := task.toOption_getRaw key
  rw [below, read] at same
  rw [view_applied applied increasing key data]
  cases outcome : (task.writeBuffer.lookup key).elim (handler.db.view key)
      (fun action => action.apply (handler.db.view key)) with
  | error failure =>
      rw [outcome] at same
      cases same
  | ok stored =>
      rw [outcome] at same
      rw [show task.finalize.writeBuffer = task.writeBuffer from rfl, outcome]
      exact congrArg Except.ok (Option.some.inj same).symm

theorem Stores.committed {handler after : StorageHandler} {task : IndexingTask} {now : U64}
    {accepted : Bool} {point : Point} {maxRollback : U64} {mempoolTimestamp : Option U64}
    {set : UtxoSet} (stores : Stores task.getRaw set) (current : handler.Current)
    (db : task.db = handler.db) (readTs : task.readTs = handler.readTs)
    (applied : handler.applyIndexingTask now accepted task.finalize point maxRollback
      mempoolTimestamp = .ok after) (increasing : Increasing after.db.log) :
    Stores after.db.view set := by
  refine ⟨?_, stores.fits, ?_⟩
  · intro ref
    exact view_of_getRaw current db readTs applied increasing
      (isData_utxo (Table.holds_encodeKey _ _)) (stores.entry ref)
  · intro key held unnamed
    exact view_of_getRaw current db readTs applied increasing (isData_utxo held)
      (stores.rest key held unnamed)

theorem Between.settled {task : IndexingTask} {ctx : IndexingContext} {set : UtxoSet}
    (between : Between task ctx set []) : Stores task.getRaw set := by
  have whole : ctx.stored set = set := by
    funext ref
    rw [IndexingContext.stored]
    split
    · rename_i inside
      cases found : set ref with
      | none => rfl
      | some utxo =>
          rcases between.awaited ref inside (Or.inl (by rw [found]; rfl)) with ⟨tx, member, _⟩
          cases member
    · rfl
  rw [← whole]
  exact between.stores

theorem Stores.begun {handler : StorageHandler} {set : UtxoSet} {task : IndexingTask}
    (stores : Stores handler.db.view set) (current : handler.Current)
    (db : task.db = handler.db) (readTs : task.readTs = handler.readTs)
    (empty : task.writeBuffer = ∅) : Stores task.getRaw set := by
  apply stores.congr
  intro key _
  rw [IndexingTask.getRaw, empty, AList.lookup_empty, db, readTs]
  exact handler.get_readTs key current

section Blocks

variable {coinbase : Bool} {base : List IndexedBlock}

theorem applyTxs_null {set : UtxoSet} {height : BlockHeight}
    {attached : TxoRef → ExtendedUtxoData} {txs : BlockTxs} {live : TxoRef → Bool}
    (null : set TxoRef.null = none) (valid : ValidTxs coinbase live txs) :
    applyTxs set height attached txs TxoRef.null = none := by
  induction txs generalizing set live coinbase with
  | nil => exact null
  | cons tx txs ih =>
      apply ih _ valid.2.2
      simp only [applyTx, TransactionWithId.creates_null valid.2.1.small, null, ite_self]

theorem unspent_null {blocks : List IndexedBlock} (null : unspent base TxoRef.null = none)
    (valid : ValidBlocks coinbase base blocks) : unspent (blocks ++ base) TxoRef.null = none := by
  induction blocks with
  | nil => exact null
  | cons block below ih => exact applyTxs_null (ih valid.2) valid.1

theorem validBlocks_snoc {front : List IndexedBlock} {block : IndexedBlock} :
    ValidBlocks coinbase base (front ++ [block]) ↔
      ValidTxs coinbase (liveRefs (unspent base)) block.txs ∧
        ValidBlocks coinbase (block :: base) front := by
  induction front with
  | nil =>
      simp only [List.nil_append, ValidBlocks, and_true]
  | cons first front ih =>
      simp only [List.cons_append, ValidBlocks, ih, List.append_assoc, List.nil_append]
      constructor
      · rintro ⟨head, own, rest⟩
        exact ⟨own, head, rest⟩
      · rintro ⟨own, head, rest⟩
        exact ⟨head, own, rest⟩

theorem validTxs_flatten {blocks : List IndexedBlock}
    (valid : ValidBlocks false base blocks.reverse) :
    ValidTxs false (liveRefs (unspent base)) (blocks.flatMap IndexedBlock.txs) := by
  induction blocks generalizing base with
  | nil => trivial
  | cons block blocks ih =>
      rw [List.reverse_cons, validBlocks_snoc] at valid
      rw [List.flatMap_cons]
      apply validTxs_append valid.1
      have live := @liveRefs_applyTxs (unspent base) block.point.height block.attached block.txs
      rw [← live]
      exact ih valid.2

theorem ValidTxs.left {live : TxoRef → Bool} {first second : BlockTxs}
    (valid : ValidTxs coinbase live (first ++ second)) : ValidTxs coinbase live first := by
  induction first generalizing coinbase live with
  | nil => trivial
  | cons tx txs ih => exact ⟨valid.1, valid.2.1, ih valid.2.2⟩

theorem validBlocks_of_flatten {blocks : List IndexedBlock}
    (valid : ValidTxs false (liveRefs (unspent base)) (blocks.flatMap IndexedBlock.txs)) :
    ValidBlocks false base blocks.reverse := by
  induction blocks generalizing base with
  | nil => trivial
  | cons block blocks ih =>
      rw [List.flatMap_cons] at valid
      rw [List.reverse_cons, validBlocks_snoc]
      exact ⟨valid.left, ih (valid.drop (Or.inr rfl))⟩

end Blocks

theorem History.Valid.below {block : IndexedBlock} {confirmed : List IndexedBlock}
    (valid : History.Valid ⟨block :: confirmed, []⟩) : History.Valid ⟨confirmed, []⟩ := by
  refine ⟨?_, valid.confirmed.2, trivial⟩
  have distinct := valid.distinct
  simp only [History.blocks, List.nil_append, List.flatMap_cons] at distinct ⊢
  exact (List.nodup_append.mp distinct).2.1

theorem History.Valid.base {confirmed snapshot : List IndexedBlock}
    (valid : History.Valid ⟨confirmed, snapshot⟩) : History.Valid ⟨confirmed, []⟩ := by
  refine ⟨?_, valid.confirmed, trivial⟩
  have distinct := valid.distinct
  simp only [History.blocks, List.nil_append, List.flatMap_append] at distinct ⊢
  exact (List.nodup_append.mp distinct).2.1

theorem History.Valid.null {confirmed : List IndexedBlock}
    (valid : History.Valid ⟨confirmed, []⟩) : unspent confirmed TxoRef.null = none := by
  have none := unspent_null (show unspent [] TxoRef.null = none from rfl) valid.confirmed
  rwa [List.append_nil] at none

theorem ValidOn.new_between {coinbase : Bool} {chain : List IndexedBlock} {txs : BlockTxs}
    {handler : StorageHandler} {task : IndexingTask} (sound : ValidOn coinbase chain txs)
    (stores : Stores handler.db.view (unspent chain)) (current : handler.Current)
    (db : task.db = handler.db) (readTs : task.readTs = handler.readTs)
    (empty : task.writeBuffer = ∅) (point : Point) (network : Network) :
    ∃ ctx, IndexingContext.new task txs point network none = (none, .ok ctx) ∧
      ctx.point = point ∧ Between task ctx (unspent chain) txs := by
  have split := List.nodup_append.mp sound.distinct
  have uncached : CacheSound (unspent chain) none := by
    intro held impossible
    cases impossible
  rcases IndexingContext.new_between point network (stores.begun current db readTs empty) uncached
    sound.valid (by
      intro ref live inside
      exact split.2.2 _ inside _ (txHash_mem_of_unspent live) rfl)
    sound.base.null split.1 with ⟨cache, ctx, created, place, uncached, between⟩
  rw [uncached rfl] at created
  exact ⟨ctx, created, place, between⟩

theorem History.Valid.validOn_block {block : IndexedBlock} {confirmed : List IndexedBlock}
    (valid : History.Valid ⟨block :: confirmed, []⟩) : ValidOn true confirmed block.txs := by
  refine ⟨valid.below, ?_, ?_⟩
  · have own := valid.confirmed.1
    rwa [List.append_nil] at own
  · have distinct := valid.distinct
    simp only [History.blocks, List.nil_append, List.flatMap_cons] at distinct
    exact distinct

theorem snapshot_txIds_perm (confirmed pseudo : List IndexedBlock) :
    ((pseudo.flatMap IndexedBlock.txs).map TransactionWithId.txId ++
      confirmed.flatMap IndexedBlock.txIds).Perm
        ((History.mk confirmed pseudo.reverse).blocks.flatMap IndexedBlock.txIds) := by
  rw [History.blocks, List.flatMap_append]
  apply List.Perm.append_right
  rw [List.map_flatMap]
  exact (List.reverse_perm pseudo).symm.flatMap_right _

theorem History.Valid.validOn_snapshot {confirmed pseudo : List IndexedBlock}
    (valid : History.Valid ⟨confirmed, pseudo.reverse⟩) :
    ValidOn false confirmed (pseudo.flatMap IndexedBlock.txs) :=
  ⟨valid.base, validTxs_flatten valid.snapshot,
    (snapshot_txIds_perm confirmed pseudo).nodup_iff.mpr valid.distinct⟩

theorem ValidOn.snapshot {confirmed pseudo : List IndexedBlock}
    (sound : ValidOn false confirmed (pseudo.flatMap IndexedBlock.txs)) :
    History.Valid ⟨confirmed, pseudo.reverse⟩ :=
  ⟨(snapshot_txIds_perm confirmed pseudo).nodup_iff.mp sound.distinct, sound.base.confirmed,
    validBlocks_of_flatten sound.valid⟩

theorem not_isStageKey_of_utxo {key : RawKey} (held : UtxoByTxoRefKV.Holds key) :
    ¬ IsStageKey key := by
  rintro (info | hash)
  · have tags := Table.tag_eq_of_holds UtxoByTxoRefKV IndexerInfoKV key rfl held info
    exact absurd tags (by decide)
  · have tags := Table.tag_eq_of_holds UtxoByTxoRefKV HashByHeightKV key rfl held hash
    exact absurd tags (by decide)

theorem IndexesBlock.between {indexers : List Indexer} {network : Network}
    {handler after : StorageHandler} {block : IndexedBlock} {confirmed : List IndexedBlock}
    (indexes : IndexesBlock indexers network handler after block)
    (before : Stores handler.db.view (unspent confirmed))
    (sound : ValidOn true confirmed block.txs) :
    ∃ mutable ctx cache indexed inner task now accepted maxRollback,
      Between (handler.beginIndexingTask mutable) ctx (unspent confirmed) (block.txs ++ []) ∧
      ctx.point = block.point ∧
      indexTxs indexers (handler.beginIndexingTask mutable) ctx none block.txs.zipIdx =
        (cache, .ok (indexed, inner)) ∧
      block.attached = attachedTxs indexers (handler.beginIndexingTask mutable) ctx
        block.txs.zipIdx ∧
      IndexingTask.Written IsStageKey indexed task ∧
      handler.applyIndexingTask now accepted task.finalize block.point maxRollback none =
        .ok after := by
  rcases indexes.parts with ⟨mutable, ctx, cache, indexed, inner, task, now, accepted, maxRollback,
    created, ran, attached, writes, applied⟩
  have begun : (handler.beginIndexingTask mutable).writeBuffer = ∅ := rfl
  rcases sound.new_between before indexes.1 rfl rfl begun block.point network with
    ⟨ctx', created', place, between⟩
  obtain rfl : ctx = ctx' := by
    rw [created] at created'
    exact Except.ok.inj (congrArg Prod.snd created')
  rw [← List.append_nil block.txs] at between
  exact ⟨mutable, ctx, cache, indexed, inner, task, now, accepted, maxRollback, between, place, ran,
    attached, writes, applied⟩

theorem IndexesBlock.stores {indexers : List Indexer} {network : Network}
    {handler after : StorageHandler} {block : IndexedBlock} {confirmed : List IndexedBlock}
    (indexes : IndexesBlock indexers network handler after block)
    (before : Stores handler.db.view (unspent confirmed))
    (sound : ValidOn true confirmed block.txs) :
    Stores after.db.view (unspent (block :: confirmed)) := by
  rcases indexes.between before sound with ⟨mutable, ctx, cache, indexed, inner, task, now, accepted,
    maxRollback, between, place, ran, attached, writes, applied⟩
  have source := (indexTxs_written ran).sameSource
  have final : Between indexed inner (unspent (block :: confirmed)) [] := by
    have valid := sound.valid
    rw [← List.append_nil block.txs] at valid
    rw [unspent, attached, ← place]
    exact (between.run valid ran).1
  have stored : Stores task.getRaw (unspent (block :: confirmed)) := by
    apply final.settled.congr
    intro key held
    exact writes.getRaw_of_not_allowed key (not_isStageKey_of_utxo held)
  have whole := source.trans writes.sameSource
  exact stored.committed indexes.1 whole.db whole.readTs applied indexes.2.1

theorem IndexesSnapshot.between {indexers : List Indexer} {network : Network}
    {handler after : StorageHandler} {tip : Point} {blocks : List BlockTxs}
    {confirmed : List IndexedBlock}
    (indexes : IndexesSnapshot indexers network handler after tip blocks)
    (before : Stores handler.db.view (unspent confirmed))
    (sound : ValidOn false confirmed blocks.flatten) :
    ∃ ctx cache task inner now accepted pseudo maxRollback timestamp,
      Between handler.beginMempoolIndexingTask ctx (unspent confirmed) (blocks.flatten ++ []) ∧
      indexPseudoBlocks indexers tip handler.beginMempoolIndexingTask ctx none blocks.zipIdx =
        (cache, .ok (task, inner)) ∧
      snapshotBlocks indexers handler.beginMempoolIndexingTask tip blocks network none =
        (pseudoBlocks indexers tip handler.beginMempoolIndexingTask ctx blocks.zipIdx).reverse ∧
      IndexingTask.SameSource handler.beginMempoolIndexingTask task ∧
      handler.applyIndexingTask now accepted task.finalize pseudo maxRollback timestamp =
        .ok after := by
  rcases indexes.parts with
    ⟨ctx, cache, task, inner, now, accepted, pseudo, maxRollback, timestamp, created, ran, same, applied⟩
  have begun : handler.beginMempoolIndexingTask.writeBuffer = ∅ := rfl
  rcases sound.new_between before indexes.1 rfl rfl begun tip network with
    ⟨ctx', created', place, between⟩
  obtain rfl : ctx = ctx' := by
    rw [created] at created'
    exact Except.ok.inj (congrArg Prod.snd created')
  rcases indexPseudoBlocks_ok (by simpa using indexes.2.2.1) ran with ⟨middle, height, writes, info⟩
  have source := writes.sameSource.trans (IndexingTask.setRaw_touches info).sameSource
  rw [← List.append_nil blocks.flatten] at between
  exact ⟨ctx, cache, task, inner, now, accepted, pseudo, maxRollback, timestamp, between, ran, same,
    source, applied⟩

theorem IndexesSnapshot.stores {indexers : List Indexer} {network : Network}
    {handler after : StorageHandler} {tip : Point} {blocks : List BlockTxs}
    {confirmed : List IndexedBlock}
    (indexes : IndexesSnapshot indexers network handler after tip blocks)
    (before : Stores handler.db.view (unspent confirmed))
    (sound : ValidOn false confirmed blocks.flatten) :
    Stores after.db.view (unspent (snapshotBlocks indexers handler.beginMempoolIndexingTask tip
      blocks network none ++ confirmed)) := by
  rcases indexes.between before sound with
    ⟨ctx, cache, task, inner, now, accepted, pseudo, maxRollback, timestamp, between, ran, same,
      source, applied⟩
  have valid := sound.valid
  rw [← List.append_nil blocks.flatten] at valid
  rw [same]
  exact (between.runPseudo valid ran).1.settled.committed indexes.1 source.db source.readTs applied
    indexes.2.1

/-- The table holds the unspent outputs of valid histories. -/
def UtxosIndexed (history : History) (view : RawKey → Cell) : Prop :=
  history.Valid → Stores view (unspent history.blocks)

theorem utxosIndexed_invariant (indexers : List Indexer) (network : Network) :
    HistoryInvariant indexers network UtxosIndexed := by
  constructor
  · intro history view other agree indexed valid
    apply (indexed valid).congr
    intro key held
    exact agree key (isData_utxo held)
  · intro _
    constructor
    · intro ref
      rfl
    · intro ref utxo found
      exact absurd found (by simp [History.blocks, unspent])
    · intro key _ _
      rfl
  · intro confirmed handler after block indexes before _ valid
    exact indexes.stores (before valid.below) valid.validOn_block
  · intro confirmed handler after tip blocks indexes before _ valid
    rcases indexes.parts with ⟨ctx, _, _, _, _, _, _, _, _, _, ran, same, _⟩
    have listed := pseudoBlocks_txs ran
    rw [same] at valid
    have sound := valid.validOn_snapshot
    rw [List.flatMap_def, listed] at sound
    exact indexes.stores (before valid.base) sound

/-- Whichever indexer is called next for a transaction, `resolve_input` gives it each output the
transaction spends, with the value it has in the set. -/
def InputsResolved (indexers : List Indexer) (task : IndexingTask) (ctx : IndexingContext)
    (set : UtxoSet) (tx : TransactionWithId) (blockIndex : Nat) : Prop :=
  ∀ called task' ctx', called <+: indexers →
    runIndexers tx blockIndex task ctx called = .ok (task', ctx') →
      ∀ ref ∈ tx.spends, ∃ utxo, ctx'.toTxContext.resolveInput ref = some utxo ∧
        set ref = some utxo

/-- A confirmed block of valid transactions finds all its inputs. -/
def BlockResolved (indexers : List Indexer) (network : Network) (handler : StorageHandler)
    (confirmed : List IndexedBlock) : Prop :=
  ∀ mutable point txs, ValidOn true confirmed txs →
    let begun := handler.beginIndexingTask mutable
    ∃ ctx, IndexingContext.new begun txs point network none = (none, .ok ctx) ∧
      ∀ done tx rest cache task ctx', txs = done ++ tx :: rest →
        indexTxs indexers begun ctx none done.zipIdx = (cache, .ok (task, ctx')) →
          InputsResolved indexers task ctx' (applyTxs (unspent confirmed) point.height
            (attachedTxs indexers begun ctx done.zipIdx) done) tx done.length

/-- A snapshot of valid transactions finds all their inputs across its pseudo blocks. -/
def SnapshotResolved (indexers : List Indexer) (network : Network) (handler : StorageHandler)
    (tip : Point) (confirmed : List IndexedBlock) : Prop :=
  ∀ blocks, ValidOn false confirmed blocks.flatten →
    let begun := handler.beginMempoolIndexingTask
    ∃ ctx, IndexingContext.new begun blocks.flatten tip network none = (none, .ok ctx) ∧
      ∀ front done tx rest back cache task inner cache' task' ctx',
        blocks = front ++ (done ++ tx :: rest) :: back →
        indexPseudoBlocks indexers tip begun ctx none front.zipIdx = (cache, .ok (task, inner)) →
        indexTxs indexers task (inner.updatePoint (pseudoPoint tip front.length)) none done.zipIdx =
          (cache', .ok (task', ctx')) →
          InputsResolved indexers task' ctx'
            (applyTxs (unspent ((pseudoBlocks indexers tip begun ctx front.zipIdx).reverse ++
              confirmed)) (pseudoPoint tip front.length).height
              (attachedTxs indexers task (inner.updatePoint (pseudoPoint tip front.length))
                done.zipIdx) done) tx done.length

theorem Between.inputsResolved {indexers : List Indexer} {task : IndexingTask}
    {ctx : IndexingContext} {set : UtxoSet} {tx : TransactionWithId} {rest : BlockTxs}
    (between : Between task ctx set (tx :: rest)) (valid : ValidTx (liveRefs set) tx)
    (blockIndex : Nat) : InputsResolved indexers task ctx set tx blockIndex := by
  intro called task' ctx' _ ran ref spent
  rcases Option.isSome_iff_exists.mp (valid.unspent ref spent) with ⟨utxo, found⟩
  refine ⟨utxo, ?_, found⟩
  exact (between.indexed ran).1.resolves tx List.mem_cons_self ref spent utxo found

theorem ValidTxs.next {coinbase : Bool} {set : UtxoSet} {height : BlockHeight}
    {attached : TxoRef → ExtendedUtxoData} {done rest : BlockTxs} {tx : TransactionWithId}
    (valid : ValidTxs coinbase (liveRefs set) (done ++ tx :: rest)) :
    ValidTx (liveRefs (applyTxs set height attached done)) tx := by
  induction done generalizing coinbase set with
  | nil => exact valid.2.1
  | cons first done ih =>
      have later : ValidTxs false (liveRefs (applyTx set height attached first))
          (done ++ tx :: rest) := by
        rw [liveRefs_applyTx]
        exact valid.2.2
      exact ih later

theorem blockResolved {indexers : List Indexer} {network : Network} {handler : StorageHandler}
    {confirmed : List IndexedBlock} (stores : Stores handler.db.view (unspent confirmed))
    (current : handler.Current) : BlockResolved indexers network handler confirmed := by
  intro mutable point txs sound begun
  rcases sound.new_between stores current rfl rfl (show begun.writeBuffer = ∅ from rfl) point
    network with ⟨ctx, created, place, between⟩
  refine ⟨ctx, created, ?_⟩
  rintro done tx rest cache task ctx' rfl ran
  have reached := (between.run sound.valid ran).1
  rw [place] at reached
  exact reached.inputsResolved sound.valid.next done.length

theorem snapshotResolved {indexers : List Indexer} {network : Network} {handler : StorageHandler}
    {tip : Point} {confirmed : List IndexedBlock}
    (stores : Stores handler.db.view (unspent confirmed)) (current : handler.Current) :
    SnapshotResolved indexers network handler tip confirmed := by
  intro blocks sound begun
  rcases sound.new_between stores current rfl rfl (show begun.writeBuffer = ∅ from rfl) tip
    network with ⟨ctx, created, place, between⟩
  refine ⟨ctx, created, ?_⟩
  rintro front done tx rest back cache task inner cache' task' ctx' rfl ran indexed
  have valid := sound.valid
  simp only [List.flatten_append, List.flatten_cons, List.append_assoc, List.cons_append]
    at between valid
  rcases between.runPseudo valid ran with ⟨reached, next⟩
  rw [← List.cons_append, ← List.append_assoc] at next reached
  rw [List.append_assoc, List.cons_append] at next reached
  have within := ((reached.moved (pseudoPoint tip front.length)).run next indexed).1
  exact within.inputsResolved next.next done.length

/-- After every run of a valid chain the UTXO table holds exactly the unspent outputs, with
their amounts, scripts, heights and metadata; and every valid block or snapshot that is indexed
next has its context created and finds each input wherever an indexer asks for it. -/
theorem utxo_set_exact (blockHash : Header → BlockHash) (config : Config)
    (indexers : List Indexer) (stage : Stage) (events : List (Env × ChainEvent))
    (fresh : Stage.new config (StorageHandler.openDb DB.empty) = .ok stage)
    (uncached : config.utxoCache = false)
    (fed : ∀ event ∈ events, event.2.Valid (HashedBy blockHash))
    (increasing : Increasing ((Machine.bootstrap indexers stage).run events).stage.db.db.log)
    (valid : ((Machine.bootstrap indexers stage).history events).Valid) :
    let last := ((Machine.bootstrap indexers stage).run events).stage
    let history := (Machine.bootstrap indexers stage).history events
    Stores last.db.db.view (unspent history.blocks) ∧
      ∀ env undone, Increasing undone.db.db.log →
        (Machine.undoMempool last env = .ok undone →
          BlockResolved indexers config.network undone.db history.confirmed) ∧
        (Machine.undoSnapshot last env = .ok undone →
          SnapshotResolved indexers config.network undone.db last.lastProcessed
            history.confirmed) := by
  intro last history
  have invariant := utxosIndexed_invariant indexers config.network
  rcases invariant.run (HashedBy blockHash) config stage events fresh uncached fed increasing with
    ⟨ledger, chronicle⟩
  have base : History.Valid ⟨history.confirmed, []⟩ := History.Valid.base valid
  refine ⟨chronicle.now valid, ?_⟩
  intro env undone ordered
  constructor
  · intro success
    rcases chronicle.undoMempool invariant success ordered with ⟨_, clean, _⟩
    exact blockResolved (clean.now base) clean.chain.journal.current
  · intro success
    rcases chronicle.undoSnapshot invariant success ordered with ⟨_, clean, _⟩
    exact snapshotResolved (clean.now base) clean.chain.journal.current

def attachFirst : Indexer := fun tx _ _ => .attach (tx.txoRef 0) .runes [7] (.pure ())

def txIdOf (byte : BigEndian.Byte) : Txid := List.Vector.replicate 32 byte

def coinbaseOne : TransactionWithId := ⟨txIdOf 1, [⟨TxoRef.null, []⟩], [⟨50, [81]⟩, ⟨0, [opReturn]⟩]⟩

def spendOne (id : BigEndian.Byte) (ref : TxoRef) : TransactionWithId :=
  ⟨txIdOf id, [⟨ref, []⟩], [⟨40, [82]⟩]⟩

def spendEvents : List (Env × ChainEvent) :=
  let point : Point := ⟨1, mainnetBlockOne⟩
  [(acceptAt 5, .rollForward point mainnetHeaderOne [coinbaseOne] point),
    (acceptAt 7, .mempoolBlocks ⟨0, mainnetBlockOne⟩
      [[spendOne 2 ⟨txIdOf 1, 0⟩], [spendOne 3 ⟨txIdOf 2, 0⟩]])]

theorem spendEvents_fed : ∀ event ∈ spendEvents, event.2.Valid (HashedBy mainnetHash) := by
  decide +kernel

def spendStart : Machine := Machine.bootstrap [attachFirst] (Stage.empty (mainnetConfig 2))

theorem utxo_set_exact_snapshot :
    (unspent (spendStart.history spendEvents).blocks ⟨txIdOf 3, 0⟩).isSome = true ∧
    let last := (spendStart.run spendEvents).stage
    let history := spendStart.history spendEvents
    Stores last.db.db.view (unspent history.blocks) ∧
      ∀ env undone, Increasing undone.db.db.log →
        (Machine.undoMempool last env = .ok undone →
          BlockResolved [attachFirst] .mainnet undone.db history.confirmed) ∧
        (Machine.undoSnapshot last env = .ok undone →
          SnapshotResolved [attachFirst] .mainnet undone.db last.lastProcessed
            history.confirmed) :=
  ⟨by decide +kernel, utxo_set_exact mainnetHash (mainnetConfig 2) [attachFirst] _ spendEvents
    (Stage.new_empty _) rfl spendEvents_fed (by decide +kernel)
    ⟨by decide +kernel, by decide +kernel, by decide +kernel⟩⟩

end Symphony
