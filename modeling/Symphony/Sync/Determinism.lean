import Symphony.Lib.UndoLog
import Symphony.Sync.IndexSpec

/-! Indexing is a function of what the task reads.

Two tasks that read alike on data keys, with contexts that resolve alike, run the same blocks
with the same outcome. -/

namespace Symphony

open Encdec
open UndoLog (Agree)

section Results

variable {α β γ δ : Type} {strict : Prop}

/-- Two results of which the second follows the first: both succeed with related values, or the
first fails. A strict companion fails in the same way. -/
def Alike (strict : Prop) (related : α → β → Prop) (first : Except Error α)
    (second : Except Error β) : Prop :=
  (∃ left right, first = .ok left ∧ second = .ok right ∧ related left right) ∨
    ∃ failure, first = .error failure ∧ (strict → second = .error failure)

theorem Alike.success {related : α → β → Prop} {left : α} {right : β} (holds : related left right) :
    Alike strict related (.ok left) (.ok right) :=
  Or.inl ⟨left, right, rfl, rfl, holds⟩

theorem Alike.failure {related : α → β → Prop} {second : Except Error β} (failure : Error)
    (same : strict → second = .error failure) : Alike strict related (.error failure) second :=
  Or.inr ⟨failure, rfl, same⟩

theorem Alike.bind {related : α → β → Prop} {result : γ → δ → Prop} {first : Except Error α}
    {second : Except Error β} {next : α → Except Error γ} {other : β → Except Error δ}
    (alike : Alike strict related first second)
    (continued : ∀ left right, related left right →
      Alike strict result (next left) (other right)) :
    Alike strict result (first >>= next) (second >>= other) := by
  rcases alike with ⟨left, right, rfl, rfl, holds⟩ | ⟨failure, rfl, same⟩
  · exact continued left right holds
  · apply Alike.failure failure
    intro exact
    rw [same exact]
    rfl

theorem Alike.refl (first : Except Error α) : Alike strict Eq first first := by
  cases first with
  | ok value => exact Alike.success rfl
  | error failure =>
      apply Alike.failure failure
      intro _
      rfl

theorem Alike.mono {related wider : α → β → Prop} {first : Except Error α}
    {second : Except Error β} (alike : Alike strict related first second)
    (weaken : ∀ left right, related left right → wider left right) :
    Alike strict wider first second := by
  rcases alike with ⟨left, right, success, success', holds⟩ | failed
  · exact Or.inl ⟨left, right, success, success', weaken left right holds⟩
  · exact Or.inr failed

theorem Alike.ok {related : α → β → Prop} {first : Except Error α} {second : Except Error β}
    {value : α} (alike : Alike strict related first second) (success : first = .ok value) :
    ∃ other, second = .ok other ∧ related value other := by
  rcases alike with ⟨left, right, first, second, holds⟩ | ⟨failure, failed, _⟩
  · obtain rfl : value = left := Except.ok.inj (success.symm.trans first)
    exact ⟨right, second, holds⟩
  · rw [success] at failed
    cases failed

end Results

/-- Tasks with the same writes so far, on databases that hold the same data. Only a companion
that need not be strict may drop the record of originals. -/
structure Twins (strict : Prop) (task other : IndexingTask) : Prop where
  buffer : other.writeBuffer = task.writeBuffer
  originals : other.originalKvs = task.originalKvs ∨ (¬strict ∧ other.originalKvs = none)
  mempool : other.mempool = task.mempool
  reads : Agree IsData (other.db.get other.readTs) (task.db.get task.readTs)

namespace Twins

variable {strict : Prop} {task other : IndexingTask} {key : RawKey}

theorem getRaw (twins : Twins strict task other) (data : IsData key) :
    other.getRaw key = task.getRaw key := by
  simp only [IndexingTask.getRaw, twins.buffer, twins.reads key data]

theorem get {Key Value : Type} [Encode Key] [Decode Value] (twins : Twins strict task other)
    (table : Table Key Value) (key : Key) (data : IsData (table.encodeKey key)) :
    other.get table key = task.get table key := by
  rw [IndexingTask.get, IndexingTask.get, twins.getRaw data]

theorem buffered (twins : Twins strict task other) (key : RawKey) (action : StorageAction) :
    Twins strict (task.buffer key action) (other.buffer key action) := by
  refine ⟨?_, twins.originals, twins.mempool, twins.reads⟩
  simp only [IndexingTask.buffer, twins.buffer]

theorem maybeStoreOriginalKv (twins : Twins strict task other) (data : IsData key) :
    Alike strict (Twins strict) (task.maybeStoreOriginalKv key) (other.maybeStoreOriginalKv key) := by
  rcases twins.originals with same | ⟨loose, untracked⟩
  · simp only [IndexingTask.maybeStoreOriginalKv, same]
    cases kept : task.originalKvs with
    | none => exact Alike.success twins
    | some kvs =>
        by_cases present : key ∈ kvs
        · simp only [if_pos present]
          exact Alike.success twins
        · simp only [if_neg present, twins.reads key data]
          apply (Alike.refl _).bind
          rintro original _ rfl
          exact Alike.success ⟨twins.buffer, Or.inl rfl, twins.mempool, twins.reads⟩
  · have unchanged : other.maybeStoreOriginalKv key = .ok other := by
      simp only [IndexingTask.maybeStoreOriginalKv, untracked]
    rw [unchanged]
    cases stored : task.maybeStoreOriginalKv key with
    | error failure =>
        apply Alike.failure failure
        intro exact
        exact absurd exact loose
    | ok after =>
        rcases IndexingTask.maybeStoreOriginalKv_cases stored with
          ⟨_, rfl⟩ | ⟨_, _, _, rfl⟩ | ⟨_, _, _, _, _, rfl⟩
        · exact Alike.success twins
        · exact Alike.success twins
        · exact Alike.success ⟨twins.buffer, Or.inr ⟨loose, untracked⟩, twins.mempool, twins.reads⟩

theorem allocated (bytes : List BigEndian.Byte) :
    Alike strict (fun first second => first = bytes ∧ second = bytes) (allocate bytes)
      (allocate bytes) := by
  simp only [allocate]
  split
  · exact Alike.success ⟨rfl, rfl⟩
  · apply Alike.failure
    intro _
    rfl

theorem setRaw (twins : Twins strict task other) (data : IsData key) (value : RawValue) :
    Alike strict (Twins strict) (task.setRaw key value) (other.setRaw key value) := by
  apply (allocated key).bind
  rintro _ _ ⟨rfl, rfl⟩
  apply (allocated value).bind
  rintro _ _ ⟨rfl, rfl⟩
  apply (twins.maybeStoreOriginalKv data).bind
  intro stored stored' twins'
  exact Alike.success (twins'.buffered _ _)

theorem deleteRaw (twins : Twins strict task other) (data : IsData key) :
    Alike strict (Twins strict) (task.deleteRaw key) (other.deleteRaw key) := by
  apply (allocated key).bind
  rintro _ _ ⟨rfl, rfl⟩
  apply (twins.maybeStoreOriginalKv data).bind
  intro stored stored' twins'
  exact Alike.success (twins'.buffered _ _)

theorem mergeOpRaw (twins : Twins strict task other) (data : IsData key) (op : MergeOperation) :
    Alike strict (Twins strict) (task.mergeOpRaw key op) (other.mergeOpRaw key op) := by
  apply (allocated key).bind
  rintro _ _ ⟨rfl, rfl⟩
  apply (twins.maybeStoreOriginalKv data).bind
  intro stored stored' twins'
  rw [twins'.buffer]
  split
  · apply (Alike.refl _).bind
    rintro result _ rfl
    exact Alike.success (twins'.buffered _ _)
  · exact Alike.success (twins'.buffered _ _)
  · exact Alike.success (twins'.buffered _ _)
  · exact Alike.success (twins'.buffered _ _)

theorem multiGet {Key Value : Type} [Encode Key] [Decode Value] (twins : Twins strict task other)
    (table : Table Key Value) (keys : List Key) (data : ∀ key, IsData (table.encodeKey key)) :
    other.multiGet table keys = task.multiGet table keys := by
  have reads : (fun key => do return (key, ← other.get table key)) =
      (fun key => do return (key, ← task.get table key) :
        Key → Except Error (Key × Option Value)) := by
    funext key
    rw [twins.get table key (data key)]
  simp only [IndexingTask.multiGet, twins.buffer, reads]

end Twins

structure TwinContexts (ctx other : IndexingContext) : Prop where
  point : other.point = ctx.point
  resolver : ∀ ref, other.resolver.lookup ref = ctx.resolver.lookup ref
  metadata : other.utxoMetadata = ctx.utxoMetadata
  chained : other.chainedTxos = ctx.chainedTxos
  network : other.network = ctx.network

theorem TwinContexts.refl (ctx : IndexingContext) : TwinContexts ctx ctx :=
  ⟨rfl, by intro _; rfl, rfl, rfl, rfl⟩

theorem TwinContexts.toTxContext {ctx other : IndexingContext} (twins : TwinContexts ctx other) :
    other.toTxContext = ctx.toTxContext := by
  have resolve : other.resolveInput = ctx.resolveInput := by
    funext ref
    exact twins.resolver ref
  simp only [IndexingContext.toTxContext, twins.point, twins.network, resolve]

theorem TwinContexts.attached {ctx other : IndexingContext} (twins : TwinContexts ctx other)
    (ref : TxoRef) (indexer : TransactionIndexer) (data : List BigEndian.Byte) :
    TwinContexts (ctx.attachUtxoMetadata ref indexer data)
      (other.attachUtxoMetadata ref indexer data) := by
  refine ⟨twins.point, twins.resolver, ?_, twins.chained, twins.network⟩
  simp only [IndexingContext.attachUtxoMetadata, IndexingContext.metadataOf, twins.metadata]

theorem TwinContexts.moved {ctx other : IndexingContext} (twins : TwinContexts ctx other)
    (point : Point) : TwinContexts (ctx.updatePoint point) (other.updatePoint point) :=
  ⟨rfl, twins.resolver, twins.metadata, twins.chained, twins.network⟩

def TwinStates (strict : Prop) (first second : IndexingTask × IndexingContext) : Prop :=
  Twins strict first.1 second.1 ∧ TwinContexts first.2 second.2

def TwinUpdates (strict : Prop) (first second : IndexingContext × IndexingTask) : Prop :=
  TwinContexts first.1 second.1 ∧ Twins strict first.2 second.2

section Runs

variable {strict : Prop} {task other : IndexingTask} {ctx ctx' : IndexingContext}

theorem Script.run_twins {α : Type} (script : Script α) (twins : Twins strict task other)
    (contexts : TwinContexts ctx ctx') :
    Alike strict (fun first second => first.1 = second.1 ∧ TwinStates strict first.2 second.2)
      (script.run task ctx) (script.run other ctx') := by
  induction script generalizing task other ctx ctx' with
  | pure value => exact Alike.success ⟨rfl, twins, contexts⟩
  | fail failure =>
      apply Alike.failure failure
      intro _
      rfl
  | get key next ih =>
      simp only [Script.run, twins.getRaw (isData_custom key.custom)]
      cases task.getRaw key.raw with
      | error failure =>
          apply Alike.failure failure
          intro _
          rfl
      | ok value => exact ih value twins contexts
  | set key value next ih =>
      rcases twins.setRaw (isData_custom key.custom) value with
        ⟨_, _, left, right, moved⟩ | ⟨failure, left, same⟩
      · simp only [Script.run, left, right]
        exact ih moved contexts
      · simp only [Script.run, left]
        apply Alike.failure failure
        intro exact
        rw [same exact]
  | delete key next ih =>
      rcases twins.deleteRaw (isData_custom key.custom) with
        ⟨_, _, left, right, moved⟩ | ⟨failure, left, same⟩
      · simp only [Script.run, left, right]
        exact ih moved contexts
      · simp only [Script.run, left]
        apply Alike.failure failure
        intro exact
        rw [same exact]
  | mergeOp key op next ih =>
      rcases twins.mergeOpRaw (isData_custom key.custom) op with
        ⟨_, _, left, right, moved⟩ | ⟨failure, left, same⟩
      · simp only [Script.run, left, right]
        exact ih moved contexts
      · simp only [Script.run, left]
        apply Alike.failure failure
        intro exact
        rw [same exact]
  | attach ref indexer data next ih => exact ih twins (contexts.attached ref indexer data)

theorem runIndexers_twins (tx : TransactionWithId) (blockIndex : Nat) (indexers : List Indexer)
    (twins : Twins strict task other) (contexts : TwinContexts ctx ctx') :
    Alike strict (TwinStates strict) (runIndexers tx blockIndex task ctx indexers)
      (runIndexers tx blockIndex other ctx' indexers) := by
  induction indexers generalizing task other ctx ctx' with
  | nil => exact Alike.success ⟨twins, contexts⟩
  | cons indexer indexers ih =>
      simp only [runIndexers, contexts.toTxContext]
      rcases (indexer tx blockIndex ctx.toTxContext).run_twins twins contexts with
        ⟨_, _, left, right, moved⟩ | ⟨failure, left, same⟩
      · simp only [left, right]
        exact ih moved.2.1 moved.2.2
      · simp only [left]
        apply Alike.failure failure
        intro exact
        rw [same exact]

theorem IndexingContext.consumeInputs_twins (inputs : List TxIn) (twins : Twins strict task other)
    (contexts : TwinContexts ctx ctx') :
    Alike strict (TwinUpdates strict) (ctx.consumeInputs task inputs)
      (ctx'.consumeInputs other inputs) := by
  induction inputs generalizing task other ctx ctx' with
  | nil => exact Alike.success ⟨contexts, twins⟩
  | cons input inputs ih =>
      rcases twins.deleteRaw (isData_utxo (Table.holds_encodeKey _ input.previousOutput)) with
        ⟨_, _, left, right, moved⟩ | ⟨failure, left, same⟩
      · simp only [consumeInputs, IndexingTask.delete, left, right]
        apply ih moved
        rw [twins.mempool]
        split
        · exact contexts
        · refine ⟨contexts.point, ?_, contexts.metadata, contexts.chained, contexts.network⟩
          intro ref
          by_cases same : ref = input.previousOutput
          · subst same
            simp
          · simp only [AList.lookup_erase_ne same]
            exact contexts.resolver ref
      · simp only [consumeInputs, IndexingTask.delete, left]
        apply Alike.failure failure
        intro exact
        rw [same exact]

theorem IndexingContext.produceOutputs_twins (tx : TransactionWithId)
    (outputs : List (TxOut × Nat)) (cache cache' : Option UtxoCache)
    (twins : Twins strict task other) (contexts : TwinContexts ctx ctx') :
    Alike strict (TwinUpdates strict) (ctx.produceOutputs task cache tx outputs).2
      (ctx'.produceOutputs other cache' tx outputs).2 := by
  induction outputs generalizing task other ctx ctx' cache cache' with
  | nil => exact Alike.success ⟨contexts, twins⟩
  | cons item outputs ih =>
      rcases item with ⟨output, index⟩
      have value : ctx'.produced output (tx.txoRef index) = ctx.produced output (tx.txoRef index) := by
        simp only [produced, metadataOf, contexts.point, contexts.metadata]
      simp only [produceOutputs, contexts.chained, contexts.metadata, value]
      split
      · exact ih _ _ twins contexts
      · split
        · apply ih _ _ twins
          refine ⟨contexts.point, ?_, rfl, rfl, contexts.network⟩
          intro ref
          by_cases same : ref = tx.txoRef index
          · subst same
            simp
          · simp only [AList.lookup_insert_ne same]
            exact contexts.resolver ref
        · rcases twins.setRaw (isData_utxo (Table.holds_encodeKey _ (tx.txoRef index)))
            (encode (ctx.produced output (tx.txoRef index))) with
            ⟨_, _, left, right, moved⟩ | ⟨failure, left, same⟩
          · simp only [IndexingTask.set, left, right]
            exact ih _ _ moved ⟨contexts.point, contexts.resolver, rfl, rfl, contexts.network⟩
          · simp only [IndexingTask.set, left]
            apply Alike.failure failure
            intro exact
            rw [same exact]

theorem IndexingContext.updateUtxoSet_twins (tx : TransactionWithId)
    (cache cache' : Option UtxoCache) (twins : Twins strict task other)
    (contexts : TwinContexts ctx ctx') :
    Alike strict (TwinUpdates strict) (ctx.updateUtxoSet task tx cache).2
      (ctx'.updateUtxoSet other tx cache').2 := by
  rcases consumeInputs_twins tx.tx.input twins contexts with
    ⟨_, _, left, right, moved⟩ | ⟨failure, left, same⟩
  · simp only [updateUtxoSet, left, right]
    exact produceOutputs_twins tx _ cache cache' moved.2 moved.1
  · simp only [updateUtxoSet, left]
    apply Alike.failure failure
    intro exact
    rw [same exact]

theorem indexTxs_twins (indexers : List Indexer) (txs : List (TransactionWithId × Nat))
    (cache cache' : Option UtxoCache) (twins : Twins strict task other)
    (contexts : TwinContexts ctx ctx') :
    Alike strict (TwinStates strict) (indexTxs indexers task ctx cache txs).2
      (indexTxs indexers other ctx' cache' txs).2 := by
  induction txs generalizing task other ctx ctx' cache cache' with
  | nil => exact Alike.success ⟨twins, contexts⟩
  | cons item txs ih =>
      rcases item with ⟨tx, blockIndex⟩
      rcases runIndexers_twins tx blockIndex indexers twins contexts with
        ⟨ran, ran', left, right, moved⟩ | ⟨failure, left, same⟩
      · have updated := ran.2.updateUtxoSet_twins tx cache cache' moved.1 moved.2
        simp only [indexTxs, left, right]
        rcases first : ran.2.updateUtxoSet ran.1 tx cache with ⟨held, result⟩
        rcases second : ran'.2.updateUtxoSet ran'.1 tx cache' with ⟨held', result'⟩
        rw [first, second] at updated
        rcases updated with ⟨_, _, rfl, rfl, both⟩ | ⟨failure, rfl, same⟩
        · exact ih held held' both.2 both.1
        · apply Alike.failure failure
          intro exact
          obtain rfl := same exact
          rfl
      · simp only [indexTxs, left]
        apply Alike.failure failure
        intro exact
        rw [same exact]

theorem setInfo_twins (point : Point) (mempool : Bool) (twins : Twins strict task other) :
    Alike strict (Twins strict) (setInfo task point mempool) (setInfo other point mempool) :=
  twins.setRaw isData_info _

theorem indexPseudoBlocks_twins (indexers : List Indexer) (tip : Point)
    (blocks : List (BlockTxs × Nat)) (cache cache' : Option UtxoCache)
    (twins : Twins strict task other) (contexts : TwinContexts ctx ctx') :
    Alike strict (TwinStates strict) (indexPseudoBlocks indexers tip task ctx cache blocks).2
      (indexPseudoBlocks indexers tip other ctx' cache' blocks).2 := by
  induction blocks generalizing task other ctx ctx' cache cache' with
  | nil => exact Alike.success ⟨twins, contexts⟩
  | cons item blocks ih =>
      rcases item with ⟨txs, index⟩
      have within := indexTxs_twins indexers txs.zipIdx cache cache' twins
        (contexts.moved ⟨tip.height + 1 + BitVec.ofNat 64 index, tip.hash⟩)
      simp only [indexPseudoBlocks]
      generalize indexTxs indexers task
        (ctx.updatePoint ⟨tip.height + 1 + BitVec.ofNat 64 index, tip.hash⟩) cache txs.zipIdx =
        first at within ⊢
      generalize indexTxs indexers other
        (ctx'.updatePoint ⟨tip.height + 1 + BitVec.ofNat 64 index, tip.hash⟩) cache' txs.zipIdx =
        second at within ⊢
      rcases first with ⟨held, result⟩
      rcases second with ⟨held', result'⟩
      rcases within with ⟨ran, ran', rfl, rfl, moved⟩ | ⟨failure, rfl, same⟩
      · rcases setInfo_twins ⟨tip.height + 1 + BitVec.ofNat 64 index, tip.hash⟩ true moved.1 with
          ⟨_, _, left, right, informed⟩ | ⟨failure, left, same⟩
        · simp only [left, right]
          exact ih held held' informed moved.2
        · simp only [left]
          apply Alike.failure failure
          intro exact
          rw [same exact]
      · apply Alike.failure failure
        intro exact
        obtain rfl := same exact
        rfl

/-- Finalized tasks with the same writes; a strict companion keeps the same originals. -/
structure TwinTasks (strict : Prop) (task other : FinalizedTask) : Prop where
  buffer : other.writeBuffer = task.writeBuffer
  originals : other.originalKvs = task.originalKvs ∨ (¬strict ∧ other.originalKvs = none)
  mempool : other.mempool = task.mempool

theorem Twins.finalize (twins : Twins strict task other) :
    TwinTasks strict task.finalize other.finalize :=
  ⟨twins.buffer, twins.originals, twins.mempool⟩

/-- A block indexed by two tasks that read alike, once their inputs are resolved alike. -/
theorem indexBlock_twins (indexers : List Indexer) (point : Point) (txs : BlockTxs)
    (network : Network) (cache cache' : Option UtxoCache) (twins : Twins strict task other)
    (resolved : Alike strict TwinContexts (IndexingContext.new task txs point network cache).2
      (IndexingContext.new other txs point network cache').2) :
    Alike strict (TwinTasks strict) (indexBlock indexers task point txs network cache).2
      (indexBlock indexers other point txs network cache').2 := by
  simp only [indexBlock]
  generalize IndexingContext.new task txs point network cache = first at resolved ⊢
  generalize IndexingContext.new other txs point network cache' = second at resolved ⊢
  rcases first with ⟨held, result⟩
  rcases second with ⟨held', result'⟩
  rcases resolved with ⟨ctx, ctx', rfl, rfl, contexts⟩ | ⟨failure, rfl, same⟩
  · have within := indexTxs_twins indexers txs.zipIdx held held' twins contexts
    simp only
    generalize indexTxs indexers task ctx held txs.zipIdx = first at within ⊢
    generalize indexTxs indexers other ctx' held' txs.zipIdx = second at within ⊢
    rcases first with ⟨kept, result⟩
    rcases second with ⟨kept', result'⟩
    rcases within with ⟨ran, ran', rfl, rfl, moved⟩ | ⟨failure, rfl, same⟩
    · apply (setInfo_twins point false moved.1).bind
      intro informed informed' both
      apply (both.setRaw (isData_hash (Table.holds_encodeKey HashByHeightKV point.height)) _).bind
      intro last last' both'
      exact Alike.success both'.finalize
    · apply Alike.failure failure
      intro exact
      obtain rfl := same exact
      rfl
  · apply Alike.failure failure
    intro exact
    obtain rfl := same exact
    rfl

theorem indexMempool_twins (indexers : List Indexer) (tip : Point) (blocks : List BlockTxs)
    (network : Network) (cache cache' : Option UtxoCache) (twins : Twins strict task other)
    (resolved : Alike strict TwinContexts
      (IndexingContext.new task blocks.flatten tip network cache).2
      (IndexingContext.new other blocks.flatten tip network cache').2) :
    Alike strict (TwinTasks strict) (indexMempool indexers task tip blocks network cache).2
      (indexMempool indexers other tip blocks network cache').2 := by
  simp only [indexMempool]
  generalize IndexingContext.new task blocks.flatten tip network cache = first at resolved ⊢
  generalize IndexingContext.new other blocks.flatten tip network cache' = second at resolved ⊢
  rcases first with ⟨held, result⟩
  rcases second with ⟨held', result'⟩
  rcases resolved with ⟨ctx, ctx', rfl, rfl, contexts⟩ | ⟨failure, rfl, same⟩
  · rcases indexPseudoBlocks_twins indexers tip blocks.zipIdx held held' twins contexts with
      ⟨ran, ran', left, right, moved⟩ | ⟨failure, left, same⟩
    · simp only [left, right]
      exact Alike.success moved.1.finalize
    · simp only [left]
      apply Alike.failure failure
      intro exact
      rw [same exact]
      rfl
  · apply Alike.failure failure
    intro exact
    obtain rfl := same exact
    rfl

theorem Twins.resolved (twins : Twins strict task other) (txs : BlockTxs) (point : Point)
    (network : Network) (cache : Option UtxoCache) :
    Alike strict TwinContexts (IndexingContext.new task txs point network cache).2
      (IndexingContext.new other txs point network cache).2 := by
  have same : IndexingContext.new other txs point network cache =
      IndexingContext.new task txs point network cache := by
    simp only [IndexingContext.new, resolveInputs, twins.multiGet UtxoByTxoRefKV _ (by
      intro ref
      exact isData_utxo (Table.holds_encodeKey _ ref))]
  rw [same]
  apply (Alike.refl _).mono
  rintro ctx _ rfl
  exact TwinContexts.refl ctx

end Runs

section Begun

variable {strict : Prop} {handler other : StorageHandler}

theorem Twins.reads_begun (current : handler.Current) (current' : other.Current)
    (agree : Agree IsData other.db.view handler.db.view) :
    Agree IsData (other.db.get other.readTs) (handler.db.get handler.readTs) := by
  intro key data
  rw [other.get_readTs key current', handler.get_readTs key current]
  exact agree key data

theorem Twins.begun (current : handler.Current) (current' : other.Current)
    (agree : Agree IsData other.db.view handler.db.view) {mutable mutable' : Bool}
    (originals : mutable' = mutable ∨ (¬strict ∧ mutable' = false)) :
    Twins strict (handler.beginIndexingTask mutable) (other.beginIndexingTask mutable') := by
  refine ⟨rfl, ?_, rfl, Twins.reads_begun current current' agree⟩
  rcases originals with rfl | ⟨loose, rfl⟩
  · exact Or.inl rfl
  · exact Or.inr ⟨loose, rfl⟩

theorem Twins.begunMempool (current : handler.Current) (current' : other.Current)
    (agree : Agree IsData other.db.view handler.db.view) :
    Twins strict handler.beginMempoolIndexingTask other.beginMempoolIndexingTask :=
  ⟨rfl, Or.inl rfl, rfl, Twins.reads_begun current current' agree⟩

end Begun

end Symphony
