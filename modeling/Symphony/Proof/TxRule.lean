import Symphony.Proof.CacheTransparent
import Symphony.Proof.TxCounts
import Symphony.Spec.TxHistory
import Symphony.Sync.ScriptRules

/-! From one transaction to every run.

A property of an indexer's tables that each of its calls keeps holds after every run of blocks,
snapshots and rollbacks. The call is judged alone: its inputs resolve to the unspent outputs, and
the other indexers keep off its tables and its metadata. -/

namespace Symphony

open Encdec
open UndoLog (Agree)
open VersionedLog (Increasing)

theorem TransactionIndexer.Owns.custom {who : TransactionIndexer} {key : RawKey}
    (owns : who.Owns key) : IsCustomKey key := by
  rcases owns with ⟨rest, rfl⟩
  rfl

/-- An indexer that keeps off the tables and the metadata of another one. -/
def Indexer.Apart (who : TransactionIndexer) (indexer : Indexer) : Prop :=
  ∀ tx blockIndex ctx, (indexer tx blockIndex ctx).Within (.besides who)

/-- The indexers enabled beside one. -/
structure Others (who : TransactionIndexer) where
  before : List Indexer
  after : List Indexer
  apart : ∀ other ∈ before ++ after, other.Apart who

def Others.with {who : TransactionIndexer} (others : Others who) (indexer : Indexer) :
    List Indexer :=
  others.before ++ indexer :: others.after

/-- What holds when the indexer is called for a transaction on top of `past`. -/
structure Called (who : TransactionIndexer) (past : List IndexedTx) (tx : TransactionWithId)
    (resolve : TxoRef → Option Utxo) (state : TableState) : Prop where
  resolved : ∀ ref ∈ tx.spends, ∃ utxo, resolve ref = some utxo ∧ unspentAfter past ref = some utxo
  valid : ValidTx (liveRefs (unspentAfter past)) tx
  null : unspentAfter past TxoRef.null = none
  fresh : tx.txId ∉ past.map IndexedTx.txId
  plain : ∀ ref, ref.txHash ∉ past.map IndexedTx.txId → (state.attached ref).get? who = none

theorem Called.resolve_eq {who : TransactionIndexer} {past : List IndexedTx} {tx : TransactionWithId}
    {resolve : TxoRef → Option Utxo} {state : TableState} (called : Called who past tx resolve state)
    {ref : TxoRef} (spent : ref ∈ tx.spends) : resolve ref = unspentAfter past ref := by
  rcases called.resolved ref spent with ⟨utxo, found, unspent⟩
  rw [found, unspent]

theorem Called.mem_spends {who : TransactionIndexer} {past : List IndexedTx} {tx : TransactionWithId}
    {resolve : TxoRef → Option Utxo} {state : TableState} (called : Called who past tx resolve state)
    (ref : TxoRef) :
    ref ∈ tx.spends ↔ ∃ input ∈ tx.tx.input, input.previousOutput ≠ TxoRef.null ∧
      input.previousOutput = ref := by
  constructor
  · intro spent
    have live := called.valid.unspent ref spent
    rcases List.mem_map.mp (TransactionWithId.mem_input_of_spends spent) with ⟨input, member, same⟩
    refine ⟨input, member, ?_, same⟩
    rintro null
    rw [← same, null, liveRefs, called.null] at live
    cases live
  · rintro ⟨input, member, other, rfl⟩
    have plain : ¬ tx.tx.isCoinbase := by
      intro coinbase
      simp only [Transaction.isCoinbase] at coinbase
      split at coinbase
      · rename_i only inputs
        rw [inputs, List.mem_singleton] at member
        rw [member] at other
        exact other (of_decide_eq_true coinbase)
      · cases coinbase
    rw [TransactionWithId.spends, if_neg plain]
    exact List.mem_map_of_mem member

theorem Called.spent_iff {who : TransactionIndexer} {past : List IndexedTx} {tx : TransactionWithId}
    {resolve : TxoRef → Option Utxo} {state : TableState} {key : OwnedUtxoKey}
    (called : Called who past tx resolve state)
    (keys : Utxo → TxoRef → OwnedUtxoKey → Prop)
    (names : ∀ utxo ref key, keys utxo ref key → key.txoRef = ref) :
    (∃ input ∈ tx.tx.input, input.previousOutput ≠ TxoRef.null ∧
      ∃ utxo, resolve input.previousOutput = some utxo ∧ keys utxo input.previousOutput key) ↔
    key.txoRef ∈ tx.spends ∧
      ∃ utxo, unspentAfter past key.txoRef = some utxo ∧ keys utxo key.txoRef key := by
  constructor
  · rintro ⟨input, member, other, utxo, found, listed⟩
    have own := names utxo _ key listed
    have spent := (called.mem_spends key.txoRef).mpr ⟨input, member, other, own.symm⟩
    rcases called.resolved _ spent with ⟨utxo', resolved, unspent⟩
    rw [← own] at found listed
    rw [found, Option.some.injEq] at resolved
    rw [← resolved] at unspent
    exact ⟨spent, utxo, unspent, listed⟩
  · rintro ⟨spent, utxo, unspent, listed⟩
    rcases (called.mem_spends key.txoRef).mp spent with ⟨input, member, other, same⟩
    rcases called.resolved _ spent with ⟨utxo', resolved, unspent'⟩
    rw [unspent, Option.some.injEq] at unspent'
    rw [← same, ← unspent'] at resolved
    rw [← same] at listed
    exact ⟨input, member, other, utxo, resolved, listed⟩

theorem Called.spends_eq {who : TransactionIndexer} {past : List IndexedTx} {tx : TransactionWithId}
    {resolve : TxoRef → Option Utxo} {state : TableState} (called : Called who past tx resolve state) :
    (tx.tx.input.map TxIn.previousOutput).filter (fun ref => ref ≠ TxoRef.null) = tx.spends := by
  rw [TransactionWithId.spends]
  split
  · rename_i coinbase
    simp only [Transaction.isCoinbase] at coinbase
    split at coinbase
    · rename_i only inputs
      rw [inputs, List.map_singleton, List.filter_singleton, of_decide_eq_true coinbase]
      simp
    · cases coinbase
  · rename_i plain
    apply List.filter_eq_self.mpr
    intro ref member
    have spent : ref ∈ tx.spends := by
      rw [TransactionWithId.spends, if_neg plain]
      exact member
    rcases (called.mem_spends ref).mp spent with ⟨input, _, other, same⟩
    rw [← same]
    exact decide_eq_true other

/-- What a call leaves: the property for the transaction on top, with the metadata attached to
its outputs, and no metadata elsewhere. -/
structure Leaves (who : TransactionIndexer) (Good : List IndexedTx → (RawKey → Cell) → Prop)
    (past : List IndexedTx) (point : Point) (blockIndex : Nat) (tx : TransactionWithId)
    (state after : TableState) : Prop where
  good : ∀ attached : TxoRef → ExtendedUtxoData,
    (∀ ref, ref.txHash = tx.txId → (attached ref).get? who = (after.attached ref).get? who) →
      Good (⟨point, blockIndex, tx, attached⟩ :: past) after.cells
  elsewhere : ∀ ref, ref.txHash ≠ tx.txId →
    (after.attached ref).get? who = (state.attached ref).get? who

/-- A property of the indexer's tables that its calls keep. -/
structure TxRule (who : TransactionIndexer) (indexer : Indexer)
    (Good : List IndexedTx → (RawKey → Cell) → Prop) : Prop where
  congr : ∀ past cells other, (∀ key, who.Owns key → (other key).toOption = (cells key).toOption) →
    Good past cells → Good past other
  empty : Good [] (fun _ => .ok none)
  step : ∀ past point blockIndex tx network resolve state, Good past state.cells →
    Called who past tx resolve state →
      (indexer tx blockIndex ⟨point, network, resolve⟩).Yields
        (fun _ after => Leaves who Good past point blockIndex tx state after) state

/-- Every key of the indexer with a value is one of these. -/
def KeyedBy (who : TransactionIndexer) (keys : RawKey → Prop) (_ : List IndexedTx)
    (cells : RawKey → Cell) : Prop :=
  ∀ raw, who.Owns raw → ¬ keys raw → cells raw = .ok none

theorem keyedBy_rule {who : TransactionIndexer} {indexer : Indexer} {keys : RawKey → Prop}
    (within : ∀ tx blockIndex ctx, (indexer tx blockIndex ctx).Within
      (.own who keys (fun ref => ref.txHash = tx.txId))) : TxRule who indexer (KeyedBy who keys) := by
  constructor
  · intro past cells other same keyed raw owns outside
    have equal := same raw owns
    rw [keyed raw owns outside] at equal
    cases found : other raw with
    | error failure =>
        rw [found] at equal
        cases equal
    | ok stored =>
        rw [found] at equal
        exact congrArg Except.ok (Option.some.inj equal)
  · intro raw _ _
    rfl
  · intro past point blockIndex tx network resolve state keyed called
    have settled := within tx blockIndex ⟨point, network, resolve⟩
    apply (settled.yields Footprint.own_allows state).mono
    intro _ after left
    constructor
    · intro _ _ raw owns outside
      exact left.unset raw outside (keyed raw owns outside)
    · intro ref other
      rw [left.attached ref other]

namespace IndexingContext

theorem produceOutputs_metadata {ctx ctx' : IndexingContext} {task after : IndexingTask}
    {cache cache' : Option UtxoCache} {tx : TransactionWithId} {outputs : List (TxOut × Nat)}
    (success : ctx.produceOutputs task cache tx outputs = (cache', .ok (ctx', after)))
    (ref : TxoRef) :
    ctx'.metadataOf ref = ctx.metadataOf ref ∨ ctx'.metadataOf ref = IndexMap.empty := by
  have erased (other : TxoRef) (ctx : IndexingContext) (resolver : HashMap TxoRef Utxo) :
      IndexingContext.metadataOf { ctx with
        utxoMetadata := ctx.utxoMetadata.erase other, resolver } ref = ctx.metadataOf ref ∨
      IndexingContext.metadataOf { ctx with
        utxoMetadata := ctx.utxoMetadata.erase other, resolver } ref = IndexMap.empty := by
    simp only [metadataOf]
    by_cases same : ref = other
    · right
      rw [same, AList.lookup_erase, Option.getD_none]
    · left
      rw [AList.lookup_erase_ne same]
  induction outputs generalizing ctx task cache with
  | nil =>
      cases success
      exact Or.inl rfl
  | cons item outputs ih =>
      rcases item with ⟨output, index⟩
      simp only [produceOutputs] at success
      split at success
      · exact ih success
      · split at success
        · rcases ih success with kept | gone
          · rw [kept]
            exact erased _ ctx _
          · exact Or.inr gone
        · split at success
          · cases success
          · rcases ih success with kept | gone
            · rw [kept]
              exact erased _ ctx ctx.resolver
            · exact Or.inr gone

theorem updateUtxoSet_metadata {ctx ctx' : IndexingContext} {task after : IndexingTask}
    {cache cache' : Option UtxoCache} {tx : TransactionWithId}
    (success : ctx.updateUtxoSet task tx cache = (cache', .ok (ctx', after))) (ref : TxoRef) :
    ctx'.metadataOf ref = ctx.metadataOf ref ∨ ctx'.metadataOf ref = IndexMap.empty := by
  simp only [updateUtxoSet] at success
  split at success
  · cases success
  · rename_i inner middle consuming
    have same : inner.metadataOf ref = ctx.metadataOf ref := by
      rw [metadataOf, (consumeInputs_consumed consuming).metadata, metadataOf]
    rw [← same]
    exact produceOutputs_metadata success ref

end IndexingContext

section Calls

variable {who : TransactionIndexer} {indexer : Indexer} {indexers : List Indexer}
variable {task after : IndexingTask} {ctx ctx' : IndexingContext} {tx : TransactionWithId}
variable {blockIndex : Nat}

theorem apart_run (apart : ∀ other ∈ indexers, other.Apart who)
    (ran : runIndexers tx blockIndex task ctx indexers = .ok (after, ctx')) :
    TableState.Alike who (task.tables ctx) (after.tables ctx') := by
  induction indexers generalizing task ctx with
  | nil =>
      cases ran
      exact Footprint.besides_allows.refl _
  | cons first rest ih =>
      simp only [runIndexers] at ran
      split at ran
      · cases ran
      · rename_i value middle inner step
        have moved := ((apart first List.mem_cons_self tx blockIndex ctx.toTxContext).yields
          Footprint.besides_allows (task.tables ctx)).run step
        exact Footprint.besides_allows.trans moved
          (ih (fun other member => apart other (List.mem_cons_of_mem _ member)) ran)

variable {others : Others who} {Good : List IndexedTx → (RawKey → Cell) → Prop}
variable {past : List IndexedTx} {rest : BlockTxs}

theorem called_after (between : Between task ctx (unspentAfter past) (tx :: rest))
    (valid : ValidTx (liveRefs (unspentAfter past)) tx) (fresh : tx.txId ∉ past.map IndexedTx.txId)
    (plain : ∀ ref, ref.txHash ∉ past.map IndexedTx.txId → (ctx.metadataOf ref).get? who = none)
    (early : runIndexers tx blockIndex task ctx others.before = .ok (after, ctx')) :
    Called who past tx ctx.resolveInput (after.tables ctx') ∧
      TableState.Alike who (task.tables ctx) (after.tables ctx') ∧
        ctx'.toTxContext = ctx.toTxContext := by
  have same := (runIndexers_written early).2
  have resolve : ctx'.resolveInput = ctx.resolveInput := by
    funext ref
    rw [IndexingContext.resolveInput, same.resolver, IndexingContext.resolveInput]
  have view : ctx'.toTxContext = ctx.toTxContext := by
    rw [IndexingContext.toTxContext, same.point, same.network, resolve, IndexingContext.toTxContext]
  have resolved := between.inputsResolved valid blockIndex others.before after ctx'
    List.prefix_rfl early
  have alike := apart_run (fun other member => others.apart other (List.mem_append_left _ member)) early
  refine ⟨⟨?_, valid, between.null, fresh, ?_⟩, alike, view⟩
  · intro ref spent
    rw [← resolve]
    exact resolved ref spent
  · intro ref outside
    rw [← plain ref outside]
    exact alike.attached ref

theorem called_among (between : Between task ctx (unspentAfter past) (tx :: rest))
    (valid : ValidTx (liveRefs (unspentAfter past)) tx) (fresh : tx.txId ∉ past.map IndexedTx.txId)
    (plain : ∀ ref, ref.txHash ∉ past.map IndexedTx.txId → (ctx.metadataOf ref).get? who = none)
    (ran : runIndexers tx blockIndex task ctx (others.with indexer) = .ok (after, ctx')) :
    ∃ network resolve state left, Called who past tx resolve state ∧
      TableState.Alike who (task.tables ctx) state ∧ TableState.Alike who left (after.tables ctx') ∧
        ∀ post : Unit → TableState → Prop,
          (indexer tx blockIndex ⟨ctx.point, network, resolve⟩).Yields post state → post () left := by
  rcases runIndexers_append ran with ⟨middle, inner, early, called⟩
  rcases called_after between valid fresh plain early with ⟨turn, before, view⟩
  simp only [runIndexers] at called
  split at called
  · cases called
  · rename_i value left context step
    have behind := apart_run
      (fun other member => others.apart other (List.mem_append_right _ member)) called
    refine ⟨ctx.network, ctx.resolveInput, middle.tables inner, left.tables context, turn, before,
      behind, ?_⟩
    intro post yields
    rw [view] at step
    exact yields.run step

/-- All indexers together, called for one transaction. -/
theorem TxRule.indexed (rule : TxRule who indexer Good)
    (between : Between task ctx (unspentAfter past) (tx :: rest))
    (valid : ValidTx (liveRefs (unspentAfter past)) tx) (fresh : tx.txId ∉ past.map IndexedTx.txId)
    (plain : ∀ ref, ref.txHash ∉ past.map IndexedTx.txId → (ctx.metadataOf ref).get? who = none)
    (good : Good past task.getRaw)
    (ran : runIndexers tx blockIndex task ctx (others.with indexer) = .ok (after, ctx')) :
    Leaves who Good past ctx.point blockIndex tx (task.tables ctx) (after.tables ctx') := by
  rcases called_among between valid fresh plain ran with
    ⟨network, resolve, state, left, called, before, later, yields⟩
  have started : Good past state.cells :=
    rule.congr past _ _ (fun key owns => congrArg Except.toOption (before.cells key owns)) good
  have leaves := yields _ (rule.step past ctx.point blockIndex tx network resolve state started called)
  constructor
  · intro metadata same
    apply rule.congr _ _ _ (fun key owns => congrArg Except.toOption (later.cells key owns))
    apply leaves.good
    intro ref own
    rw [same ref own]
    exact later.attached ref
  · intro ref other
    calc ((after.tables ctx').attached ref).get? who
        = (left.attached ref).get? who := later.attached ref
      _ = (state.attached ref).get? who := leaves.elsewhere ref other
      _ = ((task.tables ctx).attached ref).get? who := before.attached ref

/-- The property between two transactions of a block, and no metadata for those to come. -/
structure Holding (who : TransactionIndexer) (Good : List IndexedTx → (RawKey → Cell) → Prop)
    (past : List IndexedTx) (task : IndexingTask) (ctx : IndexingContext) : Prop where
  good : Good past task.getRaw
  plain : ∀ ref, ref.txHash ∉ past.map IndexedTx.txId → (ctx.metadataOf ref).get? who = none

theorem Holding.frame (rule : TxRule who indexer Good) (holding : Holding who Good past task ctx)
    (cells : ∀ key, IsCustomKey key → after.getRaw key = task.getRaw key)
    (metadata : ∀ ref, ctx'.metadataOf ref = ctx.metadataOf ref ∨
      ctx'.metadataOf ref = IndexMap.empty) : Holding who Good past after ctx' := by
  constructor
  · apply rule.congr past _ _ _ holding.good
    intro key owns
    rw [cells key owns.custom]
  · intro ref outside
    rcases metadata ref with same | gone
    · rw [same]
      exact holding.plain ref outside
    · rw [gone]
      rfl

theorem IndexingTask.Written.custom_getRaw {allowed : RawKey → Prop}
    (written : IndexingTask.Written allowed task after)
    (core : ∀ key, allowed key → ¬ IsCustomKey key) (key : RawKey) (custom : IsCustomKey key) :
    after.getRaw key = task.getRaw key :=
  written.getRaw_of_not_allowed key (fun inside => core key inside custom)

theorem TxRule.block (rule : TxRule who indexer Good) {coinbase : Bool} {remaining : BlockTxs}
    {txs : BlockTxs} {start : Nat} {cache cache' : Option UtxoCache}
    {attached : TxoRef → ExtendedUtxoData}
    (between : Between task ctx (unspentAfter past) (txs ++ remaining))
    (valid : ValidTxs coinbase (liveRefs (unspentAfter past)) (txs ++ remaining))
    (fresh : ∀ tx ∈ txs, tx.txId ∉ past.map IndexedTx.txId)
    (holding : Holding who Good past task ctx)
    (success : indexTxs (others.with indexer) task ctx cache (txs.zipIdx start) =
      (cache', .ok (after, ctx')))
    (same : ∀ ref, ref.txHash ∈ txs.map TransactionWithId.txId →
      attached ref = attachedTxs (others.with indexer) task ctx (txs.zipIdx start) ref) :
    Holding who Good (pushTxs ctx.point attached (txs.zipIdx start) past) after ctx' := by
  induction txs generalizing task ctx past cache start coinbase with
  | nil =>
      cases success
      exact holding
  | cons tx txs ih =>
      rw [List.zipIdx_cons] at success same ⊢
      simp only [indexTxs] at success
      split at success
      · cases success
      · rename_i middle inner ran
        split at success
        · cases success
        · rename_i held ctx'' task'' updated
          have leaves := rule.indexed between valid.2.1 (fresh tx List.mem_cons_self) holding.plain
            holding.good ran
          rcases between.indexed ran with ⟨indexed, place⟩
          rcases indexed.step valid.2.1 updated with ⟨stepped, samePlace⟩
          have ids : tx.txId ∉ txs.map TransactionWithId.txId := by
            have distinct := between.distinct
            rw [List.cons_append, List.map_cons, List.nodup_cons, List.map_append] at distinct
            intro member
            exact distinct.1 (List.mem_append_left _ member)
          have own (ref : TxoRef) (hash : ref.txHash = tx.txId) :
              attached ref = inner.metadataOf ref := by
            rw [same ref (by rw [hash]; exact List.mem_cons_self)]
            exact attachedTxs_head ran hash
          have next : applyTx (unspentAfter past) inner.point.height inner.metadataOf tx =
              unspentAfter (⟨ctx.point, start, tx, attached⟩ :: past) := by
            rw [place, unspentAfter]
            apply applyTx_congr
            intro ref hash
            exact (own ref hash).symm
          rw [next] at stepped
          have later : ValidTxs false (liveRefs (unspentAfter (⟨ctx.point, start, tx, attached⟩ ::
              past))) (txs ++ remaining) := by
            rw [unspentAfter, liveRefs_applyTx]
            exact valid.2.2
          have grown : Holding who Good (⟨ctx.point, start, tx, attached⟩ :: past) middle inner := by
            constructor
            · apply leaves.good
              intro ref hash
              rw [own ref hash]
              rfl
            · intro ref outside
              rw [List.map_cons, List.mem_cons, not_or] at outside
              rw [← holding.plain ref outside.2]
              exact leaves.elsewhere ref outside.1
          have cells := (IndexingContext.updateUtxoSet_written updated).custom_getRaw
            (fun key held => not_isCustomKey_of_core 85 key held)
          have stored : Holding who Good (⟨ctx.point, start, tx, attached⟩ :: past) task'' ctx'' :=
            grown.frame rule cells (IndexingContext.updateUtxoSet_metadata updated)
          have unseen : ∀ other ∈ txs, other.txId ∉
              (⟨ctx.point, start, tx, attached⟩ :: past : List IndexedTx).map IndexedTx.txId := by
            intro other member inside
            rcases List.mem_cons.mp inside with equal | old
            · have repeated : other.txId = tx.txId := equal
              exact ids (repeated ▸ List.mem_map_of_mem member)
            · exact fresh other (List.mem_cons_of_mem _ member) old
          have rest := ih stepped later unseen stored success (by
            intro ref member
            rw [same ref (List.mem_cons_of_mem _ member)]
            apply attachedTxs_tail ran updated
            intro hash
            exact ids (hash ▸ member))
          rw [samePlace.point, place] at rest
          exact rest

end Calls

section Histories

variable {who : TransactionIndexer} {indexer : Indexer} {others : Others who}
variable {Good : List IndexedTx → (RawKey → Cell) → Prop} {network : Network}
variable {task after : IndexingTask} {ctx ctx' : IndexingContext}

theorem TxRule.pseudoBlocks (rule : TxRule who indexer Good) {tip : Point}
    {cache cache' : Option UtxoCache} {blocks : List BlockTxs} {start : Nat}
    {base : List IndexedBlock} {remaining : BlockTxs}
    (between : Between task ctx (unspent base) (blocks.flatten ++ remaining))
    (valid : ValidTxs false (liveRefs (unspent base)) (blocks.flatten ++ remaining))
    (fresh : ∀ tx ∈ blocks.flatten, tx.txId ∉ base.flatMap IndexedBlock.txIds)
    (holding : Holding who Good (chainTxs base) task ctx)
    (success : indexPseudoBlocks (others.with indexer) tip task ctx cache (blocks.zipIdx start) =
      (cache', .ok (after, ctx'))) :
    Holding who Good (chainTxs ((Symphony.pseudoBlocks (others.with indexer) tip task ctx
      (blocks.zipIdx start)).reverse ++ base)) after ctx' := by
  induction blocks generalizing task ctx cache start base with
  | nil =>
      cases success
      exact holding
  | cons txs blocks ih =>
      rw [List.zipIdx_cons] at success ⊢
      rcases indexPseudoBlocks_cons success with ⟨held, indexed, inner, informed, ran, info, rest, same⟩
      rw [List.flatten_cons, List.append_assoc] at between valid
      let block : IndexedBlock := ⟨pseudoPoint tip start, txs, attachedTxs (others.with indexer) task
        (ctx.updatePoint (pseudoPoint tip start)) txs.zipIdx⟩
      have next := ((between.moved (pseudoPoint tip start)).run valid ran).1
      have distinct : ((txs ++ blocks.flatten).map TransactionWithId.txId).Nodup := by
        have whole := between.distinct
        rw [← List.append_assoc, List.map_append] at whole
        exact (List.nodup_append.mp whole).1
      rw [List.map_append, List.nodup_append] at distinct
      rw [same, List.reverse_cons, List.append_assoc, List.singleton_append]
      have below : Between informed inner (unspent (block :: base)) (blocks.flatten ++ remaining) :=
        next.informed info
      refine ih below (valid.drop (Or.inr rfl)) ?_ ?_ rest
      · intro tx member listed
        rw [List.flatMap_cons, List.mem_append] at listed
        rcases listed with own | old
        · exact distinct.2.2 _ own _ (List.mem_map_of_mem member) rfl
        · exact fresh tx (by rw [List.flatten_cons]; exact List.mem_append_right _ member) old
      · have moved : Holding who Good (chainTxs base) task (ctx.updatePoint (pseudoPoint tip start)) :=
          ⟨holding.good, holding.plain⟩
        have same : ∀ ref, ref.txHash ∈ txs.map TransactionWithId.txId → block.attached ref =
            attachedTxs (others.with indexer) task (ctx.updatePoint (pseudoPoint tip start))
              (txs.zipIdx 0) ref := by
          intro ref _
          rfl
        have done := rule.block (by
            rw [unspentAfter_chainTxs]
            exact between.moved (pseudoPoint tip start)) (by
            rw [unspentAfter_chainTxs]
            exact valid) (by
            intro tx member listed
            rw [txIds_chainTxs] at listed
            exact fresh tx (by rw [List.flatten_cons]; exact List.mem_append_left _ member) listed)
          moved ran same
        apply done.frame rule
        · intro key custom
          apply (IndexingTask.setRaw_touches info).getRaw_ne
          rintro rfl
          exact not_isCustomKey_of_core 73 _ (Table.holds_encodeKey IndexerInfoKV ()) custom
        · intro ref
          exact Or.inl rfl

theorem toOption_view_applied {handler next : StorageHandler} {now : U64} {accepted : Bool}
    {point : Point} {maxRollback : U64} {mempoolTimestamp : Option U64}
    (current : handler.Current) (db : task.db = handler.db) (readTs : task.readTs = handler.readTs)
    (applied : handler.applyIndexingTask now accepted task.finalize point maxRollback
      mempoolTimestamp = .ok next) (increasing : Increasing next.db.log) {key : RawKey}
    (data : IsData key) : (next.db.view key).toOption = (task.getRaw key).toOption := by
  have below : task.db.get task.readTs key = handler.db.view key := by
    rw [db, readTs]
    exact handler.get_readTs key current
  rw [view_applied applied increasing key data, task.toOption_getRaw key, below]
  rfl

theorem IndexingContext.new_ok {txs : BlockTxs} {point : Point} {cache cache' : Option UtxoCache}
    (created : IndexingContext.new task txs point network cache = (cache', .ok ctx)) :
    ∃ utxos : ResolvedUtxos, ctx = ⟨point, utxos.resolver, ∅, utxos.chainedTxos, network⟩ := by
  simp only [IndexingContext.new] at created
  cases resolved : (resolveInputs task txs cache).2 with
  | error failure =>
      rw [resolved] at created
      cases congrArg Prod.snd created
  | ok utxos =>
      rw [resolved] at created
      exact ⟨utxos, (Except.ok.inj (congrArg Prod.snd created)).symm⟩

theorem IndexingContext.metadata_new {txs : BlockTxs} {point : Point} {cache cache' : Option UtxoCache}
    (created : IndexingContext.new task txs point network cache = (cache', .ok ctx)) (ref : TxoRef) :
    ctx.metadataOf ref = IndexMap.empty := by
  rcases new_ok created with ⟨utxos, rfl⟩
  rfl

theorem IndexingContext.point_new {txs : BlockTxs} {point : Point} {cache cache' : Option UtxoCache}
    (created : IndexingContext.new task txs point network cache = (cache', .ok ctx)) :
    ctx.point = point := by
  rcases new_ok created with ⟨utxos, rfl⟩
  rfl

theorem Holding.begun (rule : TxRule who indexer Good) {handler : StorageHandler}
    {past : List IndexedTx} (good : Good past handler.db.view) (current : handler.Current)
    (db : task.db = handler.db) (readTs : task.readTs = handler.readTs)
    (empty : task.writeBuffer = ∅) (metadata : ∀ ref, ctx.metadataOf ref = IndexMap.empty) :
    Holding who Good past task ctx := by
  constructor
  · apply rule.congr past _ _ _ good
    intro key _
    rw [IndexingTask.getRaw, empty, AList.lookup_empty, db, readTs]
    exact congrArg Except.toOption (handler.get_readTs key current)
  · intro ref _
    rw [metadata]
    rfl

/-- The property holds of the transactions of a valid history and the tables that show. -/
def RecordedTxs (Good : List IndexedTx → (RawKey → Cell) → Prop) (history : History)
    (view : RawKey → Cell) : Prop :=
  Numbered history.blocks ∧
    (history.Valid → Stores view (unspent history.blocks) ∧ Good (chainTxs history.blocks) view)

theorem Numbered.pseudo {indexers : List Indexer} {tip : Point} {blocks : List BlockTxs}
    {cache cache' : Option UtxoCache} {confirmed : List IndexedBlock}
    (numbered : Numbered confirmed) (height : tip.height.toNat = confirmed.length)
    (success : indexPseudoBlocks indexers tip task ctx cache blocks.zipIdx = (cache', .ok (after, ctx'))) :
    Numbered ((Symphony.pseudoBlocks indexers tip task ctx blocks.zipIdx).reverse ++ confirmed) := by
  have contents := pseudoBlocks_contents success
  generalize Symphony.pseudoBlocks indexers tip task ctx blocks.zipIdx = pseudo at contents
  have place : tip.height = BitVec.ofNat 64 confirmed.length := by
    rw [← height, BitVec.ofNat_toNat, BitVec.setWidth_eq]
  clear height success
  induction pseudo using List.reverseRecOn generalizing blocks with
  | nil => exact numbered
  | append_singleton pseudo block ih =>
      rw [List.map_append, List.map_singleton] at contents
      cases blocks using List.reverseRecOn with
      | nil => simp at contents
      | append_singleton blocks txs =>
          rw [List.zipIdx_append, List.map_append, List.zipIdx_singleton, List.map_singleton] at contents
          rcases List.append_inj' contents rfl with ⟨front, last⟩
          rw [List.reverse_append, List.reverse_singleton, List.singleton_append, List.cons_append]
          refine ⟨?_, ih front⟩
          have count : pseudo.length = blocks.length := by
            have lengths := congrArg List.length front
            simpa using lengths
          have point : block.point = pseudoPoint tip (0 + blocks.length) :=
            congrArg Prod.fst (List.singleton_inj.mp last)
          rw [point, pseudoPoint, place, List.length_append, List.length_reverse, count]
          apply BitVec.eq_of_toNat_eq
          have one : (1 : Encdec.U64).toNat = 1 := rfl
          simp only [BitVec.toNat_add, BitVec.toNat_ofNat, one]
          omega

theorem RecordedTxs.agree (rule : TxRule who indexer Good) {history : History}
    {view other : RawKey → Cell} (agree : UndoLog.Agree IsData view other)
    (recorded : RecordedTxs Good history other) : RecordedTxs Good history view := by
  refine ⟨recorded.1, ?_⟩
  intro valid
  rcases recorded.2 valid with ⟨stores, good⟩
  constructor
  · apply stores.congr
    intro key held
    exact agree key (isData_utxo held)
  · apply rule.congr _ _ _ _ good
    intro key owns
    exact congrArg Except.toOption (agree key (isData_custom owns.custom))

theorem RecordedTxs.block (rule : TxRule who indexer Good) {confirmed : List IndexedBlock}
    {handler next : StorageHandler} {block : IndexedBlock}
    (indexes : IndexesBlock (others.with indexer) network handler next block)
    (before : RecordedTxs Good ⟨confirmed, []⟩ handler.db.view)
    (height : block.point.height.toNat = confirmed.length + 1) :
    RecordedTxs Good ⟨block :: confirmed, []⟩ next.db.view := by
  constructor
  · refine ⟨?_, before.1⟩
    show block.point.height = BitVec.ofNat 64 (confirmed.length + 1)
    rw [← height, BitVec.ofNat_toNat, BitVec.setWidth_eq]
  · intro valid
    rcases before.2 valid.below with ⟨stores, good⟩
    have sound := valid.validOn_block
    refine ⟨indexes.stores stores sound, ?_⟩
    rcases indexes.parts with ⟨mutable, ctx, cache, indexed, inner, task, now, accepted, maxRollback,
      created, ran, attached, writes, applied⟩
    rcases sound.new_between stores indexes.1 rfl rfl
      (show (handler.beginIndexingTask mutable).writeBuffer = ∅ from rfl) block.point network with
      ⟨ctx', created', place, between⟩
    obtain rfl : ctx = ctx' := by
      rw [created] at created'
      exact Except.ok.inj (congrArg Prod.snd created')
    have start : Holding who Good (chainTxs confirmed) (handler.beginIndexingTask mutable) ctx :=
      Holding.begun rule good indexes.1 rfl rfl rfl (IndexingContext.metadata_new created)
    have split := List.nodup_append.mp sound.distinct
    have same : ∀ ref, ref.txHash ∈ block.txs.map TransactionWithId.txId → block.attached ref =
        attachedTxs (others.with indexer) (handler.beginIndexingTask mutable) ctx
          (block.txs.zipIdx 0) ref := by
      intro ref _
      rw [attached]
    rw [← List.append_nil block.txs, ← unspentAfter_chainTxs] at between
    have txs := sound.valid
    rw [← List.append_nil block.txs, ← unspentAfter_chainTxs] at txs
    have done := rule.block between txs (by
        intro tx member listed
        rw [txIds_chainTxs] at listed
        exact split.2.2 _ (List.mem_map_of_mem member) _ listed rfl) start ran same
    have whole := (indexTxs_written ran).sameSource.trans writes.sameSource
    rw [place] at done
    apply rule.congr _ _ _ _ done.good
    intro key owns
    rw [toOption_view_applied indexes.1 whole.db whole.readTs applied indexes.2.1
      (isData_custom owns.custom)]
    apply congrArg Except.toOption
    apply writes.custom_getRaw _ key owns.custom
    rintro other (info | hash)
    · exact not_isCustomKey_of_core 73 other info
    · exact not_isCustomKey_of_core 72 other hash

theorem RecordedTxs.snapshot (rule : TxRule who indexer Good) {confirmed : List IndexedBlock}
    {handler next : StorageHandler} {tip : Point} {blocks : List BlockTxs}
    (indexes : IndexesSnapshot (others.with indexer) network handler next tip blocks)
    (before : RecordedTxs Good ⟨confirmed, []⟩ handler.db.view)
    (height : tip.height.toNat = confirmed.length) :
    RecordedTxs Good ⟨confirmed, snapshotBlocks (others.with indexer)
      handler.beginMempoolIndexingTask tip blocks network none⟩ next.db.view := by
  rcases indexes.parts with ⟨ctx, cache, task, inner, now, accepted, pseudo, maxRollback, timestamp,
    created, ran, same, applied⟩
  rw [same]
  refine ⟨before.1.pseudo height ran, ?_⟩
  intro valid
  rcases before.2 valid.base with ⟨stores, good⟩
  have sound := valid.validOn_snapshot
  rw [List.flatMap_def, pseudoBlocks_txs ran] at sound
  have stored := indexes.stores stores sound
  rw [same] at stored
  refine ⟨stored, ?_⟩
  rcases sound.new_between stores indexes.1 rfl rfl
    (show handler.beginMempoolIndexingTask.writeBuffer = ∅ from rfl) tip network with
    ⟨ctx', created', place, between⟩
  obtain rfl : ctx = ctx' := by
    rw [created] at created'
    exact Except.ok.inj (congrArg Prod.snd created')
  have start : Holding who Good (chainTxs confirmed) handler.beginMempoolIndexingTask ctx :=
    Holding.begun rule good indexes.1 rfl rfl rfl (IndexingContext.metadata_new created)
  have split := List.nodup_append.mp sound.distinct
  have valid' := sound.valid
  rw [← List.append_nil blocks.flatten] at between valid'
  have done := rule.pseudoBlocks between valid' (by
    intro tx member listed
    exact split.2.2 _ (List.mem_map_of_mem member) _ listed rfl) start ran
  rcases indexPseudoBlocks_ok (by simpa using indexes.2.2.1) ran with ⟨middle, level, writes, info⟩
  have source := writes.sameSource.trans (IndexingTask.setRaw_touches info).sameSource
  apply rule.congr _ _ _ _ done.good
  intro key owns
  exact toOption_view_applied indexes.1 source.db source.readTs applied indexes.2.1
    (isData_custom owns.custom)

theorem TxRule.invariant (rule : TxRule who indexer Good) :
    HistoryInvariant (others.with indexer) network (RecordedTxs Good) where
  agree _ _ _ agree := RecordedTxs.agree rule agree
  empty := by
    refine ⟨trivial, ?_⟩
    intro valid
    exact ⟨(utxosIndexed_invariant (others.with indexer) network).empty valid, rule.empty⟩
  forward _ _ _ _ := RecordedTxs.block rule
  snapshot _ _ _ _ _ := RecordedTxs.snapshot rule

end Histories

/-- What a valid run leaves, with or without the UTXO cache. -/
structure Records (Good : List IndexedTx → (RawKey → Cell) → Prop) (history : History)
    (machine : Machine) : Prop where
  valid : history.Valid
  numbered : Numbered history.blocks
  stores : Stores machine.stage.db.db.view (unspent history.blocks)
  good : Good (chainTxs history.blocks) machine.stage.db.db.view

/-- The property holds after every run of valid blocks, snapshots and rollbacks. -/
theorem TxRule.run {who : TransactionIndexer} {indexer : Indexer}
    {Good : List IndexedTx → (RawKey → Cell) → Prop} (rule : TxRule who indexer Good)
    (others : Others who) (names : Header → Point → Prop) (config : Config)
    (events : List (Env × ChainEvent)) (fed : ∀ event ∈ events, event.2.Valid names) :
    let machine := Machine.bootstrap (others.with indexer) (Stage.empty config)
    machine.uncached.ValidFrom ⟨[], []⟩ events →
      Increasing (machine.run events).stage.db.db.log →
        Records Good (machine.uncached.history events) (machine.run events) := by
  intro machine valid increasing
  have invariant : HistoryInvariant (others.with indexer) config.network (RecordedTxs Good) :=
    rule.invariant
  rcases invariant.run_valid names events fed valid increasing with
    ⟨same, history, ledger, chronicle⟩
  have now : RecordedTxs Good (machine.uncached.history events)
      (machine.uncached.run events).stage.db.db.view := chronicle.now
  rw [← same] at now
  exact ⟨history, now.1, (now.2 history).1, (now.2 history).2⟩

theorem Stores.read {handler : StorageHandler} {set : UtxoSet} (stores : Stores handler.db.view set)
    (ref : TxoRef) : (handler.reader Timestamp.latest).get UtxoByTxoRefKV ref = .ok (set ref) :=
  stores.decode ref

def attachBeside (who : TransactionIndexer) (other : who ≠ .runes) : Others who :=
  ⟨[attachFirst], [], by
    intro indexer member
    rw [List.append_nil, List.mem_singleton] at member
    rw [member]
    exact fun _ _ _ => ⟨fun same => other same.symm, trivial⟩⟩

end Symphony
