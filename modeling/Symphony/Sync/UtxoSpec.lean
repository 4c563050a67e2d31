import Mathlib.Algebra.Order.BigOperators.Group.List
import Mathlib.Data.List.Dedup
import Symphony.Spec.UtxoSet
import Symphony.Sync.IndexSpec

/-! The UTXO table and the context of a block against the UTXO set of the chain.

Between two transactions the unspent outputs are split: those spent later in the block are
held by the resolver only, all others are in the table as the task reads it. -/

namespace Symphony

open BigEndian (Byte)
open Encdec
open IndexingTask (Written Touches)

namespace IndexingTask

theorem SameSource.getRaw {task after : IndexingTask} {key : RawKey} (same : SameSource task after)
    (lookup : after.writeBuffer.lookup key = task.writeBuffer.lookup key) :
    after.getRaw key = task.getRaw key := by
  simp only [IndexingTask.getRaw, lookup, same.db, same.readTs]

theorem Touches.getRaw_ne {task after : IndexingTask} {key other : RawKey}
    (touches : task.Touches key after) (different : other ≠ key) :
    after.getRaw other = task.getRaw other :=
  touches.sameSource.getRaw (touches.lookup_ne different)

theorem Written.getRaw_of_not_allowed {allowed : RawKey → Prop} {task after : IndexingTask}
    (written : Written allowed task after) (key : RawKey) (outside : ¬ allowed key) :
    after.getRaw key = task.getRaw key :=
  written.sameSource.getRaw (written.lookup_of_not_allowed key outside)

theorem setRaw_getRaw {task after : IndexingTask} {key : RawKey} {value : RawValue}
    (success : task.setRaw key value = .ok after) : after.getRaw key = .ok (some value) := by
  simp only [getRaw, setRaw_lookup success]

theorem deleteRaw_getRaw {task after : IndexingTask} {key : RawKey}
    (success : task.deleteRaw key = .ok after) : after.getRaw key = .ok none := by
  rcases deleteRaw_ok success with ⟨_, stored, _, rfl⟩
  simp only [getRaw, buffer, AList.lookup_insert]

end IndexingTask

theorem utxoKey_injective {first second : TxoRef}
    (same : UtxoByTxoRefKV.encodeKey first = UtxoByTxoRefKV.encodeKey second) : first = second :=
  Table.encodeKey_injective _ trivial trivial same

theorem Utxo.fits_of_short {utxo : Utxo}
    (short : (encode utxo : List Byte).length < 2 ^ 63) : Fits utxo := by
  have listed (bytes : List Byte) : bytes.length ≤ (encode bytes : List Byte).length := by
    have items : (bytes.flatMap (encode : Byte → List Byte)).length = bytes.length := by
      simp [encode]
    simp only [encode, List.length_append] at items ⊢
    omega
  have whole : (encode utxo : List Byte) = encode utxo.satoshis ++ encode utxo.script ++
      encode utxo.height ++ encode utxo.extended := rfl
  rw [whole] at short
  simp only [List.length_append] at short
  have script := listed utxo.script
  have entries : (utxo.extended.entries.flatMap
      (fun entry => (encode entry.1 : List Byte) ++ encode entry.2)).length ≤
        (encode utxo.extended : List Byte).length := by
    simp only [encode, List.length_append]
    omega
  have each (entry : TransactionIndexer × List Byte) (member : entry ∈ utxo.extended.entries) :
      ((encode entry.1 : List Byte) ++ encode entry.2).length ≤
        (utxo.extended.entries.flatMap
          (fun entry => (encode entry.1 : List Byte) ++ encode entry.2)).length := by
    rw [List.length_flatMap]
    exact List.single_le_sum (by simp) _ (List.mem_map.mpr ⟨entry, member, rfl⟩)
  refine ⟨⟨by omega, by intro _ _; trivial⟩, ?_, ?_⟩
  · have count : utxo.extended.entries.length ≤ (utxo.extended.entries.flatMap
        (fun entry => (encode entry.1 : List Byte) ++ encode entry.2)).length := by
      rw [List.length_flatMap]
      have ones : utxo.extended.entries.length =
          (utxo.extended.entries.map (fun _ => 1)).sum := by simp
      rw [ones]
      apply List.sum_le_sum
      intro entry _
      simp [encode]
    omega
  · intro entry member
    have data := listed entry.2
    have size := each entry member
    rw [List.length_append] at size
    exact ⟨trivial, by omega, by intro _ _; trivial⟩

structure Stores (read : RawKey → Cell) (set : UtxoSet) : Prop where
  entry : ∀ ref, read (UtxoByTxoRefKV.encodeKey ref) = .ok ((set ref).map encode)
  fits : ∀ ref utxo, set ref = some utxo → Fits utxo
  rest : ∀ key, UtxoByTxoRefKV.Holds key → (∀ ref, key ≠ UtxoByTxoRefKV.encodeKey ref) →
    read key = .ok none

theorem Stores.congr {read other : RawKey → Cell} {set : UtxoSet} (stores : Stores read set)
    (same : ∀ key, UtxoByTxoRefKV.Holds key → other key = read key) : Stores other set := by
  refine ⟨?_, stores.fits, ?_⟩
  · intro ref
    rw [same _ (Table.holds_encodeKey _ _)]
    exact stores.entry ref
  · intro key held unnamed
    rw [same key held]
    exact stores.rest key held unnamed

theorem Stores.decode {read : RawKey → Cell} {set : UtxoSet} (stores : Stores read set)
    (ref : TxoRef) :
    IndexingTask.decodeCell (read (UtxoByTxoRefKV.encodeKey ref)) = .ok (set ref) := by
  rw [stores.entry ref]
  cases found : set ref with
  | none => rfl
  | some utxo =>
      have decoded := decodeAll_encode utxo (stores.fits ref utxo found)
      simp only [Option.map_some, IndexingTask.decodeCell, bind, Except.bind, decoded, liftDecoding,
        pure, Except.pure]

theorem Stores.get {task : IndexingTask} {set : UtxoSet} (stores : Stores task.getRaw set)
    (ref : TxoRef) : task.get UtxoByTxoRefKV ref = .ok (set ref) :=
  stores.decode ref

namespace IndexingContext

structure SamePlace (ctx after : IndexingContext) : Prop where
  point : after.point = ctx.point
  chainedTxos : after.chainedTxos = ctx.chainedTxos
  network : after.network = ctx.network

theorem SamePlace.refl (ctx : IndexingContext) : SamePlace ctx ctx := ⟨rfl, rfl, rfl⟩

theorem SamePlace.trans {first second third : IndexingContext} (left : SamePlace first second)
    (right : SamePlace second third) : SamePlace first third :=
  ⟨right.point.trans left.point, right.chainedTxos.trans left.chainedTxos,
    right.network.trans left.network⟩

/-- Consumed outputs are gone from the table; the resolver keeps all others. -/
structure Consumed (ctx : IndexingContext) (task : IndexingTask) (inputs : List TxIn)
    (ctx' : IndexingContext) (after : IndexingTask) : Prop where
  place : SamePlace ctx ctx'
  metadata : ctx'.utxoMetadata = ctx.utxoMetadata
  resolver : ∀ ref, ref ∉ inputs.map TxIn.previousOutput →
    ctx'.resolver.lookup ref = ctx.resolver.lookup ref
  gone : ∀ ref ∈ inputs.map TxIn.previousOutput,
    after.getRaw (UtxoByTxoRefKV.encodeKey ref) = .ok none
  kept : ∀ key, (∀ ref ∈ inputs.map TxIn.previousOutput, key ≠ UtxoByTxoRefKV.encodeKey ref) →
    after.getRaw key = task.getRaw key

theorem consumeInputs_consumed {inputs : List TxIn} {task after : IndexingTask}
    {ctx ctx' : IndexingContext} (success : ctx.consumeInputs task inputs = .ok (ctx', after)) :
    Consumed ctx task inputs ctx' after := by
  induction inputs generalizing task ctx with
  | nil =>
      cases success
      exact ⟨SamePlace.refl _, rfl, by intro _ _; rfl, by simp, by intro _ _; rfl⟩
  | cons input inputs ih =>
      simp only [consumeInputs] at success
      split at success
      · cases success
      · rename_i middle step
        have rest := ih success
        have touches := IndexingTask.deleteRaw_touches step
        have removed : middle.getRaw (UtxoByTxoRefKV.encodeKey input.previousOutput) = .ok none :=
          IndexingTask.deleteRaw_getRaw step
        refine ⟨?_, ?_, ?_, ?_, ?_⟩
        · refine SamePlace.trans ?_ rest.place
          split
          · exact SamePlace.refl ctx
          · exact ⟨rfl, rfl, rfl⟩
        · rw [rest.metadata]
          split
          · rfl
          · rfl
        · intro ref absent
          simp only [List.map_cons, List.mem_cons, not_or] at absent
          rw [rest.resolver ref absent.2]
          split
          · rfl
          · exact AList.lookup_erase_ne absent.1
        · intro ref member
          rw [List.map_cons, List.mem_cons] at member
          by_cases later : ref ∈ inputs.map TxIn.previousOutput
          · exact rest.gone ref later
          · have same : ref = input.previousOutput := member.resolve_right later
            rw [rest.kept, same]
            · exact removed
            · intro other inside equal
              exact later (utxoKey_injective equal ▸ inside)
        · intro key outside
          simp only [List.map_cons, List.mem_cons, forall_eq_or_imp] at outside
          rw [rest.kept key outside.2]
          exact touches.getRaw_ne outside.1

/-- The spendable outputs are in the resolver when they are spent later in the block, and in
the table otherwise. -/
structure Produces (ctx : IndexingContext) (task : IndexingTask) (tx : TransactionWithId)
    (outputs : List (TxOut × Nat)) (ctx' : IndexingContext) (after : IndexingTask) : Prop where
  place : SamePlace ctx ctx'
  resolver : ∀ ref, (∀ item ∈ outputs, isOpReturn item.1.scriptPubkey = false →
    tx.txoRef item.2 ≠ ref) → ctx'.resolver.lookup ref = ctx.resolver.lookup ref
  chained : ∀ item ∈ outputs, isOpReturn item.1.scriptPubkey = false →
    tx.txoRef item.2 ∈ ctx.chainedTxos →
      ctx'.resolver.lookup (tx.txoRef item.2) = some (ctx.produced item.1 (tx.txoRef item.2))
  stored : ∀ item ∈ outputs, isOpReturn item.1.scriptPubkey = false →
    tx.txoRef item.2 ∉ ctx.chainedTxos →
      after.getRaw (UtxoByTxoRefKV.encodeKey (tx.txoRef item.2)) =
        .ok (some (encode (ctx.produced item.1 (tx.txoRef item.2)))) ∧
      Fits (ctx.produced item.1 (tx.txoRef item.2))
  kept : ∀ key, (∀ item ∈ outputs, isOpReturn item.1.scriptPubkey = false →
    tx.txoRef item.2 ∉ ctx.chainedTxos → key ≠ UtxoByTxoRefKV.encodeKey (tx.txoRef item.2)) →
      after.getRaw key = task.getRaw key

theorem produced_erase {ctx : IndexingContext} {ref other : TxoRef} (output : TxOut)
    (resolver : HashMap TxoRef Utxo) (different : other ≠ ref) :
    IndexingContext.produced { ctx with
      utxoMetadata := ctx.utxoMetadata.erase ref, resolver } output other =
      ctx.produced output other := by
  simp only [produced, metadataOf, AList.lookup_erase_ne different]

theorem Produces.cons {ctx inner ctx' : IndexingContext} {task middle after : IndexingTask}
    {tx : TransactionWithId} {output : TxOut} {index : Nat} {outputs : List (TxOut × Nat)}
    (rest : Produces inner middle tx outputs ctx' after) (place : SamePlace ctx inner)
    (distinct : tx.txoRef index ∉ outputs.map (fun item => tx.txoRef item.2))
    (values : ∀ out ref, ref ≠ tx.txoRef index → inner.produced out ref = ctx.produced out ref)
    (resolver : ∀ ref, ref ≠ tx.txoRef index →
      inner.resolver.lookup ref = ctx.resolver.lookup ref)
    (chained : tx.txoRef index ∈ ctx.chainedTxos →
      inner.resolver.lookup (tx.txoRef index) = some (ctx.produced output (tx.txoRef index)) ∧
      middle = task)
    (stored : tx.txoRef index ∉ ctx.chainedTxos →
      inner.resolver = ctx.resolver ∧
      task.Touches (UtxoByTxoRefKV.encodeKey (tx.txoRef index)) middle ∧
      middle.getRaw (UtxoByTxoRefKV.encodeKey (tx.txoRef index)) =
        .ok (some (encode (ctx.produced output (tx.txoRef index)))) ∧
      Fits (ctx.produced output (tx.txoRef index)))
    (spendable : isOpReturn output.scriptPubkey = false) :
    Produces ctx task tx ((output, index) :: outputs) ctx' after := by
  have other (item : TxOut × Nat) (member : item ∈ outputs) : tx.txoRef item.2 ≠ tx.txoRef index := by
    intro same
    exact distinct (same ▸ List.mem_map_of_mem member)
  refine ⟨place.trans rest.place, ?_, ?_, ?_, ?_⟩
  · intro ref unnamed
    simp only [List.mem_cons, forall_eq_or_imp] at unnamed
    rw [rest.resolver ref unnamed.2]
    exact resolver ref (unnamed.1 spendable).symm
  · intro item member spendableItem inside
    rcases List.mem_cons.mp member with rfl | later
    · rw [rest.resolver _ (by intro item member _; exact other item member)]
      exact (chained inside).1
    · rw [rest.chained item later spendableItem (place.chainedTxos ▸ inside),
        values _ _ (other item later)]
  · intro item member spendableItem outside
    rcases List.mem_cons.mp member with rfl | later
    · refine ⟨?_, (stored outside).2.2.2⟩
      rw [rest.kept]
      · exact (stored outside).2.2.1
      · intro item member _ _ same
        exact other item member (utxoKey_injective same).symm
    · rw [← values _ _ (other item later)]
      exact rest.stored item later spendableItem (place.chainedTxos ▸ outside)
  · intro key unnamed
    simp only [List.mem_cons, forall_eq_or_imp] at unnamed
    rw [rest.kept key (by
      intro item member spendableItem outside
      exact unnamed.2 item member spendableItem (place.chainedTxos ▸ outside))]
    by_cases inside : tx.txoRef index ∈ ctx.chainedTxos
    · rw [(chained inside).2]
    · exact (stored inside).2.1.getRaw_ne (unnamed.1 spendable inside)

theorem produceOutputs_produces {tx : TransactionWithId} {outputs : List (TxOut × Nat)}
    {task after : IndexingTask} {ctx ctx' : IndexingContext} {cache cache' : Option UtxoCache}
    (distinct : (outputs.map (fun item => tx.txoRef item.2)).Nodup)
    (success : ctx.produceOutputs task cache tx outputs = (cache', .ok (ctx', after))) :
    Produces ctx task tx outputs ctx' after := by
  induction outputs generalizing task ctx cache with
  | nil =>
      cases success
      exact ⟨SamePlace.refl _, by intro _ _; rfl, by simp, by simp, by intro _ _; rfl⟩
  | cons item outputs ih =>
      rcases item with ⟨output, index⟩
      rw [List.map_cons, List.nodup_cons] at distinct
      simp only [produceOutputs] at success
      split at success
      · rename_i unspendable
        have rest := ih distinct.2 success
        have skip {P : TxOut × Nat → Prop} (later : ∀ item ∈ outputs,
            isOpReturn item.1.scriptPubkey = false → P item) :
            ∀ item ∈ (output, index) :: outputs, isOpReturn item.1.scriptPubkey = false →
              P item := by
          intro item member spendable
          rcases List.mem_cons.mp member with rfl | inside
          · rw [unspendable] at spendable
            cases spendable
          · exact later item inside spendable
        refine ⟨rest.place, ?_, skip rest.chained, skip rest.stored, ?_⟩
        · intro ref unnamed
          exact rest.resolver ref (by
            intro item member
            exact unnamed item (List.mem_cons_of_mem _ member))
        · intro key unnamed
          exact rest.kept key (by
            intro item member
            exact unnamed item (List.mem_cons_of_mem _ member))
      · rename_i spendable
        split at success
        · rename_i inside
          refine (ih distinct.2 success).cons ⟨rfl, rfl, rfl⟩ distinct.1 ?_ ?_ ?_ ?_
            (by simpa using spendable)
          · intro out ref different
            exact produced_erase out _ different
          · intro ref different
            exact AList.lookup_insert_ne different
          · intro _
            exact ⟨AList.lookup_insert _, rfl⟩
          · intro outside
            exact absurd inside outside
        · rename_i outside
          split at success
          · cases success
          · rename_i middle step
            refine (ih distinct.2 success).cons ⟨rfl, rfl, rfl⟩ distinct.1 ?_ ?_ ?_ ?_
              (by simpa using spendable)
            · intro out ref different
              exact produced_erase out _ different
            · intro ref _
              rfl
            · intro inside
              exact absurd inside outside
            · intro _
              refine ⟨rfl, IndexingTask.setRaw_touches step, IndexingTask.setRaw_getRaw step, ?_⟩
              rcases IndexingTask.setRaw_ok step with ⟨_, short, _⟩
              exact Utxo.fits_of_short short

end IndexingContext

/-! ### Transactions -/

namespace TransactionWithId

theorem creates_eq_some {tx : TransactionWithId} (small : tx.tx.output.length < 2 ^ 32)
    {ref : TxoRef} {output : TxOut} :
    tx.creates ref = some output ↔
      ∃ index, (output, index) ∈ tx.tx.output.zipIdx ∧ isOpReturn output.scriptPubkey = false ∧
        tx.txoRef index = ref := by
  constructor
  · intro created
    have hash := txHash_of_creates created
    rw [creates, if_pos hash, Option.filter_eq_some_iff] at created
    refine ⟨ref.txoIndex.toNat, ?_, by simpa using created.2, ?_⟩
    · rw [List.mem_zipIdx_iff_getElem?]
      exact created.1
    · exact txoRef_txoIndex hash
  · rintro ⟨index, member, spendable, rfl⟩
    rw [List.mem_zipIdx_iff_getElem?] at member
    have bound : index < 2 ^ 32 := by
      have inside := (List.getElem?_eq_some_iff.mp member).1
      omega
    rw [creates, if_pos (show (tx.txoRef index).txHash = tx.txId from rfl), txoIndex_txoRef bound,
      member, Option.filter_eq_some_iff]
    exact ⟨rfl, by simpa using spendable⟩

theorem nodup_txoRefs {α : Type} {tx : TransactionWithId} {items : List α}
    (small : items.length < 2 ^ 32) : (items.zipIdx.map (fun item => tx.txoRef item.2)).Nodup := by
  have indices : items.zipIdx.map (fun item => tx.txoRef item.2) =
      (List.range items.length).map tx.txoRef := by
    calc items.zipIdx.map (fun item => tx.txoRef item.2)
        = (items.zipIdx.map Prod.snd).map tx.txoRef := by rw [List.map_map]; rfl
      _ = (List.range items.length).map tx.txoRef := by
          rw [List.zipIdx_map_snd, List.range_eq_range']
  rw [indices]
  apply List.Nodup.map_on _ List.nodup_range
  intro first left second right same
  rw [List.mem_range] at left right
  have index := congrArg (fun ref => ref.txoIndex.toNat) same
  simp only [txoRef, BitVec.toNat_ofNat] at index
  rwa [Nat.mod_eq_of_lt (by omega), Nat.mod_eq_of_lt (by omega)] at index

theorem ne_txoRef {α : Type} {tx : TransactionWithId} {items : List α} {ref : TxoRef}
    (small : items.length < 2 ^ 32) (past : items[ref.txoIndex.toNat]? = none) :
    ∀ item ∈ items.zipIdx, ref ≠ tx.txoRef item.2 := by
  rintro item member rfl
  have bounded := List.snd_lt_of_mem_zipIdx member
  rw [txoIndex_txoRef (by omega), List.mem_zipIdx_iff_getElem?.mp member] at past
  cases past

theorem spends_or_null {tx : TransactionWithId} {ref : TxoRef}
    (member : ref ∈ tx.tx.input.map TxIn.previousOutput) : ref ∈ tx.spends ∨ ref = TxoRef.null := by
  rw [spends]
  split
  · rename_i coinbase
    right
    simp only [Transaction.isCoinbase] at coinbase
    split at coinbase
    · rename_i only inputs
      rw [inputs] at member
      rw [List.mem_singleton.mp member]
      simpa using coinbase
    · cases coinbase
  · exact Or.inl member

theorem mem_input_of_spends {tx : TransactionWithId} {ref : TxoRef} (spent : ref ∈ tx.spends) :
    ref ∈ tx.tx.input.map TxIn.previousOutput := by
  rw [spends] at spent
  split at spent
  · cases spent
  · exact spent

theorem creates_null {tx : TransactionWithId} (small : tx.tx.output.length < 2 ^ 32) :
    tx.creates TxoRef.null = none := by
  rw [creates]
  split
  · have beyond : tx.tx.output.length ≤ TxoRef.null.txoIndex.toNat := by
      have last : TxoRef.null.txoIndex.toNat = 2 ^ 32 - 1 := rfl
      omega
    rw [List.getElem?_eq_none beyond]
    rfl
  · rfl

end TransactionWithId

/-- The part of the set the table holds while a block is indexed. -/
def IndexingContext.stored (ctx : IndexingContext) (set : UtxoSet) : UtxoSet :=
  fun ref => if ref ∈ ctx.chainedTxos then none else set ref

/-- Between two transactions: `set` is unspent and `remaining` is still to come. -/
structure Between (task : IndexingTask) (ctx : IndexingContext) (set : UtxoSet)
    (remaining : BlockTxs) : Prop where
  stores : Stores task.getRaw (ctx.stored set)
  resolves : ∀ tx ∈ remaining, ∀ ref ∈ tx.spends, ∀ utxo, set ref = some utxo →
    ctx.resolver.lookup ref = some utxo
  covered : ∀ tx ∈ remaining, ∀ ref ∈ tx.spends,
    ref.txHash ∈ remaining.map TransactionWithId.txId → ref ∈ ctx.chainedTxos
  awaited : ∀ ref ∈ ctx.chainedTxos,
    (set ref).isSome ∨ ref.txHash ∈ remaining.map TransactionWithId.txId →
      ∃ tx ∈ remaining, ref ∈ tx.spends
  fresh : ∀ ref, (set ref).isSome → ref.txHash ∉ remaining.map TransactionWithId.txId
  null : set TxoRef.null = none
  distinct : (remaining.map TransactionWithId.txId).Nodup

theorem Between.frame {task after : IndexingTask} {ctx ctx' : IndexingContext} {set : UtxoSet}
    {remaining : BlockTxs} (between : Between task ctx set remaining)
    (reads : ∀ key, UtxoByTxoRefKV.Holds key → after.getRaw key = task.getRaw key)
    (resolver : ctx'.resolver = ctx.resolver) (chained : ctx'.chainedTxos = ctx.chainedTxos) :
    Between after ctx' set remaining := by
  refine ⟨?_, ?_, ?_, ?_, between.fresh, between.null, between.distinct⟩
  · have same : ctx'.stored set = ctx.stored set := by
      funext ref
      simp only [IndexingContext.stored, chained]
    rw [same]
    exact between.stores.congr reads
  · rw [resolver]
    exact between.resolves
  · rw [chained]
    exact between.covered
  · rw [chained]
    exact between.awaited

section Step

variable {task after : IndexingTask} {ctx ctx' : IndexingContext} {set : UtxoSet}
variable {tx : TransactionWithId} {rest : BlockTxs}

theorem Between.spends_earlier (between : Between task ctx set (tx :: rest))
    (valid : ValidTx (liveRefs set) tx) {ref : TxoRef} (spent : ref ∈ tx.spends) :
    ref.txHash ∉ (tx :: rest).map TransactionWithId.txId :=
  between.fresh ref (valid.unspent ref spent)

variable {inner : IndexingContext} {middle : IndexingTask} {ref : TxoRef}

theorem IndexingContext.Consumed.produced
    (consumed : IndexingContext.Consumed ctx task tx.tx.input inner middle) (output : TxOut)
    (ref : TxoRef) : inner.produced output ref =
      ⟨output.value, output.scriptPubkey, ctx.point.height, ctx.metadataOf ref⟩ := by
  simp only [IndexingContext.produced, IndexingContext.metadataOf, consumed.metadata,
    consumed.place.point]

/-- After the inputs, what the transaction spends is gone from the table. -/
theorem Between.consumed_entry (between : Between task ctx set (tx :: rest))
    (consumed : IndexingContext.Consumed ctx task tx.tx.input inner middle) (ref : TxoRef) :
    middle.getRaw (UtxoByTxoRefKV.encodeKey ref) =
      .ok ((if ref ∈ tx.spends then none else ctx.stored set ref).map encode) := by
  by_cases member : ref ∈ tx.tx.input.map TxIn.previousOutput
  · rw [consumed.gone ref member]
    by_cases spent : ref ∈ tx.spends
    · rw [if_pos spent]
      rfl
    · rw [if_neg spent, (TransactionWithId.spends_or_null member).resolve_left spent,
        IndexingContext.stored, between.null, ite_self]
      rfl
  · have unspent : ref ∉ tx.spends := by
      intro spent
      exact member (TransactionWithId.mem_input_of_spends spent)
    rw [if_neg unspent, consumed.kept _ (by
      intro other listed same
      exact member (utxoKey_injective same ▸ listed)), between.stores.entry ref]

theorem IndexingContext.Produces.created
    (produced : IndexingContext.Produces inner middle tx tx.tx.output.zipIdx ctx' after)
    (small : tx.tx.output.length < 2 ^ 32) {output : TxOut} (made : tx.creates ref = some output)
    (outside : ref ∉ inner.chainedTxos) :
    after.getRaw (UtxoByTxoRefKV.encodeKey ref) = .ok (some (encode (inner.produced output ref))) ∧
      Fits (inner.produced output ref) := by
  rcases (TransactionWithId.creates_eq_some small).mp made with ⟨index, member, spendable, rfl⟩
  exact produced.stored (output, index) member spendable outside

theorem IndexingContext.Produces.untouched
    (produced : IndexingContext.Produces inner middle tx tx.tx.output.zipIdx ctx' after)
    (small : tx.tx.output.length < 2 ^ 32) (either : ref ∈ inner.chainedTxos ∨ tx.creates ref = none) :
    after.getRaw (UtxoByTxoRefKV.encodeKey ref) = middle.getRaw (UtxoByTxoRefKV.encodeKey ref) := by
  apply produced.kept
  intro item member spendable outside same
  have own := utxoKey_injective same
  rcases either with inside | unmade
  · rw [own] at inside
    exact outside inside
  · rw [(TransactionWithId.creates_eq_some small).mpr ⟨item.2, member, spendable, own.symm⟩] at unmade
    cases unmade

theorem Between.stores_step (between : Between task ctx set (tx :: rest))
    (valid : ValidTx (liveRefs set) tx)
    (consumed : IndexingContext.Consumed ctx task tx.tx.input inner middle)
    (produced : IndexingContext.Produces inner middle tx tx.tx.output.zipIdx ctx' after)
    (place : IndexingContext.SamePlace ctx ctx') :
    Stores after.getRaw
      (ctx'.stored (applyTx set ctx.point.height ctx.metadataOf tx)) := by
  have chained := consumed.place.chainedTxos
  constructor
  · intro ref
    rw [IndexingContext.stored, place.chainedTxos]
    by_cases inside : ref ∈ ctx.chainedTxos
    · -- chained outputs never reach the table
      rw [produced.untouched valid.small (Or.inl (by rw [chained]; exact inside)),
        between.consumed_entry consumed, IndexingContext.stored, if_pos inside, if_pos inside, ite_self]
    · cases creation : tx.creates ref with
      | some output =>
          rw [(produced.created valid.small creation (by rw [chained]; exact inside)).1,
            consumed.produced, if_neg inside, applyTx, creation]
          rfl
      | none =>
          rw [produced.untouched valid.small (Or.inr creation), between.consumed_entry consumed,
            IndexingContext.stored, if_neg inside, if_neg inside, applyTx, creation]
  · intro ref utxo found
    rw [IndexingContext.stored, place.chainedTxos] at found
    split at found
    · cases found
    · rename_i outside
      rcases applyTx_cases found with ⟨output, made, rfl⟩ | ⟨_, _, before⟩
      · rw [← consumed.produced]
        exact (produced.created valid.small made (by rw [chained]; exact outside)).2
      · apply between.stores.fits ref utxo
        rw [IndexingContext.stored, if_neg outside]
        exact before
  · intro key held unnamed
    rw [produced.kept key (by intro item _ _ _; exact unnamed _),
      consumed.kept key (by intro other _; exact unnamed _)]
    exact between.stores.rest key held unnamed

/-- Later transactions find what the transaction has created, and what it has left. -/
theorem Between.resolves_step (between : Between task ctx set (tx :: rest))
    (valid : ValidTx (liveRefs set) tx)
    (consumed : IndexingContext.Consumed ctx task tx.tx.input inner middle)
    (produced : IndexingContext.Produces inner middle tx tx.tx.output.zipIdx ctx' after)
    {other : TransactionWithId} (member : other ∈ rest) (spent : ref ∈ other.spends) {utxo : Utxo}
    (found : applyTx set ctx.point.height ctx.metadataOf tx ref = some utxo) :
    ctx'.resolver.lookup ref = some utxo := by
  have created (output : TxOut) := @TransactionWithId.creates_eq_some tx valid.small ref output
  rcases applyTx_cases found with ⟨output, made, rfl⟩ | ⟨unmade, unspent, before⟩
  · rcases (created _).mp made with ⟨index, listed, spendable, rfl⟩
    have inside := between.covered other (List.mem_cons_of_mem _ member) _ spent List.mem_cons_self
    rw [← consumed.produced]
    exact produced.chained (output, index) listed spendable
      (by rw [consumed.place.chainedTxos]; exact inside)
  · rw [produced.resolver, consumed.resolver]
    · exact between.resolves other (List.mem_cons_of_mem _ member) ref spent utxo before
    · intro listed
      rw [(TransactionWithId.spends_or_null listed).resolve_left unspent, between.null] at before
      cases before
    · rintro item listed spendable rfl
      rw [(created _).mpr ⟨item.2, listed, spendable, rfl⟩] at unmade
      cases unmade

theorem Between.awaited_step (between : Between task ctx set (tx :: rest))
    (valid : ValidTx (liveRefs set) tx) (inside : ref ∈ ctx.chainedTxos)
    (either : (applyTx set ctx.point.height ctx.metadataOf tx ref).isSome ∨
      ref.txHash ∈ rest.map TransactionWithId.txId) : ∃ other ∈ rest, ref ∈ other.spends := by
  have pending : (set ref).isSome ∧ ref ∉ tx.spends ∨
      ref.txHash ∈ (tx :: rest).map TransactionWithId.txId := by
    rcases either with live | later
    · obtain ⟨utxo, found⟩ := Option.isSome_iff_exists.mp live
      rcases applyTx_cases found with ⟨output, made, _⟩ | ⟨_, unspent, before⟩
      · rw [TransactionWithId.txHash_of_creates made]
        exact Or.inr List.mem_cons_self
      · exact Or.inl ⟨Option.isSome_iff_exists.mpr ⟨utxo, before⟩, unspent⟩
    · exact Or.inr (List.mem_cons_of_mem _ later)
  rcases between.awaited ref inside (pending.imp_left And.left) with ⟨other, member, spent⟩
  rcases List.mem_cons.mp member with rfl | later
  · rcases pending with ⟨_, unspent⟩ | unproduced
    · exact absurd spent unspent
    · exact absurd unproduced (between.spends_earlier valid spent)
  · exact ⟨other, later, spent⟩

/-- Processing a valid transaction leads to the next point between two transactions. -/
theorem Between.step {cache cache' : Option UtxoCache}
    (between : Between task ctx set (tx :: rest)) (valid : ValidTx (liveRefs set) tx)
    (success : ctx.updateUtxoSet task tx cache = (cache', .ok (ctx', after))) :
    Between after ctx' (applyTx set ctx.point.height ctx.metadataOf tx) rest ∧
      IndexingContext.SamePlace ctx ctx' := by
  simp only [IndexingContext.updateUtxoSet] at success
  split at success
  · cases success
  · rename_i inner middle consuming
    have consumed := IndexingContext.consumeInputs_consumed consuming
    have produced := IndexingContext.produceOutputs_produces
      (TransactionWithId.nodup_txoRefs valid.small) success
    have place := consumed.place.trans produced.place
    have ids := List.nodup_cons.mp between.distinct
    refine ⟨⟨between.stores_step valid consumed produced place, ?_, ?_, ?_, ?_, ?_, ids.2⟩, place⟩
    · intro other member ref spent utxo found
      exact between.resolves_step valid consumed produced member spent found
    · intro other member ref spent later
      rw [place.chainedTxos]
      exact between.covered other (List.mem_cons_of_mem _ member) ref spent
        (List.mem_cons_of_mem _ later)
    · intro ref inside either
      rw [place.chainedTxos] at inside
      exact between.awaited_step valid inside either
    · intro ref live
      obtain ⟨utxo, found⟩ := Option.isSome_iff_exists.mp live
      rcases applyTx_cases found with ⟨output, made, _⟩ | ⟨_, _, before⟩
      · rw [TransactionWithId.txHash_of_creates made]
        exact ids.1
      · intro later
        exact between.fresh ref (Option.isSome_iff_exists.mpr ⟨utxo, before⟩)
          (List.mem_cons_of_mem _ later)
    · simp only [applyTx, TransactionWithId.creates_null valid.small, between.null, ite_self]

end Step

/-! ### Resolving the inputs of a block -/

theorem ValidTxs.not_coinbase {live : TxoRef → Bool} {txs : BlockTxs}
    (valid : ValidTxs false live txs) {tx : TransactionWithId} (member : tx ∈ txs) :
    tx.tx.isCoinbase = false := by
  induction txs generalizing live with
  | nil => cases member
  | cons head rest ih =>
      rcases List.mem_cons.mp member with rfl | later
      · by_contra coinbase
        rw [Bool.not_eq_false] at coinbase
        cases valid.1 coinbase
      · exact ih valid.2.2 later

theorem mem_inputRefs {coinbase : Bool} {live : TxoRef → Bool} {txs : BlockTxs}
    (valid : ValidTxs coinbase live txs) {ref : TxoRef} :
    ref ∈ inputRefs txs ↔ ∃ tx ∈ txs, ref ∈ tx.spends := by
  have spends (rest : BlockTxs) (plain : ∀ tx ∈ rest, tx.tx.isCoinbase = false) :
      ref ∈ rest.flatMap (fun tx => tx.tx.input.map TxIn.previousOutput) ↔
        ∃ tx ∈ rest, ref ∈ tx.spends := by
    rw [List.mem_flatMap]
    apply exists_congr
    intro tx
    apply and_congr_right
    intro member
    rw [TransactionWithId.spends, plain tx member]
    rfl
  cases txs with
  | nil => simp [inputRefs]
  | cons head rest =>
      have plain : ∀ tx ∈ rest, tx.tx.isCoinbase = false := by
        intro tx member
        exact valid.2.2.not_coinbase member
      have flag : ((head :: rest).head?.map (fun tx => tx.tx.isCoinbase)).getD false =
        head.tx.isCoinbase := rfl
      simp only [inputRefs, List.mem_dedup]
      by_cases first : head.tx.isCoinbase = true
      · have none : head.spends = [] := by rw [TransactionWithId.spends, if_pos first]
        rw [if_pos (flag.trans first), List.drop_one, List.tail_cons, spends rest plain]
        simp [none]
      · rw [if_neg (by rw [flag]; exact first), List.drop_zero, spends (head :: rest)]
        intro tx member
        rcases List.mem_cons.mp member with rfl | later
        · simpa using first
        · exact plain tx later

theorem ValidTxs.spends_live {coinbase : Bool} {live : TxoRef → Bool} {txs : BlockTxs}
    (valid : ValidTxs coinbase live txs) {tx : TransactionWithId} {ref : TxoRef}
    (member : tx ∈ txs) (spent : ref ∈ tx.spends) :
    live ref = true ∨ ref.txHash ∈ txs.map TransactionWithId.txId := by
  induction txs generalizing coinbase live with
  | nil => cases member
  | cons head rest ih =>
      rcases List.mem_cons.mp member with rfl | later
      · exact Or.inl (valid.2.1.unspent ref spent)
      · rcases ih valid.2.2 later with earlier | inside
        · rw [TransactionWithId.liveAfter, Bool.or_eq_true, Bool.and_eq_true] at earlier
          rcases earlier with created | kept
          · rcases Option.isSome_iff_exists.mp created with ⟨output, creation⟩
            rw [TransactionWithId.txHash_of_creates creation]
            exact Or.inr List.mem_cons_self
          · exact Or.inl kept.1
        · exact Or.inr (List.mem_cons_of_mem _ inside)

/-- What the cache holds for an unspent output is its value. -/
def CacheSound (set : UtxoSet) (cache : Option UtxoCache) : Prop :=
  ∀ held, cache = some held → ∀ ref utxo stored, held.lookup ref = some utxo →
    set ref = some stored → stored = utxo

theorem takeCached_spec {refs : List TxoRef} (cache : UtxoCache) (resolver : HashMap TxoRef Utxo)
    (toFetch : List TxoRef) (distinct : refs.Nodup) :
    (∀ ref, (takeCached cache resolver toFetch refs).1.lookup ref =
      if ref ∈ refs then none else cache.lookup ref) ∧
    (∀ ref, (takeCached cache resolver toFetch refs).2.1.lookup ref =
      if ref ∈ refs ∧ (cache.lookup ref).isSome then cache.lookup ref else resolver.lookup ref) ∧
    (takeCached cache resolver toFetch refs).2.2 =
      toFetch ++ refs.filter (fun ref => (cache.lookup ref).isNone) := by
  induction refs generalizing cache resolver toFetch with
  | nil => simp [takeCached]
  | cons first refs ih =>
      rw [List.nodup_cons] at distinct
      cases found : cache.lookup first with
      | some utxo =>
          rcases ih (cache.erase first) (resolver.insert first utxo) toFetch distinct.2 with
            ⟨left, taken, fetch⟩
          have other (ref : TxoRef) (later : ref ∈ refs) :
              (cache.erase first).lookup ref = cache.lookup ref := by
            apply AList.lookup_erase_ne
            rintro rfl
            exact distinct.1 later
          simp only [takeCached, found]
          refine ⟨?_, ?_, ?_⟩
          · intro ref
            rw [left ref]
            by_cases same : ref = first
            · subst same
              simp [distinct.1]
            · simp [same, AList.lookup_erase_ne]
          · intro ref
            rw [taken ref]
            by_cases same : ref = first
            · subst same
              simp [distinct.1, found]
            · by_cases later : ref ∈ refs
              · simp [same, later, other ref later, AList.lookup_insert_ne]
              · simp [same, later, AList.lookup_insert_ne]
          · rw [fetch, List.filter_cons_of_neg (by simp [found])]
            congr 1
            apply List.filter_congr
            intro ref later
            rw [other ref later]
      | none =>
          rcases ih cache resolver (toFetch ++ [first]) distinct.2 with ⟨left, taken, fetch⟩
          simp only [takeCached, found]
          refine ⟨?_, ?_, ?_⟩
          · intro ref
            rw [left ref]
            by_cases same : ref = first
            · subst same
              simp [distinct.1, found]
            · simp [same]
          · intro ref
            rw [taken ref]
            by_cases same : ref = first
            · subst same
              simp [found]
            · simp [same]
          · rw [fetch, List.filter_cons_of_pos (by simp [found]), List.append_assoc]
            rfl

theorem mapM_ok {α β : Type} {step : α → Except Error β} {value : α → β} {items : List α}
    (success : ∀ item ∈ items, step item = .ok (value item)) :
    items.mapM step = .ok (items.map value) := by
  induction items with
  | nil => rfl
  | cons item items ih =>
      have rest := ih (by intro other member; exact success other (List.mem_cons_of_mem _ member))
      rw [List.mapM_cons, success item List.mem_cons_self, rest]
      rfl

theorem Stores.multiGet {task : IndexingTask} {set : UtxoSet} (stores : Stores task.getRaw set)
    (refs : List TxoRef) :
    ∃ order : List TxoRef, (∀ ref, ref ∈ order ↔ ref ∈ refs) ∧
      task.multiGet UtxoByTxoRefKV refs = .ok (order.map (fun ref => (ref, set ref))) := by
  refine ⟨_, ?_, mapM_ok (by intro ref _; rw [stores.get ref]; rfl)⟩
  intro ref
  simp only [List.mem_append, List.mem_filter, List.mem_insertionSort]
  cases task.writeBuffer.lookup (UtxoByTxoRefKV.encodeKey ref) with
  | none => simp
  | some action => simp

theorem collectFetched_spec {set : UtxoSet} {refs : List TxoRef} (resolver : HashMap TxoRef Utxo)
    (present : ∀ ref ∈ refs, (set ref).isSome) :
    ∃ found, collectFetched resolver (refs.map (fun ref => (ref, set ref))) = .ok found ∧
      ∀ ref, found.lookup ref = if ref ∈ refs then set ref else resolver.lookup ref := by
  induction refs generalizing resolver with
  | nil => exact ⟨resolver, rfl, by intro ref; rfl⟩
  | cons first refs ih =>
      rcases Option.isSome_iff_exists.mp (present first List.mem_cons_self) with ⟨utxo, stored⟩
      rcases ih (resolver.insert first utxo) (by
        intro ref member
        exact present ref (List.mem_cons_of_mem _ member)) with ⟨found, collected, lookup⟩
      refine ⟨found, ?_, ?_⟩
      · rw [List.map_cons, stored]
        exact collected
      · intro ref
        rw [lookup ref]
        by_cases later : ref ∈ refs
        · simp [later]
        · by_cases same : ref = first
          · subst same
            simp [later, stored]
          · simp [later, same, AList.lookup_insert_ne]

/-- Resolving the inputs finds every output the block spends on the chain below it, whatever
the cache holds, and takes them out of the cache. -/
theorem resolveInputs_spec {task : IndexingTask} {set : UtxoSet} {txs : BlockTxs}
    {cache : Option UtxoCache} (stores : Stores task.getRaw set) (sound : CacheSound set cache)
    (present : ∀ ref ∈ inputRefs txs, ref.txHash ∉ txs.map TransactionWithId.txId →
      (set ref).isSome) :
    ∃ cache' resolver, resolveInputs task txs cache = (cache', .ok ⟨resolver,
        (inputRefs txs).filter (fun ref => ref.txHash ∈ txs.map TransactionWithId.txId)⟩) ∧
      (∀ ref, resolver.lookup ref =
        if ref ∈ inputRefs txs ∧ ref.txHash ∉ txs.map TransactionWithId.txId then set ref
        else none) ∧
      (cache = none → cache' = none) ∧
      ∀ held, cache = some held → ∃ left, cache' = some left ∧ ∀ ref, left.lookup ref =
        if ref ∈ inputRefs txs ∧ ref.txHash ∉ txs.map TransactionWithId.txId then none
        else held.lookup ref := by
  let required := (inputRefs txs).filter (fun ref => ref.txHash ∉ txs.map TransactionWithId.txId)
  have listed (ref : TxoRef) : ref ∈ required ↔
      ref ∈ inputRefs txs ∧ ref.txHash ∉ txs.map TransactionWithId.txId := by
    simp [required]
  have distinct : required.Nodup := (List.nodup_dedup _).filter _
  rcases takeCached_spec (cache.getD ∅) ∅ [] distinct with ⟨left, taken, fetch⟩
  rcases stores.multiGet (takeCached (cache.getD ∅) ∅ [] required).2.2 with ⟨order, same, fetched⟩
  have toFetch (ref : TxoRef) :
      ref ∈ order ↔ ref ∈ required ∧ (cache.getD ∅).lookup ref = none := by
    rw [same ref, fetch]
    simp
  rcases collectFetched_spec (takeCached (cache.getD ∅) ∅ [] required).2.1 (by
    intro ref member
    have inside := (listed ref).mp ((toFetch ref).mp member).1
    exact present ref inside.1 inside.2) with ⟨resolver, collected, lookup⟩
  refine ⟨cache.map (fun _ => (takeCached (cache.getD ∅) ∅ [] required).1), resolver, ?_, ?_, ?_, ?_⟩
  · have bound : (do
        let fetched ← task.multiGet UtxoByTxoRefKV (takeCached (cache.getD ∅) ∅ [] required).2.2
        return (⟨← collectFetched (takeCached (cache.getD ∅) ∅ [] required).2.1 fetched,
          (inputRefs txs).filter (fun ref => ref.txHash ∈ txs.map TransactionWithId.txId)⟩ :
            ResolvedUtxos)) = .ok ⟨resolver, (inputRefs txs).filter
              (fun ref => ref.txHash ∈ txs.map TransactionWithId.txId)⟩ := by
      rw [fetched]
      simp only [bind, Except.bind, collected, pure, Except.pure]
    exact Prod.ext rfl bound
  · intro ref
    rw [lookup ref, taken ref]
    by_cases inside : ref ∈ required
    · rw [if_pos ((listed ref).mp inside)]
      cases cached : (cache.getD ∅).lookup ref with
      | none => rw [if_pos ((toFetch ref).mpr ⟨inside, cached⟩)]
      | some utxo =>
          rw [if_neg (by
            intro member
            rw [((toFetch ref).mp member).2] at cached
            cases cached), if_pos ⟨inside, rfl⟩]
          have bounds := (listed ref).mp inside
          rcases Option.isSome_iff_exists.mp (present ref bounds.1 bounds.2) with ⟨value, stored⟩
          cases cache with
          | none => cases cached
          | some held => rw [stored, sound held rfl ref utxo value cached stored]
    · have outside : ref ∉ order := by
        intro member
        exact inside ((toFetch ref).mp member).1
      rw [if_neg outside, if_neg (by rintro ⟨member, _⟩; exact inside member),
        if_neg (by rw [← listed]; exact inside)]
      rfl
  · rintro rfl
    rfl
  · rintro held rfl
    refine ⟨_, rfl, ?_⟩
    intro ref
    rw [left ref]
    by_cases inside : ref ∈ required
    · rw [if_pos inside, if_pos ((listed ref).mp inside)]
    · rw [if_neg inside, if_neg (by rw [← listed]; exact inside)]
      rfl

theorem IndexingContext.new_between {task : IndexingTask} {set : UtxoSet} {txs : BlockTxs}
    {cache : Option UtxoCache} {coinbase : Bool} (point : Point) (network : Network)
    (stores : Stores task.getRaw set) (sound : CacheSound set cache)
    (valid : ValidTxs coinbase (liveRefs set) txs)
    (fresh : ∀ ref, (set ref).isSome → ref.txHash ∉ txs.map TransactionWithId.txId)
    (null : set TxoRef.null = none) (distinct : (txs.map TransactionWithId.txId).Nodup) :
    ∃ cache' ctx, IndexingContext.new task txs point network cache = (cache', .ok ctx) ∧
      ctx.point = point ∧ (cache = none → cache' = none) ∧ Between task ctx set txs := by
  rcases resolveInputs_spec stores sound (by
    intro ref member outside
    rcases (mem_inputRefs valid).mp member with ⟨tx, listed, spent⟩
    exact (valid.spends_live listed spent).resolve_right outside) with
    ⟨cache', resolver, resolved, lookup, uncached, _⟩
  let ctx : IndexingContext := ⟨point, resolver, ∅, (inputRefs txs).filter
    (fun ref => ref.txHash ∈ txs.map TransactionWithId.txId), network⟩
  have chained (ref : TxoRef) : ref ∈ ctx.chainedTxos ↔
      (∃ tx ∈ txs, ref ∈ tx.spends) ∧ ref.txHash ∈ txs.map TransactionWithId.txId := by
    rw [← mem_inputRefs valid]
    simp [ctx]
  refine ⟨cache', ctx, ?_, rfl, uncached, ?_⟩
  · simp only [IndexingContext.new, resolved]
    rfl
  · refine ⟨?_, ?_, ?_, ?_, fresh, null, distinct⟩
    · have whole : ctx.stored set = set := by
        funext ref
        simp only [IndexingContext.stored]
        split
        · rename_i inside
          cases found : set ref with
          | none => rfl
          | some utxo =>
              exact absurd ((chained ref).mp inside).2 (fresh ref (by rw [found]; rfl))
        · rfl
      rw [whole]
      exact stores
    · intro tx member ref spent utxo found
      have below := fresh ref (by rw [found]; rfl)
      have listed := (mem_inputRefs valid).mpr ⟨tx, member, spent⟩
      rw [lookup ref, if_pos ⟨listed, below⟩, found]
    · intro tx member ref spent inside
      exact (chained ref).mpr ⟨⟨tx, member, spent⟩, inside⟩
    · intro ref inside _
      exact ((chained ref).mp inside).1

end Symphony
