import Symphony.Proof.RuneSupply

/-! The table of outputs with runes against the UTXO set. -/

namespace Symphony

open Encdec
open RunesIndexer

/-- The output is unspent, with the script and the height of the key, and runes are attached to it. -/
def HoldsRunes (set : UtxoSet) (key : OwnedUtxoKey) : Prop :=
  ∃ utxo, set key.txoRef = some utxo ∧ utxo.script = key.owner ∧ utxo.height = key.producedHeight ∧
    (utxo.extended.get? .runes).isSome

/-- The outputs that runes are attached to; those of OP_RETURN scripts stay. -/
def runesIndex : OutputIndex where
  files step key := ∃ output, step.tx.outputAt key.txoRef = some output ∧
    output.scriptPubkey = key.owner ∧ step.point.height = key.producedHeight ∧
      ((step.attached key.txoRef).get? .runes).isSome
  removes step key := (∃ output, step.tx.outputAt key.txoRef = some output ∧
    output.scriptPubkey = key.owner ∧ step.point.height = key.producedHeight ∧
      ((step.attached key.txoRef).get? .runes).isSome) ∧ isOpReturn key.owner = false
  own := by
    rintro step key ⟨output, found, _⟩
    exact TransactionWithId.txHash_of_outputAt (by rw [found]; rfl)
  filed _ _ := And.left
  spendable := by
    rintro step key ⟨⟨output, found, script, _⟩, plain⟩
    rw [TransactionWithId.creates_eq, found, Option.filter_some, script, plain]
    rfl

/-- The list names each of its runes once and holds some of it. -/
structure WellFormed (runes : UtxoRunes) : Prop where
  some : runes ≠ []
  distinct : (runes.map Prod.fst).Nodup
  positive : ∀ rune ∈ runes, 0 < rune.2.toNat

structure RunesIndexed (past : List IndexedTx) (runes : RuneState) : Prop where
  filed : ∀ key, runes.filed key ↔ runesIndex.Holds past key
  sound : ∀ ref utxo, unspentAfter past ref = some utxo → ∀ raw, utxo.extended.get? .runes = some raw →
    ∃ listed : UtxoRunes, decodeAll raw = .ok listed ∧ WellFormed listed

section Index

variable {indexer : RunesIndexer} {past : List IndexedTx} {step : IndexedTx} {before : RuneState}
variable {runes : RuneState} {key : OwnedUtxoKey}

theorem live_runes_iff (distinct : (past.map IndexedTx.txId).Nodup) :
    runesIndex.Live past key ↔ HoldsRunes (unspentAfter past) key := by
  constructor
  · rintro ⟨⟨step, member, ⟨output, found, script, height, attached⟩, plain⟩, live⟩
    have created : step.tx.creates key.txoRef = some output := by
      rw [TransactionWithId.creates_eq, found, Option.filter_some, script, plain]
      rfl
    exact ⟨_, unspentAfter_created distinct member created live, script, height, attached⟩
  · rintro ⟨utxo, found, script, height, attached⟩
    rcases unspentAfter_creator found with ⟨step, member, output, created, rfl⟩
    have plain : isOpReturn key.owner = false := by
      rw [← script]
      exact (unspentAfter_some found).2
    rw [TransactionWithId.creates_eq, Option.filter_eq_some_iff] at created
    exact ⟨⟨step, member, ⟨output, created.1, script, height, attached⟩, plain⟩, by rw [found]; rfl⟩

theorem holds_runes_iff (distinct : (past.map IndexedTx.txId).Nodup)
    (plain : isOpReturn key.owner = false) :
    runesIndex.Holds past key ↔ HoldsRunes (unspentAfter past) key := by
  rw [← live_runes_iff distinct, OutputIndex.not_stuck_iff distinct]
  rintro ⟨step, _, files, kept⟩
  exact kept ⟨files, plain⟩

theorem runes_of_raw {utxo : Utxo} {raw : List BigEndian.Byte} {listed : UtxoRunes}
    (attached : utxo.extended.get? .runes = some raw) (decoded : decodeAll raw = .ok listed) :
    utxo.runes = listed := by
  rw [Utxo.runes, runesOf, attached]
  simp only [decoded, liftDecoding]
  rfl

theorem RunesIndexed.runesOf_ok (indexed : RunesIndexed past before) {ref : TxoRef} {utxo : Utxo}
    (found : unspentAfter past ref = some utxo) : runesOf utxo = .ok utxo.runes := by
  cases attached : utxo.extended.get? .runes with
  | none =>
      rw [Utxo.runes, runesOf, attached]
      rfl
  | some raw =>
      rcases indexed.sound ref utxo found raw attached with ⟨listed, decoded, _⟩
      rw [runes_of_raw attached decoded, runesOf, attached]
      simp only [decoded]
      rfl

theorem RunesIndexed.spent_iff (indexed : RunesIndexed past before) {tx : TransactionWithId} :
    SpentWithRunes (unspentAfter past) tx key ↔
      key.txoRef ∈ tx.spends ∧ HoldsRunes (unspentAfter past) key := by
  apply and_congr_right
  intro _
  constructor
  · rintro ⟨utxo, found, some, same⟩
    have script := congrArg OwnedUtxoKey.owner same
    have height := congrArg OwnedUtxoKey.producedHeight same
    refine ⟨utxo, found, script.symm, height.symm, ?_⟩
    cases attached : utxo.extended.get? .runes with
    | none =>
        rw [Utxo.runes, runesOf, attached] at some
        exact absurd rfl some
    | some raw => rfl
  · rintro ⟨utxo, found, script, height, attached⟩
    obtain ⟨raw, attached⟩ := Option.isSome_iff_exists.mp attached
    rcases indexed.sound _ utxo found raw attached with ⟨listed, decoded, formed⟩
    refine ⟨utxo, found, ?_, ?_⟩
    · rw [runes_of_raw attached decoded]
      exact formed.some
    · rw [script, height]

end Index

namespace RuneCall

variable {indexer : RunesIndexer} {set : UtxoSet} {height : BlockHeight} {blockIndex : Nat}
variable {tx : TransactionWithId} {before : RuneState} {ref : TxoRef} {key : OwnedUtxoKey}
variable (call : RuneCall indexer set height blockIndex tx before)

theorem item_of_attachedTo {listed : UtxoRunes} (attached : call.attachedTo ref = some listed) :
    ∃ item ∈ call.items, item.2 = ref.txoIndex.toNat ∧
      tx.tx.output[ref.txoIndex.toNat]? = some item.1.1 ∧ item.1.2 ∈ call.allocated ∧
        outputRunes call.order item = some listed := by
  rw [attachedTo, Option.bind_eq_some_iff] at attached
  rcases attached with ⟨item, found, listing⟩
  have member := List.mem_of_getElem? found
  rw [RuneReceipts.items, List.getElem?_zipIdx, Option.map_eq_some_iff] at found
  rcases found with ⟨pair, zipped, rfl⟩
  rcases pair with ⟨output, balances⟩
  rw [List.getElem?_zip_eq_some] at zipped
  exact ⟨_, member, Nat.zero_add _, zipped.1, List.mem_of_getElem? zipped.2, listing⟩

theorem files_iff (small : tx.tx.output.length < 2 ^ 32) :
    call.Files key ↔ ∃ output, tx.outputAt key.txoRef = some output ∧
      output.scriptPubkey = key.owner ∧ height = key.producedHeight ∧
        (call.attachedTo key.txoRef).isSome := by
  constructor
  · rintro ⟨item, member, listed, rfl⟩
    have place : tx.tx.output[item.2]? = some item.1.1 := by
      rw [RuneReceipts.items, List.mem_zipIdx_iff_getElem?, List.getElem?_zip_eq_some] at member
      exact member.1
    refine ⟨item.1.1, ?_, rfl, rfl, ?_⟩
    · exact (TransactionWithId.outputAt_iff small).mpr ⟨item.2, place, rfl⟩
    · rw [call.attachedTo_item small member]
      exact listed
  · rintro ⟨output, found, script, above, attached⟩
    obtain ⟨listed, attached⟩ := Option.isSome_iff_exists.mp attached
    rcases call.item_of_attachedTo attached with ⟨item, member, place, listing, _, some⟩
    rw [TransactionWithId.outputAt_iff small] at found
    rcases found with ⟨index, at_, same⟩
    have inside := (List.getElem?_eq_some_iff.mp at_).1
    have number : key.txoRef.txoIndex.toNat = index := by
      rw [same, TransactionWithId.txoIndex_txoRef (by omega)]
    rw [number] at listing place
    rw [at_, Option.some.injEq] at listing
    refine ⟨item, member, by rw [some]; rfl, ?_⟩
    cases key
    simp only at script above same
    rw [← listing, place, script, above, same]

theorem wellFormed_attachedTo (positive : Positive call.allocated) {listed : UtxoRunes}
    (attached : call.attachedTo ref = some listed) : WellFormed listed := by
  rcases call.item_of_attachedTo attached with ⟨item, _, _, _, allocated, some⟩
  rw [outputRunes] at some
  split at some
  · cases some
  · rename_i filled
    obtain rfl := Option.some.inj some
    have perm : ((call.order item.2).iter item.1.2).Perm (RuneBalances.listed item.1.2) :=
      (call.order item.2).perm item.1.2
    constructor
    · intro empty
      rw [empty] at perm
      have nothing := List.nil_perm.mp perm
      rw [RuneBalances.listed, List.map_eq_nil_iff] at nothing
      exact filled (by rw [nothing]; rfl)
    · exact (perm.map Prod.fst).nodup_iff.mpr (RuneBalances.listed_nodup item.1.2)
    · intro rune member
      have found := RuneBalances.mem_listed.mp (perm.mem_iff.mp member)
      have held := positive item.1.2 allocated rune.1 (AList.lookup_isSome.mp (by rw [found]; rfl))
      rw [RuneBalances.amount, found] at held
      exact held

end RuneCall

section Steps

variable {indexer : RunesIndexer} {past : List IndexedTx} {step : IndexedTx} {before : RuneState}

theorem RuneRun.early {runes : RuneState} (run : RuneRun indexer past runes)
    (early : ∀ step ∈ past, step.point.height < indexer.startHeight) : runes = .empty := by
  induction run with
  | nil => rfl
  | @cons past step before after run ordered fresh valid leads ih =>
      rw [List.forall_mem_cons] at early
      cases leads with
      | idle _ _ => exact ih early.2
      | active call _ => exact absurd early.1 call.started

theorem RunesIndexed.active (indexed : RunesIndexed past before)
    (distinct : (past.map IndexedTx.txId).Nodup) (fresh : step.txId ∉ past.map IndexedTx.txId)
    (small : step.tx.tx.output.length < 2 ^ 32)
    (call : RuneCall indexer (unspentAfter past) step.point.height step.blockIndex step.tx before)
    (positive : Positive call.allocated)
    (attached : ∀ ref, ref.txHash = step.txId →
      (step.attached ref).get? .runes = (call.attachedTo ref).map encode) :
    RunesIndexed (step :: past) call.after := by
  constructor
  · intro key
    have files : call.Files key ↔ runesIndex.files step key := by
      rw [call.files_iff small]
      apply exists_congr
      intro output
      apply and_congr_right
      intro found
      have own : key.txoRef.txHash = step.txId :=
        TransactionWithId.txHash_of_outputAt (by rw [found]; rfl)
      rw [attached _ own, Option.isSome_map]
    have removed : (before.filed key ∧ ¬ SpentWithRunes (unspentAfter past) step.tx key) ↔
        (runesIndex.Holds past key ∧ ¬ (key.txoRef ∈ step.tx.spends ∧ runesIndex.Live past key)) := by
      rw [indexed.filed, indexed.spent_iff, live_runes_iff distinct]
    have after : call.after.filed key ↔
        (before.filed key ∧ ¬ SpentWithRunes (unspentAfter past) step.tx key) ∨ call.Files key := Iff.rfl
    rw [after, removed, files, OutputIndex.holds_cons distinct fresh]
  · intro ref utxo found raw data
    rcases unspentAfter_cons_cases found with ⟨output, created, rfl⟩ | ⟨_, kept⟩
    · have own := TransactionWithId.txHash_of_creates created
      have metadata : (step.attached ref).get? .runes = some raw := data
      rw [attached ref own, Option.map_eq_some_iff] at metadata
      rcases metadata with ⟨listed, listing, rfl⟩
      exact ⟨listed, decodeAll_encode listed (call.fits_attachedTo listing),
        call.wellFormed_attachedTo positive listing⟩
    · exact indexed.sound ref utxo kept raw data

theorem RunesIndexed.idle (indexed : RunesIndexed past before) (empty : before = .empty)
    (distinct : (past.map IndexedTx.txId).Nodup) (fresh : step.txId ∉ past.map IndexedTx.txId)
    (plain : ∀ ref, ref.txHash = step.txId → (step.attached ref).get? .runes = none) :
    RunesIndexed (step :: past) before := by
  constructor
  · intro key
    have files : ¬ runesIndex.files step key := by
      rintro ⟨output, found, _, _, attached⟩
      rw [plain _ (TransactionWithId.txHash_of_outputAt (by rw [found]; rfl))] at attached
      cases attached
    have nothing : ¬ before.filed key := by
      rw [empty]
      exact id
    rw [OutputIndex.holds_cons distinct fresh]
    have held := indexed.filed key
    tauto
  · intro ref utxo found raw data
    rcases unspentAfter_cons_cases found with ⟨output, created, rfl⟩ | ⟨_, kept⟩
    · have metadata : (step.attached ref).get? .runes = some raw := data
      rw [plain ref (TransactionWithId.txHash_of_creates created)] at metadata
      cases metadata
    · exact indexed.sound ref utxo kept raw data

end Steps

theorem RuneRun.indexed {indexer : RunesIndexer} {past : List IndexedTx} {runes : RuneState}
    (run : RuneRun indexer past runes) (guaranteed : indexer.ordinals.Guaranteed) :
    RunesIndexed past runes := by
  induction run with
  | nil =>
      constructor
      · intro key
        exact ⟨fun impossible => impossible.elim, fun holds => absurd holds OutputIndex.not_holds_nil⟩
      · intro ref utxo impossible
        cases impossible
  | @cons past step before after run ordered fresh valid leads ih =>
      cases leads with
      | idle early plain =>
          have below : ∀ other ∈ past, other.point.height < indexer.startHeight := by
            intro other member
            have level := ((List.pairwise_cons.mp ordered).1 other member).height_le
            rw [BitVec.lt_def] at early ⊢
            rw [BitVec.le_def] at level
            omega
          exact ih.idle (run.early below) run.distinct fresh plain
      | active call attached =>
          have supplied := run.supplied guaranteed
          have flow := call.flow guaranteed
            (supplied.total_lt guaranteed valid call (run.unknown_etched ordered call))
          exact ih.active run.distinct fresh valid.small call flow.2.1 attached

end Symphony
