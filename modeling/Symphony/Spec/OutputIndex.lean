import Symphony.Spec.TxHistory
import Symphony.Sync.CustomTables

/-! Indices of outputs, stated without the tables.

An output is filed under keys of its own when its transaction is indexed, and some of these keys
are removed when it is spent. A key that is not removed stays for good. -/

namespace Symphony

def IndexedTx.utxo (step : IndexedTx) (output : TxOut) (ref : TxoRef) : Utxo :=
  ⟨output.value, output.scriptPubkey, step.point.height, step.attached ref⟩

section Creators

variable {past : List IndexedTx} {step : IndexedTx} {ref : TxoRef} {utxo : Utxo} {output : TxOut}

theorem unspentAfter_cons_created (created : step.tx.creates ref = some output) :
    unspentAfter (step :: past) ref = some (step.utxo output ref) := by
  simp only [unspentAfter, applyTx, created]
  rfl

theorem unspentAfter_cons_foreign (foreign : step.tx.creates ref = none) :
    unspentAfter (step :: past) ref =
      if ref ∈ step.tx.spends then none else unspentAfter past ref := by
  simp only [unspentAfter, applyTx, foreign]

theorem unspentAfter_cons_cases (found : unspentAfter (step :: past) ref = some utxo) :
    (∃ output, step.tx.creates ref = some output ∧ utxo = step.utxo output ref) ∨
      step.tx.creates ref = none ∧ unspentAfter past ref = some utxo := by
  rcases applyTx_cases found with own | ⟨foreign, _, before⟩
  · exact Or.inl own
  · exact Or.inr ⟨foreign, before⟩

theorem unspentAfter_creator (found : unspentAfter past ref = some utxo) :
    ∃ step ∈ past, ∃ output, step.tx.creates ref = some output ∧ utxo = step.utxo output ref := by
  induction past with
  | nil => cases found
  | cons step past ih =>
      rcases unspentAfter_cons_cases found with own | ⟨_, before⟩
      · exact ⟨step, List.mem_cons_self, own⟩
      · rcases ih before with ⟨earlier, member, created⟩
        exact ⟨earlier, List.mem_cons_of_mem _ member, created⟩

theorem IndexedTx.eq_of_txId {first second : IndexedTx} (distinct : (past.map IndexedTx.txId).Nodup)
    (left : first ∈ past) (right : second ∈ past) (same : first.txId = second.txId) :
    first = second :=
  List.inj_on_of_nodup_map distinct left right same

theorem unspentAfter_created (distinct : (past.map IndexedTx.txId).Nodup) (member : step ∈ past)
    (created : step.tx.creates ref = some output) (live : (unspentAfter past ref).isSome) :
    unspentAfter past ref = some (step.utxo output ref) := by
  obtain ⟨utxo, found⟩ := Option.isSome_iff_exists.mp live
  rcases unspentAfter_creator found with ⟨other, inside, made, created', rfl⟩
  have ids : other.txId = step.txId :=
    (TransactionWithId.txHash_of_creates created').symm.trans
      (TransactionWithId.txHash_of_creates created)
  obtain rfl := IndexedTx.eq_of_txId distinct inside member ids
  rw [created, Option.some.injEq] at created'
  rw [found, created']

end Creators

/-- The keys an index files for a step of a chain, and those of them that it removes when their
output is spent. -/
structure OutputIndex where
  files : IndexedTx → OwnedUtxoKey → Prop
  removes : IndexedTx → OwnedUtxoKey → Prop
  own : ∀ step key, files step key → key.txoRef.txHash = step.txId
  filed : ∀ step key, removes step key → files step key
  spendable : ∀ step key, removes step key → (step.tx.creates key.txoRef).isSome

namespace OutputIndex

variable (index : OutputIndex) (past : List IndexedTx) (key : OwnedUtxoKey)

/-- The key is of an unspent output and goes with it. -/
def Live : Prop := (∃ step ∈ past, index.removes step key) ∧ (unspentAfter past key.txoRef).isSome

/-- The key stays for good. -/
def Stuck : Prop := ∃ step ∈ past, index.files step key ∧ ¬ index.removes step key

def Holds : Prop := index.Live past key ∨ index.Stuck past key

variable {index past key}

theorem Live.not_stuck (distinct : (past.map IndexedTx.txId).Nodup) (live : index.Live past key) :
    ¬ index.Stuck past key := by
  rintro ⟨other, inside, files, kept⟩
  rcases live.1 with ⟨step, member, removes⟩
  have ids : other.txId = step.txId :=
    (index.own other key files).symm.trans (index.own step key (index.filed step key removes))
  rw [IndexedTx.eq_of_txId distinct inside member ids] at kept
  exact kept removes

theorem not_stuck_iff (distinct : (past.map IndexedTx.txId).Nodup) :
    (index.Holds past key ↔ index.Live past key) ↔ ¬ index.Stuck past key := by
  have apart := @Live.not_stuck index past key distinct
  simp only [Holds]
  tauto

theorem Holds.step (holds : index.Holds past key) : ∃ step ∈ past, index.files step key := by
  rcases holds with ⟨⟨step, member, removes⟩, _⟩ | ⟨step, member, files, _⟩
  · exact ⟨step, member, index.filed step key removes⟩
  · exact ⟨step, member, files⟩

theorem not_holds_nil : ¬ index.Holds [] key := by
  rintro (⟨⟨_, member, _⟩, _⟩ | ⟨_, member, _⟩)
  · cases member
  · cases member

theorem holds_cons {step : IndexedTx} (distinct : (past.map IndexedTx.txId).Nodup)
    (fresh : step.txId ∉ past.map IndexedTx.txId) :
    index.Holds (step :: past) key ↔
      (index.Holds past key ∧ ¬ (key.txoRef ∈ step.tx.spends ∧ index.Live past key)) ∨
        index.files step key := by
  by_cases own : key.txoRef.txHash = step.txId
  · -- a key of this transaction: none before it has the hash
    have foreign (other : IndexedTx) (member : other ∈ past) : ¬ index.files other key := by
      intro files
      apply fresh
      rw [← own, index.own other key files]
      exact List.mem_map_of_mem member
    have before : ¬ index.Holds past key := by
      rintro (⟨⟨other, member, removes⟩, _⟩ | ⟨other, member, files, _⟩)
      · exact foreign other member (index.filed other key removes)
      · exact foreign other member files
    have after : index.Holds (step :: past) key ↔ index.files step key := by
      constructor
      · rintro (⟨⟨other, member, removes⟩, _⟩ | ⟨other, member, files, _⟩)
        · rcases List.mem_cons.mp member with rfl | old
          · exact index.filed other key removes
          · exact absurd (index.filed other key removes) (foreign other old)
        · rcases List.mem_cons.mp member with rfl | old
          · exact files
          · exact absurd files (foreign other old)
      · intro files
        by_cases removes : index.removes step key
        · have created := index.spendable step key removes
          refine Or.inl ⟨⟨step, List.mem_cons_self, removes⟩, ?_⟩
          cases found : step.tx.creates key.txoRef with
          | none =>
              rw [found] at created
              cases created
          | some output =>
              rw [unspentAfter_cons_created found]
              rfl
        · exact Or.inr ⟨step, List.mem_cons_self, files, removes⟩
    rw [after]
    tauto
  · have nothing : step.tx.creates key.txoRef = none := by
      cases created : step.tx.creates key.txoRef with
      | none => rfl
      | some output => exact absurd (TransactionWithId.txHash_of_creates created) own
    have files : ¬ index.files step key := fun files => own (index.own step key files)
    have removes : ¬ index.removes step key := fun removes => files (index.filed step key removes)
    have unspent : (unspentAfter (step :: past) key.txoRef).isSome ↔
        key.txoRef ∉ step.tx.spends ∧ (unspentAfter past key.txoRef).isSome := by
      rw [unspentAfter_cons_foreign nothing]
      by_cases spent : key.txoRef ∈ step.tx.spends
      · simp [spent]
      · simp [spent]
    have live : index.Live (step :: past) key ↔
        key.txoRef ∉ step.tx.spends ∧ index.Live past key := by
      simp only [Live, unspent, List.exists_mem_cons_iff, removes, false_or]
      tauto
    have stuck : index.Stuck (step :: past) key ↔ index.Stuck past key := by
      simp only [Stuck, List.exists_mem_cons_iff, files, false_and, false_or]
    have apart := @Live.not_stuck index past key distinct
    simp only [Holds, live, stuck, files, or_false]
    tauto

end OutputIndex

end Symphony
