import Symphony.Spec.UtxoSet

/-! The transactions of a chain in the order they are indexed, newest first. -/

namespace Symphony

def TransactionWithId.outputAt (tx : TransactionWithId) (ref : TxoRef) : Option TxOut :=
  if ref.txHash = tx.txId then tx.tx.output[ref.txoIndex.toNat]? else none

theorem TransactionWithId.txHash_of_outputAt {tx : TransactionWithId} {ref : TxoRef}
    (named : (tx.outputAt ref).isSome) : ref.txHash = tx.txId := by
  simp only [outputAt] at named
  split at named
  · assumption
  · cases named

/-- A transaction with the point and the index it was indexed at and the metadata of its block. -/
structure IndexedTx where
  point : Point
  blockIndex : Nat
  tx : TransactionWithId
  attached : TxoRef → ExtendedUtxoData

namespace IndexedTx

def txId (step : IndexedTx) : Txid := step.tx.txId

def Before (first second : IndexedTx) : Prop :=
  first.point.height < second.point.height ∨
    first.point.height = second.point.height ∧ first.blockIndex < second.blockIndex

theorem Before.height_le {first second : IndexedTx} (before : first.Before second) :
    first.point.height ≤ second.point.height := by
  rw [BitVec.le_def]
  rcases before with below | level
  · exact Nat.le_of_lt below
  · exact Nat.le_of_eq (congrArg BitVec.toNat level.1)

end IndexedTx

def unspentAfter : List IndexedTx → UtxoSet
  | [] => fun _ => none
  | step :: past => applyTx (unspentAfter past) step.point.height step.attached step.tx

def pushTxs (point : Point) (attached : TxoRef → ExtendedUtxoData) :
    List (TransactionWithId × Nat) → List IndexedTx → List IndexedTx
  | [], past => past
  | (tx, blockIndex) :: txs, past =>
      pushTxs point attached txs (⟨point, blockIndex, tx, attached⟩ :: past)

def chainTxs : List IndexedBlock → List IndexedTx
  | [] => []
  | block :: below => pushTxs block.point block.attached block.txs.zipIdx (chainTxs below)

def InOrder (txs : List IndexedTx) : Prop := txs.Pairwise (fun later earlier => earlier.Before later)

def Numbered : List IndexedBlock → Prop
  | [] => True
  | block :: below => block.point.height = BitVec.ofNat 64 (below.length + 1) ∧ Numbered below

section Push

variable {point : Point} {attached : TxoRef → ExtendedUtxoData} {past : List IndexedTx}

theorem unspentAfter_pushTxs (txs : BlockTxs) (start : Nat) :
    unspentAfter (pushTxs point attached (txs.zipIdx start) past) =
      applyTxs (unspentAfter past) point.height attached txs := by
  induction txs generalizing past start with
  | nil => rfl
  | cons tx txs ih =>
      rw [List.zipIdx_cons, pushTxs, ih]
      rfl

theorem unspentAfter_chainTxs (blocks : List IndexedBlock) :
    unspentAfter (chainTxs blocks) = unspent blocks := by
  induction blocks with
  | nil => rfl
  | cons block below ih => rw [chainTxs, unspentAfter_pushTxs, ih, unspent]

theorem mem_pushTxs {txs : List (TransactionWithId × Nat)} {step : IndexedTx} :
    step ∈ pushTxs point attached txs past ↔
      step ∈ past ∨ ∃ item ∈ txs, step = ⟨point, item.2, item.1, attached⟩ := by
  induction txs generalizing past with
  | nil => simp [pushTxs]
  | cons item txs ih =>
      rcases item with ⟨tx, blockIndex⟩
      simp only [pushTxs, ih, List.mem_cons, exists_eq_or_imp]
      tauto

theorem txIds_pushTxs {txs : List (TransactionWithId × Nat)} {id : Txid} :
    id ∈ (pushTxs point attached txs past).map IndexedTx.txId ↔
      id ∈ txs.map (fun item => item.1.txId) ∨ id ∈ past.map IndexedTx.txId := by
  induction txs generalizing past with
  | nil => simp [pushTxs]
  | cons item txs ih =>
      rcases item with ⟨tx, blockIndex⟩
      simp only [pushTxs, ih, List.map_cons, List.mem_cons, IndexedTx.txId]
      tauto

theorem txIds_chainTxs {blocks : List IndexedBlock} {id : Txid} :
    id ∈ (chainTxs blocks).map IndexedTx.txId ↔ id ∈ blocks.flatMap IndexedBlock.txIds := by
  induction blocks with
  | nil => simp [chainTxs]
  | cons block below ih =>
      have ids : block.txs.zipIdx.map (fun item => item.1.txId) = block.txIds := by
        calc block.txs.zipIdx.map (fun item => item.1.txId)
            = (block.txs.zipIdx.map Prod.fst).map TransactionWithId.txId := by
              rw [List.map_map]
              rfl
          _ = block.txIds := by rw [List.zipIdx_map_fst, IndexedBlock.txIds]
      rw [chainTxs, txIds_pushTxs, ids, ih, List.flatMap_cons, List.mem_append]

end Push

theorem InOrder.push {point : Point} {attached : TxoRef → ExtendedUtxoData} {past : List IndexedTx}
    {txs : BlockTxs} {start : Nat} (ordered : InOrder past)
    (below : ∀ step ∈ past, step.point.height < point.height ∨
      step.point.height = point.height ∧ step.blockIndex < start) :
    InOrder (pushTxs point attached (txs.zipIdx start) past) := by
  induction txs generalizing past start with
  | nil => exact ordered
  | cons tx txs ih =>
      rw [List.zipIdx_cons, pushTxs]
      apply ih
      · exact List.pairwise_cons.mpr ⟨below, ordered⟩
      · intro step member
        rcases List.mem_cons.mp member with rfl | old
        · exact Or.inr ⟨rfl, Nat.lt_succ_self start⟩
        · exact (below step old).imp_right (fun same => ⟨same.1, Nat.lt_succ_of_lt same.2⟩)

theorem Numbered.inOrder {blocks : List IndexedBlock} (numbered : Numbered blocks)
    (fits : blocks.length < 2 ^ 64) :
    InOrder (chainTxs blocks) ∧
      ∀ step ∈ chainTxs blocks, step.point.height.toNat ≤ blocks.length := by
  induction blocks with
  | nil =>
      constructor
      · exact List.Pairwise.nil
      · intro step member
        cases member
  | cons block below ih =>
      rw [List.length_cons] at fits
      rcases ih numbered.2 (by omega) with ⟨ordered, heights⟩
      have height : block.point.height.toNat = below.length + 1 := by
        rw [numbered.1, BitVec.toNat_ofNat, Nat.mod_eq_of_lt fits]
      constructor
      · apply ordered.push
        intro step member
        have old := heights step member
        exact Or.inl (BitVec.lt_def.mpr (by omega))
      · intro step member
        rw [chainTxs, mem_pushTxs] at member
        rw [List.length_cons]
        rcases member with old | ⟨item, _, rfl⟩
        · have lower := heights step old
          omega
        · exact le_of_eq height

theorem TransactionWithId.creates_eq (tx : TransactionWithId) (ref : TxoRef) :
    tx.creates ref = (tx.outputAt ref).filter (fun output => !isOpReturn output.scriptPubkey) := by
  simp only [creates, outputAt]
  split
  · rfl
  · rfl

theorem TransactionWithId.outputAt_iff {tx : TransactionWithId}
    (small : tx.tx.output.length < 2 ^ 32) {ref : TxoRef} {output : TxOut} :
    tx.outputAt ref = some output ↔ ∃ index, tx.tx.output[index]? = some output ∧ ref = tx.txoRef index := by
  constructor
  · intro found
    rw [outputAt] at found
    split at found
    · rename_i hash
      exact ⟨ref.txoIndex.toNat, found, (txoRef_txoIndex hash).symm⟩
    · cases found
  · rintro ⟨index, listed, rfl⟩
    have inside := (List.getElem?_eq_some_iff.mp listed).1
    rw [outputAt, if_pos (show (tx.txoRef index).txHash = tx.txId from rfl),
      txoIndex_txoRef (by omega)]
    exact listed

theorem unspentAfter_some {past : List IndexedTx} {ref : TxoRef} {utxo : Utxo}
    (found : unspentAfter past ref = some utxo) :
    ref.txHash ∈ past.map IndexedTx.txId ∧ isOpReturn utxo.script = false := by
  induction past with
  | nil => cases found
  | cons step past ih =>
      rcases applyTx_cases found with ⟨output, created, rfl⟩ | ⟨_, _, before⟩
      · have hash := TransactionWithId.txHash_of_creates created
        rw [TransactionWithId.creates_eq, Option.filter_eq_some_iff] at created
        constructor
        · rw [hash, List.map_cons]
          exact List.mem_cons_self
        · simpa using created.2
      · rcases ih before with ⟨listed, plain⟩
        exact ⟨List.mem_cons_of_mem _ listed, plain⟩

end Symphony
