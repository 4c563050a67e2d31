import Symphony.Sync.Types

/-! The UTXO set of a chain, stated without the indexer: what the transactions of the blocks
create and spend, and which chains are valid. -/

namespace Symphony

open Encdec

abbrev UtxoSet := TxoRef → Option Utxo

namespace TransactionWithId

def spends (tx : TransactionWithId) : List TxoRef :=
  if tx.tx.isCoinbase then [] else tx.tx.input.map TxIn.previousOutput

def creates (tx : TransactionWithId) (ref : TxoRef) : Option TxOut :=
  if ref.txHash = tx.txId then
    tx.tx.output[ref.txoIndex.toNat]?.filter (fun output => !isOpReturn output.scriptPubkey)
  else none

def liveAfter (tx : TransactionWithId) (live : TxoRef → Bool) (ref : TxoRef) : Bool :=
  (tx.creates ref).isSome || (live ref && !decide (ref ∈ tx.spends))

theorem txHash_of_creates {tx : TransactionWithId} {ref : TxoRef} {output : TxOut}
    (created : tx.creates ref = some output) : ref.txHash = tx.txId := by
  simp only [creates] at created
  split at created
  · assumption
  · cases created

end TransactionWithId

/-- A block of the chain with the metadata attached to its outputs. -/
structure IndexedBlock where
  point : Point
  txs : BlockTxs
  attached : TxoRef → ExtendedUtxoData

def applyTx (set : UtxoSet) (height : BlockHeight) (attached : TxoRef → ExtendedUtxoData)
    (tx : TransactionWithId) : UtxoSet :=
  fun ref => match tx.creates ref with
    | some output => some ⟨output.value, output.scriptPubkey, height, attached ref⟩
    | none => if ref ∈ tx.spends then none else set ref

def applyTxs (set : UtxoSet) (height : BlockHeight) (attached : TxoRef → ExtendedUtxoData)
    (txs : BlockTxs) : UtxoSet :=
  txs.foldl (fun current tx => applyTx current height attached tx) set

def unspent : List IndexedBlock → UtxoSet
  | [] => fun _ => none
  | block :: below => applyTxs (unspent below) block.point.height block.attached block.txs

/-- The block as it was fed, without what the indexers made of it. -/
def IndexedBlock.content (block : IndexedBlock) : Point × BlockTxs := (block.point, block.txs)

def IndexedBlock.txIds (block : IndexedBlock) : List Txid := block.txs.map TransactionWithId.txId

/-- Every input spends an unspent output, no two the same one. The number of outputs is bounded
by the size of a block. -/
structure ValidTx (live : TxoRef → Bool) (tx : TransactionWithId) : Prop where
  distinct : tx.spends.Nodup
  unspent : ∀ ref ∈ tx.spends, live ref = true
  small : tx.tx.output.length < 2 ^ 32

instance (live : TxoRef → Bool) (tx : TransactionWithId) : Decidable (ValidTx live tx) :=
  decidable_of_iff (tx.spends.Nodup ∧ (∀ ref ∈ tx.spends, live ref = true) ∧
    tx.tx.output.length < 2 ^ 32)
    ⟨fun ⟨distinct, live, small⟩ => ⟨distinct, live, small⟩,
      fun valid => ⟨valid.distinct, valid.unspent, valid.small⟩⟩

/-- Transactions valid one after the other; only the first may be a coinbase, if any. -/
def ValidTxs (coinbase : Bool) (live : TxoRef → Bool) : BlockTxs → Prop
  | [] => True
  | tx :: txs => (tx.tx.isCoinbase = true → coinbase = true) ∧ ValidTx live tx ∧
      ValidTxs false (tx.liveAfter live) txs

instance decidableValidTxs (coinbase : Bool) (live : TxoRef → Bool) :
    (txs : BlockTxs) → Decidable (ValidTxs coinbase live txs)
  | [] => inferInstanceAs (Decidable True)
  | tx :: txs =>
      have := decidableValidTxs false (tx.liveAfter live) txs
      inferInstanceAs (Decidable (_ ∧ _ ∧ _))

def liveRefs (set : UtxoSet) (ref : TxoRef) : Bool := (set ref).isSome

/-- Blocks on top of `base`, newest first, each valid on those below it. -/
def ValidBlocks (coinbase : Bool) (base : List IndexedBlock) : List IndexedBlock → Prop
  | [] => True
  | block :: below => ValidTxs coinbase (liveRefs (unspent (below ++ base))) block.txs ∧
      ValidBlocks coinbase base below

instance decidableValidBlocks (coinbase : Bool) (base : List IndexedBlock) :
    (blocks : List IndexedBlock) → Decidable (ValidBlocks coinbase base blocks)
  | [] => inferInstanceAs (Decidable True)
  | _ :: below =>
      have := decidableValidBlocks coinbase base below
      inferInstanceAs (Decidable (_ ∧ _))

/-- The confirmed blocks and the pseudo blocks of a mempool snapshot on top of them, both
newest first. -/
structure History where
  confirmed : List IndexedBlock
  snapshot : List IndexedBlock

def History.blocks (history : History) : List IndexedBlock := history.snapshot ++ history.confirmed

/-- A valid chain, with a snapshot of valid transactions on top: no transaction id repeats, and
mempool transactions are no coinbases. -/
structure History.Valid (history : History) : Prop where
  distinct : (history.blocks.flatMap IndexedBlock.txIds).Nodup
  confirmed : ValidBlocks true [] history.confirmed
  snapshot : ValidBlocks false history.confirmed history.snapshot

structure ValidOn (coinbase : Bool) (chain : List IndexedBlock) (txs : BlockTxs) : Prop where
  base : History.Valid ⟨chain, []⟩
  valid : ValidTxs coinbase (liveRefs (unspent chain)) txs
  distinct : (txs.map TransactionWithId.txId ++ chain.flatMap IndexedBlock.txIds).Nodup

section Live

variable {set : UtxoSet} {height : BlockHeight} {attached : TxoRef → ExtendedUtxoData}

/-- An unspent output is of the transaction, or was there and is not spent by it. -/
theorem applyTx_cases {tx : TransactionWithId} {ref : TxoRef} {utxo : Utxo}
    (found : applyTx set height attached tx ref = some utxo) :
    (∃ output, tx.creates ref = some output ∧
      utxo = ⟨output.value, output.scriptPubkey, height, attached ref⟩) ∨
    tx.creates ref = none ∧ ref ∉ tx.spends ∧ set ref = some utxo := by
  rw [applyTx] at found
  cases created : tx.creates ref with
  | some output =>
      simp only [created, Option.some.injEq] at found
      exact Or.inl ⟨output, rfl, found.symm⟩
  | none =>
      simp only [created] at found
      split at found
      · cases found
      · rename_i unspent
        exact Or.inr ⟨rfl, unspent, found⟩

theorem liveRefs_applyTx (tx : TransactionWithId) :
    liveRefs (applyTx set height attached tx) = tx.liveAfter (liveRefs set) := by
  funext ref
  simp only [liveRefs, applyTx, TransactionWithId.liveAfter]
  cases tx.creates ref with
  | some output => rfl
  | none =>
      by_cases spent : ref ∈ tx.spends
      · simp [spent]
      · simp [spent]

theorem validTxs_append {coinbase : Bool} {live : TxoRef → Bool} {first second : BlockTxs}
    (valid : ValidTxs coinbase live first)
    (more : ValidTxs false (first.foldl (fun current tx => tx.liveAfter current) live) second) :
    ValidTxs coinbase live (first ++ second) := by
  induction first generalizing coinbase live with
  | nil =>
      cases second with
      | nil => trivial
      | cons tx txs =>
          refine ⟨?_, more.2⟩
          intro isCoinbase
          cases more.1 isCoinbase
  | cons tx txs ih => exact ⟨valid.1, valid.2.1, ih valid.2.2 more⟩

theorem liveRefs_applyTxs (txs : BlockTxs) :
    liveRefs (applyTxs set height attached txs) =
      txs.foldl (fun current tx => tx.liveAfter current) (liveRefs set) := by
  induction txs generalizing set with
  | nil => rfl
  | cons tx txs ih =>
      calc liveRefs (applyTxs set height attached (tx :: txs))
          = liveRefs (applyTxs (applyTx set height attached tx) height attached txs) := rfl
        _ = txs.foldl (fun current tx => tx.liveAfter current)
              (liveRefs (applyTx set height attached tx)) := ih
        _ = (tx :: txs).foldl (fun current tx => tx.liveAfter current) (liveRefs set) := by
            rw [liveRefs_applyTx, List.foldl_cons]

theorem ValidTxs.drop {coinbase : Bool} {first second : BlockTxs}
    (valid : ValidTxs coinbase (liveRefs set) (first ++ second)) (some : first ≠ [] ∨ coinbase = false) :
    ValidTxs false (liveRefs (applyTxs set height attached first)) second := by
  induction first generalizing coinbase set with
  | nil =>
      rw [some.resolve_left (by simp)] at valid
      exact valid
  | cons tx txs ih =>
      have rest : ValidTxs false (liveRefs (applyTx set height attached tx)) (txs ++ second) := by
        rw [liveRefs_applyTx]
        exact valid.2.2
      exact ih rest (Or.inr rfl)

end Live

theorem txHash_mem_of_applyTxs {set : UtxoSet} {height : BlockHeight}
    {attached : TxoRef → ExtendedUtxoData} {txs : BlockTxs} {ref : TxoRef}
    (live : (applyTxs set height attached txs ref).isSome) :
    (set ref).isSome ∨ ref.txHash ∈ txs.map TransactionWithId.txId := by
  induction txs generalizing set with
  | nil => exact Or.inl live
  | cons tx txs ih =>
      rcases ih live with earlier | later
      · obtain ⟨utxo, found⟩ := Option.isSome_iff_exists.mp earlier
        rcases applyTx_cases found with ⟨output, created, _⟩ | ⟨_, _, before⟩
        · rw [TransactionWithId.txHash_of_creates created, List.map_cons]
          exact Or.inr List.mem_cons_self
        · exact Or.inl (Option.isSome_iff_exists.mpr ⟨utxo, before⟩)
      · exact Or.inr (List.mem_cons_of_mem _ later)

theorem txHash_mem_of_unspent {blocks : List IndexedBlock} {ref : TxoRef}
    (live : (unspent blocks ref).isSome) : ref.txHash ∈ blocks.flatMap IndexedBlock.txIds := by
  induction blocks with
  | nil => cases live
  | cons block below ih =>
      rw [List.flatMap_cons, List.mem_append]
      rcases txHash_mem_of_applyTxs live with earlier | later
      · exact Or.inr (ih earlier)
      · exact Or.inl later

/-! The transactions of a chain that have a script. -/

def TransactionWithId.Involves (tx : TransactionWithId) (set : UtxoSet) (script : ScriptPubKey) :
    Prop :=
  (∃ ref ∈ tx.spends, (set ref).map Utxo.script = some script) ∨
    ∃ output ∈ tx.tx.output, output.scriptPubkey = script

instance (tx : TransactionWithId) (set : UtxoSet) (script : ScriptPubKey) :
    Decidable (tx.Involves set script) :=
  inferInstanceAs (Decidable (_ ∨ _))

def involving (script : ScriptPubKey) (set : UtxoSet) (height : BlockHeight)
    (attached : TxoRef → ExtendedUtxoData) : BlockTxs → Nat
  | [] => 0
  | tx :: txs => (if tx.Involves set script then 1 else 0) +
      involving script (applyTx set height attached tx) height attached txs

def txCount (script : ScriptPubKey) : List IndexedBlock → Nat
  | [] => 0
  | block :: below =>
      involving script (unspent below) block.point.height block.attached block.txs +
        txCount script below

theorem involving_congr {script : ScriptPubKey} {set other : UtxoSet}
    (same : ∀ ref, (set ref).map Utxo.script = (other ref).map Utxo.script)
    (height height' : BlockHeight) (attached attached' : TxoRef → ExtendedUtxoData)
    (txs : BlockTxs) :
    involving script set height attached txs = involving script other height' attached' txs := by
  induction txs generalizing set other with
  | nil => rfl
  | cons tx txs ih =>
      have head : tx.Involves set script ↔ tx.Involves other script := by
        simp only [TransactionWithId.Involves, same]
      have next (ref : TxoRef) : (applyTx set height attached tx ref).map Utxo.script =
          (applyTx other height' attached' tx ref).map Utxo.script := by
        simp only [applyTx]
        cases tx.creates ref with
        | some output => rfl
        | none =>
            by_cases spent : ref ∈ tx.spends
            · simp [spent]
            · simp [spent, same]
      simp only [involving, head]
      rw [ih next]

end Symphony
