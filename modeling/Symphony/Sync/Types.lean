import Symphony.Storage.Encdec

/-! Chain data: the parts of `bitcoin`'s types the indexer reads, and the types of
`sync/stages/mod.rs` and `sync/stages/index/indexers/types.rs`. -/

namespace Symphony

open BigEndian (Byte)
open Encdec

abbrev BlockHash := Bytes32
abbrev Txid := Bytes32
abbrev BlockHeight := U64
abbrev ScriptPubKey := List Byte

def u64Max : U64 := BitVec.allOnes 64
def u32Max : U32 := BitVec.allOnes 32

structure Point where
  height : BlockHeight
  hash : BlockHash
  deriving DecidableEq

/-- A transaction output reference; `bitcoin::OutPoint` has the same two fields. -/
structure TxoRef where
  txHash : Txid
  txoIndex : U32
  deriving DecidableEq

instance : Codec TxoRef where
  encode ref := encode ref.txHash ++ encode ref.txoIndex
  decode bytes := do
    let (txHash, bytes) ← (decode bytes : Except DecodingError (Txid × List Byte))
    let (txoIndex, bytes) ← (decode bytes : Except DecodingError (U32 × List Byte))
    return (⟨txHash, txoIndex⟩, bytes)
  Fits _ := True
  decode_encode ref rest _ := by
    have hash := decode_encode ref.txHash (encode ref.txoIndex ++ rest) trivial
    have index := decode_encode ref.txoIndex rest trivial
    simp only [List.append_assoc, hash, index, bind, Except.bind, pure, Except.pure]

/-- `OutPoint::null`, the previous output of a coinbase input. -/
def TxoRef.null : TxoRef := ⟨List.Vector.replicate 32 0, u32Max⟩

structure TxIn where
  previousOutput : TxoRef
  witness : List (List Byte)
  deriving DecidableEq

structure TxOut where
  value : U64
  scriptPubkey : ScriptPubKey
  deriving DecidableEq

structure Transaction where
  input : List TxIn
  output : List TxOut
  deriving DecidableEq

def opReturn : Byte := 0x6a

def isOpReturn (script : ScriptPubKey) : Bool := script.head? = some opReturn

def Transaction.isCoinbase (tx : Transaction) : Bool :=
  match tx.input with
  | [only] => only.previousOutput = TxoRef.null
  | _ => false

structure TransactionWithId where
  txId : Txid
  tx : Transaction
  deriving DecidableEq

abbrev BlockTxs := List TransactionWithId

def TransactionWithId.txoRef (tx : TransactionWithId) (index : Nat) : TxoRef :=
  ⟨tx.txId, BitVec.ofNat 32 index⟩

namespace TransactionWithId

theorem txoIndex_txoRef {tx : TransactionWithId} {index : Nat} (small : index < 2 ^ 32) :
    (tx.txoRef index).txoIndex.toNat = index := by
  rw [txoRef, BitVec.toNat_ofNat, Nat.mod_eq_of_lt small]

theorem txoRef_txoIndex {tx : TransactionWithId} {ref : TxoRef} (own : ref.txHash = tx.txId) :
    tx.txoRef ref.txoIndex.toNat = ref := by
  rcases ref with ⟨txHash, txoIndex⟩
  rw [txoRef, BitVec.ofNat_toNat, BitVec.setWidth_eq, TxoRef.mk.injEq]
  exact ⟨own.symm, rfl⟩

end TransactionWithId

/-- A block header: the parent's hash and the bytes of the other fields. -/
structure Header where
  prevBlockhash : BlockHash
  fields : List Byte
  deriving DecidableEq

structure MempoolSnapshotInfo where
  timestamp : U64
  tip : BlockHash
  deriving DecidableEq

inductive ChainEvent where
  | rollForward (point : Point) (header : Header) (txs : BlockTxs) (tip : Point)
  | rollBack (point : Point)
  | mempoolBlocks (info : MempoolSnapshotInfo) (blocks : List BlockTxs)
  deriving DecidableEq

inductive Network where
  | mainnet
  | testnet4
  | regtest
  deriving DecidableEq

inductive TransactionIndexer where
  | txCountByAddress
  | runes
  | utxosByAddress
  | charms
  deriving DecidableEq, Repr

namespace TransactionIndexer

def kind : TransactionIndexer → Byte
  | .txCountByAddress => 0
  | .runes => 1
  | .utxosByAddress => 2
  | .charms => 3

instance : Codec TransactionIndexer where
  encode indexer := [indexer.kind]
  decode
    | [] => malformedInput "enum insufficient bytes" []
    | byte :: rest => match byte with
        | 0 => .ok (.txCountByAddress, rest)
        | 1 => .ok (.runes, rest)
        | 2 => .ok (.utxosByAddress, rest)
        | 3 => .ok (.charms, rest)
        | _ => .error (.invalidEnumKind rest)
  Fits _ := True
  decode_encode indexer rest _ := by cases indexer <;> rfl

end TransactionIndexer

abbrev ExtendedUtxoData := IndexMap TransactionIndexer (List Byte)

structure Utxo where
  satoshis : U64
  script : ScriptPubKey
  height : U64
  extended : ExtendedUtxoData
  deriving DecidableEq

instance : Codec Utxo where
  encode utxo := encode utxo.satoshis ++ encode utxo.script ++ encode utxo.height ++
    encode utxo.extended
  decode bytes := do
    let (satoshis, bytes) ← (decode bytes : Except DecodingError (U64 × List Byte))
    let (script, bytes) ← (decode bytes : Except DecodingError (List Byte × List Byte))
    let (height, bytes) ← (decode bytes : Except DecodingError (U64 × List Byte))
    let (extended, bytes) ← (decode bytes : Except DecodingError (ExtendedUtxoData × List Byte))
    return (⟨satoshis, script, height, extended⟩, bytes)
  Fits utxo := Fits utxo.script ∧ Fits utxo.extended
  decode_encode utxo rest fits := by
    have satoshis := decode_encode utxo.satoshis
      (encode utxo.script ++ (encode utxo.height ++ (encode utxo.extended ++ rest))) trivial
    have script := decode_encode utxo.script
      (encode utxo.height ++ (encode utxo.extended ++ rest)) fits.1
    have height := decode_encode utxo.height (encode utxo.extended ++ rest) trivial
    have extended := decode_encode utxo.extended rest fits.2
    simp only [List.append_assoc, satoshis, script, height, extended, bind, Except.bind, pure,
      Except.pure]

/-- The failures of `error.rs` that the modelled functions return; `panicked` stands for
an `unwrap`, `expect` or `panic!` that fires. -/
inductive Error where
  | decoding (failure : DecodingError)
  | rocks (message : String)
  | rollback (point : Point)
  | missingUtxo (ref : TxoRef)
  | panicked (message : String)
  deriving DecidableEq

def liftDecoding {α : Type} (result : Except DecodingError α) : Except Error α :=
  match result with
  | .ok value => .ok value
  | .error failure => .error (.decoding failure)

theorem liftDecoding_ok {α : Type} {result : Except DecodingError α} {value : α} :
    liftDecoding result = .ok value ↔ result = .ok value := by
  cases result with
  | error failure => simp [liftDecoding]
  | ok other => simp [liftDecoding]

end Symphony
