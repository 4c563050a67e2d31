import Mathlib.Algebra.Order.BigOperators.Group.List
import Symphony.Sync.Types

/-! The weight of a transaction, which consensus limits.

The model leaves the signature scripts of the inputs out; their lengths are given. -/

namespace Symphony

open BigEndian (Byte)

def compactSize (length : Nat) : Nat :=
  if length < 253 then 1 else if length < 2 ^ 16 then 3 else if length < 2 ^ 32 then 5 else 9

def TxIn.size (scriptSig : Nat) : Nat := 40 + compactSize scriptSig + scriptSig

def TxOut.size (output : TxOut) : Nat :=
  8 + compactSize output.scriptPubkey.length + output.scriptPubkey.length

def TxIn.witnessSize (input : TxIn) : Nat :=
  compactSize input.witness.length +
    (input.witness.map (fun item => compactSize item.length + item.length)).sum

namespace Transaction

def baseSize (tx : Transaction) (scriptSigs : List Nat) : Nat :=
  8 + compactSize tx.input.length + (scriptSigs.map TxIn.size).sum + compactSize tx.output.length +
    (tx.output.map TxOut.size).sum

def witnessSize (tx : Transaction) : Nat :=
  if tx.input.all (fun input => input.witness.isEmpty) then 0
  else 2 + (tx.input.map TxIn.witnessSize).sum

def weight (tx : Transaction) (scriptSigs : List Nat) : Nat :=
  4 * tx.baseSize scriptSigs + tx.witnessSize

/-- With some signature scripts the transaction is within the limit. -/
def Light (tx : Transaction) : Prop :=
  ∃ scriptSigs : List Nat, scriptSigs.length = tx.input.length ∧ tx.weight scriptSigs ≤ 4000000

theorem Light.script_lt {tx : Transaction} (light : tx.Light) {output : TxOut}
    (member : output ∈ tx.output) : output.scriptPubkey.length < 2 ^ 32 := by
  rcases light with ⟨scriptSigs, _, limit⟩
  have part : output.size ≤ (tx.output.map TxOut.size).sum :=
    List.single_le_sum (by simp) _ (List.mem_map_of_mem member)
  rw [weight, baseSize] at limit
  rw [TxOut.size] at part
  omega

end Transaction

end Symphony
