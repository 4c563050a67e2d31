import Symphony.Storage.Encdec

/-! Counter merge operations (`storage/merge_operation.rs`). -/

namespace Symphony

open BigEndian (Byte)
open Encdec

def saturatingAdd (first second : U128) : U128 :=
  if first.toNat + second.toNat < 2 ^ 128 then first + second else BitVec.allOnes 128

def saturatingSub {width : Nat} (first second : BitVec width) : BitVec width :=
  if second ≤ first then first - second else 0

theorem toNat_saturatingSub {width : Nat} (first second : BitVec width) :
    (saturatingSub first second).toNat = first.toNat - second.toNat := by
  rw [saturatingSub]
  split
  · rename_i below
    exact BitVec.toNat_sub_of_le below
  · rename_i above
    rw [BitVec.le_def] at above
    have none : (0 : BitVec width).toNat = 0 := BitVec.toNat_zero
    omega

inductive MergeOperation where
  | increment (amount : U128)
  | decrement (amount : U128)
  deriving DecidableEq, Repr

namespace MergeOperation

def perform (op : MergeOperation) (current : U128) : U128 :=
  match op with
  | .increment delta => saturatingAdd current delta
  | .decrement delta => saturatingSub current delta

instance : Encode MergeOperation where
  encode
    | .increment amount => [0] ++ encode amount
    | .decrement amount => [1] ++ encode amount

instance : Decode MergeOperation where
  decode bytes := do
    let (opCode, bytes) ← (decode bytes : Except DecodingError (Byte × List Byte))
    match opCode with
    | 0 => do
        let (amount, bytes) ← (decode bytes : Except DecodingError (U128 × List Byte))
        return (.increment amount, bytes)
    | 1 => do
        let (amount, bytes) ← (decode bytes : Except DecodingError (U128 × List Byte))
        return (.decrement amount, bytes)
    | _ => malformedInput "invalid merge op code" bytes

instance : Codec MergeOperation where
  Fits _ := True
  decode_encode op rest _ := by
    cases op with
    | increment amount =>
        have body := decode_encode amount rest trivial
        simp only [encode, decode, List.cons_append, List.nil_append, bind, Except.bind, pure,
          Except.pure] at body ⊢
        rw [body]
    | decrement amount =>
        have body := decode_encode amount rest trivial
        simp only [encode, decode, List.cons_append, List.nil_append, bind, Except.bind, pure,
          Except.pure] at body ⊢
        rw [body]

end MergeOperation

def decodeOption {α : Type} [Decode α] (bytes : List Byte) : Option α :=
  (decodeAll bytes : Except DecodingError α).toOption

/-- The full merge operator registered with the database; `none` reports a failed merge. -/
def mergeOperator (existing : Option (List Byte)) (operands : List (List Byte)) :
    Option (List Byte) := do
  let start ← match existing with
    | some bytes => (decodeOption bytes : Option U128)
    | none => some 0
  let current ← operands.foldlM (fun current operand => do
    let op ← (decodeOption operand : Option MergeOperation)
    return op.perform current) start
  return encode current

/-- The partial merge operator: several operands become one net operand. -/
def partialMergeOperator (operands : List (List Byte)) : Option (List Byte) := do
  let (increments, decrements) ← operands.foldlM (fun (totals : U128 × U128) operand => do
    let op ← (decodeOption operand : Option MergeOperation)
    match op with
    | .increment delta => return (saturatingAdd totals.1 delta, totals.2)
    | .decrement delta => return (totals.1, saturatingAdd totals.2 delta)) ((0 : U128), (0 : U128))
  let net := if decrements ≤ increments
    then MergeOperation.increment (saturatingSub increments decrements)
    else MergeOperation.decrement (saturatingSub decrements increments)
  return encode net

def applyMergeToValue (op : MergeOperation) (existingValue : List Byte) :
    Except DecodingError U128 := do
  let existingAmount ← (decodeAll existingValue : Except DecodingError U128)
  return op.perform existingAmount

def combineMergeOperations (existingOp newOp : MergeOperation) : MergeOperation :=
  match existingOp, newOp with
  | .increment existing, .increment new => .increment (saturatingAdd existing new)
  | .decrement existing, .decrement new => .decrement (saturatingAdd existing new)
  | .increment existing, .decrement new =>
      if new ≤ existing then .increment (saturatingSub existing new)
      else .decrement (saturatingSub new existing)
  | .decrement existing, .increment new =>
      if new ≤ existing then .decrement (saturatingSub existing new)
      else .increment (saturatingSub new existing)

end Symphony
