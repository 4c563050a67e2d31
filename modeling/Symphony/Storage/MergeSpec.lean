import Mathlib.Algebra.BigOperators.Group.List.Basic
import Mathlib.Logic.Relation
import Symphony.Storage.MergeOperation

/-! Grouping of merge operands: while no total overflows or goes below zero, the net
operand of a run stands for the run. -/

namespace Symphony

open BigEndian (Byte)
open Encdec

theorem toNat_saturatingAdd {first second : U128} (bound : first.toNat + second.toNat < 2 ^ 128) :
    (saturatingAdd first second).toNat = first.toNat + second.toNat := by
  rw [saturatingAdd, if_pos bound, BitVec.toNat_add, Nat.mod_eq_of_lt bound]

namespace MergeOperation

def gain : MergeOperation → Nat
  | .increment amount => amount.toNat
  | .decrement _ => 0

def loss : MergeOperation → Nat
  | .increment _ => 0
  | .decrement amount => amount.toNat

def gains (ops : List MergeOperation) : Nat := (ops.map gain).sum

def losses (ops : List MergeOperation) : Nat := (ops.map loss).sum

def exactTotal (base : U128) (ops : List MergeOperation) : Int :=
  base.toNat + gains ops - losses ops

@[simp] theorem gains_nil : gains [] = 0 := by simp [gains]

@[simp] theorem losses_nil : losses [] = 0 := by simp [losses]

@[simp] theorem gains_cons (op : MergeOperation) (ops : List MergeOperation) :
    gains (op :: ops) = op.gain + gains ops := by simp [gains]

@[simp] theorem losses_cons (op : MergeOperation) (ops : List MergeOperation) :
    losses (op :: ops) = op.loss + losses ops := by simp [losses]

@[simp] theorem gains_append (first second : List MergeOperation) :
    gains (first ++ second) = gains first + gains second := by simp [gains]

@[simp] theorem losses_append (first second : List MergeOperation) :
    losses (first ++ second) = losses first + losses second := by simp [losses]

structure Sane (base : U128) (ops : List MergeOperation) : Prop where
  bounded : base.toNat + gains ops < 2 ^ 128
  covered : ∀ done, done <+: ops → 0 ≤ exactTotal base done

theorem Sane.losses_lt {base : U128} {done rest : List MergeOperation}
    (sane : Sane base (done ++ rest)) : losses done < 2 ^ 128 := by
  have bounded := sane.bounded
  have covered := sane.covered done (List.prefix_append done rest)
  rw [gains_append] at bounded
  rw [exactTotal] at covered
  omega

/-- The operation has the effect of the run, in no larger amounts. -/
structure Nets (op : MergeOperation) (run : List MergeOperation) : Prop where
  effect : op.gain + losses run = op.loss + gains run
  gain_le : op.gain ≤ gains run
  loss_le : op.loss ≤ losses run

theorem nets_difference {increments decrements : U128} {run : List MergeOperation}
    (increased : increments.toNat = gains run) (decreased : decrements.toNat = losses run) :
    Nets (if decrements ≤ increments then .increment (saturatingSub increments decrements)
      else .decrement (saturatingSub decrements increments)) run := by
  split
  · rename_i above
    rw [BitVec.le_def] at above
    refine ⟨?_, ?_, ?_⟩ <;> simp only [gain, loss, toNat_saturatingSub] <;> omega
  · rename_i below
    rw [BitVec.le_def] at below
    refine ⟨?_, ?_, ?_⟩ <;> simp only [gain, loss, toNat_saturatingSub] <;> omega

theorem combine_nets (existing new : MergeOperation)
    (gainBound : existing.gain + new.gain < 2 ^ 128)
    (lossBound : existing.loss + new.loss < 2 ^ 128) :
    Nets (combineMergeOperations existing new) [existing, new] := by
  cases existing with
  | increment held =>
      cases new with
      | increment added =>
          have exact := toNat_saturatingAdd gainBound
          refine ⟨?_, ?_, ?_⟩ <;> simp [combineMergeOperations, gain, loss, exact]
      | decrement removed =>
          exact nets_difference (by simp [gain]) (by simp [loss])
  | decrement held =>
      cases new with
      | increment added =>
          simp only [combineMergeOperations]
          split
          · rename_i below
            rw [BitVec.le_def] at below
            refine ⟨?_, ?_, ?_⟩ <;> simp [gain, loss, toNat_saturatingSub]
            omega
          · rename_i above
            rw [BitVec.le_def] at above
            refine ⟨?_, ?_, ?_⟩ <;> simp [gain, loss, toNat_saturatingSub]
            omega
      | decrement removed =>
          have exact := toNat_saturatingAdd lossBound
          refine ⟨?_, ?_, ?_⟩ <;> simp [combineMergeOperations, gain, loss, exact]

theorem Nets.snoc {net next : MergeOperation} {run : List MergeOperation} (nets : Nets net run)
    (gainBound : gains (run ++ [next]) < 2 ^ 128) (lossBound : losses (run ++ [next]) < 2 ^ 128) :
    Nets (combineMergeOperations net next) (run ++ [next]) := by
  have gained := nets.gain_le
  have lost := nets.loss_le
  have effect := nets.effect
  simp only [gains_append, gains_cons, gains_nil, losses_append, losses_cons, losses_nil]
    at gainBound lossBound
  have pair := combine_nets net next (by omega) (by omega)
  have pairEffect := pair.effect
  have pairGain := pair.gain_le
  have pairLoss := pair.loss_le
  simp only [gains_cons, gains_nil, losses_cons, losses_nil] at pairEffect pairGain pairLoss
  refine ⟨?_, ?_, ?_⟩ <;>
    simp only [gains_append, gains_cons, gains_nil, losses_append, losses_cons, losses_nil] <;> omega

theorem one_sided (op : MergeOperation) :
    (op.gain < 2 ^ 128 ∧ op.loss = 0) ∨ (op.gain = 0 ∧ op.loss < 2 ^ 128) := by
  cases op with
  | increment amount => exact Or.inl ⟨amount.isLt, rfl⟩
  | decrement amount => exact Or.inr ⟨rfl, amount.isLt⟩

def delta (op : MergeOperation) : Int := op.gain - op.loss

theorem combine_delta (existing new : MergeOperation) (above : -2 ^ 128 < existing.delta + new.delta)
    (below : existing.delta + new.delta < 2 ^ 128) :
    (combineMergeOperations existing new).delta = existing.delta + new.delta := by
  have held := one_sided existing
  have added := one_sided new
  simp only [delta] at above below ⊢
  have effect := (combine_nets existing new (by omega) (by omega)).effect
  simp only [gains_cons, gains_nil, losses_cons, losses_nil] at effect
  omega

theorem perform_delta (op : MergeOperation) (base : U128) (above : 0 ≤ base.toNat + op.delta)
    (below : base.toNat + op.delta < 2 ^ 128) :
    ((op.perform base).toNat : Int) = base.toNat + op.delta := by
  cases op with
  | increment amount =>
      simp only [delta, gain, loss] at above below ⊢
      rw [perform, toNat_saturatingAdd (by omega)]
      omega
  | decrement amount =>
      simp only [delta, gain, loss] at above below ⊢
      rw [perform, toNat_saturatingSub]
      omega

/-- Folding a run pairwise gives its net. -/
theorem foldl_combine_nets (net : MergeOperation) (run rest : List MergeOperation)
    (nets : Nets net run) (gainBound : gains (run ++ rest) < 2 ^ 128)
    (lossBound : losses (run ++ rest) < 2 ^ 128) :
    Nets (rest.foldl combineMergeOperations net) (run ++ rest) := by
  induction rest generalizing net run with
  | nil => simpa using nets
  | cons next rest ih =>
      have split : run ++ next :: rest = (run ++ [next]) ++ rest := by simp
      rw [split] at gainBound lossBound ⊢
      apply ih
      · apply nets.snoc
        · rw [gains_append] at gainBound
          omega
        · rw [losses_append] at lossBound
          omega
      · exact gainBound
      · exact lossBound

theorem nets_singleton (op : MergeOperation) : Nets op [op] := by
  refine ⟨?_, ?_, ?_⟩ <;> simp
  exact Nat.add_comm _ _

theorem Sane.replace {base : U128} {left run right : List MergeOperation} {net : MergeOperation}
    (sane : Sane base (left ++ run ++ right)) (nets : Nets net run) :
    Sane base (left ++ [net] ++ right) := by
  have bounded := sane.bounded
  have effect := nets.effect
  have gained := nets.gain_le
  constructor
  · simp only [gains_append, gains_cons, gains_nil] at bounded ⊢
    omega
  · intro done shorter
    rw [List.append_assoc] at shorter
    rcases List.prefix_or_prefix_of_prefix shorter (List.prefix_append _ _) with within | ⟨tail, rfl⟩
    · exact sane.covered done (within.trans (by simp))
    · rw [List.prefix_append_right_inj] at shorter
      rcases List.prefix_cons_iff.mp shorter with rfl | ⟨rest, rfl, later⟩
      · simpa using sane.covered left (by simp)
      · have original := sane.covered (left ++ run ++ rest) ((List.prefix_append_right_inj _).mpr later)
        simp only [exactTotal, gains_append, losses_append, gains_cons, losses_cons] at original ⊢
        omega

theorem Nets.exactTotal {base : U128} {left run right : List MergeOperation} {net : MergeOperation}
    (nets : Nets net run) :
    exactTotal base (left ++ [net] ++ right) = exactTotal base (left ++ run ++ right) := by
  have effect := nets.effect
  simp only [MergeOperation.exactTotal, gains_append, losses_append, gains_cons, losses_cons, gains_nil,
    losses_nil]
  omega

theorem decodeOption_encode (op : MergeOperation) : decodeOption (encode op) = some op := by
  rw [decodeOption, decodeAll_encode op trivial]
  rfl

theorem perform_exact {base : U128} {op : MergeOperation} {ops : List MergeOperation}
    (sane : Sane base (op :: ops)) :
    ((op.perform base).toNat : Int) = exactTotal base [op] := by
  have bounded := sane.bounded
  have covered := sane.covered [op] (by simp)
  simp only [exactTotal, gains_cons, losses_cons, gains_nil, losses_nil] at bounded covered ⊢
  rw [perform_delta op base (by rw [delta]; omega) (by rw [delta]; omega), delta]
  omega

theorem Sane.performed {base : U128} {op : MergeOperation} {ops : List MergeOperation}
    (sane : Sane base (op :: ops)) : Sane (op.perform base) ops := by
  have step := perform_exact sane
  have bounded := sane.bounded
  have first := sane.covered [op] (by simp)
  simp only [exactTotal, gains_cons, losses_cons, gains_nil, losses_nil] at step bounded first
  constructor
  · omega
  · intro done shorter
    have covered := sane.covered (op :: done) (by simpa using shorter)
    simp only [exactTotal, gains_cons, losses_cons] at covered ⊢
    omega

end MergeOperation

open MergeOperation

def storedAmount (existing : Option (List Byte)) : Option U128 :=
  match existing with
  | some bytes => decodeOption bytes
  | none => some 0

theorem mergeOperator_eq (existing : Option (List Byte)) (operands : List (List Byte)) :
    mergeOperator existing operands = do
      let start ← storedAmount existing
      let current ← operands.foldlM (fun current operand => do
        let op ← (decodeOption operand : Option MergeOperation)
        return op.perform current) start
      return encode current := by
  cases existing <;> rfl

theorem foldlM_perform (base : U128) (ops : List MergeOperation) :
    (ops.map encode).foldlM (fun current operand => do
      let op ← (decodeOption operand : Option MergeOperation)
      return op.perform current) base = some (ops.foldl (fun current op => op.perform current) base) := by
  induction ops generalizing base with
  | nil => rfl
  | cons op ops ih =>
      rw [List.map_cons, List.foldlM_cons, decodeOption_encode, List.foldl_cons]
      exact ih _

theorem foldl_perform_exact {base : U128} {ops : List MergeOperation} (sane : Sane base ops) :
    ((ops.foldl (fun current op => op.perform current) base).toNat : Int) = exactTotal base ops := by
  induction ops generalizing base with
  | nil => simp [exactTotal]
  | cons op ops ih =>
      have step := perform_exact sane
      rw [List.foldl_cons, ih sane.performed]
      simp only [exactTotal, gains_cons, losses_cons, gains_nil, losses_nil] at step ⊢
      omega

/-- On sane operands the full merge operator stores the exact total. -/
theorem mergeOperator_exact {existing : Option (List Byte)} {base : U128} {ops : List MergeOperation}
    (stored : storedAmount existing = some base) (sane : Sane base ops) :
    ∃ total : U128, mergeOperator existing (ops.map encode) = some (encode total) ∧
      (total.toNat : Int) = exactTotal base ops := by
  refine ⟨_, ?_, foldl_perform_exact sane⟩
  rw [mergeOperator_eq, stored, Option.bind_eq_bind, Option.bind_some, foldlM_perform]
  rfl

theorem foldlM_totals (ops : List MergeOperation) (totals : U128 × U128)
    (gainBound : totals.1.toNat + gains ops < 2 ^ 128)
    (lossBound : totals.2.toNat + losses ops < 2 ^ 128) :
    ∃ out : U128 × U128,
      (ops.map encode).foldlM (fun (totals : U128 × U128) operand => do
        let op ← (decodeOption operand : Option MergeOperation)
        match op with
        | .increment delta => return (saturatingAdd totals.1 delta, totals.2)
        | .decrement delta => return (totals.1, saturatingAdd totals.2 delta)) totals = some out ∧
      out.1.toNat = totals.1.toNat + gains ops ∧ out.2.toNat = totals.2.toNat + losses ops := by
  induction ops generalizing totals with
  | nil => exact ⟨totals, rfl, by simp, by simp⟩
  | cons op ops ih =>
      rw [gains_cons] at gainBound
      rw [losses_cons] at lossBound
      cases op with
      | increment amount =>
          simp only [gain, loss] at gainBound lossBound
          have exact : (saturatingAdd totals.1 amount).toNat = totals.1.toNat + amount.toNat :=
            toNat_saturatingAdd (by omega)
          obtain ⟨out, folded, gained, lost⟩ := ih (saturatingAdd totals.1 amount, totals.2)
            (by rw [exact]; omega) (by simpa using lossBound)
          refine ⟨out, ?_, ?_, ?_⟩
          · rw [List.map_cons, List.foldlM_cons, decodeOption_encode]
            exact folded
          · rw [gained, exact, gains_cons, gain]
            omega
          · rw [lost, losses_cons, loss, Nat.zero_add]
      | decrement amount =>
          simp only [gain, loss] at gainBound lossBound
          have exact : (saturatingAdd totals.2 amount).toNat = totals.2.toNat + amount.toNat :=
            toNat_saturatingAdd (by omega)
          obtain ⟨out, folded, gained, lost⟩ := ih (totals.1, saturatingAdd totals.2 amount)
            (by simpa using gainBound) (by rw [exact]; omega)
          refine ⟨out, ?_, ?_, ?_⟩
          · rw [List.map_cons, List.foldlM_cons, decodeOption_encode]
            exact folded
          · rw [gained, gains_cons, gain, Nat.zero_add]
          · rw [lost, exact, losses_cons, loss]
            omega

theorem partialMergeOperator_nets (run : List MergeOperation) (gainBound : gains run < 2 ^ 128)
    (lossBound : losses run < 2 ^ 128) :
    ∃ net, partialMergeOperator (run.map encode) = some (encode net) ∧ Nets net run := by
  obtain ⟨out, folded, gained, lost⟩ := foldlM_totals run (0, 0) (by simpa using gainBound)
    (by simpa using lossBound)
  refine ⟨_, ?_, @nets_difference out.1 out.2 run ?_ ?_⟩
  · exact congrArg (fun totals => Option.bind totals _) folded
  · simpa using gained
  · simpa using lost

theorem MergeOperation.Sane.merges {base : U128} {left run right : List MergeOperation}
    (sane : Sane base (left ++ run ++ right)) :
    ∃ net, partialMergeOperator (run.map encode) = some (encode net) ∧ Nets net run := by
  have bounded := sane.bounded
  have lost := sane.losses_lt
  simp only [gains_append] at bounded
  rw [losses_append] at lost
  exact partialMergeOperator_nets run (by omega) (by omega)

/-- One contiguous run of stored operands is replaced by a single one. -/
inductive Regroups : List (List Byte) → List (List Byte) → Prop
  | partialMerge (left run right : List (List Byte)) (merged : List Byte)
      (merges : partialMergeOperator run = some merged) :
      Regroups (left ++ run ++ right) (left ++ [merged] ++ right)
  | combine (left right : List (List Byte)) (first : MergeOperation) (rest : List MergeOperation) :
      Regroups (left ++ (first :: rest).map encode ++ right)
        (left ++ [encode (rest.foldl combineMergeOperations first)] ++ right)

/-- A regrouped list still stands for sane operations with the same total. -/
theorem Regroups.sane {base : U128} {ops : List MergeOperation} {operands : List (List Byte)}
    (step : Regroups (ops.map encode) operands) (sane : Sane base ops) :
    ∃ grouped : List MergeOperation, operands = grouped.map encode ∧ Sane base grouped ∧
      exactTotal base grouped = exactTotal base ops := by
  generalize listed : ops.map encode = source at step
  cases step with
  | partialMerge left run right merged merges =>
      obtain ⟨before, right, rfl, inner, rfl⟩ := List.map_eq_append_iff.mp listed
      obtain ⟨left, run, rfl, rfl, rfl⟩ := List.map_eq_append_iff.mp inner
      obtain ⟨net, merging, nets⟩ := sane.merges
      obtain rfl : encode net = merged := Option.some.inj (merging.symm.trans merges)
      exact ⟨left ++ [net] ++ right, by simp, sane.replace nets, nets.exactTotal⟩
  | combine left right first rest =>
      obtain ⟨before, right, rfl, inner, rfl⟩ := List.map_eq_append_iff.mp listed
      obtain ⟨left, run, rfl, rfl, same⟩ := List.map_eq_append_iff.mp inner
      obtain rfl : run = first :: rest := List.map_injective_iff.mpr
        (fun _ _ equal => encode_injective trivial trivial equal) same
      have bounded := sane.bounded
      have lost := sane.losses_lt
      simp only [gains_append] at bounded
      rw [losses_append] at lost
      have nets : Nets (rest.foldl combineMergeOperations first) ([first] ++ rest) :=
        foldl_combine_nets first [first] rest (nets_singleton first) (by simp at bounded ⊢; omega)
          (by simp at lost ⊢; omega)
      exact ⟨left ++ [_] ++ right, by simp, sane.replace nets, nets.exactTotal⟩

theorem regrouped_sane {base : U128} {ops : List MergeOperation} {operands : List (List Byte)}
    (regrouped : Relation.ReflTransGen Regroups (ops.map encode) operands) (sane : Sane base ops) :
    ∃ grouped : List MergeOperation, operands = grouped.map encode ∧ Sane base grouped ∧
      exactTotal base grouped = exactTotal base ops := by
  induction regrouped with
  | refl => exact ⟨ops, rfl, sane, rfl⟩
  | tail _ step ih =>
      obtain ⟨middle, rfl, saneMiddle, same⟩ := ih
      obtain ⟨grouped, listed, saneGrouped, total⟩ := step.sane saneMiddle
      exact ⟨grouped, listed, saneGrouped, total.trans same⟩

/-- Operands survive storage, and however runs of them are grouped the full merge
operator gives the exact total and the partial one never fails. -/
theorem merge_regrouped (existing : Option (List Byte)) (base : U128) (ops : List MergeOperation)
    (operands : List (List Byte)) (stored : storedAmount existing = some base)
    (bounded : base.toNat + gains ops ≤ 2 ^ 128 - 1)
    (covered : ∀ done, done <+: ops → 0 ≤ exactTotal base done)
    (regrouped : Relation.ReflTransGen Regroups (ops.map encode) operands) :
    (∃ total : U128, mergeOperator existing operands = some (encode total) ∧
      mergeOperator existing (ops.map encode) = some (encode total) ∧
      (total.toNat : Int) = exactTotal base ops) ∧
    (∀ run, run <:+: operands → ∃ merged, partialMergeOperator run = some merged) ∧
    (∀ op ∈ ops, decodeAll (encode op) = .ok op) ∧
    ∀ operand ∈ operands, ∃ op : MergeOperation, decodeAll operand = .ok op ∧ encode op = operand := by
  have sane : Sane base ops := ⟨by omega, covered⟩
  obtain ⟨grouped, rfl, saneGrouped, same⟩ := regrouped_sane regrouped sane
  refine ⟨?_, ?_, ?_, ?_⟩
  · obtain ⟨total, merging, exact⟩ := mergeOperator_exact stored sane
    obtain ⟨other, mergingGrouped, exactGrouped⟩ := mergeOperator_exact stored saneGrouped
    obtain rfl : other = total := BitVec.eq_of_toNat_eq (by omega)
    exact ⟨other, mergingGrouped, merging, exact⟩
  · rintro run ⟨left, right, listed⟩
    obtain ⟨before, right, rfl, inner, rfl⟩ := List.map_eq_append_iff.mp listed.symm
    obtain ⟨left, run, rfl, rfl, rfl⟩ := List.map_eq_append_iff.mp inner
    obtain ⟨net, merging, _⟩ := saneGrouped.merges
    exact ⟨_, merging⟩
  · intro op _
    exact decodeAll_encode op trivial
  · intro operand member
    obtain ⟨op, _, rfl⟩ := List.mem_map.mp member
    exact ⟨op, decodeAll_encode op trivial, rfl⟩

/-- Four operands over a stored 5: the middle two merged first, then all folded. -/
theorem merge_regrouped_nested :
    ∃ operands, Relation.ReflTransGen Regroups
      ([MergeOperation.decrement 3, .increment 4, .decrement 6, .increment 2].map encode) operands ∧
      operands = [encode (MergeOperation.decrement 3)] ∧
      ∃ total : U128, mergeOperator (some (encode (5 : U128))) operands = some (encode total) ∧
        (total.toNat : Int) = 2 := by
  have first := Regroups.partialMerge [encode (MergeOperation.decrement 3)]
    [encode (MergeOperation.increment 4), encode (MergeOperation.decrement 6)]
    [encode (MergeOperation.increment 2)] (encode (MergeOperation.decrement 2)) (by decide +kernel)
  have second := Regroups.combine [] [] (.decrement 3) [.decrement 2, .increment 2]
  have regrouped := (Relation.ReflTransGen.single first).tail second
  have result := merge_regrouped (some (encode (5 : U128))) 5
    [.decrement 3, .increment 4, .decrement 6, .increment 2] _ (by decide +kernel) (by decide)
    (by
      intro done shorter
      simp only [List.prefix_cons_iff, List.prefix_nil] at shorter
      rcases shorter with rfl | ⟨_, rfl, rfl | ⟨_, rfl, rfl | ⟨_, rfl, rfl | ⟨_, rfl, rfl⟩⟩⟩⟩ <;> decide)
    regrouped
  obtain ⟨⟨total, merged, _, exact⟩, _⟩ := result
  exact ⟨_, regrouped, by decide +kernel, total, merged, exact⟩

end Symphony
