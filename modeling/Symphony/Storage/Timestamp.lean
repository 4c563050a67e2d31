import Symphony.Storage.Encdec

/-! Commit timestamps (`storage/timestamp.rs`): unix seconds above an 18-bit counter. -/

namespace Symphony

open Encdec (U64)

structure Timestamp where
  physical : U64
  logical : U64
  deriving DecidableEq, Repr

namespace Timestamp

def logicalBits : Nat := 18

def logicalMask : U64 := (1 <<< logicalBits) - 1

def new (now : U64) : Timestamp := ⟨now, 0⟩

def after (prev : Timestamp) (now : U64) : Timestamp where
  physical := now
  logical := if now ≤ prev.physical then prev.logical + 1 else 0

def next (previous : Option Timestamp) (now : U64) : Timestamp :=
  match previous with
  | some prev => after prev now
  | none => new now

def asU64 (ts : Timestamp) : U64 := (ts.physical <<< logicalBits) + ts.logical

def fromU64 (n : U64) : Timestamp := ⟨n >>> logicalBits, n &&& logicalMask⟩

def latest : Timestamp := fromU64 (BitVec.allOnes 64)

theorem toNat_shifted (seconds : U64) (bound : seconds.toNat < 2 ^ 46) :
    (seconds <<< logicalBits).toNat = seconds.toNat * 2 ^ 18 := by
  rw [BitVec.toNat_shiftLeft, Nat.shiftLeft_eq, logicalBits]
  exact Nat.mod_eq_of_lt (by omega)

/-- Packing undoes unpacking on every 64-bit value. -/
theorem asU64_fromU64 (n : U64) : (fromU64 n).asU64 = n := by
  have high : (n >>> logicalBits).toNat = n.toNat / 2 ^ 18 := by
    rw [BitVec.toNat_ushiftRight, Nat.shiftRight_eq_div_pow, logicalBits]
  have low : (n &&& logicalMask).toNat = n.toNat % 2 ^ 18 := by
    have mask : logicalMask.toNat = 2 ^ 18 - 1 := by decide
    rw [BitVec.toNat_and, mask, Nat.and_two_pow_sub_one_eq_mod]
  have bound := n.isLt
  have shifted := toNat_shifted (n >>> logicalBits) (by rw [high]; omega)
  apply BitVec.eq_of_toNat_eq
  simp only [asU64, fromU64, BitVec.toNat_add, shifted, high, low]
  omega

@[simp] theorem asU64_latest : latest.asU64 = BitVec.allOnes 64 := asU64_fromU64 _

end Timestamp

end Symphony
