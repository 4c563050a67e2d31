import Mathlib.Data.List.Lex
import Mathlib.Order.Fin.Basic
import Mathlib.Tactic.Ring

/-! Big-endian byte strings of naturals, with and without leading zero bytes, and how
their lexicographic order reflects the order of the numbers. -/

namespace Symphony.BigEndian

abbrev Byte := Fin 256

instance neZeroByte : NeZero 256 := ⟨by decide⟩

/-- The `width` low-order bytes of `n`, most significant first. -/
def toBytes : Nat → Nat → List Byte
  | 0, _ => []
  | width + 1, n => Fin.ofNat 256 (n / 256 ^ width) :: toBytes width n

def ofBytes (bytes : List Byte) : Nat :=
  bytes.foldl (fun value byte => value * 256 + byte.val) 0

def trim (bytes : List Byte) : List Byte :=
  bytes.dropWhile (fun byte => decide (byte = 0))

theorem foldl_shift (bytes : List Byte) (start : Nat) :
    bytes.foldl (fun value byte => value * 256 + byte.val) start =
      start * 256 ^ bytes.length + ofBytes bytes := by
  induction bytes generalizing start with
  | nil => simp [ofBytes]
  | cons byte bytes ih =>
      have tail := ih (0 * 256 + byte.val)
      simp only [ofBytes, List.foldl_cons, List.length_cons] at tail ⊢
      rw [ih (start * 256 + byte.val), tail, ofBytes]
      ring

theorem ofBytes_cons (byte : Byte) (bytes : List Byte) :
    ofBytes (byte :: bytes) = byte.val * 256 ^ bytes.length + ofBytes bytes := by
  have shifted := foldl_shift bytes (0 * 256 + byte.val)
  simpa [ofBytes] using shifted

@[simp] theorem length_toBytes (width n : Nat) : (toBytes width n).length = width := by
  induction width with
  | zero => rfl
  | succ width ih => simp [toBytes, ih]

theorem ofBytes_lt (bytes : List Byte) : ofBytes bytes < 256 ^ bytes.length := by
  induction bytes with
  | nil => simp [ofBytes]
  | cons byte bytes ih =>
      rw [ofBytes_cons, List.length_cons, Nat.pow_succ]
      have digit : byte.val + 1 ≤ 256 := byte.isLt
      calc
        byte.val * 256 ^ bytes.length + ofBytes bytes
            < byte.val * 256 ^ bytes.length + 256 ^ bytes.length := Nat.add_lt_add_left ih _
        _ = (byte.val + 1) * 256 ^ bytes.length := by ring
        _ ≤ 256 * 256 ^ bytes.length := Nat.mul_le_mul_right _ digit
        _ = 256 ^ bytes.length * 256 := Nat.mul_comm _ _

theorem ofBytes_toBytes (width n : Nat) : ofBytes (toBytes width n) = n % 256 ^ width := by
  induction width with
  | zero => simp [toBytes, ofBytes, Nat.mod_one]
  | succ width ih =>
      rw [toBytes, ofBytes_cons, length_toBytes, ih, Nat.pow_succ, Nat.mod_mul,
        Fin.val_ofNat, Nat.mul_comm, Nat.add_comm]

theorem ofBytes_trim (bytes : List Byte) : ofBytes (trim bytes) = ofBytes bytes := by
  induction bytes with
  | nil => rfl
  | cons byte bytes ih =>
      by_cases zero : byte = 0
      · have skipped : trim (byte :: bytes) = trim bytes := by
          simp [trim, zero]
        rw [skipped, ih, ofBytes_cons, zero]
        simp
      · simp [trim, zero]

theorem length_trim_le (bytes : List Byte) : (trim bytes).length ≤ bytes.length :=
  (List.dropWhile_sublist _).length_le

theorem pow_le_ofBytes_trim (bytes : List Byte) (nonempty : trim bytes ≠ []) :
    256 ^ ((trim bytes).length - 1) ≤ ofBytes (trim bytes) := by
  cases trimmed : trim bytes with
  | nil => exact absurd trimmed nonempty
  | cons byte rest =>
      have leading : byte ≠ 0 := by
        have head : decide ((trim bytes).head nonempty = 0) = false :=
          List.head_dropWhile_not (fun byte : Byte => decide (byte = 0)) nonempty
        simpa [trimmed] using head
      have positive : 1 ≤ byte.val := Nat.pos_of_ne_zero (by
        intro zero
        exact leading (Fin.ext zero))
      rw [ofBytes_cons, List.length_cons, Nat.add_sub_cancel]
      calc
        256 ^ rest.length = 1 * 256 ^ rest.length := (Nat.one_mul _).symm
        _ ≤ byte.val * 256 ^ rest.length := Nat.mul_le_mul_right _ positive
        _ ≤ byte.val * 256 ^ rest.length + ofBytes rest := Nat.le_add_right _ _

theorem length_trim_mono (first second : List Byte) (below : ofBytes first < ofBytes second) :
    (trim first).length ≤ (trim second).length := by
  by_contra longer
  have nonempty : trim first ≠ [] := by
    intro empty
    simp [empty] at longer
  have lower := pow_le_ofBytes_trim first nonempty
  have upper := ofBytes_lt (trim second)
  rw [ofBytes_trim] at lower upper
  have powers : 256 ^ (trim second).length ≤ 256 ^ ((trim first).length - 1) :=
    Nat.pow_le_pow_right (by decide) (by omega)
  omega

/-- On strings of one length the lexicographic order is the numeric one, whatever
follows them. -/
theorem append_lt_append (first second : List Byte) (left right : List Byte)
    (sameLength : first.length = second.length) (below : ofBytes first < ofBytes second) :
    first ++ left < second ++ right := by
  induction first generalizing second with
  | nil =>
      cases second with
      | nil => exact absurd below (Nat.lt_irrefl _)
      | cons byte rest => simp at sameLength
  | cons byte rest ih =>
      cases second with
      | nil => simp at sameLength
      | cons other others =>
          have tails : rest.length = others.length := by simpa using sameLength
          rw [ofBytes_cons, ofBytes_cons, tails] at below
          rw [List.cons_append, List.cons_append, List.cons_lt_cons_iff]
          rcases lt_trichotomy byte other with less | same | more
          · exact Or.inl less
          · refine Or.inr ⟨same, ih others tails ?_⟩
            rw [same] at below
            omega
          · have step : other.val + 1 ≤ byte.val := more
            have bound := ofBytes_lt others
            have scaled := Nat.mul_le_mul_right (256 ^ others.length) step
            rw [Nat.add_mul, Nat.one_mul] at scaled
            omega

end Symphony.BigEndian
