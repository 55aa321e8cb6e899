/-! Integers in the signed or the unsigned 64-bit range. -/

namespace Biblio

/-- An integer from `-2 ^ 63` up to, not including, `2 ^ 64`. -/
structure WideInt where
  val : Int
  lower : -0x8000000000000000 ≤ val
  upper : val < 0x10000000000000000
  deriving DecidableEq, Repr

namespace WideInt

/-- The integer itself, or the nearest end of the range. -/
def clamp (n : Int) : WideInt where
  val := max (-0x8000000000000000) (min 0xFFFFFFFFFFFFFFFF n)
  lower := by omega
  upper := by omega

theorem clamp_val {n : Int} (lower : -0x8000000000000000 ≤ n)
    (upper : n < 0x10000000000000000) : (clamp n).val = n := by
  simp only [clamp]; omega

@[simp] theorem clamp_val_self (n : WideInt) : clamp n.val = n := by
  obtain ⟨v, l, u⟩ := n
  simp only [clamp, mk.injEq]
  omega

/-- An integer of the signed 64-bit range. -/
def signed? (n : WideInt) : Option Int64 :=
  if n.val < 0x8000000000000000 then some (Int64.ofInt n.val) else none

/-- An integer of the unsigned 64-bit range. -/
def unsigned? (n : WideInt) : Option UInt64 :=
  if 0 ≤ n.val then some (UInt64.ofNat n.val.toNat) else none

/-- A signed 64-bit integer is read back. -/
theorem signed?_clamp_toInt (i : Int64) : signed? (clamp i.toInt) = some i := by
  have l : -0x8000000000000000 ≤ i.toInt := i.le_toInt
  have u : i.toInt < 0x8000000000000000 := i.toInt_lt
  rw [signed?, clamp_val l (by omega), if_pos u, Int64.ofInt_toInt]

/-- An unsigned 64-bit integer is read back. -/
theorem unsigned?_clamp_toNat (n : UInt64) : unsigned? (clamp n.toNat) = some n := by
  have u : n.toNat < 0x10000000000000000 := n.toNat_lt
  rw [unsigned?, clamp_val (by omega) (by omega), if_pos (by omega)]
  simp

end WideInt

end Biblio
