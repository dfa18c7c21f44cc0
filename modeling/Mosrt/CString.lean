/-
Strings of the C library: lists of bytes, without the NUL behind them.

`asciiBytes` gives the bytes of a text; the texts in the source are ASCII.
-/
import Mathlib

namespace Mosrt

abbrev CString := List UInt8

def asciiBytes (s : String) : CString := s.toList.map fun c => UInt8.ofNat c.toNat

instance : Coe String CString := ⟨asciiBytes⟩

/-- What `snprintf` leaves of a string in a buffer of `size` bytes. -/
def truncateTo (size : ℕ) (s : CString) : CString := s.take (size - 1)

/-- Decimal digits, as `%d` and `%u` write them. -/
def decimal (n : ℤ) : CString := asciiBytes (toString n)

theorem toNat_digit {c : Char} (hc : c.isDigit = true) :
    48 ≤ c.toNat ∧ c.toNat ≤ 57 ∧ (UInt8.ofNat c.toNat).toNat = c.toNat := by
  have hrange : 48 ≤ c.toNat ∧ c.toNat ≤ 57 := by
    simpa [Char.isDigit, UInt32.le_iff_toNat_le] using hc
  refine ⟨hrange.1, hrange.2, ?_⟩
  rw [UInt8.toNat_ofNat']
  omega

theorem decimal_eq (n : ℤ) : decimal n =
    if 0 ≤ n then asciiBytes (Nat.repr n.toNat) else 45 :: asciiBytes (Nat.repr (-n).toNat) := by
  rw [decimal, Int.toString_eq_repr, Int.repr_eq_if]
  split_ifs
  · rfl
  · simp [asciiBytes]

theorem asciiBytes_repr_digit {n : ℕ} {b : UInt8} (hb : b ∈ asciiBytes (Nat.repr n)) :
    48 ≤ b.toNat ∧ b.toNat ≤ 57 := by
  rw [asciiBytes, Nat.toList_repr] at hb
  obtain ⟨c, hc, rfl⟩ := List.mem_map.mp hb
  obtain ⟨hlow, hhigh, heq⟩ :=
    toNat_digit (Nat.isDigit_of_mem_toDigits (by decide) (by decide) hc)
  rw [heq]
  exact ⟨hlow, hhigh⟩

/-- A number is written with digits and a minus sign. -/
theorem decimal_bytes {n : ℤ} {b : UInt8} (hb : b ∈ decimal n) :
    b = 45 ∨ 48 ≤ b.toNat ∧ b.toNat ≤ 57 := by
  rw [decimal_eq] at hb
  split_ifs at hb
  · exact .inr (asciiBytes_repr_digit hb)
  · exact (List.mem_cons.mp hb).imp_right asciiBytes_repr_digit

end Mosrt
