import Mathlib.Data.List.Basic
import Mathlib.Algebra.Order.Ring.Nat
import Mathlib.Data.Nat.Log

/- Natural numbers held in IEEE binary64: 53 significant bits, ties to even.
   Only magnitudes far below the overflow threshold are meant, so a value is
   again a natural number. -/
namespace NearestDouble

def nearest (n : Nat) : Nat :=
  let unit := 2 ^ (n.log2 + 1 - 53)
  let low := n / unit
  if unit < 2 * (n % unit) ∨ (2 * (n % unit) = unit ∧ low % 2 = 1) then (low + 1) * unit
  else low * unit

def total (ns : List Nat) : Nat := ns.foldl (fun sum n => nearest (sum + n)) 0

theorem nearest_exact {n : Nat} (small : n < 2 ^ 53) : nearest n = n := by
  have bits : n.log2 + 1 - 53 = 0 := by
    by_cases zero : n = 0
    · subst n; rfl
    · have := (Nat.log2_lt zero).mpr small
      omega
  simp [nearest, bits, Nat.mod_one]

theorem nearest_positive {n : Nat} (positive : 0 < n) : 0 < nearest n := by
  have unit_le : 2 ^ (n.log2 + 1 - 53) ≤ n :=
    Nat.le_trans (Nat.pow_le_pow_right (by omega) (by omega)) (Nat.log2_self_le (by omega))
  have unit_pos : 0 < 2 ^ (n.log2 + 1 - 53) := Nat.two_pow_pos _
  have low_pos := Nat.div_pos unit_le unit_pos
  simp only [nearest]
  split
  · exact Nat.mul_pos (by omega) unit_pos
  · exact Nat.mul_pos low_pos unit_pos

theorem fold_exact (ns : List Nat) (start : Nat) (small : start + ns.sum < 2 ^ 53) :
    ns.foldl (fun sum n => nearest (sum + n)) start = start + ns.sum := by
  induction ns generalizing start with
  | nil => rfl
  | cons n ns ih =>
    simp only [List.sum_cons] at small
    rw [List.foldl_cons, nearest_exact (by omega), ih (start + n) (by omega), List.sum_cons]
    omega

theorem total_exact {ns : List Nat} (small : ns.sum < 2 ^ 53) : total ns = ns.sum := by
  simpa [total] using fold_exact ns 0 (by omega)

theorem fold_positive (ns : List Nat) (start : Nat) (positive : 0 < start) :
    0 < ns.foldl (fun sum n => nearest (sum + n)) start := by
  induction ns generalizing start with
  | nil => exact positive
  | cons n ns ih => exact ih _ (nearest_positive (by omega))

/-- Rounding never loses the fact that some summand is positive. -/
theorem total_zero_iff (ns : List Nat) : total ns = 0 ↔ ns.sum = 0 := by
  constructor
  · intro h
    induction ns with
    | nil => rfl
    | cons n ns ih =>
      unfold total at h
      rw [List.foldl_cons, Nat.zero_add] at h
      by_cases zero : n = 0
      · subst n
        rw [nearest_exact (by decide)] at h
        simpa using ih h
      · have := fold_positive ns (nearest n) (nearest_positive (by omega))
        omega
  · intro h
    rw [total_exact (by omega), h]

end NearestDouble
