import Mathlib.Data.Int.GCD
import Mathlib.Data.Int.ModEq
import Mathlib.GroupTheory.OrderOfElement
import Mathlib.Tactic.Ring

namespace NuMakerMA35.ModQuotient

def modInverse (x n : Nat) : Nat := (Nat.gcdA x n % n).toNat

def modDiv (y x n : Nat) : Option Nat := if Nat.Coprime x n then some (y * modInverse x n % n) else none

theorem mul_modInverse {x n : Nat} (unit : Nat.Coprime x n) (above : 1 < n) :
    x * modInverse x n ≡ 1 [MOD n] := by
  have size : (0 : Int) ≤ Nat.gcdA x n % n := Int.emod_nonneg _ (by omega)
  have bezout := Nat.gcd_eq_gcd_ab x n
  rw [Nat.coprime_iff_gcd_eq_one.mp unit] at bezout
  rw [← Int.natCast_modEq_iff, modInverse, Nat.cast_mul, Int.toNat_of_nonneg size]
  calc (x : Int) * (Nat.gcdA x n % n) ≡ x * Nat.gcdA x n [ZMOD n] :=
        Int.ModEq.mul_left _ (Int.mod_modEq _ _)
    _ ≡ x * Nat.gcdA x n + n * Nat.gcdB x n [ZMOD n] :=
        (Int.modEq_add_fac_self).symm
    _ = 1 := bezout.symm

theorem modDiv_eq_some {y x n q : Nat} (above : 1 < n) (small : q < n)
    (product : x * q ≡ y [MOD n]) (unit : Nat.Coprime x n) : modDiv y x n = some q := by
  have inverse := mul_modInverse unit above
  have same : y * modInverse x n ≡ q [MOD n] := by
    calc y * modInverse x n ≡ x * q * modInverse x n [MOD n] := (product.mul_right _).symm
      _ = x * modInverse x n * q := by ring
      _ ≡ 1 * q [MOD n] := inverse.mul_right _
      _ = q := Nat.one_mul q
  rw [modDiv, if_pos unit, Nat.mod_eq_of_modEq same small]

theorem modDiv_eq_none {y x n : Nat} : modDiv y x n = none ↔ ¬Nat.Coprime x n := by
  rw [modDiv]
  split_ifs with unit <;> simp [unit]

theorem coprime_of_modDiv {y x n q : Nat} (found : modDiv y x n = some q) : Nat.Coprime x n := by
  by_contra other
  rw [modDiv_eq_none.mpr other] at found
  cases found

theorem modDiv_mul {x n w : Nat} (inverse : modDiv 1 x n = some w) (y : Nat) :
    modDiv y x n = some (y * w % n) := by
  unfold modDiv at inverse ⊢
  split_ifs at inverse ⊢ with unit
  rw [← Option.some.inj inverse, Nat.one_mul, Nat.mul_mod_mod]

section Group

variable {G : Type*} [AddCommGroup G] {g : G} {n : Nat}

theorem nsmul_eq_of_modEq (order : n • g = 0) {a b : Nat} (same : a ≡ b [MOD n]) : a • g = b • g :=
  nsmul_eq_nsmul_iff_modEq.mpr (same.of_dvd (addOrderOf_dvd_iff_nsmul_eq_zero.mpr order))

/-- The two multiples that check a signature add up to the point it was made from. -/
theorem signature_equation (order : n • g = 0) (above : 1 < n) {e d k r s : Nat}
    (nonce : Nat.Coprime k n) (made : modDiv (e + d * r) k n = some s) {w : Nat}
    (inverse : modDiv 1 s n = some w) : (e * w % n) • g + (r * w % n) • d • g = k • g := by
  have unit := coprime_of_modDiv inverse
  rw [modDiv, if_pos nonce] at made
  rw [modDiv, if_pos unit, Nat.one_mul] at inverse
  have signed : s * k ≡ e + d * r [MOD n] := by
    rw [← Option.some.inj made]
    calc (e + d * r) * modInverse k n % n * k ≡ (e + d * r) * modInverse k n * k [MOD n] :=
          (Nat.mod_modEq _ _).mul_right _
      _ = (e + d * r) * (k * modInverse k n) := by ring
      _ ≡ (e + d * r) * 1 [MOD n] := (mul_modInverse nonce above).mul_left _
      _ = e + d * r := Nat.mul_one _
  have undone : s * w ≡ 1 [MOD n] := by
    rw [← Option.some.inj inverse]
    exact ((Nat.mod_modEq _ _).mul_left _).trans (mul_modInverse unit above)
  rw [← mul_nsmul', nsmul_eq_of_modEq order (Nat.mod_modEq (e * w) n), ← add_nsmul]
  apply nsmul_eq_of_modEq order
  calc e * w + r * w % n * d ≡ e * w + r * w * d [MOD n] :=
        ((Nat.mod_modEq _ _).mul_right _).add_left _
    _ = (e + d * r) * w := by ring
    _ ≡ s * k * w [MOD n] := signed.symm.mul_right _
    _ = s * w * k := by ring
    _ ≡ 1 * k [MOD n] := undone.mul_right _
    _ = k := Nat.one_mul k

end Group

end NuMakerMA35.ModQuotient
