import Mathlib.Algebra.Order.Ring.Int

namespace Hydracore.Formats

def int64 (v : ℤ) : ℤ := (v + 9223372036854775808) % 18446744073709551616 - 9223372036854775808

def roundHalfEven (num den : ℕ) : ℕ :=
  let quotient := num / den
  let rest := num % den
  if 2 * rest < den then quotient else if den < 2 * rest then quotient + 1 else quotient + quotient % 2

/-- The fraction nearest to `num / den` whose numerator has 53 bits, up to a power of two; the even one of two. -/
def double (num den : ℕ) : ℕ × ℕ :=
  if num = 0 then (0, 1)
  else
    -- scaled up so that the quotient has 54 or 55 bits
    let up := 2 ^ (54 + den.log2)
    let down := 2 ^ num.log2
    let unit := 2 ^ ((num * up / (den * down)).log2 - 52)
    (roundHalfEven (num * up) (den * down * unit) * unit * down, up)

def divDouble (x y : ℕ × ℕ) : ℕ × ℕ := double (x.1 * y.2) (x.2 * y.1)

def ltFraction (x y : ℕ × ℕ) : Bool := x.1 * y.2 < y.1 * x.2

example : (double 1 5).1 * 18014398509481984 = 3602879701896397 * (double 1 5).2 := by decide +kernel

theorem toNat_succ_of_ne {x : UInt64} (h : x + 1 ≠ 0) : (x + 1).toNat = x.toNat + 1 := by
  have hne : (x + 1).toNat ≠ 0 := fun hzero => h (UInt64.toNat_inj.mp hzero)
  have hlt := x.toNat_lt
  rw [UInt64.toNat_add, UInt64.toNat_one] at hne ⊢
  omega

end Hydracore.Formats
