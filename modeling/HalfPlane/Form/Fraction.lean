/-
The fraction nearest to a rational among those with a bounded denominator.

The convergents of the continued fraction come closer in turn. The last one whose
denominator is within the bound is compared with the last fraction on the way to the
next one; the convergent wins unless the other is strictly nearer.
-/
namespace HalfPlane

/-- The last two convergents `p / q` of a continued fraction. -/
structure Convergents where
  p₀ : Int
  q₀ : Nat
  p₁ : Int
  q₁ : Nat

/-- The convergents of `n / d`, followed while the denominator stays within `bound`. -/
def Convergents.follow (bound : Nat) (s : Convergents) (n : Int) (d : Nat) : Convergents :=
  if h : d = 0 then s
  else
    let a := n / d
    let q := s.q₀ + a.toNat * s.q₁
    if bound < q then s
    else
      have : (n % d).toNat < d := by
        have := Int.emod_lt_of_pos n (Int.natCast_pos.2 (Nat.pos_of_ne_zero h))
        omega
      follow bound ⟨s.p₁, s.q₁, s.p₀ + a * s.p₁, q⟩ d (n % d).toNat
termination_by d

/-- The fraction nearest to `r` with a denominator of at most `bound`. -/
def nearestFraction (bound : Nat) (r : Rat) : Rat :=
  if r.den ≤ bound then r
  else
    let s := Convergents.follow bound ⟨0, 1, 1, 0⟩ r.num r.den
    let k := (bound - s.q₀) / s.q₁
    let between := mkRat (s.p₀ + k * s.p₁) (s.q₀ + k * s.q₁)
    let convergent := mkRat s.p₁ s.q₁
    if (convergent - r).abs ≤ (between - r).abs then convergent else between

end HalfPlane
