import LinearProgram.Proofs.Binary64.Sign

/-!
# Laws of arithmetic

Rounding spoils most laws of arithmetic, but not those that hold before it: addition
commutes, a finite number times minus one is its negative, and the two cancel without a
sign being left.
-/

namespace LinearProgram

namespace Binary64

/-- Both orders of a sum are the same, a NaN included. -/
theorem add_comm (x y : Binary64) : x + y = y + x := by
  change x.add y = y.add x
  cases x with
  | nan => cases y <;> rfl
  | infinity s =>
      cases y with
      | nan => rfl
      | infinity t => cases s <;> cases t <;> rfl
      | finite t n => rfl
  | finite s m =>
      cases y with
      | nan => rfl
      | infinity t => rfl
      | finite t n =>
          rw [add, add, Int.add_comm (signedQuanta t n), Bool.and_comm t]

instance : Std.Commutative (α := Binary64) (· + ·) :=
  ⟨add_comm⟩

theorem neg_finite (negative : Bool) (m : Magnitude) :
    -finite negative m = finite (!negative) m :=
  rfl

/-- A finite number times minus one is its negative, also for the two zeros. -/
theorem mul_neg_one {x : Binary64} (h : x.isFinite = true) : x * -one = -x := by
  cases x with
  | finite negative m =>
      have hone : (Magnitude.ofNat 1 (by decide)).quanta = unitQuanta := Nat.one_mul _
      change (finite negative m).mul (finite (!false) (.ofNat 1 (by decide))) = _
      rw [mul, hone, ofRatio_quanta_mul _ m unitQuanta_pos, neg_finite]
      cases negative <;> rfl
  | _ => exact Bool.noConfusion h

/-- A finite number and its negative cancel to a zero without a sign. -/
theorem add_neg_self {x : Binary64} (h : x.isFinite = true) : x + -x = zero := by
  cases x with
  | finite negative m =>
      have hcancel : signedQuanta negative m + signedQuanta (!negative) m = 0 := by
        cases negative with
        | false => exact Int.add_right_neg _
        | true => exact Int.add_left_neg _
      change (finite negative m).add (finite (!negative) m) = zero
      rw [add]
      simp only [hcancel, if_true, Bool.and_not_self, zero]
  | _ => exact Bool.noConfusion h

theorem isZero_neg (x : Binary64) : (-x).isZero = x.isZero := by
  cases x <;> rfl

theorem exists_eq_of_isZero {x : Binary64} (h : x.isZero = true) :
    ∃ negative, x = finite negative .zero := by
  cases x with
  | finite negative m =>
      have hquanta : m.quanta = 0 := by simpa [isZero] using h
      have hm : m = Magnitude.zero := Magnitude.ext_quanta hquanta
      exact ⟨negative, by rw [hm]⟩
  | _ => exact Bool.noConfusion h

/-- A zero of either sign adds nothing to what is not zero, infinities and NaN included. -/
theorem add_eq_right {x y : Binary64} (hx : x.isZero = true) (hy : y.isZero = false) :
    x + y = y := by
  obtain ⟨s, rfl⟩ := exists_eq_of_isZero hx
  cases y with
  | finite t n =>
      have hne : n.quanta ≠ 0 := by simpa [isZero] using hy
      change (finite s .zero).add (finite t n) = _
      simp only [add, signedQuanta_zero, Int.zero_add]
      rw [round_signedQuanta, if_neg hne]
  | _ => rfl

theorem add_eq_left {x y : Binary64} (hx : x.isZero = false) (hy : y.isZero = true) :
    x + y = x := by
  rw [add_comm, add_eq_right hy hx]

theorem isZero_add {x y : Binary64} (hx : x.isZero = true) (hy : y.isZero = true) :
    (x + y).isZero = true := by
  obtain ⟨s, rfl⟩ := exists_eq_of_isZero hx
  obtain ⟨t, rfl⟩ := exists_eq_of_isZero hy
  change ((finite s .zero).add (finite t .zero)).isZero = true
  rw [add, signedQuanta_zero, signedQuanta_zero, Int.add_zero]
  rfl

end Binary64

end LinearProgram
