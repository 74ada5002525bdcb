import LinearProgram.Proofs.Decimal.ReadBack

/-!
# Signs of numbers

Written numbers show a sign only when they are below zero, so a text cannot tell the two
zeros apart.  Apart from the sign of zero, a number is its sign and its magnitude.
-/

namespace LinearProgram

namespace Binary64

/-- The same number, without a sign if it is zero. -/
def dropZeroSign : Binary64 → Binary64
  | .finite negative m => .finite (negative && m.quanta != 0) m
  | x => x

@[simp] theorem dropZeroSign_dropZeroSign (x : Binary64) :
    x.dropZeroSign.dropZeroSign = x.dropZeroSign := by
  cases x <;> simp [dropZeroSign]

@[simp] theorem isFinite_dropZeroSign (x : Binary64) : x.dropZeroSign.isFinite = x.isFinite := by
  cases x <;> rfl

@[simp] theorem isNaN_dropZeroSign (x : Binary64) : x.dropZeroSign.isNaN = x.isNaN := by
  cases x <;> rfl

@[simp] theorem isZero_dropZeroSign (x : Binary64) : x.dropZeroSign.isZero = x.isZero := by
  cases x <;> rfl

@[simp] theorem isPositiveInfinity_dropZeroSign (x : Binary64) :
    x.dropZeroSign.isPositiveInfinity = x.isPositiveInfinity := by
  cases x <;> rfl

@[simp] theorem isNegativeInfinity_dropZeroSign (x : Binary64) :
    x.dropZeroSign.isNegativeInfinity = x.isNegativeInfinity := by
  cases x <;> rfl

@[simp] theorem abs_dropZeroSign (x : Binary64) : x.dropZeroSign.abs = x.abs := by
  cases x <;> rfl

@[simp] theorem position?_dropZeroSign (x : Binary64) :
    x.dropZeroSign.position? = x.position? := by
  cases x with
  | finite negative m =>
      by_cases hzero : m.quanta = 0
      · simp [dropZeroSign, position?, hzero]
      · have hne : (m.quanta != 0) = true := by simpa using hzero
        rw [dropZeroSign, hne, Bool.and_true]
  | _ => rfl

@[simp] theorem isBelowZero_dropZeroSign (x : Binary64) :
    x.dropZeroSign.isBelowZero = x.isBelowZero := by
  rw [isBelowZero, isBelowZero, position?_dropZeroSign]

theorem isNaN_of_isFinite {x : Binary64} (h : x.isFinite = true) : x.isNaN = false := by
  cases x with
  | finite negative m => rfl
  | _ => exact Bool.noConfusion h

theorem numEq_iff {x y : Binary64} :
    x.numEq y = true ↔ ∃ place, x.position? = some place ∧ y.position? = some place := by
  rw [numEq]
  cases x.position? with
  | none => simp
  | some p =>
      cases y.position? with
      | none => simp
      | some q =>
          constructor
          · intro heq
            exact ⟨q, congrArg some (eq_of_beq heq), rfl⟩
          · rintro ⟨place, hp, hq⟩
            rw [Option.some.inj hp, Option.some.inj hq]
            exact beq_self_eq_true place

theorem position?_finite (negative : Bool) (m : Magnitude) :
    (finite negative m).position? = some (signedQuanta negative m) := by
  cases negative <;> rfl

theorem position?_infinity (negative : Bool) :
    (infinity negative).position? =
      some (if negative then -(overflowQuanta : Int) else overflowQuanta) := by
  cases negative <;> rfl

theorem exists_position? {x : Binary64} (h : x.isNaN = false) :
    ∃ place, x.position? = some place := by
  cases x with
  | nan => exact Bool.noConfusion h
  | infinity negative => exact ⟨_, position?_infinity negative⟩
  | finite negative m => exact ⟨_, position?_finite negative m⟩

/-- Dropping the sign of zero does not change a number. -/
theorem numEq_dropZeroSign {x : Binary64} (h : x.isNaN = false) :
    x.dropZeroSign.numEq x = true := by
  obtain ⟨place, hplace⟩ := exists_position? h
  exact numEq_iff.mpr ⟨place, (position?_dropZeroSign x).trans hplace, hplace⟩

theorem dropZeroSign_of_not_isZero {x : Binary64} (h : x.isZero = false) :
    x.dropZeroSign = x := by
  cases x with
  | finite negative m =>
      have hne : m.quanta ≠ 0 := by simpa [isZero] using h
      simp [dropZeroSign, hne]
  | _ => rfl

theorem dropZeroSign_of_isZero {x : Binary64} (h : x.isZero = true) : x.dropZeroSign = zero := by
  cases x with
  | finite negative m =>
      have hzero : m.quanta = 0 := by simpa [isZero] using h
      have hm : m = Magnitude.zero := Magnitude.ext_quanta hzero
      simp [dropZeroSign, hm, zero, Magnitude.zero]
  | _ => exact Bool.noConfusion h

theorem dropZeroSign_of_isNegativeInfinity {x : Binary64} (h : x.isNegativeInfinity = true) :
    x = .infinity true ∧ x.dropZeroSign = .infinity true := by
  cases x with
  | infinity negative =>
      have hnegative : negative = true := h
      rw [hnegative]
      exact ⟨rfl, rfl⟩
  | _ => exact Bool.noConfusion h

theorem dropZeroSign_of_isPositiveInfinity {x : Binary64} (h : x.isPositiveInfinity = true) :
    x = .infinity false ∧ x.dropZeroSign = .infinity false := by
  cases x with
  | infinity negative =>
      cases negative with
      | false => exact ⟨rfl, rfl⟩
      | true => exact Bool.noConfusion h
  | _ => exact Bool.noConfusion h

theorem numEq_of_dropZeroSign_eq {x y : Binary64} (hx : x.isNaN = false)
    (h : x.dropZeroSign = y.dropZeroSign) : x.numEq y = true := by
  obtain ⟨place, hplace⟩ := exists_position? hx
  have hsame := congrArg position? h
  rw [position?_dropZeroSign, position?_dropZeroSign, hplace] at hsame
  exact numEq_iff.mpr ⟨place, hplace, hsame.symm⟩

theorem isBelowZero_finite (negative : Bool) (m : Magnitude) :
    (finite negative m).isBelowZero = (negative && m.quanta != 0) := by
  cases negative with
  | false => simp [isBelowZero, position?]
  | true =>
      by_cases hzero : m.quanta = 0
      · simp [isBelowZero, position?, hzero]
      · have hpos : 0 < m.quanta := Nat.pos_of_ne_zero hzero
        simp [isBelowZero, position?, hzero, hpos]

theorem isBelowZero_infinity (negative : Bool) :
    (infinity negative).isBelowZero = negative := by
  have hpos := overflowQuanta_pos
  rw [isBelowZero, position?_infinity]
  generalize overflowQuanta = bound at hpos ⊢
  cases negative with
  | false => simp
  | true =>
      simp only [if_true]
      simpa using hpos

/-- A magnitude with its sign put before it again. -/
theorem ite_neg_abs (x : Binary64) :
    (if x.isBelowZero then -x.abs else x.abs) = x.dropZeroSign := by
  cases x with
  | nan => rfl
  | infinity negative =>
      rw [isBelowZero_infinity]
      cases negative <;> rfl
  | finite negative m =>
      rw [isBelowZero_finite, dropZeroSign]
      by_cases hsign : (negative && m.quanta != 0) = true
      · rw [if_pos hsign, hsign]
        rfl
      · rw [if_neg hsign, Bool.eq_false_iff.mpr hsign]
        rfl

theorem eq_one_of_numEq_one {m : Magnitude} (h : (finite false m).numEq one = true) :
    finite false m = one := by
  have hquanta : (m.quanta : Int) = ((Magnitude.ofNat 1 (by decide)).quanta : Int) :=
    eq_of_beq h
  rw [one, Magnitude.ext_quanta (Int.ofNat_inj.mp hquanta)]

theorem unitQuanta_pos : 0 < unitQuanta := by
  unfold unitQuanta
  apply Nat.two_pow_pos

theorem isZero_one : one.isZero = false := by
  have hne : 1 * unitQuanta ≠ 0 := by
    rw [Nat.one_mul]
    exact Nat.ne_of_gt unitQuanta_pos
  exact beq_eq_false_iff_ne.mpr hne

theorem isNaN_ofRatio (negative : Bool) (num den : Nat) :
    (ofRatio negative num den).isNaN = false := by
  unfold ofRatio
  split <;> rfl

theorem isNaN_add_finite (s t : Bool) (m n : Magnitude) :
    (finite s m + finite t n).isNaN = false := by
  change (if signedQuanta s m + signedQuanta t n = 0 then _ else ofRatio _ _ _).isNaN = false
  split
  · rfl
  · exact isNaN_ofRatio _ _ _

/-- The difference of finite numbers is a number. -/
theorem isNaN_sub {x y : Binary64} (hx : x.isFinite = true) (hy : y.isFinite = true) :
    (x - y).isNaN = false := by
  cases x with
  | finite s m =>
      cases y with
      | finite t n => exact isNaN_add_finite s (!t) m n
      | _ => exact Bool.noConfusion hy
  | _ => exact Bool.noConfusion hx

/-! ## Zero as a summand -/

theorem natAbs_signedQuanta (negative : Bool) (m : Magnitude) :
    (signedQuanta negative m).natAbs = m.quanta := by
  cases negative <;> simp [signedQuanta]

/-- An exact sum that is the value of a finite number is rounded to this number. -/
theorem round_signedQuanta (sign negative : Bool) (m : Magnitude) :
    (if signedQuanta negative m = 0 then finite sign .zero
      else ofRatio (decide (signedQuanta negative m < 0)) (signedQuanta negative m).natAbs 1) =
      if m.quanta = 0 then finite sign .zero else finite negative m := by
  by_cases hzero : m.quanta = 0
  · rw [if_pos (by simp [signedQuanta, hzero]), if_pos hzero]
  · have hne : signedQuanta negative m ≠ 0 := by cases negative <;> simp [signedQuanta, hzero]
    have hsign : decide (signedQuanta negative m < 0) = negative := by
      have hpos : 0 < m.quanta := Nat.pos_of_ne_zero hzero
      cases negative with
      | false => simp [signedQuanta]
      | true => simp [signedQuanta, hpos]
    rw [if_neg hne, if_neg hzero, hsign, natAbs_signedQuanta, ofRatio_quanta]

theorem signedQuanta_zero (negative : Bool) : signedQuanta negative .zero = 0 := by
  cases negative <;> rfl

/-- Adding to zero drops the sign of zero and does nothing else. -/
theorem zero_add {x : Binary64} (h : x.isFinite = true) : zero + x = x.dropZeroSign := by
  cases x with
  | finite negative m =>
      change zero.add (finite negative m) = _
      rw [zero, add, signedQuanta_zero, Int.zero_add, round_signedQuanta]
      by_cases hzero : m.quanta = 0
      · have hm : m = Magnitude.zero := Magnitude.ext_quanta hzero
        simp [dropZeroSign, hm, Magnitude.zero]
      · simp [dropZeroSign, hzero]
  | _ => exact Bool.noConfusion h

/-- Taking zero away does at most change the sign of zero. -/
theorem dropZeroSign_sub_zero {x : Binary64} (h : x.isFinite = true) :
    (x - zero).dropZeroSign = x.dropZeroSign := by
  cases x with
  | finite negative m =>
      change ((finite negative m).add (finite true .zero)).dropZeroSign = _
      rw [add, signedQuanta_zero, Int.add_zero, round_signedQuanta]
      by_cases hzero : m.quanta = 0
      · have hm : m = Magnitude.zero := Magnitude.ext_quanta hzero
        simp [dropZeroSign, hm, Magnitude.zero]
      · rw [if_neg hzero]
  | _ => exact Bool.noConfusion h

/-! ## Numerical equality -/

theorem signedQuanta_ne_infinite (s t : Bool) (m : Magnitude) :
    signedQuanta s m ≠ if t then -(overflowQuanta : Int) else overflowQuanta := by
  intro heq
  have habs := congrArg Int.natAbs heq
  have hlt := m.bounded
  rw [natAbs_signedQuanta] at habs
  generalize overflowQuanta = bound at habs hlt
  cases t with
  | false =>
      simp only [Bool.false_eq_true, if_false, Int.natAbs_natCast] at habs
      omega
  | true =>
      simp only [if_true, Int.natAbs_neg, Int.natAbs_natCast] at habs
      omega

theorem dropZeroSign_finite (negative : Bool) (m : Magnitude) :
    (finite negative m).dropZeroSign = finite (decide (signedQuanta negative m < 0)) m := by
  have hsign : (negative && m.quanta != 0) = decide (signedQuanta negative m < 0) := by
    cases negative with
    | false => simp [signedQuanta]
    | true =>
        by_cases hzero : m.quanta = 0
        · simp [signedQuanta, hzero]
        · have hpos : 0 < m.quanta := Nat.pos_of_ne_zero hzero
          simp [signedQuanta, hzero, hpos]
  rw [dropZeroSign, hsign]

/-- Numbers that are numerically equal differ at most in the sign of zero. -/
theorem dropZeroSign_eq_of_numEq {x y : Binary64} (h : x.numEq y = true) :
    x.dropZeroSign = y.dropZeroSign := by
  obtain ⟨place, hx, hy⟩ := numEq_iff.mp h
  cases x with
  | nan => exact nomatch hx
  | infinity s =>
      rw [position?_infinity] at hx
      cases y with
      | nan => exact nomatch hy
      | infinity t =>
          rw [position?_infinity] at hy
          have hpos := overflowQuanta_pos
          have hsame := Option.some.inj (hx.trans hy.symm)
          generalize overflowQuanta = bound at hpos hsame
          cases s <;> cases t <;> simp at hsame ⊢ <;> omega
      | finite t n =>
          rw [position?_finite] at hy
          exact absurd (Option.some.inj (hy.trans hx.symm)) (signedQuanta_ne_infinite t s n)
  | finite s m =>
      rw [position?_finite] at hx
      cases y with
      | nan => exact nomatch hy
      | infinity t =>
          rw [position?_infinity] at hy
          exact absurd (Option.some.inj (hx.trans hy.symm)) (signedQuanta_ne_infinite s t m)
      | finite t n =>
          rw [position?_finite] at hy
          have hsame := Option.some.inj (hx.trans hy.symm)
          have hquanta : m.quanta = n.quanta := by
            rw [← natAbs_signedQuanta s m, hsame, natAbs_signedQuanta]
          rw [dropZeroSign_finite, dropZeroSign_finite, hsame, Magnitude.ext_quanta hquanta]

end Binary64

end LinearProgram
