import LinearProgram.Decimal.Shortest

/-!
# Shortest decimals read back

A magnitude is a whole number of quanta that fits its significand, so rounding gives it
back from every fraction that stands for it.  The search for a shortest decimal tests
each candidate by reading it, and its last resort is the exact expansion, which is such a
fraction.  Hence `toBinary64_shortest`: what is printed for a magnitude reads back as
that magnitude.
-/

namespace LinearProgram

theorem halfEven_mul {den : Nat} (hden : 0 < den) (n : Nat) :
    halfEven (n * den) den = n := by
  rw [halfEven, Nat.mul_mod_left, Nat.mul_div_cancel n hden, if_pos (by omega)]

/-- Rounding keeps a whole number of quanta that already fits a significand. -/
theorem roundQuanta_mul {n den : Nat} (hden : 0 < den) (hn : Nat.pow 2 (excessBits n) ∣ n) :
    roundQuanta (n * den) den = n := by
  obtain ⟨k, hk⟩ := hn
  have hpow : 0 < Nat.pow 2 (excessBits n) := Nat.two_pow_pos _
  have hnum : n * den = k * (den * Nat.pow 2 (excessBits n)) := by
    calc
      n * den = Nat.pow 2 (excessBits n) * k * den := congrArg (· * den) hk
      _ = k * (den * Nat.pow 2 (excessBits n)) := by ac_rfl
  unfold roundQuanta
  rw [Nat.mul_div_cancel n hden]
  dsimp only
  rw [hnum, halfEven_mul (Nat.mul_pos hden hpow), Nat.mul_comm]
  exact hk.symm

theorem Magnitude.ofRatio?_quanta_mul (m : Magnitude) {den : Nat} (hden : 0 < den) :
    ofRatio? (m.quanta * den) den = some m := by
  have hround := roundQuanta_mul hden m.aligned
  rw [ofRatio?, dif_pos (by rw [hround]; exact m.bounded)]
  exact congrArg some (ext_quanta hround)

namespace Binary64

/-- Every fraction that stands for a magnitude rounds to that magnitude. -/
theorem ofRatio_quanta_mul (negative : Bool) (m : Magnitude) {den : Nat} (hden : 0 < den) :
    ofRatio negative (m.quanta * den) den = finite negative m := by
  unfold ofRatio
  rw [m.ofRatio?_quanta_mul hden]

theorem ofRatio_quanta (negative : Bool) (m : Magnitude) :
    ofRatio negative m.quanta 1 = finite negative m := by
  simpa using ofRatio_quanta_mul negative m Nat.one_pos

theorem ofRatio_quanta_pow (negative : Bool) (m : Magnitude) (k : Nat) :
    ofRatio negative (m.quanta * Nat.pow 5 k * Nat.pow 2 k) (Nat.pow 10 k) =
      finite negative m := by
  have hpow : Nat.pow 10 k = Nat.pow 5 k * Nat.pow 2 k := Nat.mul_pow 5 2 k
  rw [Nat.mul_assoc, ← hpow]
  exact ofRatio_quanta_mul negative m (Nat.pow_pos (by decide))

end Binary64

namespace Decimal

/-- The exact expansion has so many digits that its exponent does not make it vanish. -/
theorem le_log2_mul_pow_five {n : Nat} (hn : n ≠ 0) (k : Nat) :
    k ≤ (n * Nat.pow 5 k).log2 := by
  have hpos : 0 < Nat.pow 5 k := Nat.pow_pos (by decide)
  have hne : n * Nat.pow 5 k ≠ 0 := Nat.mul_ne_zero hn (Nat.ne_of_gt hpos)
  have htwo : Nat.pow 2 k ≤ Nat.pow 5 k := Nat.pow_le_pow_left (by decide) k
  have hmul : Nat.pow 5 k ≤ n * Nat.pow 5 k :=
    Nat.le_mul_of_pos_left _ (Nat.pos_of_ne_zero hn)
  exact (Nat.le_log2 hne).mpr (Nat.le_trans htwo hmul)

theorem toBinary64_exact {m : Magnitude} (hm : m.quanta ≠ 0) (negative : Bool) :
    (exact m).toBinary64 negative = .finite negative m := by
  -- The exponent becomes a variable, so that no power is ever computed.
  obtain ⟨k, hk⟩ : ∃ k, k = 1074 := ⟨_, rfl⟩
  have hlog := le_log2_mul_pow_five hm k
  have hpos : 0 < Nat.pow 5 k := Nat.pow_pos (by decide)
  have hne : m.quanta * Nat.pow 5 k ≠ 0 := Nat.mul_ne_zero hm (Nat.ne_of_gt hpos)
  have hden : (- -1074 : Int).toNat = k := by omega
  unfold exact toBinary64 unitQuanta
  dsimp only
  rw [hden, ← hk, if_neg hne, if_neg (by omega), if_neg (by omega), if_neg (by omega)]
  exact Binary64.ofRatio_quanta_pow negative m k

/-- The decimal that is printed for a magnitude reads back as that magnitude. -/
theorem toBinary64_shortest (ties : TieRule) (m : Magnitude) :
    (shortest ties m).toBinary64 false = .finite false m := by
  rw [shortest]
  by_cases hm : m.quanta = 0
  · have hzero : m = .zero := Magnitude.ext_quanta hm
    rw [if_pos hm, hzero]
    rfl
  · rw [if_neg hm]
    dsimp only
    cases hfound : (List.range 17).findSome? fun (k : Nat) =>
        ofGrid? ties m (leadingExponent m - k) with
    | none => exact toBinary64_exact hm false
    | some d =>
        obtain ⟨k, -, hk⟩ := List.exists_of_findSome?_eq_some hfound
        exact toBinary64_ofGrid hk

end Decimal

end LinearProgram
