/-!
# Binary64 values

Coefficients, bounds and right-hand sides are IEEE 754 binary64 numbers.  Every
finite one is a whole number of quanta of `2 ^ -1074`, so a finite magnitude is kept
as that natural number.  Equal magnitudes are then equal numbers, and arithmetic is
arithmetic on natural numbers followed by one rounding.

The main statement here is `pow_excessBits_dvd_roundQuanta`: what the rounding
returns always fits a significand of 53 bits.
-/

namespace LinearProgram

/-- Low bits of `n` that lie below a significand of 53 bits. -/
def excessBits (n : Nat) : Nat :=
  n.log2 - 52

/-- The least number of quanta that is too large for a finite magnitude. -/
def overflowQuanta : Nat :=
  Nat.pow 2 2098

/-- The number of quanta in one. -/
def unitQuanta : Nat :=
  Nat.pow 2 1074

theorem overflowQuanta_pos : 0 < overflowQuanta := by
  unfold overflowQuanta
  apply Nat.two_pow_pos

theorem mul_pow_lt_pow {n s t : Nat} (h : n < Nat.pow 2 53) (hst : 53 + s ≤ t) :
    n * Nat.pow 2 s < Nat.pow 2 t := by
  refine Nat.lt_of_lt_of_le ?_ (Nat.pow_le_pow_right (by decide) hst)
  rw [Nat.pow_add]
  exact Nat.mul_lt_mul_of_pos_right h (Nat.two_pow_pos s)

/-- A whole number of at most 53 bits is finite. -/
theorem mul_unitQuanta_lt {n : Nat} (h : n < Nat.pow 2 53) :
    n * unitQuanta < overflowQuanta := by
  unfold unitQuanta overflowQuanta
  generalize hs : 1074 = s
  generalize ht : 2098 = t
  exact mul_pow_lt_pow h (by omega)

/-- A finite magnitude, counted in quanta of `2 ^ -1074`. -/
structure Magnitude where
  quanta : Nat
  aligned : Nat.pow 2 (excessBits quanta) ∣ quanta
  bounded : quanta < overflowQuanta
deriving DecidableEq

/-- The quotient as a whole number, a half going to the even neighbour. -/
def halfEven (num den : Nat) : Nat :=
  if 2 * (num % den) < den then num / den
  else if den < 2 * (num % den) then num / den + 1
  else num / den + (num / den) % 2

/-- The quotient to 53 significant bits, in whole quanta. -/
def roundQuanta (num den : Nat) : Nat :=
  let excess := excessBits (num / den)
  halfEven num (den * Nat.pow 2 excess) * Nat.pow 2 excess

theorem halfEven_le (num den : Nat) : halfEven num den ≤ num / den + 1 := by
  unfold halfEven
  split
  · omega
  · split <;> omega

theorem lt_pow_of_excessBits (n : Nat) : n < Nat.pow 2 (53 + excessBits n) := by
  refine Nat.lt_of_lt_of_le Nat.lt_log2_self ?_
  refine Nat.pow_le_pow_right (by decide) ?_
  unfold excessBits
  omega

theorem excessBits_le_of_lt {n s : Nat} (h : n < Nat.pow 2 (53 + s)) : excessBits n ≤ s := by
  unfold excessBits
  by_cases hn : n = 0
  · subst hn
    simp
  · have := (Nat.log2_lt hn).mpr h
    omega

/-- A significand of at most 53 bits in any position is aligned. -/
theorem pow_excessBits_dvd_mul {m : Nat} (hm : m ≤ Nat.pow 2 53) (s : Nat) :
    Nat.pow 2 (excessBits (m * Nat.pow 2 s)) ∣ m * Nat.pow 2 s := by
  rcases Nat.lt_or_eq_of_le hm with hlt | heq
  · have hb : m * Nat.pow 2 s < Nat.pow 2 (53 + s) := mul_pow_lt_pow hlt (Nat.le_refl _)
    exact Nat.dvd_trans (Nat.pow_dvd_pow 2 (excessBits_le_of_lt hb)) (Nat.dvd_mul_left _ _)
  · have hm : m * Nat.pow 2 s = Nat.pow 2 (53 + s) := by
      rw [heq]
      exact (Nat.pow_add 2 53 s).symm
    rw [hm]
    refine Nat.pow_dvd_pow 2 ?_
    unfold excessBits
    rw [Nat.pow_eq, Nat.log2_two_pow]
    omega

theorem pow_excessBits_dvd_roundQuanta (num den : Nat) :
    Nat.pow 2 (excessBits (roundQuanta num den)) ∣ roundQuanta num den := by
  unfold roundQuanta
  refine pow_excessBits_dvd_mul ?_ _
  refine Nat.le_trans (halfEven_le _ _) ?_
  rw [← Nat.div_div_eq_div_mul]
  refine Nat.succ_le_of_lt ?_
  refine (Nat.div_lt_iff_lt_mul (Nat.two_pow_pos _)).mpr ?_
  refine Nat.lt_of_lt_of_eq (lt_pow_of_excessBits _) ?_
  exact Nat.pow_add 2 53 _

namespace Magnitude

/-- The magnitude nearest to a quotient of quanta, if it is finite. -/
def ofRatio? (num den : Nat) : Option Magnitude :=
  if h : roundQuanta num den < overflowQuanta then
    some ⟨roundQuanta num den, pow_excessBits_dvd_roundQuanta num den, h⟩
  else
    none

def zero : Magnitude :=
  ⟨0, Nat.dvd_zero _, overflowQuanta_pos⟩

theorem ext_quanta {a b : Magnitude} (h : a.quanta = b.quanta) : a = b := by
  cases a
  cases b
  simp_all

/-- A whole number of at most 53 bits. -/
def ofNat (n : Nat) (h : n < Nat.pow 2 53) : Magnitude where
  quanta := n * unitQuanta
  aligned := by
    unfold unitQuanta
    apply pow_excessBits_dvd_mul
    exact Nat.le_of_lt h
  bounded := mul_unitQuanta_lt h

end Magnitude

/-- An IEEE 754 binary64 datum; the two zeros differ in sign, and there is one NaN. -/
inductive Binary64 where
  | nan
  | infinity (negative : Bool)
  | finite (negative : Bool) (magnitude : Magnitude)
deriving DecidableEq

namespace Binary64

def zero : Binary64 :=
  finite false .zero

def one : Binary64 :=
  finite false (.ofNat 1 (by decide))

/-- The value nearest to a signed quotient of quanta; too large a one is infinite. -/
def ofRatio (negative : Bool) (num den : Nat) : Binary64 :=
  match Magnitude.ofRatio? num den with
  | some m => finite negative m
  | none => infinity negative

/-- The place of a number on the extended line, in quanta; a NaN has none. -/
def position? : Binary64 → Option Int
  | nan => none
  | infinity negative => if negative then some (-overflowQuanta) else some overflowQuanta
  | finite negative m => if negative then some (-m.quanta) else some m.quanta

def isNaN : Binary64 → Bool
  | nan => true
  | _ => false

def isFinite : Binary64 → Bool
  | finite _ _ => true
  | _ => false

/-- Both zeros are zero. -/
def isZero : Binary64 → Bool
  | finite _ m => m.quanta == 0
  | _ => false

def isNegativeInfinity : Binary64 → Bool
  | infinity negative => negative
  | _ => false

def isPositiveInfinity : Binary64 → Bool
  | infinity negative => !negative
  | _ => false

/-- Numerical equality: the two zeros are equal and a NaN equals nothing. -/
def numEq (x y : Binary64) : Bool :=
  match x.position?, y.position? with
  | some p, some q => p == q
  | _, _ => false

/-- Numerical order, in which a NaN is never at most anything. -/
def numLe (x y : Binary64) : Bool :=
  match x.position?, y.position? with
  | some p, some q => p ≤ q
  | _, _ => false

/-- Strictly below zero; negative zero is not. -/
def isBelowZero (x : Binary64) : Bool :=
  match x.position? with
  | some p => p < 0
  | none => false

def neg : Binary64 → Binary64
  | nan => nan
  | infinity negative => infinity (!negative)
  | finite negative m => finite (!negative) m

def abs : Binary64 → Binary64
  | nan => nan
  | infinity _ => infinity false
  | finite _ m => finite false m

/-- The value of a finite number in quanta, the sign of zero aside. -/
def signedQuanta (negative : Bool) (m : Magnitude) : Int :=
  if negative then -m.quanta else m.quanta

/-- The exact sum, rounded once; a sum of zero is negative only for two negatives. -/
def add : Binary64 → Binary64 → Binary64
  | nan, _ => nan
  | _, nan => nan
  | infinity s, infinity t => if s = t then infinity s else nan
  | infinity s, finite _ _ => infinity s
  | finite _ _, infinity t => infinity t
  | finite s m, finite t n =>
    let sum := signedQuanta s m + signedQuanta t n
    if sum = 0 then finite (s && t) .zero
    else ofRatio (decide (sum < 0)) sum.natAbs 1

def sub (x y : Binary64) : Binary64 :=
  x.add y.neg

/-- The exact product, rounded once. -/
def mul : Binary64 → Binary64 → Binary64
  | nan, _ => nan
  | _, nan => nan
  | infinity s, infinity t => infinity (s ^^ t)
  | infinity s, finite t n => if n.quanta = 0 then nan else infinity (s ^^ t)
  | finite s m, infinity t => if m.quanta = 0 then nan else infinity (s ^^ t)
  | finite s m, finite t n => ofRatio (s ^^ t) (m.quanta * n.quanta) unitQuanta

instance : Inhabited Binary64 := ⟨zero⟩

instance : Add Binary64 := ⟨add⟩

instance : Sub Binary64 := ⟨sub⟩

instance : Mul Binary64 := ⟨mul⟩

instance : Neg Binary64 := ⟨neg⟩

end Binary64

end LinearProgram
