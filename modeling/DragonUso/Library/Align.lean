import Mathlib.Algebra.Group.Nat.Defs

/-! Rounding up to a power of two. `alignUp` is the arithmetic meaning, `roundMask` the
usual mask expression on fixed-width words; they agree while the sum does not overflow. -/

namespace WordAlign

/-- The least multiple of `a` that is at least `n`. -/
def alignUp (n a : Nat) : Nat := (n + a - 1) / a * a

theorem le_alignUp (n : Nat) {a : Nat} (positive : 0 < a) : n ≤ alignUp n a := by
  unfold alignUp
  have whole := Nat.div_add_mod (n + a - 1) a
  have small := Nat.mod_lt (n + a - 1) positive
  rw [Nat.mul_comm] at whole
  omega

theorem alignUp_lt (n : Nat) {a : Nat} (positive : 0 < a) : alignUp n a < n + a := by
  unfold alignUp
  have below := Nat.div_mul_le_self (n + a - 1) a
  omega

theorem dvd_alignUp (n a : Nat) : a ∣ alignUp n a := Nat.dvd_mul_left a _

theorem alignUp_le {n m a : Nat} (above : n ≤ m) (multiple : a ∣ m) : alignUp n a ≤ m := by
  obtain ⟨q, rfl⟩ := multiple
  rcases Nat.eq_zero_or_pos a with rfl | positive
  · simp [alignUp]
  · have close := alignUp_lt n positive
    obtain ⟨r, aligned⟩ := dvd_alignUp n a
    rw [aligned] at close ⊢
    have order : r < q + 1 := by
      have scaled : a * r < a * (q + 1) := by rw [Nat.mul_add, Nat.mul_one]; omega
      exact Nat.lt_of_mul_lt_mul_left scaled
    exact Nat.mul_le_mul_left a (by omega)

theorem alignUp_eq_self {n a : Nat} (positive : 0 < a) : alignUp n a = n ↔ a ∣ n := by
  constructor
  · intro same
    exact same ▸ dvd_alignUp n a
  · intro multiple
    exact Nat.le_antisymm (alignUp_le (Nat.le_refl n) multiple) (le_alignUp n positive)

/-- `(value + unit - 1) & ~(unit - 1)` on words of any width. -/
def roundMask {w : Nat} (value unit : BitVec w) : BitVec w := (value + unit - 1#w) &&& ~~~(unit - 1#w)

theorem roundMask_eq {w : Nat} (value unit : BitVec w) :
    roundMask value unit = (value + (unit - 1#w)) &&& ~~~(unit - 1#w) := by
  rw [roundMask, BitVec.sub_eq_add_neg (value + unit), BitVec.add_assoc, ← BitVec.sub_eq_add_neg]

theorem and_add_and_not {w : Nat} (x mask : BitVec w) : (x &&& mask) + (x &&& ~~~mask) = x := by
  have apart : (x &&& mask) &&& (x &&& ~~~mask) = 0#w := by
    ext i bound
    simp
    grind
  rw [BitVec.add_eq_or_of_and_eq_zero _ _ apart]
  ext i bound
  simp
  grind

/-- Whatever the unit, a sum that does not wrap is not masked below the value. -/
theorem le_roundMask {w : Nat} {value unit : BitVec w} (fits : value.toNat + (unit - 1#w).toNat < 2 ^ w) :
    value.toNat ≤ (roundMask value unit).toNat := by
  have sum : (value + (unit - 1#w)).toNat = value.toNat + (unit - 1#w).toNat := by
    rw [BitVec.toNat_add, Nat.mod_eq_of_lt fits]
  have parts := congrArg BitVec.toNat (and_add_and_not (value + (unit - 1#w)) (unit - 1#w))
  have low : ((value + (unit - 1#w)) &&& (unit - 1#w)).toNat ≤ (unit - 1#w).toNat := by
    rw [BitVec.toNat_and]
    exact Nat.and_le_right
  rw [BitVec.toNat_add, sum] at parts
  have whole := Nat.mod_le (((value + (unit - 1#w)) &&& (unit - 1#w)).toNat +
    ((value + (unit - 1#w)) &&& ~~~(unit - 1#w)).toNat) (2 ^ w)
  rw [roundMask_eq]
  omega

/-- A word that is a power of two. -/
def IsPow2 {w : Nat} (a : BitVec w) : Prop := ∃ k < w, a.toNat = 2 ^ k

theorem IsPow2.pos {w : Nat} {a : BitVec w} (pow : IsPow2 a) : 0 < a.toNat := by
  obtain ⟨k, -, value⟩ := pow
  rw [value]
  exact Nat.two_pow_pos k

theorem IsPow2.le_half {w : Nat} {a : BitVec w} (pow : IsPow2 a) : 2 * a.toNat ≤ 2 ^ w := by
  obtain ⟨k, bound, value⟩ := pow
  calc
    _ = 2 ^ (k + 1) := by rw [value, Nat.mul_comm, ← Nat.pow_succ]
    _ ≤ 2 ^ w := Nat.pow_le_pow_right (by decide) bound

theorem IsPow2.sub_one {w : Nat} {a : BitVec w} (pow : IsPow2 a) : (a - 1#w).toNat = a.toNat - 1 := by
  have positive := pow.pos
  have half := pow.le_half
  have one : (1#w).toNat = 1 := by
    rw [BitVec.toNat_ofNat]
    exact Nat.mod_eq_of_lt (by omega)
  rw [BitVec.toNat_sub_of_le (by rw [BitVec.le_def, one]; omega), one]

theorem IsPow2.dvd_modulus {w : Nat} {a : BitVec w} (pow : IsPow2 a) : a.toNat ∣ 2 ^ w := by
  obtain ⟨k, bound, value⟩ := pow
  rw [value]
  exact Nat.pow_dvd_pow 2 (Nat.le_of_lt bound)

/-- Of two powers of two the smaller divides the larger. -/
theorem IsPow2.dvd_of_le {w : Nat} {a b : BitVec w} (first : IsPow2 a) (second : IsPow2 b)
    (order : a.toNat ≤ b.toNat) : a.toNat ∣ b.toNat := by
  obtain ⟨k, -, ka⟩ := first
  obtain ⟨m, -, mb⟩ := second
  rw [ka, mb] at order ⊢
  exact Nat.pow_dvd_pow 2 ((Nat.pow_le_pow_iff_right (by decide)).mp order)

theorem toNat_and_not_low {w : Nat} (x mask : BitVec w) (k : Nat) (bound : k ≤ w)
    (low : mask.toNat = 2 ^ k - 1) : (x &&& ~~~mask).toNat = x.toNat / 2 ^ k * 2 ^ k := by
  apply Nat.eq_of_testBit_eq
  intro i
  have fits := x.isLt
  have inside : (x &&& ~~~mask).toNat.testBit i =
      (x.toNat.testBit i && (decide (i < w) && !decide (i < k))) := by
    rw [BitVec.toNat_and, Nat.testBit_and, BitVec.toNat_not, low]
    congr 1
    rw [show 2 ^ w - 1 - (2 ^ k - 1) = 2 ^ w - ((2 ^ k - 1) + 1) by omega]
    rw [Nat.testBit_two_pow_sub_succ, Nat.testBit_two_pow_sub_one]
    have grows := Nat.pow_le_pow_right (by decide : 0 < 2) bound
    have positive := Nat.two_pow_pos k
    omega
  rw [inside, Nat.testBit_mul_two_pow, Nat.testBit_div_two_pow]
  by_cases small : i < k
  · simp [small, Nat.not_le_of_lt small]
  · rw [Nat.sub_add_cancel (by omega)]
    by_cases wide : i < w
    · simp [small, wide, Nat.le_of_not_lt small]
    · have clear : x.toNat.testBit i = false := Nat.testBit_lt_two_pow
        (Nat.lt_of_lt_of_le fits (Nat.pow_le_pow_right (by decide) (by omega)))
      simp [clear]

/-- No address is rounded past the modulus, which every power of two divides. -/
theorem alignUp_le_modulus {w : Nat} (value : BitVec w) {unit : BitVec w} (pow : IsPow2 unit) :
    alignUp value.toNat unit.toNat ≤ 2 ^ w :=
  alignUp_le (Nat.le_of_lt value.isLt) pow.dvd_modulus

/-- The mask expression rounds up; only a result equal to the modulus wraps, to zero. -/
theorem roundMask_toNat {w : Nat} (value : BitVec w) {unit : BitVec w} (pow : IsPow2 unit) :
    (roundMask value unit).toNat = alignUp value.toNat unit.toNat % 2 ^ w := by
  have fits := alignUp_le_modulus value pow
  obtain ⟨k, bound, power⟩ := id pow
  have positive := pow.pos
  have valueLt := value.isLt
  have low : (unit - 1#w).toNat = 2 ^ k - 1 := by rw [pow.sub_one, power]
  have sum : (value + (unit - 1#w)).toNat = (value.toNat + (2 ^ k - 1)) % 2 ^ w := by rw [BitVec.toNat_add, low]
  rw [roundMask_eq, toNat_and_not_low _ _ k (Nat.le_of_lt bound) low, sum]
  unfold alignUp at fits ⊢
  rw [power] at fits ⊢
  have regroup : value.toNat + 2 ^ k - 1 = value.toNat + (2 ^ k - 1) := by omega
  rw [regroup] at fits ⊢
  rcases Nat.lt_or_ge (value.toNat + (2 ^ k - 1)) (2 ^ w) with small | large
  · rw [Nat.mod_eq_of_lt small, Nat.mod_eq_of_lt]
    exact Nat.lt_of_le_of_lt (Nat.div_mul_le_self _ _) small
  · -- the sum wrapped: the multiple lost is exactly the modulus, so both sides are zero
    have modulus : 2 ^ w = 2 ^ (w - k) * 2 ^ k := by
      rw [← Nat.pow_add, Nat.sub_add_cancel (Nat.le_of_lt bound)]
    have quotient : 2 ^ (w - k) ≤ (value.toNat + (2 ^ k - 1)) / 2 ^ k := by
      rw [Nat.le_div_iff_mul_le (Nat.two_pow_pos k), ← modulus]
      exact large
    have exact_ : (value.toNat + (2 ^ k - 1)) / 2 ^ k * 2 ^ k = 2 ^ w := by
      apply Nat.le_antisymm fits
      rw [modulus]
      exact Nat.mul_le_mul_right _ quotient
    have residue : (value.toNat + (2 ^ k - 1)) % 2 ^ w < 2 ^ k := by
      rw [Nat.mod_eq_sub_mod large]
      exact Nat.lt_of_le_of_lt (Nat.mod_le _ _) (by omega)
    rw [exact_, Nat.mod_self, Nat.div_eq_of_lt residue, Nat.zero_mul]

theorem roundMask_toNat_of_lt {w : Nat} {value unit : BitVec w} (pow : IsPow2 unit)
    (fits : alignUp value.toNat unit.toNat < 2 ^ w) :
    (roundMask value unit).toNat = alignUp value.toNat unit.toNat := by
  rw [roundMask_toNat value pow, Nat.mod_eq_of_lt fits]

/-! Word arithmetic wraps at the modulus, so it keeps every divisor of the modulus. -/

theorem dvd_toNat_add {w a : Nat} {x y : BitVec w} (unit : a ∣ 2 ^ w) (left : a ∣ x.toNat) (right : a ∣ y.toNat) :
    a ∣ (x + y).toNat := by
  rw [BitVec.toNat_add]
  exact (Nat.dvd_mod_iff unit).mpr (Nat.dvd_add left right)

theorem dvd_toNat_sub {w a : Nat} {x y : BitVec w} (unit : a ∣ 2 ^ w) (left : a ∣ x.toNat) (right : a ∣ y.toNat) :
    a ∣ (x - y).toNat := by
  rw [BitVec.toNat_sub]
  exact (Nat.dvd_mod_iff unit).mpr (Nat.dvd_add (Nat.dvd_sub unit right) left)

theorem dvd_roundMask {w : Nat} (value : BitVec w) {unit : BitVec w} (pow : IsPow2 unit) :
    unit.toNat ∣ (roundMask value unit).toNat := by
  rw [roundMask_toNat value pow]
  exact (Nat.dvd_mod_iff pow.dvd_modulus).mpr (dvd_alignUp _ _)

end WordAlign
