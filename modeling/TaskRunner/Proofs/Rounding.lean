import Mathlib.Algebra.Order.Field.Rat
import Mathlib.Algebra.Order.Field.Power
import Mathlib.Tactic.Linarith
import Mathlib.Tactic.Positivity
import Mathlib.Tactic.Ring
import TaskRunner.Number.Shortest

/-!
# Rounding to the nearest number

The reals that are nearest to a finite number form an interval around it, with its ends if the
mantissa is even (`Interval.Mem`). `ofRatio` gives that number for every fraction in the interval
(`ofRatio_eq_of_mem`). The one place where the argument is not the same is just below a power of
two: there the fraction has one bit more of exponent to spare, and rounds up to a mantissa that is
carried.
-/
namespace TaskRunner.Number

/-! ## Numbers by their bits -/

/-- What the bits of a finite number allow. -/
structure InRange (m : Nat) (e : Int) : Prop where
  mantissa_lt : m < 2 ^ 53
  low : -1074 ≤ e
  high : e ≤ 971
  normal : e = -1074 ∨ 2 ^ 52 ≤ m

/-- The bits of a finite number, but for the sign. -/
def magnitude (m : Nat) (e : Int) : Nat := (e + 1074).toNat * 2 ^ 52 + m

/-- The sign, the exponent field and the fraction are all the bits there are. -/
theorem eq_ofMagnitude (x : Number) :
    x = ofMagnitude x.isNegative (x.exponentField * 2 ^ 52 + x.fraction) := by
  obtain ⟨bits⟩ := x
  have hlt : bits.toNat < 2 ^ 64 := bits.toNat_lt
  have hbits : (if (Number.mk bits).isNegative then 1 <<< 63 +
      ((Number.mk bits).exponentField * 2 ^ 52 + (Number.mk bits).fraction)
      else (Number.mk bits).exponentField * 2 ^ 52 + (Number.mk bits).fraction) = bits.toNat := by
    simp only [isNegative, exponentField, fraction, Nat.shiftRight_eq_div_pow, Nat.shiftLeft_eq,
      Nat.one_mul, decide_eq_true_eq]
    split <;> omega
  rw [ofMagnitude, hbits, UInt64.ofNat_toNat]

theorem eq_ofMagnitude_of_view {x : Number} {negative : Bool} {m : Nat} {e : Int}
    (h : x.view = .finite negative m e) :
    InRange m e ∧ x = ofMagnitude negative (magnitude m e) := by
  have hfield : x.exponentField < 2048 := Nat.mod_lt _ (by decide)
  have hfraction : x.fraction < 2 ^ 52 := Nat.mod_lt _ (by decide)
  unfold view at h
  split_ifs at h with hmax hzero hmin
  · obtain ⟨rfl, rfl, rfl⟩ := View.finite.inj h
    refine ⟨⟨by omega, by decide, by decide, .inl rfl⟩, ?_⟩
    have hbits := x.eq_ofMagnitude
    rwa [hmin, Nat.zero_mul] at hbits
  · obtain ⟨rfl, rfl, rfl⟩ := View.finite.inj h
    rw [Nat.shiftLeft_eq, Nat.one_mul]
    refine ⟨⟨by omega, by omega, by omega, .inr (by omega)⟩, ?_⟩
    have hbits : magnitude (2 ^ 52 + x.fraction) ((x.exponentField : Int) - 1075) =
        x.exponentField * 2 ^ 52 + x.fraction := by
      unfold magnitude
      omega
    rw [hbits]
    exact x.eq_ofMagnitude

/-! ## Rounding to an integer -/

theorem roundDiv_eq_of_le {num den q : Nat} (hden : 0 < den) (hlow : 2 * (q * den) ≤ 2 * num + den)
    (hhigh : 2 * num ≤ 2 * (q * den) + den)
    (heven : 2 * (q * den) = 2 * num + den ∨ 2 * num = 2 * (q * den) + den → q % 2 = 0) :
    roundDiv num den = q := by
  obtain ⟨k, r, hr, rfl⟩ : ∃ k r, r < den ∧ num = k * den + r :=
    ⟨num / den, num % den, Nat.mod_lt num hden, by rw [Nat.mul_comm, Nat.div_add_mod]⟩
  have hdiv : (k * den + r) / den = k := by
    rw [Nat.mul_comm, Nat.mul_add_div hden, Nat.div_eq_of_lt hr, Nat.add_zero]
  have hmod : (k * den + r) % den = r := by
    rw [Nat.mul_comm, Nat.mul_add_mod, Nat.mod_eq_of_lt hr]
  have hq : q = k ∨ q = k + 1 := by
    have hup : q < k + 2 := by
      by_contra hge
      have := Nat.mul_le_mul_right den (Nat.le_of_not_lt hge)
      rw [Nat.add_mul] at this
      omega
    have hdown : k < q + 1 := by
      by_contra hge
      have := Nat.mul_le_mul_right den (Nat.le_of_not_lt hge)
      rw [Nat.add_mul] at this
      omega
    omega
  simp only [roundDiv, hdiv, hmod]
  rcases hq with rfl | rfl
  · split
    · rfl
    · split
      · omega
      · have := heven (.inr (by omega))
        omega
  · rw [Nat.add_mul] at hlow hhigh heven
    split
    · omega
    · split
      · rfl
      · have := heven (.inl (by omega))
        omega

/-- `q` is an integer nearest to `y`, and the even one if there are two. -/
structure NearestInt (y : ℚ) (q : Nat) : Prop where
  low : (q : ℚ) - 1 / 2 ≤ y
  high : y ≤ q + 1 / 2
  even : y = q - 1 / 2 ∨ y = q + 1 / 2 → q % 2 = 0

theorem roundDiv_eq {num den q : Nat} (hden : 0 < den) (h : NearestInt (num / den) q) :
    roundDiv num den = q := by
  have hpos : (0 : ℚ) < den := by exact_mod_cast hden
  have hlow : 2 * (q * den) ≤ 2 * num + den := by
    have hlow := h.low
    rw [le_div_iff₀ hpos] at hlow
    have : (2 * (q * den) : ℚ) ≤ 2 * num + den := by linarith
    exact_mod_cast this
  have hhigh : 2 * num ≤ 2 * (q * den) + den := by
    have hhigh := h.high
    rw [div_le_iff₀ hpos] at hhigh
    have : (2 * num : ℚ) ≤ 2 * (q * den) + den := by linarith
    exact_mod_cast this
  have heven : 2 * (q * den) = 2 * num + den ∨ 2 * num = 2 * (q * den) + den → q % 2 = 0 := by
    rintro (htie | htie)
    · refine h.even (.inl ?_)
      have htie : (2 * (q * den) : ℚ) = 2 * num + den := by exact_mod_cast htie
      rw [div_eq_iff hpos.ne']
      linarith
    · refine h.even (.inr ?_)
      have htie : (2 * num : ℚ) = 2 * (q * den) + den := by exact_mod_cast htie
      rw [div_eq_iff hpos.ne']
      linarith
  exact roundDiv_eq_of_le hden hlow hhigh heven

/-- What is rounded lies within half of the divisor, and a half goes to the even neighbour. -/
theorem roundDiv_bounds (num : Nat) {den : Nat} (hden : 0 < den) :
    2 * (roundDiv num den * den) ≤ 2 * num + den ∧ 2 * num ≤ 2 * (roundDiv num den * den) + den ∧
      (2 * (roundDiv num den * den) = 2 * num + den ∨
        2 * num = 2 * (roundDiv num den * den) + den → roundDiv num den % 2 = 0) := by
  obtain ⟨k, hk⟩ : ∃ k, num / den = k := ⟨_, rfl⟩
  have hcut : k * den + num % den = num := by
    rw [← hk, Nat.mul_comm]
    exact Nat.div_add_mod num den
  have hr := Nat.mod_lt num hden
  have hup : (k + 1) * den = k * den + den := Nat.succ_mul k den
  simp only [roundDiv, hk]
  split_ifs with hdown hover
  · omega
  · omega
  · rcases Nat.mod_two_eq_zero_or_one k with heven | hodd
    · rw [heven, Nat.add_zero]
      omega
    · rw [hodd]
      omega

/-- **The integer that a fraction is rounded to is nearest to it.** -/
theorem nearestInt_roundDiv (num : Nat) {den : Nat} (hden : 0 < den) :
    NearestInt (num / den) (roundDiv num den) := by
  obtain ⟨q, hq⟩ : ∃ q, roundDiv num den = q := ⟨_, rfl⟩
  obtain ⟨hlow, hhigh, heven⟩ := roundDiv_bounds num hden
  rw [hq] at hlow hhigh heven ⊢
  have hpos : (0 : ℚ) < den := by exact_mod_cast hden
  have hlow : (2 * (q * den) : ℚ) ≤ 2 * num + den := by exact_mod_cast hlow
  have hhigh : (2 * num : ℚ) ≤ 2 * (q * den) + den := by exact_mod_cast hhigh
  refine ⟨?_, ?_, ?_⟩
  · rw [le_div_iff₀ hpos]
    linarith
  · rw [div_le_iff₀ hpos]
    linarith
  · rintro (htie | htie)
    · rw [div_eq_iff hpos.ne'] at htie
      have htie : (2 * (q * den) : ℚ) = 2 * num + den := by linarith
      exact heven (.inl (by exact_mod_cast htie))
    · rw [div_eq_iff hpos.ne'] at htie
      have htie : (2 * num : ℚ) = 2 * (q * den) + den := by linarith
      exact heven (.inr (by exact_mod_cast htie))

/-- A power of two goes into the numerator or into the denominator. -/
theorem exists_roundDiv (num : Nat) {den : Nat} (hden : 0 < den) (shift : Int) :
    ∃ n d : Nat, 0 < d ∧ (n : ℚ) / d = num / den * 2 ^ shift ∧
      roundScaled num den shift = roundDiv n d := by
  unfold roundScaled
  split
  · rename_i hshift
    refine ⟨_, _, hden, ?_, rfl⟩
    rw [Nat.shiftLeft_eq]
    obtain ⟨k, rfl⟩ := Int.eq_ofNat_of_zero_le hshift
    push_cast
    rw [Int.toNat_natCast, zpow_natCast, mul_div_right_comm]
  · rename_i hshift
    have hpos : 0 < den <<< (-shift).toNat := by
      rw [Nat.shiftLeft_eq]
      positivity
    refine ⟨_, _, hpos, ?_, rfl⟩
    rw [Nat.shiftLeft_eq]
    obtain ⟨k, hk⟩ := Int.eq_ofNat_of_zero_le (Int.neg_nonneg.2 (Int.le_of_not_le hshift))
    obtain rfl : shift = -(k : Int) := by omega
    rw [hk, Int.toNat_natCast, zpow_neg, zpow_natCast]
    push_cast
    rw [← div_eq_mul_inv, div_div]

theorem roundScaled_eq {num den q : Nat} {shift : Int} (hden : 0 < den)
    (h : NearestInt (num / den * 2 ^ shift) q) : roundScaled num den shift = q := by
  obtain ⟨n, d, hd, hvalue, hround⟩ := exists_roundDiv num hden shift
  rw [hround]
  exact roundDiv_eq hd (hvalue ▸ h)

theorem nearestInt_roundScaled (num : Nat) {den : Nat} (hden : 0 < den) (shift : Int) :
    NearestInt (num / den * 2 ^ shift) (roundScaled num den shift) := by
  obtain ⟨n, d, hd, hvalue, hround⟩ := exists_roundDiv num hden shift
  rw [hround, ← hvalue]
  exact nearestInt_roundDiv n hd

/-! ## The exponent of a fraction -/

theorem two_pow_log2_le {n : Nat} (hn : n ≠ 0) : (2 : ℚ) ^ (n.log2 : Int) ≤ n := by
  rw [zpow_natCast]
  exact_mod_cast Nat.log2_self_le hn

theorem lt_two_pow_log2 (n : Nat) : (n : ℚ) < 2 ^ ((n.log2 : Int) + 1) := by
  rw [← Nat.cast_one, ← Nat.cast_add, zpow_natCast]
  exact_mod_cast Nat.lt_log2_self

/-- How the size of a fraction is compared with a power of two. -/
theorem div_lt_two_pow_iff (num : Nat) {den : Nat} (hden : 0 < den) (k : Int) :
    (num : ℚ) / den < 2 ^ (52 + k) ↔
      if 0 ≤ k then num < den <<< (52 + k.toNat) else num <<< (-k).toNat < den <<< 52 := by
  have hpos : (0 : ℚ) < den := by exact_mod_cast hden
  rw [div_lt_iff₀ hpos]
  split
  · rename_i hk
    obtain ⟨n, rfl⟩ := Int.eq_ofNat_of_zero_le hk
    have hpow : (2 : ℚ) ^ (52 + (n : Int)) = ((2 ^ (52 + n) : Nat) : ℚ) := by
      rw [show (52 : Int) + n = ((52 + n : Nat) : Int) by push_cast; rfl, zpow_natCast]
      push_cast
      rfl
    rw [hpow, Nat.shiftLeft_eq, Int.toNat_natCast, mul_comm]
    exact_mod_cast Iff.rfl
  · rename_i hk
    obtain ⟨n, hn⟩ := Int.eq_ofNat_of_zero_le (Int.neg_nonneg.2 (Int.le_of_not_le hk))
    obtain rfl : k = -(n : Int) := by omega
    have hpow : (2 : ℚ) ^ (52 + -(n : Int)) = 2 ^ 52 / 2 ^ n := by
      rw [zpow_add₀ two_ne_zero, zpow_neg, zpow_natCast, div_eq_mul_inv]
      rfl
    rw [hpow, hn, Int.toNat_natCast, Nat.shiftLeft_eq, Nat.shiftLeft_eq, div_mul_eq_mul_div,
      lt_div_iff₀ (by positivity), mul_comm ((2 : ℚ) ^ 52)]
    exact_mod_cast Iff.rfl

/-- The fraction has 53 bits before the point, in units of `2 ^ unitExponent`, or the exponent is
the least there is. -/
theorem unitExponent_spec {num den : Nat} (hnum : num ≠ 0) (hden : 0 < den) :
    ∃ k : Int, unitExponent num den = max k (-1074) ∧ (2 : ℚ) ^ (52 + k) ≤ num / den ∧
      (num : ℚ) / den < 2 ^ (53 + k) := by
  have hpos : (0 : ℚ) < den := by exact_mod_cast hden
  obtain ⟨guess, hguess⟩ : ∃ guess : Int, (num.log2 : Int) - (den.log2 : Int) - 52 = guess :=
    ⟨_, rfl⟩
  have hlow : (2 : ℚ) ^ (51 + guess) ≤ num / den := by
    rw [le_div_iff₀ hpos]
    calc (2 : ℚ) ^ (51 + guess) * den ≤ 2 ^ (51 + guess) * 2 ^ ((den.log2 : Int) + 1) := by
          gcongr
          exact (lt_two_pow_log2 den).le
      _ = 2 ^ (num.log2 : Int) := by
          rw [← zpow_add₀ two_ne_zero]
          congr 1
          omega
      _ ≤ num := two_pow_log2_le hnum
  have hhigh : (num : ℚ) / den < 2 ^ (53 + guess) := by
    rw [div_lt_iff₀ hpos]
    calc (num : ℚ) < 2 ^ ((num.log2 : Int) + 1) := lt_two_pow_log2 num
      _ = 2 ^ (53 + guess) * 2 ^ (den.log2 : Int) := by
          rw [← zpow_add₀ two_ne_zero]
          congr 1
          omega
      _ ≤ 2 ^ (53 + guess) * den := by
          gcongr
          exact two_pow_log2_le hden.ne'
  have htest := div_lt_two_pow_iff num hden guess
  by_cases hsmall : (num : ℚ) / den < 2 ^ (52 + guess)
  · refine ⟨guess - 1, ?_, ?_, ?_⟩
    · have hcode := htest.1 hsmall
      simp only [unitExponent, hguess]
      split_ifs at hcode ⊢ <;> rfl
    · rwa [show 52 + (guess - 1) = 51 + guess by ring]
    · rwa [show 53 + (guess - 1) = 52 + guess by ring]
  · refine ⟨guess, ?_, not_lt.1 hsmall, hhigh⟩
    have hcode := mt htest.2 hsmall
    simp only [unitExponent, hguess]
    split_ifs at hcode ⊢ <;> rfl

/-- A fraction of `t` units of `2 ^ e` has this unit exponent, if `t` has 53 bits before the point
or the exponent is the least there is. -/
theorem unitExponent_eq {num den : Nat} {e : Int} {t : ℚ} (hnum : num ≠ 0) (hden : 0 < den)
    (hvalue : (num : ℚ) / den = t * 2 ^ e) (he : -1074 ≤ e) (hlow : e = -1074 ∨ 2 ^ 52 ≤ t)
    (hhigh : t < 2 ^ 53) : unitExponent num den = e := by
  have hpow : (0 : ℚ) < 2 ^ e := by positivity
  obtain ⟨k, hk, hklow, hkhigh⟩ := unitExponent_spec hnum hden
  have hle : k ≤ e := by
    have hlt : (2 : ℚ) ^ (52 + k) < 2 ^ (53 + e) := by
      calc (2 : ℚ) ^ (52 + k) ≤ t * 2 ^ e := hvalue ▸ hklow
        _ < 2 ^ 53 * 2 ^ e := mul_lt_mul_of_pos_right hhigh hpow
        _ = 2 ^ (53 + e) := by rw [zpow_add₀ two_ne_zero]; norm_cast
    have := (zpow_lt_zpow_iff_right₀ one_lt_two).1 hlt
    omega
  rcases hlow with rfl | hlow
  · omega
  · have hlt : (2 : ℚ) ^ (52 + e) < 2 ^ (53 + k) := by
      calc (2 : ℚ) ^ (52 + e) = 2 ^ 52 * 2 ^ e := by rw [zpow_add₀ two_ne_zero]; norm_cast
        _ ≤ t * 2 ^ e := mul_le_mul_of_nonneg_right hlow hpow.le
        _ < 2 ^ (53 + k) := hvalue ▸ hkhigh
    have := (zpow_lt_zpow_iff_right₀ one_lt_two).1 hlt
    omega

/-! ## The interval of a number -/

/-- The real lies in the interval. -/
def Interval.Mem (i : Interval) (y : ℚ) : Prop :=
  if i.closed then i.low * 2 ^ i.unit ≤ y ∧ y ≤ i.high * 2 ^ i.unit
  else i.low * 2 ^ i.unit < y ∧ y < i.high * 2 ^ i.unit

/-- The gap below a number, in quarters of its unit. -/
def gapBelow (m : Nat) (e : Int) : Nat := if m = 1 <<< 52 ∧ -1074 < e then 1 else 2

/-- The interval in units of the number: it reaches half a unit to either side, but only a quarter
below a power of two, and its ends are in it if the mantissa is even. -/
structure Around (m : Nat) (e : Int) (t : ℚ) : Prop where
  low : (m : ℚ) - gapBelow m e / 4 ≤ t
  high : t ≤ m + 1 / 2
  even : t = m - gapBelow m e / 4 ∨ t = m + 1 / 2 → m % 2 = 0

theorem around_of_mem {m : Nat} {e : Int} {y : ℚ} (hm : 0 < m) (h : (interval m e).Mem y) :
    Around m e (y * 2 ^ (-e)) := by
  have hunit : (2 : ℚ) ^ (e - 2) * 2 ^ (-e) = 1 / 4 := by
    rw [← zpow_add₀ two_ne_zero, show e - 2 + -e = (-2 : Int) by ring]
    norm_num
  have hgap : gapBelow m e ≤ 4 * m := by
    unfold gapBelow
    split <;> omega
  have hlow : ((interval m e).low : ℚ) * 2 ^ (e - 2) * 2 ^ (-e) = m - gapBelow m e / 4 := by
    rw [mul_assoc, hunit]
    show ((4 * m - gapBelow m e : Nat) : ℚ) * (1 / 4) = _
    rw [Nat.cast_sub hgap]
    push_cast
    ring
  have hhigh : ((interval m e).high : ℚ) * 2 ^ (e - 2) * 2 ^ (-e) = m + 1 / 2 := by
    rw [mul_assoc, hunit]
    show ((4 * m + 2 : Nat) : ℚ) * (1 / 4) = _
    push_cast
    ring
  have hpos : (0 : ℚ) < 2 ^ (-e) := by positivity
  unfold Interval.Mem at h
  split at h
  · rename_i hclosed
    have hl := mul_le_mul_of_nonneg_right h.1 hpos.le
    have hh := mul_le_mul_of_nonneg_right h.2 hpos.le
    rw [show (interval m e).unit = e - 2 from rfl] at hl hh
    rw [hlow] at hl
    rw [hhigh] at hh
    exact ⟨hl, hh, fun _ => by simpa [interval] using hclosed⟩
  · have hl := mul_lt_mul_of_pos_right h.1 hpos
    have hh := mul_lt_mul_of_pos_right h.2 hpos
    rw [show (interval m e).unit = e - 2 from rfl] at hl hh
    rw [hlow] at hl
    rw [hhigh] at hh
    refine ⟨hl.le, hh.le, ?_⟩
    rintro (htie | htie)
    · exact absurd htie hl.ne'
    · exact absurd htie hh.ne

theorem gapBelow_cases (m : Nat) (e : Int) :
    gapBelow m e = 2 ∨ gapBelow m e = 1 ∧ m = 2 ^ 52 ∧ -1074 < e := by
  unfold gapBelow
  split
  · rename_i h
    exact .inr ⟨rfl, h⟩
  · exact .inl rfl

theorem Around.nearestInt {m : Nat} {e : Int} {t : ℚ} (h : Around m e t) : NearestInt t m := by
  rcases gapBelow_cases m e with hgap | ⟨hgap, rfl, -⟩
  · have hlow := h.low
    have heven := h.even
    rw [hgap] at hlow heven
    push_cast at hlow heven
    norm_num at hlow heven
    exact ⟨by linarith, h.high, by norm_num; exact heven⟩
  · have hlow := h.low
    rw [hgap] at hlow
    refine ⟨?_, h.high, fun _ => by norm_num⟩
    push_cast at hlow ⊢
    linarith

theorem InRange.magnitude_lt {m : Nat} {e : Int} (h : InRange m e) :
    magnitude m e < 2047 <<< 52 := by
  obtain ⟨hm, hlow, hhigh, -⟩ := h
  rw [magnitude, Nat.shiftLeft_eq]
  omega

theorem ofRatio_of_rounded {negative : Bool} {num den m q : Nat} {e exponent : Int} (hnum : num ≠ 0)
    (hden : 0 < den) (hrange : InRange m e) (hexponent : unitExponent num den = exponent)
    (hround : NearestInt (num / den * 2 ^ (-exponent)) q)
    (hcarry : (exponent + 1074).toNat * 2 ^ 52 + q = magnitude m e) :
    ofRatio negative num den = ofMagnitude negative (magnitude m e) := by
  unfold ofRatio
  rw [if_neg hnum, hexponent]
  dsimp only
  rw [roundScaled_eq hden hround, Nat.shiftLeft_eq, hcarry,
    Nat.min_eq_left hrange.magnitude_lt.le]

/-- Just below a power of two only the power itself is so near. -/
theorem Around.below_two_pow {m : Nat} {e : Int} {t : ℚ} (h : Around m e t) (hrange : InRange m e)
    (he : -1074 < e) (ht : t < 2 ^ 52) : m = 2 ^ 52 ∧ 2 ^ 52 - 1 / 4 ≤ t := by
  have hmlow : 2 ^ 52 ≤ m := hrange.normal.resolve_left (by omega)
  have hmeq : m = 2 ^ 52 := by
    by_contra hne
    have : (2 : ℚ) ^ 52 + 1 ≤ m := by exact_mod_cast (show 2 ^ 52 + 1 ≤ m by omega)
    linarith [h.nearestInt.low]
  have hgap : gapBelow m e = 1 := by rw [gapBelow, if_pos ⟨hmeq, he⟩]
  have hlow := h.low
  rw [hgap, hmeq] at hlow
  push_cast at hlow
  exact ⟨hmeq, by linarith⟩

/-- **A fraction in the interval of a number is rounded to the number.** -/
theorem ofRatio_eq_of_mem {negative : Bool} {num den m : Nat} {e : Int} (hden : 0 < den)
    (hm : 0 < m) (hrange : InRange m e) (h : (interval m e).Mem (num / den)) :
    ofRatio negative num den = ofMagnitude negative (magnitude m e) := by
  obtain ⟨t, ht⟩ : ∃ t : ℚ, (num : ℚ) / den * 2 ^ (-e) = t := ⟨_, rfl⟩
  have haround : Around m e t := ht ▸ around_of_mem hm h
  have hnear := haround.nearestInt
  have hvalue : (num : ℚ) / den = t * 2 ^ e := by
    rw [← ht, mul_assoc, ← zpow_add₀ two_ne_zero, neg_add_cancel, zpow_zero, mul_one]
  have hmone : (1 : ℚ) ≤ m := by exact_mod_cast hm
  have hnum : num ≠ 0 := by
    rintro rfl
    have hzero : t = 0 := by rw [← ht]; simp
    linarith [hnear.low]
  by_cases hbelow : -1074 < e ∧ t < 2 ^ 52
  · -- one more bit before the point, and rounding up carries
    obtain ⟨rfl, hlow⟩ := haround.below_two_pow hrange hbelow.1 hbelow.2
    have hdouble : (num : ℚ) / den = 2 * t * 2 ^ (e - 1) := by
      rw [hvalue, zpow_sub_one₀ two_ne_zero]
      ring
    have hexponent : unitExponent num den = e - 1 :=
      unitExponent_eq hnum hden hdouble (by omega) (.inr (by linarith)) (by linarith [hbelow.2])
    refine ofRatio_of_rounded (q := 2 ^ 53) hnum hden hrange hexponent ?_ ?_
    · rw [hdouble, mul_assoc, ← zpow_add₀ two_ne_zero, add_neg_cancel, zpow_zero, mul_one]
      refine ⟨?_, ?_, fun _ => by norm_num⟩
      · push_cast
        linarith
      · push_cast
        linarith [hbelow.2]
    · rw [magnitude]
      omega
  · have hlow : e = -1074 ∨ 2 ^ 52 ≤ t := by
      rcases Int.lt_or_eq_of_le hrange.low with he | he
      · exact .inr (not_lt.1 fun hlt => hbelow ⟨he, hlt⟩)
      · exact .inl he.symm
    have hhigh : t < 2 ^ 53 := by
      have hle : (m : ℚ) + 1 ≤ 2 ^ 53 := by exact_mod_cast hrange.mantissa_lt
      linarith [hnear.high]
    have hexponent : unitExponent num den = e :=
      unitExponent_eq hnum hden hvalue hrange.low hlow hhigh
    exact ofRatio_of_rounded hnum hden hrange hexponent (ht ▸ hnear) rfl

end TaskRunner.Number
