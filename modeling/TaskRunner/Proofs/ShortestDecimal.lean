import TaskRunner.Proofs.Rounding

/-!
# The shortest decimal reads back

`shortest` looks through the decimal grids and takes a point of the first grid that has one in the
interval of the number. The grid `10 ^ -324` is finer than the interval of every number and is
always among those that are looked through, so a point is found (`shortest_mem`), and what is in the
interval is rounded to the number again (`ofScientific_eq_of_mem`).
-/
namespace TaskRunner.Number

/-! ## Grids -/

/-- The quotient of the two factors is `10 ^ power / 2 ^ unit`. -/
theorem decimalFactor_mul (power unit : Int) :
    (decimalFactor power unit : ℚ) * 2 ^ unit = binaryFactor power unit * 10 ^ power := by
  have hsplit (b : ℚ) (hb : b ≠ 0) (k : Int) : b ^ k.toNat = b ^ (-k).toNat * b ^ k := by
    rcases Int.le_total 0 k with hk | hk
    · obtain ⟨n, rfl⟩ := Int.eq_ofNat_of_zero_le hk
      simp
    · obtain ⟨n, hn⟩ := Int.eq_ofNat_of_zero_le (Int.neg_nonneg.2 hk)
      obtain rfl : k = -(n : Int) := by omega
      simp [hb]
  have htwo : (2 : ℚ) ^ (-unit).toNat * 2 ^ unit = 2 ^ unit.toNat :=
    (hsplit 2 two_ne_zero unit).symm
  have hten : (10 : ℚ) ^ power.toNat = 10 ^ (-power).toNat * 10 ^ power :=
    hsplit 10 (by norm_num) power
  simp only [decimalFactor, binaryFactor, Nat.shiftLeft_eq, Nat.pow_eq]
  push_cast
  rw [mul_assoc, htwo, hten]
  ring

theorem binaryFactor_pos (power unit : Int) : 0 < binaryFactor power unit := by
  rw [binaryFactor, Nat.shiftLeft_eq, Nat.pow_eq]
  positivity

theorem decimalFactor_pos (power unit : Int) : 0 < decimalFactor power unit := by
  rw [decimalFactor, Nat.shiftLeft_eq, Nat.pow_eq]
  positivity

/-- Both factors bring their numbers to one scale. -/
theorem exists_scale (power unit : Int) : ∃ c : ℚ, 0 < c ∧
    (binaryFactor power unit : ℚ) = 2 ^ unit * c ∧
      (decimalFactor power unit : ℚ) = 10 ^ power * c := by
  have hunit : (0 : ℚ) < 2 ^ unit := by positivity
  have hbinary : (0 : ℚ) < binaryFactor power unit := by exact_mod_cast binaryFactor_pos power unit
  refine ⟨binaryFactor power unit / 2 ^ unit, by positivity, ?_, ?_⟩
  · rw [mul_div_cancel₀ _ hunit.ne']
  · rw [← mul_div_assoc, eq_div_iff hunit.ne', decimalFactor_mul, mul_comm]

theorem factor_le_iff {a n : Nat} {power unit : Int} :
    a * binaryFactor power unit ≤ n * decimalFactor power unit ↔
      (a : ℚ) * 2 ^ unit ≤ n * 10 ^ power := by
  obtain ⟨c, hc, hbinary, hdecimal⟩ := exists_scale power unit
  rw [← Nat.cast_le (α := ℚ), Nat.cast_mul, Nat.cast_mul, hbinary, hdecimal, ← mul_assoc,
    ← mul_assoc, mul_le_mul_iff_left₀ hc]

theorem le_factor_iff {a n : Nat} {power unit : Int} :
    n * decimalFactor power unit ≤ a * binaryFactor power unit ↔
      (n : ℚ) * 10 ^ power ≤ a * 2 ^ unit := by
  obtain ⟨c, hc, hbinary, hdecimal⟩ := exists_scale power unit
  rw [← Nat.cast_le (α := ℚ), Nat.cast_mul, Nat.cast_mul, hbinary, hdecimal, ← mul_assoc,
    ← mul_assoc, mul_le_mul_iff_left₀ hc]

namespace Interval

variable {i : Interval} {power : Int} {n : Nat}

theorem holds_iff : i.holds power n = true ↔ i.Mem (n * 10 ^ power) := by
  unfold holds Mem
  split
  · simp only [Bool.and_eq_true, decide_eq_true_eq, factor_le_iff, le_factor_iff]
  · simp only [Bool.and_eq_true, decide_eq_true_eq, ← not_le, factor_le_iff, le_factor_iff]

/-- A point that is found lies in the interval. -/
theorem holds_of_gridPoint (h : i.gridPoint power = some n) : i.holds power n = true := by
  unfold gridPoint at h
  dsimp only at h
  split at h
  · rename_i hdown hup
    cases h
    unfold roundDiv
    dsimp only
    split_ifs
    · exact hdown
    · exact hup
    · rcases Nat.mod_two_eq_zero_or_one
        (i.middle * binaryFactor power i.unit / decimalFactor power i.unit) with heven | hodd
      · rw [heven]
        exact hdown
      · rw [hodd]
        exact hup
  · rename_i hdown hup
    cases h
    exact hdown
  · rename_i hdown hup
    cases h
    exact hup
  · cases h

/-- A grid that is fine enough has a point in the interval, next to the middle. -/
theorem gridPoint_isSome (hlow : i.low < i.middle) (hhigh : i.middle < i.high)
    (hfine : decimalFactor power i.unit ≤ binaryFactor power i.unit) :
    (i.gridPoint power).isSome = true := by
  have hdown : i.holds power
      (i.middle * binaryFactor power i.unit / decimalFactor power i.unit) = true := by
    have hfloor := Nat.div_mul_le_self (i.middle * binaryFactor power i.unit)
      (decimalFactor power i.unit)
    have hceil := Nat.lt_mul_div_succ (i.middle * binaryFactor power i.unit)
      (decimalFactor_pos power i.unit)
    have hleft := Nat.mul_le_mul_right (binaryFactor power i.unit) hlow
    have hright := Nat.mul_le_mul_right (binaryFactor power i.unit) hhigh
    have hpos := binaryFactor_pos power i.unit
    rw [Nat.succ_mul] at hleft hright
    rw [Nat.mul_succ, Nat.mul_comm (decimalFactor power i.unit)] at hceil
    unfold holds
    dsimp only
    split
    · simp only [Bool.and_eq_true, decide_eq_true_eq]
      omega
    · simp only [Bool.and_eq_true, decide_eq_true_eq]
      omega
  unfold gridPoint
  dsimp only
  rw [hdown]
  split <;> simp_all

/-- **Step and run of the search**: it ends with a point of the interval, if one of the grids that
are looked through has one. -/
theorem holds_search : ∀ {count : Nat} {power : Int} {j : Nat}, j < count →
    (i.gridPoint (power - j)).isSome = true →
    i.holds (i.search count power).power (i.search count power).coefficient = true
  | 0, _, _, hj, _ => absurd hj (Nat.not_lt_zero _)
  | count + 1, power, j, hj, hfound => by
    unfold search
    split
    · rename_i n hn
      exact holds_of_gridPoint hn
    · rename_i hnone
      cases j with
      | zero =>
        rw [Int.natCast_zero, Int.sub_zero, hnone] at hfound
        cases hfound
      | succ j =>
        refine holds_search (Nat.lt_of_succ_lt_succ hj) (j := j) ?_
        rw [← hfound]
        congr 2
        push_cast
        ring

end Interval

/-! ## The decimal of a number -/

/-- The grid `10 ^ -324` is finer than a quarter of the least unit there is. -/
theorem factor_finest {unit : Int} (h : -1076 ≤ unit) :
    decimalFactor (-324) unit ≤ binaryFactor (-324) unit := by
  have hexponent : (-unit).toNat ≤ 1076 := by omega
  have hpower : 2 ^ 1076 ≤ Nat.pow 10 (-(-324 : Int)).toNat := by decide +kernel
  have hfinest : 2 ^ (-unit).toNat ≤ Nat.pow 10 (-(-324 : Int)).toNat :=
    (pow_le_pow_right₀ one_le_two hexponent).trans hpower
  rw [decimalFactor, binaryFactor, Nat.shiftLeft_eq, Nat.shiftLeft_eq,
    show Nat.pow 10 (-324 : Int).toNat = 1 from rfl, Nat.one_mul]
  exact hfinest.trans (Nat.le_mul_of_pos_right _ (by positivity))

/-- The grid `10 ^ -324` is among those that are looked through. -/
theorem InRange.coarsest_bounds {m : Nat} {e : Int} (h : InRange m e) (hm : 0 < m) :
    -324 ≤ (interval m e).coarsest ∧ (interval m e).coarsest ≤ 315 := by
  obtain ⟨hlt, hlow, hhigh, -⟩ := h
  have hlog_low : 2 ≤ (4 * m + 2).log2 := (Nat.le_log2 (by omega)).2 (by omega)
  have hlog_high : (4 * m + 2).log2 < 55 := (Nat.log2_lt (by omega)).2 (by omega)
  simp only [Interval.coarsest, interval]
  omega

/-- **The shortest decimal of a number lies in its interval.** -/
theorem shortest_mem {m : Nat} {e : Int} (h : InRange m e) (hm : 0 < m) :
    (interval m e).Mem ((shortest m e).coefficient * 10 ^ (shortest m e).power) := by
  have hbelow := gapBelow_cases m e
  have hlow : (interval m e).low < (interval m e).middle := by
    show 4 * m - gapBelow m e < 4 * m
    omega
  have hhigh : (interval m e).middle < (interval m e).high := by
    show 4 * m < 4 * m + 2
    omega
  have hfinest : decimalFactor (-324) (interval m e).unit ≤
      binaryFactor (-324) (interval m e).unit :=
    factor_finest (by have := h.low; show -1076 ≤ e - 2; omega)
  obtain ⟨hmin, hmax⟩ := h.coarsest_bounds hm
  have hgrid : (interval m e).coarsest - ((interval m e).coarsest + 324).toNat = -324 := by omega
  refine Interval.holds_iff.1
    (Interval.holds_search (j := ((interval m e).coarsest + 324).toNat) ?_ ?_)
  · omega
  · rw [hgrid]
    exact Interval.gridPoint_isSome hlow hhigh hfinest

theorem shortest_pos {m : Nat} {e : Int} (h : InRange m e) (hm : 0 < m) :
    0 < (shortest m e).coefficient := by
  have haround := around_of_mem hm (shortest_mem h hm)
  have hmone : (1 : ℚ) ≤ m := by exact_mod_cast hm
  rw [Nat.pos_iff_ne_zero]
  intro hzero
  rw [hzero] at haround
  have hlow := haround.nearestInt.low
  rw [Nat.cast_zero, zero_mul, zero_mul] at hlow
  linarith

/-- Reading depends on the value of the decimal alone, if that lies in the interval of a number. -/
theorem ofScientific_eq_of_mem {negative : Bool} {m n : Nat} {e power : Int} (h : InRange m e)
    (hm : 0 < m) (hmem : (interval m e).Mem (n * 10 ^ power)) :
    ofScientific negative n power = ofMagnitude negative (magnitude m e) := by
  unfold ofScientific
  split
  · rename_i hpower
    refine ofRatio_eq_of_mem (by decide) hm h ?_
    obtain ⟨k, rfl⟩ := Int.eq_ofNat_of_zero_le hpower
    simpa using hmem
  · rename_i hpower
    refine ofRatio_eq_of_mem (Nat.pow_pos (by decide)) hm h ?_
    obtain ⟨k, hk⟩ := Int.eq_ofNat_of_zero_le (Int.neg_nonneg.2 (Int.le_of_not_le hpower))
    obtain rfl : power = -(k : Int) := by omega
    simpa [div_eq_mul_inv] using hmem

end TaskRunner.Number
