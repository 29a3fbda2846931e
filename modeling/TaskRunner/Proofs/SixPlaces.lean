import Mathlib.Algebra.Order.Group.Unbundled.Int
import Mathlib.Algebra.Group.Int.Even
import TaskRunner.Proofs.Interpretation
import TaskRunner.Proofs.JsonPrint

/-!
# Six places

A number is written in commands as a decimal with at most six digits behind the point. The decimal
is the multiple of a millionth that is nearest to the exact value of the number, and the even one if
there are two (`format_millionths`). Zeros are only dropped behind the point, where they do not
count, so the whole part has all of its digits.
-/
namespace TaskRunner.Number

open Grammar (isDigit)
open Json (IsWhole Fraction signText)

/-! ## The nearest multiple -/

/-- The exact value of a finite number. -/
def value? (x : Number) : Option ℚ :=
  match x.view with
  | .nan => none
  | .infinite _ => none
  | .finite negative m e => some (exact negative m e)

/-- No multiple of the unit is nearer to the value than the given one, and if another one is as
near, the given one is even. -/
structure Nearest (unit value : ℚ) (n : ℤ) : Prop where
  le : ∀ k : ℤ, |value - n * unit| ≤ |value - k * unit|
  even : ∀ k : ℤ, k ≠ n → |value - k * unit| = |value - n * unit| → Even n

/-- Distances in units. -/
theorem abs_sub_mul {unit value : ℚ} (hunit : 0 < unit) (k : ℤ) :
    |value - k * unit| = |value / unit - k| * unit := by
  have hcut : value - k * unit = (value / unit - k) * unit := by
    rw [sub_mul, div_mul_cancel₀ _ hunit.ne']
  rw [hcut, abs_mul, abs_of_pos hunit]

/-- Another integer is at least one away. -/
theorem one_le_abs_add {t : ℚ} {n k : ℤ} (hk : k ≠ n) : 1 ≤ |t - n| + |t - k| := by
  have hone : (1 : ℤ) ≤ |n - k| := Int.one_le_abs (sub_ne_zero.2 hk.symm)
  have hone : (1 : ℚ) ≤ |(n : ℚ) - k| := by exact_mod_cast hone
  have htriangle := abs_sub_le (n : ℚ) t k
  rw [abs_sub_comm (n : ℚ) t] at htriangle
  linarith

/-- It is enough to be within half a unit. -/
theorem nearest_of_half {unit value : ℚ} (hunit : 0 < unit) {n : ℤ}
    (hhalf : |value / unit - n| ≤ 1 / 2) (heven : |value / unit - n| = 1 / 2 → Even n) :
    Nearest unit value n := by
  constructor
  · intro k
    rw [abs_sub_mul hunit, abs_sub_mul hunit]
    refine mul_le_mul_of_nonneg_right ?_ hunit.le
    by_cases hk : k = n
    · rw [hk]
    · have hone := one_le_abs_add (t := value / unit) hk
      linarith
  · intro k hk htie
    rw [abs_sub_mul hunit, abs_sub_mul hunit] at htie
    have htie := mul_right_cancel₀ hunit.ne' htie
    have hone := one_le_abs_add (t := value / unit) hk
    exact heven (by linarith)

theorem NearestInt.half {y : ℚ} {q : Nat} (h : NearestInt y q) :
    |y - q| ≤ 1 / 2 ∧ (|y - q| = 1 / 2 → Even q) := by
  constructor
  · rw [abs_le]
    constructor <;> linarith [h.low, h.high]
  · intro htie
    refine Nat.even_iff.2 (h.even ?_)
    rcases (abs_eq (by norm_num)).1 htie with hhigh | hlow
    · exact .inr (by linarith)
    · exact .inl (by linarith)

/-- The sign of a number goes with the multiple. -/
theorem nearest_exact {negative : Bool} {m q : Nat} {e : Int} {unit : ℚ} (hunit : 0 < unit)
    (h : NearestInt (m * 2 ^ e / unit) q) :
    Nearest unit (exact negative m e) ((if negative then -1 else 1) * q) := by
  obtain ⟨hhalf, heven⟩ := h.half
  have hvalue : |exact negative m e / unit - (((if negative then -1 else 1) * q : ℤ) : ℚ)| =
      |m * 2 ^ e / unit - q| := by
    cases negative with
    | false => simp [exact]
    | true =>
      have hneg : exact true m e / unit - ((-1 * q : ℤ) : ℚ) = -(m * 2 ^ e / unit - q) := by
        rw [exact, if_pos rfl]
        push_cast
        ring
      rw [if_pos rfl, hneg, abs_neg]
  refine nearest_of_half hunit (hvalue ▸ hhalf) fun htie => ?_
  have hq : Even (q : ℤ) := (Int.even_coe_nat q).2 (heven (hvalue ▸ htie))
  exact hq.mul_left _

/-! ## Digits -/

/-- Zeros at the end are dropped and nothing else. -/
theorem exists_zeros (ds : List Char) :
    ∃ k, ds = dropZeros ds ++ List.replicate k '0' := by
  have hzeros : (ds.reverse.takeWhile (· == '0')).reverse =
      List.replicate (ds.reverse.takeWhile (· == '0')).length '0' := by
    rw [← List.length_reverse]
    refine List.eq_replicate_of_mem fun c hc => ?_
    simpa using List.mem_takeWhile_imp (List.mem_reverse.1 hc)
  refine ⟨(ds.reverse.takeWhile (· == '0')).length, ?_⟩
  rw [dropZeros, ← hzeros, ← List.reverse_append, List.takeWhile_append_dropWhile,
    List.reverse_reverse]

theorem exists_length_fractionDigits {f : Nat} (hf : f < 10 ^ 6) :
    ∃ k, (fractionDigits f).length + k = 6 ∧ 10 ^ k * ofDigits (fractionDigits f) = f := by
  obtain ⟨ds, hds⟩ : ∃ ds, List.replicate (6 - (digits f).length) '0' ++ digits f = ds := ⟨_, rfl⟩
  have hfraction : fractionDigits f = dropZeros ds := by
    rw [← hds]
    rfl
  obtain ⟨k, hcut⟩ := exists_zeros ds
  rw [← hfraction] at hcut
  refine ⟨k, ?_, ?_⟩
  · have hle : (digits f).length ≤ 6 := (Nat.length_toDigits_le_iff (by decide) (by decide)).2 hf
    have hlength := congrArg List.length (hds.trans hcut)
    simp only [List.length_append, List.length_replicate] at hlength
    omega
  · rw [← ofDigits_append_zeros, ← hcut, ← hds, ofDigits_zeros_append, ofDigits_digits]

theorem getLast?_fractionDigits (f : Nat) : (fractionDigits f).getLast? ≠ some '0' := by
  rw [fractionDigits, dropZeros, List.getLast?_reverse]
  intro h
  have hstop := Text.stopsAt_dropWhile (· == '0') _ '0' h
  simp at hstop

theorem isWhole_digits (n : Nat) : IsWhole (digits n) := by
  rcases Nat.eq_zero_or_pos n with rfl | hn
  · exact Json.isWhole_zero
  · exact Json.isWhole_of_head hn (Json.isDigits_digits n) rfl

/-- There is a point if there are digits behind it. -/
theorem fraction_of_isDigit {ds : List Char} (hds : ∀ c ∈ ds, isDigit c = true) :
    Fraction ds (if ds.isEmpty then [] else '.' :: ds) := by
  cases ds with
  | nil => exact .none
  | cons c ds => exact .some ⟨by simp, hds⟩

/-- What a decimal with these digits before and behind the point stands for. -/
def decimal (negative : Bool) (whole fraction : List Char) : ℚ :=
  (if negative then -1 else 1) * (ofDigits whole + ofDigits fraction / 10 ^ fraction.length)

/-- The digits behind the point stand for the given number of millionths. -/
theorem ofDigits_fractionDigits {f : Nat} (hf : f < 10 ^ 6) :
    (ofDigits (fractionDigits f) : ℚ) / 10 ^ (fractionDigits f).length = f / 10 ^ 6 := by
  obtain ⟨k, hlength, hvalue⟩ := exists_length_fractionDigits hf
  obtain ⟨ds, hds⟩ : ∃ ds, fractionDigits f = ds := ⟨_, rfl⟩
  rw [hds] at hlength hvalue ⊢
  have hvalue : (f : ℚ) = 10 ^ k * ofDigits ds := by exact_mod_cast hvalue.symm
  rw [div_eq_div_iff (by positivity) (by positivity), hvalue, ← hlength, pow_add]
  ring

/-- A number of millionths, cut at the point, stands for that many. -/
theorem decimal_digits (negative : Bool) (n : Nat) :
    decimal negative (digits (n / 10 ^ 6)) (fractionDigits (n % 10 ^ 6)) =
      ((if negative then -1 else 1) * n : ℤ) * (1 / 10 ^ 6) := by
  have hcut : (n : ℚ) = (n / 10 ^ 6 : Nat) * 10 ^ 6 + (n % 10 ^ 6 : Nat) := by
    exact_mod_cast (Nat.div_add_mod' n (10 ^ 6)).symm
  have hfraction := ofDigits_fractionDigits (Nat.mod_lt n (by decide : 0 < 10 ^ 6))
  have hvalue : decimal negative (digits (n / 10 ^ 6)) (fractionDigits (n % 10 ^ 6)) =
      (if negative then -1 else 1) * (n * (1 / 10 ^ 6)) := by
    rw [decimal, ofDigits_digits, hfraction, hcut]
    ring
  rw [hvalue]
  cases negative <;> simp

/-! ## Numbers -/

/-- A sign, a whole part without a zero in front of other digits and at most six digits behind the
point, of which the last is no zero. Together they stand for `n` millionths. -/
inductive Millionths (negative : Bool) (n : ℤ) : String → Prop
  | intro {whole fraction point : List Char} : IsWhole whole → Fraction fraction point →
    fraction.length ≤ 6 → fraction.getLast? ≠ some '0' →
    decimal negative whole fraction = n * (1 / 10 ^ 6) →
    Millionths negative n (String.ofList (signText negative ++ (whole ++ point)))

theorem millionths_fixedMagnitude (negative : Bool) (n : Nat) :
    Millionths negative ((if negative then -1 else 1) * n)
      (String.ofList (signText negative ++ fixedMagnitude n)) := by
  obtain ⟨k, hlength, -⟩ := exists_length_fractionDigits (Nat.mod_lt n (by decide : 0 < 10 ^ 6))
  have hlength : (fractionDigits (n % 10 ^ 6)).length ≤ 6 := by omega
  exact .intro (isWhole_digits _) (fraction_of_isDigit isDigit_of_mem_fractionDigits) hlength
    (getLast?_fractionDigits _) (decimal_digits negative n)

theorem nearestInt_inPlaces (m : Nat) (e : Int) :
    NearestInt (m * 2 ^ e / (1 / 10 ^ 6)) (inPlaces m e) := by
  have hunits : (m * 2 ^ e / (1 / 10 ^ 6) : ℚ) = (m * 10 ^ 6 : Nat) / (1 : Nat) * 2 ^ e := by
    push_cast
    ring
  rw [hunits]
  exact nearestInt_roundScaled (m * 10 ^ 6) Nat.one_pos e

/-- **A finite number is written as the nearest multiple of a millionth**, with a `-` exactly if the
sign bit is set. Of two nearest multiples it is the even one. -/
theorem format_millionths {x : Number} (hx : x.IsFinite) :
    ∃ v n, x.value? = some v ∧ Nearest (1 / 10 ^ 6) v n ∧ Millionths x.isNegative n x.format := by
  obtain ⟨m, e, hview⟩ := view_of_isFinite hx
  refine ⟨exact x.isNegative m e, (if x.isNegative then -1 else 1) * inPlaces m e, ?_, ?_, ?_⟩
  · rw [value?, hview]
  · exact nearest_exact (by norm_num) (nearestInt_inPlaces m e)
  · rw [format, fixed_of_view hview]
    exact millionths_fixedMagnitude x.isNegative (inPlaces m e)

/-- Minus the seventh power of a half, which is half way between two millionths. -/
def tie : Number := ⟨0xbf80000000000000⟩

theorem format_millionths_tie : tie.IsFinite ∧ tie.format = "-0.007812" ∧
    ∃ v n, tie.value? = some v ∧ Nearest (1 / 10 ^ 6) v n ∧ Millionths true n "-0.007812" := by
  have hfinite : tie.IsFinite := by decide
  have hformat : tie.format = "-0.007812" := by decide +kernel
  refine ⟨hfinite, hformat, ?_⟩
  rw [← hformat]
  exact format_millionths hfinite

end TaskRunner.Number
