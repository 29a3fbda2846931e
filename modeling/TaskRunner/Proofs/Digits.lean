import Mathlib.Algebra.Group.Nat.Defs
import Mathlib.Data.List.Basic
import TaskRunner.Grammar.Token

/-!
# Decimal digits

`Number.digits` writes a natural number and `Number.ofDigits` reads it back, whatever its size.
Zeros in front make no difference, and there are none in what is written. A number that is written
with all of its places and then cut (`Number.fixed`) has a whole part that is left alone, and behind
it what is left of the places (`fixed_of_view`).
-/
namespace TaskRunner.Number

open Grammar (isDigit)

theorem isDigit_of_mem_digits {n : Nat} : ∀ c ∈ digits n, isDigit c = true := by
  intro c hc
  have hdigit := Nat.isDigit_of_mem_toDigits (by decide) (by decide) hc
  simpa [Char.isDigit, isDigit, Char.le_def] using hdigit

theorem ofDigits_eq (ds : List Char) : ofDigits ds = Nat.ofDigitChars 10 ds 0 := rfl

theorem ofDigits_digits (n : Nat) : ofDigits (digits n) = n := Nat.ofDigitChars_ten_toDigits

theorem ofDigits_zeros_append (k : Nat) (ds : List Char) :
    ofDigits (List.replicate k '0' ++ ds) = ofDigits ds := by
  rw [ofDigits_eq, Nat.ofDigitChars_append, Nat.ofDigitChars_replicate_zero, Nat.mul_zero]
  rfl

theorem ofDigits_append_zeros (ds : List Char) (k : Nat) :
    ofDigits (ds ++ List.replicate k '0') = 10 ^ k * ofDigits ds := by
  rw [ofDigits_eq, Nat.ofDigitChars_append, Nat.ofDigitChars_replicate_zero]
  rfl

theorem head?_digits {n : Nat} (hn : 0 < n) : (digits n).head? ≠ some '0' := by
  induction n using Nat.strongRecOn with
  | ind n ih =>
    rw [digits, Nat.toDigits_eq_if (by decide)]
    split
    · rename_i hlt
      have hdigit : ∀ k < 10, 0 < k → Nat.digitChar k ≠ '0' := by decide
      simpa using hdigit n hlt hn
    · rename_i hge
      have hdiv := ih (n / 10) (Nat.div_lt_self hn (by decide)) (by omega)
      rw [List.head?_append_of_ne_nil _ Nat.toDigits_ne_nil]
      exact hdiv

/-! ## Places -/

/-- The digits after the point, less the zeros at the end. -/
def fractionDigits (f : Nat) : List Char := dropZeros (placeDigits f)

/-- A magnitude given in units of the last place, with a point if there are digits behind it. -/
def fixedMagnitude (n : Nat) : List Char :=
  let tail := fractionDigits (n % Nat.pow 10 places)
  digits (n / Nat.pow 10 places) ++ (if tail.isEmpty then [] else '.' :: tail)

theorem isDigit_of_mem_fractionDigits {n : Nat} : ∀ c ∈ fractionDigits n, isDigit c = true := by
  intro c hc
  rw [fractionDigits, dropZeros, List.mem_reverse] at hc
  have hmem := (List.dropWhile_suffix _).mem hc
  rw [List.mem_reverse, placeDigits, List.mem_append] at hmem
  rcases hmem with hzero | hdigit
  · rw [(List.mem_replicate.1 hzero).2]
    decide
  · exact isDigit_of_mem_digits c hdigit

theorem dropZeros_append_point (s t : List Char) :
    dropZeros (s ++ '.' :: t) = s ++ '.' :: dropZeros t := by
  have hpoint : ('.' :: s.reverse).dropWhile (· == '0') = '.' :: s.reverse := by
    simp
  have hreverse : (s ++ '.' :: t).reverse = t.reverse ++ '.' :: s.reverse := by simp
  rw [dropZeros, dropZeros, hreverse, List.dropWhile_append, hpoint]
  split
  · rename_i hzeros
    simp [List.isEmpty_iff.1 hzeros]
  · simp

theorem dropPoint_append_point (s : List Char) {t : List Char} (ht : ∀ c ∈ t, isDigit c = true) :
    dropPoint (s ++ '.' :: t) = s ++ if t.isEmpty then [] else '.' :: t := by
  rcases List.eq_nil_or_concat t with rfl | ⟨u, c, rfl⟩
  · simp [dropPoint]
  · have hc : c ≠ '.' := by
      rintro rfl
      exact absurd (ht '.' (by simp)) (by decide)
    have hlast : (s ++ '.' :: u.concat c).getLast? = some c := by
      rw [List.concat_eq_append, ← List.cons_append, ← List.append_assoc, List.getLast?_concat]
    rw [dropPoint, hlast, if_neg (by simpa using hc)]
    simp

/-- **A finite number is written with its sign and its magnitude.** -/
theorem fixed_of_view {x : Number} {negative : Bool} {m : Nat} {e : Int}
    (h : x.view = .finite negative m e) :
    x.fixed = (if negative then ['-'] else []) ++ fixedMagnitude (inPlaces m e) := by
  have hpoint : x.inFull.contains '.' = true := by simp [inFull, h, fullMagnitude]
  rw [fixed, if_pos hpoint, inFull, h]
  simp only [fullMagnitude]
  rw [← List.append_assoc, dropZeros_append_point, ← fractionDigits,
    dropPoint_append_point _ isDigit_of_mem_fractionDigits, List.append_assoc, fixedMagnitude]

end TaskRunner.Number
