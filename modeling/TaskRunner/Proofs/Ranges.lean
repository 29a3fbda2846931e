import TaskRunner.Proofs.Digits
import TaskRunner.Proofs.Keys

/-!
# Ranges with bounds of any size

The key `first:last` asks for the arguments from `first` to `last`, and a `last` beyond the
arguments should be as good as the last of them. It is, up to a point: a bound that does not fit
into an integer of 64 bits makes the key the name of a variable (`Context.resolve_range_clamped`).
An index has no such point, though it is read into an integer as well, because an index that is too
large is as good as any other that is beyond the arguments.
-/
namespace TaskRunner

open Grammar

namespace Key

/-- The key of a range, with its bounds in decimal. -/
def ofRange (first last : Nat) : List Char := Number.digits first ++ ':' :: Number.digits last

theorem colon_mem_ofRange (first last : Nat) : ':' ∈ ofRange first last := by
  simp [ofRange]

theorem bounds?_ofRange (first last : Nat) :
    bounds? (ofRange first last) = some (Number.digits first, Number.digits last) := by
  rw [bounds?_eq_some]
  refine ⟨[], [], ?_⟩
  constructor
  · simp [ofRange]
  · exact Nat.toDigits_ne_nil
  · exact Number.isDigit_of_mem_digits
  · exact Number.isDigit_of_mem_digits
  · exact Text.stopsAt_nil
  · exact Text.stopsAt_nil
  · -- there is no colon among the digits of the first bound
    intro u d v h
    have hcolon : ':' ∈ Number.digits first := by
      rw [← List.nil_append (Number.digits first), h]
      simp
    exact absurd (Number.isDigit_of_mem_digits _ hcolon) (by decide)

theorem bound?_eq_none {n : Nat} (h : 2 ^ 63 ≤ n) : bound? n = none :=
  if_neg (mt fits_iff.1 (Nat.not_lt.2 h))

/-- A last bound that is written down has nothing to do with the number of arguments. -/
theorem last?_digits (count last : Nat) : last? count (Number.digits last) = bound? last := by
  have hne : (Number.digits last).isEmpty = false := by
    rw [List.isEmpty_eq_false_iff]
    exact Nat.toDigits_ne_nil
  simp [last?, hne, Number.ofDigits_digits]

theorem toNat_bound {n : Nat} (h : n < 2 ^ 63) : (Int64.ofNat n).toUInt64.toNat = n := by
  have hn := Int64.toInt_ofNat_of_lt h
  have hnat := toNat_toUInt64 (z := Int64.ofNat n) (by omega)
  omega

/-- Both bounds fit, or the key names no range. -/
theorem range?_ofRange (count : Nat) {first last : Nat} (h : first < last) :
    (last < 2 ^ 63 → range? count (ofRange first last) =
      some ((Int64.ofNat first).toUInt64, (Int64.ofNat last).toUInt64)) ∧
    (2 ^ 63 ≤ last → range? count (ofRange first last) = none) := by
  constructor
  · intro hmax
    have hfirst : first < 2 ^ 63 := by omega
    have horder : ¬ (Int64.ofNat last ≤ Int64.ofNat first ∨ Int64.ofNat first < 0) := by
      rw [Int64.le_iff_toInt_le, Int64.lt_iff_toInt_lt, Int64.toInt_ofNat_of_lt hfirst,
        Int64.toInt_ofNat_of_lt hmax, Int64.toInt_zero]
      omega
    simp only [range?, bounds?_ofRange, last?_digits, Number.ofDigits_digits, bound?_of_lt hfirst,
      bound?_of_lt hmax, if_neg horder]
  · intro hmax
    simp only [range?, bounds?_ofRange, last?_digits, bound?_eq_none hmax]
    split <;> simp_all

end Key

namespace Context

/-- The arguments from `first` to `last`, as far as there are any, with spaces between them. -/
def rangeText (args : List String) (first last : Nat) : String :=
  " ".intercalate ((args.drop first).take (min last (args.length - 1) + 1 - first))

theorem rangeText_of_le {args : List String} {first : Nat} (h : args.length ≤ first) (last : Nat) :
    rangeText args first last = "" := by
  simp [rangeText, List.drop_eq_nil_of_le h]

theorem resolve_ofRange_of_lt (c : Context) {first last : Nat} (h : first < last)
    (hn : c.args.length < 2 ^ 64) (hmax : last < 2 ^ 63) :
    c.resolve (Key.ofRange first last) = rangeText c.args first last := by
  have hfirst := Key.toNat_bound (show first < 2 ^ 63 by omega)
  have hlast := Key.toNat_bound hmax
  rw [resolve_of_range? (Key.colon_mem_ofRange first last) ((Key.range?_ofRange _ h).1 hmax),
    toNat_stopAfter hn (by omega), hfirst, hlast]
  exact join_slice? c.args h

theorem resolve_ofRange_of_le (c : Context) {first last : Nat} (h : first < last)
    (hmax : 2 ^ 63 ≤ last) :
    c.resolve (Key.ofRange first last) =
      (c.var? (String.ofList (Key.ofRange first last))).getD "" :=
  resolve_of_no_range (Key.colon_mem_ofRange first last) ((Key.range?_ofRange _ h).2 hmax)

/-- **Where a range is clamped to the arguments.** The key `first:last` stands for the arguments
from `first` to `last`, or to the last one, whatever variables there are, exactly if `last` is below
`2 ^ 63`. Beyond that the key is the name of a variable. A range that starts behind the arguments is
empty. -/
theorem resolve_range_clamped (args : List String) {first last : Nat} (h : first < last)
    (hn : args.length < 2 ^ 64) :
    ((∀ vars, Context.resolve ⟨args, vars⟩ (Key.ofRange first last) = rangeText args first last) ↔
      last < 2 ^ 63) ∧
    (2 ^ 63 ≤ last → ∀ vars : Bindings String,
      Context.resolve ⟨args, vars⟩ (Key.ofRange first last) =
        (vars.get? (String.ofList (Key.ofRange first last))).getD "") ∧
    (args.length ≤ first → rangeText args first last = "") := by
  refine ⟨⟨fun hall => ?_, fun hmax vars => ?_⟩, fun hmax vars => ?_, fun hle => ?_⟩
  · by_contra hmax
    -- a variable with the name of the range, and a text that is not that of the range
    have hvar := hall (.insert .empty (String.ofList (Key.ofRange first last))
      (rangeText args first last ++ "x"))
    rw [resolve_ofRange_of_le _ h (Nat.not_lt.1 hmax)] at hvar
    have hlength := congrArg String.length hvar
    simp [var?] at hlength
  · exact resolve_ofRange_of_lt _ h hn hmax
  · exact resolve_ofRange_of_le _ h hmax
  · exact rangeText_of_le hle last

theorem resolve_range_clamped_named :
    Context.resolve ⟨["x", "y", "z"], ⟨[("1:10", "v")]⟩⟩ (Key.ofRange 1 10) = "y z" ∧
      Context.resolve ⟨["x", "y", "z"], ⟨[("5:9", "v")]⟩⟩ (Key.ofRange 5 9) = "" := by
  have hclamped := resolve_range_clamped ["x", "y", "z"] (show 1 < 10 by decide) (by decide)
  have hbehind := resolve_range_clamped ["x", "y", "z"] (show 5 < 9 by decide) (by decide)
  constructor
  · exact hclamped.1.2 (by decide) ⟨[("1:10", "v")]⟩
  · exact (hbehind.1.2 (by decide) ⟨[("5:9", "v")]⟩).trans (hbehind.2.2 (by decide))

/-- The range from the second argument on, with a last bound that takes more than 63 bits. Nothing
is left of it. -/
theorem resolve_range_unclamped :
    Key.ofRange 1 9223372036854775808 = "1:9223372036854775808".toList ∧
      (ofArgs ["x", "y", "z"]).resolve "1:9223372036854775808".toList = "" ∧
      rangeText ["x", "y", "z"] 1 9223372036854775808 = "y z" := by
  decide +kernel

end Context

end TaskRunner
