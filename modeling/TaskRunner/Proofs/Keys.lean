import Mathlib.Algebra.Group.Nat.Defs
import TaskRunner.Proofs.Text
import TaskRunner.Template.Context

/-!
# What a key stands for

`Context.resolve` looks for a range by going over the key once, and computes with integers of 64
bits. `Resolves` says what a key stands for with neither: it names the parts of the key around the
first colon that has a digit before it, and its numbers have no bound but the one of a range.
`resolve_exact` is the equivalence of the two for fewer than `2 ^ 63` arguments, and that no
computation of the former leaves 64 bits.
-/
namespace TaskRunner

open Grammar

namespace Key

/-- No colon of the text has a digit right before it. -/
def NoDigitColon (s : List Char) : Prop := ∀ u d v, s = u ++ d :: ':' :: v → isDigit d = false

/-- The first colon of the key with a digit right before it, the runs of digits on both sides of it,
and what is around them. -/
structure FirstColon (key before low high after : List Char) : Prop where
  key_eq : key = before ++ low ++ ':' :: (high ++ after)
  low_ne : low ≠ []
  low_digits : ∀ c ∈ low, isDigit c = true
  high_digits : ∀ c ∈ high, isDigit c = true
  before_stops : Text.StopsAt isDigit before.reverse
  after_stops : Text.StopsAt isDigit after
  first : NoDigitColon (before ++ low)

/-- The key names the range from `first` to `last` among `count` arguments. -/
def NamesRange (count : Nat) (key : List Char) (first last : Nat) : Prop :=
  ∃ before low high after, FirstColon key before low high after ∧
    first = Number.ofDigits low ∧
    (last : Int) = (if high = [] then (count : Int) - 1 else Number.ofDigits high) ∧
    first < last ∧ last < 2 ^ 63

end Key

/-- The text that a key stands for. -/
inductive Resolves (c : Context) (key : List Char) : String → Prop
  | index : (∀ d ∈ key, isDigit d = true) → Resolves c key ((c.args[Number.ofDigits key]?).getD "")
  | all : key = ['@'] → Resolves c key (" ".intercalate c.args)
  | count : key = ['#'] → Resolves c key (toString c.args.length)
  | range (first last : Nat) : Key.NamesRange c.args.length key first last →
    Resolves c key
      (" ".intercalate ((c.args.drop first).take (min last (c.args.length - 1) + 1 - first)))
  | name : ¬ (∀ d ∈ key, isDigit d = true) → key ≠ ['@'] → key ≠ ['#'] →
    (∀ first last, ¬ Key.NamesRange c.args.length key first last) →
    Resolves c key ((c.var? (String.ofList key)).getD "")

namespace Key

/-! ## The first colon behind a digit -/

theorem noDigitColon_nil : NoDigitColon [] := by
  intro u d v h
  simp at h

/-- A text gets a colon behind a digit only by a colon put behind a digit. -/
theorem NoDigitColon.snoc {s : List Char} {c : Char} (h : NoDigitColon s)
    (hc : c = ':' → Text.StopsAt isDigit s.reverse) : NoDigitColon (s ++ [c]) := by
  intro u d v he
  rcases List.eq_nil_or_concat v with rfl | ⟨v', e, rfl⟩
  · have he' : s ++ [c] = (u ++ [d]) ++ [':'] := by simpa using he
    obtain ⟨rfl, hlast⟩ := List.append_inj' he' rfl
    have := hc (by simpa using hlast)
    simpa using this
  · have he' : s ++ [c] = (u ++ d :: ':' :: v') ++ [e] := by simpa using he
    exact h u d v' (List.append_inj' he' rfl).1

/-- What the search has seen: some text that does not end in a digit, and the digits behind it. -/
theorem boundsAfter_spec : ∀ (s pre run : List Char), (∀ d ∈ run, isDigit d = true) →
    Text.StopsAt isDigit pre.reverse → NoDigitColon (pre ++ run.reverse) →
    match boundsAfter run s with
    | some (low, high) => ∃ before after, FirstColon (pre ++ run.reverse ++ s) before low high after
    | none => NoDigitColon (pre ++ run.reverse ++ s)
  | [], pre, run, _, _, hno => by simpa [boundsAfter] using hno
  | c :: s, pre, run, hrun, hpre, hno => by
    rw [boundsAfter]
    by_cases hd : isDigit c = true
    · rw [if_pos hd]
      have hc : c ≠ ':' := by rintro rfl; exact absurd hd (by decide)
      have ih := boundsAfter_spec s pre (c :: run) (by simpa [hd] using hrun) hpre
        (by simpa using hno.snoc (c := c) fun h => absurd h hc)
      simpa using ih
    · rw [if_neg hd]
      by_cases hcolon : c = ':' ∧ run ≠ []
      · rw [if_pos hcolon]
        obtain ⟨rfl, hne⟩ := hcolon
        refine ⟨pre, s.dropWhile isDigit, ?_, by simpa using hne, by simpa using hrun,
          fun d h => List.mem_takeWhile_imp h, hpre, Text.stopsAt_dropWhile _ _, hno⟩
        simp
      · rw [if_neg hcolon]
        have hstop : Text.StopsAt isDigit (pre ++ run.reverse ++ [c]).reverse := by
          simpa using hd
        have hsnoc : NoDigitColon (pre ++ run.reverse ++ [c]) := by
          refine hno.snoc fun h => ?_
          have : run = [] := by by_contra hne; exact hcolon ⟨h, hne⟩
          simpa [this] using hpre
        have ih := boundsAfter_spec s (pre ++ run.reverse ++ [c]) [] (by simp) hstop
          (by simpa using hsnoc)
        simpa using ih

theorem FirstColon.ends_in_digit {key b l h a : List Char} (x : FirstColon key b l h a) :
    ∃ u d, b ++ l = u ++ [d] ∧ isDigit d = true := by
  rcases List.eq_nil_or_concat l with hnil | ⟨l', d, rfl⟩
  · exact absurd hnil x.low_ne
  · exact ⟨b ++ l', d, by simp, x.low_digits d (by simp)⟩

/-- A text that goes on with a colon behind a digit is no start of one that has none. -/
theorem NoDigitColon.no_longer {p a q q' u : List Char} {d : Char} (hno : NoDigitColon (p ++ a))
    (hp : p = u ++ [d]) (hd : isDigit d = true) (h : ':' :: q = a ++ ':' :: q') : a = [] := by
  cases a with
  | nil => rfl
  | cons c a =>
    obtain ⟨rfl, -⟩ := List.cons.inj h
    have := hno u d a (by simp [hp])
    simp [hd] at this

/-- A key is cut at its first colon behind a digit in one way only. -/
theorem FirstColon.unique {key b l h a b' l' h' a' : List Char} (x : FirstColon key b l h a)
    (y : FirstColon key b' l' h' a') : l = l' ∧ h = h' := by
  obtain ⟨u, d, hu, hd⟩ := x.ends_in_digit
  obtain ⟨u', d', hu', hd'⟩ := y.ends_in_digit
  have hkey := x.key_eq.symm.trans y.key_eq
  have hsame : b ++ l = b' ++ l' ∧ h ++ a = h' ++ a' := by
    rcases List.append_eq_append_iff.1 hkey with ⟨w, hw, hrest⟩ | ⟨w, hw, hrest⟩
    · have hnil := NoDigitColon.no_longer (hw ▸ y.first) hu hd hrest
      subst hnil
      simpa [eq_comm] using And.intro hw hrest
    · have hnil := NoDigitColon.no_longer (hw ▸ x.first) hu' hd' hrest
      subst hnil
      simpa [eq_comm] using And.intro hw hrest
  -- both runs are what the test for digits cuts off, on the left from behind
  have hlow : (b ++ l).reverse.takeWhile isDigit = l.reverse := by
    rw [List.reverse_append]
    exact Text.takeWhile_run (by simpa using x.low_digits) x.before_stops
  have hlow' : (b' ++ l').reverse.takeWhile isDigit = l'.reverse := by
    rw [List.reverse_append]
    exact Text.takeWhile_run (by simpa using y.low_digits) y.before_stops
  have hhigh := Text.takeWhile_run x.high_digits x.after_stops
  have hhigh' := Text.takeWhile_run y.high_digits y.after_stops
  rw [hsame.1, hlow'] at hlow
  rw [hsame.2, hhigh'] at hhigh
  exact ⟨List.reverse_inj.1 hlow.symm, hhigh.symm⟩

theorem bounds?_eq_some {key low high : List Char} :
    bounds? key = some (low, high) ↔ ∃ before after, FirstColon key before low high after := by
  have hspec := boundsAfter_spec key [] [] (by simp) (by simp [Text.StopsAt]) noDigitColon_nil
  simp only [List.reverse_nil, List.append_nil, List.nil_append] at hspec
  constructor
  · intro h
    rw [bounds?] at h
    rwa [h] at hspec
  · rintro ⟨before, after, hx⟩
    rw [bounds?]
    cases hb : boundsAfter [] key with
    | none =>
      rw [hb] at hspec
      obtain ⟨u, d, hu, hd⟩ := hx.ends_in_digit
      have := hspec u d (high ++ after) (by rw [hx.key_eq, hu]; simp)
      simp [hd] at this
    | some found =>
      obtain ⟨low', high'⟩ := found
      rw [hb] at hspec
      obtain ⟨before', after', hy⟩ := hspec
      obtain ⟨rfl, rfl⟩ := hx.unique hy
      rfl

/-! ## Integers of 64 bits -/

theorem toNat_of_index? {n : Nat} {i : UInt64} (h : index? n = some i) : i.toNat = n := by
  unfold index? at h
  split at h
  · rename_i hn
    cases h
    exact UInt64.toNat_ofNat_of_lt' hn
  · cases h

theorem fits_iff {n : Nat} : 2 * n < UInt64.size ↔ n < 2 ^ 63 := by
  rw [UInt64.size]
  omega

theorem bound?_of_lt {n : Nat} (h : n < 2 ^ 63) : bound? n = some (Int64.ofNat n) :=
  if_pos (fits_iff.2 h)

theorem bound?_eq_some {n : Nat} {z : Int64} : bound? n = some z ↔ z.toInt = n := by
  constructor
  · intro h
    unfold bound? at h
    split at h
    · rename_i hn
      cases h
      exact Int64.toInt_ofNat_of_lt (fits_iff.1 hn)
    · cases h
  · intro h
    have hn : n < 2 ^ 63 := by have := z.toInt_lt; omega
    rw [bound?_of_lt hn, Option.some.injEq, ← Int64.toInt_inj, Int64.toInt_ofNat_of_lt hn, h]

theorem toInt_sub_one {z : Int64} (h : 0 ≤ z.toInt) : (z - 1).toInt = z.toInt - 1 := by
  have := z.toInt_lt
  rw [Int64.toInt_sub, Int64.toInt_one]
  exact Int.bmod_eq_of_le (by omega) (by omega)

theorem last?_eq_some {count : Nat} (hcount : count < 2 ^ 63) {high : List Char} {z : Int64} :
    last? count high = some z ↔
      z.toInt = if high = [] then (count : Int) - 1 else Number.ofDigits high := by
  unfold last?
  by_cases hhigh : high = []
  · have hz := Int64.toInt_ofNat_of_lt hcount
    have hone := toInt_sub_one (z := Int64.ofNat count) (by omega)
    simp only [hhigh, List.isEmpty_nil, if_true, bound?_of_lt hcount, Option.map_some,
      Option.some.injEq]
    rw [← hz, ← hone, Int64.toInt_inj, eq_comm]
  · simp [hhigh, bound?_eq_some]

theorem toNat_toUInt64 {z : Int64} (h : 0 ≤ z.toInt) : (z.toUInt64.toNat : Int) = z.toInt := by
  have hz : 0 ≤ z := Int64.le_iff_toInt_le.2 h
  rw [Int64.toNat_toUInt64_of_le hz, Int64.cast_toNatClampNeg z hz]

theorem namesRange_of_range? {count : Nat} (hcount : count < 2 ^ 63) {key : List Char}
    {first last : UInt64} (h : range? count key = some (first, last)) :
    NamesRange count key first.toNat last.toNat := by
  unfold range? at h
  split at h
  · cases h
  · rename_i low high hb
    obtain ⟨before, after, hcolon⟩ := bounds?_eq_some.1 hb
    split at h
    · rename_i f l hf hl
      rw [bound?_eq_some] at hf
      rw [last?_eq_some hcount] at hl
      split at h
      · cases h
      · rename_i horder
        cases h
        rw [Int64.le_iff_toInt_le, not_or, Int.not_le] at horder
        have hlt := l.toInt_lt
        have hfirst := toNat_toUInt64 (z := f) (by omega)
        have hlast := toNat_toUInt64 (z := l) (by omega)
        exact ⟨before, low, high, after, hcolon, by omega, hlast.trans hl, by omega, by omega⟩
    · cases h

theorem range?_of_namesRange {count : Nat} (hcount : count < 2 ^ 63) {key : List Char}
    {first last : Nat} (h : NamesRange count key first last) :
    ∃ f l, range? count key = some (f, l) ∧ f.toNat = first ∧ l.toNat = last := by
  obtain ⟨before, low, high, after, hcolon, hfirst, hlast, hlt, hmax⟩ := h
  have hf := Int64.toInt_ofNat_of_lt (show first < 2 ^ 63 by omega)
  have hl := Int64.toInt_ofNat_of_lt hmax
  have hbound : bound? (Number.ofDigits low) = some (Int64.ofNat first) :=
    bound?_eq_some.2 (by rw [hf, hfirst])
  have hlast? : last? count high = some (Int64.ofNat last) :=
    (last?_eq_some hcount).2 (by rw [hl, hlast])
  have horder : ¬ (Int64.ofNat last ≤ Int64.ofNat first ∨ Int64.ofNat first < 0) := by
    rw [Int64.le_iff_toInt_le, Int64.lt_iff_toInt_lt, hf, hl, Int64.toInt_zero]
    omega
  refine ⟨(Int64.ofNat first).toUInt64, (Int64.ofNat last).toUInt64, ?_, ?_, ?_⟩
  · rw [range?, bounds?_eq_some.2 ⟨before, after, hcolon⟩]
    simp only [hbound, hlast?, if_neg horder]
  · have := toNat_toUInt64 (z := Int64.ofNat first) (by omega)
    omega
  · have := toNat_toUInt64 (z := Int64.ofNat last) (by omega)
    omega

/-- A key that names a range is none of the other kinds. -/
theorem NamesRange.colon_mem {count first last : Nat} {key : List Char}
    (h : NamesRange count key first last) : ':' ∈ key := by
  obtain ⟨_, _, _, _, hcolon, _⟩ := h
  rw [hcolon.key_eq]
  simp

end Key

namespace Context

theorem toNat_succ {last : UInt64} (h : last.toNat < 2 ^ 63) :
    (last + 1).toNat = last.toNat + 1 := by
  rw [UInt64.toNat_add, UInt64.toNat_one]
  omega

theorem toNat_stopAfter {count : Nat} (hcount : count < 2 ^ 64) {last : UInt64}
    (h : last.toNat < 2 ^ 63) : (stopAfter count last).toNat = min (last.toNat + 1) count := by
  have hc : (UInt64.ofNat count).toNat = count := by
    rw [UInt64.toNat_ofNat']
    exact Nat.mod_eq_of_lt (by omega)
  have hle : last + 1 ≤ UInt64.ofNat count ↔ last.toNat + 1 ≤ count := by
    rw [UInt64.le_iff_toNat_le, toNat_succ h, hc]
  show (if last + 1 ≤ UInt64.ofNat count then last + 1 else UInt64.ofNat count).toNat = _
  by_cases hlast : last.toNat + 1 ≤ count
  · rw [if_pos (hle.2 hlast), toNat_succ h]
    omega
  · rw [if_neg (mt hle.1 hlast), hc]
    omega

/-- The part of the arguments that a range takes, as a slice and as a count from its start. -/
theorem join_slice? (args : List String) {first last : Nat} (h : first < last) :
    ((slice? args first (min (last + 1) args.length)).map joinArgs).getD "" =
      " ".intercalate ((args.drop first).take (min last (args.length - 1) + 1 - first)) := by
  unfold slice?
  by_cases hfirst : first ≤ args.length
  · rw [if_pos (by omega)]
    simp only [Option.map_some, Option.getD_some, joinArgs, List.drop_take]
    by_cases hnil : first = args.length
    · simp [hnil]
    · rw [show min (last + 1) args.length = min last (args.length - 1) + 1 by omega]
  · rw [if_neg (by omega), List.drop_eq_nil_of_le (by omega)]
    simp

end Context

/-- Every integer of 64 bits that is computed for a key is what it would be without that bound. -/
structure Key.Exact (count : Nat) (key : List Char) : Prop where
  index : ∀ i, index? (Number.ofDigits key) = some i → i.toNat = Number.ofDigits key
  lastArg : ∀ z, last? count [] = some z → z.toInt = (count : Int) - 1
  range : ∀ first last, range? count key = some (first, last) →
    first.toNat < last.toNat ∧ (last + 1).toNat = last.toNat + 1 ∧
      (Context.stopAfter count last).toNat = min (last.toNat + 1) count

theorem Key.exact {count : Nat} (hcount : count < 2 ^ 63) (key : List Char) :
    Exact count key where
  index i h := toNat_of_index? h
  lastArg z h := by simpa using (last?_eq_some hcount).1 h
  range first last h := by
    obtain ⟨_, _, _, _, _, _, _, hlt, hmax⟩ := namesRange_of_range? hcount h
    exact ⟨hlt, Context.toNat_succ hmax, Context.toNat_stopAfter (by omega) hmax⟩

namespace Context

variable {c : Context} {key : List Char}

theorem not_all_digits_of_colon (h : ':' ∈ key) : ¬ key.all isDigit = true := by
  intro hall
  have hcolon := List.all_eq_true.1 hall _ h
  exact absurd hcolon (by decide)

theorem resolve_index (hn : c.args.length < 2 ^ 63) (h : ∀ d ∈ key, isDigit d = true) :
    c.resolve key = (c.args[Number.ofDigits key]?).getD "" := by
  have hall : key.all isDigit = true := List.all_eq_true.2 h
  rw [resolve, if_pos hall]
  cases hi : Key.index? (Number.ofDigits key) with
  | some i => simp only [Key.toNat_of_index? hi]
  | none =>
    -- an index beyond 64 bits is beyond the arguments
    have hbig : c.args.length ≤ Number.ofDigits key := by
      unfold Key.index? at hi
      split at hi
      · cases hi
      · rename_i hsize
        rw [UInt64.size] at hsize
        omega
    simp [hbig]

/-- A key with a colon is a range, if it names one. -/
theorem resolve_of_range? (hcolon : ':' ∈ key) {first last : UInt64}
    (h : Key.range? c.args.length key = some (first, last)) :
    c.resolve key =
      ((slice? c.args first.toNat (stopAfter c.args.length last).toNat).map joinArgs).getD "" := by
  rw [resolve, if_neg (not_all_digits_of_colon hcolon), if_neg (by rintro rfl; simp at hcolon),
    if_neg (by rintro rfl; simp at hcolon)]
  simp only [h]
  cases slice? c.args first.toNat (stopAfter c.args.length last).toNat <;> rfl

/-- Otherwise it is a name. -/
theorem resolve_of_no_range (hcolon : ':' ∈ key) (h : Key.range? c.args.length key = none) :
    c.resolve key = (c.var? (String.ofList key)).getD "" := by
  rw [resolve, if_neg (not_all_digits_of_colon hcolon), if_neg (by rintro rfl; simp at hcolon),
    if_neg (by rintro rfl; simp at hcolon)]
  simp only [h]

theorem resolve_range (hn : c.args.length < 2 ^ 63) {first last : Nat}
    (h : Key.NamesRange c.args.length key first last) :
    c.resolve key =
      " ".intercalate ((c.args.drop first).take (min last (c.args.length - 1) + 1 - first)) := by
  obtain ⟨f, l, hrange, rfl, rfl⟩ := Key.range?_of_namesRange hn h
  rw [resolve_of_range? h.colon_mem hrange]
  obtain ⟨_, _, _, _, _, _, _, hlt, hmax⟩ := h
  rw [toNat_stopAfter (show c.args.length < 2 ^ 64 by omega) hmax]
  exact join_slice? c.args hlt

theorem resolve_name (hn : c.args.length < 2 ^ 63) (hdigits : ¬ ∀ d ∈ key, isDigit d = true)
    (hat : key ≠ ['@']) (hhash : key ≠ ['#'])
    (h : ∀ first last, ¬ Key.NamesRange c.args.length key first last) :
    c.resolve key = (c.var? (String.ofList key)).getD "" := by
  rw [resolve, if_neg (by simpa using hdigits), if_neg hat, if_neg hhash]
  cases hrange : Key.range? c.args.length key with
  | none => rfl
  | some r => exact absurd (Key.namesRange_of_range? hn hrange) (h _ _)

theorem resolve_of_resolves (hn : c.args.length < 2 ^ 63) {text : String}
    (h : Resolves c key text) : c.resolve key = text := by
  cases h with
  | index h => exact resolve_index hn h
  | all h => subst h; rfl
  | count h => subst h; rfl
  | range first last h => exact resolve_range hn h
  | name hdigits hat hhash h => exact resolve_name hn hdigits hat hhash h

theorem exists_resolves (c : Context) (key : List Char) : ∃ text, Resolves c key text := by
  by_cases hdigits : ∀ d ∈ key, isDigit d = true
  · exact ⟨_, .index hdigits⟩
  by_cases hat : key = ['@']
  · exact ⟨_, .all hat⟩
  by_cases hhash : key = ['#']
  · exact ⟨_, .count hhash⟩
  by_cases hrange : ∃ first last, Key.NamesRange c.args.length key first last
  · obtain ⟨first, last, h⟩ := hrange
    exact ⟨_, .range first last h⟩
  · exact ⟨_, .name hdigits hat hhash fun first last h => hrange ⟨first, last, h⟩⟩

/-- **What a key stands for.** With fewer than `2 ^ 63` arguments, the text of a key is the one that
`Resolves` gives, and no index, bound or end of a slice leaves 64 bits on the way to it. -/
theorem resolve_exact (c : Context) (key : List Char) (hn : c.args.length < 2 ^ 63) :
    (∀ text, c.resolve key = text ↔ Resolves c key text) ∧ Key.Exact c.args.length key := by
  refine ⟨fun text => ⟨?_, resolve_of_resolves hn⟩, Key.exact hn key⟩
  rintro rfl
  obtain ⟨text, h⟩ := exists_resolves c key
  rwa [resolve_of_resolves hn h]

/-- An open range in the middle of a key, among three arguments. -/
theorem resolve_exact_open_range :
    (["x", "y", "z"] : List String).length < 2 ^ 63 ∧
      Resolves (.ofArgs ["x", "y", "z"]) ['k', ':', '1', ':', '@', '2', ':'] "y z" ∧
      Key.Exact 3 ['k', ':', '1', ':', '@', '2', ':'] :=
  have h := resolve_exact (.ofArgs ["x", "y", "z"]) ['k', ':', '1', ':', '@', '2', ':'] (by decide)
  ⟨by decide, (h.1 _).1 (by decide +kernel), h.2⟩

end Context

end TaskRunner
