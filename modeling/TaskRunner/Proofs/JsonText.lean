import TaskRunner.Inspect.Json
import TaskRunner.Proofs.ShortestDecimal
import TaskRunner.Proofs.Shown

/-!
# Texts that are JSON

The grammar of JSON as a relation between a text and the value that stands at its front
(`Json.Written`), and a reader that takes the value off. The grammar has every way to write a value,
with any blanks between the parts and any escapes in a string. The reader finds whatever the grammar
finds (`Json.read?_of_document`), so no text stands for two values.
-/
namespace TaskRunner

open Grammar (isDigit)
open Text (StopsAt)

namespace Json

/-! ## Numbers -/

def IsDigits (ds : List Char) : Prop := ds ≠ [] ∧ ∀ d ∈ ds, isDigit d = true

/-- The whole part of a number has no zero in front of other digits. -/
structure IsWhole (ds : List Char) : Prop where
  digits : IsDigits ds
  zero : ds.head? = some '0' → ds = ['0']

/-- The digits behind the point, and how they are written with it. -/
inductive Fraction : List Char → List Char → Prop
  | none : Fraction [] []
  | some {ds : List Char} : IsDigits ds → Fraction ds ('.' :: ds)

def isMark (c : Char) : Bool := c == 'e' || c == 'E'

/-- A power of ten, and how it is written. -/
inductive Exponent : Int → List Char → Prop
  | none : Exponent 0 []
  | plain {mark : Char} {ds : List Char} : isMark mark = true → IsDigits ds →
    Exponent (Number.ofDigits ds) (mark :: ds)
  | plus {mark : Char} {ds : List Char} : isMark mark = true → IsDigits ds →
    Exponent (Number.ofDigits ds) (mark :: '+' :: ds)
  | minus {mark : Char} {ds : List Char} : isMark mark = true → IsDigits ds →
    Exponent (-Number.ofDigits ds) (mark :: '-' :: ds)

def signText (negative : Bool) : List Char := if negative then ['-'] else []

/-- A number token stands for the number nearest to its decimal value. -/
inductive NumberToken : List Char → Number → Prop
  | intro (negative : Bool) {whole fraction w v : List Char} {power : Int} : IsWhole whole →
    Fraction fraction w → Exponent power v →
    NumberToken (signText negative ++ (whole ++ (w ++ v)))
      (.ofScientific negative (Number.ofDigits (whole ++ fraction)) (power - fraction.length))

/-! ## Strings -/

/-- What a backslash and a character stand for together. -/
def escaped? (mark : Char) : Option Char :=
  if mark = '"' then some '"'
  else if mark = '\\' then some '\\'
  else if mark = '/' then some '/'
  else if mark = 'b' then some '\x08'
  else if mark = 'f' then some '\x0c'
  else if mark = 'n' then some '\n'
  else if mark = 'r' then some '\r'
  else if mark = 't' then some '\t'
  else none

/-- Four hexadecimal digits. -/
structure CodeUnit (ds : List Char) (n : Nat) : Prop where
  length : ds.length = 4
  digits : ∀ d ∈ ds, (Text.hexValue? d).isSome = true
  value : Text.ofHex ds = n

def isHigh (n : Nat) : Bool := 0xd800 ≤ n && n < 0xdc00

def isLow (n : Nat) : Bool := 0xdc00 ≤ n && n < 0xe000

/-- The character that two code units stand for together. -/
def ofPair (high low : Nat) : Char :=
  Char.ofNat (0x10000 + (high - 0xd800) * 0x400 + (low - 0xdc00))

/-- The inside of a string with its closing quote, the characters that it stands for, and what is
behind it. -/
inductive WrittenChars : List Char → List Char → List Char → Prop
  | done {r : List Char} : WrittenChars ('"' :: r) [] r
  | plain {c : Char} {s t r : List Char} : 0x20 ≤ c.toNat → c ≠ '"' → c ≠ '\\' →
    WrittenChars s t r → WrittenChars (c :: s) (c :: t) r
  | named {mark c : Char} {s t r : List Char} : escaped? mark = some c → WrittenChars s t r →
    WrittenChars ('\\' :: mark :: s) (c :: t) r
  | code {ds s t r : List Char} {n : Nat} : CodeUnit ds n → isHigh n = false → isLow n = false →
    WrittenChars s t r → WrittenChars ('\\' :: 'u' :: (ds ++ s)) (Char.ofNat n :: t) r
  | pair {ds ds' s t r : List Char} {high low : Nat} : CodeUnit ds high → isHigh high = true →
    CodeUnit ds' low → isLow low = true → WrittenChars s t r →
    WrittenChars ('\\' :: 'u' :: (ds ++ '\\' :: 'u' :: (ds' ++ s))) (ofPair high low :: t) r

/-! ## Values -/

/-- A blank between two parts. -/
def isSpace (c : Char) : Bool := c == ' ' || c == '\t' || c == '\n' || c == '\r'

/-- The text from the next part on. -/
def skip (s : List Char) : List Char := s.dropWhile isSpace

/-- A character that could make a number longer. -/
def isNumberChar (c : Char) : Bool := isDigit c || c == '.' || isMark c

mutual

/-- A text with a value at its front, the value, and what is behind it. A number goes as far as it
can. -/
inductive Written : List Char → Json → List Char → Prop
  | null {r : List Char} : Written ('n' :: 'u' :: 'l' :: 'l' :: r) .null r
  | yes {r : List Char} : Written ('t' :: 'r' :: 'u' :: 'e' :: r) (.bool true) r
  | no {r : List Char} : Written ('f' :: 'a' :: 'l' :: 's' :: 'e' :: r) (.bool false) r
  | number {w r : List Char} {x : Number} : NumberToken w x → StopsAt isNumberChar r →
    Written (w ++ r) (.number x) r
  | string {s t r : List Char} : WrittenChars s t r →
    Written ('"' :: s) (.string (String.ofList t)) r
  | emptyArray {s r : List Char} : skip s = ']' :: r → Written ('[' :: s) (.array []) r
  | array {s r : List Char} {es : List Json} : WrittenElements s es r →
    Written ('[' :: s) (.array es) r
  | emptyObject {s r : List Char} : skip s = '\x7d' :: r → Written ('\x7b' :: s) (.object []) r
  | object {s r : List Char} {fs : List (String × Json)} : WrittenFields s fs r →
    Written ('\x7b' :: s) (.object fs) r

/-- Elements with commas between them, up to the closing bracket. -/
inductive WrittenElements : List Char → List Json → List Char → Prop
  | last {s u r : List Char} {e : Json} : Written (skip s) e u → skip u = ']' :: r →
    WrittenElements s [e] r
  | more {s u v r : List Char} {e : Json} {es : List Json} : Written (skip s) e u →
    skip u = ',' :: v → WrittenElements v es r → WrittenElements s (e :: es) r

/-- Fields with commas between them, up to the closing brace. -/
inductive WrittenFields : List Char → List (String × Json) → List Char → Prop
  | last {s k t u v r name : List Char} {e : Json} : skip s = '"' :: k → WrittenChars k name t →
    skip t = ':' :: u → Written (skip u) e v → skip v = '\x7d' :: r →
    WrittenFields s [(String.ofList name, e)] r
  | more {s k t u v w r name : List Char} {e : Json} {fs : List (String × Json)} :
    skip s = '"' :: k → WrittenChars k name t → skip t = ':' :: u → Written (skip u) e v →
    skip v = ',' :: w → WrittenFields w fs r → WrittenFields s ((String.ofList name, e) :: fs) r

end

/-- The whole text is one value, with blanks around it. -/
def Document (s : List Char) (j : Json) : Prop := ∃ r, Written (skip s) j r ∧ skip r = []

/-! ## The reader -/

/-- A run of digits, which must not be empty. -/
def readDigits (s : List Char) : Option (List Char × List Char) :=
  if s.takeWhile isDigit = [] then none else some (s.takeWhile isDigit, s.dropWhile isDigit)

def readFraction : List Char → Option (List Char × List Char)
  | '.' :: s => readDigits s
  | s => some ([], s)

def readPower : List Char → Option (Int × List Char)
  | '-' :: s => (readDigits s).map fun x => (-Number.ofDigits x.1, x.2)
  | '+' :: s => (readDigits s).map fun x => (Number.ofDigits x.1, x.2)
  | s => (readDigits s).map fun x => (Number.ofDigits x.1, x.2)

def readExponent : List Char → Option (Int × List Char)
  | [] => some (0, [])
  | c :: s => if isMark c then readPower s else some (0, c :: s)

def readMagnitude (negative : Bool) (s : List Char) : Option (Number × List Char) := do
  let (whole, s) ← readDigits s
  if whole.head? = some '0' ∧ whole ≠ ['0'] then none
  else
    let (fraction, s) ← readFraction s
    let (power, s) ← readExponent s
    some (.ofScientific negative (Number.ofDigits (whole ++ fraction)) (power - fraction.length), s)

def readNumber : List Char → Option (Number × List Char)
  | '-' :: s => readMagnitude true s
  | s => readMagnitude false s

def readUnit : List Char → Option (Nat × List Char)
  | a :: b :: c :: d :: s =>
    if [a, b, c, d].all fun x => (Text.hexValue? x).isSome then some (Text.ofHex [a, b, c, d], s)
    else none
  | _ => none

/-- What stands behind `\u`: one code unit, or two that stand for one character. -/
def readCode (s : List Char) : Option (Char × List Char) := do
  let (n, s) ← readUnit s
  if isLow n then none
  else if isHigh n then
    match s with
    | '\\' :: 'u' :: s =>
      let (low, s) ← readUnit s
      if isLow low then some (ofPair n low, s) else none
    | _ => none
  else some (Char.ofNat n, s)

def readChar : List Char → Option (Char × List Char)
  | [] => none
  | '\\' :: mark :: s => if mark = 'u' then readCode s else (escaped? mark).map fun c => (c, s)
  | c :: s => if c.toNat < 0x20 ∨ c = '"' ∨ c = '\\' then none else some (c, s)

/-- The rest of a string, with at most `bound` characters and quotes. -/
def readChars : Nat → List Char → Option (List Char × List Char)
  | 0, _ => none
  | bound + 1, s =>
    match s with
    | '"' :: r => some ([], r)
    | s => do
      let (c, s) ← readChar s
      let (t, r) ← readChars bound s
      some (c :: t, r)

def readString (s : List Char) : Option (String × List Char) :=
  (readChars (s.length + 1) s).map fun x => (String.ofList x.1, x.2)

mutual

/-- A value in at most `bound` steps. -/
def readValue : Nat → List Char → Option (Json × List Char)
  | 0, _ => none
  | bound + 1, s =>
    match s with
    | 'n' :: 'u' :: 'l' :: 'l' :: r => some (.null, r)
    | 't' :: 'r' :: 'u' :: 'e' :: r => some (.bool true, r)
    | 'f' :: 'a' :: 'l' :: 's' :: 'e' :: r => some (.bool false, r)
    | '"' :: s => (readString s).map fun x => (.string x.1, x.2)
    | '[' :: s =>
      match skip s with
      | ']' :: r => some (.array [], r)
      | _ => (readElements bound s).map fun x => (.array x.1, x.2)
    | '\x7b' :: s =>
      match skip s with
      | '\x7d' :: r => some (.object [], r)
      | _ => (readFields bound s).map fun x => (.object x.1, x.2)
    | s => (readNumber s).map fun x => (.number x.1, x.2)

def readElements : Nat → List Char → Option (List Json × List Char)
  | 0, _ => none
  | bound + 1, s => do
    let (e, s) ← readValue bound (skip s)
    match skip s with
    | ']' :: r => some ([e], r)
    | ',' :: s =>
      let (es, r) ← readElements bound s
      some (e :: es, r)
    | _ => none

def readFields : Nat → List Char → Option (List (String × Json) × List Char)
  | 0, _ => none
  | bound + 1, s =>
    match skip s with
    | '"' :: s => do
      let (name, s) ← readString s
      match skip s with
      | ':' :: s =>
        let (e, s) ← readValue bound (skip s)
        match skip s with
        | '\x7d' :: r => some ([(name, e)], r)
        | ',' :: s =>
          let (fs, r) ← readFields bound s
          some ((name, e) :: fs, r)
        | _ => none
      | _ => none
    | _ => none

end

/-- The value of a whole text. No character is looked at in more than two steps. -/
def read? (s : List Char) : Option Json :=
  match readValue (2 * s.length + 1) (skip s) with
  | some (j, r) => if skip r = [] then some j else none
  | none => none

/-! ## The reader finds what is written -/

section Numbers

variable {ds r : List Char}

theorem readDigits_append (hds : IsDigits ds) (hr : StopsAt isDigit r) :
    readDigits (ds ++ r) = some (ds, r) := by
  rw [readDigits, Text.takeWhile_run hds.2 hr, Text.dropWhile_run hds.2 hr, if_neg hds.1]

theorem readFraction_append {w : List Char} (h : Fraction ds w) (hdigit : StopsAt isDigit r)
    (hpoint : StopsAt (· == '.') r) : readFraction (w ++ r) = some (ds, r) := by
  cases h with
  | none =>
    cases r with
    | nil => rfl
    | cons c r =>
      rw [Text.stopsAt_cons, beq_eq_false_iff_ne] at hpoint
      simp [readFraction, hpoint]
  | some hds => exact readDigits_append hds hdigit

theorem readPower_digits (hds : IsDigits ds) (hr : StopsAt isDigit r) :
    readPower (ds ++ r) = some ((Number.ofDigits ds : Int), r) := by
  obtain ⟨c, w, rfl⟩ := List.exists_cons_of_ne_nil hds.1
  have hc : isDigit c = true := hds.2 c (by simp)
  have hminus : c ≠ '-' := by rintro rfl; exact absurd hc (by decide)
  have hplus : c ≠ '+' := by rintro rfl; exact absurd hc (by decide)
  have hdigits := readDigits_append hds hr
  rw [List.cons_append] at hdigits ⊢
  simp [readPower, hminus, hplus, hdigits]

theorem stopsAt_digit (h : StopsAt isNumberChar r) : StopsAt isDigit r := by
  intro c hc
  have := h c hc
  simp_all [isNumberChar]

theorem readExponent_append {v : List Char} {power : Int} (h : Exponent power v)
    (hr : StopsAt isNumberChar r) : readExponent (v ++ r) = some (power, r) := by
  have hdigit := stopsAt_digit hr
  cases h with
  | none =>
    cases r with
    | nil => rfl
    | cons c r =>
      have hmark : isMark c = false := by
        have := hr c rfl
        simp_all [isNumberChar]
      simp [readExponent, hmark]
  | plain hmark hds => simpa [readExponent, hmark] using readPower_digits hds hdigit
  | plus hmark hds => simp [readExponent, hmark, readPower, readDigits_append hds hdigit]
  | minus hmark hds => simp [readExponent, hmark, readPower, readDigits_append hds hdigit]

/-- An exponent cannot be taken for a part of what is before it. -/
theorem Exponent.stopsAt {v : List Char} {power : Int} (h : Exponent power v)
    (hr : StopsAt isNumberChar r) : StopsAt (fun c => isDigit c || c == '.') (v ++ r) := by
  have hmark {c : Char} (hc : isMark c = true) : (isDigit c || c == '.') = false := by
    simp only [isMark, Bool.or_eq_true, beq_iff_eq] at hc
    rcases hc with rfl | rfl <;> decide
  cases h with
  | none =>
    intro c hc
    have := hr c hc
    simp_all [isNumberChar]
  | plain hm _ | plus hm _ | minus hm _ => exact Text.stopsAt_cons.2 (hmark hm)

theorem Fraction.stopsAt {w v : List Char} (h : Fraction ds w)
    (hv : StopsAt (fun c => isDigit c || c == '.') v) : StopsAt isDigit (w ++ v) := by
  cases h with
  | none =>
    intro c hc
    have := hv c hc
    simp_all
  | some _ => exact Text.stopsAt_cons.2 (by decide)

theorem readMagnitude_append (negative : Bool) {whole fraction w v : List Char} {power : Int}
    (hwhole : IsWhole whole) (hfraction : Fraction fraction w) (hpower : Exponent power v)
    (hr : StopsAt isNumberChar r) :
    readMagnitude negative (whole ++ (w ++ v) ++ r) =
      some (.ofScientific negative (Number.ofDigits (whole ++ fraction)) (power - fraction.length),
        r) := by
  have hrest := hpower.stopsAt hr
  have hdigit : StopsAt isDigit (v ++ r) := fun c hc => by have := hrest c hc; simp_all
  have hpoint : StopsAt (· == '.') (v ++ r) := fun c hc => by have := hrest c hc; simp_all
  have hzero : ¬(whole.head? = some '0' ∧ whole ≠ ['0']) := fun h => h.2 (hwhole.zero h.1)
  rw [List.append_assoc, List.append_assoc, readMagnitude,
    readDigits_append hwhole.digits (hfraction.stopsAt hrest)]
  simp only [Option.bind_eq_bind, Option.bind_some]
  rw [if_neg hzero, readFraction_append hfraction hdigit hpoint, Option.bind_some,
    readExponent_append hpower hr, Option.bind_some]

/-- A number starts with a sign or a digit. -/
theorem NumberToken.start {w : List Char} {x : Number} (h : NumberToken w x) :
    ∃ c u, w = c :: u ∧ (c = '-' ∨ isDigit c = true) := by
  cases h with
  | intro negative hwhole hfraction hpower =>
    obtain ⟨c, u, rfl⟩ := List.exists_cons_of_ne_nil hwhole.digits.1
    cases negative with
    | true => exact ⟨_, _, rfl, .inl rfl⟩
    | false => exact ⟨c, _, rfl, .inr (hwhole.digits.2 c (by simp))⟩

theorem readNumber_append {w : List Char} {x : Number} (h : NumberToken w x)
    (hr : StopsAt isNumberChar r) : readNumber (w ++ r) = some (x, r) := by
  cases h with
  | @intro negative whole fraction w v power hwhole hfraction hpower =>
    have hread := readMagnitude_append negative hwhole hfraction hpower hr
    cases negative with
    | true => exact hread
    | false =>
      obtain ⟨c, u, rfl⟩ := List.exists_cons_of_ne_nil hwhole.digits.1
      have hminus : c ≠ '-' := by
        rintro rfl
        exact absurd (hwhole.digits.2 '-' (by simp)) (by decide)
      simpa [readNumber, signText, hminus] using hread

end Numbers

section Strings

theorem readUnit_append {ds : List Char} {n : Nat} (h : CodeUnit ds n) (s : List Char) :
    readUnit (ds ++ s) = some (n, s) := by
  obtain ⟨hlength, hdigits, rfl⟩ := h
  match ds, hlength with
  | [a, b, c, d], _ =>
    have hall : ([a, b, c, d].all fun x => (Text.hexValue? x).isSome) = true :=
      List.all_eq_true.2 hdigits
    simp only [List.cons_append, List.nil_append, readUnit, hall, if_true]

theorem readCode_single {ds : List Char} {n : Nat} (h : CodeUnit ds n) (hhigh : isHigh n = false)
    (hlow : isLow n = false) (s : List Char) : readCode (ds ++ s) = some (Char.ofNat n, s) := by
  simp [readCode, readUnit_append h, hhigh, hlow]

theorem isLow_of_isHigh {n : Nat} (h : isHigh n = true) : isLow n = false := by
  simp only [isHigh, isLow, Bool.and_eq_true, decide_eq_true_eq, Bool.and_eq_false_iff,
    decide_eq_false_iff_not] at *
  omega

theorem readCode_pair {ds ds' : List Char} {high low : Nat} (h : CodeUnit ds high)
    (hhigh : isHigh high = true) (h' : CodeUnit ds' low) (hlow : isLow low = true) (s : List Char) :
    readCode (ds ++ '\\' :: 'u' :: (ds' ++ s)) = some (ofPair high low, s) := by
  simp [readCode, readUnit_append h, readUnit_append h', isLow_of_isHigh hhigh, hhigh, hlow]

theorem WrittenChars.length_lt {s t r : List Char} (h : WrittenChars s t r) :
    r.length < s.length := by
  induction h with
  | done => simp
  | plain | named | code | pair => simp only [List.length_cons, List.length_append]; omega

theorem readChars_step {s u t r : List Char} {c : Char} (hquote : StopsAt (· == '"') s)
    (hchar : readChar s = some (c, u)) (hshorter : u.length < s.length)
    (hrest : ∀ {bound : Nat}, u.length < bound → readChars bound u = some (t, r)) {bound : Nat}
    (hbound : s.length < bound) : readChars bound s = some (c :: t, r) := by
  cases bound with
  | zero => exact absurd hbound (Nat.not_lt_zero _)
  | succ bound =>
    have hread : readChars bound u = some (t, r) := hrest (by omega)
    cases s with
    | nil => cases hchar
    | cons d s =>
      rw [Text.stopsAt_cons, beq_eq_false_iff_ne] at hquote
      simp [readChars, hquote, hchar, hread]

theorem readChars_of_written {s t r : List Char} (h : WrittenChars s t r) :
    ∀ {bound : Nat}, s.length < bound → readChars bound s = some (t, r) := by
  induction h with
  | done =>
    intro bound hbound
    cases bound with
    | zero => exact absurd hbound (Nat.not_lt_zero _)
    | succ bound => rfl
  | plain hc hquote hback _ ih =>
    refine readChars_step (by simpa using hquote) ?_ (by simp) ih
    simp [readChar, hquote, hback, Nat.not_lt.2 hc]
  | @named mark c s t r hmark _ ih =>
    refine readChars_step (by simp) ?_ (by simp only [List.length_cons]; omega) ih
    have hu : mark ≠ 'u' := by rintro rfl; cases hmark
    simp [readChar, hu, hmark]
  | code hunit hhigh hlow _ ih =>
    refine readChars_step (by simp) ?_ (by simp; omega) ih
    simp [readChar, readCode_single hunit hhigh hlow]
  | pair hunit hhigh hunit' hlow _ ih =>
    refine readChars_step (by simp) ?_ (by simp; omega) ih
    simp [readChar, readCode_pair hunit hhigh hunit' hlow]

theorem readString_of_written {s t r : List Char} (h : WrittenChars s t r) :
    readString s = some (String.ofList t, r) := by
  rw [readString, readChars_of_written h (Nat.lt_succ_self _)]
  rfl

end Strings

section Values

theorem length_skip_le (s : List Char) : (skip s).length ≤ s.length :=
  (List.dropWhile_suffix isSpace).length_le

/-- No value starts with a bracket that closes an array. -/
theorem Written.stopsAt {s r : List Char} {j : Json} (h : Written s j r) :
    StopsAt (· == ']') s := by
  cases h with
  | number htoken hr =>
    obtain ⟨c, u, rfl, hc⟩ := htoken.start
    rw [List.cons_append, Text.stopsAt_cons, beq_eq_false_iff_ne]
    rintro rfl
    exact absurd hc (by decide)
  | _ => exact Text.stopsAt_cons.2 (by decide)

/-- What starts like a number is read as one. -/
theorem readValue_number {c : Char} (hc : c = '-' ∨ isDigit c = true) (bound : Nat)
    (s : List Char) :
    readValue (bound + 1) (c :: s) = (readNumber (c :: s)).map fun x => (.number x.1, x.2) := by
  have hother {d : Char} (hd : ¬(d = '-' ∨ isDigit d = true)) : c ≠ d := by
    rintro rfl
    exact hd hc
  have hn := hother (d := 'n') (by decide)
  have ht := hother (d := 't') (by decide)
  have hf := hother (d := 'f') (by decide)
  have hquote := hother (d := '"') (by decide)
  have hbracket := hother (d := '[') (by decide)
  have hbrace := hother (d := '\x7b') (by decide)
  simp [readValue, hn, ht, hf, hquote, hbracket, hbrace]

theorem readValue_array {s : List Char} (h : StopsAt (· == ']') (skip s)) (bound : Nat) :
    readValue (bound + 1) ('[' :: s) = (readElements bound s).map fun x => (.array x.1, x.2) := by
  simp only [readValue]
  split
  · rename_i r hr
    rw [hr] at h
    simp at h
  · rfl

theorem readValue_object {s u : List Char} {c : Char} (h : skip s = c :: u) (hc : c ≠ '\x7d')
    (bound : Nat) :
    readValue (bound + 1) ('\x7b' :: s) = (readFields bound s).map fun x => (.object x.1, x.2) := by
  simp [readValue, h, hc]

/-- With this bound the reader finds every value that is written in so long a text. -/
def FindsValues (bound : Nat) : Prop :=
  ∀ {s r : List Char} {j : Json}, Written s j r → 2 * s.length < bound →
    readValue bound s = some (j, r) ∧ r.length < s.length

def FindsElements (bound : Nat) : Prop :=
  ∀ {s r : List Char} {es : List Json}, WrittenElements s es r → 2 * s.length + 1 < bound →
    readElements bound s = some (es, r) ∧ r.length < s.length

def FindsFields (bound : Nat) : Prop :=
  ∀ {s r : List Char} {fs : List (String × Json)}, WrittenFields s fs r → 2 * s.length + 1 < bound →
    readFields bound s = some (fs, r) ∧ r.length < s.length

variable {bound : Nat}

theorem length_lt_of_skip {s r : List Char} {c : Char} (h : skip s = c :: r) :
    r.length < s.length := by
  have hle := length_skip_le s
  rw [h, List.length_cons] at hle
  omega

theorem WrittenElements.stopsAt {s r : List Char} {es : List Json} (h : WrittenElements s es r) :
    StopsAt (· == ']') (skip s) := by
  cases h with
  | last h _ | more h _ _ => exact h.stopsAt

theorem WrittenFields.start {s r : List Char} {fs : List (String × Json)}
    (h : WrittenFields s fs r) : ∃ k, skip s = '"' :: k := by
  cases h with
  | last h _ _ _ _ | more h _ _ _ _ _ => exact ⟨_, h⟩

theorem FindsValues.succ (helements : FindsElements bound) (hfields : FindsFields bound) :
    FindsValues (bound + 1) := by
  intro s r j h hbound
  cases h with
  | null | yes | no => exact ⟨rfl, by simp only [List.length_cons]; omega⟩
  | @number w r x htoken hr =>
    have hread := readNumber_append htoken hr
    obtain ⟨c, u, rfl, hc⟩ := htoken.start
    rw [List.cons_append] at hread ⊢
    rw [readValue_number hc, hread]
    exact ⟨rfl, by simp only [List.length_cons, List.length_append]; omega⟩
  | string hchars =>
    refine ⟨?_, hchars.length_lt.trans (Nat.lt_succ_self _)⟩
    simp only [readValue, readString_of_written hchars, Option.map_some]
  | emptyArray hskip =>
    refine ⟨?_, (length_lt_of_skip hskip).trans (Nat.lt_succ_self _)⟩
    simp only [readValue, hskip]
  | array h =>
    rw [List.length_cons] at hbound ⊢
    obtain ⟨hread, hlength⟩ := helements h (by omega)
    refine ⟨?_, hlength.trans (Nat.lt_succ_self _)⟩
    rw [readValue_array h.stopsAt, hread, Option.map_some]
  | emptyObject hskip =>
    refine ⟨?_, (length_lt_of_skip hskip).trans (Nat.lt_succ_self _)⟩
    simp only [readValue, hskip]
  | object h =>
    rw [List.length_cons] at hbound ⊢
    obtain ⟨hread, hlength⟩ := hfields h (by omega)
    obtain ⟨k, hk⟩ := h.start
    refine ⟨?_, hlength.trans (Nat.lt_succ_self _)⟩
    rw [readValue_object hk (by decide), hread, Option.map_some]

theorem FindsElements.succ (hvalues : FindsValues bound) (helements : FindsElements bound) :
    FindsElements (bound + 1) := by
  intro s r es h hbound
  have hskip := length_skip_le s
  cases h with
  | last hvalue hclose =>
    obtain ⟨hread, hlength⟩ := hvalues hvalue (by omega)
    have hend := length_lt_of_skip hclose
    refine ⟨?_, by omega⟩
    simp [readElements, hread, hclose]
  | more hvalue hcomma hrest =>
    obtain ⟨hread, hlength⟩ := hvalues hvalue (by omega)
    have hnext := length_lt_of_skip hcomma
    obtain ⟨hreads, hend⟩ := helements hrest (by omega)
    refine ⟨?_, by omega⟩
    simp [readElements, hread, hcomma, hreads]

/-- Two characters at least stand before the value of a field. -/
theorem length_lt_of_field {s k t u name : List Char} (hquote : skip s = '"' :: k)
    (hname : WrittenChars k name t) (hcolon : skip t = ':' :: u) :
    (skip u).length + 2 < s.length := by
  have hk := length_lt_of_skip hquote
  have ht := hname.length_lt
  have hu := length_lt_of_skip hcolon
  have hskip := length_skip_le u
  omega

theorem FindsFields.succ (hvalues : FindsValues bound) (hfields : FindsFields bound) :
    FindsFields (bound + 1) := by
  intro s r fs h hbound
  cases h with
  | last hquote hname hcolon hvalue hclose =>
    have hfield := length_lt_of_field hquote hname hcolon
    obtain ⟨hread, hv⟩ := hvalues hvalue (by omega)
    have hr := length_lt_of_skip hclose
    refine ⟨?_, by omega⟩
    simp [readFields, hquote, readString_of_written hname, hcolon, hread, hclose]
  | more hquote hname hcolon hvalue hcomma hrest =>
    have hfield := length_lt_of_field hquote hname hcolon
    obtain ⟨hread, hv⟩ := hvalues hvalue (by omega)
    have hw := length_lt_of_skip hcomma
    obtain ⟨hreads, hr⟩ := hfields hrest (by omega)
    refine ⟨?_, by omega⟩
    simp [readFields, hquote, readString_of_written hname, hcolon, hread, hcomma, hreads]

/-- The three parts of the reader go hand in hand, each with the bound of one step less. -/
theorem finds (bound : Nat) : FindsValues bound ∧ FindsElements bound ∧ FindsFields bound := by
  induction bound with
  | zero =>
    exact ⟨fun _ h => absurd h (Nat.not_lt_zero _), fun _ h => absurd h (Nat.not_lt_zero _),
      fun _ h => absurd h (Nat.not_lt_zero _)⟩
  | succ bound ih =>
    obtain ⟨hvalues, helements, hfields⟩ := ih
    exact ⟨FindsValues.succ helements hfields, FindsElements.succ hvalues helements,
      FindsFields.succ hvalues hfields⟩

/-- **The reader gives the value of every text that is JSON.** -/
theorem read?_of_document {s : List Char} {j : Json} (h : Document s j) : read? s = some j := by
  obtain ⟨r, hwritten, hend⟩ := h
  have hskip := length_skip_le s
  have hread := ((finds (2 * s.length + 1)).1 hwritten (by omega)).1
  rw [read?, hread]
  exact if_pos hend

end Values

end Json

end TaskRunner
