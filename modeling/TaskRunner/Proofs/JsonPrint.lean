import TaskRunner.Proofs.JsonText

/-!
# What is written is JSON

The text of a value is read as the value again (`Json.document_pretty`): indents are blanks, every
character of a string is escaped as the grammar has it, and a number is written as a decimal in its
interval, with a whole part that has no zero in front. Only infinite numbers are lost.
-/
namespace TaskRunner

open Grammar (isDigit)
open Text (StopsAt)

namespace Json

theorem isDigits_digits (n : Nat) : IsDigits (Number.digits n) :=
  ⟨Nat.toDigits_ne_nil, Number.isDigit_of_mem_digits⟩

/-! ## Numbers -/

/-- The text is that of a number without its sign, with this value. -/
inductive Denotes : List Char → ℚ → Prop
  | intro {whole fraction w v : List Char} {power : Int} : IsWhole whole → Fraction fraction w →
    Exponent power v →
    Denotes (whole ++ (w ++ v))
      (Number.ofDigits (whole ++ fraction) * 10 ^ (power - fraction.length : Int))

/-- A value in the interval of a number is read as the number. -/
theorem Denotes.token {text : List Char} {y : ℚ} (h : Denotes text y) {m : Nat} {e : Int}
    (hrange : Number.InRange m e) (hm : 0 < m) (hmem : (Number.interval m e).Mem y)
    (negative : Bool) :
    NumberToken (signText negative ++ text)
      (.ofMagnitude negative (Number.magnitude m e)) := by
  cases h with
  | intro hwhole hfraction hpower =>
    rw [← Number.ofScientific_eq_of_mem hrange hm hmem]
    exact .intro negative hwhole hfraction hpower

theorem denotes_of (whole fraction : List Char) {text w v : List Char} {power : Int} {y : ℚ}
    (htext : text = whole ++ (w ++ v)) (hwhole : IsWhole whole) (hfraction : Fraction fraction w)
    (hpower : Exponent power v)
    (hvalue :
      (Number.ofDigits (whole ++ fraction) : ℚ) * 10 ^ (power - fraction.length : Int) = y) :
    Denotes text y := by
  rw [htext, ← hvalue]
  exact .intro hwhole hfraction hpower

theorem isDigit_of_mem_zeros {k : Nat} : ∀ d ∈ List.replicate k '0', isDigit d = true := by
  intro d hd
  rw [(List.mem_replicate.1 hd).2]
  decide

theorem IsDigits.append {ds ds' : List Char} (h : IsDigits ds) (h' : ∀ d ∈ ds', isDigit d = true) :
    IsDigits (ds ++ ds') := by
  refine ⟨by simp [h.1], fun d hd => ?_⟩
  exact (List.mem_append.1 hd).elim (h.2 d) (h' d)

/-- Digits that start like those of a positive number can be a whole part. -/
theorem isWhole_of_head {n : Nat} (hn : 0 < n) {ds : List Char} (hds : IsDigits ds)
    (hhead : ds.head? = (Number.digits n).head?) : IsWhole ds :=
  ⟨hds, fun hzero => absurd (hhead ▸ hzero) (Number.head?_digits hn)⟩

theorem isDigits_zero : IsDigits ['0'] :=
  ⟨List.cons_ne_nil _ _, List.forall_mem_singleton.2 (by decide)⟩

theorem isWhole_zero : IsWhole ['0'] := ⟨isDigits_zero, fun _ => rfl⟩

/-- A power below the digits: a zero, a point, and zeros before the digits. -/
theorem plain_below (n : Nat) {power : Int} (h : power + (Number.digits n).length - 1 < 0) :
    Denotes (plain (Number.digits n) (power + (Number.digits n).length - 1)) (n * 10 ^ power) := by
  obtain ⟨k, hk⟩ : ∃ k, (-(power + (Number.digits n).length - 1) - 1).toNat = k := ⟨_, rfl⟩
  have hfraction : IsDigits (List.replicate k '0' ++ Number.digits n) :=
    ⟨by simp [Number.digits], fun d hd =>
      (List.mem_append.1 hd).elim (isDigit_of_mem_zeros d) (Number.isDigit_of_mem_digits d)⟩
  refine denotes_of ['0'] _ ?_ isWhole_zero (.some hfraction) .none ?_
  · rw [plain, if_pos h, hk]
    simp
  · have hvalue : Number.ofDigits (['0'] ++ (List.replicate k '0' ++ Number.digits n)) = n := by
      rw [show ['0'] = List.replicate 1 '0' from rfl, Number.ofDigits_zeros_append,
        Number.ofDigits_zeros_append, Number.ofDigits_digits]
    have hpower : (0 : Int) - (List.replicate k '0' ++ Number.digits n).length = power := by
      rw [List.length_append, List.length_replicate]
      omega
    rw [hvalue, hpower]

/-- A power that leaves nothing behind the point: zeros are put behind the digits. -/
theorem plain_above {n : Nat} (hn : 0 < n) {power : Int} (hpower : 0 ≤ power) :
    Denotes (plain (Number.digits n) (power + (Number.digits n).length - 1)) (n * 10 ^ power) := by
  have hlength : 0 < (Number.digits n).length := Nat.length_toDigits_pos
  obtain ⟨k, rfl⟩ := Int.eq_ofNat_of_zero_le hpower
  have hwhole : ((k : Int) + (Number.digits n).length - 1).toNat + 1 =
      k + (Number.digits n).length := by
    omega
  refine denotes_of (Number.digits n ++ List.replicate k '0') ['0'] ?_
    (isWhole_of_head hn ((isDigits_digits n).append isDigit_of_mem_zeros) ?_)
    (.some isDigits_zero) .none ?_
  · rw [plain, if_neg (by omega)]
    simp only [hwhole]
    rw [if_pos (by omega), Nat.add_sub_cancel]
    rfl
  · rw [List.head?_append_of_ne_nil _ (isDigits_digits n).1]
  · have hvalue : Number.ofDigits (Number.digits n ++ List.replicate k '0' ++ ['0']) =
        10 ^ (k + 1) * n := by
      rw [List.append_assoc, ← List.replicate_succ', Number.ofDigits_append_zeros,
        Number.ofDigits_digits]
    rw [hvalue]
    push_cast
    simp [pow_succ]
    ring

/-- A power that puts the point between the digits. -/
theorem plain_between {n : Nat} (hn : 0 < n) {power : Int} (hpower : power < 0)
    (h : 0 ≤ power + (Number.digits n).length - 1) :
    Denotes (plain (Number.digits n) (power + (Number.digits n).length - 1)) (n * 10 ^ power) := by
  obtain ⟨k, hk⟩ : ∃ k, (power + (Number.digits n).length - 1).toNat + 1 = k := ⟨_, rfl⟩
  have hdigits := isDigits_digits n
  have hwhole : IsDigits ((Number.digits n).take k) :=
    ⟨by simp [hdigits.1]; omega, fun d hd => hdigits.2 d (List.mem_of_mem_take hd)⟩
  have hfraction : IsDigits ((Number.digits n).drop k) :=
    ⟨by simp; omega, fun d hd => hdigits.2 d (List.mem_of_mem_drop hd)⟩
  refine denotes_of _ _ ?_ (isWhole_of_head hn hwhole ?_) (.some hfraction) .none ?_
  · rw [plain, if_neg (by omega)]
    simp only [hk]
    rw [if_neg (by omega), List.append_nil]
  · rw [List.head?_take, if_neg (by omega)]
  · have hlength : (0 : Int) - ((Number.digits n).drop k).length = power := by
      rw [List.length_drop]
      omega
    rw [List.take_append_drop, Number.ofDigits_digits, hlength]

theorem plain_denotes {n : Nat} (hn : 0 < n) (power : Int) :
    Denotes (plain (Number.digits n) (power + (Number.digits n).length - 1)) (n * 10 ^ power) := by
  by_cases hbelow : power + (Number.digits n).length - 1 < 0
  · exact plain_below n hbelow
  · rcases Int.lt_or_le power 0 with hneg | hpos
    · exact plain_between hn hneg (Int.not_lt.1 hbelow)
    · exact plain_above hn hpos

/-- The exponent has its sign written. -/
theorem exponent_signed (weight : Int) :
    Exponent weight
      ('e' :: (if weight < 0 then '-' else '+') :: Nat.toDigits 10 weight.natAbs) := by
  have hvalue : Number.ofDigits (Nat.toDigits 10 weight.natAbs) = weight.natAbs :=
    Number.ofDigits_digits _
  split
  · have hexponent := @Exponent.minus 'e' _ (by decide) (isDigits_digits weight.natAbs)
    rw [Number.digits, hvalue, show -(weight.natAbs : Int) = weight by omega] at hexponent
    exact hexponent
  · have hexponent := @Exponent.plus 'e' _ (by decide) (isDigits_digits weight.natAbs)
    rw [Number.digits, hvalue, show (weight.natAbs : Int) = weight by omega] at hexponent
    exact hexponent

theorem scientific_denotes {n : Nat} (hn : 0 < n) (power : Int) :
    Denotes (scientific (Number.digits n) (power + (Number.digits n).length - 1))
      (n * 10 ^ power) := by
  have hdigits := isDigits_digits n
  have hhead := Number.head?_digits hn
  have hvalue := Number.ofDigits_digits n
  generalize Number.digits n = ds at *
  match ds, hdigits with
  | [d], hdigits =>
    refine denotes_of [d] [] rfl ⟨hdigits, fun h => absurd h hhead⟩ .none
      (exponent_signed _) ?_
    rw [List.append_nil, hvalue]
    simp
  | d :: e :: rest, hdigits =>
    refine denotes_of [d] (e :: rest) rfl
      ⟨⟨by simp, fun x hx => hdigits.2 x (by simp_all)⟩, fun h => absurd h hhead⟩
      (.some ⟨by simp, fun x hx => hdigits.2 x (by simp_all)⟩) (exponent_signed _) ?_
    rw [List.singleton_append, hvalue]
    have hpower : power + (d :: e :: rest).length - 1 - (e :: rest).length = power := by
      simp only [List.length_cons]
      omega
    rw [hpower]

theorem magnitude_denotes {m : Nat} {e : Int} (hrange : Number.InRange m e) (hm : 0 < m) :
    Denotes (magnitude m e)
      ((Number.shortest m e).coefficient * 10 ^ (Number.shortest m e).power) := by
  have hpos := Number.shortest_pos hrange hm
  rw [magnitude, if_neg hm.ne']
  dsimp only
  split
  · exact plain_denotes hpos _
  · exact scientific_denotes hpos _

/-- **A finite number is written as a token that is read as the number.** -/
theorem numberText_token {x : Number} (hx : x.IsFinite) : NumberToken (numberText x) x := by
  obtain ⟨m, e, hview⟩ := Number.view_of_isFinite hx
  obtain ⟨hrange, hbits⟩ := Number.eq_ofMagnitude_of_view hview
  have htext : numberText x = signText x.isNegative ++ magnitude m e := by
    rw [numberText, hview]
    rfl
  rw [htext]
  rcases Nat.eq_zero_or_pos m with rfl | hm
  · obtain rfl : e = -1074 := hrange.normal.resolve_right (by decide)
    have htoken := NumberToken.intro x.isNegative isWhole_zero (.some isDigits_zero) .none
    have hzero : Number.ofScientific x.isNegative (Number.ofDigits (['0'] ++ ['0']))
        (0 - (['0'].length : Int)) = x := hbits.symm
    rwa [hzero] at htoken
  · have htoken := (magnitude_denotes hrange hm).token hrange hm (Number.shortest_mem hrange hm)
      x.isNegative
    rwa [← hbits] at htoken

/-! ## Strings -/

theorem codeUnit_control {n : Nat} (hn : n < 0x20) :
    CodeUnit ['0', '0', hexDigit (n / 16), hexDigit n] n := by
  have hall : ∀ n < 0x20,
      (['0', '0', hexDigit (n / 16), hexDigit n].all fun d => (Text.hexValue? d).isSome) = true ∧
        Text.ofHex ['0', '0', hexDigit (n / 16), hexDigit n] = n := by
    decide
  exact ⟨rfl, List.all_eq_true.1 (hall n hn).1, (hall n hn).2⟩

theorem written_escapeChar (c : Char) {s t r : List Char} (h : WrittenChars s t r) :
    WrittenChars (escapeChar c ++ s) (c :: t) r := by
  unfold escapeChar
  split_ifs with hquote hback hb hf hn hr ht hcontrol
  · subst hquote; exact .named rfl h
  · subst hback; exact .named rfl h
  · subst hb; exact .named rfl h
  · subst hf; exact .named rfl h
  · subst hn; exact .named rfl h
  · subst hr; exact .named rfl h
  · subst ht; exact .named rfl h
  · have hlow : isLow c.toNat = false := by simp [isLow]; omega
    have hhigh : isHigh c.toNat = false := by simp [isHigh]; omega
    have hcode := WrittenChars.code (codeUnit_control hcontrol) hhigh hlow h
    rwa [Char.ofNat_toNat] at hcode
  · exact .plain (Nat.not_lt.1 hcontrol) hquote hback h

theorem written_escaped (s r : List Char) :
    WrittenChars (s.flatMap escapeChar ++ '"' :: r) s r := by
  induction s with
  | nil => exact .done
  | cons c s ih =>
    rw [List.flatMap_cons, List.append_assoc]
    exact written_escapeChar c ih

/-! ## Layout -/

/-- The number stands somewhere in the value. -/
inductive Occurs (x : Number) : Json → Prop
  | number : Occurs x (.number x)
  | array {e : Json} {es : List Json} : e ∈ es → Occurs x e → Occurs x (.array es)
  | object {f : String × Json} {fs : List (String × Json)} : f ∈ fs → Occurs x f.2 →
    Occurs x (.object fs)

theorem skip_newLine (level : Nat) {s : List Char} (h : StopsAt isSpace s) :
    skip (newLine level ++ s) = s := by
  refine Text.dropWhile_run (fun c hc => ?_) h
  rcases List.mem_cons.1 hc with rfl | hc
  · decide
  · rw [(List.mem_replicate.1 hc).2]
    decide

theorem newLine_stopsAt (level : Nat) (s : List Char) : StopsAt isNumberChar (newLine level ++ s) :=
  Text.stopsAt_cons.2 (by decide)

theorem isSpace_of_isDigit {c : Char} (h : isDigit c = true) : isSpace c = false := by
  rw [Bool.eq_false_iff]
  intro hspace
  simp only [isSpace, Bool.or_eq_true, beq_iff_eq] at hspace
  rcases hspace with ((rfl | rfl) | rfl) | rfl <;> exact absurd h (by decide)

/-- A value does not start with a blank. -/
theorem Written.stopsAt_space {s r : List Char} {j : Json} (h : Written s j r) :
    StopsAt isSpace s := by
  cases h with
  | number htoken _ =>
    obtain ⟨c, u, rfl, hc⟩ := htoken.start
    rw [List.cons_append, Text.stopsAt_cons]
    rcases hc with rfl | hc
    · decide
    · exact isSpace_of_isDigit hc
  | _ => exact Text.stopsAt_cons.2 (by decide)

theorem Written.indented {s r : List Char} {j : Json} (h : Written s j r) (level : Nat) :
    Written (skip (newLine level ++ s)) j r := by
  rw [skip_newLine level h.stopsAt_space]
  exact h

theorem Written.spaced {s r : List Char} {j : Json} (h : Written s j r) :
    Written (skip (' ' :: s)) j r := by
  have hblank : ∀ c ∈ [' '], isSpace c = true := List.forall_mem_singleton.2 (by decide)
  have hskip : skip (' ' :: s) = s := Text.dropWhile_run hblank h.stopsAt_space
  rw [hskip]
  exact h

/-- The value is written by its layout, whatever stands behind that is not part of a number. -/
def LaidOut (level : Nat) (j : Json) : Prop :=
  ∀ {r : List Char}, StopsAt isNumberChar r → Written (layout level j ++ r) j r

/-- The elements of an array that is closed one level further out. -/
theorem written_elements {level : Nat} (below : Nat) : ∀ (e : Json) (rest : List Json),
    (∀ e' ∈ e :: rest, LaidOut level e') → ∀ (r : List Char),
    WrittenElements (newLine level ++ (layout level e ++ (layoutElements level rest ++
      (newLine below ++ ']' :: r)))) (e :: rest) r
  | e, [], hlaid, r => by
    have hvalue := hlaid e (by simp) (newLine_stopsAt below (']' :: r))
    exact .last (hvalue.indented level) (skip_newLine below (Text.stopsAt_cons.2 (by decide)))
  | e, e' :: rest, hlaid, r => by
    have hrest := written_elements below e' rest (fun x hx => hlaid x (List.mem_cons_of_mem e hx)) r
    have hcomma : StopsAt isNumberChar (',' :: (newLine level ++ (layout level e' ++
        (layoutElements level rest ++ (newLine below ++ ']' :: r))))) :=
      Text.stopsAt_cons.2 (by decide)
    have hvalue := hlaid e (by simp) hcomma
    simpa [layoutElements] using WrittenElements.more (hvalue.indented level) rfl hrest

theorem skip_name (level : Nat) (name : String) (s : List Char) :
    skip (newLine level ++ (stringText name.toList ++ s)) =
      '"' :: (name.toList.flatMap escapeChar ++ '"' :: s) := by
  have hquote : StopsAt isSpace (stringText name.toList ++ s) := Text.stopsAt_cons.2 (by decide)
  rw [skip_newLine level hquote]
  simp [stringText]

/-- The fields of an object that is closed one level further out. -/
theorem written_fields {level : Nat} (below : Nat) : ∀ (name : String) (e : Json)
    (rest : List (String × Json)), (∀ f ∈ (name, e) :: rest, LaidOut level f.2) →
    ∀ (r : List Char), WrittenFields (newLine level ++ (stringText name.toList ++
      (':' :: ' ' :: (layout level e ++ (layoutFields level rest ++
        (newLine below ++ '\x7d' :: r)))))) ((name, e) :: rest) r
  | name, e, [], hlaid, r => by
    have hvalue := hlaid (name, e) (by simp) (newLine_stopsAt below ('\x7d' :: r))
    have hfield := WrittenFields.last (skip_name level name (':' :: ' ' :: _))
      (written_escaped name.toList _) rfl hvalue.spaced
      (skip_newLine below (Text.stopsAt_cons.2 (by decide)))
    rwa [String.ofList_toList] at hfield
  | name, e, (name', e') :: rest, hlaid, r => by
    have hrest := written_fields below name' e' rest
      (fun f hf => hlaid f (List.mem_cons_of_mem (name, e) hf)) r
    have hcomma : StopsAt isNumberChar (',' :: (newLine level ++ (stringText name'.toList ++
        (':' :: ' ' :: (layout level e' ++ (layoutFields level rest ++
          (newLine below ++ '\x7d' :: r))))))) :=
      Text.stopsAt_cons.2 (by decide)
    have hvalue := hlaid (name, e) (by simp) hcomma
    have hfield := WrittenFields.more (skip_name level name (':' :: ' ' :: _))
      (written_escaped name.toList _) rfl hvalue.spaced rfl hrest
    rw [String.ofList_toList] at hfield
    simpa [layoutFields] using hfield

/-- **The text of a value is the value written.** -/
theorem written_layout (level : Nat) : ∀ (j : Json), (∀ x, Occurs x j → x.IsFinite) →
    LaidOut level j
  | .null, _, _, _ => .null
  | .bool true, _, _, _ => .yes
  | .bool false, _, _, _ => .no
  | .number x, hfinite, _, hr => .number (numberText_token (hfinite x .number)) hr
  | .string s, _, r, _ => by
    have hwritten := Written.string (written_escaped s.toList r)
    rw [String.ofList_toList] at hwritten
    simpa [layout, stringText] using hwritten
  | .array [], _, _, _ => .emptyArray rfl
  | .array (e :: rest), hfinite, r, _ => by
    have hlaid : ∀ e' ∈ e :: rest, LaidOut (level + 1) e' := fun e' he' =>
      written_layout (level + 1) e' fun x hx => hfinite x (.array he' hx)
    simpa [layout] using Written.array (written_elements level e rest hlaid r)
  | .object [], _, _, _ => .emptyObject rfl
  | .object ((name, v) :: rest), hfinite, r, _ => by
    have hlaid : ∀ f ∈ (name, v) :: rest, LaidOut (level + 1) f.2 := fun f hf =>
      written_layout (level + 1) f.2 fun x hx => hfinite x (.object hf hx)
    simpa [layout] using Written.object (written_fields level name v rest hlaid r)
termination_by j => sizeOf j
decreasing_by
  · have := List.sizeOf_lt_of_mem he'
    simp only [array.sizeOf_spec]
    omega
  · have := List.sizeOf_lt_of_mem hf
    obtain ⟨name', v'⟩ := f
    simp only [object.sizeOf_spec, Prod.mk.sizeOf_spec] at this ⊢
    omega

theorem document_pretty {j : Json} (h : ∀ x, Occurs x j → x.IsFinite) :
    Document j.pretty.toList j := by
  have hwritten := written_layout 0 j h (r := []) Text.stopsAt_nil
  rw [List.append_nil] at hwritten
  refine ⟨[], ?_, rfl⟩
  rw [pretty, String.toList_ofList, skip, Text.dropWhile_of_stopsAt hwritten.stopsAt_space]
  exact hwritten

end Json

end TaskRunner
