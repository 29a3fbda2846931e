import TaskRunner.Grammar.Phrase
import TaskRunner.Proofs.Text

/-!
# What the parsers read

For each token and each way to put parsers together, what is read off the front of a text that is
known to start in a certain way. A token is read off in full if what follows it cannot make it
longer. Blanks between the parts of a line are skipped at more than one place, so what is left of a
text after a part of it is often known up to blanks only (`AfterGap`).
-/
namespace TaskRunner.Grammar

open Text (StopsAt)

/-- Blanks as they may stand between two parts of a line. -/
def Blanks (g : List Char) : Prop := ∀ c ∈ g, isGap c = true

theorem isGap_iff {c : Char} : isGap c = true ↔ c = ' ' ∨ c = '\t' := by simp [isGap]

/-- What is true of neither blank is true of none. -/
theorem eq_false_of_isGap {p : Char → Bool} {c : Char} (h : isGap c = true) (hspace : p ' ' = false)
    (htab : p '\t' = false) : p c = false := by
  rcases isGap_iff.1 h with rfl | rfl
  · exact hspace
  · exact htab

theorem isGap_eq_false {p : Char → Bool} {c : Char} (h : p c = true) (hspace : p ' ' = false)
    (htab : p '\t' = false) : isGap c = false := by
  by_contra hg
  rw [eq_false_of_isGap (by simpa using hg) hspace htab] at h
  cases h

/-- What is left of a text after some of the blanks at its front. -/
def AfterGap (r s : List Char) : Prop := ∃ g, Blanks g ∧ s = g ++ r

theorem AfterGap.refl (s : List Char) : AfterGap s s := ⟨[], by simp [Blanks], rfl⟩

theorem AfterGap.trans {r s t : List Char} : AfterGap r s → AfterGap s t → AfterGap r t := by
  rintro ⟨g, hg, rfl⟩ ⟨g', hg', rfl⟩
  refine ⟨g' ++ g, fun c hc => ?_, by simp⟩
  rcases List.mem_append.1 hc with h | h
  · exact hg' c h
  · exact hg c h

theorem AfterGap.dropWhile_eq {r s : List Char} (h : AfterGap r s) :
    r.dropWhile isGap = s.dropWhile isGap := by
  obtain ⟨g, hg, rfl⟩ := h
  rw [List.dropWhile_append_of_pos hg]

theorem AfterGap.length_le {r s : List Char} (h : AfterGap r s) : r.length ≤ s.length := by
  obtain ⟨g, -, rfl⟩ := h
  simp

theorem AfterGap.eq_of_stopsAt {r s : List Char} (h : AfterGap r s) (hs : StopsAt isGap s) :
    r = s := by
  obtain ⟨g, hg, rfl⟩ := h
  cases g with
  | nil => rfl
  | cons c g =>
    rw [List.cons_append, Text.stopsAt_cons, hg c (by simp)] at hs
    cases hs

theorem afterGap_dropWhile (s : List Char) : AfterGap (s.dropWhile isGap) s :=
  ⟨s.takeWhile isGap, fun _ hc => List.mem_takeWhile_imp hc, List.takeWhile_append_dropWhile.symm⟩

theorem Blanks.dropWhile_append {g s : List Char} (hg : Blanks g) (hs : StopsAt isGap s) :
    (g ++ s).dropWhile isGap = s :=
  Text.dropWhile_run hg hs

namespace Parser

variable {α β : Type}

/-! ## Parsers put together -/

@[simp] theorem run_map (f : α → β) (p : Parser α) (s : List Char) :
    (f <$> p).run s = (p.run s).map fun x => (f x.1, x.2) := by
  show (p >>= fun a => pure (f a)).run s = _
  rw [run_bind]
  cases p.run s <;> rfl

theorem run_optional (p : Parser α) (s : List Char) :
    (Parser.optional p).run s = some (((p.run s).map fun x => (some x.1, x.2)).getD (none, s)) := by
  simp only [Parser.optional]
  cases p.run s <;> rfl

theorem run_optional_some {p : Parser α} {s r : List Char} {a : α} (h : p.run s = some (a, r)) :
    (Parser.optional p).run s = some (some a, r) := by
  rw [run_optional, h]; rfl

theorem run_optional_none {p : Parser α} {s : List Char} (h : p.run s = none) :
    (Parser.optional p).run s = some (none, s) := by
  rw [run_optional, h]; rfl

@[simp] theorem run_gap (s : List Char) : gap.run s = some ((), s.dropWhile isGap) := rfl

theorem run_word (w s : List Char) : (word w).run (w ++ s) = some ((), s) := by
  simp [word]

theorem run_word_cons (c d : Char) (s : List Char) :
    (word [c]).run (d :: s) = if c = d then some ((), s) else none := by
  by_cases h : c = d <;> simp [word, h]

theorem run_word_nil (c : Char) (w : List Char) : (word (c :: w)).run [] = none := by
  simp [word]

/-- Matches in a row up to where the parser fails. Each takes more than blanks off the text. -/
inductive Runs (p : Parser α) : List Char → List α → List Char → Prop
  | done {s : List Char} : p.run s = none → Runs p s [] s
  | step {s t r : List Char} {a : α} {as : List α} : p.run s = some (a, t) →
    t.length < (s.dropWhile isGap).length → Runs p t as r → Runs p s (a :: as) r

theorem Runs.run_upTo {γ : Type} {p : Parser α} {s r : List Char} {as : List α}
    (h : Runs p s as r) : ∀ bound : List γ, s.length ≤ bound.length →
    (p.upTo bound).run s = some (as, r) := by
  induction h with
  | done hnone => intro bound _; cases bound <;> simp [upTo, hnone]
  | @step s t r a as hsome hlt hrest ih =>
    intro bound hb
    have hle := (List.dropWhile_suffix isGap (l := s)).length_le
    cases bound with
    | nil => simp at hb; simp [hb] at hlt
    | cons b bound =>
      have := ih bound (by simp at hb; omega)
      simp [upTo, hsome, this]

/-- The text has more characters than there can be matches, so its length is no limit. -/
theorem Runs.run_many {p : Parser α} {s r : List Char} {as : List α} (h : Runs p s as r) :
    (many p).run s = some (as, r) :=
  h.run_upTo s (Nat.le_refl _)

/-- Blanks at the front make no difference to a parser that skips them first. -/
theorem Runs.afterGap {p : Parser α} (hp : ∀ s, p.run (s.dropWhile isGap) = p.run s)
    {s s' r : List Char} {as : List α} (h : Runs p s as r) (hs : AfterGap s' s) :
    ∃ r', Runs p s' as r' ∧ AfterGap r' r := by
  have hsame : p.run s' = p.run s := by rw [← hp s', hs.dropWhile_eq, hp]
  cases h with
  | done hnone => exact ⟨s', .done (hsame.trans hnone), hs⟩
  | step hsome hlt hrest =>
    exact ⟨r, .step (hsame.trans hsome) (by rw [hs.dropWhile_eq]; exact hlt) hrest, .refl r⟩

/-! ## Tokens -/

end Parser

namespace Token

/-- A name: a letter, and then letters, digits and `_`. -/
def IsName (s : String) : Prop :=
  ∃ c w, s.toList = c :: w ∧ isLetter c = true ∧ ∀ d ∈ w, isNameChar d = true

instance (s : String) : Decidable (IsName s) :=
  match h : s.toList with
  | [] => isFalse fun ⟨c, w, hs, _⟩ => by simp [h] at hs
  | c :: w =>
    decidable_of_iff (isLetter c = true ∧ w.all isNameChar = true)
      ⟨fun hw => ⟨c, w, h, hw.1, List.all_eq_true.1 hw.2⟩, fun ⟨c', w', hs, hc, hw⟩ => by
        obtain ⟨rfl, rfl⟩ := List.cons.inj (h.symm.trans hs)
        exact ⟨hc, List.all_eq_true.2 hw⟩⟩

variable {rest : List Char}

theorem name_append {s : String} (h : IsName s) (hrest : StopsAt isNameChar rest) :
    name (s.toList ++ rest) = some (s, rest) := by
  obtain ⟨c, w, hs, hc, hw⟩ := h
  rw [hs, List.cons_append, name, if_pos hc, Text.takeWhile_run hw hrest,
    Text.dropWhile_run hw hrest, ← hs, String.ofList_toList]

theorem isNameChar_of_isLetter {c : Char} (h : isLetter c = true) : isNameChar c = true := by
  simp [isNameChar, h]

theorem IsName.isNameChar {s : String} (h : IsName s) : ∀ c ∈ s.toList, isNameChar c = true := by
  obtain ⟨c, w, hs, hc, hw⟩ := h
  rw [hs]
  exact List.forall_mem_cons.2 ⟨isNameChar_of_isLetter hc, hw⟩

theorem isDigit_of_isLetter {c : Char} (h : isLetter c = true) : isDigit c = false := by
  by_contra hd
  simp only [isLetter, isDigit, Bool.not_eq_false, Bool.or_eq_true, Bool.and_eq_true,
    decide_eq_true_eq, Char.le_def, UInt32.le_iff_toNat_le] at h hd
  have h9 : '9'.val.toNat = 57 := rfl
  have ha : 'a'.val.toNat = 97 := rfl
  have hA : 'A'.val.toNat = 65 := rfl
  omega

/-- A name starts with a letter. -/
theorem IsName.stopsAt {s : String} (h : IsName s) {p : Char → Bool}
    (hp : ∀ c, isLetter c = true → p c = false) (rest : List Char) :
    StopsAt p (s.toList ++ rest) := by
  obtain ⟨c, w, hs, hc, -⟩ := h
  rw [hs]
  exact Text.stopsAt_cons.2 (hp c hc)

/-- A name does not start with a character that is no letter. -/
theorem IsName.stopsAt_char {s : String} (h : IsName s) {d : Char} (hd : isLetter d = false)
    (rest : List Char) : StopsAt (· == d) (s.toList ++ rest) := by
  obtain ⟨c, w, hs, hc, -⟩ := h
  rw [hs]
  exact Text.stopsAt_other hc hd

/-- A reserved word is not read off a longer or a different name. -/
theorem keyword_name {w : List Char} {s : String} (hw : w.all Grammar.isNameChar = true)
    (hs : IsName s) (hne : s.toList ≠ w) (hrest : StopsAt Grammar.isNameChar rest) :
    keyword w (s.toList ++ rest) = none := by
  unfold keyword
  split
  · rename_i hpre
    obtain ⟨t, ht⟩ := List.isPrefixOf_iff_prefix.1 hpre
    rcases List.append_eq_append_iff.1 ht with ⟨u, hu, hut⟩ | ⟨u, hu, hut⟩
    · cases u with
      | nil => exact absurd (by simpa using hu) hne
      | cons c u =>
        have hc := hs.isNameChar c (by simp [hu])
        simp [hu, hc]
    · cases u with
      | nil => exact absurd (by simpa using hu.symm) hne
      | cons c u =>
        have hc := List.all_eq_true.1 hw c (by simp [hu])
        rw [hut, List.cons_append, Text.stopsAt_cons, hc] at hrest
        cases hrest
  · rfl

theorem keyword_append {w : List Char} (hrest : StopsAt isNameChar rest) :
    keyword w (w ++ rest) = some ((), rest) := by
  cases rest with
  | nil => simp [keyword]
  | cons c rest =>
    rw [Text.stopsAt_cons] at hrest
    simp [keyword, hrest]

theorem restOfLine_append {text : List Char} (h : ∀ c ∈ text, isLineEnd c = false)
    (hrest : StopsAt (fun c => !isLineEnd c) rest) :
    restOfLine (text ++ rest) = (text, rest) := by
  have ht : ∀ c ∈ text, (!isLineEnd c) = true := fun c hc => by simp [h c hc]
  rw [restOfLine, Text.takeWhile_run ht hrest, Text.dropWhile_run ht hrest]

theorem comment_append {text : String} (h : ∀ c ∈ text.toList, isLineEnd c = false)
    (hrest : StopsAt (fun c => !isLineEnd c) rest) :
    comment ('#' :: (text.toList ++ rest)) = some (text, rest) := by
  simp [comment, restOfLine_append h hrest]

/-- A character that could make a number longer. -/
def isNumberChar (c : Char) : Bool := isDigit c || c == '.'

theorem number_whole {d : List Char} (hd : ∀ c ∈ d, isDigit c = true) (hne : d ≠ [])
    (hrest : StopsAt isNumberChar rest) :
    number (d ++ rest) = some (Number.ofDecimal d [], rest) := by
  have hstop : StopsAt isDigit rest := fun c hc => by
    have := hrest c hc
    simp_all [isNumberChar]
  unfold number
  rw [Text.takeWhile_run hd hstop, Text.dropWhile_run hd hstop]
  split
  · exact absurd rfl hne
  · exact absurd rfl hne
  · simp [isNumberChar] at hrest
  · rfl

theorem number_point {d f : List Char} (hd : ∀ c ∈ d, isDigit c = true)
    (hf : ∀ c ∈ f, isDigit c = true) (hne : d ≠ [] ∨ f ≠ []) (hrest : StopsAt isDigit rest) :
    number (d ++ '.' :: (f ++ rest)) = some (Number.ofDecimal d f, rest) := by
  have hstop : StopsAt isDigit ('.' :: (f ++ rest)) := by simp [isDigit]
  unfold number
  rw [Text.takeWhile_run hd hstop, Text.dropWhile_run hd hstop]
  cases d with
  | cons c d =>
    simp only [Text.takeWhile_run hf hrest, Text.dropWhile_run hf hrest]
  | nil =>
    simp only [Text.takeWhile_run hf hrest, Text.dropWhile_run hf hrest]
    cases f with
    | nil => simp at hne
    | cons c f => rfl

/-- The two forms of a number: digits, or a point with digits on at least one side of it. Either
ends before the first character that could make it longer. -/
theorem number_forms {s r : List Char} {x : Number} (h : number s = some (x, r)) :
    (∃ d, s = d ++ r ∧ d ≠ [] ∧ (∀ c ∈ d, isDigit c = true) ∧ StopsAt isNumberChar r ∧
      x = Number.ofDecimal d []) ∨
    ∃ d f, s = d ++ '.' :: (f ++ r) ∧ (∀ c ∈ d, isDigit c = true) ∧ (∀ c ∈ f, isDigit c = true) ∧
      (d ≠ [] ∨ f ≠ []) ∧ StopsAt isDigit r ∧ x = Number.ofDecimal d f := by
  have hsplit (v : List Char) : v = v.takeWhile isDigit ++ v.dropWhile isDigit :=
    List.takeWhile_append_dropWhile.symm
  have hdigits (v : List Char) : ∀ c ∈ v.takeWhile isDigit, isDigit c = true :=
    fun c hc => List.mem_takeWhile_imp hc
  have hstop (v : List Char) : StopsAt isDigit (v.dropWhile isDigit) :=
    Text.stopsAt_dropWhile isDigit v
  unfold number at h
  split at h
  · rename_i v hnil hpoint
    split at h
    · cases h
    · rename_i hne
      obtain ⟨rfl, rfl⟩ := Prod.mk.inj (Option.some.inj h)
      refine .inr ⟨[], v.takeWhile isDigit, ?_, by simp, hdigits v, .inr hne, hstop v, rfl⟩
      rw [← hsplit v, List.nil_append, ← hpoint]
      simpa [hnil] using hsplit s
  · cases h
  · rename_i v hpoint hne
    obtain ⟨rfl, rfl⟩ := Prod.mk.inj (Option.some.inj h)
    refine .inr ⟨s.takeWhile isDigit, v.takeWhile isDigit, ?_, hdigits s, hdigits v, .inl hne,
      hstop v, rfl⟩
    rw [← hsplit v, ← hpoint]
    exact hsplit s
  · rename_i hne hpoint _
    obtain ⟨rfl, rfl⟩ := Prod.mk.inj (Option.some.inj h)
    refine .inl ⟨s.takeWhile isDigit, hsplit s, hne, hdigits s, fun c hc => ?_, rfl⟩
    have hdot : c ≠ '.' := by
      rintro rfl
      obtain ⟨w, hw⟩ := List.head?_eq_some_iff.1 hc
      exact hpoint w hw
    simp [isNumberChar, hstop s c hc, hdot]

theorem number_append {w : List Char} {x : Number} (h : number w = some (x, []))
    (hrest : StopsAt isNumberChar rest) : number (w ++ rest) = some (x, rest) := by
  rcases number_forms h with ⟨d, rfl, hne, hd, -, rfl⟩ | ⟨d, f, rfl, hd, hf, hne, -, rfl⟩
  · rw [List.append_nil]
    exact number_whole hd hne hrest
  · rw [List.append_nil, List.append_assoc, List.cons_append]
    refine number_point hd hf hne fun c hc => ?_
    have := hrest c hc
    simp_all [isNumberChar]

theorem number_eq_none {s : List Char} (h : StopsAt isNumberChar s) : number s = none := by
  cases s with
  | nil => rfl
  | cons c s =>
    have hc : isDigit c = false ∧ c ≠ '.' := by simpa [isNumberChar] using h
    simp [number, hc.1, hc.2]

/-- A name is not read as a number. -/
theorem IsName.number_eq_none {s : String} (h : IsName s) (rest : List Char) :
    number (s.toList ++ rest) = none := by
  refine Token.number_eq_none (h.stopsAt (fun c hc => ?_) rest)
  have hpoint : c ≠ '.' := by rintro rfl; exact absurd hc (by decide)
  simp [isNumberChar, isDigit_of_isLetter hc, hpoint]

theorem name_eq_none {s : List Char} (h : StopsAt isLetter s) : name s = none := by
  cases s with
  | nil => rfl
  | cons c s => simp [name, Text.stopsAt_cons.1 h]

theorem string_eq_none {s : List Char} (h : StopsAt (· == '"') s) : string s = none := by
  unfold string
  split
  · simp at h
  · rfl

/-- A text as it is written between quotes: with a backslash before each quote and backslash. -/
def escape (s : List Char) : List Char :=
  s.flatMap fun c => if c = '"' ∨ c = '\\' then ['\\', c] else [c]

theorem escape_cons_marked {c : Char} (h : c = '"' ∨ c = '\\') (s : List Char) :
    escape (c :: s) = '\\' :: c :: escape s := by
  simp [escape, h]

theorem escape_cons_plain {c : Char} (h : ¬ (c = '"' ∨ c = '\\')) (s : List Char) :
    escape (c :: s) = c :: escape s := by
  simp [escape, h]

theorem mem_escape {c : Char} {s : List Char} (h : c ∈ s) : c ∈ escape s :=
  List.mem_flatMap.2 ⟨c, h, by split <;> simp⟩

theorem unescape_backslash (c : Char) (s : List Char) :
    unescape ('\\' :: c :: s) = c :: unescape s := by
  simp [unescape]

theorem unescape_plain {c : Char} (h : c ≠ '\\') (s : List Char) :
    unescape (c :: s) = c :: unescape s := by
  rw [unescape]
  · rintro rfl
    exact absurd rfl h
  · rintro d t rfl
    exact absurd rfl h

/-- What is escaped stands for itself. -/
theorem unescape_escape (s : List Char) : unescape (escape s) = s := by
  induction s with
  | nil => rfl
  | cons c s ih =>
    by_cases hc : c = '"' ∨ c = '\\'
    · rw [escape_cons_marked hc, unescape_backslash, ih]
    · rw [escape_cons_plain hc, unescape_plain (not_or.1 hc).2, ih]

theorem stringText_plain {c : Char} (h : ¬ (c = '"' ∨ c = '\\')) (s : List Char) :
    stringText (c :: s) = (c :: (stringText s).1, (stringText s).2) := by
  rw [stringText, if_neg h]
  · rintro t rfl
    exact absurd (.inr rfl) h
  · rintro t rfl
    exact absurd (.inr rfl) h

/-- An escaped text is read in full, up to where a string ends. -/
theorem stringText_escape (h : stringText rest = ([], rest)) (s : List Char) :
    stringText (escape s ++ rest) = (escape s, rest) := by
  induction s with
  | nil => exact h
  | cons c s ih =>
    by_cases hc : c = '"' ∨ c = '\\'
    · rw [escape_cons_marked hc]
      rcases hc with rfl | rfl <;> simp [stringText, ih]
    · rw [escape_cons_plain hc, List.cons_append, stringText_plain hc, ih]

/-- Whatever is read of a string is an escaped text. -/
theorem exists_escape (s : List Char) :
    ∃ t, (stringText s).1 = escape t ∧ s = escape t ++ (stringText s).2 := by
  fun_induction stringText s with
  | case1 s t r h ih =>
    obtain ⟨u, hu, hs⟩ := ih
    rw [h] at hu hs
    exact ⟨'"' :: u, by simp_all [escape_cons_marked]⟩
  | case2 s t r h ih =>
    obtain ⟨u, hu, hs⟩ := ih
    rw [h] at hu hs
    exact ⟨'\\' :: u, by simp_all [escape_cons_marked]⟩
  | case3 => exact ⟨[], rfl, rfl⟩
  | case4 c s _ _ _ => exact ⟨[], rfl, rfl⟩
  | case5 c s _ _ hc t r h ih =>
    obtain ⟨u, hu, hs⟩ := ih
    rw [h] at hu hs
    exact ⟨c :: u, by simp_all [escape_cons_plain]⟩

theorem string_append (s : String) :
    string ('"' :: (escape s.toList ++ '"' :: rest)) = some (s, rest) := by
  have hend : stringText ('"' :: rest) = ([], '"' :: rest) := by simp [stringText]
  simp [string, stringText_escape hend, unescape_escape]

/-- A string is an escaped text between two quotes, and nothing else. -/
theorem string_eq_some_iff {s : List Char} {x : String} :
    string s = some (x, rest) ↔ s = '"' :: (escape x.toList ++ '"' :: rest) := by
  refine ⟨fun h => ?_, fun h => h ▸ string_append x⟩
  unfold string at h
  split at h
  · rename_i w
    split at h
    · rename_i inside rest' hw
      cases h
      obtain ⟨t, ht, hs⟩ := exists_escape w
      simp only [hw] at ht hs
      rw [hs, ht, unescape_escape, String.toList_ofList]
    · cases h
  · cases h

/-- A help text is read up to the line feed before the second `@@@`. -/
theorem helpText_append {s : List Char} (h : ¬ ['@', '@', '@'] <:+: s) :
    helpText (s ++ '\n' :: '@' :: '@' :: '@' :: rest) =
      (s ++ ['\n'], '@' :: '@' :: '@' :: rest) := by
  induction s with
  | nil => simp [helpText]
  | cons c s ih =>
    have hs : ¬ ['@', '@', '@'] <:+: s := fun hi => h (hi.trans (List.suffix_cons c s).isInfix)
    rw [List.cons_append, helpText, ih hs, List.cons_append]
    rintro t rfl ht
    -- three in a row would all be characters of the help text
    match s, ht with
    | [d], ht => simp at ht
    | d :: e :: s, ht =>
      obtain ⟨rfl, rfl, -⟩ : d = '@' ∧ e = '@' ∧ _ := by simpa using ht
      exact h ⟨[], s, rfl⟩

theorem dropLastLineFeed_snoc (s : List Char) : dropLastLineFeed (s ++ ['\n']) = s := by
  simp [dropLastLineFeed]

theorem helpBlock_append {text : String} (h : ¬ ['@', '@', '@'] <:+: text.toList) :
    helpBlock (['@', '@', '@', '\n'] ++ text.toList ++ ['\n', '@', '@', '@'] ++ rest) =
      some (text, rest) := by
  have hread := @helpText_append rest _ h
  simp [helpBlock, lineEnd, isGap, hread, dropLastLineFeed_snoc]

end Token

end TaskRunner.Grammar
