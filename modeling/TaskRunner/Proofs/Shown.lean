import TaskRunner.Proofs.Digits
import TaskRunner.Proofs.Recognition

/-!
# Telling an expression from its text

The text of an expression shows the expression, up to numbers that are written alike
(`Expr.shown_append_inj`): a quoted text ends at its first bare quote, a name or a number at the
first character that could not make it longer, and an operation has parentheses around it. This
needs that a variable has a name and a number no sign, as it is with every expression that was read
(`isRead_of_expression`).
-/
namespace TaskRunner

open Grammar
open Text (StopsAt)

/-! ## Quoted text -/

namespace Text

/-- A run of entries that pass a test, up to one that fails it, can be cut off in one way only. -/
theorem run_append_inj {α : Type} {p : α → Bool} {u v : List α} (hu : ∀ a ∈ u.head?, p a = false)
    (hv : ∀ a ∈ v.head?, p a = false) : ∀ {w w' : List α}, (∀ a ∈ w, p a = true) →
    (∀ a ∈ w', p a = true) → w ++ u = w' ++ v → w = w' ∧ u = v
  | [], [], _, _, h => ⟨rfl, h⟩
  | [], a :: w', _, hw', h => by
    have hfails := hu a (by rw [← List.nil_append u, h]; rfl)
    rw [hw' a (by simp)] at hfails
    cases hfails
  | a :: w, [], hw, _, h => by
    have hfails := hv a (by rw [← List.nil_append v, ← h]; rfl)
    rw [hw a (by simp)] at hfails
    cases hfails
  | a :: w, b :: w', hw, hw', h => by
    obtain ⟨rfl, hrest⟩ := List.cons.inj h
    obtain ⟨rfl, huv⟩ := run_append_inj hu hv (fun c hc => hw c (by simp [hc]))
      (fun c hc => hw' c (by simp [hc])) hrest
    exact ⟨rfl, huv⟩

/-- The value of a hexadecimal digit. -/
def hexValue? (c : Char) : Option Nat :=
  if '0' ≤ c ∧ c ≤ '9' then some (c.toNat - '0'.toNat)
  else if 'a' ≤ c ∧ c ≤ 'f' then some (c.toNat - 'a'.toNat + 10)
  else if 'A' ≤ c ∧ c ≤ 'F' then some (c.toNat - 'A'.toNat + 10)
  else none

theorem hexValue?_digitChar : ∀ {n : Nat}, n < 16 → hexValue? (Nat.digitChar n) = some n := by
  decide

def ofHex (ds : List Char) : Nat := ds.foldl (fun n d => 16 * n + (hexValue? d).getD 0) 0

theorem ofHex_toDigits (n : Nat) : ofHex (Nat.toDigits 16 n) = n := by
  induction n using Nat.strongRecOn with
  | ind n ih =>
    rw [Nat.toDigits_eq_if (by decide)]
    split
    · rename_i hlt
      simp [ofHex, hexValue?_digitChar hlt]
    · rename_i hge
      have hdiv : n / 16 < n := Nat.div_lt_self (by omega) (by decide)
      have hlast : hexValue? (Nat.digitChar (n % 16)) = some (n % 16) :=
        hexValue?_digitChar (Nat.mod_lt n (by decide))
      have hfront : (Nat.toDigits 16 (n / 16)).foldl
          (fun n d => 16 * n + (hexValue? d).getD 0) 0 = n / 16 := ih (n / 16) hdiv
      rw [ofHex, List.foldl_append, hfront, List.foldl_cons, List.foldl_nil, hlast,
        Option.getD_some]
      exact Nat.div_add_mod n 16

theorem hexValue?_of_mem_toDigits {n : Nat} : ∀ c ∈ Nat.toDigits 16 n, (hexValue? c).isSome := by
  induction n using Nat.strongRecOn with
  | ind n ih =>
    intro c hc
    rw [Nat.toDigits_eq_if (by decide)] at hc
    split at hc
    · rename_i hlt
      rw [List.mem_singleton.1 hc, hexValue?_digitChar hlt]
      rfl
    · rename_i hge
      rcases List.mem_append.1 hc with hc | hc
      · exact ih (n / 16) (Nat.div_lt_self (by omega) (by decide)) c hc
      · rw [List.mem_singleton.1 hc, hexValue?_digitChar (Nat.mod_lt n (by decide))]
        rfl

/-- The first character of a quoted text, and what is behind it. -/
def unquoteChar : List Char → Option (Char × List Char)
  | [] => none
  | '\\' :: '0' :: s => some ('\x00', s)
  | '\\' :: 't' :: s => some ('\t', s)
  | '\\' :: 'r' :: s => some ('\r', s)
  | '\\' :: 'n' :: s => some ('\n', s)
  | '\\' :: 'u' :: '\x7b' :: s =>
    some (Char.ofNat (ofHex (s.takeWhile (· != '\x7d'))), (s.dropWhile (· != '\x7d')).tail)
  | '\\' :: c :: s => some (c, s)
  | c :: s => some (c, s)

theorem unquoteChar_codePoint (c : Char) (u : List Char) :
    unquoteChar (codePoint c ++ u) = some (c, u) := by
  have hdigits : ∀ d ∈ Nat.toDigits 16 c.toNat, (d != '\x7d') = true := by
    intro d hd
    rw [bne_iff_ne]
    rintro rfl
    exact absurd (hexValue?_of_mem_toDigits _ hd) (by decide)
  have hstop : StopsAt (· != '\x7d') ('\x7d' :: u) := by simp
  simp only [codePoint, List.cons_append, List.append_assoc, List.nil_append, unquoteChar]
  rw [takeWhile_run hdigits hstop, dropWhile_run hdigits hstop, ofHex_toDigits, Char.ofNat_toNat,
    List.tail_cons]

theorem unquoteChar_quoteChar (c : Char) (u : List Char) :
    unquoteChar (quoteChar c ++ u) = some (c, u) := by
  unfold quoteChar
  split_ifs with h₀ ht hr hn hq hb hunseen
  · rw [h₀]; rfl
  · rw [ht]; rfl
  · rw [hr]; rfl
  · rw [hn]; rfl
  · rw [hq]; rfl
  · rw [hb]; rfl
  · exact unquoteChar_codePoint c u
  · simp [unquoteChar, hb]

theorem quoteChar_append_inj {c d : Char} {u v : List Char}
    (h : quoteChar c ++ u = quoteChar d ++ v) : c = d ∧ u = v := by
  have hsome : some (c, u) = some (d, v) := by
    rw [← unquoteChar_quoteChar c u, h, unquoteChar_quoteChar]
  simpa using hsome

/-- A quoted character does not start with a quote, and has no line feed in it. -/
theorem quoteChar_clean (c : Char) :
    ∃ d w, quoteChar c = d :: w ∧ d ≠ '"' ∧ '\n' ∉ quoteChar c := by
  unfold quoteChar
  split_ifs with h₀ ht hr hn hq hb hunseen
  · exact ⟨_, _, rfl, by decide, by decide⟩
  · exact ⟨_, _, rfl, by decide, by decide⟩
  · exact ⟨_, _, rfl, by decide, by decide⟩
  · exact ⟨_, _, rfl, by decide, by decide⟩
  · exact ⟨_, _, rfl, by decide, by decide⟩
  · exact ⟨_, _, rfl, by decide, by decide⟩
  · refine ⟨_, _, rfl, by decide, ?_⟩
    intro hmem
    have hdigit : '\n' ∈ Nat.toDigits 16 c.toNat := by simpa [codePoint] using hmem
    exact absurd (hexValue?_of_mem_toDigits _ hdigit) (by decide)
  · exact ⟨_, _, rfl, hq, by simpa [eq_comm] using hn⟩

theorem flatMap_quoteChar_inj : ∀ {s t u v : List Char},
    s.flatMap quoteChar ++ '"' :: u = t.flatMap quoteChar ++ '"' :: v → s = t ∧ u = v
  | [], [], u, v, h => by simpa using h
  | [], d :: t, u, v, h => by
    obtain ⟨a, w, ha, hne, -⟩ := quoteChar_clean d
    rw [List.flatMap_cons, ha] at h
    exact absurd (List.cons.inj h).1.symm hne
  | c :: s, [], u, v, h => by
    obtain ⟨a, w, ha, hne, -⟩ := quoteChar_clean c
    rw [List.flatMap_cons, ha] at h
    exact absurd (List.cons.inj h).1 hne
  | c :: s, d :: t, u, v, h => by
    rw [List.flatMap_cons, List.flatMap_cons, List.append_assoc, List.append_assoc] at h
    obtain ⟨rfl, hrest⟩ := quoteChar_append_inj h
    obtain ⟨rfl, rfl⟩ := flatMap_quoteChar_inj hrest
    exact ⟨rfl, rfl⟩

/-- **Where a quoted text ends, and what it is, can be told from it.** -/
theorem quote_append_inj {s t u v : List Char} (h : quote s ++ u = quote t ++ v) :
    s = t ∧ u = v := by
  simp only [quote, List.cons_append, List.append_assoc, List.nil_append] at h
  exact flatMap_quoteChar_inj (List.cons.inj h).2

theorem newline_not_mem_quote (s : List Char) : '\n' ∉ quote s := by
  intro h
  have hmem : '\n' ∈ s.flatMap quoteChar := by simpa [quote] using h
  obtain ⟨c, -, hc⟩ := List.mem_flatMap.1 hmem
  obtain ⟨_, _, -, -, hnot⟩ := quoteChar_clean c
  exact hnot hc

end Text

/-! ## Numbers -/

namespace Number

/-- Neither infinite nor the result of a failed operation. -/
def IsFinite (x : Number) : Prop := x.exponentField ≠ 2047

instance (x : Number) : Decidable x.IsFinite := inferInstanceAs (Decidable (_ ≠ _))

theorem view_of_isFinite {x : Number} (h : x.IsFinite) :
    ∃ m e, x.view = .finite x.isNegative m e := by
  unfold view
  rw [if_neg h]
  split
  · exact ⟨_, _, rfl⟩
  · exact ⟨_, _, rfl⟩

theorem isNumberChar_of_mem_fixedMagnitude {n : Nat} :
    ∀ c ∈ fixedMagnitude n, Token.isNumberChar c = true := by
  intro c hc
  rw [fixedMagnitude, List.mem_append] at hc
  rcases hc with hwhole | htail
  · simp [Token.isNumberChar, isDigit_of_mem_digits c hwhole]
  · split at htail
    · cases htail
    · rcases List.mem_cons.1 htail with rfl | hfraction
      · decide
      · simp [Token.isNumberChar, isDigit_of_mem_fractionDigits c hfraction]

/-- A finite number without a sign is written with digits and a point, a digit first. -/
theorem fixed_of_isFinite {x : Number} (hsign : x.isNegative = false) (hx : x.IsFinite) :
    (∃ c w, x.fixed = c :: w ∧ isDigit c = true) ∧ ∀ c ∈ x.fixed, Token.isNumberChar c = true := by
  obtain ⟨m, e, hview⟩ := view_of_isFinite hx
  have hfixed : x.fixed = fixedMagnitude (inPlaces m e) := by
    simp [fixed_of_view hview, hsign]
  rw [hfixed]
  refine ⟨?_, isNumberChar_of_mem_fixedMagnitude⟩
  obtain ⟨c, w, hc⟩ : ∃ c w, digits (inPlaces m e / Nat.pow 10 places) = c :: w :=
    List.exists_cons_of_ne_nil Nat.toDigits_ne_nil
  refine ⟨c, _, by rw [fixedMagnitude, hc, List.cons_append], ?_⟩
  exact isDigit_of_mem_digits c (hc ▸ List.mem_cons_self)

theorem newline_not_mem_fixed (x : Number) : '\n' ∉ x.fixed := by
  intro h
  cases hview : x.view with
  | nan =>
    rw [fixed, inFull, hview] at h
    exact absurd h (by decide)
  | infinite negative =>
    rw [fixed, inFull, hview] at h
    cases negative <;> exact absurd h (by decide)
  | finite negative m e =>
    rw [fixed_of_view hview] at h
    rcases List.mem_append.1 h with hsign | hmagnitude
    · cases negative <;> exact absurd hsign (by decide)
    · exact absurd (isNumberChar_of_mem_fixedMagnitude _ hmagnitude) (by decide)

/-- What a literal stands for has no sign. -/
theorem isNegative_ofDecimal (whole fraction : List Char) :
    (ofDecimal whole fraction).isNegative = false := by
  have hmagnitude (n : Nat) (hn : n ≤ 2047 <<< 52) : (ofMagnitude false n).isNegative = false := by
    have hlt : n < 2 ^ 64 := Nat.lt_of_le_of_lt hn (by decide)
    simp only [isNegative, ofMagnitude, decide_eq_false_iff_not, Nat.not_le, Bool.false_eq_true,
      if_false, UInt64.toNat_ofNat', Nat.mod_eq_of_lt hlt]
    exact Nat.lt_of_le_of_lt hn (by decide)
  unfold ofDecimal ofRatio
  split
  · exact hmagnitude 0 (Nat.zero_le _)
  · exact hmagnitude _ (Nat.min_le_right _ _)

end Number

/-! ## Expressions -/

namespace Expr

/-- The numbers that are written in an expression. -/
def numbers : Expr → List Number
  | .number x => [x]
  | .text _ => []
  | .var _ => []
  | .negate e => e.numbers
  | .binary _ l r => l.numbers ++ r.numbers

/-- One expression, but for numbers that are written alike. -/
inductive Alike : Expr → Expr → Prop
  | number {x y : Number} : x.format = y.format → Alike (.number x) (.number y)
  | text (s : String) : Alike (.text s) (.text s)
  | var (name : String) : Alike (.var name) (.var name)
  | negate {e e' : Expr} : Alike e e' → Alike (.negate e) (.negate e')
  | binary (op : BinOp) {l l' r r' : Expr} : Alike l l' → Alike r r' →
    Alike (.binary op l r) (.binary op l' r')

theorem Alike.shown_eq {e e' : Expr} (h : Alike e e') : e.shown = e'.shown := by
  induction h with
  | number h => simpa [shown] using String.ofList_injective h
  | text s => rfl
  | var name => rfl
  | negate _ ih => simp only [shown, ih]
  | binary op _ _ ihl ihr => simp only [shown, ihl, ihr]

/-- Variables have names and numbers have no sign. -/
def IsRead : Expr → Prop
  | .number x => x.isNegative = false
  | .text _ => True
  | .var name => Token.IsName name
  | .negate e => e.IsRead
  | .binary _ l r => l.IsRead ∧ r.IsRead

theorem newline_not_mem_shown {e : Expr} (h : e.IsRead) : '\n' ∉ e.shown := by
  induction e with
  | number x => exact x.newline_not_mem_fixed
  | text s => exact Text.newline_not_mem_quote _
  | var name => exact fun hmem => absurd (h.isNameChar _ hmem) (by decide)
  | negate e ih => simpa [shown] using ih h
  | binary op l r ihl ihr =>
    have hop : '\n' ≠ op.symbol := by cases op <;> decide
    simpa [shown, hop] using ⟨ihl h.1, ihr h.2⟩

/-- The kinds of expressions. -/
inductive Kind where
  | number | text | var | negate | binary
deriving DecidableEq

def kind : Expr → Kind
  | .number _ => .number
  | .text _ => .text
  | .var _ => .var
  | .negate _ => .negate
  | .binary _ _ _ => .binary

/-- The kind of expression whose text starts with a character. -/
def kindOf (c : Char) : Kind :=
  if isDigit c then .number
  else if c = '"' then .text
  else if isLetter c then .var
  else if c = '-' then .negate
  else .binary

/-- What `shown_append_inj` needs to know of an expression. -/
structure Legible (e : Expr) : Prop where
  read : e.IsRead
  finite : ∀ x ∈ e.numbers, x.IsFinite

theorem legible_negate {e : Expr} : (Expr.negate e).Legible ↔ e.Legible :=
  ⟨fun h => ⟨h.read, h.finite⟩, fun h => ⟨h.read, h.finite⟩⟩

theorem legible_binary {op : BinOp} {l r : Expr} :
    (Expr.binary op l r).Legible ↔ l.Legible ∧ r.Legible := by
  constructor
  · rintro ⟨⟨hl, hr⟩, hfinite⟩
    simp only [numbers, List.mem_append] at hfinite
    exact ⟨⟨hl, fun x hx => hfinite x (.inl hx)⟩, ⟨hr, fun x hx => hfinite x (.inr hx)⟩⟩
  · rintro ⟨⟨hl, hfl⟩, ⟨hr, hfr⟩⟩
    refine ⟨⟨hl, hr⟩, fun x hx => ?_⟩
    exact (List.mem_append.1 hx).elim (hfl x) (hfr x)

theorem Legible.kindOf_head {e : Expr} (h : e.Legible) :
    ∃ c w, e.shown = c :: w ∧ kindOf c = e.kind := by
  cases e with
  | number x =>
    have hfinite := h.finite x (by simp [numbers])
    obtain ⟨⟨c, w, hc, hdigit⟩, -⟩ := Number.fixed_of_isFinite h.read hfinite
    exact ⟨c, w, hc, by simp [kindOf, hdigit, kind]⟩
  | text s => exact ⟨_, _, rfl, rfl⟩
  | var name =>
    obtain ⟨c, w, hs, hc, -⟩ := h.read
    refine ⟨c, w, hs, ?_⟩
    have hquote : c ≠ '"' := by rintro rfl; exact absurd hc (by decide)
    simp [kindOf, Token.isDigit_of_isLetter hc, hquote, hc, kind]
  | negate e => exact ⟨_, _, rfl, rfl⟩
  | binary op l r => exact ⟨_, _, rfl, rfl⟩

theorem Legible.kind_eq {e e' : Expr} (h : e.Legible) (h' : e'.Legible) {u v : List Char}
    (hshown : e.shown ++ u = e'.shown ++ v) : e.kind = e'.kind := by
  obtain ⟨c, w, hc, hkind⟩ := h.kindOf_head
  obtain ⟨c', w', hc', hkind'⟩ := h'.kindOf_head
  rw [hc, hc'] at hshown
  rw [← hkind, ← hkind', (List.cons.inj hshown).1]

theorem isWordChar_of_mem_fixed {x : Number} (h : (Expr.number x).Legible) :
    ∀ c ∈ x.fixed, isWordChar c = true := by
  intro c hc
  have hchar := (Number.fixed_of_isFinite h.read (h.finite x (by simp [numbers]))).2 c hc
  simp only [Token.isNumberChar, Bool.or_eq_true] at hchar
  rcases hchar with hdigit | hpoint
  · simp [isWordChar, isNameChar, hdigit]
  · simp [isWordChar, hpoint]

theorem isWordChar_of_mem_name {name : String} (h : Token.IsName name) :
    ∀ c ∈ name.toList, isWordChar c = true := by
  intro c hc
  simp [isWordChar, h.isNameChar c hc]

theorem symbol_injective {op op' : BinOp} (h : op.symbol = op'.symbol) : op = op' := by
  revert h
  cases op <;> cases op' <;> decide

/-- **What an expression is, and where its text ends, can be told from the text**, if what follows
could not make a name or a number longer. -/
theorem shown_append_inj {e e' : Expr} (h : e.Legible) (h' : e'.Legible) {u v : List Char}
    (hu : StopsAt isWordChar u) (hv : StopsAt isWordChar v)
    (hshown : e.shown ++ u = e'.shown ++ v) : e.Alike e' ∧ u = v := by
  induction e generalizing e' u v with
  | number x =>
    cases e' with
    | number y =>
      obtain ⟨hxy, huv⟩ := Text.run_append_inj hu hv (isWordChar_of_mem_fixed h)
        (isWordChar_of_mem_fixed h') hshown
      exact ⟨.number (congrArg String.ofList hxy), huv⟩
    | text | var | negate | binary => cases h.kind_eq h' hshown
  | text s =>
    cases e' with
    | text t =>
      obtain ⟨hst, huv⟩ := Text.quote_append_inj hshown
      cases String.toList_inj.1 hst
      exact ⟨.text s, huv⟩
    | number | var | negate | binary => cases h.kind_eq h' hshown
  | var name =>
    cases e' with
    | var name' =>
      obtain ⟨hname, huv⟩ := Text.run_append_inj hu hv (isWordChar_of_mem_name h.read)
        (isWordChar_of_mem_name h'.read) hshown
      cases String.toList_inj.1 hname
      exact ⟨.var name, huv⟩
    | number | text | negate | binary => cases h.kind_eq h' hshown
  | negate e ih =>
    cases e' with
    | negate e' =>
      obtain ⟨halike, huv⟩ := ih (legible_negate.1 h) (legible_negate.1 h') hu hv
        (List.cons.inj hshown).2
      exact ⟨.negate halike, huv⟩
    | number | text | var | binary => cases h.kind_eq h' hshown
  | binary op l r ihl ihr =>
    cases e' with
    | binary op' l' r' =>
      obtain ⟨hl, hr⟩ := legible_binary.1 h
      obtain ⟨hl', hr'⟩ := legible_binary.1 h'
      have hblank (w : List Char) : StopsAt isWordChar (' ' :: w) := Text.stopsAt_cons.2 (by decide)
      have hclose (w : List Char) : StopsAt isWordChar (')' :: w) := Text.stopsAt_cons.2 (by decide)
      simp only [shown, List.cons_append, List.append_assoc, List.nil_append, List.cons.injEq,
        true_and] at hshown
      obtain ⟨hleft, hrest⟩ := ihl hl hl' (hblank _) (hblank _) hshown
      simp only [List.cons.injEq, true_and] at hrest
      obtain ⟨hop, hrest⟩ := hrest
      obtain ⟨hright, huv⟩ := ihr hr hr' (hclose _) (hclose _) hrest
      cases symbol_injective hop
      exact ⟨.binary op hleft hright, (List.cons.inj huv).2⟩
    | number | text | var | negate => cases h.kind_eq h' hshown

end Expr

/-! ## Expressions that were read -/

namespace Grammar.Parser

variable {inner operand : Parser Expr} {op : Parser BinOp} {s r : List Char} {e : Expr}

theorem isRead_chain {rest : List (BinOp × Expr)} {first : Expr} (hfirst : first.IsRead)
    (hrest : ∀ x ∈ rest, x.2.IsRead) : (chain first rest).IsRead := by
  induction rest generalizing first with
  | nil => exact hfirst
  | cons x rest ih =>
    have hbinary : (Expr.binary x.1 first x.2).IsRead := ⟨hfirst, hrest x (by simp)⟩
    exact ih hbinary fun y hy => hrest y (by simp [hy])

theorem isRead_of_runs (hoperand : ∀ {s e r}, operand.run s = some (e, r) → Expr.IsRead e)
    {rest : List (BinOp × Expr)} (h : Runs (operation op operand) s rest r) :
    ∀ x ∈ rest, x.2.IsRead := by
  induction h with
  | done _ => simp
  | step hstep _ _ ih =>
    obtain ⟨v, -, hx⟩ := run_operation_iff.1 hstep
    exact List.forall_mem_cons.2 ⟨hoperand hx, ih⟩

theorem isRead_of_level {symbol? : Char → Option BinOp} (hop : IsOperator op symbol?)
    (hshrinks : Shrinks operand)
    (hoperand : ∀ {s e r}, operand.run s = some (e, r) → Expr.IsRead e)
    (h : (level op operand).run s = some (e, r)) : e.IsRead := by
  obtain ⟨first, u, rest, hfirst, hrest, rfl⟩ := (run_level_iff hop hshrinks).1 h
  exact isRead_chain (hoperand hfirst) (isRead_of_runs hoperand hrest)

theorem isRead_of_primary (hinner : ∀ {s e r}, inner.run s = some (e, r) → Expr.IsRead e)
    (h : (primary inner).run s = some (e, r)) : e.IsRead := by
  rcases run_primary_iff.1 h with ⟨x, rfl, hx⟩ | ⟨x, rfl, -⟩ | ⟨x, rfl, hx⟩ | hparen
  · rcases Token.number_forms hx with ⟨d, -, -, -, -, rfl⟩ | ⟨d, f, -, -, -, -, -, rfl⟩
    · exact Number.isNegative_ofDecimal d []
    · exact Number.isNegative_ofDecimal d f
  · trivial
  · exact (Token.name_eq_some_iff.1 hx).1
  · obtain ⟨w, u, -, hu, -⟩ := run_parenthesised_iff.1 hparen
    exact hinner hu

theorem isRead_of_factor (hinner : ∀ {s e r}, inner.run s = some (e, r) → Expr.IsRead e)
    (h : (factor inner).run s = some (e, r)) : e.IsRead := by
  by_cases hminus : StopsAt (· == '-') s
  · rw [run_factor_plain inner hminus] at h
    exact isRead_of_primary hinner h
  · obtain ⟨w, rfl⟩ : ∃ w, s = '-' :: w := by
      cases s with
      | nil => exact absurd Text.stopsAt_nil hminus
      | cons c w => exact ⟨w, by simpa using hminus⟩
    rw [run_factor_minus, Option.map_eq_some_iff] at h
    obtain ⟨⟨e', r'⟩, hprimary, he⟩ := h
    cases he
    have hread : e'.IsRead := isRead_of_primary hinner hprimary
    exact hread

/-- **The grammar reads names as variables and numbers without a sign.** -/
theorem isRead_of_expression : ∀ {depth : Nat} {s r : List Char} {e : Expr},
    (expression depth).run s = some (e, r) → e.IsRead
  | depth + 1, _, _, _, h =>
    isRead_of_level isOperator_sum (term_shrinks (expression_shrinks depth))
      (isRead_of_level isOperator_product (factor_shrinks (expression_shrinks depth))
        (isRead_of_factor isRead_of_expression)) h

end Grammar.Parser

end TaskRunner
