import Mathlib.Data.List.Forall2
import TaskRunner.Proofs.Recognition
import TaskRunner.Script.Builder

/-!
# Trees of expressions

An expression is built from its parse tree, and the builder may find that a number cannot be read or
that a tree is of no kind that an expression has. The grammar has no such trees. Its rules are gone
through side by side with those that give an expression at once: two parsers agree on a text
(`AgreeAt`) if both take the same off it and what they give is related. Here the relation is that
the tree builds the expression (`Denotes`), and `expression_agree` is the induction over how deep
the parentheses go.
-/
namespace TaskRunner

/-! ## The text of a number -/

namespace Number

theorem isDigit_eq (c : Char) : Grammar.isDigit c = c.isDigit := by
  simp only [Grammar.isDigit, Char.isDigit, Char.le_def]

theorem toLower_of_isDigit {c : Char} (h : c.isDigit = true) : c.toLower = c := by
  simp only [Char.isDigit, Bool.and_eq_true, decide_eq_true_eq, UInt32.le_iff_toNat_le,
    ge_iff_le] at h
  unfold Char.toLower
  rw [dif_neg]
  rintro ⟨hlow, -⟩
  have hA : 'A'.val.toNat = 65 := rfl
  have h9 : '9'.val.toNat = 57 := rfl
  rw [ge_iff_le, UInt32.le_iff_toNat_le] at hlow
  omega

/-- A text that starts with a digit or a point has no sign and is no word. -/
theorem parse?_eq_ofUnsigned? {c : Char} (h : c.isDigit = true ∨ c = '.') (s : List Char) :
    parse? (c :: s) = ofUnsigned? false (c :: s) := by
  have hlower : c.toLower = c := by
    rcases h with h | rfl
    · exact toLower_of_isDigit h
    · rfl
  have hother : ∀ d ∈ ['-', '+', 'i', 'n'], c ≠ d := by
    rintro d hd rfl
    simp only [List.mem_cons, List.not_mem_nil, or_false] at hd
    rcases hd with rfl | rfl | rfl | rfl <;> revert h <;> decide
  have hsign : sign (c :: s) = (false, c :: s) := by
    unfold sign
    split
    · rename_i hc
      exact absurd (List.cons.inj hc).1 (hother '-' (by simp))
    · rename_i hc
      exact absurd (List.cons.inj hc).1 (hother '+' (by simp))
    · rfl
  have hword : ofWord? (c :: s) = none := by
    simp [ofWord?, hlower, hother 'i' (by simp), hother 'n' (by simp)]
  simp only [parse?, hsign, hword]

theorem ofScientific_fraction (whole fraction : List Char) :
    ofScientific false (ofDigits (whole ++ fraction)) (-fraction.length) =
      ofDecimal whole fraction := by
  cases fraction with
  | nil => simp [ofScientific, ofDecimal]
  | cons d ds =>
    have hneg : ¬ (0 : Int) ≤ -((d :: ds).length : Int) := by
      rw [List.length_cons]
      omega
    rw [ofScientific, if_neg hneg, ofDecimal, Int.neg_neg, Int.toNat_natCast]

end Number

namespace Grammar.Token

open Text (StopsAt)

/-- **The text of a number is a number.** -/
theorem parse?_of_number {s r : List Char} {x : Number} (h : number s = some (x, r)) :
    ∃ w, s = w ++ r ∧ Number.parse? w = some x := by
  have hpred : Char.isDigit = isDigit := funext fun c => (Number.isDigit_eq c).symm
  have hpoint : isDigit '.' = false := rfl
  have htake {w : List Char} (hw : ∀ c ∈ w, isDigit c = true) : w.takeWhile isDigit = w :=
    List.takeWhile_eq_self_iff.2 hw
  have hdrop {w : List Char} (hw : ∀ c ∈ w, isDigit c = true) : w.dropWhile isDigit = [] :=
    List.dropWhile_eq_nil_iff.2 hw
  rcases number_forms h with ⟨d, rfl, hne, hd, -, rfl⟩ | ⟨d, f, rfl, hd, hf, hne, -, rfl⟩
  · refine ⟨d, rfl, ?_⟩
    obtain ⟨c, d', rfl⟩ := List.exists_cons_of_ne_nil hne
    rw [Number.parse?_eq_ofUnsigned? (.inl (by rw [hpred]; exact hd c (by simp)))]
    simp only [Number.ofUnsigned?, hpred, htake hd, hdrop hd]
    simpa [Number.power?] using Number.ofScientific_fraction (c :: d') []
  · refine ⟨d ++ '.' :: f, by simp, ?_⟩
    have hunsigned : Number.parse? (d ++ '.' :: f) = Number.ofUnsigned? false (d ++ '.' :: f) := by
      cases d with
      | nil => exact Number.parse?_eq_ofUnsigned? (.inr rfl) f
      | cons c d =>
        exact Number.parse?_eq_ofUnsigned? (.inl (by rw [hpred]; exact hd c (by simp))) _
    have hstop : StopsAt isDigit ('.' :: f) := Text.stopsAt_cons.2 hpoint
    simp only [hunsigned, Number.ofUnsigned?, hpred, Text.takeWhile_run hd hstop,
      Text.dropWhile_run hd hstop, htake hf, hdrop hf]
    have hdigits : d ++ f ≠ [] := by simpa [imp_iff_not_or] using hne
    simpa [hdigits, Number.power?] using Number.ofScientific_fraction d f

end Grammar.Token

/-! ## Parsers side by side -/

namespace Grammar.Parser

variable {α β γ δ : Type}

/-- Two parsers go together on a text: neither takes anything, or both take the same off, and what
they give is related, also to what is left. -/
def AgreeAt (R : α → β → List Char → Prop) (s : List Char) (q : Parser α) (p : Parser β) : Prop :=
  (q.run s = none ∧ p.run s = none) ∨
    ∃ a b r, q.run s = some (a, r) ∧ p.run s = some (b, r) ∧ R a b r

namespace AgreeAt

variable {R R' : α → β → List Char → Prop} {S : γ → δ → List Char → Prop} {s : List Char}
  {q : Parser α} {p : Parser β}

/-- The relation may use that the second parser has read what it has. -/
theorem mono (h : AgreeAt R s q p) (hR : ∀ a b r, p.run s = some (b, r) → R a b r → R' a b r) :
    AgreeAt R' s q p := by
  rcases h with hnone | ⟨a, b, r, hq, hp, hab⟩
  · exact .inl hnone
  · exact .inr ⟨a, b, r, hq, hp, hR a b r hp hab⟩

theorem exists_run {a : α} {r : List Char} (h : AgreeAt R s q p) (hq : q.run s = some (a, r)) :
    ∃ b, p.run s = some (b, r) ∧ R a b r := by
  rcases h with ⟨hnone, -⟩ | ⟨a', b, r', hq', hp, hab⟩
  · rw [hq] at hnone
    cases hnone
  · rw [hq] at hq'
    cases hq'
    exact ⟨b, hp, hab⟩

theorem same (p : Parser α) (s : List Char) : AgreeAt (fun a b _ => a = b) s p p := by
  cases hp : p.run s with
  | none => exact .inl ⟨hp, hp⟩
  | some x => exact .inr ⟨x.1, x.1, x.2, hp, hp, rfl⟩

theorem of_runs {q' : Parser α} {p' : Parser β} (h : AgreeAt R s q p)
    (hq : q'.run s = q.run s) (hp : p'.run s = p.run s) : AgreeAt R s q' p' := by
  unfold AgreeAt
  rw [hq, hp]
  exact h

theorem of_run {p' : Parser β} (h : AgreeAt R s q p) (hp : p'.run s = p.run s) :
    AgreeAt R s q p' :=
  h.of_runs rfl hp

theorem delay {q : Unit → Parser α} {p : Unit → Parser β} (h : AgreeAt R s (q ()) (p ())) :
    AgreeAt R s (delay q) (delay p) :=
  h

theorem pure {a : α} {b : β} (h : R a b s) : AgreeAt R s (pure a) (pure b) :=
  .inr ⟨a, b, s, rfl, rfl, h⟩

theorem bind {k : α → Parser γ} {k' : β → Parser δ} (h : AgreeAt R s q p)
    (hk : ∀ a b r, R a b r → AgreeAt S r (k a) (k' b)) : AgreeAt S s (q >>= k) (p >>= k') := by
  unfold AgreeAt
  rw [run_bind, run_bind]
  rcases h with ⟨hq, hp⟩ | ⟨a, b, r, hq, hp, hab⟩
  · rw [hq, hp]
    exact .inl ⟨rfl, rfl⟩
  · rw [hq, hp]
    exact hk a b r hab

theorem map {k : β → δ} {S : α → δ → List Char → Prop} (h : AgreeAt R s q p)
    (hk : ∀ a b r, R a b r → S a (k b) r) : AgreeAt S s q (k <$> p) := by
  unfold AgreeAt
  rw [run_map]
  rcases h with ⟨hq, hp⟩ | ⟨a, b, r, hq, hp, hab⟩
  · rw [hq, hp]
    exact .inl ⟨rfl, rfl⟩
  · rw [hq, hp]
    exact .inr ⟨a, k b, r, rfl, rfl, hk a b r hab⟩

theorem bind_map {f : α → γ} {k : β → δ} (h : AgreeAt R s q p)
    (hk : ∀ a b r, R a b r → S (f a) (k b) r) :
    AgreeAt S s (q >>= fun a => Pure.pure (f a)) (k <$> p) := by
  show AgreeAt S s (q >>= fun a => Pure.pure (f a)) (p >>= fun b => Pure.pure (k b))
  exact h.bind fun a b r hab => .pure (hk a b r hab)

/-- The same first step does not come between the two. -/
theorem after {k : γ → Parser α} {k' : γ → Parser β} (first : Parser γ)
    (hk : ∀ a r, AgreeAt R r (k a) (k' a)) : AgreeAt R s (first >>= k) (first >>= k') :=
  (same first s).bind fun a _ r hab => hab ▸ hk a r

theorem orElse {q' : Parser α} {p' : Parser β} (h : AgreeAt R s q p) (h' : AgreeAt R s q' p') :
    AgreeAt R s (orElse q q') (orElse p p') := by
  unfold AgreeAt
  rw [run_orElse, run_orElse]
  rcases h with ⟨hq, hp⟩ | ⟨a, b, r, hq, hp, hab⟩
  · rw [hq, hp]
    exact h'
  · rw [hq, hp]
    exact .inr ⟨a, b, r, rfl, rfl, hab⟩

theorem firstOf : ∀ {qs : List (Parser α)} {ps : List (Parser β)},
    List.Forall₂ (AgreeAt R s) qs ps → AgreeAt R s (firstOf qs) (firstOf ps)
  | _, _, .nil => .inl ⟨rfl, rfl⟩
  | _, _, .cons h .nil => h
  | _, _, .cons h (.cons h' hrest) => h.orElse (firstOf (.cons h' hrest))

theorem optional {R : α → β → Prop} (h : AgreeAt (fun a b _ => R a b) s q p) :
    AgreeAt (fun a b _ => Option.Rel R a b) s (optional q) (optional p) := by
  rcases h with ⟨hq, hp⟩ | ⟨a, b, r, hq, hp, hab⟩
  · exact .inr ⟨none, none, s, run_optional_none hq, run_optional_none hp, .none⟩
  · exact .inr ⟨some a, some b, r, run_optional_some hq, run_optional_some hp, .some hab⟩

theorem upTo {ε : Type} {R : α → β → Prop} (h : ∀ s, AgreeAt (fun a b _ => R a b) s q p) :
    ∀ (bound : List ε) (s : List Char),
      AgreeAt (fun as bs _ => List.Forall₂ R as bs) s (upTo q bound) (upTo p bound)
  | [], s => by
    rcases h s with ⟨hq, hp⟩ | ⟨a, b, r, hq, hp, hab⟩
    · exact .inr ⟨[], [], s, by simp [Parser.upTo, hq], by simp [Parser.upTo, hp], .nil⟩
    · exact .inr ⟨[a], [b], r, by simp [Parser.upTo, hq], by simp [Parser.upTo, hp],
        .cons hab .nil⟩
  | _ :: bound, s => by
    rcases h s with ⟨hq, hp⟩ | ⟨a, b, t, hq, hp, hab⟩
    · exact .inr ⟨[], [], s, by simp [Parser.upTo, hq], by simp [Parser.upTo, hp], .nil⟩
    · rcases upTo h bound t with ⟨hq', hp'⟩ | ⟨as, bs, r, hq', hp', habs⟩
      · exact .inl ⟨by simp [Parser.upTo, hq, hq'], by simp [Parser.upTo, hp, hp']⟩
      · exact .inr ⟨a :: as, b :: bs, r, by simp [Parser.upTo, hq, hq'],
          by simp [Parser.upTo, hp, hp'], .cons hab habs⟩

theorem many {R : α → β → Prop} (h : ∀ s, AgreeAt (fun a b _ => R a b) s q p) :
    AgreeAt (fun as bs _ => List.Forall₂ R as bs) s (many q) (many p) :=
  upTo h s s

end AgreeAt

end Grammar.Parser

/-! ## Trees of expressions -/

namespace Grammar

theorem ParseTree.chars_node {c : Construct} {s w r : List Char} {inner : List ParseTree}
    (h : s = w ++ r) : (ParseTree.node c s r inner).chars = w := by
  simp [chars, h]

namespace Trees

open TaskRunner.Grammar.Parser

variable {β γ : Type} {R : List ParseTree → β → List Char → Prop} {s : List Char}
  {q : Parser (List ParseTree)} {p : Parser β} {c : Construct}

theorem mark_agree (c : Construct) (h : AgreeAt R s q p) :
    AgreeAt (fun ts b r => ∃ inner, ts = [.node c s r inner] ∧ R inner b r) s (mark c q) p := by
  unfold AgreeAt
  rcases h with ⟨hq, hp⟩ | ⟨inner, b, r, hq, hp, hR⟩
  · refine .inl ⟨?_, hp⟩
    simp only [mark, run_bind, run_here, Option.bind_some, hq, Option.bind_none]
  · refine .inr ⟨_, b, r, ?_, hp, inner, rfl, hR⟩
    simp only [mark, run_bind, run_here, Option.bind_some, hq, run_pure]

theorem tree_agree (c : Construct) (h : AgreeAt R s q p) :
    AgreeAt (fun ts b r => ∃ inner, ts = [.node c s r inner] ∧ R inner b r) s (tree c q) p :=
  mark_agree c h

/-- A leaf goes together with any parser that takes the same off the text. -/
theorem leaf_agree (c : Construct) {u : Parser γ} {p : Parser β}
    (h : (u.run s).map Prod.snd = (p.run s).map Prod.snd) :
    AgreeAt (fun ts b r => ts = [.node c s r []] ∧ p.run s = some (b, r)) s (leaf c u) p := by
  have hbare : AgreeAt (fun ts b r => ts = [] ∧ p.run s = some (b, r)) s (bare u) p := by
    unfold AgreeAt
    simp only [bare, run_bind, run_pure]
    cases hu : u.run s with
    | none =>
      refine .inl ⟨rfl, ?_⟩
      simpa [hu] using h.symm
    | some x =>
      obtain ⟨⟨b, r⟩, hp, hr⟩ := Option.map_eq_some_iff.1 (h.symm.trans (congrArg _ hu))
      cases hr
      exact .inr ⟨[], b, x.2, rfl, hp, rfl, hp⟩
  refine (tree_agree c hbare).mono ?_
  rintro ts b r - ⟨inner, rfl, rfl, hp⟩
  exact ⟨rfl, hp⟩

/-- The tree of an expression, of one of the kinds. -/
def Denotes (kinds : List Construct) (ts : List ParseTree) (e : Expr) : Prop :=
  ∃ t, ts = [t] ∧ t.kind ∈ kinds ∧ ∀ source, t.expr source = .ok e

/-- The tree of a text that goes up to a closing mark. -/
theorem inside_agree (c : Construct) (opening : Parser Unit)
    {text : List Char → List Char × List Char} (closing : List Char)
    (value : List Char → List Char) (htext : ∀ s, s = (text s).1 ++ (text s).2) :
    AgreeAt (fun ts x _ => ∃ t, ts = [t] ∧ t.kind = c ∧ x = String.ofList (value t.chars)) s
      (do
        opening
        let inside ← mark c (bare (silent fun s => some (text s)))
        word closing
        pure inside)
      (enclosed opening text closing value) := by
  have hinside (u : List Char) : AgreeAt (fun ts inside _ => ∃ t, ts = [t] ∧ t.kind = c ∧
      inside = t.chars) u (mark c (bare (silent fun s => some (text s))))
      (silent fun s => some (text s)) :=
    .inr ⟨[.node c u (text u).2 []], (text u).1, (text u).2, rfl, rfl, _, rfl, rfl,
      (ParseTree.chars_node (htext u)).symm⟩
  refine .after opening fun _ u => (hinside u).bind fun ts inside r h =>
    .after (word closing) fun _ _ => .pure ?_
  obtain ⟨t, rfl, hkind, rfl⟩ := h
  exact ⟨t, rfl, hkind, rfl⟩

/-- The tree of a name. -/
def Names (ts : List ParseTree) (name : String) : Prop := ∃ t, ts = [t] ∧ t.chars = name.toList

theorem identifier_agree (s : List Char) :
    AgreeAt (fun ts name _ => Names ts name ∧ Denotes [.identifier] ts (.var name)) s identifier
      Parser.identifier := by
  refine (leaf_agree .identifier rfl).mono ?_
  rintro ts name r - ⟨rfl, h⟩
  obtain ⟨-, hs, -⟩ := Token.name_eq_some_iff.1 h
  refine ⟨⟨_, rfl, ParseTree.chars_node hs⟩, _, rfl, by simp [ParseTree.kind], fun source => ?_⟩
  simp [ParseTree.expr, ParseTree.text, ParseTree.chars_node hs]

theorem number_agree (s : List Char) :
    AgreeAt (fun ts x _ => Denotes [.number] ts (.number x)) s number Parser.number := by
  refine (leaf_agree .number rfl).mono ?_
  rintro ts x r - ⟨rfl, h⟩
  obtain ⟨w, hs, hw⟩ := Token.parse?_of_number h
  refine ⟨_, rfl, by simp [ParseTree.kind], fun source => ?_⟩
  simp [ParseTree.expr, ParseTree.chars_node hs, hw]

theorem stringText_split (s : List Char) :
    s = (Token.stringText s).1 ++ (Token.stringText s).2 := by
  obtain ⟨t, ht, hs⟩ := Token.exists_escape s
  rw [ht]
  exact hs

/-- The tree of a string. -/
def Quotes (ts : List ParseTree) (text : String) : Prop := ∃ t, ts = [t] ∧ t.quoted = text

theorem string_agree (s : List Char) :
    AgreeAt (fun ts text _ => Quotes ts text ∧ Denotes [.string] ts (.text text)) s string
      Parser.string := by
  have hinside := inside_agree (s := s) .stringText (word ['"']) ['"'] Token.unescape
    stringText_split
  refine ((tree_agree .string hinside).mono ?_).of_run (run_string_enclosed s)
  rintro ts text r - ⟨inner, rfl, t, rfl, -, rfl⟩
  exact ⟨⟨_, rfl, rfl⟩, _, rfl, by simp [ParseTree.kind], fun source => rfl⟩

/-- The tree of an operator. -/
def Operates (ts : List ParseTree) (o : BinOp) : Prop := ∃ t, ts = [t] ∧ .ofSymbol t.chars = o

theorem operator_agree {u : Parser Unit} {op : Parser BinOp} {symbol? : Char → Option BinOp}
    (hop : IsOperator op symbol?) (hsymbol : ∀ d o, symbol? d = some o → .ofSymbol [d] = o)
    (hsame : (u.run s).map Prod.snd = (op.run s).map Prod.snd) :
    AgreeAt (fun ts o _ => Operates ts o) s (leaf c u) op := by
  refine (leaf_agree c hsame).mono ?_
  rintro ts o r - ⟨rfl, h⟩
  obtain ⟨d, hs, hd⟩ := hop.eq_cons h
  refine ⟨_, rfl, ?_⟩
  rw [ParseTree.chars_node (w := [d]) hs, hsymbol d o hd]

theorem sumOperator_agree (s : List Char) :
    AgreeAt (fun ts o _ => Operates ts o) s sumOperator Parser.sumOperator := by
  have hsymbol (d : Char) (o : BinOp) (h : sumSymbol? d = some o) : BinOp.ofSymbol [d] = o := by
    unfold sumSymbol? at h
    split_ifs at h <;> simp_all [BinOp.ofSymbol]
  refine operator_agree isOperator_sum hsymbol ?_
  cases s with
  | nil => rfl
  | cons d s =>
    rw [isOperator_sum.cons]
    simp only [firstOf, run_orElse, run_word_cons, sumSymbol?]
    grind

theorem productOperator_agree (s : List Char) :
    AgreeAt (fun ts o _ => Operates ts o) s productOperator Parser.productOperator := by
  have hsymbol (d : Char) (o : BinOp) (h : productSymbol? d = some o) :
      BinOp.ofSymbol [d] = o := by
    unfold productSymbol? at h
    split_ifs at h <;> simp_all [BinOp.ofSymbol]
  refine operator_agree isOperator_product hsymbol ?_
  cases s with
  | nil => rfl
  | cons d s =>
    rw [isOperator_product.cons]
    simp only [firstOf, run_orElse, run_word_cons, productSymbol?]
    grind

/-- Operators and operands in turn, each pair of them as an operation. -/
theorem operations_eq (source : List Char) {kinds : List Construct} {xs : List (List ParseTree)}
    {ys : List (BinOp × Expr)}
    (h : List.Forall₂ (fun ts y => ∃ us vs, ts = us ++ vs ∧ Operates us y.1 ∧
      Denotes kinds vs y.2) xs ys) (left : Expr) :
    ParseTree.operations source left xs.flatten = .ok (chain left ys) := by
  induction h generalizing left with
  | nil => rfl
  | @cons ts y xs ys hfirst _ ih =>
    obtain ⟨_, _, rfl, ⟨op, rfl, hop⟩, ⟨operand, rfl, -, hoperand⟩⟩ := hfirst
    have hrest := ih (.binary y.1 left y.2)
    simp only [List.flatten_cons, List.cons_append, List.nil_append, ParseTree.operations,
      hoperand source, hop, hrest]
    rfl

/-- One level of an expression. -/
theorem level_agree {kinds : List Construct} {op operand : Parser (List ParseTree)}
    {op' : Parser BinOp} {operand' : Parser Expr} (hc : c = .expression ∨ c = .term)
    (hop : ∀ s, AgreeAt (fun ts o _ => Operates ts o) s op op')
    (hoperand : ∀ s, AgreeAt (fun ts e _ => Denotes kinds ts e) s operand operand')
    (s : List Char) :
    AgreeAt (fun ts e _ => Denotes [c] ts e) s (level c op operand)
      (Parser.level op' operand') := by
  have hoperation (s : List Char) :
      AgreeAt (fun ts y _ => ∃ us vs, ts = us ++ vs ∧ Operates us y.1 ∧ Denotes kinds vs y.2) s
        (operation op operand) (Parser.operation op' operand') :=
    .after gap fun _ t => (hop t).bind fun us o r ho => .after gap fun _ u =>
      (hoperand u).bind fun vs e _ he => .pure ⟨us, vs, rfl, ho, he⟩
  have hlevel : AgreeAt (fun ts e _ => ∀ source, ParseTree.operation source ts = .ok e) s
      (do
        let first ← operand
        gap
        let rest ← many (operation op operand)
        pure (first ++ rest.flatten))
      (Parser.level op' operand') := by
    refine (hoperand s).bind fun ts first _ hfirst => .after gap fun _ u =>
      (AgreeAt.many hoperation).bind fun xs rest _ hrest => .pure fun source => ?_
    obtain ⟨t, rfl, -, ht⟩ := hfirst
    simp only [List.cons_append, List.nil_append, ParseTree.operation, ht source]
    exact operations_eq source hrest first
  refine (tree_agree c hlevel).mono ?_
  rintro ts e r - ⟨inner, rfl, h⟩
  refine ⟨_, rfl, by simp [ParseTree.kind], fun source => ?_⟩
  rcases hc with rfl | rfl
  · exact h source
  · exact h source

section

variable {inner : Parser (List ParseTree)} {inner' : Parser Expr}
  (h : ∀ s, AgreeAt (fun ts e _ => Denotes [.expression] ts e) s inner inner')
include h

theorem primary_agree (s : List Char) :
    AgreeAt (fun ts e _ => Denotes [.number, .string, .identifier, .expression] ts e) s
      (primary inner) (Parser.primary inner') := by
  have hkind {c : Construct} {ts : List ParseTree} {e : Expr} (h : Denotes [c] ts e)
      (hc : c ∈ [.number, .string, .identifier, .expression]) :
      Denotes [.number, .string, .identifier, .expression] ts e := by
    obtain ⟨t, rfl, ht, he⟩ := h
    rw [List.mem_singleton] at ht
    exact ⟨t, rfl, ht ▸ hc, he⟩
  have hparenthesised : AgreeAt (fun ts e _ => Denotes [.expression] ts e) s
      (parenthesised inner) (Parser.parenthesised inner') :=
    .after (word ['(']) fun _ _ => .after gap fun _ t => (h t).bind fun _ _ _ he =>
      .after gap fun _ _ => .after (word [')']) fun _ _ => .pure he
  refine .firstOf (.cons ?_ (.cons ?_ (.cons ?_ (.cons ?_ .nil))))
  · exact (number_agree s).map fun ts x _ hx => hkind hx (by simp)
  · exact (string_agree s).map fun ts x _ hx => hkind hx.2 (by simp)
  · exact (identifier_agree s).map fun ts x _ hx => hkind hx.2 (by simp)
  · exact hparenthesised.mono fun ts e _ _ he => hkind he (by simp)

theorem factor_agree (s : List Char) :
    AgreeAt (fun ts e _ => Denotes [.factor] ts e) s (factor inner) (Parser.factor inner') := by
  have hminus : AgreeAt (fun ts _ _ => ∃ t, ts = [t] ∧ t.kind = .minus) s
      (leaf .minus (word ['-'])) (word ['-']) := by
    refine (leaf_agree .minus rfl).mono ?_
    rintro ts _ r - ⟨rfl, -⟩
    exact ⟨_, rfl, rfl⟩
  have hfactor : AgreeAt (fun ts e _ => ∀ source, ParseTree.signed source false none ts = .ok e) s
      (do
        let minus ← Parser.optional (leaf .minus (word ['-']))
        gap
        let e ← primary inner
        pure (minus.getD [] ++ e))
      (Parser.factor inner') := by
    refine hminus.optional.bind fun minus minus' _ hm => .after gap fun _ t =>
      (primary_agree h t).bind fun ts e _ he => .pure fun source => ?_
    obtain ⟨t, rfl, hkind, ht⟩ := he
    have hother : t.kind ≠ .minus := by
      rintro hk
      simp [hk] at hkind
    cases hm with
    | none => simp [ParseTree.signed, hother, ht source]
    | some hm =>
      obtain ⟨u, rfl, hu⟩ := hm
      simp [ParseTree.signed, hu, hother, ht source]
  refine (tree_agree .factor hfactor).mono ?_
  rintro ts e r - ⟨inner, rfl, h⟩
  exact ⟨_, rfl, by simp [ParseTree.kind], h⟩

end

theorem expression_agree : ∀ (depth : Nat) (s : List Char),
    AgreeAt (fun ts e _ => Denotes [.expression] ts e) s (expression depth)
      (Parser.expression depth)
  | 0, _ => .inl ⟨rfl, rfl⟩
  | depth + 1, s => by
    have hinner (t : List Char) : AgreeAt (fun ts e _ => Denotes [.expression] ts e) t
        (delay fun _ => expression depth) (delay fun _ => Parser.expression depth) :=
      .delay (expression_agree depth t)
    have hterm (t : List Char) : AgreeAt (fun ts e _ => Denotes [.term] ts e) t
        (term (delay fun _ => expression depth))
        (Parser.term (delay fun _ => Parser.expression depth)) :=
      (level_agree (.inr rfl) productOperator_agree (factor_agree hinner) t).of_run rfl
    exact (level_agree (.inl rfl) sumOperator_agree hterm s).of_run rfl

end Trees

end Grammar

end TaskRunner
