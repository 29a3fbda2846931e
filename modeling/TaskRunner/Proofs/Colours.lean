import TaskRunner.Grammar.Token
import TaskRunner.Proofs.TextLines
import TaskRunner.Proofs.UsageColumns
import TaskRunner.Usage

/-!
# Colours

A terminal changes its colour at an escape sequence and shows none of it. The usage text in colours
has the same characters as the plain one, at the same places, once its escape sequences are taken
out (`Usage.uncoloured_eq_plain`).
-/
namespace TaskRunner

/-- The name of an argument and its help text. -/
def ArgDecl.texts (a : ArgDecl) : List String := a.name :: a.help.toList

/-- The names and help texts of a target and its arguments. -/
def Target.texts (t : Target) : List String :=
  t.name :: (t.help.toList ++ t.args.flatMap ArgDecl.texts)

/-- All names and help texts that the usage text is made of. -/
def Registry.texts (r : Registry) : List String := r.help.toList ++ r.targets.flatMap Target.texts

namespace Usage

open Grammar (isDigit)

/-! ## Escape sequences -/

/-- How many characters the escape sequence has that the text starts with: the escape character, a
bracket, digits and an `m`. None if it does not start with one. -/
def sequenceLength : List Char → Nat
  | '\x1b' :: '[' :: s =>
    match s.dropWhile isDigit with
    | 'm' :: _ => (s.takeWhile isDigit).length + 3
    | _ => 0
  | _ => 0

/-- The text without its escape sequences, behind the next `n` characters. -/
def dropSequences : Nat → List Char → List Char
  | _, [] => []
  | n + 1, _ :: s => dropSequences n s
  | 0, c :: s =>
    match sequenceLength (c :: s) with
    | 0 => c :: dropSequences 0 s
    | n + 1 => dropSequences n s

def uncoloured (s : String) : String := String.ofList (dropSequences 0 s.toList)

theorem sequenceLength_cons {c : Char} (hc : c ≠ '\x1b') (s : List Char) :
    sequenceLength (c :: s) = 0 := by
  unfold sequenceLength
  split
  · rename_i h
    exact absurd (List.cons.inj h).1 hc
  · rfl

theorem dropSequences_append {s : List Char} (hs : '\x1b' ∉ s) (rest : List Char) :
    dropSequences 0 (s ++ rest) = s ++ dropSequences 0 rest := by
  induction s with
  | nil => rfl
  | cons c s ih =>
    obtain ⟨hc, hs⟩ : '\x1b' ≠ c ∧ '\x1b' ∉ s := by simpa using hs
    rw [List.cons_append, dropSequences, sequenceLength_cons hc.symm, ih hs, List.cons_append]

theorem dropSequences_length (s rest : List Char) :
    dropSequences s.length (s ++ rest) = dropSequences 0 rest := by
  induction s with
  | nil => rfl
  | cons c s ih => exact ih

theorem sequenceLength_sequence {ds : List Char} (hds : ∀ c ∈ ds, isDigit c = true)
    (rest : List Char) :
    sequenceLength ('\x1b' :: '[' :: (ds ++ 'm' :: rest)) = ds.length + 3 := by
  have hstop : Text.StopsAt isDigit ('m' :: rest) := by
    rw [Text.stopsAt_cons]
    decide
  rw [sequenceLength, Text.dropWhile_run hds hstop, Text.takeWhile_run hds hstop]
  rfl

/-- An escape sequence is taken out, whatever its digits are. -/
theorem dropSequences_sequence {ds : List Char} (hds : ∀ c ∈ ds, isDigit c = true)
    (rest : List Char) :
    dropSequences 0 ('\x1b' :: '[' :: (ds ++ 'm' :: rest)) = dropSequences 0 rest := by
  have hlength : ('[' :: (ds ++ ['m'])).length = ds.length + 2 := by simp
  have hcut : '[' :: (ds ++ 'm' :: rest) = '[' :: (ds ++ ['m']) ++ rest := by simp
  rw [dropSequences, sequenceLength_sequence hds]
  change dropSequences (ds.length + 2) _ = _
  rw [hcut, ← hlength, dropSequences_length]

/-! ## Texts in both forms -/

/-- The coloured text is the plain one without its escape sequences, whatever comes behind it. -/
structure Plain (coloured plain : String) : Prop where
  drop : ∀ rest, dropSequences 0 (coloured.toList ++ rest) = plain.toList ++ dropSequences 0 rest

theorem Plain.append {s t s' t' : String} (hs : Plain s s') (ht : Plain t t') :
    Plain (s ++ t) (s' ++ t') := by
  constructor
  intro rest
  rw [String.toList_append, List.append_assoc, hs.drop, ht.drop, String.toList_append,
    List.append_assoc]

theorem Plain.uncoloured_eq {s s' : String} (h : Plain s s') : uncoloured s = s' := by
  have hnil := h.drop []
  rw [List.append_nil] at hnil
  rw [uncoloured, hnil]
  simp [dropSequences]

theorem plain_self {s : String} (hs : '\x1b' ∉ s.toList) : Plain s s :=
  ⟨dropSequences_append hs⟩

/-- Every colour is an escape sequence. -/
theorem Colour.exists_digits (c : Colour) :
    ∃ ds : List Char, ds.all isDigit = true ∧ c.code.toList = '\x1b' :: '[' :: (ds ++ ['m']) := by
  cases c with
  | green => exact ⟨['3', '2'], by decide, rfl⟩
  | yellow => exact ⟨['3', '3'], by decide, rfl⟩
  | blue => exact ⟨['3', '4'], by decide, rfl⟩
  | grey => exact ⟨['9', '0'], by decide, rfl⟩
  | red => exact ⟨['9', '1'], by decide, rfl⟩
  | reset => exact ⟨['0'], by decide, rfl⟩

theorem plain_paint (c : Colour) : Plain (paint true c) (paint false c) := by
  constructor
  intro rest
  obtain ⟨ds, hds, hcode⟩ := c.exists_digits
  have hpaint : (paint true c).toList ++ rest = '\x1b' :: '[' :: (ds ++ 'm' :: rest) := by
    rw [paint, if_pos rfl, hcode]
    simp
  rw [hpaint, dropSequences_sequence (List.all_eq_true.1 hds)]
  rfl

theorem Plain.text {s s' t : String} (hs : Plain s s') (ht : '\x1b' ∉ t.toList) :
    Plain (s ++ t) (s' ++ t) := hs.append (plain_self ht)

theorem Plain.colour {s s' : String} (hs : Plain s s') (c : Colour) :
    Plain (s ++ paint true c) (s' ++ paint false c) := hs.append (plain_paint c)

theorem plain_join {α : Type} {f g : α → String} {xs : List α} (h : ∀ x ∈ xs, Plain (f x) (g x)) :
    Plain (String.join (xs.map f)) (String.join (xs.map g)) := by
  induction xs with
  | nil => exact plain_self (by simp)
  | cons x xs ih =>
    rw [List.map_cons, List.map_cons, String.join_cons, String.join_cons]
    exact (h x (by simp)).append (ih fun y hy => h y (by simp [hy]))

/-! ## What is written around names -/

theorem escape_not_mem_trimmed {s : String} (hs : '\x1b' ∉ s.toList) :
    '\x1b' ∉ (Text.trimmed s).toList := by
  rw [Text.trimmed, String.toList_ofList]
  exact fun hmem => hs (Text.mem_of_mem_trim hmem)

theorem escape_not_mem_textLines {s l : String} (hs : '\x1b' ∉ s.toList) (hl : l ∈ textLines s) :
    '\x1b' ∉ l.toList := by
  obtain ⟨w, hw, rfl⟩ := List.mem_map.1 hl
  rw [String.toList_ofList]
  exact fun hmem => hs ((Text.mem_lines hw).1 hmem)

theorem escape_not_mem_helpOr {help : Option String} (h : ∀ text ∈ help, '\x1b' ∉ text.toList) :
    '\x1b' ∉ (helpOr help).toList := by
  cases help with
  | none => simp [helpOr, noHelp]
  | some text => exact escape_not_mem_trimmed (h text rfl)

theorem escape_not_mem_padLeft (width : Nat) {s : String} (hs : '\x1b' ∉ s.toList) :
    '\x1b' ∉ (padLeft width s).toList := by
  rw [toList_padLeft]
  simp [hs]

theorem escape_not_mem_bracketed {a : ArgDecl} (ha : '\x1b' ∉ a.name.toList) :
    '\x1b' ∉ (bracketed a).toList := by
  unfold bracketed
  split <;> simp [ha]

theorem plain_tabbed (width : Nat) {ls : List String} (hls : ∀ l ∈ ls, '\x1b' ∉ l.toList) :
    Plain (tabbed width ls) (tabbed width ls) := by
  refine plain_join fun l hl => plain_self ?_
  rw [String.toList_append, toList_behind, textRow]
  simp [escape_not_mem_trimmed (hls l hl)]

theorem plain_tabbedInline (width : Nat) {text : String} (htext : '\x1b' ∉ text.toList) :
    Plain (tabbedInline width text) (tabbedInline width text) := by
  have hlines : ∀ l ∈ textLines text, '\x1b' ∉ l.toList := fun l => escape_not_mem_textLines htext
  unfold tabbedInline
  split
  · exact plain_self (by simp)
  · rename_i first rest h
    rw [h] at hlines
    obtain ⟨hfirst, hrest⟩ := List.forall_mem_cons.1 hlines
    refine Plain.append ?_ (plain_tabbed width hrest)
    split
    · exact plain_self (by simp)
    · refine plain_self ?_
      simp [escape_not_mem_trimmed hfirst]

/-! ## The texts in colours -/

theorem plain_argument (width argWidth : Nat) {a : ArgDecl}
    (ha : ∀ text ∈ a.texts, '\x1b' ∉ text.toList) :
    Plain (argument true width argWidth a) (argument false width argWidth a) := by
  obtain ⟨hname, hhelp⟩ := List.forall_mem_cons.1 ha
  have hhelp := escape_not_mem_helpOr (fun text htext => hhelp text (Option.mem_toList.2 htext))
  exact (((plain_paint .grey).text (escape_not_mem_padLeft _ hname)).colour .reset).append
    (plain_tabbedInline _ hhelp)

theorem plain_mark {a : ArgDecl} (ha : '\x1b' ∉ a.name.toList) :
    Plain (paint true .grey ++ " " ++ bracketed a ++ paint true .reset)
      (paint false .grey ++ " " ++ bracketed a ++ paint false .reset) :=
  (((plain_paint .grey).text (by simp)).text (escape_not_mem_bracketed ha)).colour .reset

theorem plain_target (width : Nat) {t : Target} (ht : ∀ text ∈ t.texts, '\x1b' ∉ text.toList) :
    Plain (target true width t) (target false width t) := by
  obtain ⟨hname, htexts⟩ := List.forall_mem_cons.1 ht
  obtain ⟨hhelp, hargs⟩ := List.forall_mem_append.1 htexts
  have hhelp := escape_not_mem_helpOr (fun text htext => hhelp text (Option.mem_toList.2 htext))
  have hargs : ∀ a ∈ t.args, ∀ text ∈ a.texts, '\x1b' ∉ text.toList :=
    fun a ha text htext => hargs text (List.mem_flatMap.2 ⟨a, ha, htext⟩)
  have hhead : Plain (paint true .blue ++ "  " ++ padLeft width t.name ++ paint true .reset)
      (paint false .blue ++ "  " ++ padLeft width t.name ++ paint false .reset) :=
    (((plain_paint .blue).text (by simp)).text (escape_not_mem_padLeft width hname)).colour .reset
  unfold target
  split
  · exact hhead.append (plain_tabbedInline width hhelp)
  · have hmarks := plain_join fun a ha => plain_mark (hargs a ha a.name (by simp [ArgDecl.texts]))
    have hlines := plain_tabbed width fun l => escape_not_mem_textLines hhelp
    exact (((hhead.append hmarks).text (by simp)).append hlines).append
      (plain_join fun a ha => plain_argument _ _ (hargs a ha))

theorem plain_heading : Plain (heading true) (heading false) := by
  have hstart := ((plain_paint .green).text (t := "Usage: ") (by simp)).colour .yellow
  have hcall := ((hstart.text (t := "doit ") (by simp)).colour .blue)
  have htarget := ((hcall.text (t := "<target> ") (by simp)).colour .grey)
  exact ((htarget.text (by simp)).colour .reset).text (by simp)

theorem plain_scriptHelp {help : Option String} (h : ∀ text ∈ help, '\x1b' ∉ text.toList) :
    Plain (scriptHelp help) (scriptHelp help) := by
  cases help with
  | none => exact plain_self (by simp [scriptHelp])
  | some text =>
    refine plain_join fun l hl => plain_self ?_
    have hline := escape_not_mem_textLines (escape_not_mem_trimmed (h text rfl)) hl
    simp [hline]

theorem plain_usage {r : Registry} (hr : ∀ text ∈ r.texts, '\x1b' ∉ text.toList) :
    Plain (r.usage true) (r.usage false) := by
  obtain ⟨hhelp, htargets⟩ := List.forall_mem_append.1 hr
  have hhelp := plain_scriptHelp fun text htext => hhelp text (Option.mem_toList.2 htext)
  have hlist := plain_join fun t ht => plain_target (byteWidth (r.targets.map (·.name)))
    fun text htext => htargets text (List.mem_flatMap.2
      ⟨t, r.sorted_perm.mem_iff.1 ht, htext⟩)
  have habove := (plain_heading.append hhelp).text (t := "\n") (by simp)
  have hlabel := ((habove.colour .green).text (t := "TARGETS") (by simp)).colour .reset
  unfold Registry.usage
  exact (hlabel.text (by simp)).append hlist

theorem plain_invalidTarget {name : String} (hname : '\x1b' ∉ name.toList) :
    Plain (invalidTarget true name) (invalidTarget false name) := by
  have hmessage := (((plain_paint .red).text (t := "Invalid target name: ") (by simp)).colour
    .yellow).text hname
  have hcall := ((((hmessage.colour .reset).text (t := "\n") (by simp)).colour .green).text
    (t := "Usage: ") (by simp)).colour .blue
  exact ((hcall.text (by simp)).colour .reset).text (by simp)

/-- **Colours do not change the text.** Without its escape sequences the usage text in colours is
the plain one, and so is what is said about a target that is not there. -/
theorem uncoloured_eq_plain :
    (∀ r : Registry, (∀ text ∈ r.texts, '\x1b' ∉ text.toList) →
      uncoloured (r.usage true) = r.usage false) ∧
    ∀ name : String, '\x1b' ∉ name.toList →
      uncoloured (invalidTarget true name) = invalidTarget false name := by
  constructor
  · intro r hr
    exact (plain_usage hr).uncoloured_eq
  · intro name hname
    exact (plain_invalidTarget hname).uncoloured_eq

/-- Targets with and without arguments. -/
def bothKinds : Registry :=
  ⟨some "All of it.", [⟨"über", none, [⟨"größe", true, some "in metres\n or feet"⟩], .empty, []⟩,
    ⟨"ab", some "[0m", [], .empty, []⟩]⟩

theorem uncoloured_bothKinds :
    (∀ text ∈ bothKinds.texts, '\x1b' ∉ text.toList) ∧ '\x1b' ∉ "[90m".toList ∧
      '\x1b' ∈ (bothKinds.usage true).toList ∧ '\x1b' ∈ (invalidTarget true "[90m").toList ∧
      uncoloured (bothKinds.usage true) = bothKinds.usage false ∧
      uncoloured (invalidTarget true "[90m") = invalidTarget false "[90m" := by
  have htexts : ∀ text ∈ bothKinds.texts, '\x1b' ∉ text.toList := by decide +kernel
  have hname : '\x1b' ∉ "[90m".toList := by decide
  have hcoloured : '\x1b' ∈ (bothKinds.usage true).toList := by
    simp [Registry.usage, heading, paint, Colour.code]
  exact ⟨htexts, hname, hcoloured, by decide +kernel, uncoloured_eq_plain.1 _ htexts,
    uncoloured_eq_plain.2 _ hname⟩

end Usage

end TaskRunner
