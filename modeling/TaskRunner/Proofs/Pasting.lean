import TaskRunner.Proofs.Segmentation

/-!
# Templates pasted together

A scan goes from left to right, so what it has come to at the end of a text is all that the text
behind it can depend on. `endMode` is the mode at that point. A scan that ends in literal mode has
no token left over, and goes on as one that starts there (`between_of_endMode`). So templates can be
pasted together behind such a text: the outputs go together as well, a text can be quoted by doubling
its `$`, and brackets around a key make no difference where the key ends anyway (`render_pasted`).
-/
namespace TaskRunner.Template

open Text (StopsAt)

/-- What a scan is in the middle of at the end of a text, if it starts in the given mode. -/
def endMode : Mode → List Char → Mode
  | mode, [] => mode
  | .literal, c :: rest =>
    if c ≠ '$' then endMode .literal rest
    else
      match rest with
      | [] => .literal
      | '$' :: rest => endMode .literal rest
      | '(' :: rest => endMode .bracketed rest
      | c :: rest => endMode .bare (c :: rest)
  | .bracketed, c :: rest =>
    if c = ')' then endMode .literal rest else endMode .bracketed rest
  | .bare, c :: rest =>
    if isBareChar c then endMode .bare rest else endMode .literal rest

variable (ctx : Context)

/-! ## A text and the text behind it -/

/-- Behind the text `f` the scan is in the mode `last`, with a token and an output that do not depend
on what follows. In literal mode the token is empty. -/
def HandsOn (mode : Mode) (tok out : String) (f : List Char) (last : Mode) : Prop :=
  ∃ tok' out', (last = .literal → tok' = "") ∧
    ∀ g, scan ctx mode tok out (f ++ g) = scan ctx last tok' out' g

variable {ctx}

theorem HandsOn.of_step {mode mode' last : Mode} {tok tok' out out' : String} {f f' : List Char}
    (h : HandsOn ctx mode' tok' out' f' last)
    (hstep : ∀ g, scan ctx mode tok out (f ++ g) = scan ctx mode' tok' out' (f' ++ g)) :
    HandsOn ctx mode tok out f last := by
  obtain ⟨tok₁, out₁, htok, hrest⟩ := h
  exact ⟨tok₁, out₁, htok, fun g => (hstep g).trans (hrest g)⟩

/-- **Run.** A text that can be scanned on its own hands on its end mode, whatever is behind it. -/
theorem handsOn_endMode {mode : Mode} {tok out a : String} {f : List Char}
    (htok : mode = .literal → tok = "") (h : scan ctx mode tok out f = .ok a) :
    HandsOn ctx mode tok out f (endMode mode f) := by
  fun_induction endMode mode f generalizing tok out with
  | case1 mode => exact ⟨tok, out, htok, fun g => rfl⟩
  | case2 c rest hc ih =>
    rw [scan_literal ctx hc] at h
    exact (ih htok h).of_step fun g => scan_literal ctx hc tok out (rest ++ g)
  | case3 c hc =>
    -- a `$` at the very end would need the character behind it
    obtain rfl : c = '$' := by simpa using hc
    cases h
  | case4 c hc rest ih =>
    obtain rfl : c = '$' := by simpa using hc
    exact (ih htok h).of_step fun g => rfl
  | case5 c hc rest ih =>
    obtain rfl : c = '$' := by simpa using hc
    exact (ih (fun hmode => by cases hmode) h).of_step fun g => rfl
  | case6 c hc d rest hd hb ih =>
    obtain rfl : c = '$' := by simpa using hc
    obtain rfl := htok rfl
    have hscan := (between_bare ctx hd hb out rest).symm.trans h
    exact (ih (fun hmode => by cases hmode) hscan).of_step fun g => between_bare ctx hd hb out _
  | case7 rest ih => exact (ih (fun _ => rfl) h).of_step fun g => rfl
  | case8 c rest hc ih =>
    rw [scan_inside ctx hc] at h
    exact (ih (fun hmode => by cases hmode) h).of_step fun g => scan_inside ctx hc tok out _
  | case9 c rest hc ih =>
    rw [scan_key ctx hc] at h
    exact (ih (fun hmode => by cases hmode) h).of_step fun g => scan_key ctx hc tok out _
  | case10 c rest hc ih =>
    rw [scan_stop ctx hc] at h
    exact (ih (fun _ => rfl) h).of_step fun g => scan_stop ctx hc tok out _

/-- A text that ends outside of a placeholder hands on its output and nothing else. -/
theorem between_of_endMode {f a : String} (hmode : endMode .literal f.toList = .literal)
    (hf : render ctx f = .ok a) (g : List Char) :
    between ctx "" (f.toList ++ g) = between ctx a g := by
  obtain ⟨tok, out, htok, hrest⟩ := handsOn_endMode (fun _ => rfl) hf
  rw [hmode, htok hmode] at hrest
  -- with nothing behind it, the text gives what it hands on
  have hout : render ctx f = .ok out := by
    have hnil := hrest []
    rw [List.append_nil] at hnil
    simpa [render, scan_nil] using hnil
  cases hf.symm.trans hout
  exact hrest g

variable (ctx)

/-- What was given so far stands before what is still to come. -/
theorem between_eq_map (out : String) (s : List Char) :
    between ctx out s = (between ctx "" s).map (out ++ ·) := by
  obtain ⟨k⟩ := exists_segmentation s
  rw [← k.source_eq, between_sourceOf ctx k.proper, between_sourceOf ctx k.proper]
  cases k.marker with
  | true => rfl
  | false => simp [Except.map]

/-! ## Quoted texts and keys in brackets -/

/-- A text in which every `$` is doubled. -/
def quoted (s : List Char) : List Char := s.flatMap fun c => if c = '$' then ['$', '$'] else [c]

theorem between_quoted (s : List Char) (out : String) (g : List Char) :
    between ctx out (quoted s ++ g) = between ctx (out ++ String.ofList s) g := by
  induction s generalizing out with
  | nil => simp [quoted]
  | cons c s ih =>
    have hsplit : String.ofList (c :: s) = String.singleton c ++ String.ofList s := by
      apply String.toList_inj.1
      simp
    rw [hsplit, ← String.append_assoc, ← ih]
    by_cases hc : c = '$'
    · subst hc
      exact between_inner ctx (p := .dollar) trivial out (quoted s ++ g)
    · have hquoted : quoted (c :: s) ++ g = c :: (quoted s ++ g) := by simp [quoted, hc]
      rw [hquoted]
      exact between_inner ctx (p := .plain c) hc out (quoted s ++ g)

/-- A key without brackets is the key in brackets, if it ends where the brackets would. -/
theorem between_brackets {key g : List Char} (hne : key ≠ [])
    (hkey : ∀ c ∈ key, isBareChar c = true)
    (hg : StopsAt (fun c => isBareChar c || c == '$') g) (out : String) :
    between ctx out ('$' :: (key ++ g)) = between ctx out ('$' :: '(' :: (key ++ ')' :: g)) := by
  have hclosed : ')' ∉ key := fun h => absurd (hkey _ h) (by decide)
  have hbracketed : between ctx out ('$' :: '(' :: (key ++ ')' :: g)) =
      between ctx (out ++ ctx.resolve key) g := by
    have := between_inner ctx (p := .bracketed key) hclosed out g
    simpa [Segment.source, Segment.expand] using this
  rw [hbracketed]
  cases g with
  | nil =>
    have hclosing := Segment.closing_lastBare_iff.2 ⟨hne, hkey⟩
    have := between_closing ctx hclosing out
    simpa [Segment.source, Segment.expand, between, scan_nil] using this
  | cons c g =>
    obtain ⟨hbare, hd⟩ : isBareChar c = false ∧ c ≠ '$' := by simpa using hg
    have hinner := Segment.inner_bare_iff.2 ⟨hkey, hbare, fun h => absurd h hne⟩
    have hstop := between_inner ctx hinner out g
    have hplain := between_inner ctx (p := .plain c) hd (out ++ ctx.resolve key) g
    rw [Segment.expand, ← String.append_assoc] at hstop
    simpa [Segment.source] using hstop.trans hplain.symm

variable {ctx}

/-- **Templates can be pasted together behind a text that ends outside of a placeholder.** What
follows such a text is rendered as if it stood alone, and its error is the error of the whole. So a
text is given as it is if every `$` in it is doubled, and a key may have brackets or not, unless what
follows it could be taken for a part of the key or is a `$`. -/
theorem render_pasted {f a : String} (hmode : endMode .literal f.toList = .literal)
    (hf : render ctx f = .ok a) :
    (∀ g, render ctx (f ++ g) = (render ctx g).map (a ++ ·)) ∧
    (∀ s g b, render ctx g = .ok b →
      render ctx (f ++ String.ofList (quoted s.toList) ++ g) = .ok (a ++ s ++ b)) ∧
    ∀ key g, key ≠ "" → (∀ c ∈ key.toList, isBareChar c = true) →
      StopsAt (fun c => isBareChar c || c == '$') g.toList →
      render ctx (f ++ "$" ++ key ++ g) = render ctx (f ++ "$(" ++ key ++ ")" ++ g) := by
  have hbehind : ∀ g : String, render ctx (f ++ g) = between ctx a g.toList := by
    intro g
    have hpaste := between_of_endMode hmode hf g.toList
    rwa [← String.toList_append] at hpaste
  refine ⟨fun g => ?_, fun s g b hg => ?_, fun key g hne hkey hg => ?_⟩
  · rw [hbehind, between_eq_map]
    rfl
  · rw [String.append_assoc, hbehind, String.toList_append, String.toList_ofList,
      between_quoted, String.ofList_toList, between_eq_map]
    exact congrArg (Except.map (a ++ s ++ ·)) hg
  · have hbrackets := between_brackets ctx (by simpa using hne) hkey hg a
    simp only [String.append_assoc, hbehind, String.toList_append]
    exact hbrackets

/-- Two arguments and a variable. -/
def greeting : Context := ⟨["a", "b"], ⟨[("x_1", "c")]⟩⟩

theorem render_pasted_greeting :
    endMode .literal "echo $0$, $$".toList = .literal ∧
      render greeting "echo $0$, $$" = .ok "echo a$, $" ∧
      render greeting ("echo $0$, $$" ++ "$") = .error .unterminatedMarker ∧
      render greeting ("echo $0$, $$" ++ String.ofList (quoted "$(1)".toList) ++ "$(1)") =
        .ok ("echo a$, $" ++ "$(1)" ++ "b") ∧
      render greeting ("echo $0$, $$" ++ "$" ++ "x_1" ++ "!") =
        render greeting ("echo $0$, $$" ++ "$(" ++ "x_1" ++ ")" ++ "!") := by
  have hmode : endMode .literal "echo $0$, $$".toList = .literal := by decide +kernel
  have hf : render greeting "echo $0$, $$" = .ok "echo a$, $" := by decide +kernel
  obtain ⟨happend, hquoted, hbrackets⟩ := render_pasted hmode hf
  refine ⟨hmode, hf, happend "$", hquoted "$(1)" "$(1)" "b" (by decide +kernel), ?_⟩
  exact hbrackets "x_1" "!" (by decide) (List.all_eq_true.1 rfl) (by decide)

end TaskRunner.Template
