import Mathlib.Data.List.Forall2

/-!
# Loops that can fail

The phrases of a script and the items of a script are each taken by a loop that stops at the first
error. What such a loop does to a list it does to its parts one after the other, what every step
keeps, the loop keeps, and its error is that of one step.
-/
namespace TaskRunner

variable {σ α ε : Type} {step : σ → α → Except ε σ} {s s' : σ}

theorem foldlM_cons_eq_ok {a : α} {l : List α} :
    (a :: l).foldlM step s = .ok s' ↔ ∃ t, step s a = .ok t ∧ l.foldlM step t = .ok s' := by
  rw [List.foldlM_cons]
  cases h : step s a with
  | error e =>
    constructor
    · intro hs'
      cases hs'
    · rintro ⟨t, ht, -⟩
      cases ht
  | ok t =>
    constructor
    · exact fun hs' => ⟨t, rfl, hs'⟩
    · rintro ⟨t', ht', hs'⟩
      cases ht'
      exact hs'

theorem foldlM_append_eq_ok {l m : List α} :
    (l ++ m).foldlM step s = .ok s' ↔
      ∃ t, l.foldlM step s = .ok t ∧ m.foldlM step t = .ok s' := by
  induction l generalizing s with
  | nil =>
    constructor
    · exact fun h => ⟨s, rfl, h⟩
    · rintro ⟨t, ht, h⟩
      cases ht
      exact h
  | cons a l ih =>
    simp only [List.cons_append, foldlM_cons_eq_ok, ih]
    constructor
    · rintro ⟨t, ht, u, hu, h⟩
      exact ⟨u, ⟨t, ht, hu⟩, h⟩
    · rintro ⟨u, ⟨t, ht, hu⟩, h⟩
      exact ⟨t, ht, u, hu, h⟩

/-- The first error wins, whatever is behind it. -/
theorem foldlM_append_eq_error {e : ε} {l : List α} (m : List α)
    (h : l.foldlM step s = .error e) : (l ++ m).foldlM step s = .error e := by
  induction l generalizing s with
  | nil => cases h
  | cons a l ih =>
    rw [List.foldlM_cons] at h
    rw [List.cons_append, List.foldlM_cons]
    cases ha : step s a with
    | error e' =>
      rw [ha] at h
      cases h
      rfl
    | ok t =>
      rw [ha] at h
      exact ih h

/-- An error is that of some entry, which the loop has reached through those before it. -/
theorem foldlM_eq_error {e : ε} {l : List α} (h : l.foldlM step s = .error e) :
    ∃ before a behind t, l = before ++ a :: behind ∧ before.foldlM step s = .ok t ∧
      step t a = .error e := by
  induction l generalizing s with
  | nil => cases h
  | cons a l ih =>
    rw [List.foldlM_cons] at h
    cases ha : step s a with
    | error e' =>
      rw [ha] at h
      cases h
      exact ⟨[], a, l, s, rfl, rfl, ha⟩
    | ok t =>
      rw [ha] at h
      obtain ⟨before, b, behind, u, rfl, hbefore, hb⟩ := ih h
      exact ⟨a :: before, b, behind, u, rfl, foldlM_cons_eq_ok.2 ⟨t, ha, hbefore⟩, hb⟩

/-- A loop that gets through some entries ends with the error of the next one. -/
theorem foldlM_error_at {l : List α} {a : α} {t : σ} {e : ε} (behind : List α)
    (hl : l.foldlM step s = .ok t) (ha : step t a = .error e) :
    (l ++ a :: behind).foldlM step s = .error e := by
  rw [List.foldlM_append, hl]
  exact foldlM_append_eq_error (l := [a]) behind (by rw [List.foldlM_cons, ha]; rfl)

/-- If it does not get through the next one, there is such an error. -/
theorem exists_error_at {l : List α} {a : α} {t : σ} (hl : l.foldlM step s = .ok t)
    (ha : ¬ ∃ s', (l ++ [a]).foldlM step s = .ok s') : ∃ e, step t a = .error e := by
  cases he : step t a with
  | error e => exact ⟨e, rfl⟩
  | ok s' =>
    exact absurd ⟨s', foldlM_append_eq_ok.2 ⟨t, hl, foldlM_cons_eq_ok.2 ⟨s', he, rfl⟩⟩⟩ ha

/-- What each step of a loop keeps, the loop keeps. -/
theorem foldlM_invariant (I : σ → Prop) :
    ∀ {l : List α}, (∀ a ∈ l, ∀ s s', I s → step s a = .ok s' → I s') →
    ∀ {s s' : σ}, I s → l.foldlM step s = .ok s' → I s'
  | [], _, s, s', hs, h => by
    cases h
    exact hs
  | a :: l, hstep, s, s', hs, h => by
    obtain ⟨t, ht, hrest⟩ := foldlM_cons_eq_ok.1 h
    have hi := hstep a (by simp) s t hs ht
    exact foldlM_invariant I (fun b hb => hstep b (by simp [hb])) hi hrest

/-- Two loops that begin alike end alike, if they do from every state that the common part leads
to. -/
theorem foldlM_append_congr {l m m' : List α} (I : σ → Prop)
    (hstep : ∀ a ∈ l, ∀ s s', I s → step s a = .ok s' → I s')
    (h : ∀ t, I t → m.foldlM step t = m'.foldlM step t) (hs : I s) :
    (l ++ m).foldlM step s = (l ++ m').foldlM step s := by
  cases hl : l.foldlM step s with
  | error e => rw [foldlM_append_eq_error m hl, foldlM_append_eq_error m' hl]
  | ok t =>
    rw [List.foldlM_append, List.foldlM_append, hl]
    exact h t (foldlM_invariant I hstep hs hl)

/-- Two loops whose steps go together give results that go together. -/
theorem foldlM_commute {τ β : Type} {step' : τ → β → Except ε τ} {f : σ → τ} {g : α → β}
    (h : ∀ s a, step' (f s) (g a) = (step s a).map f) (l : List α) (s : σ) :
    (l.map g).foldlM step' (f s) = (l.foldlM step s).map f := by
  induction l generalizing s with
  | nil => rfl
  | cons a l ih =>
    rw [List.map_cons, List.foldlM_cons, List.foldlM_cons, h]
    cases step s a with
    | error e => rfl
    | ok t => exact ih t

/-- Two loops over lists that are related entry by entry. If their steps differ in how they tell an
error, then so do the loops. -/
theorem foldlM_mapError {β δ : Type} {step' : σ → β → Except δ σ} {R : β → α → Prop} (f : ε → δ)
    {l : List α} {m : List β} (h : List.Forall₂ R m l)
    (hstep : ∀ s b a, R b a → step' s b = (step s a).mapError f) (s : σ) :
    m.foldlM step' s = (l.foldlM step s).mapError f := by
  induction h generalizing s with
  | nil => rfl
  | @cons b a m l hab _ ih =>
    rw [List.foldlM_cons, List.foldlM_cons, hstep s b a hab]
    cases step s a with
    | error e => rfl
    | ok t => exact ih t

end TaskRunner
