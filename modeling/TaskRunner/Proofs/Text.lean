import Mathlib.Data.List.TakeWhile

/-!
# Runs of characters

A token of a text is a run of characters that pass a test, cut off before the first one that fails
it. `StopsAt` says that a text does not go on with such a character, so that a run put before it
ends where it should.
-/
namespace TaskRunner.Text

/-- The text is empty or its first character fails the test. -/
def StopsAt (p : Char → Bool) (s : List Char) : Prop := ∀ c ∈ s.head?, p c = false

instance (p : Char → Bool) (s : List Char) : Decidable (StopsAt p s) :=
  match s with
  | [] => .isTrue fun _ hc => by cases hc
  | c :: _ => decidable_of_iff (p c = false) (by simp [StopsAt])

variable {p : Char → Bool} {w s after : List Char} {c stop : Char}

theorem stopsAt_nil : StopsAt p [] := by simp [StopsAt]

@[simp] theorem stopsAt_cons : StopsAt p (c :: s) ↔ p c = false := by simp [StopsAt]

/-- A text that does not start with a character of some kind does not start with any one of them. -/
theorem StopsAt.char {d : Char} (h : StopsAt p s) (hd : p d = true) : StopsAt (· == d) s := by
  intro c hc
  rw [beq_eq_false_iff_ne]
  rintro rfl
  rw [h c hc] at hd
  cases hd

/-- A text that starts with a character of some kind does not start with one of another. -/
theorem stopsAt_other {d : Char} (hc : p c = true) (hd : p d = false) :
    StopsAt (· == d) (c :: s) := by
  rw [stopsAt_cons, beq_eq_false_iff_ne]
  rintro rfl
  rw [hd] at hc
  cases hc

theorem dropWhile_of_stopsAt (h : StopsAt p s) : s.dropWhile p = s := by
  cases s with
  | nil => rfl
  | cons c s => rw [stopsAt_cons] at h; simp [h]

theorem takeWhile_of_stopsAt (h : StopsAt p s) : s.takeWhile p = [] := by
  cases s with
  | nil => rfl
  | cons c s => rw [stopsAt_cons] at h; simp [h]

theorem dropWhile_run (hw : ∀ c ∈ w, p c = true) (h : StopsAt p s) : (w ++ s).dropWhile p = s := by
  rw [List.dropWhile_append_of_pos hw, dropWhile_of_stopsAt h]

theorem takeWhile_run (hw : ∀ c ∈ w, p c = true) (h : StopsAt p s) : (w ++ s).takeWhile p = w := by
  rw [List.takeWhile_append_of_pos hw, takeWhile_of_stopsAt h, List.append_nil]

theorem stopsAt_dropWhile (p : Char → Bool) (s : List Char) : StopsAt p (s.dropWhile p) := by
  intro c hc
  have h := List.head?_dropWhile_not p s
  rw [Option.mem_def.1 hc] at h
  simpa using h

/-- A run that goes up to the end of `s` does not go on in a text that stops it. -/
theorem dropWhile_append_stop (s : List Char) (h : StopsAt p after) :
    (s ++ after).dropWhile p = s.dropWhile p ++ after := by
  induction s with
  | nil => exact dropWhile_of_stopsAt h
  | cons c s ih => by_cases hc : p c = true <;> simp [hc, ih]

theorem takeWhile_append_stop (s : List Char) (h : StopsAt p after) :
    (s ++ after).takeWhile p = s.takeWhile p := by
  induction s with
  | nil => exact takeWhile_of_stopsAt h
  | cons c s ih => by_cases hc : p c = true <;> simp [hc, ih]

theorem StopsAt.append (h : StopsAt p s) (hafter : StopsAt p after) : StopsAt p (s ++ after) := by
  cases s with
  | nil => exact hafter
  | cons c s => exact h

end TaskRunner.Text
