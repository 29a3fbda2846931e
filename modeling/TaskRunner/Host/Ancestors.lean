import TaskRunner.Host.Path

/-!
# Going up

The parent of a path has the parts of the path but for the last one. So the number of parts falls
with each step up, and there is an end to going up, however the path is spelled.
-/
namespace TaskRunner

namespace Path

/-! ## Pieces -/

section

variable {divider : Char}

theorem splitAt_ne_nil (s : List Char) : splitAt divider s ≠ [] := by
  fun_cases splitAt divider s <;> simp

theorem splitAt_of_notMem {s : List Char} (h : divider ∉ s) : splitAt divider s = [s] := by
  induction s with
  | nil => rfl
  | cons c s ih =>
    have hs : divider ≠ c ∧ divider ∉ s := by simpa using h
    rw [splitAt, if_neg (Ne.symm hs.1), ih hs.2]

theorem splitAt_append (s t : List Char) :
    splitAt divider (s ++ divider :: t) = splitAt divider s ++ splitAt divider t := by
  induction s with
  | nil => simp [splitAt]
  | cons c s ih =>
    rw [List.cons_append, splitAt, splitAt, ih]
    split
    · rfl
    · cases h : splitAt divider s with
      | nil => exact absurd h (splitAt_ne_nil s)
      | cons p ps => rfl

theorem notMem_of_mem_splitAt {s p : List Char} (h : p ∈ splitAt divider s) : divider ∉ p := by
  fun_induction splitAt divider s generalizing p with
  | case1 => simp_all
  | case2 s ih =>
    rcases List.mem_cons.1 h with rfl | h
    · simp
    · exact ih h
  | case3 c s hc hs ih => exact absurd hs (splitAt_ne_nil s)
  | case4 c s hc q qs hs ih =>
    rw [hs] at ih
    rcases List.mem_cons.1 h with rfl | h
    · have hq := ih List.mem_cons_self
      simp [Ne.symm hc, hq]
    · exact ih (List.mem_cons_of_mem _ h)

theorem splitAt_intercalate {ps : List (List Char)} (hne : ps ≠ []) (h : ∀ p ∈ ps, divider ∉ p) :
    splitAt divider ([divider].intercalate ps) = ps := by
  induction ps with
  | nil => exact absurd rfl hne
  | cons p ps ih =>
    have hp := splitAt_of_notMem (h p List.mem_cons_self)
    cases ps with
    | nil => simpa using hp
    | cons q ps =>
      have hrest := ih (by simp) fun r hr => h r (List.mem_cons_of_mem _ hr)
      rw [List.intercalate_cons_cons, List.append_assoc, List.singleton_append, splitAt_append,
        hp, hrest]
      rfl

end

theorem pieces_ne_nil (p : Path) : p.pieces ≠ [] := by
  simpa [pieces] using splitAt_ne_nil p.text.toList

theorem notMem_of_mem_pieces {p : Path} {piece : String} (h : piece ∈ p.pieces) :
    '/' ∉ piece.toList := by
  obtain ⟨w, hw, rfl⟩ := List.mem_map.1 h
  simpa using notMem_of_mem_splitAt hw

theorem pieces_ofPieces {ps : List String} (hne : ps ≠ []) (h : ∀ x ∈ ps, '/' ∉ x.toList) :
    (ofPieces ps).pieces = ps := by
  have htext : (ofPieces ps).text.toList = ['/'].intercalate (ps.map String.toList) :=
    String.toList_intercalate
  rw [pieces, htext, splitAt_intercalate (by simpa using hne) (by simpa using h), List.map_map]
  simp [Function.comp_def]

theorem pieces_name {name : String} (h : '/' ∉ name.toList) : (⟨name⟩ : Path).pieces = [name] := by
  simp [pieces, splitAt_of_notMem h]

/-! ## Parts -/

theorem isAbsolute_iff {p : Path} : p.isAbsolute = true ↔ ∃ s, p.text.toList = '/' :: s := by
  rw [isAbsolute, String.startsWith_string_iff]
  constructor
  · rintro ⟨s, hs⟩
    exact ⟨s, hs.symm⟩
  · rintro ⟨s, hs⟩
    exact ⟨s, hs.symm⟩

/-- A path is absolute if its first piece is empty and there are others. -/
theorem isAbsolute_of_pieces {p : Path} {first : String} {rest : List String}
    (hp : p.pieces = first :: rest) : p.isAbsolute = (first == "" && !rest.isEmpty) := by
  rw [Bool.eq_iff_iff, isAbsolute_iff]
  cases hs : p.text.toList with
  | nil => simp_all [pieces, splitAt]
  | cons c s =>
    rw [pieces, hs] at hp
    by_cases hc : c = '/'
    · rw [hc, splitAt, if_pos rfl] at hp
      obtain ⟨rfl, rfl⟩ := List.cons.inj hp
      simp [hc, splitAt_ne_nil]
    · rw [splitAt, if_neg hc] at hp
      have hfirst : first ≠ "" := by
        split at hp <;> obtain ⟨rfl, -⟩ := List.cons.inj hp <;> simp
      simp [hc, hfirst]

/-- What the first piece counts for: the root if it is empty and others follow, else itself. -/
def lead (first : String) (rest : List String) : List String :=
  if first = "" then (if rest.isEmpty then [] else ["/"]) else [first]

theorem parts_of_pieces {p : Path} {first : String} {rest : List String}
    (hp : p.pieces = first :: rest) :
    p.parts = lead first rest ++ rest.filter (!isIdle ·) := by
  rw [parts, isAbsolute_of_pieces hp, hp]
  unfold lead
  by_cases hempty : first = ""
  · cases rest <;> simp [hempty, isIdle]
  · by_cases hdot : first = "."
    · simp [hdot, isIdle]
    · simp [hempty, hdot, isIdle]

/-- The parts of a path with at least one piece behind the first. -/
theorem parts_of_pieces_ne_nil {p : Path} {first : String} {rest : List String}
    (hp : p.pieces = first :: rest) (hne : rest ≠ []) :
    p.parts = (if first = "" then "/" else first) :: rest.filter (!isIdle ·) := by
  rw [parts_of_pieces hp]
  by_cases hfirst : first = "" <;> simp [lead, hfirst, hne]

theorem filter_dropWhile_idle (ps : List String) :
    (ps.dropWhile isIdle).filter (!isIdle ·) = ps.filter (!isIdle ·) := by
  induction ps with
  | nil => rfl
  | cons x ps ih => cases hx : isIdle x <;> simp [hx, ih]

/-- The counting pieces of a list, up to and with the last one. -/
theorem filter_of_reverse_dropWhile {ps before : List String} {name : String}
    (h : ps.reverse.dropWhile isIdle = name :: before) :
    ps.filter (!isIdle ·) = (before.dropWhile isIdle).reverse.filter (!isIdle ·) ++ [name] := by
  have hname : isIdle name = false := by
    have := List.head?_dropWhile_not isIdle ps.reverse
    simpa [h] using this
  have hps := filter_dropWhile_idle ps.reverse
  rw [h, List.filter_reverse] at hps
  rw [← List.reverse_reverse (ps.filter _), ← hps, List.filter_reverse, filter_dropWhile_idle]
  simp [hname]

theorem filter_of_reverse_dropWhile_nil {ps : List String} (h : ps.reverse.dropWhile isIdle = []) :
    ps.filter (!isIdle ·) = [] := by
  have hall := filter_dropWhile_idle ps.reverse
  rw [h] at hall
  simpa using hall.symm

/-- What stands before the last counting piece, and before the idle pieces in front of it, is a
proper start of the list. -/
theorem exists_append_of_reverse_dropWhile {ps before : List String} {name : String}
    (h : ps.reverse.dropWhile isIdle = name :: before) :
    ∃ more, more ≠ [] ∧ ps = (before.dropWhile isIdle).reverse ++ more := by
  refine ⟨(before.takeWhile isIdle).reverse ++ name :: (ps.reverse.takeWhile isIdle).reverse,
    by simp, ?_⟩
  have hbefore : before.takeWhile isIdle ++ before.dropWhile isIdle = before :=
    List.takeWhile_append_dropWhile
  have hps : ps.reverse.takeWhile isIdle ++ name :: before = ps.reverse := by
    rw [← h]
    exact List.takeWhile_append_dropWhile
  rw [← List.append_assoc, ← List.reverse_append, hbefore]
  calc
    ps = (ps.reverse.takeWhile isIdle ++ name :: before).reverse := by
      rw [hps, List.reverse_reverse]
    _ = before.reverse ++ name :: (ps.reverse.takeWhile isIdle).reverse := by
      rw [List.reverse_append, List.reverse_cons, List.append_assoc, List.singleton_append]

/-- The parts of a path that is put together again. -/
theorem parts_below {first : String} {rest : List String}
    (h : ∀ x ∈ first :: rest, '/' ∉ x.toList) :
    (below first rest).parts = (if first = "" then "/" else first) :: rest.filter (!isIdle ·) := by
  cases rest with
  | cons piece rest =>
    exact parts_of_pieces_ne_nil (pieces_ofPieces (List.cons_ne_nil _ _) h) (List.cons_ne_nil _ _)
  | nil =>
    rw [below]
    by_cases hempty : first = ""
    · have hroot : (⟨"/"⟩ : Path).pieces = ["", ""] := by decide
      rw [if_pos hempty, parts_of_pieces_ne_nil hroot (List.cons_ne_nil _ _)]
      rfl
    · rw [if_neg hempty, parts_of_pieces (pieces_name (h first List.mem_cons_self))]
      simp [lead, hempty]

theorem parts_empty : (⟨""⟩ : Path).parts = [] := by
  rw [parts_of_pieces (pieces_name (by simp))]
  simp [lead]

/-- Going up takes the last part off. -/
theorem parts_of_parent? {p q : Path} (h : p.parent? = some q) :
    p.parts ≠ [] ∧ q.parts = p.parts.dropLast := by
  cases hp : p.pieces with
  | nil => exact absurd hp p.pieces_ne_nil
  | cons first rest =>
    have hslash : ∀ x ∈ first :: rest, '/' ∉ x.toList := fun x hx =>
      notMem_of_mem_pieces (hp ▸ hx)
    simp only [parent?, hp] at h
    split at h
    · rename_i name before hname
      cases h
      have hne : rest ≠ [] := by
        rintro rfl
        cases hname
      obtain ⟨more, -, hrest⟩ := exists_append_of_reverse_dropWhile hname
      have hsub : (before.dropWhile isIdle).reverse ⊆ rest :=
        fun x hx => hrest ▸ List.mem_append_left more hx
      have hbelow := parts_below fun x hx => hslash x (List.cons_subset_cons first hsub hx)
      rw [parts_of_pieces_ne_nil hp hne, filter_of_reverse_dropWhile hname, ← List.cons_append,
        List.dropLast_concat, hbelow]
      exact ⟨by simp, rfl⟩
    · rename_i hidle
      have hfilter := filter_of_reverse_dropWhile_nil hidle
      split at h
      · cases h
      · rename_i hempty
        cases h
        rw [parts_of_pieces hp]
        simp [hfilter, lead, hempty, parts_empty]

theorem length_parts_of_parent? {p q : Path} (h : p.parent? = some q) :
    q.parts.length < p.parts.length := by
  obtain ⟨hne, hq⟩ := parts_of_parent? h
  have hpos := List.length_pos_iff.2 hne
  rw [hq, List.length_dropLast]
  omega

/-- The path itself, its parent, the parent of that, and so on. Each has fewer parts than the one
before it. -/
def ancestors (p : Path) : List Path :=
  match _h : p.parent? with
  | none => [p]
  | some q => p :: ancestors q
termination_by p.parts.length
decreasing_by exact length_parts_of_parent? _h

end Path

end TaskRunner
