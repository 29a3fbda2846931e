import Mathlib.Data.List.Chain
import TaskRunner.Host.Search

/-!
# Where the script is found

`Ascent` says which directories lead up from a start: each is the parent of the one before it, and
the last one is the home directory or has no parent. There is exactly one such list for every start,
since the number of parts falls with each step up (`ascent_iff`). The search runs through it and
ends at the first directory that holds the script (`climb_nearest`).
-/
namespace TaskRunner

namespace Path

/-! ## Going up -/

theorem intercalate_splitAt {divider : Char} (s : List Char) :
    [divider].intercalate (splitAt divider s) = s := by
  fun_induction splitAt divider s with
  | case1 => rfl
  | case2 s ih => rw [List.intercalate_cons_of_ne_nil (splitAt_ne_nil s), ih]; rfl
  | case3 c s hc hs => exact absurd hs (splitAt_ne_nil s)
  | case4 c s hc q qs hs ih =>
    rw [hs] at ih
    rw [← ih]
    cases qs <;> simp [List.intercalate_cons_cons]

theorem ofPieces_pieces (p : Path) : ofPieces p.pieces = p := by
  refine congrArg Path.mk (String.toList_inj.1 ?_)
  have hback : p.pieces.map String.toList = splitAt '/' p.text.toList := by
    simp [pieces, Function.comp_def]
  rw [String.toList_intercalate, hback]
  exact intercalate_splitAt _

/-- The first pieces of a path are where its text starts. -/
theorem text_below (first : String) (kept : List String) {more : List String} (hmore : more ≠ []) :
    ∃ t, (ofPieces (first :: (kept ++ more))).text = (below first kept).text ++ t := by
  cases kept with
  | nil =>
    have hsplit : (ofPieces (first :: ([] ++ more))).text =
        first ++ "/" ++ "/".intercalate more :=
      String.intercalate_cons_of_ne_nil hmore
    rw [hsplit]
    by_cases hfirst : first = ""
    · exact ⟨"/".intercalate more, by simp [below, hfirst]⟩
    · exact ⟨"/" ++ "/".intercalate more, by simp [below, hfirst, String.append_assoc]⟩
  | cons piece kept =>
    refine ⟨"/" ++ "/".intercalate more, ?_⟩
    have hsplit := String.intercalate_append_of_ne_nil (s := "/")
      (List.cons_ne_nil first (piece :: kept)) hmore
    rw [String.append_assoc] at hsplit
    exact hsplit

/-- Going up keeps the start of the text as it is written. -/
theorem text_of_parent? {p q : Path} (h : p.parent? = some q) : ∃ t, p.text = q.text ++ t := by
  have hback := p.ofPieces_pieces
  cases hp : p.pieces with
  | nil => exact absurd hp p.pieces_ne_nil
  | cons first rest =>
    rw [hp] at hback
    simp only [parent?, hp] at h
    split at h
    · rename_i name before hname
      cases h
      obtain ⟨more, hmore, rfl⟩ := exists_append_of_reverse_dropWhile hname
      rw [← hback]
      exact text_below first _ hmore
    · split at h
      · cases h
      · cases h
        exact ⟨p.text, by simp⟩

/-- Going up ends at the root or at the empty path, and nowhere else. -/
theorem parent?_eq_none_iff {p : Path} : p.parent? = none ↔ p.parts = [] ∨ p.parts = ["/"] := by
  cases hp : p.pieces with
  | nil => exact absurd hp p.pieces_ne_nil
  | cons first rest =>
    simp only [parent?, hp]
    split
    · rename_i name before hname
      have hne : rest ≠ [] := by
        rintro rfl
        cases hname
      simp [parts_of_pieces_ne_nil hp hne, filter_of_reverse_dropWhile hname]
    · rename_i hidle
      rw [parts_of_pieces hp]
      have hslash : first ≠ "/" := by
        rintro rfl
        exact notMem_of_mem_pieces (hp ▸ List.mem_cons_self) (by simp)
      by_cases hfirst : first = ""
      · cases rest <;> simp [filter_of_reverse_dropWhile_nil hidle, lead, hfirst]
      · simp [filter_of_reverse_dropWhile_nil hidle, lead, hfirst, hslash]

/-! ## Names behind a path -/

theorem endsWith_slash_iff {s : String} : s.endsWith "/" = true ↔ ∃ t, s = t ++ "/" := by
  rw [← String.endsWith_toSlice, String.Slice.endsWith_string_iff, String.copy_toSlice]
  constructor
  · rintro ⟨t, ht⟩
    refine ⟨String.ofList t, String.toList_inj.1 ?_⟩
    simp [← ht]
  · rintro ⟨t, rfl⟩
    exact ⟨t.toList, by simp⟩

theorem pieces_divided (s t : String) :
    (⟨s ++ "/" ++ t⟩ : Path).pieces = (⟨s⟩ : Path).pieces ++ (⟨t⟩ : Path).pieces := by
  simp [pieces, ← List.map_append, ← splitAt_append]

/-- Only the empty path has no parts and no root. -/
theorem lead_of_pieces {p : Path} {first : String} {rest : List String}
    (hp : p.pieces = first :: rest) (hne : p.text ≠ "") :
    lead first rest = [if first = "" then "/" else first] := by
  by_cases hfirst : first = ""
  · have hrest : rest ≠ [] := by
      rintro rfl
      rw [hfirst] at hp
      have hback := p.ofPieces_pieces
      rw [hp] at hback
      exact hne (congrArg Path.text hback).symm
    simp [lead, hfirst, hrest]
  · simp [lead, hfirst]

theorem parts_join {name : String} (hname : '/' ∉ name.toList) (hidle : isIdle name = false)
    (dir : Path) : (dir.join ⟨name⟩).parts = dir.parts ++ [name] := by
  have hsingle := pieces_name hname
  have hrelative : (⟨name⟩ : Path).isAbsolute = false := by simp [isAbsolute_of_pieces hsingle]
  rw [join, if_neg (by simp [hrelative])]
  by_cases hempty : dir.text = ""
  · obtain rfl : dir = ⟨""⟩ := congrArg Path.mk hempty
    rw [if_pos (by simp), String.empty_append, parts_empty, parts_of_pieces hsingle]
    simp_all [lead, isIdle]
  by_cases hslash : dir.text.endsWith "/" = true
  · -- the name takes the place of the empty piece behind the last slash
    obtain ⟨text, htext⟩ := endsWith_slash_iff.1 hslash
    obtain rfl : dir = ⟨text ++ "/"⟩ := congrArg Path.mk htext
    rw [if_pos (by simp [hslash])]
    have hnothing : (⟨""⟩ : Path).pieces = [""] := pieces_name (by simp)
    have hdir := pieces_divided text ""
    have hjoined := pieces_divided text name
    rw [String.append_empty, hnothing] at hdir
    rw [hsingle] at hjoined
    cases hp : (⟨text⟩ : Path).pieces with
    | nil => exact absurd hp (pieces_ne_nil _)
    | cons first rest =>
      rw [hp, List.cons_append] at hdir hjoined
      have hidle' : isIdle "" = true := rfl
      rw [parts_of_pieces_ne_nil hdir (by simp), parts_of_pieces_ne_nil hjoined (by simp)]
      simp [hidle, hidle']
  · rw [if_neg (by simp [hempty, hslash])]
    have hjoined := pieces_divided dir.text name
    rw [hsingle] at hjoined
    cases hp : dir.pieces with
    | nil => exact absurd hp dir.pieces_ne_nil
    | cons first rest =>
      rw [hp, List.cons_append] at hjoined
      rw [parts_of_pieces_ne_nil hjoined (by simp), parts_of_pieces hp, lead_of_pieces hp hempty]
      simp [hidle]

end Path

namespace Search

/-- The directory is the home directory, spelled in whichever way. -/
def AtHome (home : Option Path) (dir : Path) : Prop := ∃ h ∈ home, dir.parts = h.parts

theorem any_same_iff {home : Option Path} {dir : Path} :
    home.any dir.same = true ↔ AtHome home dir := by
  cases home <;> simp [AtHome, Path.same]

/-- The directories lead up from `start`, to the first that is the home directory, or else to the
one that has no parent. -/
structure Ascent (home : Option Path) (start : Path) (dirs : List Path) : Prop where
  first : dirs.head? = some start
  step : dirs.IsChain fun d e => ¬ AtHome home d ∧ d.parent? = some e
  last : ∀ d ∈ dirs.getLast?, AtHome home d ∨ d.parent? = none

namespace Ascent

variable {home : Option Path} {start up : Path} {dirs : List Path}

theorem single (h : AtHome home start ∨ start.parent? = none) : Ascent home start [start] where
  first := rfl
  step := .singleton start
  last := by simpa using h

theorem cons (hhome : ¬ AtHome home start) (hup : start.parent? = some up)
    (h : Ascent home up dirs) : Ascent home start (start :: dirs) := by
  obtain ⟨ds, rfl⟩ := List.head?_eq_some_iff.1 h.first
  refine ⟨rfl, h.step.cons_cons ⟨hhome, hup⟩, ?_⟩
  rw [List.getLast?_cons_cons]
  exact h.last

/-- Induction along an ascent, from its end down. -/
@[elab_as_elim]
theorem ascending {motive : (start : Path) → (dirs : List Path) → Ascent home start dirs → Prop}
    (single : ∀ {start} (h : AtHome home start ∨ start.parent? = none),
      motive start [start] (.single h))
    (cons : ∀ {start up dirs} (hhome : ¬ AtHome home start) (hup : start.parent? = some up)
      (h : Ascent home up dirs), motive up dirs h →
      motive start (start :: dirs) (.cons hhome hup h))
    {start : Path} {dirs : List Path} (h : Ascent home start dirs) : motive start dirs h := by
  induction dirs generalizing start with
  | nil => cases h.first
  | cons d ds ih =>
    obtain rfl : d = start := Option.some.inj h.first
    cases ds with
    | nil => exact single (h.last d rfl)
    | cons up ds =>
      obtain ⟨⟨hhome, hup⟩, hstep⟩ := List.isChain_cons_cons.1 h.step
      have hlast := h.last
      rw [List.getLast?_cons_cons] at hlast
      exact cons hhome hup ⟨rfl, hstep, hlast⟩ (ih _)

/-- Each step up takes one part off. -/
theorem parts_getElem? (h : Ascent home start dirs) {i : Nat} {d : Path} (hd : dirs[i]? = some d) :
    d.parts = start.parts.take (start.parts.length - i) := by
  induction h using ascending generalizing i with
  | single =>
    obtain ⟨rfl, rfl⟩ : i = 0 ∧ _ = d := by simpa [List.getElem?_singleton] using hd
    simp
  | cons hhome hup h ih =>
    cases i with
    | zero =>
      obtain rfl := Option.some.inj hd
      simp
    | succ i =>
      obtain ⟨hne, hparts⟩ := Path.parts_of_parent? hup
      rw [ih hd, hparts, List.dropLast_eq_take, List.take_take, List.length_take]
      congr 1
      omega

/-- What is left of the text stays as it is written. -/
theorem text_of_mem (h : Ascent home start dirs) {d : Path} (hd : d ∈ dirs) :
    ∃ t, start.text = d.text ++ t := by
  induction h using ascending with
  | single =>
    obtain rfl := List.mem_singleton.1 hd
    exact ⟨"", by simp⟩
  | cons hhome hup h ih =>
    rcases List.mem_cons.1 hd with rfl | hd
    · exact ⟨"", by simp⟩
    · obtain ⟨t, ht⟩ := Path.text_of_parent? hup
      obtain ⟨u, hu⟩ := ih hd
      exact ⟨u ++ t, by rw [ht, hu, String.append_assoc]⟩

/-- The way up ends at home, at the root or at the empty path. -/
theorem parts_getLast? (h : Ascent home start dirs) {d : Path} (hd : d ∈ dirs.getLast?) :
    AtHome home d ∨ d.parts = [] ∨ d.parts = ["/"] :=
  (h.last d hd).imp_right Path.parent?_eq_none_iff.1

theorem length_le (h : Ascent home start dirs) : dirs.length ≤ start.parts.length + 1 := by
  induction h using ascending with
  | single => simp
  | cons hhome hup h ih =>
    have hlt := Path.length_parts_of_parent? hup
    rw [List.length_cons]
    omega

end Ascent

/-! ## The directories above a start -/

section

variable {home : Option Path} {start up : Path}

theorem ancestors_of_top (h : start.parent? = none) : start.ancestors = [start] := by
  rw [Path.ancestors]
  split <;> simp_all

theorem ancestors_of_parent? (h : start.parent? = some up) :
    start.ancestors = start :: up.ancestors := by
  rw [Path.ancestors]
  split <;> simp_all

theorem directories_of_home (h : AtHome home start) : directories start home = [start] := by
  have hstop := any_same_iff.2 h
  cases hup : start.parent? with
  | none => simp [directories, ancestors_of_top hup, upToFirst]
  | some up => simp [directories, ancestors_of_parent? hup, upToFirst, hstop]

theorem directories_of_top (h : start.parent? = none) : directories start home = [start] := by
  simp [directories, ancestors_of_top h, upToFirst]

theorem directories_of_parent? (hhome : ¬ AtHome home start) (hup : start.parent? = some up) :
    directories start home = start :: directories up home := by
  have hgo : ¬ home.any start.same = true := mt any_same_iff.1 hhome
  simp [directories, ancestors_of_parent? hup, upToFirst, hgo]

theorem ascent_directories (home : Option Path) (start : Path) :
    Ascent home start (directories start home) := by
  induction start using Path.ancestors.induct with
  | case1 start hup =>
    rw [directories_of_top hup]
    exact .single (.inr hup)
  | case2 start up hup ih =>
    by_cases hhome : AtHome home start
    · rw [directories_of_home hhome]
      exact .single (.inl hhome)
    · rw [directories_of_parent? hhome hup]
      exact .cons hhome hup ih

/-- **There is one way up** from every start. -/
theorem ascent_iff {dirs : List Path} : Ascent home start dirs ↔ dirs = directories start home := by
  refine ⟨fun h => ?_, fun h => h ▸ ascent_directories home start⟩
  induction h using Ascent.ascending with
  | single h =>
    rcases h with hhome | hup
    · rw [directories_of_home hhome]
    · rw [directories_of_top hup]
  | cons hhome hup _ ih => rw [directories_of_parent? hhome hup, ih]

end

/-! ## The search -/

section

variable {isFile : Path → Bool} {home : Option Path} {dir up : Path}

/-- One round of the search. -/
theorem climb_eq (isFile : Path → Bool) (home : Option Path) (dir : Path) :
    climb isFile home dir =
      if isFile (dir.join ⟨scriptName⟩) then some (dir.join ⟨scriptName⟩)
      else if home.any dir.same then none
      else dir.parent?.bind (climb isFile home) := by
  rw [climb]
  congr 2
  split
  · rename_i hup
    rw [hup]
    rfl
  · rename_i up hup
    rw [hup]
    rfl

theorem climb_of_last (hmiss : isFile (dir.join ⟨scriptName⟩) = false)
    (h : AtHome home dir ∨ dir.parent? = none) : climb isFile home dir = none := by
  rw [climb_eq]
  rcases h with hhome | hup
  · simp [hmiss, any_same_iff.2 hhome]
  · simp [hmiss, hup]

theorem climb_of_parent? (hmiss : isFile (dir.join ⟨scriptName⟩) = false)
    (hhome : ¬ AtHome home dir) (hup : dir.parent? = some up) :
    climb isFile home dir = climb isFile home up := by
  have hgo : ¬ home.any dir.same = true := mt any_same_iff.1 hhome
  rw [climb_eq]
  simp [hmiss, hgo, hup]

/-- The search looks into the directories one after the other. -/
theorem climb_eq_find? {dirs : List Path} (h : Ascent home dir dirs) :
    climb isFile home dir = (dirs.map (·.join ⟨scriptName⟩)).find? isFile := by
  induction h using Ascent.ascending with
  | @single dir h =>
    cases hfile : isFile (dir.join ⟨scriptName⟩) with
    | true => simp [climb_eq isFile home dir, hfile]
    | false => simp [climb_of_last hfile h, hfile]
  | @cons dir up dirs hhome hup h ih =>
    cases hfile : isFile (dir.join ⟨scriptName⟩) with
    | true => simp [climb_eq isFile home dir, hfile]
    | false =>
      rw [climb_of_parent? hfile hhome hup, ih]
      simp [hfile]

end

/-- **The nearest script is found.** The directories that lead up from the start are finite in
number, and end at home, at the root or at the empty path. Each is spelled as in the text of the
start and has one part less than the one before it. The search ends, with the script in the first of
them that holds one, and with nothing exactly if none of them does. -/
theorem climb_nearest (isFile : Path → Bool) (home : Option Path) (start : Path) :
    ∃ dirs, (∀ ds, Ascent home start ds ↔ ds = dirs) ∧ dirs.length ≤ start.parts.length + 1 ∧
      (∀ d ∈ dirs.getLast?, AtHome home d ∨ d.parts = [] ∨ d.parts = ["/"]) ∧
      (∀ i d, dirs[i]? = some d → d.parts = start.parts.take (start.parts.length - i) ∧
        (∃ t, start.text = d.text ++ t) ∧
        (d.join ⟨scriptName⟩).parts = d.parts ++ [scriptName]) ∧
      (∀ script, climb isFile home start = some script ↔
        ∃ below dir above, dirs = below ++ dir :: above ∧ script = dir.join ⟨scriptName⟩ ∧
          isFile script = true ∧ ∀ d ∈ below, isFile (d.join ⟨scriptName⟩) = false) ∧
      (climb isFile home start = none ↔ ∀ d ∈ dirs, isFile (d.join ⟨scriptName⟩) = false) := by
  have h := ascent_directories home start
  refine ⟨directories start home, fun _ => ascent_iff, h.length_le, fun _ => h.parts_getLast?,
    fun i d hd => ?_, fun script => ?_, ?_⟩
  · exact ⟨h.parts_getElem? hd, h.text_of_mem (List.mem_of_getElem? hd),
      Path.parts_join (by decide) (by decide) d⟩
  · rw [climb_eq_find? h, List.find?_map, Option.map_eq_some_iff]
    simp only [List.find?_eq_some_iff_append]
    constructor
    · rintro ⟨dir, ⟨hfile, below, above, hdirs, hmiss⟩, rfl⟩
      exact ⟨below, dir, above, hdirs, rfl, hfile, fun d hd => by simpa using hmiss d hd⟩
    · rintro ⟨below, dir, above, hdirs, rfl, hfile, hmiss⟩
      exact ⟨dir, ⟨hfile, below, above, hdirs, fun d hd => by simp [hmiss d hd]⟩, rfl⟩
  · rw [climb_eq_find? h, List.find?_eq_none]
    simp

end Search

end TaskRunner
