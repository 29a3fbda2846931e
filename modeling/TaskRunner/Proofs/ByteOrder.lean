/-!
# Texts in the order of their bytes

Names are compared character by character. The UTF-8 bytes of a greater character are greater, at
the first byte in which the two characters differ, and no character starts with the bytes of another
one, so that the bytes of two texts are in the order of the texts (`utf8_lt`).
-/
namespace TaskRunner.Text

/-- The UTF-8 bytes of a text. -/
def utf8 (s : String) : List UInt8 := s.toUTF8.data.toList

theorem utf8_eq_flatMap (s : String) : utf8 s = s.toList.flatMap String.utf8EncodeChar := by
  rw [utf8, String.toUTF8_eq_toByteArray, ← String.utf8Encode_toList, List.utf8Encode]
  simp

/-- Bytes are compared by the numbers that they stand for, the first ones first. -/
theorem byte_cons_lt {m n : Nat} {s t : List UInt8} {rest : Prop} (hn : n < 256)
    (h : m < n ∨ m = n ∧ rest) (hrest : rest → s < t) :
    UInt8.ofNat m :: s < UInt8.ofNat n :: t := by
  rw [List.cons_lt_cons_iff]
  rcases h with hlt | ⟨rfl, h⟩
  · exact .inl ((UInt8.ofNat_lt_iff_lt (Nat.lt_trans hlt hn) hn).2 hlt)
  · exact .inr ⟨rfl, hrest h⟩

theorem byte_cons_lt_of_lt {m n : Nat} (hn : n < 256) (h : m < n) (s t : List UInt8) :
    UInt8.ofNat m :: s < UInt8.ofNat n :: t :=
  byte_cons_lt hn (.inl h) False.elim

/-- The bytes of a greater character are greater, whatever is behind them. -/
theorem utf8EncodeChar_lt {c d : Char} (h : c < d) (s t : List UInt8) :
    String.utf8EncodeChar c ++ s < String.utf8EncodeChar d ++ t := by
  have hcd : c.val.toNat < d.val.toNat := h
  have hvalid := d.valid
  simp only [UInt32.isValidChar, Nat.isValidChar] at hvalid
  simp only [String.utf8EncodeChar]
  generalize c.val.toNat = v at hcd
  generalize d.val.toNat = w at hcd hvalid
  -- The first byte tells how many there are, and more of them stand for greater characters. Among
  -- characters of one size, the bytes are the digits of the code point to the base 64.
  split
  · split
    · exact byte_cons_lt_of_lt (by omega) hcd _ _
    · split
      · exact byte_cons_lt_of_lt (by omega) (by omega) _ _
      · split <;> exact byte_cons_lt_of_lt (by omega) (by omega) _ _
  · rw [if_neg (by omega : ¬w ≤ 0x7f)]
    split
    · split
      · have hlex : v / 64 % 32 + 192 < w / 64 % 32 + 192 ∨
            v / 64 % 32 + 192 = w / 64 % 32 + 192 ∧ v % 64 + 128 < w % 64 + 128 := by omega
        exact byte_cons_lt (by omega) hlex fun h => byte_cons_lt_of_lt (by omega) h _ _
      · split <;> exact byte_cons_lt_of_lt (by omega) (by omega) _ _
    · rw [if_neg (by omega : ¬w ≤ 0x7ff)]
      split
      · split
        · have hlex : v / 4096 % 16 + 224 < w / 4096 % 16 + 224 ∨
              v / 4096 % 16 + 224 = w / 4096 % 16 + 224 ∧
                (v / 64 % 64 + 128 < w / 64 % 64 + 128 ∨
                  v / 64 % 64 + 128 = w / 64 % 64 + 128 ∧ v % 64 + 128 < w % 64 + 128) := by omega
          exact byte_cons_lt (by omega) hlex fun h => byte_cons_lt (by omega) h fun h =>
            byte_cons_lt_of_lt (by omega) h _ _
        · exact byte_cons_lt_of_lt (by omega) (by omega) _ _
      · rw [if_neg (by omega : ¬w ≤ 0xffff)]
        have hfirst : v / 262144 < w / 262144 ∨
            v / 262144 = w / 262144 ∧ v % 262144 < w % 262144 := by omega
        have hlex : v / 262144 % 8 + 240 < w / 262144 % 8 + 240 ∨
            v / 262144 % 8 + 240 = w / 262144 % 8 + 240 ∧
              (v / 4096 % 64 + 128 < w / 4096 % 64 + 128 ∨
                v / 4096 % 64 + 128 = w / 4096 % 64 + 128 ∧
                  (v / 64 % 64 + 128 < w / 64 % 64 + 128 ∨
                    v / 64 % 64 + 128 = w / 64 % 64 + 128 ∧ v % 64 + 128 < w % 64 + 128)) := by
          rcases hfirst with hlt | ⟨heq, hlt⟩
          · exact .inl (by omega)
          · exact .inr ⟨by rw [heq], by omega⟩
        exact byte_cons_lt (by omega) hlex fun h => byte_cons_lt (by omega) h fun h =>
          byte_cons_lt (by omega) h fun h => byte_cons_lt_of_lt (by omega) h _ _

theorem flatMap_utf8EncodeChar_lt : ∀ {s t : List Char}, s < t →
    s.flatMap String.utf8EncodeChar < t.flatMap String.utf8EncodeChar
  | _, [], h => absurd h (List.not_lt_nil _)
  | [], d :: t, _ => by
    rw [List.flatMap_cons, List.flatMap_nil]
    cases hd : String.utf8EncodeChar d with
    | nil => exact absurd hd String.utf8EncodeChar_ne_nil
    | cons b bs => exact List.nil_lt_cons b _
  | c :: s, d :: t, h => by
    rw [List.flatMap_cons, List.flatMap_cons]
    rcases List.cons_lt_cons_iff.1 h with hcd | ⟨rfl, hst⟩
    · exact utf8EncodeChar_lt hcd _ _
    · exact List.append_left_lt (flatMap_utf8EncodeChar_lt hst)

/-- **The bytes of texts are in the order of the texts.** -/
theorem utf8_lt {s t : String} (h : s < t) : utf8 s < utf8 t := by
  rw [utf8_eq_flatMap, utf8_eq_flatMap]
  exact flatMap_utf8EncodeChar_lt (String.lt_iff.1 h)

end TaskRunner.Text
