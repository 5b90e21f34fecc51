import Mathlib.Tactic.Common

set_option autoImplicit false

/-!
# The letters of a text

A text is kept as its bytes in UTF-8, and to come to its characters is to decode them. The bytes of a
text of ASCII characters are its characters, so that checks of fixed text are evaluated without
decoding.

## Main definitions

* `Retarget.letters` — the characters of a text, read off its bytes where all of them are ASCII.

## Main results

* `Retarget.letters_eq` — they are the characters of the text.
-/

namespace Retarget

/-- The characters of a text. Where all bytes are ASCII, each of them is a character. -/
def letters (s : String) : List Char :=
  let bytes := s.toByteArray.data.toList
  if bytes.all (· < 128) then bytes.map Char.ofUInt8 else s.toList

/-- A character whose bytes are all ASCII has one byte, which is its code. -/
lemma map_ofUInt8_utf8EncodeChar {c : Char}
    (h : (String.utf8EncodeChar c).all (· < 128) = true) :
    (String.utf8EncodeChar c).map Char.ofUInt8 = [c] := by
  rw [String.utf8EncodeChar] at h ⊢
  split_ifs at h ⊢ with hone
  · have hcode : c.val.toNat % 256 = c.val.toNat := Nat.mod_eq_of_lt (by omega)
    have hval : (Char.ofUInt8 (UInt8.ofNat c.val.toNat)).val =
        (UInt8.ofNat c.val.toNat).toUInt32 := rfl
    have hchar : Char.ofUInt8 (UInt8.ofNat c.val.toNat) = c := by
      refine Char.ext (UInt32.toNat_inj.mp ?_)
      rw [hval, UInt8.toNat_toUInt32, UInt8.toNat_ofNat', hcode]
    rw [List.map_singleton, hchar]
  -- The first of several bytes is not ASCII.
  all_goals
    simp only [List.all_cons, Bool.and_eq_true, decide_eq_true_eq, UInt8.lt_iff_toNat_lt,
      UInt8.toNat_ofNat', UInt8.toNat_ofNat] at h
    omega

/-- The letters of a text are its characters. -/
@[simp] theorem letters_eq (s : String) : letters s = s.toList := by
  have hbytes : s.toByteArray.data.toList = s.toList.flatMap String.utf8EncodeChar := by
    rw [← String.utf8Encode_toList]
    simp [List.utf8Encode]
  unfold letters
  rw [hbytes]
  generalize s.toList = cs
  simp only
  split_ifs with h
  · induction cs with
    | nil => rfl
    | cons c cs ih =>
      rw [List.flatMap_cons, List.all_append, Bool.and_eq_true] at h
      rw [List.flatMap_cons, List.map_append, map_ofUInt8_utf8EncodeChar h.1, ih h.2]
      rfl
  · rfl

end Retarget
