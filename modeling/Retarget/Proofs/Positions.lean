import Mathlib.Data.List.DropRight
import Mathlib.Data.Prod.Lex
import Retarget.Proofs.Tokens.Tiling

set_option autoImplicit false

/-!
# Lines and columns

Offsets count bytes, lines and columns count characters. Looking an offset up walks over the characters
before it, and each of them moves the position on: to the next line, or one column to the right. So the
order of the offsets between characters is the order of their lines and columns, and no two of them
share both.

## Main definitions

* `Retarget.Position.place` — the line and the column of a position, in lexicographic order.
* `Retarget.Position.behind` — the position behind more text.

## Main results

* `Retarget.Position.behind_origin` — lines count newlines, columns the characters since the last one.
* `Retarget.locate_place_lt` — the position of an offset, and the order of positions.
-/

namespace Retarget

namespace Position

/-- The line and the column of a position, in lexicographic order. -/
def place (p : Position) : ℕ ×ₗ ℕ := toLex (p.line, p.column)

/-- The position behind more text. -/
def behind (p : Position) (text : List Char) : Position := text.foldl advance p

/-- No text leaves the position. -/
@[simp] lemma behind_nil (p : Position) : p.behind [] = p := rfl

/-- A text leads on character by character. -/
@[simp] lemma behind_cons (p : Position) (c : Char) (cs : List Char) :
    p.behind (c :: cs) = (p.advance c).behind cs := rfl

/-- One text behind another leads on from where that one led. -/
lemma behind_append (p : Position) (cs ds : List Char) :
    p.behind (cs ++ ds) = (p.behind cs).behind ds :=
  List.foldl_append

/-! ## Walking over characters -/

/-- A character takes as many bytes as it has in UTF-8. -/
@[simp] lemma advance_offset (p : Position) (c : Char) :
    (p.advance c).offset = p.offset + c.utf8Size := by
  rw [advance]
  split_ifs <;> rfl

/-- The walk up to an offset between two characters passes exactly the characters before it. -/
lemma seek_append (p : Position) (before after : List Char) :
    p.seek (p.offset + byteLength before) (before ++ after) = p.behind before := by
  induction before generalizing p with
  | nil =>
    cases after with
    | nil => rfl
    | cons c cs => exact if_pos le_rfl
  | cons c cs ih =>
    have hbefore : ¬ p.offset + byteLength (c :: cs) ≤ p.offset := by
      have := c.utf8Size_pos
      rw [byteLength]
      omega
    have hsize : p.offset + byteLength (c :: cs) = (p.advance c).offset + byteLength cs := by
      rw [advance_offset, byteLength, Nat.add_assoc]
    rw [List.cons_append, seek, if_neg hbefore, hsize, ih, behind_cons]

/-- The line counts the newlines of the text, the column the characters since the last of them. -/
lemma behind_origin (text : List Char) :
    origin.behind text =
      ⟨byteLength text, 1 + text.count '\n', 1 + (text.rtakeWhile (· != '\n')).length⟩ := by
  induction text using List.reverseRecOn with
  | nil => rfl
  | append_singleton text c ih =>
    rw [behind_append, ih, behind_cons, behind_nil, advance]
    by_cases hc : c = '\n' <;> simp [hc, byteLength, Nat.add_assoc]

/-- The position of an offset between two characters is the one behind all text before it. -/
lemma locate_append (before after : String) :
    locate (before ++ after) before.utf8ByteSize = origin.behind before.toList := by
  have hbound : min before.utf8ByteSize (before ++ after).utf8ByteSize = before.utf8ByteSize := by
    rw [String.utf8ByteSize_append]
    exact Nat.min_eq_left (Nat.le_add_right _ _)
  have hwalk := seek_append origin before.toList after.toList
  rw [byteLength_toList, show origin.offset = 0 from rfl, Nat.zero_add] at hwalk
  simp only [locate, hbound, String.toList_append, hwalk, behind_origin, byteLength_toList]

/-! ## The order of positions -/

/-- One character moves the position on. -/
lemma place_lt_advance (p : Position) (c : Char) : p.place < (p.advance c).place := by
  rw [place, place, advance, Prod.Lex.toLex_lt_toLex]
  split_ifs
  · exact .inl (Nat.lt_succ_self p.line)
  · exact .inr ⟨rfl, Nat.lt_succ_self p.column⟩

/-- More text moves the position on. -/
lemma place_le_behind (p : Position) (text : List Char) : p.place ≤ (p.behind text).place := by
  induction text generalizing p with
  | nil => exact le_rfl
  | cons c cs ih => exact (place_lt_advance p c).le.trans (ih _)

/-- Any text leads to a later place. -/
lemma place_lt_behind (p : Position) {text : List Char} (h : text ≠ []) :
    p.place < (p.behind text).place := by
  cases text with
  | nil => exact absurd rfl h
  | cons c cs => exact (place_lt_advance p c).trans_le (place_le_behind _ cs)

end Position

/-- The text before the first of two offsets between characters is a part of the text before the
second one. -/
lemma exists_append_of_lt {source : String} {a b : Nat}
    (ha : String.Pos.Raw.IsValid source ⟨a⟩) (hb : String.Pos.Raw.IsValid source ⟨b⟩)
    (hlt : a < b) :
    ∃ before between after : String, source = before ++ between ++ after ∧ between.toList ≠ [] ∧
      before.utf8ByteSize = a ∧ (before ++ between).utf8ByteSize = b := by
  obtain ⟨before, rest, hsource, hbefore⟩ := String.Pos.Raw.isValid_iff_exists_append.mp ha
  obtain ⟨upTo, after, hsource', hupTo⟩ := String.Pos.Raw.isValid_iff_exists_append.mp hb
  obtain rfl : a = before.utf8ByteSize := congrArg String.Pos.Raw.byteIdx hbefore
  obtain rfl : b = upTo.utf8ByteSize := congrArg String.Pos.Raw.byteIdx hupTo
  have hsplit : before.toList ++ rest.toList = upTo.toList ++ after.toList := by
    rw [← String.toList_append, ← String.toList_append, ← hsource, hsource']
  rcases List.append_eq_append_iff.mp hsplit with ⟨between, hbetween, -⟩ | ⟨between, hbetween, -⟩
  · obtain rfl : upTo = before ++ String.ofList between := by
      rw [← String.toList_inj, String.toList_append, hbetween, String.toList_ofList]
    refine ⟨before, String.ofList between, after, hsource', ?_, rfl, rfl⟩
    intro hnil
    rw [String.utf8ByteSize_append, ← byteLength_toList (String.ofList between), hnil] at hlt
    exact lt_irrefl _ hlt
  · -- The other way round the first offset would not be the smaller one.
    have hsize := congrArg byteLength hbetween
    rw [byteLength_append, byteLength_toList, byteLength_toList] at hsize
    omega

/-- **Line and column identify a position.** Behind any text the line is one more than the newlines of
the text, and the column one more than the characters since the last of them. Of two offsets between
characters the smaller one has the smaller line, or the same line and the smaller column. An offset past
the end has the position of the end.

**Proof sketch.** The position of an offset between characters is counted over the text before it
(`locate_append`). For two of them the text before the larger one goes on from the smaller one by
some characters, each of which moves the position on (`place_lt_behind`). Offsets past the end are
cut to it. -/
theorem locate_place_lt (source : String) :
    (∀ before after, source = before ++ after →
      Position.locate source before.utf8ByteSize =
        ⟨before.utf8ByteSize, 1 + before.toList.count '\n',
          1 + (before.toList.rtakeWhile (· != '\n')).length⟩) ∧
    (∀ a b, String.Pos.Raw.IsValid source ⟨a⟩ → String.Pos.Raw.IsValid source ⟨b⟩ → a < b →
      (Position.locate source a).place < (Position.locate source b).place) ∧
    ∀ offset, source.utf8ByteSize ≤ offset →
      Position.locate source offset = Position.locate source source.utf8ByteSize := by
  refine ⟨?_, fun a b ha hb hlt => ?_, fun offset hoffset => ?_⟩
  · rintro before after rfl
    rw [Position.locate_append, Position.behind_origin, byteLength_toList]
  · obtain ⟨before, between, after, rfl, hbetween, rfl, rfl⟩ := exists_append_of_lt ha hb hlt
    rw [Position.locate_append (before ++ between) after, String.append_assoc,
      Position.locate_append before, String.toList_append, Position.behind_append]
    exact Position.place_lt_behind _ hbetween
  · rw [Position.locate, Position.locate, Nat.min_eq_right hoffset, Nat.min_self]

/-- Behind a character of two bytes and behind the newline that follows it: the second position is in
the next line, at a smaller column. -/
theorem locate_place_lt_newline :
    String.Pos.Raw.IsValid "é\nx" ⟨2⟩ ∧ String.Pos.Raw.IsValid "é\nx" ⟨3⟩ ∧ 2 < 3 ∧
      Position.locate "é\nx" 2 = ⟨2, 1, 2⟩ ∧ Position.locate "é\nx" 3 = ⟨3, 2, 1⟩ ∧
      (Position.locate "é\nx" 2).place < (Position.locate "é\nx" 3).place ∧
      Position.locate "é\nx" 9 = Position.locate "é\nx" 4 := by
  obtain ⟨hplace, horder, hpast⟩ := locate_place_lt "é\nx"
  have hletter : String.Pos.Raw.IsValid "é\nx" ⟨2⟩ := by decide
  have hnewline : String.Pos.Raw.IsValid "é\nx" ⟨3⟩ := by decide
  exact ⟨hletter, hnewline, by decide, hplace "é" "\nx" rfl, hplace "é\n" "x" rfl,
    horder 2 3 hletter hnewline (by decide), hpast 9 (by decide)⟩

end Retarget
