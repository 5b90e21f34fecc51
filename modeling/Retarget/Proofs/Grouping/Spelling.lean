import Retarget.Proofs.Grouping.RoundTrip
import Retarget.Proofs.Numeral

set_option autoImplicit false

/-!
# Spellings

The spelling of a language as data: the texts of its operators, brackets and separators, the words
that may stand before a quoted constant, and the shape of quoted constants. Names, numbers, calls and
member reads are spelled the same way in all languages.

## Main definitions

* `Retarget.Spelling` — the data, and `Spelling.grammar`.
* `Retarget.Spelling.Clear` — none of the texts hides another one.

## Main results

* `Retarget.Spelling.Clear.lawful` — a clear spelling gives a lawful grammar.
* `Retarget.Spelling.Clear.isLeaf_word`, `isLeaf_numeral`, `isLeaf_quoted` — names and constants.
* `Retarget.Spelling.Clear.isContinuation`, `isMember`, `isApplied`, `isPiece` — what can stand
  behind an operand.
-/

namespace Retarget

open Grammar

/-! ## Texts at the start of a text -/

/-- What stands behind a text at the start of another one. -/
def behind? : List Char → List Char → Option (List Char)
  | [], s => some s
  | _ :: _, [] => none
  | c :: cs, d :: ds => if c = d then behind? cs ds else none

/-- The first entry of a table whose text starts another one, and what stands behind it. -/
def firstBehind? {β : Type} (table : List (String × β)) (s : List Char) :
    Option ((String × β) × List Char) :=
  table.findSome? fun e => (behind? e.1.toList s).map (e, ·)

/-- Neither of two texts starts the other one. -/
def apart (a b : String) : Bool := !a.toList.isPrefixOf b.toList && !b.toList.isPrefixOf a.toList

/-- A text is found at the start of itself and what follows it. -/
lemma behind?_append (a s : List Char) : behind? a (a ++ s) = some s := by
  induction a with
  | nil => rfl
  | cons c cs ih => simpa [behind?] using ih

/-- What is found at the start of a text is followed by what is found behind it. -/
lemma eq_append_of_behind? {a s rest : List Char} (h : behind? a s = some rest) :
    s = a ++ rest := by
  fun_induction behind? with
  | case1 s => simpa using h
  | case2 => cases h
  | case3 cs d ds ih => simpa using ih h
  | case4 c cs d ds hne => cases h

/-- A text does not start with one that is apart from its beginning. -/
lemma behind?_eq_none_of_apart {a b : String} (h : apart a b = true) (s : List Char) :
    behind? a.toList (b.toList ++ s) = none := by
  by_contra hsome
  obtain ⟨rest, hrest⟩ := Option.ne_none_iff_exists'.mp hsome
  simp only [apart, Bool.and_eq_true, Bool.not_eq_true', Bool.eq_false_iff, ne_eq,
    List.isPrefixOf_iff_prefix] at h
  rcases List.prefix_or_prefix_of_prefix ⟨rest, (eq_append_of_behind? hrest).symm⟩
      (List.prefix_append b.toList s) with hab | hba
  · exact h.1 hab
  · exact h.2 hba

/-- A word is not hidden by a text that goes on beyond words and has another word in front. -/
lemma behind?_eq_none_of_word {p : Char → Bool} {text word rest : List Char}
    (hword : ∀ c ∈ word, p c = true) (hrest : HeadFails p rest) (hhead : text.takeWhile p ≠ word)
    (hany : text.any (!p ·) = true) : behind? text (word ++ rest) = none := by
  by_contra hsome
  obtain ⟨s, hbehind⟩ := Option.ne_none_iff_exists'.mp hsome
  have heq := congrArg (List.takeWhile p) (eq_append_of_behind? hbehind)
  rw [takeWhile_append_of_headFails hword hrest, List.takeWhile_append] at heq
  have hlen : (text.takeWhile p).length ≠ text.length := by
    intro hlen
    obtain ⟨c, hc, hpc⟩ := List.any_eq_true.mp hany
    have hwhole : text.takeWhile p = text := (List.takeWhile_prefix p).eq_of_length hlen
    have hall := List.all_eq_true.mp (List.all_takeWhile (p := p) (l := text)) c
      (hwhole.symm ▸ hc)
    simp [hall] at hpc
  rw [if_neg hlen] at heq
  exact hhead heq.symm

section Tables

variable {β : Type} {table : List (String × β)}

/-- No entry starts a text that all of them are apart from. -/
lemma firstBehind?_eq_none {text : String} (h : ∀ e ∈ table, apart e.1 text = true)
    (s : List Char) : firstBehind? table (text.toList ++ s) = none := by
  refine List.findSome?_eq_none_iff.mpr fun e he => ?_
  rw [behind?_eq_none_of_apart (h e he)]
  rfl

/-- Of entries that are apart from each other, the one that a text starts with is found. -/
lemma firstBehind?_of_mem (h : table.Pairwise fun a b => apart a.1 b.1 = true) {e : String × β}
    (he : e ∈ table) (s : List Char) : firstBehind? table (e.1.toList ++ s) = some (e, s) := by
  induction table with
  | nil => cases he
  | cons x xs ih =>
    obtain ⟨hx, hxs⟩ := List.pairwise_cons.mp h
    rw [firstBehind?, List.findSome?_cons]
    rcases List.mem_cons.mp he with rfl | he
    · rw [behind?_append]
      rfl
    · rw [behind?_eq_none_of_apart (hx e he)]
      exact ih hxs he

end Tables

/-! ## Spellings -/

/-- A character that a name can start with. -/
def Grammar.isNameStart (c : Char) : Bool := c.isAlpha || c == '_' || c == '$'

/-- A character that a name can go on with. -/
def Grammar.isNamePart (c : Char) : Bool := c.isAlphanum || c == '_' || c == '$'

/-- A text that is a name. -/
def Grammar.isWord (text : String) : Bool :=
  match text.toList with
  | [] => false
  | c :: cs => isNameStart c && cs.all isNamePart

/-- The spelling of a language: the texts of prefix operators with their keys, of what continues an
operand, of openings other than calls, and of what stands behind an expression in brackets; the
methods that are called without arguments; the words that may stand before a quoted constant; and
quoted constants. -/
structure Spelling where
  table : PrecedenceTable
  prefixes : List (String × String)
  continuations : List (String × Continuation)
  openings : List (String × Bracket)
  pieces : Bracket → List (String × Piece)
  nullary : List String := []
  typed : List String := []
  quoted : Scan

namespace Spelling

variable (w : Spelling)

/-- A name, a call of one, or a constant with a word before it. -/
def word (s : List Char) : Option (Start × List Char) :=
  let taken := s.takeWhile isNamePart
  let rest := s.dropWhile isNamePart
  let name := String.ofList taken
  if name ∈ w.typed then
    match rest with
    | ' ' :: rest => (w.quoted rest).map fun p => (.leaf (name ++ " " ++ String.ofList p.1), p.2)
    | _ => none
  else
    match rest with
    | '(' :: rest => some (.opening (name ++ "(") .round, rest)
    | _ => some (.leaf name, rest)

/-- A number, a name or a quoted constant. -/
def atom : List Char → Option (Start × List Char)
  | [] => none
  | c :: cs =>
    if c.isDigit then (Lexer.numeral (c :: cs)).map fun p => (.leaf (String.ofList p.1), p.2)
    else if isNameStart c then w.word (c :: cs)
    else (w.quoted (c :: cs)).map fun p => (.leaf (String.ofList p.1), p.2)

/-- What an expression starts with. -/
def start? (s : List Char) : Option (Start × List Char) :=
  match firstBehind? w.prefixes s with
  | some (e, rest) => some (.prefixed e.2, rest)
  | none =>
    match firstBehind? w.openings s with
    | some (e, rest) => some (.opening e.1 e.2, rest)
    | none => w.atom s

/-- A member read or a method call behind its mark. -/
def memberBehind (mark : String) (s : List Char) : Option (Continuation × List Char) :=
  let name := mark ++ String.ofList (s.takeWhile isNamePart)
  match s.dropWhile isNamePart with
  | '(' :: rest =>
    if name ∈ w.nullary then (behind? [')'] rest).map (.member (name ++ "()"), ·)
    else some (.applied (name ++ "(") .round, rest)
  | rest => some (.member name, rest)

/-- A member read or a method call. -/
def memberRead : List Char → Option (Continuation × List Char)
  | '.' :: s => w.memberBehind "." s
  | ':' :: ':' :: s => w.memberBehind "::" s
  | _ => none

/-- What an operand goes on with. -/
def continuation? (s : List Char) : Option (Continuation × List Char) :=
  match firstBehind? w.continuations s with
  | some (e, rest) => some (e.2, rest)
  | none => w.memberRead s

/-- The grammar of a spelling. -/
def grammar : Grammar where
  table := w.table
  spelling key := ((w.prefixes.find? fun e => e.2 == key).map Prod.fst).getD ""
  start? := w.start?
  continuation? := w.continuation?
  piece? bracket s := (firstBehind? (w.pieces bracket) s).map fun (e, rest) => (e.2, rest)
  colon? := behind? " : ".toList

/-! ## Clear spellings -/

/-- The texts that an expression can start with, calls, names and constants apart. -/
def headTexts : List String := w.prefixes.map Prod.fst ++ w.openings.map Prod.fst

/-- The characters that a text behind a name or a constant starts with, where it is no member. -/
def enders : List Char := [' ', ')', ']', ',', '[']

/-- A text that a name or a constant can stand before, and that is no member. -/
def endsOperand (text : String) : Bool := text.toList.head?.any (· ∈ enders)

/-- A text that neither a number nor a quoted constant nor a name starts with. -/
def isHead (text : String) : Bool :=
  (text.toList.head?.all fun c => !c.isDigit && c ∉ ['\x27', '\x22']) &&
    text.toList.any fun c => !isNamePart c

/-- No text at the start of an expression starts with the word. -/
def isFree (text : String) : Bool :=
  isWord text && w.headTexts.all fun t => t.toList.takeWhile isNamePart != text.toList

/-- A name that can stand for itself. -/
def isName (text : String) : Bool := w.isFree text && text ∉ w.typed

/-- None of the texts of a spelling hides another one, and the table has the laws of a precedence
table. -/
structure Clear : Prop where
  heads : w.headTexts.Pairwise fun a b => apart a b = true
  headStart : ∀ text ∈ w.headTexts, isHead text = true
  continuations : (w.continuations.map Prod.fst).Pairwise fun a b => apart a b = true
  continuationStart : ∀ e ∈ w.continuations, endsOperand e.1 = true
  pieces (bracket : Bracket) : ((w.pieces bracket).map Prod.fst).Pairwise fun a b =>
    apart a b = true
  pieceStart (bracket : Bracket) : ∀ e ∈ w.pieces bracket, endsOperand e.1 = true
  pieceApart (bracket : Bracket) : ∀ e ∈ w.pieces bracket, ∀ e' ∈ w.continuations,
    apart e'.1 e.1 = true
  colonApart : ∀ e ∈ w.continuations, apart e.1 " : " = true
  paren : ("(", Bracket.round) ∈ w.openings
  closing : (")", Piece.closing ")") ∈ w.pieces .round
  comma : (", ", Piece.separator ", ") ∈ w.pieces .round
  member : w.table.get? memberOp = some (memberStrength, .left)
  bounded : ∀ e ∈ w.table, e.1 ≠ memberOp → e.2.1 < memberStrength
  uniform : ∀ e ∈ w.table, ∀ e' ∈ w.table, e.2.1 = e'.2.1 → (e.2.2 = .left ↔ e'.2.2 = .left)

end Spelling

/-- An operator with an entry is in the table. -/
lemma PrecedenceTable.mem_of_get? {table : PrecedenceTable} {op : String} {entry : Nat × Assoc}
    (h : table.get? op = some entry) : (op, entry) ∈ table := by
  obtain ⟨before, after, heq, -⟩ := List.lookup_eq_some_iff.mp h
  rw [heq]
  simp

/-- Where a name or a constant can end, no character of a name stands. -/
lemma Grammar.Ends.headFails_isNamePart {s : List Char} (h : Ends s) :
    HeadFails isNamePart s := by
  intro c hc
  cases s with
  | nil => cases hc
  | cons d ds =>
    cases hc
    unfold Ends at h
    split at h
    · contradiction
    · rename_i heq
      cases heq
      rfl
    · rename_i heq
      cases heq
      simp only [List.mem_cons, List.not_mem_nil, or_false] at h
      rcases h with rfl | rfl | rfl | rfl | rfl | rfl <;> rfl

/-- What can start a name can stand in it. -/
lemma Grammar.isNamePart_of_isNameStart {c : Char} (h : isNameStart c = true) :
    isNamePart c = true := by
  simp only [isNameStart, isNamePart, Char.isAlphanum, Bool.or_eq_true] at h ⊢
  rcases h with (h | h) | h
  · exact .inl (.inl (.inl h))
  · exact .inl (.inr h)
  · exact .inr h

/-- A letter, an underscore or a dollar sign is no digit. -/
lemma Grammar.isDigit_of_isNameStart {c : Char} (h : isNameStart c = true) :
    c.isDigit = false := by
  simp only [isNameStart, Bool.or_eq_true, beq_iff_eq] at h
  by_contra hdigit
  simp only [Char.isDigit, Bool.not_eq_false, Bool.and_eq_true, decide_eq_true_eq,
    ge_iff_le] at hdigit
  have hbelow := UInt32.le_iff_toNat_le.mp hdigit.2
  rcases h with (h | rfl) | rfl
  · change (decide ('A'.val ≤ c.val ∧ c.val ≤ 'Z'.val) ||
      (decide ('a'.val ≤ c.val) && decide (c.val ≤ 'z'.val))) = true at h
    simp only [Bool.or_eq_true, Bool.and_eq_true, decide_eq_true_eq] at h
    rcases h with h | h <;> have := UInt32.le_iff_toNat_le.mp h.1 <;> simp at * <;> omega
  · exact absurd hdigit (by decide)
  · exact absurd hdigit (by decide)

/-- Where a name or a constant can end, a numeral ends. -/
lemma Grammar.Ends.endsNumeral {s : List Char} (h : Ends s) : EndsNumeral s := by
  have hname := h.headFails_isNamePart
  refine ⟨fun c hc => ?_, fun c hc => ?_, ?_⟩
  · have := hname c hc
    simp_all [isNamePart, Char.isAlphanum]
  · by_contra hmark
    simp only [Lexer.isExponentMark, Bool.not_eq_false, Bool.or_eq_true, beq_iff_eq] at hmark
    have := hname c hc
    rcases hmark with rfl | rfl <;> exact absurd this (by decide)
  · rintro cs rfl c hc
    cases cs with
    | nil => cases hc
    | cons d ds =>
      cases hc
      refine isDigit_of_isNameStart ?_
      simpa [Ends, isNameStart, or_assoc] using h

/-! ## What clear spellings tell apart -/

namespace Spelling.Clear

variable {w : Spelling} (h : w.Clear)

include h

/-- No two prefix operators hide each other. -/
lemma prefixes_pairwise : w.prefixes.Pairwise fun a b => apart a.1 b.1 = true :=
  List.pairwise_map.mp (List.pairwise_append.mp h.heads).1

/-- No two openings hide each other. -/
lemma openings_pairwise : w.openings.Pairwise fun a b => apart a.1 b.1 = true :=
  List.pairwise_map.mp (List.pairwise_append.mp h.heads).2.1

/-- A prefix operator in front of its operand. -/
lemma start?_prefixed {e : String × String} (he : e ∈ w.prefixes) (rest : List Char) :
    w.start? (e.1.toList ++ rest) = some (.prefixed e.2, rest) := by
  rw [start?, firstBehind?_of_mem h.prefixes_pairwise he]

/-- An opening of the table is read as it is. -/
lemma isOpening {e : String × Bracket} (he : e ∈ w.openings) : w.grammar.IsOpening e.1 e.2 := by
  intro rest
  have hnone : firstBehind? w.prefixes (e.1.toList ++ rest) = none :=
    firstBehind?_eq_none (fun p hp => (List.pairwise_append.mp h.heads).2.2 _
      (List.mem_map_of_mem hp) _ (List.mem_map_of_mem he)) rest
  change w.start? (e.1.toList ++ rest) = _
  rw [start?, hnone, firstBehind?_of_mem h.openings_pairwise he]

/-- A continuation of the table. -/
lemma continuation?_of_mem {e : String × Continuation} (he : e ∈ w.continuations)
    (rest : List Char) : w.continuation? (e.1.toList ++ rest) = some (e.2, rest) := by
  rw [continuation?, firstBehind?_of_mem (List.pairwise_map.mp h.continuations) he]

end Spelling.Clear

/-- A text with a character that ends an operand in front is where an operand can end. -/
lemma Spelling.ends_of_endsOperand {text : String} (ht : Spelling.endsOperand text = true)
    (rest : List Char) : Ends (text.toList ++ rest) ∧
      ∀ w : Spelling, w.memberRead (text.toList ++ rest) = none := by
  cases hl : text.toList with
  | nil => simp [Spelling.endsOperand, hl] at ht
  | cons c cs =>
    have hc : c ∈ [' ', ')', ']', ',', '['] := by
      simpa [Spelling.endsOperand, Spelling.enders, hl] using ht
    simp only [List.mem_cons, List.not_mem_nil, or_false] at hc
    refine ⟨?_, fun w => ?_⟩ <;> rcases hc with rfl | rfl | rfl | rfl | rfl <;>
      simp [Ends, Spelling.memberRead]

/-- What none of the texts at the start of an expression starts is a constant, a name or a call. -/
lemma Spelling.start?_eq_atom {w : Spelling} {s : List Char} (hs : ∀ text ∈ w.headTexts, behind? text.toList s = none) :
    w.start? s = w.atom s := by
  have hprefixes : firstBehind? w.prefixes s = none :=
    List.findSome?_eq_none_iff.mpr fun e he => by
      rw [hs e.1 (List.mem_append_left _ (List.mem_map_of_mem he)), Option.map_none]
  have hopenings : firstBehind? w.openings s = none :=
    List.findSome?_eq_none_iff.mpr fun e he => by
      rw [hs e.1 (List.mem_append_right _ (List.mem_map_of_mem he)), Option.map_none]
  rw [Spelling.start?, hprefixes, hopenings]

/-- No operand goes on with a text that is apart from all continuations and no member. -/
lemma Spelling.continuation?_eq_none {w : Spelling} {text : String}
    (hapart : ∀ e ∈ w.continuations, apart e.1 text = true)
    (ht : Spelling.endsOperand text = true) (rest : List Char) :
    w.continuation? (text.toList ++ rest) = none := by
  rw [Spelling.continuation?, firstBehind?_eq_none hapart]
  exact (Spelling.ends_of_endsOperand ht rest).2 w

namespace Spelling.Clear

variable {w : Spelling} (h : w.Clear)

include h

/-- A continuation of the table whose operator has a strength. -/
lemma isContinuation {e : String × Continuation} (he : e ∈ w.continuations)
    (hkey : (w.table.get? e.2.key).isSome = true) : w.grammar.IsContinuation e.1 e.2 :=
  ⟨Option.isSome_iff_exists.mp hkey, fun rest => ⟨h.continuation?_of_mem he rest,
    (ends_of_endsOperand (h.continuationStart e he) rest).1⟩⟩

/-- A text of the table behind an expression in brackets. -/
lemma isPiece {bracket : Bracket} {e : String × Piece} (he : e ∈ w.pieces bracket) :
    w.grammar.IsPiece bracket e.1 e.2 := by
  intro rest
  refine ⟨?_, continuation?_eq_none (h.pieceApart bracket e he) (h.pieceStart bracket e he) rest,
    (ends_of_endsOperand (h.pieceStart bracket e he) rest).1⟩
  change (firstBehind? (w.pieces bracket) (e.1.toList ++ rest)).map _ = _
  rw [firstBehind?_of_mem (List.pairwise_map.mp (h.pieces bracket)) he]
  rfl

/-- The conditional of a table that has one. -/
lemma hasConditional (he : (" ? ", Continuation.conditional) ∈ w.continuations)
    (hkey : ∃ own, w.table.get? "?:" = some (own, .right)) : w.grammar.HasConditional := by
  obtain ⟨own, hown⟩ := hkey
  refine ⟨⟨own, hown⟩, h.isContinuation he (by rw [Continuation.key, hown]; rfl), fun rest => ?_⟩
  exact ⟨behind?_append _ _, continuation?_eq_none h.colonApart (by decide) rest,
    (ends_of_endsOperand (by decide) rest).1⟩

/-- A clear spelling gives a lawful grammar. -/
theorem lawful : w.grammar.Lawful where
  start_paren rest := h.isOpening h.paren rest
  piece_paren rest := (h.isPiece h.closing rest).1
  continuation_paren rest := (h.isPiece h.closing rest).2.1
  continuation_nil := by
    have hnone : firstBehind? w.continuations [] = none := by
      refine List.findSome?_eq_none_iff.mpr fun e he => ?_
      have hstart := h.continuationStart e he
      cases hl : e.1.toList with
      | nil => simp [endsOperand, hl] at hstart
      | cons c cs => rfl
    change w.continuation? [] = none
    rw [continuation?, hnone]
    rfl
  member := h.member
  bounded hget hne := h.bounded _ (PrecedenceTable.mem_of_get? hget) hne
  uniform hget hget' heq :=
    h.uniform _ (PrecedenceTable.mem_of_get? hget) _ (PrecedenceTable.mem_of_get? hget') heq

end Spelling.Clear

/-! ## Names, calls and constants -/

/-- A name is a nonempty row of characters of names, the first of which can start one. -/
lemma Grammar.exists_cons_of_isWord {text : String} (h : isWord text = true) :
    ∃ c cs, text.toList = c :: cs ∧ isNameStart c = true ∧ ∀ d ∈ c :: cs, isNamePart d = true := by
  unfold isWord at h
  split at h
  · cases h
  · rename_i c cs heq
    simp only [Bool.and_eq_true, List.all_eq_true] at h
    refine ⟨c, cs, heq, h.1, fun d hd => ?_⟩
    rcases List.mem_cons.mp hd with rfl | hd
    · exact isNamePart_of_isNameStart h.1
    · exact h.2 d hd

/-- The characters of a name are characters of names. -/
lemma Grammar.isNamePart_of_isWord {text : String} (h : isWord text = true) :
    ∀ c ∈ text.toList, isNamePart c = true := by
  obtain ⟨c, cs, heq, -, hall⟩ := exists_cons_of_isWord h
  rwa [heq]

/-- A name ends where no character of names stands. -/
lemma Grammar.takeWhile_isNamePart {text : String} (ht : isWord text = true) {rest : List Char}
    (hrest : HeadFails isNamePart rest) :
    (text.toList ++ rest).takeWhile isNamePart = text.toList :=
  takeWhile_append_of_headFails (isNamePart_of_isWord ht) hrest

/-- What stands behind a name. -/
lemma Grammar.dropWhile_isNamePart {text : String} (ht : isWord text = true) {rest : List Char}
    (hrest : HeadFails isNamePart rest) : (text.toList ++ rest).dropWhile isNamePart = rest :=
  dropWhile_append_of_headFails (isNamePart_of_isWord ht) hrest

/-- Behind a constant or a name there is no parenthesis. -/
lemma Grammar.Ends.ne_paren {s : List Char} (h : Ends s) (rest : List Char) : s ≠ '(' :: rest := by
  rintro rfl
  simp [Ends] at h

/-- A word that neither starts an expression nor stands before quoted constants is a name. -/
lemma Spelling.isName_of_isWord {w : Spelling} {text : String} (hword : isWord text = true)
    (hheads : ∀ t ∈ w.headTexts, t.toList.takeWhile isNamePart ≠ text.toList)
    (htyped : text ∉ w.typed) : w.isName text = true := by
  simp only [Spelling.isName, Spelling.isFree, hword, Bool.true_and, Bool.and_eq_true,
    List.all_eq_true, bne_iff_ne, decide_eq_true_eq]
  exact ⟨hheads, htyped⟩

namespace Spelling.Clear

variable {w : Spelling} (h : w.Clear)

include h

/-- A word that no text at the start of an expression starts with is read as a word. -/
lemma start?_word {text : String} (ht : w.isFree text = true) {rest : List Char}
    (hrest : HeadFails isNamePart rest) :
    w.start? (text.toList ++ rest) = w.word (text.toList ++ rest) := by
  simp only [isFree, Bool.and_eq_true, List.all_eq_true, bne_iff_ne] at ht
  obtain ⟨c, cs, heq, hstart, hall⟩ := exists_cons_of_isWord ht.1
  rw [start?_eq_atom fun t hmem => ?_]
  · rw [heq, List.cons_append, atom, if_neg, if_pos hstart]
    rw [isDigit_of_isNameStart hstart]
    decide
  · have hhead := h.headStart t hmem
    simp only [isHead, Bool.and_eq_true] at hhead
    exact behind?_eq_none_of_word (isNamePart_of_isWord ht.1) hrest (ht.2 t hmem) hhead.2

/-- No text at the start of an expression starts with a digit or a quote. -/
lemma behind?_eq_none_of_head {text : String} (ht : text ∈ w.headTexts) {s : List Char} {c : Char}
    (hs : s.head? = some c) (hc : c.isDigit = true ∨ c ∈ ['\x27', '\x22']) :
    behind? text.toList s = none := by
  have hhead := h.headStart text ht
  simp only [isHead, Bool.and_eq_true] at hhead
  cases s with
  | nil => cases hs
  | cons d ds =>
    cases hs
    cases hl : text.toList with
    | nil => simp [hl] at hhead
    | cons e es =>
      rw [behind?, if_neg]
      rintro rfl
      simp only [hl, List.head?_cons, Option.all_some, Bool.and_eq_true, Bool.not_eq_true',
        decide_eq_true_eq] at hhead
      rcases hc with hc | hc
      · rw [hc] at hhead
        exact absurd hhead.1.1 (by decide)
      · exact hhead.1.2 hc

/-- A name is a leaf. -/
lemma isLeaf_name {text : String} (ht : w.isName text = true) : w.grammar.IsLeaf text := by
  intro rest hrest
  simp only [isName, Bool.and_eq_true, decide_eq_true_eq] at ht
  have hword : isWord text = true := by
    have := ht.1
    simp_all [isFree]
  change w.start? _ = _
  rw [h.start?_word ht.1 hrest.headFails_isNamePart, word,
    takeWhile_isNamePart hword hrest.headFails_isNamePart,
    dropWhile_isNamePart hword hrest.headFails_isNamePart]
  simp only [String.ofList_toList, if_neg ht.2]
  split
  · exact absurd rfl (hrest.ne_paren _)
  · rfl

/-- A name with a parenthesis behind it opens a call. -/
lemma isOpening_call (text : String) (ht : w.isName text = true) :
    w.grammar.IsOpening (text ++ "(") .round := by
  intro rest
  simp only [isName, Bool.and_eq_true, decide_eq_true_eq] at ht
  have hword : isWord text = true := by
    have := ht.1
    simp_all [isFree]
  have hrest : HeadFails isNamePart ('(' :: rest) := headFails_cons rfl
  have hsplit : (text ++ "(").toList ++ rest = text.toList ++ '(' :: rest := by simp
  change w.start? _ = _
  rw [hsplit, h.start?_word ht.1 hrest, word, takeWhile_isNamePart hword hrest,
    dropWhile_isNamePart hword hrest]
  simp only [String.ofList_toList, if_neg ht.2]

/-- A numeral is a leaf. -/
lemma isLeaf_numeral {text : String} (ht : IsNumeral text.toList) : w.grammar.IsLeaf text := by
  intro rest hrest
  have hread := numeral_append ht hrest.endsNumeral
  obtain ⟨whole, fraction, exponent, heq, ⟨hne, hdigits⟩, -, -⟩ := ht
  obtain ⟨c, cs, rfl⟩ := List.exists_cons_of_ne_nil hne
  have hc := hdigits c (by simp)
  have hcons : ∃ tail, text.toList ++ rest = c :: tail := ⟨_, by rw [heq]; rfl⟩
  obtain ⟨tail, htail⟩ := hcons
  change w.start? _ = _
  rw [start?_eq_atom fun t hmem => ?_]
  · rw [htail] at hread ⊢
    rw [atom, if_pos hc, hread, Option.map_some, String.ofList_toList]
  · exact h.behind?_eq_none_of_head hmem (by rw [htail]; rfl) (.inl hc)

/-- A quoted constant is a leaf. -/
lemma isLeaf_quoted {text : String} {c : Char} (hhead : text.toList.head? = some c)
    (hc : c ∈ ['\x27', '\x22'])
    (ht : ∀ rest, Ends rest → w.quoted (text.toList ++ rest) = some (text.toList, rest)) :
    w.grammar.IsLeaf text := by
  intro rest hrest
  have hcons : ∃ tail, text.toList ++ rest = c :: tail := by
    cases hl : text.toList with
    | nil => simp [hl] at hhead
    | cons d ds =>
      rw [hl] at hhead
      cases hhead
      exact ⟨ds ++ rest, rfl⟩
  obtain ⟨tail, htail⟩ := hcons
  have hkind : c.isDigit = false ∧ isNameStart c = false := by
    simp only [List.mem_cons, List.not_mem_nil, or_false] at hc
    rcases hc with rfl | rfl <;> decide
  have hread := ht rest hrest
  change w.start? _ = _
  rw [start?_eq_atom fun t hmem => ?_]
  · rw [htail] at hread ⊢
    simp only [atom, hkind.1, hkind.2, Bool.false_eq_true, if_false, hread, Option.map_some,
      String.ofList_toList]
  · exact h.behind?_eq_none_of_head hmem (by rw [htail]; rfl) (.inr hc)

/-- A quoted constant with a word before it is a leaf. -/
lemma isLeaf_typed (text body : String) (htext : text ∈ w.typed) (hfree : w.isFree text = true)
    (hbody : ∀ rest, Ends rest → w.quoted (body.toList ++ rest) = some (body.toList, rest)) :
    w.grammar.IsLeaf (text ++ " " ++ body) := by
  intro rest hrest
  have hword : isWord text = true := by simp_all [isFree]
  have hblank : HeadFails isNamePart (' ' :: (body.toList ++ rest)) := headFails_cons rfl
  have hsplit : (text ++ " " ++ body).toList ++ rest = text.toList ++ ' ' :: (body.toList ++ rest) :=
    by simp
  change w.start? _ = _
  rw [hsplit, h.start?_word hfree hblank, word, takeWhile_isNamePart hword hblank,
    dropWhile_isNamePart hword hblank]
  simp only [String.ofList_toList, if_pos htext, hbody rest hrest, Option.map_some]

/-! ## Members -/

/-- No continuation of the table starts with a point or a colon. -/
lemma firstBehind?_member {c : Char} (hc : c ∉ enders) (s : List Char) :
    firstBehind? w.continuations (c :: s) = none := by
  refine List.findSome?_eq_none_iff.mpr fun e he => ?_
  have hstart := h.continuationStart e he
  cases hl : e.1.toList with
  | nil => simp [endsOperand, hl] at hstart
  | cons d ds =>
    have hd : d ∈ enders := by simpa [endsOperand, hl] using hstart
    rw [behind?, if_neg, Option.map_none]
    rintro rfl
    exact hc hd

/-- A member behind its mark. -/
lemma continuation?_member {mark name : String} (hmark : mark = "." ∨ mark = "::")
    (hname : isWord name = true) (rest : List Char) :
    w.continuation? ((mark ++ name).toList ++ rest) = w.memberBehind mark (name.toList ++ rest) ∧
      Ends ((mark ++ name).toList ++ rest) := by
  obtain ⟨c, cs, heq, hstart, -⟩ := exists_cons_of_isWord hname
  rcases hmark with rfl | rfl
  · have hsplit : ("." ++ name).toList ++ rest = '.' :: (name.toList ++ rest) := by simp
    rw [hsplit, continuation?, h.firstBehind?_member (by decide)]
    refine ⟨rfl, ?_⟩
    rw [heq]
    simpa [Ends, isNameStart, or_assoc] using hstart
  · have hsplit : ("::" ++ name).toList ++ rest = ':' :: ':' :: (name.toList ++ rest) := by simp
    rw [hsplit, continuation?, h.firstBehind?_member (by decide)]
    exact ⟨rfl, by simp [Ends]⟩

/-- A mark and a name are a member. -/
lemma isMember (mark name : String) (hmark : mark = "." ∨ mark = "::")
    (hname : isWord name = true) : w.grammar.IsMember (mark ++ name) := by
  intro rest hrest
  obtain ⟨hread, hends⟩ := h.continuation?_member hmark hname rest
  refine ⟨?_, hends⟩
  change w.continuation? _ = _
  rw [hread, memberBehind, takeWhile_isNamePart hname hrest.headFails_isNamePart,
    dropWhile_isNamePart hname hrest.headFails_isNamePart]
  simp only [String.ofList_toList]
  split
  · exact absurd rfl (hrest.ne_paren _)
  · rfl

/-- A method that is called without arguments is a member. -/
lemma isMember_nullary (mark name : String) (hmark : mark = "." ∨ mark = "::")
    (hname : isWord name = true) (hnullary : mark ++ name ∈ w.nullary) :
    w.grammar.IsMember (mark ++ name ++ "()") := by
  intro rest _
  have hsplit : (mark ++ name ++ "()").toList ++ rest =
      (mark ++ name).toList ++ '(' :: ')' :: rest := by simp
  have hparen : HeadFails isNamePart ('(' :: ')' :: rest) := headFails_cons rfl
  obtain ⟨hread, hends⟩ := h.continuation?_member hmark hname ('(' :: ')' :: rest)
  rw [hsplit]
  refine ⟨?_, hends⟩
  change w.continuation? _ = _
  rw [hread, memberBehind, takeWhile_isNamePart hname hparen, dropWhile_isNamePart hname hparen]
  simp only [String.ofList_toList, if_pos hnullary]
  rfl

/-- A method that is called with arguments. -/
lemma isContinuation_applied {mark name : String} (hmark : mark = "." ∨ mark = "::")
    (hname : isWord name = true) (hnullary : mark ++ name ∉ w.nullary) :
    w.grammar.IsContinuation (mark ++ name ++ "(") (.applied (mark ++ name ++ "(") .round) := by
  refine ⟨⟨_, h.member⟩, fun rest => ?_⟩
  have hsplit : (mark ++ name ++ "(").toList ++ rest = (mark ++ name).toList ++ '(' :: rest := by
    simp
  have hparen : HeadFails isNamePart ('(' :: rest) := headFails_cons rfl
  obtain ⟨hread, hends⟩ := h.continuation?_member hmark hname ('(' :: rest)
  rw [hsplit]
  refine ⟨?_, hends⟩
  change w.continuation? _ = _
  rw [hread, memberBehind, takeWhile_isNamePart hname hparen, dropWhile_isNamePart hname hparen]
  simp only [String.ofList_toList, if_neg hnullary]

end Spelling.Clear

end Retarget
