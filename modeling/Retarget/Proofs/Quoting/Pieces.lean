import Retarget.Proofs.Letters
import Retarget.Text.Scan
import Mathlib.Data.List.Chain
import Mathlib.Data.List.Infix
import Mathlib.Data.List.Perm.Subperm
import Mathlib.Tactic.Common

set_option autoImplicit false

/-!
# Code as constants and signs

Code is scanned from left to right: a quote opens a constant, which ends where the rules of the
target say, and any other character is a sign. Code is sealed where the scan ends outside of
constants and the brackets among the signs match. Sealed codes with fixed text between them make up
sealed code again, and the scan finds each of them in it.

## Main definitions

* `Retarget.Quoting` — the rules of a target for quoted constants.
* `Retarget.Quoting.pieces?` — the scan.
* `Retarget.Quoting.Stretch` — a stretch of a row of pieces, with what stands around it.
* `Retarget.Quoting.IsSealed`, `Retarget.Quoting.Within` — sealed code, and one inside another.
* `Retarget.Quoting.Splits` — a code that stands between two others in a third one.
* `Retarget.Quoting.Carries` — sealed code in which other codes stand, apart from each other.
* `Retarget.Quoting.Part`, `Retarget.Quoting.fits` — codes and fixed text in a row, and the check
  that the text keeps the codes apart and closes its brackets.

## Main results

* `Retarget.Quoting.Spells.pieces?_eq` — the scan finds the pieces that a code is spelled with.
* `Retarget.Quoting.carries_of_fits` — codes and text that fit make up a code that carries them.
-/

namespace Retarget

namespace Quoting

/-- The characters that are quotes in some target. -/
def quoteMarks : List Char := ['\x27', '\x22', '\x60']

/-- A piece of scanned code. -/
inductive Piece
  /-- A character outside of constants. -/
  | sign (c : Char)
  /-- A constant between two marks, with the text that it denotes. -/
  | constant (mark : Char) (text : String)
deriving DecidableEq, Repr

/-- The piece is a character outside of constants. -/
def Piece.isSign : Piece → Bool
  | .sign _ => true
  | .constant _ _ => false

end Quoting

open Quoting

/-- The rules of a target for quoted constants: the quotes that open one, how a text is written as
one, where one ends, and which text it denotes. -/
structure Quoting where
  marks : List Char
  written : Char → String → List Char
  constant : Scan
  denoted : List Char → Option String

namespace Quoting

/-! ## Scanning -/

/-- The pieces of a code, if every constant in it ends and denotes a text. The first `skip`
characters are passed over, since they belong to a constant that has been found. -/
def pieces? (q : Quoting) : Nat → List Char → Option (List Piece)
  | _, [] => some []
  | skip + 1, _ :: cs => q.pieces? skip cs
  | 0, c :: cs =>
    if c ∈ quoteMarks then
      match q.constant (c :: cs) with
      | none => none
      | some (taken, _) =>
        match q.denoted taken, q.pieces? (taken.length - 1) cs with
        | some text, some ps => some (.constant c text :: ps)
        | _, _ => none
    else (q.pieces? 0 cs).map (.sign c :: ·)

/-- The text does not go on with a quote. -/
def Clear (s : List Char) : Prop := ∀ c ∈ s.head?, c ∉ quoteMarks

/-- What is written as a constant is read as that constant, wherever no quote follows. -/
structure Lawful (q : Quoting) : Prop where
  marks {mark : Char} : mark ∈ q.marks → mark ∈ quoteMarks
  head {mark : Char} : mark ∈ q.marks → ∀ s, ∃ body, q.written mark s = mark :: body
  constant {mark : Char} {rest : List Char} : mark ∈ q.marks → Clear rest → ∀ s,
    q.constant (q.written mark s ++ rest) = some (q.written mark s, rest)
  denoted {mark : Char} : mark ∈ q.marks → ∀ s, q.denoted (q.written mark s) = some s

variable {q : Quoting}

/-- The characters that a piece is written with. -/
def render (q : Quoting) : Piece → List Char
  | .sign c => [c]
  | .constant mark text => q.written mark text

/-- A sign is no quote, and a constant stands between quotes of the target. -/
def Admits (q : Quoting) : Piece → Prop
  | .sign c => c ∉ quoteMarks
  | .constant mark _ => mark ∈ q.marks

instance (q : Quoting) : DecidablePred q.Admits
  | .sign c => inferInstanceAs (Decidable (c ∉ quoteMarks))
  | .constant mark _ => inferInstanceAs (Decidable (mark ∈ q.marks))

/-- Constants that stand side by side would run into each other. -/
def Apart (a b : Piece) : Prop := a.isSign = true ∨ b.isSign = true

instance : DecidableRel Apart := fun a b =>
  inferInstanceAs (Decidable (a.isSign = true ∨ b.isSign = true))

/-- The characters are the pieces, one written behind the other. -/
structure Spells (q : Quoting) (ps : List Piece) (s : List Char) : Prop where
  chars : s = ps.flatMap q.render
  admits : ∀ p ∈ ps, q.Admits p
  apart : ps.IsChain Apart

/-- Characters that belong to a constant that has been found are passed over. -/
lemma pieces?_skip (q : Quoting) (taken rest : List Char) :
    q.pieces? taken.length (taken ++ rest) = q.pieces? 0 rest := by
  induction taken with
  | nil => rfl
  | cons c cs ih => exact ih

/-- No quote comes first behind a constant. -/
lemma clear_of_isChain {p : Piece} {ps : List Piece} (hp : p.isSign = false)
    (hchain : (p :: ps).IsChain Apart) (hadmits : ∀ p ∈ ps, q.Admits p) :
    Clear (ps.flatMap q.render) := by
  cases ps with
  | nil => nofun
  | cons a ps =>
    have hsign : a.isSign = true := by
      have hapart : Apart p a := (List.isChain_cons_cons.mp hchain).1
      exact hapart.resolve_left (by simp [hp])
    cases a with
    | sign c =>
      rintro d ⟨⟩
      exact hadmits (.sign c) (by simp)
    | constant mark text => cases hsign

/-- The scan finds the pieces that a code is spelled with.

**Proof sketch.** By induction on the pieces. A sign is no quotation mark, so the scan takes it as
it is. A constant starts with one; its text is found by the law for constants, which needs that what
follows does not go on with it, and its characters are skipped. -/
theorem Spells.pieces?_eq (laws : q.Lawful) {ps : List Piece} {s : List Char}
    (h : q.Spells ps s) : q.pieces? 0 s = some ps := by
  obtain ⟨rfl, hadmits, hchain⟩ := h
  induction ps with
  | nil => rfl
  | cons p ps ih =>
    obtain ⟨hp, hmore⟩ := List.forall_mem_cons.mp hadmits
    have hrest := ih hmore hchain.tail
    rw [List.flatMap_cons]
    cases p with
    | sign c =>
      rw [render, List.singleton_append, pieces?, if_neg hp, hrest]
      rfl
    | constant mark text =>
      have hclear := clear_of_isChain rfl hchain hmore
      have hconstant := laws.constant hp hclear text
      obtain ⟨body, hbody⟩ := laws.head hp text
      have hskip : (q.written mark text).length - 1 = body.length := by simp [hbody]
      have hdenoted := laws.denoted hp text
      rw [render]
      rw [hbody] at hconstant hdenoted ⊢
      rw [List.cons_append] at hconstant ⊢
      rw [pieces?, if_pos (laws.marks hp), hconstant]
      simp only [hdenoted, List.length_cons, Nat.add_sub_cancel, pieces?_skip, hrest]

/-! ## Brackets -/

/-- The bracket that closes an opening one. -/
def closer? (c : Char) : Option Char :=
  if c = '(' then some ')'
  else if c = '[' then some ']'
  else if c = '\x7b' then some '\x7d'
  else none

/-- The brackets that are still to be closed, innermost first, behind one more character. -/
def nestSign (opened : List Char) (c : Char) : Option (List Char) :=
  match closer? c with
  | some closer => some (closer :: opened)
  | none =>
    if c ∈ [')', ']', '\x7d'] then
      match opened with
      | [] => none
      | d :: ds => if d = c then some ds else none
    else some opened

/-- The brackets that are still to be closed behind one more piece; those inside constants do not
count. -/
def nest (opened : List Char) : Piece → Option (List Char)
  | .sign c => nestSign opened c
  | .constant _ _ => some opened

/-- The brackets that are still to be closed behind a row of pieces, if all that close fit. -/
def nesting (opened : List Char) (ps : List Piece) : Option (List Char) := ps.foldlM nest opened

/-- The brackets among the signs match and are properly nested. -/
def Balanced (ps : List Piece) : Prop := nesting [] ps = some []

/-- The brackets behind two rows of pieces are those behind the second one, where those behind the
first one are open. -/
lemma nesting_append (opened : List Char) (ps qs : List Piece) :
    nesting opened (ps ++ qs) = (nesting opened ps).bind fun opened => nesting opened qs :=
  List.foldlM_append

/-- Brackets that are opened outside do not matter.

**Proof sketch.** By cases on the piece. Only a closing bracket looks at what is open, and then at
the innermost one, which the brackets outside do not change. -/
lemma nest_append {opened left : List Char} {p : Piece} (h : nest opened p = some left)
    (outer : List Char) : nest (opened ++ outer) p = some (left ++ outer) := by
  cases p with
  | constant mark text =>
    cases h
    rfl
  | sign c =>
    simp only [nest, nestSign] at h ⊢
    split at h
    · cases h
      rfl
    · split_ifs at h ⊢
      · cases opened with
        | nil => cases h
        | cons d ds =>
          simp only [List.cons_append] at h ⊢
          split_ifs at h ⊢
          cases h
          rfl
      · cases h
        rfl

/-- Brackets that are opened further outside do not matter for a row of pieces. -/
lemma nesting_outer {opened left : List Char} {ps : List Piece}
    (h : nesting opened ps = some left) (outer : List Char) :
    nesting (opened ++ outer) ps = some (left ++ outer) := by
  induction ps generalizing opened with
  | nil =>
    cases h
    rfl
  | cons p ps ih =>
    rw [nesting, List.foldlM_cons] at h ⊢
    obtain ⟨middle, hmiddle, h⟩ := Option.bind_eq_some_iff.mp h
    refine Option.bind_eq_some_iff.mpr ⟨middle ++ outer, nest_append hmiddle outer, ?_⟩
    exact ih h

/-- Pieces whose brackets match leave what is opened outside as it is. -/
lemma Balanced.nesting_eq {ps : List Piece} (h : Balanced ps) (opened : List Char) :
    nesting opened ps = some opened := by
  simpa using nesting_outer h opened

/-! ## Stretches of pieces -/

/-- A stretch of a row of pieces, with the pieces before and behind it. -/
structure Stretch where
  before : List Piece
  inside : List Piece
  after : List Piece

namespace Stretch

/-- The row that the stretch is part of. -/
def row (s : Stretch) : List Piece := s.before ++ s.inside ++ s.after

/-- The stretch inside of another one, as a stretch of the whole row. -/
def comp (outer inner : Stretch) : Stretch :=
  ⟨outer.before ++ inner.before, inner.inside, inner.after ++ outer.after⟩

/-- One of two stretches of a row ends where the other one starts or before. -/
def Apart (s t : Stretch) : Prop :=
  s.before.length + s.inside.length ≤ t.before.length ∨
    t.before.length + t.inside.length ≤ s.before.length

/-- Stretches are apart from each other. -/
lemma Apart.symm {s t : Stretch} (h : s.Apart t) : t.Apart s := Or.symm h

/-- The whole row as a stretch of itself. -/
def whole (ws : List Piece) : Stretch := ⟨[], ws, []⟩

/-- The whole row is the row of its stretch. -/
@[simp] lemma row_whole (ws : List Piece) : (whole ws).row = ws := by simp [row, whole]

/-- A stretch of the whole row is that stretch. -/
@[simp] lemma whole_comp (ws : List Piece) (s : Stretch) : (whole ws).comp s = s := by
  simp [comp, whole]

/-- Stretches inside of stretches, from the outside or from the inside. -/
lemma comp_assoc (s t u : Stretch) : (s.comp t).comp u = s.comp (t.comp u) := by simp [comp]

/-- A stretch of what is inside another one is a stretch of the whole row. -/
lemma row_comp {outer inner : Stretch} (h : inner.row = outer.inside) :
    (outer.comp inner).row = outer.row := by
  simp [comp, row, ← h]

/-- Stretches of what is inside of stretches that are apart are apart. -/
lemma Apart.comp {outer outer' inner inner' : Stretch} (h : outer.Apart outer')
    (hinner : inner.row = outer.inside) (hinner' : inner'.row = outer'.inside) :
    (outer.comp inner).Apart (outer'.comp inner') := by
  have hlength := congrArg List.length hinner
  have hlength' := congrArg List.length hinner'
  simp only [row, List.length_append] at hlength hlength'
  simp only [Apart, Stretch.comp, List.length_append] at h ⊢
  omega

/-- Stretches of one stretch that are apart are apart in the whole row. -/
lemma Apart.comp_left {s t : Stretch} (h : s.Apart t) (outer : Stretch) :
    (outer.comp s).Apart (outer.comp t) := by
  simp only [Apart, Stretch.comp, List.length_append] at h ⊢
  omega

end Stretch

/-! ## Sealed code -/

/-- The code is the pieces, and their brackets match. -/
structure Seals (q : Quoting) (ps : List Piece) (code : String) : Prop where
  spells : q.Spells ps code.toList
  balanced : Balanced ps

/-- Every constant of the code ends in it, and its brackets match. -/
def IsSealed (q : Quoting) (code : String) : Prop := ∃ ps, q.Seals ps code

/-- Both codes are sealed, and the scan of the outer one goes through the pieces of the inner one in a
row: the inner one stands there outside of constants. -/
def Within (q : Quoting) (inner outer : String) : Prop :=
  ∃ ps ws, q.Seals ps inner ∧ q.Seals ws outer ∧ ps <:+: ws

/-- Sealed code stands in itself. -/
lemma IsSealed.within {code : String} (h : q.IsSealed code) : q.Within code code := by
  obtain ⟨ps, hps⟩ := h
  exact ⟨ps, ps, hps, hps, List.infix_rfl⟩

/-- The pieces of a code are determined. -/
lemma Seals.unique (laws : q.Lawful) {ps qs : List Piece} {code : String} (hp : q.Seals ps code)
    (hq : q.Seals qs code) : ps = qs :=
  Option.some.inj ((hp.spells.pieces?_eq laws).symm.trans (hq.spells.pieces?_eq laws))

/-- What stands in a code that stands in a third one stands in that one. -/
lemma Within.trans (laws : q.Lawful) {a b c : String} (hab : q.Within a b) (hbc : q.Within b c) :
    q.Within a c := by
  obtain ⟨ps, ws, hps, hws, hin⟩ := hab
  obtain ⟨vs, us, hvs, hus, hout⟩ := hbc
  obtain rfl := hws.unique laws hvs
  exact ⟨ps, us, hps, hus, hin.trans hout⟩

/-- The first of two rows of pieces spells its own characters. -/
lemma Spells.left {ps qs : List Piece} {s : List Char} (h : q.Spells (ps ++ qs) s) :
    q.Spells ps (ps.flatMap q.render) :=
  ⟨rfl, fun p hp => h.admits p (List.mem_append_left qs hp), h.apart.left_of_append⟩

/-- The second of two rows of pieces spells its own characters. -/
lemma Spells.right {ps qs : List Piece} {s : List Char} (h : q.Spells (ps ++ qs) s) :
    q.Spells qs (qs.flatMap q.render) :=
  ⟨rfl, fun p hp => h.admits p (List.mem_append_right ps hp), h.apart.right_of_append⟩

/-- The code that a row of pieces spells. -/
def spelled (q : Quoting) (ps : List Piece) : String := String.ofList (ps.flatMap q.render)

/-- The outer code is the inner one between two others, and scanning it reads the three one after the
other: the inner code stands there outside of constants. -/
structure Splits (q : Quoting) (before inner after outer : String) : Prop where
  code : outer = before ++ inner ++ after
  scan : ∃ ps is qs, q.pieces? 0 outer.toList = some (ps ++ is ++ qs) ∧
    q.pieces? 0 before.toList = some ps ∧ q.pieces? 0 inner.toList = some is ∧
    q.pieces? 0 after.toList = some qs

/-- The scan reads back the pieces before and behind a stretch. -/
lemma Stretch.pieces?_spelled (laws : q.Lawful) {s : Stretch} {outer : String}
    (houter : q.Seals s.row outer) : q.pieces? 0 (q.spelled s.before).toList = some s.before ∧
      q.pieces? 0 (q.spelled s.after).toList = some s.after := by
  rw [spelled, spelled, String.toList_ofList, String.toList_ofList]
  exact ⟨houter.spells.left.left.pieces?_eq laws, houter.spells.right.pieces?_eq laws⟩

/-- A stretch that a code is scanned to splits the code around it. -/
lemma Stretch.splits (laws : q.Lawful) {s : Stretch} {inner outer : String}
    (houter : q.Seals s.row outer) (hinner : q.Seals s.inside inner) :
    q.Splits (q.spelled s.before) inner (q.spelled s.after) outer where
  code := by
    rw [← String.toList_inj, houter.spells.chars]
    simp [spelled, row, hinner.spells.chars]
  scan := by
    obtain ⟨hbefore, hafter⟩ := s.pieces?_spelled laws houter
    exact ⟨s.before, s.inside, s.after, houter.spells.pieces?_eq laws, hbefore,
      hinner.spells.pieces?_eq laws, hafter⟩

/-- A code in another one splits it. -/
lemma Within.exists_splits (laws : q.Lawful) {inner outer : String} (h : q.Within inner outer) :
    ∃ before after, q.Splits before inner after outer := by
  obtain ⟨is, ws, hinner, houter, ps, qs, rfl⟩ := h
  exact ⟨_, _, Stretch.splits (s := ⟨ps, is, qs⟩) laws houter hinner⟩

/-- A constant is sealed. -/
lemma seals_constant {mark : Char} (hmark : mark ∈ q.marks) (s : String) :
    q.Seals [.constant mark s] (String.ofList (q.written mark s)) where
  spells := ⟨by simp [render], by simpa [Admits] using hmark, .singleton _⟩
  balanced := rfl

/-! ## Fixed text -/

/-- A text without quotes. -/
def isPlain (s : String) : Bool := (letters s).all (· ∉ quoteMarks)

/-- The pieces of a text without quotes. -/
def signs (s : String) : List Piece := (letters s).map .sign

/-- A plain text has no character that is a quote. -/
lemma isPlain_eq (s : String) : isPlain s = s.toList.all (· ∉ quoteMarks) := by
  rw [isPlain, letters_eq]

/-- The pieces of a text are its characters as signs. -/
lemma signs_eq (s : String) : signs s = s.toList.map .sign := by
  rw [signs, letters_eq]

/-- A text without quotes whose brackets match. -/
def isBare (s : String) : Bool := isPlain s && nesting [] (signs s) == some []

/-- The signs of a plain text spell it. -/
lemma spells_signs {s : String} (h : isPlain s = true) : q.Spells (signs s) s.toList where
  chars := by
    rw [signs_eq, List.flatMap_map]
    exact (List.flatMap_singleton' s.toList).symm
  admits p hp := by
    rw [signs_eq] at hp
    rw [isPlain_eq] at h
    obtain ⟨c, hc, rfl⟩ := List.mem_map.mp hp
    simpa [Admits] using List.all_eq_true.mp h c hc
  apart := by
    rw [signs_eq, List.isChain_map]
    exact (List.pairwise_of_forall fun _ _ => .inl rfl).isChain

/-- A text without quotes whose brackets match is sealed. -/
lemma isSealed_of_isBare {s : String} (h : isBare s = true) : q.IsSealed s := by
  simp only [isBare, Bool.and_eq_true, beq_iff_eq] at h
  exact ⟨signs s, spells_signs h.1, h.2⟩

/-- A text that is sealed by the rules: the check of `IsSealed`. -/
def seals? (q : Quoting) (code : String) : Bool :=
  match q.pieces? 0 (letters code) with
  | none => false
  | some ps =>
    decide (letters code = ps.flatMap q.render) && decide (∀ p ∈ ps, q.Admits p) &&
      decide (ps.IsChain Apart) && nesting [] ps == some []

/-- The check of sealed code is right. -/
lemma isSealed_of_seals? {code : String} (h : q.seals? code = true) : q.IsSealed code := by
  rw [seals?, letters_eq] at h
  split at h
  · cases h
  · rename_i ps _
    simp only [Bool.and_eq_true, decide_eq_true_eq, beq_iff_eq] at h
    obtain ⟨⟨⟨hchars, hadmits⟩, hapart⟩, hbalanced⟩ := h
    exact ⟨ps, ⟨hchars, hadmits, hapart⟩, hbalanced⟩

/-- Pieces behind signs. -/
lemma Spells.signs_append {s : String} (hs : isPlain s = true) {ps : List Piece} {t : List Char}
    (h : q.Spells ps t) : q.Spells (signs s ++ ps) (s.toList ++ t) := by
  obtain ⟨hchars, hadmits, hapart⟩ := spells_signs (q := q) hs
  refine ⟨?_, List.forall_mem_append.mpr ⟨hadmits, h.admits⟩, ?_⟩
  · rw [List.flatMap_append, ← h.chars, ← hchars]
  · refine hapart.append h.apart fun a ha b _ => .inl ?_
    obtain ⟨c, -, rfl⟩ := List.mem_map.mp (List.mem_of_getLast? ha)
    rfl

/-! ## Codes and text in a row -/

section Parts

variable {ι : Type}

/-- A part of a code that is put together. -/
inductive Part (ι : Type)
  /-- Fixed text, whose brackets may be closed by a later part. -/
  | text (s : String)
  /-- Text without quotes whose brackets match. -/
  | bare (s : String)
  /-- Sealed code, and what it carries. -/
  | code (s : String) (carried : List ι)

namespace Part

/-- The characters of the part. -/
def chars : Part ι → List Char
  | .text s | .bare s | .code s _ => s.toList

/-- What the part carries. -/
def carried : Part ι → List ι
  | .code _ carried => carried
  | _ => []

end Part

/-- Text keeps the codes apart and has no quotes, and its brackets close. `opened` are the brackets
that are still to be closed, and `clear` tells that no code stands right before. -/
def fits : List Char → Bool → List (Part ι) → Bool
  | opened, _, [] => opened.isEmpty
  | opened, clear, .text s :: parts =>
    isPlain s &&
      match nesting opened (signs s) with
      | some opened => fits opened (clear || !s.toList.isEmpty) parts
      | none => false
  | opened, clear, .bare _ :: parts => fits opened clear parts
  | opened, clear, .code _ _ :: parts => clear && fits opened false parts

/-- Fixed text before and behind a code closes what it opens. -/
def frames (opening closing : String) : Bool :=
  fits [] true [.text opening, .code "" ([] : List Unit), .text closing]

/-- Fixed text between two codes keeps them apart. -/
def separates (mark : String) : Bool :=
  fits [] true [.code "" ([] : List Unit), .text mark, .code "" []]

/-- The codes of what is listed stand in the row of pieces, apart from each other and in any order;
`yields` tells the codes. -/
def Holds (q : Quoting) (yields : ι → String → Prop) (carried : List ι) (ws : List Piece) : Prop :=
  ∃ stretches : List Stretch, (∀ s ∈ stretches, s.row = ws) ∧
    List.Forall₂ (fun i s => ∃ inner, yields i inner ∧ q.Seals s.inside inner) carried stretches ∧
    stretches.Pairwise Stretch.Apart

/-- The code is sealed, and the codes of what it carries stand in it, apart from each other; `yields`
tells them. -/
def Carries (q : Quoting) (yields : ι → String → Prop) (carried : List ι) (code : String) : Prop :=
  q.IsSealed code ∧ ∃ ws, q.Seals ws code ∧ q.Holds yields carried ws

/-- What is said of a part: text that is not fixed is bare, and code carries what it should. -/
def Part.Sound (q : Quoting) (yields : ι → String → Prop) : Part ι → Prop
  | .text _ => True
  | .bare s => isBare s = true
  | .code s carried => q.Carries yields carried s

variable {yields : ι → String → Prop}

section Holding

variable {carried : List ι} {ws : List Piece}

/-- Every row of pieces holds nothing. -/
lemma Holds.nil (q : Quoting) (yields : ι → String → Prop) (ws : List Piece) :
    q.Holds yields [] ws :=
  ⟨[], List.forall_mem_nil _, .nil, .nil⟩

/-- Sealed code holds its own code. -/
lemma Seals.holds {i : ι} {code : String} (hcode : q.Seals ws code) (hyields : yields i code) :
    q.Holds yields [i] ws := by
  exact ⟨[.whole ws], List.forall_mem_singleton.mpr (Stretch.row_whole ws),
    .cons ⟨code, hyields, hcode⟩ .nil, List.pairwise_singleton _ _⟩

/-- Two rows behind each other hold what each of them holds.

**Proof sketch.** The stretches of the first row get the second row behind them, and those of the
second one the first row before them. A stretch of one and a stretch of the other are apart, as the
rows are. -/
lemma Holds.append {carried' : List ι} {vs : List Piece} (h : q.Holds yields carried ws)
    (h' : q.Holds yields carried' vs) : q.Holds yields (carried ++ carried') (ws ++ vs) := by
  obtain ⟨stretches, hrows, hcodes, hapart⟩ := h
  obtain ⟨stretches', hrows', hcodes', hapart'⟩ := h'
  let left : Stretch := ⟨[], ws, vs⟩
  let right : Stretch := ⟨ws, vs, []⟩
  refine ⟨stretches.map left.comp ++ stretches'.map right.comp,
    List.forall_mem_append.mpr ⟨List.forall_mem_map.mpr fun s hs => ?_,
      List.forall_mem_map.mpr fun s hs => ?_⟩,
    List.rel_append (List.forall₂_map_right_iff.mpr hcodes) (List.forall₂_map_right_iff.mpr hcodes'),
    List.pairwise_append.mpr ⟨?_, ?_, ?_⟩⟩
  · rw [Stretch.row_comp (hrows s hs)]
    simp [Stretch.row, left]
  · rw [Stretch.row_comp (hrows' s hs)]
    simp [Stretch.row, right]
  · exact hapart.map _ fun s t h => h.comp_left _
  · exact hapart'.map _ fun s t h => h.comp_left _
  · refine List.forall_mem_map.mpr fun s hs => List.forall_mem_map.mpr fun t ht => ?_
    exact Stretch.Apart.comp (.inl (by simp [left, right])) (hrows s hs) (hrows' t ht)

/-- What is held in part of the rows that follow each other. -/
lemma Holds.front (h : q.Holds yields carried ws) (front : List Piece) :
    q.Holds yields carried (front ++ ws) :=
  (Holds.nil q yields front).append h

/-- Part of what is related one by one is related to part of the other row. -/
lemma exists_forall₂_of_sublist {α β : Type} {r : α → β → Prop} {as as' : List α} {bs : List β}
    (hsub : as.Sublist as') (h : List.Forall₂ r as' bs) : ∃ bs', bs'.Sublist bs ∧ List.Forall₂ r as bs' := by
  induction hsub generalizing bs with
  | slnil => exact ⟨bs, .refl _, h⟩
  | cons a _ ih =>
    cases h with
    | cons _ hrest =>
      obtain ⟨bs', hbs, h'⟩ := ih hrest
      exact ⟨bs', hbs.cons _, h'⟩
  | cons_cons a _ ih =>
    cases h with
    | cons hfirst hrest =>
      obtain ⟨bs', hbs, h'⟩ := ih hrest
      exact ⟨_ :: bs', hbs.cons_cons _, .cons hfirst h'⟩

/-- What is held is held in part and in any other order. -/
lemma Holds.mono (h : q.Holds yields carried ws) {some : List ι} (hsome : some.Subperm carried) :
    q.Holds yields some ws := by
  obtain ⟨stretches, hrows, hcodes, hapart⟩ := h
  obtain ⟨ordered, hperm, hsub⟩ := hsome
  obtain ⟨kept, hkept, hcodes⟩ := exists_forall₂_of_sublist hsub hcodes
  obtain ⟨sorted, hcodes, hsorted⟩ := List.perm_comp_forall₂ hperm.symm hcodes
  refine ⟨sorted, fun s hs => hrows s (hkept.subset (hsorted.subset hs)), hcodes, ?_⟩
  exact (hsorted.pairwise_iff Stretch.Apart.symm).mpr (hapart.sublist hkept)

end Holding

/-- The pieces of a row of parts: they close the brackets that are opened, start with a sign where
code stands right before, and hold what the codes carry. -/
structure Lays (q : Quoting) (yields : ι → String → Prop) (opened : List Char) (clear : Bool)
    (parts : List (Part ι)) (ws : List Piece) : Prop where
  spells : q.Spells ws (parts.flatMap Part.chars)
  closes : nesting opened ws = some []
  opens : clear = false → ∀ p ∈ ws.head?, p.isSign = true
  holds : q.Holds yields (parts.flatMap Part.carried) ws

/-- Signs in front of parts that are laid. -/
lemma Lays.signs_append {opened left : List Char} {clear next : Bool} {parts : List (Part ι)}
    {ws : List Piece} {s : String} (h : q.Lays yields left next parts ws)
    (hplain : isPlain s = true) (hnest : nesting opened (signs s) = some left)
    (hnext : s.toList = [] → clear = false → next = false) {p : Part ι}
    (hchars : p.chars = s.toList) (hcarried : p.carried = []) :
    q.Lays yields opened clear (p :: parts) (signs s ++ ws) where
  spells := by
    rw [List.flatMap_cons, hchars]
    exact h.spells.signs_append hplain
  closes := by
    rw [nesting_append, hnest]
    exact h.closes
  opens hclear a ha := by
    cases hs : s.toList with
    | nil =>
      rw [signs_eq, hs] at ha
      exact h.opens (hnext hs hclear) a ha
    | cons c cs =>
      rw [signs_eq, hs] at ha
      cases ha
      rfl
  holds := by
    rw [List.flatMap_cons, hcarried]
    exact h.holds.front _

/-- Sealed code in front of parts that are laid. -/
lemma Lays.code_append {opened : List Char} {parts : List (Part ι)} {ws ps : List Piece}
    (h : q.Lays yields opened false parts ws) {code : String} (hcode : q.Seals ps code)
    {carried : List ι} (hcarried : q.Holds yields carried ps) :
    q.Lays yields opened true (.code code carried :: parts) (ps ++ ws) where
  spells := by
    refine ⟨?_, List.forall_mem_append.mpr ⟨hcode.spells.admits, h.spells.admits⟩, ?_⟩
    · rw [List.flatMap_cons, List.flatMap_append, ← h.spells.chars, ← hcode.spells.chars]
      rfl
    · exact hcode.spells.apart.append h.spells.apart fun _ _ b hb => .inr (h.opens rfl b hb)
  closes := by
    rw [nesting_append, hcode.balanced.nesting_eq]
    exact h.closes
  opens hclear := by cases hclear
  holds := hcarried.append h.holds

/-- Parts that fit have pieces.

**Proof sketch.** By induction on the parts. A constant text and a bare code put their own signs
before the pieces of the rest; the code of an operand puts its pieces there, as one stretch. -/
lemma exists_lays_of_fits {opened : List Char} {clear : Bool} {parts : List (Part ι)}
    (hfits : fits opened clear parts = true) (hparts : ∀ p ∈ parts, p.Sound q yields) :
    ∃ ws, q.Lays yields opened clear parts ws := by
  induction parts generalizing opened clear with
  | nil =>
    obtain rfl : opened = [] := by simpa [fits] using hfits
    exact ⟨[], ⟨rfl, by simp, .nil⟩, rfl, by simp, Holds.nil q yields []⟩
  | cons p parts ih =>
    obtain ⟨hp, hrest⟩ := List.forall_mem_cons.mp hparts
    cases p with
    | text s =>
      simp only [fits, Bool.and_eq_true] at hfits
      obtain ⟨hplain, hfits⟩ := hfits
      split at hfits
      · rename_i left hnest
        obtain ⟨ws, hws⟩ := ih hfits hrest
        exact ⟨_, hws.signs_append hplain hnest (by simp_all) rfl rfl⟩
      · cases hfits
    | bare s =>
      simp only [Part.Sound, isBare, Bool.and_eq_true, beq_iff_eq] at hp
      obtain ⟨ws, hws⟩ := ih hfits hrest
      have hbalanced : Balanced (signs s) := hp.2
      exact ⟨_, hws.signs_append hp.1 (hbalanced.nesting_eq opened) (fun _ h => h) rfl rfl⟩
    | code s carried =>
      simp only [fits, Bool.and_eq_true] at hfits
      obtain ⟨rfl, hfits⟩ := hfits
      obtain ⟨ws, hws⟩ := ih hfits hrest
      obtain ⟨-, ps, hps, hcarried⟩ := hp
      exact ⟨_, hws.code_append hps hcarried⟩

/-- Codes and text that fit make up a code that carries all that the codes carry. -/
theorem carries_of_fits {parts : List (Part ι)} {code : String} (hfits : fits [] true parts = true)
    (hcode : code.toList = parts.flatMap Part.chars) (hsound : parts.Forall (Part.Sound q yields)) :
    q.Carries yields (parts.flatMap Part.carried) code := by
  obtain ⟨ws, hws⟩ := exists_lays_of_fits hfits (List.forall_iff_forall_mem.mp hsound)
  have hseals : q.Seals ws code := ⟨hcode ▸ hws.spells, hws.closes⟩
  exact ⟨⟨ws, hseals⟩, ws, hseals, hws.holds⟩

/-- The code of what is carried stands in the code. -/
lemma Carries.exists_within {carried : List ι} {code : String} (h : q.Carries yields carried code)
    {i : ι} (hi : i ∈ carried) : ∃ inner, yields i inner ∧ q.Within inner code := by
  obtain ⟨-, ws, hseals, hholds⟩ := h
  obtain ⟨stretches, hrows, hcodes, -⟩ := hholds.mono (List.singleton_subperm_iff.mpr hi)
  cases hcodes with
  | @cons _ s _ _ hs _ =>
    obtain ⟨inner, hyields, hinner⟩ := hs
    have hrow : s.row = ws := hrows s List.mem_cons_self
    exact ⟨inner, hyields, s.inside, ws, hinner, hseals, s.before, s.after, hrow⟩

end Parts

end Quoting

end Retarget
