import Retarget.Proofs.Naming.Layout

set_option autoImplicit false

/-!
# Calls in scanned code

A name is called where it stands outside of constants, directly before an opening parenthesis. Such
calls are found by a scan that keeps the name characters it has just passed. Codes that are put
together call what each of them calls, as long as no name runs across a seam; whether the fixed text
between codes sees to that can be checked.

## Main definitions

* `Retarget.Quoting.calledFrom`, `Retarget.Quoting.Calls` — the names that code calls.
* `Retarget.Quoting.Tells` — code that calls the given names of a catalogue, and does not end in one.
* `Retarget.Quoting.opens`, `Retarget.Quoting.divides`, `Retarget.Quoting.closes` — the checks of
  text before, between and behind codes.

## Main results

* `Retarget.Quoting.Tells.enclosed`, `Retarget.Quoting.Tells.joined`,
  `Retarget.Quoting.Tells.callOf` — text around a code, text between two codes, and the call of a
  name.
-/

namespace Retarget

/-- A name of the language consists of characters of names. -/
lemma IsIdentifier.continuesName {name : String} (h : IsIdentifier name) :
    ∀ c ∈ name.toList, continuesName c = true := by
  obtain ⟨c, cs, heq, hstart, hparts⟩ := h
  rw [heq]
  refine List.forall_mem_cons.mpr ⟨?_, fun d hd => ?_⟩
  · simp only [Lexer.isIdentStart, Bool.or_eq_true, beq_iff_eq] at hstart
    rcases hstart with hletter | rfl
    · simp [Retarget.continuesName, Char.isAlphanum, hletter]
    · decide
  · have hpart := hparts d hd
    simp only [Lexer.isIdentPart] at hpart
    simp [Retarget.continuesName, hpart]

namespace Quoting

/-! ## The scan -/

/-- The name characters that stand right behind the pieces, where `run` stands right before them. -/
def runAfter : List Char → List Piece → List Char
  | run, [] => run
  | run, .sign c :: ps => runAfter (if continuesName c then run ++ [c] else []) ps
  | _, .constant _ _ :: ps => runAfter [] ps

/-- The names that are called in a row of pieces, where `run` stands right before it: the runs of
name characters that an opening parenthesis follows. -/
def calledFrom : List Char → List Piece → List String
  | _, [] => []
  | run, .sign c :: ps =>
    if continuesName c then calledFrom (run ++ [c]) ps
    else if c = '(' then String.ofList run :: calledFrom [] ps
    else calledFrom [] ps
  | _, .constant _ _ :: ps => calledFrom [] ps

/-- The code calls the name: outside of constants, it stands there directly before an opening
parenthesis. -/
def Calls (q : Quoting) (code name : String) : Prop :=
  ∃ ps, q.pieces? 0 code.toList = some ps ∧ name ∈ calledFrom [] ps

/-- The run of name characters goes on from one row of pieces to the next. -/
lemma runAfter_append (run : List Char) (ps qs : List Piece) :
    runAfter run (ps ++ qs) = runAfter (runAfter run ps) qs := by
  induction ps generalizing run with
  | nil => rfl
  | cons p ps ih => cases p <;> exact ih _

/-- What two rows call, where the second one goes on with the run of the first. -/
lemma calledFrom_append (run : List Char) (ps qs : List Piece) :
    calledFrom run (ps ++ qs) = calledFrom run ps ++ calledFrom (runAfter run ps) qs := by
  induction ps generalizing run with
  | nil => rfl
  | cons p ps ih =>
    cases p with
    | constant mark text => exact ih []
    | sign c =>
      simp only [List.cons_append, calledFrom, runAfter]
      split_ifs <;> simp [ih]

/-- Name characters only make the run longer. -/
lemma runAfter_name {cs : List Char} (h : ∀ c ∈ cs, continuesName c = true) (run : List Char) :
    runAfter run (cs.map Piece.sign) = run ++ cs := by
  induction cs generalizing run with
  | nil => simp [runAfter]
  | cons c cs ih =>
    obtain ⟨hc, hcs⟩ := List.forall_mem_cons.mp h
    simp [runAfter, hc, ih hcs]

/-- A run consists of signs that were passed. -/
lemma mem_runAfter {run : List Char} {ps : List Piece} {d : Char} (h : d ∈ runAfter run ps) :
    d ∈ run ∨ .sign d ∈ ps := by
  induction ps generalizing run with
  | nil => exact .inl h
  | cons p ps ih =>
    cases p with
    | constant mark text => exact (ih h).imp (fun hnil => absurd hnil List.not_mem_nil) (by simp [·])
    | sign c =>
      rcases ih h with hrun | hps
      · split_ifs at hrun
        · exact (List.mem_append.mp hrun).imp_right fun hd => by simp [List.mem_singleton.mp hd]
        · cases hrun
      · exact .inr (List.mem_cons_of_mem _ hps)

/-- A name that is called consists of signs that were passed.

**Proof sketch.** By induction on the pieces, with the run of signs before them as the state. -/
lemma mem_of_calledFrom {run : List Char} {ps : List Piece} {name : String}
    (h : name ∈ calledFrom run ps) : ∀ d ∈ name.toList, d ∈ run ∨ .sign d ∈ ps := by
  induction ps generalizing run with
  | nil => cases h
  | cons p ps ih =>
    have hnil {d : Char} (hd : d ∈ [] ∨ Piece.sign d ∈ ps) : d ∈ run ∨ .sign d ∈ p :: ps :=
      .inr (List.mem_cons_of_mem _ (hd.resolve_left List.not_mem_nil))
    intro d hd
    cases p with
    | constant mark text => exact hnil (ih h d hd)
    | sign c =>
      simp only [calledFrom] at h
      split_ifs at h
      · rcases ih h d hd with hrun | hps
        · exact (List.mem_append.mp hrun).imp_right fun hd => by simp [List.mem_singleton.mp hd]
        · exact .inr (List.mem_cons_of_mem _ hps)
      · rcases List.mem_cons.mp h with rfl | h
        · exact .inl (by simpa using hd)
        · exact hnil (ih h d hd)
      · exact hnil (ih h d hd)

/-- Without an opening parenthesis nothing is called. -/
lemma calledFrom_of_not_mem {cs : List Char} (h : '(' ∉ cs) (run : List Char) :
    calledFrom run (cs.map Piece.sign) = [] := by
  induction cs generalizing run with
  | nil => rfl
  | cons c cs ih =>
    obtain ⟨hc, hcs⟩ : '(' ≠ c ∧ '(' ∉ cs := by simpa using h
    simp only [List.map_cons, calledFrom, if_neg fun heq => hc (Eq.symm heq), ih hcs, ite_self]

/-- An opening parenthesis ends a name. -/
lemma continuesName_paren : continuesName '(' = false := by decide

/-! ## Codes of a catalogue -/

/-- How the names of all helpers start. -/
def helperStem : List Char := ['e', 'l', 'o']

/-- The name starts like that of a helper. -/
def isMarked (name : String) : Bool := helperStem.isPrefixOf name.toList

/-- A name of a helper starts with the stem. -/
@[simp] lemma isMarked_ofList (cs : List Char) :
    isMarked (String.ofList cs) = helperStem.isPrefixOf cs := by
  rw [isMarked, String.toList_ofList]

/-- The names of helpers in Ruby and SQL start with the stem. -/
lemma isMarked_snake (function : String) : isMarked (Helper.snake function) = true := by
  simp [isMarked, helperStem, Helper.snake]

/-- The names of helpers in JavaScript start with the stem. -/
lemma isMarked_camel (function : String) : isMarked (Helper.camel function) = true := by
  simp [isMarked, helperStem, Helper.camel]

/-- The name of a call that has a helper: small letters and underscores. -/
def isFunction (function : String) : Bool := function.toList.all fun c => c.isLower || c == '_'

/-- Two texts make up the name of a function where both consist of its characters. -/
lemma isFunction_append {a b : String} :
    isFunction (a ++ b) = true ↔ isFunction a = true ∧ isFunction b = true := by
  simp [isFunction]

/-- The functions of selectors have names of small letters and underscores. -/
lemma isFunction_of_selector {function : String} (h : function ∈ Helper.selectorFunctions) :
    isFunction function = true := by
  have hstems : ∀ s ∈ selectables, isFunction s.stem = true := by decide
  have hparts : ∀ text ∈ ["as_", "_or_null", "is_", "assert_"], isFunction text = true := by decide
  obtain ⟨s, hs, hcall⟩ := List.mem_flatMap.mp h
  simp only [Helper.selectorCalls, List.mem_cons, List.not_mem_nil, or_false] at hcall
  rcases hcall with rfl | rfl | rfl | rfl <;>
    simp only [isFunction_append, hstems s hs, and_true] <;> simp [hparts]

/-- The characters of functions and their capitals are name characters. -/
lemma continuesName_of_isLower {c : Char} (h : (c.isLower || c == '_') = true) :
    continuesName c = true ∧ (Text.upper c).all continuesName = true := by
  have hletters : ∀ n < 123, 97 ≤ n → continuesName (Char.ofNat n) = true ∧
      (Text.upper (Char.ofNat n)).all continuesName = true := by decide
  rcases Bool.or_eq_true_iff.mp h with hlower | hunderscore
  · simp only [Char.isLower, Bool.and_eq_true, decide_eq_true_eq] at hlower
    have hbounds : 97 ≤ c.toNat ∧ c.toNat ≤ 122 := hlower
    have hletter := hletters c.toNat (by omega) hbounds.1
    rwa [Char.ofNat_toNat] at hletter
  · rw [beq_iff_eq.mp hunderscore]
    decide

/-- Helpers are spelled with the characters of names. -/
lemma continuesName_snake {function : String} (h : isFunction function = true) :
    (Helper.snake function).toList.all continuesName = true := by
  rw [Helper.snake, String.toList_append, List.all_append, Bool.and_eq_true]
  refine ⟨by decide, List.all_eq_true.mpr fun c hc => ?_⟩
  exact (continuesName_of_isLower (List.all_eq_true.mp h c hc)).1

/-- The helper of a function has a name of name characters. -/
lemma continuesName_camel {function : String} (h : isFunction function = true) :
    (Helper.camel function).toList.all continuesName = true := by
  have hwords (cs : List Char) (start : Bool) (hcs : ∀ c ∈ cs, (c.isLower || c == '_') = true) :
      (Helper.capitalized start cs).all continuesName = true := by
    induction cs generalizing start with
    | nil => rfl
    | cons c cs ih =>
      obtain ⟨hc, hrest⟩ := List.forall_mem_cons.mp hcs
      obtain ⟨hname, hupper⟩ := continuesName_of_isLower hc
      unfold Helper.capitalized
      split_ifs
      · exact ih true hrest
      · rw [List.all_append, hupper, ih false hrest]
        rfl
      · simp [hname, ih false hrest]
  rw [Helper.camel, String.toList_append, List.all_append, Bool.and_eq_true]
  exact ⟨by decide, by simpa using hwords _ true (List.all_eq_true.mp h)⟩

/-- A catalogue of helpers, whose names all start alike. -/
structure Catalogue where
  names : List String
  marked : ∀ name ∈ names, isMarked name = true

instance : Membership String Catalogue := ⟨fun cat name => name ∈ cat.names⟩

variable {q : Quoting} {cat : Catalogue} {called called' : String → Prop} {a b code : String}

/-- A name that does not start like those of helpers is not in the catalogue. -/
lemma Catalogue.not_mem {name : String} (h : isMarked name = false) : name ∉ cat := by
  intro hmem
  rw [cat.marked name hmem] at h
  cases h

/-- The code calls the given helpers and no others of the catalogue, and does not end in a name of the
catalogue. -/
def Tells (q : Quoting) (cat : Catalogue) (called : String → Prop) (code : String) : Prop :=
  ∃ ps, q.Spells ps code.toList ∧ String.ofList (runAfter [] ps) ∉ cat ∧
    ∀ name, isMarked name = true → (called name → name ∈ calledFrom [] ps) ∧
      (name ∈ cat → name ∈ calledFrom [] ps → called name)

/-- What a code calls may be given in other words. -/
lemma Tells.congr (h : q.Tells cat called code) (hcalled : ∀ name, called name ↔ called' name) :
    q.Tells cat called' code := by
  simpa only [Tells, hcalled] using h

/-! ## Fixed text -/

/-- The name characters behind a text that has no quotes and calls no helper, where `run` stands right
before it. -/
def quietRun : List Char → List Char → Option (List Char)
  | run, [] => some run
  | run, c :: cs =>
    if continuesName c then quietRun (run ++ [c]) cs
    else if c ∈ quoteMarks then none
    else if c = '(' ∧ helperStem.isPrefixOf run = true then none
    else quietRun [] cs

/-- A text that passes the check has no quotes, calls no helper and leaves the run that the check
finds.

**Proof sketch.** By induction on the text, with the run of letters before it as the state: the
check asks of each character what the scan does with it. -/
lemma of_quietRun {run cs left : List Char} (h : quietRun run cs = some left) :
    (∀ c ∈ cs, c ∉ quoteMarks) ∧
      ((calledFrom run (cs.map Piece.sign)).all fun name => !isMarked name) = true ∧
      runAfter run (cs.map Piece.sign) = left := by
  have hmarks : ∀ c ∈ quoteMarks, continuesName c = false :=
    List.forall_iff_forall_mem.mp (by decide)
  induction cs generalizing run with
  | nil =>
    cases h
    exact ⟨List.forall_mem_nil _, rfl, rfl⟩
  | cons c cs ih =>
    simp only [List.map_cons, calledFrom, runAfter]
    unfold quietRun at h
    split_ifs at h with hname hmark hstem
    · obtain ⟨hplain, hcalls, hrun⟩ := ih h
      rw [if_pos hname, if_pos hname]
      refine ⟨List.forall_mem_cons.mpr ⟨fun hmark => ?_, hplain⟩, hcalls, hrun⟩
      exact Bool.eq_false_iff.mp (hmarks c hmark) hname
    · obtain ⟨hplain, hcalls, hrun⟩ := ih h
      rw [if_neg hname, if_neg hname]
      refine ⟨List.forall_mem_cons.mpr ⟨hmark, hplain⟩, ?_, hrun⟩
      split_ifs with hparen
      · have hunmarked : helperStem.isPrefixOf run = false :=
          Bool.eq_false_iff.mpr fun hprefix => hstem ⟨hparen, hprefix⟩
        simpa [hunmarked] using hcalls
      · exact hcalls

/-- The text has no quotes, calls no helper and does not end in the name of one. -/
def isQuiet (s : List Char) : Bool := (quietRun [] s).any fun run => !helperStem.isPrefixOf run

/-- The text starts with a character that ends the name before it. -/
def leads (s : List Char) : Bool :=
  s.head?.any fun c => !continuesName c && decide (c ∉ quoteMarks)

/-- Text behind which a name can start. -/
def opens (s : List Char) : Bool := quietRun [] s == some []

/-- Text that keeps the names of the codes on its two sides apart. -/
def divides (s : List Char) : Bool := leads s && opens s

/-- Text that ends the name before it, if there is any text. -/
def closes (s : List Char) : Bool := s.isEmpty || (leads s && isQuiet s)

/-- Pieces that call no helper by the look of its name. -/
lemma tells_of_pieces {ps : List Piece} (hspells : q.Spells ps code.toList)
    (hcalls : ((calledFrom [] ps).all fun name => !isMarked name) = true)
    (hrun : (!isMarked (String.ofList (runAfter [] ps))) = true) :
    q.Tells cat (fun _ => False) code := by
  refine ⟨ps, hspells, Catalogue.not_mem (by simpa using hrun), fun name hmarked => ?_⟩
  refine ⟨False.elim, fun _ hmem => ?_⟩
  have hunmarked := List.all_eq_true.mp hcalls name hmem
  rw [hmarked] at hunmarked
  cases hunmarked

/-- A text without quotes is plain. -/
lemma isPlain_of_forall (h : ∀ c ∈ code.toList, c ∉ quoteMarks) : isPlain code = true := by
  rw [isPlain_eq, List.all_eq_true]
  exact fun c hc => decide_eq_true (h c hc)

/-- A text that passes the check calls nothing. -/
lemma tells_of_isQuiet (h : isQuiet code.toList = true) : q.Tells cat (fun _ => False) code := by
  obtain ⟨run, hrun, hunmarked⟩ : ∃ run, quietRun [] code.toList = some run ∧
      helperStem.isPrefixOf run = false := by
    simpa [isQuiet, Option.any_eq_true] using h
  obtain ⟨hplain, hcalls, rfl⟩ := of_quietRun hrun
  rw [← signs_eq] at hcalls hunmarked
  exact tells_of_pieces (spells_signs (isPlain_of_forall hplain)) hcalls
    (by simpa using hunmarked)

/-- A constant calls nothing. -/
lemma tells_constant {mark : Char} {text : String}
    (h : q.Spells [.constant mark text] code.toList) : q.Tells cat (fun _ => False) code :=
  tells_of_pieces h rfl rfl

/-- Among the characters of names there are neither quotes nor parentheses. -/
lemma isPlain_of_name (h : ∀ c ∈ code.toList, continuesName c = true) :
    isPlain code = true ∧ '(' ∉ code.toList := by
  have hmarks : ∀ c ∈ quoteMarks, continuesName c = false :=
    List.forall_iff_forall_mem.mp (by decide)
  refine ⟨isPlain_of_forall fun c hc hmark => ?_, fun hmem => ?_⟩
  · exact Bool.eq_false_iff.mp (hmarks c hmark) (h c hc)
  · exact Bool.eq_false_iff.mp continuesName_paren (h _ hmem)

/-- A name that is not in the catalogue. -/
lemma tells_name (hname : ∀ c ∈ code.toList, continuesName c = true) (hcat : code ∉ cat) :
    q.Tells cat (fun _ => False) code := by
  obtain ⟨hplain, hparen⟩ := isPlain_of_name hname
  refine ⟨signs code, spells_signs hplain, ?_, fun name _ => ?_⟩
  · rwa [signs_eq, runAfter_name hname, List.nil_append, String.ofList_toList]
  · rw [signs_eq, calledFrom_of_not_mem hparen]
    exact ⟨False.elim, fun _ hmem => absurd hmem List.not_mem_nil⟩

/-- A letter of the stem that is missing in a code. -/
def stemLetter : Char := 'l'

/-- Code without a letter of the stem calls no helper. -/
lemma tells_of_not_mem {ps : List Piece} (hspells : q.Spells ps code.toList)
    (hletter : stemLetter ∉ code.toList) : q.Tells cat (fun _ => False) code := by
  have hsign : .sign stemLetter ∉ ps := fun hmem => hletter <| by
    rw [hspells.chars]
    exact List.mem_flatMap.mpr ⟨_, hmem, List.mem_singleton.mpr rfl⟩
  have hunmarked {cs : List Char} (hcs : ∀ d ∈ cs, d ∈ [] ∨ .sign d ∈ ps) :
      helperStem.isPrefixOf cs = false := by
    refine Bool.eq_false_iff.mpr fun hprefix => hsign ?_
    have hmem : stemLetter ∈ helperStem := by decide
    exact (hcs _ ((List.isPrefixOf_iff_prefix.mp hprefix).subset hmem)).resolve_left List.not_mem_nil
  refine tells_of_pieces hspells (List.all_eq_true.mpr fun name hname => ?_) ?_
  · rw [isMarked, hunmarked (mem_of_calledFrom hname)]
    rfl
  · rw [isMarked_ofList, hunmarked fun d hd => mem_runAfter hd]
    rfl

/-- The characters of numbers, among which there are no quotes and not all letters of the stem. -/
def isNumeric (c : Char) : Bool := c.isDigit || ".e-+Nainf".toList.contains c

/-- A number calls nothing. -/
lemma tells_of_isNumeric (h : ∀ c ∈ code.toList, isNumeric c = true) :
    q.Tells cat (fun _ => False) code := by
  have hothers : ∀ c ∈ stemLetter :: quoteMarks, isNumeric c = false :=
    List.forall_iff_forall_mem.mp (by decide)
  have hmissing : ∀ c ∈ stemLetter :: quoteMarks, c ∉ code.toList := fun c hc hmem =>
    Bool.eq_false_iff.mp (hothers c hc) (h c hmem)
  have hplain : isPlain code = true :=
    isPlain_of_forall fun c hc hmark => hmissing c (by simp [hmark]) hc
  exact tells_of_not_mem (spells_signs hplain) (hmissing stemLetter (by simp))

/-- Numerals consist of the characters of numbers. -/
lemma isNumeric_numeral {s : List Char} (h : IsNumeral s) : ∀ c ∈ s, isNumeric c = true := by
  have hdigits {ds : List Char} (h : IsDigits ds) : ∀ c ∈ ds, isNumeric c = true :=
    fun c hc => by simp [isNumeric, h.2 c hc]
  obtain ⟨whole, fraction, exponent, rfl, hwhole, hfraction, hexponent⟩ := h
  refine List.forall_mem_append.mpr ⟨List.forall_mem_append.mpr ⟨hdigits hwhole, ?_⟩, ?_⟩
  · rcases hfraction with rfl | ⟨ds, rfl, hds⟩
    · exact List.forall_mem_nil _
    · exact List.forall_mem_cons.mpr ⟨by decide, hdigits hds⟩
  · rcases hexponent with rfl | ⟨sign, ds, rfl, hsign, hds⟩
    · exact List.forall_mem_nil _
    · refine List.forall_mem_append.mpr ⟨List.forall_mem_cons.mpr ⟨by decide, ?_⟩, hdigits hds⟩
      rcases hsign with rfl | rfl | rfl <;> exact List.forall_iff_forall_mem.mp (by decide)

/-- The text of an integer calls nothing. -/
lemma tells_toString (v : Int) : q.Tells cat (fun _ => False) (toString v) := by
  refine tells_of_isNumeric ?_
  cases v with
  | ofNat n => exact isNumeric_numeral (isNumeral_toString (Int.natCast_nonneg n))
  | negSucc n =>
    have htext : (toString (Int.negSucc n)).toList = '-' :: Nat.toDigits 10 (n + 1) := by
      simp [toString, Int.repr, Nat.toList_repr]
    rw [htext]
    exact List.forall_mem_cons.mpr ⟨by decide, isNumeric_numeral (isDigits_toDigits _).isNumeral⟩

/-- The text of a float calls nothing, also that of what is no number. -/
lemma tells_write (style : DecimalStyle) (x : Binary64) :
    q.Tells cat (fun _ => False) (style.write x) := by
  refine tells_of_isNumeric ?_
  have hsign : ∀ c ∈ (if x.isNegative then "-" else "").toList, isNumeric c = true := by
    split_ifs <;> exact List.forall_iff_forall_mem.mp (by decide)
  simp only [DecimalStyle.write]
  generalize (if x.isNegative then "-" else "") = sign at hsign ⊢
  have hsigned {s : String} (hs : ∀ c ∈ s.toList, isNumeric c = true) :
      ∀ c ∈ (sign ++ s).toList, isNumeric c = true := by
    rw [String.toList_append]
    exact List.forall_mem_append.mpr ⟨hsign, hs⟩
  split_ifs
  · exact List.forall_iff_forall_mem.mp (by decide)
  · exact hsigned (List.forall_iff_forall_mem.mp (by decide))
  · exact hsigned (List.forall_iff_forall_mem.mp (by decide))
  · exact hsigned (isNumeric_numeral (isNumeral_layOut style _))

/-! ## Codes in a row -/

/-- What starts with a sign has that sign as its first piece. -/
lemma Spells.exists_cons (laws : q.Lawful) {ps : List Piece} {c : Char} {cs : List Char}
    (h : q.Spells ps (c :: cs)) (hc : c ∉ quoteMarks) : ∃ rest, ps = .sign c :: rest := by
  have hchars := h.chars
  cases ps with
  | nil => cases hchars
  | cons p ps =>
    rw [List.flatMap_cons] at hchars
    cases p with
    | sign d =>
      cases hchars
      exact ⟨ps, rfl⟩
    | constant mark text =>
      have hmark : mark ∈ q.marks := h.admits _ List.mem_cons_self
      obtain ⟨body, hbody⟩ := laws.head hmark text
      rw [render, hbody] at hchars
      cases hchars
      exact absurd (laws.marks hmark) hc

/-- Behind a sign that ends names, only the name before it is called besides. -/
lemma mem_calledFrom_sign {c : Char} (hc : continuesName c = false) (run : List Char) {name : String}
    (ps : List Piece) : name ∈ calledFrom run (.sign c :: ps) ↔
      (c = '(' ∧ name = String.ofList run) ∨ name ∈ calledFrom [] ps := by
  simp only [calledFrom, hc, Bool.false_eq_true, if_false]
  split_ifs with hparen <;> simp [hparen]

/-- A code behind another that ends the name before it.

**Proof sketch.** The second code starts with a character that ends the name before it. So the runs
of name characters in the two codes are those of each of them, and no name of the catalogue comes of
putting the codes side by side. -/
lemma Tells.append (laws : q.Lawful) (ha : q.Tells cat called a) (hb : q.Tells cat called' b)
    (hleads : leads b.toList = true) : q.Tells cat (fun name => called name ∨ called' name) (a ++ b) := by
  obtain ⟨ps, hps, hrun, hcalls⟩ := ha
  obtain ⟨qs, hqs, hrun', hcalls'⟩ := hb
  obtain ⟨c, hhead, hc, hmark⟩ : ∃ c, b.toList.head? = some c ∧ continuesName c = false ∧
      c ∉ quoteMarks := by simpa [leads, Option.any_eq_true] using hleads
  obtain ⟨cs, hcs⟩ : ∃ cs, b.toList = c :: cs := List.head?_eq_some_iff.mp hhead
  obtain ⟨rest, rfl⟩ := (hcs ▸ hqs).exists_cons laws hmark
  refine ⟨ps ++ .sign c :: rest, ⟨?_, ?_, ?_⟩, ?_, fun name hmarked => ?_⟩
  · rw [String.toList_append, List.flatMap_append, ← hps.chars, ← hqs.chars]
  · exact List.forall_mem_append.mpr ⟨hps.admits, hqs.admits⟩
  · refine hps.apart.append hqs.apart fun _ _ p hp => .inr ?_
    cases hp
    rfl
  · simpa [runAfter_append, runAfter, hc] using hrun'
  · obtain ⟨hmust, hmay⟩ := hcalls name hmarked
    obtain ⟨hmust', hmay'⟩ := hcalls' name hmarked
    -- The run that the second code starts with is empty, which is no name of the catalogue.
    have hempty : name ≠ String.ofList [] := by
      rintro rfl
      cases hmarked
    rw [mem_calledFrom_sign hc] at hmust' hmay'
    rw [calledFrom_append, List.mem_append, mem_calledFrom_sign hc]
    refine ⟨fun h => h.imp hmust fun h' => .inr ((hmust' h').resolve_left fun h => hempty h.2),
      fun hname h => ?_⟩
    rcases h with h | ⟨-, rfl⟩ | h
    · exact .inl (hmay hname h)
    · exact absurd hname hrun
    · exact .inr (hmay' hname (.inr h))

/-- Text in front of a code, and what the text calls. -/
lemma Tells.behind (h : q.Tells cat called code) {text : String} (hplain : isPlain text = true)
    (hsettles : runAfter [] (signs text) = []) :
    q.Tells cat (fun name => name ∈ calledFrom [] (signs text) ∨ called name) (text ++ code) := by
  obtain ⟨ps, hspells, hrun, hcalls⟩ := h
  refine ⟨signs text ++ ps, ?_, ?_, fun name hmarked => ?_⟩
  · rw [String.toList_append]
    exact hspells.signs_append hplain
  · rwa [runAfter_append, hsettles]
  · obtain ⟨hmust, hmay⟩ := hcalls name hmarked
    rw [calledFrom_append, List.mem_append, hsettles]
    exact ⟨fun h => h.imp_right hmust, fun hname h => h.imp_right (hmay hname)⟩

/-- Text before a code, behind which a name can start, calls nothing itself. -/
lemma Tells.opened (h : q.Tells cat called code) {opening : String} (hopens : opens opening.toList = true) :
    q.Tells cat called (opening ++ code) := by
  obtain ⟨hplain, hquiet, hsettles⟩ := of_quietRun (beq_iff_eq.mp hopens)
  rw [← signs_eq] at hquiet hsettles
  obtain ⟨ps, hspells, hrun, hcalls⟩ := h.behind (isPlain_of_forall hplain) hsettles
  refine ⟨ps, hspells, hrun, fun name hmarked => ?_⟩
  have hmem : name ∉ calledFrom [] (signs opening) := fun hmem => by
    have hunmarked := List.all_eq_true.mp hquiet name hmem
    rw [hmarked] at hunmarked
    cases hunmarked
  simpa only [hmem, false_or] using hcalls name hmarked

/-- Text behind a code. -/
lemma Tells.closed (laws : q.Lawful) (h : q.Tells cat called code) {closing : String}
    (hcloses : closes closing.toList = true) : q.Tells cat called (code ++ closing) := by
  rcases Bool.or_eq_true_iff.mp hcloses with hempty | hboth
  · obtain rfl : closing = "" := by simpa using hempty
    simpa using h
  · obtain ⟨hleads, hquiet⟩ := Bool.and_eq_true_iff.mp hboth
    have hclosing : q.Tells cat (fun _ => False) closing := tells_of_isQuiet hquiet
    exact (h.append laws hclosing hleads).congr fun _ => or_iff_left id

/-- Text around a code. -/
lemma Tells.enclosed (laws : q.Lawful) (h : q.Tells cat called code) {opening closing : String}
    (hopens : opens opening.toList = true) (hcloses : closes closing.toList = true) :
    q.Tells cat called (opening ++ code ++ closing) :=
  (h.opened hopens).closed laws hcloses

/-- Text between two codes. -/
lemma Tells.joined (laws : q.Lawful) (ha : q.Tells cat called a) {mark : String}
    (hmark : divides mark.toList = true) (hb : q.Tells cat called' b) :
    q.Tells cat (fun name => called name ∨ called' name) (a ++ mark ++ b) := by
  obtain ⟨hleads, hopens⟩ := Bool.and_eq_true_iff.mp hmark
  have hleads' : leads (mark ++ b).toList = true := by
    unfold leads at hleads ⊢
    rw [String.toList_append, List.head?_append]
    cases hhead : mark.toList.head? with
    | none => simp [hhead] at hleads
    | some c => simpa [hhead] using hleads
  rw [String.append_assoc]
  exact ha.append laws (hb.opened hopens) hleads'

/-- The call of a name around a code.

**Proof sketch.** The signs of the name and of the parenthesis are passed first: they call the name,
and leave no run behind. -/
lemma Tells.callOf (laws : q.Lawful) (h : q.Tells cat called code) {name : String}
    (hname : ∀ c ∈ name.toList, continuesName c = true) :
    q.Tells cat (fun n => n = name ∨ called n) (name ++ "(" ++ code ++ ")") := by
  have hsigns : signs (name ++ "(") = name.toList.map Piece.sign ++ [.sign '('] := by
    simp [signs_eq]
  obtain ⟨hplain, hparen⟩ := isPlain_of_name hname
  have hcalled : calledFrom [] (signs (name ++ "(")) = [name] := by
    rw [hsigns, calledFrom_append, runAfter_name hname, calledFrom_of_not_mem hparen]
    simp [calledFrom, continuesName_paren]
  have hsettles : runAfter [] (signs (name ++ "(")) = [] := by
    rw [hsigns, runAfter_append]
    rfl
  have hplain' : isPlain (name ++ "(") = true := by
    rw [isPlain_eq, String.toList_append, List.all_append, Bool.and_eq_true]
    exact ⟨isPlain_eq name ▸ hplain, by decide⟩
  have hinside := (h.behind hplain' hsettles).closed laws (by decide : closes ")".toList = true)
  rw [hcalled] at hinside
  exact hinside.congr fun n => by simp

end Quoting

end Retarget
