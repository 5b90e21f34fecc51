import Mathlib
import Retarget.Proofs.Quoting.Target

set_option autoImplicit false

/-!
# Code with its names

Code of targets that have functions is laid out as text, names and functions, so that one can tell
which names stand in it and which parameters each of them can see. The names in the fixed text of a
form are found by reading that text: a run of name characters that does not follow a point.

## Main definitions

* `Retarget.Scrap` — a piece of code: text, a name or a function with its parameters.
* `Retarget.fixedText` — fixed text, in which names are told apart.
* `Retarget.Scrap.WellNamed` — the names of a piece in their scope.
* `Retarget.Layout`, `Retarget.Layout.Spells` — a whole code, and what is written for it.
* `Retarget.Form.layout` — the layout of a call in a form.

## Main results

* `Retarget.Form.spells_layout` — the layout of a call in a form spells the code of the call.
* `Retarget.Form.wellNamed_layout` — its names are those of the form and of the arguments.
-/

namespace Retarget

/-! ## Writing with its helpers -/

namespace Emit

variable {α β : Type}

/-- Where no name is bound, writing succeeds with the result and notes the helpers. -/
def Produces (m : Emit α) (a : α) (helpers : List String) : Prop := m [] = ⟨.ok a, helpers⟩

/-- A value is the result and notes no helper. -/
@[simp] lemma produces_pure {a b : α} {helpers : List String} :
    (pure a : Emit α).Produces b helpers ↔ a = b ∧ [] = helpers :=
  notes_pure

/-- Of two computations in turn the helpers of the first one are noted first. -/
@[simp] lemma produces_bind {m : Emit α} {f : α → Emit β} {b : β} {helpers : List String} :
    (m >>= f).Produces b helpers ↔
      ∃ a before, m.Produces a before ∧ ∃ after, (f a).Produces b after ∧
        before ++ after = helpers :=
  notes_bind

/-- Noting helpers notes these. -/
@[simp] lemma produces_requireAll {noted helpers : List String} {u : Unit} :
    (requireAll noted).Produces u helpers ↔ noted = helpers :=
  notes_requireAll

/-- Noting a helper notes this one. -/
@[simp] lemma produces_require {helper : String} {helpers : List String} {u : Unit} :
    (require helper).Produces u helpers ↔ [helper] = helpers :=
  notes_require

/-- An error has no result. -/
@[simp] lemma produces_fail {e : CompileError} {a : α} {helpers : List String} :
    (fail e : Emit α).Produces a helpers ↔ False :=
  notes_fail

end Emit

/-! ## Scraps -/

/-- A piece of code. -/
inductive Scrap
  /-- Text without names. -/
  | text (s : String)
  /-- A name that belongs to the target: a helper, a global, or a word of its syntax. -/
  | fixed (name : String)
  /-- A variable of the lowered form and the place of its binder, counted from the innermost one. -/
  | use (name : String) (binder : Option Nat)
  /-- A function, whose body sees its parameters. -/
  | function (opening : String) (params : List String) (middle : String) (body : List Scrap)
      (closing : String)

mutual

/-- The code of a piece, with a spelling for the names of the lowered form. -/
def Scrap.code (spell : String → String) : Scrap → String
  | .text s => s
  | .fixed name => name
  | .use name _ => spell name
  | .function opening params middle body closing =>
    opening ++ commaSeparated (params.map spell) ++ middle ++ scrapsCode spell body ++ closing

/-- The code of a row of pieces. -/
def scrapsCode (spell : String → String) : List Scrap → String
  | [] => ""
  | s :: ss => s.code spell ++ scrapsCode spell ss

end

mutual

/-- The names of the target in a piece of code. -/
def Scrap.fixedNames : Scrap → List String
  | .fixed name => [name]
  | .function _ _ _ body _ => scrapsFixedNames body
  | .text _ => []
  | .use _ _ => []

/-- The names of the target in a row of pieces. -/
def scrapsFixedNames : List Scrap → List String
  | [] => []
  | s :: ss => s.fixedNames ++ scrapsFixedNames ss

end

/-- The code of two rows of pieces is that of the first one and that of the second one. -/
@[simp] lemma scrapsCode_append (spell : String → String) (as bs : List Scrap) :
    scrapsCode spell (as ++ bs) = scrapsCode spell as ++ scrapsCode spell bs := by
  induction as with
  | nil => simp [scrapsCode]
  | cons a as ih => simp [scrapsCode, ih, String.append_assoc]

/-- The names of the target in a row of pieces are those in one of them. -/
lemma mem_scrapsFixedNames {name : String} {ss : List Scrap} :
    name ∈ scrapsFixedNames ss ↔ ∃ s ∈ ss, name ∈ s.fixedNames := by
  induction ss with
  | nil => simp [scrapsFixedNames]
  | cons s ss ih => simp [scrapsFixedNames, ih]

/-! ## Fixed text -/

/-- A character that a name can start with. -/
def startsName (c : Char) : Bool := c.isAlpha || c == '_' || c == '$'

/-- A character that a name can go on with. -/
def continuesName (c : Char) : Bool := c.isAlphanum || c == '_' || c == '$'

/-- Runs of characters as pieces: a run that can be a name is one unless it follows a point, which
makes it a member. -/
def runScraps : Bool → List (List Char) → List Scrap
  | _, [] => []
  | member, run :: runs =>
    (if !member && run.head?.any startsName then Scrap.fixed (String.ofList run)
      else .text (String.ofList run)) :: runScraps (run.getLast? == some '.') runs

/-- Fixed text, in which names are told apart. -/
def fixedText (s : String) : List Scrap :=
  runScraps false (s.toList.splitBy fun a b => continuesName a == continuesName b)

/-- No name in the fixed text is one of the helpers. -/
def isClean (isHelper : String → Bool) (s : String) : Bool :=
  (scrapsFixedNames (fixedText s)).all fun name => !isHelper name

/-- The pieces of runs of characters spell the characters. -/
lemma scrapsCode_runScraps (spell : String → String) (member : Bool) (runs : List (List Char)) :
    scrapsCode spell (runScraps member runs) = String.ofList runs.flatten := by
  induction runs generalizing member with
  | nil => rfl
  | cons run runs ih =>
    rw [runScraps, scrapsCode, ih, List.flatten_cons, String.ofList_append]
    split_ifs <;> rfl

/-- Telling names apart keeps the text. -/
lemma scrapsCode_fixedText (spell : String → String) (s : String) :
    scrapsCode spell (fixedText s) = s := by
  rw [fixedText, scrapsCode_runScraps, List.flatten_splitBy, String.ofList_toList]

/-! ## Names in their scope -/

/-- The names of the target are among its own, and every variable is an identifier with the place
of its binder in the scope, which is the names that are bound, innermost first. -/
inductive Scrap.WellNamed (own : String → Bool) : List String → Scrap → Prop
  | text {scope : List String} {s : String} : WellNamed own scope (.text s)
  | fixed {scope : List String} {name : String} : own name = true → WellNamed own scope (.fixed name)
  | use {scope : List String} {name : String} :
      IsIdentifier name → WellNamed own scope (.use name (scope.idxOf? name))
  | function {scope params : List String} {opening middle closing : String} {body : List Scrap} :
      (∀ p ∈ params, IsIdentifier p) →
      (∀ s ∈ body, WellNamed own (params.reverse ++ scope) s) →
      WellNamed own scope (.function opening params middle body closing)

/-- All pieces are well named. -/
def AllWellNamed (own : String → Bool) (scope : List String) (scraps : List Scrap) : Prop :=
  ∀ s ∈ scraps, s.WellNamed own scope

section Names

variable {own : String → Bool} {scope : List String}

/-- No pieces are well named. -/
@[simp] lemma allWellNamed_nil : AllWellNamed own scope [] := List.forall_mem_nil _

/-- Pieces are well named where the first one is and those behind it are. -/
@[simp] lemma allWellNamed_cons {s : Scrap} {ss : List Scrap} :
    AllWellNamed own scope (s :: ss) ↔ s.WellNamed own scope ∧ AllWellNamed own scope ss :=
  List.forall_mem_cons

/-- Two rows of pieces are well named where both are. -/
@[simp] lemma allWellNamed_append {ss ts : List Scrap} :
    AllWellNamed own scope (ss ++ ts) ↔ AllWellNamed own scope ss ∧ AllWellNamed own scope ts :=
  List.forall_mem_append

attribute [simp] Scrap.WellNamed.text

/-- A name of the target is well named where it is among the target's own. -/
@[simp] lemma wellNamed_fixed {name : String} :
    (Scrap.fixed name).WellNamed own scope ↔ own name = true :=
  ⟨fun h => by cases h; assumption, .fixed⟩

/-- Fixed text is well named where its names are among the target's own. -/
lemma allWellNamed_fixedText {text : String}
    (h : (scrapsFixedNames (fixedText text)).all own = true) : AllWellNamed own scope (fixedText text) := by
  have hruns (member : Bool) (runs : List (List Char))
      (hnames : (scrapsFixedNames (runScraps member runs)).all own = true) :
      AllWellNamed own scope (runScraps member runs) := by
    induction runs generalizing member with
    | nil => exact allWellNamed_nil
    | cons run runs ih =>
      rw [runScraps, scrapsFixedNames, List.all_append, Bool.and_eq_true] at hnames
      refine allWellNamed_cons.mpr ⟨?_, ih _ hnames.2⟩
      split_ifs with hname
      · rw [if_pos hname] at hnames
        exact .fixed (List.all_eq_true.mp hnames.1 _ List.mem_cons_self)
      · exact .text
  exact hruns _ _ h

end Names

/-! ## Spelled code -/

/-- The pieces spell the code, and its helpers among their names are noted. -/
structure Spelled (spell : String → String) (isHelper : String → Bool) (scraps : List Scrap)
    (code : String) (helpers : List String) : Prop where
  code_eq : scrapsCode spell scraps = code
  noted : ∀ name ∈ scrapsFixedNames scraps, isHelper name = true → name ∈ helpers

/-- The pieces of a code, and the operator at its top level. -/
structure Layout where
  scraps : List Scrap
  op : Option String

/-- The layout spells the piece of code, and its helpers are noted. -/
structure Layout.Spells (spell : String → String) (isHelper : String → Bool) (l : Layout)
    (fragment : Fragment) (helpers : List String) : Prop where
  spelled : Spelled spell isHelper l.scraps fragment.code helpers
  op_eq : l.op = fragment.op

/-- The layout spells what is written for the argument. -/
def Operand.Laid (spell : String → String) (isHelper : String → Bool) (o : Operand) (l : Layout) :
    Prop :=
  ∀ fragment helpers, o.fragment.Produces fragment helpers →
    l.Spells spell isHelper fragment helpers

/-- Pieces in parentheses. -/
def parens (scraps : List Scrap) : List Scrap := .text "(" :: scraps ++ [.text ")"]

/-- The pieces of a layout on a side of an operator. -/
def Layout.wrapped (l : Layout) (table : PrecedenceTable) (outer : String) (side : Side) :
    List Scrap :=
  if table.needsParens l.op outer side then parens l.scraps else l.scraps

/-- Rows of pieces with commas between them. -/
def separated : List (List Scrap) → List Scrap
  | [] => []
  | [a] => a
  | a :: b :: rest => a ++ .text ", " :: separated (b :: rest)

section Spelling

variable {spell : String → String} {isHelper : String → Bool} {helpers : List String}

/-- Two rows of pieces spell two codes, one behind the other. -/
lemma Spelled.append {as bs : List Scrap} {a b : String} {before after : List String}
    (ha : Spelled spell isHelper as a before) (hb : Spelled spell isHelper bs b after) :
    Spelled spell isHelper (as ++ bs) (a ++ b) (before ++ after) where
  code_eq := by rw [scrapsCode_append, ha.code_eq, hb.code_eq]
  noted name hname hhelper := by
    obtain ⟨s, hs, hname⟩ := mem_scrapsFixedNames.mp hname
    rcases List.mem_append.mp hs with hs | hs
    · exact List.mem_append_left _
        (ha.noted name (mem_scrapsFixedNames.mpr ⟨s, hs, hname⟩) hhelper)
    · exact List.mem_append_right _
        (hb.noted name (mem_scrapsFixedNames.mpr ⟨s, hs, hname⟩) hhelper)

/-- More helpers may be noted. -/
lemma Spelled.mono {scraps : List Scrap} {code : String} {more : List String}
    (h : Spelled spell isHelper scraps code helpers) (hmore : helpers ⊆ more) :
    Spelled spell isHelper scraps code more :=
  ⟨h.code_eq, fun name hname hhelper => hmore (h.noted name hname hhelper)⟩

/-- A piece of text spells that text. -/
lemma spelled_text (s : String) : Spelled spell isHelper [.text s] s [] :=
  ⟨by simp [scrapsCode, Scrap.code], by simp [scrapsFixedNames, Scrap.fixedNames]⟩

/-- A helper that is noted. -/
lemma spelled_helper (name : String) : Spelled spell isHelper [.fixed name] name [name] :=
  ⟨by simp [scrapsCode, Scrap.code], by simp [scrapsFixedNames, Scrap.fixedNames]⟩

/-- The pieces of a clean fixed text spell that text. -/
lemma spelled_fixedText {s : String} (h : isClean isHelper s = true) :
    Spelled spell isHelper (fixedText s) s [] where
  code_eq := scrapsCode_fixedText spell s
  noted name hname hhelper := by
    have hclean := List.all_eq_true.mp h name hname
    simp [hhelper] at hclean

/-- Fixed text before and behind pieces. -/
lemma Spelled.enclosed {scraps before after : List Scrap} {code opening closing : String}
    (h : Spelled spell isHelper scraps code helpers)
    (hbefore : Spelled spell isHelper before opening [])
    (hafter : Spelled spell isHelper after closing []) :
    Spelled spell isHelper (before ++ scraps ++ after) (opening ++ code ++ closing) helpers := by
  simpa using (hbefore.append h).append hafter

/-- Pieces in parentheses spell the code in parentheses. -/
lemma Spelled.parens {scraps : List Scrap} {code : String}
    (h : Spelled spell isHelper scraps code helpers) :
    Spelled spell isHelper (parens scraps) ("(" ++ code ++ ")") helpers :=
  h.enclosed (spelled_text "(") (spelled_text ")")

/-- A layout on a side of an operator spells the code on that side. -/
lemma Layout.Spells.wrapped {l : Layout} {fragment : Fragment}
    (h : l.Spells spell isHelper fragment helpers) (table : PrecedenceTable) (outer : String)
    (side : Side) :
    Spelled spell isHelper (l.wrapped table outer side) (table.wrap fragment outer side) helpers := by
  unfold Layout.wrapped PrecedenceTable.wrap
  rw [h.op_eq]
  split_ifs
  · exact h.spelled.parens
  · exact h.spelled

/-! ## Arguments -/

variable {o : Operand} {l : Layout}

/-- The layout of an argument spells its code. -/
lemma Operand.Laid.code (h : o.Laid spell isHelper l) {code : String}
    (hcode : o.code.Produces code helpers) : Spelled spell isHelper l.scraps code helpers := by
  simp only [Operand.code, Emit.produces_bind, Emit.produces_pure] at hcode
  obtain ⟨fragment, noted, hfragment, _, ⟨rfl, rfl⟩, rfl⟩ := hcode
  rw [List.append_nil]
  exact (h fragment noted hfragment).spelled

/-- The layout of an argument spells its code on a side of an operator. -/
lemma Operand.Laid.wrapped (h : o.Laid spell isHelper l) {table : PrecedenceTable}
    {outer code : String} {side : Side}
    (hcode : (o.wrapped table outer side).Produces code helpers) :
    Spelled spell isHelper (l.wrapped table outer side) code helpers := by
  simp only [Operand.wrapped, Emit.produces_bind, Emit.produces_pure] at hcode
  obtain ⟨fragment, noted, hfragment, _, ⟨rfl, rfl⟩, rfl⟩ := hcode
  rw [List.append_nil]
  exact (h fragment noted hfragment).wrapped table outer side

/-- The layout at a place, and that of nothing where there is none. -/
def layoutAt (args : List Layout) (i : Nat) : Layout := args.getD i ⟨[], none⟩

/-- An argument that the call does not have is never written. -/
lemma Site.laid_operand {site : Site} {args : List Layout}
    (hargs : List.Forall₂ (Operand.Laid spell isHelper) site.operands args) (i : Nat) :
    (site.operand i).Laid spell isHelper (layoutAt args i) := by
  unfold Site.operand layoutAt
  generalize site.operands = os at hargs
  induction hargs generalizing i with
  | nil => exact fun fragment helpers h => (Emit.produces_fail.mp h).elim
  | cons hfirst _ ih =>
    cases i with
    | zero => exact hfirst
    | succ i => exact ih i

/-- Codes that are spelled one by one, with the helpers of all of them. -/
inductive SpelledRow (spell : String → String) (isHelper : String → Bool) :
    List (List Scrap) → List String → List String → Prop
  | nil : SpelledRow spell isHelper [] [] []
  | cons {scraps : List Scrap} {code : String} {noted : List String} {row : List (List Scrap)}
      {codes : List String} {rest : List String} : Spelled spell isHelper scraps code noted →
      SpelledRow spell isHelper row codes rest →
      SpelledRow spell isHelper (scraps :: row) (code :: codes) (noted ++ rest)

/-- Codes that are spelled, each in a frame of its own. -/
lemma SpelledRow.map {row : List (List Scrap)} {codes : List String}
    (h : SpelledRow spell isHelper row codes helpers) {f : List Scrap → List Scrap}
    {g : String → String}
    (hframe : ∀ {scraps : List Scrap} {code : String} {noted : List String},
      Spelled spell isHelper scraps code noted → Spelled spell isHelper (f scraps) (g code) noted) :
    SpelledRow spell isHelper (row.map f) (codes.map g) helpers := by
  induction h with
  | nil => exact .nil
  | cons hfirst _ ih => exact .cons (hframe hfirst) ih

/-- Rows of pieces with commas between them spell the codes with commas between them. -/
lemma SpelledRow.separated {row : List (List Scrap)} {codes : List String}
    (h : SpelledRow spell isHelper row codes helpers) :
    Spelled spell isHelper (separated row) (commaSeparated codes) helpers := by
  induction h with
  | nil => exact ⟨rfl, List.forall_mem_nil _⟩
  | @cons scraps code noted row codes rest hfirst hrest ih =>
    cases hrest with
    | nil => simpa [Retarget.separated] using hfirst
    | @cons scraps' code' noted' row codes rest hsecond hrest =>
      rw [commaSeparated_cons_cons, String.append_assoc]
      exact hfirst.append ((spelled_text ", ").append ih)

/-- The layouts of a row of arguments spell their codes. -/
lemma spelledRow_codes {os : List Operand} {args : List Layout}
    (hargs : List.Forall₂ (Operand.Laid spell isHelper) os args) {cs : List String}
    (h : (codes os).Produces cs helpers) :
    SpelledRow spell isHelper (args.map Layout.scraps) cs helpers := by
  induction hargs generalizing cs helpers with
  | nil =>
    simp only [codes, Emit.produces_pure] at h
    obtain ⟨rfl, rfl⟩ := h
    exact .nil
  | cons hfirst _ ih =>
    simp only [codes, Emit.produces_bind, Emit.produces_pure] at h
    obtain ⟨c, noted, hc, _, ⟨cs, rest, hcs, _, ⟨rfl, rfl⟩, rfl⟩, rfl⟩ := h
    rw [List.append_nil]
    exact .cons (hfirst.code hc) (ih hcs)

/-- The layouts of a row of arguments with commas between them spell their codes. -/
lemma spelled_codeList {os : List Operand} {args : List Layout}
    (hargs : List.Forall₂ (Operand.Laid spell isHelper) os args) {code : String}
    (h : (codeList os).Produces code helpers) :
    Spelled spell isHelper (separated (args.map Layout.scraps)) code helpers := by
  simp only [codeList, Emit.produces_bind, Emit.produces_pure] at h
  obtain ⟨cs, noted, hcs, _, ⟨rfl, rfl⟩, rfl⟩ := h
  rw [List.append_nil]
  exact (spelledRow_codes hargs hcs).separated

end Spelling

/-! ## Forms that all targets share -/

/-- Keys and values in turn, as pairs; a key without a value is dropped. -/
def keyValueScraps (mark : String) : List Layout → List (List Scrap)
  | key :: value :: rest =>
    (key.scraps ++ .text mark :: value.scraps) :: keyValueScraps mark rest
  | _ => []

/-- Pairs in braces. -/
def bracedScraps (pairs : List (List Scrap)) : List Scrap :=
  if pairs.isEmpty then [.text "\x7b\x7d"]
  else .text "\x7b " :: separated pairs ++ [.text " \x7d"]

/-- The first two arguments exchanged, where their types are known. -/
def exchangedArgs {α β : Type} (args : List α) (types : List β) : List α :=
  match args, types with
  | a :: b :: rest, _ :: _ :: _ => b :: a :: rest
  | _, _ => args

/-- The layout of a call in a form, from the layouts of its arguments and their types. -/
def Form.layout (table : PrecedenceTable) : Form → List Layout → List Ty → Layout
  | .constant code op, _, _ => ⟨fixedText code, op⟩
  | .identity, args, _ => layoutAt args 0
  | .infixOp op, args, _ =>
    ⟨(layoutAt args 0).wrapped table op .left ++ fixedText (" " ++ op ++ " ") ++
      (layoutAt args 1).wrapped table op .right, some op⟩
  | .prefixOp key text, args, _ =>
    ⟨fixedText text ++ (layoutAt args 0).wrapped table key .right, some key⟩
  | .sequence opening closing, args, _ =>
    ⟨fixedText opening ++ separated (args.map Layout.scraps) ++ fixedText closing, none⟩
  | .helper name, args, _ =>
    ⟨.fixed name :: parens (separated (args.map Layout.scraps)), none⟩
  | .method text, args, _ =>
    ⟨(layoutAt args 0).wrapped table memberOp .left ++ fixedText text ++
      parens (separated ((args.drop 1).map Layout.scraps)), none⟩
  | .suffix text op, args, _ =>
    ⟨(layoutAt args 0).wrapped table memberOp .left ++ fixedText text, op⟩
  | .enclosed opening inner closing op, args, types =>
    ⟨fixedText opening ++ (inner.layout table args types).scraps ++ fixedText closing, op⟩
  | .exchanged inner, args, types =>
    inner.layout table (exchangedArgs args types) (exchangedArgs types args)
  | .record mark, args, _ => ⟨bracedScraps (keyValueScraps mark args), none⟩

/-- No name in the text of a form is one of the helpers, but those that the form notes. -/
def Form.isClean (isHelper : String → Bool) : Form → Bool
  | .constant text _ | .prefixOp _ text | .method text | .suffix text _ =>
    Retarget.isClean isHelper text
  | .infixOp op => Retarget.isClean isHelper (" " ++ op ++ " ")
  | .sequence opening closing =>
    Retarget.isClean isHelper opening && Retarget.isClean isHelper closing
  | .enclosed opening inner closing _ =>
    Retarget.isClean isHelper opening && inner.isClean isHelper &&
      Retarget.isClean isHelper closing
  | .exchanged inner => inner.isClean isHelper
  | .identity | .helper _ | .record _ => true

/-- The names in the text of a form. -/
def Form.fixedNames : Form → List String
  | .constant text _ | .prefixOp _ text | .method text | .suffix text _ =>
    scrapsFixedNames (fixedText text)
  | .infixOp op => scrapsFixedNames (fixedText (" " ++ op ++ " "))
  | .sequence opening closing =>
    scrapsFixedNames (fixedText opening) ++ scrapsFixedNames (fixedText closing)
  | .helper name => [name]
  | .enclosed opening inner closing _ =>
    scrapsFixedNames (fixedText opening) ++ inner.fixedNames ++
      scrapsFixedNames (fixedText closing)
  | .exchanged inner => inner.fixedNames
  | .identity | .record _ => []

section Forms

variable {spell : String → String} {isHelper : String → Bool} {helpers : List String} {site : Site}
  {args : List Layout}

/-- The layouts of exchanged arguments are the exchanged layouts. -/
lemma laid_exchanged
    (hargs : List.Forall₂ (Operand.Laid spell isHelper) site.operands args) :
    List.Forall₂ (Operand.Laid spell isHelper) site.exchanged.operands
      (exchangedArgs args site.argTypes) := by
  obtain ⟨name, operands, types, result⟩ := site
  cases hargs with
  | nil => cases types with
    | nil => exact .nil
    | cons => exact .nil
  | cons hfirst hrest =>
    cases hrest with
    | nil => exact .cons hfirst .nil
    | cons hsecond hrest =>
      match types with
      | [] | [_] => exact .cons hfirst (.cons hsecond hrest)
      | _ :: _ :: _ => exact .cons hsecond (.cons hfirst hrest)

/-- The types of exchanged arguments are the exchanged types. -/
lemma argTypes_exchanged
    (hargs : List.Forall₂ (Operand.Laid spell isHelper) site.operands args) :
    site.exchanged.argTypes = exchangedArgs site.argTypes args := by
  obtain ⟨name, operands, types, result⟩ := site
  cases hargs with
  | nil => match types with
    | [] | [_] | _ :: _ :: _ => rfl
  | cons hfirst hrest =>
    cases hrest with
    | nil => match types with
      | [] | [_] | _ :: _ :: _ => rfl
    | cons hsecond hrest => match types with
      | [] | [_] | _ :: _ :: _ => rfl

/-- The layouts of keys and values in turn spell the pairs.

**Proof sketch.** By induction along `keyValueCodes`, which takes keys and values two by two and
leaves out a last key without a value. -/
lemma spelledRow_keyValueCodes (mark : String) {os : List Operand}
    (hargs : List.Forall₂ (Operand.Laid spell isHelper) os args) {pairs : List String}
    (h : (keyValueCodes mark os).Produces pairs helpers) :
    SpelledRow spell isHelper (keyValueScraps mark args) pairs helpers := by
  induction os using keyValueCodes.induct generalizing args pairs helpers with
  | case1 key value rest ih =>
    cases hargs with
    | cons hkey hmore =>
      cases hmore with
      | cons hvalue hrest =>
        simp only [keyValueCodes, Emit.produces_bind, Emit.produces_pure] at h
        obtain ⟨k, noted, hk, _, ⟨v, noted', hv, _, ⟨ps, rest, hps, _, ⟨rfl, rfl⟩, rfl⟩, rfl⟩, rfl⟩ :=
          h
        have hpair := (hkey.code hk).append ((spelled_text mark).append (hvalue.code hv))
        rw [← String.append_assoc] at hpair
        simpa [keyValueScraps] using SpelledRow.cons hpair (ih hrest hps)
  | case2 os hshort =>
    rw [keyValueCodes.eq_def] at h
    rcases hargs with _ | ⟨_, _ | ⟨_, _⟩⟩
    · simp only [Emit.produces_pure] at h
      obtain ⟨rfl, rfl⟩ := h
      exact .nil
    · simp only [Emit.produces_pure] at h
      obtain ⟨rfl, rfl⟩ := h
      exact .nil
    · exact (hshort _ _ _ rfl).elim

/-- The pieces of pairs in braces spell the pairs in braces. -/
lemma spelled_braced {row : List (List Scrap)} {pairs : List String}
    (h : SpelledRow spell isHelper row pairs helpers) :
    Spelled spell isHelper (bracedScraps row) (braced pairs) helpers := by
  unfold bracedScraps braced
  cases h with
  | nil => exact spelled_text _
  | cons hfirst hrest =>
    exact (SpelledRow.cons hfirst hrest).separated.enclosed (spelled_text "\x7b ")
      (spelled_text " \x7d")

/-- The layout of a call in a form spells the code of the call.

**Proof sketch.** Induction over the form, since an enclosed or exchanged form contains another one.
The layout puts the pieces of the arguments together with those of the text, in the order in which
the form writes them. -/
theorem Form.spells_layout {table : PrecedenceTable} {form : Form}
    (hform : form.isClean isHelper = true)
    (hargs : List.Forall₂ (Operand.Laid spell isHelper) site.operands args)
    {fragment : Fragment} (h : (form.emit table site).Produces fragment helpers) :
    (form.layout table args site.argTypes).Spells spell isHelper fragment helpers := by
  have hoperand := Site.laid_operand hargs
  induction form generalizing site args fragment helpers with
  | constant code op =>
    simp only [Form.emit, Emit.produces_pure] at h
    obtain ⟨rfl, rfl⟩ := h
    exact ⟨spelled_fixedText hform, rfl⟩
  | identity => exact hoperand 0 fragment helpers h
  | infixOp op =>
    simp only [Form.emit, Emit.produces_bind, Emit.produces_pure] at h
    obtain ⟨a, noted, ha, _, ⟨b, noted', hb, _, ⟨rfl, rfl⟩, rfl⟩, rfl⟩ := h
    refine ⟨?_, rfl⟩
    have hrow := (((hoperand 0).wrapped ha).append (spelled_fixedText hform)).append
      ((hoperand 1).wrapped hb)
    simpa [Form.layout, Fragment.operation, String.append_assoc] using hrow
  | prefixOp key text =>
    simp only [Form.emit, Emit.produces_bind, Emit.produces_pure] at h
    obtain ⟨a, noted, ha, _, ⟨rfl, rfl⟩, rfl⟩ := h
    refine ⟨?_, rfl⟩
    simpa [Form.layout, Fragment.operation] using (spelled_fixedText hform).append ((hoperand 0).wrapped ha)
  | sequence opening closing =>
    simp only [Form.isClean, Bool.and_eq_true] at hform
    simp only [Form.emit, Emit.produces_bind, Emit.produces_pure] at h
    obtain ⟨row, noted, hrow, _, ⟨rfl, rfl⟩, rfl⟩ := h
    refine ⟨?_, rfl⟩
    simpa [Form.layout, Fragment.atom] using (spelled_codeList hargs hrow).enclosed
      (spelled_fixedText hform.1) (spelled_fixedText hform.2)
  | helper name =>
    simp only [Form.emit, Emit.produces_bind, Emit.produces_pure, Emit.produces_require] at h
    obtain ⟨_, _, rfl, _, ⟨row, noted, hrow, _, ⟨rfl, rfl⟩, rfl⟩, rfl⟩ := h
    refine ⟨?_, rfl⟩
    have hcall := (spelled_helper name).append (spelled_codeList hargs hrow).parens
    simpa [Form.layout, Fragment.atom, String.append_assoc] using hcall
  | method text =>
    simp only [Form.emit, Emit.produces_bind, Emit.produces_pure] at h
    obtain ⟨receiver, noted, hreceiver, _, ⟨row, noted', hrow, _, ⟨rfl, rfl⟩, rfl⟩, rfl⟩ := h
    refine ⟨?_, rfl⟩
    have hrest := spelled_codeList (List.forall₂_drop 1 hargs) hrow
    have hcall := (((hoperand 0).wrapped hreceiver).append (spelled_fixedText hform)).append
      hrest.parens
    simpa [Form.layout, Fragment.atom, String.append_assoc] using hcall
  | suffix text op =>
    simp only [Form.emit, Emit.produces_bind, Emit.produces_pure] at h
    obtain ⟨receiver, noted, hreceiver, _, ⟨rfl, rfl⟩, rfl⟩ := h
    refine ⟨?_, rfl⟩
    simpa [Form.layout] using ((hoperand 0).wrapped hreceiver).append (spelled_fixedText hform)
  | enclosed opening inner closing op ih =>
    simp only [Form.isClean, Bool.and_eq_true] at hform
    obtain ⟨⟨hopening, hinner⟩, hclosing⟩ := hform
    simp only [Form.emit, Emit.produces_bind, Emit.produces_pure] at h
    obtain ⟨inside, noted, hinside, _, ⟨rfl, rfl⟩, rfl⟩ := h
    refine ⟨?_, rfl⟩
    simpa [Form.layout] using (ih hinner hargs hinside hoperand).spelled.enclosed
      (spelled_fixedText hopening) (spelled_fixedText hclosing)
  | exchanged inner ih =>
    have hexchanged := laid_exchanged hargs
    rw [Form.layout, ← argTypes_exchanged hargs]
    exact ih hform hexchanged h (Site.laid_operand hexchanged)
  | record mark =>
    simp only [Form.emit, Emit.produces_bind, Emit.produces_pure] at h
    obtain ⟨pairs, noted, hpairs, _, ⟨rfl, rfl⟩, rfl⟩ := h
    refine ⟨?_, rfl⟩
    simpa [Form.layout, Fragment.atom] using spelled_braced (spelledRow_keyValueCodes mark hargs hpairs)

/-! ## Names of a call -/

/-- The pieces of the layout are well named. -/
def Layout.WellNamed (own : String → Bool) (scope : List String) (l : Layout) : Prop :=
  AllWellNamed own scope l.scraps

variable {own : String → Bool} {scope : List String}

/-- Well named pieces in parentheses. -/
lemma allWellNamed_parens {scraps : List Scrap} (h : AllWellNamed own scope scraps) :
    AllWellNamed own scope (parens scraps) := by
  simp [parens, h]

/-- Fixed text before and behind pieces. -/
lemma allWellNamed_enclosed {opening closing : String} {scraps : List Scrap}
    (hopening : (scrapsFixedNames (fixedText opening)).all own = true) (h : AllWellNamed own scope scraps)
    (hclosing : (scrapsFixedNames (fixedText closing)).all own = true) :
    AllWellNamed own scope (fixedText opening ++ scraps ++ fixedText closing) := by
  simpa using ⟨allWellNamed_fixedText hopening, h, allWellNamed_fixedText hclosing⟩

/-- A well named layout on a side of an operator. -/
lemma Layout.WellNamed.wrapped {l : Layout} (h : l.WellNamed own scope) (table : PrecedenceTable)
    (outer : String) (side : Side) : AllWellNamed own scope (l.wrapped table outer side) := by
  unfold Layout.wrapped
  split_ifs
  · exact allWellNamed_parens h
  · exact h

/-- Rows of well named pieces with commas between them. -/
lemma allWellNamed_separated {row : List (List Scrap)}
    (h : ∀ scraps ∈ row, AllWellNamed own scope scraps) :
    AllWellNamed own scope (separated row) := by
  induction row using separated.induct with
  | case1 => exact allWellNamed_nil
  | case2 a => exact h a (List.mem_singleton_self a)
  | case3 a b rest ih =>
    obtain ⟨ha, hrest⟩ := List.forall_mem_cons.mp h
    rw [separated]
    simpa using ⟨ha, ih hrest⟩

/-- The well named layouts of a row of arguments with commas between them. -/
lemma allWellNamed_arguments (h : ∀ l ∈ args, l.WellNamed own scope) :
    AllWellNamed own scope (separated (args.map Layout.scraps)) := by
  refine allWellNamed_separated fun scraps hscraps => ?_
  obtain ⟨l, hl, rfl⟩ := List.mem_map.mp hscraps
  exact h l hl

/-- The layout at a place is well named where all layouts are. -/
lemma wellNamed_layoutAt (h : ∀ l ∈ args, l.WellNamed own scope) (i : Nat) :
    (layoutAt args i).WellNamed own scope := by
  rw [layoutAt, List.getD_eq_getElem?_getD]
  cases hi : args[i]? with
  | none => exact allWellNamed_nil
  | some l => exact h l (List.mem_of_getElem? hi)

/-- Keys and values in turn are well named pairs. -/
lemma allWellNamed_keyValueScraps (mark : String) (h : ∀ l ∈ args, l.WellNamed own scope) :
    ∀ scraps ∈ keyValueScraps mark args, AllWellNamed own scope scraps := by
  induction args using keyValueScraps.induct with
  | case1 key value rest ih =>
    simp only [List.forall_mem_cons] at h
    obtain ⟨hkey, hvalue, hrest⟩ := h
    rw [keyValueScraps]
    refine List.forall_mem_cons.mpr ⟨?_, ih hrest⟩
    simpa using ⟨hkey, hvalue⟩
  | case2 args hshort =>
    match args with
    | [] | [_] => exact List.forall_mem_nil _
    | key :: value :: rest => exact (hshort _ _ _ rfl).elim

/-- Well named pairs in braces. -/
lemma allWellNamed_braced {pairs : List (List Scrap)}
    (h : ∀ scraps ∈ pairs, AllWellNamed own scope scraps) :
    AllWellNamed own scope (bracedScraps pairs) := by
  unfold bracedScraps
  split_ifs
  · simp
  · simpa using allWellNamed_separated h

/-- Exchanging the first two of a row adds nothing to it. -/
lemma exchangedArgs_subset {α β : Type} (as : List α) (bs : List β) :
    exchangedArgs as bs ⊆ as := by
  unfold exchangedArgs
  split
  · intro a ha
    simp only [List.mem_cons] at ha ⊢
    tauto
  · exact List.Subset.refl _

/-- The names of a call are those of its form and of its arguments.

**Proof sketch.** Induction over the form. The pieces of arguments are well named, and the names in
fixed text are among those that the form lists. -/
theorem Form.wellNamed_layout {table : PrecedenceTable} {form : Form} {types : List Ty}
    (hform : form.fixedNames.all own = true) (hargs : ∀ l ∈ args, l.WellNamed own scope) :
    (form.layout table args types).WellNamed own scope := by
  have hat := wellNamed_layoutAt hargs
  induction form generalizing args types with
  | constant code op => exact allWellNamed_fixedText hform
  | identity => exact hat 0
  | infixOp op =>
    have hop : AllWellNamed own scope (fixedText (" " ++ op ++ " ")) := allWellNamed_fixedText hform
    simpa [Layout.WellNamed, Form.layout] using
      ⟨(hat 0).wrapped table op .left, hop, (hat 1).wrapped table op .right⟩
  | prefixOp key text =>
    have htext : AllWellNamed own scope (fixedText text) := allWellNamed_fixedText hform
    simpa [Layout.WellNamed, Form.layout] using ⟨htext, (hat 0).wrapped table key .right⟩
  | sequence opening closing =>
    rw [Form.fixedNames, List.all_append, Bool.and_eq_true] at hform
    obtain ⟨hopening, hclosing⟩ := hform
    exact allWellNamed_enclosed hopening (allWellNamed_arguments hargs) hclosing
  | helper name =>
    have hname : own name = true := List.all_eq_true.mp hform name List.mem_cons_self
    simpa [Layout.WellNamed, Form.layout] using
      ⟨hname, allWellNamed_parens (allWellNamed_arguments hargs)⟩
  | method text =>
    have htext : AllWellNamed own scope (fixedText text) := allWellNamed_fixedText hform
    have hrest := allWellNamed_arguments fun l (hl : l ∈ args.drop 1) => hargs l (List.mem_of_mem_drop hl)
    exact allWellNamed_append.mpr ⟨allWellNamed_append.mpr
      ⟨(hat 0).wrapped table memberOp .left, htext⟩, allWellNamed_parens hrest⟩
  | suffix text op =>
    have htext : AllWellNamed own scope (fixedText text) := allWellNamed_fixedText hform
    simpa [Layout.WellNamed, Form.layout] using ⟨(hat 0).wrapped table memberOp .left, htext⟩
  | enclosed opening inner closing op ih =>
    rw [Form.fixedNames, List.all_append, List.all_append, Bool.and_eq_true, Bool.and_eq_true]
      at hform
    obtain ⟨⟨hopening, hinner⟩, hclosing⟩ := hform
    exact allWellNamed_enclosed hopening (ih hinner hargs hat) hclosing
  | exchanged inner ih =>
    have hexchanged : ∀ l ∈ exchangedArgs args types, l.WellNamed own scope :=
      fun l hl => hargs l (exchangedArgs_subset args types hl)
    exact ih hform hexchanged (wellNamed_layoutAt hexchanged)
  | record mark => exact allWellNamed_braced (allWellNamed_keyValueScraps mark hargs)

end Forms

end Retarget
