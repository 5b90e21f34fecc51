import Mathlib
import Retarget.Proofs.Arity
import Retarget.Proofs.Quoting.Constants

set_option autoImplicit false

/-!
# Unsupported calls

A target finds that it has no form for a call when it comes to write the call. It comes to every part
of a lowered form but for those that it has no use for:

* the value of a test and the message of an assertion that the type of the value settles,
* in JavaScript and SQL, a side of a test of equality that is of the type of null, where the other side
  is tested for null instead (of two such sides the left one),
* in SQL, a part of the type of null that is converted to `jsonb`: an argument, a branch or a candidate,
* in Ruby and JavaScript, a key at the end of a record that has no value.

It also writes the key of a field and a duration of whole days in its own way, but these are literals.
A source with an unsupported call at any other place does not compile.

## Main definitions

* `Retarget.TargetKind.visited` — those that a target comes to.
* `Retarget.TargetKind.Written` — the target has written the node.

## Main results

* `Retarget.TargetKind.Written.part` — a target that has written a node has written what it comes to.
* `Retarget.TargetKind.unsupported_compile` — an unsupported call at a place that the target comes to
  is an error.
-/

namespace Retarget

open Quoting

namespace TargetKind

/-- The parts of a lowered form that the target comes to. -/
def visited (kind : TargetKind) : Ir → List Ir
  | .cond test yes no ty => test :: [yes, no].filter fun b => !kind.dropsBranch ty b
  | .alternative candidates ty => candidates.filter fun c => !kind.dropsBranch ty c
  | .call name args argTypes _ =>
    (args.zipIdx.filter fun a => !kind.drops name args argTypes a.2).map Prod.fst
  | ir => ir.parts

section Visited

variable {kind : TargetKind}

/-- A call is visited at the arguments that it does not drop. -/
lemma mem_visited_call {name : String} {args : List Ir} {argTypes : List Ty} {ty : Ty} {a : Ir} :
    a ∈ kind.visited (.call name args argTypes ty) ↔
      ∃ i, args[i]? = some a ∧ kind.drops name args argTypes i = false := by
  simp only [visited, List.mem_map, List.mem_filter, Prod.exists, List.mk_mem_zipIdx_iff_getElem?,
    Bool.not_eq_true']
  constructor
  · rintro ⟨_, i, hi, rfl⟩
    exact ⟨i, hi⟩
  · rintro ⟨i, hi⟩
    exact ⟨a, i, hi, rfl⟩

/-- A conditional is visited at its condition and at the branches that it does not drop. -/
lemma mem_visited_cond {test yes no part : Ir} {ty : Ty} :
    part ∈ kind.visited (.cond test yes no ty) ↔
      part = test ∨ (part = yes ∨ part = no) ∧ kind.dropsBranch ty part = false := by
  simp only [visited, List.mem_cons, List.mem_filter, List.not_mem_nil, or_false,
    Bool.not_eq_true']

/-- An alternative is visited at the candidates that it does not drop. -/
lemma mem_visited_alternative {candidates : List Ir} {ty : Ty} {c : Ir} :
    c ∈ kind.visited (.alternative candidates ty) ↔
      c ∈ candidates ∧ kind.dropsBranch ty c = false := by
  simp only [visited, List.mem_filter, Bool.not_eq_true']

/-- What a target comes to are parts. -/
lemma visited_subset (ir : Ir) : kind.visited ir ⊆ ir.parts := by
  intro part hpart
  cases ir with
  | literal | var | letIn | lambda => exact hpart
  | cond test yes no ty =>
    rcases mem_visited_cond.mp hpart with rfl | ⟨rfl | rfl, -⟩ <;> simp [Ir.parts]
  | alternative candidates ty => exact (mem_visited_alternative.mp hpart).1
  | call name args argTypes ty =>
    obtain ⟨i, hi, -⟩ := mem_visited_call.mp hpart
    exact List.mem_of_getElem? hi

/-! ## What has been written -/

/-- The code of the node has been written, where names stand for sealed codes. -/
def Writes (kind : TargetKind) (ir : Ir) : Prop :=
  ∃ names fragment, kind.quoting.SealsNames names ∧
    (kind.target.fragment ir).Succeeds names fragment

/-- The node comes from a source, and its code has been written. -/
def Written (kind : TargetKind) (ir : Ir) : Prop := ir.Lexical ∧ ir.IsTyped ∧ kind.Writes ir

/-- A lowered form that stands in a code has been written. -/
lemma Shows.writes {names : Bindings} (hnames : kind.quoting.SealsNames names) {ir : Ir}
    {code : String} (h : kind.Shows names ir code) : kind.Writes ir := by
  obtain ⟨fragment, hfragment, -⟩ := h
  exact ⟨names, fragment, hnames, hfragment⟩

/-- In SQL the values are written one after the other, with the names before them bound, and then the
body. -/
lemma writes_of_bindIn {bindings : List (String × Ir)} {body : Ir} {ty : Ty} {names : Bindings}
    {fragment : Fragment} (hnames : TargetKind.sql.quoting.SealsNames names)
    (hvalues : ∀ b ∈ bindings, b.2.Lexical)
    (h : (TargetKind.sql.target.fragment (.letIn bindings body ty)).Succeeds names fragment) :
    ∀ part ∈ bindings.map Prod.snd ++ [body], TargetKind.sql.Writes part := by
  induction bindings generalizing names with
  | nil =>
    intro part hpart
    obtain rfl := List.mem_singleton.mp hpart
    exact ⟨names, fragment, hnames, h⟩
  | cons b bindings ih =>
    obtain ⟨inner, hinner, hrest⟩ := exists_of_bind h
    obtain ⟨hvalue, hmore⟩ := List.forall_mem_cons.mp hvalues
    have hbound : TargetKind.sql.quoting.SealsNames ((b.1, Sql.substituted b.2 inner) :: names) :=
      Sql.SealsNames.cons hnames (sound_operand hnames hvalue _ hinner)
    exact List.forall_mem_cons.mpr ⟨⟨names, inner, hnames, hinner⟩, ih hbound hmore hrest⟩

/-- A target that has written a node has written the parts that it comes to.

**Proof sketch.** By cases on the form, with the lemma that says which operands it writes: the code
of a part among them is code that the target has written for it, with sealed bindings
(`Shows.writes`). Bindings in SQL write their values where they are used, which is
`writes_of_bindIn`. -/
lemma Written.part {ir part : Ir} (h : kind.Written ir) (hpart : part ∈ kind.visited ir) :
    kind.Written part := by
  obtain ⟨hlexical, htyped, names, fragment, hnames, hfragment⟩ := h
  have hmem := visited_subset ir hpart
  refine ⟨hlexical.part hmem, htyped.part hmem, ?_⟩
  cases hlexical with
  | literal | var => cases hpart
  | @letIn bindings body ty hidentifiers hvalues hbody =>
    by_cases hkind : kind = .sql
    · subst hkind
      exact writes_of_bindIn hnames hvalues hfragment part hpart
    · have hwrites := writes_let hkind hnames hidentifiers hvalues hbody hfragment
      refine (shows_of_writes kind hwrites ?_).writes hnames
      have hoperands : bindings.map (fun b => kind.target.operand b.2) ++ [kind.target.operand body] =
          (bindings.map Prod.snd ++ [body]).map kind.target.operand := by simp
      rw [hoperands]
      exact List.mem_map_of_mem hpart
  | lambda hparams hbody =>
    obtain rfl := List.mem_singleton.mp hpart
    exact (shows_of_writes kind (writes_lambda hnames hparams hbody hfragment)
      (List.mem_singleton_self _)).writes hnames
  | cond htest hyes hno =>
    have hwrites := writes_cond hnames htest hyes hno hfragment
    refine (shows_of_writes kind hwrites ?_).writes hnames
    rcases mem_visited_cond.mp hpart with rfl | ⟨rfl | rfl, hdrops⟩
    · exact List.mem_cons_self
    · simp [branch, hdrops]
    · simp [branch, hdrops]
  | alternative hcandidates =>
    obtain ⟨hc, hdrops⟩ := mem_visited_alternative.mp hpart
    exact (shows_candidate hnames hcandidates hc hdrops hfragment).writes hnames
  | call hargs =>
    obtain ⟨i, hi, hdrops⟩ := mem_visited_call.mp hpart
    obtain ⟨scope, recovered, htyped⟩ := htyped
    cases htyped with
    | call =>
      exact (shows_arg hnames hargs (List.length_map _) hi hdrops hfragment).writes hnames

/-- A target that has written a node has written all that it comes to from there. -/
lemma Written.reach {ir node : Ir} (h : kind.Written ir)
    (hreach : Relation.ReflTransGen (fun ir part => part ∈ kind.visited ir) ir node) :
    kind.Written node := by
  induction hreach with
  | refl => exact h
  | tail _ hpart ih => exact ih.part hpart

/-- A call that has been written is supported. -/
lemma Written.supports {name : String} {args : List Ir} {argTypes : List Ty} {ty : Ty}
    (h : kind.Written (.call name args argTypes ty)) : kind.supports name args.length = true := by
  obtain ⟨-, ⟨scope, recovered, htyped⟩, names, fragment, -, hfragment⟩ := h
  have hlength : (argTypes.map Ty.tag).length = args.length := by
    cases htyped with
    | call => simp
  rw [← hlength]
  cases kind with
  | ruby =>
    obtain ⟨form, hlookup, -⟩ := Registry.exists_of_call hfragment
    exact Registry.supports_of_lookup rfl hlookup
  | javaScript =>
    obtain ⟨form, hlookup, -⟩ := Registry.exists_of_call hfragment
    exact Registry.supports_of_lookup rfl hlookup
  | sql =>
    obtain ⟨form, hlookup, -⟩ := Registry.exists_of_call hfragment
    exact Registry.supports_of_lookup rfl hlookup

end Visited

/-! ## Compilation -/

/-- A source does not compile for a target that comes, in its lowered form, to a call whose name it
does not support with that many arguments.

**Proof sketch.** Compiled code is the code of the whole form. Writing a node writes the parts that the
target comes to (`Written.part`), and so the call (`Written.reach`); but a call is only written in a form
that its registry has for its name and the number of its arguments (`Written.supports`). -/
theorem unsupported_compile {source : String} {ir : Ir} (hsource : lowerSource source = .ok ir)
    {kind : TargetKind} {name : String} {args : List Ir} {argTypes : List Ty} {ty : Ty}
    (hreach : Relation.ReflTransGen (fun ir part => part ∈ kind.visited ir) ir
      (.call name args argTypes ty))
    (hunsupported : kind.supports name args.length = false) (form : OutputForm) :
    ∃ e, compile source kind form = .error e := by
  cases hcompile : compile source kind form with
  | error e => exact ⟨e, rfl⟩
  | ok out =>
    obtain ⟨fragment, hfragment, -⟩ := exists_within_of_compile hsource hcompile
    have hwritten : kind.Written ir := ⟨lexical_of_lowerSource hsource,
      isTyped_of_lowerSource hsource, [], fragment, List.forall_mem_nil _, hfragment⟩
    rw [(hwritten.reach hreach).supports] at hunsupported
    cases hunsupported

/-- A value bound to an unsupported call, whose name is not used. -/
def unusedCall : Ir :=
  .letIn [("x", .call "add" [.ofLiteral (.int 1), .call "foo" [] [] .any] [.int, .any] .any)]
    (.ofLiteral (.int 2)) .int

/-- The tokens of the binding. -/
def unusedCallTokens : List Token :=
  [⟨.keyword .let, "let", 0⟩, ⟨.ident "x", "x", 4⟩, ⟨.punct .assign, "=", 6⟩,
   ⟨.literal (.int 1), "1", 8⟩, ⟨.punct .plus, "+", 10⟩, ⟨.ident "foo", "foo", 12⟩,
   ⟨.punct .openParen, "(", 15⟩, ⟨.punct .closeParen, ")", 16⟩, ⟨.keyword .in, "in", 18⟩,
   ⟨.literal (.int 2), "2", 21⟩, Token.atEnd 22]

/-- SQL comes to the value of a name that is not used. -/
theorem unsupported_unusedCall :
    lowerSource "let x = 1 + foo() in 2" = .ok unusedCall ∧
      ∃ e, compile "let x = 1 + foo() in 2" .sql .fragment = .error e := by
  have htokens : (tokenize "let x = 1 + foo() in 2").toOption = some unusedCallTokens := by
    cbv
  have hsource : lowerSource "let x = 1 + foo() in 2" = .ok unusedCall :=
    lowerSource_eq_ok htokens rfl rfl
  have hreach : Relation.ReflTransGen (fun ir part => part ∈ TargetKind.sql.visited ir) unusedCall
      (.call "foo" [] [] .any) :=
    .tail (.single List.mem_cons_self) (mem_visited_call.mpr ⟨1, rfl, rfl⟩)
  exact ⟨hsource, unsupported_compile hsource hreach rfl .fragment⟩

/-- A test of the type of a negation. -/
def checkedNegation : Ir :=
  .call "is_bool" [.call "not" [.call "foo" [] [] .any] [.any] .bool] [.bool] .bool

/-- The tokens of the test. -/
def checkedNegationTokens : List Token :=
  [⟨.ident "Bool", "Bool", 0⟩, ⟨.punct .question, "?", 4⟩, ⟨.punct .openParen, "(", 5⟩,
   ⟨.keyword .not, "not", 6⟩, ⟨.ident "foo", "foo", 10⟩, ⟨.punct .openParen, "(", 13⟩,
   ⟨.punct .closeParen, ")", 14⟩, ⟨.punct .closeParen, ")", 15⟩, Token.atEnd 16]

/-- The type of a negation settles the test, so that Ruby does not come to the unsupported call in
it. -/
theorem compile_checkedNegation :
    lowerSource "Bool?(not foo())" = .ok checkedNegation ∧
      Relation.ReflTransGen (fun ir part => part ∈ ir.parts) checkedNegation
        (.call "foo" [] [] .any) ∧
      TargetKind.ruby.supports "foo" 0 = false ∧
      compile "Bool?(not foo())" .ruby .fragment = .ok ⟨"true", []⟩ := by
  have htokens : (tokenize "Bool?(not foo())").toOption = some checkedNegationTokens := by
    cbv
  have hsource : lowerSource "Bool?(not foo())" = .ok checkedNegation :=
    lowerSource_eq_ok htokens rfl rfl
  refine ⟨hsource, .tail (.single List.mem_cons_self) List.mem_cons_self, rfl, ?_⟩
  simp only [compile, hsource]
  rfl

end TargetKind

end Retarget
