import Mathlib
import Retarget.Proofs.Naming.JavaScript

set_option autoImplicit false

/-!
# Parameters that hide names of the target

JavaScript code calls helpers and globals by their names, from inside of functions whose parameters
are the names of the source. A parameter that is spelled like such a name hides it. Reserved words
are the only names that are respelled, so a parameter hides every helper and every global of its own
name, and no other name that code relies on.

## Main definitions

* `Retarget.JavaScript.Hides` — a parameter hides a helper or global that its scope relies on.

## Main results

* `Retarget.JavaScript.hides_iff` — a parameter hides such a name exactly where it is no reserved word
  and the target's own text in its scope holds its name.
-/

namespace Retarget

/-! ## Names in scopes -/

/-- The names of the target in well-named code are its own. -/
lemma Scrap.WellNamed.own_of_mem {own : String → Bool} {scope : List String} {s : Scrap}
    (h : s.WellNamed own scope) : ∀ name ∈ s.fixedNames, own name = true := by
  induction h with
  | text | use => exact List.forall_mem_nil _
  | fixed hname => exact List.forall_mem_singleton.mpr hname
  | function _ _ ih =>
    intro name hname
    obtain ⟨s, hs, hname⟩ := mem_scrapsFixedNames.mp hname
    exact ih s hs name hname

/-- The names of the target inside of a function are in the code around it. -/
lemma Stands.fixedNames_subset {piece : Scrap} {context : List String} {row : List Scrap}
    (h : Stands piece context row) : piece.fixedNames ⊆ scrapsFixedNames row := by
  induction h with
  | here hmem => exact fun name hname => mem_scrapsFixedNames.mpr ⟨piece, hmem, hname⟩
  | inside hmem _ ih => exact fun name hname => mem_scrapsFixedNames.mpr ⟨_, hmem, ih hname⟩

namespace JavaScript

/-- A parameter is spelled like a helper that is reported or a global, and the code in its scope
relies on that name. -/
def Hides (helpers : List String) (param : String) (body : List Scrap) : Prop :=
  (localName param ∈ helpers ∨ localName param ∈ globals) ∧
    localName param ∈ scrapsFixedNames body

set_option maxRecDepth 4000 in
/-- A reserved word is respelled like none of the names that code relies on. -/
lemma isOwn_respelled : ∀ w ∈ reserved, isOwn (w ++ "$") = false := by
  decide

/-- In code that relies on no names but its own, whose helpers are reported, a parameter hides a name
exactly where it is no reserved word and its scope relies on its name.

**Proof sketch.** A reserved word is respelled as a parameter, and its new spelling is no name of
the target's own. Any other parameter keeps its spelling, so it hides exactly the name that it is.
-/
lemma hides_iff_mem {helpers : List String} {body : List Scrap}
    (hown : ∀ name ∈ scrapsFixedNames body, isOwn name = true)
    (hnoted : ∀ name ∈ scrapsFixedNames body, isHelper name = true → name ∈ helpers)
    (param : String) :
    Hides helpers param body ↔ param ∉ reserved ∧ param ∈ scrapsFixedNames body := by
  constructor
  · rintro ⟨-, hmem⟩
    have hplain : param ∉ reserved := by
      intro hreserved
      have hrespelled := isOwn_respelled param hreserved
      rw [localName, if_pos hreserved] at hmem
      rw [hown _ hmem] at hrespelled
      cases hrespelled
    rw [localName, if_neg hplain] at hmem
    exact ⟨hplain, hmem⟩
  · rintro ⟨hplain, hmem⟩
    rw [Hides, localName, if_neg hplain]
    refine ⟨?_, hmem⟩
    have hname := hown param hmem
    simp only [isOwn, Bool.or_eq_true, List.contains_iff_mem, hplain, or_false] at hname
    exact hname.imp_left (hnoted param hmem)

/-- The code of a source is laid out as text, names and functions. Every name in it that is no variable
of the source is a helper that is reported, a global or a reserved word. A parameter of a function
hides such a helper or global in its scope exactly where it is no reserved word and the text of the
target in its scope holds its name.

**Proof sketch.** The layout spells the code (`spelled_tree`), and every name in it that is no
variable is one of the target's own (`wellNamed_tree`). So is every name in the scope of a function,
to which `hides_iff_mem` applies. -/
theorem hides_iff {source : String} {form : OutputForm} {ir : Ir} {out : Compiled}
    (hsource : lowerSource source = .ok ir)
    (hcompile : compile source .javaScript form = .ok out) :
    scrapsCode localName (outline.tree form ir) = out.code ∧
      (∀ name ∈ scrapsFixedNames (outline.tree form ir),
        name ∈ out.helpers ∨ name ∈ globals ∨ name ∈ reserved) ∧
      ∀ {opening middle closing : String} {params context : List String} {body : List Scrap},
        Stands (.function opening params middle body closing) context (outline.tree form ir) →
          ∀ p ∈ params, (Hides out.helpers p body ↔
            p ∉ reserved ∧ p ∈ scrapsFixedNames body) := by
  have hnamed := (lexical_of_lowerSource hsource).named
  have hwritten : target.compile form ir = .ok out := by
    simp only [compile, hsource] at hcompile
    exact hcompile
  have hspelled := describes.spelled_tree hnamed hwritten
  have hown : ∀ name ∈ scrapsFixedNames (outline.tree form ir), isOwn name = true := by
    intro name hname
    obtain ⟨s, hs, hname⟩ := mem_scrapsFixedNames.mp hname
    exact (keepsNames.wellNamed_tree hnamed form s hs).own_of_mem name hname
  refine ⟨hspelled.code_eq, fun name hname => ?_, fun hstands p _ => ?_⟩
  · have hcases := hown name hname
    simp only [isOwn, Bool.or_eq_true, List.contains_iff_mem, or_assoc] at hcases
    exact hcases.imp_left (hspelled.noted name hname)
  · have hsubset := hstands.fixedNames_subset
    exact hides_iff_mem (fun name hname => hown name (hsubset hname))
      (fun name hname => hspelled.noted name (hsubset hname)) p

/-- A division by a variable with the name of the global that truncates. -/
def quotientByMath : Ir := .call "div" [.ofLiteral (.int 7), .var "Math" .int] [.int, .int] .int

/-- The division where the variable is bound. -/
def hiddenMath : Ir := .letIn [("Math", .ofLiteral (.int 2))] quotientByMath .int

/-- The tokens of the division. -/
def hiddenMathTokens : List Token :=
  [⟨.keyword .let, "let", 0⟩, ⟨.ident "Math", "Math", 4⟩, ⟨.punct .assign, "=", 9⟩,
   ⟨.literal (.int 2), "2", 11⟩, ⟨.keyword .in, "in", 13⟩, ⟨.literal (.int 7), "7", 16⟩,
   ⟨.punct .slash, "/", 18⟩, ⟨.ident "Math", "Math", 20⟩, Token.atEnd 24]

/-- The quotient calls a member of the divisor.

**Proof sketch.** The parameter stands around the quotient, whose code names the member
`Math.trunc`; `Math` is not a word that JavaScript reserves. -/
theorem hides_hiddenMath :
    lowerSource "let Math = 2 in 7 / Math" = .ok hiddenMath ∧
      compile "let Math = 2 in 7 / Math" .javaScript .fragment =
        .ok ⟨"((Math) => Math.trunc(7 / Math))(2)", []⟩ ∧
      ∃ body, Stands (.function "(" ["Math"] ") => " body "") []
          (outline.tree .fragment hiddenMath) ∧
        scrapsCode localName body = "Math.trunc(7 / Math)" ∧ Hides [] "Math" body := by
  have htokens : (tokenize "let Math = 2 in 7 / Math").toOption = some hiddenMathTokens := by cbv
  have hsource : lowerSource "let Math = 2 in 7 / Math" = .ok hiddenMath :=
    lowerSource_eq_ok htokens rfl rfl
  have hcompile : compile "let Math = 2 in 7 / Math" .javaScript .fragment =
      .ok ⟨"((Math) => Math.trunc(7 / Math))(2)", []⟩ := by
    simp only [compile, hsource]
    rfl
  let body := (outline.layout ["Math"] quotientByMath).scraps
  obtain ⟨hbody, hused⟩ : scrapsCode localName body = "Math.trunc(7 / Math)" ∧
      "Math" ∈ scrapsFixedNames body := by
    decide +kernel
  have hstands : Stands (.function "(" ["Math"] ") => " body "") []
      (outline.tree .fragment hiddenMath) := by
    have harrow : arrowScraps ["Math"] body = [.function "(" ["Math"] ") => " body ""] := by
      rw [arrowScraps, hbody, if_neg (by decide)]
    have htree : outline.tree .fragment hiddenMath =
      .text "(" :: arrowScraps ["Math"] body ++ .text ")(" :: [.text "2"] ++ [.text ")"] := rfl
    rw [htree, harrow]
    exact .here (List.mem_cons_of_mem _ List.mem_cons_self)
  have hhides := (hides_iff hsource hcompile).2.2 hstands "Math" List.mem_cons_self
  exact ⟨hsource, hcompile, body, hstands, hbody, hhides.mpr ⟨by decide, hused⟩⟩

end JavaScript

end Retarget
