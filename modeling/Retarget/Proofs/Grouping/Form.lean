import Retarget.Proofs.Dispatch
import Retarget.Proofs.Grouping.Spelling
import Retarget.Target

set_option autoImplicit false

/-!
# Trees of calls

What the forms of calls are applied to, as trees: the tree of a call is built from the trees of its
arguments, and writing the call gives the code of that tree.

## Main definitions

* `Retarget.Emit.Gives` — writing succeeds with the given result.
* `Retarget.Operand.Shows` — writing an argument gives the code of a tree that can be told apart.
* `Retarget.Form.unary`, `Retarget.Form.binary` — the tree of a call of one or two arguments.

## Main results

* `Retarget.Form.shows_unary`, `Retarget.Form.shows_binary` — writing a call gives the code of its
  tree.
* `Retarget.Registry.shows_call` — the same for a call whose form is looked up.
-/

namespace Retarget

open Grammar

/-! ## Writing that succeeds -/

namespace Emit

variable {α β : Type}

/-- Writing with no names bound succeeds with the given result. -/
def Gives (m : Emit α) (a : α) : Prop := (m []).outcome = .ok a

/-- A value is given as it is. -/
lemma gives_pure (a : α) : (pure a : Emit α).Gives a := rfl

/-- Helpers can always be noted. -/
lemma gives_requireAll (helpers : List String) : (requireAll helpers).Gives () := rfl

/-- A helper can always be noted. -/
lemma gives_require (helper : String) : (require helper).Gives () := rfl

/-- One piece of writing after another. -/
lemma Gives.bind {m : Emit α} {f : α → Emit β} {a : α} {b : β} (hm : m.Gives a)
    (hf : (f a).Gives b) : (m >>= f).Gives b := by
  unfold Gives at *
  rcases hwritten : m [] with ⟨outcome, helpers⟩
  rw [hwritten] at hm
  cases hm
  simp only [Bind.bind, hwritten]
  exact hf

end Emit

/-- A tree as a piece of code. -/
def Tree.fragment (g : Grammar) (t : Tree) : Fragment := ⟨t.code g, t.op⟩

/-- Writing gives the code of the tree, and its texts can be told apart. -/
structure Emit.Shows (g : Grammar) (m : Emit Fragment) (t : Tree) : Prop where
  gives : m.Gives (t.fragment g)
  legible : t.Legible g

/-- Writing the argument gives the code of the tree, and its texts can be told apart. -/
def Operand.Shows (g : Grammar) (o : Operand) (t : Tree) : Prop := o.fragment.Shows g t

namespace Operand.Shows

variable {g : Grammar} {o a b : Operand} {t x y : Tree}

/-- An argument is written as the code of its tree. -/
lemma gives_code (h : o.Shows g t) : o.code.Gives (t.code g) :=
  h.gives.bind (Emit.gives_pure _)

/-- An argument on a side of an operator is written as the code of its tree, in parentheses where
the table asks for them. -/
lemma gives_wrapped (h : o.Shows g t) (outer : String) (side : Side) :
    (o.wrapped g.table outer side).Gives (g.wrapped (t.code g) t.op outer side) :=
  h.gives.bind (Emit.gives_pure _)

/-- The code of one argument. -/
lemma gives_codeList_one (h : o.Shows g t) : (codeList [o]).Gives (t.code g) := by
  have hcodes : (codes [o]).Gives [t.code g] :=
    h.gives_code.bind ((Emit.gives_pure _).bind (Emit.gives_pure _))
  exact hcodes.bind (Emit.gives_pure _)

/-- The codes of two arguments. -/
lemma gives_codeList_two (ha : a.Shows g x) (hb : b.Shows g y) :
    (codeList [a, b]).Gives (x.code g ++ ", " ++ y.code g) := by
  have hlast : (codes [b]).Gives [y.code g] :=
    hb.gives_code.bind ((Emit.gives_pure _).bind (Emit.gives_pure _))
  have hcodes : (codes [a, b]).Gives [x.code g, y.code g] :=
    ha.gives_code.bind (hlast.bind (Emit.gives_pure _))
  have hlist : commaSeparated [x.code g, y.code g] = x.code g ++ ", " ++ y.code g := rfl
  exact hlist ▸ hcodes.bind (Emit.gives_pure _)

end Operand.Shows

/-! ## Forms that all targets share -/

namespace Form

/-- The tree of a call of one argument. -/
def unary : Form → Tree → Tree
  | .prefixOp key _, x => .prefixed key x
  | .helper name, x => .closed (name ++ "(") (.last x ")")
  | _, x => x

/-- The tree of a call of two arguments. -/
def binary : Form → Tree → Tree → Tree
  | .infixOp op, a, b => .infixed op a b
  | .helper name, a, b => .closed (name ++ "(") (.more a ", " (.last b ")"))
  | .method text, a, b => .applied a (text ++ "(") (.last b ")")
  | .exchanged form, a, b => form.binary b a
  | _, a, _ => a

end Form

namespace Spelling

variable (w : Spelling)

/-- The operator is spelled between its operands. -/
def hasInfix (op : String) : Bool :=
  op != memberOp && (" " ++ op ++ " ", Continuation.infixed op) ∈ w.continuations &&
    (w.table.get? op).isSome

/-- The operator is spelled in front of its operand. -/
def hasPrefix (key text : String) : Bool :=
  key != memberOp && (text, key) ∈ w.prefixes && w.grammar.spelling key == text &&
    (w.table.get? key).any fun entry => entry.2 != .left

/-- The text is that of a method with arguments. -/
def hasMethod (text : String) : Bool :=
  text == "." ++ (text.drop 1).toString && isWord (text.drop 1).toString && text ∉ w.nullary

/-- The spelling has the form of a call of one argument. -/
def hasUnary : Form → Bool
  | .identity => true
  | .prefixOp key text => w.hasPrefix key text
  | .helper name => w.isName name
  | _ => false

/-- The spelling has the form of a call of two arguments. -/
def hasBinary : Form → Bool
  | .infixOp op => w.hasInfix op
  | .helper name => w.isName name
  | .method text => w.hasMethod text
  | .exchanged form => hasBinary form
  | _ => false

end Spelling

namespace Spelling.Clear

variable {w : Spelling} (h : w.Clear) {a b x : Tree}

include h

/-- An operation between legible trees is legible. -/
lemma legible_infixed {op : String} (hop : w.hasInfix op = true) (ha : a.Legible w.grammar)
    (hb : b.Legible w.grammar) : (Tree.infixed op a b).Legible w.grammar := by
  simp only [hasInfix, Bool.and_eq_true, bne_iff_ne, decide_eq_true_eq] at hop
  exact ⟨hop.1.1, h.isContinuation hop.1.2 hop.2, ha, hb⟩

/-- A prefix operator before a legible tree is legible. -/
lemma legible_prefixed {key text : String} (hkey : w.hasPrefix key text = true)
    (hx : x.Legible w.grammar) : (Tree.prefixed key x).Legible w.grammar := by
  simp only [hasPrefix, Bool.and_eq_true, bne_iff_ne, decide_eq_true_eq, beq_iff_eq,
    Option.any_eq_true] at hkey
  obtain ⟨⟨⟨hne, hmem⟩, hspelled⟩, entry, hentry, hassoc⟩ := hkey
  refine ⟨hne, ⟨⟨entry, hentry, hassoc⟩, fun rest => ?_⟩, hx⟩
  rw [hspelled]
  exact h.start?_prefixed hmem rest

-- The entry of the table is given first: from the goal alone it would be read off its two texts.
/-- A closing parenthesis ends an expression in round brackets. -/
lemma isPiece_closing : w.grammar.IsPiece .round ")" (.closing ")") := by
  have hpiece := h.isPiece h.closing
  exact hpiece

/-- A comma ends an expression in round brackets. -/
lemma isPiece_comma : w.grammar.IsPiece .round ", " (.separator ", ") := by
  have hpiece := h.isPiece h.comma
  exact hpiece

/-- A call of one argument. -/
lemma legible_call_one (name : String) (hname : w.isName name = true)
    (hx : x.Legible w.grammar) :
    (Tree.closed (name ++ "(") (.last x ")")).Legible w.grammar :=
  ⟨.round, h.isOpening_call name hname, h.isPiece_closing, hx⟩

/-- A call of two arguments. -/
lemma legible_call_two (name : String) (hname : w.isName name = true)
    (ha : a.Legible w.grammar) (hb : b.Legible w.grammar) :
    (Tree.closed (name ++ "(") (.more a ", " (.last b ")"))).Legible w.grammar :=
  ⟨.round, h.isOpening_call name hname, h.isPiece_comma, ha, h.isPiece_closing, hb⟩

/-- A method call of one argument. -/
lemma legible_method {text : String} (htext : w.hasMethod text = true)
    (ha : a.Legible w.grammar) (hb : b.Legible w.grammar) :
    (Tree.applied a (text ++ "(") (.last b ")")).Legible w.grammar := by
  simp only [hasMethod, Bool.and_eq_true, beq_iff_eq, decide_eq_true_eq] at htext
  obtain ⟨⟨heq, hword⟩, hnullary⟩ := htext
  have happlied := h.isContinuation_applied (.inl rfl) hword (heq ▸ hnullary)
  rw [← heq] at happlied
  exact ⟨ha, .round, happlied, h.isPiece_closing, hb⟩

end Spelling.Clear

namespace Form

variable {w : Spelling} (h : w.Clear)

include h

/-- Writing a call of one argument gives the code of its tree. -/
theorem shows_unary {form : Form} (hform : w.hasUnary form = true) {o : Operand} {x : Tree}
    (ho : o.Shows w.grammar x) (name : String) (ty result : Ty) :
    (form.emit w.table ⟨name, [o], [ty], result⟩).Shows w.grammar (form.unary x) := by
  cases form with
  | identity => exact ho
  | prefixOp key text =>
    refine ⟨?_, h.legible_prefixed hform ho.legible⟩
    have hspelled : w.grammar.spelling key = text := by
      simp_all [Spelling.hasUnary, Spelling.hasPrefix]
    refine (ho.gives_wrapped key .right).bind ?_
    rw [Tree.fragment, unary, Tree.code, hspelled]
    exact Emit.gives_pure _
  | helper name =>
    refine ⟨?_, h.legible_call_one name hform ho.legible⟩
    refine (Emit.gives_require name).bind (ho.gives_codeList_one.bind ?_)
    rw [Tree.fragment, unary, Tree.code, Inside.code, ← String.append_assoc]
    exact Emit.gives_pure _
  | constant | infixOp | sequence | method | suffix | enclosed | exchanged | record => cases hform

/-- Writing a call of two arguments gives the code of its tree. -/
theorem shows_binary {form : Form} (hform : w.hasBinary form = true) {o p : Operand} {a b : Tree}
    (ho : o.Shows w.grammar a) (hp : p.Shows w.grammar b) (name : String) (s t result : Ty) :
    (form.emit w.table ⟨name, [o, p], [s, t], result⟩).Shows w.grammar (form.binary a b) := by
  induction form generalizing o p a b s t with
  | infixOp op =>
    refine ⟨?_, h.legible_infixed hform ho.legible hp.legible⟩
    exact (ho.gives_wrapped op .left).bind ((hp.gives_wrapped op .right).bind (Emit.gives_pure _))
  | helper name =>
    refine ⟨?_, h.legible_call_two name hform ho.legible hp.legible⟩
    refine (Emit.gives_require name).bind ((ho.gives_codeList_two hp).bind ?_)
    simp only [Tree.fragment, binary, Tree.code, Inside.code, Tree.op, ← String.append_assoc]
    exact Emit.gives_pure _
  | method text =>
    refine ⟨?_, h.legible_method hform ho.legible hp.legible⟩
    refine (ho.gives_wrapped memberOp .left).bind (hp.gives_codeList_one.bind ?_)
    simp only [Tree.fragment, binary, Tree.code, Inside.code, Tree.op, ← String.append_assoc]
    exact Emit.gives_pure _
  | exchanged form ih => exact ih hform hp ho t s
  | constant | identity | prefixOp | sequence | suffix | enclosed | record => cases hform

omit h

/-- A call of one argument writes it with the parentheses that it needs. -/
lemma tight_unary {g : Grammar} (form : Form) {x : Tree} (hx : x.Tight g) :
    (form.unary x).Tight g := by
  cases form <;> exact hx

/-- A call of two arguments writes them with the parentheses that they need. -/
lemma tight_binary {g : Grammar} (form : Form) {a b : Tree} (ha : a.Tight g) (hb : b.Tight g) :
    (form.binary a b).Tight g := by
  induction form generalizing a b with
  | infixOp | helper | method => exact ⟨ha, hb⟩
  | exchanged form ih => exact ih hb ha
  | constant | identity | prefixOp | sequence | suffix | enclosed | record => exact ha

end Form

/-! ## Dispatch -/

namespace Registry

variable {ε : Type} (r : Registry ε)

/-- The form of a call whose name has a form for any arguments is one that is registered under that
name for as many arguments. -/
lemma exists_lookup (name : String) (tags : List Tag)
    (h : (r.form? name (List.replicate tags.length .any)).isSome = true) :
    ∃ form signature, r.lookup name tags = .ok form ∧ signature.length = tags.length ∧
      ((name, signature), form) ∈ r.signatures := by
  have hany : List.replicate tags.length .any ∈ tags :: generalizations tags :=
    mem_generalizations.mpr ⟨covers_allAny tags, fun _ => .inr rfl⟩
  have hfound : ((tags :: generalizations tags).findSome? (r.form? name)).isSome = true :=
    List.findSome?_isSome_iff.mpr ⟨_, hany, h⟩
  obtain ⟨form, hform⟩ := Option.isSome_iff_exists.mp hfound
  obtain ⟨signature, hmem, hsignature⟩ := List.exists_of_findSome?_eq_some hform
  refine ⟨form, signature, ?_, (mem_generalizations.mp hmem).1.length_eq, ?_⟩
  · simp only [Registry.lookup, hform, Option.some_or]
  · obtain ⟨before, after, heq, -⟩ := List.lookup_eq_some_iff.mp hsignature
    rw [heq]
    simp

/-- All of the names have a form for any arguments of the given number, and all of their forms for
as many arguments satisfy the predicate. -/
def covers (names : List String) (count : Nat) (p : ε → Bool) : Bool :=
  (names.all fun name => (r.form? name (List.replicate count .any)).isSome) &&
    r.signatures.all fun e => !(names.contains e.1.1 && e.1.2.length == count) || p e.2

/-- The tree of a call by its form. -/
def tree (name : String) (tags : List Tag) (f : ε → Tree) : Tree :=
  match r.lookup name tags with
  | .ok form => f form
  | .error _ => default

variable {r}

/-- A call has a form that satisfies the predicate. -/
lemma lookup_of_covers {names : List String} {p : ε → Bool} {name : String} {tags : List Tag}
    (hcovers : r.covers names tags.length p = true) (hname : name ∈ names) :
    ∃ form, r.lookup name tags = .ok form ∧ p form = true := by
  simp only [covers, Bool.and_eq_true, List.all_eq_true, Bool.or_eq_true, Bool.not_eq_true',
    Bool.and_eq_false_iff, beq_eq_false_iff_ne] at hcovers
  obtain ⟨form, signature, hlookup, hsignature, hmem⟩ :=
    r.exists_lookup name tags (hcovers.1 _ hname)
  refine ⟨form, hlookup, ?_⟩
  rcases hcovers.2 _ hmem with (hother | hother) | hform
  · simp [hname] at hother
  · exact absurd hsignature hother
  · exact hform

/-- Writing a call gives the code of its tree, where this holds for all forms that it can have. -/
lemma shows_call {names : List String} {p : ε → Bool} (site : Site)
    (hcovers : r.covers names site.tags.length p = true) (hname : site.name ∈ names)
    {emit : ε → Site → Emit Fragment} {g : Grammar} {f : ε → Tree}
    (h : ∀ form, p form = true → (emit form site).Shows g (f form)) :
    (r.call emit site).Shows g (r.tree site.name site.tags f) := by
  obtain ⟨form, hlookup, hform⟩ := lookup_of_covers hcovers hname
  rw [Registry.call, tree, hlookup]
  exact h form hform

/-- What holds for the trees of all forms that a call can have holds for the tree of the call. -/
lemma tree_of_covers {names : List String} {p : ε → Bool} (name : String) (tags : List Tag)
    (hcovers : r.covers names tags.length p = true) (hname : name ∈ names) {P : Tree → Prop}
    {f : ε → Tree} (h : ∀ form, p form = true → P (f form)) : P (r.tree name tags f) := by
  obtain ⟨form, hlookup, hform⟩ := lookup_of_covers hcovers hname
  rw [tree, hlookup]
  exact h form hform

end Registry

end Retarget
