import Retarget.Proofs.Grouping.JavaScript
import Retarget.Proofs.Grouping.Ruby
import Retarget.Proofs.Grouping.Sql
import Retarget.Proofs.Lexical

set_option autoImplicit false

/-!
# Parentheses in compiled code

Compiled code groups as the lowered form does: reading it by the precedence table of its target gives
back the operators and operands that it was written from. This holds for all operands that are
written with the parentheses that the table asks for. The keys of member reads in SQL are not, and a
key that would need parentheses is taken apart.

## Main definitions

* `Retarget.TargetKind.grammar` — the precedence table and the spelling of a target.
* `Retarget.TargetKind.tree` — the operators and operands that a lowered form is written from.

## Main results

* `Retarget.TargetKind.readsAs_compile` — compiled code reads as the tree that it was written from
  exactly where no key of a member read needs parentheses.
-/

namespace Retarget

namespace TargetKind

/-- The spelling of a target. -/
def spelling : TargetKind → Spelling
  | .ruby => Ruby.spelling
  | .javaScript => JavaScript.spelling
  | .sql => Sql.spelling

/-- The trees that a target makes of lowered forms. -/
def scheme : TargetKind → Scheme
  | .ruby => Ruby.scheme
  | .javaScript => JavaScript.scheme
  | .sql => Sql.scheme

/-- The grammar that the code of a target is read by. -/
def grammar (kind : TargetKind) : Grammar := kind.spelling.grammar

/-- The operators and operands that a target writes a lowered form from. -/
def tree (kind : TargetKind) (ir : Ir) : Tree := kind.scheme.tree ir

/-- Code is read by the precedence table that it was written by. -/
lemma grammar_table (kind : TargetKind) : kind.grammar.table = kind.target.precedence := by
  cases kind <;> rfl

/-- The texts of every target can be told apart. -/
lemma clear (kind : TargetKind) : kind.spelling.Clear := by
  cases kind with
  | ruby => exact Ruby.clear
  | javaScript => exact JavaScript.clear
  | sql => exact Sql.clear

/-- Every target writes lowered forms as the code of their trees. -/
lemma writes (kind : TargetKind) : kind.scheme.Writes kind.target kind.spelling := by
  cases kind with
  | ruby => exact Ruby.writes
  | javaScript => exact JavaScript.writes
  | sql => exact Sql.writes

/-- Only SQL writes operands as they are. -/
lemma tight_of_ne_sql {kind : TargetKind} (hkind : kind ≠ .sql) {ir : Ir} (h : ir.Operational) :
    (kind.tree ir).Tight kind.grammar := by
  cases kind with
  | ruby => exact Ruby.tight h
  | javaScript => exact JavaScript.tight h
  | sql => exact absurd rfl hkind

/-- A source whose lowered form is all operators compiles for every target. Reading the code by the
precedence table of the target gives back the tree that it was written from: always in Ruby and
JavaScript, and in SQL exactly where no operand that is written as it is needs parentheses.

**Proof sketch.** The code of a form of operators is the code of its tree. Reading the code of a
tree back gives this tree exactly where it is tight (`readsAs_iff`), and the trees of Ruby and
JavaScript always are. -/
theorem readsAs_compile (kind : TargetKind) {source : String} {ir : Ir}
    (hsource : lowerSource source = .ok ir) (hshape : ir.OfOperators) :
    ∃ compiled, compile source kind .fragment = .ok compiled ∧
      kind.grammar.table = kind.target.precedence ∧
      (kind ≠ .sql → kind.grammar.ReadsAs compiled.code (kind.tree ir).plain) ∧
      (kind.grammar.ReadsAs compiled.code (kind.tree ir).plain ↔
        (kind.tree ir).Tight kind.grammar) := by
  have hoperational := operational_of_lowerSource hsource hshape
  obtain ⟨helpers, hfragment, hreads⟩ := kind.writes.readsAs_iff kind.clear hoperational
  refine ⟨⟨(kind.tree ir).code kind.grammar, Helper.sorted helpers⟩, ?_, kind.grammar_table,
    fun hkind => hreads.mpr (tight_of_ne_sql hkind hoperational), hreads⟩
  simp only [compile, hsource, Target.compile, hfragment]
  rfl

/-- A member read whose key is a concatenation. -/
def joinedKey : Ir :=
  .call "field"
    [.var "_" .any, .call "add" [.ofString "a", .ofString "b"] [.string, .string] .string]
    [.any, .string] .any

/-- The tokens of the member read. -/
def joinedKeyTokens : List Token :=
  [⟨.ident "field", "field", 0⟩, ⟨.punct .openParen, "(", 5⟩, ⟨.ident "_", "_", 6⟩,
   ⟨.punct .comma, ",", 7⟩, ⟨.literal (.string "a"), "'a'", 9⟩, ⟨.punct .plus, "+", 13⟩,
   ⟨.literal (.string "b"), "'b'", 15⟩, ⟨.punct .closeParen, ")", 18⟩, Token.atEnd 19]

/-- The syntax of the member read. -/
def joinedKeyExpr : Expr Span :=
  .call ⟨0, 19⟩ (.var ⟨0, 5⟩ "field") [.var ⟨6, 7⟩ "_",
    .binary ⟨9, 18⟩ .add (.literal ⟨9, 12⟩ (.string "a")) (.literal ⟨15, 18⟩ (.string "b"))]

/-- In SQL the member read of a concatenated key is read as the concatenation of a member read. -/
theorem not_readsAs_joinedKey :
    lowerSource "field(_, 'a' + 'b')" = .ok joinedKey ∧ joinedKey.OfOperators ∧
      ∃ compiled, compile "field(_, 'a' + 'b')" .sql .fragment = .ok compiled ∧
        ¬TargetKind.sql.grammar.ReadsAs compiled.code (TargetKind.sql.tree joinedKey).plain := by
  have htokens : (tokenize "field(_, 'a' + 'b')").toOption = some joinedKeyTokens := by
    decide +kernel
  have hparse : parseTokens joinedKeyTokens = .ok joinedKeyExpr := rfl
  have hsource : lowerSource "field(_, 'a' + 'b')" = .ok joinedKey := by
    cases heq : tokenize "field(_, 'a' + 'b')" with
    | error failure =>
      rw [heq] at htokens
      cases htokens
    | ok tokens =>
      rw [heq] at htokens
      cases htokens
      simp only [lowerSource, parse, heq, hparse, Except.mapError]
      rfl
  have hshape : joinedKey.OfOperators :=
    .binary (by decide) (.var _ _)
      (.binary (by decide) (.literal _ _) (.literal _ _) .string .string .string) .any .string .any
  have htree : TargetKind.sql.tree joinedKey = .closed "(" (.bare "->" (.leaf "_")
      (.infixed "||" (.leaf "'a'") (.leaf "'b'")) ")") := by decide +kernel
  obtain ⟨compiled, hcompile, -, -, hreads⟩ := readsAs_compile .sql hsource hshape
  refine ⟨hsource, hshape, compiled, hcompile, fun hread => ?_⟩
  have htight := hreads.mp hread
  rw [htree] at htight
  exact absurd htight.2.2 (by decide)

end TargetKind

end Retarget
