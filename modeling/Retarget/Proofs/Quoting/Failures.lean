import Mathlib
import Retarget.Proofs.Quoting.Constants

set_option autoImplicit false

/-!
# Failures in compiled code

A call of `fail` that occurs in the lowered form of a source stands in the compiled code as the failure
of the target with its label, each call at a position of its own. What does not occur is what a target
has no use for:

* the value of a test and the message of an assertion that the type of the value settles,
* in JavaScript and SQL, a side of a test of equality that is of the type of null, where the other side
  is tested for null instead (of two such sides the left one),
* in SQL, a part of the type of null that is converted to `jsonb`: an argument, a branch or a candidate,
* in Ruby and JavaScript, a key at the end of a record that has no value,
* in SQL, the value of a name that is not used. A value that is used more than once is written once for
  each use.

## Main definitions

* `Retarget.TargetKind.failureCode` — how a target raises a failure.

## Main results

* `Retarget.TargetKind.failure_compile` — every failure that occurs stands in the compiled code, at a
  position of its own.
-/

namespace Retarget

open Quoting

namespace TargetKind

/-! ## Failure forms -/

/-- How a target raises a failure of a type with a label. SQL reads a label of unknown type as text. -/
def failureCode : TargetKind → Ir → Ty → Fragment → String
  | .ruby, _, _, label => "raise(" ++ label.code ++ ")"
  | .javaScript, _, _, label => "(() => \x7b throw new Error(" ++ label.code ++ "); \x7d)()"
  | .sql, ir, ty, label =>
    Sql.failureCode ty (if ir.ty.isAny then Sql.readAs .text label else label.code)

/-- A row of one type is the type of one argument. -/
lemma eq_singleton_of_types {args : List Ir} {argTypes : List Ty}
    (htypes : argTypes = args.map Ir.ty) (hlength : (argTypes.map Ty.tag).length = 1) :
    ∃ label, args = [label] := by
  rw [htypes, List.length_map, List.length_map] at hlength
  exact List.length_eq_one_iff.mp hlength

/-- A failure is written with the code of its label.

**Proof sketch.** On each target only the entry `only_fail` of the registry matches the name, and it
takes one argument. What its form writes is then read off, with SQL left to say that a label of type
`any` is unwrapped from `jsonb` by `failureCode` just as `coerce` does. -/
lemma code_eq_failureCode {kind : TargetKind} {args : List Ir} {argTypes : List Ty} {ty : Ty}
    (htypes : argTypes = args.map Ir.ty) {names : Bindings} {fragment : Fragment}
    (h : (kind.target.fragment (.call "fail" args argTypes ty)).Succeeds names fragment) :
    ∃ label inner, args = [label] ∧ (kind.target.fragment label).Succeeds names inner ∧
      fragment.code = kind.failureCode label ty inner := by
  cases kind with
  | ruby =>
    obtain ⟨form, hlookup, hform⟩ := Registry.exists_of_call h
    obtain ⟨hlength, rfl⟩ := Registry.of_only rfl Ruby.only_fail hlookup
    obtain ⟨label, rfl⟩ := eq_singleton_of_types htypes hlength
    simp only [Ruby.CallForm.emit, Form.function, Form.emit, codeList, codes, Operand.code,
      Target.operands, Emit.succeeds_bind, Emit.succeeds_pure] at hform
    obtain ⟨_, ⟨_, ⟨_, ⟨inner, hinner, rfl⟩, _, rfl, rfl⟩, rfl⟩, rfl⟩ := hform
    exact ⟨label, inner, rfl, hinner, by rw [commaSeparated_singleton]; rfl⟩
  | javaScript =>
    obtain ⟨form, hlookup, hform⟩ := Registry.exists_of_call h
    obtain ⟨hlength, rfl⟩ := Registry.of_only rfl JavaScript.only_fail hlookup
    obtain ⟨label, rfl⟩ := eq_singleton_of_types htypes hlength
    simp only [JavaScript.CallForm.emit, Form.emit, Site.operand, Target.operands,
      List.getD_cons_zero, Emit.succeeds_bind, Emit.succeeds_pure] at hform
    obtain ⟨inner, hinner, rfl⟩ := hform
    exact ⟨label, inner, rfl, hinner, rfl⟩
  | sql =>
    obtain ⟨form, hlookup, hform⟩ := Registry.exists_of_call h
    obtain ⟨hlength, rfl⟩ := Registry.of_only rfl Sql.only_fail hlookup
    obtain ⟨label, rfl⟩ := eq_singleton_of_types htypes hlength
    simp only [Sql.CallForm.emit, Sql.coerce, Site.operand, Target.operands, List.getD_cons_zero,
      Emit.succeeds_bind, Emit.succeeds_pure, Sql.succeeds_failure] at hform
    obtain ⟨message, ⟨inner, hinner, hmessage⟩, _, rfl, rfl⟩ := hform
    refine ⟨label, inner, rfl, hinner, congrArg (Sql.failureCode ty) ?_⟩
    split_ifs at hmessage ⊢ with hany
    · rw [← Emit.succeeds_pure.mp hmessage]
      rfl
    · rw [← Emit.succeeds_pure.mp hmessage]

/-- Text around a text makes it longer. -/
lemma length_lt_enclosed (opening text closing : String) (hclosing : 0 < closing.length) :
    text.length < (opening ++ text ++ closing).length := by
  rw [String.length_append, String.length_append]
  omega

/-- Code of `jsonb` that is read as text becomes longer. -/
lemma length_le_readAs_text (fragment : Fragment) :
    fragment.code.length ≤ (Sql.readAs .text fragment).length := by
  have hwrap : fragment.code.length ≤ (Sql.precedence.wrap fragment "#>>" .left).length := by
    unfold PrecedenceTable.wrap
    split_ifs
    · exact (length_lt_enclosed "(" fragment.code ")" (by decide)).le
    · exact le_rfl
  have htext : (Sql.precedence.wrap fragment "#>>" .left).length ≤ (Sql.asText fragment).length := by
    rw [Sql.asText, String.length_append]
    exact Nat.le_add_right _ _
  exact hwrap.trans (htext.trans (length_lt_enclosed "(" (Sql.asText fragment) ")" (by decide)).le)

/-- A failure in SQL is longer than its message. -/
lemma length_lt_sqlFailureCode (ty : Ty) (message : String) :
    message.length < (Sql.failureCode ty message).length := by
  unfold Sql.failureCode
  split
  · exact length_lt_enclosed _ message ")" (by decide)
  · exact length_lt_enclosed _ message ")" (by decide)

/-- A failure is longer than its label. -/
lemma length_lt_failureCode (kind : TargetKind) (label : Ir) (ty : Ty) (fragment : Fragment) :
    fragment.code.length < (kind.failureCode label ty fragment).length := by
  cases kind with
  | ruby =>
    exact length_lt_enclosed "raise(" fragment.code ")" (by decide)
  | javaScript =>
    exact length_lt_enclosed "(() => \x7b throw new Error(" fragment.code "); \x7d)()" (by decide)
  | sql =>
    have hmessage : fragment.code.length ≤
        (if label.ty.isAny then Sql.readAs .text fragment else fragment.code).length := by
      split_ifs
      · exact length_le_readAs_text fragment
      · exact le_rfl
    exact hmessage.trans_lt (length_lt_sqlFailureCode ty _)

/-! ## Compiled code -/

section Places

variable {kind : TargetKind} {top : Node} {ws : List Quoting.Piece} {way : List Turn}
  {env : List (String × Ir)} {args : List Ir} {argTypes : List Ty} {ty : Ty}

/-- The code of a failure at the end of a way. -/
lemma Chart.exists_label (c : kind.Chart top ws)
    (h : kind.nodeAt way top = some ⟨env, .call "fail" args argTypes ty⟩) :
    ∃ label inner, args = [label] ∧ kind.Bound env (c.entry way).names ∧
      (kind.target.fragment label).Succeeds (c.entry way).names inner ∧
      (c.entry way).fragment.code = kind.failureCode label ty inner := by
  obtain ⟨hsound, hnode⟩ := c.sound h
  have hbound := hsound.bound
  have htyped := hsound.typed
  have hwritten := hsound.written
  rw [hnode] at hbound htyped hwritten
  have htypes : argTypes = args.map Ir.ty := by
    obtain ⟨scope, recovered, htyped⟩ := htyped
    cases htyped with
    | call _ => rfl
  obtain ⟨label, inner, hargs, hlabel, hcode⟩ := code_eq_failureCode htypes hwritten
  exact ⟨label, inner, hargs, hbound, hlabel, hcode⟩

/-- The code of a failure is not empty. -/
lemma Chart.pieces_ne_nil (c : kind.Chart top ws)
    (h : kind.nodeAt way top = some ⟨env, .call "fail" args argTypes ty⟩) :
    (c.entry way).pieces ≠ [] := by
  intro hnil
  obtain ⟨label, inner, -, -, -, hcode⟩ := c.exists_label h
  have hlength := kind.length_lt_failureCode label ty inner
  have hchars := (c.sound h).1.seals.spells.chars
  rw [hnil, hcode, List.flatMap_nil, String.toList_eq_nil_iff] at hchars
  rw [hchars] at hlength
  exact Nat.not_lt_zero _ hlength

/-- A way that leads on from a failure leads to a shorter stretch.

**Proof sketch.** Let the longer way lead through the label, as it must. If its stretch were the
stretch of the failure, the pieces on the way between them would be the same too
(`Chart.pieces_eq`), so the label would have the code of the whole failure, which is longer. -/
lemma Chart.eq_nil_of_failure (c : kind.Chart top ws) {more : List Turn} {node : Node}
    (h : kind.nodeAt way top = some ⟨env, .call "fail" args argTypes ty⟩)
    (hmore : kind.nodeAt (way ++ more) top = some node)
    (hbefore : (c.stretch (way ++ more)).before = (c.stretch way).before)
    (hafter : (c.stretch (way ++ more)).after = (c.stretch way).after) : more = [] := by
  cases more with
  | nil => rfl
  | cons t more =>
    obtain ⟨label, inner, rfl, hbound, hlabel, hcode⟩ := c.exists_label h
    rw [← List.singleton_append, ← List.append_assoc] at hmore hbefore hafter
    have hpieces := c.pieces_eq hmore hbefore hafter
    obtain ⟨part, hpart, -⟩ := nodeAt_append.mp hmore
    -- The only part of a failure is its label.
    have hnode : part = ⟨env, label⟩ := by
      obtain ⟨_, hfail, hturn⟩ := nodeAt_append.mp hpart
      cases h.symm.trans hfail
      obtain ⟨_, hturn, hlast⟩ := nodeAt_cons.mp hturn
      cases hlast
      cases t <;> simp only [turn, reduceCtorEq] at hturn
      split_ifs at hturn
      obtain ⟨a, ha, rfl⟩ := Option.map_eq_some_iff.mp hturn
      rw [List.mem_singleton.mp (List.mem_of_getElem? ha)]
    subst hnode
    obtain ⟨hsound, hnode⟩ := c.sound hpart
    have hbound' := hsound.bound
    have hwritten := hsound.written
    rw [hnode] at hbound' hwritten
    rw [← hbound.unique hbound'] at hwritten
    have hseals := hsound.seals
    rw [← Except.ok.inj (hlabel.symm.trans hwritten), hpieces] at hseals
    have hsame : inner.code = kind.failureCode label ty inner := by
      rw [← hcode, ← String.toList_inj, hseals.spells.chars, (c.sound h).1.seals.spells.chars]
    exact absurd (congrArg String.length hsame) (kind.length_lt_failureCode label ty inner).ne

end Places

/-- Every call of `fail` in the lowered form of a source that a way leads to has one argument, its
label, and a place of its own in the compiled code: the code is what stands before it, the failure of
the target with the code of the label, and what stands behind it, and the scan of the code reads the
three one after the other, so that the failure stands outside of constants. The label is written where
the names stand for what is bound around it, and a label that is a string as the constant of that
string.

**Proof sketch.** The lowered form has a chart of the compiled code, and the stretch of a failure splits
the scan. Let two failures have the same text before and behind them. Their stretches start at the same
piece, so that they are not apart, and one of the ways leads on from the end of the other. If it went
any further it would go through the label of the first failure, whose code is shorter than the failure
and could not fill the whole stretch. -/
theorem failure_compile {source : String} {kind : TargetKind} {form : OutputForm} {ir : Ir}
    {out : Compiled} (hsource : lowerSource source = .ok ir)
    (hcompile : compile source kind form = .ok out) :
    ∃ before after : List Turn → String,
      (∀ way env args argTypes ty,
        kind.nodeAt way ⟨[], ir⟩ = some ⟨env, .call "fail" args argTypes ty⟩ →
        ∃ label names fragment, args = [label] ∧ kind.Bound env names ∧
          (kind.target.fragment label).Succeeds names fragment ∧
          kind.quoting.Splits (before way) (kind.failureCode label ty fragment) (after way)
            out.code ∧
          ∀ text, label = .ofString text → fragment.code = kind.quote text) ∧
      Set.InjOn (fun way => (before way, after way)) {way | ∃ env args argTypes ty,
        kind.nodeAt way ⟨[], ir⟩ = some ⟨env, .call "fail" args argTypes ty⟩} := by
  obtain ⟨ws, hws, ⟨chart⟩⟩ := exists_chart_compile hsource hcompile
  refine ⟨fun way => kind.quoting.spelled (chart.stretch way).before,
    fun way => kind.quoting.spelled (chart.stretch way).after, fun way env args argTypes ty h => ?_, ?_⟩
  · obtain ⟨label, inner, hargs, hbound, hlabel, hcode⟩ := chart.exists_label h
    refine ⟨label, _, inner, hargs, hbound, hlabel, hcode ▸ chart.splits hws h, fun text htext => ?_⟩
    subst htext
    exact code_eq_quote hlabel
  · rintro way ⟨env, args, argTypes, ty, h⟩ way' ⟨env', args', argTypes', ty', h'⟩ heq
    obtain ⟨hbefore, hafter⟩ := Prod.mk.inj heq
    replace hbefore := (chart.eq_of_spelled_eq hws h h').1 hbefore
    replace hafter := (chart.eq_of_spelled_eq hws h h').2 hafter
    rcases chart.comparable h h' (chart.pieces_ne_nil h) (chart.pieces_ne_nil h') hbefore with
      ⟨more, rfl⟩ | ⟨more, rfl⟩
    · rw [chart.eq_nil_of_failure h h' hbefore.symm hafter.symm, List.append_nil]
    · rw [chart.eq_nil_of_failure h' h hbefore hafter, List.append_nil]

/-- A name bound to a guarded value, and two uses of it. -/
def boundGuard : Ir :=
  .letIn [("x", .cond (.ofLiteral (.bool false)) (.ofLiteral (.int 5)) (.fail "guard failed" .int)
      .int)]
    (.call "add" [.var "x" .int, .var "x" .int] [.int, .int] .int) .int

/-- The tokens of the bindings. -/
def boundGuardTokens : List Token :=
  [⟨.keyword .let, "let", 0⟩, ⟨.ident "x", "x", 4⟩, ⟨.punct .assign, "=", 6⟩,
   ⟨.keyword .guard, "guard", 8⟩, ⟨.keyword .false, "false", 14⟩, ⟨.keyword .in, "in", 20⟩,
   ⟨.literal (.int 5), "5", 23⟩, ⟨.keyword .in, "in", 25⟩, ⟨.ident "x", "x", 28⟩,
   ⟨.punct .plus, "+", 30⟩, ⟨.ident "x", "x", 32⟩, Token.atEnd 33]

/-- In SQL the guard of a bound value stands at two places of the code, one for each use of the
name.

**Proof sketch.** The guard is found by two ways, one through each argument of the sum, and its
failure splits the code at the positions of both. These positions differ, as the ways do. -/
theorem failure_boundGuard :
    lowerSource "let x = guard false in 5 in x + x" = .ok boundGuard ∧
      ∃ out before after before' after',
        compile "let x = guard false in 5 in x + x" .sql .fragment = .ok out ∧
        TargetKind.sql.quoting.Splits before "elo_fail(CAST(NULL AS BIGINT), 'guard failed')" after
          out.code ∧
        TargetKind.sql.quoting.Splits before' "elo_fail(CAST(NULL AS BIGINT), 'guard failed')" after'
          out.code ∧
        (before, after) ≠ (before', after') := by
  have htokens : (tokenize "let x = guard false in 5 in x + x").toOption = some boundGuardTokens := by
    cbv
  have hsource : lowerSource "let x = guard false in 5 in x + x" = .ok boundGuard :=
    lowerSource_eq_ok htokens rfl rfl
  obtain ⟨out, hout⟩ :
      ∃ out, compile "let x = guard false in 5 in x + x" .sql .fragment = .ok out := by
    simp only [compile, hsource]
    exact ⟨_, rfl⟩
  obtain ⟨before, after, hplaces, hinjective⟩ := failure_compile hsource hout
  have hform : Sql.failureCode .int (TargetKind.sql.quote "guard failed") =
      "elo_fail(CAST(NULL AS BIGINT), 'guard failed')" := by cbv
  -- The guard by way of the use of the name that is the argument `i` of the sum.
  have hguard {i : Nat} {env : List (String × Ir)}
      (h : TargetKind.sql.nodeAt [.body, .argument i, .use, .no] ⟨[], boundGuard⟩ =
        some ⟨env, .fail "guard failed" .int⟩) :
      TargetKind.sql.quoting.Splits (before [.body, .argument i, .use, .no])
        "elo_fail(CAST(NULL AS BIGINT), 'guard failed')" (after [.body, .argument i, .use, .no])
        out.code := by
    obtain ⟨label, names, fragment, hargs, -, -, hsplits, htext⟩ := hplaces _ _ _ _ _ h
    cases hargs
    have hcode : TargetKind.sql.failureCode (.ofString "guard failed") .int fragment =
        Sql.failureCode .int fragment.code := rfl
    rwa [hcode, htext "guard failed" rfl, hform] at hsplits
  have hfirst : TargetKind.sql.nodeAt [.body, .argument 0, .use, .no] ⟨[], boundGuard⟩ =
      some ⟨[], .fail "guard failed" .int⟩ := rfl
  have hsecond : TargetKind.sql.nodeAt [.body, .argument 1, .use, .no] ⟨[], boundGuard⟩ =
      some ⟨[], .fail "guard failed" .int⟩ := rfl
  refine ⟨hsource, out, _, _, _, _, hout, hguard hfirst, hguard hsecond, fun heq => ?_⟩
  have hways := hinjective ⟨_, _, _, _, hfirst⟩ ⟨_, _, _, _, hsecond⟩ heq
  simp at hways

/-- A test of the type of a guarded value. -/
def checkedGuard : Ir :=
  .call "is_int" [.cond (.ofLiteral (.bool false)) (.ofLiteral (.int 5)) (.fail "guard failed" .int)
    .int] [.int] .bool

/-- The tokens of the test. -/
def checkedGuardTokens : List Token :=
  [⟨.ident "Int", "Int", 0⟩, ⟨.punct .question, "?", 3⟩, ⟨.punct .openParen, "(", 4⟩,
   ⟨.keyword .guard, "guard", 5⟩, ⟨.keyword .false, "false", 11⟩, ⟨.keyword .in, "in", 17⟩,
   ⟨.literal (.int 5), "5", 20⟩, ⟨.punct .closeParen, ")", 21⟩, Token.atEnd 22]

/-- The type of the value settles the test, so that Ruby writes neither the value nor its guard. -/
theorem not_failure_checkedGuard :
    lowerSource "Int?(guard false in 5)" = .ok checkedGuard ∧
      compile "Int?(guard false in 5)" .ruby .fragment = .ok ⟨"true", []⟩ ∧
      ¬TargetKind.ruby.quoting.Within (TargetKind.ruby.failureCode (.ofString "guard failed") .int
        (.atom (TargetKind.ruby.quote "guard failed"))) "true" := by
  have htokens : (tokenize "Int?(guard false in 5)").toOption = some checkedGuardTokens := by
    cbv
  have hsource : lowerSource "Int?(guard false in 5)" = .ok checkedGuard :=
    lowerSource_eq_ok htokens rfl rfl
  refine ⟨hsource, ?_, fun hwithin => ?_⟩
  · simp only [compile, hsource]
    rfl
  · obtain ⟨before, after, hsplits⟩ := hwithin.exists_splits Ruby.lawful
    have hlength := congrArg String.length hsplits.code
    have hopening : "raise(".length = 6 := by decide
    have hwhole : "true".length = 4 := by decide
    have hform : TargetKind.ruby.failureCode (.ofString "guard failed") .int
        (.atom (TargetKind.ruby.quote "guard failed")) =
          "raise(" ++ Ruby.quote "guard failed" ++ ")" := rfl
    rw [hform, String.length_append, String.length_append, String.length_append,
      String.length_append] at hlength
    omega

end TargetKind

end Retarget
