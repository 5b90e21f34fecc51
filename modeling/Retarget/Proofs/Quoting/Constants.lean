import Mathlib
import Retarget.Proofs.Quoting.Ways

set_option autoImplicit false

/-!
# Strings in compiled code

Whatever characters the strings of a source hold, compiled code is sealed: scanning it by the rules of
its target finds constants that end and brackets that match, and every string that the target writes
is a constant that denotes exactly that string. Equal strings at different places of the lowered form
are different constants of the code.

## Main results

* `Retarget.TargetKind.scan_compile` — the scan of compiled code, with one constant for each place of a
  string.
-/

namespace Retarget.TargetKind

open Quoting

/-- The quote that strings stand between. -/
def mark : TargetKind → Char
  | .ruby | .sql => '\x27'
  | .javaScript => '\x22'

/-- A string as a constant of the target. -/
def quote : TargetKind → String → String
  | .ruby => Ruby.quote
  | .javaScript => JsonString.quote
  | .sql => Sql.quote

/-- The scan of a string constant finds that constant only. -/
lemma seals_quote (kind : TargetKind) (text : String) :
    kind.quoting.Seals [.constant kind.mark text] (kind.quote text) := by
  cases kind with
  | ruby => exact Ruby.seals_quote text
  | javaScript => exact JavaScript.seals_quote text
  | sql => exact Sql.seals_quote text

/-- A string is written as a constant. -/
lemma code_eq_quote {kind : TargetKind} {names : Bindings} {text : String} {ty : Ty}
    {fragment : Fragment}
    (h : (kind.target.fragment (.literal (.string text) ty)).Succeeds names fragment) :
    fragment.code = kind.quote text := by
  change (kind.target.literal (.string text)).Succeeds names fragment at h
  cases kind with
  | ruby =>
    rw [← Emit.succeeds_pure.mp h]
    rfl
  | javaScript =>
    simp only [target, JavaScript.target, Emit.succeeds_bind, Emit.succeeds_requireAll,
      Emit.succeeds_pure] at h
    obtain ⟨-, -, rfl⟩ := h
    rfl
  | sql =>
    rw [← Emit.succeeds_pure.mp h]
    rfl

/-- Code that is a string constant is scanned to that constant. -/
lemma pieces_eq_of_string {kind : TargetKind} {s : Entry} (hs : s.Sound kind)
    {env : List (String × Ir)} {text : String} {ty : Ty}
    (hnode : s.node = ⟨env, .literal (.string text) ty⟩) :
    s.fragment.code = kind.quote text ∧ s.pieces = [.constant kind.mark text] := by
  have hwritten := hs.written
  rw [hnode] at hwritten
  have hcode := code_eq_quote hwritten
  exact ⟨hcode, hs.seals.unique kind.lawful (hcode ▸ kind.seals_quote text)⟩

/-- No turn leads on from a string. -/
lemma eq_nil_of_string {kind : TargetKind} {top node : Node} {way more : List Turn}
    {env : List (String × Ir)} {text : String} {ty : Ty}
    (h : kind.nodeAt way top = some ⟨env, .literal (.string text) ty⟩)
    (hmore : kind.nodeAt (way ++ more) top = some node) : more = [] := by
  obtain ⟨part, hpart, hrest⟩ := nodeAt_append.mp hmore
  cases h.symm.trans hpart
  cases more with
  | nil => rfl
  | cons t more =>
    obtain ⟨_, hturn, -⟩ := nodeAt_cons.mp hrest
    cases t <;> simp [turn] at hturn

/-- Scanning compiled code by the rules of its target finds constants that end, and brackets that match
outside of them. Every string that the target writes has a place of its own in the code: the code is
what stands before it, the string as a constant, and what stands behind it, and the scan reads the
constant back as exactly that string.

**Proof sketch.** The lowered form has a chart of the compiled code. The entry at a string is scanned to
one constant, so that its stretch splits the scan at that constant. Strings have no parts, so neither of
two places leads on from the other; their stretches are apart, and one starts behind the other. -/
theorem scan_compile {source : String} {kind : TargetKind} {form : OutputForm} {out : Compiled}
    (hcompile : compile source kind form = .ok out) :
    ∃ ir pieces, lowerSource source = .ok ir ∧
      kind.quoting.pieces? 0 out.code.toList = some pieces ∧ Balanced pieces ∧
      ∃ before after : List Turn → String,
        (∀ way env text ty, kind.nodeAt way ⟨[], ir⟩ = some ⟨env, .literal (.string text) ty⟩ →
          ∃ ps qs, out.code = before way ++ kind.quote text ++ after way ∧
            pieces = ps ++ .constant kind.mark text :: qs ∧
            kind.quoting.pieces? 0 (before way).toList = some ps ∧
            kind.quoting.pieces? 0 (after way).toList = some qs) ∧
        Set.InjOn before
          {way | ∃ env text ty, kind.nodeAt way ⟨[], ir⟩ = some ⟨env, .literal (.string text) ty⟩} := by
  obtain ⟨ir, hsource⟩ : ∃ ir, lowerSource source = .ok ir := by
    unfold compile at hcompile
    split at hcompile
    · cases hcompile
    · exact ⟨_, ‹_›⟩
  obtain ⟨pieces, hpieces, ⟨chart⟩⟩ := exists_chart_compile hsource hcompile
  refine ⟨ir, pieces, hsource, hpieces.spells.pieces?_eq kind.lawful, hpieces.balanced,
    fun way => kind.quoting.spelled (chart.stretch way).before,
    fun way => kind.quoting.spelled (chart.stretch way).after, fun way env text ty h => ?_, ?_⟩
  · obtain ⟨hsound, hnode⟩ := chart.sound h
    obtain ⟨hcode, hconstant⟩ := pieces_eq_of_string hsound hnode
    obtain ⟨hrow, hinside⟩ := chart.row h
    have hseals : kind.quoting.Seals (chart.stretch way).row out.code := by rwa [hrow]
    obtain ⟨hbefore, hafter⟩ := Stretch.pieces?_spelled kind.lawful hseals
    refine ⟨_, _, hcode ▸ (chart.splits hpieces h).code, ?_, hbefore, hafter⟩
    refine hrow.symm.trans ?_
    rw [Stretch.row, hinside, hconstant, List.append_assoc]
    rfl
  · rintro way ⟨env, text, ty, h⟩ way' ⟨env', text', ty', h'⟩ heq
    have hstart := (chart.eq_of_spelled_eq hpieces h h').1 heq
    have hsome {way : List Turn} {env : List (String × Ir)} {text : String} {ty : Ty}
        (h : kind.nodeAt way ⟨[], ir⟩ = some ⟨env, .literal (.string text) ty⟩) :
        (chart.entry way).pieces ≠ [] := by
      rw [(pieces_eq_of_string (chart.sound h).1 (chart.sound h).2).2]
      exact List.cons_ne_nil _ _
    rcases chart.comparable h h' (hsome h) (hsome h') hstart with ⟨more, rfl⟩ | ⟨more, rfl⟩
    · rw [eq_nil_of_string h h', List.append_nil]
    · rw [eq_nil_of_string h' h, List.append_nil]

/-- The sum of a string with a quote and a bracket, and a string that is a backslash. -/
def hostileSum : Ir := .call "add" [.ofString "')", .ofString "\\"] [.string, .string] .string

/-- The tokens of the sum. -/
def hostileSumTokens : List Token :=
  [⟨.literal (.string "')"), "\"')\"", 0⟩, ⟨.punct .plus, "+", 5⟩,
   ⟨.literal (.string "\\"), "'\\\\'", 7⟩, Token.atEnd 11]

/-- In Ruby neither the quote and the bracket of one string nor the backslash of the other end their
constants early or late. -/
theorem scan_hostileSum :
    lowerSource "\"')\" + '\\\\'" = .ok hostileSum ∧
      ∃ out pieces, compile "\"')\" + '\\\\'" .ruby .fragment = .ok out ∧
        TargetKind.ruby.quoting.pieces? 0 out.code.toList = some pieces ∧ Balanced pieces ∧
        .constant '\x27' "')" ∈ pieces ∧ .constant '\x27' "\\" ∈ pieces := by
  have htokens : (tokenize "\"')\" + '\\\\'").toOption = some hostileSumTokens := by cbv
  have hsource : lowerSource "\"')\" + '\\\\'" = .ok hostileSum := lowerSource_eq_ok htokens rfl rfl
  obtain ⟨out, hout⟩ : ∃ out, compile "\"')\" + '\\\\'" .ruby .fragment = .ok out := by
    simp only [compile, hsource]
    exact ⟨_, rfl⟩
  obtain ⟨ir, pieces, hir, hpieces, hbalanced, hstrings⟩ := scan_compile hout
  cases hsource.symm.trans hir
  obtain ⟨before, after, hplaces, -⟩ := hstrings
  have hmem (way : List Turn) {text : String} (h : TargetKind.ruby.nodeAt way ⟨[], hostileSum⟩ =
      some ⟨[], .ofString text⟩) : .constant '\x27' text ∈ pieces := by
    obtain ⟨ps, qs, -, rfl, -⟩ := hplaces way [] text .string h
    simp [mark]
  exact ⟨hsource, out, pieces, hout, hpieces, hbalanced, hmem [.argument 0] rfl,
    hmem [.argument 1] rfl⟩

end Retarget.TargetKind
