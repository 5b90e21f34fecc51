import Retarget.Target.JavaScript
import Retarget.Target.Ruby
import Retarget.Target.Sql
import Mathlib.Tactic.Common

set_option autoImplicit false

/-!
# Quoted constants

Where a quoted constant ends. Two ways to put the quote itself between quotes are in use: behind a
backslash, and written twice.

## Main definitions

* `Retarget.Quotation.escaping`, `Retarget.Quotation.doubling` — quoted constants of the two kinds.

## Main results

* `Retarget.Quotation.escaping_ruby`, `escaping_json`, `doubling_append` — what the targets write
  between quotes is taken whole and nothing more.
-/

namespace Retarget.Quotation

/-! ## Quotes behind backslashes -/

/-- What stands up to the closing quote, where a backslash keeps the next character from closing. -/
def escapingBody (mark : Char) : Scan
  | [] => none
  | c :: cs =>
    if c = mark then some ([c], cs)
    else if c = '\x5c' then
      match cs with
      | [] => none
      | d :: ds => (escapingBody mark ds).map fun p => (c :: d :: p.1, p.2)
    else (escapingBody mark cs).map fun p => (c :: p.1, p.2)

/-- A constant between quotes, where a backslash keeps the next character from closing. -/
def escaping (mark : Char) : Scan
  | [] => none
  | c :: cs => if c = mark then (escapingBody mark cs).map fun p => (c :: p.1, p.2) else none

/-- Characters between quotes among which no quote closes. -/
def Passes (mark : Char) (chunk : List Char) : Prop :=
  ∀ rest, escapingBody mark (chunk ++ rest) =
    (escapingBody mark rest).map fun p => (chunk ++ p.1, p.2)

/-- No characters close nothing. -/
lemma passes_nil (mark : Char) : Passes mark [] := by
  intro rest
  cases h : escapingBody mark rest with
  | none => simp [h]
  | some p => simp [h]

/-- Characters that close nothing may follow each other. -/
lemma Passes.append {mark : Char} {a b : List Char} (ha : Passes mark a) (hb : Passes mark b) :
    Passes mark (a ++ b) := by
  intro rest
  rw [List.append_assoc, ha, hb, Option.map_map]
  congr 1
  funext p
  simp

/-- A character that is neither a quote nor a backslash. -/
lemma passes_plain {mark c : Char} (hmark : c ≠ mark) (hslash : c ≠ '\x5c') : Passes mark [c] := by
  intro rest
  rw [List.singleton_append, escapingBody.eq_def]
  simp only [if_neg hmark, if_neg hslash]
  rfl

/-- A backslash and any character behind it. -/
lemma passes_escape {mark : Char} (hmark : '\x5c' ≠ mark) (c : Char) :
    Passes mark ['\x5c', c] := by
  intro rest
  rw [List.cons_append, List.singleton_append, escapingBody, if_neg hmark, if_pos rfl]
  rfl

/-- A text closes nothing where none of its characters does as it is written. -/
lemma passes_flatMap {mark : Char} {escaped : Char → List Char}
    (h : ∀ c, Passes mark (escaped c)) (s : List Char) : Passes mark (s.flatMap escaped) := by
  induction s with
  | nil => exact passes_nil mark
  | cons c cs ih => exact (h c).append ih

/-- A constant ends with the first quote that closes. -/
lemma escaping_append {mark : Char} {body : List Char} (h : Passes mark body)
    (rest : List Char) :
    escaping mark (mark :: (body ++ mark :: rest)) = some (mark :: (body ++ [mark]), rest) := by
  rw [escaping, if_pos rfl, h, escapingBody.eq_def]
  simp

/-- Between single quotes Ruby escapes the quote and the backslash. -/
lemma escaping_ruby (s : String) (rest : List Char) :
    escaping '\x27' ((Ruby.quote s).toList ++ rest) = some ((Ruby.quote s).toList, rest) := by
  have hbody : Passes '\x27' (s.toList.flatMap Ruby.escaped) := by
    refine passes_flatMap (fun c => ?_) _
    unfold Ruby.escaped
    split_ifs with h
    · exact passes_escape (by decide) c
    · push Not at h
      exact passes_plain h.2 h.1
  have hquote : (Ruby.quote s).toList = '\x27' :: (s.toList.flatMap Ruby.escaped ++ ['\x27']) := by
    simp [Ruby.quote]
  rw [hquote]
  simpa using escaping_append hbody rest

/-- The two hexadecimal digits of a control character close nothing. -/
lemma passes_twoHexDigits {n : Nat} (h : n < 32) :
    Passes '\x22' (JsonString.twoHexDigits n) := by
  have hdigit : ∀ d < 16, Nat.digitChar d ≠ '\x22' ∧ Nat.digitChar d ≠ '\x5c' := by decide
  obtain ⟨h₁, h₂⟩ := hdigit (n / 16) (by omega)
  obtain ⟨h₃, h₄⟩ := hdigit (n % 16) (by omega)
  exact (passes_plain h₁ h₂).append (passes_plain h₃ h₄)

/-- Between double quotes the escapes of JSON close nothing. -/
lemma escaping_json (s : String) (rest : List Char) :
    escaping '\x22' ((JsonString.quote s).toList ++ rest) =
      some ((JsonString.quote s).toList, rest) := by
  have hbody : Passes '\x22' (JsonString.body s) := by
    refine passes_flatMap (fun c => ?_) _
    unfold JsonString.escaped
    split_ifs with h hn hr ht hb hf hcontrol
    · exact passes_escape (by decide) c
    · exact passes_escape (by decide) 'n'
    · exact passes_escape (by decide) 'r'
    · exact passes_escape (by decide) 't'
    · exact passes_escape (by decide) 'b'
    · exact passes_escape (by decide) 'f'
    · have hzero : Passes '\x22' ['0'] := passes_plain (by decide) (by decide)
      exact (passes_escape (by decide) 'u').append (hzero.append
        (hzero.append (passes_twoHexDigits hcontrol)))
    · push Not at h
      exact passes_plain h.1 h.2
  have hquote : (JsonString.quote s).toList = '\x22' :: (JsonString.body s ++ ['\x22']) := by
    simp [JsonString.quote]
  rw [hquote]
  simpa using escaping_append hbody rest

/-! ## Quotes written twice -/

/-- What stands up to the closing quote, where two quotes stand for one. -/
def doublingBody (mark : Char) : Scan
  | [] => none
  | c :: cs =>
    if c = mark then
      match cs with
      | [] => some ([c], [])
      | d :: ds =>
        if d = mark then (doublingBody mark ds).map fun p => (c :: d :: p.1, p.2)
        else some ([c], d :: ds)
    else (doublingBody mark cs).map fun p => (c :: p.1, p.2)

/-- A constant between single or double quotes, where two quotes stand for one. -/
def doubling : Scan
  | [] => none
  | c :: cs =>
    if c ∈ ['\x27', '\x22'] then (doublingBody c cs).map fun p => (c :: p.1, p.2) else none

/-- A constant in which the quotes are written twice ends with a single quote.

**Proof sketch.** By induction on the characters. A quote is written twice and read as one; the mark
behind the last character is a single one, as `rest` does not start with it. -/
lemma doubling_append {mark : Char} (hmark : mark ∈ ['\x27', '\x22']) (s : String)
    {rest : List Char} (hrest : rest.head? ≠ some mark) :
    doubling (mark :: ((Sql.doubled mark s).toList ++ mark :: rest)) =
      some (mark :: ((Sql.doubled mark s).toList ++ [mark]), rest) := by
  have hbody (cs : List Char) :
      doublingBody mark ((cs.flatMap fun c => if c = mark then [c, c] else [c]) ++ mark :: rest) =
        some ((cs.flatMap fun c => if c = mark then [c, c] else [c]) ++ [mark], rest) := by
    induction cs with
    | nil =>
      cases rest with
      | nil => simp [doublingBody]
      | cons d ds =>
        have hd : d ≠ mark := fun h => hrest (by rw [h]; rfl)
        simp [doublingBody, hd]
    | cons c cs ih =>
      rw [List.flatMap_cons, List.append_assoc]
      split_ifs with hc
      · rw [List.cons_append, List.singleton_append, doublingBody, if_pos hc]
        simp only [if_pos hc, ih]
        rfl
      · rw [List.singleton_append, doublingBody.eq_def]
        simp only [if_neg hc, ih]
        rfl
  rw [doubling, if_pos hmark, Sql.doubled, String.toList_ofList, hbody]
  rfl

end Retarget.Quotation
