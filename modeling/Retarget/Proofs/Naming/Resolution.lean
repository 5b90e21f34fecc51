import Mathlib
import Retarget.Proofs.Naming.JavaScript
import Retarget.Proofs.Naming.Ruby
import Retarget.Proofs.Quoting.Sql

set_option autoImplicit false

/-!
# Which binder a variable finds

A target respells the names that it reserves. JavaScript marks them with a character that no name of
the language has, and SQL puts them in quotes, so different names stay different. Ruby marks them
with an underscore, which names of the language have too: there a reserved word meets the name with
an underscore behind it, and a capitalized name the one with an underscore before it.

In code with functions a variable finds the nearest parameter of its spelling. This is the binder
that it has in the lowered form exactly where no nearer binder has the same spelling.

## Main definitions

* `Retarget.Ruby.Merges` — two names get one spelling in Ruby.
* `Retarget.TargetKind.outline?` — how a target with functions lays out code.

## Main results

* `Retarget.variables_resolve_iff` — which names get one code, and which variables find their binder.
-/

namespace Retarget

/-! ## Spellings -/

/-- The first place of a spelling is that of the name exactly where no name before it has the same
spelling. -/
lemma idxOf?_map_eq_iff (spell : String → String) (name : String) (names : List String) :
    (names.map spell).idxOf? (spell name) = names.idxOf? name ↔
      ∀ p ∈ names.takeWhile (· != name), spell p ≠ spell name := by
  induction names with
  | nil => simp
  | cons p names ih =>
    by_cases hname : p = name
    · subst hname
      simp [List.idxOf?_cons]
    · by_cases hspell : spell p = spell name
      · have hbefore : p ∈ (p :: names).takeWhile (· != name) := by simp [hname]
        constructor
        · intro hplace
          cases hrest : names.idxOf? name with
          | none => simp [List.idxOf?_cons, hname, hspell, hrest] at hplace
          | some i => simp [List.idxOf?_cons, hname, hspell, hrest] at hplace
        · exact fun hall => absurd hspell (hall p hbefore)
      · simp [List.idxOf?_cons, hname, hspell, Option.map_inj_right, ih]

/-- A name of the language has no character but letters, digits and underscores. -/
lemma IsIdentifier.isIdentPart {name : String} (h : IsIdentifier name) :
    ∀ c ∈ name.toList, Lexer.isIdentPart c = true := by
  obtain ⟨c, cs, heq, hstart, hparts⟩ := h
  rw [heq]
  refine List.forall_mem_cons.mpr ⟨?_, hparts⟩
  simp only [Lexer.isIdentStart, Lexer.isIdentPart, Char.isAlphanum, Bool.or_eq_true] at hstart ⊢
  tauto

namespace JavaScript

/-- JavaScript spells different names differently. -/
lemma localName_inj {a b : String} (ha : IsIdentifier a) (hb : IsIdentifier b) :
    localName a = localName b ↔ a = b := by
  have hmark {a b : String} (hb : IsIdentifier b) : a ++ "$" ≠ b := by
    rintro rfl
    have hpart := hb.isIdentPart '$' (by simp)
    exact absurd hpart (by decide)
  refine ⟨fun h => ?_, congrArg _⟩
  unfold localName at h
  split_ifs at h
  · exact (String.append_left_inj "$").mp h
  · exact absurd h (hmark hb)
  · exact absurd h.symm (hmark ha)
  · exact h

end JavaScript

namespace Ruby

/-- The names get one spelling: a reserved word and the word with an underscore behind it, or a
capitalized name and the name with an underscore before it. -/
def Merges (a b : String) : Prop :=
  (a ∈ reserved ∧ b = a ++ "_") ∨ (a.toList.head?.any Char.isUpper = true ∧ b = "_" ++ a)

/-- The text is an underscore with a capital behind it. -/
def isMarkedCapital (s : String) : Bool :=
  match s.toList with
  | '_' :: c :: _ => c.isUpper
  | _ => false

/-- A capitalized name with an underscore before it is an underscore with a capital behind it. -/
lemma isMarkedCapital_of_capital {name : String} (h : name.toList.head?.any Char.isUpper = true) :
    isMarkedCapital ("_" ++ name) = true := by
  cases hname : name.toList with
  | nil => simp [hname] at h
  | cons c cs =>
    have hlist : ("_" ++ name).toList = '_' :: c :: cs := by simp [hname]
    simpa [isMarkedCapital, hlist, hname] using h

set_option maxRecDepth 4000 in
/-- No reserved word is spelled like another respelled name. -/
lemma reserved_apart : ∀ w ∈ reserved, isMarkedCapital w = false ∧
    isMarkedCapital (w ++ "_") = false ∧ w.toList.head?.any Char.isUpper = false ∧
    (w ++ "_").toList.head?.any Char.isUpper = false ∧ w ++ "_" ∉ reserved := by
  decide

/-- A reserved word gets an underscore behind it. -/
lemma localName_reserved {name : String} (h : name ∈ reserved) : localName name = name ++ "_" :=
  if_pos h

/-- A capitalized name gets an underscore before it. -/
lemma localName_capital {name : String} (h : name.toList.head?.any Char.isUpper = true) :
    localName name = "_" ++ name := by
  have hreserved : name ∉ reserved := by
    intro hmem
    have hlower := (reserved_apart name hmem).2.2.1
    rw [h] at hlower
    cases hlower
  rw [localName, if_neg hreserved, if_pos h]

/-- The names that merge have one spelling. -/
lemma localName_eq_of_merges {a b : String} (h : Merges a b) : localName a = localName b := by
  rcases h with ⟨hreserved, rfl⟩ | ⟨hcapital, rfl⟩
  · obtain ⟨-, -, -, hlower, hother⟩ := reserved_apart a hreserved
    rw [localName_reserved hreserved, localName, if_neg hother,
      if_neg (Bool.eq_false_iff.mp hlower)]
  · have hother : "_" ++ a ∉ reserved := by
      intro hmem
      have hmarked := (reserved_apart _ hmem).1
      rw [isMarkedCapital_of_capital hcapital] at hmarked
      cases hmarked
    have hlower : ¬("_" ++ a).toList.head?.any Char.isUpper = true := by simp
    rw [localName_capital hcapital, localName, if_neg hother, if_neg hlower]

/-- Two names have one spelling exactly where they merge.

**Proof sketch.** A name is spelled as it is, with an underscore behind it if it is reserved, or
with one before it if it is capitalized. Two spellings agree for two names only where one of them is
changed into the other. -/
lemma localName_eq_iff {a b : String} (hne : a ≠ b) :
    localName a = localName b ↔ Merges a b ∨ Merges b a := by
  have hmixed {a b : String} (ha : a ∈ reserved)
      (hb : b.toList.head?.any Char.isUpper = true) : a ++ "_" ≠ "_" ++ b := by
    intro heq
    have hmarked := (reserved_apart a ha).2.1
    rw [heq, isMarkedCapital_of_capital hb] at hmarked
    cases hmarked
  -- Each name is reserved, capitalized or neither; of the nine cases four are merged names.
  constructor
  · intro h
    by_cases ha : a ∈ reserved
    · rw [localName_reserved ha] at h
      by_cases hb : b ∈ reserved
      · rw [localName_reserved hb] at h
        exact absurd ((String.append_left_inj "_").mp h) hne
      · by_cases hcapital : b.toList.head?.any Char.isUpper = true
        · rw [localName_capital hcapital] at h
          exact absurd h (hmixed ha hcapital)
        · rw [localName, if_neg hb, if_neg hcapital] at h
          exact .inl (.inl ⟨ha, h.symm⟩)
    · by_cases hcapital : a.toList.head?.any Char.isUpper = true
      · rw [localName_capital hcapital] at h
        by_cases hb : b ∈ reserved
        · rw [localName_reserved hb] at h
          exact absurd h.symm (hmixed hb hcapital)
        · by_cases hother : b.toList.head?.any Char.isUpper = true
          · rw [localName_capital hother] at h
            exact absurd ((String.append_right_inj "_").mp h) hne
          · rw [localName, if_neg hb, if_neg hother] at h
            exact .inl (.inr ⟨hcapital, h.symm⟩)
      · rw [localName, if_neg ha, if_neg hcapital] at h
        by_cases hb : b ∈ reserved
        · exact .inr (.inl ⟨hb, h.trans (localName_reserved hb)⟩)
        · by_cases hother : b.toList.head?.any Char.isUpper = true
          · exact .inr (.inr ⟨hother, h.trans (localName_capital hother)⟩)
          · rw [localName, if_neg hb, if_neg hother] at h
            exact absurd h hne
  · rintro (h | h)
    · exact localName_eq_of_merges h
    · exact (localName_eq_of_merges h).symm

end Ruby

namespace Sql

/-- SQL writes different names differently. -/
lemma identifier_inj {a b : String} : identifier a = identifier b ↔ a = b := by
  have hquoted {a b : String} (ha : isPlainName a = true) :
      a ≠ "\x22" ++ doubled '\x22' b ++ "\x22" := by
    intro heq
    have hplain : ∀ c ∈ a.toList, isPlain c = true := by
      simp only [isPlainName, Bool.and_eq_true, List.all_eq_true] at ha
      exact ha.1.1
    exact absurd (hplain '\x22' (by simp [heq])) (by decide)
  refine ⟨fun h => ?_, congrArg _⟩
  unfold identifier at h
  split_ifs at h with ha hb hb
  · exact h
  · exact absurd h (hquoted ha)
  · exact absurd h.symm (hquoted hb)
  · have hdoubled : doubled '\x22' a = doubled '\x22' b :=
      (String.append_right_inj "\x22").mp ((String.append_left_inj "\x22").mp h)
    have hsame := undoubled_doubled '\x22' a
    rw [hdoubled, undoubled_doubled] at hsame
    exact String.toList_inj.mp hsame.symm

end Sql

/-! ## Variables in code -/

/-- How a target with functions lays out code. -/
def TargetKind.outline? : TargetKind → Option Outline
  | .ruby => some Ruby.outline
  | .javaScript => some JavaScript.outline
  | .sql => none

/-- The outline of a target describes it and keeps names in their scopes. -/
lemma TargetKind.lawful_outline {kind : TargetKind} {o : Outline} (h : kind.outline? = some o) :
    o.Describes kind.target ∧ o.KeepsNames := by
  cases kind with
  | ruby =>
    cases h
    exact ⟨Ruby.describes, Ruby.keepsNames⟩
  | javaScript =>
    cases h
    exact ⟨JavaScript.describes, JavaScript.keepsNames⟩
  | sql => cases h

/-- Only Ruby gives two names one code. -/
lemma TargetKind.variableCode_eq_iff {kind : TargetKind} {a b : String} (ha : IsIdentifier a)
    (hb : IsIdentifier b) (hne : a ≠ b) :
    kind.target.variableCode a = kind.target.variableCode b ↔
      kind = .ruby ∧ (Ruby.Merges a b ∨ Ruby.Merges b a) := by
  have hatoms {c d : String} : Fragment.atom c = .atom d ↔ c = d := by simp [Fragment.atom]
  cases kind with
  | ruby =>
    have hcode := hatoms.trans (Ruby.localName_eq_iff hne)
    exact hcode.trans (by simp)
  | javaScript =>
    have hcode := hatoms.trans (JavaScript.localName_inj ha hb)
    exact hcode.trans (by simp [hne])
  | sql =>
    have hcode := hatoms.trans (Sql.identifier_inj (a := a) (b := b))
    exact hcode.trans (by simp [hne])

/-- A variable in well-named code finds its binder exactly where no nearer binder merges with it.

**Proof sketch.** A name is found at the first place of its spelling, and this is its binder unless
a nearer one is spelled alike. Different identifiers that are spelled alike merge
(`variableCode_eq_iff`). -/
lemma TargetKind.resolves_iff {kind : TargetKind} {o : Outline} (ho : o.Describes kind.target)
    {own : String → Bool} {row : List Scrap} (hrow : AllWellNamed own [] row) {name : String}
    {binder : Option Nat} {context : List String} (h : Stands (.use name binder) context row) :
    (context.map o.spell).idxOf? (o.spell name) = binder ↔
      ¬(kind = .ruby ∧ ∃ nearer ∈ context.takeWhile (· != name),
        Ruby.Merges nearer name ∨ Ruby.Merges name nearer) := by
  have hcontext := h.isIdentifier hrow
  have hwell := h.wellNamed hrow
  rw [List.append_nil] at hwell
  cases hwell with
  | use hname =>
    have hspell {p : String} (hp : p ∈ context.takeWhile (· != name)) :
        o.spell p = o.spell name ↔ kind = .ruby ∧ (Ruby.Merges p name ∨ Ruby.Merges name p) := by
      have hne : p ≠ name := by simpa using List.mem_takeWhile_imp hp
      have hidentifier := hcontext p ((List.takeWhile_prefix _).subset hp)
      rw [← variableCode_eq_iff hidentifier hname hne, ho.variableCode, ho.variableCode]
      simp [Fragment.atom]
    rw [idxOf?_map_eq_iff]
    constructor
    · rintro hall ⟨hruby, p, hp, hmerges⟩
      exact hall p hp ((hspell hp).mpr ⟨hruby, hmerges⟩)
    · intro hnone p hp heq
      obtain ⟨hruby, hmerges⟩ := (hspell hp).mp heq
      exact hnone ⟨hruby, p, hp, hmerges⟩

/-- Different identifiers get different codes in every target but Ruby, and there all but a reserved
word with the word that has an underscore behind it, and a capitalized name with the name that has an
underscore before it. Code of Ruby and JavaScript is laid out so that every variable in it has its
binder in the lowered form. The nesting of the functions leads the variable to this binder exactly
where no nearer binder merges with it.

**Proof sketch.** The first part is `variableCode_eq_iff`. For the second one the layout of the
target spells the code and is well named, so `resolves_iff` applies to every variable that stands in
it. -/
theorem variables_resolve_iff (kind : TargetKind) :
    (∀ {a b : String}, IsIdentifier a → IsIdentifier b → a ≠ b →
      (kind.target.variableCode a = kind.target.variableCode b ↔
        kind = .ruby ∧ (Ruby.Merges a b ∨ Ruby.Merges b a))) ∧
    ∀ {o : Outline}, kind.outline? = some o → ∀ {ir : Ir} {form : OutputForm} {out : Compiled},
      ir.Named → kind.target.compile form ir = .ok out →
        scrapsCode o.spell (o.tree form ir) = out.code ∧
        ∀ {name : String} {binder : Option Nat} {context : List String},
          Stands (.use name binder) context (o.tree form ir) →
            ((context.map o.spell).idxOf? (o.spell name) = binder ↔
              ¬(kind = .ruby ∧ ∃ nearer ∈ context.takeWhile (· != name),
                Ruby.Merges nearer name ∨ Ruby.Merges name nearer)) := by
  refine ⟨TargetKind.variableCode_eq_iff, fun ho ir form out hnamed hcompile => ?_⟩
  obtain ⟨hdescribes, hkeeps⟩ := TargetKind.lawful_outline ho
  refine ⟨(hdescribes.spelled_tree hnamed hcompile).code_eq, fun hstands => ?_⟩
  exact TargetKind.resolves_iff hdescribes (hkeeps.wellNamed_tree hnamed form) hstands

/-- A reserved word bound around the word with an underscore. -/
def shadowedWord : Ir :=
  .letIn [("end", .ofLiteral (.int 1)), ("end_", .ofLiteral (.int 2))] (.var "end" .int) .int

/-- The tokens of the bindings. -/
def shadowedWordTokens : List Token :=
  [⟨.keyword .let, "let", 0⟩, ⟨.ident "end", "end", 4⟩, ⟨.punct .assign, "=", 8⟩,
   ⟨.literal (.int 1), "1", 10⟩, ⟨.punct .comma, ",", 11⟩, ⟨.ident "end_", "end_", 13⟩,
   ⟨.punct .assign, "=", 18⟩, ⟨.literal (.int 2), "2", 20⟩, ⟨.keyword .in, "in", 22⟩,
   ⟨.ident "end", "end", 25⟩, Token.atEnd 28]

/-- The body of the inner binding means the outer one, and finds the inner one. -/
theorem variables_resolve_shadowedWord :
    lowerSource "let end = 1, end_ = 2 in end" = .ok shadowedWord ∧
      compile "let end = 1, end_ = 2 in end" .ruby .fragment =
        .ok ⟨"->(end_) \x7b ->(end_) \x7b end_ \x7d.call(2) \x7d.call(1)", []⟩ ∧
      Ruby.target.variableCode "end" = Ruby.target.variableCode "end_" ∧
      Stands (.use "end" (some 1)) ["end_", "end"] (Ruby.outline.tree .fragment shadowedWord) ∧
      (["end_", "end"].map Ruby.localName).idxOf? (Ruby.localName "end") ≠ some 1 := by
  have htokens : (tokenize "let end = 1, end_ = 2 in end").toOption = some shadowedWordTokens := by
    cbv
  have hsource : lowerSource "let end = 1, end_ = 2 in end" = .ok shadowedWord :=
    lowerSource_eq_ok htokens rfl rfl
  have hcompile : Ruby.target.compile .fragment shadowedWord =
      .ok ⟨"->(end_) \x7b ->(end_) \x7b end_ \x7d.call(2) \x7d.call(1)", []⟩ := rfl
  have hmerges : Ruby.Merges "end" "end_" := .inl ⟨by decide, by decide⟩
  have hidentifier : IsIdentifier "end" ∧ IsIdentifier "end_" :=
    ⟨⟨'e', ['n', 'd'], rfl, rfl, List.all_eq_true.mp rfl⟩,
      ⟨'e', ['n', 'd', '_'], rfl, rfl, List.all_eq_true.mp rfl⟩⟩
  have hnamed : shadowedWord.Named := (lexical_of_lowerSource hsource).named
  have hstands : Stands (.use "end" (some 1)) ["end_", "end"]
      (Ruby.outline.tree .fragment shadowedWord) := by
    change Stands _ (([] ++ ["end_"].reverse) ++ ["end"].reverse) _
    exact .inside List.mem_cons_self (.inside List.mem_cons_self (.here List.mem_cons_self))
  obtain ⟨hcodes, hlaid⟩ := variables_resolve_iff .ruby
  have hresolves := (hlaid rfl hnamed hcompile).2 hstands
  refine ⟨hsource, by simp only [compile, hsource]; exact hcompile,
    (hcodes hidentifier.1 hidentifier.2 (by decide)).mpr ⟨rfl, .inl hmerges⟩, hstands, ?_⟩
  intro hfound
  exact hresolves.mp hfound ⟨rfl, "end_", by decide, .inr hmerges⟩

end Retarget
