import Retarget.Proofs.Scoping

set_option autoImplicit false

/-!
# Groups of candidates

A run of candidates in parentheses that another candidate follows is lowered like its members in the
row itself: an alternative that is a candidate gives its own candidates. The last member of a group is
the exception to look at. In the group it is lowered as it is and then softened, in the row it is
lowered as a candidate that is followed. The two agree unless it is a selector that raises and has
constraints, or a message that does not lower.

## Main definitions

* `Retarget.Grouped` — a row of candidates, with runs in parentheses at any depth.
* `Retarget.Grouped.exprs`, `Retarget.Grouped.flat` — the row with and without its parentheses.
* `Retarget.Grouped.ends` — the candidates that groups end in.
* `Retarget.Expr.Steady` — lowering gives the same, whether softened afterwards or at once.

## Main results

* `Retarget.lower_grouped` — parentheses do not matter exactly where all groups end steadily.
-/

namespace Retarget

variable {α : Type}

/-! ## Rows with groups -/

/-- A row of candidates, some runs of which stand in parentheses. -/
inductive Grouped (α : Type)
  | nil
  | one (e : Expr α) (rest : Grouped α)
  /-- Members in parentheses, which are groups again, and what stands behind them. -/
  | group (note : α) (members rest : Grouped α)

namespace Grouped

/-- The row as it is written, each group an alternative of its own. -/
def exprs : Grouped α → List (Expr α)
  | nil => []
  | one e rest => e :: rest.exprs
  | group note members rest => .alternative note members.exprs :: rest.exprs

/-- The row without parentheses. -/
def flat : Grouped α → List (Expr α)
  | nil => []
  | one e rest => e :: rest.flat
  | group _ members rest => members.flat ++ rest.flat

/-- The last candidate of the row, unless that is a group. -/
def closing? : Grouped α → Option (Expr α)
  | nil => none
  | one e nil => some e
  | one _ rest => rest.closing?
  | group _ _ rest => rest.closing?

/-- The candidates that the groups of the row end in. -/
def ends : Grouped α → List (Expr α)
  | nil => []
  | one _ rest => rest.ends
  | group _ members rest => members.closing?.toList ++ members.ends ++ rest.ends

end Grouped

/-- A selector that raises has no constraints, and its message lowers. -/
def Expr.Steady (scope : Scope) : Expr α → Prop
  | .select _ _ policy constraints args => policy = policy.recoverable ∨
      constraints = [] ∧ ∀ message ∈ args[1]?, message.Lowers scope false
  | _ => True

/-! ## Softening twice -/

/-- What is not an alternative is softened in one piece. -/
lemma softened_eq_singleton {ir : Ir} (h : ∀ candidates ty, ir ≠ .alternative candidates ty) :
    ir.softened = [ir.soften] := by
  cases ir with
  | alternative candidates ty => exact absurd rfl (h candidates ty)
  | _ => rfl

/-- The twin of a raising selector does not raise. -/
lemma raisingStem?_orNull {s : Selectable} (hs : s ∈ selectables) :
    raisingStem? ("as_" ++ s.stem ++ "_or_null") = none := by
  rw [raisingStem?, Option.map_eq_none_iff, List.find?_eq_none]
  intro t ht
  obtain ⟨has, hassert⟩ := orNull_ne_raising s hs t ht
  simpa [Selectable.raising] using ⟨has, hassert⟩

/-- A selector that gives null is soft already. -/
lemma soften_orNull {s : Selectable} (hs : s ∈ selectables) (args : List Ir) (types : List Ty)
    (ty : Ty) : (Ir.call ("as_" ++ s.stem ++ "_or_null") args types ty).soften =
      .call ("as_" ++ s.stem ++ "_or_null") args types ty := by
  rw [Ir.soften, if_neg (selector_ne_fail s hs).2.1, raisingStem?_orNull hs]

/-- Softening what is soft changes nothing. -/
lemma soften_soften (ir : Ir) : ir.soften.soften = ir.soften := by
  fun_induction Ir.soften ir with
  | case2 name args types ty _ stem hstem =>
    obtain ⟨s, hs, rfl, -⟩ := raisingStem?_eq_some hstem
    exact soften_orNull hs _ _ _
  | case3 name args types ty hname hstem => rw [Ir.soften, if_neg hname, hstem]
  | case4 test yes no ty ihyes ihno => rw [Ir.soften, ihyes, ihno]
  | case5 bindings body ty ih => rw [Ir.soften, ih]
  | _ => rfl

/-- Two rows of candidates are softened one after the other. -/
lemma softenedAll_append (xs ys : List Ir) :
    softenedAll (xs ++ ys) = softenedAll xs ++ softenedAll ys := by
  induction xs with
  | nil => rfl
  | cons x xs ih => rw [List.cons_append, softenedAll, softenedAll, ih, List.append_assoc]

/-- One candidate is softened by itself. -/
lemma softenedAll_singleton (ir : Ir) : softenedAll [ir] = ir.softened := by
  rw [softenedAll, softenedAll, List.append_nil]

/-- Softening makes no alternative of what is none. -/
lemma soften_ne_alternative {ir : Ir} (h : ∀ candidates ty, ir ≠ .alternative candidates ty)
    (candidates : List Ir) (ty : Ty) : ir.soften ≠ .alternative candidates ty := by
  cases ir with
  | alternative candidates ty => exact absurd rfl (h candidates ty)
  | call name args types ty =>
    rw [Ir.soften]
    split
    · simp
    · split
      · simp [Ir.apply]
      · simp
  | literal | var | letIn | lambda | cond => simp [Ir.soften]

/-- What is softened in one piece stays as it is. -/
lemma softenedAll_soften {ir : Ir} (h : ∀ candidates ty, ir ≠ .alternative candidates ty) :
    softenedAll [ir.soften] = [ir.soften] := by
  rw [softenedAll_singleton, softened_eq_singleton (soften_ne_alternative h), soften_soften]

mutual

/-- The candidates that a candidate stands for are soft. -/
lemma softenedAll_softened : ∀ ir : Ir, softenedAll ir.softened = ir.softened
  | .alternative candidates _ => softenedAll_softenedAll candidates
  | .literal _ _ => softenedAll_soften nofun
  | .var _ _ => softenedAll_soften nofun
  | .letIn _ _ _ => softenedAll_soften nofun
  | .lambda _ _ _ => softenedAll_soften nofun
  | .cond _ _ _ _ => softenedAll_soften nofun
  | .call _ _ _ _ => softenedAll_soften nofun

/-- The candidates that a row stands for are soft. -/
lemma softenedAll_softenedAll : ∀ irs : List Ir, softenedAll (softenedAll irs) = softenedAll irs
  | [] => rfl
  | ir :: irs => by
    rw [softenedAll, softenedAll_append, softenedAll_softened ir, softenedAll_softenedAll irs]

end

/-! ## The candidate that a group ends in -/

section Ends

variable {scope : Scope}

/-- The call of a selector is no alternative. -/
lemma dress_ne_alternative (s : Selectable) (policy : SelectPolicy) (value : Ir)
    (message : Option Ir) (candidates : List Ir) (ty : Ty) :
    dress s policy value message ≠ .alternative candidates ty := by
  cases policy <;> exact nofun

/-- The call of a selector with tests is no alternative. -/
lemma constrained_ne_alternative (s : Selectable) (policy : SelectPolicy)
    (tests : List (Condition Ir)) (value : Ir) (message : Option Ir) (candidates : List Ir)
    (ty : Ty) : constrained s policy tests value message ≠ .alternative candidates ty := by
  cases policy <;> exact nofun

/-- What a selector is made into.

**Proof sketch.** The definition is followed: the type must be found, and with constraints the tests
must lower. -/
lemma exists_of_select {typeName : String} {policy : SelectPolicy}
    {constraints : List (Condition (Expr α))} {value ir : Ir} {message : Option Ir}
    (h : select scope typeName policy constraints value message = .ok ir) :
    ∃ s, selectable? typeName = some s ∧
      (constraints = [] ∧ ir = dress s policy value message ∨
        constraints ≠ [] ∧ ∃ tests, ir = constrained s policy tests value message) := by
  rw [select] at h
  cases hs : selectable? typeName with
  | none =>
    rw [hs] at h
    cases h
  | some s =>
    rw [hs] at h
    refine ⟨s, rfl, ?_⟩
    cases constraints with
    | nil =>
      cases h
      exact .inl ⟨rfl, rfl⟩
    | cons c cs =>
      dsimp only at h
      cases htests : lowerConditions ((itName, s.ty) :: scope) (c :: cs) with
      | error failure =>
        rw [htests] at h
        cases h
      | ok tests =>
        rw [htests] at h
        cases h
        exact .inr ⟨List.cons_ne_nil _ _, tests, rfl⟩

/-- A selector that raises, softened, is its twin that gives null. -/
lemma softened_dress {s : Selectable} (hs : s ∈ selectables) {policy : SelectPolicy}
    (hloud : policy ≠ policy.recoverable) (value : Ir) (message : Option Ir) :
    (dress s policy value message).softened = (dress s .orNull value none).softened := by
  have hstems : ∀ s ∈ selectables, raisingStem? ("as_" ++ s.stem) = some s.stem ∧
      raisingStem? ("assert_" ++ s.stem) = some s.stem := by decide
  obtain ⟨has, -, hassert⟩ := selector_ne_fail s hs
  rw [softened_eq_singleton (dress_ne_alternative _ _ _ _),
    softened_eq_singleton (dress_ne_alternative _ _ _ _)]
  have htwin : (dress s .orNull value none).soften = dress s .orNull value none :=
    soften_orNull hs _ _ _
  rw [htwin]
  cases policy with
  | raise => simp [dress, Ir.apply, Ir.soften, has, (hstems s hs).1]
  | assert => simp [dress, Ir.apply, Ir.soften, hassert, (hstems s hs).2]
  | orNull | check => exact absurd rfl hloud

/-- With constraints the two differ: softening does not reach the value that they are about. -/
lemma softened_constrained_ne {s : Selectable} (hs : s ∈ selectables) {policy : SelectPolicy}
    (hloud : policy ≠ policy.recoverable) (tests tests' : List (Condition Ir)) (value value' : Ir)
    (message : Option Ir) :
    (constrained s policy tests value message).softened ≠
      (constrained s .orNull tests' value' none).softened := by
  have hne : ∀ s ∈ selectables, "as_" ++ s.stem ≠ "as_" ++ s.stem ++ "_or_null" ∧
      "assert_" ++ s.stem ≠ "as_" ++ s.stem ++ "_or_null" := by decide
  obtain ⟨has, hassert⟩ := hne s hs
  rw [softened_eq_singleton (constrained_ne_alternative _ _ _ _ _),
    softened_eq_singleton (constrained_ne_alternative _ _ _ _ _)]
  cases policy with
  | raise => simp [constrained, dress, Ir.bind, Ir.apply, Ir.soften, has]
  | assert => simp [constrained, dress, Ir.bind, Ir.apply, Ir.soften, hassert]
  | orNull | check => exact absurd rfl hloud

/-- A selector that raises, lowered as a candidate that is followed and as one that is not. -/
lemma lower_loud {policy : SelectPolicy} (hloud : policy ≠ policy.recoverable) (recover : Bool)
    (note : α) (typeName : String) (constraints : List (Condition (Expr α)))
    (args : List (Expr α)) :
    (Expr.select note typeName policy constraints args).lower scope recover =
      (lowerSelected scope typeName recover args).bind fun p =>
        select scope typeName (if recover then .orNull else policy) constraints p.1 p.2 := by
  rw [lower_select, bne_iff_ne.mpr hloud, Bool.and_true]

/-- Every candidate that is no selector that raises is lowered the same, followed or not. -/
lemma lower_quiet {e : Expr α} (h : ∀ note typeName policy constraints args,
    e = .select note typeName policy constraints args → policy = policy.recoverable) :
    e.lower scope true = e.lower scope false := by
  refine lower_recover e fun note typeName policy constraints args heq => ?_
  have hquiet := h note typeName policy constraints args heq
  cases policy with
  | raise | assert => cases hquiet
  | orNull => exact .inl rfl
  | check => exact .inr rfl

/-- A candidate raises as a selector, or it is lowered the same, followed or not. -/
lemma loud_or_quiet (e : Expr α) :
    (∃ note typeName policy constraints args, e = .select note typeName policy constraints args ∧
      policy ≠ policy.recoverable) ∨ e.lower scope true = e.lower scope false ∧ e.Steady scope := by
  cases e with
  | select note typeName policy constraints args =>
    by_cases hloud : policy = policy.recoverable
    · refine .inr ⟨lower_quiet ?_, .inl hloud⟩
      rintro _ _ _ _ _ ⟨⟩
      exact hloud
    · exact .inl ⟨note, typeName, policy, constraints, args, rfl, hloud⟩
  | _ => exact .inr ⟨lower_quiet nofun, trivial⟩

/-- Where a group ends steadily, its end stands for the same in the group and in the row.

**Proof sketch.** What is lowered alike in both positions is no question. Else it is a selector
without constraints whose message lowers; the message is what the group adds, and softening takes it
away. -/
lemma Expr.Steady.map_softened {e : Expr α} (h : e.Steady scope) :
    (e.lower scope false).map Ir.softened = (e.lower scope true).map Ir.softened := by
  rcases loud_or_quiet e with ⟨note, typeName, policy, constraints, args, rfl, hloud⟩ | ⟨hsame, -⟩
  · obtain ⟨rfl, hmessage⟩ := h.resolve_left hloud
    rw [lower_loud hloud, lower_loud hloud]
    cases args with
    | nil => rfl
    | cons value more =>
      rw [lowerSelected, lowerSelected]
      cases value.lower scope false with
      | error failure => rfl
      | ok x =>
        obtain ⟨message, hhead⟩ : ∃ message, lowerHead scope more = .ok message := by
          cases more with
          | nil => exact ⟨none, rfl⟩
          | cons m more =>
            obtain ⟨y, hy⟩ := hmessage m rfl
            exact ⟨some y, by rw [lowerHead, hy]; rfl⟩
        simp only [hhead, bind, Except.bind, Bool.false_eq_true, ↓reduceIte, pure, Except.pure,
          Retarget.select]
        cases hs : selectable? typeName with
        | none => rfl
        | some s =>
          exact congrArg Except.ok (softened_dress (List.mem_of_find?_eq_some hs) hloud x message)
  · rw [hsame]

/-- The end of a group stands for as many candidates in the group as in the row, and for the same
ones only if it is steady.

**Proof sketch.** An expression that lowers alike in both positions is steady. Else it is a selector
whose failure the position settles, so both of its lowered forms are read off and each stands for
one candidate. Without constraints the two are dressed values; what the position adds is its
message, which must then lower for the group to lower. With constraints the two never soften to the
same form. -/
lemma steady_of_softened_eq {e : Expr α} {followed alone : Ir} (hfollowed : e.lower scope true = .ok followed)
    (halone : e.lower scope false = .ok alone) :
    alone.softened.length = followed.softened.length ∧
      (alone.softened = followed.softened → e.Steady scope) := by
  rcases loud_or_quiet e with ⟨note, typeName, policy, constraints, args, rfl, hloud⟩ | ⟨hsame, hsteady⟩
  · rw [lower_loud hloud] at hfollowed halone
    obtain ⟨⟨x, silence⟩, hsilent, htwin⟩ := exists_of_bind_eq_ok hfollowed
    obtain ⟨⟨y, message⟩, hselected, hplain⟩ := exists_of_bind_eq_ok halone
    obtain ⟨rfl, value, more, rfl, hvalue⟩ := lowerSelected_silent hsilent
    obtain ⟨s, hs, htwin⟩ := exists_of_select htwin
    obtain ⟨s', hs', hplain⟩ := exists_of_select hplain
    obtain rfl : s = s' := Option.some.inj (hs.symm.trans hs')
    have hmem : s ∈ selectables := List.mem_of_find?_eq_some hs
    rcases hplain with ⟨hnone, rfl⟩ | ⟨hsome, tests, rfl⟩
    · obtain rfl : followed = dress s .orNull x none := by
        rcases htwin with ⟨-, htwin⟩ | ⟨hsome, -⟩
        · exact htwin
        · exact absurd hnone hsome
      refine ⟨?_, fun _ => .inr ⟨hnone, fun m hm => ?_⟩⟩
      · rw [softened_eq_singleton (dress_ne_alternative _ _ _ _),
          softened_eq_singleton (dress_ne_alternative _ _ _ _)]
        rfl
      · obtain ⟨v, -, hselected⟩ := exists_of_bind_eq_ok hselected
        obtain ⟨word, hword, -⟩ := exists_of_bind_eq_ok hselected
        cases more with
        | nil => cases hm
        | cons m' more =>
          cases hm
          obtain ⟨z, hz, -⟩ := exists_of_bind_eq_ok hword
          exact ⟨z, hz⟩
    · obtain ⟨tests', rfl⟩ : ∃ tests', followed = constrained s .orNull tests' x none := by
        rcases htwin with ⟨hnone, -⟩ | ⟨-, htwin⟩
        · exact absurd hnone hsome
        · exact htwin
      refine ⟨?_, fun heq => absurd heq (softened_constrained_ne hmem hloud _ _ _ _ _)⟩
      rw [softened_eq_singleton (constrained_ne_alternative _ _ _ _ _),
        softened_eq_singleton (constrained_ne_alternative _ _ _ _ _)]
      rfl
  · obtain rfl : followed = alone := Except.ok.inj (hfollowed.symm.trans (hsame.trans halone))
    exact ⟨rfl, fun _ => hsteady⟩

end Ends

/-! ## Rows -/

section Rows

variable {scope : Scope}

/-- The candidates of one row and then those of another one. -/
def joined (x y : Except TypeError (List Ir)) : Except TypeError (List Ir) :=
  x.bind fun a => y.map (a ++ ·)

/-- No candidates before a row. -/
lemma joined_nil_left (x : Except TypeError (List Ir)) : joined (.ok []) x = x := by
  cases x <;> rfl

/-- No candidates behind a row. -/
lemma joined_nil_right (x : Except TypeError (List Ir)) : joined x (.ok []) = x := by
  cases x with
  | error failure => rfl
  | ok a => exact congrArg Except.ok (List.append_nil a)

/-- Three rows of candidates are joined from the left as from the right. -/
lemma joined_assoc (x y z : Except TypeError (List Ir)) :
    joined (joined x y) z = joined x (joined y z) := by
  cases x with
  | error failure => rfl
  | ok a =>
    cases y with
    | error failure => rfl
    | ok b =>
      cases z with
      | error failure => rfl
      | ok c => exact congrArg Except.ok (List.append_assoc a b c)

/-- Joined rows lower where both of them do. -/
lemma exists_of_joined {x y : Except TypeError (List Ir)} {c : List Ir} (h : joined x y = .ok c) :
    ∃ a b, x = .ok a ∧ y = .ok b ∧ c = a ++ b := by
  cases x with
  | error failure => cases h
  | ok a =>
    cases y with
    | error failure => cases h
    | ok b =>
      cases h
      exact ⟨a, b, rfl, rfl, rfl⟩

/-- Joined rows are softened one after the other. -/
lemma map_softenedAll_joined (x y : Except TypeError (List Ir)) :
    (joined x y).map softenedAll = joined (x.map softenedAll) (y.map softenedAll) := by
  cases x with
  | error failure => rfl
  | ok a =>
    cases y with
    | error failure => rfl
    | ok b => exact congrArg Except.ok (softenedAll_append a b)

/-- What a candidate that is followed stands for is soft. -/
lemma map_softenedAll_softened (x : Except TypeError Ir) :
    (x.map Ir.softened).map softenedAll = x.map Ir.softened := by
  cases x with
  | error failure => rfl
  | ok ir => exact congrArg Except.ok (softenedAll_softened ir)

/-- The candidates of a row all of which are followed. -/
def lowerFollowed (scope : Scope) : List (Expr α) → Except TypeError (List Ir)
  | [] => .ok []
  | e :: es => joined ((e.lower scope true).map Ir.softened) (lowerFollowed scope es)

/-- Candidates that are followed are lowered one row after the other. -/
lemma lowerFollowed_append (es fs : List (Expr α)) :
    lowerFollowed scope (es ++ fs) = joined (lowerFollowed scope es) (lowerFollowed scope fs) := by
  induction es with
  | nil => exact (joined_nil_left _).symm
  | cons e es ih => rw [List.cons_append, lowerFollowed, lowerFollowed, ih, joined_assoc]

/-- The last candidate is lowered as it is. -/
lemma lowerCandidates_singleton (e : Expr α) :
    lowerCandidates scope [e] = (e.lower scope false).map fun ir => [ir] := by
  rw [lowerCandidates]
  cases h : e.lower scope false with
  | error failure =>
    simp only [List.isEmpty_nil, Bool.not_true, h]
    rfl
  | ok ir =>
    simp only [List.isEmpty_nil, Bool.not_true, h]
    rfl

/-- A candidate that another one follows is softened. -/
lemma lowerCandidates_cons {es : List (Expr α)} (hes : es ≠ []) (e : Expr α) :
    lowerCandidates scope (e :: es) =
      joined ((e.lower scope true).map Ir.softened) (lowerCandidates scope es) := by
  have hfollowed : es.isEmpty = false := by simpa using hes
  rw [lowerCandidates, hfollowed, Bool.not_false]
  cases e.lower scope true with
  | error failure => rfl
  | ok ir => cases lowerCandidates scope es <;> rfl

/-- The candidates of an alternative: those that are followed and the last one. -/
lemma lowerCandidates_append_singleton (es : List (Expr α)) (last : Expr α) :
    lowerCandidates scope (es ++ [last]) =
      joined (lowerFollowed scope es) ((last.lower scope false).map fun ir => [ir]) := by
  induction es with
  | nil => rw [List.nil_append, lowerCandidates_singleton, lowerFollowed, joined_nil_left]
  | cons e es ih =>
    rw [List.cons_append, lowerCandidates_cons (by simp), ih, lowerFollowed, joined_assoc]

/-- An alternative has the candidates that its row is lowered to, and their common type. -/
lemma lower_alternative (r : Bool) (note : α) (es : List (Expr α)) :
    (Expr.alternative note es).lower scope r = (lowerCandidates scope es).map fun irs =>
      .alternative irs (Ty.joinAll (irs.map Ir.ty)) := by
  rw [Expr.lower]
  cases lowerCandidates scope es <;> rfl

/-- A group stands for its own candidates, softened. -/
lemma map_softened_alternative (r : Bool) (note : α) (es : List (Expr α)) :
    ((Expr.alternative note es).lower scope r).map Ir.softened =
      (lowerCandidates scope es).map softenedAll := by
  rw [lower_alternative]
  cases lowerCandidates scope es <;> rfl

/-- The candidates of a group, softened: all but the last one are lowered as they are in the row. -/
lemma map_softenedAll_cons (e : Expr α) (es : List (Expr α)) :
    (lowerCandidates scope (e :: es)).map softenedAll =
      joined ((e.lower scope (!es.isEmpty)).map Ir.softened)
        ((lowerCandidates scope es).map softenedAll) := by
  cases es with
  | nil =>
    change _ = joined ((e.lower scope false).map Ir.softened) (.ok [])
    rw [lowerCandidates_singleton, joined_nil_right]
    cases e.lower scope false with
    | error failure => rfl
    | ok ir => exact congrArg Except.ok (softenedAll_singleton ir)
  | cons e' es =>
    rw [lowerCandidates_cons (List.cons_ne_nil _ _), map_softenedAll_joined,
      map_softenedAll_softened]
    rfl

/-- Rows whose groups end steadily stand for the candidates of the row without parentheses, both as
a part of a longer row and as a group.

**Proof sketch.** Induction over the row. A candidate is lowered the same in both, unless it is the
last one of a group. A group stands for what its members stand for, softened once more, which changes
nothing about those that are followed. -/
lemma lowerFollowed_exprs (row : Grouped α) :
    ((∀ e ∈ row.ends, e.Steady scope) →
      lowerFollowed scope row.exprs = lowerFollowed scope row.flat) ∧
    ((∀ e ∈ row.closing?.toList ++ row.ends, e.Steady scope) →
      (lowerCandidates scope row.exprs).map softenedAll = lowerFollowed scope row.flat) := by
  induction row with
  | nil => exact ⟨fun _ => rfl, fun _ => rfl⟩
  | one e rest ih =>
    refine ⟨fun h => ?_, fun h => ?_⟩
    · rw [Grouped.exprs, Grouped.flat, lowerFollowed, lowerFollowed, ih.1 h]
    · rw [Grouped.exprs, Grouped.flat, map_softenedAll_cons, lowerFollowed]
      cases rest with
      | nil =>
        have hend : e.Steady scope := h e List.mem_cons_self
        rw [← hend.map_softened]
        rfl
      | one e' rest => rw [ih.2 h]; rfl
      | group note members rest => rw [ih.2 h]; rfl
  | group note members rest ihmembers ihrest =>
    have hgroup (h : ∀ e ∈ members.closing?.toList ++ members.ends, e.Steady scope) (r : Bool) :
        ((Expr.alternative note members.exprs).lower scope r).map Ir.softened =
          lowerFollowed scope members.flat := by
      rw [map_softened_alternative, ihmembers.2 h]
    refine ⟨fun h => ?_, fun h => ?_⟩
    · rw [Grouped.ends, List.forall_mem_append] at h
      rw [Grouped.exprs, Grouped.flat, lowerFollowed, lowerFollowed_append, hgroup h.1, ihrest.1 h.2]
    · rw [Grouped.ends, List.forall_mem_append, List.forall_mem_append] at h
      rw [Grouped.exprs, Grouped.flat, map_softenedAll_cons, lowerFollowed_append, hgroup h.2.1]
      have hclosing : (Grouped.group note members rest).closing? = rest.closing? := by
        rw [Grouped.closing?]
      rw [hclosing] at h
      rw [ihrest.2 (List.forall_mem_append.mpr ⟨h.1, h.2.2⟩)]

/-- Where both rows lower they have the same length, and they are the same only if `P` holds. -/
def Compares (x y : Except TypeError (List Ir)) (P : Prop) : Prop :=
  ∀ a b, x = .ok a → y = .ok b → a.length = b.length ∧ (a = b → P)

/-- A row is as long as itself, and the same. -/
lemma compares_self (x : Except TypeError (List Ir)) : Compares x x True := by
  rintro a b rfl hb
  cases hb
  exact ⟨rfl, fun _ => trivial⟩

/-- Rows of the same lengths behind each other are the same only if they are so one by one. -/
lemma Compares.joined {x x' y y' : Except TypeError (List Ir)} {P Q : Prop} (h : Compares x y P)
    (h' : Compares x' y' Q) : Compares (joined x x') (joined y y') (P ∧ Q) := by
  intro a b ha hb
  obtain ⟨a₁, a₂, ha₁, ha₂, rfl⟩ := exists_of_joined ha
  obtain ⟨b₁, b₂, hb₁, hb₂, rfl⟩ := exists_of_joined hb
  obtain ⟨hlength, hP⟩ := h a₁ b₁ ha₁ hb₁
  obtain ⟨hlength', hQ⟩ := h' a₂ b₂ ha₂ hb₂
  refine ⟨by rw [List.length_append, List.length_append, hlength, hlength'], fun heq => ?_⟩
  obtain ⟨heq₁, heq₂⟩ := List.append_inj heq hlength
  exact ⟨hP heq₁, hQ heq₂⟩

/-- A condition may be replaced by one that follows from it. -/
lemma Compares.imp {x y : Except TypeError (List Ir)} {P Q : Prop} (h : Compares x y P)
    (himp : P → Q) : Compares x y Q := fun a b ha hb =>
  ⟨(h a b ha hb).1, fun heq => himp ((h a b ha hb).2 heq)⟩

/-- The end of a group in the group and in the row. -/
lemma compares_end (e : Expr α) : Compares ((e.lower scope false).map Ir.softened)
    ((e.lower scope true).map Ir.softened) (e.Steady scope) := by
  intro a b ha hb
  cases halone : e.lower scope false with
  | error failure =>
    rw [halone] at ha
    cases ha
  | ok alone =>
    cases hfollowed : e.lower scope true with
    | error failure =>
      rw [hfollowed] at hb
      cases hb
    | ok followed =>
      rw [halone] at ha
      rw [hfollowed] at hb
      cases ha
      cases hb
      exact steady_of_softened_eq hfollowed halone

/-- Rows stand for the candidates of the row without parentheses only if their groups end steadily,
both as a part of a longer row and as a group.

**Proof sketch.** By induction on the row, for both claims at once, since the end of a row is what
tells them apart: an expression before the end compares with itself, one at the end by
`compares_end`. A group compares like its members seen as a group of their own, and then the rest of
the row follows. -/
lemma compares_exprs (row : Grouped α) :
    Compares (lowerFollowed scope row.exprs) (lowerFollowed scope row.flat)
      (∀ e ∈ row.ends, e.Steady scope) ∧
    Compares ((lowerCandidates scope row.exprs).map softenedAll) (lowerFollowed scope row.flat)
      (∀ e ∈ row.closing?.toList ++ row.ends, e.Steady scope) := by
  induction row with
  | nil =>
    refine ⟨(compares_self _).imp fun _ => List.forall_mem_nil _, ?_⟩
    exact (compares_self (.ok [])).imp fun _ => List.forall_mem_nil _
  | one e rest ih =>
    refine ⟨((compares_self _).joined ih.1).imp And.right, ?_⟩
    rw [Grouped.exprs, Grouped.flat, map_softenedAll_cons, lowerFollowed]
    cases rest with
    | nil =>
      refine ((compares_end e).joined ih.2).imp fun h => ?_
      exact List.forall_mem_singleton.mpr h.1
    | one e' rest => exact ((compares_self _).joined ih.2).imp And.right
    | group note members rest => exact ((compares_self _).joined ih.2).imp And.right
  | group note members rest ihmembers ihrest =>
    have hgroup (r : Bool) : Compares
        (((Expr.alternative note members.exprs).lower scope r).map Ir.softened)
        (lowerFollowed scope members.flat)
        (∀ e ∈ members.closing?.toList ++ members.ends, e.Steady scope) := by
      rw [map_softened_alternative]
      exact ihmembers.2
    rw [Grouped.exprs, Grouped.flat, map_softenedAll_cons, lowerFollowed, lowerFollowed_append]
    refine ⟨((hgroup true).joined ihrest.1).imp fun h => ?_,
      ((hgroup _).joined ihrest.2).imp fun h => ?_⟩
    · rw [Grouped.ends, List.forall_mem_append]
      exact h
    · have hclosing : (Grouped.group note members rest).closing? = rest.closing? := by
        rw [Grouped.closing?]
      rw [hclosing, Grouped.ends, List.forall_mem_append, List.forall_mem_append]
      exact ⟨(List.forall_mem_append.mp h.2).1, h.1, (List.forall_mem_append.mp h.2).2⟩

end Rows

/-- **Groups of candidates.** In every scope, an alternative some runs of whose candidates stand in
parentheses, at any depth and without the last one, is lowered like the alternative without
parentheses if every group ends steadily, errors included; and where the latter lowers, only then.

**Proof sketch.** The candidates before the last one stand for the same rows with and without
parentheses. Where they are put together the rows that the members stand for have the same lengths,
so that a difference at the end of one group is one of the whole. -/
theorem lower_grouped (scope : Scope) (r : Bool) (n m : α) (row : Grouped α) (last : Expr α) :
    ((∀ e ∈ row.ends, e.Steady scope) →
      (Expr.alternative n (row.exprs ++ [last])).lower scope r =
        (Expr.alternative m (row.flat ++ [last])).lower scope r) ∧
    ((Expr.alternative m (row.flat ++ [last])).Lowers scope r →
      (Expr.alternative n (row.exprs ++ [last])).lower scope r =
        (Expr.alternative m (row.flat ++ [last])).lower scope r →
      ∀ e ∈ row.ends, e.Steady scope) := by
  rw [lower_alternative, lower_alternative, lowerCandidates_append_singleton,
    lowerCandidates_append_singleton]
  refine ⟨fun h => by rw [(lowerFollowed_exprs row).1 h], ?_⟩
  rintro ⟨ir, hir⟩ heq
  rw [lower_alternative, lowerCandidates_append_singleton] at hir
  have hrow : Compares (lowerFollowed scope row.exprs) (lowerFollowed scope row.flat)
      (∀ e ∈ row.ends, e.Steady scope) := (compares_exprs row).1
  have hcompares := hrow.joined (compares_self ((last.lower scope false).map fun ir => [ir]))
  cases hflat : joined (lowerFollowed scope row.flat)
      ((last.lower scope false).map fun ir => [ir]) with
  | error failure =>
    rw [hflat] at hir
    cases hir
  | ok irs =>
    cases hgrouped : joined (lowerFollowed scope row.exprs)
        ((last.lower scope false).map fun ir => [ir]) with
    | error failure =>
      rw [hflat, hgrouped] at heq
      cases heq
    | ok irs' =>
      rw [hflat, hgrouped] at heq
      cases heq
      exact ((hcompares irs irs hgrouped hflat).2 rfl).1

/-- The tokens of a group that ends in a selector with a constraint, and a candidate behind it. -/
def constrainedEndTokens : List Token :=
  [⟨.punct .openParen, "(", 0⟩, ⟨.literal (.int 1), "1", 1⟩, ⟨.punct .bar, "|", 3⟩,
   ⟨.ident "Int", "Int", 5⟩, ⟨.punct .openBrace, "\x7b", 8⟩, ⟨.ident "it", "it", 9⟩,
   ⟨.punct .greater, ">", 12⟩, ⟨.literal (.int 0), "0", 14⟩, ⟨.punct .closeBrace, "\x7d", 15⟩,
   ⟨.punct .openParen, "(", 16⟩, ⟨.ident "_", "_", 17⟩, ⟨.punct .closeParen, ")", 18⟩,
   ⟨.punct .closeParen, ")", 19⟩, ⟨.punct .bar, "|", 21⟩, ⟨.literal (.int 0), "0", 23⟩,
   Token.atEnd 24]

/-- The selector that the group ends in. -/
def constrainedEnd : Expr Span :=
  .select ⟨5, 19⟩ "Int" .raise
    [⟨none, .binary ⟨9, 15⟩ .gt (.var ⟨9, 11⟩ "it") (.literal ⟨14, 15⟩ (.int 0))⟩]
    [.var ⟨17, 18⟩ "_"]

/-- The candidates before the last one. -/
def constrainedEndRow : Grouped Span :=
  .group ⟨1, 19⟩ (.one (.literal ⟨1, 2⟩ (.int 1)) (.one constrainedEnd .nil)) .nil

set_option maxRecDepth 2048 in
/-- A group that ends in a selector with a constraint is not lowered like its members in the row. -/
theorem lower_grouped_constrainedEnd :
    parse "(1 | Int\x7bit > 0\x7d(_)) | 0" =
        .ok (.alternative ⟨0, 24⟩ (constrainedEndRow.exprs ++ [.literal ⟨23, 24⟩ (.int 0)])) ∧
      (∃ ir, transform (.alternative ⟨0, 24⟩ (constrainedEndRow.flat ++
        [.literal ⟨23, 24⟩ (.int 0)])) = .ok ir) ∧
      transform (.alternative ⟨0, 24⟩ (constrainedEndRow.exprs ++ [.literal ⟨23, 24⟩ (.int 0)])) ≠
        transform (.alternative ⟨0, 24⟩ (constrainedEndRow.flat ++ [.literal ⟨23, 24⟩ (.int 0)])) := by
  have htokens : (tokenize "(1 | Int\x7bit > 0\x7d(_)) | 0").toOption = some constrainedEndTokens := by
    cbv
  refine ⟨parse_eq_ok htokens rfl, ⟨_, rfl⟩, fun heq => ?_⟩
  have hsteady : constrainedEnd.Steady [(inputName, .any)] :=
    (lower_grouped [(inputName, .any)] false ⟨0, 24⟩ ⟨0, 24⟩ constrainedEndRow
      (.literal ⟨23, 24⟩ (.int 0))).2 ⟨_, rfl⟩ heq constrainedEnd List.mem_cons_self
  rcases hsteady with hquiet | ⟨hnone, -⟩
  · cases hquiet
  · cases hnone

end Retarget
