import DocWire.Proofs.Expr.Prolonged.Ladder

/-!
# Roots of trees

What a level of the ladder adds to what the level below it reads has an operator of that level at the
root.  A tree with none of the operators of the looser levels at its root was read by the comparisons
already.

* `Expr.RootIn`              an operator of some names stands at the root;
* `chain_root`, `negatablePredicate_root`   what the levels add;
* `comparisonLevel_of_orLevel`   a tree without a loose operator at its root.
-/

namespace DocWire

/-! ## Operators -/

theorem exists_of_operatorsOf {spellings : List (String × Spelling)} {s t : Source} {name : String}
    (h : operatorsOf spellings s = some (name, t)) :
    ∃ p, (name, p) ∈ spellings ∧ p.eat s = some t := by
  unfold operatorsOf at h
  induction spellings with
  | nil => cases h
  | cons x rest ih =>
    rw [List.map_cons, firstOf_cons] at h
    cases heat : x.2.eat s with
    | none =>
      rw [heat] at h
      obtain ⟨p, hp, hfound⟩ := ih h
      exact ⟨p, List.mem_cons_of_mem x hp, hfound⟩
    | some u =>
      rw [heat] at h
      cases h
      exact ⟨x.2, List.mem_cons_self, heat⟩

theorem exists_of_operatorsAt {i : Nat} {s t : Source} {name : String}
    (h : operatorsAt i s = some (name, t)) : ∃ p, (name, p) ∈ spellingsAt i ∧ p.eat s = some t := by
  rw [operatorsAt_eq] at h
  exact exists_of_operatorsOf h

/-! ## Roots -/

/-- the names of the operators that bind more loosely than the comparisons -/
def looseNames : List String :=
  ["||", "&&", "is", "is_not", "in", "not_in", "cont_in", "not_cont_in", "like", "not_like",
    "regexp", "not_regexp", "between", "not_between", "overlaps", "not_overlaps"]

/-- An operator with one of the names stands at the root. -/
def Expr.RootIn (names : List String) (e : Expr) : Prop :=
  ∃ name args, e = .op name args ∧ name ∈ names

theorem Expr.RootIn.of_shift {names : List String} {k : Nat} {e : Expr}
    (h : (e.shift k).RootIn names) : e.RootIn names := by
  obtain ⟨name, args, he, hname⟩ := h
  cases e <;> cases he
  exact ⟨name, _, rfl, hname⟩

section
variable {mode : Mode} {expr : Source → Except SyntaxError (Expr × Source)} {bound : Nat}

/-- A chain that takes up anything has one of its own operators at the root. -/
theorem chain_root {operators : Operators} {names : List String}
    (hnames : ∀ s name t, operators s = some (name, t) → name ∈ names)
    (operand : Source → Except SyntaxError (Expr × Source)) (bound : Nat) (lhs : Expr) (s : Source) :
    Yields (chain operators operand bound lhs s) fun e t =>
      e.RootIn names ∨ (e = lhs ∧ t = s.skipBlanks) := by
  induction bound generalizing lhs s with
  | zero => exact Yields.ok (.inr ⟨rfl, rfl⟩)
  | succ bound ih =>
    unfold chain
    cases hfound : operators s.skipBlanks with
    | none => exact Yields.ok (.inr ⟨rfl, rfl⟩)
    | some found =>
      -- the operator found is at the root of what the rest of the chain starts from
      refine Yields.bind (yields_true _) fun rhs u _ e t h => .inl ?_
      obtain hroot | ⟨rfl, -⟩ := ih _ _ e t h
      · exact hroot
      · exact ⟨found.1, _, rfl, hnames _ _ _ hfound⟩

theorem isPredicate_root (lhs : Expr) (s : Source) :
    Yields (isPredicate lhs s) fun e _ => e.RootIn looseNames := by
  unfold isPredicate
  dsimp only
  cases s.skipBlanks.eatKeyword "not" with
  | none =>
    dsimp only
    cases keywordLiteral s.skipBlanks with
    | none => exact Yields.fail _ _
    | some found => exact Yields.ok ⟨"is", _, rfl, by decide⟩
  | some t =>
    dsimp only
    cases keywordLiteral t.skipBlanks with
    | none => exact Yields.fail _ _
    | some found => exact Yields.ok ⟨"is_not", _, rfl, by decide⟩

theorem not_atKeyword_of_eatKeyword {s : Source} {word : String} (h : s.eatKeyword word = none) :
    s.atKeyword word = false := by
  unfold Source.eatKeyword at h
  by_contra hword
  rw [Bool.not_eq_false] at hword
  rw [hword] at h
  cases h

theorem negatablePredicate_root (negated : Bool) (lhs : Expr) (s : Source) :
    Yields (negatablePredicate mode expr bound negated lhs s) fun e t =>
      e.RootIn looseNames ∨ (e = lhs ∧ t = s ∧ s.atNegatable = false) := by
  have hname : ∀ plain ∈ ["in", "cont_in", "like", "regexp", "between", "overlaps"],
      (if negated then "not_" ++ plain else plain) ∈ looseNames := by
    cases negated <;> decide
  have applied {plain : String}
      (hplain : plain ∈ ["in", "cont_in", "like", "regexp", "between", "overlaps"])
      (args : List Expr) (t : Source) :
      Yields (.ok (.op (if negated then "not_" ++ plain else plain) args, t)) fun e t =>
        e.RootIn looseNames ∨ (e = lhs ∧ t = s ∧ s.atNegatable = false) :=
    Yields.ok (.inl ⟨_, args, rfl, hname plain hplain⟩)
  have withOperand {plain : String}
      (hplain : plain ∈ ["in", "cont_in", "like", "regexp", "between", "overlaps"]) (t : Source) :
      Yields (comparisonLevel mode expr bound t >>= fun x =>
          .ok (.op (if negated then "not_" ++ plain else plain) [lhs, x.1], x.2)) fun e t =>
        e.RootIn looseNames ∨ (e = lhs ∧ t = s ∧ s.atNegatable = false) :=
    Yields.bind (yields_true _) fun _ _ _ => applied hplain _ _
  unfold negatablePredicate
  dsimp only
  cases hin : s.eatKeyword "in" with
  | some t =>
    dsimp only
    cases t.skipBlanks.eat '(' with
    | none => exact withOperand (by decide) _
    | some u =>
      refine Yields.bind (yields_true _) fun items v _ => ?_
      cases items with
      | none => exact withOperand (by decide) _
      | some items => exact applied (by decide) _ _
  | none =>
  dsimp only
  cases hlike : s.eatKeyword "like" with
  | some t =>
    refine Yields.bind (yields_true _) fun pattern u _ => ?_
    dsimp only
    cases u.skipBlanks.eatKeyword "escape" with
    | none => exact applied (by decide) _ _
    | some v => exact Yields.bind (yields_true _) fun _ _ _ => applied (by decide) _ _
  | none =>
  dsimp only
  cases hregexp : s.eatKeyword "regexp" with
  | some t => exact withOperand (by decide) _
  | none =>
  dsimp only
  cases hbetween : s.eatKeyword "between" with
  | some t =>
    refine Yields.bind (yields_true _) fun low u _ => ?_
    dsimp only
    cases u.skipBlanks.eatKeyword "and" with
    | none => exact Yields.fail _ _
    | some v => exact Yields.bind (yields_true _) fun _ _ _ => applied (by decide) _ _
  | none =>
  dsimp only
  cases hoverlaps : s.eatKeyword "overlaps" with
  | some t => exact withOperand (by decide) _
  | none =>
    refine Yields.ok (.inr ⟨rfl, rfl, ?_⟩)
    unfold Source.atNegatable negatable
    simp only [List.any_cons, List.any_nil, not_atKeyword_of_eatKeyword hin,
      not_atKeyword_of_eatKeyword hlike, not_atKeyword_of_eatKeyword hregexp,
      not_atKeyword_of_eatKeyword hbetween, not_atKeyword_of_eatKeyword hoverlaps, Bool.or_false]

/-- A predicate stands at the root, or what was read was read by the comparisons. -/
theorem predicateLevel_root (s : Source) :
    Yields (predicateLevel mode expr bound s) fun e t => e.RootIn looseNames ∨
      ∃ u, comparisonLevel mode expr bound s = .ok (e, u) ∧ t = u.skipBlanks := by
  unfold predicateLevel
  cases hlhs : comparisonLevel mode expr bound s with
  | error err => exact Yields.error err
  | ok x =>
    obtain ⟨lhs, u⟩ := x
    rw [ok_bind]
    dsimp only
    cases u.skipBlanks.eatKeyword "is" with
    | some t => exact fun e t h => .inl (isPredicate_root lhs _ e t h)
    | none =>
    dsimp only
    cases u.skipBlanks.eatKeyword "not" with
    | none =>
      intro e t h
      obtain hroot | ⟨rfl, rfl, -⟩ := negatablePredicate_root false lhs _ e t h
      · exact .inl hroot
      · exact .inr ⟨u, rfl, rfl⟩
    | some v =>
      dsimp only
      split
      · rename_i hnegatable
        intro e t h
        -- behind this `NOT` a predicate is known to follow, so the operand is not given back alone
        obtain hroot | ⟨-, -, hnot⟩ := negatablePredicate_root true lhs _ e t h
        · exact .inl hroot
        · rw [hnegatable] at hnot
          cases hnot
      · exact Yields.ok (.inr ⟨u, rfl, rfl⟩)

theorem rung_tight {i : Nat} (hi : i < 3) (s : Source) :
    Yields (rung mode expr bound i s) fun e t => e.RootIn looseNames ∨
      ∃ u, rung mode expr bound (i + 1) s = .ok (e, u) ∧ t = u.skipBlanks := by
  by_cases hpredicates : i = 2
  · subst hpredicates
    exact predicateLevel_root s
  · have hnames : ∀ s name t, operatorsAt i s = some (name, t) → name ∈ looseNames := by
      intro s name t h
      obtain ⟨p, hp, -⟩ := exists_of_operatorsAt h
      have hall : ∀ i < 2, ∀ x ∈ spellingsAt i, x.1 ∈ looseNames := by decide
      exact hall i (by omega) (name, p) hp
    rw [rung_eq_binaryLevel mode expr bound ⟨by omega, hpredicates⟩]
    unfold binaryLevel
    cases hlhs : rung mode expr bound (i + 1) s with
    | error err => exact Yields.error err
    | ok x =>
      intro e t h
      obtain hroot | ⟨rfl, rfl⟩ := chain_root hnames _ bound x.1 x.2 e t h
      · exact .inl hroot
      · exact .inr ⟨x.2, rfl, rfl⟩

theorem Source.At.of_skipBlanks {s : Source} {cs : List Char} {m : Nat} (h : s.skipBlanks.At cs m) :
    s.At cs m := by
  obtain ⟨hrest, hmarks⟩ := h
  rw [Source.rest_skipBlanks, List.dropWhile_idempotent] at hrest
  exact ⟨hrest, hmarks⟩

/-- A tree without a loose operator at its root is read by the comparisons already. -/
theorem comparisonLevel_of_orLevel {s t : Source} {e : Expr}
    (h : orLevel mode expr bound s = .ok (e, t)) (he : ¬ e.RootIn looseNames) {cs : List Char}
    {m : Nat} (ht : t.At cs m) :
    ∃ u, comparisonLevel mode expr bound s = .ok (e, u) ∧ u.At cs m := by
  obtain hroot | ⟨u₁, h₁, rfl⟩ := rung_tight (i := 0) (by decide) s e t h
  · exact absurd hroot he
  obtain hroot | ⟨u₂, h₂, rfl⟩ := rung_tight (i := 1) (by decide) s e u₁ h₁
  · exact absurd hroot he
  obtain hroot | ⟨u₃, h₃, rfl⟩ := rung_tight (i := 2) (by decide) s e u₂ h₂
  · exact absurd hroot he
  exact ⟨u₃, h₃, ht.of_skipBlanks.of_skipBlanks.of_skipBlanks⟩

end

end DocWire
