import DocWire.Proofs.Expr.Prolonged.Expressions

/-!
# Clauses that go on with an expression

The direction of a sorting and the alias of a projection stand behind an expression.  They are
detached from it, so an expression is read in front of them as it is read alone.

* `Detached.word`          a word behind a blank is detached, unless it goes on with an operand;
* `exists_read_append`     an expression is read in front of what is detached;
* `compile_clauses`        sortings and projections of an expression.
-/

namespace DocWire

open Source (nextIn)

/-! ## Detached words -/

/-- A word behind a blank is detached from what stands before it, unless it goes on with operands. -/
theorem detached_word (w : Word) (hw : ∀ word ∈ joiningWords, sameWord w.chars word.toList = false)
    {U : List Char} (hU : EndsWord U) : Detached (' ' :: (w.chars ++ U)) := by
  refine ⟨endsWord_cons rfl _, fun c hc hjoining => ?_, fun word hword pos m => ?_⟩
  · have hhead : c ∈ (nextIn (' ' :: (w.chars ++ U)) 0 0).peek := hc
    rw [w.nextIn_blank] at hhead
    exact w.first_ne hjoining (Option.some.inj hhead)
  · rw [w.nextIn_blank, w.atKeyword_append hU]
    exact hw word hword

/-! ## Behind an expression -/

/-- What a text is compiled to is read at the beginning of a longer text. -/
theorem exists_read_append {mode : Mode} {text : String} {e : Expr}
    (h : compileExpr text mode = .ok e) {T : List Char} (hT : Detached T) :
    ∃ t pos, exprWithin mode (text.toList ++ T).length (.ofList (text.toList ++ T)) = .ok (e, t) ∧
      t.skipBlanks = nextIn T pos e.positionalCount := by
  have hlength : text.toList.length ≤ (text.toList ++ T).length := by
    rw [List.length_append]
    exact Nat.le_add_right _ _
  obtain ⟨t, ht, hat⟩ := reads_of_compileExpr h hT hlength (.ofList (text.toList ++ T)) 0
    (.refl _ 0 0)
  obtain ⟨pos, hpos⟩ := hat.skipBlanks_eq
  refine ⟨t, pos, ?_, ?_⟩
  · rw [ht]
    dsimp only
    rw [e.shift_zero]
  · rw [hpos, Nat.zero_add]

theorem compileSorting_of_sorting {mode : Mode} {cs : List Char} {x : Sorting} {pos m : Nat}
    (h : sorting mode cs.length (.ofList cs) = .ok (x, ⟨[], pos, m⟩)) :
    compileSorting (String.ofList cs) mode = .ok x := by
  unfold compileSorting
  have hproduction : production mode cs.length .sortExpr (.ofList cs)
      = .ok (.sorting x, ⟨[], pos, m⟩) := by
    dsimp only [production]
    rw [h]
    rfl
  rw [compile_of_production hproduction (.refl [] pos m)]
  rfl

theorem compileProjection_of_projection {mode : Mode} {cs : List Char} {x : Projection}
    {pos m : Nat} (h : projection mode cs.length (.ofList cs) = .ok (x, ⟨[], pos, m⟩)) :
    compileProjection (String.ofList cs) mode = .ok x := by
  unfold compileProjection
  have hproduction : production mode cs.length .projectedSearchExpr (.ofList cs)
      = .ok (.projection x, ⟨[], pos, m⟩) := by
    dsimp only [production]
    rw [h]
    rfl
  rw [compile_of_production hproduction (.refl [] pos m)]
  rfl

/-- The word of a direction behind an expression. -/
theorem exists_direction {cs : List Char} {word : String} (hword : word ∈ ["asc", "desc"])
    (h : sameWord cs word.toList = true) :
    ∃ w : Word, w.chars = cs ∧ Detached (' ' :: (w.chars ++ [])) := by
  have hletters : ∀ word ∈ ["asc", "desc"], word.toList ≠ [] ∧
      word.toList.all (fun d => isWordStart d.toLower) = true ∧
      ∀ other ∈ joiningWords, sameWord word.toList other.toList = false := by decide
  obtain ⟨hsome, hstarts, hother⟩ := hletters word hword
  obtain ⟨w, rfl⟩ := exists_word_of_sameWord h hsome hstarts
  refine ⟨w, rfl, detached_word w (fun other hmem => ?_) nofun⟩
  rw [sameWord_congr h]
  exact hother other hmem

section
variable {mode : Mode} {text : String} {e : Expr} (h : compileExpr text mode = .ok e)
include h

theorem compileSorting_alone : compileSorting text mode = .ok ⟨e, .ascending⟩ := by
  obtain ⟨t, pos, ht, hnext⟩ := exists_read_append h .nil
  have hsorting : sorting mode (text.toList ++ []).length (.ofList (text.toList ++ []))
      = .ok (⟨e, .ascending⟩, ⟨[], pos, e.positionalCount⟩) := by
    unfold sorting
    rw [ht, ok_bind]
    dsimp only
    rw [hnext]
    rfl
  rw [← String.ofList_toList (s := text), ← List.append_nil text.toList]
  exact compileSorting_of_sorting hsorting

theorem compileSorting_direction {w : String} {word : String} (hword : word ∈ ["asc", "desc"])
    (hw : sameWord w.toList word.toList = true) :
    compileSorting (text ++ " " ++ w) mode
      = .ok ⟨e, if word = "desc" then .descending else .ascending⟩ := by
  obtain ⟨v, hv, hdetached⟩ := exists_direction hword hw
  obtain ⟨t, pos, ht, hnext⟩ := exists_read_append h hdetached
  obtain ⟨pos', heat⟩ := v.eatKeyword_append (T := []) nofun (hv ▸ hw) pos e.positionalCount
  have hsorting : sorting mode (text.toList ++ ' ' :: (v.chars ++ [])).length
      (.ofList (text.toList ++ ' ' :: (v.chars ++ [])))
      = .ok (⟨e, if word = "desc" then .descending else .ascending⟩,
        ⟨[], pos', e.positionalCount⟩) := by
    unfold sorting
    rw [ht, ok_bind]
    dsimp only
    rw [hnext, v.nextIn_blank]
    simp only [List.mem_cons, List.not_mem_nil, or_false] at hword
    rcases hword with rfl | rfl
    · have hdesc : (⟨v.chars ++ [], pos, e.positionalCount⟩ : Source).eatKeyword "desc" = none := by
        refine eatKeyword_of_not ?_
        rw [v.atKeyword_append (T := []) nofun, sameWord_congr (hv ▸ hw)]
        rfl
      rw [hdesc, heat]
      rfl
    · rw [heat]
      rfl
  have htext : text ++ " " ++ w = String.ofList (text.toList ++ ' ' :: (v.chars ++ [])) := by
    rw [hv, List.append_nil]
    refine String.toList_injective ?_
    simp
  rw [htext]
  exact compileSorting_of_sorting hsorting

theorem compileProjection_alone : compileProjection text mode = .ok ⟨e, none⟩ := by
  obtain ⟨t, pos, ht, hnext⟩ := exists_read_append h .nil
  have hprojection : projection mode (text.toList ++ []).length (.ofList (text.toList ++ []))
      = .ok (⟨e, none⟩, ⟨[], pos, e.positionalCount⟩) := by
    unfold projection
    rw [ht, ok_bind]
    dsimp only
    rw [hnext]
    rfl
  rw [← String.ofList_toList (s := text), ← List.append_nil text.toList]
  exact compileProjection_of_projection hprojection

theorem compileProjection_alias (x : Name) :
    compileProjection (text ++ " as " ++ x.text) mode = .ok ⟨e, some x.text⟩ := by
  let w : Word := ⟨'a', ['s'], rfl, List.all_eq_true.mp rfl⟩
  have hend : EndsWord (' ' :: x.chars) := endsWord_cons rfl _
  obtain ⟨t, pos, ht, hnext⟩ := exists_read_append h (detached_word w (by decide) hend)
  obtain ⟨pos', heat⟩ := w.eatKeyword_append hend (show sameWord w.chars "as".toList = true from rfl)
    pos e.positionalCount
  obtain ⟨posx, hskip⟩ := (Source.At.blank x.chars pos' e.positionalCount).solid
    (isBlank_of_isWordStart x.starts)
  obtain ⟨pos'', hname⟩ := x.identifier_append (T := []) nofun posx e.positionalCount
  rw [List.append_nil] at hname
  have hidentifier : identifier ⟨x.first :: x.more, posx, e.positionalCount⟩
      = .ok (x.text, ⟨[], pos'', e.positionalCount⟩) := hname
  have hprojection : projection mode (text.toList ++ ' ' :: (w.chars ++ ' ' :: x.chars)).length
      (.ofList (text.toList ++ ' ' :: (w.chars ++ ' ' :: x.chars)))
      = .ok (⟨e, some x.text⟩, ⟨[], pos'', e.positionalCount⟩) := by
    unfold projection
    rw [ht, ok_bind]
    dsimp only
    rw [hnext, w.nextIn_blank, heat]
    dsimp only
    rw [hskip, hidentifier]
    rfl
  have htext : text ++ " as " ++ x.text
      = String.ofList (text.toList ++ ' ' :: (w.chars ++ ' ' :: x.chars)) := by
    refine String.toList_injective ?_
    simp [Word.text, w, Word.chars]
  rw [htext]
  exact compileProjection_of_projection hprojection

end

/-- **Sortings and projections extend expressions.**  An expression can be sorted by, in the one
direction unless the word for the other stands behind it, and it can be returned, under the name
that stands behind `as`. -/
theorem compile_clauses {mode : Mode} {text : String} {e : Expr}
    (h : compileExpr text mode = .ok e) :
    compileSorting text mode = .ok ⟨e, .ascending⟩ ∧
    (∀ w : String, sameWord w.toList "asc".toList = true →
      compileSorting (text ++ " " ++ w) mode = .ok ⟨e, .ascending⟩) ∧
    (∀ w : String, sameWord w.toList "desc".toList = true →
      compileSorting (text ++ " " ++ w) mode = .ok ⟨e, .descending⟩) ∧
    compileProjection text mode = .ok ⟨e, none⟩ ∧
    ∀ x : Name, compileProjection (text ++ " as " ++ x.text) mode = .ok ⟨e, some x.text⟩ :=
  ⟨compileSorting_alone h, fun _ hw => compileSorting_direction h (by decide) hw,
    fun _ hw => compileSorting_direction h (by decide) hw, compileProjection_alone h,
    compileProjection_alias h⟩

/-- The list in parentheses is given up for an interval, and a cast stands last. -/
theorem compile_clauses_cast :
    let text := "a not in (?) - interval 1 day or cast(? as signed)"
    let e := Expr.op "||" [.op "not_cont_in" [.bareColumn "a", .op "date_sub" [.positional 0,
        .literal (.uint 1), .literal (.bytes (Text.Utf8.encode "DAY"))]],
      .op "cast" [.positional 1, .literal (.bytes (Text.Utf8.encode "SIGNED"))]]
    compileExpr text .table = .ok e ∧
      compileSorting (text ++ " " ++ "DeSC") .table = .ok ⟨e, .descending⟩ ∧
      compileProjection (text ++ " as " ++ "asc") .table = .ok ⟨e, some "asc"⟩ := by
  have h : compileExpr "a not in (?) - interval 1 day or cast(? as signed)" .table = _ := rfl
  obtain ⟨-, -, hdescending, -, halias⟩ := compile_clauses h
  exact ⟨h, hdescending "DeSC" rfl, halias ⟨⟨'a', ['s', 'c'], rfl, List.all_eq_true.mp rfl⟩, rfl⟩⟩

end DocWire
