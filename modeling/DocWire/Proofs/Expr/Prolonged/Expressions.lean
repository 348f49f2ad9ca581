import DocWire.Proofs.Expr.Prolonged.Ladder
import DocWire.Proofs.Expr.Numbering

/-!
# Expressions in texts that go on

What a text is compiled to is read of every longer text that goes on with something detached, its
placeholders numbered on from the count there.

* `predicateLevel_carries`   predicates, with the list that may turn out to be an operand;
* `exprWithin_carries`       whole expressions, by induction on what is left of the text;
* `reads_of_compileExpr`     what a text is compiled to is read in front of what is detached.
-/

namespace DocWire

open Source (nextIn)

variable {α : Type} {T : List Char} {k n : Nat} {s s' : Source}

/-! ## Lists behind `IN` -/

theorem continuesOperand_of_not (hpeek : ∀ c ∈ joining, s.peek ≠ some c)
    (hword : s.atKeyword "div" = false) : s.continuesOperand = false := by
  unfold Source.continuesOperand
  rw [hword, Bool.or_false]
  split
  · rename_i h
    exact absurd h (hpeek _ (by decide))
  · rename_i h
    exact absurd h (hpeek _ (by decide))
  · rename_i c _ _ h
    refine Bool.eq_false_iff.mpr fun hc => hpeek c ?_ h
    have hall : ['+', '-', '*', '/', '%', '<', '>', '=', '!', '^'] ⊆ joining := by decide
    exact hall (List.contains_iff_mem.mp hc)
  · rfl

/-- Nothing detached goes on with a closed parenthesis. -/
theorem Detached.continuesOperand (hT : Detached T) (pos m : Nat) :
    (nextIn T pos m).continuesOperand = false :=
  continuesOperand_of_not (fun _ hc => hT.peek hc pos m) (hT.word "div" (by decide) pos m)

theorem Source.Tracks.continuesOperand_eq (h : s.Tracks T k s') (hT : Detached T) :
    s'.skipBlanks.continuesOperand = s.skipBlanks.continuesOperand := by
  obtain ⟨hne, hsame⟩ | ⟨hnil, pos, hpos⟩ := h.cases
  · have hsecond {c : Char} (hc : c ∈ joining) :
        (s'.skipBlanks.peekSecond != some c) = (s.skipBlanks.peekSecond != some c) := by
      rw [Bool.eq_iff_iff, bne_iff_ne, bne_iff_ne]
      exact (hsame.peekSecond_eq_iff hne fun hhead => hT.head c hhead hc).not
    unfold Source.continuesOperand
    rw [hsame.peek_eq hne, hsame.atKeyword_eq hT, hsecond (show '&' ∈ joining by decide),
      hsecond (show '|' ∈ joining by decide)]
  · rw [hpos, hT.continuesOperand]
    unfold Source.continuesOperand
    rw [peek_of_rest_nil hnil, atKeyword_of_nil hnil]
    rfl

theorem Source.Dangling.continuesOperand (h : s.Dangling) : s.continuesOperand = false := by
  unfold Source.continuesOperand
  rw [h.atKeyword, show s.peek = some '.' from h]
  rfl

/-! ## Predicates -/

/-- The value behind `IS`. -/
theorem keywordLiteral_carries (hs : s.Tracks T k s') (hT : Detached T) (name : String)
    (lhs : Expr) (what : Complaint) :
    Carries T k s.remaining (Expr.shift k)
      (match keywordLiteral s.skipBlanks with
        | some (value, t) => .ok (.op name [lhs, .literal value], t)
        | none => s.skipBlanks.fail what)
      (match keywordLiteral s'.skipBlanks with
        | some (value, t) => .ok (.op name [lhs.shift k, .literal value], t)
        | none => s'.skipBlanks.fail what) := by
  obtain ⟨-, hsame⟩ | ⟨hnil, -⟩ := hs.cases
  · have hword := keywordLiteral_finds hsame hT
    generalize keywordLiteral s.skipBlanks = a, keywordLiteral s'.skipBlanks = a' at hword
    cases hword with
    | none => exact .fail _ _ _
    | @some x x' hx =>
      obtain ⟨value, t⟩ := x
      obtain ⟨value', t'⟩ := x'
      obtain ⟨rfl, hlt, ht⟩ := hx
      exact .ok hlt ht.tracks rfl
  · rw [keywordLiteral_of_nil hnil]
    exact .fail _ _ _

theorem isPredicate_carries (hs : s.Tracks T k s') (hT : Detached T) (lhs : Expr) :
    Carries T k s.remaining (Expr.shift k) (isPredicate lhs s) (isPredicate (lhs.shift k) s') := by
  have hnot := hs.eatKeyword hT (show "not" ∈ joiningWords by decide)
  unfold isPredicate
  dsimp only
  generalize s.skipBlanks.eatKeyword "not" = a, s'.skipBlanks.eatKeyword "not" = a' at hnot
  cases hnot with
  | none => exact keywordLiteral_carries hs hT "is" lhs _
  | @some t t' ht =>
    exact (keywordLiteral_carries ht.2.tracks hT "is_not" lhs _).mono
      (t.remaining_le.trans ht.1.le)

section
variable (mode : Mode) {expr expr' : Source → Except SyntaxError (Expr × Source)} {N b b' : Nat}
  (hexpr : ∀ u u' : Source, u.rest.length < N → u.Tracks T k u' →
    Carries T k u.remaining (Expr.shift k) (expr u) (expr' u'))
  (hT : Detached T) (hb : N ≤ b) (hb' : N ≤ b')
include hexpr hT hb hb'

/-- A list in parentheses, or the operand that begins with them, from behind them on. -/
theorem parenthesizedList_carries {make make' : List Expr → Expr}
    {operand operand' : Except SyntaxError (Expr × Source)}
    (hmake : ∀ items, (make items).shift k = make' (items.map (Expr.shift k)))
    (hoperand : Carries T k n (Expr.shift k) operand operand') (hn : s.remaining ≤ n)
    (hN : s.rest.length < N) (hs : s.Tracks T k s') :
    Carries T k n (Expr.shift k)
      (parenthesizedList expr b s >>= fun x => match x with
        | (some items, t) => .ok (make items, t)
        | (none, _) => operand)
      (parenthesizedList expr' b' s' >>= fun x => match x with
        | (some items, t) => .ok (make' items, t)
        | (none, _) => operand') := by
  have hassoc (expr : Source → Except SyntaxError (Expr × Source)) (b : Nat) (s : Source)
      (make : List Expr → Expr) (operand : Except SyntaxError (Expr × Source)) :
      (parenthesizedList expr b s >>= fun x => match x with
        | (some items, t) => .ok (make items, t)
        | (none, _) => operand)
      = separated expr ')' "',' or ')'" b s >>= fun x =>
        if x.2.skipBlanks.continuesOperand && x.1.length == 1 then operand
        else .ok (make x.1, x.2) := by
    unfold parenthesizedList
    cases separated expr ')' "',' or ')'" b s with
    | error e => rfl
    | ok x =>
      rw [ok_bind, ok_bind]
      dsimp only
      split <;> rfl
  rw [hassoc, hassoc]
  refine .bind (separated_carries hexpr (by decide) _ hN (by omega) (by omega) hs)
    (fun items t ht hpoint => ?_) fun items t t' ht hsame => ?_
  · dsimp only
    rw [hpoint.skipBlanks_eq, hpoint.continuesOperand]
    exact Yields.ok ⟨ht.trans_le hn, hpoint⟩
  · dsimp only
    rw [hsame.continuesOperand_eq hT, List.length_map]
    split
    · exact hoperand
    · exact .ok (ht.trans_le hn) hsame (hmake items)

theorem comparisonLevel_carries (hN : s.rest.length ≤ N) (hs : s.Tracks T k s') :
    Carries T k s.remaining (Expr.shift k) (comparisonLevel mode expr b s)
      (comparisonLevel mode expr' b' s') :=
  rung_carries_of_three_le (i := 3) mode hexpr hT hb hb' le_rfl (by decide) hN hs

/-- An operand of a predicate, and a second one behind a keyword. -/
theorem comparisons_carries {keyword : String} (hkeyword : keyword ∈ joiningWords) (name : String)
    (lhs : Expr) (alone alone' : Expr → Source → Except SyntaxError (Expr × Source))
    (hpoint : ∀ e u, u.rest.length < n → u.Dangling → LeavesPoint n (alone e u))
    (halone : ∀ e (u u' : Source), u.rest.length < n → u.Tracks T k u' →
      Carries T k n (Expr.shift k) (alone e u) (alone' (e.shift k) u'))
    (hn : s.remaining ≤ n) (hN : s.rest.length ≤ N) (hs : s.Tracks T k s') :
    Carries T k n (Expr.shift k)
      (comparisonLevel mode expr b s >>= fun x =>
        match x.2.skipBlanks.eatKeyword keyword with
        | none => alone x.1 x.2.skipBlanks
        | some t => comparisonLevel mode expr b t >>= fun y =>
          .ok (.op name [lhs, x.1, y.1], y.2))
      (comparisonLevel mode expr' b' s' >>= fun x =>
        match x.2.skipBlanks.eatKeyword keyword with
        | none => alone' x.1 x.2.skipBlanks
        | some t => comparisonLevel mode expr' b' t >>= fun y =>
          .ok (.op name [lhs.shift k, x.1, y.1], y.2)) := by
  have hle := s.remaining_le
  refine .bind (comparisonLevel_carries mode hexpr hT hb hb' hN hs) (fun e t ht hdangling => ?_)
    fun e t t' ht hsame => ?_
  · dsimp only
    rw [hdangling.skipBlanks_eq, hdangling.eatKeyword]
    exact hpoint e t (ht.trans_le hn) hdangling
  · have hleft := t.remaining_le
    have hword := hsame.eatKeyword hT hkeyword
    dsimp only
    generalize t.skipBlanks.eatKeyword keyword = x, t'.skipBlanks.eatKeyword keyword = x' at hword
    cases hword with
    | none => exact halone e _ _ (hleft.trans_lt (ht.trans_le hn)) hsame.skipBlanks
    | @some u u' hu =>
      have hrest := u.remaining_le
      have hlt : u.rest.length < t.remaining := hu.1
      exact ((comparisonLevel_carries mode hexpr hT hb hb' (by omega) hu.2.tracks).mono
        (by omega)).bind_ok (fun e' => .op name [lhs, e, e'])
          (fun e' => .op name [lhs.shift k, e.shift k, e']) (fun _ _ => rfl) (fun _ _ => rfl)
          fun _ => rfl

theorem negatablePredicate_carries (negated : Bool) (lhs : Expr) (hN : s.rest.length ≤ N)
    (hs : s.Tracks T k s') : Carries T k (s.remaining + 1) (Expr.shift k)
      (negatablePredicate mode expr b negated lhs s.skipBlanks)
      (negatablePredicate mode expr' b' negated (lhs.shift k) s'.skipBlanks) := by
  have hle := s.remaining_le
  have comparison {t t' : Source} (hlt : t.rest.length < s.remaining) (ht : t.Tracks T k t') :
      Carries T k (s.remaining + 1) (Expr.shift k) (comparisonLevel mode expr b t)
        (comparisonLevel mode expr' b' t') := by
    have hleft := t.remaining_le
    exact (comparisonLevel_carries mode hexpr hT hb hb' (by omega) ht).mono (by omega)
  have withOperand (name : String) {t t' : Source} (hlt : t.rest.length < s.remaining)
      (ht : t.Tracks T k t') : Carries T k (s.remaining + 1) (Expr.shift k)
        (comparisonLevel mode expr b t >>= fun x => .ok (.op name [lhs, x.1], x.2))
        (comparisonLevel mode expr' b' t' >>= fun x => .ok (.op name [lhs.shift k, x.1], x.2)) :=
    (comparison hlt ht).bind_ok (fun e => .op name [lhs, e]) (fun e => .op name [lhs.shift k, e])
      (fun _ _ => rfl) (fun _ _ => rfl) fun _ => rfl
  have word {w : String} (hw : w ∈ joiningWords) := hs.eatKeyword hT hw
  have hin := word (show "in" ∈ joiningWords by decide)
  have hlike := word (show "like" ∈ joiningWords by decide)
  have hregexp := word (show "regexp" ∈ joiningWords by decide)
  have hbetween := word (show "between" ∈ joiningWords by decide)
  have hoverlaps := word (show "overlaps" ∈ joiningWords by decide)
  unfold negatablePredicate
  dsimp only
  generalize s.skipBlanks.eatKeyword "in" = x, s'.skipBlanks.eatKeyword "in" = x' at hin
  cases hin with
  | @some t t' ht =>
    have hlt : t.rest.length < s.remaining := ht.1
    have hleft := t.remaining_le
    have hopen := ht.2.tracks.eat hT (show '(' ∈ joining by decide)
    have operand := withOperand (if negated then "not_" ++ "cont_in" else "cont_in")
      (t := t.skipBlanks) (hleft.trans_lt hlt) ht.2.tracks.skipBlanks
    dsimp only
    generalize t.skipBlanks.eat '(' = y, t'.skipBlanks.eat '(' = y' at hopen
    cases hopen with
    | none => exact operand
    | @some u u' hu =>
      have hlist := u.remaining_le
      have hshort : u.rest.length < t.remaining := hu.1
      refine parenthesizedList_carries hexpr hT hb hb' (fun items => ?_) operand (by omega) (by omega)
        hu.2.tracks
      rw [Expr.shift, Expr.shiftList, Expr.shiftList_eq]
  | none =>
  dsimp only
  generalize s.skipBlanks.eatKeyword "like" = x, s'.skipBlanks.eatKeyword "like" = x' at hlike
  cases hlike with
  | @some t t' ht =>
    have hlt : t.rest.length < s.remaining := ht.1
    have hleft := t.remaining_le
    exact comparisons_carries (n := s.remaining + 1) mode hexpr hT hb hb'
      (show "escape" ∈ joiningWords by decide) (if negated then "not_" ++ "like" else "like") lhs
      (fun e u => .ok (.op (if negated then "not_" ++ "like" else "like") [lhs, e], u))
      (fun e u => .ok (.op (if negated then "not_" ++ "like" else "like") [lhs.shift k, e], u))
      (fun e u hu hdangling => Yields.ok ⟨hu, hdangling⟩) (fun e u u' hu hsame => .ok hu hsame rfl)
      (by omega) (by omega) ht.2.tracks
  | none =>
  dsimp only
  generalize s.skipBlanks.eatKeyword "regexp" = x, s'.skipBlanks.eatKeyword "regexp" = x' at hregexp
  cases hregexp with
  | some ht => exact withOperand _ ht.1 ht.2.tracks
  | none =>
  dsimp only
  generalize s.skipBlanks.eatKeyword "between" = x, s'.skipBlanks.eatKeyword "between" = x' at hbetween
  cases hbetween with
  | @some t t' ht =>
    have hlt : t.rest.length < s.remaining := ht.1
    have hleft := t.remaining_le
    exact comparisons_carries (n := s.remaining + 1) mode hexpr hT hb hb'
      (show "and" ∈ joiningWords by decide) (if negated then "not_" ++ "between" else "between") lhs
      (fun _ u => u.fail (.expected "AND in BETWEEN"))
      (fun _ u => u.fail (.expected "AND in BETWEEN"))
      (fun e u _ _ => Yields.fail u (.expected "AND in BETWEEN"))
      (fun e u u' _ _ => .fail u (.expected "AND in BETWEEN") _) (by omega) (by omega) ht.2.tracks
  | none =>
  dsimp only
  generalize s.skipBlanks.eatKeyword "overlaps" = x,
    s'.skipBlanks.eatKeyword "overlaps" = x' at hoverlaps
  cases hoverlaps with
  | some ht => exact withOperand _ ht.1 ht.2.tracks
  | none => exact .ok (Nat.lt_succ_self _) hs.skipBlanks rfl

theorem predicateLevel_carries (hN : s.rest.length ≤ N) (hs : s.Tracks T k s') :
    Carries T k s.remaining (Expr.shift k) (predicateLevel mode expr b s)
      (predicateLevel mode expr' b' s') := by
  have hle := s.remaining_le
  unfold predicateLevel
  refine .bind (comparisonLevel_carries mode hexpr hT hb hb' hN hs) (fun lhs t ht hpoint => ?_)
    fun lhs t t' ht hsame => ?_
  · dsimp only
    rw [hpoint.skipBlanks_eq, hpoint.eatKeyword, hpoint.eatKeyword]
    dsimp only
    unfold negatablePredicate
    rw [hpoint.eatKeyword, hpoint.eatKeyword, hpoint.eatKeyword, hpoint.eatKeyword,
      hpoint.eatKeyword]
    exact Yields.ok ⟨ht, hpoint⟩
  · have hleft := t.remaining_le
    have his := hsame.eatKeyword hT (show "is" ∈ joiningWords by decide)
    have hnot := hsame.eatKeyword hT (show "not" ∈ joiningWords by decide)
    dsimp only
    generalize t.skipBlanks.eatKeyword "is" = x, t'.skipBlanks.eatKeyword "is" = x' at his
    cases his with
    | @some u u' hu =>
      have hlt : u.rest.length < t.remaining := hu.1
      have hrest := u.remaining_le
      exact (isPredicate_carries hu.2.tracks hT lhs).mono (by omega)
    | none =>
    dsimp only
    generalize t.skipBlanks.eatKeyword "not" = x, t'.skipBlanks.eatKeyword "not" = x' at hnot
    cases hnot with
    | none =>
      exact (negatablePredicate_carries mode hexpr hT hb hb' false lhs (by omega) hsame).mono
        (by omega)
    | @some u u' hu =>
      have hlt : u.rest.length < t.remaining := hu.1
      have hrest := u.remaining_le
      dsimp only
      rw [hu.2.tracks.atNegatable_eq hT]
      split
      · exact (negatablePredicate_carries mode hexpr hT hb hb' true lhs (by omega)
          hu.2.tracks).mono (by omega)
      · exact .ok (hleft.trans_lt ht) hsame.skipBlanks rfl

/-- The levels of the ladder. -/
theorem rung_carries {i : Nat} (h8 : i ≤ 8) (hN : s.rest.length ≤ N) (hs : s.Tracks T k s') :
    Carries T k s.remaining (Expr.shift k) (rung mode expr b i s) (rung mode expr' b' i s') := by
  induction h8 using Nat.decreasingInduction generalizing s s' with
  | self => exact rung_carries_of_three_le mode hexpr hT hb hb' (by decide) le_rfl hN hs
  | of_succ j hj ih =>
    by_cases hpredicates : j = 2
    · subst hpredicates
      exact predicateLevel_carries mode hexpr hT hb hb' hN hs
    · have hbinary : IsBinary j := ⟨hj, hpredicates⟩
      rw [rung_eq_binaryLevel mode expr b hbinary, rung_eq_binaryLevel mode expr' b' hbinary]
      exact binaryLevel_carries (fun u u' hu hu' => ih hu hu') hT j hN hb hb' hs

end

/-! ## Whole expressions -/

/-- What is read of a text is read in a longer one, if there are rounds enough for the text: what
comes behind takes none. -/
theorem exprWithin_carries (mode : Mode) (hT : Detached T) {b b' : Nat} (hb : s.rest.length ≤ b)
    (hb' : s.rest.length ≤ b') (hs : s.Tracks T k s') :
    Carries T k s.remaining (Expr.shift k) (exprWithin mode b s) (exprWithin mode b' s') := by
  induction b generalizing b' s s' with
  | zero => exact Vain.carries (Yields.fail _ _) _
  | succ b ih =>
    cases b' with
    | zero =>
      have hzero : s.rest.length = 0 := Nat.le_zero.mp hb'
      have hself : s.Tracks [] 0 s := ⟨by rw [List.append_nil], rfl⟩
      have hinner : ∀ u u' : Source, u.rest.length < s.rest.length → u.Tracks [] 0 u' →
          Carries [] 0 u.remaining (Expr.shift 0) (exprWithin mode b u) (exprWithin mode b u') :=
        fun u _ hu _ => absurd (hzero ▸ hu) (Nat.not_lt_zero _)
      have hread := rung_carries mode hinner .nil hb hb (Nat.zero_le 8) le_rfl hself
      rw [show s.remaining = 0 from Nat.le_zero.mp (hzero ▸ s.remaining_le)] at hread
      exact Vain.carries hread.vain _
    | succ b' =>
      exact rung_carries (i := 0) (N := s.rest.length) mode
        (fun u u' hu hu' => ih (by omega) (by omega) hu') hT hb hb' (Nat.zero_le 8) le_rfl hs

/-- What a text is compiled to is read in front of what is detached. -/
theorem reads_of_compileExpr {mode : Mode} {text : String} {e : Expr}
    (h : compileExpr text mode = .ok e) (hT : Detached T) {b : Nat} (hb : text.toList.length ≤ b) :
    Reads (exprWithin mode b) text.toList e.positionalCount (fun m => e.shift m) T := by
  obtain ⟨t, ht, hend⟩ := exists_read_of_compileExpr h
  have hmarks : t.marks = e.positionalCount := by
    obtain ⟨count, hindices, hcount⟩ := exprWithin_numbers mode _ _ e t ht
    rw [(compileExpr_inOrder h).positionalCount, hindices, List.length_range']
    exact hcount.trans (Nat.zero_add count)
  intro s m hs
  have htracks : (Source.ofList text.toList).Tracks T m s := by
    refine ⟨hs.1, hs.2.trans ?_⟩
    exact (Nat.zero_add m).symm
  obtain ⟨-, hcarries⟩ := exprWithin_carries mode hT le_rfl hb htracks e t ht
  obtain ⟨t', ht', hat⟩ := hcarries (Source.not_dangling_of_end hend)
  refine ⟨t', ht', ?_⟩
  rw [← hmarks, Nat.add_comm]
  exact hat.at_of_end hend

end DocWire
