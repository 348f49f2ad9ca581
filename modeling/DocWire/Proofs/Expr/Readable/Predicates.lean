import DocWire.Proofs.Expr.Readable.Atoms

/-!
# Reading predicates

The predicates stand on the third rung from above, behind an operand that the rungs below them read.

* `negatableWords`, `predicateWords`   the words of predicates, which mean nothing to those rungs;
* `predicateLevel_negatedWord`   a predicate is recognized by its word, with a `NOT` before it or not;
* `Piece.Readable.negatable`     what is left to read of a predicate that can be negated;
* `Piece.Readable.predicate`, `likeEscape`, `between`, `isKeyword`, `isIn`   the predicates.
-/

namespace DocWire

open Source (nextIn)

/-! ## Words -/

/-- the words of the predicates that can be negated -/
def negatableWords : List (List Char) :=
  ["IN".toList, "LIKE".toList, "REGEXP".toList, "OVERLAPS".toList, "BETWEEN".toList]

/-- the words of predicates that stand behind an operand -/
def predicateWords : List (List Char) :=
  negatableWords ++ ["IS".toList, "NOT".toList, "ESCAPE".toList, "AND".toList]

/-- A word of a predicate means nothing to the rungs of operators below the predicates. -/
theorem silent_predicateWord {word : List Char} (hword : word ∈ predicateWords) {i : Nat}
    (h3 : 3 ≤ i) (h8 : i ≤ 8) (U : List Char) : Silent i (' ' :: (word ++ ' ' :: U)) := by
  simp only [predicateWords, negatableWords, List.cons_append, List.nil_append, List.mem_cons,
    List.not_mem_nil, or_false] at hword
  interval_cases i
  case «8» =>
    intro pos m
    refine .inl ⟨?_, ?_⟩ <;>
      rcases hword with rfl | rfl | rfl | rfl | rfl | rfl | rfl | rfl | rfl <;>
        exact fun h => absurd (Option.some.inj h) (by decide)
  all_goals
    intro pos m
    rcases hword with rfl | rfl | rfl | rfl | rfl | rfl | rfl | rfl | rfl <;> rfl

theorem silent_negatedWord (negated : Bool) {word : List Char} (hword : word ∈ predicateWords)
    {i : Nat} (h3 : 3 ≤ i) (h8 : i ≤ 8) (U : List Char) :
    Silent i (' ' :: (negatedWord negated word ++ ' ' :: U)) := by
  cases negated with
  | false => exact silent_predicateWord hword h3 h8 U
  | true => exact silent_predicateWord (show "NOT".toList ∈ predicateWords by decide) h3 h8 (word ++ ' ' :: U)

/-! ## Predicates that can be negated -/

section
variable {b : Nat} {p l r : Piece Expr}

/-- Behind its left operand, a predicate is recognized by its word. -/
theorem predicateLevel_negatedWord {mode : Mode}
    {expr : Source → Except SyntaxError (Expr × Source)} {bound : Nat} (negated : Bool)
    {word : List Char} (hword : word ∈ negatableWords) {s t : Source} {lhs : Expr} {m : Nat} {U : List Char}
    (hlhs : comparisonLevel mode expr bound s = .ok (lhs, t))
    (ht : t.At (' ' :: (negatedWord negated word ++ ' ' :: U)) m) :
    ∃ pos, predicateLevel mode expr bound s
      = negatablePredicate mode expr bound negated lhs ⟨word ++ ' ' :: U, pos, m⟩ := by
  obtain ⟨pos, hpos⟩ := ht.skipBlanks_eq
  unfold predicateLevel
  rw [hlhs, ok_bind]
  dsimp only
  rw [hpos]
  simp only [negatableWords, List.mem_cons, List.not_mem_nil, or_false] at hword
  cases negated with
  | false => exact ⟨pos, by rcases hword with rfl | rfl | rfl | rfl | rfl <;> rfl⟩
  | true => exact ⟨pos + 4, by rcases hword with rfl | rfl | rfl | rfl | rfl <;> rfl⟩

/-- A predicate is read behind its left operand where what is left of it is read behind its word. -/
theorem Piece.Readable.negatable {α : Type} (negated : Bool) {word : List Char}
    (hword : word ∈ negatableWords) (hl : l.Readable b) {f : Expr → α → Expr} {q : Piece α}
    (hq : ∀ T, Ends T → ∀ lhs pos m, ∃ t, negatablePredicate .document (exprWithin .document b)
      (b + 1) negated lhs ⟨word ++ ' ' :: (q.chars ++ T), pos, m⟩ = .ok (f lhs (q.value m), t) ∧
        t.At T (m + q.marks)) :
    (Piece.pair (spaced (negatedWord negated word)) f l.paren q).Readable (b + 1) := by
  refine readable_of_rung (k := 2) (by decide) fun T hT s m hs => ?_
  have htext : (Piece.pair (spaced (negatedWord negated word)) f l.paren q).chars ++ T
      = l.paren.chars ++ ' ' :: (negatedWord negated word ++ ' ' :: (q.chars ++ T)) := by
    simp [pair, spaced]
  obtain ⟨t, ht, hat⟩ := hl.paren_rung (k := 3) (by decide) (fun i h3 h8 => silent_negatedWord
    negated (List.mem_append_left _ hword) h3 h8 (q.chars ++ T)) s m (htext ▸ hs)
  obtain ⟨pos, hpredicate⟩ := predicateLevel_negatedWord negated hword ht hat
  obtain ⟨u, hu, hatu⟩ := hq T hT (l.value m) pos (m + l.marks)
  refine ⟨u, hpredicate.trans hu, ?_⟩
  show u.At T (m + (l.marks + q.marks))
  rw [← Nat.add_assoc]
  exact hatu

/-- Behind a blank, an operand of a predicate is read. -/
theorem Piece.Readable.comparison (h : p.Readable b) {T : List Char}
    (hT : ∀ i, 3 ≤ i → i ≤ 8 → Silent i T) (pos m : Nat) :
    ∃ t, comparisonLevel .document (exprWithin .document b) (b + 1)
      ⟨' ' :: (p.paren.chars ++ T), pos, m⟩ = .ok (p.value m, t) ∧ t.At T (m + p.marks) :=
  h.paren_rung (k := 3) (by decide) hT _ m (.blank _ _ _)

theorem Ends.eatKeyword {T : List Char} (hT : Ends T) {s : Source} {m : Nat} (hs : s.At T m)
    (word : String) : s.skipBlanks.eatKeyword word = none := by
  obtain ⟨pos, hpos⟩ := hs.skipBlanks_eq
  rw [hpos]
  refine eatKeyword_of_not ?_
  cases hT with
  | done => rfl
  | bracket h U =>
    simp only [List.mem_cons, List.not_mem_nil, or_false] at h
    rcases h with rfl | rfl | rfl | rfl <;> exact atKeyword_of_not_isWordStart rfl _ _ _ _

theorem Piece.Readable.predicate (negated : Bool) (word : WordPredicate) (hl : l.Readable b)
    (hr : r.Readable b) : (Piece.operator (negatedName negated word.name)
      (spaced (negatedWord negated word.chars)) l r).Readable (b + 1) := by
  refine hl.negatable (q := r.paren) negated (by cases word <;> decide) fun T hT lhs pos m => ?_
  have hright (pos : Nat) := hr.comparison (fun i _ h8 => hT.silent h8) pos m
  cases word with
  | like =>
    obtain ⟨t, ht, hat⟩ := hright (pos + 4)
    refine ⟨t.skipBlanks, ?_, hat.skipBlanks⟩
    show (comparisonLevel .document (exprWithin .document b) (b + 1)
      ⟨' ' :: (r.paren.chars ++ T), pos + 4, m⟩ >>= _) = _
    rw [ht, ok_bind]
    dsimp only
    rw [hT.eatKeyword hat]
    rfl
  | regexp =>
    obtain ⟨t, ht, hat⟩ := hright (pos + 6)
    refine ⟨t, ?_, hat⟩
    show (comparisonLevel .document (exprWithin .document b) (b + 1)
      ⟨' ' :: (r.paren.chars ++ T), pos + 6, m⟩ >>= _) = _
    rw [ht]
    rfl
  | overlaps =>
    obtain ⟨t, ht, hat⟩ := hright (pos + 8)
    refine ⟨t, ?_, hat⟩
    show (comparisonLevel .document (exprWithin .document b) (b + 1)
      ⟨' ' :: (r.paren.chars ++ T), pos + 8, m⟩ >>= _) = _
    rw [ht]
    rfl

/-- Two operands of a predicate are read with the word between them. -/
theorem Piece.Readable.comparisons (hl : l.Readable b) (hr : r.Readable b) {word : List Char}
    (hword : word ∈ predicateWords) (keyword : String)
    (heat : ∀ U pos m, ∃ pos', (nextIn (' ' :: (word ++ ' ' :: U)) pos m).eatKeyword keyword
      = some ⟨' ' :: U, pos', m⟩) {T : List Char} (hT : Ends T) (f : Expr → Expr → List Expr)
    (pos m : Nat) :
    ∃ t u v, comparisonLevel .document (exprWithin .document b) (b + 1)
        ⟨' ' :: ((Piece.pair (spaced word) f l.paren r.paren).chars ++ T), pos, m⟩
          = .ok (l.value m, t) ∧
      t.skipBlanks.eatKeyword keyword = some u ∧
      comparisonLevel .document (exprWithin .document b) (b + 1) u
        = .ok (r.value (m + l.marks), v) ∧
      v.At T (m + (l.marks + r.marks)) := by
  obtain ⟨t, ht, hat⟩ := hl.comparison (T := ' ' :: (word ++ ' ' :: (r.paren.chars ++ T)))
    (fun i h3 h8 => silent_predicateWord hword h3 h8 _) pos m
  obtain ⟨pos', hpos⟩ := hat.skipBlanks_eq
  obtain ⟨pos'', hword⟩ := heat (r.paren.chars ++ T) pos' (m + l.marks)
  obtain ⟨v, hv, hatv⟩ := hr.comparison (fun i _ h8 => hT.silent h8) pos'' (m + l.marks)
  refine ⟨t, _, v, ?_, hpos ▸ hword, hv, Nat.add_assoc m l.marks r.marks ▸ hatv⟩
  rw [← ht]
  simp [pair, spaced]

theorem Piece.Readable.likeEscape {e : Piece Expr} (negated : Bool) (hp : p.Readable b)
    (hl : l.Readable b) (he : e.Readable b) :
    (Piece.pair (spaced (negatedWord negated "LIKE".toList))
      (fun s rest => .op (negatedName negated "like") (s :: rest)) p.paren
      (.pair (spaced "ESCAPE".toList) (fun p e => [p, e]) l.paren e.paren)).Readable (b + 1) := by
  refine hp.negatable negated (by decide) fun T hT lhs pos m => ?_
  obtain ⟨t, u, v, ht, hu, hv, hat⟩ := hl.comparisons he
    (show "ESCAPE".toList ∈ predicateWords by decide) "escape" (fun U pos m => ⟨pos + 6, rfl⟩) hT _
    (pos + 4) m
  refine ⟨v, ?_, hat⟩
  show (comparisonLevel .document (exprWithin .document b) (b + 1) ⟨' ' :: _, pos + 4, m⟩ >>= _) = _
  rw [ht, ok_bind]
  dsimp only
  rw [hu]
  dsimp only
  rw [hv]
  rfl

theorem Piece.Readable.between {h : Piece Expr} (negated : Bool) (hp : p.Readable b)
    (hl : l.Readable b) (hh : h.Readable b) :
    (Piece.pair (spaced (negatedWord negated "BETWEEN".toList))
      (fun s rest => .op (negatedName negated "between") (s :: rest)) p.paren
      (.pair (spaced "AND".toList) (fun l h => [l, h]) l.paren h.paren)).Readable (b + 1) := by
  refine hp.negatable negated (by decide) fun T hT lhs pos m => ?_
  obtain ⟨t, u, v, ht, hu, hv, hat⟩ := hl.comparisons hh
    (show "AND".toList ∈ predicateWords by decide) "and" (fun U pos m => ⟨pos + 3, rfl⟩) hT _
    (pos + 7) m
  refine ⟨v, ?_, hat⟩
  show (comparisonLevel .document (exprWithin .document b) (b + 1) ⟨' ' :: _, pos + 7, m⟩ >>= _) = _
  rw [ht, ok_bind]
  dsimp only
  rw [hu]
  dsimp only
  rw [hv]
  rfl

/-! ## Keywords behind `IS` -/

theorem isPredicate_keyword (negated : Bool) (k : KeywordLiteral) {T : List Char} (hT : EndsWord T)
    (lhs : Expr) (pos m : Nat) :
    ∃ pos', isPredicate lhs ⟨' ' :: (negatedWord negated k.chars ++ T), pos, m⟩
      = .ok (.op (if negated then "is_not" else "is") [lhs, .literal k.scalar], ⟨T, pos', m⟩) := by
  have hskip (pos : Nat) : (⟨' ' :: (k.chars ++ T), pos, m⟩ : Source).skipBlanks
      = ⟨k.chars ++ T, pos + 1, m⟩ := by cases k <;> rfl
  cases negated with
  | true =>
    obtain ⟨pos', hliteral⟩ := k.keywordLiteral_append hT (pos + 5) m
    have hnot : (⟨' ' :: (negatedWord true k.chars ++ T), pos, m⟩ : Source).skipBlanks.eatKeyword
        "not" = some ⟨' ' :: (k.chars ++ T), pos + 4, m⟩ := rfl
    refine ⟨pos', ?_⟩
    unfold isPredicate
    dsimp only
    rw [hnot]
    dsimp only
    rw [hskip, hliteral]
    rfl
  | false =>
    obtain ⟨pos', hliteral⟩ := k.keywordLiteral_append hT (pos + 1) m
    have hnot : (⟨k.chars ++ T, pos + 1, m⟩ : Source).eatKeyword "not" = none := by
      refine eatKeyword_of_not ?_
      rw [k.atKeyword_append hT]
      cases k <;> rfl
    refine ⟨pos', ?_⟩
    unfold isPredicate
    rw [show (⟨' ' :: (negatedWord false k.chars ++ T), pos, m⟩ : Source).skipBlanks
      = ⟨k.chars ++ T, pos + 1, m⟩ from hskip pos]
    dsimp only
    rw [hnot]
    dsimp only
    rw [hliteral]
    rfl

theorem Piece.Readable.isKeyword (negated : Bool) (k : KeywordLiteral) (h : p.Readable b) :
    (p.paren.within [] (" IS ".toList ++ negatedWord negated k.chars) fun e =>
      .op (if negated then "is_not" else "is") [e, .literal k.scalar]).Readable (b + 1) := by
  refine readable_of_rung (k := 2) (by decide) fun T hT s m hs => ?_
  have htext : (p.paren.within [] (" IS ".toList ++ negatedWord negated k.chars) fun e =>
      Expr.op (if negated then "is_not" else "is") [e, .literal k.scalar]).chars ++ T
      = p.paren.chars ++ ' ' :: ("IS".toList ++ ' ' :: (negatedWord negated k.chars ++ T)) := by
    simp [within]
  obtain ⟨t, ht, hat⟩ := h.paren_rung (k := 3) (by decide) (fun i h3 h8 =>
    silent_predicateWord (show "IS".toList ∈ predicateWords by decide) h3 h8 _) s m (htext ▸ hs)
  obtain ⟨pos, hpos⟩ := hat.skipBlanks_eq
  obtain ⟨pos', hpredicate⟩ := isPredicate_keyword negated k hT.endsWord (p.value m) (pos + 2)
    (m + p.marks)
  refine ⟨_, ?_, .refl T pos' _⟩
  show predicateLevel .document (exprWithin .document b) (b + 1) s = _
  unfold predicateLevel
  rw [show comparisonLevel .document (exprWithin .document b) (b + 1) s = _ from ht, ok_bind]
  dsimp only
  rw [hpos]
  exact hpredicate

/-! ## Lists -/

theorem Ends.not_continuesOperand {T : List Char} (hT : Ends T) {s : Source} {m : Nat}
    (hs : s.At T m) : s.skipBlanks.continuesOperand = false := by
  obtain ⟨pos, hpos⟩ := hs.skipBlanks_eq
  rw [hpos]
  cases hT with
  | done => rfl
  | bracket h U =>
    simp only [List.mem_cons, List.not_mem_nil, or_false] at h
    rcases h with rfl | rfl | rfl | rfl <;> rfl

theorem Piece.Readable.paren_readable (h : p.Readable b) : p.paren.Readable (b + 1) :=
  fun _ hT => h.paren_rung (Nat.zero_le 8) fun _ _ h8 => hT.silent h8

theorem Piece.Readable.isIn (negated : Bool) (hp : p.Readable b) {ps : List (Piece Expr)}
    (hps : ps ≠ []) (h : ∀ q ∈ ps, q.Readable b) (hlength : ps.length ≤ b + 1) :
    (Piece.pair (spaced (negatedWord negated "IN".toList)) (fun l items =>
      .op (negatedName negated "in") (l :: items)) p.paren (Piece.row ps).paren).Readable (b + 1) := by
  refine hp.negatable negated (by decide) fun T hT lhs pos m => ?_
  obtain ⟨t, ht, hat⟩ := separated_reads ')' (by decide) "',' or ')'" ps hps
    (fun q hq => (h q hq).readBefore ')' (by decide)) hlength T
    ⟨(Piece.row ps).chars ++ [')'] ++ T, pos + 4, m⟩ m (.refl _ _ _)
  refine ⟨t, ?_, hat⟩
  have htext : (Piece.row ps).paren.chars ++ T = '(' :: ((Piece.row ps).chars ++ [')'] ++ T) := by
    rw [(Piece.row ps).paren_append]
    simp
  rw [htext]
  show (parenthesizedList (exprWithin .document b) (b + 1)
    ⟨(Piece.row ps).chars ++ [')'] ++ T, pos + 4, m⟩ >>= _) = _
  unfold parenthesizedList
  rw [ht]
  show ((if t.skipBlanks.continuesOperand && _ then _ else _) >>= _) = _
  rw [hT.not_continuesOperand hat]
  rfl

end

end DocWire
