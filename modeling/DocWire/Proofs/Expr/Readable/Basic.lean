import DocWire.Proofs.Expr.Phrase

/-!
# Reading pieces

Pieces are read wherever expressions may end.  A piece in parentheses is read as an operand, whatever
follows, so an operator with such operands is read if nothing behind it could take it further.

* `Ends`                  where expressions end;
* `Piece.Readable`        a piece is read as an expression;
* `Piece.Readable.paren`  a piece in parentheses is an operand;
* `Piece.Readable.binary`, `Piece.Readable.unary`   operators;
* `separated_reads`       pieces in a row.
-/

namespace DocWire

open Source (nextIn)

/-! ## Where expressions end -/

/-- An expression ends at the end of the text, or at what closes or goes on with the brackets that
it stands in. -/
inductive Ends : List Char → Prop
  | done : Ends []
  | bracket {c : Char} (h : c ∈ [')', ',', ']', '\x7d']) (U : List Char) : Ends (c :: U)

namespace Ends

variable {T : List Char}

theorem silent (hT : Ends T) {i : Nat} (hi : i ≤ 8) : Silent i T := by
  cases hT with
  | done => exact silent_nil hi
  | bracket h U =>
    simp only [List.mem_cons, List.not_mem_nil, or_false] at h
    interval_cases i
    case «2» =>
      intro word _ pos m
      rcases h with rfl | rfl | rfl | rfl <;> exact atKeyword_of_not_isWordStart rfl _ _ _ _
    case «8» =>
      intro pos m
      refine .inl ⟨?_, ?_⟩ <;> rcases h with rfl | rfl | rfl | rfl <;>
        exact fun h => absurd (Option.some.inj h) (by decide)
    all_goals
      intro pos m
      rcases h with rfl | rfl | rfl | rfl <;> rfl

theorem mem_of_head? (hT : Ends T) {c : Char} (hc : c ∈ T.head?) : c ∈ [')', ',', ']', '\x7d'] := by
  cases hT with
  | done => cases hc
  | bracket h U => exact Option.some.inj hc ▸ h

theorem forall_head? (hT : Ends T) {P : Char → Prop} (hparen : P ')') (hcomma : P ',')
    (hbracket : P ']') (hbrace : P '\x7d') : ∀ c ∈ T.head?, P c := by
  intro c hc
  have hmem := hT.mem_of_head? hc
  simp only [List.mem_cons, List.not_mem_nil, or_false] at hmem
  rcases hmem with rfl | rfl | rfl | rfl
  · exact hparen
  · exact hcomma
  · exact hbracket
  · exact hbrace

theorem endsWord (hT : Ends T) : EndsWord T :=
  hT.forall_head? (by decide) (by decide) (by decide) (by decide)

theorem endsNumeral (hT : Ends T) : EndsNumeral T :=
  hT.forall_head? (by decide) (by decide) (by decide) (by decide)

end Ends

/-! ## Pieces and readers -/

/-- A piece is read by expressions of at most `b` characters, wherever they may end. -/
def Piece.Readable (b : Nat) (p : Piece Expr) : Prop :=
  ∀ T, Ends T → Reads (exprWithin .document b) p.chars p.marks p.value T

section
variable {b : Nat} {p l r : Piece Expr}

theorem Piece.readable_of_rung {k : Nat} (hk : k ≤ 8)
    (h : ∀ T, Ends T → Reads (rung .document (exprWithin .document b) (b + 1) k) p.chars p.marks
      p.value T) : p.Readable (b + 1) := fun T hT =>
  (h T hT).climb (Nat.zero_le k) hk fun i _ hi => hT.silent (by omega)

theorem Piece.readable_of_unary
    (h : ∀ T, Ends T → Reads (unaryLevel .document (exprWithin .document b) (b + 1) (b + 1)) p.chars
      p.marks p.value T) : p.Readable (b + 1) :=
  readable_of_rung (Nat.le_refl 8) fun T hT => intervalLevel_reads (h T hT) (hT.silent (Nat.le_refl 8))

theorem expect_at {s : Source} {c : Char} {cs : List Char} {m : Nat} (h : s.At (c :: cs) m)
    (hc : Text.isBlank c = false) (what : String) :
    ∃ pos, s.expect c what = .ok ⟨cs, pos, m⟩ := by
  obtain ⟨pos, hpos⟩ := h.solid hc
  refine ⟨pos + byteLength [c], ?_⟩
  unfold Source.expect
  rw [hpos, eat_self]

theorem Piece.paren_append {α : Type} (p : Piece α) (T : List Char) :
    p.paren.chars ++ T = '(' :: (p.chars ++ ')' :: T) := by
  simp [paren]

/-- What is in parentheses is an operand, whatever follows. -/
theorem Piece.Readable.paren (h : p.Readable b) (T : List Char) (bound count : Nat) :
    Reads (unaryLevel .document (exprWithin .document b) bound (count + 1)) p.paren.chars p.marks
      p.value T := by
  refine unaryLevel_reads rfl (by decide) (fun pos m => atKeyword_of_not_isWordStart rfl _ _ _ _)
    fun pos m => ?_
  obtain ⟨t, ht, hat⟩ := h (')' :: T) (.bracket (by decide) T)
    ⟨p.chars ++ ')' :: T, pos + byteLength ['('], m⟩ m (.refl _ _ _)
  obtain ⟨pos', hclose⟩ := expect_at hat rfl "')'"
  refine ⟨_, ?_, .refl T pos' _⟩
  rw [List.cons_append, List.append_assoc]
  show (exprWithin .document b ⟨p.chars ++ ')' :: T, pos + byteLength ['('], m⟩ >>= _) = _
  rw [ht]
  show (t.expect ')' "')'" >>= _) = _
  rw [hclose]
  rfl

theorem Piece.Readable.paren_rung (h : p.Readable b) {k : Nat} (hk : k ≤ 8) {T : List Char}
    (hT : ∀ i, k ≤ i → i ≤ 8 → Silent i T) :
    Reads (rung .document (exprWithin .document b) (b + 1) k) p.paren.chars p.marks p.value T :=
  (intervalLevel_reads (h.paren T (b + 1) b) (hT 8 hk (Nat.le_refl 8))).climb hk (Nat.le_refl 8)
    fun i hki hi => hT i hki (Nat.le_of_lt hi)

theorem Piece.Readable.pos (h : p.Readable b) : ∃ count, b = count + 1 := by
  refine Nat.exists_eq_succ_of_ne_zero fun hb => ?_
  subst hb
  obtain ⟨t, ht, -⟩ := h [] .done ⟨p.chars ++ [], 0, 0⟩ 0 (.refl _ _ _)
  cases ht

/-! ## Operators -/

/-- An operator with a parenthesis behind it means nothing to the tighter rungs. -/
theorem BinaryOp.silent_paren (o : BinaryOp) {i : Nat} (hi : o.rung < i) (h8 : i ≤ 8)
    (U : List Char) : Silent i (' ' :: (o.chars ++ ' ' :: '(' :: U)) := by
  by_cases hpredicates : i = 2
  · subst hpredicates
    exact o.silent_predicates _
  · by_cases hintervals : i = 8
    · subst hintervals
      exact o.silent_intervals fun _ _ => rfl
    · exact o.silent hi ⟨by omega, hpredicates⟩ _

theorem Piece.Readable.binary (o : BinaryOp) (hl : l.Readable b) (hr : r.Readable b) :
    (Piece.operator o.name (spaced o.chars) l r).Readable (b + 1) := by
  have hbinary := o.isBinary_rung
  refine readable_of_rung (Nat.le_of_lt hbinary.1) fun T hT => ?_
  have htext : spaced o.chars ++ r.paren.chars ++ T
      = ' ' :: (o.chars ++ ' ' :: '(' :: (r.chars ++ ')' :: T)) := by
    rw [List.append_assoc, r.paren_append]
    simp [spaced]
  refine Reads.operator hbinary (Nat.succ_pos b) (hl.paren_rung hbinary.1 fun i hi h8 => ?_) ?_
    (hr.paren_rung hbinary.1 fun i _ h8 => hT.silent h8) (hT.silent (Nat.le_of_lt hbinary.1))
  · rw [htext]
    exact o.silent_paren hi h8 _
  · rw [htext, r.paren_append]
    exact o.meets _

theorem unaryLevel_unaryOp {mode : Mode} {expr : Source → Except SyntaxError (Expr × Source)}
    {bound count : Nat} (o : UnaryOp) {s : Source} {U : List Char} {pos m : Nat}
    (hs : s.skipBlanks = ⟨o.chars ++ '(' :: U, pos, m⟩) :
    ∃ pos', unaryLevel mode expr bound (count + 1) s
      = (unaryLevel mode expr bound count ⟨'(' :: U, pos', m⟩ >>= fun (arg, t) =>
        .ok (.unary o.name arg, t)) := by
  conv in unaryLevel mode expr bound (count + 1) s => unfold unaryLevel
  dsimp only
  rw [hs]
  cases o with
  | bang => exact ⟨pos + 1, rfl⟩
  | tilde => exact ⟨pos + 1, rfl⟩
  | plus => exact ⟨pos + 1, rfl⟩
  | minus => exact ⟨pos + 1, rfl⟩
  | not => exact ⟨pos + 4, rfl⟩

theorem Piece.Readable.unary (o : UnaryOp) (h : p.Readable b) :
    (p.paren.within o.chars [] fun e => .unary o.name e).Readable (b + 1) := by
  obtain ⟨count, rfl⟩ := h.pos
  refine readable_of_unary fun T _ s m hs => ?_
  have htext : (p.paren.within o.chars [] fun e => Expr.unary o.name e).chars ++ T
      = o.chars ++ '(' :: (p.chars ++ ')' :: T) := by
    rw [← p.paren_append]
    simp [within]
  rw [htext] at hs
  obtain ⟨pos, hpos⟩ : ∃ pos, s.skipBlanks = ⟨o.chars ++ '(' :: (p.chars ++ ')' :: T), pos, m⟩ := by
    cases o <;> exact hs.solid rfl
  obtain ⟨pos', happlied⟩ := unaryLevel_unaryOp o hpos
  obtain ⟨t, ht, hat⟩ := h.paren T (count + 1 + 1) count ⟨'(' :: (p.chars ++ ')' :: T), pos', m⟩ m
    (p.paren_append T ▸ .refl _ _ _)
  refine ⟨t, ?_, hat⟩
  rw [happlied, ht]
  rfl

end

/-! ## Lengths -/

namespace Piece

variable {α β γ : Type} (p : Piece α)

@[simp] theorem length_paren : p.paren.chars.length = p.chars.length + 2 := by
  simp [paren]

@[simp] theorem length_within (before behind : List Char) (f : α → β) :
    (p.within before behind f).chars.length = before.length + p.chars.length + behind.length := by
  simp [within, Nat.add_assoc]

@[simp] theorem length_pair (between : List Char) (f : α → β → γ) (q : Piece β) :
    (pair between f p q).chars.length = p.chars.length + between.length + q.chars.length := by
  simp [pair, Nat.add_assoc]

variable {p} {ps : List (Piece α)}

/-- An item is not longer than its row. -/
theorem length_le_row (hp : p ∈ ps) : p.chars.length ≤ (row ps).chars.length := by
  induction ps with
  | nil => cases hp
  | cons q rest ih =>
    cases rest with
    | nil =>
      obtain rfl := List.mem_singleton.mp hp
      simp [row]
    | cons r rest =>
      have hrow : (row (q :: r :: rest)).chars.length
          = q.chars.length + 2 + (row (r :: rest)).chars.length := by
        simp [row]
      rcases List.mem_cons.mp hp with rfl | hp
      · omega
      · have := ih hp
        omega

/-- A row has a comma between any two items. -/
theorem length_le_length_row (ps : List (Piece α)) : ps.length ≤ (row ps).chars.length + 1 := by
  induction ps with
  | nil => exact Nat.zero_le _
  | cons q rest ih =>
    cases rest with
    | nil => exact Nat.le_add_left 1 _
    | cons r rest =>
      have hrow : (row (q :: r :: rest)).chars.length
          = q.chars.length + 2 + (row (r :: rest)).chars.length := by
        simp [row]
      rw [List.length_cons]
      omega

end Piece

/-! ## Rows -/

section
variable {α : Type} {item : Source → Except SyntaxError (α × Source)}

/-- A piece is read as an item of a row, with a comma or the closing bracket behind it. -/
def Piece.ReadBefore (item : Source → Except SyntaxError (α × Source)) (close : Char)
    (p : Piece α) : Prop :=
  ∀ c ∈ [',', close], ∀ T, Reads item p.chars p.marks p.value (c :: T)

theorem Piece.Readable.readBefore {b : Nat} {p : Piece Expr} (h : p.Readable b)
    (close : Char) (hclose : close ∈ [')', ']', '\x7d']) :
    p.ReadBefore (exprWithin .document b) close := by
  intro c hc T
  refine h (c :: T) (.bracket ?_ T)
  simp only [List.mem_cons, List.not_mem_nil, or_false] at hc hclose
  rcases hc with rfl | rfl
  · decide
  · rcases hclose with rfl | rfl | rfl <;> decide

/-- A closing bracket is neither a blank nor a comma. -/
theorem closing_spec {close : Char} (hclose : close ∈ [')', ']', '\x7d']) :
    Text.isBlank close = false ∧ ',' ≠ close := by
  simp only [List.mem_cons, List.not_mem_nil, or_false] at hclose
  rcases hclose with rfl | rfl | rfl <;> decide

/-- A row is read up to its bracket if there is something in it and each of its items is read. -/
theorem separated_reads (close : Char) (hclose : close ∈ [')', ']', '\x7d']) (what : String)
    (ps : List (Piece α)) (hps : ps ≠ []) (h : ∀ p ∈ ps, p.ReadBefore item close) {bound : Nat}
    (hbound : ps.length ≤ bound) (T : List Char) :
    Reads (separated item close what bound) ((Piece.row ps).chars ++ [close]) (Piece.row ps).marks
      (Piece.row ps).value T := by
  obtain ⟨hblank, hcomma⟩ := closing_spec hclose
  induction ps generalizing bound with
  | nil => exact absurd rfl hps
  | cons p rest ih =>
    intro s m hs
    obtain ⟨bound, rfl⟩ := Nat.exists_eq_succ_of_ne_zero (Nat.ne_of_gt
      (Nat.lt_of_lt_of_le (Nat.succ_pos rest.length) hbound))
    have hitem := h p List.mem_cons_self
    unfold separated
    cases rest with
    | nil =>
      have htext : (Piece.row [p]).chars ++ [close] ++ T = p.chars ++ close :: T := by
        simp [Piece.row, Piece.within]
      obtain ⟨t, ht, hat⟩ := hitem close (by simp) T s m (htext ▸ hs)
      obtain ⟨pos, hpos⟩ := hat.solid hblank
      refine ⟨_, ?_, .refl T (pos + byteLength [close]) _⟩
      rw [ht, ok_bind]
      dsimp only
      rw [hpos, eat_self]
      rfl
    | cons q rest =>
      have htext : (Piece.row (p :: q :: rest)).chars ++ [close] ++ T
          = p.chars ++ ',' :: ' ' :: ((Piece.row (q :: rest)).chars ++ [close] ++ T) := by
        simp [Piece.row, Piece.pair]
      obtain ⟨t, ht, hat⟩ := hitem ',' (by simp) _ s m (htext ▸ hs)
      obtain ⟨pos, hpos⟩ := hat.solid rfl
      obtain ⟨u, hu, hatu⟩ := ih (List.cons_ne_nil q rest)
        (fun r hr => h r (List.mem_cons_of_mem p hr)) (Nat.le_of_succ_le_succ hbound)
        ⟨' ' :: ((Piece.row (q :: rest)).chars ++ [close] ++ T), pos + byteLength [','], m + p.marks⟩
        (m + p.marks) (.blank _ _ _)
      refine ⟨u, ?_, Nat.add_assoc m p.marks (Piece.row (q :: rest)).marks ▸ hatu⟩
      rw [ht, ok_bind]
      dsimp only
      rw [hpos, eat_of_ne hcomma, eat_self]
      dsimp only
      rw [hu]
      rfl

end

end DocWire
