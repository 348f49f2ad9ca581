import DocWire.Proofs.Expr.Readable.Predicates
import DocWire.Proofs.Expr.Readable.Types

/-!
# Phrases and their trees

The text of a phrase is compiled to the tree that it stands for.  By induction on the phrase, its
piece is readable within a bound on the length of its text; each form of a phrase comes with a rule
that takes what its parts are read as to what it is read as itself.

* `itemsUntil`      items in brackets, or none;
* `FunctionName.readable`, `object_readable`, `array_readable`   the forms with brackets;
* `Phrase.readable`        the induction;
* `compileExpr_phrase`     the text of a phrase is compiled to its tree.
-/

namespace DocWire

/-! ## Brackets -/

/-- Items with commas between them, or none at all, up to the bracket `close`. -/
def itemsUntil {α : Type} (item : Source → Except SyntaxError (α × Source)) (close : Char)
    (what : String) (bound : Nat) (s : Source) : Except SyntaxError (List α × Source) :=
  match s.skipBlanks.eat close with
  | some t => .ok ([], t)
  | none => separated item close what bound s.skipBlanks

section
variable {mode : Mode} {expr : Source → Except SyntaxError (Expr × Source)} {bound : Nat}

theorem callOf_eq (schema : Option String) (name : String) (s : Source) :
    callOf expr bound schema name s = (do
      let t ← s.expect '(' "'('"
      let (args, u) ← itemsUntil (argument expr) ')' "',' or ')' in argument list" bound t
      .ok (.call schema name args, u)) := by
  unfold callOf itemsUntil
  cases s.expect '(' "'('" with
  | error e => rfl
  | ok t =>
    show (match t.skipBlanks.eat ')' with
      | some u => _
      | none => _) = (match t.skipBlanks.eat ')' with
        | some u => _
        | none => _) >>= _
    cases t.skipBlanks.eat ')' <;> rfl

theorem objectBody_eq (s : Source) :
    objectBody mode expr bound s = (itemsUntil (objectField mode expr) '\x7d' "',' or '\x7d'" bound
      s).map fun (fields, t) => (.object fields, t) := by
  unfold objectBody itemsUntil
  dsimp only
  cases s.skipBlanks.eat '\x7d' <;> rfl

theorem arrayBody_eq (s : Source) :
    arrayBody expr bound s
      = (itemsUntil expr ']' "',' or ']'" bound s).map fun (items, t) => (.array items, t) := by
  unfold arrayBody itemsUntil
  dsimp only
  cases s.skipBlanks.eat ']' <;> rfl

end

/-- A text that a reader reads does not begin with a character that the reader fails at. -/
theorem Reads.eat_eq_none {α : Type} {r : Source → Except SyntaxError (α × Source)} {cs T : List Char}
    {n : Nat} {x : Nat → α} (h : Reads r cs n x T) {c : Char}
    (hfail : ∀ U pos m, ∃ e, r ⟨c :: U, pos, m⟩ = .error e) {s : Source} {m : Nat}
    (hs : s.At (cs ++ T) m) : s.skipBlanks.eat c = none := by
  refine if_neg fun hpeek => ?_
  obtain ⟨t, ht, -⟩ := h s.skipBlanks m hs.skipBlanks
  generalize s.skipBlanks = u at hpeek ht
  obtain ⟨rest, pos, marks⟩ := u
  cases rest with
  | nil => cases hpeek
  | cons d U =>
    obtain rfl : d = c := Option.some.inj hpeek
    obtain ⟨e, he⟩ := hfail U pos marks
    rw [ht] at he
    cases he

/-- No expression begins with a closing bracket or a star. -/
theorem exprWithin_fails {c : Char} (hc : c ∈ [')', ']', '\x7d', '*']) (b : Nat) (U : List Char)
    (pos m : Nat) : ∃ e, exprWithin .document b ⟨c :: U, pos, m⟩ = .error e := by
  simp only [List.mem_cons, List.not_mem_nil, or_false] at hc
  refine ⟨⟨pos, .expected "expression", some c⟩, ?_⟩
  cases b <;> rcases hc with rfl | rfl | rfl | rfl <;> rfl

section
variable {α : Type} (item : Source → Except SyntaxError (α × Source)) (close : Char)

/-- Behind the first item of a row stands a comma or the closing bracket. -/
theorem row_cons_append (p : Piece α) (rest : List (Piece α)) (T : List Char) :
    ∃ c ∈ [',', close], ∃ U, (Piece.row (p :: rest)).chars ++ [close] ++ T = p.chars ++ c :: U := by
  cases rest with
  | nil => exact ⟨close, by simp, T, by simp [Piece.row, Piece.within]⟩
  | cons q rest =>
    exact ⟨',', by simp, ' ' :: ((Piece.row (q :: rest)).chars ++ [close] ++ T), by
      simp [Piece.row, Piece.pair]⟩

theorem itemsUntil_reads (hclose : close ∈ [')', ']', '\x7d']) (what : String)
    (hfail : ∀ U pos m, ∃ e, item ⟨close :: U, pos, m⟩ = .error e) {ps : List (Piece α)}
    (h : ∀ p ∈ ps, p.ReadBefore item close) {bound : Nat} (hbound : ps.length ≤ bound)
    (T : List Char) :
    Reads (itemsUntil item close what bound) ((Piece.row ps).chars ++ [close]) (Piece.row ps).marks
      (Piece.row ps).value T := by
  intro s m hs
  unfold itemsUntil
  cases ps with
  | nil =>
    obtain ⟨pos, hpos⟩ : ∃ pos, s.skipBlanks = ⟨close :: T, pos, m⟩ :=
      hs.solid (closing_spec hclose).1
    refine ⟨_, ?_, .refl T (pos + byteLength [close]) m⟩
    rw [hpos, eat_self]
    rfl
  | cons p rest =>
    obtain ⟨c, hc, U, htext⟩ := row_cons_append close p rest T
    rw [(h p List.mem_cons_self c hc U).eat_eq_none hfail (htext ▸ hs)]
    exact separated_reads close hclose what (p :: rest) (List.cons_ne_nil p rest) h hbound T _ m hs.skipBlanks

end

/-! ## Arrays and objects -/

section
variable {b : Nat}

theorem array_readable {ps : List (Piece Expr)} (h : ∀ p ∈ ps, p.Readable b)
    (hlength : ps.length ≤ b + 1) :
    ((Piece.row ps).within ['['] [']'] .array).Readable (b + 1) := by
  refine Piece.readable_of_unary fun T _ => ?_
  refine unaryLevel_reads (c := '[') rfl (by decide)
    (fun pos m => atKeyword_of_not_isWordStart rfl _ _ _ _) fun pos m => ?_
  obtain ⟨t, ht, hat⟩ := itemsUntil_reads _ ']' (by decide) "',' or ']'"
    (exprWithin_fails (by decide) b) (fun p hp => (h p hp).readBefore ']' (by decide)) hlength T
    ⟨(Piece.row ps).chars ++ [']'] ++ T, pos + 1, m⟩ m (.refl _ _ _)
  refine ⟨t, ?_, hat⟩
  show arrayBody (exprWithin .document b) (b + 1) ⟨(Piece.row ps).chars ++ [']'] ++ T, pos + 1, m⟩ = _
  rw [arrayBody_eq, ht]
  rfl

/-- A field of an object is read if its value is. -/
theorem Piece.Readable.readBefore_objectField {p : Piece Expr} (h : p.Readable b) (key : PlainText) :
    (p.within (key.quoted ++ [':', ' ']) [] fun e => (String.ofList key.chars, e)).ReadBefore
      (objectField .document (exprWithin .document b)) '\x7d' := by
  intro c hc T s m hs
  have htext : (p.within (key.quoted ++ [':', ' ']) [] fun e => (String.ofList key.chars, e)).chars ++
      c :: T = key.quoted ++ ':' :: ' ' :: (p.chars ++ c :: T) := by
    simp [within]
  rw [htext] at hs
  obtain ⟨pos, hpos⟩ : ∃ pos, s.skipBlanks
      = ⟨key.quoted ++ ':' :: ' ' :: (p.chars ++ c :: T), pos, m⟩ := hs.solid rfl
  have hkey := key.quoted_append (T := ':' :: ' ' :: (p.chars ++ c :: T)) (by
    exact fun h => absurd (Option.some.inj h) (by decide)) pos m
  obtain ⟨t, ht, hat⟩ := h.readBefore '\x7d' (by decide) c hc T
    ⟨' ' :: (p.chars ++ c :: T), pos + byteLength key.quoted + 1, m⟩ m
    (.blank _ _ _)
  refine ⟨t, ?_, hat⟩
  unfold objectField
  dsimp only
  rw [hpos, if_pos (.inl rfl), hkey]
  show (exprWithin .document b ⟨' ' :: (p.chars ++ c :: T), pos + byteLength key.quoted + 1, m⟩
    >>= _) = _
  rw [ht]
  rfl

theorem object_readable {ps : List (Piece (String × Expr))}
    (h : ∀ p ∈ ps, p.ReadBefore (objectField .document (exprWithin .document b)) '\x7d')
    (hlength : ps.length ≤ b + 1) :
    ((Piece.row ps).within ['\x7b'] ['\x7d'] .object).Readable (b + 1) := by
  refine Piece.readable_of_unary fun T _ => ?_
  refine unaryLevel_reads (c := '\x7b') rfl (by decide)
    (fun pos m => atKeyword_of_not_isWordStart rfl _ _ _ _) fun pos m => ?_
  obtain ⟨t, ht, hat⟩ := itemsUntil_reads _ '\x7d' (by decide) "',' or '\x7d'"
    (fun U pos m => ⟨_, rfl⟩) h hlength T
    ⟨(Piece.row ps).chars ++ ['\x7d'] ++ T, pos + 1, m⟩ m (.refl _ _ _)
  refine ⟨t, ?_, hat⟩
  show objectBody .document (exprWithin .document b) (b + 1)
    ⟨(Piece.row ps).chars ++ ['\x7d'] ++ T, pos + 1, m⟩ = _
  rw [objectBody_eq, ht]
  rfl

/-! ## Calls -/

/-- An expression is an argument. -/
theorem Piece.Readable.readBefore_argument {p : Piece Expr} (h : p.Readable b) :
    p.ReadBefore (argument (exprWithin .document b)) ')' := by
  intro c hc T s m hs
  have hreads := h.readBefore ')' (by decide) c hc T
  obtain ⟨t, ht, hat⟩ := hreads s.skipBlanks m hs.skipBlanks
  refine ⟨t, ?_, hat⟩
  unfold argument
  dsimp only
  rw [hreads.eat_eq_none (exprWithin_fails (by decide) b) hs]
  exact ht

/-- A star of its own is an argument. -/
theorem star_readBefore (expr : Source → Except SyntaxError (Expr × Source)) :
    (Piece.plain ['*'] (.op "*" [])).ReadBefore (argument expr) ')' := by
  intro c hc T s m hs
  obtain ⟨pos, hpos⟩ : ∃ pos, s.skipBlanks = ⟨'*' :: c :: T, pos, m⟩ := hs.solid rfl
  refine ⟨⟨c :: T, pos + 1, m⟩, ?_, .refl _ _ _⟩
  unfold argument
  dsimp only
  rw [hpos]
  simp only [List.mem_cons, List.not_mem_nil, or_false] at hc
  rcases hc with rfl | rfl <;> rfl

theorem callOf_reads {ps : List (Piece Expr)}
    (h : ∀ p ∈ ps, p.ReadBefore (argument (exprWithin .document b)) ')') (hlength : ps.length ≤ b + 1)
    (schema : Option String) (name : String) (T : List Char) (pos m : Nat) :
    ∃ t, callOf (exprWithin .document b) (b + 1) schema name
        ⟨'(' :: ((Piece.row ps).chars ++ [')'] ++ T), pos, m⟩
        = .ok (.call schema name ((Piece.row ps).value m), t) ∧
      t.At T (m + (Piece.row ps).marks) := by
  obtain ⟨t, ht, hat⟩ := itemsUntil_reads (argument (exprWithin .document b)) ')' (by decide)
    "',' or ')' in argument list" (exprWithin_fails (by decide) b) h hlength T
    ⟨(Piece.row ps).chars ++ [')'] ++ T, pos + 1, m⟩ m (.refl _ _ _)
  refine ⟨t, ?_, hat⟩
  rw [callOf_eq]
  show (itemsUntil _ _ _ _ ⟨(Piece.row ps).chars ++ [')'] ++ T, pos + 1, m⟩ >>= _) = _
  rw [ht]
  rfl

/-- A name with a point, a name and a parenthesis behind it begins a call. -/
theorem identifierTail_point (mode : Mode) (expr : Source → Except SyntaxError (Expr × Source))
    (bound : Nat) (first : String) (name : Name) (U : List Char) (pos m : Nat) :
    ∃ pos', identifierTail mode expr bound first ⟨'.' :: (name.chars ++ '(' :: U), pos, m⟩
      = callOf expr bound (some first) name.text ⟨'(' :: U, pos', m⟩ := by
  obtain ⟨pos', hident⟩ := name.bareIdentifier_append (T := '(' :: U) (endsWord_cons rfl U)
    (pos + byteLength ['.']) m
  refine ⟨pos', ?_⟩
  have hquote : (⟨name.chars ++ '(' :: U, pos + byteLength ['.'], m⟩ : Source).peek ≠ some '`' := by
    intro h
    have hstart := name.starts
    rw [show name.first = '`' from Option.some.inj h] at hstart
    cases hstart
  have hname : identifier ⟨name.chars ++ '(' :: U, pos + byteLength ['.'], m⟩
      = .ok (name.text, ⟨'(' :: U, pos', m⟩) := (if_neg hquote).trans hident
  have hnoCall : (⟨'.' :: (name.chars ++ '(' :: U), pos, m⟩ : Source).skipBlanks.peek ≠ some '(' :=
    fun h => absurd (Option.some.inj h) (by decide)
  unfold identifierTail
  dsimp only
  rw [if_neg hnoCall, eat_self]
  dsimp only
  rw [hname]
  rfl

theorem FunctionName.readable {ps : List (Piece Expr)} (name : FunctionName)
    (h : ∀ p ∈ ps, p.ReadBefore (argument (exprWithin .document b)) ')')
    (hlength : ps.length ≤ b + 1) :
    ((Piece.row ps).within (name.chars ++ ['(']) [')'] name.call).Readable (b + 1) := by
  refine Piece.readable_of_unary fun T _ => ?_
  cases name with
  | unqualified name notCast =>
    have htext : name.chars ++ ['('] ++ (Piece.row ps).chars ++ [')']
        = name.chars ++ '(' :: ((Piece.row ps).chars ++ [')']) := by
      simp
    have hparen : EndsWord ('(' :: ((Piece.row ps).chars ++ [')']) ++ T) := endsWord_cons rfl _
    show Reads _ (name.chars ++ ['('] ++ (Piece.row ps).chars ++ [')']) _ _ T
    rw [htext]
    refine name.unaryLevel_reads hparen (name.sameWord_eq_false (by decide)) fun pos m => ?_
    obtain ⟨pos', hname⟩ := operand_name .document (exprWithin .document b) (b + 1) name hparen pos m
      (by rw [name.atKeyword_append hparen, show "cast".toList = ['c', 'a', 's', 't'] from rfl, notCast]
          rfl)
    obtain ⟨t, ht, hat⟩ := callOf_reads h hlength none name.text T pos' m
    exact ⟨t, hname.trans ht, hat⟩
  | qualified schema name =>
    have htext : schema.chars ++ '.' :: name.chars ++ ['('] ++ (Piece.row ps).chars ++ [')']
        = schema.chars ++ '.' :: (name.chars ++ '(' :: ((Piece.row ps).chars ++ [')'])) := by
      simp
    have hpoint : EndsWord ('.' :: (name.chars ++ '(' :: ((Piece.row ps).chars ++ [')'])) ++ T) :=
      endsWord_cons rfl _
    show Reads _ (schema.chars ++ '.' :: name.chars ++ ['('] ++ (Piece.row ps).chars ++ [')']) _ _ T
    rw [htext]
    refine schema.unaryLevel_reads hpoint (schema.sameWord_eq_false (by decide)) fun pos m => ?_
    obtain ⟨pos', hname⟩ := operand_name .document (exprWithin .document b) (b + 1) schema hpoint pos m
      (by rw [schema.wordStandsBefore_append hpoint, Bool.and_eq_false_iff]; exact .inr rfl)
    obtain ⟨pos'', htail⟩ := identifierTail_point .document (exprWithin .document b)
      (b + 1) schema.text name ((Piece.row ps).chars ++ [')'] ++ T) pos' m
    obtain ⟨t, ht, hat⟩ := callOf_reads h hlength (some schema.text) name.text T pos'' m
    refine ⟨t, hname.trans ?_, hat⟩
    rw [show '.' :: (name.chars ++ '(' :: ((Piece.row ps).chars ++ [')'])) ++ T
      = '.' :: (name.chars ++ '(' :: ((Piece.row ps).chars ++ [')'] ++ T)) by simp]
    exact htail.trans ht

end

/-! ## The induction -/

namespace Phrase

theorem length_pos (p : Phrase) : 0 < p.piece.chars.length := by
  cases p with
  | keyword k => cases k <;> decide
  | integer n => exact List.length_pos_iff.mpr Nat.toDigits_ne_nil
  | negative n | string t | field path | named name | mark => exact Nat.succ_pos _
  | call name args | object fields | array items =>
    simp only [piece, Piece.length_within, List.length_append, List.length_cons]
    omega
  | unary o arg | isKeyword negated subject k | cast value type =>
    simp only [piece, Piece.length_within, Piece.length_paren]
    omega
  | binary o left right | predicate negated word left right | isIn negated subject first more
  | likeEscape negated subject pattern escape | between negated subject low high =>
    simp only [piece, Piece.operator, Piece.length_pair, Piece.length_paren]
    omega
  | interval subtracted date amount unit =>
    simp only [piece, Piece.length_within, Piece.length_pair, Piece.length_paren]
    omega

mutual

/-- The piece of a phrase is read within a bound on its length. -/
theorem readable (p : Phrase) {b : Nat} (hb : p.piece.chars.length ≤ b) : p.piece.Readable b := by
  obtain ⟨b, rfl⟩ := Nat.exists_eq_succ_of_ne_zero
    (Nat.ne_of_gt (Nat.lt_of_lt_of_le p.length_pos hb))
  match p with
  | keyword k => exact k.readable
  | integer n => exact n.readable
  | negative n _ => exact n.readable_negative
  | string t => exact t.readable
  | field path => exact path.readable (Nat.le_trans path.length_steps hb)
  | named name => exact name.readable
  | mark => exact mark_readable
  | call name args =>
    simp only [piece, Piece.length_within, List.length_append, List.length_cons, List.length_nil]
      at hb
    have hlength := Piece.length_le_length_row (argumentPieces args)
    exact name.readable (argumentPieces_readBefore args fun q hq => by
      have := Piece.length_le_row hq
      omega) (by omega)
  | unary o arg =>
    simp only [piece, Piece.length_within, Piece.length_paren] at hb
    exact (readable arg (by omega)).unary o
  | binary o left right =>
    simp only [piece, Piece.operator, Piece.length_pair, Piece.length_paren] at hb
    exact (readable left (by omega)).binary o (readable right (by omega))
  | isKeyword negated subject k =>
    simp only [piece, Piece.length_within, Piece.length_paren] at hb
    exact (readable subject (by omega)).isKeyword negated k
  | isIn negated subject first more =>
    simp only [piece, Piece.length_pair, Piece.length_paren] at hb
    obtain ⟨b, rfl⟩ : ∃ c, b = c + 1 := ⟨b - 1, by omega⟩
    have hlength := Piece.length_le_length_row ((first.piece :: pieces more).map Piece.paren)
    have hparen (q : Piece Expr) (hq : q ∈ first.piece :: pieces more) : q.chars.length ≤ b := by
      have := Piece.length_le_row (List.mem_map_of_mem (f := Piece.paren) hq)
      rw [Piece.length_paren] at this
      omega
    refine (readable subject (by omega)).isIn negated (List.cons_ne_nil _ _) (fun q hq => ?_)
      (by omega)
    obtain ⟨r, hr, rfl⟩ := List.mem_map.mp hq
    rcases List.mem_cons.mp hr with rfl | hmore
    · exact (readable first (hparen _ hr)).paren_readable
    · exact (pieces_readable more (fun q hq => hparen q (List.mem_cons_of_mem _ hq)) r
        hmore).paren_readable
  | predicate negated word left right =>
    simp only [piece, Piece.operator, Piece.length_pair, Piece.length_paren] at hb
    exact (readable left (by omega)).predicate negated word (readable right (by omega))
  | likeEscape negated subject pattern escape =>
    simp only [piece, Piece.length_pair, Piece.length_paren] at hb
    exact (readable subject (by omega)).likeEscape negated (readable pattern (by omega))
      (readable escape (by omega))
  | between negated subject low high =>
    simp only [piece, Piece.length_pair, Piece.length_paren] at hb
    exact (readable subject (by omega)).between negated (readable low (by omega))
      (readable high (by omega))
  | cast value type =>
    simp only [piece, Piece.length_within, Piece.length_paren] at hb
    obtain ⟨b, rfl⟩ : ∃ c, b = c + 1 := ⟨b - 1, by omega⟩
    have hword : "CAST(".toList.length = 5 := rfl
    exact (readable value (by omega)).cast type
  | interval subtracted date amount unit =>
    simp only [piece, Piece.length_within, Piece.length_pair, Piece.length_paren] at hb
    exact (readable date (by omega)).interval subtracted unit (readable amount (by omega))
  | object fields =>
    simp only [piece, Piece.length_within, List.length_cons, List.length_nil] at hb
    have hlength := Piece.length_le_length_row (fieldPieces fields)
    exact object_readable (fieldPieces_readBefore fields fun q hq => by
      have := Piece.length_le_row hq
      omega) (by omega)
  | array items =>
    simp only [piece, Piece.length_within, List.length_cons, List.length_nil] at hb
    have hlength := Piece.length_le_length_row (pieces items)
    exact array_readable (pieces_readable items fun q hq => by
      have := Piece.length_le_row hq
      omega) (by omega)

theorem pieces_readable (ps : List Phrase) {b : Nat} (hb : ∀ q ∈ pieces ps, q.chars.length ≤ b) :
    ∀ q ∈ pieces ps, q.Readable b := by
  match ps with
  | [] => exact fun q hq => nomatch hq
  | p :: rest =>
    intro q hq
    rcases List.mem_cons.mp hq with rfl | hq
    · exact readable p (hb _ List.mem_cons_self)
    · exact pieces_readable rest (fun q hq => hb q (List.mem_cons_of_mem _ hq)) q hq

theorem argumentPieces_readBefore (args : List (Option Phrase)) {b : Nat}
    (hb : ∀ q ∈ argumentPieces args, q.chars.length ≤ b) :
    ∀ q ∈ argumentPieces args, q.ReadBefore (argument (exprWithin .document b)) ')' := by
  match args with
  | [] => exact fun q hq => nomatch hq
  | none :: rest =>
    intro q hq
    rcases List.mem_cons.mp hq with rfl | hq
    · exact star_readBefore _
    · exact argumentPieces_readBefore rest (fun q hq => hb q (List.mem_cons_of_mem _ hq)) q hq
  | some p :: rest =>
    intro q hq
    rcases List.mem_cons.mp hq with rfl | hq
    · exact (readable p (hb _ List.mem_cons_self)).readBefore_argument
    · exact argumentPieces_readBefore rest (fun q hq => hb q (List.mem_cons_of_mem _ hq)) q hq

theorem fieldPieces_readBefore (fields : List (PlainText × Phrase)) {b : Nat}
    (hb : ∀ q ∈ fieldPieces fields, q.chars.length ≤ b) :
    ∀ q ∈ fieldPieces fields,
      q.ReadBefore (objectField .document (exprWithin .document b)) '\x7d' := by
  match fields with
  | [] => exact fun q hq => nomatch hq
  | (key, p) :: rest =>
    intro q hq
    rcases List.mem_cons.mp hq with rfl | hq
    · have hlength := hb _ List.mem_cons_self
      rw [Piece.length_within] at hlength
      exact (readable p (by omega)).readBefore_objectField key
    · exact fieldPieces_readBefore rest (fun q hq => hb q (List.mem_cons_of_mem _ hq)) q hq

end

end Phrase

/-- **The round trip.** The text of a phrase is compiled to the tree that it stands for. -/
theorem compileExpr_phrase (p : Phrase) : compileExpr p.text .document = .ok p.expr :=
  compileExpr_of_reads (p.readable (Nat.le_refl _) [] .done)

end DocWire
