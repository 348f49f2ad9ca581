import DocWire.Proofs.Expr.Prolonged.Expressions

/-!
# The productions that stand for expressions

Fields, columns, calls, literals, placeholders, objects and arrays have productions of their own.  A
text that is compiled from one of them is compiled to the same as an expression, since nothing else
can be made of it on any level: what the production reads, an operand reads.

* `Entry.IsExpression`    the productions that stand for expressions, and the texts that they do not;
* `fieldFrom_not_paren`, `columnFrom_not_paren`   a field or a column up to the end begins no call;
* `production_unary`      what these productions read, the unary level reads;
* `compile_expr_of_entry` such a text is an expression, and the same one.
-/

namespace DocWire

open Source (nextIn)

variable {s t u v w : Source}

/-! ## Blanks -/

theorem Source.skipBlanks_of_head (h : ∀ c ∈ s.rest.head?, Text.isBlank c = false) :
    s.skipBlanks = s := by
  have hnone : s.rest.takeWhile Text.isBlank = [] := by
    cases hrest : s.rest with
    | nil => rfl
    | cons c cs =>
      rw [hrest] at h
      exact List.takeWhile_cons_of_neg (by rw [h c rfl]; exact Bool.false_ne_true)
  unfold Source.skipBlanks Source.skipWhile
  rw [hnone]
  exact s.skip_zero

theorem Source.skipBlanks_skipBlanks (s : Source) : s.skipBlanks.skipBlanks = s.skipBlanks := by
  refine skipBlanks_of_head fun c hc => ?_
  have hsolid := List.head?_dropWhile_not Text.isBlank s.rest
  rw [← s.rest_skipBlanks, Option.mem_def.mp hc] at hsolid
  exact hsolid

/-- What is next up to blanks is next, or there is a blank. -/
theorem Source.head_of_peek {d : Char} (h : s.skipBlanks.peek = some d) :
    ∀ c ∈ s.rest.head?, Text.isBlank c = true ∨ c = d := by
  intro c hc
  by_cases hblank : Text.isBlank c = true
  · exact .inl hblank
  · have hsame : s.skipBlanks = s := skipBlanks_of_head fun e he => by
      rw [Option.mem_unique he hc]
      exact Bool.eq_false_iff.mpr hblank
    rw [hsame] at h
    exact .inr (Option.mem_unique hc h)

theorem callOf_skipBlanks (expr : Source → Except SyntaxError (Expr × Source)) (bound : Nat)
    (schema : Option String) (name : String) (s : Source) :
    callOf expr bound schema name s.skipBlanks = callOf expr bound schema name s := by
  unfold callOf Source.expect
  rw [s.skipBlanks_skipBlanks]

/-! ## Fields and columns up to the end -/

/-- Where a parenthesis follows, a path ends. -/
theorem segments_before_paren (h : u.skipBlanks.peek = some '(') (bound : Nat)
    (previous : Option PathItem) : segments bound previous u = endOfPath previous u := by
  refine segments_of_no_step (T := u.rest) (fun c hc hmem => ?_) bound previous u.pos u.marks
  obtain ⟨hblank, hother⟩ : Text.isBlank c = false ∧ c ≠ '(' := by
    simp only [List.mem_cons, List.not_mem_nil, or_false] at hmem
    rcases hmem with rfl | rfl | rfl <;> decide
  rcases Source.head_of_peek h c hc with hc | hc
  · rw [hblank] at hc
    cases hc
  · exact hother hc

theorem segments_not_paren {bound : Nat} {previous : Option PathItem} {path : List PathItem}
    (h : segments bound previous u = .ok (path, t)) (hend : t.skipBlanks.rest = []) :
    u.skipBlanks.peek ≠ some '(' := by
  intro hparen
  rw [segments_before_paren hparen] at h
  unfold endOfPath at h
  split at h
  · cases h
  · cases h
    rw [peek_of_rest_nil hend] at hparen
    cases hparen

/-- An identifier behind a point is a step of a path. -/
theorem memberStep_of_identifier {name : String} (h : identifier v = .ok (name, w)) :
    Yields (memberStep v) fun _ x => x = w := by
  obtain ⟨c, cs, pos, m, rfl, rfl | ⟨hstart, hbare⟩⟩ := exists_of_identifier h
  · have hquoted : quoted ⟨'`' :: cs, pos, m⟩ = .ok (name, w) := h
    show Yields (quoted ⟨'`' :: cs, pos, m⟩ >>= _) _
    rw [hquoted, ok_bind]
    dsimp only
    split
    · exact .fail _ _
    · exact .ok rfl
  · obtain ⟨word, hword, -, -, rfl⟩ := exists_of_bareIdentifier hbare
    have hpeek : (⟨c :: cs, pos, m⟩ : Source).peek = some c := rfl
    unfold memberStep
    rw [hpeek, hword]
    split
    · exact .fail _ _
    · rename_i hstar
      rw [Option.some.inj hstar] at hstart
      cases hstart
    · rename_i d _ _ hd
      obtain rfl : c = d := Option.some.inj hd
      have hquote : isQuote c = false := by
        refine Bool.eq_false_iff.mpr fun hquote => ?_
        unfold isQuote at hquote
        simp only [Bool.or_eq_true, beq_iff_eq] at hquote
        rcases hquote with (rfl | rfl) | rfl <;> cases hstart
      rw [hquote]
      exact .ok rfl
    · exact .fail _ _

/-- Where a point and an identifier follow that begin a call, no path goes on to the end. -/
theorem segments_member_not_paren {bound : Nat} {previous : Option PathItem} {path : List PathItem}
    {name : String} (h : segments bound previous u = .ok (path, t)) (hend : t.skipBlanks.rest = [])
    (hpoint : u.eat '.' = some v) (hname : identifier v = .ok (name, w)) :
    w.skipBlanks.peek ≠ some '(' := by
  have hdangling : u.Dangling := Source.peek_of_eat hpoint
  cases bound with
  | zero =>
    have ht : u = t := by
      unfold segments endOfPath at h
      split at h
      · cases h
      · cases h
        rfl
    obtain ⟨rest, hrest⟩ := hdangling.exists_rest
    rw [← ht, hdangling.skipBlanks_eq, hrest] at hend
    cases hend
  | succ bound =>
    obtain rfl : u.skip 1 = v := by
      unfold Source.eat at hpoint
      rw [Option.ite_none_right_eq_some] at hpoint
      exact Option.some.inj hpoint.2
    unfold segments at h
    dsimp only at h
    rw [hdangling.eatText (show "**".toList = ['*', '*'] from rfl) (by decide)] at h
    dsimp only at h
    rw [show u.peek = some '.' from hdangling] at h
    cases hstep : memberStep (u.skip 1) with
    | error e =>
      rw [hstep] at h
      cases h
    | ok x =>
      obtain ⟨item, x⟩ := x
      obtain rfl : x = w := memberStep_of_identifier hname item x hstep
      rw [hstep, ok_bind] at h
      dsimp only at h
      cases hrest : segments bound (some item) x with
      | error e =>
        rw [hrest] at h
        cases h
      | ok y =>
        obtain ⟨items, y⟩ := y
        rw [hrest] at h
        cases h
        exact segments_not_paren hrest hend

/-- Where a parenthesis follows, the parts of a name end. -/
theorem dottedParts_before_paren (h : u.skipBlanks.peek = some '(') (count : Nat) :
    dottedParts count u = ([], u) := by
  cases count with
  | zero => rfl
  | succ count =>
    have hpoint : u.eat '.' = none := by
      refine if_neg fun hpeek => ?_
      rcases Source.head_of_peek h '.' hpeek with hblank | hother
      · cases hblank
      · cases hother
    unfold dottedParts
    rw [hpoint]

theorem columnFrom_not_paren {first : String} {e : Expr} (h : columnFrom first u = .ok (e, t))
    (hend : t.skipBlanks.rest = []) : (dottedParts 2 u).2.skipBlanks.peek ≠ some '(' := by
  intro hparen
  obtain ⟨rest, hrest⟩ := Source.exists_of_peek hparen
  have htext {text : String} {d : Char} {ds : List Char} (hds : text.toList = d :: ds)
      (hd : '(' ≠ d) : (dottedParts 2 u).2.skipBlanks.eatText text = none := by
    rw [hrest]
    exact eatText_of_ne hd hds _ _ _
  unfold columnFrom at h
  dsimp only at h
  rw [htext (show "->>".toList = ['-', '>', '>'] from rfl) (by decide),
    htext (show "->".toList = ['-', '>'] from rfl) (by decide)] at h
  cases h
  rw [peek_of_rest_nil hend] at hparen
  cases hparen

section
variable {mode : Mode} {expr : Source → Except SyntaxError (Expr × Source)} {bound : Nat}
  {first : String}

variable (mode) in
/-- A field or a column that goes on to the end is not taken for a call. -/
theorem identifierTail_of_plain {e : Expr}
    (h : (match mode with
      | .table => columnFrom first u
      | .document => fieldFrom bound (some (.member first)) u) = .ok (e, t))
    (hend : t.skipBlanks.rest = []) :
    u.skipBlanks.peek ≠ some '(' ∧ identifierTail mode expr bound first u = .ok (e, t) := by
  obtain ⟨hparen, hmember⟩ : u.skipBlanks.peek ≠ some '(' ∧ ∀ v name w, u.eat '.' = some v →
      identifier v = .ok (name, w) → w.skipBlanks.peek ≠ some '(' := by
    cases mode with
    | document =>
      dsimp only at h
      unfold fieldFrom at h
      cases hpath : segments bound (some (.member first)) u with
      | error e =>
        rw [hpath] at h
        cases h
      | ok x =>
        rw [hpath] at h
        cases h
        exact ⟨segments_not_paren hpath hend, fun v name w => segments_member_not_paren hpath hend⟩
    | table =>
      have hparts := columnFrom_not_paren h hend
      refine ⟨fun hparen => hparts ?_, fun v name w hpoint hname hparen => hparts ?_⟩
      · rw [dottedParts_before_paren hparen]
        exact hparen
      · unfold dottedParts
        rw [hpoint]
        dsimp only
        rw [hname]
        dsimp only
        rw [dottedParts_before_paren hparen]
        exact hparen
  refine ⟨hparen, ?_⟩
  unfold identifierTail
  dsimp only
  rw [if_neg hparen]
  cases hpoint : u.eat '.' with
  | none => exact h
  | some v =>
    dsimp only
    cases hname : identifier v with
    | error e => exact h
    | ok x =>
      obtain ⟨name, w⟩ := x
      dsimp only
      rw [if_neg (hmember v name w hpoint hname)]
      exact h

/-! ## What operands are told by -/

theorem not_cast_of_not_paren (h : identifier s = .ok (first, u))
    (hparen : u.skipBlanks.peek ≠ some '(') :
    (s.atKeyword "cast" && s.wordStandsBefore '(') = false := by
  obtain ⟨c, cs, pos, m, rfl, rfl | ⟨-, hbare⟩⟩ := exists_of_identifier h
  · rw [atKeyword_of_not_isWordStart (by decide)]
    rfl
  · obtain ⟨word, hword, -, -, rfl⟩ := exists_of_bareIdentifier hbare
    unfold Source.wordStandsBefore
    rw [hword]
    dsimp only
    rw [beq_false_of_ne hparen, Bool.and_false]

theorem unaryLevel_of_identifier (h : identifier s.skipBlanks = .ok (first, u))
    (hcast : (s.skipBlanks.atKeyword "cast" && s.skipBlanks.wordStandsBefore '(') = false)
    (count : Nat) :
    unaryLevel mode expr bound (count + 1) s = identifierTail mode expr bound first u := by
  obtain ⟨c, cs, pos, m, hs, hc⟩ := exists_of_identifier h
  obtain ⟨hsign, hnot⟩ : c ∉ ['!', '~', '+', '-'] ∧ s.skipBlanks.atKeyword "not" = false := by
    rcases hc with rfl | ⟨hstart, hbare⟩
    · rw [hs]
      exact ⟨by decide, atKeyword_of_not_isWordStart (by decide) _ _ _ _⟩
    · refine ⟨fun hmem => ?_, not_atKeyword_of_bareIdentifier hbare (by decide)⟩
      have hsigns : ['!', '~', '+', '-'].any isWordStart = false := by decide
      exact List.any_eq_false.mp hsigns c hmem hstart
  rw [unaryLevel_eq_operand hs hsign hnot, operand_of_identifier mode expr bound h hcast]

/-- An operand that begins with a character that is told apart from words and signs. -/
theorem unaryLevel_of_peek {c : Char} (hc : c ∈ ['?', ':', '$', '\x7b', '[', '"', '\''])
    (hpeek : s.skipBlanks.peek = some c) (count : Nat) :
    unaryLevel mode expr bound (count + 1) s = operand mode expr bound s.skipBlanks := by
  obtain ⟨hsign, hstart⟩ : c ∉ ['!', '~', '+', '-'] ∧ isWordStart c = false := by
    simp only [List.mem_cons, List.not_mem_nil, or_false] at hc
    rcases hc with rfl | rfl | rfl | rfl | rfl | rfl | rfl <;> decide
  obtain ⟨rest, hs⟩ := Source.exists_of_peek hpeek
  refine unaryLevel_eq_operand hs hsign ?_ count
  rw [hs]
  exact atKeyword_of_not_isWordStart hstart _ _ _ _

/-! ## Literals -/

theorem exists_of_keywordLiteral {x : Scalar × Source} (h : keywordLiteral s = some x) :
    ∃ word ∈ ["null", "true", "false"], s.atKeyword word = true := by
  by_contra hnot
  rw [keywordLiteral_of_not fun word hword =>
    Bool.eq_false_iff.mpr fun hnext => hnot ⟨word, hword, hnext⟩] at h
  cases h

/-- A keyword that stands for a value is no operator. -/
theorem unaryLevel_keywordLiteral {value : Scalar}
    (h : keywordLiteral s.skipBlanks = some (value, t)) (count : Nat) :
    unaryLevel mode expr bound (count + 1) s = .ok (.literal value, t) := by
  obtain ⟨word, hmem, hword⟩ := exists_of_keywordLiteral h
  unfold Source.atKeyword at hword
  cases hnext : s.skipBlanks.word? with
  | none =>
    rw [hnext] at hword
    cases hword
  | some found =>
    rw [hnext] at hword
    have hstart := hnext
    unfold Source.word? at hstart
    split at hstart
    · rename_i c hc
      rw [Option.ite_none_right_eq_some] at hstart
      obtain ⟨rest, hs⟩ := Source.exists_of_peek hc
      have hsigns : ['!', '~', '+', '-'].any isWordStart = false := by decide
      have hsign : c ∉ ['!', '~', '+', '-'] :=
        fun hmem => List.any_eq_false.mp hsigns c hmem hstart.1
      have hnot : s.skipBlanks.atKeyword "not" = false := by
        have hall : ∀ word ∈ ["null", "true", "false"],
            sameWord word.toList "not".toList = false := by decide
        unfold Source.atKeyword
        rw [hnext]
        dsimp only at hword ⊢
        rw [sameWord_congr hword]
        exact hall word hmem
      rw [unaryLevel_eq_operand hs hsign hnot]
      unfold operand
      dsimp only
      rw [s.skipBlanks_skipBlanks, h]
    · cases hstart

theorem unaryLevel_numeral (hword : keywordLiteral s.skipBlanks = none)
    (h : s.skipBlanks.atNumeral = true) (count : Nat) :
    unaryLevel mode expr bound (count + 1) s
      = .ok (.literal (numeral false s.skipBlanks).1, (numeral false s.skipBlanks).2) := by
  obtain ⟨n, T, hn, hrest⟩ := atNumeral_iff.mp h
  obtain ⟨c, cs, htext, hc⟩ := hn.exists_first
  obtain ⟨-, hstart, hother⟩ := Numeral.not_of_first hc
  rw [htext, List.cons_append] at hrest
  have hs : s.skipBlanks = ⟨c :: (cs ++ T), s.skipBlanks.pos, s.skipBlanks.marks⟩ := by
    rw [← hrest]
  have hsign : c ∉ ['!', '~', '+', '-'] := fun hmem => hother (by
    have hall : ['!', '~', '+', '-'] ⊆ ['!', '~', '+', '-', '>', '"', '\''] := by decide
    exact hall hmem)
  have hnot : s.skipBlanks.atKeyword "not" = false := by
    rw [hs]
    exact atKeyword_of_not_isWordStart hstart _ _ _ _
  rw [unaryLevel_eq_operand hs hsign hnot]
  unfold operand
  dsimp only
  rw [s.skipBlanks_skipBlanks, hword]
  dsimp only
  rw [h]
  rfl

/-- A minus before a numeral is its sign. -/
theorem unaryLevel_negative (hminus : s.skipBlanks.peek = some '-')
    (h : (s.skipBlanks.skip 1).skipBlanks.atNumeral = true) (count : Nat) :
    unaryLevel mode expr bound (count + 1) s
      = .ok (.literal (numeral true (s.skipBlanks.skip 1).skipBlanks).1,
        (numeral true (s.skipBlanks.skip 1).skipBlanks).2) := by
  obtain ⟨rest, hs⟩ := Source.exists_of_peek hminus
  have hbang : s.skipBlanks.eatOp "!" ['='] = none := by
    rw [hs]
    rfl
  have htilde : s.skipBlanks.eat '~' = none := by
    rw [hs]
    rfl
  have hplus : s.skipBlanks.eat '+' = none := by
    rw [hs]
    rfl
  have hsign : s.skipBlanks.eatOp "-" ['>'] = some (s.skipBlanks.skip 1) := by
    rw [hs] at h ⊢
    cases rest with
    | nil => rfl
    | cons c cs =>
      have harrow : c ≠ '>' := by
        rintro rfl
        cases h
      have hnot : ¬ ['>'].contains c = true := fun hc =>
        harrow (List.mem_singleton.mp (List.contains_iff_mem.mp hc))
      show (if ['>'].contains c then none else some _) = _
      rw [if_neg hnot]
      rfl
  unfold unaryLevel
  dsimp only
  rw [hbang, htilde, hplus, hsign]
  dsimp only
  rw [h]
  rfl

/-- A quoted string is an operand. -/
theorem unaryLevel_quoted {c : Char} (hc : c = '"' ∨ c = '\'') (hpeek : s.skipBlanks.peek = some c)
    (count : Nat) : unaryLevel mode expr bound (count + 1) s
      = (quoted s.skipBlanks).map fun x => (.literal (.str x.1), x.2) := by
  obtain ⟨rest, hs⟩ := Source.exists_of_peek hpeek
  rcases hc with rfl | rfl <;>
  · rw [unaryLevel_of_peek (by decide) hpeek, hs]
    rfl

/-- A literal without a plus before it is read as an operand, or as one with its sign. -/
theorem unaryLevel_literal {value : Scalar} (h : literal s = .ok (value, t))
    (hplus : s.skipBlanks.peek ≠ some '+') (count : Nat) :
    unaryLevel mode expr bound (count + 1) s = .ok (.literal value, t) := by
  unfold literal at h
  dsimp only at h
  cases hword : keywordLiteral s.skipBlanks with
  | some x =>
    rw [hword] at h
    cases h
    exact unaryLevel_keywordLiteral hword count
  | none =>
    rw [hword] at h
    dsimp only at h
    have text {c : Char} (hc : c = '"' ∨ c = '\'') (hpeek : s.skipBlanks.peek = some c)
        (h : ((quoted s.skipBlanks).map fun x => (Scalar.str x.1, x.2)) = .ok (value, t)) :
        unaryLevel mode expr bound (count + 1) s = .ok (.literal value, t) := by
      rw [unaryLevel_quoted hc hpeek]
      cases hquoted : quoted s.skipBlanks with
      | error e =>
        rw [hquoted] at h
        cases h
      | ok x =>
        rw [hquoted] at h
        cases h
        rfl
    split at h
    · rename_i hpeek
      exact text (.inl rfl) hpeek h
    · rename_i hpeek
      exact text (.inr rfl) hpeek h
    · rename_i hminus
      split at h
      · rename_i hnumeral
        cases h
        exact unaryLevel_negative hminus hnumeral count
      · cases h
    · rename_i hpeek
      exact absurd hpeek hplus
    · split at h
      · rename_i hnumeral
        cases h
        exact unaryLevel_numeral hword hnumeral count
      · cases h

end

/-! ## Productions -/

/-- The productions that stand for expressions of a mode.  A call of what the bare word `cast` names
is a cast as an expression, and a plus before a number is an operator. -/
def Entry.IsExpression (mode : Mode) (s : Source) (compiled : Compiled) : Entry → Prop
  | .documentField => mode = .document
  | .columnIdent => mode = .table
  | .placeholder | .jsonDoc | .jsonArray => True
  | .functionCall => ¬ (s.skipBlanks.atKeyword "cast" = true ∧
      ∃ name args, compiled = .expr (.call none name args))
  | .literal => s.skipBlanks.peek ≠ some '+'
  | _ => False

section
variable {mode : Mode} {bound : Nat} {e : Expr}

theorem unaryLevel_placeholder (h : placeholder mode bound s = .ok (e, t)) (count : Nat) :
    unaryLevel mode (exprWithin mode bound) bound (count + 1) s = .ok (e, t) := by
  unfold placeholder at h
  dsimp only at h
  split at h
  · rename_i hpeek
    rcases hpeek with hpeek | hpeek <;>
    · rw [unaryLevel_of_peek (by decide) hpeek]
      exact h
  · cases h

theorem unaryLevel_documentField (h : documentField .document bound s = .ok (e, t))
    (hend : t.skipBlanks.rest = []) (count : Nat) :
    unaryLevel .document (exprWithin .document bound) bound (count + 1) s = .ok (e, t) := by
  unfold documentField at h
  dsimp only at h
  cases hroot : s.skipBlanks.eat '$' with
  | some u =>
    rw [hroot] at h
    have hpeek := Source.peek_of_eat hroot
    obtain ⟨rest, hs⟩ := Source.exists_of_peek hpeek
    rw [unaryLevel_of_peek (by decide) hpeek, hs]
    rw [hs] at hroot
    obtain rfl : (⟨'$' :: rest, s.skipBlanks.pos, s.skipBlanks.marks⟩ : Source).skip 1 = u :=
      Option.some.inj hroot
    exact h
  | none =>
    rw [hroot] at h
    dsimp only at h
    cases hbare : bareIdentifier s.skipBlanks with
    | error err =>
      rw [hbare] at h
      cases h
    | ok x =>
      obtain ⟨first, u⟩ := x
      rw [hbare, ok_bind] at h
      have hname := identifier_of_bareIdentifier hbare
      obtain ⟨hparen, htail⟩ := identifierTail_of_plain .document h hend
      rw [unaryLevel_of_identifier hname (not_cast_of_not_paren hname hparen)]
      exact htail

theorem unaryLevel_columnIdent (h : columnIdent s = .ok (e, t)) (hend : t.skipBlanks.rest = [])
    (count : Nat) :
    unaryLevel .table (exprWithin .table bound) bound (count + 1) s = .ok (e, t) := by
  unfold columnIdent at h
  cases hname : identifier s.skipBlanks with
  | error err =>
    rw [hname] at h
    cases h
  | ok x =>
    obtain ⟨first, u⟩ := x
    rw [hname, ok_bind] at h
    obtain ⟨hparen, htail⟩ := identifierTail_of_plain .table h hend
    rw [unaryLevel_of_identifier hname (not_cast_of_not_paren hname hparen)]
    exact htail

/-- A character that has to follow is next. -/
theorem Source.peek_of_expect {c : Char} {what : String} (h : s.expect c what = .ok u) :
    s.skipBlanks.peek = some c ∧ u = s.skipBlanks.skip 1 := by
  unfold Source.expect at h
  cases heat : s.skipBlanks.eat c with
  | none =>
    rw [heat] at h
    cases h
  | some v =>
    rw [heat] at h
    cases h
    unfold Source.eat at heat
    rw [Option.ite_none_right_eq_some] at heat
    exact ⟨heat.1, (Option.some.inj heat.2).symm⟩

theorem unaryLevel_jsonDoc (h : jsonDoc mode bound s = .ok (e, t)) (count : Nat) :
    unaryLevel mode (exprWithin mode bound) bound (count + 1) s = .ok (e, t) := by
  unfold jsonDoc at h
  cases hopen : s.expect '\x7b' "'\x7b'" with
  | error err =>
    rw [hopen] at h
    cases h
  | ok u =>
    rw [hopen, ok_bind] at h
    obtain ⟨hpeek, rfl⟩ := Source.peek_of_expect hopen
    obtain ⟨rest, hs⟩ := Source.exists_of_peek hpeek
    rw [unaryLevel_of_peek (by decide) hpeek]
    rw [hs] at h ⊢
    exact h

theorem unaryLevel_jsonArray (h : jsonArray mode bound s = .ok (e, t)) (count : Nat) :
    unaryLevel mode (exprWithin mode bound) bound (count + 1) s = .ok (e, t) := by
  unfold jsonArray at h
  cases hopen : s.expect '[' "'['" with
  | error err =>
    rw [hopen] at h
    cases h
  | ok u =>
    rw [hopen, ok_bind] at h
    obtain ⟨hpeek, rfl⟩ := Source.peek_of_expect hopen
    obtain ⟨rest, hs⟩ := Source.exists_of_peek hpeek
    rw [unaryLevel_of_peek (by decide) hpeek]
    rw [hs] at h ⊢
    exact h

/-- A call stands at its parenthesis, and it is a call. -/
theorem exists_of_callOf {expr : Source → Except SyntaxError (Expr × Source)}
    {schema : Option String} {name : String} (h : callOf expr bound schema name u = .ok (e, t)) :
    u.skipBlanks.peek = some '(' ∧ ∃ args, e = .call schema name args := by
  unfold callOf at h
  cases hopen : u.expect '(' "'('" with
  | error err =>
    rw [hopen] at h
    cases h
  | ok v =>
    rw [hopen, ok_bind] at h
    refine ⟨(Source.peek_of_expect hopen).1, ?_⟩
    dsimp only at h
    split at h
    · cases h
      exact ⟨_, rfl⟩
    · cases hargs : separated (argument expr) ')' "',' or ')' in argument list" bound v.skipBlanks with
      | error err =>
        rw [hargs] at h
        cases h
      | ok x =>
        rw [hargs] at h
        cases h
        exact ⟨_, rfl⟩

theorem unaryLevel_functionCall (h : functionCall mode bound s = .ok (e, t))
    (hcast : ¬ (s.skipBlanks.atKeyword "cast" = true ∧ ∃ name args, e = .call none name args))
    (count : Nat) :
    unaryLevel mode (exprWithin mode bound) bound (count + 1) s = .ok (e, t) := by
  unfold functionCall at h
  dsimp only at h
  cases hname : identifier s.skipBlanks with
  | error err =>
    rw [hname] at h
    cases h
  | ok x =>
    obtain ⟨first, u⟩ := x
    rw [hname, ok_bind] at h
    dsimp only at h
    cases hpoint : u.eat '.' with
    | none =>
      rw [hpoint] at h
      obtain ⟨hparen, args, rfl⟩ := exists_of_callOf h
      have hword : s.skipBlanks.atKeyword "cast" = false :=
        Bool.eq_false_iff.mpr fun hword => hcast ⟨hword, first, args, rfl⟩
      rw [unaryLevel_of_identifier hname (by rw [hword]; rfl)]
      unfold identifierTail
      dsimp only
      rw [if_pos hparen, callOf_skipBlanks]
      exact h
    | some v =>
      rw [hpoint] at h
      dsimp only at h
      cases hsecond : identifier v with
      | error err =>
        rw [hsecond] at h
        cases h
      | ok x =>
        obtain ⟨second, w⟩ := x
        rw [hsecond, ok_bind] at h
        obtain ⟨hparen, -⟩ := exists_of_callOf h
        have hdangling : u.Dangling := Source.peek_of_eat hpoint
        have hother : u.skipBlanks.peek ≠ some '(' := by
          rw [hdangling.skipBlanks_eq, show u.peek = some '.' from hdangling]
          decide
        rw [unaryLevel_of_identifier hname (not_cast_of_not_paren hname hother)]
        unfold identifierTail
        dsimp only
        rw [if_neg hother, hpoint]
        dsimp only
        rw [hsecond]
        dsimp only
        rw [if_pos hparen, callOf_skipBlanks]
        exact h

/-- What a production that stands for expressions reads up to the end, the unary level reads. -/
theorem production_unary {entry : Entry} {compiled : Compiled}
    (h : production mode bound entry s = .ok (compiled, t)) (hend : t.skipBlanks.rest = [])
    (hentry : entry.IsExpression mode s compiled) (count : Nat) :
    ∃ e, compiled = .expr e ∧
      unaryLevel mode (exprWithin mode bound) bound (count + 1) s = .ok (e, t) := by
  have made {α : Type} (r : Except SyntaxError (α × Source)) (make : α → Expr)
      (h : r.map (fun x => (Compiled.expr (make x.1), x.2)) = .ok (compiled, t)) :
      ∃ x, compiled = .expr (make x) ∧ r = .ok (x, t) := by
    cases r with
    | error err => cases h
    | ok x =>
      cases h
      exact ⟨x.1, rfl, rfl⟩
  cases entry with
  | placeholder =>
    obtain ⟨e, rfl, hread⟩ := made (placeholder mode bound s) id h
    exact ⟨e, rfl, unaryLevel_placeholder hread count⟩
  | jsonDoc =>
    obtain ⟨e, rfl, hread⟩ := made (jsonDoc mode bound s) id h
    exact ⟨e, rfl, unaryLevel_jsonDoc hread count⟩
  | jsonArray =>
    obtain ⟨e, rfl, hread⟩ := made (jsonArray mode bound s) id h
    exact ⟨e, rfl, unaryLevel_jsonArray hread count⟩
  | literal =>
    obtain ⟨value, rfl, hread⟩ := made (literal s) .literal h
    exact ⟨.literal value, rfl, unaryLevel_literal hread hentry count⟩
  | functionCall =>
    obtain ⟨e, rfl, hread⟩ := made (functionCall mode bound s) id h
    refine ⟨e, rfl, unaryLevel_functionCall hread (fun hcast => hentry ?_) count⟩
    obtain ⟨hword, name, args, rfl⟩ := hcast
    exact ⟨hword, name, args, rfl⟩
  | documentField =>
    obtain rfl : mode = .document := hentry
    obtain ⟨e, rfl, hread⟩ := made (documentField .document bound s) id h
    exact ⟨e, rfl, unaryLevel_documentField hread hend count⟩
  | columnIdent =>
    obtain rfl : mode = .table := hentry
    obtain ⟨e, rfl, hread⟩ := made (columnIdent s) id h
    exact ⟨e, rfl, unaryLevel_columnIdent hread hend count⟩
  | expr | castType | sortExpr | projectedSearchExpr => exact hentry.elim

end

/-! ## Up the ladder -/

/-- A text that the unary level reads up to the end is compiled to what is read: no level finds
anything behind it, and the rounds that are left over make no difference. -/
theorem compile_of_unary {mode : Mode} {cs : List Char} {e : Expr}
    (h : unaryLevel mode (exprWithin mode cs.length) cs.length (cs.length + 1) (.ofList cs)
      = .ok (e, t)) (hend : t.skipBlanks.rest = []) :
    compile (String.ofList cs) mode .expr = .ok (.expr e) := by
  have hinner (k b : Nat) (hb : cs.length ≤ b + 1) : ∀ u u' : Source,
      u.rest.length < cs.length → u.Tracks [] k u' → Carries [] k u.remaining (Expr.shift k)
        (exprWithin mode cs.length u) (exprWithin mode b u') :=
    fun u u' hu => exprWithin_carries mode .nil hu.le (by omega)
  have hcarries {k b : Nat} {s' : Source} (hb : cs.length ≤ b + 1)
      (hs : (Source.ofList cs).Tracks [] k s') :
      t.rest.length < (Source.ofList cs).remaining ∧ (¬ t.Dangling → ∃ t',
        unaryLevel mode (exprWithin mode b) (b + 1) (b + 1) s' = .ok (e.shift k, t') ∧
          t.Tracks [] k t') :=
    unaryLevel_carries mode (hinner k b hb) .nil le_rfl hb le_rfl (Nat.le_succ _) hb hs e t h
  have hsome : cs.length ≠ 0 := by
    have hself : (Source.ofList cs).Tracks [] 0 (.ofList cs) := ⟨by rw [List.append_nil], rfl⟩
    obtain ⟨hlt, -⟩ := hcarries (Nat.le_succ _) hself
    exact Nat.ne_zero_of_lt (hlt.trans_le (Source.remaining_le _))
  obtain ⟨b, hb⟩ := Nat.exists_eq_succ_of_ne_zero hsome
  have hreads : Reads (unaryLevel mode (exprWithin mode b) (b + 1) (b + 1)) cs t.marks
      (fun m => e.shift m) [] := by
    intro s' m hs
    have htracks : (Source.ofList cs).Tracks [] m s' :=
      ⟨hs.1, hs.2.trans (Nat.zero_add m).symm⟩
    obtain ⟨-, hread⟩ := hcarries hb.le htracks
    obtain ⟨t', ht', hat⟩ := hread (Source.not_dangling_of_end hend)
    exact ⟨t', ht', Nat.add_comm m t.marks ▸ hat.at_of_end hend⟩
  have hwhole : Reads (exprWithin mode cs.length) cs t.marks (fun m => e.shift m) [] := by
    rw [hb]
    exact exprWithin_reads_of_unary hreads
  have hcompile := compile_of_reads hwhole
  rwa [e.shift_zero] at hcompile

/-- **The productions agree with the grammar of expressions.**  What a text is compiled to as a
field of a document, a column, a placeholder, an object, an array, a call or a literal, it is
compiled to as an expression. -/
theorem compile_expr_of_entry {mode : Mode} {entry : Entry} {text : String} {compiled : Compiled}
    (h : compile text mode entry = .ok compiled)
    (hentry : entry.IsExpression mode (.ofList text.toList) compiled) :
    compile text mode .expr = .ok compiled := by
  obtain ⟨t, ht, hend⟩ := exists_end_of_compile h
  obtain ⟨e, rfl, hunary⟩ := production_unary ht hend hentry text.toList.length
  rw [← String.ofList_toList (s := text)]
  exact compile_of_unary hunary hend

/-- A schema may have the name of the cast. -/
theorem compile_expr_of_entry_schema :
    let text := " Cast.f(*, ? in (?) + 1, `a b`.c->'$.x') "
    let e := Expr.call (some "Cast") "f" [.op "*" [],
      .op "cont_in" [.positional 0, .op "+" [.positional 1, .literal (.uint 1)]],
      .column ⟨none, some "a b", "c", [.member "x"]⟩]
    compile text .table .functionCall = .ok (.expr e) ∧
      Entry.functionCall.IsExpression .table (.ofList text.toList) (.expr e) ∧
      compile text .table .expr = .ok (.expr e) := by
  have h : compile " Cast.f(*, ? in (?) + 1, `a b`.c->'$.x') " .table .functionCall = _ := rfl
  have hentry : Entry.functionCall.IsExpression .table
      (.ofList " Cast.f(*, ? in (?) + 1, `a b`.c->'$.x') ".toList)
      (.expr (.call (some "Cast") "f" [.op "*" [],
        .op "cont_in" [.positional 0, .op "+" [.positional 1, .literal (.uint 1)]],
        .column ⟨none, some "a b", "c", [.member "x"]⟩])) := by
    rintro ⟨-, name, args, he⟩
    cases he
  exact ⟨h, hentry, compile_expr_of_entry h hentry⟩

end DocWire
