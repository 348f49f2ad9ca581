import DocWire.Proofs.Expr.Holes
import DocWire.Proofs.Expr.Numerals
import DocWire.Proofs.Expr.Prolonged.Basic
import DocWire.Proofs.Expr.Quotation

/-!
# Tokens in texts that go on

A token is the same in a text and in a longer one that does not go on with it.

* `Numeral.read_detached`   numerals;
* `Finds`                   a look at what is next that gives a value;
* `quoted_keeps`, `identifier_keeps`, `castType_keeps`, `intervalUnit_keeps`   readers of tokens;
* `segments_keeps`          paths, step by step;
* `columnFrom_carries`      columns, behind which a point can be left.
-/

namespace DocWire

open Text
open Source (nextIn)

variable {α β : Type} {T : List Char} {k n : Nat} {s s' : Source}

/-! ## Numerals -/

namespace Numeral

variable (hT : Detached T) (cs : List Char)
include hT

theorem fractionOf_detached : fractionOf (cs ++ T) = fractionOf cs := by
  cases cs with
  | nil =>
    refine fractionOf_of_not fun c hc hpoint => hT.head c hc ?_
    rw [hpoint]
    decide
  | cons c rest =>
    by_cases hc : c = '.'
    · subst hc
      cases rest with
      | nil =>
        show fractionOf ('.' :: ([] ++ T)) = some []
        refine fractionOf_point nofun hT.digit fun _ c hc => ?_
        exact (Bool.or_eq_false_iff.mp (hT.start c hc)).1
      | cons d rest =>
        show (if isAlphabetic d then none else some ((d :: rest ++ T).takeWhile isDigit)) = _
        rw [takeWhile_append_of_head hT.digit]
        rfl
    · have hnot (ds : List Char) : fractionOf (c :: ds) = none :=
        fractionOf_of_not fun d hd => Option.some.inj hd ▸ hc
      rw [List.cons_append, hnot, hnot]

theorem signOf_detached : signOf (cs ++ T) = signOf cs := by
  have hnot {ds : List Char} (h : ∀ c ∈ ds.head?, c ∉ ['+', '-']) : signOf ds = [] := by
    unfold signOf
    split
    · exact absurd List.mem_cons_self (h '+' rfl)
    · exact absurd (List.mem_cons_of_mem '+' List.mem_cons_self) (h '-' rfl)
    · rfl
  cases cs with
  | nil =>
    refine hnot fun c hc hmem => hT.head c hc ?_
    have hsigns : ['+', '-'] ⊆ joining := by decide
    exact hsigns hmem
  | cons c rest =>
    by_cases hc : c ∈ ['+', '-']
    · simp only [List.mem_cons, List.not_mem_nil, or_false] at hc
      rcases hc with rfl | rfl <;> rfl
    · have hfirst (ds : List Char) : signOf (c :: ds) = [] :=
        hnot fun d hd => Option.some.inj hd ▸ hc
      rw [List.cons_append, hfirst, hfirst]

theorem exponentOf_detached : exponentOf (cs ++ T) = exponentOf cs := by
  cases cs with
  | nil =>
    cases T with
    | nil => rfl
    | cons c rest =>
      have hletter := (Bool.or_eq_false_iff.mp (hT.start c rfl)).1
      refine if_neg ?_
      rintro (rfl | rfl) <;> cases hletter
  | cons c rest =>
    obtain ⟨-, U, hU⟩ := exists_signOf rest
    have hlength : (signOf rest).length ≤ rest.length := by
      conv_rhs => rw [hU, List.length_append]
      exact Nat.le_add_right _ _
    unfold exponentOf
    rw [List.cons_append]
    dsimp only
    rw [signOf_detached hT, List.drop_append_of_le_length hlength, takeWhile_append_of_head hT.digit]

theorem read_detached : read (cs ++ T) = read cs := by
  have hwhole : (cs.takeWhile isDigit).length ≤ cs.length := (List.takeWhile_sublist _).length_le
  unfold read
  dsimp only
  rw [takeWhile_append_of_head hT.digit, List.drop_append_of_le_length hwhole,
    fractionOf_detached hT]
  obtain ⟨-, U, hU, -⟩ := exists_fractionOf (cs.drop (cs.takeWhile isDigit).length)
  have hfraction : ((fractionOf (cs.drop (cs.takeWhile isDigit).length)).map (·.length + 1)).getD 0
      ≤ (cs.drop (cs.takeWhile isDigit).length).length := by
    conv_rhs => rw [hU, List.length_append]
    cases fractionOf (cs.drop (cs.takeWhile isDigit).length) with
    | none => exact Nat.zero_le _
    | some ds => exact Nat.le_add_right _ _
  rw [List.drop_append_of_le_length hfraction, exponentOf_detached hT]

end Numeral

theorem atNumeral_cons {c : Char} (hc : c ≠ '.') (cs : List Char) (pos m : Nat) :
    (⟨c :: cs, pos, m⟩ : Source).atNumeral = isDigit c := by
  unfold Source.atNumeral
  split
  · rename_i h
    exact absurd (List.cons.inj h).1 hc
  · rename_i h
    rw [(List.cons.inj h).1]
  · rename_i h
    cases h

namespace Source.Prolonged

variable (h : s.Prolonged T k s') (hT : Detached T)
include h hT

theorem atNumeral_eq (hne : s.rest ≠ []) : s'.atNumeral = s.atNumeral := by
  obtain ⟨c, rest, hrest⟩ := List.exists_cons_of_ne_nil hne
  have hs : s = ⟨c :: rest, s.pos, s.marks⟩ := by rw [← hrest]
  have hs' : s' = ⟨c :: (rest ++ T), s'.pos, s'.marks⟩ := by
    rw [← List.cons_append, ← hrest, ← h.rest]
  by_cases hc : c = '.'
  · subst hc
    rw [hs, hs']
    cases rest with
    | cons d rest => rfl
    | nil =>
      cases hhead : T with
      | nil => rfl
      | cons d rest => exact hT.digit d (by rw [hhead]; rfl)
  · rw [hs, hs', atNumeral_cons hc, atNumeral_cons hc]

/-- A numeral that is next is read in both texts. -/
theorem numeral (hnext : s.atNumeral = true) (negative : Bool) :
    (numeral negative s').1 = (DocWire.numeral negative s).1 ∧
      (DocWire.numeral negative s).2.rest.length < s.rest.length ∧
      (DocWire.numeral negative s).2.Prolonged T k (DocWire.numeral negative s').2 := by
  obtain ⟨hspelled, U, hU⟩ := Numeral.spelled_read hnext
  obtain ⟨c, cs, htext, -⟩ := hspelled.exists_first
  have hle : (Numeral.read s.rest).text.length ≤ s.rest.length := by
    conv_rhs => rw [hU, List.length_append]
    exact Nat.le_add_right _ _
  have hpos : 0 < (Numeral.read s.rest).text.length := by
    rw [htext]
    exact Nat.succ_pos _
  unfold DocWire.numeral
  dsimp only
  rw [h.rest, Numeral.read_detached hT]
  exact ⟨rfl, length_skip_lt (List.ne_nil_of_length_pos (by omega)) hpos, h.skip hle⟩

end Source.Prolonged

/-! ## Keywords that stand for values -/

/-- What is found in a text is found in the longer one, and something is passed with it. -/
def Finds (T : List Char) (k n : Nat) (found found' : Option (α × Source)) : Prop :=
  Option.Rel (fun x x' => x'.1 = x.1 ∧ x.2.rest.length < n ∧ x.2.Prolonged T k x'.2) found found'

namespace Finds

theorem of_sees {found found' : Option Source} (h : Sees T k n found found') (x : α) :
    Finds T k n (found.map fun t => (x, t)) (found'.map fun t => (x, t)) := by
  cases h with
  | none => exact .none
  | some ht => exact .some ⟨rfl, ht⟩

theorem or {a a' b b' : Option (α × Source)} (ha : Finds T k n a a') (hb : Finds T k n b b') :
    Finds T k n (a.or b) (a'.or b') := by
  cases ha with
  | none => exact hb
  | some hx => exact .some hx

end Finds

theorem keywordLiteral_eq_or (s : Source) : keywordLiteral s
    = ((s.eatKeyword "null").map fun t => (Scalar.null, t)).or
      (((s.eatKeyword "true").map fun t => (Scalar.bool true, t)).or
        ((s.eatKeyword "false").map fun t => (Scalar.bool false, t))) := by
  unfold keywordLiteral
  cases s.eatKeyword "null" with
  | some t => rfl
  | none =>
    cases s.eatKeyword "true" with
    | some t => rfl
    | none => cases s.eatKeyword "false" <;> rfl

theorem keywordLiteral_finds (h : s.Prolonged T k s') (hT : Detached T) :
    Finds T k s.rest.length (keywordLiteral s) (keywordLiteral s') := by
  rw [keywordLiteral_eq_or, keywordLiteral_eq_or]
  exact (Finds.of_sees (h.eatKeyword hT "null") _).or
    ((Finds.of_sees (h.eatKeyword hT "true") _).or (Finds.of_sees (h.eatKeyword hT "false") _))

theorem keywordLiteral_of_nil (hs : s.rest = []) : keywordLiteral s = none :=
  keywordLiteral_of_not fun word _ => atKeyword_of_nil hs word

/-! ## Quoted strings -/

section
variable (h : s.Prolonged T k s') (hT : Detached T)
include h hT

theorem quoted_keeps : Keeps T k s.rest.length (quoted s) (quoted s') := by
  unfold quoted
  rw [h.rest]
  cases hrest : s.rest with
  | nil => exact .fail s _ _
  | cons c body =>
    rw [List.cons_append]
    dsimp only
    by_cases hc : isQuote c = true
    · rw [if_pos hc, if_pos hc]
      cases hbody : unquote c body with
      | none => exact .fail s _ _
      | some x =>
        obtain ⟨text, after⟩ := x
        have hend : T.head? ≠ some c := by
          intro hhead
          refine hT.head c hhead ?_
          unfold isQuote at hc
          simp only [Bool.or_eq_true, beq_iff_eq] at hc
          rcases hc with (rfl | rfl) | rfl <;> decide
        obtain ⟨hlt, hread⟩ := unquote_append (ne_backslash_of_isQuote hc) hend hbody
        have hcount : (c :: (body ++ T)).length - (after ++ T).length
            = (c :: body).length - after.length := by
          simp only [List.length_cons, List.length_append]
          omega
        rw [hread]
        dsimp only
        rw [hcount]
        refine .ok ?_ (h.skip ?_)
        · rw [Source.length_skip, hrest, List.length_cons]
          omega
        · rw [hrest]
          exact Nat.sub_le _ _
    · rw [if_neg hc]
      exact .fail s _ _

omit hT in
/-- The word that is next is passed in both texts. -/
theorem Source.Prolonged.passWord {word : List Char} (hword : s.word? = some word) :
    (s.skip word.length).rest.length < s.rest.length ∧
      (s.skip word.length).Prolonged T k (s'.skip word.length) := by
  obtain ⟨hpos, hle⟩ := Source.length_word hword
  exact ⟨Source.length_skip_lt (List.ne_nil_of_length_pos (by omega)) hpos, h.skip hle⟩

theorem bareIdentifier_keeps : Keeps T k s.rest.length (bareIdentifier s) (bareIdentifier s') := by
  unfold bareIdentifier
  rw [h.word?_eq hT]
  cases hword : s.word? with
  | none => exact .fail s _ _
  | some word =>
    dsimp only
    by_cases hreserved : isReserved word = true
    · rw [if_pos hreserved]
      exact .fail s _ _
    · rw [if_neg hreserved, if_neg hreserved]
      obtain ⟨hlt, hsame⟩ := h.passWord hword
      exact .ok hlt hsame

theorem identifier_keeps : Keeps T k s.rest.length (identifier s) (identifier s') := by
  have hend : T.head? ≠ some '`' := fun hhead => hT.head _ hhead (by decide)
  unfold identifier
  by_cases hquoted : s.peek = some '`'
  · rw [if_pos hquoted, if_pos ((h.peek_eq_iff hend).mpr hquoted)]
    exact quoted_keeps h hT
  · rw [if_neg hquoted, if_neg ((h.peek_eq_iff hend).not.mpr hquoted)]
    exact bareIdentifier_keeps h hT

/-- Where no identifier is, there is none in the longer text, unless a quote is left open. -/
theorem exists_identifier_error {e : SyntaxError} (hquoted : s.peek ≠ some '`')
    (he : identifier s = .error e) : ∃ e', identifier s' = .error e' := by
  have hend : T.head? ≠ some '`' := fun hhead => hT.head _ hhead (by decide)
  unfold identifier at he ⊢
  rw [if_neg hquoted] at he
  rw [if_neg ((h.peek_eq_iff hend).not.mpr hquoted)]
  unfold bareIdentifier at he ⊢
  rw [h.word?_eq hT]
  cases hword : s.word? with
  | none => exact ⟨_, rfl⟩
  | some word =>
    rw [hword] at he
    dsimp only at he ⊢
    by_cases hreserved : isReserved word = true
    · rw [if_pos hreserved]
      exact ⟨_, rfl⟩
    · rw [if_neg hreserved] at he
      cases he

/-- What stands behind the word that is next, up to blanks. -/
theorem Source.Prolonged.wordStandsBefore_eq {c : Char} (hc : c ∈ joining) :
    s'.wordStandsBefore c = s.wordStandsBefore c := by
  have hbehind {t t' : Source} (ht : t.Prolonged T k t') :
      (t'.skipBlanks.peek == some c) = (t.skipBlanks.peek == some c) := by
    rw [Bool.eq_iff_iff, beq_iff_eq, beq_iff_eq]
    exact ht.tracks.peek_eq_iff hT hc
  unfold Source.wordStandsBefore
  rw [h.word?_eq hT]
  split
  · rename_i word hword
    exact hbehind (h.passWord hword).2
  · exact hbehind h

/-! ## Paths -/

theorem memberStep_keeps : Keeps T k s.rest.length (memberStep s) (memberStep s') := by
  by_cases hne : s.rest = []
  · unfold memberStep
    rw [peek_of_rest_nil hne]
    exact .fail s _ _
  have hend : T.head? ≠ some '*' := fun hhead => hT.head _ hhead (by decide)
  unfold memberStep
  rw [h.peek_eq hne]
  split
  · exact .fail s _ _
  · have hsecond : (s'.peekSecond = some '*') = (s.peekSecond = some '*') :=
      propext (h.peekSecond_eq_iff hne hend)
    simp only [hsecond]
    split
    · exact .fail s _ _
    · exact .ok (Source.length_skip_lt hne Nat.one_pos) (h.skip (List.length_pos_of_ne_nil hne))
  · split
    · refine .bind (quoted_keeps h hT) fun name t t' hlt ht => ?_
      have hword : t'.peek.any isWordChar = t.peek.any isWordChar := by
        by_cases hrest : t.rest = []
        · rw [ht.peek_of_nil hrest, peek_of_rest_nil hrest]
          cases hhead : T.head? with
          | none => rfl
          | some c => exact hT.endsWord c hhead
        · rw [ht.peek_eq hrest]
      dsimp only
      rw [hword]
      split
      · exact .fail t _ _
      · exact .ok hlt ht
    · rw [h.word?_eq hT]
      split
      · rename_i word hword
        obtain ⟨hlt, hsame⟩ := h.passWord hword
        exact .ok hlt hsame
      · exact .fail s _ _
  · exact .fail s _ _

end

theorem indexStep_keeps (h : s.Tracks T k s') (hT : Detached T) :
    Keeps T k s.remaining (indexStep s) (indexStep s') := by
  have closed (item : PathItem) {t t' : Source} (hlt : t.rest.length < s.remaining)
      (ht : t.Prolonged T k t') : Keeps T k s.remaining
        (t.expect ']' "']'" >>= fun t => .ok (item, t))
        (t'.expect ']' "']'" >>= fun t => .ok (item, t)) :=
    .expect ht.tracks ']' _ fun u u' hu hsame =>
      .ok (by have := t.remaining_le; omega) hsame
  have hstar := h.eat hT (show '*' ∈ joining by decide)
  unfold indexStep
  dsimp only
  generalize s.skipBlanks.eat '*' = a, s'.skipBlanks.eat '*' = a' at hstar
  cases hstar with
  | some ht => exact closed .anyIndex ht.1 ht.2
  | none =>
    dsimp only
    obtain ⟨hne, hsame⟩ | ⟨hnil, -⟩ := h.cases
    · rw [hsame.rest, takeWhile_append_of_head hT.digit]
      split
      · exact .error _ _
      · rename_i hdigits
        split
        · refine closed _ ?_ (hsame.skip (List.takeWhile_sublist _).length_le)
          exact Source.length_skip_lt hne (List.length_pos_of_ne_nil (mt List.isEmpty_iff.mpr hdigits))
        · exact .error _ _
    · rw [hnil]
      exact .error _ _

theorem endOfPath_keeps (h : s.Prolonged T k s') (previous : Option PathItem) :
    Keeps T k (s.rest.length + 1) (endOfPath previous s) (endOfPath previous s') := by
  unfold endOfPath
  split
  · exact .fail s _ _
  · exact .ok (Nat.lt_succ_self _) h

/-- The steps of a path are the same, if there are rounds enough for both texts. -/
theorem segments_keeps (h : s.Prolonged T k s') (hT : Detached T) {b b' : Nat}
    (hb : s.rest.length ≤ b) (hb' : s.rest.length ≤ b') (previous : Option PathItem) :
    Keeps T k (s.rest.length + 1) (segments b previous s) (segments b' previous s') := by
  have hend : ∀ c ∈ T.head?, c ∉ ['.', '[', '*'] := fun c hc hmem => hT.head c hc <| by
    have hjoining : ['.', '[', '*'] ⊆ joining := by decide
    exact hjoining hmem
  have atEnd {s s' : Source} (h : s.Prolonged T k s') (hnil : s.rest = []) (b b' : Nat)
      (previous : Option PathItem) :
      Keeps T k (s.rest.length + 1) (segments b previous s) (segments b' previous s') := by
    have hs : segments b previous s = endOfPath previous s :=
      segments_of_no_step (T := s.rest) (by rw [hnil]; exact nofun) b previous s.pos s.marks
    have hs' : segments b' previous s' = endOfPath previous s' :=
      segments_of_no_step (T := s'.rest) (by rw [h.rest, hnil]; exact hend) b' previous s'.pos s'.marks
    rw [hs, hs']
    exact endOfPath_keeps h previous
  induction b generalizing b' previous s s' with
  | zero => exact atEnd h (List.length_eq_zero_iff.mp (Nat.le_zero.mp hb)) 0 b' previous
  | succ b ih =>
    by_cases hnil : s.rest = []
    · exact atEnd h hnil (b + 1) b' previous
    have hpos := List.length_pos_of_ne_nil hnil
    obtain ⟨b', rfl⟩ := Nat.exists_eq_succ_of_ne_zero (by omega : b' ≠ 0)
    have andThen {step step' : Except SyntaxError (PathItem × Source)}
        (hstep : Keeps T k s.rest.length step step') : Keeps T k (s.rest.length + 1)
          (step >>= fun x => segments b (some x.1) x.2 >>= fun y => .ok (x.1 :: y.1, y.2))
          (step' >>= fun x => segments b' (some x.1) x.2 >>= fun y => .ok (x.1 :: y.1, y.2)) :=
      .bind hstep fun item t t' hlt ht =>
        .bind (ih ht (by omega) (by omega) (some item)) fun items u u' hu hsame =>
          .ok (Nat.lt_succ_of_lt (Nat.lt_of_lt_of_le hu hlt)) hsame
    have hskip : (s.skip 1).Prolonged T k (s'.skip 1) := h.skip hpos
    have hless : (s.skip 1).rest.length ≤ s.rest.length := by
      rw [Source.length_skip]
      exact Nat.sub_le _ _
    have hstars : Sees T k s.rest.length (s.eatText "**") (s'.eatText "**") :=
      h.eatText (by decide) fun c hc hmem => hend c hc (by
        rw [List.mem_replicate (n := 2) |>.mp hmem |>.2]
        decide)
    unfold segments
    dsimp only
    generalize s.eatText "**" = a, s'.eatText "**" = a' at hstars
    cases hstars with
    | some ht =>
      dsimp only
      split
      · exact .fail s _ _
      · exact andThen (.ok ht.1 ht.2)
    | none =>
      dsimp only
      rw [h.peek_eq hnil]
      split
      · exact andThen ((memberStep_keeps hskip hT).mono hless)
      · exact andThen ((indexStep_keeps hskip.tracks hT).mono ((s.skip 1).remaining_le.trans hless))
      · exact endOfPath_keeps h previous

/-! ## Columns -/

theorem arrowPath_keeps (h : s.Tracks T k s') (hT : Detached T) :
    Keeps T k s.remaining (arrowPath s) (arrowPath s') := by
  unfold arrowPath
  dsimp only
  obtain ⟨hne, hsame⟩ | ⟨hnil, -⟩ := h.cases
  · rw [hsame.peek_eq hne]
    split
    · refine .bind (quoted_keeps hsame hT) fun text t t' hlt ht => ?_
      dsimp only
      split
      · exact .ok hlt ht
      · exact .error _ _
    · exact .fail _ _ _
  · rw [peek_of_rest_nil hnil]
    exact .fail _ _ _

/-- The parts of a dotted name are the same, unless a point is left behind them. -/
theorem dottedParts_prolonged (h : s.Prolonged T k s') (hT : Detached T) (count : Nat) :
    (dottedParts count s).2.rest.length ≤ s.rest.length ∧ ((dottedParts count s).2.Dangling ∨
      ∃ t', dottedParts count s' = ((dottedParts count s).1, t') ∧
        (dottedParts count s).2.Prolonged T k t') := by
  induction count generalizing s s' with
  | zero => exact ⟨Nat.le_refl _, .inr ⟨s', rfl, h⟩⟩
  | succ count ih =>
    have hpoint := h.eat fun hhead => hT.head '.' hhead (by decide)
    unfold dottedParts
    generalize heat : s.eat '.' = a, s'.eat '.' = a' at hpoint
    cases hpoint with
    | none => exact ⟨Nat.le_refl _, .inr ⟨s', rfl, h⟩⟩
    | @some t t' ht =>
      dsimp only
      cases hident : identifier t with
      | error e => exact ⟨Nat.le_refl _, .inl (Source.peek_of_eat heat)⟩
      | ok x =>
        obtain ⟨part, u⟩ := x
        obtain ⟨hlt, u', hu', hsame⟩ := identifier_keeps ht.2 hT part u hident
        obtain ⟨hle, hparts⟩ := ih hsame
        rw [hu']
        dsimp only
        refine ⟨by have := ht.1; omega, hparts.imp_right ?_⟩
        rintro ⟨v', hv', hv⟩
        exact ⟨v', by rw [hv'], hv⟩

/-- A column behind whose name a point is left. -/
theorem columnFrom_leavesPoint (first : String) (hlength : (dottedParts 2 s).2.rest.length < n)
    (hpoint : (dottedParts 2 s).2.Dangling) : LeavesPoint n (columnFrom first s) := by
  unfold columnFrom
  dsimp only
  rw [hpoint.skipBlanks_eq, hpoint.eatText (show "->>".toList = ['-', '>', '>'] from rfl)
    (by decide), hpoint.eatText (show "->".toList = ['-', '>'] from rfl) (by decide)]
  exact Yields.ok ⟨hlength, hpoint⟩

theorem columnFrom_carries (h : s.Prolonged T k s') (hT : Detached T) (first : String) :
    Carries T k (s.rest.length + 1) (Expr.shift k) (columnFrom first s) (columnFrom first s') := by
  obtain ⟨hle, hpoint | ⟨t', ht', hsame⟩⟩ := dottedParts_prolonged h hT 2
  · exact (columnFrom_leavesPoint first (Nat.lt_succ_of_le hle) hpoint).carries _
  · unfold columnFrom
    rw [ht']
    dsimp only
    generalize dottedParts 2 s = parts at hle hsame
    have arrow {found found' : Source} (hfound : found.rest.length < parts.2.remaining ∧
        found.Prolonged T k found') (make : List PathItem → Expr)
        (hmake : ∀ path, (make path).shift k = make path) :
        Carries T k (s.rest.length + 1) (Expr.shift k)
          ((arrowPath found).map fun x => (make x.1, x.2))
          ((arrowPath found').map fun x => (make x.1, x.2)) := by
      refine (Carries.of_keeps_map (arrowPath_keeps hfound.2.tracks hT) make (fun _ _ => rfl)
        hmake).mono ?_
      have := found.remaining_le
      have := parts.2.remaining_le
      omega
    have hdouble : Sees T k _ (parts.2.skipBlanks.eatText "->>") (t'.skipBlanks.eatText "->>") :=
      hsame.tracks.eatText hT (by decide) (by decide)
    have hsingle : Sees T k _ (parts.2.skipBlanks.eatText "->") (t'.skipBlanks.eatText "->") :=
      hsame.tracks.eatText hT (by decide) (by decide)
    generalize parts.2.skipBlanks.eatText "->>" = a, t'.skipBlanks.eatText "->>" = a' at hdouble
    cases hdouble with
    | some ht =>
      exact arrow ht (fun path => .call none "JSON_UNQUOTE"
        [.column { ColumnRef.ofParts first parts.1 with path }]) fun _ => rfl
    | none =>
      dsimp only
      generalize parts.2.skipBlanks.eatText "->" = a, t'.skipBlanks.eatText "->" = a' at hsingle
      cases hsingle with
      | some ht =>
        exact arrow ht (fun path => .column { ColumnRef.ofParts first parts.1 with path })
          fun _ => rfl
      | none => exact .ok (Nat.lt_succ_of_le hle) hsame.tracks rfl

/-! ## Types and units -/

theorem typeParameters_keeps (h : s.Tracks T k s') (hT : Detached T) (count : Nat) :
    Keeps T k s.remaining (typeParameters count s) (typeParameters count s') := by
  induction count generalizing s s' with
  | zero => exact .fail s _ _
  | succ count ih =>
    unfold typeParameters
    dsimp only
    obtain ⟨hne, hsame⟩ | ⟨hnil, -⟩ := h.cases
    · rw [hsame.rest, takeWhile_append_of_head hT.digit]
      split
      · exact .fail _ _ _
      · rename_i hdigits
        have hpassed := hsame.skip (List.takeWhile_sublist isDigit).length_le
        have hless := Source.length_skip_lt hne
          (List.length_pos_of_ne_nil (mt List.isEmpty_iff.mpr hdigits))
        generalize s.skipBlanks.skip _ = t, s'.skipBlanks.skip _ = t' at hpassed hless
        have hleft := t.remaining_le
        obtain ⟨hne, hnext⟩ | ⟨hnil, -⟩ := hpassed.tracks.cases
        · have hclose := hnext.eat_of_ne_nil hne ')'
          generalize t.skipBlanks.eat ')' = a, t'.skipBlanks.eat ')' = a' at hclose
          cases hclose with
          | some hu => exact .ok (hu.1.trans_le (hleft.trans hless.le)) hu.2
          | none =>
            dsimp only
            split
            · exact .fail _ _ _
            · have hcomma := hnext.eat_of_ne_nil hne ','
              generalize t.skipBlanks.eat ',' = a, t'.skipBlanks.eat ',' = a' at hcomma
              cases hcomma with
              | none => exact .fail _ _ _
              | @some u u' hu =>
                refine ((ih hu.2.tracks).map (_ :: ·) fun _ _ => rfl).mono ?_
                exact u.remaining_le.trans (hu.1.le.trans (hleft.trans hless.le))
        · rw [eat_of_nil hnil, eat_of_nil hnil]
          dsimp only
          split <;> exact .fail _ _ _
    · rw [hnil]
      exact .fail _ _ _

theorem parameterizedType_keeps (h : s.Prolonged T k s') (hT : Detached T) (name : String)
    (count : Nat) : Keeps T k (s.rest.length + 1) (parameterizedType name count s)
      (parameterizedType name count s') := by
  have hopen := h.tracks.eat hT (show '(' ∈ joining by decide)
  unfold parameterizedType
  generalize s.skipBlanks.eat '(' = a, s'.skipBlanks.eat '(' = a' at hopen
  cases hopen with
  | none => exact .ok (Nat.lt_succ_self _) h
  | @some t t' ht =>
    refine ((typeParameters_keeps ht.2.tracks hT count).map _ fun _ _ => rfl).mono ?_
    have := t.remaining_le
    have := s.remaining_le
    omega

/-- A word that may stand behind a name. -/
theorem optional_keeps {t t' : Source} (hn : t.rest.length < n) (ht : t.Prolonged T k t') (x y : α)
    {found found' : Option Source} : Sees T k n found found' → Keeps T k n
      (match found with
        | some u => .ok (x, u)
        | none => .ok (y, t))
      (match found' with
        | some u => .ok (x, u)
        | none => .ok (y, t'))
  | .none => .ok hn ht
  | .some hu => .ok hu.1 hu.2

theorem castType_keeps (h : s.Tracks T k s') (hT : Detached T) :
    Keeps T k s.remaining (castType s) (castType s') := by
  unfold castType
  dsimp only
  obtain ⟨-, hsame⟩ | ⟨hnil, -⟩ := h.cases
  · rw [hsame.word?_eq hT]
    split
    · exact .fail _ _ _
    · rename_i word hword
      obtain ⟨hlt, hpassed⟩ := hsame.passWord hword
      generalize s.skipBlanks.skip word.length = t, s'.skipBlanks.skip word.length = t' at hlt hpassed
      have hinteger : Sees T k s.remaining (t.skipBlanks.eatKeyword "integer")
          (t'.skipBlanks.eatKeyword "integer") :=
        Sees.mono (t.remaining_le.trans hlt.le) (hpassed.tracks.eatKeyword hT (by decide))
      have parameterized (name : String) (count : Nat) : Keeps T k s.remaining
          (parameterizedType name count t) (parameterizedType name count t') :=
        (parameterizedType_keeps hpassed hT name count).mono hlt
      split
      · exact optional_keeps hlt hpassed _ _ hinteger
      · exact optional_keeps hlt hpassed _ _ hinteger
      · exact parameterized _ 1
      · exact parameterized _ 1
      · exact parameterized _ 2
      · exact .ok hlt hpassed
      · exact .ok hlt hpassed
      · exact .ok hlt hpassed
      · exact .ok hlt hpassed
      · exact .fail _ _ _
  · have hword : s.skipBlanks.word? = none := by
      unfold Source.word?
      rw [peek_of_rest_nil hnil]
    rw [hword]
    exact .fail _ _ _

theorem intervalUnit_keeps (h : s.Tracks T k s') (hT : Detached T) :
    Keeps T k s.remaining (intervalUnit s) (intervalUnit s') := by
  unfold intervalUnit
  dsimp only
  obtain ⟨-, hsame⟩ | ⟨hnil, -⟩ := h.cases
  · rw [hsame.word?_eq hT]
    split
    · exact .fail _ _ _
    · rename_i word hword
      obtain ⟨hlt, hpassed⟩ := hsame.passWord hword
      split
      · exact .ok hlt hpassed
      · exact .fail _ _ _
  · have hword : s.skipBlanks.word? = none := by
      unfold Source.word?
      rw [peek_of_rest_nil hnil]
    rw [hword]
    exact .fail _ _ _

/-! ## Names of placeholders -/

theorem placeholderName_carries (h : s.Prolonged T k s') (hT : Detached T) :
    Carries T k s.rest.length (Expr.shift k) (placeholderName s) (placeholderName s') := by
  have hend : ∀ c ∈ T.head?, (isAlphanumeric c || c == '_') = false := by
    intro c hc
    have hword := hT.endsWord c hc
    unfold isWordChar at hword
    exact (Bool.or_eq_false_iff.mp hword).1
  unfold placeholderName
  dsimp only
  rw [h.rest, takeWhile_append_of_head hend]
  split
  · exact .fail _ _ _
  · rename_i hname
    have hpos := List.length_pos_of_ne_nil (mt List.isEmpty_iff.mpr hname)
    have hle := (List.takeWhile_sublist (l := s.rest) fun c => isAlphanumeric c || c == '_').length_le
    exact .ok (Source.length_skip_lt (List.ne_nil_of_length_pos (hpos.trans_le hle)) hpos)
      (h.skip hle).tracks rfl

end DocWire
