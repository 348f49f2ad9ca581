import DocWire.Proofs.Expr.Boundaries
import DocWire.Proofs.Expr.Prolonged.Ladder

/-!
# Where complaints point

Every complaint points at a place at which the text can be cut, but for one kind.  The path behind
an arrow is freed of its quotes first and read as a text of its own, and the offset of a complaint
about it is counted on from the opening quote as if it still stood there as it was read.  Where a
delimiter in front of the complaint is doubled or escaped, the offset falls short, and it may fall
into the middle of a character.

* `QuotedPath`            a path in quotes behind an arrow;
* `QuotedPath.Blames`     a complaint about it;
* `Accounted`             a complaint cuts the text or is about such a path;
* `production_accounted`  so are the complaints of all readers;
* `positionUsable_of_verbatim`, `positionUsable_iff`   when the text can be cut at the position of its
                          complaint.
-/

namespace DocWire

variable {α β : Type}

/-! ## Paths in quotes -/

/-- A path in quotes behind an arrow in the text `cs`. -/
structure QuotedPath (cs : List Char) where
  /-- what stands in front of the opening quote -/
  front : List Char
  quote : Char
  /-- what stands behind the opening quote -/
  body : List Char
  /-- the path without its quotes -/
  path : List Char
  after : List Char
  split : cs = front ++ quote :: body
  arrow : ∃ arrow ∈ ["->", "->>"], ∃ before blanks, front = before ++ arrow.toList ++ blanks ∧
    ∀ c ∈ blanks, Text.isBlank c = true
  isQuote : DocWire.isQuote quote = true
  unquoted : unquote quote body = some (path, after)

/-- What is read between quotes takes no more bytes than what stands there. -/
theorem byteLength_unquote {d : Char} {cs text after : List Char}
    (h : unquote d cs = some (text, after)) : byteLength text ≤ byteLength cs := by
  fun_induction unquote d cs generalizing text after with
  | case1 | case2 | case5 => cases h
  | case3 c rest ih =>
    obtain ⟨x, hx, hxs⟩ := Option.map_eq_some_iff.mp h
    cases hxs
    have hrest := ih hx
    split <;> simp only [byteLength_cons] <;> omega
  | case4 | case7 =>
    cases h
    exact Nat.zero_le _
  | case6 rest _ ih =>
    obtain ⟨x, hx, hxs⟩ := Option.map_eq_some_iff.mp h
    cases hxs
    have hrest := ih hx
    simp only [byteLength_cons]
    omega
  | case8 c e rest hc hne ih =>
    obtain ⟨x, hx, hxs⟩ := Option.map_eq_some_iff.mp h
    cases hxs
    have hrest := ih hx
    rw [byteLength_cons, byteLength_cons c]
    omega

theorem utf8Size_of_isQuote {c : Char} (h : isQuote c = true) : c.utf8Size = 1 := by
  unfold isQuote at h
  simp only [Bool.or_eq_true, beq_iff_eq] at h
  rcases h with (rfl | rfl) | rfl <;> rfl

namespace QuotedPath

variable {cs : List Char} (p : QuotedPath cs)

/-- the offset behind the opening quote -/
def start : Nat := byteLength p.front + 1

/-- A complaint about the path, its offset in the path counted on from behind the opening quote. -/
def Blames (e : SyntaxError) : Prop :=
  ∃ inner, rootedPath p.path = .error inner ∧
    e = { inner with position := p.start + inner.position }

/-- The path is read as it stands between its quotes: none in it is doubled or escaped. -/
def Verbatim : Prop := p.path <+: p.body

theorem byteLength_opened : byteLength (p.front ++ [p.quote]) = p.start := by
  rw [byteLength_append, byteLength_cons, byteLength_nil, utf8Size_of_isQuote p.isQuote]
  rfl

theorem split_opened : cs = (p.front ++ [p.quote]) ++ p.body := by
  rw [List.append_assoc]
  exact p.split

theorem byteLength_eq : byteLength cs = p.start + byteLength p.body := by
  rw [← p.byteLength_opened, ← byteLength_append, ← p.split_opened]

/-- The text is cut behind the opening quote where what stands there is cut. -/
theorem cutsAt_iff (n : Nat) : CutsAt cs (p.start + n) ↔ CutsAt p.body n := by
  have hiff : CutsAt ((p.front ++ [p.quote]) ++ p.body) (byteLength (p.front ++ [p.quote]) + n) ↔
      CutsAt p.body n := CutsAt.append_left_iff
  rwa [← p.split_opened, p.byteLength_opened] at hiff

variable {p} {e : SyntaxError} (h : p.Blames e)
include h

/-- A complaint about a path is no further on than what is quoted. -/
theorem Blames.position_le : e.position ≤ byteLength cs := by
  obtain ⟨inner, hinner, rfl⟩ := h
  have hpath := (rootedPath_cutsAt hinner).le
  have hbody := byteLength_unquote p.unquoted
  show p.start + inner.position ≤ byteLength cs
  rw [p.byteLength_eq]
  exact Nat.add_le_add_left (hpath.trans hbody) _

/-- The text is cut at a complaint about a path where what is quoted is cut at the offset that the
complaint has in the path. -/
theorem Blames.cutsAt_iff : CutsAt cs e.position ↔ CutsAt p.body (e.position - p.start) := by
  obtain ⟨inner, -, rfl⟩ := h
  show CutsAt cs (p.start + inner.position) ↔ CutsAt p.body (p.start + inner.position - p.start)
  rw [Nat.add_sub_cancel_left]
  exact p.cutsAt_iff inner.position

/-- The text is cut at a complaint about a path that is read as it stands. -/
theorem Blames.cutsAt_of_verbatim (hverbatim : p.Verbatim) : CutsAt cs e.position := by
  obtain ⟨inner, hinner, rfl⟩ := h
  exact (p.cutsAt_iff inner.position).mpr ((rootedPath_cutsAt hinner).mono hverbatim)

end QuotedPath

/-! ## Readers -/

/-- What a reader of the text `cs` leaves stands in it, and its complaint cuts the text or is about
a path in quotes. -/
def Accounted (cs : List Char) (r : Except SyntaxError (α × Source)) : Prop :=
  Points cs (fun e => CutsAt cs e.position ∨ ∃ p : QuotedPath cs, p.Blames e) r

theorem Direct.accounted {cs : List Char} {r : Except SyntaxError (α × Source)} (h : Direct cs r) :
    Accounted cs r := Points.mono h fun _ => .inl

theorem Accounted.fail {cs : List Char} {s : Source} (h : s.In cs) (what : Complaint) :
    Accounted cs (s.fail what : Except _ (α × Source)) := (Direct.fail h what).accounted

theorem Accounted.expect {cs : List Char} {s : Source} (h : s.In cs) {c : Char} {what : String}
    {f : Source → Except SyntaxError (α × Source)} (hf : ∀ t, t.In cs → Accounted cs (f t)) :
    Accounted cs (s.expect c what >>= f) :=
  Points.expect h (.inl h.skipBlanks.cutsAt) hf

theorem exists_of_quoted {s t : Source} {text : String} (h : quoted s = .ok (text, t)) :
    ∃ quote body path after, s.rest = quote :: body ∧ isQuote quote = true ∧
      unquote quote body = some (path, after) ∧ text.toList = path := by
  unfold quoted at h
  split at h
  · rename_i quote body hrest
    split at h
    · rename_i hquote
      split at h
      · rename_i path after hread
        cases h
        exact ⟨quote, body, path, after, hrest, hquote, hread, String.toList_ofList⟩
      · cases h
    · cases h
  · cases h

/-- The path behind an arrow. -/
theorem arrowPath_accounted {cs : List Char} {s t : Source} (arrow : String)
    (harrow : arrow ∈ ["->", "->>"]) (h : t.In cs) (hs : t.eatText arrow = some s) :
    Accounted cs (arrowPath s) := by
  obtain ⟨before, hbefore⟩ := h
  obtain ⟨hcs, hlength⟩ := (hbefore.eatText hs).skipBlanks
  have hin : s.skipBlanks.In cs := ⟨_, hcs, hlength⟩
  unfold arrowPath
  dsimp only
  split
  · cases hquoted : quoted s.skipBlanks with
    | error e =>
      have hdirect := quoted_direct hin
      rw [hquoted] at hdirect
      exact .inl hdirect
    | ok x =>
      have hdirect := quoted_direct hin
      rw [hquoted] at hdirect
      obtain ⟨quote, body, path, after, hrest, hquote, hread, rfl⟩ := exists_of_quoted hquoted
      rw [ok_bind]
      split
      · exact hdirect
      · rename_i e he
        rw [hrest] at hcs
        exact .inr ⟨⟨_, quote, body, _, after, hcs, ⟨arrow, harrow, before, _, rfl, fun c hc =>
          List.mem_takeWhile_imp hc⟩, hquote, hread⟩, e, he, by rw [← hlength]; rfl⟩
  · exact .fail hin _

/-! ## Operands -/

section
variable {cs : List Char} {s : Source} (h : s.In cs)
include h

theorem columnFrom_accounted (first : String) : Accounted cs (columnFrom first s) := by
  have hparts := in_dottedParts h 2
  unfold columnFrom
  dsimp only
  split
  · rename_i t ht
    exact .map (arrowPath_accounted "->>" (.tail _ (.head _)) hparts.skipBlanks ht)
      fun _ _ hu => hu
  · split
    · rename_i t ht
      exact .map (arrowPath_accounted "->" (.head _) hparts.skipBlanks ht)
        fun _ _ hu => hu
    · exact .ok hparts

theorem fieldFrom_accounted (bound : Nat) (previous : Option PathItem) :
    Accounted cs (fieldFrom bound previous s) :=
  .map (segments_direct h bound previous).accounted fun _ _ ht => ht

theorem separated_accounted {item : Source → Except SyntaxError (α × Source)}
    (hitem : ∀ t : Source, t.In cs → Accounted cs (item t)) (close : Char) (what : String)
    (bound : Nat) : Accounted cs (separated item close what bound s) := by
  induction bound generalizing s with
  | zero => exact .bind (hitem s h) fun _ t ht => Accounted.fail ht _
  | succ bound ih =>
    unfold separated
    refine .bind (hitem s h) fun x t ht => ?_
    dsimp only
    split
    · rename_i u hu
      exact .ok (ht.skipBlanks.eat hu)
    · split
      · rename_i u hu
        exact .bind (ih (ht.skipBlanks.eat hu)) fun xs v hv => .ok hv
      · exact Accounted.fail ht.skipBlanks _

end

section
variable {cs : List Char} (mode : Mode) {expr : Source → Except SyntaxError (Expr × Source)}
  (bound : Nat) (hexpr : ∀ t : Source, t.In cs → Accounted cs (expr t)) {s : Source} (h : s.In cs)
include hexpr h

theorem argument_accounted : Accounted cs (argument expr s) := by
  unfold argument
  dsimp only
  split
  · exact hexpr _ h.skipBlanks
  · rename_i t ht
    have ht := (h.skipBlanks.eat ht).skipBlanks
    split
    · exact .ok ht
    · exact .fail h.skipBlanks _

theorem callOf_accounted (schema : Option String) (name : String) :
    Accounted cs (callOf expr bound schema name s) := by
  unfold callOf
  refine .expect h fun t ht => ?_
  dsimp only
  split
  · rename_i u hu
    exact .ok (ht.skipBlanks.eat hu)
  · have hargument (u : Source) (hu : u.In cs) := argument_accounted hexpr hu
    exact .bind (separated_accounted ht.skipBlanks hargument ')' _ bound) fun args u hu => .ok hu

theorem identifierTail_accounted (first : String) :
    Accounted cs (identifierTail mode expr bound first s) := by
  have hfield := fieldFrom_accounted h bound (some (.member first))
  have hcolumn := columnFrom_accounted h first
  unfold identifierTail
  dsimp only
  split
  · exact callOf_accounted bound hexpr h.skipBlanks none first
  · split
    · cases mode <;> assumption
    · rename_i t ht
      have hpart := identifier_direct (h.eat ht)
      split
      · cases mode <;> assumption
      · rename_i second u hu
        rw [hu] at hpart
        have hpart : u.In cs := hpart
        split
        · exact callOf_accounted bound hexpr hpart.skipBlanks (some first) second
        · cases mode <;> assumption

theorem castOf_accounted : Accounted cs (castOf expr s) := by
  unfold castOf
  refine .expect (h.skip 4) fun t ht => .bind (hexpr t ht) fun value u hu => ?_
  dsimp only
  split
  · exact Accounted.fail hu.skipBlanks _
  · rename_i v hv
    exact .bind (castType_direct (hu.skipBlanks.eatKeyword hv)).accounted fun type w hw =>
      Accounted.expect hw fun x hx => .ok hx

theorem objectField_accounted : Accounted cs (objectField mode expr s) := by
  have hs := h.skipBlanks
  have value (key : String) {t : Source} (ht : t.In cs) :
      Accounted cs (t.expect ':' "':' after object key" >>= fun t => expr t >>= fun x =>
        .ok ((key, x.1), x.2)) :=
    .expect ht fun u hu => .bind (hexpr u hu) fun value v hv => .ok hv
  unfold objectField
  dsimp only
  split
  · exact .bind (quoted_direct hs).accounted fun key t ht => value key ht
  · split
    · exact value _ (hs.skip _)
    · exact .error (.inl hs.cutsAt)

theorem objectBody_accounted : Accounted cs (objectBody mode expr bound s) := by
  unfold objectBody
  dsimp only
  split
  · rename_i t ht
    exact .ok (h.skipBlanks.eat ht)
  · exact .map (separated_accounted h.skipBlanks
      (fun t ht => objectField_accounted mode hexpr ht) _ _ bound) fun _ _ ht => ht

theorem arrayBody_accounted : Accounted cs (arrayBody expr bound s) := by
  unfold arrayBody
  dsimp only
  split
  · rename_i t ht
    exact .ok (h.skipBlanks.eat ht)
  · exact .map (separated_accounted h.skipBlanks hexpr _ _ bound) fun _ _ ht => ht

omit hexpr in
theorem placeholderName_accounted : Accounted cs (placeholderName s) := by
  unfold placeholderName
  dsimp only
  split
  · exact .fail h _
  · exact .ok (h.skip _)

theorem operand_accounted : Accounted cs (operand mode expr bound s) := by
  have hs := h.skipBlanks
  have hnext := hs.skip 1
  unfold operand
  dsimp only
  split
  · rename_i value t ht
    exact .ok (in_keywordLiteral hs ht)
  · split
    · exact .ok (in_numeral hs false)
    · split
      · exact .bind (hexpr _ hnext) fun inner t ht => Accounted.expect ht fun u hu => .ok hu
      · exact arrayBody_accounted bound hexpr hnext
      · exact objectBody_accounted mode bound hexpr hnext
      · exact .map (quoted_direct hs).accounted fun _ _ ht => ht
      · exact .map (quoted_direct hs).accounted fun _ _ ht => ht
      · exact .ok hnext
      · exact placeholderName_accounted hnext
      · split
        · exact .fail hs _
        · exact fieldFrom_accounted hnext bound none
      · exact .bind (identifier_direct hs).accounted fun first t ht =>
          identifierTail_accounted mode bound hexpr ht first
      · split
        · split
          · exact castOf_accounted hexpr hs
          · exact .bind (bareIdentifier_direct hs).accounted fun first t ht =>
              identifierTail_accounted mode bound hexpr ht first
        · exact .fail hs _
      · exact .fail hs _

end

/-! ## The ladder -/

theorem in_operatorsAt {cs : List Char} {s t : Source} (h : s.In cs) (i : Nat) {name : String}
    (ht : operatorsAt i s = some (name, t)) : t.In cs := by
  have spelled (p : Spelling) {u : Source} (hu : p.eat s = some u) : u.In cs := by
    cases p with
    | text chars => exact h.eatText hu
    | op chars notBefore => exact h.eatOp hu
    | word chars => exact h.eatKeyword hu
  rw [operatorsAt_eq] at ht
  unfold operatorsOf at ht
  generalize spellingsAt i = spellings at ht
  induction spellings with
  | nil => cases ht
  | cons x rest ih =>
    rw [List.map_cons, firstOf_cons] at ht
    cases hx : x.2.eat s with
    | none =>
      rw [hx] at ht
      exact ih ht
    | some u =>
      rw [hx] at ht
      cases ht
      exact spelled x.2 hx

section
variable {cs : List Char} {operand : Source → Except SyntaxError (Expr × Source)}
  (hoperand : ∀ t : Source, t.In cs → Accounted cs (operand t))
include hoperand

theorem chain_accounted (i bound : Nat) (lhs : Expr) {s : Source} (h : s.In cs) :
    Accounted cs (chain (operatorsAt i) operand bound lhs s) := by
  induction bound generalizing lhs s with
  | zero => exact .ok h.skipBlanks
  | succ bound ih =>
    unfold chain
    split
    · exact .ok h.skipBlanks
    · rename_i name t ht
      exact .bind (hoperand t (in_operatorsAt h.skipBlanks i ht)) fun rhs u hu => ih _ hu

theorem intervalChain_accounted (count : Nat) (lhs : Expr) {s : Source} (h : s.In cs) :
    Accounted cs (intervalChain operand count lhs s) := by
  induction count generalizing lhs s with
  | zero => exact .ok h.skipBlanks
  | succ count ih =>
    unfold intervalChain
    dsimp only
    split
    · exact .ok h.skipBlanks
    · split
      · exact .ok h
      · rename_i t ht
        have ht : t.In cs := (h.skipBlanks.skip 1).skipBlanks.eatKeyword ht
        exact .bind (hoperand t ht) fun amount u hu =>
          .bind (intervalUnit_direct hu).accounted fun unit v hv => ih _ hv

end

section
variable {cs : List Char} (mode : Mode) {expr : Source → Except SyntaxError (Expr × Source)}
  (bound : Nat) (hexpr : ∀ t : Source, t.In cs → Accounted cs (expr t))

theorem reservedOperand_accounted {s : Source} (h : s.In cs) :
    Accounted cs (reservedOperand mode s) := by
  cases mode <;> exact .ok (h.skip _)

include hexpr

theorem unaryLevel_accounted (count : Nat) {s : Source} (h : s.In cs) :
    Accounted cs (unaryLevel mode expr bound count s) := by
  induction count generalizing s with
  | zero => exact .fail h.skipBlanks _
  | succ count ih =>
    have hs := h.skipBlanks
    have applied (name : String) {t : Source} (ht : t.In cs) :
        Accounted cs (unaryLevel mode expr bound count t >>= fun x =>
          .ok (Expr.unary name x.1, x.2)) :=
      .bind (ih ht) fun arg u hu => .ok hu
    have negation (doubled : Bool) {t : Source} (ht : t.In cs) :
        Accounted cs (if doubled then reservedOperand mode s.skipBlanks
          else if t.atNegatable then s.skipBlanks.fail .missingLeftOperand
          else unaryLevel mode expr bound count t >>= fun x =>
            .ok (Expr.unary "not" x.1, x.2)) := by
      split
      · exact reservedOperand_accounted mode hs
      · split
        · exact .fail hs _
        · exact applied "not" ht
    unfold unaryLevel
    dsimp only
    split
    · rename_i t ht
      exact applied _ (hs.eatOp ht)
    · split
      · rename_i t ht
        exact applied _ (hs.eat ht)
      · split
        · rename_i t ht
          exact applied _ (hs.eat ht)
        · split
          · rename_i t ht
            have ht := (hs.eatOp ht).skipBlanks
            split
            · exact .ok (in_numeral ht true)
            · exact applied _ ht
          · split
            · rename_i t ht
              exact negation _ (hs.eatKeyword ht).skipBlanks
            · exact operand_accounted mode bound hexpr hs

theorem intervalLevel_accounted {s : Source} (h : s.In cs) :
    Accounted cs (intervalLevel mode expr bound s) :=
  have hunary (t : Source) (ht : t.In cs) : Accounted cs (unaryLevel mode expr bound bound t) :=
    unaryLevel_accounted mode bound hexpr bound ht
  .bind (hunary s h) fun lhs _ ht => intervalChain_accounted hunary bound lhs ht

/-- The levels below the predicates. -/
theorem rung_accounted_of_three_le {i : Nat} (h3 : 3 ≤ i) (h8 : i ≤ 8) {s : Source} (h : s.In cs) :
    Accounted cs (rung mode expr bound i s) := by
  induction h8 using Nat.decreasingInduction generalizing s with
  | self => exact intervalLevel_accounted mode bound hexpr h
  | of_succ j hj ih =>
    rw [rung_eq_binaryLevel mode expr bound ⟨hj, by omega⟩]
    have hbelow (t : Source) (ht : t.In cs) : Accounted cs (rung mode expr bound (j + 1) t) :=
      ih (Nat.le_succ_of_le h3) ht
    exact .bind (hbelow s h) fun lhs t ht => chain_accounted hbelow j bound lhs ht

theorem comparisonLevel_accounted {s : Source} (h : s.In cs) :
    Accounted cs (comparisonLevel mode expr bound s) :=
  rung_accounted_of_three_le mode bound hexpr (le_refl 3) (Nat.le_add_left 3 5) h

theorem parenthesizedList_accounted {s : Source} (h : s.In cs) :
    Accounted cs (parenthesizedList expr bound s) := by
  unfold parenthesizedList
  refine .bind (separated_accounted h hexpr ')' _ bound) fun items t ht => ?_
  dsimp only
  split
  · exact .ok ht
  · exact .ok ht

omit hexpr in
theorem isPredicate_accounted (lhs : Expr) {s : Source} (h : s.In cs) :
    Accounted cs (isPredicate lhs s) := by
  have hs := h.skipBlanks
  unfold isPredicate
  dsimp only
  cases hnot : s.skipBlanks.eatKeyword "not" with
  | some t =>
    have ht := (hs.eatKeyword hnot).skipBlanks
    dsimp only
    split
    · rename_i value u hu
      exact .ok (in_keywordLiteral ht hu)
    · exact .fail ht _
  | none =>
    dsimp only
    split
    · rename_i value u hu
      exact .ok (in_keywordLiteral hs hu)
    · exact .fail hs _

theorem negatablePredicate_accounted (negated : Bool) (lhs : Expr) {s : Source} (h : s.In cs) :
    Accounted cs (negatablePredicate mode expr bound negated lhs s) := by
  have comparison (t : Source) (ht : t.In cs) := comparisonLevel_accounted mode bound hexpr ht
  have withOperand (name : String) {t : Source} (ht : t.In cs) :
      Accounted cs (comparisonLevel mode expr bound t >>= fun x =>
        .ok (Expr.op name [lhs, x.1], x.2)) :=
    .bind (comparison t ht) fun rhs u hu => .ok hu
  unfold negatablePredicate
  dsimp only
  split
  · rename_i t ht
    have ht := h.eatKeyword ht
    split
    · exact withOperand _ ht.skipBlanks
    · rename_i u hu
      refine .bind (parenthesizedList_accounted bound hexpr (ht.skipBlanks.eat hu))
        fun items? v hv => ?_
      cases items? with
      | none => exact withOperand _ ht.skipBlanks
      | some items => exact .ok hv
  · split
    · rename_i t ht
      refine .bind (comparison t (h.eatKeyword ht)) fun pattern u hu => ?_
      dsimp only
      split
      · exact .ok hu.skipBlanks
      · rename_i v hv
        exact .bind (comparison v (hu.skipBlanks.eatKeyword hv)) fun escape w hw => .ok hw
    · split
      · rename_i t ht
        exact withOperand _ (h.eatKeyword ht)
      · split
        · rename_i t ht
          refine .bind (comparison t (h.eatKeyword ht)) fun low u hu => ?_
          dsimp only
          split
          · exact Accounted.fail hu.skipBlanks _
          · rename_i v hv
            exact .bind (comparison v (hu.skipBlanks.eatKeyword hv)) fun high w hw => .ok hw
        · split
          · rename_i t ht
            exact withOperand _ (h.eatKeyword ht)
          · exact .ok h

theorem predicateLevel_accounted {s : Source} (h : s.In cs) :
    Accounted cs (predicateLevel mode expr bound s) := by
  unfold predicateLevel
  refine .bind (comparisonLevel_accounted mode bound hexpr h) fun lhs t ht => ?_
  have ht := ht.skipBlanks
  dsimp only
  split
  · rename_i u hu
    exact isPredicate_accounted lhs (ht.eatKeyword hu)
  · split
    · exact negatablePredicate_accounted mode bound hexpr false lhs ht
    · rename_i u hu
      split
      · exact negatablePredicate_accounted mode bound hexpr true lhs (ht.eatKeyword hu).skipBlanks
      · exact .ok ht

theorem orLevel_accounted {s : Source} (h : s.In cs) :
    Accounted cs (orLevel mode expr bound s) := by
  have hand (t : Source) (ht : t.In cs) : Accounted cs (andLevel mode expr bound t) :=
    .bind (predicateLevel_accounted mode bound hexpr ht) fun lhs _ hu =>
      chain_accounted (fun _ => predicateLevel_accounted mode bound hexpr) 1 bound lhs hu
  exact .bind (hand s h) fun lhs _ ht => chain_accounted hand 0 bound lhs ht

end

/-! ## Compiling -/

section
variable {cs : List Char} (mode : Mode) (bound : Nat) {s : Source} (h : s.In cs)
include h

theorem exprWithin_accounted : Accounted cs (exprWithin mode bound s) := by
  induction bound generalizing s with
  | zero => exact .fail h.skipBlanks _
  | succ bound ih =>
    rw [exprWithin_succ]
    exact orLevel_accounted mode (bound + 1) (fun _ => ih) h

theorem sorting_accounted : Accounted cs (sorting mode bound s) := by
  unfold sorting
  refine .bind (exprWithin_accounted mode bound h) fun e t ht => ?_
  have ht := ht.skipBlanks
  dsimp only
  split
  · rename_i u hu
    exact .ok (ht.eatKeyword hu)
  · cases hasc : t.skipBlanks.eatKeyword "asc" with
    | none => exact .ok ht
    | some u => exact .ok (ht.eatKeyword hasc)

theorem projection_accounted : Accounted cs (projection mode bound s) := by
  unfold projection
  refine .bind (exprWithin_accounted mode bound h) fun e t ht => ?_
  have ht := ht.skipBlanks
  dsimp only
  split
  · exact .ok ht
  · rename_i u hu
    exact .bind (identifier_direct (ht.eatKeyword hu).skipBlanks).accounted fun name v hv => .ok hv

theorem functionCall_accounted : Accounted cs (functionCall mode bound s) := by
  have hexpr (t : Source) (ht : t.In cs) := exprWithin_accounted mode bound ht
  unfold functionCall
  refine .bind (identifier_direct h.skipBlanks).accounted fun first t ht => ?_
  dsimp only
  split
  · exact callOf_accounted bound hexpr ht none first
  · rename_i u hu
    exact .bind (identifier_direct (ht.eat hu)).accounted fun second v hv =>
      callOf_accounted bound hexpr hv (some first) second

theorem placeholder_accounted : Accounted cs (placeholder mode bound s) := by
  unfold placeholder
  dsimp only
  split
  · exact operand_accounted mode bound (fun _ => exprWithin_accounted mode bound) h.skipBlanks
  · exact .fail h.skipBlanks _

theorem documentField_accounted : Accounted cs (documentField mode bound s) := by
  unfold documentField
  cases mode with
  | table => exact .fail h _
  | document =>
    dsimp only
    split
    · rename_i t ht
      exact fieldFrom_accounted (h.skipBlanks.eat ht) bound none
    · exact .bind (bareIdentifier_direct h.skipBlanks).accounted fun first t ht =>
        fieldFrom_accounted ht bound (some (.member first))

/-- Whatever a production complains about, the complaint cuts the text or is about a path in
quotes. -/
theorem production_accounted (entry : Entry) : Accounted cs (production mode bound entry s) := by
  have hexpr (t : Source) (ht : t.In cs) := exprWithin_accounted mode bound ht
  cases entry with
  | expr => exact .map (hexpr s h) fun _ _ ht => ht
  | literal => exact .map (literal_direct h).accounted fun _ _ ht => ht
  | functionCall => exact .map (functionCall_accounted mode bound h) fun _ _ ht => ht
  | placeholder => exact .map (placeholder_accounted mode bound h) fun _ _ ht => ht
  | documentField => exact .map (documentField_accounted mode bound h) fun _ _ ht => ht
  | columnIdent =>
    have hcolumn : Accounted cs (columnIdent s) :=
      .bind (identifier_direct h.skipBlanks).accounted fun first _ ht =>
        columnFrom_accounted ht first
    exact .map hcolumn fun _ _ ht => ht
  | jsonDoc =>
    have hobject : Accounted cs (jsonDoc mode bound s) :=
      .expect h fun t ht => objectBody_accounted mode bound hexpr ht
    exact .map hobject fun _ _ ht => ht
  | jsonArray =>
    have harray : Accounted cs (jsonArray mode bound s) :=
      .expect h fun t ht => arrayBody_accounted bound hexpr ht
    exact .map harray fun _ _ ht => ht
  | castType => exact .map (castType_direct h).accounted fun _ _ ht => ht
  | sortExpr => exact .map (sorting_accounted mode bound h) fun _ _ ht => ht
  | projectedSearchExpr => exact .map (projection_accounted mode bound h) fun _ _ ht => ht

end

/-- The complaint of a text cuts it or is about a path in quotes. -/
theorem compile_accounted {text : String} {mode : Mode} {entry : Entry} {e : SyntaxError}
    (h : compile text mode entry = .error e) :
    CutsAt text.toList e.position ∨ ∃ p : QuotedPath text.toList, p.Blames e := by
  have hread := production_accounted mode text.toList.length (Source.In.ofList text.toList) entry
  unfold compile at h
  dsimp only at h
  rw [show (Source.ofList text.toList).rest.length = text.toList.length from rfl] at h
  cases hp : production mode text.toList.length entry (.ofList text.toList) with
  | error e' =>
    rw [hp] at h hread
    cases h
    exact hread
  | ok x =>
    rw [hp] at h hread
    change (if x.2.skipBlanks.rest.isEmpty then Except.ok x.1 else _) = _ at h
    split at h
    · cases h
    · cases h
      exact .inl (show x.2.In text.toList from hread).skipBlanks.cutsAt

/-- The complaint of a text lies within the text. -/
theorem position_le_of_compile {text : String} {mode : Mode} {entry : Entry} {e : SyntaxError}
    (h : compile text mode entry = .error e) : e.position ≤ text.utf8ByteSize := by
  have hsize : byteLength text.toList = text.utf8ByteSize := by
    rw [byteLength_eq, String.ofList_toList]
  rw [← hsize]
  rcases compile_accounted h with hcut | ⟨p, hp⟩
  · exact hcut.le
  · exact hp.position_le

/-- The position of the complaint of a text, if it has one, lies within the text and on the boundary
of a character. -/
def PositionUsable (text : String) (mode : Mode) (entry : Entry) : Prop :=
  ∀ e, compile text mode entry = .error e →
    e.position ≤ text.utf8ByteSize ∧ (⟨e.position⟩ : String.Pos.Raw).IsValid text

section
variable {text : String} {mode : Mode} {entry : Entry}

theorem positionUsable_of_blames
    (h : ∀ (e : SyntaxError) (p : QuotedPath text.toList), compile text mode entry = .error e →
      p.Blames e → CutsAt text.toList e.position) : PositionUsable text mode entry := by
  refine fun e he => ⟨position_le_of_compile he, isValid_iff_cutsAt.mpr ?_⟩
  rcases compile_accounted he with hcut | ⟨p, hp⟩
  · exact hcut
  · exact h e p he hp

/-- The position can be used where every path behind an arrow is read as it stands. -/
theorem positionUsable_of_verbatim (h : ∀ p : QuotedPath text.toList, p.Verbatim) :
    PositionUsable text mode entry :=
  positionUsable_of_blames fun _ p _ hp => hp.cutsAt_of_verbatim (h p)

end

/-- **Where the position of a complaint can be used.**  It always lies within the text.  It lies on
the boundary of a character exactly where no path behind an arrow is blamed at an offset at which
what stands between its quotes cannot be cut. -/
theorem positionUsable_iff (text : String) (mode : Mode) (entry : Entry) :
    (∀ e, compile text mode entry = .error e → e.position ≤ text.utf8ByteSize) ∧
      (PositionUsable text mode entry ↔ ∀ (e : SyntaxError) (p : QuotedPath text.toList),
        compile text mode entry = .error e → p.Blames e →
          CutsAt p.body (e.position - p.start)) := by
  refine ⟨fun _ => position_le_of_compile, fun h e p he hp => ?_, fun h => ?_⟩
  · exact hp.cutsAt_iff.mp (isValid_iff_cutsAt.mp (h e he).2)
  · exact positionUsable_of_blames fun e p he hp => hp.cutsAt_iff.mpr (h e p he hp)

set_option maxRecDepth 2000 in
/-- Two doubled quotes in front of a complaint move it two bytes back, into a character. -/
theorem not_positionUsable_doubled :
    compile "c->'$.''a''.日!'" .table .expr = .error ⟨13, .unexpectedPathInput, some '!'⟩ ∧
      ¬ PositionUsable "c->'$.''a''.日!'" .table .expr := by
  have hcompile : compile "c->'$.''a''.日!'" .table .expr
      = .error ⟨13, .unexpectedPathInput, some '!'⟩ := rfl
  have hinvalid : ¬ (⟨13⟩ : String.Pos.Raw).IsValid "c->'$.''a''.日!'" := by decide
  exact ⟨hcompile, fun h => hinvalid (h _ hcompile).2⟩

end DocWire
