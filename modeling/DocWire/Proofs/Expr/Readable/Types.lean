import DocWire.Proofs.Expr.Readable.Basic

/-!
# Reading intervals and casts

* `isUpperWord`            words in upper case, such as units of intervals and names of types;
* `IntervalUnit.reads`     the unit of an interval;
* `intervalChain_word`     an interval is recognized by its sign and keyword;
* `CastType.reads`         the type of a cast;
* `Piece.Readable.interval`, `Piece.Readable.cast`   intervals and casts.
-/

namespace DocWire

/-! ## Words in upper case -/

/-- whether a text is a word in upper case -/
def isUpperWord (name : String) : Bool :=
  name.toList.head?.any isWordStart && name.toList.all isWordChar
    && String.ofList (name.toList.map Char.toUpper) == name

/-- A word in upper case is found where a source stands at it, and stays what it is. -/
theorem word?_of_isUpperWord {name : String} (hname : isUpperWord name = true) {T : List Char}
    (hT : EndsWord T) {s : Source} {m : Nat} (hs : s.At (name.toList ++ T) m) :
    ∃ pos, s.skipBlanks = ⟨name.toList ++ T, pos, m⟩ ∧ s.skipBlanks.word? = some name.toList ∧
      String.ofList (name.toList.map Char.toUpper) = name := by
  unfold isUpperWord at hname
  simp only [Bool.and_eq_true] at hname
  obtain ⟨⟨hstart, hchars⟩, hupper⟩ := hname
  obtain ⟨w, hw⟩ := exists_word hstart hchars
  rw [← hw] at hs
  obtain ⟨pos, hpos⟩ := hs.solid (isBlank_of_isWordStart w.starts)
  refine ⟨pos, hw ▸ hpos, ?_, eq_of_beq hupper⟩
  rw [hpos, ← hw]
  exact w.word?_append hT pos m

/-! ## Intervals -/

theorem isUpperWord_intervalUnits : ∀ unit ∈ intervalUnits, isUpperWord unit = true := by
  decide

theorem IntervalUnit.reads (unit : IntervalUnit) {T : List Char} (hT : EndsWord T) :
    Reads intervalUnit unit.name.toList 0 (fun _ => unit.name) T := by
  intro s m hs
  obtain ⟨pos, hskip, hword, hupper⟩ :=
    word?_of_isUpperWord (isUpperWord_intervalUnits _ unit.known) hT hs
  refine ⟨_, ?_, .refl T (pos + byteLength unit.name.toList) m⟩
  unfold intervalUnit
  dsimp only
  rw [hword, hskip]
  dsimp only
  rw [hupper, if_pos (List.contains_iff_mem.mpr unit.known), Source.skip_append]

/-- A chain of intervals goes on where a sign and the keyword follow. -/
theorem intervalChain_word (unary : Source → Except SyntaxError (Expr × Source))
    (subtracted : Bool) {s : Source} {m : Nat} {U : List Char}
    (hs : s.At (' ' :: (if subtracted then '-' else '+') :: ' ' :: ("INTERVAL".toList ++ ' ' :: U)) m)
    (count : Nat) (lhs : Expr) :
    ∃ pos, intervalChain unary (count + 1) lhs s
      = (unary ⟨' ' :: U, pos, m⟩ >>= fun (amount, t) => intervalUnit t >>= fun (unit, t) =>
        intervalChain unary count (.op (if subtracted then "date_sub" else "date_add")
          [lhs, amount, .literal (.bytes (Text.Utf8.encode unit))]) t) := by
  obtain ⟨pos, hpos⟩ := hs.skipBlanks_eq
  refine ⟨pos + 10, ?_⟩
  conv_lhs => unfold intervalChain
  rw [hpos]
  cases subtracted <;> rfl

theorem wordLiteral_toList (word : String) :
    wordLiteral word.toList = .literal (.bytes (Text.Utf8.encode word)) := by
  unfold wordLiteral
  rw [String.ofList_toList]

section
variable {b : Nat} {d a : Piece Expr}

theorem Piece.Readable.interval (subtracted : Bool) (unit : IntervalUnit) (hd : d.Readable b)
    (ha : a.Readable b) :
    ((Piece.pair (if subtracted then " - INTERVAL ".toList else " + INTERVAL ".toList)
      (fun d a => .op (if subtracted then "date_sub" else "date_add")
        [d, a, wordLiteral unit.name.toList])
      d.paren a.paren).within [] (' ' :: unit.name.toList) id).Readable (b + 1) := by
  refine readable_of_rung (Nat.le_refl 8) fun T hT s m hs => ?_
  have htext : ((Piece.pair (if subtracted then " - INTERVAL ".toList else " + INTERVAL ".toList)
      (fun d a => Expr.op (if subtracted then "date_sub" else "date_add")
        [d, a, wordLiteral unit.name.toList])
      d.paren a.paren).within [] (' ' :: unit.name.toList) id).chars ++ T
      = d.paren.chars ++ ' ' :: (if subtracted then '-' else '+') :: ' ' :: ("INTERVAL".toList ++
        ' ' :: (a.paren.chars ++ ' ' :: (unit.name.toList ++ T))) := by
    cases subtracted <;> simp [within, pair]
  obtain ⟨t, ht, hat⟩ := hd.paren _ (b + 1) b s m (htext ▸ hs)
  obtain ⟨pos, hchain⟩ := intervalChain_word (unaryLevel .document (exprWithin .document b) (b + 1)
    (b + 1)) subtracted hat b (d.value m)
  obtain ⟨u, hu, hatu⟩ := ha.paren (' ' :: (unit.name.toList ++ T)) (b + 1) b
    ⟨' ' :: (a.paren.chars ++ ' ' :: (unit.name.toList ++ T)), pos, m + d.marks⟩ (m + d.marks)
    (.blank _ _ _)
  obtain ⟨v, hv, hatv⟩ := unit.reads hT.endsWord u _ ((Source.At.blank_iff rfl).mp hatu)
  obtain ⟨w, hw, hatw⟩ := intervalChain_of_silent (unaryLevel .document (exprWithin .document b)
    (b + 1) (b + 1)) (hT.silent (Nat.le_refl 8)) hatv b
    (.op (if subtracted then "date_sub" else "date_add")
      [d.value m, a.value (m + d.marks), wordLiteral unit.name.toList])
  refine ⟨w, ?_, Nat.add_assoc m d.marks a.marks ▸ hatw⟩
  show intervalLevel .document (exprWithin .document b) (b + 1) s = _
  unfold intervalLevel
  dsimp only
  rw [ht]
  show intervalChain _ (b + 1) (d.value m) t = _
  rw [hchain, hu]
  show (intervalUnit u >>= _) = _
  rw [hv]
  show intervalChain _ b (.op _ [_, _, .literal (.bytes (Text.Utf8.encode unit.name))]) v = _
  rw [← wordLiteral_toList]
  exact hw

end

/-! ## Casts -/

/-- The parameters of a type are read up to the parenthesis. -/
theorem typeParameters_append {ds : List DigitRun} (hds : ds ≠ []) {count : Nat}
    (hcount : ds.length ≤ count) (U : List Char) (pos m : Nat) :
    ∃ pos', typeParameters count ⟨[','].intercalate (ds.map DigitRun.chars) ++ ')' :: U, pos, m⟩
      = .ok (ds.map DigitRun.chars, ⟨U, pos', m⟩) := by
  induction ds generalizing count pos with
  | nil => exact absurd rfl hds
  | cons d rest ih =>
    obtain ⟨count, rfl⟩ := Nat.exists_eq_succ_of_ne_zero (Nat.ne_of_gt
      (Nat.lt_of_lt_of_le (Nat.succ_pos rest.length) hcount))
    cases rest with
    | nil =>
      refine ⟨pos + byteLength d.chars + 1, ?_⟩
      show typeParameters (count + 1) ⟨[','].intercalate [d.chars] ++ ')' :: U, pos, m⟩ = _
      unfold typeParameters
      rw [List.intercalate_singleton, d.skipBlanks_append]
      dsimp only
      rw [d.takeWhile_append rfl, d.isEmpty_chars, Source.skip_append]
      rfl
    | cons e rest =>
      have htext : [','].intercalate ((d :: e :: rest).map DigitRun.chars) ++ ')' :: U
          = d.chars ++ ',' :: ([','].intercalate ((e :: rest).map DigitRun.chars) ++ ')' :: U) := by
        simp [List.intercalate_cons_cons]
      have hmore : (e :: rest).length ≤ count := Nat.le_of_succ_le_succ hcount
      obtain ⟨pos', hrest⟩ := ih (List.cons_ne_nil e rest) hmore (pos + byteLength d.chars + 1)
      have hpositive : count ≠ 0 := Nat.ne_of_gt
        (Nat.lt_of_lt_of_le (Nat.succ_pos rest.length) hmore)
      refine ⟨pos', ?_⟩
      rw [htext]
      conv_lhs => unfold typeParameters
      rw [d.skipBlanks_append]
      dsimp only
      rw [d.takeWhile_append rfl, d.isEmpty_chars, Source.skip_append, if_neg hpositive]
      show (typeParameters count ⟨[','].intercalate ((e :: rest).map DigitRun.chars) ++ ')' :: U,
        pos + byteLength d.chars + 1, m⟩).map _ = _
      rw [hrest]
      rfl

section
variable (name : String) {s : Source} {m : Nat} {T : List Char}

theorem castType_integer (hname : name ∈ ["SIGNED", "UNSIGNED"]) (integer : Bool) {U : List Char}
    (hs : s.At (name.toList ++ (if integer then " INTEGER".toList else []) ++ ')' :: U) m) :
    ∃ pos, castType s
      = .ok (String.ofList (name.toList ++ if integer then " INTEGER".toList else []),
        ⟨')' :: U, pos, m⟩) := by
  simp only [List.mem_cons, List.not_mem_nil, or_false] at hname
  rw [List.append_assoc] at hs
  obtain ⟨pos, hskip, hword, hupper⟩ := word?_of_isUpperWord (by
    rcases hname with rfl | rfl <;> decide) (by
    cases integer <;> exact endsWord_cons rfl _) hs
  refine ⟨pos + byteLength name.toList + if integer then 8 else 0, ?_⟩
  unfold castType
  dsimp only
  rw [hword, hskip]
  dsimp only
  rw [hupper, Source.skip_append]
  cases integer <;> rcases hname with rfl | rfl <;> rfl

theorem castType_parameterized (count : Nat)
    (hname : (name, count) ∈ [("CHAR", 1), ("BINARY", 1), ("DECIMAL", 2)]) (hT : EndsWord T)
    (hs : s.At (name.toList ++ T) m) :
    ∃ pos, castType s = parameterizedType name count ⟨T, pos, m⟩ := by
  simp only [List.mem_cons, List.not_mem_nil, or_false, Prod.mk.injEq] at hname
  obtain ⟨pos, hskip, hword, hupper⟩ := word?_of_isUpperWord (by
    rcases hname with ⟨rfl, -⟩ | ⟨rfl, -⟩ | ⟨rfl, -⟩ <;> decide) hT hs
  refine ⟨pos + byteLength name.toList, ?_⟩
  unfold castType
  dsimp only
  rw [hword, hskip]
  dsimp only
  rw [hupper, Source.skip_append]
  rcases hname with ⟨rfl, rfl⟩ | ⟨rfl, rfl⟩ | ⟨rfl, rfl⟩ <;> rfl

theorem castType_plain (hname : name ∈ ["TIME", "DATETIME", "DATE", "JSON"]) (hT : EndsWord T)
    (hs : s.At (name.toList ++ T) m) : ∃ pos, castType s = .ok (name, ⟨T, pos, m⟩) := by
  simp only [List.mem_cons, List.not_mem_nil, or_false] at hname
  obtain ⟨pos, hskip, hword, hupper⟩ := word?_of_isUpperWord (by
    rcases hname with rfl | rfl | rfl | rfl <;> decide) hT hs
  refine ⟨pos + byteLength name.toList, ?_⟩
  unfold castType
  dsimp only
  rw [hword, hskip]
  dsimp only
  rw [hupper, Source.skip_append]
  rcases hname with rfl | rfl | rfl | rfl <;> rfl

end

/-- A type with parameters is read up to its parenthesis. -/
theorem castType_parameters (name : String) (count : Nat)
    (hname : (name, count) ∈ [("CHAR", 1), ("BINARY", 1), ("DECIMAL", 2)]) (ds : List DigitRun)
    (hds : ds ≠ []) (hcount : ds.length ≤ count) {cs : List Char}
    (hcs : cs = name.toList ++ '(' :: ([','].intercalate (ds.map DigitRun.chars) ++ [')']))
    {s : Source} {m : Nat} {U : List Char} (hs : s.At (cs ++ U) m) :
    ∃ pos, castType s = .ok (String.ofList cs, ⟨U, pos, m⟩) := by
  have htext : cs ++ U
      = name.toList ++ '(' :: ([','].intercalate (ds.map DigitRun.chars) ++ ')' :: U) := by
    rw [hcs]
    simp
  have hvalue : name ++ "(" ++ String.ofList ([','].intercalate (ds.map DigitRun.chars)) ++ ")"
      = String.ofList cs := by
    rw [hcs]
    exact String.toList_injective (by simp)
  obtain ⟨pos, htype⟩ := castType_parameterized name count hname (endsWord_cons rfl _) (htext ▸ hs)
  obtain ⟨pos', hparameters⟩ := typeParameters_append hds hcount U (pos + 1) m
  refine ⟨pos', ?_⟩
  rw [htype]
  show (typeParameters count
    ⟨[','].intercalate (ds.map DigitRun.chars) ++ ')' :: U, pos + 1, m⟩).map _ = _
  rw [hparameters, ← hvalue]
  rfl

/-- A type with a length, if one is given, is read up to the parenthesis. -/
theorem castType_length (name : String) (hname : name ∈ ["CHAR", "BINARY"])
    (length : Option DigitRun) {cs : List Char}
    (hcs : cs = name.toList ++ (length.map fun d => '(' :: (d.chars ++ [')'])).getD [])
    {s : Source} {m : Nat} {U : List Char} (hs : s.At (cs ++ ')' :: U) m) :
    ∃ pos, castType s = .ok (String.ofList cs, ⟨')' :: U, pos, m⟩) := by
  have hcount : (name, 1) ∈ [("CHAR", 1), ("BINARY", 1), ("DECIMAL", 2)] := by
    simp only [List.mem_cons, List.not_mem_nil, or_false] at hname
    rcases hname with rfl | rfl <;> decide
  cases length with
  | none =>
    obtain rfl : cs = name.toList := hcs.trans (List.append_nil _)
    obtain ⟨pos, htype⟩ := castType_parameterized name 1 hcount (endsWord_cons rfl U) hs
    refine ⟨pos, htype.trans ?_⟩
    rw [String.ofList_toList]
    rfl
  | some d =>
    refine castType_parameters name 1 hcount [d] (List.cons_ne_nil d []) (Nat.le_refl 1) ?_ hs
    rw [List.map_singleton, List.intercalate_singleton]
    exact hcs

/-- The type of a cast is read up to the parenthesis. -/
theorem CastType.reads (type : CastType) (U : List Char) :
    Reads castType type.chars 0 (fun _ => String.ofList type.chars) (')' :: U) := by
  intro s m hs
  have hclose : EndsWord (')' :: U) := endsWord_cons rfl U
  suffices h : ∃ pos, castType s = .ok (String.ofList type.chars, ⟨')' :: U, pos, m⟩) by
    obtain ⟨pos, hpos⟩ := h
    exact ⟨_, hpos, .refl _ pos m⟩
  cases type with
  | signed integer => exact castType_integer "SIGNED" (by decide) integer hs
  | unsigned integer => exact castType_integer "UNSIGNED" (by decide) integer hs
  | char length => exact castType_length "CHAR" (by decide) length rfl hs
  | binary length => exact castType_length "BINARY" (by decide) length rfl hs
  | decimal parameters =>
    match parameters with
    | none =>
      obtain ⟨pos, htype⟩ := castType_parameterized "DECIMAL" 2 (by decide) hclose hs
      exact ⟨pos, htype⟩
    | some (d, none) =>
      refine castType_parameters "DECIMAL" 2 (by decide) [d]
        (List.cons_ne_nil d []) (Nat.le_succ 1) ?_ hs
      rw [List.map_singleton, List.intercalate_singleton]
      show "DECIMAL".toList ++ '(' :: (d.chars ++ [] ++ [')']) = _
      rw [List.append_nil]
    | some (d, some e) =>
      refine castType_parameters "DECIMAL" 2 (by decide) [d, e]
        (List.cons_ne_nil d [e]) (Nat.le_refl 2) ?_ hs
      show "DECIMAL".toList ++ '(' :: (d.chars ++ ',' :: e.chars ++ [')']) = _
      rw [List.map_cons, List.map_singleton, List.intercalate_cons_cons, List.intercalate_singleton]
      simp
  | time => exact castType_plain "TIME" (by decide) hclose hs
  | datetime => exact castType_plain "DATETIME" (by decide) hclose hs
  | date => exact castType_plain "DATE" (by decide) hclose hs
  | json => exact castType_plain "JSON" (by decide) hclose hs

/-- The word before the type of a cast means nothing to any rung. -/
theorem silent_as {i : Nat} (hi : i ≤ 8) (U : List Char) : Silent i (' ' :: ("AS".toList ++ ' ' :: U)) := by
  interval_cases i
  case «2» =>
    intro word hword pos m
    simp only [negatable, List.mem_cons, List.not_mem_nil, or_false] at hword
    rcases hword with rfl | rfl | rfl | rfl | rfl | rfl | rfl <;> rfl
  case «8» =>
    exact fun _ _ => .inl ⟨fun h => absurd (Option.some.inj h) (by decide),
      fun h => absurd (Option.some.inj h) (by decide)⟩
  all_goals exact fun _ _ => rfl

/-- A cast is recognized by its keyword with the parenthesis. -/
theorem operand_cast (mode : Mode) (expr : Source → Except SyntaxError (Expr × Source))
    (bound : Nat) (U : List Char) (pos m : Nat) :
    operand mode expr bound ⟨"CAST(".toList ++ U, pos, m⟩
      = (expr ⟨U, pos + 5, m⟩ >>= fun (value, s) =>
        match s.skipBlanks.eatKeyword "as" with
        | none => s.skipBlanks.fail (.expected "AS in CAST")
        | some s => castType s >>= fun (type, s) => s.expect ')' "')'" >>= fun s =>
          .ok (.op "cast" [value, .literal (.bytes (Text.Utf8.encode type))], s)) := by
  rfl

theorem Piece.Readable.cast {b : Nat} {p : Piece Expr} (h : p.Readable b) (type : CastType) :
    (p.paren.within "CAST(".toList (" AS ".toList ++ type.chars ++ [')']) fun e =>
      .op "cast" [e, wordLiteral type.chars]).Readable (b + 2) := by
  refine readable_of_unary fun T _ => ?_
  refine unaryLevel_reads (c := 'C') rfl (by decide) (fun pos m => rfl) fun pos m => ?_
  have htext : (p.paren.within "CAST(".toList (" AS ".toList ++ type.chars ++ [')']) fun e =>
      Expr.op "cast" [e, wordLiteral type.chars]).chars ++ T
      = "CAST(".toList ++ (p.paren.chars ++ ' ' :: ("AS".toList ++ ' ' ::
        (type.chars ++ ')' :: T))) := by
    simp [within]
  obtain ⟨t, ht, hat⟩ := h.paren_rung (Nat.zero_le 8) (fun i _ h8 => silent_as h8
    (type.chars ++ ')' :: T)) ⟨_, pos + 5, m⟩ m (.refl _ _ _)
  obtain ⟨pos', hpos⟩ := hat.skipBlanks_eq
  have hword : t.skipBlanks.eatKeyword "as"
      = some ⟨' ' :: (type.chars ++ ')' :: T), pos' + 2, m + p.marks⟩ := by
    rw [hpos]
    rfl
  obtain ⟨u, hu, hatu⟩ := type.reads T ⟨' ' :: (type.chars ++ ')' :: T), pos' + 2, m + p.marks⟩ _
    (.blank _ _ _)
  obtain ⟨pos'', hclose⟩ := expect_at hatu rfl "')'"
  refine ⟨_, ?_, .refl T pos'' _⟩
  have hoperand := operand_cast .document (exprWithin .document (b + 1)) (b + 2)
    (p.paren.chars ++ ' ' :: ("AS".toList ++ ' ' :: (type.chars ++ ')' :: T))) pos m
  rw [← htext, show exprWithin .document (b + 1) _ = _ from ht] at hoperand
  refine hoperand.trans ?_
  show (match t.skipBlanks.eatKeyword "as" with
    | none => _
    | some s => castType s >>= fun x => x.2.expect ')' "')'" >>= _) = _
  rw [hword]
  dsimp only
  rw [hu]
  show (u.expect ')' "')'" >>= _) = _
  rw [hclose]
  rfl

end DocWire
