import DocWire.Proofs.Expr.Rungs
import DocWire.Proofs.Expr.Tokens

/-!
# Numerals

A numeral is spelled with digits, a point with digits behind it or without, and an exponent.  The
scanner takes what is spelled like that and nothing else.

* `Numeral.Spelled`          how a numeral can be spelled;
* `Numeral.Spelled.read_append`   a numeral is found at the start of a text;
* `atNumeral_iff`            where a numeral is next, one stands that is spelled like that;
* `Numeral.Spelled.reads`    a numeral is an operand, and a minus before it is its sign.
-/

namespace DocWire

open Text

namespace Numeral

/-! ## Spelling -/

/-- An exponent: none, or its letter, a sign or none, and digits. -/
inductive IsExponent : List Char → Prop
  | none : IsExponent []
  | some (mark : Char) (sign : List Char) (d : DigitRun) (hmark : mark = 'e' ∨ mark = 'E')
    (hsign : sign ∈ [[], ['+'], ['-']]) : IsExponent (mark :: (sign ++ d.chars))

/-- How a numeral can be spelled. -/
structure Spelled (n : Numeral) : Prop where
  whole : ∀ c ∈ n.whole, isDigit c = true
  fraction : ∀ ds ∈ n.fraction, ∀ c ∈ ds, isDigit c = true
  exponent : IsExponent n.exponent
  /-- a digit stands before the point or right behind it -/
  digit : n.whole ≠ [] ∨ ∃ c ds, n.fraction = some (c :: ds)
  /-- a letter right behind the point begins a name -/
  bare : n.fraction = some [] → n.exponent = []

/-- the numeral as it is written, a minus sign before it or none -/
def written (n : Numeral) (negative : Bool) : List Char :=
  if negative then '-' :: n.text else n.text

theorem isAlphabetic_of_isDigit {c : Char} (h : isDigit c = true) : isAlphabetic c = false :=
  (Bool.or_eq_false_iff.mp (not_of_isDigit h).2).1

/-! ## Parts of a numeral -/

section
variable {cs T : List Char}

theorem fractionOf_of_not (h : ∀ c ∈ T.head?, c ≠ '.') : fractionOf T = none := by
  unfold fractionOf
  split
  · exact absurd rfl (h '.' rfl)
  · exact absurd rfl (h '.' rfl)
  · rfl

theorem fractionOf_point (hcs : ∀ c ∈ cs, isDigit c = true)
    (hT : ∀ c ∈ T.head?, isDigit c = false)
    (hname : cs = [] → ∀ c ∈ T.head?, isAlphabetic c = false) :
    fractionOf ('.' :: (cs ++ T)) = some cs := by
  have hrun := takeWhile_append_of_stop hcs hT
  cases h : cs ++ T with
  | nil =>
    rw [(List.append_eq_nil_iff.mp h).1]
    rfl
  | cons c rest =>
    have hletter : isAlphabetic c = false := by
      cases cs with
      | nil =>
        rw [List.nil_append] at h
        exact hname rfl c (by rw [h]; rfl)
      | cons d ds =>
        rw [List.cons_append] at h
        rw [← (List.cons.inj h).1]
        exact isAlphabetic_of_isDigit (hcs d List.mem_cons_self)
    rw [h] at hrun
    show (if isAlphabetic c then none else some ((c :: rest).takeWhile isDigit)) = _
    rw [hletter, hrun]
    rfl

theorem signOf_append {sign : List Char} (hsign : sign ∈ [[], ['+'], ['-']]) (d : DigitRun) :
    signOf (sign ++ (d.chars ++ T)) = sign := by
  simp only [List.mem_cons, List.not_mem_nil, or_false] at hsign
  rcases hsign with rfl | rfl | rfl
  · obtain ⟨c, cs, hd, hc⟩ := d.exists_cons
    rw [hd]
    unfold signOf
    split
    · rename_i h
      rw [(List.cons.inj h).1] at hc
      cases hc
    · rename_i h
      rw [(List.cons.inj h).1] at hc
      cases hc
    · rfl
  · rfl
  · rfl

theorem exponentOf_append (hcs : IsExponent cs) (hT : EndsNumeral T) :
    exponentOf (cs ++ T) = cs := by
  cases hcs with
  | none =>
    cases T with
    | nil => rfl
    | cons c rest => exact if_neg (not_or.mpr (hT c rfl).2.2)
  | some mark sign d hmark hsign =>
    have hdigits : (sign ++ (d.chars ++ T)).drop sign.length = d.chars ++ T := List.drop_left
    unfold exponentOf
    rw [List.cons_append, List.append_assoc]
    dsimp only
    rw [if_pos hmark, signOf_append hsign d, hdigits,
      takeWhile_append_of_stop d.digits fun c hc => (hT c hc).1, d.isEmpty_chars]
    rfl

theorem head_append_exponent (hcs : IsExponent cs) (hT : EndsNumeral T) :
    ∀ c ∈ (cs ++ T).head?, isDigit c = false ∧ c ≠ '.' := by
  intro c hc
  cases hcs with
  | none => exact ⟨(hT c hc).1, (hT c hc).2.1⟩
  | some mark sign d hmark hsign =>
    obtain rfl : mark = c := Option.some.inj hc
    rcases hmark with rfl | rfl <;> exact ⟨rfl, by decide⟩

end

/-! ## Reading a numeral -/

theorem text_append (n : Numeral) (T : List Char) :
    n.text ++ T = n.whole ++ (n.fractionText ++ (n.exponent ++ T)) := by
  simp [text]

theorem drop_fractionText (n : Numeral) (T : List Char) :
    (n.fractionText ++ T).drop ((n.fraction.map (·.length + 1)).getD 0) = T := by
  unfold fractionText
  cases n.fraction with
  | none => rfl
  | some ds => exact List.drop_left

namespace Spelled

variable {n : Numeral} (hn : n.Spelled) {T : List Char} (hT : EndsNumeral T)
  (hname : n.fraction = some [] → ∀ c ∈ T.head?, isAlphabetic c = false)
include hn hT hname

theorem fractionOf_append : fractionOf (n.fractionText ++ (n.exponent ++ T)) = n.fraction := by
  have hhead := head_append_exponent hn.exponent hT
  unfold fractionText
  cases hfraction : n.fraction with
  | none => exact fractionOf_of_not fun c hc => (hhead c hc).2
  | some ds =>
    refine fractionOf_point (hn.fraction ds hfraction) (fun c hc => (hhead c hc).1) ?_
    rintro rfl
    rw [hn.bare hfraction]
    exact hname hfraction

/-- A numeral is found where it is followed by something that does not continue it. -/
theorem read_append : read (n.text ++ T) = n := by
  have hhead : ∀ c ∈ (n.fractionText ++ (n.exponent ++ T)).head?, isDigit c = false := by
    unfold fractionText
    cases n.fraction with
    | none => exact fun c hc => (head_append_exponent hn.exponent hT c hc).1
    | some ds => exact fun c hc => Option.some.inj hc ▸ rfl
  unfold read
  simp only [n.text_append, takeWhile_append_of_stop hn.whole hhead, List.drop_left,
    hn.fractionOf_append hT hname, n.drop_fractionText, exponentOf_append hn.exponent hT]

theorem numeral_append (negative : Bool) (pos m : Nat) :
    ∃ pos', numeral negative ⟨n.text ++ T, pos, m⟩ = (n.scalar negative, ⟨T, pos', m⟩) := by
  refine ⟨pos + byteLength n.text, ?_⟩
  unfold numeral
  dsimp only
  rw [hn.read_append hT hname, Source.skip_append]

end Spelled

/-! ## What is read is a numeral -/

theorem exists_signOf (cs : List Char) :
    signOf cs ∈ [[], ['+'], ['-']] ∧ ∃ T, cs = signOf cs ++ T := by
  unfold signOf
  split <;> exact ⟨by decide, _, rfl⟩

theorem exists_exponentOf (cs : List Char) :
    IsExponent (exponentOf cs) ∧ ∃ T, cs = exponentOf cs ++ T := by
  cases cs with
  | nil => exact ⟨.none, [], rfl⟩
  | cons c rest =>
    obtain ⟨hsign, U, hU⟩ := exists_signOf rest
    have hrest : (signOf rest ++ U).drop (signOf rest).length = U := List.drop_left
    rw [← hU] at hrest
    have heq : exponentOf (c :: rest) = if c = 'e' ∨ c = 'E' then
        if (U.takeWhile isDigit).isEmpty then [] else c :: (signOf rest ++ U.takeWhile isDigit)
        else [] := by
      rw [← hrest]
      rfl
    by_cases hmark : c = 'e' ∨ c = 'E'
    · rw [if_pos hmark] at heq
      by_cases hdigits : U.takeWhile isDigit = []
      · rw [heq, hdigits]
        exact ⟨.none, _, rfl⟩
      · rw [heq, if_neg (mt List.isEmpty_iff.mp hdigits)]
        refine ⟨.some c (signOf rest) ⟨_, hdigits, fun d => List.mem_takeWhile_imp⟩ hmark hsign,
          U.dropWhile isDigit, ?_⟩
        rw [List.cons_append, List.append_assoc, List.takeWhile_append_dropWhile, ← hU]
    · rw [heq, if_neg hmark]
      exact ⟨.none, _, rfl⟩

theorem exists_fractionOf (cs : List Char) :
    (∀ ds ∈ fractionOf cs, ∀ c ∈ ds, isDigit c = true) ∧
      ∃ T, cs = ((fractionOf cs).map ('.' :: ·)).getD [] ++ T ∧
        (fractionOf cs = some [] → ∀ c ∈ T.head?, isAlphabetic c = false) := by
  unfold fractionOf
  split
  · exact ⟨by simp, [], rfl, fun _ _ h => nomatch h⟩
  · rename_i c rest
    split
    · exact ⟨nofun, _, rfl, nofun⟩
    · rename_i hletter
      refine ⟨?_, (c :: rest).dropWhile isDigit, ?_, fun h d hd => ?_⟩
      · intro ds hds d hd
        rw [← Option.some.inj hds] at hd
        exact List.mem_takeWhile_imp hd
      · show _ = '.' :: (c :: rest).takeWhile isDigit ++ _
        rw [List.cons_append, List.takeWhile_append_dropWhile]
      · have hnone := List.takeWhile_append_dropWhile (p := isDigit) (l := c :: rest)
        rw [Option.some.inj h, List.nil_append] at hnone
        rw [hnone] at hd
        rw [← Option.some.inj hd]
        exact Bool.eq_false_iff.mpr hletter
  · exact ⟨nofun, _, rfl, nofun⟩

/-- What is read where a numeral is next is spelled like one, and stands there. -/
theorem spelled_read {s : Source} (h : s.atNumeral = true) :
    (read s.rest).Spelled ∧ ∃ T, s.rest = (read s.rest).text ++ T := by
  obtain ⟨hfraction, T, hT, hname⟩ := exists_fractionOf (s.rest.dropWhile isDigit)
  obtain ⟨hexponent, U, hU⟩ := exists_exponentOf T
  have hread : read s.rest
      = ⟨s.rest.takeWhile isDigit, fractionOf (s.rest.dropWhile isDigit), exponentOf T⟩ := by
    have hdrop := drop_fractionText ⟨[], fractionOf (s.rest.dropWhile isDigit), []⟩ T
    unfold fractionText at hdrop
    dsimp only at hdrop
    rw [← hT] at hdrop
    unfold read
    simp only [Source.drop_length_takeWhile, hdrop]
  rw [hread]
  refine ⟨⟨fun c hc => List.mem_takeWhile_imp hc, hfraction, hexponent, ?_, fun h => ?_⟩, U, ?_⟩
  · unfold Source.atNumeral at h
    split at h
    · rename_i c rest hrest
      refine .inr ⟨c, rest.takeWhile isDigit, ?_⟩
      show fractionOf (s.rest.dropWhile isDigit) = _
      rw [hrest, List.dropWhile_cons_of_neg (by decide)]
      show (if isAlphabetic c then none else some ((c :: rest).takeWhile isDigit)) = _
      rw [isAlphabetic_of_isDigit h, List.takeWhile_cons_of_pos h]
      rfl
    · rename_i hrest
      refine .inl ?_
      show s.rest.takeWhile isDigit ≠ []
      rw [hrest, List.takeWhile_cons_of_pos h]
      exact List.cons_ne_nil _ _
    · cases h
  · have hletter := hname h
    cases T with
    | nil => rfl
    | cons c rest =>
      refine if_neg ?_
      rintro (rfl | rfl) <;> cases hletter _ rfl
  · show s.rest = s.rest.takeWhile isDigit ++ ((fractionOf _).map _).getD [] ++ exponentOf T ++ U
    rw [List.append_assoc, ← hU, List.append_assoc, ← hT, List.takeWhile_append_dropWhile]

/-- What a numeral begins with means nothing else. -/
theorem not_of_first {c : Char} (h : isDigit c = true ∨ c = '.') : isBlank c = false ∧
    isWordStart c = false ∧ c ∉ ['!', '~', '+', '-', '>', '"', '\''] := by
  rcases h with hc | rfl
  · refine ⟨(not_of_isDigit hc).1, (not_of_isDigit hc).2, fun hmem => ?_⟩
    simp only [List.mem_cons, List.not_mem_nil, or_false] at hmem
    rcases hmem with rfl | rfl | rfl | rfl | rfl | rfl | rfl <;> cases hc
  · decide

namespace Spelled

variable {n : Numeral} (hn : n.Spelled)
include hn

theorem atNumeral_append (T : List Char) (pos m : Nat) :
    (⟨n.text ++ T, pos, m⟩ : Source).atNumeral = true := by
  rw [n.text_append]
  unfold Source.atNumeral
  cases hwhole : n.whole with
  | nil =>
    obtain ⟨c, ds, hfraction⟩ := hn.digit.resolve_left (· hwhole)
    unfold fractionText
    rw [hfraction]
    exact hn.fraction _ hfraction c List.mem_cons_self
  | cons c cs =>
    have hc : isDigit c = true := hn.whole c (by rw [hwhole]; exact List.mem_cons_self)
    split
    · rename_i h
      rw [(List.cons.inj h).1] at hc
      cases hc
    · rename_i h
      rw [← (List.cons.inj h).1]
      exact hc
    · rename_i h
      cases h

theorem exists_first : ∃ c cs, n.text = c :: cs ∧ (isDigit c = true ∨ c = '.') := by
  have htext : n.text = n.whole ++ (n.fractionText ++ n.exponent) := List.append_assoc _ _ _
  rw [htext]
  cases hwhole : n.whole with
  | nil =>
    obtain ⟨c, ds, hfraction⟩ := hn.digit.resolve_left (· hwhole)
    unfold fractionText
    rw [hfraction]
    exact ⟨'.', _, rfl, .inr rfl⟩
  | cons c cs => exact ⟨c, _, rfl, .inl (hn.whole c (by rw [hwhole]; exact List.mem_cons_self))⟩

end Spelled

end Numeral

/-- A numeral is next where one stands that is spelled like that. -/
theorem atNumeral_iff {s : Source} :
    s.atNumeral = true ↔ ∃ n T, Numeral.Spelled n ∧ s.rest = n.text ++ T := by
  constructor
  · intro h
    obtain ⟨hn, T, hT⟩ := Numeral.spelled_read h
    exact ⟨_, T, hn, hT⟩
  · rintro ⟨n, T, hn, hT⟩
    have := hn.atNumeral_append T s.pos s.marks
    rwa [← hT] at this

/-! ## Numerals as operands -/

namespace Numeral.Spelled

variable {n : Numeral} (hn : n.Spelled) {T : List Char} (hT : EndsNumeral T)
  (hname : n.fraction = some [] → ∀ c ∈ T.head?, isAlphabetic c = false)
  (mode : Mode) (expr : Source → Except SyntaxError (Expr × Source)) (bound : Nat)
include hn hT hname

theorem operand_append (pos m : Nat) :
    ∃ pos', operand mode expr bound ⟨n.text ++ T, pos, m⟩
      = .ok (.literal (n.scalar false), ⟨T, pos', m⟩) := by
  obtain ⟨pos', hnumeral⟩ := hn.numeral_append hT hname false pos m
  refine ⟨pos', ?_⟩
  have hat := hn.atNumeral_append T pos m
  obtain ⟨c, cs, htext, hc⟩ := hn.exists_first
  obtain ⟨hblank, hstart, -⟩ := not_of_first hc
  rw [htext, List.cons_append] at hat hnumeral ⊢
  unfold operand
  rw [skipBlanks_of_solid hblank]
  dsimp only
  rw [keywordLiteral_of_not fun word _ => atKeyword_of_not_isWordStart hstart _ word pos m]
  dsimp only
  rw [hat, hnumeral]
  rfl

/-- A numeral is read as an operand, and a minus before it is its sign. -/
theorem reads (negative : Bool) (count : Nat) :
    Reads (unaryLevel mode expr bound (count + 1)) (n.written negative) 0
      (fun _ => .literal (n.scalar negative)) T := by
  obtain ⟨c, cs, htext, hfirst⟩ := hn.exists_first
  obtain ⟨hblank, hstart, hc⟩ := not_of_first hfirst
  cases negative with
  | false =>
    have hoperand := hn.operand_append hT hname mode expr bound
    rw [htext] at hoperand
    show Reads _ n.text 0 _ T
    rw [htext]
    refine unaryLevel_reads hblank ?_ (atKeyword_of_not_isWordStart hstart _ _) fun pos m => ?_
    · intro hsign
      exact hc (List.mem_append_left ['>', '"', '\''] hsign)
    · obtain ⟨pos', ht⟩ := hoperand pos m
      exact ⟨_, ht, .refl T pos' m⟩
  | true =>
    intro s m hs
    obtain ⟨pos, hpos⟩ : ∃ pos, s.skipBlanks = ⟨'-' :: (n.text ++ T), pos, m⟩ := hs.solid rfl
    obtain ⟨pos', hnumeral⟩ := hn.numeral_append hT hname true (pos + 1) m
    refine ⟨_, ?_, .refl T pos' m⟩
    have hat := hn.atNumeral_append T (pos + 1) m
    rw [htext, List.cons_append] at hpos hat hnumeral
    have hminus : s.skipBlanks.eatOp "-" ['>'] = some ⟨c :: (cs ++ T), pos + 1, m⟩ := by
      rw [hpos]
      show (if ['>'].contains c then none else some (⟨c :: (cs ++ T), pos + 1, m⟩ : Source)) = _
      rw [if_neg fun h => hc (by simp [List.mem_singleton.mp (List.contains_iff_mem.mp h)])]
    have hbang : s.skipBlanks.eatOp "!" ['='] = none := by rw [hpos]; rfl
    have htilde : s.skipBlanks.eat '~' = none := by rw [hpos]; rfl
    have hplus : s.skipBlanks.eat '+' = none := by rw [hpos]; rfl
    unfold unaryLevel
    dsimp only
    rw [hbang, htilde, hplus, hminus]
    dsimp only
    rw [skipBlanks_of_solid hblank, hat, hnumeral]
    rfl

omit mode expr bound in
theorem literal_append (negative : Bool) (pos m : Nat) :
    ∃ pos', literal ⟨n.written negative ++ T, pos, m⟩ = .ok (n.scalar negative, ⟨T, pos', m⟩) := by
  obtain ⟨c, cs, htext, hfirst⟩ := hn.exists_first
  obtain ⟨hblank, hstart, hc⟩ := not_of_first hfirst
  cases negative with
  | false =>
    obtain ⟨pos', hnumeral⟩ := hn.numeral_append hT hname false pos m
    refine ⟨pos', ?_⟩
    have hat := hn.atNumeral_append T pos m
    show literal ⟨n.text ++ T, pos, m⟩ = _
    rw [htext, List.cons_append] at hat hnumeral ⊢
    simp only [List.mem_cons, List.not_mem_nil, or_false, not_or] at hc
    obtain ⟨-, -, hplus, hminus, -, hdouble, hsingle⟩ := hc
    unfold literal
    rw [skipBlanks_of_solid hblank]
    dsimp only
    rw [keywordLiteral_of_not fun word _ => atKeyword_of_not_isWordStart hstart _ word pos m]
    dsimp only
    split
    · rename_i h
      exact absurd (Option.some.inj h) hdouble
    · rename_i h
      exact absurd (Option.some.inj h) hsingle
    · rename_i h
      exact absurd (Option.some.inj h) hminus
    · rename_i h
      exact absurd (Option.some.inj h) hplus
    · rw [hat, hnumeral]
      rfl
  | true =>
    obtain ⟨pos', hnumeral⟩ := hn.numeral_append hT hname true (pos + 1) m
    refine ⟨pos', ?_⟩
    have hat := hn.atNumeral_append T (pos + 1) m
    show literal ⟨'-' :: (n.text ++ T), pos, m⟩ = _
    rw [htext, List.cons_append] at hat hnumeral ⊢
    unfold literal
    rw [skipBlanks_of_solid rfl]
    dsimp only
    rw [keywordLiteral_of_not fun word _ => atKeyword_of_not_isWordStart rfl _ word pos m]
    show (if (Source.skipBlanks ⟨c :: (cs ++ T), pos + 1, m⟩).atNumeral
      then Except.ok (numeral true (Source.skipBlanks ⟨c :: (cs ++ T), pos + 1, m⟩)) else _) = _
    rw [skipBlanks_of_solid hblank, hat, hnumeral]
    rfl

end Numeral.Spelled

/-- A numeral that is the whole text is compiled to its scalar. -/
theorem compile_numeral {n : Numeral} (hn : n.Spelled) (negative : Bool) (mode : Mode)
    {entry : Entry} (hentry : entry = .expr ∨ entry = .literal) :
    compile (String.ofList (n.written negative)) mode entry
      = .ok (.expr (.literal (n.scalar negative))) := by
  have hend : EndsNumeral [] := nofun
  have hname : n.fraction = some [] → ∀ c ∈ ([] : List Char).head?, isAlphabetic c = false := nofun
  rcases hentry with rfl | rfl
  · obtain ⟨c, cs, htext, -⟩ := hn.exists_first
    obtain ⟨b, hb⟩ : ∃ b, (n.written negative).length = b + 1 := by
      cases negative with
      | false => exact ⟨cs.length, congrArg List.length htext⟩
      | true => exact ⟨n.text.length, rfl⟩
    refine compile_of_reads (x := fun _ => .literal (n.scalar negative)) (n := 0) ?_
    rw [hb]
    exact exprWithin_reads_of_unary (hn.reads hend hname _ _ _ negative b)
  · obtain ⟨pos', hliteral⟩ := hn.literal_append hend hname negative 0 0
    rw [List.append_nil] at hliteral
    refine compile_of_production ?_ (Source.At.refl [] pos' 0)
    show (literal (Source.ofList (n.written negative))).map _ = _
    rw [show Source.ofList (n.written negative) = ⟨n.written negative, 0, 0⟩ from rfl, hliteral]
    rfl

/-! ## Integers -/

def DigitRun.numeral (d : DigitRun) : Numeral := ⟨d.chars, none, []⟩

theorem DigitRun.spelled (d : DigitRun) : d.numeral.Spelled where
  whole := d.digits
  fraction := nofun
  exponent := .none
  digit := .inl d.some
  bare := nofun

theorem DigitRun.text_numeral (d : DigitRun) : d.numeral.text = d.chars := by
  show d.chars ++ [] ++ [] = d.chars
  rw [List.append_nil, List.append_nil]

namespace Digits

theorem scalar_numeral (d : Digits) (negative : Bool) :
    d.numeral.scalar negative = d.scalar negative := if_neg (Nat.not_lt.mpr d.safe)

variable (mode : Mode) (expr : Source → Except SyntaxError (Expr × Source)) (bound : Nat)
  (d : Digits) {T : List Char} (hT : EndsNumeral T) (count : Nat)
include hT

theorem reads : Reads (unaryLevel mode expr bound (count + 1)) d.chars 0
    (fun _ => .literal (d.scalar false)) T := by
  have hreads := d.spelled.reads hT nofun mode expr bound false count
  rw [d.scalar_numeral] at hreads
  rwa [show d.numeral.written false = d.chars from d.text_numeral] at hreads

theorem reads_negative : Reads (unaryLevel mode expr bound (count + 1)) ('-' :: d.chars) 0
    (fun _ => .literal (d.scalar true)) T := by
  have hreads := d.spelled.reads hT nofun mode expr bound true count
  rw [d.scalar_numeral] at hreads
  rwa [show d.numeral.written true = '-' :: d.chars from congrArg ('-' :: ·) d.text_numeral]
    at hreads

end Digits

end DocWire
