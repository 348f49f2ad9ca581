import DocWire.Proofs.Expr.Reading

/-!
# Words and digits

The tokens that are made of more than fixed characters, and what the scanner makes of them where
something follows that does not continue them.

* `Word`, `Name`          identifier-shaped words, and those that are not reserved;
* `DigitRun`, `Digits`    rows of digits, and those whose value a double can hold exactly;
* `segments_of_not`       a path ends where no step follows;
* `unaryLevel_reads`, `operand_name`   how the readers of operands take them.
-/

namespace DocWire

open Text

/-! ## Kinds of characters -/

/-- the members of a set of code points that is given by bounds, one by one -/
def Text.membersOf : List Nat → List Nat
  | lo :: hi :: rest => List.range' lo (hi - lo) ++ membersOf rest
  | _ => []

theorem Text.mem_membersOf {bounds : List Nat} {n : Nat} (h : inRanges bounds n = true) :
    n ∈ membersOf bounds := by
  induction bounds using membersOf.induct with
  | case1 lo hi rest ih =>
    unfold inRanges at h
    unfold membersOf
    split at h
    · have := of_decide_eq_true h
      exact List.mem_append_left _ (List.mem_range'_1.mpr (by omega))
    · exact List.mem_append_right _ (ih h)
  | case2 bounds hshort =>
    unfold inRanges at h
    split at h
    · exact absurd rfl (hshort _ _ _)
    · cases h

theorem isWordChar_of_isBlank {c : Char} (h : isBlank c = true) : isWordChar c = false := by
  have hall : ∀ n ∈ membersOf blankBounds, isWordChar (Char.ofNat n) = false := by decide +kernel
  rw [← Char.ofNat_toNat c]
  exact hall _ (mem_membersOf h)

theorem isWordChar_of_isWordStart {c : Char} (h : isWordStart c = true) : isWordChar c = true := by
  unfold isWordStart at h
  unfold isWordChar
  rcases Bool.or_eq_true_iff.mp h with h | h
  · rw [isAlphanumeric_of_isAlphabetic h]
    rfl
  · rw [h, Bool.or_true]
    rfl

theorem isBlank_of_isWordStart {c : Char} (h : isWordStart c = true) : isBlank c = false := by
  by_contra hblank
  rw [Bool.not_eq_false] at hblank
  have := isWordChar_of_isBlank hblank
  rw [isWordChar_of_isWordStart h] at this
  cases this

/-- A digit is neither a blank nor the beginning of a word. -/
theorem not_of_isDigit {c : Char} (h : isDigit c = true) :
    isBlank c = false ∧ isWordStart c = false := by
  have hall : ∀ n < 58, 48 ≤ n →
      isBlank (Char.ofNat n) = false ∧ isWordStart (Char.ofNat n) = false := by decide
  simp only [isDigit, Bool.and_eq_true, decide_eq_true_eq, Char.le_def, UInt32.le_iff_toNat_le] at h
  rw [← Char.ofNat_toNat c]
  exact hall c.toNat (Nat.lt_succ_of_le h.2) h.1

/-- A run of characters ends where something else follows. -/
theorem takeWhile_append_of_stop {p : Char → Bool} {cs T : List Char}
    (hcs : ∀ c ∈ cs, p c = true) (hT : ∀ c ∈ T.head?, p c = false) :
    (cs ++ T).takeWhile p = cs := by
  rw [List.takeWhile_append_of_pos hcs]
  cases T with
  | nil => rw [List.takeWhile_nil, List.append_nil]
  | cons c rest =>
    rw [List.takeWhile_cons_of_neg (by rw [hT c rfl]; exact Bool.false_ne_true), List.append_nil]

/-- A source at something other than a blank has no blanks to pass. -/
theorem skipBlanks_of_solid {c : Char} (hc : isBlank c = false) (cs : List Char) (pos m : Nat) :
    (⟨c :: cs, pos, m⟩ : Source).skipBlanks = ⟨c :: cs, pos, m⟩ := by
  unfold Source.skipBlanks Source.skipWhile
  rw [List.takeWhile_cons_of_neg (by rw [hc]; exact Bool.false_ne_true)]
  exact Source.skip_zero _

/-! ## Words -/

/-- An identifier-shaped word. -/
structure Word where
  first : Char
  more : List Char
  starts : isWordStart first = true
  continues : ∀ c ∈ more, isWordChar c = true

def Word.chars (w : Word) : List Char := w.first :: w.more

def Word.text (w : Word) : String := String.ofList w.chars

theorem exists_word {cs : List Char} (hstart : cs.head?.any isWordStart = true)
    (hchars : cs.all isWordChar = true) : ∃ w : Word, w.chars = cs := by
  cases cs with
  | nil => cases hstart
  | cons c more =>
    exact ⟨⟨c, more, hstart, fun d hd => List.all_eq_true.mp hchars d (List.mem_cons_of_mem c hd)⟩,
      rfl⟩

/-- A word that can be an identifier. -/
structure Name extends Word where
  free : isReserved toWord.chars = false

/-- What follows does not continue a word. -/
def EndsWord (T : List Char) : Prop := ∀ c ∈ T.head?, isWordChar c = false

theorem endsWord_cons {c : Char} (hc : isWordChar c = false) (T : List Char) : EndsWord (c :: T) :=
  fun _ hd => Option.some.inj hd ▸ hc

theorem Word.word?_append (w : Word) {T : List Char} (hT : EndsWord T) (pos m : Nat) :
    (⟨w.chars ++ T, pos, m⟩ : Source).word? = some w.chars := by
  have hall : ∀ c ∈ w.chars, isWordChar c = true :=
    List.forall_mem_cons.mpr ⟨isWordChar_of_isWordStart w.starts, w.continues⟩
  show (if isWordStart w.first then some ((w.chars ++ T).takeWhile isWordChar) else none) = _
  rw [w.starts, takeWhile_append_of_stop hall hT]
  rfl

/-- Which keywords a word is, if it ends there. -/
theorem Word.atKeyword_append (w : Word) {T : List Char} (hT : EndsWord T) (word : String)
    (pos m : Nat) :
    (⟨w.chars ++ T, pos, m⟩ : Source).atKeyword word = sameWord w.chars word.toList := by
  unfold Source.atKeyword
  rw [w.word?_append hT pos m]

theorem Word.eatKeyword_append (w : Word) {T : List Char} (hT : EndsWord T) {word : String}
    (h : sameWord w.chars word.toList = true) (pos m : Nat) :
    ∃ pos', (⟨w.chars ++ T, pos, m⟩ : Source).eatKeyword word = some ⟨T, pos', m⟩ := by
  have hlength : word.toList.length = w.chars.length := by
    have := congrArg List.length (beq_iff_eq.mp h)
    rw [List.length_map, List.length_map] at this
    exact this.symm
  refine ⟨pos + byteLength w.chars, ?_⟩
  unfold Source.eatKeyword
  rw [w.atKeyword_append hT, h, hlength, Source.skip_append]
  rfl

/-- Behind a blank, a word is next. -/
theorem Word.nextIn_blank (w : Word) (T : List Char) (pos m : Nat) :
    Source.nextIn (' ' :: (w.chars ++ T)) pos m = ⟨w.chars ++ T, pos, m⟩ := by
  rw [Source.nextIn_blank rfl]
  exact Source.nextIn_solid (isBlank_of_isWordStart w.starts) _ pos m

theorem Word.wordStandsBefore_append (w : Word) {T : List Char} (hT : EndsWord T) (c : Char)
    (pos m : Nat) :
    (⟨w.chars ++ T, pos, m⟩ : Source).wordStandsBefore c
      = ((⟨T, pos + byteLength w.chars, m⟩ : Source).skipBlanks.peek == some c) := by
  unfold Source.wordStandsBefore
  rw [w.word?_append hT]
  dsimp only
  rw [Source.skip_append]

theorem sameWord_comm (a b : List Char) : sameWord a b = sameWord b a := Bool.beq_comm

theorem sameWord_congr {a b : List Char} (h : sameWord a b = true) (c : List Char) :
    sameWord a c = sameWord b c := by
  unfold sameWord
  rw [beq_iff_eq.mp h]

/-- A name is none of the keywords. -/
theorem Name.sameWord_eq_false (n : Name) {word : String} (hword : word ∈ reservedWords) :
    sameWord n.chars word.toList = false := by
  have hfree := n.free
  unfold isReserved at hfree
  rw [List.any_eq_false] at hfree
  rw [sameWord_comm]
  exact Bool.eq_false_iff.mpr (hfree word hword)

theorem Name.not_atKeyword_append (n : Name) {T : List Char} (hT : EndsWord T) {word : String}
    (hword : word ∈ reservedWords) (pos m : Nat) :
    (⟨n.chars ++ T, pos, m⟩ : Source).atKeyword word = false :=
  (n.atKeyword_append hT word pos m).trans (n.sameWord_eq_false hword)

/-- A name is read as an identifier. -/
theorem Name.bareIdentifier_append (n : Name) {T : List Char} (hT : EndsWord T) (pos m : Nat) :
    ∃ pos', bareIdentifier ⟨n.chars ++ T, pos, m⟩ = .ok (n.text, ⟨T, pos', m⟩) := by
  refine ⟨pos + byteLength n.chars, ?_⟩
  unfold bareIdentifier
  rw [n.word?_append hT pos m]
  dsimp only
  rw [n.free, Source.skip_append]
  rfl

theorem Name.identifier_append (n : Name) {T : List Char} (hT : EndsWord T) (pos m : Nat) :
    ∃ pos', identifier ⟨n.chars ++ T, pos, m⟩ = .ok (n.text, ⟨T, pos', m⟩) := by
  have hquote : (⟨n.chars ++ T, pos, m⟩ : Source).peek ≠ some '`' := by
    intro h
    have hstart := n.starts
    rw [Option.some.inj (h : some n.first = some '`')] at hstart
    cases hstart
  unfold identifier
  rw [if_neg hquote]
  exact n.bareIdentifier_append hT pos m

/-- Where no word begins there is no keyword. -/
theorem atKeyword_of_not_isWordStart {c : Char} (hc : isWordStart c = false) (cs : List Char)
    (word : String) (pos m : Nat) : (⟨c :: cs, pos, m⟩ : Source).atKeyword word = false := by
  have hword : (⟨c :: cs, pos, m⟩ : Source).word? = none :=
    if_neg (by rw [hc]; exact Bool.false_ne_true)
  unfold Source.atKeyword
  rw [hword]

theorem keywordLiteral_of_not {s : Source}
    (h : ∀ word ∈ ["null", "true", "false"], s.atKeyword word = false) :
    keywordLiteral s = none := by
  unfold keywordLiteral Source.eatKeyword
  rw [h "null" (by decide), h "true" (by decide), h "false" (by decide)]
  rfl

/-! ## Words in any letter case -/

/-- The case of a letter does not matter for where words can stand. -/
theorem word_of_toLower {c : Char} (h : isWordStart c.toLower = true) : isWordStart c = true := by
  unfold Char.toLower at h
  split at h
  · rename_i hupper
    have hall : ∀ n < 91, 65 ≤ n → isWordStart (Char.ofNat n) = true := by decide
    rw [← Char.ofNat_toNat c]
    exact hall c.toNat (Nat.lt_succ_of_le hupper.2) hupper.1
  · exact h

/-- A word of letters is a word in any letter case. -/
theorem exists_word_of_sameWord {cs ds : List Char} (h : sameWord cs ds = true) (hsome : ds ≠ [])
    (hletters : ds.all (fun d => isWordStart d.toLower) = true) : ∃ w : Word, w.chars = cs := by
  have hstarts : ∀ c ∈ cs, isWordStart c = true := by
    intro c hc
    have hmem : c.toLower ∈ ds.map Char.toLower := beq_iff_eq.mp h ▸ List.mem_map_of_mem hc
    obtain ⟨d, hd, hcd⟩ := List.mem_map.mp hmem
    exact word_of_toLower (hcd ▸ List.all_eq_true.mp hletters d hd)
  cases cs with
  | nil => exact absurd (List.map_eq_nil_iff.mp (beq_iff_eq.mp h).symm) hsome
  | cons c cs =>
    exact ⟨⟨c, cs, hstarts c List.mem_cons_self, fun d hd =>
      isWordChar_of_isWordStart (hstarts d (List.mem_cons_of_mem c hd))⟩, rfl⟩

/-! ## Digits -/

/-- A row of digits, at least one. -/
structure DigitRun where
  chars : List Char
  some : chars ≠ []
  digits : ∀ c ∈ chars, isDigit c = true

namespace DigitRun

variable (d : DigitRun)

theorem exists_cons : ∃ c cs, d.chars = c :: cs ∧ isDigit c = true := by
  obtain ⟨c, cs, hd⟩ := List.exists_cons_of_ne_nil d.some
  exact ⟨c, cs, hd, d.digits c (hd ▸ List.mem_cons_self)⟩

theorem skipBlanks_append (T : List Char) (pos m : Nat) :
    (⟨d.chars ++ T, pos, m⟩ : Source).skipBlanks = ⟨d.chars ++ T, pos, m⟩ := by
  obtain ⟨c, cs, hd, hc⟩ := d.exists_cons
  rw [hd]
  exact skipBlanks_of_solid (not_of_isDigit hc).1 _ _ _

theorem takeWhile_append {c : Char} (hc : isDigit c = false) (U : List Char) :
    (d.chars ++ c :: U).takeWhile isDigit = d.chars :=
  takeWhile_append_of_stop d.digits fun _ he => Option.some.inj he ▸ hc

theorem isEmpty_chars : d.chars.isEmpty = false := by
  rw [List.isEmpty_eq_false_iff]
  exact d.some

end DigitRun

/-- A decimal integer that a double can hold exactly. -/
structure Digits extends DigitRun where
  safe : digitsValue chars ≤ maxSafeInteger

def Digits.value (d : Digits) : Nat := digitsValue d.chars

/-- the scalar of an integer, with a minus sign before it or not -/
def Digits.scalar (d : Digits) (negative : Bool) : Scalar :=
  if negative then .sint (Int64.ofInt (-d.value)) else .uint (UInt64.ofNat d.value)

/-- What follows does not continue a numeral. -/
def EndsNumeral (T : List Char) : Prop :=
  ∀ c ∈ T.head?, isDigit c = false ∧ c ≠ '.' ∧ c ≠ 'e' ∧ c ≠ 'E'

/-- Where a word begins there is no numeral. -/
theorem atNumeral_of_isWordStart {c : Char} (hc : isWordStart c = true) (cs : List Char)
    (pos m : Nat) : (⟨c :: cs, pos, m⟩ : Source).atNumeral = false := by
  unfold Source.atNumeral
  split
  · rename_i h
    rw [(List.cons.inj h).1] at hc
    cases hc
  · rename_i h
    rw [← (List.cons.inj h).1]
    by_contra hdigit
    rw [Bool.not_eq_false] at hdigit
    rw [(not_of_isDigit hdigit).2] at hc
    cases hc
  · rfl

/-! ## Operands -/

theorem eat_self (c : Char) (cs : List Char) (pos m : Nat) :
    (⟨c :: cs, pos, m⟩ : Source).eat c = some ⟨cs, pos + byteLength [c], m⟩ := if_pos rfl

theorem eat_of_ne {c d : Char} (h : c ≠ d) (cs : List Char) (pos m : Nat) :
    (⟨c :: cs, pos, m⟩ : Source).eat d = none :=
  if_neg fun he => h (Option.some.inj he)

theorem eatText_of_ne {c d : Char} (h : c ≠ d) {text : String} {ds : List Char}
    (htext : text.toList = d :: ds) (cs : List Char) (pos m : Nat) :
    (⟨c :: cs, pos, m⟩ : Source).eatText text = none := by
  refine if_neg ?_
  rw [htext]
  show ¬ (d == c && List.isPrefixOf ds cs) = true
  rw [beq_false_of_ne h.symm]
  exact Bool.false_ne_true

/-- A path ends where no step follows. -/
theorem segments_of_no_step {T : List Char} (hT : ∀ c ∈ T.head?, c ∉ ['.', '[', '*']) (bound : Nat)
    (previous : Option PathItem) (pos m : Nat) :
    segments bound previous ⟨T, pos, m⟩ = endOfPath previous ⟨T, pos, m⟩ := by
  cases bound with
  | zero => rfl
  | succ bound =>
    cases T with
    | nil => rfl
    | cons c rest =>
      have hc := hT c rfl
      simp only [List.mem_cons, List.not_mem_nil, or_false, not_or] at hc
      obtain ⟨hpoint, hbracket, hstar⟩ := hc
      unfold segments
      dsimp only
      rw [eatText_of_ne hstar (show "**".toList = ['*', '*'] from rfl)]
      dsimp only
      split
      case h_1 h => exact absurd (Option.some.inj h) hpoint
      case h_2 h => exact absurd (Option.some.inj h) hbracket
      case h_3 => rfl

theorem segments_of_not {T : List Char} (hT : ∀ c ∈ T.head?, c ∉ ['.', '[', '*']) (bound : Nat)
    {previous : Option PathItem} (hprevious : previous ≠ some .descendants) (pos m : Nat) :
    segments bound previous ⟨T, pos, m⟩ = .ok ([], ⟨T, pos, m⟩) := by
  rw [segments_of_no_step hT]
  exact if_neg hprevious

theorem exists_of_bareIdentifier {s t : Source} {name : String}
    (h : bareIdentifier s = .ok (name, t)) :
    ∃ word, s.word? = some word ∧ isReserved word = false ∧ name = String.ofList word ∧
      t = s.skip word.length := by
  unfold bareIdentifier at h
  cases hword : s.word? with
  | none =>
    rw [hword] at h
    cases h
  | some word =>
    rw [hword] at h
    dsimp only at h
    by_cases hreserved : isReserved word = true
    · rw [if_pos hreserved] at h
      cases h
    · rw [if_neg hreserved] at h
      cases h
      exact ⟨word, rfl, Bool.eq_false_iff.mpr hreserved, rfl, rfl⟩

/-- An identifier without quotes is no keyword. -/
theorem not_atKeyword_of_bareIdentifier {s t : Source} {name : String}
    (h : bareIdentifier s = .ok (name, t)) {word : String} (hword : word ∈ reservedWords) :
    s.atKeyword word = false := by
  obtain ⟨found, hfound, hfree, -, -⟩ := exists_of_bareIdentifier h
  unfold isReserved at hfree
  rw [List.any_eq_false] at hfree
  unfold Source.atKeyword
  rw [hfound]
  dsimp only
  rw [sameWord_comm]
  exact Bool.eq_false_iff.mpr (hfree word hword)

theorem Source.exists_of_word {s : Source} {word : List Char} (h : s.word? = some word) :
    ∃ c cs, s = ⟨c :: cs, s.pos, s.marks⟩ ∧ isWordStart c = true := by
  unfold Source.word? at h
  split at h
  · rename_i c hc
    rw [Option.ite_none_right_eq_some] at h
    obtain ⟨cs, hcs⟩ := List.head?_eq_some_iff.mp hc
    exact ⟨c, cs, by rw [← hcs], h.1⟩
  · cases h

theorem identifier_of_bareIdentifier {s t : Source} {name : String}
    (h : bareIdentifier s = .ok (name, t)) : identifier s = .ok (name, t) := by
  obtain ⟨word, hword, -⟩ := exists_of_bareIdentifier h
  obtain ⟨c, cs, hs, hstart⟩ := Source.exists_of_word hword
  have hquote : s.peek ≠ some '`' := by
    intro hpeek
    rw [hs] at hpeek
    rw [Option.some.inj (hpeek : some c = some '`')] at hstart
    cases hstart
  unfold identifier
  rw [if_neg hquote]
  exact h

/-- An identifier begins with a quote or with a word. -/
theorem exists_of_identifier {s t : Source} {name : String} (h : identifier s = .ok (name, t)) :
    ∃ c cs pos m, s = ⟨c :: cs, pos, m⟩ ∧
      (c = '`' ∨ isWordStart c = true ∧ bareIdentifier s = .ok (name, t)) := by
  unfold identifier at h
  by_cases hquote : s.peek = some '`'
  · obtain ⟨cs, hcs⟩ := List.head?_eq_some_iff.mp hquote
    exact ⟨'`', cs, s.pos, s.marks, by rw [← hcs], .inl rfl⟩
  · rw [if_neg hquote] at h
    obtain ⟨word, hword, -⟩ := exists_of_bareIdentifier h
    obtain ⟨c, cs, hs, hstart⟩ := Source.exists_of_word hword
    exact ⟨c, cs, s.pos, s.marks, hs, .inr ⟨hstart, h⟩⟩

section
variable {mode : Mode} {expr : Source → Except SyntaxError (Expr × Source)} {bound : Nat}
  {T : List Char}

/-- Where no operator stands before it, the unary level reads an operand. -/
theorem unaryLevel_eq_operand {s : Source} {c : Char} {cs : List Char} {pos m : Nat}
    (hs : s.skipBlanks = ⟨c :: cs, pos, m⟩) (hsign : c ∉ ['!', '~', '+', '-'])
    (hnot : s.skipBlanks.atKeyword "not" = false) (count : Nat) :
    unaryLevel mode expr bound (count + 1) s = operand mode expr bound s.skipBlanks := by
  simp only [List.mem_cons, List.not_mem_nil, or_false, not_or] at hsign
  obtain ⟨hbang, htilde, hplus, hminus⟩ := hsign
  have hop {text : String} {d : Char} {ds notBefore : List Char} (h : c ≠ d)
      (htext : text.toList = d :: ds) :
      (⟨c :: cs, pos, m⟩ : Source).eatOp text notBefore = none := by
    unfold Source.eatOp
    rw [eatText_of_ne h htext]
  have hnone : (⟨c :: cs, pos, m⟩ : Source).eatKeyword "not" = none := by
    unfold Source.eatKeyword
    rw [← hs, hnot]
    rfl
  unfold unaryLevel
  dsimp only
  rw [hs, hop hbang rfl, eat_of_ne htilde, eat_of_ne hplus, hop hminus rfl, hnone]

/-- An operand that no operator stands before is read by the unary level. -/
theorem unaryLevel_reads {count : Nat} {c : Char} {cs : List Char} {n : Nat} {x : Nat → Expr}
    (hblank : isBlank c = false) (hsign : c ∉ ['!', '~', '+', '-'])
    (hnot : ∀ pos m, (⟨c :: cs ++ T, pos, m⟩ : Source).atKeyword "not" = false)
    (hoperand : ∀ pos m, ∃ t, operand mode expr bound ⟨c :: cs ++ T, pos, m⟩ = .ok (x m, t) ∧
      t.At T (m + n)) :
    Reads (unaryLevel mode expr bound (count + 1)) (c :: cs) n x T := by
  intro s m hs
  obtain ⟨pos, hpos⟩ := hs.solid hblank
  obtain ⟨t, ht, hat⟩ := hoperand pos m
  refine ⟨t, ?_, hat⟩
  rw [unaryLevel_eq_operand hpos hsign (by rw [hpos]; exact hnot pos m), hpos]
  exact ht

/-- An operand that begins with a word is read by the unary level. -/
theorem Word.unaryLevel_reads (w : Word) {count k : Nat} {cs : List Char} {x : Nat → Expr}
    (hT : EndsWord (cs ++ T)) (hnot : sameWord w.chars "not".toList = false)
    (hoperand : ∀ pos m, ∃ t, operand mode expr bound ⟨w.chars ++ (cs ++ T), pos, m⟩ = .ok (x m, t) ∧
      t.At T (m + k)) :
    Reads (unaryLevel mode expr bound (count + 1)) (w.chars ++ cs) k x T := by
  refine DocWire.unaryLevel_reads (isBlank_of_isWordStart w.starts) ?_ (fun pos m => ?_)
    fun pos m => ?_
  · intro hsign
    have hstart := w.starts
    simp only [List.mem_cons, List.not_mem_nil, or_false] at hsign
    rcases hsign with h | h | h | h <;> rw [h] at hstart <;> cases hstart
  · have hkeyword := w.atKeyword_append hT "not" pos m
    rwa [← List.append_assoc, hnot] at hkeyword
  · have := hoperand pos m
    rwa [← List.append_assoc] at this

variable (mode expr bound)

/-- An identifier begins a call, a column or a field, unless it is the word of a cast. -/
theorem operand_of_identifier {s t : Source} {first : String} (h : identifier s = .ok (first, t))
    (hcast : (s.atKeyword "cast" && s.wordStandsBefore '(') = false) :
    operand mode expr bound s = identifierTail mode expr bound first t := by
  obtain ⟨c, cs, pos, m, rfl, hc⟩ := exists_of_identifier h
  obtain ⟨hblank, hliteral, hnumeral⟩ : isBlank c = false ∧
      keywordLiteral ⟨c :: cs, pos, m⟩ = none ∧ (⟨c :: cs, pos, m⟩ : Source).atNumeral = false := by
    rcases hc with rfl | ⟨hstart, hbare⟩
    · exact ⟨by decide, keywordLiteral_of_not fun word _ =>
        atKeyword_of_not_isWordStart (by decide) cs word pos m, rfl⟩
    · exact ⟨isBlank_of_isWordStart hstart, keywordLiteral_of_not fun word hword =>
        not_atKeyword_of_bareIdentifier hbare (by revert word; decide),
        atNumeral_of_isWordStart hstart cs pos m⟩
  have hpeek : (⟨c :: cs, pos, m⟩ : Source).peek = some c := rfl
  unfold operand
  rw [skipBlanks_of_solid hblank]
  dsimp only
  rw [hliteral, hnumeral, hpeek]
  simp only [Bool.false_eq_true, if_false]
  rcases hc with rfl | ⟨hstart, hbare⟩
  · show (identifier _ >>= _) = _
    rw [h]
    rfl
  · split
    case h_10 d _ _ _ _ _ _ _ _ _ hd =>
      obtain rfl : c = d := Option.some.inj hd
      rw [hstart, hcast, hbare]
      rfl
    case h_11 hd => cases hd
    all_goals
      rename_i hd
      rw [Option.some.inj hd] at hstart
      cases hstart

theorem operand_name (n : Name) (hT : EndsWord T) (pos m : Nat)
    (hcast : ((⟨n.chars ++ T, pos, m⟩ : Source).atKeyword "cast"
      && (⟨n.chars ++ T, pos, m⟩ : Source).wordStandsBefore '(') = false) :
    ∃ pos', operand mode expr bound ⟨n.chars ++ T, pos, m⟩
      = identifierTail mode expr bound n.text ⟨T, pos', m⟩ := by
  obtain ⟨pos', hident⟩ := n.identifier_append hT pos m
  exact ⟨pos', operand_of_identifier mode expr bound hident hcast⟩

end

end DocWire
