import DocWire.Proofs.Expr.Quotation
import DocWire.Proofs.Expr.Readable.Basic
import Mathlib.Data.List.Chain

/-!
# Reading literals, fields and placeholders

The pieces without parts are read as operands.

* `KeywordLiteral.readable`, `SafeInteger.readable`, `PlainText.readable`   literals;
* `PlainText.quoted_append` a text is found between its quotes;
* `segments_append`         the steps of a path, one after the other;
* `RootedPath.readable`, `PlaceholderName.readable`, `mark_readable`   fields and placeholders.
-/

namespace DocWire

open Text

variable {b : Nat} {T : List Char}

/-! ## Keywords -/

/-- A literal that is a keyword is a word. -/
theorem KeywordLiteral.exists_word (k : KeywordLiteral) : ∃ w : Word, w.chars = k.chars :=
  DocWire.exists_word (by cases k <;> decide) (by cases k <;> decide)

theorem KeywordLiteral.atKeyword_append (k : KeywordLiteral) (hT : EndsWord T) (word : String)
    (pos m : Nat) :
    (⟨k.chars ++ T, pos, m⟩ : Source).atKeyword word = sameWord k.chars word.toList := by
  obtain ⟨w, hw⟩ := k.exists_word
  rw [← hw]
  exact w.atKeyword_append hT word pos m

theorem KeywordLiteral.keywordLiteral_append (k : KeywordLiteral) (hT : EndsWord T) (pos m : Nat) :
    ∃ pos', keywordLiteral ⟨k.chars ++ T, pos, m⟩ = some (k.scalar, ⟨T, pos', m⟩) := by
  refine ⟨pos + byteLength k.chars, ?_⟩
  unfold keywordLiteral Source.eatKeyword
  rw [k.atKeyword_append hT, k.atKeyword_append hT, k.atKeyword_append hT]
  cases k <;> rfl

theorem KeywordLiteral.readable (k : KeywordLiteral) :
    (Piece.plain k.chars (.literal k.scalar)).Readable (b + 1) := by
  refine Piece.readable_of_unary fun T hT => ?_
  obtain ⟨w, hw⟩ := k.exists_word
  show Reads _ k.chars 0 _ T
  rw [← hw, ← List.append_nil w.chars]
  refine w.unaryLevel_reads hT.endsWord (by rw [hw]; cases k <;> decide) fun pos m => ?_
  obtain ⟨pos', hliteral⟩ := k.keywordLiteral_append hT.endsWord pos m
  refine ⟨_, ?_, .refl T pos' _⟩
  unfold operand
  rw [List.nil_append, show (⟨w.chars ++ T, pos, m⟩ : Source).skipBlanks = ⟨w.chars ++ T, pos, m⟩ from
    skipBlanks_of_solid (isBlank_of_isWordStart w.starts) _ _ _, hw]
  dsimp only
  rw [hliteral]
  rfl

/-! ## Integers -/

def DigitRun.ofNat (n : Nat) : DigitRun where
  chars := Number.digitsOf n
  some := Nat.toDigits_ne_nil
  digits := fun _ hc => Nat.isDigit_of_mem_toDigits (by decide) (by decide) hc

theorem DigitRun.digitsValue_ofNat (n : Nat) : digitsValue (ofNat n).chars = n := by
  have hfold : digitsValue (ofNat n).chars = Nat.ofDigitChars 10 (Nat.toDigits 10 n) 0 := by
    rw [Nat.ofDigitChars_eq_foldl]
    show (Nat.toDigits 10 n).foldl (fun n c => n * 10 + digitValue c) 0 = _
    simp only [Nat.mul_comm, digitValue]
  rw [hfold, Nat.ofDigitChars_ten_toDigits]

def SafeInteger.digits (n : SafeInteger) : Digits where
  toDigitRun := .ofNat n.value
  safe := by
    rw [DigitRun.digitsValue_ofNat]
    exact n.safe

theorem SafeInteger.value_digits (n : SafeInteger) : n.digits.value = n.value :=
  DigitRun.digitsValue_ofNat n.value

theorem SafeInteger.readable (n : SafeInteger) :
    (Piece.plain (Number.digitsOf n.value)
      (.literal (.uint (UInt64.ofNat n.value)))).Readable (b + 1) := by
  refine Piece.readable_of_unary fun T hT => ?_
  have hreads := n.digits.reads .document (exprWithin .document b) (b + 1) hT.endsNumeral b
  unfold Digits.scalar at hreads
  rw [n.value_digits] at hreads
  exact hreads

theorem SafeInteger.readable_negative (n : SafeInteger) :
    (Piece.plain ('-' :: Number.digitsOf n.value)
      (.literal (.sint (Int64.ofInt (-n.value))))).Readable (b + 1) := by
  refine Piece.readable_of_unary fun T hT => ?_
  have hreads := n.digits.reads_negative .document (exprWithin .document b) (b + 1) hT.endsNumeral b
  unfold Digits.scalar at hreads
  rw [n.value_digits] at hreads
  exact hreads

/-! ## Strings -/

/-- A text between quotes is found between them. -/
theorem PlainText.quoted_append (t : PlainText) (hT : T.head? ≠ some '"') (pos m : Nat) :
    DocWire.quoted ⟨t.quoted ++ T, pos, m⟩
      = .ok (String.ofList t.chars, ⟨T, pos + byteLength t.quoted, m⟩) := by
  have hread := unquote_doubled_append (by decide) (denotable_of_not_mem t.plain) hT
  have hbody : doubled '"' t.chars ++ '"' :: T = (doubled '"' t.chars ++ ['"']) ++ T := by simp
  rw [hbody] at hread
  exact DocWire.quoted_append rfl hread pos m

theorem PlainText.readable (t : PlainText) :
    (Piece.plain t.quoted (.literal (.str (String.ofList t.chars)))).Readable (b + 1) := by
  refine Piece.readable_of_unary fun T hT => ?_
  refine unaryLevel_reads (c := '"') rfl (by decide)
    (fun pos m => atKeyword_of_not_isWordStart rfl _ _ _ _) fun pos m => ?_
  refine ⟨_, ?_, .refl T (pos + byteLength t.quoted) _⟩
  show (DocWire.quoted ⟨t.quoted ++ T, pos, m⟩).map _ = _
  rw [t.quoted_append fun h => absurd (hT.mem_of_head? h) (by decide)]
  rfl

/-! ## Placeholders -/

theorem PlaceholderName.readable (name : PlaceholderName) :
    (Piece.plain (':' :: name.chars) (.named (String.ofList name.chars))).Readable (b + 1) := by
  refine Piece.readable_of_unary fun T hT => ?_
  refine unaryLevel_reads (c := ':') rfl (by decide)
    (fun pos m => atKeyword_of_not_isWordStart rfl _ _ _ _) fun pos m => ?_
  refine ⟨_, ?_, .refl T (pos + 1 + byteLength name.chars) _⟩
  show placeholderName ⟨name.chars ++ T, pos + 1, m⟩ = _
  have hrun : (name.chars ++ T).takeWhile (fun c => isAlphanumeric c || c == '_') = name.chars := by
    refine takeWhile_append_of_stop (fun c hc => ?_) fun c hc => ?_
    · simpa using name.proper c hc
    · exact (Bool.or_eq_false_iff.mp (hT.endsWord c hc)).1
  unfold placeholderName
  dsimp only
  rw [hrun, List.isEmpty_eq_false_iff.mpr name.some, Source.skip_append]
  rfl

/-- A positional placeholder stands for the number of those before it. -/
theorem mark_readable : (⟨['?'], 1, .positional⟩ : Piece Expr).Readable (b + 1) := by
  refine Piece.readable_of_unary fun T hT => ?_
  refine unaryLevel_reads (c := '?') rfl (by decide)
    (fun pos m => atKeyword_of_not_isWordStart rfl _ _ _ _) fun pos m => ?_
  exact ⟨⟨T, pos + 1, m + 1⟩, rfl, .refl T _ _⟩

/-! ## Fields -/

theorem memberStep_word (w : Word) {U : List Char} (hU : EndsWord U) (pos m : Nat) :
    ∃ pos', memberStep ⟨w.chars ++ U, pos, m⟩ = .ok (.member w.text, ⟨U, pos', m⟩) := by
  refine ⟨pos + byteLength w.chars, ?_⟩
  have hstart := w.starts
  have hpeek : (⟨w.chars ++ U, pos, m⟩ : Source).peek = some w.first := rfl
  unfold memberStep
  rw [hpeek, w.word?_append hU]
  split
  case h_1 hc | h_2 hc =>
    rw [Option.some.inj hc] at hstart
    cases hstart
  case h_3 c _ _ hc =>
    obtain rfl : w.first = c := Option.some.inj hc
    have hquote : isQuote w.first = false := by
      refine Bool.eq_false_iff.mpr fun h => ?_
      simp only [isQuote, Bool.or_eq_true, beq_iff_eq] at h
      rcases h with (h | h) | h <;> rw [h] at hstart <;> cases hstart
    rw [hquote]
    dsimp only
    rw [Source.skip_append]
    rfl
  case h_4 hc => cases hc

theorem indexStep_digits (n : UInt32) (U : List Char) (pos m : Nat) :
    ∃ pos', indexStep ⟨Number.digitsOf n.toNat ++ ']' :: U, pos, m⟩
      = .ok (.index n, ⟨U, pos', m⟩) := by
  let d := DigitRun.ofNat n.toNat
  refine ⟨pos + byteLength d.chars + 1, ?_⟩
  have hvalue : digitsValue d.chars = n.toNat := DigitRun.digitsValue_ofNat n.toNat
  have hstar : (⟨d.chars ++ ']' :: U, pos, m⟩ : Source).eat '*' = none := by
    obtain ⟨c, cs, hd, hc⟩ := d.exists_cons
    rw [hd]
    refine eat_of_ne ?_ _ _ _
    rintro rfl
    cases hc
  show indexStep ⟨d.chars ++ ']' :: U, pos, m⟩ = _
  unfold indexStep
  dsimp only
  rw [d.skipBlanks_append, hstar]
  dsimp only
  rw [d.takeWhile_append rfl, d.isEmpty_chars, hvalue, if_pos n.toNat_lt, Source.skip_append,
    UInt32.ofNat_toNat]
  rfl

/-- The text behind a step does not continue it. -/
def PathStep.EndsBefore : PathStep → List Char → Prop
  | member _, U => EndsWord U
  | anyMember, U => U.head? ≠ some '*'
  | _, _ => True

/-- A step of a path is read where nothing continues it. -/
theorem PathStep.segments_append (step : PathStep) {previous : Option PathItem}
    (hprevious : step = descendants → previous ≠ some .descendants) {U : List Char}
    (hU : step.EndsBefore U) (bound pos m : Nat) :
    ∃ pos', segments (bound + 1) previous ⟨step.chars ++ U, pos, m⟩
      = (segments bound (some step.item) ⟨U, pos', m⟩ >>= fun (items, s) =>
        .ok (step.item :: items, s)) := by
  cases step with
  | member name =>
    obtain ⟨pos', hmember⟩ := memberStep_word name hU (pos + 1) m
    refine ⟨pos', ?_⟩
    conv_lhs => unfold segments
    show (memberStep ⟨name.chars ++ U, pos + 1, m⟩ >>= _) = _
    rw [hmember]
    rfl
  | anyMember =>
    refine ⟨pos + 2, ?_⟩
    have hstep : memberStep ⟨'*' :: U, pos + 1, m⟩ = .ok (.anyMember, ⟨U, pos + 2, m⟩) := if_neg hU
    conv_lhs => unfold segments
    show (memberStep ⟨'*' :: U, pos + 1, m⟩ >>= _) = _
    rw [hstep]
    rfl
  | index n =>
    obtain ⟨pos', hindex⟩ := indexStep_digits n U (pos + 1) m
    refine ⟨pos', ?_⟩
    have htext : (index n).chars ++ U = '[' :: (Number.digitsOf n.toNat ++ ']' :: U) := by
      simp [chars]
    rw [htext]
    conv_lhs => unfold segments
    show (indexStep ⟨Number.digitsOf n.toNat ++ ']' :: U, pos + 1, m⟩ >>= _) = _
    rw [hindex]
    rfl
  | anyIndex =>
    refine ⟨pos + 3, ?_⟩
    conv_lhs => unfold segments
    rfl
  | descendants =>
    refine ⟨pos + 2, ?_⟩
    conv_lhs => unfold segments
    exact if_neg (hprevious rfl)

theorem PathStep.endsBefore_ends (step : PathStep) (hT : Ends T) : step.EndsBefore T := by
  cases step with
  | member name => exact hT.endsWord
  | anyMember => exact fun h => absurd (hT.mem_of_head? h) (by decide)
  | index n => trivial
  | anyIndex => trivial
  | descendants => trivial

theorem PathStep.endsBefore_chars {step next : PathStep} (h : step.MayFollow next)
    (U : List Char) : step.EndsBefore (next.chars ++ U) := by
  have hword : EndsWord (next.chars ++ U) := by
    cases next <;> exact endsWord_cons rfl _
  cases step with
  | member name => exact hword
  | anyMember =>
    cases next with
    | descendants => exact h.elim
    | member name | anyMember | index n | anyIndex =>
      exact fun h => absurd (Option.some.inj h) (by decide)
  | index n => trivial
  | anyIndex => trivial
  | descendants => trivial

theorem PathStep.item_ne_descendants {step : PathStep} (h : step ≠ descendants) :
    step.item ≠ .descendants := by
  cases step with
  | descendants => exact absurd rfl h
  | member name | anyMember | index n | anyIndex => exact PathItem.noConfusion

/-- The steps behind another one are read up to where the expression ends. -/
theorem segments_append (hT : Ends T) (steps : List PathStep) (previous : Option PathStep)
    (hconnected : (previous.toList ++ steps).IsChain PathStep.MayFollow)
    (hended : (previous.toList ++ steps).getLast? ≠ some .descendants) {bound : Nat}
    (hbound : steps.length ≤ bound) (pos m : Nat) :
    ∃ pos', segments bound (previous.map PathStep.item)
        ⟨steps.flatMap PathStep.chars ++ T, pos, m⟩
      = .ok (steps.map PathStep.item, ⟨T, pos', m⟩) := by
  induction steps generalizing previous bound pos with
  | nil =>
    have hend : ∀ c ∈ T.head?, c ∉ ['.', '[', '*'] :=
      hT.forall_head? (by decide) (by decide) (by decide) (by decide)
    refine ⟨pos, segments_of_not hend bound ?_ pos m⟩
    cases previous with
    | none => exact fun h => nomatch h
    | some step =>
      have hstep : step ≠ .descendants := fun h => hended (h ▸ rfl)
      exact fun h => PathStep.item_ne_descendants hstep (Option.some.inj h)
  | cons step rest ih =>
    obtain ⟨bound, rfl⟩ := Nat.exists_eq_succ_of_ne_zero (Nat.ne_of_gt
      (Nat.lt_of_lt_of_le (Nat.succ_pos rest.length) hbound))
    obtain ⟨-, hrest, hjoint⟩ := List.isChain_append.mp hconnected
    have hprevious : step = .descendants → previous.map PathStep.item ≠ some .descendants := by
      rintro rfl
      cases previous with
      | none => exact fun h => nomatch h
      | some last =>
        have hlast : last ≠ .descendants := fun h => by
          rw [h] at hjoint
          exact hjoint _ rfl _ rfl
        exact fun h => PathStep.item_ne_descendants hlast (Option.some.inj h)
    have hnext : step.EndsBefore (rest.flatMap PathStep.chars ++ T) := by
      cases rest with
      | nil => exact step.endsBefore_ends hT
      | cons next rest =>
        rw [List.flatMap_cons, List.append_assoc]
        exact PathStep.endsBefore_chars (List.isChain_cons_cons.mp hrest).1 _
    obtain ⟨pos', hstep⟩ := step.segments_append hprevious hnext bound pos m
    rw [List.getLast?_append_cons] at hended
    obtain ⟨pos'', htail⟩ := ih (some step) hrest hended (Nat.le_of_succ_le_succ hbound) pos'
    refine ⟨pos'', ?_⟩
    rw [List.flatMap_cons, List.append_assoc, hstep]
    show (segments bound ((some step).map PathStep.item) _ >>= _) = _
    rw [htail]
    rfl

/-- A path has no more steps than characters. -/
theorem RootedPath.length_steps (path : RootedPath) : path.steps.length ≤ path.chars.length := by
  have hsteps (steps : List PathStep) : steps.length ≤ (steps.flatMap PathStep.chars).length := by
    induction steps with
    | nil => exact Nat.le_refl 0
    | cons step rest ih =>
      have hstep : 0 < step.chars.length := by cases step <;> exact Nat.succ_pos _
      rw [List.flatMap_cons, List.length_append, List.length_cons]
      omega
  exact Nat.le_succ_of_le (hsteps path.steps)

theorem RootedPath.readable (path : RootedPath) (hbound : path.steps.length ≤ b + 1) :
    (Piece.plain path.chars (.field (path.steps.map PathStep.item))).Readable (b + 1) := by
  refine Piece.readable_of_unary fun T hT => ?_
  refine unaryLevel_reads (c := '$') rfl (by decide)
    (fun pos m => atKeyword_of_not_isWordStart rfl _ _ _ _) fun pos m => ?_
  obtain ⟨pos', hsteps⟩ := DocWire.segments_append hT path.steps none path.connected path.ended hbound
    (pos + 1) m
  refine ⟨_, ?_, .refl T pos' _⟩
  show (segments (b + 1) none ⟨path.steps.flatMap PathStep.chars ++ T, pos + 1, m⟩).map _ = _
  rw [show segments (b + 1) none _ = _ from hsteps]
  rfl

end DocWire
