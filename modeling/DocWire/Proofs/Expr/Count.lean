import DocWire.Proofs.Expr.Yields

/-!
# The count of placeholders

A source counts the `?` placeholders met so far.  What is read between two sources holds the
numbers from the first count up to the second, in order.

* `Counted`    the numbers between two counts;
* `Numbers`    a reader of something that holds placeholders keeps to the count;
* `Quiet`      a reader meets no placeholder: those of literals, names and paths do not.
-/

namespace DocWire

variable {α : Type}

/-- A reader that meets no placeholder. -/
def Quiet (s : Source) (r : Except SyntaxError (α × Source)) : Prop :=
  Yields r fun _ t => t.marks = s.marks

/-! ## Counts -/

/-- `ns` are the numbers from `m` up to `n`. -/
def Counted (m : Nat) (ns : List Nat) (n : Nat) : Prop :=
  ∃ k, ns = List.range' m k ∧ n = m + k

namespace Counted

variable {m n l : Nat} {ns ls : List Nat}

theorem nothing (m : Nat) : Counted m [] m := ⟨0, rfl, rfl⟩

theorem trans (h₁ : Counted m ns n) (h₂ : Counted n ls l) : Counted m (ns ++ ls) l := by
  obtain ⟨j, rfl, rfl⟩ := h₁
  obtain ⟨k, rfl, rfl⟩ := h₂
  exact ⟨j + k, List.range'_append_1, Nat.add_assoc m j k⟩

theorem next (m : Nat) : Counted m [m] (m + 1) := ⟨1, rfl, rfl⟩

end Counted

/-- A reader of things that hold placeholders: it numbers them on from the count. -/
def Numbers (indices : α → List Nat) (s : Source) (r : Except SyntaxError (α × Source)) : Prop :=
  Yields r fun x t => Counted s.marks (indices x) t.marks

/-- Only the count matters of where a reader begins. -/
theorem Numbers.of_marks {indices : α → List Nat} {s t : Source}
    {r : Except SyntaxError (α × Source)} (h : Numbers indices t r) (ht : t.marks = s.marks) :
    Numbers indices s r := by
  unfold Numbers at h
  rw [ht] at h
  exact h

/-! ## Scanning -/

namespace Source

variable {s t : Source}

theorem marks_skip (s : Source) (n : Nat) : (s.skip n).marks = s.marks := rfl

theorem marks_skipBlanks (s : Source) : s.skipBlanks.marks = s.marks := rfl

theorem marks_eat {c : Char} (h : s.eat c = some t) : t.marks = s.marks := by
  unfold eat at h
  split at h
  · rw [← Option.some.inj h, marks_skip]
  · cases h

theorem marks_eatText {text : String} (h : s.eatText text = some t) : t.marks = s.marks := by
  unfold eatText at h
  split at h
  · rw [← Option.some.inj h, marks_skip]
  · cases h

theorem marks_eatOp {text : String} {notBefore : List Char} (h : s.eatOp text notBefore = some t) :
    t.marks = s.marks := by
  unfold eatOp at h
  split at h
  · cases h
  · rename_i u hu
    have hmarks := marks_eatText hu
    split at h
    · split at h
      · cases h
      · rw [← Option.some.inj h, hmarks]
    · rw [← Option.some.inj h, hmarks]

theorem marks_eatKeyword {keyword : String} (h : s.eatKeyword keyword = some t) :
    t.marks = s.marks := by
  unfold eatKeyword at h
  split at h
  · rw [← Option.some.inj h, marks_skip]
  · cases h

theorem marks_expect {c : Char} {what : String} (h : s.expect c what = .ok t) :
    t.marks = s.marks := by
  unfold expect at h
  split at h
  · rename_i u hu
    rw [← Except.ok.inj h, marks_eat hu, marks_skipBlanks]
  · cases h

end Source

/-- What comes behind a character that has to follow. -/
theorem Yields.expect {s : Source} {c : Char} {what : String}
    {f : Source → Except SyntaxError (α × Source)} {post : α → Source → Prop}
    (hf : ∀ t, t.marks = s.marks → Yields (f t) post) : Yields (s.expect c what >>= f) post := by
  cases h : s.expect c what with
  | error e => exact .error e
  | ok t => exact hf t (Source.marks_expect h)

/-! ## Readers that meet no placeholder -/

section
variable (s : Source)

theorem quoted_quiet : Quiet s (quoted s) := by
  unfold quoted
  split
  · split
    · split
      · exact .ok rfl
      · exact .fail s _
    · exact .fail s _
  · exact .fail s _

theorem bareIdentifier_quiet : Quiet s (bareIdentifier s) := by
  unfold bareIdentifier
  split
  · split
    · exact .fail s _
    · exact .ok rfl
  · exact .fail s _

theorem identifier_quiet : Quiet s (identifier s) := by
  unfold identifier
  split
  · exact quoted_quiet s
  · exact bareIdentifier_quiet s

theorem marks_keywordLiteral {s t : Source} {value : Scalar}
    (h : keywordLiteral s = some (value, t)) : t.marks = s.marks := by
  unfold keywordLiteral at h
  split at h
  · rename_i u hu
    cases h
    exact Source.marks_eatKeyword hu
  · split at h
    · rename_i u hu
      cases h
      exact Source.marks_eatKeyword hu
    · split at h
      · rename_i u hu
        cases h
        exact Source.marks_eatKeyword hu
      · cases h

theorem literal_quiet : Quiet s (literal s) := by
  have signed (negative : Bool) :
      Quiet s (if (s.skipBlanks.skip 1).skipBlanks.atNumeral
        then .ok (numeral negative (s.skipBlanks.skip 1).skipBlanks)
        else (s.skipBlanks.skip 1).skipBlanks.fail (.expected "number after sign")) := by
    split
    · exact .ok rfl
    · exact .fail _ _
  unfold literal
  dsimp only
  split
  · rename_i found hfound
    exact .ok (marks_keywordLiteral hfound :)
  · split
    · exact .map (quoted_quiet _) fun _ _ h => h
    · exact .map (quoted_quiet _) fun _ _ h => h
    · exact signed true
    · exact signed false
    · split
      · exact .ok rfl
      · exact .fail _ _

theorem typeParameters_quiet (count : Nat) : Quiet s (typeParameters count s) := by
  induction count generalizing s with
  | zero => exact .fail s _
  | succ count ih =>
    unfold typeParameters
    dsimp only
    split
    · exact .fail _ _
    · split
      · rename_i t ht
        exact .ok (Source.marks_eat ht :)
      · split
        · exact .fail _ _
        · split
          · rename_i t ht
            exact .map (ih t) fun _ _ h => h.trans (Source.marks_eat ht :)
          · exact .fail _ _

theorem parameterizedType_quiet (name : String) (count : Nat) :
    Quiet s (parameterizedType name count s) := by
  unfold parameterizedType
  split
  · exact .ok rfl
  · rename_i t ht
    exact .map (typeParameters_quiet t count) fun _ _ h => h.trans (Source.marks_eat ht :)

theorem castType_quiet : Quiet s (castType s) := by
  unfold castType
  dsimp only
  split
  · exact .fail _ _
  · split
    · split
      · rename_i t ht
        exact .ok (Source.marks_eatKeyword ht :)
      · exact .ok rfl
    · split
      · rename_i t ht
        exact .ok (Source.marks_eatKeyword ht :)
      · exact .ok rfl
    · exact parameterizedType_quiet _ _ _
    · exact parameterizedType_quiet _ _ _
    · exact parameterizedType_quiet _ _ _
    · exact .ok rfl
    · exact .ok rfl
    · exact .ok rfl
    · exact .ok rfl
    · exact .fail _ _

theorem intervalUnit_quiet : Quiet s (intervalUnit s) := by
  unfold intervalUnit
  dsimp only
  split
  · exact .fail _ _
  · split
    · exact .ok rfl
    · exact .fail _ _

theorem memberStep_quiet : Quiet s (memberStep s) := by
  unfold memberStep
  split
  · exact .fail s _
  · split
    · exact .fail s _
    · exact .ok rfl
  · split
    · refine .bind (quoted_quiet s) fun name t ht => ?_
      dsimp only
      split
      · exact .fail t _
      · exact .ok ht
    · split
      · exact .ok rfl
      · exact .fail s _
  · exact .fail s _

theorem indexStep_quiet : Quiet s (indexStep s) := by
  have closed (item : PathItem) {t : Source} (ht : t.marks = s.marks) :
      Quiet s (t.expect ']' "']'" >>= fun t => .ok (item, t)) :=
    .expect fun u hu => .ok (hu.trans ht)
  unfold indexStep
  dsimp only
  split
  · rename_i t ht
    exact closed .anyIndex (Source.marks_eat ht :)
  · split
    · exact .error _
    · split
      · exact closed _ rfl
      · exact .error _

theorem endOfPath_quiet (previous : Option PathItem) : Quiet s (endOfPath previous s) := by
  unfold endOfPath
  split
  · exact .fail s _
  · exact .ok rfl

theorem segments_quiet (bound : Nat) (previous : Option PathItem) :
    Quiet s (segments bound previous s) := by
  induction bound generalizing s previous with
  | zero => exact endOfPath_quiet s previous
  | succ bound ih =>
    have andThen {step : Except SyntaxError (PathItem × Source)} (hstep : Quiet s step) :
        Quiet s (step >>= fun x => segments bound (some x.1) x.2 >>= fun y =>
          .ok (x.1 :: y.1, y.2)) :=
      .bind hstep fun item t ht => .bind (ih t (some item)) fun items u hu => .ok (hu.trans ht)
    unfold segments
    dsimp only
    split
    · rename_i t ht
      split
      · exact .fail s _
      · exact andThen (.ok (Source.marks_eatText ht))
    · split
      · exact andThen (memberStep_quiet (s.skip 1))
      · exact andThen (indexStep_quiet (s.skip 1))
      · exact endOfPath_quiet s previous

theorem marks_dottedParts (count : Nat) : (dottedParts count s).2.marks = s.marks := by
  induction count generalizing s with
  | zero => rfl
  | succ count ih =>
    unfold dottedParts
    split
    · rfl
    · rename_i t ht
      split
      · rfl
      · rename_i part u hu
        show (dottedParts count u).2.marks = s.marks
        rw [ih u, identifier_quiet t part u hu, Source.marks_eat ht]

theorem arrowPath_quiet : Quiet s (arrowPath s) := by
  unfold arrowPath
  dsimp only
  split
  · refine .bind (quoted_quiet _) fun text t ht => ?_
    dsimp only
    split
    · exact .ok ht
    · exact .error _
  · exact .fail _ _

end

end DocWire
