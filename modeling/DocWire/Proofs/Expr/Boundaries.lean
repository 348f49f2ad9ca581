import DocWire.Proofs.Expr.Yields

/-!
# Where readers stand and where they complain

A source that is read from a text stands between two characters of it, and so does what is
complained about: that is an invariant of passing characters, which every reader of literals, names
and paths keeps.

* `CutsAt`            a byte offset at which a text can be cut in two;
* `Source.Behind`, `Source.In`   the source is what is left of a text;
* `Points`            what a reader of a text leaves stands in it, and its complaint is a fair one;
* `Direct`            a complaint is fair if the text can be cut there;
* `rootedPath_cutsAt` a path that is a text of its own.
-/

namespace DocWire

variable {α β : Type}

/-! ## Offsets -/

/-- A text can be cut in two at a byte offset. -/
def CutsAt (cs : List Char) (n : Nat) : Prop :=
  ∃ before after, cs = before ++ after ∧ byteLength before = n

theorem byteLength_eq (cs : List Char) : byteLength cs = (String.ofList cs).utf8ByteSize := by
  induction cs with
  | nil => rfl
  | cons c rest ih =>
    have hone : (String.ofList [c]).utf8ByteSize = c.utf8Size := by
      rw [← String.singleton_eq_ofList, String.utf8ByteSize_singleton]
    rw [byteLength_cons, ih, ← List.singleton_append, String.ofList_append,
      String.utf8ByteSize_append, hone]

/-- The offsets at which a string is cut are its positions. -/
theorem isValid_iff_cutsAt {text : String} {n : Nat} :
    (⟨n⟩ : String.Pos.Raw).IsValid text ↔ CutsAt text.toList n := by
  rw [String.Pos.Raw.isValid_iff_exists_take_toList]
  constructor
  · rintro ⟨i, hi⟩
    exact ⟨text.toList.take i, text.toList.drop i, (List.take_append_drop i _).symm,
      (byteLength_eq _).trans hi.symm⟩
  · rintro ⟨before, after, hcs, rfl⟩
    exact ⟨before.length, by rw [hcs, List.take_left, byteLength_eq]⟩

namespace CutsAt

variable {cs front : List Char} {n : Nat}

theorem le (h : CutsAt cs n) : n ≤ byteLength cs := by
  obtain ⟨before, after, rfl, rfl⟩ := h
  rw [byteLength_append]
  exact Nat.le_add_right _ _

theorem mono (h : CutsAt front n) (hcs : front <+: cs) : CutsAt cs n := by
  obtain ⟨before, after, rfl, rfl⟩ := h
  obtain ⟨rest, rfl⟩ := hcs
  exact ⟨before, after ++ rest, List.append_assoc .., rfl⟩

/-- Cutting behind a front part is cutting what comes behind it. -/
theorem append_left_iff : CutsAt (front ++ cs) (byteLength front + n) ↔ CutsAt cs n := by
  constructor
  · rintro ⟨before, after, hcut, hlength⟩
    rcases List.append_eq_append_iff.mp hcut with ⟨more, rfl, hcs⟩ | ⟨more, hafter⟩
    · refine ⟨more, after, hcs, ?_⟩
      rw [byteLength_append] at hlength
      exact Nat.add_left_cancel hlength
    · rw [hafter.1, byteLength_append] at hlength
      obtain rfl : n = 0 := by omega
      exact ⟨[], cs, rfl, rfl⟩
  · rintro ⟨before, after, rfl, rfl⟩
    exact ⟨front ++ before, after, (List.append_assoc ..).symm, byteLength_append _ _⟩

end CutsAt

/-! ## Sources of a text -/

namespace Source

/-- The source is what is left of a text behind its front part, the offset being that part's
length. -/
def Behind (s : Source) (front cs : List Char) : Prop :=
  cs = front ++ s.rest ∧ byteLength front = s.pos

/-- The source is what is left of a text. -/
def In (s : Source) (cs : List Char) : Prop := ∃ front, s.Behind front cs

namespace Behind

variable {front cs : List Char} {s t : Source}

theorem skip (h : s.Behind front cs) (n : Nat) : (s.skip n).Behind (front ++ s.rest.take n) cs := by
  obtain ⟨hcs, hlength⟩ := h
  constructor
  · rw [List.append_assoc, hcs]
    exact congrArg (front ++ ·) (List.take_append_drop n s.rest).symm
  · rw [byteLength_append, hlength]
    rfl

theorem eatText {text : String} (h : s.Behind front cs) (ht : s.eatText text = some t) :
    t.Behind (front ++ text.toList) cs := by
  unfold Source.eatText at ht
  obtain ⟨hfound, ht⟩ := Option.ite_none_right_eq_some.mp ht
  have htake := List.prefix_iff_eq_take.mp (List.isPrefixOf_iff_prefix.mp hfound)
  rw [htake, ← Option.some.inj ht]
  exact h.skip _

/-- The blanks that are passed belong to the front part. -/
theorem skipBlanks (h : s.Behind front cs) :
    s.skipBlanks.Behind (front ++ s.rest.takeWhile Text.isBlank) cs := by
  have htake := List.prefix_iff_eq_take.mp (List.takeWhile_prefix Text.isBlank (l := s.rest))
  rw [htake]
  exact h.skip _

end Behind

namespace In

variable {cs : List Char} {s t : Source}

theorem ofList (cs : List Char) : (Source.ofList cs).In cs := ⟨[], rfl, rfl⟩

theorem cutsAt (h : s.In cs) : CutsAt cs s.pos := by
  obtain ⟨front, hcs, hlength⟩ := h
  exact ⟨front, s.rest, hcs, hlength⟩

theorem skip (h : s.In cs) (n : Nat) : (s.skip n).In cs := by
  obtain ⟨front, h⟩ := h
  exact ⟨_, h.skip n⟩

theorem skipBlanks (h : s.In cs) : s.skipBlanks.In cs := h.skip _

theorem eat {c : Char} (h : s.In cs) (ht : s.eat c = some t) : t.In cs := by
  unfold Source.eat at ht
  obtain ⟨-, ht⟩ := Option.ite_none_right_eq_some.mp ht
  exact Option.some.inj ht ▸ h.skip 1

theorem eatText {text : String} (h : s.In cs) (ht : s.eatText text = some t) : t.In cs := by
  obtain ⟨front, h⟩ := h
  exact ⟨_, h.eatText ht⟩

theorem eatOp {text : String} {notBefore : List Char} (h : s.In cs)
    (ht : s.eatOp text notBefore = some t) : t.In cs := by
  unfold Source.eatOp at ht
  split at ht
  · cases ht
  · rename_i u hu
    split at ht
    · split at ht
      · cases ht
      · exact Option.some.inj ht ▸ h.eatText hu
    · exact Option.some.inj ht ▸ h.eatText hu

theorem eatKeyword {keyword : String} (h : s.In cs) (ht : s.eatKeyword keyword = some t) :
    t.In cs := by
  unfold Source.eatKeyword at ht
  obtain ⟨-, ht⟩ := Option.ite_none_right_eq_some.mp ht
  exact Option.some.inj ht ▸ h.skip _

end In

end Source

/-! ## Complaints -/

/-- What a reader of the text `cs` leaves stands in it, or its complaint satisfies `fair`. -/
def Points (cs : List Char) (fair : SyntaxError → Prop) : Except SyntaxError (α × Source) → Prop
  | .ok (_, t) => t.In cs
  | .error e => fair e

namespace Points

variable {cs : List Char} {fair fair' : SyntaxError → Prop} {r : Except SyntaxError (α × Source)}

theorem ok {x : α} {t : Source} (h : t.In cs) : Points cs fair (.ok (x, t)) := h

theorem error {e : SyntaxError} (h : fair e) :
    Points cs fair (.error e : Except _ (α × Source)) := h

theorem mono (h : Points cs fair r) (hfair : ∀ e, fair e → fair' e) : Points cs fair' r := by
  cases r with
  | error e => exact hfair e h
  | ok x => exact h

theorem bind {f : α × Source → Except SyntaxError (β × Source)} (h : Points cs fair r)
    (hf : ∀ x t, t.In cs → Points cs fair (f (x, t))) : Points cs fair (r >>= f) := by
  cases r with
  | error e => exact h
  | ok x => exact hf x.1 x.2 h

theorem map {f : α × Source → β × Source} (h : Points cs fair r)
    (hf : ∀ x t, t.In cs → (f (x, t)).2.In cs) : Points cs fair (r.map f) := by
  cases r with
  | error e => exact h
  | ok x => exact hf x.1 x.2 h

theorem expect {s : Source} {c : Char} {what : String}
    {f : Source → Except SyntaxError (α × Source)} (h : s.In cs)
    (hfail : fair (s.skipBlanks.complain (.expected what)))
    (hf : ∀ t, t.In cs → Points cs fair (f t)) : Points cs fair (s.expect c what >>= f) := by
  unfold Source.expect
  split
  · rename_i t ht
    exact hf t (h.skipBlanks.eat ht)
  · exact hfail

end Points

/-- What a reader of the text `cs` leaves stands in it, and the text can be cut where it
complains. -/
def Direct (cs : List Char) (r : Except SyntaxError (α × Source)) : Prop :=
  Points cs (fun e => CutsAt cs e.position) r

theorem Direct.fail {cs : List Char} {s : Source} (h : s.In cs) (what : Complaint) :
    Direct cs (s.fail what : Except _ (α × Source)) := h.cutsAt

theorem Direct.expect {cs : List Char} {s : Source} (h : s.In cs) {c : Char} {what : String}
    {f : Source → Except SyntaxError (α × Source)} (hf : ∀ t, t.In cs → Direct cs (f t)) :
    Direct cs (s.expect c what >>= f) :=
  Points.expect h h.skipBlanks.cutsAt hf

/-! ## Words, literals and steps of paths -/

section
variable {cs : List Char} {s : Source} (h : s.In cs)
include h

theorem quoted_direct : Direct cs (quoted s) := by
  unfold quoted
  split
  · split
    · split
      · exact .ok (h.skip _)
      · exact .fail h _
    · exact .fail h _
  · exact .fail h _

theorem bareIdentifier_direct : Direct cs (bareIdentifier s) := by
  unfold bareIdentifier
  split
  · split
    · exact .fail h _
    · exact .ok (h.skip _)
  · exact .fail h _

theorem identifier_direct : Direct cs (identifier s) := by
  unfold identifier
  split
  · exact quoted_direct h
  · exact bareIdentifier_direct h

theorem in_keywordLiteral {value : Scalar} {t : Source} (ht : keywordLiteral s = some (value, t)) :
    t.In cs := by
  unfold keywordLiteral at ht
  split at ht
  · rename_i u hu
    cases ht
    exact h.eatKeyword hu
  · split at ht
    · rename_i u hu
      cases ht
      exact h.eatKeyword hu
    · split at ht
      · rename_i u hu
        cases ht
        exact h.eatKeyword hu
      · cases ht

theorem in_numeral (negative : Bool) : (numeral negative s).2.In cs := h.skip _

theorem literal_direct : Direct cs (literal s) := by
  have hs := h.skipBlanks
  have signed (negative : Bool) :
      Direct cs (if (s.skipBlanks.skip 1).skipBlanks.atNumeral
        then .ok (numeral negative (s.skipBlanks.skip 1).skipBlanks)
        else (s.skipBlanks.skip 1).skipBlanks.fail (.expected "number after sign")) := by
    have hnext := (hs.skip 1).skipBlanks
    split
    · exact .ok (in_numeral hnext negative)
    · exact .fail hnext _
  unfold literal
  dsimp only
  split
  · rename_i found hfound
    exact .ok (in_keywordLiteral hs hfound :)
  · split
    · exact .map (quoted_direct hs) fun _ _ ht => ht
    · exact .map (quoted_direct hs) fun _ _ ht => ht
    · exact signed true
    · exact signed false
    · split
      · exact .ok (in_numeral hs false)
      · exact .fail hs _

theorem typeParameters_direct (count : Nat) : Direct cs (typeParameters count s) := by
  induction count generalizing s with
  | zero => exact .fail h _
  | succ count ih =>
    unfold typeParameters
    dsimp only
    have hdigits := (h.skipBlanks.skip (s.skipBlanks.rest.takeWhile Text.isDigit).length).skipBlanks
    split
    · exact .fail h.skipBlanks _
    · split
      · rename_i t ht
        exact .ok (hdigits.eat ht)
      · split
        · exact .fail hdigits _
        · split
          · rename_i t ht
            exact .map (ih (hdigits.eat ht)) fun _ _ hu => hu
          · exact .fail hdigits _

theorem parameterizedType_direct (name : String) (count : Nat) :
    Direct cs (parameterizedType name count s) := by
  unfold parameterizedType
  split
  · exact .ok h
  · rename_i t ht
    exact .map (typeParameters_direct (h.skipBlanks.eat ht) count) fun _ _ hu => hu

theorem castType_direct : Direct cs (castType s) := by
  unfold castType
  dsimp only
  split
  · exact .fail h.skipBlanks _
  · rename_i word _
    have hword := h.skipBlanks.skip word.length
    split
    · split
      · rename_i t ht
        exact .ok (hword.skipBlanks.eatKeyword ht)
      · exact .ok hword
    · split
      · rename_i t ht
        exact .ok (hword.skipBlanks.eatKeyword ht)
      · exact .ok hword
    · exact parameterizedType_direct hword _ _
    · exact parameterizedType_direct hword _ _
    · exact parameterizedType_direct hword _ _
    · exact .ok hword
    · exact .ok hword
    · exact .ok hword
    · exact .ok hword
    · exact .fail h.skipBlanks _

theorem intervalUnit_direct : Direct cs (intervalUnit s) := by
  unfold intervalUnit
  dsimp only
  split
  · exact .fail h.skipBlanks _
  · split
    · exact .ok (h.skipBlanks.skip _)
    · exact .fail h.skipBlanks _

theorem memberStep_direct : Direct cs (memberStep s) := by
  unfold memberStep
  split
  · exact .fail h _
  · split
    · exact .fail h _
    · exact .ok (h.skip 1)
  · split
    · refine .bind (quoted_direct h) fun name t ht => ?_
      dsimp only
      split
      · exact Direct.fail ht _
      · exact .ok ht
    · split
      · exact .ok (h.skip _)
      · exact .fail h _
  · exact .fail h _

theorem indexStep_direct : Direct cs (indexStep s) := by
  have hs := h.skipBlanks
  have closed (item : PathItem) {t : Source} (ht : t.In cs) :
      Direct cs (t.expect ']' "']'" >>= fun t => .ok (item, t)) :=
    .expect ht fun _ hu => .ok hu
  unfold indexStep
  dsimp only
  split
  · rename_i t ht
    exact closed .anyIndex (hs.eat ht)
  · split
    · exact .error hs.cutsAt
    · split
      · exact closed _ (hs.skip _)
      · exact .error hs.cutsAt

theorem endOfPath_direct (previous : Option PathItem) : Direct cs (endOfPath previous s) := by
  unfold endOfPath
  split
  · exact .fail h _
  · exact .ok h

theorem segments_direct (bound : Nat) (previous : Option PathItem) :
    Direct cs (segments bound previous s) := by
  induction bound generalizing s previous with
  | zero => exact endOfPath_direct h previous
  | succ bound ih =>
    have andThen {step : Except SyntaxError (PathItem × Source)} (hstep : Direct cs step) :
        Direct cs (step >>= fun x => segments bound (some x.1) x.2 >>= fun y =>
          .ok (x.1 :: y.1, y.2)) :=
      .bind hstep fun item t ht => .bind (ih ht (some item)) fun items u hu => .ok hu
    unfold segments
    dsimp only
    split
    · rename_i t ht
      split
      · exact .fail h _
      · exact andThen (.ok (h.eatText ht))
    · split
      · exact andThen (memberStep_direct (h.skip 1))
      · exact andThen (indexStep_direct (h.skip 1))
      · exact endOfPath_direct h previous

theorem in_dottedParts (count : Nat) : (dottedParts count s).2.In cs := by
  induction count generalizing s with
  | zero => exact h
  | succ count ih =>
    unfold dottedParts
    split
    · exact h
    · rename_i t ht
      have hpart := identifier_direct (h.eat ht)
      split
      · exact h
      · rename_i part u hu
        rw [hu] at hpart
        exact ih hpart

end

/-! ## Paths by themselves -/

/-- A path is cut where it is complained about. -/
theorem rootedPath_cutsAt {text : List Char} {e : SyntaxError} (h : rootedPath text = .error e) :
    CutsAt text e.position := by
  have hstart := (Source.In.ofList text).skipBlanks
  unfold rootedPath at h
  dsimp only at h
  split at h
  · cases h
    exact hstart.cutsAt
  · rename_i s hs
    have hsegments := segments_direct (hstart.eat hs) text.length none
    cases hread : segments text.length none s with
    | error e' =>
      rw [hread] at h hsegments
      cases h
      exact hsegments
    | ok x =>
      rw [hread] at h hsegments
      change (if x.2.skipBlanks.rest.isEmpty then Except.ok x.1 else _) = _ at h
      split at h
      · cases h
      · cases h
        exact (show x.2.In text from hsegments).skipBlanks.cutsAt

end DocWire
