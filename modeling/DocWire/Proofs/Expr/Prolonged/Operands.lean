import DocWire.Proofs.Expr.Prolonged.Tokens

/-!
# Operands in texts that go on

Each operand of a text is the same operand in a longer text, its placeholders numbered on from the
count there, if that is so for the expressions inside brackets.  A bracket that has to be closed is
closed before the text ends, so inside brackets nothing depends on what comes behind.

* `Vain`                 readers that give nothing, such as those at the end of a text;
* `Carries.untilClose`, `separated_carries`   what is inside brackets;
* `identifierTail_carries`   calls, columns and fields;
* `operand_carries`      any operand.
-/

namespace DocWire

variable {α β : Type} {T : List Char} {k m n : Nat} {s s' : Source} {f : α → α} {g : β → β}

/-! ## At the end -/

/-- Nothing is read. -/
def Vain (r : Except SyntaxError (α × Source)) : Prop := Yields r fun _ _ => False

namespace Vain

variable {r : Except SyntaxError (α × Source)}

theorem carries (h : Vain r) (r' : Except SyntaxError (α × Source)) : Carries T k n f r r' :=
  fun x t hr => (h x t hr).elim

theorem bind (h : Vain r) (next : α × Source → Except SyntaxError (β × Source)) :
    Vain (r >>= next) :=
  Yields.bind h fun _ _ hfalse => hfalse.elim

theorem map (h : Vain r) (before : α × Source → β × Source) : Vain (r.map before) :=
  Yields.map h fun _ _ hfalse => hfalse.elim

end Vain

/-- Where no character is left there is nothing to read. -/
theorem Carries.vain {r r' : Except SyntaxError (α × Source)} (h : Carries T k 0 f r r') : Vain r :=
  fun x t hr => absurd (h x t hr).1 (Nat.not_lt_zero _)

theorem Source.remaining_eq_zero (hs : s.skipBlanks.rest = []) : s.remaining = 0 := by
  unfold remaining
  rw [hs]
  rfl

/-! ## Values made of what is read -/

/-- What is made of a value that is read. -/
theorem Carries.bind_ok {r r' : Except SyntaxError (α × Source)}
    {next next' : α × Source → Except SyntaxError (β × Source)} (h : Carries T k n f r r')
    (y y' : α → β) (hnext : ∀ x t, next (x, t) = .ok (y x, t))
    (hnext' : ∀ x t, next' (x, t) = .ok (y' x, t)) (hy : ∀ x, g (y x) = y' (f x)) :
    Carries T k n g (r >>= next) (r' >>= next') := by
  refine .bind h (fun x t ht hdangling => ?_) fun x t t' ht hsame => ?_
  · rw [hnext]
    exact Yields.ok ⟨ht, hdangling⟩
  · rw [hnext, hnext']
    exact .ok ht hsame (hy x)

theorem Carries.map {r r' : Except SyntaxError (α × Source)} {before before' : α × Source → β × Source}
    (h : Carries T k n f r r') (y y' : α → β) (hbefore : ∀ x t, before (x, t) = (y x, t))
    (hbefore' : ∀ x t, before' (x, t) = (y' x, t)) (hy : ∀ x, g (y x) = y' (f x)) :
    Carries T k n g (r.map before) (r'.map before') := by
  have hmap (r : Except SyntaxError (α × Source)) (before : α × Source → β × Source) :
      r.map before = r >>= fun x => .ok (before x) := by cases r <;> rfl
  rw [hmap, hmap]
  exact h.bind_ok y y' (fun x t => congrArg Except.ok (hbefore x t))
    (fun x t => congrArg Except.ok (hbefore' x t)) hy

/-! ## Brackets -/

/-- Behind a bracket, the bracket that closes it or something else. -/
theorem Carries.untilClose (hs : s.Tracks T k s') {close : Char} {x x' : α}
    {more more' : Except SyntaxError (α × Source)} (hx : f x = x')
    (hmore : Carries T k s.remaining f more more') :
    Carries T k s.remaining f
      (match s.skipBlanks.eat close with
        | some t => .ok (x, t)
        | none => more)
      (match s'.skipBlanks.eat close with
        | some t => .ok (x', t)
        | none => more') := by
  obtain ⟨hne, hsame⟩ | ⟨hnil, -⟩ := hs.cases
  · have hclose := hsame.eat_of_ne_nil hne close
    generalize s.skipBlanks.eat close = a, s'.skipBlanks.eat close = a' at hclose
    cases hclose with
    | some ht => exact .ok ht.1 ht.2.tracks hx
    | none => exact hmore
  · rw [Source.remaining_eq_zero hnil] at hmore ⊢
    rw [eat_of_nil hnil]
    exact hmore.vain.carries _

/-- Items with commas between them are the same, if there are rounds enough for both texts. -/
theorem separated_carries {N : Nat} {item item' : Source → Except SyntaxError (α × Source)}
    (hitem : ∀ u u' : Source, u.rest.length < N → u.Tracks T k u' →
      Carries T k u.remaining f (item u) (item' u'))
    {close : Char} (hclose : close ≠ '.') (what : String) {b b' : Nat} (hN : s.rest.length < N)
    (hb : s.rest.length ≤ b) (hb' : s.rest.length ≤ b') (hs : s.Tracks T k s') :
    Carries T k s.remaining (List.map f) (separated item close what b s)
      (separated item' close what b' s') := by
  induction b generalizing b' s s' with
  | zero =>
    refine Vain.carries ?_ _
    exact Yields.bind (yields_true (item s)) fun _ t _ => .fail t _
  | succ b ih =>
    cases b' with
    | zero =>
      have hnil : s.remaining = 0 := Nat.le_zero.mp (s.remaining_le.trans hb')
      have hvain : Vain (item s) := (hnil ▸ hitem s s' hN hs).vain
      refine Vain.carries ?_ _
      unfold separated
      exact hvain.bind _
    | succ b' =>
      unfold separated
      refine .bind (hitem s s' hN hs) (fun x t _ hdangling => ?_) fun x t t' hlt ht => ?_
      · dsimp only
        rw [hdangling.skipBlanks_eq, hdangling.eat hclose, hdangling.eat (by decide)]
        exact Yields.fail _ _
      · dsimp only
        have hle := s.remaining_le
        have hleft := t.remaining_le
        obtain ⟨hne, hsame⟩ | ⟨hnil, -⟩ := ht.cases
        · have hend := hsame.eat_of_ne_nil hne close
          have hcomma := hsame.eat_of_ne_nil hne ','
          generalize t.skipBlanks.eat close = a, t'.skipBlanks.eat close = a' at hend
          cases hend with
          | some hu => exact .ok (hu.1.trans_le (hleft.trans hlt.le)) hu.2.tracks rfl
          | none =>
            dsimp only
            generalize t.skipBlanks.eat ',' = a, t'.skipBlanks.eat ',' = a' at hcomma
            cases hcomma with
            | none => exact .fail _ _ _
            | @some u u' hu =>
              have hu1 : u.rest.length < t.remaining := hu.1
              have hmore : Carries T k u.remaining (List.map f) (separated item close what b u)
                  (separated item' close what b' u') :=
                ih (by omega) (by omega) (by omega) hu.2.tracks
              refine Carries.bind_ok (hmore.mono ?_) (x :: ·) (f x :: ·) (fun _ _ => rfl)
                (fun _ _ => rfl) fun _ => rfl
              have := u.remaining_le
              omega
        · rw [eat_of_nil hnil, eat_of_nil hnil]
          exact .fail _ _ _

/-! ## Calls, columns and fields -/

theorem fieldFrom_carries (h : s.Prolonged T k s') (hT : Detached T) {b b' : Nat}
    (hb : s.rest.length ≤ b) (hb' : s.rest.length ≤ b') (previous : Option PathItem) :
    Carries T k (s.rest.length + 1) (Expr.shift k) (fieldFrom b previous s)
      (fieldFrom b' previous s') :=
  .of_keeps_map (segments_keeps h hT hb hb' previous)
    (fun path => .field (previous.toList ++ path)) (fun _ _ => rfl) fun _ => rfl

/-- Behind a point, a quoted name that is not closed is no member of a path. -/
theorem fieldFrom_vain {t : Source} (heat : s.eat '.' = some t) (hquoted : t.peek = some '`')
    {e : SyntaxError} (he : identifier t = .error e) {b : Nat} (hb : s.rest.length ≤ b)
    (previous : Option PathItem) : Vain (fieldFrom b previous s) := by
  have hpoint : s.Dangling := Source.peek_of_eat heat
  obtain ⟨rest, hs⟩ := hpoint.exists_rest
  obtain rfl : s.skip 1 = t := by
    unfold Source.eat at heat
    rw [Option.ite_none_right_eq_some] at heat
    exact Option.some.inj heat.2
  obtain ⟨b, rfl⟩ := Nat.exists_eq_succ_of_ne_zero (by
    rw [hs, List.length_cons] at hb
    omega : b ≠ 0)
  have hquote : quoted (s.skip 1) = .error e := by
    unfold identifier at he
    rwa [if_pos hquoted] at he
  have hmember : memberStep (s.skip 1) = .error e := by
    unfold memberStep
    rw [hquoted]
    show (quoted (s.skip 1) >>= _) = _
    rw [hquote]
    rfl
  refine Vain.map ?_ _
  unfold segments
  dsimp only
  rw [hpoint.eatText (show "**".toList = ['*', '*'] from rfl) (by decide)]
  dsimp only
  rw [show s.peek = some '.' from hpoint, hmember]
  exact Yields.error e

section
variable (mode : Mode) {expr expr' : Source → Except SyntaxError (Expr × Source)} {N b b' : Nat}
  (hexpr : ∀ u u' : Source, u.rest.length < N → u.Tracks T k u' →
    Carries T k u.remaining (Expr.shift k) (expr u) (expr' u'))
  (hT : Detached T) (hb : N ≤ b) (hb' : N ≤ b')
include hexpr hT

theorem argument_carries (hN : s.rest.length < N) (hs : s.Tracks T k s') :
    Carries T k s.remaining (Expr.shift k) (argument expr s) (argument expr' s') := by
  have hstar := hs.eat hT (show '*' ∈ joining by decide)
  have hless : s.skipBlanks.rest.length < N := s.remaining_le.trans_lt hN
  unfold argument
  dsimp only
  generalize s.skipBlanks.eat '*' = a, s'.skipBlanks.eat '*' = a' at hstar
  cases hstar with
  | none =>
    have := hexpr s.skipBlanks s'.skipBlanks hless hs.skipBlanks
    rwa [Source.remaining_skipBlanks] at this
  | @some t t' ht =>
    dsimp only
    obtain ⟨hne, hsame⟩ | ⟨hnil, -⟩ := ht.2.tracks.cases
    · rw [hsame.peek_eq hne]
      split
      · exact .ok (t.remaining_le.trans_lt ht.1) hsame.tracks rfl
      · exact .fail _ _ _
    · rw [peek_of_rest_nil hnil]
      exact .fail _ _ _

include hb hb'

theorem callOf_carries (schema : Option String) (name : String) (hN : s.rest.length ≤ N)
    (hs : s.Tracks T k s') : Carries T k s.remaining (Expr.shift k) (callOf expr b schema name s)
      (callOf expr' b' schema name s') := by
  unfold callOf
  refine .expect hs '(' _ fun t t' hlt ht => ?_
  have hle := s.remaining_le
  have hleft := t.remaining_le
  have hargs : Carries T k t.remaining (List.map (Expr.shift k))
      (separated (argument expr) ')' "',' or ')' in argument list" b t.skipBlanks)
      (separated (argument expr') ')' "',' or ')' in argument list" b' t'.skipBlanks) := by
    rw [← t.remaining_skipBlanks]
    have hless : t.skipBlanks.rest.length = t.remaining := rfl
    exact separated_carries (fun u u' hu => argument_carries hexpr hT hu) (by decide) _
      (by omega) (by omega) (by omega) ht.tracks.skipBlanks
  refine (Carries.untilClose ht.tracks rfl ?_).mono (by omega)
  refine hargs.bind_ok (fun args => .call schema name args) (fun args => .call schema name args)
    (fun _ _ => rfl) (fun _ _ => rfl) fun args => ?_
  rw [Expr.shift, Expr.shiftList_eq]

theorem identifierTail_carries (first : String) (hN : s.rest.length ≤ N) (h : s.Prolonged T k s') :
    Carries T k (s.rest.length + 1) (Expr.shift k) (identifierTail mode expr b first s)
      (identifierTail mode expr' b' first s') := by
  have hcall (schema : Option String) (name : String) {t t' : Source}
      (ht : t.rest.length ≤ s.rest.length) (hsame : t.Prolonged T k t') :
      Carries T k (s.rest.length + 1) (Expr.shift k) (callOf expr b schema name t.skipBlanks)
        (callOf expr' b' schema name t'.skipBlanks) := by
    have hle := t.remaining_le
    have hless : t.skipBlanks.rest.length = t.remaining := rfl
    refine (callOf_carries hexpr hT hb hb' schema name (by omega) hsame.tracks.skipBlanks).mono ?_
    rw [t.remaining_skipBlanks]
    omega
  have hparen {t t' : Source} (hsame : t.Prolonged T k t') :
      (t'.skipBlanks.peek = some '(') = (t.skipBlanks.peek = some '(') :=
    propext (hsame.tracks.peek_eq_iff hT (by decide))
  have hfield := fieldFrom_carries h hT (hN.trans hb) (hN.trans hb') (some (.member first))
  have hcolumn := columnFrom_carries h hT first
  have hpoint := h.eat fun hhead => hT.head '.' hhead (by decide)
  unfold identifierTail
  simp only [hparen h]
  split
  · exact hcall none first le_rfl h
  · generalize heat : s.eat '.' = a, s'.eat '.' = a' at hpoint
    cases hpoint with
    | none => cases mode <;> assumption
    | @some t t' ht =>
      dsimp only
      cases hident : identifier t with
      | ok x =>
        obtain ⟨second, u⟩ := x
        obtain ⟨hlt, u', hu', hsame⟩ := identifier_keeps ht.2 hT second u hident
        rw [hu']
        simp only [hparen hsame]
        split
        · exact hcall (some first) second (hlt.le.trans ht.1.le) hsame
        · cases mode <;> assumption
      | error e =>
        by_cases hquoted : t.peek = some '`'
        · cases mode with
          | document =>
            exact (fieldFrom_vain heat hquoted hident (hN.trans hb) _).carries _
          | table =>
            have hparts : dottedParts 2 s = ([], s) := by
              unfold dottedParts
              rw [heat]
              dsimp only
              rw [hident]
            refine (columnFrom_leavesPoint first ?_ ?_).carries _ <;> rw [hparts]
            · exact Nat.lt_succ_self _
            · exact Source.peek_of_eat heat
        · obtain ⟨e', he'⟩ := exists_identifier_error ht.2 hT hquoted hident
          rw [he']
          cases mode <;> assumption

/-! ## Casts, objects and arrays -/

omit hb hb'

theorem castOf_carries (hN : s.rest.length ≤ N) (h : s.Prolonged T k s')
    (hcast : s.atKeyword "cast" = true) : Carries T k s.rest.length (Expr.shift k) (castOf expr s)
      (castOf expr' s') := by
  have hfour : 4 ≤ s.rest.length := by
    unfold Source.atKeyword at hcast
    cases hword : s.word? with
    | none =>
      rw [hword] at hcast
      cases hcast
    | some word =>
      rw [hword] at hcast
      rw [show 4 = word.length from (length_eq_of_sameWord hcast).symm]
      exact (Source.length_word hword).2
  have hskip : (s.skip 4).Prolonged T k (s'.skip 4) := h.skip hfour
  have hless : (s.skip 4).rest.length = s.rest.length - 4 := s.length_skip 4
  have hle := (s.skip 4).remaining_le
  unfold castOf
  refine .expect hskip.tracks '(' _ fun t t' hlt ht => ?_
  have hleft := t.remaining_le
  refine .bind (hexpr t t' (by omega) ht.tracks) (fun e u _ hdangling => ?_) fun e u u' hu hu' => ?_
  · dsimp only
    rw [hdangling.skipBlanks_eq, hdangling.eatKeyword]
    exact Yields.fail _ _
  · dsimp only
    have hbehind := u.remaining_le
    obtain ⟨-, hsame⟩ | ⟨hnil, -⟩ := hu'.cases
    · have has := hsame.eatKeyword hT "as"
      generalize u.skipBlanks.eatKeyword "as" = a, u'.skipBlanks.eatKeyword "as" = a' at has
      cases has with
      | none => exact .fail _ _ _
      | @some v v' hv =>
        have hv1 : v.rest.length < u.remaining := hv.1
        have hrest := v.remaining_le
        refine .of_keeps (castType_keeps hv.2.tracks hT) fun type w w' hw hw' => ?_
        refine .expect hw'.tracks ')' _ fun x x' hx hx' => .ok ?_ hx'.tracks rfl
        have := w.remaining_le
        omega
    · rw [show u.skipBlanks.eatKeyword "as" = none from eatKeyword_of_not (atKeyword_of_nil hnil _)]
      exact .fail _ _ _

theorem objectField_carries (hN : s.rest.length < N) (hs : s.Tracks T k s') :
    Carries T k s.remaining (fun (key, e) => (key, e.shift k)) (objectField mode expr s)
      (objectField mode expr' s') := by
  have hle := s.remaining_le
  have value (key : String) {t t' : Source} (hlt : t.rest.length < s.remaining)
      (ht : t.Prolonged T k t') : Carries T k s.remaining (fun (key, e) => (key, e.shift k))
        (t.expect ':' "':' after object key" >>= fun t => expr t >>= fun x =>
          .ok ((key, x.1), x.2))
        (t'.expect ':' "':' after object key" >>= fun t => expr' t >>= fun x =>
          .ok ((key, x.1), x.2)) := by
    refine .expect ht.tracks ':' _ fun u u' hu hu' => ?_
    have hleft := t.remaining_le
    have hbehind := u.remaining_le
    exact ((hexpr u u' (by omega) hu'.tracks).mono (by omega)).bind_ok (fun e => (key, e))
      (fun e => (key, e)) (fun _ _ => rfl) (fun _ _ => rfl) fun _ => rfl
  unfold objectField
  dsimp only
  obtain ⟨hne, hsame⟩ | ⟨hnil, -⟩ := hs.cases
  · rw [hsame.peek_eq hne, hsame.word?_eq hT]
    split
    · exact .of_keeps (quoted_keeps hsame hT) fun key t t' hlt ht => value key hlt ht
    · split
      · rename_i word hword
        obtain ⟨hlt, hpassed⟩ := hsame.passWord hword
        exact value _ hlt hpassed
      · exact .error _ _
  · have hword : s.skipBlanks.word? = none := by
      unfold Source.word?
      rw [peek_of_rest_nil hnil]
    rw [peek_of_rest_nil hnil, hword]
    simp only [reduceCtorEq, or_self, if_false]
    cases mode <;> exact .error _ _

include hb hb'

theorem objectBody_carries (hN : s.rest.length < N) (hs : s.Tracks T k s') :
    Carries T k s.remaining (Expr.shift k) (objectBody mode expr b s)
      (objectBody mode expr' b' s') := by
  have hfields : Carries T k s.remaining (List.map fun (key, e) => (key, e.shift k))
      (separated (objectField mode expr) '\x7d' "',' or '\x7d'" b s.skipBlanks)
      (separated (objectField mode expr') '\x7d' "',' or '\x7d'" b' s'.skipBlanks) := by
    have hle := s.remaining_le
    have hless : s.skipBlanks.rest.length = s.remaining := rfl
    rw [← s.remaining_skipBlanks]
    exact separated_carries (fun u u' hu => objectField_carries mode hexpr hT hu) (by decide) _
      (by omega) (by omega) (by omega) hs.skipBlanks
  unfold objectBody
  refine Carries.untilClose hs rfl ?_
  refine hfields.map .object .object (fun _ _ => rfl) (fun _ _ => rfl) fun fields => ?_
  rw [Expr.shift, Expr.shiftFields_eq]

omit hT in
theorem arrayBody_carries (hN : s.rest.length < N) (hs : s.Tracks T k s') :
    Carries T k s.remaining (Expr.shift k) (arrayBody expr b s) (arrayBody expr' b' s') := by
  have hitems : Carries T k s.remaining (List.map (Expr.shift k))
      (separated expr ']' "',' or ']'" b s.skipBlanks)
      (separated expr' ']' "',' or ']'" b' s'.skipBlanks) := by
    have hle := s.remaining_le
    have hless : s.skipBlanks.rest.length = s.remaining := rfl
    rw [← s.remaining_skipBlanks]
    exact separated_carries hexpr (by decide) _ (by omega) (by omega) (by omega) hs.skipBlanks
  unfold arrayBody
  refine Carries.untilClose hs rfl ?_
  refine hitems.map .array .array (fun _ _ => rfl) (fun _ _ => rfl) fun items => ?_
  rw [Expr.shift, Expr.shiftList_eq]

/-! ## Any operand -/

theorem operand_carries (hN : s.rest.length ≤ N) (hs : s.Tracks T k s') :
    Carries T k s.remaining (Expr.shift k) (operand mode expr b s) (operand mode expr' b' s') := by
  unfold operand
  dsimp only
  obtain ⟨hne, h⟩ | ⟨hnil, -⟩ := hs.cases
  · have hle := s.remaining_le
    have hlength : s.skipBlanks.rest.length = s.remaining := rfl
    have hpos := List.length_pos_of_ne_nil hne
    have hpassed : (s.skipBlanks.skip 1).Prolonged T k (s'.skipBlanks.skip 1) := h.skip hpos
    have hless : (s.skipBlanks.skip 1).rest.length < s.remaining := Source.length_skip_lt hne Nat.one_pos
    have hleft := (s.skipBlanks.skip 1).remaining_le
    have tail {read read' : Except SyntaxError (String × Source)}
        (hread : Keeps T k s.skipBlanks.rest.length read read') :
        Carries T k s.remaining (Expr.shift k)
          (read >>= fun x => identifierTail mode expr b x.1 x.2)
          (read' >>= fun x => identifierTail mode expr' b' x.1 x.2) :=
      .of_keeps hread fun first t t' hlt ht =>
        (identifierTail_carries mode hexpr hT hb hb' first (by omega) ht).mono hlt
    have text : Carries T k s.remaining (Expr.shift k)
        ((quoted s.skipBlanks).map fun x => (Expr.literal (.str x.1), x.2))
        ((quoted s'.skipBlanks).map fun x => (Expr.literal (.str x.1), x.2)) :=
      .of_keeps_map (quoted_keeps h hT) (fun text => Expr.literal (.str text)) (fun _ _ => rfl)
        fun _ => rfl
    have hword := keywordLiteral_finds h hT
    generalize keywordLiteral s.skipBlanks = a, keywordLiteral s'.skipBlanks = a' at hword
    cases hword with
    | @some x x' hx =>
      obtain ⟨value, t⟩ := x
      obtain ⟨value', t'⟩ := x'
      obtain ⟨rfl, hlt, ht⟩ := hx
      exact .ok hlt ht.tracks rfl
    | none =>
      dsimp only
      rw [h.atNumeral_eq hT hne]
      split
      · rename_i hnumeral
        obtain ⟨hvalue, hlt, ht⟩ := h.numeral hT hnumeral false
        exact .ok hlt ht.tracks (by rw [hvalue]; rfl)
      · rw [h.peek_eq hne]
        split
        · refine .bind (hexpr _ _ (by omega) hpassed.tracks) (fun e t _ hdangling => ?_)
            fun e t t' hlt ht => ?_
          · dsimp only
            rw [hdangling.expect (by decide)]
            exact Yields.error _
          · refine .expect ht ')' _ fun u u' hu hu' => .ok ?_ hu'.tracks rfl
            have := t.remaining_le
            omega
        · exact (arrayBody_carries hexpr hb hb' (by omega) hpassed.tracks).mono (by omega)
        · exact (objectBody_carries mode hexpr hT hb hb' (by omega) hpassed.tracks).mono (by omega)
        · exact text
        · exact text
        · refine .ok hless ⟨?_, ?_⟩ (congrArg Expr.positional h.marks.symm)
          · rw [show Source.rest _ = _ from hpassed.rest]
          · show s'.skipBlanks.marks + 1 = s.skipBlanks.marks + 1 + k
            rw [h.marks]
            omega
        · exact (placeholderName_carries hpassed hT).mono hless.le
        · cases mode with
          | table => exact .fail _ _ _
          | document =>
            exact (fieldFrom_carries hpassed hT (by omega) (by omega) Option.none).mono hless
        · exact tail (identifier_keeps h hT)
        · rw [h.atKeyword_eq hT, h.wordStandsBefore_eq hT (by decide)]
          split
          · split
            · rename_i hcast
              exact castOf_carries hexpr hT (by omega) h (Bool.and_eq_true_iff.mp hcast).1
            · exact tail (bareIdentifier_keeps h hT)
          · exact .fail _ _ _
        · exact .fail _ _ _
  · have hnumeral : s.skipBlanks.atNumeral = false := by
      unfold Source.atNumeral
      rw [hnil]
    rw [keywordLiteral_of_nil hnil, hnumeral, peek_of_rest_nil hnil]
    exact .fail _ _ _

end

end DocWire
