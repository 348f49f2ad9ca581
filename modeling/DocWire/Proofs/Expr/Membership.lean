import DocWire.Proofs.Expr.Prolonged.Expressions
import DocWire.Proofs.Expr.Readable.Basic
import DocWire.Proofs.Expr.Roots

/-!
# Lists and operands behind `IN`

A parenthesis behind `IN` opens a list, or an operand that begins with an expression in parentheses.
It is read as a list first, and what comes behind it decides.

* `Meets.continuesOperand`   every operator from the comparisons down is known for one;
* `compile_membership`       the operand and the list, both also behind `NOT IN`.
-/

namespace DocWire

open Source (nextIn)

/-! ## Operators that follow -/

theorem exists_of_eatText {s t : Source} {text : String} (h : s.eatText text = some t) :
    s.rest = text.toList ++ t.rest := by
  unfold Source.eatText at h
  rw [Option.ite_none_right_eq_some] at h
  obtain ⟨hfound, ht⟩ := h
  obtain ⟨rest, hrest⟩ := List.isPrefixOf_iff_prefix.mp hfound
  obtain rfl := Option.some.inj ht
  show s.rest = text.toList ++ s.rest.drop text.toList.length
  rw [← hrest, List.drop_left]

theorem exists_of_eatOp {s t : Source} {text : String} {notBefore : List Char}
    (h : s.eatOp text notBefore = some t) :
    s.rest = text.toList ++ t.rest ∧ ∀ c ∈ t.peek, c ∉ notBefore := by
  unfold Source.eatOp at h
  cases htext : s.eatText text with
  | none =>
    rw [htext] at h
    cases h
  | some u =>
    rw [htext] at h
    dsimp only at h
    cases hpeek : u.peek with
    | none =>
      rw [hpeek] at h
      cases h
      exact ⟨exists_of_eatText htext, fun c hc => by rw [hpeek] at hc; cases hc⟩
    | some d =>
      rw [hpeek] at h
      dsimp only at h
      rw [Option.ite_none_left_eq_some] at h
      obtain ⟨hd, ht⟩ := h
      cases ht
      refine ⟨exists_of_eatText htext, fun c hc hmem => hd ?_⟩
      rw [hpeek] at hc
      cases hc
      exact List.contains_iff_mem.mpr hmem

/-- the characters that go on with a closed parenthesis, whatever stands behind them -/
def continuing : List Char := ['+', '-', '*', '/', '%', '<', '>', '=', '!', '^']

/-- It can be told from an operator, spelled so, that it goes on with a closed parenthesis. -/
def Spelling.Continues : Spelling → Prop
  | text chars => chars.toList.head? ∈ continuing.map some
  | op chars notBefore => chars.toList.head? ∈ continuing.map some ∨
      chars.toList ∈ [['&'], ['|']] ∧ notBefore = chars.toList
  | word chars => chars = "div"

theorem continues_spellingsAt {i : Nat} (hi : 3 ≤ i) : ∀ x ∈ spellingsAt i, x.2.Continues := by
  unfold spellingsAt
  split
  case h_1 | h_2 => omega
  all_goals
    simp only [List.forall_mem_cons, List.not_mem_nil, false_implies, implies_true,
      Spelling.Continues]
  all_goals decide

theorem continuesOperand_of_peek {s : Source} {c : Char} (hc : c ∈ continuing)
    (h : s.peek = some c) : s.continuesOperand = true := by
  unfold Source.continuesOperand
  rw [h]
  simp only [continuing, List.mem_cons, List.not_mem_nil, or_false] at hc
  rcases hc with rfl | rfl | rfl | rfl | rfl | rfl | rfl | rfl | rfl | rfl <;> rfl

theorem Spelling.continuesOperand {p : Spelling} (hp : p.Continues) {s t : Source}
    (h : p.eat s = some t) : s.continuesOperand = true := by
  have single {chars : String} (hfirst : chars.toList.head? ∈ continuing.map some)
      (hrest : s.rest = chars.toList ++ t.rest) : s.continuesOperand = true := by
    obtain ⟨c, hc, hchars⟩ := List.mem_map.mp hfirst
    refine continuesOperand_of_peek hc ?_
    unfold Source.peek
    rw [hrest, List.head?_append, ← hchars]
    rfl
  cases p with
  | text chars => exact single hp (exists_of_eatText h)
  | op chars notBefore =>
    obtain ⟨hrest, hbehind⟩ := exists_of_eatOp h
    obtain hfirst | ⟨hdouble, rfl⟩ := hp
    · exact single hfirst hrest
    -- `&` and `|` count where they are not doubled, which is what the operator asks for as well
    · obtain ⟨c, hc, hchars⟩ := List.mem_map.mp
        (show chars.toList ∈ ['&', '|'].map fun c => [c] from hdouble)
      rw [← hchars] at hrest hbehind
      have hpeek : s.peek = some c := by
        unfold Source.peek
        rw [hrest]
        rfl
      have hsecond : s.peekSecond ≠ some c := by
        unfold Source.peekSecond
        rw [hrest]
        exact fun hhead => hbehind c hhead (List.mem_singleton_self c)
      unfold Source.continuesOperand
      rw [hpeek]
      simp only [List.mem_cons, List.not_mem_nil, or_false] at hc
      rcases hc with rfl | rfl <;>
        exact Bool.or_eq_true_iff.mpr (.inl (bne_iff_ne.mpr hsecond))
  | word chars =>
    obtain rfl : chars = "div" := hp
    have hword : s.atKeyword "div" = true := by
      by_contra hnot
      rw [Bool.not_eq_true] at hnot
      rw [show Spelling.eat s (.word "div") = s.eatKeyword "div" from rfl,
        eatKeyword_of_not hnot] at h
      cases h
    unfold Source.continuesOperand
    rw [hword, Bool.or_true]

/-- An operator of the comparisons or of a tighter level goes on with a closed parenthesis. -/
theorem Meets.continuesOperand {k : Nat} (hk : 3 ≤ k) {T U : List Char} {name : String}
    (h : Meets k T name U) (pos m : Nat) : (nextIn T pos m).continuesOperand = true := by
  obtain ⟨pos', hfound⟩ := h pos m
  obtain ⟨p, hp, heat⟩ := exists_of_operatorsAt hfound
  exact Spelling.continuesOperand (continues_spellingsAt hk (name, p) hp) heat

/-! ## The words `IN` and `NOT IN` -/

theorem eq_blank_of_toLower {c : Char} (h : c.toLower = ' ') : c = ' ' := by
  by_cases hupper : c.val ≥ 'A'.val ∧ c.val ≤ 'Z'.val
  · have hall : ∀ n < 91, 65 ≤ n → (Char.ofNat n).toLower ≠ ' ' := by decide
    rw [← Char.ofNat_toNat c] at h
    exact absurd h (hall c.toNat (Nat.lt_succ_of_le hupper.2) hupper.1)
  · unfold Char.toLower at h
    rwa [dif_neg hupper] at h

/-- What is spelled like `IN` is a word, and what is spelled like `NOT IN` is two of them. -/
theorem exists_words {negated : Bool} {cs : List Char}
    (h : sameWord cs (negatedWord negated "in".toList) = true) :
    match negated with
    | false => ∃ w : Word, cs = w.chars ∧ sameWord w.chars "in".toList = true
    | true => ∃ v w : Word, cs = v.chars ++ ' ' :: w.chars ∧ sameWord v.chars "not".toList = true ∧
        sameWord w.chars "in".toList = true := by
  have exists_of {cs : List Char} (word : String) (hword : word ∈ ["in", "not"])
      (h : sameWord cs word.toList = true) : ∃ w : Word, w.chars = cs := by
    have hall : ∀ word ∈ ["in", "not"], word.toList ≠ [] ∧
        word.toList.all (fun d => isWordStart d.toLower) = true := by decide
    exact exists_word_of_sameWord h (hall word hword).1 (hall word hword).2
  cases negated with
  | false =>
    obtain ⟨w, rfl⟩ := exists_of "in" (by decide) h
    exact ⟨w, rfl, h⟩
  | true =>
    have hlower : cs.map Char.toLower = ['n', 'o', 't'] ++ [' ', 'i', 'n'] := beq_iff_eq.mp h
    obtain ⟨as, bs, rfl, has, hbs⟩ := List.map_eq_append_iff.mp hlower
    obtain ⟨c, cs, rfl, hc, hcs⟩ := List.map_eq_cons_iff.mp hbs
    obtain rfl := eq_blank_of_toLower hc
    have hnot : sameWord as "not".toList = true := beq_iff_eq.mpr has
    have hin : sameWord cs "in".toList = true := beq_iff_eq.mpr hcs
    obtain ⟨v, rfl⟩ := exists_of "not" (by decide) hnot
    obtain ⟨w, rfl⟩ := exists_of "in" (by decide) hin
    exact ⟨v, w, rfl, hnot, hin⟩

/-- `IN` and `NOT IN` begin with a word that is no operator. -/
theorem exists_first_word {negated : Bool} {cs : List Char}
    (h : sameWord cs (negatedWord negated "in".toList) = true) (U : List Char) :
    ∃ w : Word, ∃ V, cs ++ ' ' :: U = w.chars ++ V ∧ EndsWord V ∧
      sameWord w.chars "div".toList = false := by
  have hwords := exists_words h
  cases negated with
  | false =>
    obtain ⟨w, rfl, hin⟩ := hwords
    exact ⟨w, ' ' :: U, rfl, endsWord_cons rfl U, sameWord_congr hin _⟩
  | true =>
    obtain ⟨v, w, rfl, hnot, -⟩ := hwords
    exact ⟨v, ' ' :: (w.chars ++ ' ' :: U), by simp, endsWord_cons rfl _, sameWord_congr hnot _⟩

section
variable {mode : Mode} {expr : Source → Except SyntaxError (Expr × Source)} {bound : Nat}
  {negated : Bool} {cs U : List Char} (hcs : sameWord cs (negatedWord negated "in".toList) = true)
include hcs

/-- Behind its left operand, `IN` is recognized with a `NOT` before it or not. -/
theorem predicateLevel_in {s t : Source} {lhs : Expr} {m : Nat}
    (hlhs : comparisonLevel mode expr bound s = .ok (lhs, t))
    (ht : t.At (' ' :: (cs ++ ' ' :: U)) m) :
    ∃ u pos, predicateLevel mode expr bound s
        = negatablePredicate mode expr bound negated lhs u ∧
      u.eatKeyword "in" = some ⟨' ' :: U, pos, m⟩ := by
  have hend : EndsWord (' ' :: U) := endsWord_cons rfl U
  have hother {w : Word} {V : List Char} {word : String} (hw : sameWord w.chars word.toList = true)
      (hV : EndsWord V) (pos : Nat) (other : String)
      (hother : sameWord word.toList other.toList = false) :
      (⟨w.chars ++ V, pos, m⟩ : Source).eatKeyword other = none := by
    refine eatKeyword_of_not ?_
    rw [w.atKeyword_append hV, sameWord_congr hw, hother]
  have hwords := exists_words hcs
  obtain ⟨pos, hpos⟩ := ht.skipBlanks_eq
  unfold predicateLevel
  rw [hlhs, ok_bind]
  dsimp only
  rw [hpos]
  cases negated with
  | false =>
    obtain ⟨w, rfl, hin⟩ := hwords
    obtain ⟨pos', heat⟩ := w.eatKeyword_append hend hin pos m
    refine ⟨_, pos', ?_, heat⟩
    rw [w.nextIn_blank, hother hin hend pos "is" rfl, hother hin hend pos "not" rfl]
  | true =>
    obtain ⟨v, w, rfl, hnot, hin⟩ := hwords
    have hendv : EndsWord (' ' :: (w.chars ++ ' ' :: U)) := endsWord_cons rfl _
    obtain ⟨pos', heatv⟩ := v.eatKeyword_append hendv hnot pos m
    obtain ⟨pos'', hskip⟩ : ∃ pos'', (⟨' ' :: (w.chars ++ ' ' :: U), pos', m⟩ : Source).skipBlanks
        = ⟨w.chars ++ ' ' :: U, pos'', m⟩ :=
      (Source.At.blank (w.chars ++ ' ' :: U) pos' m).solid (isBlank_of_isWordStart w.starts)
    obtain ⟨posw, heatw⟩ := w.eatKeyword_append hend hin pos'' m
    have hnegatable : (⟨w.chars ++ ' ' :: U, pos'', m⟩ : Source).atNegatable = true := by
      unfold Source.atNegatable negatable
      rw [List.any_cons, w.atKeyword_append hend, hin, Bool.true_or]
    refine ⟨_, posw, ?_, heatw⟩
    rw [List.append_assoc, List.cons_append, v.nextIn_blank, hother hnot hendv pos "is" rfl, heatv]
    dsimp only
    rw [hskip, hnegatable]
    rfl

end

/-! ## Words behind an operand -/

section
variable (w : Word) {V : List Char}

theorem Word.peek_nextIn (pos m : Nat) : (nextIn (' ' :: (w.chars ++ V)) pos m).peek = some w.first := by
  rw [w.nextIn_blank]
  rfl

/-- A word behind a blank does not go on with a name. -/
theorem Word.gap : Gap (' ' :: (w.chars ++ V)) where
  blank := fun _ h => (Option.some.inj h).symm
  parenthesis := fun pos m h => by
    rw [w.peek_nextIn] at h
    exact w.first_ne (by decide) (Option.some.inj h)
  arrow := fun pos m => by
    rw [w.nextIn_blank]
    exact eatText_of_ne (w.first_ne (by decide)) rfl _ pos m
  doubleArrow := fun pos m => by
    rw [w.nextIn_blank]
    exact eatText_of_ne (w.first_ne (by decide)) rfl _ pos m

variable (hw : sameWord w.chars "div".toList = false) (hV : EndsWord V)
include hw hV

theorem Word.not_continuesOperand (pos m : Nat) :
    (⟨w.chars ++ V, pos, m⟩ : Source).continuesOperand = false := by
  refine continuesOperand_of_not (fun c hc hpeek => w.first_ne hc (Option.some.inj hpeek)) ?_
  rw [w.atKeyword_append hV, hw]

/-- A word that is no operator means nothing to the rungs below the predicates. -/
theorem Word.silent {i : Nat} (h3 : 3 ≤ i) (h8 : i ≤ 8) : Silent i (' ' :: (w.chars ++ V)) := by
  obtain rfl | hlt := Nat.eq_or_lt_of_le h8
  · intro pos m
    rw [w.peek_nextIn]
    exact .inl ⟨fun h => w.first_ne (by decide) (Option.some.inj h),
      fun h => w.first_ne (by decide) (Option.some.inj h)⟩
  · refine (silent_iff ⟨hlt, by omega⟩).mpr fun pos m => ?_
    rw [w.nextIn_blank]
    by_contra hfound
    obtain ⟨⟨name, t⟩, hfound⟩ := Option.ne_none_iff_exists'.mp hfound
    obtain ⟨p, hp, heat⟩ := exists_of_operatorsAt hfound
    have hcontinues := Spelling.continuesOperand (continues_spellingsAt h3 (name, p) hp) heat
    rw [w.not_continuesOperand hw hV] at hcontinues
    cases hcontinues

/-- A name is read in front of a word that is no operator. -/
theorem Name.reads_before (a : Name) {mode : Mode}
    {expr : Source → Except SyntaxError (Expr × Source)} {bound : Nat} (hbound : 0 < bound) :
    Reads (rung mode expr bound 3) a.chars 0 (fun _ => (Atom.name a).expr mode)
      (' ' :: (w.chars ++ V)) := by
  obtain ⟨count, rfl⟩ := Nat.exists_eq_succ_of_ne_zero hbound.ne'
  have hunary : Reads (unaryLevel mode expr (count + 1) (count + 1)) a.chars 0
      (fun _ => (Atom.name a).expr mode) (' ' :: (w.chars ++ V)) := (Atom.name a).reads w.gap count
  exact (intervalLevel_reads hunary (w.silent hw hV (by decide) le_rfl)).climb (by decide) le_rfl
    fun i h3 h8 => w.silent hw hV h3 h8.le

end

/-! ## Membership -/

section
variable {mode : Mode} {negated : Bool} {cs U : List Char}

/-- What stands behind `IN` is read to the end, so all of the text is. -/
theorem compileExpr_in (a : Name) (hcs : sameWord cs (negatedWord negated "in".toList) = true)
    {n : Nat} {x : Nat → Expr}
    (hbehind : ∀ b ≥ U.length, ∀ u pos m, u.eatKeyword "in" = some ⟨' ' :: U, pos, m⟩ →
      ∃ t, negatablePredicate mode (exprWithin mode b) (b + 1) negated ((Atom.name a).expr mode) u
        = .ok (x m, t) ∧ t.At [] (m + n)) :
    compileExpr (String.ofList (a.chars ++ ' ' :: (cs ++ ' ' :: U))) mode = .ok (x 0) := by
  refine compileExpr_of_reads (n := n) ?_
  obtain ⟨b, hb⟩ : ∃ b, (a.chars ++ ' ' :: (cs ++ ' ' :: U)).length = b + 1 :=
    ⟨a.more.length + (' ' :: (cs ++ ' ' :: U)).length, by
      rw [List.length_append, show a.chars.length = a.more.length + 1 from rfl]
      omega⟩
  have hU : U.length ≤ b := by
    simp only [List.length_append, List.length_cons] at hb
    omega
  rw [hb]
  have hpredicate : Reads (rung mode (exprWithin mode b) (b + 1) 2)
      (a.chars ++ ' ' :: (cs ++ ' ' :: U)) n x [] := by
    intro s m hs
    obtain ⟨w, V, hcsV, hV, hw⟩ := exists_first_word hcs U
    rw [List.append_nil] at hs
    obtain ⟨t, ht, hat⟩ := a.reads_before w hw hV (Nat.succ_pos b) s m (hcsV ▸ hs)
    obtain ⟨u, pos, hu, hin⟩ := predicateLevel_in hcs ht (hcsV ▸ hat)
    obtain ⟨v, hv, hatv⟩ := hbehind b hU u pos m hin
    exact ⟨v, hu.trans hv, hatv⟩
  exact hpredicate.climb (Nat.zero_le 2) (by decide) fun i _ hi => silent_nil (by omega)

/-- Behind `IN` and a parenthesis, a list is read first. -/
theorem negatablePredicate_in {expr : Source → Except SyntaxError (Expr × Source)} {bound : Nat}
    {lhs : Expr} {u : Source} {pos m : Nat}
    (hin : u.eatKeyword "in" = some ⟨' ' :: '(' :: U, pos, m⟩) :
    negatablePredicate mode expr bound negated lhs u
      = parenthesizedList expr bound ⟨U, pos + 2, m⟩ >>= fun x => match x with
        | (some items, t) => .ok (.op (negatedName negated "in") (lhs :: items), t)
        | (none, _) => comparisonLevel mode expr bound ⟨'(' :: U, pos + 1, m⟩ >>= fun y =>
          .ok (.op (negatedName negated "cont_in") [lhs, y.1], y.2) := by
  unfold negatablePredicate
  dsimp only
  rw [hin]
  rfl

/-- a text and what it is compiled to, as a part of a longer text -/
def Piece.ofText (text : String) (e : Expr) : Piece Expr :=
  ⟨text.toList, e.positionalCount, fun m => e.shift m⟩

theorem Piece.readBefore_of_compileExpr {text : String} {e : Expr}
    (h : compileExpr text mode = .ok e) {b : Nat} (hb : text.toList.length ≤ b) :
    (Piece.ofText text e).ReadBefore (exprWithin mode b) ')' := by
  intro c hc T
  refine reads_of_compileExpr h (.closing ?_ T) hb
  simp only [List.mem_cons, List.not_mem_nil, or_false] at hc ⊢
  exact hc.elim (fun h => .inr (.inl h)) .inl

/-- A list of one item is given up where an operator follows. -/
theorem parenthesizedList_of_operator {inner : String} {p : Expr} (hp : compileExpr inner mode = .ok p)
    {k : Nat} (hk : 3 ≤ k) {name : String} {T V : List Char} (hmeets : Meets k T name V) {b : Nat}
    (hb : inner.toList.length ≤ b) (pos m : Nat) :
    ∃ t, parenthesizedList (exprWithin mode b) (b + 1) ⟨inner.toList ++ ')' :: T, pos, m⟩
      = .ok (none, t) := by
  have hitem : ∀ q ∈ [Piece.ofText inner p], q.ReadBefore (exprWithin mode b) ')' := by
    intro q hq
    rw [List.mem_singleton.mp hq]
    exact Piece.readBefore_of_compileExpr hp hb
  have hat : (⟨inner.toList ++ ')' :: T, pos, m⟩ : Source).At
      ((Piece.row [Piece.ofText inner p]).chars ++ [')'] ++ T) m := by
    rw [show (Piece.row [Piece.ofText inner p]).chars ++ [')'] ++ T = inner.toList ++ ')' :: T by
      simp [Piece.row, Piece.within, Piece.ofText]]
    exact .refl _ _ _
  obtain ⟨t, ht, hatt⟩ := separated_reads ')' (by decide) "',' or ')'" _ (List.cons_ne_nil _ _) hitem
    (Nat.succ_pos b) T _ m hat
  obtain ⟨pos', hnext⟩ := hatt.skipBlanks_eq
  refine ⟨t, ?_⟩
  unfold parenthesizedList
  rw [ht, ok_bind]
  dsimp only
  rw [hnext, hmeets.continuesOperand hk]
  rfl

/-- A list is kept where the text ends. -/
theorem parenthesizedList_of_end {expr : Source → Except SyntaxError (Expr × Source)} {bound : Nat}
    {ps : List (Piece Expr)} (hps : ps ≠ []) (hitems : ∀ q ∈ ps, q.ReadBefore expr ')')
    (hbound : ps.length ≤ bound) (pos m : Nat) :
    ∃ t, parenthesizedList expr bound ⟨(Piece.row ps).chars ++ [')'], pos, m⟩
        = .ok (some ((Piece.row ps).value m), t) ∧ t.At [] (m + (Piece.row ps).marks) := by
  obtain ⟨t, ht, hat⟩ := separated_reads ')' (by decide) "',' or ')'" ps hps hitems hbound []
    ⟨(Piece.row ps).chars ++ [')'], pos, m⟩ m (by rw [List.append_nil]; exact .refl _ _ _)
  obtain ⟨pos', hnext⟩ := hat.skipBlanks_eq
  refine ⟨t, ?_, hat⟩
  unfold parenthesizedList
  rw [ht, ok_bind]
  dsimp only
  rw [hnext]
  rfl

/-- A parenthesis behind which an operator follows opens an operand. -/
theorem compileExpr_operand (a : Name) (hcs : sameWord cs (negatedWord negated "in".toList) = true)
    {inner rest : String} {p e : Expr} (hp : compileExpr inner mode = .ok p)
    (hrest : ∃ k ≥ 3, ∃ name V, Meets k rest.toList name V)
    (he : compileExpr ("(" ++ inner ++ ")" ++ rest) mode = .ok e) (hroot : ¬ e.RootIn looseNames) :
    compileExpr (String.ofList (a.chars ++ ' ' :: (cs ++ ' ' :: '(' ::
        (inner.toList ++ ')' :: rest.toList)))) mode
      = .ok (.op (negatedName negated "cont_in") [(Atom.name a).expr mode, e]) := by
  obtain ⟨k, hk, name, V, hmeets⟩ := hrest
  have htext : ("(" ++ inner ++ ")" ++ rest).toList = '(' :: (inner.toList ++ ')' :: rest.toList) := by
    simp
  let x (m : Nat) := Expr.op (negatedName negated "cont_in") [(Atom.name a).expr mode, e.shift m]
  have hzero : x 0 = .op (negatedName negated "cont_in") [(Atom.name a).expr mode, e] := by
    rw [← e.shift_zero]
  rw [← hzero]
  refine compileExpr_in (n := e.positionalCount) a hcs fun b hb u pos m hin => ?_
  have hlength : inner.toList.length ≤ b ∧ ("(" ++ inner ++ ")" ++ rest).toList.length ≤ b + 1 := by
    rw [htext]
    simp only [List.length_cons, List.length_append] at hb ⊢
    omega
  -- the list is given up, and the operand is read from the parenthesis on, with `m` marks again
  obtain ⟨t, hlist⟩ := parenthesizedList_of_operator hp hk hmeets hlength.1 (pos + 2) m
  obtain ⟨v, hv, hat⟩ := reads_of_compileExpr he .nil hlength.2
    ⟨'(' :: (inner.toList ++ ')' :: rest.toList), pos + 1, m⟩ m (by
      rw [htext, List.append_nil]
      exact .refl _ _ _)
  obtain ⟨w, hw, hatw⟩ := comparisonLevel_of_orLevel hv (fun h => hroot h.of_shift) hat
  refine ⟨w, ?_, hatw⟩
  rw [negatablePredicate_in hin, hlist, ok_bind]
  dsimp only
  rw [hw]
  rfl

/-- The items of a list are numbered on. -/
theorem Piece.row_value (items : List (String × Expr)) (p : Placeholders) :
    (Piece.row (items.map fun x => Piece.ofText x.1 x.2)).value p.positional
      = (p.assignFrom (items.map Prod.snd)).1 := by
  induction items generalizing p with
  | nil => rfl
  | cons first rest ih =>
    cases rest with
    | nil => rfl
    | cons second rest =>
      exact congrArg (first.2.shift p.positional :: ·)
        (ih ⟨p.positional + first.2.positionalCount, _⟩)

theorem Piece.row_chars (items : List (String × Expr)) :
    (Piece.row (items.map fun x => Piece.ofText x.1 x.2)).chars
      = (", ".intercalate (items.map Prod.fst)).toList := by
  rw [String.toList_intercalate]
  induction items with
  | nil => rfl
  | cons first rest ih =>
    cases rest with
    | nil => simp [row, within, ofText]
    | cons second rest =>
      simp only [List.map_cons, List.intercalate_cons_cons] at ih ⊢
      rw [← ih]
      rfl

/-- A parenthesis that is closed at the end of a text opens a list. -/
theorem compileExpr_list (a : Name) (hcs : sameWord cs (negatedWord negated "in".toList) = true)
    {items : List (String × Expr)} (hsome : items ≠ [])
    (hitems : ∀ x ∈ items, compileExpr x.1 mode = .ok x.2) :
    compileExpr (String.ofList (a.chars ++ ' ' :: (cs ++ ' ' :: '(' ::
        ((", ".intercalate (items.map Prod.fst)).toList ++ [')'])))) mode
      = .ok (.op (negatedName negated "in")
          ((Atom.name a).expr mode :: (Placeholders.assign (items.map Prod.snd)).1)) := by
  let ps := items.map fun x => Piece.ofText x.1 x.2
  have hvalue : (Piece.row ps).value 0 = (Placeholders.assign (items.map Prod.snd)).1 :=
    Piece.row_value items {}
  rw [← Piece.row_chars, ← hvalue]
  refine compileExpr_in (n := (Piece.row ps).marks)
    (x := fun m => .op (negatedName negated "in") ((Atom.name a).expr mode :: (Piece.row ps).value m))
    a hcs fun b hb u pos m hin => ?_
  have hrow : (Piece.row ps).chars.length + 2 ≤ b := by
    simp only [List.length_cons, List.length_append, List.length_nil] at hb
    omega
  have hread : ∀ q ∈ ps, q.ReadBefore (exprWithin mode b) ')' := by
    intro q hq
    have hlength := Piece.length_le_row hq
    obtain ⟨x, hx, rfl⟩ := List.mem_map.mp hq
    exact Piece.readBefore_of_compileExpr (hitems x hx) (hlength.trans (by omega))
  have hlength : ps.length ≤ b + 1 := (Piece.length_le_length_row ps).trans (by omega)
  obtain ⟨t, hlist, hat⟩ := parenthesizedList_of_end (fun h => hsome (List.map_eq_nil_iff.mp h)) hread
    hlength (pos + 2) m
  refine ⟨t, ?_, hat⟩
  rw [negatablePredicate_in hin, hlist, ok_bind]

end

/-- **`IN` tells a list from an operand.**  Behind `IN`, an expression in parentheses with an
operator behind it is the beginning of an operand, if no operator that binds more loosely than the
comparisons stands at its root.  Expressions in parentheses with commas between them, one or more,
are a list, in which the placeholders are numbered on from item to item. -/
theorem compile_membership (mode : Mode) (a : Name) (negated : Bool) {word : String}
    (hword : sameWord word.toList (negatedWord negated "in".toList) = true) :
    (∀ (inner rest : String) (p e : Expr), compileExpr inner mode = .ok p →
      (∃ k ≥ 3, ∃ name V, Meets k rest.toList name V) →
      compileExpr ("(" ++ inner ++ ")" ++ rest) mode = .ok e → ¬ e.RootIn looseNames →
      compileExpr (a.text ++ " " ++ word ++ " " ++ ("(" ++ inner ++ ")" ++ rest)) mode
        = .ok (.op (negatedName negated "cont_in") [(Atom.name a).expr mode, e])) ∧
    ∀ items : List (String × Expr), items ≠ [] → (∀ x ∈ items, compileExpr x.1 mode = .ok x.2) →
      compileExpr (a.text ++ " " ++ word ++ " (" ++ ", ".intercalate (items.map Prod.fst) ++ ")") mode
        = .ok (.op (negatedName negated "in")
            ((Atom.name a).expr mode :: (Placeholders.assign (items.map Prod.snd)).1)) := by
  refine ⟨fun inner rest p e hp hrest he hroot => ?_, fun items hsome hitems => ?_⟩
  · rw [← compileExpr_operand a hword hp hrest he hroot]
    congr 1
    refine String.toList_injective ?_
    simp [Word.text]
  · rw [← compileExpr_list a hword hsome hitems]
    congr 1
    refine String.toList_injective ?_
    simp [Word.text]

/-- An interval is subtracted from what the parenthesis holds, and what looks the same without it is
a list of one item. -/
theorem compile_membership_interval :
    let date := Expr.op "date_sub" [.positional 0, .positional 1,
      .literal (.bytes (Text.Utf8.encode "DAY"))]
    compileExpr "(?) - interval ? day" .table = .ok date ∧
      compileExpr ("due" ++ " " ++ "Not In" ++ " " ++ ("(" ++ "?" ++ ")" ++ " - interval ? day")) .table
        = .ok (.op "not_cont_in" [.bareColumn "due", date]) ∧
      compileExpr ("due" ++ " " ++ "Not In" ++ " (" ++ "?, (?) - interval ? day" ++ ")") .table
        = .ok (.op "not_in" [.bareColumn "due", .positional 0, .op "date_sub" [.positional 1,
            .positional 2, .literal (.bytes (Text.Utf8.encode "DAY"))]]) := by
  let due : Name := ⟨⟨'d', ['u', 'e'], rfl, List.all_eq_true.mp rfl⟩, rfl⟩
  obtain ⟨hoperand, hlist⟩ := compile_membership .table due true
    (show sameWord "Not In".toList (negatedWord true "in".toList) = true from rfl)
  have hmark : compileExpr "?" .table = .ok (.positional 0) := rfl
  have hdate : compileExpr "(?) - interval ? day" .table = .ok (.op "date_sub" [.positional 0,
    .positional 1, .literal (.bytes (Text.Utf8.encode "DAY"))]) := rfl
  refine ⟨hdate, hoperand "?" " - interval ? day" _ _ hmark
    ⟨6, by decide, "-", _, fun pos m => ⟨_, rfl⟩⟩ hdate ?_, ?_⟩
  · rintro ⟨name, args, he, hname⟩
    cases he
    exact absurd hname (by decide)
  · exact hlist [("?", _), ("(?) - interval ? day", _)] (List.cons_ne_nil _ _) (by
      simp only [List.forall_mem_cons]
      exact ⟨hmark, hdate, nofun⟩)

end DocWire
