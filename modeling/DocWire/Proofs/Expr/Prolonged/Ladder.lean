import DocWire.Proofs.Expr.Prolonged.Operands
import DocWire.Proofs.Expr.Rungs

/-!
# Levels in texts that go on

What the ladder reads of a text it reads of a longer one, up to the same place: no look ahead sees
anything in what comes behind, since that goes on with nothing.

* `Spelling`             how operators are spelled, so that one lemma serves all levels;
* `chain_carries`, `intervalChain_carries`   what is folded onto a left operand;
* `unaryLevel_carries`, `predicateLevel_carries`, `rung_carries`   the levels;
* `exprWithin_carries`   whole expressions, by induction on what is left of the text.
-/

namespace DocWire

open Source (nextIn)

variable {α : Type} {T : List Char} {k n : Nat} {s s' : Source}

/-! ## Operators -/

/-- How an operator is spelled: as a text, as a text that does not go on with certain characters, or
as a word. -/
inductive Spelling
  | text (chars : String)
  | op (chars : String) (notBefore : List Char)
  | word (chars : String)

namespace Spelling

def eat (s : Source) : Spelling → Option Source
  | text chars => s.eatText chars
  | op chars notBefore => s.eatOp chars notBefore
  | word chars => s.eatKeyword chars

/-- Nothing that is detached can be taken for a part of the operator. -/
def Joins : Spelling → Prop
  | text chars => chars.toList ≠ [] ∧ '.' ∉ chars.toList ∧ chars.toList ⊆ joining
  | op chars notBefore =>
    chars.toList ≠ [] ∧ '.' ∉ chars.toList ∧ chars.toList ++ notBefore ⊆ joining
  | word chars => chars ∈ joiningWords

instance (p : Spelling) : Decidable p.Joins := by
  cases p <;> unfold Joins <;> infer_instance

variable {p : Spelling} (hp : p.Joins)
include hp

theorem sees (h : s.Tracks T k s') (hT : Detached T) :
    Sees T k s.remaining (p.eat s.skipBlanks) (p.eat s'.skipBlanks) := by
  cases p with
  | text chars => exact h.eatText hT hp.1 hp.2.2
  | op chars notBefore => exact h.eatOp hT hp.1 hp.2.2
  | word chars => exact h.eatKeyword hT hp

theorem eat_of_dangling (h : s.Dangling) : p.eat s = none := by
  have absent {chars : String} (hchars : chars.toList ≠ []) (hpoint : '.' ∉ chars.toList) :
      s.eatText chars = none := by
    obtain ⟨c, cs, hcs⟩ := List.exists_cons_of_ne_nil hchars
    refine h.eatText hcs fun hc => hpoint ?_
    rw [hcs, hc]
    exact List.mem_cons_self
  cases p with
  | text chars => exact absent hp.1 hp.2.1
  | op chars notBefore =>
    show s.eatOp chars notBefore = none
    unfold Source.eatOp
    rw [absent hp.1 hp.2.1]
  | word chars => exact h.eatKeyword chars

end Spelling

/-- Operators by their names and spellings, of which the first that is there counts. -/
def operatorsOf (spellings : List (String × Spelling)) : Operators := fun s =>
  firstOf (spellings.map fun x => called x.1 (x.2.eat s))

theorem firstOf_cons (first : Option (String × Source)) (rest : List (Option (String × Source))) :
    firstOf (first :: rest) = first.or (firstOf rest) := by
  cases first <;> rfl

theorem operatorsOf_finds {spellings : List (String × Spelling)}
    (hjoin : ∀ x ∈ spellings, x.2.Joins) (h : s.Tracks T k s') (hT : Detached T) :
    Finds T k s.remaining (operatorsOf spellings s.skipBlanks)
      (operatorsOf spellings s'.skipBlanks) := by
  unfold operatorsOf
  induction spellings with
  | nil => exact .none
  | cons x rest ih =>
    rw [List.map_cons, List.map_cons, firstOf_cons, firstOf_cons]
    exact (Finds.of_sees (Spelling.sees (hjoin x List.mem_cons_self) h hT) x.1).or
      (ih fun y hy => hjoin y (List.mem_cons_of_mem x hy))

theorem operatorsOf_of_dangling {spellings : List (String × Spelling)}
    (hjoin : ∀ x ∈ spellings, x.2.Joins) (h : s.Dangling) : operatorsOf spellings s = none := by
  unfold operatorsOf
  induction spellings with
  | nil => rfl
  | cons x rest ih =>
    rw [List.map_cons, firstOf_cons, Spelling.eat_of_dangling (hjoin x List.mem_cons_self) h]
    exact ih fun y hy => hjoin y (List.mem_cons_of_mem x hy)

/-- The operators of the binary levels as they are spelled. -/
def spellingsAt : Nat → List (String × Spelling)
  | 0 => [("||", .text "||"), ("||", .word "or")]
  | 1 => [("&&", .text "&&"), ("&&", .word "and")]
  | 3 => [("==", .text "=="), ("!=", .text "!="), ("!=", .text "<>"), (">=", .text ">="),
      ("<=", .text "<="), ("==", .text "="), (">", .op ">" ['>']), ("<", .op "<" ['<'])]
  | 4 => [("<<", .text "<<"), (">>", .text ">>")]
  | 5 => [("&", .op "&" ['&']), ("|", .op "|" ['|']), ("^", .text "^")]
  | 6 => [("+", .text "+"), ("-", .op "-" ['>'])]
  | 7 => [("*", .op "*" ['*']), ("/", .text "/"), ("%", .text "%"), ("div", .word "div")]
  | _ => []

theorem operatorsAt_eq (i : Nat) : operatorsAt i = operatorsOf (spellingsAt i) := by
  match i with
  | 0 | 1 | 2 | 3 | 4 | 5 | 6 | 7 | i + 8 => rfl

theorem joins_spellingsAt (i : Nat) : ∀ x ∈ spellingsAt i, x.2.Joins := by
  unfold spellingsAt
  split <;> decide

theorem operatorsAt_finds (i : Nat) (h : s.Tracks T k s') (hT : Detached T) :
    Finds T k s.remaining (operatorsAt i s.skipBlanks) (operatorsAt i s'.skipBlanks) := by
  rw [operatorsAt_eq]
  exact operatorsOf_finds (joins_spellingsAt i) h hT

theorem operatorsAt_of_dangling (i : Nat) (h : s.Dangling) : operatorsAt i s = none := by
  rw [operatorsAt_eq]
  exact operatorsOf_of_dangling (joins_spellingsAt i) h

/-! ## Chains -/

theorem chain_of_not {operators : Operators} (h : operators s.skipBlanks = none)
    (operand : Source → Except SyntaxError (Expr × Source)) (bound : Nat) (lhs : Expr) :
    chain operators operand bound lhs s = .ok (lhs, s.skipBlanks) := by
  cases bound with
  | zero => rfl
  | succ bound =>
    unfold chain
    rw [h]

theorem chain_leavesPoint (i : Nat) (h : s.Dangling) (hn : s.rest.length < n)
    (operand : Source → Except SyntaxError (Expr × Source)) (bound : Nat) (lhs : Expr) :
    LeavesPoint n (chain (operatorsAt i) operand bound lhs s) := by
  have hnone : operatorsAt i s.skipBlanks = none := by
    rw [h.skipBlanks_eq]
    exact operatorsAt_of_dangling i h
  rw [chain_of_not hnone, h.skipBlanks_eq]
  exact Yields.ok ⟨hn, h⟩

section
variable {N : Nat} {operand operand' : Source → Except SyntaxError (Expr × Source)}
  (hoperand : ∀ u u' : Source, u.rest.length ≤ N → u.Tracks T k u' →
    Carries T k u.remaining (Expr.shift k) (operand u) (operand' u'))
  (hT : Detached T)
include hoperand hT

theorem chain_carries (i : Nat) {b b' : Nat} (lhs : Expr) (hN : s.rest.length ≤ N)
    (hb : s.rest.length ≤ b) (hb' : s.rest.length ≤ b') (hs : s.Tracks T k s') :
    Carries T k (s.remaining + 1) (Expr.shift k) (chain (operatorsAt i) operand b lhs s)
      (chain (operatorsAt i) operand' b' (lhs.shift k) s') := by
  have stop {s s' : Source} (hs : s.Tracks T k s') (hnone : operatorsAt i s.skipBlanks = none)
      (hnone' : operatorsAt i s'.skipBlanks = none) (b b' : Nat) (lhs : Expr) :
      Carries T k (s.remaining + 1) (Expr.shift k) (chain (operatorsAt i) operand b lhs s)
        (chain (operatorsAt i) operand' b' (lhs.shift k) s') := by
    rw [chain_of_not hnone, chain_of_not hnone']
    exact .ok (Nat.lt_succ_self _) hs.skipBlanks rfl
  induction b generalizing b' lhs s s' with
  | zero =>
    have hop := operatorsAt_finds i hs hT
    generalize heq : operatorsAt i s.skipBlanks = a, heq' : operatorsAt i s'.skipBlanks = a' at hop
    cases hop with
    | none => exact stop hs heq heq' 0 b' lhs
    | some hx => exact absurd (hx.2.1.trans_le (s.remaining_le.trans hb)) (Nat.not_lt_zero _)
  | succ b ih =>
    have hop := operatorsAt_finds i hs hT
    generalize heq : operatorsAt i s.skipBlanks = a, heq' : operatorsAt i s'.skipBlanks = a' at hop
    cases hop with
    | none => exact stop hs heq heq' (b + 1) b' lhs
    | @some x x' hx =>
      obtain ⟨name, t⟩ := x
      obtain ⟨name', t'⟩ := x'
      obtain ⟨rfl, hlt, ht⟩ : name' = name ∧ t.rest.length < s.remaining ∧ t.Prolonged T k t' := hx
      have hle := s.remaining_le
      have hleft := t.remaining_le
      obtain ⟨b', rfl⟩ := Nat.exists_eq_succ_of_ne_zero (by omega : b' ≠ 0)
      unfold chain
      rw [heq, heq']
      refine .bind (hoperand t t' (by omega) ht.tracks) (fun rhs u hu hpoint => ?_)
        fun rhs u u' hu hsame => ?_
      · exact chain_leavesPoint i hpoint (by omega) operand b _
      · have hrest := u.remaining_le
        exact (ih (.op name' [lhs, rhs]) (by omega) (by omega) (by omega) hsame).mono (by omega)

theorem binaryLevel_carries (i : Nat) {b b' : Nat} (hN : s.rest.length ≤ N)
    (hb : N ≤ b) (hb' : N ≤ b') (hs : s.Tracks T k s') :
    Carries T k s.remaining (Expr.shift k) (binaryLevel (operatorsAt i) operand b s)
      (binaryLevel (operatorsAt i) operand' b' s') := by
  have hle := s.remaining_le
  unfold binaryLevel
  refine .bind (hoperand s s' hN hs) (fun lhs t ht hpoint => ?_) fun lhs t t' ht hsame => ?_
  · exact chain_leavesPoint i hpoint ht operand b lhs
  · have hleft := t.remaining_le
    exact (chain_carries hoperand hT i lhs (by omega) (by omega) (by omega) hsame).mono (by omega)

end

/-! ## Operators before an operand -/

theorem Source.Tracks.atNegatable_eq (h : s.Tracks T k s') (hT : Detached T) :
    s'.skipBlanks.atNegatable = s.skipBlanks.atNegatable := by
  have hwords : ∀ word ∈ negatable, word ∈ joiningWords := by decide
  unfold Source.atNegatable
  rw [Bool.eq_iff_iff, List.any_eq_true, List.any_eq_true]
  refine exists_congr fun word => and_congr_right fun hword => ?_
  rw [h.atKeyword_eq hT (hwords word hword)]

theorem reservedOperand_carries (mode : Mode) (h : s.Prolonged T k s') (hT : Detached T)
    {word : List Char} (hword : s.word? = some word) :
    Carries T k s.rest.length (Expr.shift k) (reservedOperand mode s) (reservedOperand mode s') := by
  obtain ⟨hlt, hpassed⟩ := h.passWord hword
  unfold reservedOperand
  rw [h.word?_eq hT, hword]
  cases mode <;> exact .ok hlt hpassed.tracks rfl

section
variable (mode : Mode) {expr expr' : Source → Except SyntaxError (Expr × Source)} {N b b' : Nat}
  (hexpr : ∀ u u' : Source, u.rest.length < N → u.Tracks T k u' →
    Carries T k u.remaining (Expr.shift k) (expr u) (expr' u'))
  (hT : Detached T) (hb : N ≤ b) (hb' : N ≤ b')
include hexpr hT hb hb'

/-- At the end of a text there is no operand. -/
theorem unaryLevel_vain (hs : s.Tracks T k s') (hnil : s.skipBlanks.rest = []) (hN : s.rest.length ≤ N)
    (count : Nat) : Vain (unaryLevel mode expr b count s) := by
  have hoperand : Vain (operand mode expr b s.skipBlanks) := by
    have hcarries := operand_carries mode hexpr hT hb hb' (s.remaining_le.trans hN) hs.skipBlanks
    rw [s.remaining_skipBlanks, Source.remaining_eq_zero hnil] at hcarries
    exact hcarries.vain
  cases count with
  | zero => exact Yields.fail _ _
  | succ count =>
    have hbang : s.skipBlanks.eatOp "!" ['='] = none := by
      unfold Source.eatOp
      rw [eatText_of_nil hnil (by decide)]
    have hminus : s.skipBlanks.eatOp "-" ['>'] = none := by
      unfold Source.eatOp
      rw [eatText_of_nil hnil (by decide)]
    unfold unaryLevel
    dsimp only
    rw [hbang, eat_of_nil hnil, eat_of_nil hnil, hminus,
      show s.skipBlanks.eatKeyword "not" = none from eatKeyword_of_not (atKeyword_of_nil hnil _)]
    exact hoperand

omit hexpr hb hb' in
/-- Behind a minus there is a numeral, of which it is a part, or an operand. -/
theorem minus_carries (hs : s.Tracks T k s') (hn : s.remaining ≤ n)
    {negated negated' : Except SyntaxError (Expr × Source)}
    (hvain : s.skipBlanks.rest = [] → Vain negated)
    (hnegated : Carries T k n (Expr.shift k) negated negated') :
    Carries T k n (Expr.shift k)
      (if s.skipBlanks.atNumeral then
        .ok (.literal (numeral true s.skipBlanks).1, (numeral true s.skipBlanks).2)
      else negated)
      (if s'.skipBlanks.atNumeral then
        .ok (.literal (numeral true s'.skipBlanks).1, (numeral true s'.skipBlanks).2)
      else negated') := by
  obtain ⟨hne, h⟩ | ⟨hnil, -⟩ := hs.cases
  · rw [h.atNumeral_eq hT hne]
    split
    · rename_i hnumeral
      obtain ⟨hvalue, hshorter, hsame⟩ := h.numeral hT hnumeral true
      refine .ok (hshorter.trans_le hn) hsame.tracks ?_
      rw [hvalue]
      rfl
    · exact hnegated
  · have hnumeral : s.skipBlanks.atNumeral = false := by
      unfold Source.atNumeral
      rw [hnil]
    rw [hnumeral]
    exact (hvain hnil).carries _

omit hexpr hb hb' in
/-- Behind a `NOT`, another one before a predicate makes it an operand. -/
theorem negation_carries (h : s.Prolonged T k s') {word : List Char} (hword : s.word? = some word)
    {t t' : Source} (ht : t.Tracks T k t') {negated negated' : Except SyntaxError (Expr × Source)}
    (hnegated : Carries T k s.rest.length (Expr.shift k) negated negated') :
    Carries T k s.rest.length (Expr.shift k)
      (if (match t.skipBlanks.eatKeyword "not" with
          | some u => u.skipBlanks.atNegatable
          | none => false) then reservedOperand mode s
        else negated)
      (if (match t'.skipBlanks.eatKeyword "not" with
          | some u => u.skipBlanks.atNegatable
          | none => false) then reservedOperand mode s'
        else negated') := by
  have hagain := ht.eatKeyword hT (show "not" ∈ joiningWords by decide)
  generalize t.skipBlanks.eatKeyword "not" = x, t'.skipBlanks.eatKeyword "not" = x' at hagain
  cases hagain with
  | none => exact hnegated
  | some hu =>
    simp only [hu.2.tracks.atNegatable_eq hT]
    split
    · exact reservedOperand_carries mode h hT hword
    · exact hnegated

theorem unaryLevel_carries {c c' : Nat} (hN : s.rest.length ≤ N) (hc : s.rest.length ≤ c)
    (hc' : s.rest.length ≤ c') (hs : s.Tracks T k s') :
    Carries T k s.remaining (Expr.shift k) (unaryLevel mode expr b c s)
      (unaryLevel mode expr' b' c' s') := by
  induction c generalizing c' s s' with
  | zero => exact Vain.carries (Yields.fail _ _) _
  | succ c ih =>
    obtain ⟨hne, h⟩ | ⟨hnil, -⟩ := hs.cases
    · have hle := s.remaining_le
      have hlength : s.skipBlanks.rest.length = s.remaining := rfl
      have hpos := List.length_pos_of_ne_nil hne
      obtain ⟨c', rfl⟩ := Nat.exists_eq_succ_of_ne_zero (by omega : c' ≠ 0)
      have applied (name : String) {t t' : Source} (hlt : t.rest.length < s.remaining)
          (ht : t.Tracks T k t') : Carries T k s.remaining (Expr.shift k)
            (unaryLevel mode expr b c t >>= fun x => .ok (.unary name x.1, x.2))
            (unaryLevel mode expr' b' c' t' >>= fun x => .ok (.unary name x.1, x.2)) := by
        have hleft := t.remaining_le
        exact ((ih (by omega) (by omega) (by omega) ht).mono (by omega)).bind_ok (.unary name)
          (.unary name) (fun _ _ => rfl) (fun _ _ => rfl) fun _ => rfl
      have hbang : Sees T k s.remaining (s.skipBlanks.eatOp "!" ['='])
        (s'.skipBlanks.eatOp "!" ['=']) := hs.eatOp hT (by decide) (by decide)
      have hminus : Sees T k s.remaining (s.skipBlanks.eatOp "-" ['>'])
        (s'.skipBlanks.eatOp "-" ['>']) := hs.eatOp hT (by decide) (by decide)
      have htilde := h.eat_of_ne_nil hne '~'
      have hplus := h.eat_of_ne_nil hne '+'
      have hnot := h.eatKeyword hT "not"
      unfold unaryLevel
      dsimp only
      generalize s.skipBlanks.eatOp "!" ['='] = x, s'.skipBlanks.eatOp "!" ['='] = x' at hbang
      cases hbang with
      | some ht => exact applied "!" ht.1 ht.2.tracks
      | none =>
      dsimp only
      generalize s.skipBlanks.eat '~' = x, s'.skipBlanks.eat '~' = x' at htilde
      cases htilde with
      | some ht => exact applied "~" ht.1 ht.2.tracks
      | none =>
      dsimp only
      generalize s.skipBlanks.eat '+' = x, s'.skipBlanks.eat '+' = x' at hplus
      cases hplus with
      | some ht => exact applied "sign_plus" ht.1 ht.2.tracks
      | none =>
      dsimp only
      generalize s.skipBlanks.eatOp "-" ['>'] = x, s'.skipBlanks.eatOp "-" ['>'] = x' at hminus
      cases hminus with
      | @some t t' ht =>
        have hle := t.remaining_le.trans_lt ht.1
        refine minus_carries hT ht.2.tracks hle.le (fun hnil => ?_)
          (applied "sign_minus" hle ht.2.tracks.skipBlanks)
        refine Vain.bind (unaryLevel_vain mode hexpr hT hb hb' ht.2.tracks.skipBlanks ?_ ?_ c) _
        · rw [Source.rest_skipBlanks, hnil]
          rfl
        · rw [hnil]
          exact Nat.zero_le N
      | none =>
      dsimp only
      generalize heq : s.skipBlanks.eatKeyword "not" = x, s'.skipBlanks.eatKeyword "not" = x' at hnot
      cases hnot with
      | @some t t' ht =>
        obtain ⟨word, hword⟩ := Source.exists_word_of_eatKeyword heq
        refine negation_carries mode hT h hword ht.2.tracks ?_
        rw [ht.2.tracks.atNegatable_eq hT]
        split
        · exact .fail _ _ _
        · exact applied "not" (t.remaining_le.trans_lt ht.1) ht.2.tracks.skipBlanks
      | none =>
        have := operand_carries mode hexpr hT hb hb' (by omega) hs.skipBlanks
        rwa [s.remaining_skipBlanks] at this
    · exact (unaryLevel_vain mode hexpr hT hb hb' hs hnil hN _).carries _

/-! ## Intervals -/

omit hexpr hT hb hb' in
/-- Where neither a plus nor a minus stands there is no interval. -/
theorem intervalChain_of_not {unary : Source → Except SyntaxError (Expr × Source)}
    (hplus : s.skipBlanks.peek ≠ some '+') (hminus : s.skipBlanks.peek ≠ some '-') (count : Nat)
    (lhs : Expr) : intervalChain unary count lhs s = .ok (lhs, s.skipBlanks) := by
  cases count with
  | zero => rfl
  | succ count =>
    unfold intervalChain
    dsimp only
    rw [if_neg hplus, if_neg fun h => hminus h.1]

omit hexpr hT hb hb' in
theorem intervalChain_leavesPoint (h : s.Dangling) (hn : s.rest.length < n)
    (unary : Source → Except SyntaxError (Expr × Source)) (count : Nat) (lhs : Expr) :
    LeavesPoint n (intervalChain unary count lhs s) := by
  have hother {c : Char} (hc : c ≠ '.') : s.skipBlanks.peek ≠ some c := by
    rw [h.skipBlanks_eq, show s.peek = some '.' from h]
    exact fun he => hc (Option.some.inj he).symm
  rw [intervalChain_of_not (hother (by decide)) (hother (by decide)), h.skipBlanks_eq]
  exact Yields.ok ⟨hn, h⟩

omit hexpr hb hb' in
/-- At the end of a text there is no interval, nor is there one behind it. -/
theorem intervalChain_at_end (unary unary' : Source → Except SyntaxError (Expr × Source))
    (hs : s.Tracks T k s') (hnil : s.skipBlanks.rest = []) (c c' : Nat) (lhs : Expr) :
    Carries T k (s.rest.length + 1) (Expr.shift k) (intervalChain unary c lhs s)
      (intervalChain unary' c' (lhs.shift k) s') := by
  have hnone (d : Char) : s.skipBlanks.peek ≠ some d := by
    rw [peek_of_rest_nil hnil]
    exact nofun
  have hnone' {d : Char} (hd : d ∈ joining) : s'.skipBlanks.peek ≠ some d :=
    fun h => hnone d ((hs.peek_eq_iff hT hd).mp h)
  rw [intervalChain_of_not (hnone '+') (hnone '-'),
    intervalChain_of_not (hnone' (by decide)) (hnone' (by decide))]
  exact .ok (Nat.lt_succ_of_le s.remaining_le) hs.skipBlanks rfl

theorem intervalChain_carries {c c' : Nat} (lhs : Expr) (hN : s.rest.length ≤ N)
    (hc : s.rest.length ≤ c) (hc' : s.rest.length ≤ c') (hs : s.Tracks T k s') :
    Carries T k (s.rest.length + 1) (Expr.shift k)
      (intervalChain (unaryLevel mode expr b b) c lhs s)
      (intervalChain (unaryLevel mode expr' b' b') c' (lhs.shift k) s') := by
  induction c generalizing c' lhs s s' with
  | zero =>
    refine intervalChain_at_end hT _ _ hs ?_ 0 c' lhs
    exact List.length_eq_zero_iff.mp (Nat.le_zero.mp (s.remaining_le.trans hc))
  | succ c ih =>
    obtain ⟨hne, h⟩ | ⟨hnil, -⟩ := hs.cases
    · have hle := s.remaining_le
      have hlength : s.skipBlanks.rest.length = s.remaining := rfl
      have hpos := List.length_pos_of_ne_nil hne
      obtain ⟨c', rfl⟩ := Nat.exists_eq_succ_of_ne_zero (by omega : c' ≠ 0)
      have hplus : (s'.skipBlanks.peek = some '+') = (s.skipBlanks.peek = some '+') :=
        propext (hs.peek_eq_iff hT (by decide))
      have hminus : (s'.skipBlanks.peek = some '-') = (s.skipBlanks.peek = some '-') :=
        propext (hs.peek_eq_iff hT (by decide))
      have harrow : (s'.skipBlanks.peekSecond ≠ some '>') = (s.skipBlanks.peekSecond ≠ some '>') :=
        propext (h.peekSecond_eq_iff hne fun hhead => hT.head '>' hhead (by decide)).not
      unfold intervalChain
      simp only [hplus, hminus, harrow]
      split
      · exact .ok (Nat.lt_succ_of_le hle) hs.skipBlanks rfl
      · rename_i name _
        have hbehind : (s.skipBlanks.skip 1).Prolonged T k (s'.skipBlanks.skip 1) := h.skip hpos
        have hword := hbehind.tracks.eatKeyword hT (show "interval" ∈ joiningWords by decide)
        have hskip := (s.skipBlanks.skip 1).remaining_le
        have hless : (s.skipBlanks.skip 1).rest.length = s.remaining - 1 := s.skipBlanks.length_skip 1
        generalize (s.skipBlanks.skip 1).skipBlanks.eatKeyword "interval" = x,
          (s'.skipBlanks.skip 1).skipBlanks.eatKeyword "interval" = x' at hword
        cases hword with
        | none => exact .ok (Nat.lt_succ_self _) hs rfl
        | @some t t' ht =>
          have hlt : t.rest.length < (s.skipBlanks.skip 1).remaining := ht.1
          have hleft := t.remaining_le
          refine .bind (unaryLevel_carries mode hexpr hT hb hb' (by omega) (by omega) (by omega)
            ht.2.tracks) (fun amount u _ hpoint => ?_) fun amount u u' hu hu' => ?_
          · have hunit : intervalUnit u = u.fail (.expected "interval unit") := by
              unfold intervalUnit
              dsimp only
              rw [hpoint.skipBlanks_eq, hpoint.word?]
            dsimp only
            rw [hunit]
            exact Yields.error _
          · dsimp only
            have hrest := u.remaining_le
            refine .of_keeps (intervalUnit_keeps hu' hT) fun unit v v' hv hv' => ?_
            exact (ih (.op name [lhs, amount, .literal (.bytes (Text.Utf8.encode unit))]) (by omega)
              (by omega) (by omega) hv'.tracks).mono (by omega)
    · exact intervalChain_at_end hT _ _ hs hnil (c + 1) c' lhs

theorem intervalLevel_carries (hN : s.rest.length ≤ N) (hs : s.Tracks T k s') :
    Carries T k s.remaining (Expr.shift k) (intervalLevel mode expr b s)
      (intervalLevel mode expr' b' s') := by
  have hle := s.remaining_le
  unfold intervalLevel
  refine .bind (unaryLevel_carries mode hexpr hT hb hb' hN (by omega) (by omega) hs)
    (fun lhs t ht hpoint => ?_) fun lhs t t' ht hsame => ?_
  · exact intervalChain_leavesPoint hpoint ht _ b lhs
  · exact (intervalChain_carries mode hexpr hT hb hb' lhs (by omega) (by omega) (by omega)
      hsame).mono ht

/-- The levels below the predicates. -/
theorem rung_carries_of_three_le {i : Nat} (h3 : 3 ≤ i) (h8 : i ≤ 8) (hN : s.rest.length ≤ N)
    (hs : s.Tracks T k s') :
    Carries T k s.remaining (Expr.shift k) (rung mode expr b i s) (rung mode expr' b' i s') := by
  induction h8 using Nat.decreasingInduction generalizing s s' with
  | self => exact intervalLevel_carries mode hexpr hT hb hb' hN hs
  | of_succ j hj ih =>
    have hbinary : IsBinary j := ⟨hj, by omega⟩
    rw [rung_eq_binaryLevel mode expr b hbinary, rung_eq_binaryLevel mode expr' b' hbinary]
    exact binaryLevel_carries (fun u u' hu hu' => ih (by omega) hu hu') hT j hN hb hb' hs

end

end DocWire
