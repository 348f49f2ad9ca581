import DocWire.Expr.Compile
import DocWire.Proofs.Expr.Numerals

/-!
# Precedence of the binary operators

Names and integers with binary operators between them have one tree: its root is the rightmost of
the operators that bind least, and its two arguments are the trees of what stands to the left and
to the right of that.  This is said without a word about readers, and is what a text of that kind is
compiled to.

* `BinaryOp`         the spellings of the operators, with their names and rungs;
* `Atom`             a name or an integer;
* `PrecedenceTree`   the tree of a row of atoms with operators between them;
* `RunAt`, `ReadAt`  a rung reads such a row, as the beginning of a chain and as a whole;
* `compileExpr_precedence`   such a text is compiled to its tree.
-/

namespace DocWire

open Source (nextIn)

/-! ## Operators and atoms -/

/-- A binary operator as it is spelled. -/
inductive BinaryOp
  | barBar | or | ampAmp | and
  | eqEq | eq | bangEq | ltGt | gt | ge | lt | le
  | shl | shr
  | amp | bar | caret
  | plus | minus
  | star | slash | percent | div
deriving DecidableEq

namespace BinaryOp

def chars : BinaryOp → List Char
  | barBar => ['|', '|']
  | or => ['O', 'R']
  | ampAmp => ['&', '&']
  | and => ['A', 'N', 'D']
  | eqEq => ['=', '=']
  | eq => ['=']
  | bangEq => ['!', '=']
  | ltGt => ['<', '>']
  | gt => ['>']
  | ge => ['>', '=']
  | lt => ['<']
  | le => ['<', '=']
  | shl => ['<', '<']
  | shr => ['>', '>']
  | amp => ['&']
  | bar => ['|']
  | caret => ['^']
  | plus => ['+']
  | minus => ['-']
  | star => ['*']
  | slash => ['/']
  | percent => ['%']
  | div => ['D', 'I', 'V']

def name : BinaryOp → String
  | barBar | or => "||"
  | ampAmp | and => "&&"
  | eqEq | eq => "=="
  | bangEq | ltGt => "!="
  | gt => ">"
  | ge => ">="
  | lt => "<"
  | le => "<="
  | shl => "<<"
  | shr => ">>"
  | amp => "&"
  | bar => "|"
  | caret => "^"
  | plus => "+"
  | minus => "-"
  | star => "*"
  | slash => "/"
  | percent => "%"
  | div => "div"

/-- The rung of the ladder: the greater, the tighter the operator binds. -/
def rung : BinaryOp → Nat
  | barBar | or => 0
  | ampAmp | and => 1
  | eqEq | eq | bangEq | ltGt | gt | ge | lt | le => 3
  | shl | shr => 4
  | amp | bar | caret => 5
  | plus | minus => 6
  | star | slash | percent | div => 7

theorem isBinary_rung (o : BinaryOp) : IsBinary o.rung := by
  cases o <;> exact ⟨by decide, by decide⟩

/-- An operator between blanks is met on its rung. -/
theorem meets (o : BinaryOp) (U : List Char) :
    Meets o.rung (' ' :: (o.chars ++ ' ' :: U)) o.name (' ' :: U) := by
  cases o <;> exact fun pos m => ⟨_, rfl⟩

/-- An operator between blanks means nothing to the tighter rungs. -/
theorem silent (o : BinaryOp) {i : Nat} (hi : o.rung < i) (hbinary : IsBinary i) (U : List Char) :
    Silent i (' ' :: (o.chars ++ ' ' :: U)) := by
  obtain ⟨hlt, hne⟩ := hbinary
  cases o <;> simp only [rung] at hi <;> interval_cases i
  all_goals first | exact absurd rfl hne | exact fun pos m => rfl

end BinaryOp

/-- A name or an integer. -/
inductive Atom
  | name (n : Name)
  | integer (d : Digits)

namespace Atom

def chars : Atom → List Char
  | name n => n.chars
  | integer d => d.chars

/-- What an atom stands for: a name is a field of the document, or a column of the table. -/
def expr (mode : Mode) : Atom → Expr
  | name n =>
    match mode with
    | .document => .field [.member n.text]
    | .table => .bareColumn n.text
  | integer d => .literal (.uint (UInt64.ofNat d.value))

end Atom

/-- the text of operators with atoms behind them, single blanks between all of them -/
def chainText (rest : List (BinaryOp × Atom)) : List Char :=
  rest.flatMap fun (o, y) => ' ' :: (o.chars ++ ' ' :: y.chars)

/-- The text of atoms with operators between them, single blanks between all of them. -/
def rowText (x : Atom) (rest : List (BinaryOp × Atom)) : String :=
  String.ofList (x.chars ++ chainText rest)

/-- The tree of atoms with operators between them: its root is the rightmost operator of the lowest
level that is present, and its arguments are the trees of the two sides. -/
inductive PrecedenceTree (mode : Mode) : Atom → List (BinaryOp × Atom) → Expr → Prop
  | leaf (x : Atom) : PrecedenceTree mode x [] (x.expr mode)
  | node {x y : Atom} {before after : List (BinaryOp × Atom)} {o : BinaryOp} {l r : Expr}
      (lowest : ∀ p ∈ before, o.rung ≤ p.1.rung) (rightmost : ∀ p ∈ after, o.rung < p.1.rung)
      (left : PrecedenceTree mode x before l) (right : PrecedenceTree mode y after r) :
      PrecedenceTree mode x (before ++ (o, y) :: after) (.op o.name [l, r])

/-! ## Every row has a tree -/

/-- Where there is an operator, there is a rightmost one of the lowest level. -/
theorem exists_rightmost_lowest {rest : List (BinaryOp × Atom)} (h : rest ≠ []) :
    ∃ before o y after, rest = before ++ (o, y) :: after ∧
      (∀ p ∈ before, o.rung ≤ p.1.rung) ∧ ∀ p ∈ after, o.rung < p.1.rung := by
  induction rest with
  | nil => exact absurd rfl h
  | cons first more ih =>
    obtain ⟨o, y⟩ := first
    by_cases hmore : more = []
    · exact ⟨[], o, y, more, rfl, by simp, by simp [hmore]⟩
    · obtain ⟨before, o', y', after, rfl, hbefore, hafter⟩ := ih hmore
      by_cases hlt : o.rung < o'.rung
      · refine ⟨[], o, y, before ++ (o', y') :: after, rfl, by simp, fun p hp => ?_⟩
        rcases List.mem_append.mp hp with hp | hp
        · exact Nat.lt_of_lt_of_le hlt (hbefore p hp)
        · rcases List.mem_cons.mp hp with rfl | hp
          · exact hlt
          · exact Nat.lt_trans hlt (hafter p hp)
      · refine ⟨(o, y) :: before, o', y', after, rfl, fun p hp => ?_, hafter⟩
        rcases List.mem_cons.mp hp with rfl | hp
        · exact Nat.not_lt.mp hlt
        · exact hbefore p hp

theorem exists_precedenceTree (mode : Mode) (x : Atom) (rest : List (BinaryOp × Atom)) :
    ∃ e, PrecedenceTree mode x rest e := by
  induction hn : rest.length using Nat.strongRecOn generalizing x rest with
  | ind n ih =>
    by_cases hrest : rest = []
    · subst hrest
      exact ⟨_, .leaf x⟩
    · obtain ⟨before, o, y, after, rfl, hbefore, hafter⟩ := exists_rightmost_lowest hrest
      rw [List.length_append, List.length_cons] at hn
      obtain ⟨l, hl⟩ := ih before.length (by omega) x before rfl
      obtain ⟨r, hr⟩ := ih after.length (by omega) y after rfl
      exact ⟨_, .node hbefore hafter hl hr⟩

/-! ## What follows an atom -/

theorem chainText_cons (o : BinaryOp) (y : Atom) (rest : List (BinaryOp × Atom)) :
    chainText ((o, y) :: rest) = ' ' :: (o.chars ++ ' ' :: (y.chars ++ chainText rest)) := by
  simp [chainText]

theorem chainText_append (a b : List (BinaryOp × Atom)) :
    chainText (a ++ b) = chainText a ++ chainText b := List.flatMap_append

/-- What follows an atom, `T`, does not go on with it: there is a blank or the end, and behind that
neither a parenthesis nor an arrow. -/
structure Gap (T : List Char) : Prop where
  blank : ∀ c ∈ T.head?, c = ' '
  parenthesis : ∀ pos m, (nextIn T pos m).peek ≠ some '('
  arrow : ∀ pos m, (nextIn T pos m).eatText "->" = none
  doubleArrow : ∀ pos m, (nextIn T pos m).eatText "->>" = none

theorem gap_nil : Gap [] where
  blank := fun _ h => nomatch h
  parenthesis := fun _ _ h => nomatch h
  arrow := fun _ _ => rfl
  doubleArrow := fun _ _ => rfl

theorem BinaryOp.gap (o : BinaryOp) (U : List Char) : Gap (' ' :: (o.chars ++ ' ' :: U)) where
  blank := fun _ h => (Option.some.inj h).symm
  parenthesis := by cases o <;> exact fun _ _ h => absurd (Option.some.inj h) (by decide)
  arrow := by cases o <;> exact fun _ _ => rfl
  doubleArrow := by cases o <;> exact fun _ _ => rfl

theorem gap_chainText (rest : List (BinaryOp × Atom)) : Gap (chainText rest) := by
  cases rest with
  | nil => exact gap_nil
  | cons p more =>
    rw [chainText_cons p.1 p.2 more]
    exact p.1.gap _

namespace Gap

variable {T : List Char} (hT : Gap T)
include hT

theorem endsWord : EndsWord T := fun c hc => by
  rw [hT.blank c hc]
  rfl

theorem endsNumeral : EndsNumeral T := fun c hc => by
  rw [hT.blank c hc]
  exact ⟨rfl, by decide, by decide, by decide⟩

theorem eat_point (pos m : Nat) : (⟨T, pos, m⟩ : Source).eat '.' = none := by
  refine if_neg fun h => ?_
  have := hT.blank '.' h
  cases this

end Gap

/-! ## Reading atoms -/

section
variable {mode : Mode} {expr : Source → Except SyntaxError (Expr × Source)} {bound : Nat}
  {T : List Char}

theorem identifierTail_gap (hT : Gap T) (first : String) (pos m : Nat) :
    identifierTail mode expr bound first ⟨T, pos, m⟩
      = .ok (match mode with
        | .document => .field [.member first]
        | .table => .bareColumn first, ⟨T, pos, m⟩) := by
  obtain ⟨pos', hnext⟩ := (Source.At.refl T pos m).skipBlanks_eq
  unfold identifierTail
  dsimp only
  rw [hnext, if_neg (hT.parenthesis pos' m), hT.eat_point]
  cases mode with
  | document =>
    show fieldFrom bound (some (.member first)) ⟨T, pos, m⟩ = _
    have hend (c : Char) (hc : c ∈ T.head?) : c ∉ ['.', '[', '*'] := by
      rw [hT.blank c hc]
      decide
    unfold fieldFrom
    rw [segments_of_not hend bound (by exact fun h => PathItem.noConfusion (Option.some.inj h))]
    rfl
  | table =>
    show columnFrom first ⟨T, pos, m⟩ = _
    have hparts : dottedParts 2 ⟨T, pos, m⟩ = ([], ⟨T, pos, m⟩) := by
      unfold dottedParts
      rw [hT.eat_point]
    unfold columnFrom
    rw [hparts]
    dsimp only
    rw [hnext, hT.doubleArrow, hT.arrow]
    rfl

/-- An atom is read by the unary level. -/
theorem Atom.reads (a : Atom) (hT : Gap T) (count : Nat) :
    Reads (unaryLevel mode expr bound (count + 1)) a.chars 0 (fun _ => a.expr mode) T := by
  cases a with
  | name n =>
    show Reads _ n.chars 0 _ T
    rw [← List.append_nil n.chars]
    refine n.unaryLevel_reads hT.endsWord (n.sameWord_eq_false (by decide)) fun pos m => ?_
    have hcast : (⟨n.chars ++ T, pos, m⟩ : Source).wordStandsBefore '(' = false := by
      obtain ⟨pos', hnext⟩ := (Source.At.refl T (pos + byteLength n.chars) m).skipBlanks_eq
      rw [n.wordStandsBefore_append hT.endsWord, hnext]
      exact beq_false_of_ne (hT.parenthesis pos' m)
    obtain ⟨pos', hname⟩ := operand_name mode expr bound n hT.endsWord pos m (by
      rw [hcast, Bool.and_false])
    refine ⟨_, ?_, .refl T pos' m⟩
    rw [List.nil_append, hname, identifierTail_gap hT]
    cases mode <;> rfl
  | integer d => exact d.reads mode expr bound hT.endsNumeral count

end

/-- No atom is the keyword of an interval. -/
theorem Atom.eatKeyword_interval (a : Atom) {T : List Char} (hT : Gap T) (pos m : Nat) :
    (nextIn (' ' :: (a.chars ++ T)) pos m).eatKeyword "interval" = none := by
  rw [Source.nextIn_blank rfl]
  refine eatKeyword_of_not ?_
  cases a with
  | name n =>
    rw [show Atom.chars (.name n) = n.first :: n.more from rfl, List.cons_append,
      Source.nextIn_solid (isBlank_of_isWordStart n.starts)]
    exact n.not_atKeyword_append hT.endsWord (by decide) pos m
  | integer d =>
    obtain ⟨c, cs, hd, hc⟩ := d.exists_cons
    obtain ⟨hblank, hstart⟩ := not_of_isDigit hc
    rw [show Atom.chars (.integer d) = c :: cs from hd, List.cons_append,
      Source.nextIn_solid hblank]
    exact atKeyword_of_not_isWordStart hstart _ _ pos m

/-- An operator between blanks is no predicate. -/
theorem BinaryOp.silent_predicates (o : BinaryOp) (U : List Char) :
    Silent 2 (' ' :: (o.chars ++ ' ' :: U)) := by
  intro word hword pos m
  simp only [negatable, List.mem_cons, List.not_mem_nil, or_false] at hword
  rcases hword with rfl | rfl | rfl | rfl | rfl | rfl | rfl <;> cases o <;> rfl

/-- An operator between blanks begins no interval, unless the keyword is behind it. -/
theorem BinaryOp.silent_intervals (o : BinaryOp) {U : List Char}
    (hU : ∀ pos m, (nextIn (' ' :: U) pos m).eatKeyword "interval" = none) :
    Silent 8 (' ' :: (o.chars ++ ' ' :: U)) := by
  intro pos m
  have hsign (pos : Nat) : (⟨' ' :: U, pos, m⟩ : Source).skipBlanks.eatKeyword "interval" = none := by
    obtain ⟨pos', hnext⟩ := (Source.At.refl (' ' :: U) pos m).skipBlanks_eq
    rw [hnext]
    exact hU pos' m
  cases o
  case plus | minus => exact .inr (hsign _)
  all_goals exact .inl ⟨fun h => absurd (Option.some.inj h) (by decide),
    fun h => absurd (Option.some.inj h) (by decide)⟩

/-- What follows an atom means nothing to the rungs above that of its operator. -/
theorem silent_chainText {rest : List (BinaryOp × Atom)} {i : Nat} (hi : i ≤ 8)
    (hrest : ∀ p ∈ rest.head?, p.1.rung < i) : Silent i (chainText rest) := by
  cases rest with
  | nil => exact silent_nil hi
  | cons p more =>
    obtain ⟨o, y⟩ := p
    have hlt : o.rung < i := hrest (o, y) rfl
    rw [chainText_cons]
    by_cases hpredicates : i = 2
    · subst hpredicates
      exact o.silent_predicates _
    · by_cases hintervals : i = 8
      · subst hintervals
        exact o.silent_intervals fun pos m => y.eatKeyword_interval (gap_chainText more) pos m
      · exact o.silent hlt ⟨by omega, hpredicates⟩ _

/-! ## Reading rows -/

section
variable (mode : Mode) (expr : Source → Except SyntaxError (Expr × Source)) (bound : Nat)
  (j : Nat) (x : Atom) (rest : List (BinaryOp × Atom)) (e : Expr)

/-- A rung reads a row as the beginning of a chain, whatever operator of the rung, or of a looser
one, may follow: what is left to do is to go on with the chain. -/
def RunAt : Prop :=
  ∀ behind : List (BinaryOp × Atom), (∀ p ∈ behind.head?, p.1.rung ≤ j) →
    ∀ s m, s.At (x.chars ++ chainText (rest ++ behind)) m →
      ∃ used ≤ rest.length, ∃ t, t.At (chainText behind) m ∧
        DocWire.rung mode expr bound j s
          = chain (operatorsAt j) (DocWire.rung mode expr bound (j + 1)) (bound - used) e t

/-- A rung reads a row as a whole where an operator of a looser rung follows, if any. -/
def ReadAt : Prop :=
  ∀ behind : List (BinaryOp × Atom), (∀ p ∈ behind.head?, p.1.rung < j) →
    Reads (DocWire.rung mode expr bound j) (x.chars ++ chainText rest) 0 (fun _ => e)
      (chainText behind)

end

section
variable {mode : Mode} {expr : Source → Except SyntaxError (Expr × Source)} {bound : Nat}
  {i j : Nat} {x y : Atom} {rest before after : List (BinaryOp × Atom)} {e l r : Expr}

theorem ReadAt.climb (hij : i ≤ j) (hj : j ≤ 8) (h : ReadAt mode expr bound j x rest e) :
    ReadAt mode expr bound i x rest e := by
  intro behind hbehind
  refine (h behind fun p hp => Nat.lt_of_lt_of_le (hbehind p hp) hij).climb hij hj fun k hik hkj => ?_
  exact silent_chainText (by omega) fun p hp => Nat.lt_of_lt_of_le (hbehind p hp) hik

/-- What the rung below reads is the beginning of a chain. -/
theorem ReadAt.runAt (hj : IsBinary j) (h : ReadAt mode expr bound (j + 1) x rest e) :
    RunAt mode expr bound j x rest e := by
  intro behind hbehind s m hs
  rw [chainText_append, ← List.append_assoc] at hs
  obtain ⟨t, ht, hat⟩ := h behind (fun p hp => Nat.lt_succ_of_le (hbehind p hp)) s m hs
  refine ⟨0, Nat.zero_le _, t, hat, ?_⟩
  rw [rung_eq_binaryLevel mode expr bound hj]
  unfold binaryLevel
  rw [ht]
  rfl

/-- The beginning of a chain is the whole of it where only looser operators follow. -/
theorem RunAt.readAt (hj : IsBinary j) (h : RunAt mode expr bound j x rest e) :
    ReadAt mode expr bound j x rest e := by
  intro behind hbehind s m hs
  rw [List.append_assoc, ← chainText_append] at hs
  obtain ⟨used, -, t, hat, hrun⟩ := h behind (fun p hp => Nat.le_of_lt (hbehind p hp)) s m hs
  have hsilent : Silent j (chainText behind) :=
    silent_chainText (Nat.le_of_lt hj.1) hbehind
  obtain ⟨u, hu, hatu⟩ := chain_of_none ((silent_iff hj).mp hsilent) hat (bound - used) e
  exact ⟨u, hrun.trans hu, hatu⟩

/-- A chain goes on over an operator of its rung and what the rung below reads behind it. -/
theorem RunAt.node {o : BinaryOp} (hbound : before.length < bound)
    (hleft : RunAt mode expr bound o.rung x before l)
    (hright : ReadAt mode expr bound (o.rung + 1) y after r) :
    RunAt mode expr bound o.rung x (before ++ (o, y) :: after) (.op o.name [l, r]) := by
  intro behind hbehind s m hs
  rw [List.append_assoc] at hs
  obtain ⟨used, hused, t, hat, hrun⟩ := hleft ((o, y) :: after ++ behind)
    (fun p hp => by
      obtain rfl : (o, y) = p := Option.some.inj hp
      exact Nat.le_refl _) s m hs
  obtain ⟨count, hcount⟩ : ∃ count, bound - used = count + 1 := ⟨bound - used - 1, by omega⟩
  have hoperand := hright behind fun p hp => Nat.lt_succ_of_le (hbehind p hp)
  rw [List.cons_append, chainText_cons, chainText_append, ← List.append_assoc] at hat
  obtain ⟨u, hu, hatu⟩ := chain_of_some (o.meets _) hat hoperand count l
  refine ⟨used + 1, ?_, u, hatu, ?_⟩
  · rw [List.length_append, List.length_cons]
    omega
  · rw [hrun, hcount, hu, Nat.sub_add_eq, hcount]
    rfl

/-- A row is read as its tree, by every rung that binds as loosely as its operators do. -/
theorem PrecedenceTree.reads (h : PrecedenceTree mode x rest e) (hbound : rest.length < bound) :
    (∀ j ≤ 8, (∀ p ∈ rest, j ≤ p.1.rung) → ReadAt mode expr bound j x rest e) ∧
      ∀ j, IsBinary j → (∀ p ∈ rest, j ≤ p.1.rung) → RunAt mode expr bound j x rest e := by
  induction h with
  | leaf x =>
    obtain ⟨count, rfl⟩ := Nat.exists_eq_succ_of_ne_zero hbound.ne'
    have hread : ReadAt mode expr (count + 1) 8 x [] (x.expr mode) := by
      intro behind hbehind
      rw [show chainText [] = [] from rfl, List.append_nil]
      exact intervalLevel_reads (x.reads (gap_chainText behind) count)
        (silent_chainText (Nat.le_refl 8) hbehind)
    exact ⟨fun j hj _ => hread.climb hj (Nat.le_refl 8),
      fun j hj _ => (hread.climb hj.1 (Nat.le_refl 8)).runAt hj⟩
  | @node x y before after o l r lowest rightmost _ _ ihl ihr =>
    rw [List.length_append, List.length_cons] at hbound
    have hbinary := o.isBinary_rung
    have hroot : (o, y) ∈ before ++ (o, y) :: after :=
      List.mem_append_right _ List.mem_cons_self
    have hrun := RunAt.node (by omega) ((ihl (by omega)).2 o.rung hbinary lowest)
      ((ihr (by omega)).1 (o.rung + 1) hbinary.1 rightmost)
    have hread := hrun.readAt hbinary
    refine ⟨fun j _ hrest => hread.climb (hrest _ hroot) (Nat.le_of_lt hbinary.1),
      fun j hj hrest => ?_⟩
    rcases Nat.eq_or_lt_of_le (hrest _ hroot) with heq | hlt
    · rw [show j = o.rung from heq]
      exact hrun
    · exact (hread.climb hlt (Nat.le_of_lt hbinary.1)).runAt hj

end

theorem length_le_length_chainText (rest : List (BinaryOp × Atom)) :
    rest.length ≤ (chainText rest).length := by
  induction rest with
  | nil => exact Nat.le_refl 0
  | cons p more ih =>
    rw [chainText_cons p.1 p.2 more]
    simp only [List.length_cons, List.length_append]
    omega

theorem Atom.length_chars_pos (a : Atom) : 0 < a.chars.length := by
  cases a with
  | name n => exact Nat.succ_pos _
  | integer d => exact List.length_pos_of_ne_nil d.some

/-- Names and integers with binary operators between them are compiled to their tree, the only one
that they have. -/
theorem compileExpr_precedence (mode : Mode) (x : Atom) (rest : List (BinaryOp × Atom)) :
    ∃ e, compileExpr (rowText x rest) mode = .ok e ∧ PrecedenceTree mode x rest e ∧
      ∀ e', PrecedenceTree mode x rest e' → e' = e := by
  have hcompile (e : Expr) (he : PrecedenceTree mode x rest e) :
      compileExpr (rowText x rest) mode = .ok e := by
    have hlength : rest.length < (x.chars ++ chainText rest).length := by
      have := length_le_length_chainText rest
      have := x.length_chars_pos
      rw [List.length_append]
      omega
    have hread : Reads (exprWithin mode (x.chars ++ chainText rest).length)
        (x.chars ++ chainText rest) 0 (fun _ => e) [] := by
      obtain ⟨bound, hbound⟩ := Nat.exists_eq_succ_of_ne_zero (Nat.ne_zero_of_lt hlength)
      rw [hbound] at hlength ⊢
      exact (he.reads hlength).1 0 (Nat.zero_le 8) (fun _ _ => Nat.zero_le _) [] nofun
    exact compileExpr_of_reads hread
  obtain ⟨e, he⟩ := exists_precedenceTree mode x rest
  refine ⟨e, hcompile e he, he, fun e' he' => ?_⟩
  exact Except.ok.inj ((hcompile e' he').symm.trans (hcompile e he))

end DocWire
