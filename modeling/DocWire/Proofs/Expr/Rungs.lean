import DocWire.Expr.Compile
import DocWire.Proofs.Expr.Reading
import Mathlib.Tactic.IntervalCases

/-!
# The rungs of the ladder

The levels of operators by number, from the loosest to the tightest.  Where nothing follows that
belongs to a rung, the rung reads what the rung below it reads, so a text can be carried up the
ladder from the rung that it belongs to.

* `rung`, `operatorsAt`   the reader and the operators of a level;
* `Silent`                nothing that belongs to a rung follows;
* `Meets`                 an operator follows;
* `Reads.climb`           up the ladder;
* `Reads.operator`        two operands with an operator between them;
* `compile_of_production`, `compileExpr_of_reads`   from reading to compiling.
-/

namespace DocWire

open Source (nextIn)

/-! ## Numbers for the levels -/

section
variable (mode : Mode) (expr : Source → Except SyntaxError (Expr × Source)) (bound : Nat)

/-- The readers of the ladder, from the loosest to the tightest: rung 2 is that of the predicates,
rung 8 that of the intervals, and the others are binary levels. -/
def rung : Nat → Source → Except SyntaxError (Expr × Source)
  | 0 => orLevel mode expr bound
  | 1 => andLevel mode expr bound
  | 2 => predicateLevel mode expr bound
  | 3 => comparisonLevel mode expr bound
  | 4 => shiftLevel mode expr bound
  | 5 => bitLevel mode expr bound
  | 6 => additiveLevel mode expr bound
  | 7 => multiplicativeLevel mode expr bound
  | _ => intervalLevel mode expr bound

end

/-- The operators of the binary levels. -/
def operatorsAt : Nat → Operators
  | 0 => orOperators
  | 1 => andOperators
  | 3 => comparisonOperators
  | 4 => shiftOperators
  | 5 => bitOperators
  | 6 => additiveOperators
  | 7 => multiplicativeOperators
  | _ => fun _ => none

def IsBinary (k : Nat) : Prop := k < 8 ∧ k ≠ 2

theorem rung_eq_binaryLevel (mode : Mode) (expr : Source → Except SyntaxError (Expr × Source))
    (bound : Nat) {k : Nat} (hk : IsBinary k) :
    rung mode expr bound k = binaryLevel (operatorsAt k) (rung mode expr bound (k + 1)) bound := by
  obtain ⟨hlt, hne⟩ := hk
  match k with
  | 0 | 1 | 3 | 4 | 5 | 6 | 7 => rfl
  | 2 => exact absurd rfl hne

/-! ## What follows -/

/-- Nothing that belongs to a rung follows: no operator of a binary level, no predicate, or no
interval. -/
def Silent : Nat → List Char → Prop
  | 2, T => ∀ word ∈ "is" :: "not" :: negatable, ∀ pos m, (nextIn T pos m).atKeyword word = false
  | 8, T => ∀ pos m, ((nextIn T pos m).peek ≠ some '+' ∧ (nextIn T pos m).peek ≠ some '-')
      ∨ ((nextIn T pos m).skip 1).skipBlanks.eatKeyword "interval" = none
  | k, T => ∀ pos m, operatorsAt k (nextIn T pos m) = none

/-- The operator `name` of a binary level follows, and behind it `U`. -/
def Meets (k : Nat) (T : List Char) (name : String) (U : List Char) : Prop :=
  ∀ pos m, ∃ pos', operatorsAt k (nextIn T pos m) = some (name, ⟨U, pos', m⟩)

theorem silent_iff {k : Nat} (hk : IsBinary k) {T : List Char} :
    Silent k T ↔ ∀ pos m, operatorsAt k (nextIn T pos m) = none := by
  obtain ⟨hlt, hne⟩ := hk
  match k with
  | 0 | 1 | 3 | 4 | 5 | 6 | 7 => exact Iff.rfl
  | 2 => exact absurd rfl hne

/-- The end means nothing to any rung. -/
theorem silent_nil {i : Nat} (hi : i ≤ 8) : Silent i [] := by
  interval_cases i
  case «2» => exact fun word _ _ _ => rfl
  case «8» => exact fun _ _ => .inl ⟨nofun, nofun⟩
  all_goals exact fun _ _ => rfl

/-! ## Chains -/

section
variable {operators : Operators} {operand : Source → Except SyntaxError (Expr × Source)}
  {s : Source} {cs T : List Char} {m n : Nat} {x : Nat → Expr}

/-- A chain ends where no operator follows. -/
theorem chain_of_none (hT : ∀ pos m, operators (nextIn T pos m) = none) (hs : s.At T m)
    (bound : Nat) (lhs : Expr) :
    ∃ t, chain operators operand bound lhs s = .ok (lhs, t) ∧ t.At T m := by
  refine ⟨s.skipBlanks, ?_, hs.skipBlanks⟩
  obtain ⟨pos, hpos⟩ := hs.skipBlanks_eq
  cases bound with
  | zero => rfl
  | succ bound =>
    unfold chain
    rw [hpos, hT pos m]

/-- A chain goes on where an operator follows and an operand behind it. -/
theorem chain_of_some {name : String} {U : List Char}
    (hU : ∀ pos m, ∃ pos', operators (nextIn U pos m) = some (name, ⟨' ' :: (cs ++ T), pos', m⟩))
    (hs : s.At U m) (hoperand : Reads operand cs n x T) (bound : Nat) (lhs : Expr) :
    ∃ t, chain operators operand (bound + 1) lhs s
      = chain operators operand bound (.op name [lhs, x m]) t ∧ t.At T (m + n) := by
  obtain ⟨pos, hpos⟩ := hs.skipBlanks_eq
  obtain ⟨pos', hop⟩ := hU pos m
  obtain ⟨t, ht, hat⟩ := hoperand ⟨' ' :: (cs ++ T), pos', m⟩ m
    (.blank _ _ _)
  refine ⟨t, ?_, hat⟩
  conv_lhs => unfold chain
  rw [hpos, hop]
  show (operand ⟨' ' :: (cs ++ T), pos', m⟩ >>= _) = _
  rw [ht]
  rfl

end

/-! ## Up the ladder -/

section
variable {mode : Mode} {expr : Source → Except SyntaxError (Expr × Source)} {bound : Nat}
  {cs T : List Char} {n : Nat} {x : Nat → Expr}

theorem eatKeyword_of_not {s : Source} {word : String} (h : s.atKeyword word = false) :
    s.eatKeyword word = none := by
  unfold Source.eatKeyword
  rw [h]
  rfl

theorem predicateLevel_reads (h : Reads (rung mode expr bound 3) cs n x T) (hT : Silent 2 T) :
    Reads (rung mode expr bound 2) cs n x T := by
  intro s m hs
  obtain ⟨t, ht, hat⟩ := h s m hs
  refine ⟨t.skipBlanks, ?_, hat.skipBlanks⟩
  obtain ⟨pos, hpos⟩ := hat.skipBlanks_eq
  have absent (word : String) (hword : word ∈ "is" :: "not" :: negatable) :
      t.skipBlanks.eatKeyword word = none := by
    rw [hpos]
    exact eatKeyword_of_not (hT word hword pos (m + n))
  show predicateLevel mode expr bound s = _
  unfold predicateLevel
  rw [show comparisonLevel mode expr bound s = .ok (x m, t) from ht, ok_bind]
  dsimp only
  rw [absent "is" (by decide)]
  dsimp only
  rw [absent "not" (by decide)]
  dsimp only
  unfold negatablePredicate
  rw [absent "in" (by decide), absent "like" (by decide), absent "regexp" (by decide),
    absent "between" (by decide), absent "overlaps" (by decide)]

/-- A chain of intervals ends where no interval follows. -/
theorem intervalChain_of_silent (unary : Source → Except SyntaxError (Expr × Source)) {s : Source}
    {m : Nat} (hT : Silent 8 T) (hs : s.At T m) (count : Nat) (lhs : Expr) :
    ∃ t, intervalChain unary count lhs s = .ok (lhs, t) ∧ t.At T m := by
  cases count with
  | zero => exact ⟨s.skipBlanks, rfl, hs.skipBlanks⟩
  | succ count =>
    obtain ⟨pos, hpos⟩ := hs.skipBlanks_eq
    unfold intervalChain
    rw [hpos]
    dsimp only
    rcases hT pos m with ⟨hplus, hminus⟩ | hword
    · rw [if_neg hplus, if_neg fun h => hminus h.1]
      exact ⟨_, rfl, hpos ▸ hs.skipBlanks⟩
    · split
      · exact ⟨_, rfl, hpos ▸ hs.skipBlanks⟩
      · refine ⟨s, ?_, hs⟩
        rw [hword]

/-- What an operand is read as is read by the interval level too where no interval follows. -/
theorem intervalLevel_reads (h : Reads (unaryLevel mode expr bound bound) cs n x T)
    (hT : Silent 8 T) : Reads (rung mode expr bound 8) cs n x T := by
  intro s m hs
  obtain ⟨t, ht, hat⟩ := h s m hs
  obtain ⟨u, hu, hatu⟩ := intervalChain_of_silent (unaryLevel mode expr bound bound) hT hat
    bound (x m)
  refine ⟨u, ?_, hatu⟩
  show intervalLevel mode expr bound s = _
  unfold intervalLevel
  dsimp only
  rw [ht]
  exact hu

/-- What a rung reads is read by the one above it where nothing that belongs to that follows. -/
theorem Reads.step {k : Nat} (hk : k < 8) (h : Reads (rung mode expr bound (k + 1)) cs n x T)
    (hT : Silent k T) : Reads (rung mode expr bound k) cs n x T := by
  by_cases hpredicates : k = 2
  · subst hpredicates
    exact predicateLevel_reads h hT
  · have hbinary : IsBinary k := ⟨hk, hpredicates⟩
    intro s m hs
    obtain ⟨t, ht, hat⟩ := h s m hs
    obtain ⟨u, hu, hatu⟩ := chain_of_none ((silent_iff hbinary).mp hT) hat bound (x m)
    refine ⟨u, ?_, hatu⟩
    rw [rung_eq_binaryLevel mode expr bound hbinary]
    unfold binaryLevel
    rw [ht]
    exact hu

theorem Reads.climb {j k : Nat} (hjk : j ≤ k) (hk : k ≤ 8)
    (h : Reads (rung mode expr bound k) cs n x T) (hT : ∀ i, j ≤ i → i < k → Silent i T) :
    Reads (rung mode expr bound j) cs n x T := by
  induction k, hjk using Nat.le_induction with
  | base => exact h
  | succ k hjk ih =>
    exact ih (by omega) (h.step hk (hT k hjk (Nat.lt_succ_self k))) fun i hji hik =>
      hT i hji (Nat.lt_succ_of_lt hik)

/-- Two operands with an operator between them are read by the rung of the operator. -/
theorem Reads.operator {k : Nat} (hk : IsBinary k) {left right U : List Char} {nl nr : Nat}
    {l r : Nat → Expr} {name : String} (hbound : 0 < bound)
    (hleft : Reads (rung mode expr bound (k + 1)) left nl l (U ++ right ++ T))
    (hmeets : Meets k (U ++ right ++ T) name (' ' :: (right ++ T)))
    (hright : Reads (rung mode expr bound (k + 1)) right nr r T) (hT : Silent k T) :
    Reads (rung mode expr bound k) (left ++ U ++ right) (nl + nr)
      (fun m => .op name [l m, r (m + nl)]) T := by
  intro s m hs
  obtain ⟨count, rfl⟩ := Nat.exists_eq_succ_of_ne_zero hbound.ne'
  simp only [List.append_assoc] at hs hleft hmeets
  obtain ⟨t, ht, hat⟩ := hleft s m hs
  obtain ⟨u, hu, hatu⟩ := chain_of_some hmeets hat hright count (l m)
  obtain ⟨v, hv, hatv⟩ := chain_of_none ((silent_iff hk).mp hT) hatu count
    (.op name [l m, r (m + nl)])
  refine ⟨v, ?_, Nat.add_assoc m nl nr ▸ hatv⟩
  rw [rung_eq_binaryLevel mode expr _ hk]
  unfold binaryLevel
  rw [ht]
  exact hu.trans hv

end

/-- An operand that is the whole text is an expression. -/
theorem exprWithin_reads_of_unary {mode : Mode} {bound n : Nat} {cs : List Char} {x : Nat → Expr}
    (h : Reads (unaryLevel mode (exprWithin mode bound) (bound + 1) (bound + 1)) cs n x []) :
    Reads (exprWithin mode (bound + 1)) cs n x [] :=
  (intervalLevel_reads h (silent_nil (Nat.le_refl 8))).climb (Nat.zero_le 8) (Nat.le_refl 8)
    fun _ _ hi => silent_nil (Nat.le_of_lt hi)

/-- What a production gives is what the text is compiled to, if nothing but blanks is left. -/
theorem compile_of_production {mode : Mode} {entry : Entry} {cs : List Char} {compiled : Compiled}
    {t : Source} {m : Nat}
    (h : production mode cs.length entry (Source.ofList cs) = .ok (compiled, t)) (hat : t.At [] m) :
    compile (String.ofList cs) mode entry = .ok compiled := by
  obtain ⟨pos, hnext⟩ := hat.skipBlanks_eq
  unfold compile
  rw [String.toList_ofList]
  dsimp only
  rw [show (Source.ofList cs).rest.length = cs.length from rfl, h, ok_bind]
  dsimp only
  rw [hnext]
  rfl

/-- A text that is read to its end is compiled to what it is read as. -/
theorem compile_of_reads {mode : Mode} {cs : List Char} {n : Nat} {x : Nat → Expr}
    (h : Reads (exprWithin mode cs.length) cs n x []) :
    compile (String.ofList cs) mode .expr = .ok (.expr (x 0)) := by
  obtain ⟨t, ht, hat⟩ := h (Source.ofList cs) 0 ⟨by rw [List.append_nil]; rfl, rfl⟩
  refine compile_of_production ?_ hat
  dsimp only [production]
  rw [ht]
  rfl

theorem compileExpr_of_reads {mode : Mode} {cs : List Char} {n : Nat} {x : Nat → Expr}
    (h : Reads (exprWithin mode cs.length) cs n x []) :
    compileExpr (String.ofList cs) mode = .ok (x 0) := by
  unfold compileExpr
  rw [compile_of_reads h]
  rfl

end DocWire
