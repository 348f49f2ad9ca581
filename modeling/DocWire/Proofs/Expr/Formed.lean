import DocWire.Expr.Compile
import DocWire.Proofs.Expr.Numerals
import DocWire.Proofs.Expr.Paths
import DocWire.Proofs.Message.Scalar

/-!
# What texts are compiled to

A tree that is compiled from a text is not just any tree: operators before an operand have names of
their own, small integers are never kept as text, bytes are the names of types and units, and bare
identifiers are what the mode makes of them.

* `Scalar.Formed`, `Expr.Formed`   the literals and the trees that a text can give;
* `Expr.FormedIn`                  the trees that a text of a mode can give;
* `Numeral.Spelled.scalar_formed`  numerals;
* `castType_startsUpper`, `intervalUnit_startsUpper`   types and units;
* `operand_gives`, `unaryLevel_gives`, `negatablePredicate_gives`   the productions;
* `exprWithin_gives`, `compileExpr_formed`   what is compiled.
-/

namespace DocWire

open Text (isDigit digitsValue)

/-! ## Literals and trees -/

/-- a capital letter is the first character -/
def StartsUpper (s : String) : Prop := s.toList.head?.any Char.isUpper = true
deriving Decidable

/-- whether a character begins a number as it is written, its minus sign included -/
def startsNumber (c : Char) : Bool := isDigit c || c == '.' || c == '-'

/-- The literals of a text. Integers are kept as text only where they are too large for others. -/
inductive Scalar.Formed : Scalar → Prop
  | null : Formed null
  | bool (b : Bool) : Formed (bool b)
  | double (bits : UInt64) : Formed (double bits)
  | str (s : String) : Formed (str s)
  | uint (n : UInt64) (small : n.toNat ≤ maxSafeInteger) : Formed (uint n)
  | sint (i : Int64) (small : i.toInt.natAbs ≤ maxSafeInteger) : Formed (sint i)
  | exact (text : String) (start : text.toList.head?.any startsNumber = true)
    (large : ∀ z, DenotesInteger text.toList z → maxSafeInteger < z.natAbs) : Formed (exact text)
  /-- the name of a type or a unit -/
  | bytes (word : String) (upper : StartsUpper word) : Formed (bytes (Text.Utf8.encode word))

/-- the operators before an operand -/
def unaryNames : List String := ["!", "~", "sign_plus", "sign_minus", "not"]

/-- The trees of a text. No operator before an operand shares its name with another operator. -/
inductive Expr.Formed : Expr → Prop
  | literal {value : Scalar} (h : value.Formed) : Formed (literal value)
  | field (path : List PathItem) : Formed (field path)
  | column (ref : ColumnRef) : Formed (column ref)
  | named (name : String) : Formed (named name)
  | positional (index : Nat) : Formed (positional index)
  | call (schema : Option String) (name : String) {args : List Expr} (h : ∀ e ∈ args, Formed e) :
    Formed (call schema name args)
  | op {name : String} {args : List Expr} (other : name ∉ unaryNames) (h : ∀ e ∈ args, Formed e) :
    Formed (op name args)
  | unary {name : String} {arg : Expr} (own : name ∈ unaryNames) (h : Formed arg) :
    Formed (unary name arg)
  | object {members : List (String × Expr)} (h : ∀ m ∈ members, Formed m.2) :
    Formed (object members)
  | array {items : List Expr} (h : ∀ e ∈ items, Formed e) : Formed (array items)

/-- The trees of a text that is read in a mode: the places in them are fields of documents, or
columns of tables. -/
inductive Expr.FormedIn (mode : Mode) : Expr → Prop
  | literal {value : Scalar} (h : value.Formed) : FormedIn mode (literal value)
  | field {path : List PathItem} (here : mode = .document) (h : ProperPath path) :
    FormedIn mode (field path)
  | column {ref : ColumnRef} (here : mode = .table) (h : ProperPath ref.path) :
    FormedIn mode (column ref)
  | named (name : String) : FormedIn mode (named name)
  | positional (index : Nat) : FormedIn mode (positional index)
  | call (schema : Option String) (name : String) {args : List Expr}
    (h : ∀ e ∈ args, FormedIn mode e) : FormedIn mode (call schema name args)
  | op {name : String} {args : List Expr} (other : name ∉ unaryNames)
    (h : ∀ e ∈ args, FormedIn mode e) : FormedIn mode (op name args)
  | unary {name : String} {arg : Expr} (own : name ∈ unaryNames) (h : FormedIn mode arg) :
    FormedIn mode (unary name arg)
  | object {members : List (String × Expr)} (h : ∀ m ∈ members, FormedIn mode m.2) :
    FormedIn mode (object members)
  | array {items : List Expr} (h : ∀ e ∈ items, FormedIn mode e) : FormedIn mode (array items)

namespace Expr.FormedIn

variable {mode : Mode} {name : String} {a b c : Expr}

theorem pair (other : name ∉ unaryNames) (ha : a.FormedIn mode) (hb : b.FormedIn mode) :
    (Expr.op name [a, b]).FormedIn mode :=
  .op other (List.forall_mem_cons.mpr ⟨ha, List.forall_mem_singleton.mpr hb⟩)

theorem triple (other : name ∉ unaryNames) (ha : a.FormedIn mode) (hb : b.FormedIn mode)
    (hc : c.FormedIn mode) : (Expr.op name [a, b, c]).FormedIn mode :=
  .op other (List.forall_mem_cons.mpr ⟨ha, List.forall_mem_cons.mpr
    ⟨hb, List.forall_mem_singleton.mpr hc⟩⟩)

theorem formed (h : a.FormedIn mode) : a.Formed := by
  induction h with
  | literal h => exact .literal h
  | field _ _ => exact .field _
  | column _ _ => exact .column _
  | named name => exact .named name
  | positional index => exact .positional index
  | call schema name _ ih => exact .call schema name ih
  | op other _ ih => exact .op other ih
  | unary own _ ih => exact .unary own ih
  | object _ ih => exact .object ih
  | array _ ih => exact .array ih

end Expr.FormedIn

/-! ## Numerals -/

namespace Numeral

theorem text_of_isIntegral {n : Numeral} (h : n.isIntegral = true) : n.text = n.whole := by
  unfold isIntegral at h
  rw [Bool.and_eq_true, Option.isNone_iff_eq_none, List.isEmpty_iff] at h
  unfold text fractionText
  rw [h.1, h.2]
  simp

namespace Spelled

variable {n : Numeral} (hn : n.Spelled)
include hn

/-- A point and the letter of an exponent are no digits. -/
theorem exists_mem_text (h : n.isIntegral = false) : ∃ c ∈ n.text, isDigit c = false := by
  have hexponent := hn.exponent
  unfold isIntegral at h
  unfold text fractionText
  cases hfraction : n.fraction with
  | some ds => exact ⟨'.', by simp, rfl⟩
  | none =>
    rw [hfraction, Option.isNone_none, Bool.true_and] at h
    cases he : n.exponent with
    | nil =>
      rw [he] at h
      cases h
    | cons mark digits =>
      rw [he] at hexponent
      cases hexponent with
      | some _ _ _ hmark _ =>
        refine ⟨mark, by simp, ?_⟩
        rcases hmark with rfl | rfl <;> rfl

/-- Where the text of a numeral is an integer, its digits are those of the numeral. -/
theorem eq_of_denotesInteger (negative : Bool) {z : Int}
    (h : DenotesInteger (n.written negative) z) :
    (∀ c ∈ n.text, isDigit c = true) ∧ z.natAbs = digitsValue n.text := by
  obtain ⟨c, rest, hstart, hc⟩ := hn.exists_first
  have hsign : c ≠ '+' ∧ c ≠ '-' := by
    constructor <;>
    · rintro rfl
      rcases hc with hc | hc <;> cases hc
  cases negative with
  | true =>
    replace h : DenotesInteger ('-' :: n.text) z := h
    cases h with
    | unsigned _ _ all => exact absurd (all '-' List.mem_cons_self) (by decide)
    | minus _ _ all => exact ⟨all, by rw [Int.natAbs_neg, Int.natAbs_natCast]⟩
  | false =>
    replace h : DenotesInteger n.text z := h
    rw [hstart] at h ⊢
    cases h with
    | unsigned _ _ all => exact ⟨all, Int.natAbs_natCast _⟩
    | plus => exact absurd rfl hsign.1
    | minus => exact absurd rfl hsign.2

theorem scalar_formed (negative : Bool) : (n.scalar negative).Formed := by
  obtain ⟨c, rest, hstart, hc⟩ := hn.exists_first
  have hwritten (hlarge : n.isIntegral = true → maxSafeInteger < digitsValue n.whole) :
      (Scalar.exact (String.ofList (n.written negative))).Formed := by
    refine .exact _ ?_ fun z hz => ?_
    · rw [String.toList_ofList]
      cases negative with
      | true => rfl
      | false =>
        show n.text.head?.any startsNumber = true
        rw [hstart]
        show startsNumber c = true
        unfold startsNumber
        rcases hc with hc | rfl
        · rw [hc]
          rfl
        · rfl
    · rw [String.toList_ofList] at hz
      obtain ⟨hdigits, habs⟩ := hn.eq_of_denotesInteger negative hz
      cases hintegral : n.isIntegral with
      | true =>
        rw [habs, text_of_isIntegral hintegral]
        exact hlarge hintegral
      | false =>
        obtain ⟨d, hd, hdigit⟩ := hn.exists_mem_text hintegral
        rw [hdigits d hd] at hdigit
        cases hdigit
  unfold scalar
  dsimp only
  split
  · rename_i hlarge
    exact hwritten fun _ => hlarge
  · rename_i hsmall
    have hmax : maxSafeInteger = 2 ^ 53 - 1 := rfl
    split
    · split
      · refine .sint _ ?_
        rw [Int64.toInt_ofInt_of_le (by omega) (by omega)]
        omega
      · refine .uint _ ?_
        rw [UInt64.toNat_ofNat', Nat.mod_eq_of_lt (by omega)]
        omega
    · rename_i hintegral
      split
      · exact .double _
      · exact hwritten fun h => absurd h hintegral

end Spelled

end Numeral

theorem numeral_formed {s : Source} (h : s.atNumeral = true) (negative : Bool) :
    (numeral negative s).1.Formed := (Numeral.spelled_read h).1.scalar_formed negative

/-! ## Other literals -/

theorem keywordLiteral_formed {s t : Source} {value : Scalar}
    (h : keywordLiteral s = some (value, t)) : value.Formed := by
  unfold keywordLiteral at h
  split at h
  · cases h
    exact .null
  · split at h
    · cases h
      exact .bool true
    · split at h
      · cases h
        exact .bool false
      · cases h

theorem StartsUpper.append {s : String} (h : StartsUpper s) (t : String) :
    StartsUpper (s ++ t) := by
  unfold StartsUpper at h ⊢
  rw [String.toList_append]
  cases hs : s.toList with
  | nil =>
    rw [hs] at h
    cases h
  | cons c cs =>
    rw [hs] at h
    exact h

theorem parameterizedType_startsUpper {name : String} (h : StartsUpper name) (count : Nat)
    (s : Source) : Yields (parameterizedType name count s) fun type _ => StartsUpper type := by
  unfold parameterizedType
  split
  · exact .ok h
  · exact .map (yields_true _) fun _ _ _ => ((h.append _).append _).append _

theorem castType_startsUpper (s : Source) : Yields (castType s) fun type _ => StartsUpper type := by
  unfold castType
  dsimp only
  split
  · exact .fail _ _
  · rename_i word _
    generalize String.ofList (word.map Char.toUpper) = name
    split
    · split
      · exact .ok (StartsUpper.append (by decide) _)
      · exact .ok (by decide)
    · split
      · exact .ok (StartsUpper.append (by decide) _)
      · exact .ok (by decide)
    · exact parameterizedType_startsUpper (by decide) _ _
    · exact parameterizedType_startsUpper (by decide) _ _
    · exact parameterizedType_startsUpper (by decide) _ _
    · exact .ok (by decide)
    · exact .ok (by decide)
    · exact .ok (by decide)
    · exact .ok (by decide)
    · exact .fail _ _

theorem intervalUnit_startsUpper (s : Source) :
    Yields (intervalUnit s) fun unit _ => StartsUpper unit := by
  have hunits : ∀ unit ∈ intervalUnits, StartsUpper unit := by decide
  unfold intervalUnit
  dsimp only
  split
  · exact .fail _ _
  · split
    · rename_i hunit
      exact .ok (hunits _ (List.contains_iff_mem.mp hunit))
    · exact .fail _ _

/-! ## Operands -/

/-- A reader that gives only trees that a text of the mode can give. -/
def GivesIn (mode : Mode) (r : Except SyntaxError (Expr × Source)) : Prop :=
  Yields r fun e _ => e.FormedIn mode

theorem separated_yields {α : Type} {P : α → Prop}
    {item : Source → Except SyntaxError (α × Source)} (hitem : ∀ s, Yields (item s) fun x _ => P x)
    (close : Char) (what : String) (bound : Nat) (s : Source) :
    Yields (separated item close what bound s) fun xs _ => ∀ x ∈ xs, P x := by
  induction bound generalizing s with
  | zero => exact .bind (hitem s) fun _ t _ => .fail t _
  | succ bound ih =>
    unfold separated
    refine .bind (hitem s) fun x t hx => ?_
    dsimp only
    split
    · exact .ok (by simpa using hx)
    · split
      · refine .bind (ih _) fun xs u hxs => .ok ?_
        exact List.forall_mem_cons.mpr ⟨hx, hxs⟩
      · exact .fail _ _

theorem columnFrom_gives (first : String) (s : Source) : GivesIn .table (columnFrom first s) := by
  -- a path comes behind an arrow only
  have hparts : ∀ parts, ProperPath (ColumnRef.ofParts first parts).path := by
    intro parts
    unfold ColumnRef.ofParts
    split <;> exact .nil
  unfold columnFrom
  dsimp only
  split
  · exact .map (arrowPath_proper _) fun path t hpath =>
      .call _ _ (List.forall_mem_singleton.mpr (.column rfl hpath))
  · split
    · exact .map (arrowPath_proper _) fun path t hpath => .column rfl hpath
    · exact .ok (.column rfl (hparts _))

theorem fieldFrom_gives (bound : Nat) (previous : Option PathItem)
    (hprevious : previous ≠ some .anyMember) (s : Source) :
    GivesIn .document (fieldFrom bound previous s) :=
  .map (segments_proper bound fun h => absurd h hprevious) fun _ _ hpath => .field rfl hpath

section
variable {mode : Mode} {expr : Source → Except SyntaxError (Expr × Source)} (bound : Nat)
  (hexpr : ∀ s, GivesIn mode (expr s))
include hexpr

theorem argument_gives (s : Source) : GivesIn mode (argument expr s) := by
  unfold argument
  dsimp only
  split
  · exact hexpr _
  · split
    · exact .ok (.op (by decide) fun _ he => absurd he List.not_mem_nil)
    · exact .fail _ _

theorem callOf_gives (schema : Option String) (name : String) (s : Source) :
    GivesIn mode (callOf expr bound schema name s) := by
  unfold callOf
  refine .behind fun t => ?_
  dsimp only
  split
  · exact .ok (.call _ _ fun _ he => absurd he List.not_mem_nil)
  · exact .bind (separated_yields (argument_gives hexpr) ')' _ bound _) fun args u hargs =>
      .ok (.call _ _ hargs)

theorem identifierTail_gives (first : String) (s : Source) :
    GivesIn mode (identifierTail mode expr bound first s) := by
  have hfield := fieldFrom_gives bound (some (.member first)) (fun h => nomatch h) s
  have hcolumn := columnFrom_gives first s
  unfold identifierTail
  dsimp only
  split
  · exact callOf_gives bound hexpr none first _
  · split
    · cases mode <;> assumption
    · split
      · cases mode <;> assumption
      · split
        · exact callOf_gives bound hexpr (some first) _ _
        · cases mode <;> assumption

theorem castOf_gives (s : Source) : GivesIn mode (castOf expr s) := by
  unfold castOf
  refine .behind fun t => .bind (hexpr t) fun value u hvalue => ?_
  dsimp only
  split
  · exact .fail _ _
  · exact .bind (castType_startsUpper _) fun type w htype => .behind fun x =>
      .ok (.pair (by decide) hvalue (.literal (.bytes type htype)))

theorem objectField_yields (s : Source) :
    Yields (objectField mode expr s) fun x _ => x.2.FormedIn mode := by
  have value (key : String) (t : Source) :
      Yields (t.expect ':' "':' after object key" >>= fun t => expr t >>= fun x =>
        .ok ((key, x.1), x.2)) fun x _ => x.2.FormedIn mode :=
    .behind fun u => .bind (hexpr u) fun _ _ hvalue => .ok hvalue
  unfold objectField
  dsimp only
  split
  · exact .bind (yields_true _) fun key t _ => value key t
  · split
    · exact value _ _
    · exact .error _

theorem objectBody_gives (s : Source) : GivesIn mode (objectBody mode expr bound s) := by
  unfold objectBody
  dsimp only
  split
  · exact .ok (.object fun _ hm => absurd hm List.not_mem_nil)
  · exact .map (separated_yields (objectField_yields hexpr) _ _ bound _) fun members t h =>
      .object h

theorem arrayBody_gives (s : Source) : GivesIn mode (arrayBody expr bound s) := by
  unfold arrayBody
  dsimp only
  split
  · exact .ok (.array fun _ he => absurd he List.not_mem_nil)
  · exact .map (separated_yields hexpr ']' _ bound _) fun items t h => .array h

omit hexpr in
theorem placeholderName_gives (s : Source) : GivesIn mode (placeholderName s) := by
  unfold placeholderName
  dsimp only
  split
  · exact .fail _ _
  · exact .ok (.named _)

theorem operand_gives (s : Source) : GivesIn mode (operand mode expr bound s) := by
  unfold operand
  dsimp only
  split
  · rename_i value t ht
    exact .ok (.literal (keywordLiteral_formed ht))
  · split
    · rename_i hnumeral
      exact .ok (.literal (numeral_formed hnumeral false))
    · split
      · exact .bind (hexpr _) fun inner t hinner => .behind fun u => .ok hinner
      · exact arrayBody_gives bound hexpr _
      · exact objectBody_gives bound hexpr _
      · exact .map (yields_true _) fun text t _ => .literal (.str text)
      · exact .map (yields_true _) fun text t _ => .literal (.str text)
      · exact .ok (.positional _)
      · exact placeholderName_gives _
      · split
        · exact .fail _ _
        · exact fieldFrom_gives bound none (fun h => nomatch h) _
      · exact .bind (yields_true _) fun first t _ => identifierTail_gives bound hexpr first t
      · split
        · split
          · exact castOf_gives hexpr _
          · exact .bind (yields_true _) fun first t _ =>
              identifierTail_gives bound hexpr first t
        · exact .fail _ _
      · exact .fail _ _

end

/-! ## The ladder -/

/-- An operator that is found is none of those before an operand. -/
def NotUnary (found : Option (String × Source)) : Prop :=
  ∀ name t, found = some (name, t) → name ∉ unaryNames

namespace NotUnary

theorem called {name : String} (h : name ∉ unaryNames) (found : Option Source) :
    NotUnary (called name found) := by
  intro other t ht
  cases found with
  | none => cases ht
  | some u =>
    cases ht
    exact h

theorem firstOf_nil : NotUnary (firstOf []) := by
  intro name t ht
  cases ht

theorem firstOf_cons {found : Option (String × Source)} {rest : List (Option (String × Source))}
    (h : NotUnary found) (hrest : NotUnary (firstOf rest)) :
    NotUnary (firstOf (found :: rest)) := by
  cases found with
  | none => exact hrest
  | some x => exact h

end NotUnary

section
variable (s : Source)

theorem orOperators_notUnary : NotUnary (orOperators s) :=
  .firstOf_cons (.called (by decide) _) (.firstOf_cons (.called (by decide) _) .firstOf_nil)

theorem andOperators_notUnary : NotUnary (andOperators s) :=
  .firstOf_cons (.called (by decide) _) (.firstOf_cons (.called (by decide) _) .firstOf_nil)

theorem comparisonOperators_notUnary : NotUnary (comparisonOperators s) :=
  .firstOf_cons (.called (by decide) _) (.firstOf_cons (.called (by decide) _)
    (.firstOf_cons (.called (by decide) _) (.firstOf_cons (.called (by decide) _)
      (.firstOf_cons (.called (by decide) _) (.firstOf_cons (.called (by decide) _)
        (.firstOf_cons (.called (by decide) _) (.firstOf_cons (.called (by decide) _)
          .firstOf_nil)))))))

theorem shiftOperators_notUnary : NotUnary (shiftOperators s) :=
  .firstOf_cons (.called (by decide) _) (.firstOf_cons (.called (by decide) _) .firstOf_nil)

theorem bitOperators_notUnary : NotUnary (bitOperators s) :=
  .firstOf_cons (.called (by decide) _) (.firstOf_cons (.called (by decide) _)
    (.firstOf_cons (.called (by decide) _) .firstOf_nil))

theorem additiveOperators_notUnary : NotUnary (additiveOperators s) :=
  .firstOf_cons (.called (by decide) _) (.firstOf_cons (.called (by decide) _) .firstOf_nil)

theorem multiplicativeOperators_notUnary : NotUnary (multiplicativeOperators s) :=
  .firstOf_cons (.called (by decide) _) (.firstOf_cons (.called (by decide) _)
    (.firstOf_cons (.called (by decide) _) (.firstOf_cons (.called (by decide) _) .firstOf_nil)))

end

section
variable {mode : Mode} {operators : Operators}
  {operand : Source → Except SyntaxError (Expr × Source)}
  (hoperators : ∀ s, NotUnary (operators s)) (hoperand : ∀ s, GivesIn mode (operand s))
include hoperators hoperand

theorem chain_gives (bound : Nat) {lhs : Expr} (hlhs : lhs.FormedIn mode) (s : Source) :
    GivesIn mode (chain operators operand bound lhs s) := by
  induction bound generalizing lhs s with
  | zero => exact .ok hlhs
  | succ bound ih =>
    unfold chain
    split
    · exact .ok hlhs
    · rename_i name t ht
      exact .bind (hoperand t) fun rhs u hrhs => ih (.pair (hoperators _ name t ht) hlhs hrhs) u

theorem binaryLevel_gives (bound : Nat) (s : Source) :
    GivesIn mode (binaryLevel operators operand bound s) :=
  .bind (hoperand s) fun _ t hlhs => chain_gives hoperators hoperand bound hlhs t

end

section
variable {mode : Mode} {expr : Source → Except SyntaxError (Expr × Source)} (bound : Nat)
  (hexpr : ∀ s, GivesIn mode (expr s))

theorem reservedOperand_gives (s : Source) : GivesIn mode (reservedOperand mode s) := by
  cases mode with
  | document => exact .ok (.field rfl (.singleton PathItem.noConfusion))
  | table => exact .ok (.column rfl .nil)

include hexpr

theorem unaryLevel_gives (count : Nat) (s : Source) :
    GivesIn mode (unaryLevel mode expr bound count s) := by
  induction count generalizing s with
  | zero => exact .fail _ _
  | succ count ih =>
    have applied {name : String} (own : name ∈ unaryNames) (t : Source) :
        GivesIn mode (unaryLevel mode expr bound count t >>= fun x => .ok (.unary name x.1, x.2)) :=
      .bind (ih t) fun arg u harg => .ok (.unary own harg)
    have negation (doubled : Bool) (t : Source) :
        GivesIn mode (if doubled then reservedOperand mode s.skipBlanks
          else if t.atNegatable then s.skipBlanks.fail .missingLeftOperand
          else unaryLevel mode expr bound count t >>= fun x => .ok (.unary "not" x.1, x.2)) := by
      split
      · exact reservedOperand_gives _
      · split
        · exact .fail _ _
        · exact applied (by decide) t
    unfold unaryLevel
    dsimp only
    split
    · exact applied (by decide) _
    · split
      · exact applied (by decide) _
      · split
        · exact applied (by decide) _
        · split
          · split
            · rename_i hnumeral
              exact .ok (.literal (numeral_formed hnumeral true))
            · exact applied (by decide) _
          · split
            · exact negation _ _
            · exact operand_gives bound hexpr _

omit hexpr in
theorem intervalChain_gives {unary : Source → Except SyntaxError (Expr × Source)}
    (hunary : ∀ s, GivesIn mode (unary s)) (count : Nat) {lhs : Expr}
    (hlhs : lhs.FormedIn mode) (s : Source) :
    GivesIn mode (intervalChain unary count lhs s) := by
  induction count generalizing lhs s with
  | zero => exact .ok hlhs
  | succ count ih =>
    have added {name : String} (other : name ∉ unaryNames) (t : Source) :
        GivesIn mode (unary t >>= fun x => intervalUnit x.2 >>= fun y =>
          intervalChain unary count
            (.op name [lhs, x.1, .literal (.bytes (Text.Utf8.encode y.1))]) y.2) :=
      .bind (hunary t) fun amount u hamount => .bind (intervalUnit_startsUpper u)
        fun unit v hunit => ih (.triple other hlhs hamount (.literal (.bytes unit hunit))) v
    unfold intervalChain
    dsimp only
    split
    · exact .ok hlhs
    · rename_i name hname
      have other : name ∉ unaryNames := by
        split at hname
        · obtain rfl := Option.some.inj hname
          decide
        · split at hname
          · obtain rfl := Option.some.inj hname
            decide
          · cases hname
      split
      · exact .ok hlhs
      · exact added other _

theorem intervalLevel_gives (s : Source) : GivesIn mode (intervalLevel mode expr bound s) :=
  .bind (unaryLevel_gives bound hexpr bound s) fun _ t hlhs =>
    intervalChain_gives (unaryLevel_gives bound hexpr bound) bound hlhs t

theorem comparisonLevel_gives (s : Source) : GivesIn mode (comparisonLevel mode expr bound s) :=
  binaryLevel_gives comparisonOperators_notUnary
    (binaryLevel_gives shiftOperators_notUnary
      (binaryLevel_gives bitOperators_notUnary
        (binaryLevel_gives additiveOperators_notUnary
          (binaryLevel_gives multiplicativeOperators_notUnary
            (intervalLevel_gives bound hexpr) bound) bound) bound) bound) bound s

theorem parenthesizedList_yields (s : Source) :
    Yields (parenthesizedList expr bound s) fun items? _ =>
      ∀ items, items? = some items → ∀ e ∈ items, e.FormedIn mode := by
  unfold parenthesizedList
  refine .bind (separated_yields hexpr ')' _ bound s) fun items t hitems => ?_
  dsimp only
  split
  · refine .ok fun _ h => ?_
    cases h
  · refine .ok fun _ h => ?_
    cases h
    exact hitems

omit hexpr in
theorem isPredicate_gives {lhs : Expr} (hlhs : lhs.FormedIn mode) (s : Source) :
    GivesIn mode (isPredicate lhs s) := by
  unfold isPredicate
  dsimp only
  cases s.skipBlanks.eatKeyword "not" with
  | some t =>
    dsimp only
    split
    · rename_i value u hu
      exact .ok (.pair (by decide) hlhs (.literal (keywordLiteral_formed hu)))
    · exact .fail _ _
  | none =>
    dsimp only
    split
    · rename_i value u hu
      exact .ok (.pair (by decide) hlhs (.literal (keywordLiteral_formed hu)))
    · exact .fail _ _

theorem negatablePredicate_gives (negated : Bool) {lhs : Expr} (hlhs : lhs.FormedIn mode)
    (s : Source) :
    GivesIn mode (negatablePredicate mode expr bound negated lhs s) := by
  have comparison := comparisonLevel_gives bound hexpr
  have other : ∀ plain ∈ ["cont_in", "in", "like", "regexp", "between", "overlaps"],
      (if negated then "not_" ++ plain else plain) ∉ unaryNames := by
    cases negated <;> decide
  have withOperand (plain : String)
      (h : (if negated then "not_" ++ plain else plain) ∉ unaryNames) (t : Source) :
      GivesIn mode (comparisonLevel mode expr bound t >>= fun x =>
        .ok (.op (if negated then "not_" ++ plain else plain) [lhs, x.1], x.2)) :=
    .bind (comparison t) fun rhs u hrhs => .ok (.pair h hlhs hrhs)
  unfold negatablePredicate
  dsimp only
  split
  · have hname := other "cont_in" (by decide)
    split
    · exact withOperand _ hname _
    · refine .bind (parenthesizedList_yields bound hexpr _) fun items? u hu => ?_
      cases items? with
      | none => exact withOperand _ hname _
      | some items =>
        exact .ok (.op (other "in" (by decide)) (List.forall_mem_cons.mpr ⟨hlhs, hu items rfl⟩))
  · split
    · have hname := other "like" (by decide)
      refine .bind (comparison _) fun pattern u hpattern => ?_
      dsimp only
      split
      · exact .ok (.pair hname hlhs hpattern)
      · exact .bind (comparison _) fun escape v hescape =>
          .ok (.triple hname hlhs hpattern hescape)
    · split
      · exact withOperand _ (other "regexp" (by decide)) _
      · split
        · refine .bind (comparison _) fun low u hlow => ?_
          dsimp only
          split
          · exact .fail _ _
          · exact .bind (comparison _) fun high v hhigh =>
              .ok (.triple (other "between" (by decide)) hlhs hlow hhigh)
        · split
          · exact withOperand _ (other "overlaps" (by decide)) _
          · exact .ok hlhs

theorem predicateLevel_gives (s : Source) : GivesIn mode (predicateLevel mode expr bound s) := by
  unfold predicateLevel
  refine .bind (comparisonLevel_gives bound hexpr s) fun lhs t hlhs => ?_
  dsimp only
  split
  · exact isPredicate_gives hlhs _
  · split
    · exact negatablePredicate_gives bound hexpr false hlhs _
    · split
      · exact negatablePredicate_gives bound hexpr true hlhs _
      · exact .ok hlhs

theorem orLevel_gives (s : Source) : GivesIn mode (orLevel mode expr bound s) :=
  binaryLevel_gives orOperators_notUnary
    (binaryLevel_gives andOperators_notUnary (predicateLevel_gives bound hexpr) bound) bound s

end

/-! ## Compiling -/

theorem exprWithin_gives (mode : Mode) (bound : Nat) (s : Source) :
    GivesIn mode (exprWithin mode bound s) := by
  induction bound generalizing s with
  | zero => exact .fail _ _
  | succ bound ih =>
    rw [exprWithin_succ]
    exact orLevel_gives (bound + 1) ih s

/-- **What is compiled is formed like an expression of a text of its mode.** -/
theorem compileExpr_formedIn {text : String} {mode : Mode} {e : Expr}
    (h : compileExpr text mode = .ok e) : e.FormedIn mode := by
  have hgives := exprWithin_gives mode text.toList.length (.ofList text.toList)
  obtain ⟨compiled, hcompile, rfl⟩ := exists_of_compileExpr h
  obtain ⟨t, hp⟩ := exists_of_compile hcompile
  unfold production at hp
  cases hx : exprWithin mode text.toList.length (.ofList text.toList) with
  | error e =>
    rw [hx] at hp
    cases hp
  | ok x =>
    rw [hx] at hp
    cases hp
    exact hgives x.1 x.2 hx

theorem compileExpr_formed {text : String} {mode : Mode} {e : Expr}
    (h : compileExpr text mode = .ok e) : e.Formed := (compileExpr_formedIn h).formed

end DocWire
