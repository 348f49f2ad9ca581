import DocWire.Expr.Compile
import DocWire.Proofs.Expr.Count
import DocWire.Proofs.Expr.Holes

/-!
# How placeholders are numbered while a text is read

Each reader of trees numbers the placeholders that it meets on from the count of its source, and
going back over a list in parentheses takes the count back too.  So the placeholders of what a text
is compiled to are numbered in order.

* `operand_numbers`     an operand, if the expressions inside brackets keep to the count;
* `chain_numbers`, `negatablePredicate_numbers`   what is folded onto a left operand goes on from
                        the numbers of that operand;
* `exprWithin_numbers`, `production_numbers`   every reader of trees keeps to the count;
* `compile_inOrder`, `compile_positionals`   what is compiled is numbered from zero, in order.
-/

namespace DocWire

variable {α : Type}

/-! ## Operands -/

theorem columnFrom_numbers (first : String) (s : Source) :
    Numbers Expr.indices s (columnFrom first s) := by
  have hmarks : (dottedParts 2 s).2.marks = s.marks := marks_dottedParts s 2
  unfold columnFrom
  dsimp only
  split
  · rename_i t ht
    have htmarks : t.marks = s.marks := (Source.marks_eatText ht).trans hmarks
    exact .map (arrowPath_quiet t) fun path u hu => by
      rw [hu, htmarks]
      exact .nothing _
  · split
    · rename_i t ht
      have htmarks : t.marks = s.marks := (Source.marks_eatText ht).trans hmarks
      exact .map (arrowPath_quiet t) fun path u hu => by
        rw [hu, htmarks]
        exact .nothing _
    · refine .ok ?_
      rw [hmarks]
      exact .nothing _

theorem fieldFrom_numbers (bound : Nat) (previous : Option PathItem) (s : Source) :
    Numbers Expr.indices s (fieldFrom bound previous s) :=
  .map (segments_quiet s bound previous) fun path t ht => by
    rw [ht]
    exact .nothing _

theorem separated_numbers {indices : α → List Nat}
    {item : Source → Except SyntaxError (α × Source)} (hitem : ∀ s, Numbers indices s (item s))
    (close : Char) (what : String) (bound : Nat) (s : Source) :
    Numbers (fun xs => xs.flatMap indices) s (separated item close what bound s) := by
  induction bound generalizing s with
  | zero => exact .bind (hitem s) fun _ t _ => .fail t _
  | succ bound ih =>
    unfold separated
    refine .bind (hitem s) fun x t hx => ?_
    dsimp only
    split
    · rename_i u hu
      refine .ok ?_
      rw [Source.marks_eat hu, List.flatMap_singleton]
      exact hx
    · split
      · rename_i u hu
        refine .bind (ih u) fun xs v hxs => .ok ?_
        rw [Source.marks_eat hu] at hxs
        exact hx.trans hxs
      · exact .fail _ _

section
variable (mode : Mode) {expr : Source → Except SyntaxError (Expr × Source)} (bound : Nat)
  (hexpr : ∀ s, Numbers Expr.indices s (expr s))
include hexpr

theorem argument_numbers (s : Source) : Numbers Expr.indices s (argument expr s) := by
  unfold argument
  dsimp only
  split
  · exact hexpr s.skipBlanks
  · rename_i t ht
    split
    · refine .ok ?_
      rw [Source.marks_skipBlanks, Source.marks_eat ht]
      exact .nothing _
    · exact .fail _ _

theorem callOf_numbers (schema : Option String) (name : String) (s : Source) :
    Numbers Expr.indices s (callOf expr bound schema name s) := by
  unfold callOf
  refine .expect fun t ht => ?_
  dsimp only
  split
  · rename_i u hu
    refine .ok ?_
    rw [Source.marks_eat hu, Source.marks_skipBlanks, ht]
    exact .nothing _
  · refine .bind (separated_numbers (argument_numbers hexpr) ')' _ bound _) fun args u hargs => .ok ?_
    rw [Source.marks_skipBlanks, ht] at hargs
    rw [Expr.indices_call]
    exact hargs

theorem identifierTail_numbers (first : String) (s : Source) :
    Numbers Expr.indices s (identifierTail mode expr bound first s) := by
  have hfield := fieldFrom_numbers bound (some (.member first)) s
  have hcolumn := columnFrom_numbers first s
  unfold identifierTail
  dsimp only
  split
  · exact callOf_numbers bound hexpr none first s.skipBlanks
  · split
    · cases mode <;> assumption
    · rename_i t ht
      split
      · cases mode <;> assumption
      · rename_i second u hu
        have hmarks : u.marks = s.marks := (identifier_quiet t _ _ hu).trans (Source.marks_eat ht)
        split
        · exact (callOf_numbers bound hexpr (some first) second u.skipBlanks).of_marks hmarks
        · cases mode <;> assumption

theorem castOf_numbers (s : Source) : Numbers Expr.indices s (castOf expr s) := by
  unfold castOf
  refine .expect fun t ht => .bind (hexpr t) fun value u hvalue => ?_
  dsimp only
  split
  · exact .fail _ _
  · rename_i v hv
    refine .bind (castType_quiet v) fun type w hw => .expect fun x hx => .ok ?_
    rw [hx, hw, Source.marks_eatKeyword hv, Source.marks_skipBlanks, Expr.indices_op]
    rw [ht, Source.marks_skip] at hvalue
    simpa using hvalue

theorem objectField_numbers (s : Source) :
    Numbers (fun x => x.2.indices) s (objectField mode expr s) := by
  have value (key : String) {t : Source} (ht : t.marks = s.marks) :
      Numbers (fun x => x.2.indices) s
        (t.expect ':' "':' after object key" >>= fun t => expr t >>= fun x =>
          .ok ((key, x.1), x.2)) := by
    refine .expect fun u hu => .bind (hexpr u) fun value v hv => .ok ?_
    rw [hu, ht] at hv
    exact hv
  unfold objectField
  dsimp only
  split
  · exact .bind (quoted_quiet _) fun key t ht => value key ht
  · split
    · exact value _ rfl
    · exact .error _

theorem objectBody_numbers (s : Source) :
    Numbers Expr.indices s (objectBody mode expr bound s) := by
  unfold objectBody
  dsimp only
  split
  · rename_i t ht
    refine .ok ?_
    rw [Source.marks_eat ht]
    exact .nothing _
  · refine .map (separated_numbers (objectField_numbers mode hexpr) _ _ bound _) fun fields t h => ?_
    rw [Expr.indices_object]
    exact h

theorem arrayBody_numbers (s : Source) : Numbers Expr.indices s (arrayBody expr bound s) := by
  unfold arrayBody
  dsimp only
  split
  · rename_i t ht
    refine .ok ?_
    rw [Source.marks_eat ht]
    exact .nothing _
  · refine .map (separated_numbers hexpr ']' _ bound _) fun items t h => ?_
    rw [Expr.indices_array]
    exact h

omit hexpr in
theorem placeholderName_numbers (s : Source) : Numbers Expr.indices s (placeholderName s) := by
  unfold placeholderName
  dsimp only
  split
  · exact .fail _ _
  · exact .ok (.nothing _)

/-- An operand numbers its placeholders on from the count, a `?` of its own being the next. -/
theorem operand_numbers (s : Source) : Numbers Expr.indices s (operand mode expr bound s) := by
  unfold operand
  dsimp only
  split
  · rename_i value t ht
    refine .ok ?_
    rw [marks_keywordLiteral ht]
    exact .nothing _
  · split
    · exact .ok (.nothing _)
    · split
      · refine .bind (hexpr _) fun inner t hinner => .expect fun u hu => .ok ?_
        rw [hu]
        exact hinner
      · exact arrayBody_numbers bound hexpr _
      · exact objectBody_numbers mode bound hexpr _
      · exact .map (quoted_quiet _) fun text t ht => by
          rw [ht]
          exact .nothing _
      · exact .map (quoted_quiet _) fun text t ht => by
          rw [ht]
          exact .nothing _
      · exact .ok (.next _)
      · exact placeholderName_numbers _
      · split
        · exact .fail _ _
        · exact fieldFrom_numbers bound none _
      · exact .bind (identifier_quiet _) fun first t ht =>
          (identifierTail_numbers mode bound hexpr first t).of_marks ht
      · split
        · split
          · exact castOf_numbers hexpr _
          · exact .bind (bareIdentifier_quiet _) fun first t ht =>
              (identifierTail_numbers mode bound hexpr first t).of_marks ht
        · exact .fail _ _
      · exact .fail _ _

end

/-! ## The ladder -/

/-- An operator that is found leaves the count as it is. -/
def KeepsCount (m : Nat) (found : Option (String × Source)) : Prop :=
  ∀ name t, found = some (name, t) → t.marks = m

namespace KeepsCount

variable {m : Nat}

theorem called {name : String} {found : Option Source} (h : ∀ t, found = some t → t.marks = m) :
    KeepsCount m (called name found) := by
  intro other t ht
  cases found with
  | none => cases ht
  | some u =>
    cases ht
    exact h t rfl

theorem text (s : Source) (name text : String) :
    KeepsCount s.marks (DocWire.called name (s.eatText text)) :=
  called fun _ => Source.marks_eatText

theorem op (s : Source) (name text : String) (notBefore : List Char) :
    KeepsCount s.marks (DocWire.called name (s.eatOp text notBefore)) :=
  called fun _ => Source.marks_eatOp

theorem keyword (s : Source) (name keyword : String) :
    KeepsCount s.marks (DocWire.called name (s.eatKeyword keyword)) :=
  called fun _ => Source.marks_eatKeyword

theorem firstOf_nil : KeepsCount m (firstOf []) := by
  intro name t ht
  cases ht

theorem firstOf_cons {found : Option (String × Source)} {rest : List (Option (String × Source))}
    (h : KeepsCount m found) (hrest : KeepsCount m (firstOf rest)) :
    KeepsCount m (firstOf (found :: rest)) := by
  cases found with
  | none => exact hrest
  | some x => exact h

end KeepsCount

section
variable (s : Source)

theorem orOperators_keepsCount : KeepsCount s.marks (orOperators s) :=
  .firstOf_cons (.text s _ _) (.firstOf_cons (.keyword s _ _) .firstOf_nil)

theorem andOperators_keepsCount : KeepsCount s.marks (andOperators s) :=
  .firstOf_cons (.text s _ _) (.firstOf_cons (.keyword s _ _) .firstOf_nil)

theorem comparisonOperators_keepsCount : KeepsCount s.marks (comparisonOperators s) :=
  .firstOf_cons (.text s _ _) (.firstOf_cons (.text s _ _) (.firstOf_cons (.text s _ _)
    (.firstOf_cons (.text s _ _) (.firstOf_cons (.text s _ _) (.firstOf_cons (.text s _ _)
      (.firstOf_cons (.op s _ _ _) (.firstOf_cons (.op s _ _ _) .firstOf_nil)))))))

theorem shiftOperators_keepsCount : KeepsCount s.marks (shiftOperators s) :=
  .firstOf_cons (.text s _ _) (.firstOf_cons (.text s _ _) .firstOf_nil)

theorem bitOperators_keepsCount : KeepsCount s.marks (bitOperators s) :=
  .firstOf_cons (.op s _ _ _) (.firstOf_cons (.op s _ _ _)
    (.firstOf_cons (.text s _ _) .firstOf_nil))

theorem additiveOperators_keepsCount : KeepsCount s.marks (additiveOperators s) :=
  .firstOf_cons (.text s _ _) (.firstOf_cons (.op s _ _ _) .firstOf_nil)

theorem multiplicativeOperators_keepsCount : KeepsCount s.marks (multiplicativeOperators s) :=
  .firstOf_cons (.op s _ _ _) (.firstOf_cons (.text s _ _) (.firstOf_cons (.text s _ _)
    (.firstOf_cons (.keyword s _ _) .firstOf_nil)))

end

section
variable {operators : Operators} {operand : Source → Except SyntaxError (Expr × Source)}
  (hoperators : ∀ s : Source, KeepsCount s.marks (operators s))
  (hoperand : ∀ s, Numbers Expr.indices s (operand s))
include hoperators hoperand

/-- A chain goes on with the numbers of what it is folded onto. -/
theorem chain_numbers (bound : Nat) {m : Nat} {lhs : Expr} {s : Source}
    (hlhs : Counted m lhs.indices s.marks) :
    Yields (chain operators operand bound lhs s) fun e t => Counted m e.indices t.marks := by
  induction bound generalizing lhs s with
  | zero => exact .ok hlhs
  | succ bound ih =>
    unfold chain
    split
    · exact .ok hlhs
    · rename_i name t ht
      refine .bind (hoperand t) fun rhs u hrhs => ih ?_
      rw [hoperators s.skipBlanks name t ht, Source.marks_skipBlanks] at hrhs
      simpa using hlhs.trans hrhs

theorem binaryLevel_numbers (bound : Nat) (s : Source) :
    Numbers Expr.indices s (binaryLevel operators operand bound s) :=
  .bind (hoperand s) fun _ _ hlhs => chain_numbers hoperators hoperand bound hlhs

end

section
variable (mode : Mode) {expr : Source → Except SyntaxError (Expr × Source)} (bound : Nat)
  (hexpr : ∀ s, Numbers Expr.indices s (expr s))

theorem reservedOperand_numbers (s : Source) : Numbers Expr.indices s (reservedOperand mode s) := by
  cases mode with
  | document => exact .ok (.nothing _)
  | table => exact .ok (.nothing _)

include hexpr

theorem unaryLevel_numbers (count : Nat) (s : Source) :
    Numbers Expr.indices s (unaryLevel mode expr bound count s) := by
  induction count generalizing s with
  | zero => exact .fail _ _
  | succ count ih =>
    have applied (name : String) {t : Source} (ht : t.marks = s.marks) :
        Numbers Expr.indices s (unaryLevel mode expr bound count t >>= fun x =>
          .ok (.unary name x.1, x.2)) :=
      .bind ((ih t).of_marks ht) fun arg u harg => .ok harg
    have negation (doubled : Bool) {t : Source} (ht : t.marks = s.marks) :
        Numbers Expr.indices s (if doubled then reservedOperand mode s.skipBlanks
          else if t.atNegatable then s.skipBlanks.fail .missingLeftOperand
          else unaryLevel mode expr bound count t >>= fun x => .ok (.unary "not" x.1, x.2)) := by
      split
      · exact reservedOperand_numbers mode s.skipBlanks
      · split
        · exact .fail _ _
        · exact applied "not" ht
    unfold unaryLevel
    dsimp only
    split
    · rename_i t ht
      exact applied _ (Source.marks_eatOp ht :)
    · split
      · rename_i t ht
        exact applied _ (Source.marks_eat ht :)
      · split
        · rename_i t ht
          exact applied _ (Source.marks_eat ht :)
        · split
          · rename_i t ht
            split
            · refine .ok ?_
              show Counted s.marks [] t.marks
              rw [Source.marks_eatOp ht]
              exact .nothing _
            · exact applied _ (Source.marks_eatOp ht :)
          · split
            · rename_i t ht
              exact negation _ (Source.marks_eatKeyword ht :)
            · exact operand_numbers mode bound hexpr _

omit hexpr in
theorem intervalChain_numbers {unary : Source → Except SyntaxError (Expr × Source)}
    (hunary : ∀ s, Numbers Expr.indices s (unary s)) (count : Nat) {m : Nat} {lhs : Expr}
    {s : Source} (hlhs : Counted m lhs.indices s.marks) :
    Yields (intervalChain unary count lhs s) fun e t => Counted m e.indices t.marks := by
  induction count generalizing lhs s with
  | zero => exact .ok hlhs
  | succ count ih =>
    unfold intervalChain
    dsimp only
    split
    · exact .ok hlhs
    · split
      · exact .ok hlhs
      · rename_i t ht
        have hmarks : t.marks = s.marks := (Source.marks_eatKeyword ht :)
        refine .bind ((hunary t).of_marks hmarks) fun amount u hu =>
          .bind (intervalUnit_quiet u) fun unit v hv => ih ?_
        rw [hv]
        simpa using hlhs.trans hu

theorem intervalLevel_numbers (s : Source) :
    Numbers Expr.indices s (intervalLevel mode expr bound s) :=
  .bind (unaryLevel_numbers mode bound hexpr bound s) fun _ _ hlhs =>
    intervalChain_numbers (unaryLevel_numbers mode bound hexpr bound) bound hlhs

theorem comparisonLevel_numbers (s : Source) :
    Numbers Expr.indices s (comparisonLevel mode expr bound s) :=
  binaryLevel_numbers comparisonOperators_keepsCount
    (binaryLevel_numbers shiftOperators_keepsCount
      (binaryLevel_numbers bitOperators_keepsCount
        (binaryLevel_numbers additiveOperators_keepsCount
          (binaryLevel_numbers multiplicativeOperators_keepsCount
            (intervalLevel_numbers mode bound hexpr) bound) bound) bound) bound) bound s

/-- The items of a list count, unless the list is given up. -/
theorem parenthesizedList_numbers (s : Source) :
    Yields (parenthesizedList expr bound s) fun items? t =>
      ∀ items, items? = some items → Counted s.marks (items.flatMap Expr.indices) t.marks := by
  unfold parenthesizedList
  refine .bind (separated_numbers hexpr ')' _ bound s) fun items t hitems => ?_
  dsimp only
  split
  · refine .ok fun _ h => ?_
    cases h
  · refine .ok fun _ h => ?_
    cases h
    exact hitems

omit hexpr in
theorem isPredicate_numbers {m : Nat} {lhs : Expr} {s : Source}
    (hlhs : Counted m lhs.indices s.marks) :
    Yields (isPredicate lhs s) fun e t => Counted m e.indices t.marks := by
  have keyword (name : String) {value : Scalar} {t u : Source} (ht : t.marks = s.marks)
      (hu : keywordLiteral t = some (value, u)) :
      Counted m (Expr.op name [lhs, .literal value]).indices u.marks := by
    rw [marks_keywordLiteral hu, ht]
    simpa using hlhs
  unfold isPredicate
  dsimp only
  cases hnot : s.skipBlanks.eatKeyword "not" with
  | some t =>
    dsimp only
    split
    · rename_i value u hu
      exact .ok (keyword "is_not" (t := t.skipBlanks) (Source.marks_eatKeyword hnot :) hu)
    · exact .fail _ _
  | none =>
    dsimp only
    split
    · rename_i value u hu
      exact .ok (keyword "is" (t := s.skipBlanks) rfl hu)
    · exact .fail _ _

theorem negatablePredicate_numbers (negated : Bool) {m : Nat} {lhs : Expr} {s : Source}
    (hlhs : Counted m lhs.indices s.marks) :
    Yields (negatablePredicate mode expr bound negated lhs s)
      fun e t => Counted m e.indices t.marks := by
  have comparison := comparisonLevel_numbers mode bound hexpr
  have left {t : Source} (ht : t.marks = s.marks) :
      Counted m ([lhs].flatMap Expr.indices) t.marks := by
    rw [ht, List.flatMap_singleton]
    exact hlhs
  -- one more operand
  have right {before : List Expr} {t u : Source} {rhs : Expr}
      (hbefore : Counted m (before.flatMap Expr.indices) t.marks)
      (hrhs : Counted t.marks rhs.indices u.marks) :
      Counted m ((before ++ [rhs]).flatMap Expr.indices) u.marks := by
    rw [List.flatMap_append, List.flatMap_singleton]
    exact hbefore.trans hrhs
  have withOperand (name : String) {t : Source} (ht : t.marks = s.marks) :
      Yields (comparisonLevel mode expr bound t >>= fun x => .ok (Expr.op name [lhs, x.1], x.2))
        fun e t => Counted m e.indices t.marks :=
    .bind (comparison t) fun rhs u hu => .ok (by
      rw [Expr.indices_op]
      exact right (left ht) hu)
  unfold negatablePredicate
  dsimp only
  split
  · rename_i t ht
    have ht : t.marks = s.marks := Source.marks_eatKeyword ht
    split
    · exact withOperand _ ht
    · rename_i u hu
      have hu : u.marks = s.marks := (Source.marks_eat hu).trans ht
      refine .bind (parenthesizedList_numbers bound hexpr u) fun items? v hv => ?_
      cases items? with
      | none => exact withOperand _ ht
      | some items =>
        refine .ok ?_
        rw [Expr.indices_op]
        have hitems := hv items rfl
        rw [hu] at hitems
        exact hlhs.trans hitems
  · split
    · rename_i t ht
      refine .bind (comparison t) fun pattern u hu => ?_
      have hpattern := right (left (Source.marks_eatKeyword ht)) hu
      dsimp only
      split
      · refine .ok ?_
        rw [Expr.indices_op]
        exact hpattern
      · rename_i v hv
        refine .bind (comparison v) fun escape w hw => .ok ?_
        rw [Source.marks_eatKeyword hv] at hw
        rw [Expr.indices_op]
        exact right hpattern hw
    · split
      · rename_i t ht
        exact withOperand _ (Source.marks_eatKeyword ht)
      · split
        · rename_i t ht
          refine .bind (comparison t) fun low u hu => ?_
          have hlow := right (left (Source.marks_eatKeyword ht)) hu
          dsimp only
          split
          · exact .fail _ _
          · rename_i v hv
            refine .bind (comparison v) fun high w hw => .ok ?_
            rw [Source.marks_eatKeyword hv] at hw
            rw [Expr.indices_op]
            exact right hlow hw
        · split
          · rename_i t ht
            exact withOperand _ (Source.marks_eatKeyword ht)
          · exact .ok hlhs

theorem predicateLevel_numbers (s : Source) :
    Numbers Expr.indices s (predicateLevel mode expr bound s) := by
  unfold predicateLevel
  refine .bind (comparisonLevel_numbers mode bound hexpr s) fun lhs t hlhs => ?_
  dsimp only
  split
  · rename_i u hu
    rw [← Source.marks_skipBlanks t, ← Source.marks_eatKeyword hu] at hlhs
    exact isPredicate_numbers hlhs
  · split
    · exact negatablePredicate_numbers mode bound hexpr false hlhs
    · rename_i u hu
      split
      · rw [← Source.marks_skipBlanks t, ← Source.marks_eatKeyword hu] at hlhs
        exact negatablePredicate_numbers mode bound hexpr true hlhs
      · exact .ok hlhs

theorem orLevel_numbers (s : Source) : Numbers Expr.indices s (orLevel mode expr bound s) :=
  binaryLevel_numbers orOperators_keepsCount
    (binaryLevel_numbers andOperators_keepsCount (predicateLevel_numbers mode bound hexpr) bound)
    bound s

end

/-! ## Compiling -/

section
variable (mode : Mode) (bound : Nat) (s : Source)

/-- An expression numbers its placeholders on from the count. -/
theorem exprWithin_numbers : Numbers Expr.indices s (exprWithin mode bound s) := by
  induction bound generalizing s with
  | zero => exact .fail _ _
  | succ bound ih =>
    rw [exprWithin_succ]
    exact orLevel_numbers mode (bound + 1) ih s

theorem sorting_numbers : Numbers (fun x => x.expr.indices) s (sorting mode bound s) := by
  unfold sorting
  refine .bind (exprWithin_numbers mode bound s) fun e t he => ?_
  dsimp only
  split
  · rename_i u hu
    refine .ok ?_
    rw [Source.marks_eatKeyword hu]
    exact he
  · refine .ok ?_
    cases hasc : t.skipBlanks.eatKeyword "asc" with
    | none => exact he
    | some u =>
      rw [Option.getD_some, Source.marks_eatKeyword hasc]
      exact he

theorem projection_numbers : Numbers (fun x => x.source.indices) s (projection mode bound s) := by
  unfold projection
  refine .bind (exprWithin_numbers mode bound s) fun e t he => ?_
  dsimp only
  split
  · exact .ok he
  · rename_i u hu
    refine .bind (identifier_quiet _) fun name v hv => .ok ?_
    rw [hv, Source.marks_skipBlanks, Source.marks_eatKeyword hu]
    exact he

theorem functionCall_numbers : Numbers Expr.indices s (functionCall mode bound s) := by
  have hexpr := exprWithin_numbers mode bound
  unfold functionCall
  refine .bind (identifier_quiet _) fun first t ht => ?_
  dsimp only
  split
  · exact (callOf_numbers bound hexpr none first t).of_marks ht
  · rename_i u hu
    refine .bind (identifier_quiet u) fun second v hv => ?_
    have hmarks : v.marks = s.marks := hv.trans ((Source.marks_eat hu).trans ht)
    exact (callOf_numbers bound hexpr (some first) second v).of_marks hmarks

theorem placeholder_numbers : Numbers Expr.indices s (placeholder mode bound s) := by
  unfold placeholder
  dsimp only
  split
  · exact operand_numbers mode bound (exprWithin_numbers mode bound) s.skipBlanks
  · exact .fail _ _

theorem documentField_numbers : Numbers Expr.indices s (documentField mode bound s) := by
  unfold documentField
  cases mode with
  | table => exact .fail _ _
  | document =>
    dsimp only
    split
    · rename_i t ht
      exact (fieldFrom_numbers bound none t).of_marks (Source.marks_eat ht :)
    · exact .bind (bareIdentifier_quiet _) fun first t ht =>
        (fieldFrom_numbers bound (some (.member first)) t).of_marks ht

/-- Every production numbers the placeholders that it meets on from the count. -/
theorem production_numbers (entry : Entry) :
    Numbers (fun x => x.toExpr.indices) s (production mode bound entry s) := by
  have hexpr := exprWithin_numbers mode bound
  have quiet {t : Source} {e : Expr} (ht : t.marks = s.marks) (he : e.indices = []) :
      Counted s.marks e.indices t.marks := by
    rw [ht, he]
    exact .nothing _
  cases entry with
  | expr => exact .map (hexpr s) fun _ _ h => h
  | literal => exact .map (literal_quiet s) fun _ _ h => quiet h rfl
  | functionCall => exact .map (functionCall_numbers mode bound s) fun _ _ h => h
  | placeholder => exact .map (placeholder_numbers mode bound s) fun _ _ h => h
  | documentField => exact .map (documentField_numbers mode bound s) fun _ _ h => h
  | columnIdent =>
    have hcolumn : Numbers Expr.indices s (columnIdent s) :=
      .bind (identifier_quiet _) fun first t ht => (columnFrom_numbers first t).of_marks ht
    exact .map hcolumn fun _ _ h => h
  | jsonDoc =>
    have hobject : Numbers Expr.indices s (jsonDoc mode bound s) :=
      .expect fun t ht => (objectBody_numbers mode bound hexpr t).of_marks ht
    exact .map hobject fun _ _ h => h
  | jsonArray =>
    have harray : Numbers Expr.indices s (jsonArray mode bound s) :=
      .expect fun t ht => (arrayBody_numbers bound hexpr t).of_marks ht
    exact .map harray fun _ _ h => h
  | castType => exact .map (castType_quiet s) fun _ _ h => quiet h rfl
  | sortExpr => exact .map (sorting_numbers mode bound s) fun _ _ h => h
  | projectedSearchExpr => exact .map (projection_numbers mode bound s) fun _ _ h => h

end

/-- What is compiled is numbered from zero, in order of appearance. -/
theorem compile_inOrder {text : String} {mode : Mode} {entry : Entry} {compiled : Compiled}
    (h : compile text mode entry = .ok compiled) : compiled.toExpr.InOrder := by
  obtain ⟨t, hp⟩ := exists_of_compile h
  obtain ⟨k, hk, -⟩ := production_numbers mode _ _ entry compiled t hp
  show compiled.toExpr.indices = List.range compiled.toExpr.indices.length
  rw [show compiled.toExpr.indices = List.range' 0 k from hk, List.length_range',
    List.range_eq_range']

theorem compileExpr_inOrder {text : String} {mode : Mode} {e : Expr}
    (h : compileExpr text mode = .ok e) : e.InOrder := by
  obtain ⟨compiled, hcompile, rfl⟩ := exists_of_compileExpr h
  exact compile_inOrder hcompile

theorem compileSorting_inOrder {text : String} {mode : Mode} {x : Sorting}
    (h : compileSorting text mode = .ok x) : x.expr.InOrder := by
  unfold compileSorting at h
  cases hc : compile text mode .sortExpr with
  | error err =>
    rw [hc] at h
    cases h
  | ok compiled =>
    rw [hc] at h
    have horder := compile_inOrder hc
    cases compiled <;> cases h <;> exact horder

theorem compileProjection_inOrder {text : String} {mode : Mode} {x : Projection}
    (h : compileProjection text mode = .ok x) : x.source.InOrder := by
  unfold compileProjection at h
  cases hc : compile text mode .projectedSearchExpr with
  | error err =>
    rw [hc] at h
    cases h
  | ok compiled =>
    rw [hc] at h
    have horder := compile_inOrder hc
    cases compiled <;> cases h <;> exact horder

/-- **Positional placeholders are numbered as they appear.**  The numbers that are met in what is
compiled, from left to right, are those from zero up to the count, each once. -/
theorem compile_positionals {text : String} {mode : Mode} {entry : Entry} {compiled : Compiled}
    (h : compile text mode entry = .ok compiled) :
    compiled.toExpr.indices = List.range compiled.toExpr.positionalCount := by
  have horder := compile_inOrder h
  rw [horder.positionalCount]
  exact horder

/-- The first parenthesis is read as a list at first, and once more as an operand. -/
theorem compile_positionals_reread :
    let e := Expr.op "&&" [.op "cont_in" [.positional 0, .op "+" [.positional 1,
        .call (some "x") "f" [.positional 2]]],
      .op "not_in" [.unary "not" (.positional 3), .positional 4, .array [.positional 5]]]
    compile "? in (?) + x.f(?) and not ? not in (?, [?])" .document .expr = .ok (.expr e) ∧
      e.indices = List.range e.positionalCount :=
  ⟨rfl, compile_positionals (rfl : compile "? in (?) + x.f(?) and not ? not in (?, [?])" .document
    .expr = _)⟩

end DocWire
