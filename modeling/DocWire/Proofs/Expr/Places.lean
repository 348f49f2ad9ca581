import DocWire.Proofs.Expr.Formed

/-!
# The places in what is compiled

Every production gives trees of one mode.  Only the production of columns goes its own way: it reads
a column in either mode.

* `Expr.PartOf`         a tree that occurs in another one;
* `Entry.placesOf`      the mode whose places a production gives;
* `literal_formed`, `production_gives`   the productions;
* `compile_places`      the fields and the columns in what is compiled, and their paths.
-/

namespace DocWire

/-! ## Parts of trees -/

/-- A tree that occurs somewhere in another one. -/
inductive Expr.PartOf (part : Expr) : Expr → Prop
  | here : PartOf part part
  | call {schema : Option String} {name : String} {args : List Expr} {e : Expr} (he : e ∈ args)
    (h : PartOf part e) : PartOf part (call schema name args)
  | op {name : String} {args : List Expr} {e : Expr} (he : e ∈ args) (h : PartOf part e) :
    PartOf part (op name args)
  | unary {name : String} {arg : Expr} (h : PartOf part arg) : PartOf part (unary name arg)
  | object {members : List (String × Expr)} {m : String × Expr} (hm : m ∈ members)
    (h : PartOf part m.2) : PartOf part (object members)
  | array {items : List Expr} {e : Expr} (he : e ∈ items) (h : PartOf part e) :
    PartOf part (array items)

namespace Expr.FormedIn

variable {mode : Mode}

/-- The parts of the trees of a mode are trees of that mode. -/
theorem part {part e : Expr} (h : e.FormedIn mode) (hpart : part.PartOf e) :
    part.FormedIn mode := by
  induction hpart with
  | here => exact h
  | call he _ ih =>
    cases h with
    | call _ _ hargs => exact ih (hargs _ he)
  | op he _ ih =>
    cases h with
    | op _ hargs => exact ih (hargs _ he)
  | unary _ ih =>
    cases h with
    | unary _ harg => exact ih harg
  | object hm _ ih =>
    cases h with
    | object hmembers => exact ih (hmembers _ hm)
  | array he _ ih =>
    cases h with
    | array hitems => exact ih (hitems _ he)

theorem of_field {path : List PathItem} (h : (Expr.field path).FormedIn mode) :
    mode = .document ∧ ProperPath path := by
  cases h with
  | field here hpath => exact ⟨here, hpath⟩

theorem of_column {ref : ColumnRef} (h : (Expr.column ref).FormedIn mode) :
    mode = .table ∧ ProperPath ref.path := by
  cases h with
  | column here hpath => exact ⟨here, hpath⟩

end Expr.FormedIn

/-! ## Productions -/

/-- The mode whose places a production gives, where the text is read in `mode`. -/
def Entry.placesOf (mode : Mode) : Entry → Mode
  | columnIdent => .table
  | _ => mode

theorem literal_formed (s : Source) : Yields (literal s) fun value _ => value.Formed := by
  have signed (negative : Bool) (t : Source) :
      Yields (if t.atNumeral then .ok (numeral negative t)
        else t.fail (.expected "number after sign")) fun value _ => value.Formed := by
    split
    · rename_i hnumeral
      exact .ok (numeral_formed hnumeral negative)
    · exact .fail _ _
  unfold literal
  dsimp only
  split
  · rename_i hfound
    exact .ok (keywordLiteral_formed hfound)
  · split
    · exact .map (yields_true _) fun text _ _ => .str text
    · exact .map (yields_true _) fun text _ _ => .str text
    · exact signed true _
    · exact signed false _
    · split
      · rename_i hnumeral
        exact .ok (numeral_formed hnumeral false)
      · exact .fail _ _

section
variable (mode : Mode) (bound : Nat) (s : Source)

theorem sorting_gives : Yields (sorting mode bound s) fun x _ => x.expr.FormedIn mode := by
  unfold sorting
  refine .bind (exprWithin_gives mode bound s) fun e t he => ?_
  dsimp only
  split
  · exact .ok he
  · exact .ok he

theorem projection_gives : Yields (projection mode bound s) fun x _ => x.source.FormedIn mode := by
  unfold projection
  refine .bind (exprWithin_gives mode bound s) fun e t he => ?_
  dsimp only
  split
  · exact .ok he
  · exact .bind (yields_true _) fun name u _ => .ok he

theorem functionCall_gives : GivesIn mode (functionCall mode bound s) := by
  have hexpr := exprWithin_gives mode bound
  unfold functionCall
  refine .bind (yields_true _) fun first t _ => ?_
  dsimp only
  split
  · exact callOf_gives bound hexpr none first t
  · exact .bind (yields_true _) fun second u _ => callOf_gives bound hexpr (some first) second u

theorem placeholder_gives : GivesIn mode (placeholder mode bound s) := by
  unfold placeholder
  dsimp only
  split
  · exact operand_gives bound (exprWithin_gives mode bound) s.skipBlanks
  · exact .fail _ _

theorem documentField_gives : GivesIn mode (documentField mode bound s) := by
  unfold documentField
  cases mode with
  | table => exact .fail _ _
  | document =>
    dsimp only
    split
    · exact fieldFrom_gives bound none (fun h => nomatch h) _
    · exact .bind (yields_true _) fun first t _ =>
        fieldFrom_gives bound (some (.member first)) (fun h => nomatch h) t

/-- Every production gives trees of the mode that it has its places from. -/
theorem production_gives (entry : Entry) :
    Yields (production mode bound entry s) fun x _ => x.toExpr.FormedIn (entry.placesOf mode) := by
  have hexpr := exprWithin_gives mode bound
  cases entry with
  | expr => exact .map (hexpr s) fun _ _ h => h
  | literal => exact .map (literal_formed s) fun _ _ h => .literal h
  | functionCall => exact .map (functionCall_gives mode bound s) fun _ _ h => h
  | placeholder => exact .map (placeholder_gives mode bound s) fun _ _ h => h
  | documentField => exact .map (documentField_gives mode bound s) fun _ _ h => h
  | columnIdent =>
    have hcolumn : GivesIn .table (columnIdent s) :=
      .bind (yields_true _) fun first t _ => columnFrom_gives first t
    exact .map hcolumn fun _ _ h => h
  | jsonDoc =>
    have hobject : GivesIn mode (jsonDoc mode bound s) :=
      .behind fun t => objectBody_gives bound hexpr t
    exact .map hobject fun _ _ h => h
  | jsonArray =>
    have harray : GivesIn mode (jsonArray mode bound s) :=
      .behind fun t => arrayBody_gives bound hexpr t
    exact .map harray fun _ _ h => h
  | castType => exact .map (castType_startsUpper s) fun type _ h => .literal (.bytes type h)
  | sortExpr => exact .map (sorting_gives mode bound s) fun _ _ h => h
  | projectedSearchExpr => exact .map (projection_gives mode bound s) fun _ _ h => h

end

/-! ## Compiling -/

/-- **Modes are kept apart, and every path is proper.**  In table mode no field of a document occurs
in what is compiled, in document mode no column occurs unless a column is what the text is compiled
as, and every `**` in the path of a field or a column is at its place. -/
theorem compile_places {text : String} {mode : Mode} {entry : Entry} {compiled : Compiled}
    (h : compile text mode entry = .ok compiled) :
    (mode = .table → ∀ path, ¬ (Expr.field path).PartOf compiled.toExpr) ∧
      (mode = .document → entry ≠ .columnIdent →
        ∀ ref, ¬ (Expr.column ref).PartOf compiled.toExpr) ∧
      (∀ path, (Expr.field path).PartOf compiled.toExpr → ProperPath path) ∧
      ∀ ref, (Expr.column ref).PartOf compiled.toExpr → ProperPath ref.path := by
  obtain ⟨t, hp⟩ := exists_of_compile h
  have hformed : compiled.toExpr.FormedIn (entry.placesOf mode) :=
    production_gives mode _ _ entry compiled t hp
  refine ⟨?_, ?_, fun path hpath => (hformed.part hpath).of_field.2,
    fun ref href => (hformed.part href).of_column.2⟩
  · rintro rfl path hpath
    have hmode := (hformed.part hpath).of_field.1
    cases entry <;> cases hmode
  · rintro rfl hentry ref href
    have hmode := (hformed.part href).of_column.1
    cases entry with
    | columnIdent => exact hentry rfl
    | _ => cases hmode

theorem compile_places_table :
    let path : List PathItem := [.descendants, .member "b", .anyIndex]
    let e := Expr.array [.call none "f" [.call none "JSON_UNQUOTE" [.column { name := "a", path }]],
      .op "not_in" [.bareColumn "not", .column { schema := "s", table := "t", name := "c" },
        .object [("k", .bareColumn "d")]]]
    compile "[f(a->>'$**.b[*]'), not not in (s.t.c, \x7b'k': d\x7d)]" .table .jsonArray
        = .ok (.expr e) ∧
      (∀ path, ¬ (Expr.field path).PartOf e) ∧
      ∀ ref, (Expr.column ref).PartOf e → ProperPath ref.path := by
  intro path e
  have hcompile : compile "[f(a->>'$**.b[*]'), not not in (s.t.c, \x7b'k': d\x7d)]" .table .jsonArray
      = .ok (.expr e) := rfl
  obtain ⟨hfields, -, -, hpaths⟩ := compile_places hcompile
  exact ⟨hcompile, hfields rfl, hpaths⟩

end DocWire
