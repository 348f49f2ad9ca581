import DocWire.Message.Request
import DocWire.Proofs.Message.Expr

/-!
# Positions in the message of a query

What stands in the message of a query, told by the numbers of its fields and the types of its trees:
the positions of the placeholders, clause by clause, and the arguments that they point at.

* `Positioned`              the message of a tree, with the positions that it carries;
* `Expr.fields_positioned`  a tree is sent with the position of each of its placeholders;
* `FindMessage`             the parts of the message of a query;
* `FindMessage.Marks`       the placeholders of its clauses with the positions sent for them;
* `Find.parts_marks`        a query is sent with the positions of all its placeholders.
-/

namespace DocWire

open Protobuf

/-- The message of a tree, which tells its type, carries positions in turn.  Only placeholders have
any themselves; calls, operators, objects and arrays have those of the trees in them. -/
inductive Positioned : List Field → List UInt32 → Prop
  | identifier (path : List Field) : Positioned [number 1 1, message 2 path] []
  | literal (value : List Field) : Positioned [number 1 2, message 4 value] []
  | call (function : List Field) {args : List (List Field)} {places : List (List UInt32)}
      (inside : List.Forall₂ Positioned args places) :
      Positioned [number 1 4, message 5 (message 1 function :: args.map (message 2))] places.flatten
  | operator (name : String) {args : List (List Field)} {places : List (List UInt32)}
      (inside : List.Forall₂ Positioned args places) :
      Positioned [number 1 5, message 6 (textField 1 name :: args.map (message 2))] places.flatten
  | placeholder (position : UInt32) : Positioned [number 1 6, number 7 position.toNat] [position]
  | object {members : List (String × List Field)} {places : List (List UInt32)}
      (inside : List.Forall₂ Positioned (members.map Prod.snd) places) :
      Positioned [number 1 7, message 8 (members.map fun (key, tree) =>
        message 1 [textField 1 key, message 2 tree])] places.flatten
  | array {items : List (List Field)} {places : List (List UInt32)}
      (inside : List.Forall₂ Positioned items places) :
      Positioned [number 1 8, message 9 (items.map (message 1))] places.flatten

/-! ## Trees -/

namespace Expr

variable (p : Placeholders)

/-- the positions of the placeholders of a tree, in order of appearance -/
def positions (e : Expr) : List UInt32 := e.holes.filterMap p.position?

/-- the names of the placeholders of a tree, in order of appearance; a `?` has none -/
def labels (e : Expr) : List (Option String) := e.holes.map name?

/-- the placeholders of a tree, each with its position -/
def marks (e : Expr) : List (Option String × UInt32) :=
  e.holes.filterMap fun hole => (p.position? hole).map fun n => (hole.name?, n)

theorem map_snd_marks (e : Expr) : (e.marks p).map Prod.snd = e.positions p := by
  unfold marks positions
  rw [List.map_filterMap]
  refine List.filterMap_congr fun hole _ => ?_
  cases p.position? hole <;> rfl

/-- Every placeholder has a position. -/
theorem map_fst_marks (e : Expr) : (e.marks p).map Prod.fst = e.labels := by
  unfold marks labels
  rw [List.map_filterMap, ← List.filterMap_eq_map]
  refine List.filterMap_congr fun hole hhole => ?_
  rcases e.isHole_of_mem_holes hole hhole with ⟨name, rfl⟩ | ⟨index, rfl⟩ <;> rfl

theorem length_positions (e : Expr) : (e.positions p).length = e.labels.length := by
  rw [← map_snd_marks, ← map_fst_marks p, List.length_map, List.length_map]

theorem labels_bare (e : Expr) : e.bare.labels = e.labels := by
  unfold labels
  rw [holes_bare, List.map_map]
  refine List.map_congr_left fun hole _ => ?_
  cases hole <;> rfl

theorem positions_call (schema : Option String) (name : String) (args : List Expr) :
    (call schema name args).positions p = (args.map (positions p)).flatten := by
  show (holesList args).filterMap _ = _
  rw [holesList_eq, List.filterMap_flatMap]
  rfl

theorem positions_op (name : String) (args : List Expr) :
    (op name args).positions p = (args.map (positions p)).flatten := positions_call p none name args

theorem positions_array (items : List Expr) :
    (array items).positions p = (items.map (positions p)).flatten := positions_call p none "" items

theorem positions_object (members : List (String × Expr)) :
    (object members).positions p = (members.map fun m => m.2.positions p).flatten := by
  show (holesFields members).filterMap _ = _
  rw [holesFields_eq, List.filterMap_flatMap]
  rfl

theorem argumentFields_eq (k : Nat) (args : List Expr) :
    argumentFields p k args = (args.map (fields p)).map (message k) := by
  induction args with
  | nil => rfl
  | cons e rest ih => rw [argumentFields, ih, List.map_cons, List.map_cons]

theorem memberFields_eq (members : List (String × Expr)) :
    memberFields p members = (members.map fun (key, e) => (key, e.fields p)).map
      fun (key, tree) => message 1 [textField 1 key, message 2 tree] := by
  induction members with
  | nil => rfl
  | cons m rest ih => rw [memberFields, ih, List.map_cons, List.map_cons]

mutual

/-- The message of a tree carries the position of each of its placeholders, and no other. -/
theorem fields_positioned (e : Expr) : Positioned (e.fields p) (e.positions p) :=
  match e with
  | literal _ => .literal _
  | field _ | column _ => .identifier _
  | named _ | positional _ => .placeholder _
  | call schema name args => by
    rw [fields, argumentFields_eq, positions_call]
    exact .call _ (fields_positioned_list args)
  | op name args => by
    rw [fields, argumentFields_eq, positions_op]
    exact .operator name (fields_positioned_list args)
  | unary name arg => by
    rw [← List.append_nil ((unary name arg).positions p)]
    exact .operator name (.cons (fields_positioned arg) .nil)
  | object members => by
    rw [fields, memberFields_eq, positions_object]
    exact .object (fields_positioned_members members)
  | array items => by
    rw [fields, argumentFields_eq, positions_array]
    exact .array (fields_positioned_list items)

theorem fields_positioned_list (es : List Expr) :
    List.Forall₂ Positioned (es.map (fields p)) (es.map (positions p)) :=
  match es with
  | [] => .nil
  | e :: rest => .cons (fields_positioned e) (fields_positioned_list rest)

theorem fields_positioned_members (members : List (String × Expr)) :
    List.Forall₂ Positioned ((members.map fun (key, e) => (key, e.fields p)).map Prod.snd)
      (members.map fun m => m.2.positions p) :=
  match members with
  | [] => .nil
  | (_, e) :: rest => .cons (fields_positioned e) (fields_positioned_members rest)

end

end Expr

/-! ## Queries -/

/-- The parts of the message of a query. -/
structure FindMessage where
  collection : List Field
  model : Nat
  /-- the fields to return, with their new names -/
  projection : List (List Field × Option String)
  criteria : Option (List Field)
  limit : Option (List Field)
  order : List (List Field × Nat)
  grouping : List (List Field)
  groupingCriteria : Option (List Field)
  args : List (List Field)

namespace FindMessage

def fields (m : FindMessage) : List Field :=
  [message 2 m.collection, number 3 m.model]
  ++ m.projection.map (fun (tree, name) => message 4 (message 1 tree :: optional (textField 2) name))
  ++ optional (message 5) m.criteria
  ++ optional (message 6) m.limit
  ++ m.order.map (fun (tree, direction) => message 7 [message 1 tree, number 2 direction])
  ++ m.grouping.map (message 8)
  ++ optional (message 9) m.groupingCriteria
  ++ m.args.map (message 11)

/-- the trees of each clause, in the order in which placeholders are numbered -/
def clauses (m : FindMessage) : List (List (List Field)) :=
  [m.criteria.toList, m.projection.map Prod.fst, m.order.map Prod.fst, m.grouping,
    m.groupingCriteria.toList]

/-- The message of a query carries positions for all placeholders in its clauses, and no others.
The placeholders of each tree of each clause are given by `labels`; `marks` are all of them in turn,
with their positions. -/
def Marks (m : FindMessage) (labels : List (List (List (Option String))))
    (marks : List (Option String × UInt32)) : Prop :=
  ∃ places : List (List (List UInt32)),
    List.Forall₂ (List.Forall₂ Positioned) m.clauses places ∧
    places.map (·.map List.length) = labels.map (·.map List.length) ∧
    marks = labels.flatten.flatten.zip places.flatten.flatten

end FindMessage

namespace Find

/-- the trees of each clause, in the order in which placeholders are numbered -/
def clauses (f : Find) : List (List Expr) :=
  [f.criteria.toList, f.fields.map Projection.source, f.order.map Sorting.expr, f.grouping,
    f.groupingCriteria.toList]

def parts (f : Find) : FindMessage where
  collection := textField 1 f.target :: optional (textField 2) f.schema
  model := modelNumber f.mode
  projection := f.fields.map fun p => (p.source.fields f.placeholders, p.«alias»)
  criteria := f.criteria.map (Expr.fields f.placeholders)
  limit := f.limit.map fun (rows, offset) =>
    number 1 rows.toNat :: optional (fun n => number 2 n.toNat) offset
  order := f.order.map fun s => (s.expr.fields f.placeholders, directionNumber s.direction)
  grouping := f.grouping.map (Expr.fields f.placeholders)
  groupingCriteria := f.groupingCriteria.map (Expr.fields f.placeholders)
  args := f.args.map Scalar.fields

theorem toFields_eq (f : Find) : f.toFields = f.parts.fields := by
  have optional_map {α β : Type} (h : β → Field) (g : α → β) (x : Option α) :
      optional h (x.map g) = optional (fun a => h (g a)) x := by cases x <;> rfl
  unfold toFields FindMessage.fields parts
  simp only [List.map_map, optional_map]
  rfl

theorem clauses_parts (f : Find) :
    f.parts.clauses = f.clauses.map (·.map (Expr.fields f.placeholders)) := by
  unfold FindMessage.clauses clauses parts
  simp [Function.comp_def, Option.toList_map]

/-- A query is sent with the position of each of its placeholders. -/
theorem parts_marks (f : Find) : f.parts.Marks (f.clauses.map (·.map Expr.labels))
    (f.clauses.flatten.flatMap (Expr.marks f.placeholders)) := by
  refine ⟨f.clauses.map (·.map (Expr.positions f.placeholders)), ?_, ?_, ?_⟩
  · rw [clauses_parts, List.forall₂_map_left_iff, List.forall₂_map_right_iff, List.forall₂_same]
    exact fun clause _ => Expr.fields_positioned_list f.placeholders clause
  · rw [List.map_map, List.map_map]
    refine List.map_congr_left fun clause _ => ?_
    rw [Function.comp_apply, Function.comp_apply, List.map_map, List.map_map]
    exact List.map_congr_left fun e _ => e.length_positions f.placeholders
  · rw [← List.map_flatten, ← List.map_flatten]
    refine List.zip_of_prod ?_ ?_
    · rw [List.map_flatMap]
      exact List.flatMap_congr fun e _ => e.map_fst_marks f.placeholders
    · rw [List.map_flatMap]
      exact List.flatMap_congr fun e _ => e.map_snd_marks f.placeholders

end Find

end DocWire
