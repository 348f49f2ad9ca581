import DocWire.Expr.Placeholders
import Mathlib.Data.List.Dedup
import Mathlib.Data.List.Induction

/-!
# The holes of a tree

The places of a tree at which a value is missing, in the order in which they appear.  Names,
numbers and renumbering, which are computed by recursion on trees, are all about this list.

* `Expr.holes`              the placeholders of a tree, in order;
* `Expr.indices`, `Expr.mentions`   the numbers and the names among them;
* `Expr.bare`               a tree without the numbers of its placeholders;
* `Expr.InOrder`            the numbers are those from zero on, each once, in order;
* `addNames_eq`, `positionalCount_eq`, `holes_shift`   what the recursions compute.
-/

namespace DocWire

namespace Expr

mutual

/-- The placeholders of a tree, in order of appearance. -/
def holes : Expr → List Expr
  | named name => [named name]
  | positional index => [positional index]
  | call _ _ args => holesList args
  | op _ args => holesList args
  | unary _ arg => holes arg
  | object fields => holesFields fields
  | array items => holesList items
  | literal _ | field _ | column _ => []

@[inherit_doc holes]
def holesList : List Expr → List Expr
  | [] => []
  | e :: rest => holes e ++ holesList rest

@[inherit_doc holes]
def holesFields : List (String × Expr) → List Expr
  | [] => []
  | (_, e) :: rest => holes e ++ holesFields rest

end

/-- the number of a positional placeholder -/
def index? : Expr → Option Nat
  | positional index => some index
  | _ => none

def name? : Expr → Option String
  | named name => some name
  | _ => none

/-- The numbers of the positional placeholders of a tree, in order of appearance. -/
def indices (e : Expr) : List Nat := e.holes.filterMap index?

/-- The names of the named placeholders of a tree, in order of appearance, each as often as it
appears. -/
def mentions (e : Expr) : List String := e.holes.filterMap name?

theorem mem_mentions {e : Expr} {name : String} : name ∈ e.mentions ↔ named name ∈ e.holes := by
  refine List.mem_filterMap.trans ⟨?_, fun h => ⟨_, h, rfl⟩⟩
  rintro ⟨hole, hhole, hname⟩
  cases hole with
  | named other =>
    obtain rfl := Option.some.inj hname
    exact hhole
  | _ => cases hname

/-- The positional placeholders of a tree are numbered from zero in order of appearance. -/
def InOrder (e : Expr) : Prop := e.indices = List.range e.indices.length

/-! ## Subtrees -/

theorem holesList_eq (es : List Expr) : holesList es = es.flatMap holes := by
  induction es with
  | nil => rfl
  | cons e rest ih => rw [holesList, ih, List.flatMap_cons]

theorem holesFields_eq (fields : List (String × Expr)) :
    holesFields fields = fields.flatMap fun x => holes x.2 := by
  induction fields with
  | nil => rfl
  | cons x rest ih =>
    obtain ⟨key, e⟩ := x
    rw [holesFields, ih, List.flatMap_cons]

mutual

/-- Only placeholders are holes. -/
theorem isHole_of_mem_holes (e : Expr) :
    ∀ hole ∈ e.holes, (∃ name, hole = named name) ∨ ∃ index, hole = positional index :=
  match e with
  | named name => fun _ h => .inl ⟨name, List.mem_singleton.mp h⟩
  | positional index => fun _ h => .inr ⟨index, List.mem_singleton.mp h⟩
  | literal _ | field _ | column _ => fun _ h => absurd h List.not_mem_nil
  | call _ _ args | op _ args | array args => isHole_of_mem_holesList args
  | unary _ arg => isHole_of_mem_holes arg
  | object fields => isHole_of_mem_holesFields fields

theorem isHole_of_mem_holesList (es : List Expr) :
    ∀ hole ∈ holesList es, (∃ name, hole = named name) ∨ ∃ index, hole = positional index :=
  match es with
  | [] => fun _ h => absurd h List.not_mem_nil
  | e :: rest => fun hole h => (List.mem_append.mp h).elim (isHole_of_mem_holes e hole)
      (isHole_of_mem_holesList rest hole)

theorem isHole_of_mem_holesFields (fields : List (String × Expr)) :
    ∀ hole ∈ holesFields fields, (∃ name, hole = named name) ∨ ∃ index, hole = positional index :=
  match fields with
  | [] => fun _ h => absurd h List.not_mem_nil
  | (_, e) :: rest => fun hole h => (List.mem_append.mp h).elim (isHole_of_mem_holes e hole)
      (isHole_of_mem_holesFields rest hole)

end

@[simp] theorem indices_literal (value : Scalar) : (literal value).indices = [] := rfl
@[simp] theorem indices_field (path : List PathItem) : (field path).indices = [] := rfl
@[simp] theorem indices_column (ref : ColumnRef) : (column ref).indices = [] := rfl
@[simp] theorem indices_named (name : String) : (named name).indices = [] := rfl
@[simp] theorem indices_positional (index : Nat) : (positional index).indices = [index] := rfl
@[simp] theorem indices_unary (name : String) (arg : Expr) :
    (unary name arg).indices = arg.indices := rfl

theorem indices_holesList (es : List Expr) :
    (holesList es).filterMap index? = es.flatMap indices := by
  rw [holesList_eq, List.filterMap_flatMap]
  rfl

@[simp] theorem indices_call (schema : Option String) (name : String) (args : List Expr) :
    (call schema name args).indices = args.flatMap indices := indices_holesList args

@[simp] theorem indices_op (name : String) (args : List Expr) :
    (op name args).indices = args.flatMap indices := indices_holesList args

@[simp] theorem indices_array (items : List Expr) :
    (array items).indices = items.flatMap indices := indices_holesList items

@[simp] theorem indices_object (fields : List (String × Expr)) :
    (object fields).indices = fields.flatMap fun x => x.2.indices := by
  show (holesFields fields).filterMap index? = _
  rw [holesFields_eq, List.filterMap_flatMap]
  rfl

/-! ## What the recursions compute -/

mutual

/-- The names of a tree are added as they appear. -/
theorem addNames_eq (names : List String) (e : Expr) :
    e.addNames names = e.mentions.foldl addName names :=
  match e with
  | named _ | literal _ | field _ | column _ | positional _ => rfl
  | call _ _ args | op _ args | array args => addNamesList_eq names args
  | unary _ arg => addNames_eq names arg
  | object fields => addNamesFields_eq names fields

theorem addNamesList_eq (names : List String) (es : List Expr) :
    addNamesList names es = ((holesList es).filterMap name?).foldl addName names :=
  match es with
  | [] => rfl
  | e :: rest => by
    rw [addNamesList, addNames_eq names e, addNamesList_eq _ rest, holesList,
      List.filterMap_append, List.foldl_append]
    rfl

theorem addNamesFields_eq (names : List String) (fields : List (String × Expr)) :
    addNamesFields names fields = ((holesFields fields).filterMap name?).foldl addName names :=
  match fields with
  | [] => rfl
  | (_, e) :: rest => by
    rw [addNamesFields, addNames_eq names e, addNamesFields_eq _ rest, holesFields,
      List.filterMap_append, List.foldl_append]
    rfl

end

/-- one more than the greatest of some numbers, zero if there is none -/
def bound (ns : List Nat) : Nat := ns.foldr (fun n m => max (n + 1) m) 0

theorem bound_append (a b : List Nat) : bound (a ++ b) = max (bound a) (bound b) := by
  induction a with
  | nil => exact (Nat.zero_max _).symm
  | cons n rest ih =>
    show max (n + 1) (bound (rest ++ b)) = max (max (n + 1) (bound rest)) (bound b)
    rw [ih, Nat.max_assoc]

theorem bound_range (n : Nat) : bound (List.range n) = n := by
  induction n with
  | zero => rfl
  | succ n ih =>
    rw [List.range_succ, bound_append, ih]
    show max n (max (n + 1) 0) = n + 1
    omega

mutual

theorem positionalCount_eq (e : Expr) : e.positionalCount = bound e.indices :=
  match e with
  | literal _ | field _ | column _ | named _ => rfl
  | positional index => (Nat.max_zero (index + 1)).symm
  | call _ _ args | op _ args | array args => positionalCountList_eq args
  | unary _ arg => positionalCount_eq arg
  | object fields => positionalCountFields_eq fields

theorem positionalCountList_eq (es : List Expr) :
    positionalCountList es = bound ((holesList es).filterMap index?) :=
  match es with
  | [] => rfl
  | e :: rest => by
    rw [positionalCountList, positionalCount_eq e, positionalCountList_eq rest, holesList,
      List.filterMap_append, bound_append]
    rfl

theorem positionalCountFields_eq (fields : List (String × Expr)) :
    positionalCountFields fields = bound ((holesFields fields).filterMap index?) :=
  match fields with
  | [] => rfl
  | (_, e) :: rest => by
    rw [positionalCountFields, positionalCount_eq e, positionalCountFields_eq rest, holesFields,
      List.filterMap_append, bound_append]
    rfl

end

/-- The number of positional placeholders is counted if they are numbered in order. -/
theorem InOrder.positionalCount {e : Expr} (h : e.InOrder) :
    e.positionalCount = e.indices.length := by
  rw [positionalCount_eq, h, bound_range, List.length_range]

theorem shiftList_eq (base : Nat) (es : List Expr) : shiftList base es = es.map (shift base) := by
  induction es with
  | nil => rfl
  | cons e rest ih => rw [shiftList, ih, List.map_cons]

theorem shiftFields_eq (base : Nat) (fields : List (String × Expr)) :
    shiftFields base fields = fields.map fun (key, e) => (key, e.shift base) := by
  induction fields with
  | nil => rfl
  | cons x rest ih =>
    obtain ⟨key, e⟩ := x
    rw [shiftFields, ih, List.map_cons]

mutual

theorem holes_shift (base : Nat) (e : Expr) : (e.shift base).holes = e.holes.map (shift base) :=
  match e with
  | literal _ | field _ | column _ | named _ | positional _ => rfl
  | call _ _ args | op _ args | array args => holesList_shift base args
  | unary _ arg => holes_shift base arg
  | object fields => holesFields_shift base fields

theorem holesList_shift (base : Nat) (es : List Expr) :
    holesList (shiftList base es) = (holesList es).map (shift base) :=
  match es with
  | [] => rfl
  | e :: rest => by
    rw [shiftList, holesList, holes_shift base e, holesList_shift base rest, holesList,
      List.map_append]

theorem holesFields_shift (base : Nat) (fields : List (String × Expr)) :
    holesFields (shiftFields base fields) = (holesFields fields).map (shift base) :=
  match fields with
  | [] => rfl
  | (_, e) :: rest => by
    rw [shiftFields, holesFields, holes_shift base e, holesFields_shift base rest, holesFields,
      List.map_append]

end

theorem index?_shift (base : Nat) (e : Expr) : (e.shift base).index? = e.index?.map (· + base) := by
  cases e <;> rfl

theorem indices_shift (base : Nat) (e : Expr) :
    (e.shift base).indices = e.indices.map (· + base) := by
  unfold indices
  rw [holes_shift, List.filterMap_map, List.map_filterMap]
  exact List.filterMap_congr fun h _ => index?_shift base h

theorem mentions_shift (base : Nat) (e : Expr) : (e.shift base).mentions = e.mentions := by
  unfold mentions
  rw [holes_shift, List.filterMap_map]
  refine List.filterMap_congr fun h _ => ?_
  cases h <;> rfl

mutual

theorem shift_zero (e : Expr) : e.shift 0 = e :=
  match e with
  | literal _ | field _ | column _ | named _ | positional _ => rfl
  | call schema name args => congrArg (call schema name) (shiftList_zero args)
  | op name args => congrArg (op name) (shiftList_zero args)
  | array items => congrArg array (shiftList_zero items)
  | unary name arg => congrArg (unary name) (shift_zero arg)
  | object fields => congrArg object (shiftFields_zero fields)

theorem shiftList_zero (es : List Expr) : shiftList 0 es = es :=
  match es with
  | [] => rfl
  | e :: rest => by rw [shiftList, shift_zero e, shiftList_zero rest]

theorem shiftFields_zero (fields : List (String × Expr)) : shiftFields 0 fields = fields :=
  match fields with
  | [] => rfl
  | (_, e) :: rest => by rw [shiftFields, shift_zero e, shiftFields_zero rest]

end

/-! ## Trees without numbers -/

mutual

/-- The tree without the numbers of its placeholders: all of them are zero. -/
def bare : Expr → Expr
  | positional _ => positional 0
  | call schema name args => call schema name (bareList args)
  | op name args => op name (bareList args)
  | unary name arg => unary name (bare arg)
  | object fields => object (bareFields fields)
  | array items => array (bareList items)
  | literal value => literal value
  | field path => field path
  | column ref => column ref
  | named name => named name

@[inherit_doc bare]
def bareList : List Expr → List Expr
  | [] => []
  | e :: rest => bare e :: bareList rest

@[inherit_doc bare]
def bareFields : List (String × Expr) → List (String × Expr)
  | [] => []
  | (key, e) :: rest => (key, bare e) :: bareFields rest

end

mutual

theorem bare_shift (base : Nat) (e : Expr) : (e.shift base).bare = e.bare :=
  match e with
  | literal _ | field _ | column _ | named _ | positional _ => rfl
  | call schema name args => congrArg (call schema name) (bareList_shift base args)
  | op name args => congrArg (op name) (bareList_shift base args)
  | array items => congrArg array (bareList_shift base items)
  | unary name arg => congrArg (unary name) (bare_shift base arg)
  | object fields => congrArg object (bareFields_shift base fields)

theorem bareList_shift (base : Nat) (es : List Expr) :
    bareList (shiftList base es) = bareList es :=
  match es with
  | [] => rfl
  | e :: rest => by
    rw [shiftList, bareList, bare_shift base e, bareList_shift base rest, bareList]

theorem bareFields_shift (base : Nat) (fields : List (String × Expr)) :
    bareFields (shiftFields base fields) = bareFields fields :=
  match fields with
  | [] => rfl
  | (_, e) :: rest => by
    rw [shiftFields, bareFields, bare_shift base e, bareFields_shift base rest, bareFields]

end

mutual

theorem holes_bare (e : Expr) : e.bare.holes = e.holes.map bare :=
  match e with
  | literal _ | field _ | column _ | named _ | positional _ => rfl
  | call _ _ args | op _ args | array args => holesList_bare args
  | unary _ arg => holes_bare arg
  | object fields => holesFields_bare fields

theorem holesList_bare (es : List Expr) : holesList (bareList es) = (holesList es).map bare :=
  match es with
  | [] => rfl
  | e :: rest => by
    rw [bareList, holesList, holes_bare e, holesList_bare rest, holesList, List.map_append]

theorem holesFields_bare (fields : List (String × Expr)) :
    holesFields (bareFields fields) = (holesFields fields).map bare :=
  match fields with
  | [] => rfl
  | (_, e) :: rest => by
    rw [bareFields, holesFields, holes_bare e, holesFields_bare rest, holesFields, List.map_append]

end

end Expr

/-! ## Names, each once -/

theorem addName_of_mem {names : List String} {name : String} (h : name ∈ names) :
    addName names name = names := if_pos (List.contains_iff_mem.mpr h)

theorem addName_of_not_mem {names : List String} {name : String} (h : name ∉ names) :
    addName names name = names ++ [name] := if_neg (fun hc => h (List.contains_iff_mem.mp hc))

theorem mem_addName {names : List String} {name other : String} :
    other ∈ addName names name ↔ other ∈ names ∨ other = name := by
  by_cases h : name ∈ names
  · rw [addName_of_mem h]
    exact ⟨Or.inl, fun ho => ho.elim id fun he => he ▸ h⟩
  · rw [addName_of_not_mem h, List.mem_append, List.mem_singleton]

theorem nodup_addName {names : List String} (hn : names.Nodup) (name : String) :
    (addName names name).Nodup := by
  by_cases h : name ∈ names
  · rw [addName_of_mem h]
    exact hn
  · rw [addName_of_not_mem h]
    exact List.nodup_append.mpr ⟨hn, List.nodup_singleton _, fun a ha b hb hab =>
      h (List.mem_singleton.mp hb ▸ hab ▸ ha)⟩

theorem mem_foldl_addName {names mentions : List String} {name : String} :
    name ∈ mentions.foldl addName names ↔ name ∈ names ∨ name ∈ mentions := by
  induction mentions generalizing names with
  | nil => simp
  | cons m rest ih => rw [List.foldl_cons, ih, mem_addName, List.mem_cons, or_assoc]

theorem nodup_foldl_addName {names : List String} (hn : names.Nodup) (mentions : List String) :
    (mentions.foldl addName names).Nodup := by
  induction mentions generalizing names with
  | nil => exact hn
  | cons m rest ih => exact ih (nodup_addName hn m)

/-- As many names are kept as there are different ones. -/
theorem length_foldl_addName (mentions : List String) :
    (mentions.foldl addName []).length = mentions.dedup.length := by
  refine List.Perm.length_eq ((List.perm_ext_iff_of_nodup
    (nodup_foldl_addName List.nodup_nil mentions) (List.nodup_dedup mentions)).mpr fun name => ?_)
  rw [mem_foldl_addName, List.mem_dedup]
  exact or_iff_right List.not_mem_nil

end DocWire
