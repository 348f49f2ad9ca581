import DocWire.Message.Expr
import DocWire.Proofs.Expr.Holes
import DocWire.Proofs.Message.Trimmed
import DocWire.Proofs.Protobuf.Fields

/-!
# Expressions are told apart on the wire

Fields and columns share a message, and so do operators before an operand and other operators, and
placeholders of either kind.  Trees that were compiled from texts are told apart all the same.

* `Expr.trimmed`            a tree without the zeros that its numbers lose on the wire;
* `pathFields_append_inj`, `ColumnRef.eq_of_fields`, `ColumnRef.pathFields_ne_fields`   paths and
                            columns;
* `Placeholders.HasPlace`, `Placeholders.covers_ofExprs`   placeholders, which have a place each;
* `Expr.trimmed_eq_of_fields`   trees whose placeholders have a place;
* `Expr.encode_eq_encode_iff`   what has been compiled.
-/

namespace DocWire

open Protobuf

/-! ## Trees without zeros -/

namespace Expr

mutual

/-- The tree without the zeros that its numbers lose on the wire. -/
def trimmed : Expr → Expr
  | literal value => literal value.trimmed
  | call schema name args => call schema name (trimmedList args)
  | op name args => op name (trimmedList args)
  | unary name arg => unary name (trimmed arg)
  | object members => object (trimmedMembers members)
  | array items => array (trimmedList items)
  | field path => field path
  | column ref => column ref
  | named name => named name
  | positional index => positional index

@[inherit_doc trimmed]
def trimmedList : List Expr → List Expr
  | [] => []
  | e :: rest => trimmed e :: trimmedList rest

@[inherit_doc trimmed]
def trimmedMembers : List (String × Expr) → List (String × Expr)
  | [] => []
  | (key, e) :: rest => (key, trimmed e) :: trimmedMembers rest

end

mutual

/-- The zeros are not written. -/
theorem fields_trimmed (p : Placeholders) (e : Expr) : e.trimmed.fields p = e.fields p :=
  match e with
  | literal value => by rw [trimmed, fields, fields, value.fields_trimmed]
  | call schema name args => by rw [trimmed, fields, fields, argumentFields_trimmed p 2 args]
  | op name args => by rw [trimmed, fields, fields, argumentFields_trimmed p 2 args]
  | unary name arg => by rw [trimmed, fields, fields, fields_trimmed p arg]
  | object members => by rw [trimmed, fields, fields, memberFields_trimmed p members]
  | array items => by rw [trimmed, fields, fields, argumentFields_trimmed p 1 items]
  | field _ | column _ | named _ | positional _ => rfl

theorem argumentFields_trimmed (p : Placeholders) (k : Nat) (args : List Expr) :
    argumentFields p k (trimmedList args) = argumentFields p k args :=
  match args with
  | [] => rfl
  | e :: rest => by
    rw [trimmedList, argumentFields, argumentFields, fields_trimmed p e,
      argumentFields_trimmed p k rest]

theorem memberFields_trimmed (p : Placeholders) (members : List (String × Expr)) :
    memberFields p (trimmedMembers members) = memberFields p members :=
  match members with
  | [] => rfl
  | (key, e) :: rest => by
    rw [trimmedMembers, memberFields, memberFields, fields_trimmed p e,
      memberFields_trimmed p rest]

end

end Expr

/-! ## Texts -/

theorem textField_inj {j k : Nat} {s t : String} :
    textField j s = textField k t ↔ j = k ∧ s = t := by
  constructor
  · intro h
    exact ⟨congrArg Field.number h,
      Text.Utf8.encode_injective (Content.bytes.inj (congrArg Field.content h))⟩
  · rintro ⟨rfl, rfl⟩
    rfl

theorem writable_textField {k : Nat} (s : String) (h : 0 < k ∧ k < 2 ^ 29) :
    (textField k s).Writable := writable_octets _ h

theorem exists_of_mem_optional {k : Nat} {x : Option String} {f : Field}
    (h : f ∈ Protobuf.optional (textField k) x) : ∃ s, f = textField k s := by
  obtain ⟨s, -, rfl⟩ := Option.map_eq_some_iff.mp (Option.mem_toList.mp h)
  exact ⟨s, rfl⟩

theorem optional_inj {k : Nat} {x y : Option String}
    (h : Protobuf.optional (textField k) x = Protobuf.optional (textField k) y) : x = y := by
  cases x <;> cases y <;> simp_all [Protobuf.optional, textField_inj]

theorem optional_append_inj {j k : Nat} (hjk : j ≠ k) {x x' y y' : Option String}
    (h : Protobuf.optional (textField j) x ++ Protobuf.optional (textField k) y
      = Protobuf.optional (textField j) x' ++ Protobuf.optional (textField k) y') :
    x = x' ∧ y = y' := by
  cases x <;> cases x' <;> cases y <;> cases y' <;>
    simp_all [Protobuf.optional, textField_inj, hjk.symm]

/-! ## Paths and columns -/

theorem PathItem.fields_inj {item other : PathItem} :
    item.fields = other.fields ↔ item = other := by
  cases item <;> cases other <;> simp [fields, number_inj, textField_inj, UInt32.toNat_inj]

theorem PathItem.fields_writable (item : PathItem) : ∀ f ∈ item.fields, f.Writable := by
  intro f hf
  cases item with
  | member name =>
    rcases List.mem_pair.mp hf with rfl | rfl
    · exact writable_number (by decide) (by decide)
    · exact writable_textField _ (by decide)
  | index n =>
    have hn := n.toNat_lt
    rcases List.mem_pair.mp hf with rfl | rfl
    · exact writable_number (by decide) (by decide)
    · exact writable_number (by decide) (by omega)
  | anyMember | anyIndex | descendants =>
    obtain rfl := List.mem_singleton.mp hf
    exact writable_number (by decide) (by decide)

theorem pathFields_writable (path : List PathItem) : ∀ f ∈ pathFields path, f.Writable := by
  intro f hf
  obtain ⟨item, -, rfl⟩ := List.mem_map.mp hf
  exact writable_message _ (by decide)

/-- A path is told from what follows it, which has other numbers. -/
theorem pathFields_append_inj {path path' : List PathItem} {rest rest' : List Field}
    (hrest : ∀ f ∈ rest, f.number ≠ 1) (hrest' : ∀ f ∈ rest', f.number ≠ 1)
    (short : Short (pathFields path ++ rest))
    (h : pathFields path ++ rest = pathFields path' ++ rest') : path = path' ∧ rest = rest' := by
  induction path generalizing path' with
  | nil =>
    cases path' with
    | nil => exact ⟨rfl, h⟩
    | cons item path' =>
      have hmem : message 1 item.fields ∈ rest := (show rest = _ from h) ▸ List.mem_cons_self
      exact absurd rfl (hrest _ hmem)
  | cons item path ih =>
    cases path' with
    | nil =>
      have hmem : message 1 item.fields ∈ rest' := (show _ = rest' from h) ▸ List.mem_cons_self
      exact absurd rfl (hrest' _ hmem)
    | cons other path' =>
      obtain ⟨hitem, htail⟩ := message_cons_inj item.fields_writable other.fields_writable short h
      obtain ⟨rfl, hrests⟩ := ih short.tail htail
      exact ⟨by rw [PathItem.fields_inj.mp hitem], hrests⟩

theorem pathFields_inj {path path' : List PathItem} (short : Short (pathFields path))
    (h : pathFields path = pathFields path') : path = path' := by
  have none_of_nil : ∀ f ∈ ([] : List Field), f.number ≠ 1 := fun f hf => absurd hf List.not_mem_nil
  rw [← List.append_nil (pathFields path)] at short h
  rw [← List.append_nil (pathFields path')] at h
  exact (pathFields_append_inj none_of_nil none_of_nil short h).1

namespace ColumnRef

def nameFields (c : ColumnRef) : List Field :=
  textField 2 c.name :: (Protobuf.optional (textField 3) c.table
    ++ Protobuf.optional (textField 4) c.schema)

theorem fields_eq (c : ColumnRef) : c.fields = pathFields c.path ++ c.nameFields := by
  unfold fields nameFields
  rw [List.append_assoc, List.append_assoc]
  rfl

theorem mem_nameFields {c : ColumnRef} {f : Field} (h : f ∈ c.nameFields) :
    ∃ k s, f = textField k s ∧ 1 < k ∧ k < 5 := by
  rcases List.mem_cons.mp h with rfl | h
  · exact ⟨2, c.name, rfl, by decide⟩
  · rcases List.mem_append.mp h with h | h
    · obtain ⟨s, rfl⟩ := exists_of_mem_optional h
      exact ⟨3, s, rfl, by decide⟩
    · obtain ⟨s, rfl⟩ := exists_of_mem_optional h
      exact ⟨4, s, rfl, by decide⟩

theorem fields_writable (c : ColumnRef) : ∀ f ∈ c.fields, f.Writable := by
  intro f hf
  rw [fields_eq] at hf
  rcases List.mem_append.mp hf with hf | hf
  · exact pathFields_writable c.path f hf
  · obtain ⟨k, s, rfl, hk⟩ := mem_nameFields hf
    exact writable_textField s (by omega)

theorem number_ne_of_mem_nameFields (c : ColumnRef) : ∀ f ∈ c.nameFields, f.number ≠ 1 := by
  intro f hf
  obtain ⟨k, s, rfl, hk⟩ := mem_nameFields hf
  exact Nat.ne_of_gt hk.1

theorem eq_of_fields {c d : ColumnRef} (short : Short c.fields) (h : c.fields = d.fields) :
    c = d := by
  rw [fields_eq] at short h
  rw [fields_eq] at h
  obtain ⟨hpath, hnames⟩ := pathFields_append_inj c.number_ne_of_mem_nameFields
    d.number_ne_of_mem_nameFields short h
  obtain ⟨hname, hqualifiers⟩ := List.cons.inj hnames
  obtain ⟨htable, hschema⟩ := optional_append_inj (by decide) hqualifiers
  cases c
  cases d
  simp_all [textField_inj]

/-- A column has a name, a field has none. -/
theorem pathFields_ne_fields {path : List PathItem} (c : ColumnRef) :
    pathFields path ≠ c.fields := by
  intro h
  have hname : textField 2 c.name ∈ pathFields path := by
    rw [h, fields_eq]
    exact List.mem_append_right _ List.mem_cons_self
  obtain ⟨item, -, hitem⟩ := List.mem_map.mp hname
  exact absurd (congrArg Field.number hitem) (by decide : 1 ≠ 2)

end ColumnRef

/-! ## Placeholders -/

namespace Placeholders

/-- The place of a placeholder among the arguments. -/
inductive HasPlace (p : Placeholders) : Expr → Nat → Prop
  | named {name : String} (known : name ∈ p.names) :
    HasPlace p (.named name) (p.positional + p.names.idxOf name)
  | positional {index : Nat} (known : index < p.positional) : HasPlace p (.positional index) index

/-- Placeholders have places, which are words of 32 bits. -/
def Covers (p : Placeholders) (holes : List Expr) : Prop :=
  ∀ hole ∈ holes, ∃ n < 2 ^ 32, p.HasPlace hole n

namespace HasPlace

variable {p : Placeholders} {hole other : Expr} {n m : Nat}

theorem lt_count (h : p.HasPlace hole n) : n < p.count := by
  cases h with
  | named known => exact Nat.add_lt_add_left (List.idxOf_lt_length_of_mem known) p.positional
  | positional known => exact Nat.lt_of_lt_of_le known (Nat.le_add_right _ _)

/-- Different placeholders have different places. -/
theorem hole_eq (h : p.HasPlace hole n) (hother : p.HasPlace other m) (hnm : n = m) :
    hole = other := by
  cases h with
  | named known =>
    cases hother with
    | named => rw [(List.idxOf_inj known).mp (Nat.add_left_cancel hnm)]
    | positional known' =>
      have hle : p.positional ≤ m := hnm ▸ Nat.le_add_right _ _
      exact absurd known' (Nat.not_lt.mpr hle)
  | positional known =>
    cases hother with
    | named =>
      have hle : p.positional ≤ n := hnm ▸ Nat.le_add_right _ _
      exact absurd known (Nat.not_lt.mpr hle)
    | positional => rw [hnm]

/-- The position is the word of the place. -/
theorem position?_eq (h : p.HasPlace hole n) : p.position? hole = some (.ofNat n) := by
  cases h with
  | named known => exact congrArg some (UInt32.ofNat_add _ _).symm
  | positional known => rfl

end HasPlace

/-- The message of a placeholder carries its position. -/
theorem fields_of_position? {p : Placeholders} {hole : Expr} {n : UInt32}
    (h : p.position? hole = some n) : hole.fields p = [number 1 6, number 7 n.toNat] := by
  cases hole with
  | named name | positional index =>
    rw [Expr.fields, h]
    rfl
  | _ => cases h

theorem lt_bound_of_mem {n : Nat} {ns : List Nat} (h : n ∈ ns) : n < Expr.bound ns := by
  obtain ⟨before, after, rfl⟩ := List.append_of_mem h
  rw [Expr.bound_append]
  show n < max _ (max (n + 1) _)
  omega

/-- the arguments of a request with one more tree -/
def counting (p : Placeholders) (e : Expr) : Placeholders :=
  ⟨max p.positional e.positionalCount, e.addNames p.names⟩

/-- Counting more trees takes no place away. -/
theorem places_foldl (p : Placeholders) (exprs : List Expr) :
    p.positional ≤ (exprs.foldl counting p).positional ∧
      (∀ name ∈ p.names, name ∈ (exprs.foldl counting p).names) ∧
      ∀ e ∈ exprs, e.positionalCount ≤ (exprs.foldl counting p).positional ∧
        ∀ name ∈ e.mentions, name ∈ (exprs.foldl counting p).names := by
  induction exprs generalizing p with
  | nil => exact ⟨Nat.le_refl _, fun _ h => h, fun _ h => absurd h List.not_mem_nil⟩
  | cons e rest ih =>
    obtain ⟨hpositional, hnames, hrest⟩ := ih (p.counting e)
    have hkept {name : String} (h : name ∈ p.names ∨ name ∈ e.mentions) :
        name ∈ (p.counting e).names := by
      unfold counting
      rw [Expr.addNames_eq]
      exact mem_foldl_addName.mpr h
    refine ⟨Nat.le_trans (Nat.le_max_left _ _) hpositional,
      fun name h => hnames name (hkept (.inl h)), List.forall_mem_cons.mpr ⟨?_, hrest⟩⟩
    exact ⟨Nat.le_trans (Nat.le_max_right _ _) hpositional,
      fun name h => hnames name (hkept (.inr h))⟩

/-- The placeholders of the trees that were counted have a place. -/
theorem exists_hasPlace_ofExprs {exprs : List Expr} {e hole : Expr} (h : e ∈ exprs)
    (hhole : hole ∈ e.holes) : ∃ n, (ofExprs exprs).HasPlace hole n := by
  obtain ⟨hpositional, hnames⟩ := (places_foldl {} exprs).2.2 e h
  rcases e.isHole_of_mem_holes hole hhole with ⟨name, rfl⟩ | ⟨index, rfl⟩
  · exact ⟨_, .named (hnames name (Expr.mem_mentions.mpr hhole))⟩
  · have hindex : index ∈ e.indices := List.mem_filterMap.mpr ⟨_, hhole, rfl⟩
    rw [Expr.positionalCount_eq] at hpositional
    exact ⟨_, .positional (Nat.lt_of_lt_of_le (lt_bound_of_mem hindex) hpositional)⟩

/-- 32 bits are enough for the places if there are so many arguments. -/
theorem covers_ofExprs {exprs : List Expr} {e : Expr} (hcount : (ofExprs exprs).count ≤ 2 ^ 32)
    (h : e ∈ exprs) : (ofExprs exprs).Covers e.holes := by
  intro hole hhole
  obtain ⟨n, hn⟩ := exists_hasPlace_ofExprs h hhole
  exact ⟨n, Nat.lt_of_lt_of_le hn.lt_count hcount, hn⟩

end Placeholders

/-! ## Trees -/

namespace Expr

/-- A tree that is formed like those of texts, and whose placeholders have a place. -/
structure Sendable (p : Placeholders) (e : Expr) : Prop where
  formed : e.Formed
  covered : p.Covers e.holes

namespace Sendable

variable {p : Placeholders} {name : String} {arg : Expr} {args : List Expr}

theorem of_list (formed : ∀ e ∈ args, e.Formed) (covered : p.Covers (holesList args)) :
    ∀ e ∈ args, e.Sendable p := by
  intro e he
  rw [holesList_eq] at covered
  exact ⟨formed e he, fun hole h => covered hole (List.mem_flatMap.mpr ⟨e, he, h⟩)⟩

theorem call {schema : Option String} (h : (Expr.call schema name args).Sendable p) :
    ∀ e ∈ args, e.Sendable p := by
  cases h.formed with
  | call _ _ formed => exact of_list formed h.covered

theorem op (h : (Expr.op name args).Sendable p) : ∀ e ∈ args, e.Sendable p := by
  cases h.formed with
  | op _ formed => exact of_list formed h.covered

theorem array (h : (Expr.array args).Sendable p) : ∀ e ∈ args, e.Sendable p := by
  cases h.formed with
  | array formed => exact of_list formed h.covered

theorem unary (h : (Expr.unary name arg).Sendable p) : arg.Sendable p := by
  cases h.formed with
  | unary _ formed => exact ⟨formed, h.covered⟩

theorem name_mem (h : (Expr.unary name arg).Sendable p) : name ∈ unaryNames := by
  cases h.formed with
  | unary own _ => exact own

theorem name_not_mem (h : (Expr.op name args).Sendable p) : name ∉ unaryNames := by
  cases h.formed with
  | op other _ => exact other

theorem object {members : List (String × Expr)} (h : (Expr.object members).Sendable p) :
    ∀ m ∈ members, m.2.Sendable p := by
  cases h.formed with
  | object formed =>
    intro m hm
    have hcovered : p.Covers (holesFields members) := h.covered
    rw [holesFields_eq] at hcovered
    exact ⟨formed m hm, fun hole hh => hcovered hole (List.mem_flatMap.mpr ⟨m, hm, hh⟩)⟩

/-- Placeholders of either kind are told apart by their places. -/
theorem hole_eq_of_fields {hole other : Expr} (h : hole.Sendable p) (h' : other.Sendable p)
    (hhole : hole.holes = [hole]) (hother : other.holes = [other])
    (hfields : hole.fields p = other.fields p) : hole = other := by
  obtain ⟨n, hn, hplace⟩ := h.covered hole (by rw [hhole]; exact List.mem_cons_self)
  obtain ⟨m, hm, hplace'⟩ := h'.covered other (by rw [hother]; exact List.mem_cons_self)
  rw [Placeholders.fields_of_position? hplace.position?_eq,
    Placeholders.fields_of_position? hplace'.position?_eq] at hfields
  have hword := (number_inj.mp (List.cons.inj (List.cons.inj hfields).2).1).2
  rw [UInt32.toNat_ofNat_of_lt' hn, UInt32.toNat_ofNat_of_lt' hm] at hword
  exact hplace.hole_eq hplace' hword

end Sendable

theorem argumentFields_writable (p : Placeholders) {k : Nat} (hk : 0 < k ∧ k < 2 ^ 29)
    (args : List Expr) : ∀ f ∈ argumentFields p k args, f.Writable := by
  induction args with
  | nil => exact fun f hf => absurd hf List.not_mem_nil
  | cons e rest ih => exact List.forall_mem_cons.mpr ⟨writable_message _ hk, ih⟩

theorem memberFields_writable (p : Placeholders) (members : List (String × Expr)) :
    ∀ f ∈ memberFields p members, f.Writable := by
  induction members with
  | nil => exact fun f hf => absurd hf List.not_mem_nil
  | cons m rest ih =>
    exact List.forall_mem_cons.mpr ⟨writable_message _ (by decide), ih⟩

theorem fields_writable (p : Placeholders) (e : Expr) : ∀ f ∈ e.fields p, f.Writable := by
  have pair {n : Nat} {f : Field} (hn : n < 2 ^ 64) (hf : f.Writable) :
      ∀ g ∈ [number 1 n, f], g.Writable :=
    List.forall_mem_cons.mpr ⟨writable_number (by decide) hn, List.forall_mem_singleton.mpr hf⟩
  have position (n : UInt32) : (number 7 n.toNat).Writable :=
    writable_number (by decide) (Nat.lt_trans n.toNat_lt (by decide))
  cases e with
  | named name => exact pair (by decide) (position _)
  | positional index => exact pair (by decide) (position _)
  | _ => exact pair (by decide) (writable_message _ (by decide))

section
variable {p : Placeholders}

theorem operatorFields_writable (name : String) (args : List Expr) :
    ∀ f ∈ textField 1 name :: argumentFields p 2 args, f.Writable :=
  List.forall_mem_cons.mpr
    ⟨writable_textField name (by decide), argumentFields_writable p (by decide) args⟩

/-- Operators of either kind share a message, of a name and operands. -/
theorem operator_inj {name name' : String} (args args' : List Expr)
    (short : Short [number 1 5, message 6 (textField 1 name :: argumentFields p 2 args)])
    (h : [number 1 5, message 6 (textField 1 name :: argumentFields p 2 args)]
      = [number 1 5, message 6 (textField 1 name' :: argumentFields p 2 args')]) :
    name = name' ∧ argumentFields p 2 args = argumentFields p 2 args' := by
  obtain ⟨hname, hargs⟩ := List.cons.inj
    (typed_inj (operatorFields_writable name args) (operatorFields_writable name' args') short h)
  exact ⟨(textField_inj.mp hname).2, hargs⟩

def functionFields (schema : Option String) (name : String) : List Field :=
  textField 1 name :: Protobuf.optional (textField 2) schema

theorem functionFields_writable (schema : Option String) (name : String) :
    ∀ f ∈ functionFields schema name, f.Writable := by
  refine List.forall_mem_cons.mpr ⟨writable_textField name (by decide), fun f hf => ?_⟩
  obtain ⟨s, rfl⟩ := exists_of_mem_optional hf
  exact writable_textField s (by decide)

theorem callFields_writable (schema : Option String) (name : String) (args : List Expr) :
    ∀ f ∈ message 1 (functionFields schema name) :: argumentFields p 2 args, f.Writable :=
  List.forall_mem_cons.mpr
    ⟨writable_message _ (by decide), argumentFields_writable p (by decide) args⟩

theorem call_inj {schema schema' : Option String} {name name' : String} {args args' : List Expr}
    (short : Short ((call schema name args).fields p))
    (h : (call schema name args).fields p = (call schema' name' args').fields p) :
    schema = schema' ∧ name = name' ∧ argumentFields p 2 args = argumentFields p 2 args' := by
  have hcall := typed_inj (callFields_writable schema name args)
    (callFields_writable schema' name' args') short h
  obtain ⟨hfunction, hargs⟩ := message_cons_inj (functionFields_writable schema name)
    (functionFields_writable schema' name') short.tail.inside hcall
  obtain ⟨hname, hschema⟩ := List.cons.inj hfunction
  exact ⟨optional_inj hschema, (textField_inj.mp hname).2, hargs⟩

def memberMessage (p : Placeholders) (key : String) (e : Expr) : List Field :=
  [textField 1 key, message 2 (e.fields p)]

theorem memberMessage_writable (key : String) (e : Expr) :
    ∀ f ∈ memberMessage p key e, f.Writable :=
  List.forall_mem_cons.mpr ⟨writable_textField key (by decide),
    List.forall_mem_singleton.mpr (writable_message _ (by decide))⟩

/- The first tree is taken apart by recursion and the second by cases: the number of its type leaves
at most two constructors, which the parts of the message tell apart. -/
mutual

/-- Trees whose placeholders have a place are told apart by their messages. -/
theorem trimmed_eq_of_fields (e : Expr) {e' : Expr} (he : e.Sendable p) (he' : e'.Sendable p)
    (short : Short (e.fields p)) (h : e.fields p = e'.fields p) : e.trimmed = e'.trimmed :=
  match e with
  | literal value => by
    cases e' with
    | literal other =>
      have hfields := typed_inj value.fields_writable other.fields_writable short h
      cases he.formed with
      | literal hvalue =>
        cases he'.formed with
        | literal hother =>
          exact congrArg literal
            (Scalar.trimmed_eq_of_fields hvalue hother short.tail.inside hfields)
    | _ => cases h
  | field path => by
    cases e' with
    | field path' =>
      have hpath := typed_inj (pathFields_writable path) (pathFields_writable path') short h
      exact congrArg field (pathFields_inj short.tail.inside hpath)
    | column ref =>
      have hpath := typed_inj (pathFields_writable path) ref.fields_writable short h
      exact absurd hpath ref.pathFields_ne_fields
    | _ => cases h
  | column ref => by
    cases e' with
    | field path =>
      have hpath := typed_inj ref.fields_writable (pathFields_writable path) short h
      exact absurd hpath.symm ref.pathFields_ne_fields
    | column ref' =>
      have href := typed_inj ref.fields_writable ref'.fields_writable short h
      exact congrArg column (ref.eq_of_fields short.tail.inside href)
    | _ => cases h
  | named name => by
    cases e' with
    | named other => exact congrArg trimmed (he.hole_eq_of_fields he' rfl rfl h)
    | positional index => exact congrArg trimmed (he.hole_eq_of_fields he' rfl rfl h)
    | _ => cases h
  | positional index => by
    cases e' with
    | named name => exact congrArg trimmed (he.hole_eq_of_fields he' rfl rfl h)
    | positional other => exact congrArg trimmed (he.hole_eq_of_fields he' rfl rfl h)
    | _ => cases h
  | call schema name args => by
    cases e' with
    | call schema' name' args' =>
      obtain ⟨rfl, rfl, hargs⟩ := call_inj short h
      exact congrArg (call schema name) (trimmedList_eq_of_fields args (by decide) he.call he'.call
        short.tail.inside.tail hargs)
    | _ => cases h
  | op name args => by
    cases e' with
    | op name' args' =>
      obtain ⟨rfl, hargs⟩ := operator_inj args args' short h
      exact congrArg (op name) (trimmedList_eq_of_fields args (by decide) he.op he'.op
        short.tail.inside.tail hargs)
    | unary name' arg =>
      -- the name alone tells the two kinds of operators apart
      obtain ⟨rfl, -⟩ := operator_inj args [arg] short h
      exact absurd he'.name_mem he.name_not_mem
    | _ => cases h
  | unary name arg => by
    cases e' with
    | op name' args' =>
      obtain ⟨rfl, -⟩ := operator_inj [arg] args' short h
      exact absurd he.name_mem he'.name_not_mem
    | unary name' arg' =>
      obtain ⟨rfl, hargs⟩ := operator_inj [arg] [arg'] short h
      have harg := (message_cons_inj (arg.fields_writable p) (arg'.fields_writable p)
        short.tail.inside.tail hargs).1
      exact congrArg (unary name) (trimmed_eq_of_fields arg he.unary he'.unary
        short.tail.inside.tail.inside harg)
    | _ => cases h
  | object members => by
    cases e' with
    | object members' =>
      have hmembers := typed_inj (memberFields_writable p members)
        (memberFields_writable p members') short h
      exact congrArg object (trimmedMembers_eq_of_fields members he.object he'.object
        short.tail.inside hmembers)
    | _ => cases h
  | array items => by
    cases e' with
    | array items' =>
      have hitems := typed_inj (argumentFields_writable p (by decide) items)
        (argumentFields_writable p (by decide) items') short h
      exact congrArg array (trimmedList_eq_of_fields items (by decide) he.array he'.array
        short.tail.inside hitems)
    | _ => cases h

theorem trimmedList_eq_of_fields (args : List Expr) {args' : List Expr} {k : Nat}
    (hk : 0 < k ∧ k < 2 ^ 29) (h : ∀ e ∈ args, e.Sendable p) (h' : ∀ e ∈ args', e.Sendable p)
    (short : Short (argumentFields p k args))
    (hfields : argumentFields p k args = argumentFields p k args') :
    trimmedList args = trimmedList args' :=
  match args, args' with
  | [], [] => rfl
  | [], _ :: _ => by cases hfields
  | _ :: _, [] => by cases hfields
  | e :: rest, e' :: rest' => by
    obtain ⟨he, hrest⟩ := message_cons_inj (e.fields_writable p) (e'.fields_writable p) short
      hfields
    rw [trimmedList, trimmedList,
      trimmed_eq_of_fields e (h e List.mem_cons_self) (h' e' List.mem_cons_self) short.inside he,
      trimmedList_eq_of_fields rest hk (fun x hx => h x (List.mem_cons_of_mem e hx))
        (fun x hx => h' x (List.mem_cons_of_mem e' hx)) short.tail hrest]

theorem trimmedMembers_eq_of_fields (members : List (String × Expr))
    {members' : List (String × Expr)} (h : ∀ m ∈ members, m.2.Sendable p)
    (h' : ∀ m ∈ members', m.2.Sendable p) (short : Short (memberFields p members))
    (hfields : memberFields p members = memberFields p members') :
    trimmedMembers members = trimmedMembers members' :=
  match members, members' with
  | [], [] => rfl
  | [], _ :: _ => by cases hfields
  | _ :: _, [] => by cases hfields
  | (key, e) :: rest, (key', e') :: rest' => by
    obtain ⟨hmember, hrest⟩ := message_cons_inj (memberMessage_writable key e)
      (memberMessage_writable key' e') short hfields
    obtain ⟨hkey, hmessage⟩ := List.cons.inj hmember
    obtain ⟨-, rfl⟩ := textField_inj.mp hkey
    have he := (message_cons_inj (e.fields_writable p) (e'.fields_writable p) short.inside.tail
      hmessage).1
    rw [trimmedMembers, trimmedMembers,
      trimmed_eq_of_fields e (h _ List.mem_cons_self) (h' _ List.mem_cons_self)
        short.inside.tail.inside he,
      trimmedMembers_eq_of_fields rest (fun x hx => h x (List.mem_cons_of_mem _ hx))
        (fun x hx => h' x (List.mem_cons_of_mem _ hx)) short.tail hrest]

end

end

/-! ## What has been compiled -/

theorem encode_trimmed (p : Placeholders) (e : Expr) : e.trimmed.encode p = e.encode p :=
  congrArg encodeFields (e.fields_trimmed p)

/-- **Different expressions have different bytes.**  Two expressions that have been compiled, their
placeholders numbered together, have the same bytes only if they are one tree, but for leading zeros
of integers of 64 bits that are kept as text.  The places of their placeholders and the lengths of
their messages have to fit the words that hold them. -/
theorem encode_eq_encode_iff {text text' : String} {mode mode' : Mode} {e e' : Expr}
    (h : compileExpr text mode = .ok e) (h' : compileExpr text' mode' = .ok e') :
    let p := Placeholders.ofExprs [e, e']
    p.count ≤ 2 ^ 32 → (e.encode p).length < 2 ^ 64 →
      (e.encode p = e'.encode p ↔ e.trimmed = e'.trimmed) := by
  intro p hcount short
  have he : e.Sendable p :=
    ⟨compileExpr_formed h, Placeholders.covers_ofExprs hcount List.mem_cons_self⟩
  have he' : e'.Sendable p := ⟨compileExpr_formed h',
    Placeholders.covers_ofExprs hcount (List.mem_cons_of_mem e List.mem_cons_self)⟩
  constructor
  · intro hbytes
    have hfields := encodeFields_injective (e.fields_writable p) (e'.fields_writable p) short hbytes
    exact trimmed_eq_of_fields e he he' short hfields
  · intro htrimmed
    rw [← encode_trimmed, htrimmed, encode_trimmed]

/-- Leading zeros of a number are lost, and nothing else is. -/
theorem encode_eq_encode_iff_zeros :
    let e := op "==" [positional 0, literal (.exact "9007199254740993")]
    let e' := op "==" [positional 0, literal (.exact "009007199254740993")]
    let p := Placeholders.ofExprs [e, e']
    compileExpr "? = 9007199254740993" .document = .ok e ∧
      compileExpr "?==009007199254740993" .table = .ok e' ∧
      p.count ≤ 2 ^ 32 ∧ (e.encode p).length < 2 ^ 64 ∧
      (e.encode p = e'.encode p ↔ e.trimmed = e'.trimmed) :=
  ⟨rfl, rfl, by decide, by decide, @encode_eq_encode_iff "? = 9007199254740993"
    "?==009007199254740993" .document .table _ _ rfl rfl (by decide) (by decide)⟩

end Expr

end DocWire
