import DocWire.Message.Any
import DocWire.Proofs.Message.Scalar

/-!
# Compound values on the wire and back

Objects and arrays arrive as they were sent, with their keys, their order and everything in them,
as long as their messages do not nest deeper than a reader follows them.  Deeper ones are not read
at all.

* `AnyValue.ArrivesAs`    what becomes of a value on the way;
* `AnyValue.nesting`      how deep the messages nest;
* `AnyMessage.any?_fields`       the message of a value is read, or it nests too deep;
* `AnyMessage.toAny_ofValue`     the value of that message;
* `AnyValue.survives_wire`       the whole way.
-/

namespace DocWire

open Protobuf

namespace AnyValue

/-! ## What becomes of a value -/

/-- What a value is received as: the same value, each scalar in it as scalars arrive. -/
inductive ArrivesAs : AnyValue → AnyValue → Prop
  | scalar {sent received : Scalar} (h : sent.ArrivesAs received) :
    ArrivesAs (scalar sent) (scalar received)
  | object {sent received : List (String × AnyValue)}
    (keys : sent.map Prod.fst = received.map Prod.fst)
    (values : List.Forall₂ ArrivesAs (sent.map Prod.snd) (received.map Prod.snd)) :
    ArrivesAs (object sent) (object received)
  | array {sent received : List AnyValue} (h : List.Forall₂ ArrivesAs sent received) :
    ArrivesAs (array sent) (array received)

mutual

/-- How deep messages nest in the message of a value. -/
def nesting : AnyValue → Nat
  | scalar value => 1 + value.nesting
  | object members => 1 + nestingMembers members
  | array items => 1 + nestingItems items

/-- how deep messages nest in the message of the members of an object -/
def nestingMembers : List (String × AnyValue) → Nat
  | [] => 0
  | (_, value) :: rest => max (2 + nesting value) (nestingMembers rest)

/-- how deep messages nest in the message of the items of an array -/
def nestingItems : List AnyValue → Nat
  | [] => 0
  | item :: rest => max (1 + nesting item) (nestingItems rest)

end

/-! ## Fields -/

theorem messages_writable {k : Nat} (h : 0 < k ∧ k < 2 ^ 29) (inner : List (List Field)) :
    ∀ f ∈ inner.map (message k), f.Writable := by
  intro f hf
  obtain ⟨m, -, rfl⟩ := List.mem_map.mp hf
  exact writable_octets _ h

def memberMessage (key : String) (value : AnyValue) : List Field :=
  [octets 1 (Text.Utf8.encode key), message 2 value.fields]

theorem fields_writable (value : AnyValue) : ∀ f ∈ value.fields, f.Writable := by
  intro f hf
  cases value <;>
  · rcases List.mem_pair.mp hf with rfl | rfl
    · exact writable_number (by decide) (by decide)
    · exact writable_octets _ (by decide)

theorem memberMessage_writable (key : String) (value : AnyValue) :
    ∀ f ∈ memberMessage key value, f.Writable := by
  intro f hf
  rcases List.mem_pair.mp hf with rfl | rfl <;> exact writable_octets _ (by decide)

theorem memberFields_eq (members : List (String × AnyValue)) :
    memberFields members = (members.map fun m => memberMessage m.1 m.2).map (message 1) := by
  induction members with
  | nil => rfl
  | cons m rest ih => exact congrArg (_ :: ·) ih

theorem itemFields_eq (items : List AnyValue) :
    itemFields items = (items.map fields).map (message 1) := by
  induction items with
  | nil => rfl
  | cons item rest ih => exact congrArg (_ :: ·) ih

end AnyValue

/-! ## The message of a value -/

namespace AnyMessage

open AnyValue (memberFields itemFields memberMessage nestingMembers nestingItems)

mutual

/-- The message that a value is written as. -/
def ofValue : AnyValue → AnyMessage
  | .scalar value => mk 1 (some value.onWire.message) none none
  | .object members => mk 2 none (some (ofMembers members)) none
  | .array items => mk 3 none none (some (ofItems items))

@[inherit_doc ofValue]
def ofMembers : List (String × AnyValue) → List (String × Option AnyMessage)
  | [] => []
  | (key, value) :: rest => (key, some (ofValue value)) :: ofMembers rest

@[inherit_doc ofValue]
def ofItems : List AnyValue → List AnyMessage
  | [] => []
  | item :: rest => ofValue item :: ofItems rest

end

/-- Messages in a row are read one by one. -/
theorem allInside?_messages {α : Type} (read : List Field → Option α) (depth : Nat)
    {inner : List (List Field)} (h : ∀ message ∈ inner, ∀ f ∈ message, f.Writable)
    (short : (encodeFields (inner.map (message 1))).length < 2 ^ 64) :
    allInside? read ⟨depth + 1, inner.map (message 1)⟩ 1 = inner.mapM read := by
  have hcontents : (Record.mk (depth + 1) (inner.map (message 1))).contents 1
      = inner.map fun message => .bytes (encodeFields message) := by
    have hkept : (fun f : Field => if f.number = 1 then some f.content else none) ∘ message 1
        = fun m => some (.bytes (encodeFields m)) := rfl
    unfold Record.contents
    rw [List.filterMap_map, hkept, List.filterMap_eq_map']
  have hshort : ∀ message ∈ inner, (encodeFields message).length < 2 ^ 64 := fun m hm =>
    Nat.lt_of_le_of_lt (length_message (List.mem_map_of_mem hm)) short
  unfold allInside?
  rw [Record.records?_of_contents hcontents h hshort]
  show (inner.map (Record.mk depth)).mapM (fun r => read r.fields) = _
  rw [List.mapM_map]
  rfl

theorem inside?_of_contents {α : Type} (read : List Field → Option α) {depth k : Nat}
    {fields inner : List Field}
    (hcontents : (Record.mk (depth + 1) fields).contents k = [.bytes (encodeFields inner)])
    (h : ∀ f ∈ inner, f.Writable) (short : (encodeFields inner).length < 2 ^ 64) :
    inside? read ⟨depth + 1, fields⟩ k = (read inner).map some := by
  unfold inside?
  rw [Record.record?_of_contents hcontents h short]
  rfl

/-- Where nothing nests any more, a message inside is one too many. -/
theorem leaf?_eq_none {known inside : List Nat} {fields : List Field}
    (h : (inside.all fun k => ((Record.mk 0 fields).contents k).isEmpty) = false) :
    leaf? known inside fields = none := by
  unfold leaf?
  dsimp only
  rw [h]
  cases (Record.mk 0 fields).onlyKnown? known <;> rfl

/-- The message of a value, from its parts. -/
theorem any?_of_parts {depth : Nat} {fields : List Field} {type : Option Int32}
    {scalar : Option (Option ScalarMessage)}
    {object : Option (Option (List (String × Option AnyMessage)))}
    {array : Option (Option (List AnyMessage))}
    (htype : (Record.mk (depth + 1) fields).enum? 1 = some type)
    (hscalar : ((Record.mk (depth + 1) fields).record? 2).bind (fun inner => match inner with
      | none => some none
      | some inner => (ScalarMessage.ofRecord? inner).map some) = scalar)
    (hobject : inside? (object? depth) ⟨depth + 1, fields⟩ 3 = object)
    (harray : inside? (array? depth) ⟨depth + 1, fields⟩ 4 = array) :
    any? (depth + 1) fields = scalar.bind fun scalar => object.bind fun object =>
      array.bind fun array => some (mk (type.getD 1) scalar object array) := by
  subst hscalar hobject harray
  unfold any?
  dsimp only
  rw [htype]
  cases (Record.mk (depth + 1) fields).record? 2 with
  | none => rfl
  | some inner => cases inner <;> rfl

/-- What is read of a message is the reading of the message inside, which may nest too deep. -/
theorem map_ite_succ {α β : Type} (f : α → β) (a : α) {n m depth : Nat} (h : n = 1 + m) :
    (if m ≤ depth then some a else none).map f = if n ≤ depth + 1 then some (f a) else none := by
  subst h
  by_cases hm : m ≤ depth
  · rw [if_pos hm, if_pos (by omega), Option.map_some]
  · rw [if_neg hm, if_neg (by omega), Option.map_none]

section
variable (depth : Nat)

theorem any?_scalar (value : Scalar)
    (short : (encodeFields (AnyValue.scalar value).fields).length < 2 ^ 64) :
    any? depth (AnyValue.scalar value).fields
      = if (AnyValue.scalar value).nesting ≤ depth then some (ofValue (.scalar value))
        else none := by
  cases depth with
  | zero => exact (if_neg (by rw [AnyValue.nesting]; omega)).symm
  | succ depth =>
    have hinner : (encodeFields value.fields).length < 2 ^ 64 :=
      Nat.lt_of_le_of_lt (length_message (List.mem_cons_of_mem _ List.mem_cons_self)) short
    have hrecord : (Record.mk (depth + 1) (AnyValue.scalar value).fields).record? 2
        = some (some ⟨depth, value.fields⟩) :=
      Record.record?_of_contents rfl value.fields_writable hinner
    have htype : (Record.mk (depth + 1) (AnyValue.scalar value).fields).enum? 1 = some (some 1) :=
      rfl
    rw [any?_of_parts htype (congrArg (Option.bind · _) hrecord) rfl rfl]
    show ((ScalarMessage.ofRecord? ⟨depth, value.fields⟩).map some).bind _ = _
    rw [ScalarMessage.ofRecord?_fields depth value hinner]
    refine Eq.trans ?_ (map_ite_succ (fun m => mk 1 (some m) none none) value.onWire.message rfl)
    split <;> rfl

theorem any?_object (members : List (String × AnyValue))
    (short : (encodeFields (AnyValue.object members).fields).length < 2 ^ 64)
    (h : ∀ depth, object? depth (memberFields members)
      = if nestingMembers members ≤ depth then some (ofMembers members) else none) :
    any? depth (AnyValue.object members).fields
      = if (AnyValue.object members).nesting ≤ depth then some (ofValue (.object members))
        else none := by
  cases depth with
  | zero => exact (if_neg (by rw [AnyValue.nesting]; omega)).symm
  | succ depth =>
    have hinner : (encodeFields (memberFields members)).length < 2 ^ 64 :=
      Nat.lt_of_le_of_lt (length_message (List.mem_cons_of_mem _ List.mem_cons_self)) short
    have hwritable : ∀ f ∈ memberFields members, f.Writable := by
      rw [AnyValue.memberFields_eq]
      exact AnyValue.messages_writable (by decide) _
    have htype : (Record.mk (depth + 1) (AnyValue.object members).fields).enum? 1
        = some (some 2) := rfl
    rw [any?_of_parts htype rfl (inside?_of_contents _ rfl hwritable hinner) rfl, h]
    refine Eq.trans ?_ (map_ite_succ (fun ms => mk 2 none (some ms) none) (ofMembers members) rfl)
    split <;> rfl

theorem any?_array (items : List AnyValue)
    (short : (encodeFields (AnyValue.array items).fields).length < 2 ^ 64)
    (h : ∀ depth, array? depth (itemFields items)
      = if nestingItems items ≤ depth then some (ofItems items) else none) :
    any? depth (AnyValue.array items).fields
      = if (AnyValue.array items).nesting ≤ depth then some (ofValue (.array items))
        else none := by
  cases depth with
  | zero => exact (if_neg (by rw [AnyValue.nesting]; omega)).symm
  | succ depth =>
    have hinner : (encodeFields (itemFields items)).length < 2 ^ 64 :=
      Nat.lt_of_le_of_lt (length_message (List.mem_cons_of_mem _ List.mem_cons_self)) short
    have hwritable : ∀ f ∈ itemFields items, f.Writable := by
      rw [AnyValue.itemFields_eq]
      exact AnyValue.messages_writable (by decide) _
    have htype : (Record.mk (depth + 1) (AnyValue.array items).fields).enum? 1
        = some (some 3) := rfl
    rw [any?_of_parts htype rfl rfl (inside?_of_contents _ rfl hwritable hinner), h]
    refine Eq.trans ?_ (map_ite_succ (fun xs => mk 3 none none (some xs)) (ofItems items) rfl)
    split <;> rfl

theorem member?_memberMessage (key : String) (value : AnyValue)
    (short : (encodeFields value.fields).length < 2 ^ 64)
    (h : ∀ depth, any? depth value.fields
      = if value.nesting ≤ depth then some (ofValue value) else none) :
    member? depth (memberMessage key value)
      = if 1 + value.nesting ≤ depth then some (key, some (ofValue value)) else none := by
  cases depth with
  | zero => exact (if_neg (by omega)).symm
  | succ depth =>
    have hkey : (Record.mk (depth + 1) (memberMessage key value)).string? 1 = some (some key) := by
      show (([Content.bytes (Text.Utf8.encode key)].mapM Record.pickString).map List.getLast?) = _
      rw [List.mapM_cons, Record.pickString, Text.Utf8.decode?_encode]
      rfl
    unfold member?
    dsimp only
    rw [hkey, inside?_of_contents _ rfl value.fields_writable short, h]
    refine Eq.trans ?_ (map_ite_succ (fun m => (key, some m)) (ofValue value) rfl)
    split <;> rfl

theorem object?_memberFields (members : List (String × AnyValue))
    (short : (encodeFields (memberFields members)).length < 2 ^ 64)
    (h : ∀ depth, (members.map fun m => memberMessage m.1 m.2).mapM (member? depth)
      = if nestingMembers members ≤ depth + 1 then some (ofMembers members) else none) :
    object? depth (memberFields members)
      = if nestingMembers members ≤ depth then some (ofMembers members) else none := by
  cases depth with
  | zero =>
    cases members with
    | nil => rfl
    | cons m rest =>
      have hdeep : ¬nestingMembers (m :: rest) ≤ 0 := by
        rw [nestingMembers]
        omega
      have hleaf : leaf? [1] [1] (memberFields (m :: rest)) = none := leaf?_eq_none rfl
      rw [if_neg hdeep, object?, hleaf]
      rfl
  | succ depth =>
    rw [AnyValue.memberFields_eq] at short ⊢
    unfold object?
    rw [allInside?_messages _ _ ?_ short, h]
    intro m hm
    obtain ⟨member, -, rfl⟩ := List.mem_map.mp hm
    exact AnyValue.memberMessage_writable _ _

theorem array?_itemFields (items : List AnyValue)
    (short : (encodeFields (itemFields items)).length < 2 ^ 64)
    (h : ∀ depth, (items.map AnyValue.fields).mapM (any? depth)
      = if nestingItems items ≤ depth + 1 then some (ofItems items) else none) :
    array? depth (itemFields items)
      = if nestingItems items ≤ depth then some (ofItems items) else none := by
  cases depth with
  | zero =>
    cases items with
    | nil => rfl
    | cons item rest =>
      have hdeep : ¬nestingItems (item :: rest) ≤ 0 := by
        rw [nestingItems]
        omega
      have hleaf : leaf? [1] [1] (itemFields (item :: rest)) = none := leaf?_eq_none rfl
      rw [if_neg hdeep, array?, hleaf]
      rfl
  | succ depth =>
    rw [AnyValue.itemFields_eq] at short ⊢
    unfold array?
    rw [allInside?_messages _ _ ?_ short, h]
    intro m hm
    obtain ⟨item, -, rfl⟩ := List.mem_map.mp hm
    exact item.fields_writable

end

theorem mapM_cons_ite {α β : Type} {f : α → Option β} {x : α} {xs : List α} {y : β} {ys : List β}
    {n m depth : Nat} (hx : f x = if n ≤ depth then some y else none)
    (hxs : xs.mapM f = if m ≤ depth + 1 then some ys else none) :
    (x :: xs).mapM f = if max (1 + n) m ≤ depth + 1 then some (y :: ys) else none := by
  rw [List.mapM_cons, hx, hxs]
  by_cases hn : n ≤ depth
  · by_cases hm : m ≤ depth + 1
    · rw [if_pos hn, if_pos hm, if_pos (by omega)]
      rfl
    · rw [if_pos hn, if_neg hm, if_neg (by omega)]
      rfl
  · rw [if_neg hn, if_neg (show ¬max (1 + n) m ≤ depth + 1 by omega)]
    rfl

mutual

/-- The message of a value is read if it does not nest too deep. -/
theorem any?_fields (value : AnyValue) (short : (encodeFields value.fields).length < 2 ^ 64)
    (depth : Nat) :
    any? depth value.fields = if value.nesting ≤ depth then some (ofValue value) else none :=
  match value with
  | .scalar value => any?_scalar depth value short
  | .object members =>
    have hinner := Nat.lt_of_le_of_lt
      (length_message (List.mem_cons_of_mem _ List.mem_cons_self)) short
    any?_object depth members short fun depth =>
      object?_memberFields depth members hinner (mapM_member? members hinner)
  | .array items =>
    have hinner := Nat.lt_of_le_of_lt
      (length_message (List.mem_cons_of_mem _ List.mem_cons_self)) short
    any?_array depth items short fun depth =>
      array?_itemFields depth items hinner (mapM_any? items hinner)

theorem mapM_member? (members : List (String × AnyValue))
    (short : (encodeFields (memberFields members)).length < 2 ^ 64) (depth : Nat) :
    (members.map fun m => memberMessage m.1 m.2).mapM (member? depth)
      = if nestingMembers members ≤ depth + 1 then some (ofMembers members) else none :=
  match members with
  | [] => rfl
  | (key, value) :: rest => by
    have hmember := Nat.lt_of_le_of_lt (length_message (List.mem_cons_self :
      message 1 (memberMessage key value) ∈ memberFields ((key, value) :: rest))) short
    have hvalue := Nat.lt_of_le_of_lt (length_message (List.mem_cons_of_mem _ List.mem_cons_self :
      message 2 value.fields ∈ memberMessage key value)) hmember
    have hrest : (encodeFields (memberFields rest)).length < 2 ^ 64 := by
      rw [memberFields, encodeFields_cons, List.length_append] at short
      omega
    have hread := member?_memberMessage depth key value hvalue (any?_fields value hvalue)
    rw [nestingMembers, show 2 + value.nesting = 1 + (1 + value.nesting) by omega]
    exact mapM_cons_ite hread (mapM_member? rest hrest depth)

theorem mapM_any? (items : List AnyValue)
    (short : (encodeFields (itemFields items)).length < 2 ^ 64) (depth : Nat) :
    (items.map AnyValue.fields).mapM (any? depth)
      = if nestingItems items ≤ depth + 1 then some (ofItems items) else none :=
  match items with
  | [] => rfl
  | item :: rest => by
    have hitem := Nat.lt_of_le_of_lt (length_message (List.mem_cons_self :
      message 1 item.fields ∈ itemFields (item :: rest))) short
    have hrest : (encodeFields (itemFields rest)).length < 2 ^ 64 := by
      rw [itemFields, encodeFields_cons, List.length_append] at short
      omega
    rw [nestingItems]
    exact mapM_cons_ite (any?_fields item hitem depth) (mapM_any? rest hrest depth)

end

/-! ## The value of that message -/

mutual

/-- The message of a value holds the value as it arrives. -/
theorem toAny_ofValue (value : AnyValue) :
    ∃ received, (ofValue value).toAny = .ok received ∧ value.ArrivesAs received :=
  match value with
  | .scalar value => by
    have hread : (ofValue (.scalar value)).toAny = value.onWire.message.toScalar.map .scalar := rfl
    rw [hread, value.toScalar_message]
    exact ⟨.scalar value.onWire, rfl, .scalar value.arrivesAs_onWire⟩
  | .object members => by
    obtain ⟨received, hread, hkeys, hvalues⟩ := toMembers_ofMembers members
    refine ⟨.object received, ?_, .object hkeys hvalues⟩
    show (toMembers (ofMembers members)).map AnyValue.object = _
    rw [hread]
    rfl
  | .array items => by
    obtain ⟨received, hread, hitems⟩ := toItems_ofItems items
    refine ⟨.array received, ?_, .array hitems⟩
    show (toItems (ofItems items)).map AnyValue.array = _
    rw [hread]
    rfl

theorem toMembers_ofMembers (members : List (String × AnyValue)) :
    ∃ received, toMembers (ofMembers members) = .ok received ∧
      members.map Prod.fst = received.map Prod.fst ∧
      List.Forall₂ AnyValue.ArrivesAs (members.map Prod.snd) (received.map Prod.snd) :=
  match members with
  | [] => ⟨[], rfl, rfl, .nil⟩
  | (key, value) :: rest => by
    obtain ⟨received, hread, hvalue⟩ := toAny_ofValue value
    obtain ⟨more, hmore, hkeys, hvalues⟩ := toMembers_ofMembers rest
    refine ⟨(key, received) :: more, ?_, congrArg (key :: ·) hkeys, .cons hvalue hvalues⟩
    rw [ofMembers, toMembers, hread, hmore]
    rfl

theorem toItems_ofItems (items : List AnyValue) :
    ∃ received, toItems (ofItems items) = .ok received ∧
      List.Forall₂ AnyValue.ArrivesAs items received :=
  match items with
  | [] => ⟨[], rfl, .nil⟩
  | item :: rest => by
    obtain ⟨received, hread, hitem⟩ := toAny_ofValue item
    obtain ⟨more, hmore, hitems⟩ := toItems_ofItems rest
    refine ⟨received :: more, ?_, .cons hitem hitems⟩
    rw [ofItems, toItems, hread, hmore]
    rfl

end

end AnyMessage

namespace AnyValue

theorem decode_eq (value : AnyValue) (short : value.encode.length < 2 ^ 64) :
    decode value.encode = if value.nesting ≤ maxDepth then (AnyMessage.ofValue value).toAny
      else .error (.undecodable .message) := by
  have hfields : decodeFields? maxDepth value.encode = some value.fields :=
    decodeFields?_encodeFields maxDepth value.fields_writable short
  have hmessage := AnyMessage.any?_fields value short maxDepth
  unfold decode Record.ofBytes?
  rw [hfields]
  show (readable (AnyMessage.any? maxDepth value.fields) >>= _) = _
  rw [hmessage]
  split <;> rfl

/-- **Values survive the wire.**  A value whose messages nest at most a hundred deep is received as
it was sent, each number that it gives as text in the form of an integer or of bytes; a value whose
messages nest deeper is not read at all. -/
theorem survives_wire (value : AnyValue) (short : value.encode.length < 2 ^ 64) :
    (value.nesting ≤ 100 → ∃ received, decode value.encode = .ok received ∧
      value.ArrivesAs received) ∧
    (100 < value.nesting → decode value.encode = .error (.undecodable .message)) := by
  rw [decode_eq value short]
  constructor
  · intro h
    obtain ⟨received, hread, harrives⟩ := AnyMessage.toAny_ofValue value
    exact ⟨received, (if_pos h).trans hread, harrives⟩
  · intro h
    exact if_neg (Nat.not_le.mpr h)

/-- A key may occur twice and be empty, containers may be empty too, and a zero with a minus sign
is an integer. -/
theorem survives_wire_object :
    let sent : AnyValue := .object [("é", .scalar (.exact "-0")), ("", .array []),
      ("é", .object [("", .scalar (.bytes []))])]
    sent.encode.length < 2 ^ 64 ∧ sent.nesting ≤ 100 ∧
      ∃ received, decode sent.encode = .ok received ∧ sent.ArrivesAs received :=
  ⟨by decide, by decide, (survives_wire _ (by decide)).1 (by decide)⟩

end AnyValue

end DocWire
