import DocWire.Proofs.Bytes.Numerals
import DocWire.Proofs.Fallible
import DocWire.Protobuf.Record

/-!
# Messages and their fields

The bytes of a message are split into the fields that were written, so different fields have
different bytes.

* `Field.Writable`              what a field has to keep to;
* `decodeField_encode`          one field, whatever follows it;
* `decodeFields?_encodeFields`  a message;
* `encodeFields_injective`      messages are told apart by their bytes;
* `length_message`              a message inside is not longer than the one around it;
* `Short`, `message_cons_inj`   messages inside are told apart too;
* `Record.records?_of_contents`, `Record.record?_of_contents`   messages inside, read back.
-/

namespace DocWire.Protobuf

/-- Numbers of a content are within its width, and it is not a group. -/
def Content.Writable : Content → Prop
  | varint n | fixed64 n => n < 2 ^ 64
  | fixed32 n => n < 2 ^ 32
  | bytes _ => True
  | group => False

/-- The number of a field leaves room for its wire type, and its content can be written. -/
structure Field.Writable (f : Field) : Prop where
  positive : 0 < f.number
  small : f.number < 2 ^ 29
  content : f.content.Writable

theorem Content.wireType_lt (c : Content) : c.wireType < 8 := by
  cases c <;> simp [wireType]

/-- groups are not written -/
theorem Content.Writable.wireType_ne {c : Content} (h : c.Writable) : c.wireType ≠ 3 := by
  cases c with
  | group => exact h.elim
  | _ => simp [wireType]

theorem writable_octets {k : Nat} (b : List UInt8) (h : 0 < k ∧ k < 2 ^ 29) :
    (octets k b).Writable := ⟨h.1, h.2, trivial⟩

theorem writable_message {k : Nat} (fields : List Field) (h : 0 < k ∧ k < 2 ^ 29) :
    (message k fields).Writable := writable_octets _ h

theorem writable_number {k n : Nat} (h : 0 < k ∧ k < 2 ^ 29) (hn : n < 2 ^ 64) :
    (number k n).Writable := ⟨h.1, h.2, hn⟩

/-! ## Fields -/

theorem takeBytes_of_length {n : Nat} {a : List UInt8} (h : a.length = n) (rest : List UInt8) :
    takeBytes n (a ++ rest) = some (a, rest) := by
  rw [← h, takeBytes_append]

theorem decodeKey_encode {k w : Nat} (h : 0 < k ∧ k < 2 ^ 29) (hw : w < 8) (rest : List UInt8) :
    decodeKey (Varint.encode (k * 8 + w) ++ rest) = some ((k, w), rest) := by
  unfold decodeKey
  rw [Varint.decode_encode (by omega)]
  show (if k * 8 + w < 2 ^ 32 ∧ 8 ≤ k * 8 + w then some (((k * 8 + w) / 8, (k * 8 + w) % 8), rest)
    else none) = _
  rw [if_pos (by omega), show (k * 8 + w) / 8 = k by omega, show (k * 8 + w) % 8 = w by omega]

theorem decodeContent_fixed64 (bytes : List UInt8) : decodeContent 1 bytes
    = (takeBytes 8 bytes).map fun x => (.fixed64 (Bytes.Reader.littleEndian x.1), x.2) := by
  show (takeBytes 8 bytes).bind _ = _
  cases takeBytes 8 bytes <;> rfl

theorem decodeContent_fixed32 (bytes : List UInt8) : decodeContent 5 bytes
    = (takeBytes 4 bytes).map fun x => (.fixed32 (Bytes.Reader.littleEndian x.1), x.2) := by
  show (takeBytes 4 bytes).bind _ = _
  cases takeBytes 4 bytes <;> rfl

theorem decodeContent_encode {c : Content} (h : c.Writable) (short : c.encode.length < 2 ^ 64)
    (rest : List UInt8) : decodeContent c.wireType (c.encode ++ rest) = some (c, rest) := by
  cases c with
  | varint n =>
    show ((Varint.decode (Varint.encode n ++ rest)).bind fun _ => _) = _
    rw [Varint.decode_encode h]
    rfl
  | fixed64 n =>
    show decodeContent 1 (Bytes.toLittleEndian 8 n ++ rest) = _
    rw [decodeContent_fixed64, takeBytes_of_length (Bytes.length_toLittleEndian 8 n),
      Option.map_some, Bytes.littleEndian_toLittleEndian 8 n h]
  | bytes b =>
    have hlength : b.length < 2 ^ 64 := by
      rw [Content.encode, List.length_append] at short
      omega
    show ((Varint.decode (Varint.encode b.length ++ b ++ rest)).bind fun _ => _) = _
    rw [List.append_assoc, Varint.decode_encode hlength]
    show ((takeBytes b.length (b ++ rest)).bind fun _ => _) = _
    rw [takeBytes_append]
    rfl
  | fixed32 n =>
    show decodeContent 5 (Bytes.toLittleEndian 4 n ++ rest) = _
    rw [decodeContent_fixed32, takeBytes_of_length (Bytes.length_toLittleEndian 4 n),
      Option.map_some, Bytes.littleEndian_toLittleEndian 4 n h]
  | group => exact h.elim

theorem decodeField_encode {f : Field} (h : f.Writable) (short : f.encode.length < 2 ^ 64)
    (depth : Nat) (rest : List UInt8) :
    decodeField depth (f.encode ++ rest) = some (f, rest) := by
  have hcontent : f.content.encode.length < 2 ^ 64 := by
    rw [Field.encode, List.length_append] at short
    omega
  unfold decodeField Field.encode
  rw [List.append_assoc, decodeKey_encode ⟨h.positive, h.small⟩ f.content.wireType_lt]
  show (if f.content.wireType = 3 then _ else _) = _
  rw [if_neg h.content.wireType_ne, decodeContent_encode h.content hcontent]
  rfl

theorem encode_ne_nil (f : Field) : f.encode ≠ [] :=
  List.append_ne_nil_of_left_ne_nil (Varint.encode_ne_nil _) _

/-! ## Messages -/

theorem encodeFields_cons (f : Field) (fields : List Field) :
    encodeFields (f :: fields) = f.encode ++ encodeFields fields := rfl

theorem length_le_encodeFields (fields : List Field) :
    fields.length ≤ (encodeFields fields).length := by
  induction fields with
  | nil => exact Nat.le_refl 0
  | cons f fields ih =>
    have hf := List.length_pos_iff.mpr (encode_ne_nil f)
    rw [encodeFields_cons, List.length_append, List.length_cons]
    omega

theorem decodeFieldsWithin_encodeFields (depth bound : Nat) {fields : List Field}
    (h : ∀ f ∈ fields, f.Writable) (short : (encodeFields fields).length < 2 ^ 64)
    (hbound : fields.length ≤ bound) :
    decodeFieldsWithin depth bound (encodeFields fields) = some fields := by
  induction fields generalizing bound with
  | nil => cases bound <;> rfl
  | cons f fields ih =>
    obtain ⟨bound, rfl⟩ : ∃ n, bound = n + 1 := ⟨bound - 1, by simp at hbound; omega⟩
    obtain ⟨b, rest, hb⟩ := List.exists_cons_of_ne_nil (encode_ne_nil f)
    rw [encodeFields_cons, List.length_append] at short
    have hf := decodeField_encode (h f List.mem_cons_self) (by omega) depth (encodeFields fields)
    have hrest := ih bound (fun g hg => h g (List.mem_cons_of_mem f hg)) (by omega)
      (Nat.le_of_succ_le_succ hbound)
    rw [encodeFields_cons]
    rw [hb, List.cons_append] at hf ⊢
    unfold decodeFieldsWithin
    rw [hf]
    show ((decodeFieldsWithin depth bound (encodeFields fields)).bind fun _ => _) = _
    rw [hrest]
    rfl

/-- **A message is split into the fields that were written.** -/
theorem decodeFields?_encodeFields (depth : Nat) {fields : List Field}
    (h : ∀ f ∈ fields, f.Writable) (short : (encodeFields fields).length < 2 ^ 64) :
    decodeFields? depth (encodeFields fields) = some fields :=
  decodeFieldsWithin_encodeFields depth _ h short (length_le_encodeFields fields)

theorem encodeFields_injective {a b : List Field} (ha : ∀ f ∈ a, f.Writable)
    (hb : ∀ f ∈ b, f.Writable) (short : (encodeFields a).length < 2 ^ 64)
    (h : encodeFields a = encodeFields b) : a = b := by
  have hda := decodeFields?_encodeFields 0 ha short
  rw [h] at short hda
  exact Option.some.inj (hda.symm.trans (decodeFields?_encodeFields 0 hb short))

/-! ## Messages inside -/

theorem length_content_le {f : Field} {fields : List Field} (h : f ∈ fields) :
    f.content.encode.length ≤ (encodeFields fields).length := by
  obtain ⟨before, after, rfl⟩ := List.append_of_mem h
  rw [encodeFields_append, encodeFields_cons, Field.encode]
  simp only [List.length_append]
  omega

theorem length_message {k : Nat} {inner fields : List Field} (h : message k inner ∈ fields) :
    (encodeFields inner).length ≤ (encodeFields fields).length := by
  refine Nat.le_trans ?_ (length_content_le h)
  show _ ≤ (Varint.encode _ ++ encodeFields inner).length
  rw [List.length_append]
  omega

/-! ## Messages that are told apart -/

/-- A message short enough for its length to be written. -/
def Short (fields : List Field) : Prop := (encodeFields fields).length < 2 ^ 64

namespace Short

variable {f : Field} {k : Nat} {inner fields : List Field}

theorem tail (h : Short (f :: fields)) : Short fields := by
  unfold Short at h ⊢
  rw [encodeFields_cons, List.length_append] at h
  omega

theorem inside (h : Short (message k inner :: fields)) : Short inner :=
  Nat.lt_of_le_of_lt (length_message List.mem_cons_self) h

end Short

theorem number_inj {j k m n : Nat} : number j m = number k n ↔ j = k ∧ m = n := by
  simp [number]

/-- A message inside is told by its bytes. -/
theorem message_cons_inj {k : Nat} {a b fields fields' : List Field} (ha : ∀ f ∈ a, f.Writable)
    (hb : ∀ f ∈ b, f.Writable) (short : Short (message k a :: fields))
    (h : message k a :: fields = message k b :: fields') : a = b ∧ fields = fields' := by
  obtain ⟨hmessage, hfields⟩ := List.cons.inj h
  have hbytes : encodeFields a = encodeFields b :=
    Content.bytes.inj (congrArg Field.content hmessage)
  exact ⟨encodeFields_injective ha hb short.inside hbytes, hfields⟩

/-- A message that is told by the number of its type and one message inside. -/
theorem typed_inj {n k : Nat} {a b : List Field} (ha : ∀ f ∈ a, f.Writable)
    (hb : ∀ f ∈ b, f.Writable) (short : Short [number 1 n, message k a])
    (h : [number 1 n, message k a] = [number 1 n, message k b]) : a = b :=
  (message_cons_inj ha hb short.tail (List.cons.inj h).2).1

/-! ## Messages inside a record -/

namespace Record

variable {depth k : Nat} {fields : List Field}

/-- The messages of a field are read one level further down. -/
theorem records?_of_contents {inner : List (List Field)}
    (hcontents : (Record.mk (depth + 1) fields).contents k
      = inner.map fun message => .bytes (encodeFields message))
    (h : ∀ message ∈ inner, ∀ f ∈ message, f.Writable)
    (short : ∀ message ∈ inner, (encodeFields message).length < 2 ^ 64) :
    (Record.mk (depth + 1) fields).records? k = some (inner.map (Record.mk depth)) := by
  unfold records? all?
  rw [hcontents, mapM_eq_some_iff, List.forall₂_map_left_iff, List.forall₂_map_right_iff,
    List.forall₂_same]
  intro message hmessage
  show (decodeFields? depth (encodeFields message)).map (Record.mk depth) = _
  rw [decodeFields?_encodeFields depth (h message hmessage) (short message hmessage)]
  rfl

theorem record?_of_contents {inner : List Field}
    (hcontents : (Record.mk (depth + 1) fields).contents k = [.bytes (encodeFields inner)])
    (h : ∀ f ∈ inner, f.Writable) (short : (encodeFields inner).length < 2 ^ 64) :
    (Record.mk (depth + 1) fields).record? k = some (some ⟨depth, inner⟩) := by
  have hall := @records?_of_contents depth k fields [inner] hcontents (by simpa using h)
    (by simpa using short)
  unfold record?
  rw [hall]
  show some (some (Record.mk depth (inner ++ []))) = _
  rw [List.append_nil]

/-- Where nothing nests any more, a field that is there holds no message. -/
theorem record?_of_depth_zero {content : Content} {more : List Content}
    (hcontents : (Record.mk 0 fields).contents k = content :: more) :
    (Record.mk 0 fields).record? k = none := by
  have hall : (Record.mk 0 fields).records? k = none := by
    unfold records? all?
    rw [hcontents, List.mapM_cons]
    cases content <;> rfl
  unfold record?
  rw [hall]
  rfl

end Record

end DocWire.Protobuf
