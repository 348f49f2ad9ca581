import DocWire.ResultSet.Row
import DocWire.Proofs.Bytes.Numerals
import DocWire.Proofs.Fallible
import DocWire.Proofs.Text.Utf8

/-!
# Layouts of column values

What the server writes for a value of a column is read as that value, whatever the value is and
however much of it the server leaves out, and a row is read field by field.

* `Value.Layout`              the bytes that a value of a column is written in;
* `FieldReader.Takes`, `FieldReader.Finishes`   what a read makes of the next bytes, and of the last
                              ones;
* `FieldReader.finishes_optional`   a component of a time may be there or have been left out;
* `decimalText_eq`            packed digits and zeros in front of them;
* `Value.Layout.decode`       one field;
* `Row.decodes_layouts`       rows.
-/

namespace DocWire

open Bytes (Cursor Reader toLittleEndian)
open Protobuf (Varint.encode)
open Text (Utf8.encode)

/-! ## What the server writes -/

/-- the bytes of numbers in a row -/
def components (numbers : List UInt32) : List UInt8 :=
  numbers.flatMap fun n => Varint.encode n.toNat

theorem components_cons (n : UInt32) (numbers : List UInt32) :
    components (n :: numbers) = Varint.encode n.toNat ++ components numbers := rfl

/-- The numbers that are written where zeros at the end may be left out. -/
def LeavesOutZeros (all written : List UInt32) : Prop :=
  ∃ zeros, all = written ++ List.replicate zeros 0

def setItem (s : String) : List UInt8 :=
  Varint.encode (Utf8.encode s).length ++ Utf8.encode s

/-- half bytes in bytes, the first one in the high half -/
def packed : List Nat → List UInt8
  | [] => []
  | [high] => [UInt8.ofNat (high * 16)]
  | high :: low :: rest => UInt8.ofNat (high * 16 + low) :: packed rest

def digitChar (d : Fin 10) : Char := Char.ofNat ('0'.toNat + d)

/-- A decimal number: digits before the point, without superfluous zeros, and digits behind it. -/
structure Decimal where
  negative : Bool
  whole : List (Fin 10)
  fraction : List (Fin 10)
  tight : whole = [0] ∨ ∃ d rest, whole = d :: rest ∧ d ≠ 0

def Decimal.text (d : Decimal) : List Char :=
  (if d.negative then ['-'] else []) ++ d.whole.map digitChar
    ++ if d.fraction = [] then [] else '.' :: d.fraction.map digitChar

/-- the half byte behind the digits of a decimal number -/
def Decimal.sign (d : Decimal) : Nat := if d.negative then 13 else 12

/-- Digits are those of a decimal number, up to zeros in front of them. -/
def Decimal.HasDigits (d : Decimal) (digits : List (Fin 10)) : Prop :=
  ∃ more less, List.replicate more 0 ++ digits = List.replicate less 0 ++ d.whole ++ d.fraction

/-- The bytes that a value of a column is written in. -/
inductive Value.Layout (column : Column) : Value → List UInt8 → Prop
  | null : Layout column null []
  | sint (i : Int64) (type : column.type = .sint) :
    Layout column (int i) (Varint.encode (Bytes.Zigzag.encode i).toNat)
  | uint (n : UInt64) (type : column.type = .uint) :
    Layout column (uint n) (Varint.encode n.toNat)
  | bit (n : UInt64) (type : column.type = .bit) :
    Layout column (bit n) (Varint.encode n.toNat)
  | double (bits : UInt64) (type : column.type = .double) :
    Layout column (double bits) (toLittleEndian 8 bits.toNat)
  | float (bits : UInt32) (type : column.type = .float) :
    Layout column (float bits) (toLittleEndian 4 bits.toNat)
  /-- bytes that the collation or the bytes themselves do not allow to be a text -/
  | bytes (b : List UInt8) (pad : UInt8) (type : column.type = .bytes)
    (content : column.contentType ≠ Column.jsonContent)
    (untextual : column.collation = Column.binaryCollation ∨ ∀ s, b ≠ Utf8.encode s) :
    Layout column (bytes b) (b ++ [pad])
  | text (s : String) (pad : UInt8) (type : column.type = .bytes)
    (content : column.contentType ≠ Column.jsonContent)
    (textual : column.collation ≠ Column.binaryCollation) :
    Layout column (text s) (Utf8.encode s ++ [pad])
  | enum (s : String) (pad : UInt8) (type : column.type = .enum) :
    Layout column (enum s) (Utf8.encode s ++ [pad])
  | noItems (type : column.type = .set) : Layout column (set []) [1]
  | items (s : String) (rest : List String) (type : column.type = .set) :
    Layout column (set (s :: rest)) ((s :: rest).flatMap setItem)
  | time (t : Time) (written : List UInt32) (type : column.type = .time)
    (left : LeavesOutZeros [t.hours, t.minutes, t.seconds, t.micros] written) :
    Layout column (time t) ((if t.negative then 1 else 0) :: components written)
  | datetime (t : DateTime) (written : List UInt32) (type : column.type = .datetime)
    (left : LeavesOutZeros [t.hour, t.minute, t.second, t.micros] written)
    (hasTime : t.hasTime = true ↔ written ≠ []) :
    Layout column (datetime t) (components (t.year :: t.month :: t.day :: written))
  /-- the scale, the digits and the sign -/
  | decimal (d : Decimal) (digits : List (Fin 10)) (type : column.type = .decimal)
    (scale : d.fraction.length < 256) (hasDigits : d.HasDigits digits) :
    Layout column (decimal (String.ofList d.text))
      (UInt8.ofNat d.fraction.length :: packed (digits.map Fin.val ++ [d.sign]))

/-! ## Reads -/

namespace FieldReader

variable {α β : Type} {r : FieldReader α} {k : α → FieldReader β} {front more : List UInt8} {a : α}
  {b : β}

/-- Wherever a read stands before these bytes it gives this value and passes them, and only
them. -/
def Takes (r : FieldReader α) (front : List UInt8) (a : α) : Prop :=
  ∀ passed rest, r.run ⟨passed, front ++ rest⟩ = .ok (a, ⟨front.reverse ++ passed, rest⟩)

/-- Where these bytes are the last ones, a read gives this value and passes them. -/
def Finishes (r : FieldReader α) (bytes : List UInt8) (a : α) : Prop :=
  ∀ passed, r.run ⟨passed, bytes⟩ = .ok (a, ⟨bytes.reverse ++ passed, []⟩)

theorem Takes.finishes (h : r.Takes front a) : r.Finishes front a := by
  intro passed
  have hr := h passed []
  rwa [List.append_nil] at hr

theorem takes_of {r : Reader α} (h : r.Takes front a) : (of r).Takes front a := by
  intro passed rest
  show of r ⟨passed, front ++ rest⟩ = _
  unfold of
  rw [h]

theorem takes_pure (a : α) : (pure a : FieldReader α).Takes [] a := fun _ _ => rfl

theorem Takes.bind (hr : r.Takes front a) (hk : (k a).Takes more b) :
    (r >>= k).Takes (front ++ more) b := by
  intro passed rest
  rw [StateT.run_bind, List.append_assoc, hr]
  show (k a).run _ = _
  rw [hk, List.reverse_append, List.append_assoc]

theorem Takes.bind_finishes (hr : r.Takes front a) (hk : (k a).Finishes more b) :
    (r >>= k).Finishes (front ++ more) b := by
  intro passed
  rw [StateT.run_bind, hr]
  show (k a).run _ = _
  rw [hk, List.reverse_append, List.append_assoc]

theorem Finishes.bind (hr : r.Finishes front a) (hk : (k a).Finishes [] b) :
    (r >>= k).Finishes front b := by
  intro passed
  rw [StateT.run_bind, hr]
  show (k a).run _ = _
  rw [hk]
  rfl

/-- Whether everything has been read is known where the bytes are the last ones. -/
theorem finishes_atEnd {k : Bool → FieldReader β} (h : (k front.isEmpty).Finishes front b) :
    (atEnd >>= k).Finishes front b := by
  intro passed
  cases front <;> exact h passed

/-! ## Dates and times -/

theorem component_takes (n : UInt32) : component.Takes (Varint.encode n.toNat) n := by
  have h := takes_of (Reader.varint_takes n.toUInt64)
  have hn : n.toUInt64.toNat = n.toNat := UInt32.toNat_toUInt64 n
  rw [hn] at h
  rw [← List.append_nil (Varint.encode _)]
  refine h.bind ?_
  rw [if_pos (by rw [hn]; exact n.toNat_lt), UInt32.toUInt32_toUInt64]
  exact takes_pure n

theorem optionalComponent_takes (n : UInt32) :
    optionalComponent.Takes (Varint.encode n.toNat) n := by
  intro passed rest
  obtain ⟨byte, others, hbytes⟩ := List.exists_cons_of_ne_nil (Protobuf.Varint.encode_ne_nil n.toNat)
  have h := component_takes n passed rest
  rw [hbytes] at h ⊢
  exact h

theorem optionalComponent_finishes : optionalComponent.Finishes [] 0 := fun _ => rfl

/-- A component that may be left out is read, or was zero and is taken for that. -/
theorem finishes_optional {k : UInt32 → FieldReader β} {n : UInt32} {all written : List UInt32}
    (h : LeavesOutZeros (n :: all) written)
    (hk : ∀ written, LeavesOutZeros all written → (k n).Finishes (components written) b) :
    (optionalComponent >>= k).Finishes (components written) b := by
  obtain ⟨zeros, h⟩ := h
  cases written with
  | nil =>
    cases zeros with
    | zero => cases h
    | succ zeros =>
      obtain ⟨rfl, hall⟩ := List.cons.inj h
      exact optionalComponent_finishes.bind (hk [] ⟨zeros, hall⟩)
  | cons m written =>
    obtain ⟨rfl, hall⟩ := List.cons.inj h
    exact (optionalComponent_takes n).bind_finishes (hk written ⟨zeros, hall⟩)

/-- Where no component is to come, none has been written. -/
theorem eq_nil_of_leavesOutZeros {written : List UInt32} (h : LeavesOutZeros [] written) :
    written = [] := by
  obtain ⟨zeros, h⟩ := h
  exact (List.append_eq_nil_iff.mp h.symm).1

theorem time_finishes (t : Time) {written : List UInt32}
    (h : LeavesOutZeros [t.hours, t.minutes, t.seconds, t.micros] written) :
    time.Finishes ((if t.negative then 1 else 0) :: components written) t := by
  have hsign : ((if t.negative then 1 else 0 : UInt8) == 1) = t.negative := by
    cases t.negative <;> rfl
  refine (takes_of (Reader.byte_takes _)).bind_finishes (finishes_optional h ?_)
  intro written h
  refine finishes_optional h ?_
  intro written h
  refine finishes_optional h ?_
  intro written h
  refine finishes_optional h ?_
  intro written h
  rw [eq_nil_of_leavesOutZeros h, hsign]
  exact (takes_pure t).finishes

theorem datetime_finishes (t : DateTime) {written : List UInt32}
    (h : LeavesOutZeros [t.hour, t.minute, t.second, t.micros] written)
    (hasTime : t.hasTime = true ↔ written ≠ []) :
    datetime.Finishes (components (t.year :: t.month :: t.day :: written)) t := by
  have hend : (!(components written).isEmpty) = t.hasTime := by
    cases written with
    | nil => exact (Bool.eq_false_iff.mpr fun ht => hasTime.mp ht rfl).symm
    | cons n written =>
      have hne := Protobuf.Varint.encode_ne_nil n.toNat
      rw [hasTime.mpr (List.cons_ne_nil n written), components_cons]
      simp [hne]
  rw [components_cons, components_cons, components_cons]
  refine (component_takes t.year).bind_finishes ?_
  refine (component_takes t.month).bind_finishes ?_
  refine (component_takes t.day).bind_finishes ?_
  refine finishes_atEnd ?_
  rw [hend]
  refine finishes_optional h ?_
  intro written h
  refine finishes_optional h ?_
  intro written h
  refine finishes_optional h ?_
  intro written h
  refine finishes_optional h ?_
  intro written h
  rw [eq_nil_of_leavesOutZeros h]
  exact (takes_pure t).finishes

/-! ## Sets -/

theorem setItem_ne_nil (s : String) : setItem s ≠ [] := by
  unfold setItem
  simp [Protobuf.Varint.encode_ne_nil]

theorem length_le_items (list : List String) : list.length ≤ (list.flatMap setItem).length := by
  induction list with
  | nil => exact Nat.le_refl 0
  | cons s list ih =>
    have hs := List.length_pos_of_ne_nil (setItem_ne_nil s)
    rw [List.flatMap_cons, List.length_append, List.length_cons]
    omega

theorem items_finishes (bound : Nat) (list : List String) (hbound : list.length ≤ bound)
    (short : (list.flatMap setItem).length < 2 ^ 64) :
    (items bound).Finishes (list.flatMap setItem) list := by
  induction bound generalizing list with
  | zero =>
    rw [List.eq_nil_of_length_eq_zero (Nat.le_zero.mp hbound)]
    exact (takes_pure []).finishes
  | succ bound ih =>
    unfold items
    refine finishes_atEnd ?_
    cases list with
    | nil => exact (takes_pure []).finishes
    | cons s list =>
      rw [List.flatMap_cons, List.length_append] at short
      have hs : (UInt64.ofNat (Text.Utf8.encode s).length).toNat = (Text.Utf8.encode s).length := by
        rw [setItem, List.length_append] at short
        rw [UInt64.toNat_ofNat', Nat.mod_eq_of_lt (by omega)]
      have hlength := takes_of (Reader.varint_takes (UInt64.ofNat (Text.Utf8.encode s).length))
      have hitem := takes_of (Reader.slice_takes (Text.Utf8.encode s))
      have hrest := ih list (Nat.le_of_succ_le_succ hbound) (by omega)
      have hempty : ((s :: list).flatMap setItem).isEmpty = false := by
        rw [List.flatMap_cons]
        simp [setItem_ne_nil]
      rw [if_neg (by rw [hempty]; exact Bool.false_ne_true), List.flatMap_cons, setItem,
        List.append_assoc]
      rw [hs] at hlength
      refine hlength.bind_finishes ?_
      rw [hs]
      refine hitem.bind_finishes ?_
      refine hrest.bind ?_
      rw [Text.Utf8.decodeLossy_encode]
      exact (takes_pure _).finishes

theorem noItems_finishes : set.Finishes [1] [] := fun _ => rfl

theorem set_of_length_ne_one {bytes : List UInt8} {list : List String} (h : bytes.length ≠ 1)
    (hitems : (items bytes.length).Finishes bytes list) : set.Finishes bytes list := by
  intro passed
  have hrun : set.run ⟨passed, bytes⟩ = (items bytes.length).run ⟨passed, bytes⟩ := by
    unfold set
    rw [StateT.run_bind, StateT.run_get]
    show StateT.run (ite (bytes.length = 1) _ _) _ = _
    rw [if_neg h]
    rfl
  rw [hrun, hitems]

/-- Items take a single byte only if there is one, and it is empty. -/
theorem eq_of_length_items {s : String} {rest : List String}
    (h : ((s :: rest).flatMap setItem).length = 1) : s = "" ∧ rest = [] := by
  have hs := List.length_pos_of_ne_nil (Protobuf.Varint.encode_ne_nil (Text.Utf8.encode s).length)
  have hrest := length_le_items rest
  rw [List.flatMap_cons, List.length_append, setItem, List.length_append] at h
  refine ⟨Text.Utf8.encode_injective ?_, List.eq_nil_of_length_eq_zero (by omega)⟩
  exact List.eq_nil_of_length_eq_zero (by omega)

theorem set_finishes (s : String) (rest : List String)
    (short : ((s :: rest).flatMap setItem).length < 2 ^ 64) :
    set.Finishes ((s :: rest).flatMap setItem) (s :: rest) := by
  by_cases h : ((s :: rest).flatMap setItem).length = 1
  · obtain ⟨rfl, rfl⟩ := eq_of_length_items h
    exact fun _ => rfl
  · exact set_of_length_ne_one h (items_finishes _ _ (length_le_items _) short)

theorem rest_finishes (bytes : List UInt8) : (of Reader.rest).Finishes bytes bytes := by
  intro passed
  have hskip : (Cursor.mk passed bytes).skip bytes.length = ⟨bytes.reverse ++ passed, []⟩ := by
    rw [Cursor.skip, List.take_length, List.drop_length]
  show Except.ok (bytes, (Cursor.mk passed bytes).skip bytes.length) = _
  rw [hskip]

end FieldReader

/-! ## Decimal numbers -/

theorem nibbles_packed (halves : List Nat) (h : ∀ n ∈ halves, n < 16) :
    ∃ rest, nibbles (packed halves) = halves ++ rest := by
  induction halves using packed.induct with
  | case1 => exact ⟨[], rfl⟩
  | case2 high =>
    have hhigh := h high List.mem_cons_self
    have hb : (UInt8.ofNat (high * 16)).toNat = high * 16 := by
      rw [UInt8.toNat_ofNat']
      omega
    refine ⟨[0], ?_⟩
    show [_ / 16, _ % 16] = _
    rw [hb, Nat.mul_div_cancel high (by omega), Nat.mul_mod_left]
    rfl
  | case3 high low halves ih =>
    have hhigh := h high List.mem_cons_self
    have hlow := h low (List.mem_cons_of_mem _ List.mem_cons_self)
    have hb : (UInt8.ofNat (high * 16 + low)).toNat = high * 16 + low := by
      rw [UInt8.toNat_ofNat']
      omega
    obtain ⟨rest, hrest⟩ := ih fun n hn => h n (List.mem_cons_of_mem _ (List.mem_cons_of_mem _ hn))
    refine ⟨rest, ?_⟩
    show _ / 16 :: _ % 16 :: nibbles (packed halves) = _
    rw [hb, hrest, show (high * 16 + low) / 16 = high by omega,
      show (high * 16 + low) % 16 = low by omega]
    rfl

theorem signedDigits_eq (digits : List (Fin 10)) (d : Decimal) (rest : List Nat) :
    signedDigits (digits.map Fin.val ++ d.sign :: rest)
      = .ok (digits.map digitChar, d.negative) := by
  induction digits with
  | nil =>
    unfold Decimal.sign
    cases d.negative <;> rfl
  | cons digit digits ih =>
    rw [List.map_cons, List.cons_append, signedDigits, if_pos digit.isLt, ih]
    rfl

theorem digitChar_ne_zero : ∀ d : Fin 10, d ≠ 0 → digitChar d ≠ '0' := by decide

/-- The digits before the point lose the zeros in front of them, but for one if nothing else is
left. -/
theorem tighten_eq (d : Decimal) (zeros : List Char) (h : ∀ c ∈ zeros, c = '0') :
    (if ((zeros ++ d.whole.map digitChar).dropWhile (· == '0')).isEmpty then ['0']
      else (zeros ++ d.whole.map digitChar).dropWhile (· == '0')) = d.whole.map digitChar := by
  rw [List.dropWhile_append_of_pos fun c hc => by rw [h c hc]; rfl]
  rcases d.tight with hwhole | ⟨digit, rest, hwhole, hdigit⟩
  · rw [hwhole]
    rfl
  · rw [hwhole, List.map_cons, List.dropWhile_cons_of_neg]
    · rfl
    · rw [beq_iff_eq]
      exact digitChar_ne_zero digit hdigit

/-- Digits that are those of a number up to zeros in front of them are worded as the number is. -/
theorem decimalText_eq (d : Decimal) {digits : List (Fin 10)} (h : d.HasDigits digits) :
    decimalText d.negative (digits.map digitChar) d.fraction.length = d.text := by
  obtain ⟨more, less, h⟩ := h
  unfold decimalText
  dsimp only
  generalize hpad : d.fraction.length + 1 - (digits.map digitChar).length = pad
  have hchars : List.replicate more '0' ++ digits.map digitChar
      = List.replicate less '0' ++ d.whole.map digitChar ++ d.fraction.map digitChar := by
    have hmap := congrArg (List.map digitChar) h
    rwa [List.map_append, List.map_append, List.map_append, List.map_replicate,
      List.map_replicate] at hmap
  have hall : List.replicate more '0' ++ (List.replicate pad '0' ++ digits.map digitChar)
      = List.replicate (pad + less) '0' ++ d.whole.map digitChar ++ d.fraction.map digitChar := by
    rw [← List.append_assoc, List.replicate_append_replicate, Nat.add_comm,
      ← List.replicate_append_replicate, List.append_assoc, hchars,
      ← List.replicate_append_replicate]
    simp only [List.append_assoc]
  have hlength : d.fraction.length < (List.replicate pad '0' ++ digits.map digitChar).length := by
    rw [List.length_append, List.length_replicate]
    omega
  generalize List.replicate pad '0' ++ digits.map digitChar = chars at hall hlength ⊢
  rw [← List.take_append_drop (chars.length - d.fraction.length) chars, ← List.append_assoc] at hall
  obtain ⟨hwhole, hfraction⟩ := List.append_inj' hall (by simp; omega)
  have hdrop : (chars.take (chars.length - d.fraction.length)).dropWhile (· == '0')
      = (List.replicate (pad + less) '0' ++ d.whole.map digitChar).dropWhile (· == '0') := by
    rw [← hwhole, List.dropWhile_append_of_pos fun c hc => by rw [List.eq_of_mem_replicate hc]; rfl]
  rw [hdrop, tighten_eq d _ fun c hc => List.eq_of_mem_replicate hc, hfraction]
  unfold Decimal.text
  cases d.fraction <;> rfl

theorem FieldReader.decimal_finishes (d : Decimal) (digits : List (Fin 10))
    (scale : d.fraction.length < 256) (hasDigits : d.HasDigits digits) :
    FieldReader.decimal.Finishes
      (UInt8.ofNat d.fraction.length :: packed (digits.map Fin.val ++ [d.sign]))
      (String.ofList d.text) := by
  have hscale : (UInt8.ofNat d.fraction.length).toNat = d.fraction.length := by
    rw [UInt8.toNat_ofNat', Nat.mod_eq_of_lt scale]
  have hhalves : ∀ n ∈ digits.map Fin.val ++ [d.sign], n < 16 := by
    intro n hn
    rcases List.mem_append.mp hn with hn | hn
    · obtain ⟨digit, -, rfl⟩ := List.mem_map.mp hn
      omega
    · rw [List.mem_singleton.mp hn, Decimal.sign]
      split <;> omega
  obtain ⟨rest, hrest⟩ := nibbles_packed _ hhalves
  have hsigned : signedDigits (nibbles (packed (digits.map Fin.val ++ [d.sign])))
      = .ok (digits.map digitChar, d.negative) := by
    rw [hrest, List.append_assoc]
    exact signedDigits_eq digits d rest
  unfold FieldReader.decimal
  refine (FieldReader.takes_of (Reader.byte_takes _)).bind_finishes ?_
  refine (FieldReader.rest_finishes _).bind ?_
  rw [hsigned]
  show FieldReader.Finishes (pure (String.ofList (decimalText _ _ _))) [] _
  rw [hscale, decimalText_eq d hasDigits]
  exact (FieldReader.takes_pure _).finishes

/-! ## Fields -/

namespace Value

theorem read_eq_ok {α : Type} (make : α → Value) {r : FieldReader α} {field : List UInt8} {a : α}
    (h : r.Finishes field a) :
    ((StateT.run r (Cursor.ofList field)).map fun (x, _) => make x) = .ok (make a) := by
  have hr : StateT.run r (Cursor.ofList field) = _ := h []
  rw [hr]
  rfl

theorem ofBytes_textual {column : Column} (content : column.contentType ≠ Column.jsonContent)
    (textual : column.collation ≠ Column.binaryCollation) (b : List UInt8) (pad : UInt8) :
    ofBytes column (b ++ [pad]) = .ok (((Text.Utf8.decode? b).map text).getD (bytes b)) := by
  unfold ofBytes withoutPad
  rw [List.dropLast_concat, if_neg content, if_neg textual]
  cases Text.Utf8.decode? b <;> rfl

theorem ofBytes_binary {column : Column} (content : column.contentType ≠ Column.jsonContent)
    (binary : column.collation = Column.binaryCollation) (b : List UInt8) (pad : UInt8) :
    ofBytes column (b ++ [pad]) = .ok (bytes b) := by
  unfold ofBytes withoutPad
  rw [List.dropLast_concat, if_neg content, if_pos binary]

theorem isEmpty_concat (b : List UInt8) (pad : UInt8) : ¬(b ++ [pad]).isEmpty = true := by simp

/-- **What is written for a value of a column is read as that value.** -/
theorem Layout.decode {column : Column} {value : Value} {field : List UInt8}
    (h : Layout column value field) (short : field.length < 2 ^ 64) :
    Value.decode column field = .ok value := by
  unfold Value.decode
  cases h with
  | null => rfl
  | sint i type =>
    rw [if_neg (by simp [Protobuf.Varint.encode_ne_nil]), type]
    exact read_eq_ok .int (FieldReader.takes_of (Reader.zigzag_takes i)).finishes
  | uint n type =>
    rw [if_neg (by simp [Protobuf.Varint.encode_ne_nil]), type]
    exact read_eq_ok .uint (FieldReader.takes_of (Reader.varint_takes n)).finishes
  | bit n type =>
    rw [if_neg (by simp [Protobuf.Varint.encode_ne_nil]), type]
    exact read_eq_ok .bit (FieldReader.takes_of (Reader.varint_takes n)).finishes
  | double bits type =>
    rw [if_neg (by simp [toLittleEndian]), type]
    exact read_eq_ok .double (FieldReader.takes_of (Reader.word64_takes bits)).finishes
  | float bits type =>
    rw [if_neg (by simp [toLittleEndian]), type]
    exact read_eq_ok .float (FieldReader.takes_of (Reader.word32_takes bits)).finishes
  | bytes b pad type content untextual =>
    rw [if_neg (isEmpty_concat b pad), type]
    by_cases binary : column.collation = Column.binaryCollation
    · exact ofBytes_binary content binary b pad
    · have hdecode : Text.Utf8.decode? b = none := by
        rw [Option.eq_none_iff_forall_ne_some]
        intro s hs
        exact untextual.resolve_left binary s (Text.Utf8.decode?_eq_some_iff.mp hs)
      show ofBytes column (b ++ [pad]) = _
      rw [ofBytes_textual content binary, hdecode]
      rfl
  | text s pad type content textual =>
    rw [if_neg (isEmpty_concat _ pad), type]
    show ofBytes column (Text.Utf8.encode s ++ [pad]) = _
    rw [ofBytes_textual content textual, Text.Utf8.decode?_encode]
    rfl
  | enum s pad type =>
    rw [if_neg (isEmpty_concat _ pad), type]
    show Except.ok (Value.enum (Text.Utf8.decodeLossy (withoutPad _))) = _
    rw [withoutPad, List.dropLast_concat, Text.Utf8.decodeLossy_encode]
  | noItems type =>
    rw [if_neg (by simp), type]
    exact read_eq_ok .set FieldReader.noItems_finishes
  | items s rest type =>
    rw [if_neg (by simp [FieldReader.setItem_ne_nil]), type]
    exact read_eq_ok .set (FieldReader.set_finishes s rest short)
  | time t written type left =>
    rw [if_neg (by simp), type]
    exact read_eq_ok .time (FieldReader.time_finishes t left)
  | datetime t written type left hasTime =>
    rw [if_neg (by simp [components_cons, Protobuf.Varint.encode_ne_nil]), type]
    exact read_eq_ok .datetime (FieldReader.datetime_finishes t left hasTime)
  | decimal d digits type scale hasDigits =>
    rw [if_neg (by simp), type]
    exact read_eq_ok .decimal (FieldReader.decimal_finishes d digits scale hasDigits)

end Value

/-! ## Rows -/

namespace Row

variable {columns : List Column} {fields : List (List UInt8)}

theorem decode_eq_ok_iff {row : Row} :
    decode columns fields = .ok row ↔ fields.length = columns.length ∧ row.columns = columns ∧
      List.Forall₂ (fun part value => Value.decode part.1 part.2 = .ok value) (columns.zip fields)
        row.values := by
  unfold decode
  by_cases h : fields.length = columns.length
  · obtain ⟨rowColumns, values⟩ := row
    rw [if_pos h, ← mapM_eq_ok_iff]
    cases (columns.zip fields).mapM fun part => Value.decode part.1 part.2 with
    | error e => simp [Except.map]
    | ok found => simp [Except.map, h, eq_comm]
  · rw [if_neg h]
    simp [h]

theorem decode_fails_iff :
    (∃ e, decode columns fields = .error e) ↔ fields.length ≠ columns.length ∨
      ∃ part ∈ columns.zip fields, ∃ e, Value.decode part.1 part.2 = .error e := by
  unfold decode
  by_cases h : fields.length = columns.length
  · rw [if_pos h, ← mapM_fails_iff]
    cases (columns.zip fields).mapM fun part => Value.decode part.1 part.2 with
    | error e => simp [Except.map]
    | ok found => simp [Except.map, h]
  · rw [if_neg h]
    simp [h]

/-- **Rows are read as they were written.**  The field of a value gives that value back, in every
layout of every column; a row is read field by field, each by its column; and it cannot be read
just where there are not as many fields as columns or some field cannot be read. -/
theorem decodes_layouts :
    (∀ (column : Column) (value : Value) (field : List UInt8), Value.Layout column value field →
      field.length < 2 ^ 64 → Value.decode column field = .ok value) ∧
    (∀ (columns : List Column) (fields : List (List UInt8)) (row : Row),
      decode columns fields = .ok row ↔ fields.length = columns.length ∧ row.columns = columns ∧
        List.Forall₂ (fun part value => Value.decode part.1 part.2 = .ok value)
          (columns.zip fields) row.values) ∧
    ∀ (columns : List Column) (fields : List (List UInt8)),
      (∃ e, decode columns fields = .error e) ↔ fields.length ≠ columns.length ∨
        ∃ part ∈ columns.zip fields, ∃ e, Value.decode part.1 part.2 = .error e :=
  ⟨fun _ _ _ => Value.Layout.decode, fun _ _ _ => decode_eq_ok_iff, fun _ _ => decode_fails_iff⟩

/-- The least integer takes ten bytes, an empty item is not the empty set, and a time of which only
the minutes are not zero is written without what follows them. -/
theorem decodes_layouts_of_boundaries :
    Value.decode { type := .sint } [255, 255, 255, 255, 255, 255, 255, 255, 255, 1]
      = .ok (.int Int64.minValue) ∧
    Value.decode { type := .set } [0] = .ok (.set [""]) ∧
    Value.decode { type := .set } [1, 97, 0] = .ok (.set ["a", ""]) ∧
    Value.decode { type := .time } [1, 0, 30] = .ok (.time ⟨true, 0, 30, 0, 0⟩) :=
  ⟨decodes_layouts.1 _ _ _ (.sint Int64.minValue rfl) (by decide),
    decodes_layouts.1 _ _ _ (.items "" [] rfl) (by decide),
    decodes_layouts.1 _ _ _ (.items "a" [""] rfl) (by decide),
    decodes_layouts.1 _ _ _ (.time ⟨true, 0, 30, 0, 0⟩ [0, 30] rfl ⟨2, rfl⟩) (by decide)⟩

end Row

end DocWire
