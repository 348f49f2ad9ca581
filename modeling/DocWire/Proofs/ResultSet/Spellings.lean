import DocWire.Proofs.Bytes.Spellings
import DocWire.Proofs.ResultSet.Decimals

/-!
# Spellings of column values

A field is read as a value just where it is a spelling of the value, or starts with one that ends by
itself.  What stands behind such a spelling is not looked at.

* `Value.Spelling`             the bytes that are read as a value when they are the whole field;
* `ColumnType.EndsItself`      the spellings behind which anything may stand;
* `FieldReader.Reads`          what a read takes of a field, and what it leaves of it;
* `FieldReader.time_reads`, `FieldReader.set_reads`, …   the layouts, one by one;
* `Value.decode_eq_ok_iff_spelling`   which fields are read as a value, and how much of them.
-/

namespace DocWire

open Bytes (Cursor Reader SpellsWord toLittleEndian)
open Text (Utf8.decodeLossy)

/-! ## Spellings -/

/-- numbers of 32 bits, one behind the other -/
inductive SpellsComponents : List UInt32 → List UInt8 → Prop
  | nil : SpellsComponents [] []
  | cons {n : UInt32} {front : List UInt8} {numbers : List UInt32} {bytes : List UInt8}
      (h : SpellsWord n.toUInt64 front) (hrest : SpellsComponents numbers bytes) :
      SpellsComponents (n :: numbers) (front ++ bytes)

/-- items, each behind its length -/
inductive SpellsItems : List String → List UInt8 → Prop
  | nil : SpellsItems [] []
  | cons {n : UInt64} {front content : List UInt8} {items : List String} {bytes : List UInt8}
      (h : SpellsWord n front) (hcontent : content.length = n.toNat)
      (hrest : SpellsItems items bytes) :
      SpellsItems (Utf8.decodeLossy content :: items) (front ++ (content ++ bytes))

/-- The bytes that are read as a value of a layout, and all of them.  Numbers may have more digits
than they need, a sign of a time is any byte, and behind the sign of a decimal number half a byte
may be left. -/
inductive Value.Spelling : ColumnType → Value → List UInt8 → Prop
  | sint {n : UInt64} {bytes : List UInt8} (h : SpellsWord n bytes) :
      Spelling .sint (int (Bytes.Zigzag.decode n)) bytes
  | uint {n : UInt64} {bytes : List UInt8} (h : SpellsWord n bytes) : Spelling .uint (uint n) bytes
  | bit {n : UInt64} {bytes : List UInt8} (h : SpellsWord n bytes) : Spelling .bit (bit n) bytes
  | double (bits : UInt64) : Spelling .double (double bits) (toLittleEndian 8 bits.toNat)
  | float (bits : UInt32) : Spelling .float (float bits) (toLittleEndian 4 bits.toNat)
  | time {t : Time} {sign : UInt8} {written : List UInt32} {bytes : List UInt8}
      (negative : t.negative = (sign == 1))
      (left : LeavesOutZeros [t.hours, t.minutes, t.seconds, t.micros] written)
      (h : SpellsComponents written bytes) : Spelling .time (time t) (sign :: bytes)
  | datetime {t : DateTime} {date : List UInt8} {written : List UInt32} {bytes : List UInt8}
      (hdate : SpellsComponents [t.year, t.month, t.day] date)
      (left : LeavesOutZeros [t.hour, t.minute, t.second, t.micros] written)
      (hasTime : t.hasTime = true ↔ written ≠ []) (h : SpellsComponents written bytes) :
      Spelling .datetime (datetime t) (date ++ bytes)
  | noItems : Spelling .set (set []) [1]
  | emptyItem : Spelling .set (set [""]) [0]
  | items {items : List String} {bytes : List UInt8} (h : SpellsItems items bytes)
      (long : bytes.length ≠ 1) : Spelling .set (set items) bytes
  | decimal {d : Decimal} {scale : UInt8} {digits : List (Fin 10)} {packed : List UInt8}
      {pad : List Nat} (hscale : d.fraction.length = scale.toNat) (hdigits : d.HasDigits digits)
      (h : nibbles packed = digits.map Fin.val ++ d.sign :: pad) (hpad : pad.length ≤ 1) :
      Spelling .decimal (decimal (String.ofList d.text)) (scale :: packed)

/-- how many numbers bytes spell: each of them has one byte below 128 -/
def countNumbers (bytes : List UInt8) : Nat := bytes.countP (· < 0x80)

/-- Spellings whose end is seen without a look behind it.  The items of a set go on as long as the
field does, and so do the components of a time of day until there are four of them. -/
def ColumnType.EndsItself : ColumnType → List UInt8 → Prop
  | .set, _ => False
  | .time, spelling => countNumbers spelling.tail = 4
  | .datetime, spelling => countNumbers spelling = 7
  | _, _ => True

theorem SpellsComponents.countNumbers_eq {numbers : List UInt32} {bytes : List UInt8}
    (h : SpellsComponents numbers bytes) : countNumbers bytes = numbers.length := by
  induction h with
  | nil => rfl
  | cons h _ ih =>
    obtain ⟨n, hn, -⟩ := h.digits
    rw [countNumbers, List.countP_append, hn.countP_eq_one, List.length_cons, Nat.add_comm]
    exact congrArg (· + 1) ih

theorem spellsItems_nil_iff {bytes : List UInt8} : SpellsItems [] bytes ↔ bytes = [] := by
  constructor
  · intro h
    cases h
    rfl
  · rintro rfl
    exact .nil

theorem spellsItems_cons_iff {item : String} {list : List String} {bytes : List UInt8} :
    SpellsItems (item :: list) bytes ↔ ∃ n front content more, bytes = front ++ (content ++ more) ∧
      SpellsWord n front ∧ content.length = n.toNat ∧ item = Utf8.decodeLossy content ∧
      SpellsItems list more := by
  constructor
  · intro h
    cases h with
    | cons hn hcontent h => exact ⟨_, _, _, _, rfl, hn, hcontent, rfl, h⟩
  · rintro ⟨n, front, content, more, rfl, hn, hcontent, rfl, h⟩
    exact .cons hn hcontent h

/-- Every item takes at least the byte of its length. -/
theorem SpellsItems.length_le {list : List String} {bytes : List UInt8}
    (h : SpellsItems list bytes) : list.length ≤ bytes.length := by
  induction h with
  | nil => exact Nat.le_refl 0
  | cons hn _ _ ih =>
    have hfront := List.length_pos_of_ne_nil hn.ne_nil
    rw [List.length_cons, List.length_append, List.length_append]
    omega

theorem SpellsComponents.eq_nil_iff {numbers : List UInt32} {bytes : List UInt8}
    (h : SpellsComponents numbers bytes) : bytes = [] ↔ numbers = [] := by
  constructor
  · rintro rfl
    exact List.eq_nil_of_length_eq_zero h.countNumbers_eq.symm
  · rintro rfl
    cases h
    rfl

/-! ## Reads -/

namespace FieldReader

variable {α β : Type} {r : FieldReader α} {P : α → List UInt8 → List UInt8 → Prop}

/-- Wherever a read stands, it gives a value just where bytes stand there that are related to the
value and to what is left behind them, and passes them, and only them. -/
def Reads (r : FieldReader α) (P : α → List UInt8 → List UInt8 → Prop) : Prop :=
  ∀ passed left a next, r.run ⟨passed, left⟩ = .ok (a, next) ↔
    ∃ front rest, left = front ++ rest ∧ next = ⟨front.reverse ++ passed, rest⟩ ∧ P a front rest

theorem Reads.congr {Q : α → List UInt8 → List UInt8 → Prop} (h : r.Reads P)
    (hPQ : ∀ a front rest, P a front rest ↔ Q a front rest) : r.Reads Q := by
  intro passed left a next
  simp only [h passed left a next, hPQ]

theorem reads_of {r : Reader α} {P : α → List UInt8 → Prop} (h : Reader.Reads r P) :
    (of r).Reads fun a front _ => P a front := by
  intro passed left a next
  rw [← h passed left a next]
  show of r ⟨passed, left⟩ = _ ↔ _
  unfold of
  rcases (ExceptT.run r).run ⟨passed, left⟩ with ⟨e | a', stop⟩
  · exact iff_of_false (by intro heq; cases heq) (by intro heq; cases heq)
  · constructor <;> intro heq <;> cases heq <;> rfl

theorem reads_pure (a : α) :
    (pure a : FieldReader α).Reads fun b front _ => b = a ∧ front = [] := by
  intro passed left b next
  constructor
  · intro heq
    cases heq
    exact ⟨[], left, rfl, rfl, rfl, rfl⟩
  · rintro ⟨front, rest, rfl, rfl, rfl, rfl⟩
    rfl

theorem refuse_reads (what : Undecodable) :
    (refuse what : FieldReader α).Reads fun _ _ _ => False := by
  intro passed left a next
  refine iff_of_false (by intro heq; cases heq) ?_
  rintro ⟨front, rest, -, -, h⟩
  exact h

theorem Reads.bind {k : α → FieldReader β} {Q : α → β → List UInt8 → List UInt8 → Prop}
    (hr : r.Reads P) (hk : ∀ a, (k a).Reads (Q a)) :
    (r >>= k).Reads fun b bytes rest =>
      ∃ a front more, bytes = front ++ more ∧ P a front (more ++ rest) ∧ Q a b more rest := by
  intro passed left b next
  rw [StateT.run_bind]
  constructor
  · intro heq
    cases hrun : r.run ⟨passed, left⟩ with
    | error e =>
      rw [hrun] at heq
      cases heq
    | ok found =>
      obtain ⟨a, stop⟩ := found
      obtain ⟨front, after, rfl, rfl, ha⟩ := (hr passed left a stop).mp hrun
      rw [hrun] at heq
      obtain ⟨more, rest, rfl, rfl, hb⟩ := (hk a _ _ b next).mp heq
      exact ⟨front ++ more, rest, (List.append_assoc ..).symm,
        by rw [List.reverse_append, List.append_assoc], a, front, more, rfl, ha, hb⟩
  · rintro ⟨bytes, rest, rfl, rfl, a, front, more, rfl, ha, hb⟩
    have hrun := (hr passed (front ++ more ++ rest) a ⟨front.reverse ++ passed, more ++ rest⟩).mpr
      ⟨front, more ++ rest, List.append_assoc .., rfl, ha⟩
    rw [hrun]
    exact (hk a _ _ b _).mpr
      ⟨more, rest, rfl, by rw [List.reverse_append, List.append_assoc], hb⟩

theorem atEnd_reads : atEnd.Reads fun b front rest => front = [] ∧ b = rest.isEmpty := by
  intro passed left b next
  have hend : (left.length == 0) = left.isEmpty := by cases left <;> rfl
  have hrun : atEnd.run ⟨passed, left⟩ = .ok (left.isEmpty, ⟨passed, left⟩) := by
    rw [← hend]
    rfl
  rw [hrun]
  constructor
  · intro heq
    cases heq
    exact ⟨[], left, rfl, rfl, rfl, rfl⟩
  · rintro ⟨front, rest, rfl, rfl, rfl, rfl⟩
    rfl

/-- Where nothing is left a value is known already, and elsewhere something is taken. -/
theorem reads_unlessAtEnd (last : α) (h : r.Reads P)
    (hne : ∀ a front rest, P a front rest → front ≠ []) :
    (do if (← atEnd) then pure last else r).Reads fun a front rest =>
      (a = last ∧ front = [] ∧ rest = []) ∨ P a front rest := by
  have hk (ended : Bool) : (if ended then pure last else r).Reads fun a front rest =>
      if ended then a = last ∧ front = [] else P a front rest := by
    cases ended with
    | true => exact reads_pure last
    | false => exact h
  refine (atEnd_reads.bind hk).congr fun a bytes rest => ?_
  constructor
  · rintro ⟨ended, front, more, rfl, ⟨rfl, rfl⟩, ha⟩
    cases hend : (more ++ rest).isEmpty with
    | true =>
      obtain ⟨rfl, rfl⟩ := List.append_eq_nil_iff.mp (List.isEmpty_iff.mp hend)
      rw [hend, if_pos rfl] at ha
      exact .inl ⟨ha.1, rfl, rfl⟩
    | false =>
      rw [hend, if_neg Bool.false_ne_true] at ha
      exact .inr ha
  · rintro (⟨rfl, rfl, rfl⟩ | ha)
    · exact ⟨true, [], [], rfl, ⟨rfl, rfl⟩, rfl, rfl⟩
    · have hleft := List.append_ne_nil_of_left_ne_nil (hne a bytes rest ha) rest
      exact ⟨false, [], bytes, rfl, ⟨rfl, (List.isEmpty_eq_false_iff.mpr hleft).symm⟩, ha⟩

/-! ## Dates and times -/

theorem component_reads : component.Reads fun n front _ => SpellsWord n.toUInt64 front := by
  have hk (w : UInt64) : (if w.toNat < 2 ^ 32 then pure w.toUInt32 else refuse (.temporal w.toNat) :
      FieldReader UInt32).Reads fun n front _ => w = n.toUInt64 ∧ front = [] := by
    by_cases hw : w.toNat < 2 ^ 32
    · rw [if_pos hw]
      refine (reads_pure w.toUInt32).congr fun n front _ => and_congr_left fun _ => ?_
      constructor
      · rintro rfl
        exact UInt64.toNat_inj.mp (by simp; omega)
      · rintro rfl
        simp
    · rw [if_neg hw]
      refine (refuse_reads _).congr fun n front _ => ⟨False.elim, ?_⟩
      rintro ⟨rfl, -⟩
      exact hw (by rw [UInt32.toNat_toUInt64]; exact n.toNat_lt)
  refine ((reads_of Reader.varint_reads).bind hk).congr fun n bytes rest => ?_
  constructor
  · rintro ⟨w, front, more, rfl, hw, rfl, rfl⟩
    rwa [List.append_nil]
  · intro h
    exact ⟨_, bytes, [], (List.append_nil bytes).symm, h, rfl, rfl⟩

theorem optionalComponent_reads : optionalComponent.Reads fun n front rest =>
    (n = 0 ∧ front = [] ∧ rest = []) ∨ SpellsWord n.toUInt64 front :=
  reads_unlessAtEnd 0 component_reads fun _ _ _ h => h.ne_nil

/-- Numbers are spelled of which zeros at the end may be left out, and something follows only if
none of them is. -/
def SpellsLeading (all : List UInt32) (bytes rest : List UInt8) : Prop :=
  ∃ written, LeavesOutZeros all written ∧ SpellsComponents written bytes ∧
    (rest = [] ∨ written.length = all.length)

theorem spellsLeading_nil_iff {bytes rest : List UInt8} :
    SpellsLeading [] bytes rest ↔ bytes = [] := by
  constructor
  · rintro ⟨written, hzeros, h, -⟩
    rw [eq_nil_of_leavesOutZeros hzeros] at h
    cases h
    rfl
  · rintro rfl
    exact ⟨[], ⟨0, rfl⟩, .nil, .inr rfl⟩

/-- The first number is spelled, or the bytes end before it and it is zero. -/
theorem spellsLeading_cons_iff {n : UInt32} {all : List UInt32} {bytes rest : List UInt8} :
    SpellsLeading (n :: all) bytes rest ↔ ∃ front more, bytes = front ++ more ∧
      ((n = 0 ∧ front = [] ∧ more ++ rest = []) ∨ SpellsWord n.toUInt64 front) ∧
      SpellsLeading all more rest := by
  constructor
  · rintro ⟨written, ⟨zeros, hall⟩, h, hrest⟩
    cases h with
    | nil =>
      cases zeros with
      | zero => cases hall
      | succ zeros =>
        obtain ⟨rfl, rfl⟩ := List.cons.inj hall
        obtain rfl : rest = [] := hrest.resolve_right (by simp)
        exact ⟨[], [], rfl, .inl ⟨rfl, rfl, rfl⟩, [], ⟨zeros, rfl⟩, .nil, .inl rfl⟩
    | cons hn h =>
      obtain ⟨rfl, rfl⟩ := List.cons.inj hall
      exact ⟨_, _, rfl, .inr hn, _, ⟨zeros, rfl⟩, h, hrest.imp_right Nat.succ.inj⟩
  · rintro ⟨front, more, rfl, ⟨rfl, rfl, hend⟩ | hn, written, ⟨zeros, rfl⟩, h, hrest⟩
    · obtain ⟨rfl, rfl⟩ := List.append_eq_nil_iff.mp hend
      obtain rfl := h.eq_nil_iff.mp rfl
      exact ⟨[], ⟨zeros + 1, rfl⟩, .nil, .inl rfl⟩
    · exact ⟨_ :: written, ⟨zeros, rfl⟩, .cons hn h, hrest.imp_right (congrArg Nat.succ)⟩

/-- A component that may be left out is the first of the numbers, and what is read after it takes
the others. -/
theorem reads_optional {k : UInt32 → FieldReader β} {R : List UInt32 → β → Prop}
    (hnil : ∀ b, ¬R [] b)
    (hk : ∀ n, (k n).Reads fun b bytes rest =>
      ∃ all, SpellsLeading all bytes rest ∧ R (n :: all) b) :
    (optionalComponent >>= k).Reads fun b bytes rest =>
      ∃ all, SpellsLeading all bytes rest ∧ R all b := by
  refine (optionalComponent_reads.bind hk).congr fun b bytes rest => ?_
  constructor
  · rintro ⟨n, front, more, hbytes, hn, all, h, hR⟩
    exact ⟨n :: all, spellsLeading_cons_iff.mpr ⟨front, more, hbytes, hn, h⟩, hR⟩
  · rintro ⟨all, h, hR⟩
    cases all with
    | nil => exact absurd hR (hnil b)
    | cons n all =>
      obtain ⟨front, more, hbytes, hn, h⟩ := spellsLeading_cons_iff.mp h
      exact ⟨n, front, more, hbytes, hn, all, h, hR⟩

/-- Behind the last component there is nothing to read. -/
theorem reads_noComponents {R : List UInt32 → β → Prop} {b : β}
    (hR : ∀ all b', R all b' ↔ all = [] ∧ b' = b) :
    (pure b : FieldReader β).Reads fun b' bytes rest =>
      ∃ all, SpellsLeading all bytes rest ∧ R all b' := by
  refine (reads_pure b).congr fun b' bytes rest => ?_
  simp only [hR]
  constructor
  · rintro ⟨rfl, rfl⟩
    exact ⟨[], spellsLeading_nil_iff.mpr rfl, rfl, rfl⟩
  · rintro ⟨all, h, rfl, rfl⟩
    exact ⟨rfl, spellsLeading_nil_iff.mp h⟩

theorem time_reads : time.Reads fun t bytes rest => ∃ sign more, bytes = sign :: more ∧
    t.negative = (sign == 1) ∧
    SpellsLeading [t.hours, t.minutes, t.seconds, t.micros] more rest := by
  have hk (sign : UInt8) : (do
      let hours ← optionalComponent
      let minutes ← optionalComponent
      let seconds ← optionalComponent
      let micros ← optionalComponent
      pure ⟨sign == 1, hours, minutes, seconds, micros⟩ : FieldReader Time).Reads
      fun t bytes rest => ∃ all, SpellsLeading all bytes rest ∧
        (all = [t.hours, t.minutes, t.seconds, t.micros] ∧ t.negative = (sign == 1)) := by
    refine reads_optional (by simp) fun hours => ?_
    refine reads_optional (by simp) fun minutes => ?_
    refine reads_optional (by simp) fun seconds => ?_
    refine reads_optional (by simp) fun micros => ?_
    refine reads_noComponents fun all t => ?_
    obtain ⟨negative, hours', minutes', seconds', micros'⟩ := t
    simp only [List.cons.injEq, Time.mk.injEq]
    grind
  refine ((reads_of Reader.byte_reads).bind hk).congr fun t bytes rest => ?_
  constructor
  · rintro ⟨sign, front, more, rfl, rfl, all, h, rfl, hsign⟩
    exact ⟨sign, more, rfl, hsign, h⟩
  · rintro ⟨sign, more, rfl, hsign, h⟩
    exact ⟨sign, [sign], more, rfl, rfl, _, h, rfl, hsign⟩

theorem datetime_reads : datetime.Reads fun t bytes rest => ∃ date more, bytes = date ++ more ∧
    SpellsComponents [t.year, t.month, t.day] date ∧ (t.hasTime = true ↔ more ++ rest ≠ []) ∧
    SpellsLeading [t.hour, t.minute, t.second, t.micros] more rest := by
  have hclock (year month day : UInt32) (ended : Bool) : (do
      let hour ← optionalComponent
      let minute ← optionalComponent
      let second ← optionalComponent
      let micros ← optionalComponent
      pure ⟨year, month, day, hour, minute, second, micros, !ended⟩ : FieldReader DateTime).Reads
      fun t bytes rest => ∃ all, SpellsLeading all bytes rest ∧
        (all = [t.hour, t.minute, t.second, t.micros] ∧
          t.year = year ∧ t.month = month ∧ t.day = day ∧ t.hasTime = !ended) := by
    refine reads_optional (by simp) fun hour => ?_
    refine reads_optional (by simp) fun minute => ?_
    refine reads_optional (by simp) fun second => ?_
    refine reads_optional (by simp) fun micros => ?_
    refine reads_noComponents fun all t => ?_
    obtain ⟨year', month', day', hour', minute', second', micros', hasTime⟩ := t
    simp only [List.cons.injEq, DateTime.mk.injEq]
    grind
  have hk := component_reads.bind fun year => component_reads.bind fun month =>
    component_reads.bind fun day => atEnd_reads.bind fun ended => hclock year month day ended
  refine hk.congr fun t bytes rest => ?_
  constructor
  · rintro ⟨year, front, _, rfl, hyear, month, front', _, rfl, hmonth, day, front'', _, rfl, hday,
      ended, _, more, rfl, ⟨rfl, rfl⟩, all, h, rfl, rfl, rfl, rfl, hasTime⟩
    refine ⟨front ++ (front' ++ (front'' ++ [])), more, by simp,
      .cons hyear (.cons hmonth (.cons hday .nil)), ?_, h⟩
    rw [hasTime]
    simp
  · rintro ⟨date, more, rfl, hdate, hasTime, h⟩
    obtain - | ⟨hyear, hdate⟩ := hdate
    obtain - | ⟨hmonth, hdate⟩ := hdate
    obtain - | ⟨hday, hdate⟩ := hdate
    obtain - | - := hdate
    refine ⟨_, _, _, by simp, hyear, _, _, _, rfl, hmonth, _, _, _, rfl, hday,
      _, [], more, rfl, ⟨rfl, rfl⟩, _, h, rfl, rfl, rfl, rfl, ?_⟩
    rw [Bool.eq_iff_iff, hasTime]
    simp

/-! ## Sets -/

/-- Items are read until nothing is left, or there are as many as can be. -/
theorem items_reads (bound : Nat) : (items bound).Reads fun list bytes rest =>
    SpellsItems list bytes ∧ list.length ≤ bound ∧ (rest = [] ∨ list.length = bound) := by
  induction bound with
  | zero =>
    refine (reads_pure []).congr fun list bytes rest => ?_
    constructor
    · rintro ⟨rfl, rfl⟩
      exact ⟨.nil, Nat.le_refl 0, .inr rfl⟩
    · rintro ⟨h, hlength, -⟩
      obtain rfl := List.eq_nil_of_length_eq_zero (Nat.le_zero.mp hlength)
      exact ⟨rfl, spellsItems_nil_iff.mp h⟩
  | succ bound ih =>
    have hmore := (reads_of Reader.varint_reads).bind fun n =>
      (reads_of (Reader.slice_reads n.toNat)).bind fun content =>
        ih.bind fun list => reads_pure (Utf8.decodeLossy content :: list)
    refine (reads_unlessAtEnd [] hmore ?_).congr fun list bytes rest => ?_
    · rintro list bytes rest ⟨n, front, more, rfl, hn, -⟩
      exact List.append_ne_nil_of_left_ne_nil hn.ne_nil more
    constructor
    · rintro (⟨rfl, rfl, rfl⟩ | ⟨n, front, _, rfl, hn, content, _, _, rfl, ⟨rfl, hcontent⟩, list,
        bytes, _, rfl, ⟨h, hlength, hrest⟩, rfl, rfl⟩)
      · exact ⟨.nil, Nat.zero_le _, .inl rfl⟩
      · exact ⟨spellsItems_cons_iff.mpr ⟨n, front, _, bytes, by simp, hn, hcontent, rfl, h⟩,
          Nat.succ_le_succ hlength, hrest.imp_right (congrArg (· + 1))⟩
    · rintro ⟨h, hlength, hrest⟩
      cases list with
      | nil => exact .inl ⟨rfl, spellsItems_nil_iff.mp h, hrest.resolve_right (by simp)⟩
      | cons item list =>
        obtain ⟨n, front, content, more, rfl, hn, hcontent, rfl, hlist⟩ :=
          spellsItems_cons_iff.mp h
        exact .inr ⟨n, front, _, rfl, hn, content, content, more, rfl, ⟨rfl, hcontent⟩, list, more,
          [], (List.append_nil more).symm,
          ⟨hlist, Nat.le_of_succ_le_succ hlength, hrest.imp_right Nat.succ.inj⟩, rfl, rfl⟩

/-- the set of a single byte -/
theorem byteSet_reads : (of Reader.byte >>= fun b => if b = 1 then pure [] else
    if b = 0 then pure [""] else refuse (.set b) : FieldReader (List String)).Reads
    fun list bytes _ => (list = [] ∧ bytes = [1]) ∨ (list = [""] ∧ bytes = [0]) := by
  have hk (b : UInt8) : (if b = 1 then pure [] else if b = 0 then pure [""] else refuse (.set b) :
      FieldReader (List String)).Reads fun list bytes _ =>
        ((list = [] ∧ b = 1) ∨ (list = [""] ∧ b = 0)) ∧ bytes = [] := by
    by_cases hone : b = 1
    · subst hone
      exact (reads_pure []).congr fun list bytes _ => by simp
    · rw [if_neg hone]
      by_cases hzero : b = 0
      · subst hzero
        exact (reads_pure [""]).congr fun list bytes _ => by simp
      · rw [if_neg hzero]
        exact (refuse_reads _).congr fun list bytes _ => by simp [hone, hzero]
  refine ((reads_of Reader.byte_reads).bind hk).congr fun list bytes _ => ?_
  constructor
  · rintro ⟨b, front, more, rfl, rfl, ⟨rfl, rfl⟩ | ⟨rfl, rfl⟩, rfl⟩
    · exact .inl ⟨rfl, rfl⟩
    · exact .inr ⟨rfl, rfl⟩
  · rintro (⟨rfl, rfl⟩ | ⟨rfl, rfl⟩)
    · exact ⟨1, [1], [], rfl, rfl, .inl ⟨rfl, rfl⟩, rfl⟩
    · exact ⟨0, [0], [], rfl, rfl, .inr ⟨rfl, rfl⟩, rfl⟩

theorem run_set (passed left : List UInt8) :
    set.run ⟨passed, left⟩ = if left.length = 1 then
      (of Reader.byte >>= fun b => if b = 1 then pure [] else if b = 0 then pure [""]
        else refuse (.set b)).run ⟨passed, left⟩
      else (items left.length).run ⟨passed, left⟩ := by
  unfold set
  rw [StateT.run_bind, StateT.run_get]
  show StateT.run (ite (left.length = 1) _ _) _ = _
  split <;> rfl

/-- A set takes all there is. -/
theorem set_reads : set.Reads fun list bytes rest =>
    rest = [] ∧ Value.Spelling .set (.set list) bytes := by
  intro passed left list next
  rw [run_set]
  by_cases hone : left.length = 1
  · rw [if_pos hone, byteSet_reads passed left list next]
    constructor
    · rintro ⟨bytes, rest, rfl, rfl, h⟩
      obtain rfl : rest = [] := by
        rw [List.length_append] at hone
        refine List.eq_nil_of_length_eq_zero ?_
        rcases h with ⟨-, rfl⟩ | ⟨-, rfl⟩ <;> exact Nat.succ.inj ((Nat.add_comm ..).trans hone)
      rcases h with ⟨rfl, rfl⟩ | ⟨rfl, rfl⟩
      · exact ⟨[1], [], rfl, rfl, rfl, .noItems⟩
      · exact ⟨[0], [], rfl, rfl, rfl, .emptyItem⟩
    · rintro ⟨bytes, rest, rfl, rfl, rfl, h⟩
      rw [List.append_nil] at hone ⊢
      cases h with
      | noItems => exact ⟨[1], [], rfl, rfl, .inl ⟨rfl, rfl⟩⟩
      | emptyItem => exact ⟨[0], [], rfl, rfl, .inr ⟨rfl, rfl⟩⟩
      | items _ long => exact absurd hone long
  · rw [if_neg hone, items_reads left.length passed left list next]
    constructor
    · rintro ⟨bytes, rest, rfl, rfl, h, -, hrest⟩
      -- as many items as there are bytes have taken all of them
      have hlength := h.length_le
      obtain rfl : rest = [] := by
        refine hrest.elim id fun hall => ?_
        rw [List.length_append] at hall
        exact List.eq_nil_of_length_eq_zero (by omega)
      rw [List.append_nil] at hone
      exact ⟨bytes, [], rfl, rfl, rfl, .items h hone⟩
    · rintro ⟨bytes, rest, rfl, rfl, rfl, h⟩
      rw [List.append_nil] at hone ⊢
      cases h with
      | noItems => exact absurd rfl hone
      | emptyItem => exact absurd rfl hone
      | items h _ => exact ⟨bytes, [], (List.append_nil bytes).symm, rfl, h, h.length_le, .inl rfl⟩

end FieldReader

/-! ## Decimal numbers -/

/-- Digits are read off half bytes just where they stand before a sign. -/
theorem signedDigits_eq_ok_iff {halves : List Nat} {chars : List Char} {negative : Bool} :
    signedDigits halves = .ok (chars, negative) ↔ ∃ (digits : List (Fin 10)) (rest : List Nat),
      halves = digits.map Fin.val ++ signHalf negative :: rest ∧ chars = digits.map digitChar := by
  constructor
  · intro h
    induction halves generalizing chars with
    | nil => cases h
    | cons n halves ih =>
      rw [signedDigits] at h
      split at h
      · rename_i hdigit
        cases hrest : signedDigits halves with
        | error what =>
          rw [hrest] at h
          cases h
        | ok found =>
          rw [hrest] at h
          cases h
          obtain ⟨digits, rest, rfl, hchars⟩ := ih hrest
          exact ⟨⟨n, hdigit⟩ :: digits, rest, rfl, by rw [hchars]; rfl⟩
      · split at h
        · rename_i hplus
          cases h
          exact ⟨[], halves, by rw [hplus]; rfl, rfl⟩
        · split at h
          · rename_i hminus
            cases h
            exact ⟨[], halves, by rw [hminus]; rfl, rfl⟩
          · cases h
  · rintro ⟨digits, rest, rfl, rfl⟩
    obtain ⟨d, rfl, -⟩ := Decimal.exists_hasDigits negative digits 0
    exact signedDigits_eq digits d rest

theorem nibbles_append (a b : List UInt8) : nibbles (a ++ b) = nibbles a ++ nibbles b :=
  List.flatMap_append

theorem length_nibbles (bytes : List UInt8) : (nibbles bytes).length = 2 * bytes.length := by
  induction bytes with
  | nil => rfl
  | cons b bytes ih =>
    show (nibbles bytes).length + 2 = _
    rw [ih, List.length_cons]
    omega

theorem nibbles_take (count : Nat) {bytes : List UInt8} (h : count ≤ bytes.length) :
    nibbles (bytes.take count) = (nibbles bytes).take (2 * count) := by
  have hlength : (nibbles (bytes.take count)).length = 2 * count := by
    rw [length_nibbles, List.length_take_of_le h]
  have hall := nibbles_append (bytes.take count) (bytes.drop count)
  rw [List.take_append_drop] at hall
  rw [hall, List.take_left' hlength]

/-- The bytes up to the one that a half byte is in end with it, or half a byte behind it. -/
theorem exists_nibbles_eq {bytes : List UInt8} {halves rest : List Nat} {n : Nat}
    (h : nibbles bytes = halves ++ n :: rest) :
    ∃ front more pad, bytes = front ++ more ∧ nibbles front = halves ++ n :: pad ∧
      pad.length ≤ 1 := by
  -- half a byte is left over where an even number of half bytes stands before this one
  obtain ⟨count, spare, hspare, hcount⟩ :
      ∃ count spare, spare ≤ 1 ∧ 2 * count = halves.length + (spare + 1) :=
    ⟨(halves.length + 2) / 2, 1 - halves.length % 2, by omega, by omega⟩
  have hlength := congrArg List.length h
  rw [length_nibbles, List.length_append, List.length_cons] at hlength
  refine ⟨bytes.take count, bytes.drop count, rest.take spare,
    (List.take_append_drop count bytes).symm, ?_, ?_⟩
  · rw [nibbles_take count (by omega), h, hcount, List.take_length_add_append, List.take_succ_cons]
  · rw [List.length_take]
    omega

/-! ## Fields -/

namespace Value

open FieldReader (Reads reads_of)

theorem read_eq_ok_iff {α : Type} {make : α → Value} {r : FieldReader α}
    {P : α → List UInt8 → List UInt8 → Prop} (h : r.Reads P) {field : List UInt8} {v : Value} :
    ((StateT.run r (Cursor.ofList field)).map fun (x, _) => make x) = .ok v ↔
      ∃ front rest, field = front ++ rest ∧ ∃ a, P a front rest ∧ v = make a := by
  constructor
  · intro heq
    cases hrun : r.run ⟨[], field⟩ with
    | error e =>
      have hfail : StateT.run r (Cursor.ofList field) = .error e := hrun
      rw [hfail] at heq
      cases heq
    | ok found =>
      obtain ⟨a, next⟩ := found
      have hok : StateT.run r (Cursor.ofList field) = .ok (a, next) := hrun
      rw [hok] at heq
      cases heq
      obtain ⟨front, rest, rfl, -, ha⟩ := (h [] field a next).mp hrun
      exact ⟨front, rest, rfl, a, ha, rfl⟩
  · rintro ⟨front, rest, rfl, a, ha, rfl⟩
    have hok : StateT.run r (Cursor.ofList (front ++ rest)) = _ :=
      (h [] _ a _).mpr ⟨front, rest, rfl, rfl, ha⟩
    rw [hok]
    rfl

/-- What is read of a field decides it all, as soon as it is known to be a spelling. -/
theorem read_eq_ok_iff_spelling {α : Type} {make : α → Value} {r : FieldReader α}
    {P : α → List UInt8 → List UInt8 → Prop} {type : ColumnType} (h : r.Reads P)
    (hP : ∀ v front rest, (∃ a, P a front rest ∧ v = make a) ↔
      Spelling type v front ∧ (rest = [] ∨ type.EndsItself front))
    {field : List UInt8} {v : Value} :
    ((StateT.run r (Cursor.ofList field)).map fun (x, _) => make x) = .ok v ↔
      ∃ front rest, field = front ++ rest ∧ Spelling type v front ∧
        (rest = [] ∨ type.EndsItself front) := by
  simp only [read_eq_ok_iff h, hP]

/-- Where the spellings of a layout end by themselves, a read of the next bytes is all there is. -/
theorem read_eq_ok_iff_endsItself (type : ColumnType) {α : Type} {make : α → Value} {r : Reader α}
    {P : α → List UInt8 → Prop} (h : Reader.Reads r P)
    (hends : ∀ front, type.EndsItself front)
    (hP : ∀ v front, (∃ a, P a front ∧ v = make a) ↔ Spelling type v front)
    {field : List UInt8} {v : Value} :
    ((StateT.run (FieldReader.of r) (Cursor.ofList field)).map fun (x, _) => make x) = .ok v ↔
      ∃ front rest, field = front ++ rest ∧ Spelling type v front ∧
        (rest = [] ∨ type.EndsItself front) := by
  refine read_eq_ok_iff_spelling (reads_of h) fun v front rest => ?_
  rw [hP, and_iff_left (.inr (hends front))]

section
variable {v : Value} {front rest : List UInt8}

theorem sint_spelling_iff : (∃ i, (∃ n, SpellsWord n front ∧ i = Bytes.Zigzag.decode n) ∧
    v = int i) ↔ Spelling .sint v front := by
  constructor
  · rintro ⟨i, ⟨n, h, rfl⟩, rfl⟩
    exact .sint h
  · intro h
    cases h with
    | sint h => exact ⟨_, ⟨_, h, rfl⟩, rfl⟩

theorem uint_spelling_iff :
    (∃ n, SpellsWord n front ∧ v = uint n) ↔ Spelling .uint v front := by
  constructor
  · rintro ⟨n, h, rfl⟩
    exact .uint h
  · intro h
    cases h with
    | uint h => exact ⟨_, h, rfl⟩

theorem bit_spelling_iff : (∃ n, SpellsWord n front ∧ v = bit n) ↔ Spelling .bit v front := by
  constructor
  · rintro ⟨n, h, rfl⟩
    exact .bit h
  · intro h
    cases h with
    | bit h => exact ⟨_, h, rfl⟩

theorem double_spelling_iff : (∃ bits : UInt64, front = toLittleEndian 8 bits.toNat ∧
    v = double bits) ↔ Spelling .double v front := by
  constructor
  · rintro ⟨bits, rfl, rfl⟩
    exact .double bits
  · intro h
    cases h with
    | double bits => exact ⟨bits, rfl, rfl⟩

theorem float_spelling_iff : (∃ bits : UInt32, front = toLittleEndian 4 bits.toNat ∧
    v = float bits) ↔ Spelling .float v front := by
  constructor
  · rintro ⟨bits, rfl, rfl⟩
    exact .float bits
  · intro h
    cases h with
    | float bits => exact ⟨bits, rfl, rfl⟩

theorem set_spelling_iff : (∃ list, (rest = [] ∧ Spelling .set (set list) front) ∧
    v = set list) ↔ Spelling .set v front ∧ (rest = [] ∨ ColumnType.set.EndsItself front) := by
  rw [show ColumnType.set.EndsItself front ↔ False from Iff.rfl, or_false]
  constructor
  · rintro ⟨list, ⟨rfl, h⟩, rfl⟩
    exact ⟨h, rfl⟩
  · rintro ⟨h, rfl⟩
    cases h with
    | noItems => exact ⟨[], ⟨rfl, .noItems⟩, rfl⟩
    | emptyItem => exact ⟨[""], ⟨rfl, .emptyItem⟩, rfl⟩
    | items h long => exact ⟨_, ⟨rfl, .items h long⟩, rfl⟩

theorem time_spelling_iff :
    (∃ t : Time, (∃ sign more, front = sign :: more ∧ t.negative = (sign == 1) ∧
      FieldReader.SpellsLeading [t.hours, t.minutes, t.seconds, t.micros] more rest) ∧
        v = time t) ↔
    Spelling .time v front ∧ (rest = [] ∨ ColumnType.time.EndsItself front) := by
  constructor
  · rintro ⟨t, ⟨sign, more, rfl, hsign, written, hzeros, h, hrest⟩, rfl⟩
    refine ⟨.time hsign hzeros h, hrest.imp_right fun hlength => ?_⟩
    show countNumbers more = 4
    rw [h.countNumbers_eq, hlength]
    rfl
  · rintro ⟨h, hrest⟩
    cases h with
    | time hsign hzeros h =>
      refine ⟨_, ⟨_, _, rfl, hsign, _, hzeros, h, hrest.imp_right fun hcount => ?_⟩, rfl⟩
      rw [← h.countNumbers_eq]
      exact hcount

theorem datetime_spelling_iff :
    (∃ t : DateTime, (∃ date more, front = date ++ more ∧
      SpellsComponents [t.year, t.month, t.day] date ∧ (t.hasTime = true ↔ more ++ rest ≠ []) ∧
      FieldReader.SpellsLeading [t.hour, t.minute, t.second, t.micros] more rest) ∧
        v = datetime t) ↔
    Spelling .datetime v front ∧ (rest = [] ∨ ColumnType.datetime.EndsItself front) := by
  have hmore {written : List UInt32} {more : List UInt8} (h : SpellsComponents written more)
      (hrest : rest = [] ∨ written.length = 4) : more ++ rest ≠ [] ↔ written ≠ [] := by
    refine not_congr (List.append_eq_nil_iff.trans ?_)
    rw [h.eq_nil_iff]
    refine and_iff_left_of_imp fun hwritten => hrest.resolve_right ?_
    simp [hwritten]
  have hcount {numbers written : List UInt32} {date more : List UInt8}
      (hdate : SpellsComponents numbers date) (h : SpellsComponents written more) :
      countNumbers (date ++ more) = numbers.length + written.length := by
    rw [countNumbers, List.countP_append]
    exact congrArg₂ (· + ·) hdate.countNumbers_eq h.countNumbers_eq
  constructor
  · rintro ⟨t, ⟨date, more, rfl, hdate, hasTime, written, hzeros, h, hrest⟩, rfl⟩
    refine ⟨.datetime hdate hzeros (hasTime.trans (hmore h hrest)) h,
      hrest.imp_right fun hlength => ?_⟩
    exact (hcount hdate h).trans (by rw [hlength]; rfl)
  · rintro ⟨h, hrest⟩
    cases h with
    | datetime hdate hzeros hasTime h =>
      have hrest := hrest.imp_right fun hends : countNumbers _ = 3 + 4 =>
        Nat.add_left_cancel ((hcount hdate h).symm.trans hends)
      exact ⟨_, ⟨_, _, rfl, hdate, hasTime.trans (hmore h hrest).symm, _, hzeros, h, hrest⟩, rfl⟩

end

theorem decode_decimal_eq_ok_iff {column : Column} (type : column.type = .decimal) {v : Value}
    {field : List UInt8} (hfield : field ≠ []) : decode column field = .ok v ↔
      ∃ front rest, field = front ++ rest ∧ Spelling .decimal v front := by
  obtain ⟨scale, packed, rfl⟩ := List.exists_cons_of_ne_nil hfield
  rw [decode_decimal type]
  constructor
  · intro heq
    cases hsigned : signedDigits (nibbles packed) with
    | error what =>
      rw [hsigned] at heq
      cases heq
    | ok found =>
      rw [hsigned] at heq
      cases heq
      obtain ⟨chars, negative⟩ := found
      obtain ⟨digits, _, hhalves, rfl⟩ := signedDigits_eq_ok_iff.mp hsigned
      obtain ⟨front, rest, pad, rfl, hfront, hpad⟩ := exists_nibbles_eq hhalves
      obtain ⟨d, rfl, hscale, hdigits⟩ := Decimal.exists_hasDigits negative digits scale.toNat
      refine ⟨scale :: front, rest, rfl, ?_⟩
      dsimp only
      rw [← hscale, decimalText_eq d hdigits]
      exact .decimal hscale hdigits hfront hpad
  · rintro ⟨front, rest, hsplit, h⟩
    cases h with
    | @decimal d _ digits packed' pad hscale hdigits hfront hpad =>
      obtain ⟨rfl, rfl⟩ : scale = _ ∧ packed = packed' ++ rest := List.cons.inj hsplit
      have hsigned := signedDigits_eq digits d (pad ++ nibbles rest)
      rw [nibbles_append, hfront, List.append_assoc, List.cons_append, hsigned]
      dsimp only
      rw [← hscale, decimalText_eq d hdigits]

/-- **What is read of a field, and what is not.**  A field is read as a value just where it is a
spelling of the value, or starts with one that ends by itself.  What stands behind such a spelling
is not looked at: the items of a set go on to the end of the field, and so does a time of day that
has fewer than its four components, but behind any other value anything may stand. -/
theorem decode_eq_ok_iff_spelling {column : Column} {field : List UInt8} (hfield : field ≠ [])
    (hbytes : column.type ≠ .bytes) (henum : column.type ≠ .enum) (v : Value) :
    decode column field = .ok v ↔ ∃ front rest, field = front ++ rest ∧
      Spelling column.type v front ∧ (rest = [] ∨ column.type.EndsItself front) := by
  have hnull : ¬field.isEmpty = true := by simpa using hfield
  cases htype : column.type with
  | bytes => exact absurd htype hbytes
  | enum => exact absurd htype henum
  | decimal =>
    rw [decode_decimal_eq_ok_iff htype hfield]
    simp only [ColumnType.EndsItself, or_true, and_true]
  | sint =>
    unfold decode
    rw [if_neg hnull, htype]
    exact read_eq_ok_iff_endsItself .sint Reader.zigzag_reads (fun _ => trivial)
      fun _ _ => sint_spelling_iff
  | uint =>
    unfold decode
    rw [if_neg hnull, htype]
    exact read_eq_ok_iff_endsItself .uint Reader.varint_reads (fun _ => trivial)
      fun _ _ => uint_spelling_iff
  | bit =>
    unfold decode
    rw [if_neg hnull, htype]
    exact read_eq_ok_iff_endsItself .bit Reader.varint_reads (fun _ => trivial)
      fun _ _ => bit_spelling_iff
  | double =>
    unfold decode
    rw [if_neg hnull, htype]
    exact read_eq_ok_iff_endsItself .double Reader.word64_reads (fun _ => trivial)
      fun _ _ => double_spelling_iff
  | float =>
    unfold decode
    rw [if_neg hnull, htype]
    exact read_eq_ok_iff_endsItself .float Reader.word32_reads (fun _ => trivial)
      fun _ _ => float_spelling_iff
  | set =>
    unfold decode
    rw [if_neg hnull, htype]
    exact read_eq_ok_iff_spelling FieldReader.set_reads fun _ _ _ => set_spelling_iff
  | time =>
    unfold decode
    rw [if_neg hnull, htype]
    exact read_eq_ok_iff_spelling FieldReader.time_reads fun _ _ _ => time_spelling_iff
  | datetime =>
    unfold decode
    rw [if_neg hnull, htype]
    exact read_eq_ok_iff_spelling FieldReader.datetime_reads fun _ _ _ => datetime_spelling_iff

/-- All four components of a time are there, and a byte behind them. -/
theorem decode_eq_ok_iff_spelling_fullTime :
    decode { type := .time } [0, 1, 2, 3, 4, 99] = .ok (time ⟨false, 1, 2, 3, 4⟩) ∧
    ∃ front rest, [0, 1, 2, 3, 4, 99] = front ++ rest ∧
      Spelling .time (time ⟨false, 1, 2, 3, 4⟩) front ∧
      (rest = [] ∨ ColumnType.time.EndsItself front) :=
  ⟨rfl, (@decode_eq_ok_iff_spelling { type := .time } [0, 1, 2, 3, 4, 99] (by decide) (by decide)
    (by decide) (time ⟨false, 1, 2, 3, 4⟩)).mp rfl⟩

/-- A number is read though the whole field is no spelling of any number. -/
theorem decode_sint_of_longer :
    decode { type := .sint } [2, 0] = .ok (int 1) ∧ ∀ v, ¬Spelling .sint v [2, 0] := by
  refine ⟨rfl, fun v h => ?_⟩
  cases h with
  | sint h =>
    obtain ⟨n, hn, -⟩ := h.digits
    exact absurd ((Bytes.Base128.cons_iff_of_lt (by decide)).mp hn).2 (List.cons_ne_nil _ _)

end Value

end DocWire
