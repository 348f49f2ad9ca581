import DocWire.Proofs.Bytes.Numerals

/-!
# Spellings of words

A word can be spelled with more digits in base 128 than it needs.  What a read takes of the bytes
before it is just such a spelling, and where none stands it fails.

* `Base128`, `SpellsWord`       digits, and the word that they spell;
* `Reader.Reads`                a read gives a value just where bytes stand that are related to it;
* `Reader.varint_reads`         numbers of a varying width;
* `Reader.zigzag_reads`, `Reader.word32_reads`, `Reader.word64_reads`, …   the other reads.
-/

namespace DocWire.Bytes

/-- The number of digits in base 128, the first one having the least weight.  The last byte, and
only it, is below 128. -/
inductive Base128 : Nat → List UInt8 → Prop
  | last {b : UInt8} (h : b < 0x80) : Base128 b.toNat [b]
  | more {b : UInt8} {n : Nat} {rest : List UInt8} (h : ¬b < 0x80) (hrest : Base128 n rest) :
      Base128 (b.toNat % 128 + 128 * n) (b :: rest)

/-- Bytes spell a word: they are at most ten digits, of whose number the low 64 bits count. -/
structure SpellsWord (w : UInt64) (bytes : List UInt8) : Prop where
  short : bytes.length ≤ 10
  digits : ∃ n, Base128 n bytes ∧ w = UInt64.ofNat n

namespace Base128

variable {n : Nat} {b : UInt8} {bytes : List UInt8}

theorem ne_nil (h : Base128 n bytes) : bytes ≠ [] := by
  cases h <;> exact List.cons_ne_nil _ _

/-- Digits in front of other bytes start with the first byte. -/
theorem exists_cons {left rest : List UInt8} (h : Base128 n bytes)
    (hleft : b :: left = bytes ++ rest) : ∃ more, bytes = b :: more ∧ left = more ++ rest := by
  cases bytes with
  | nil => exact absurd rfl h.ne_nil
  | cons c bytes =>
    obtain ⟨rfl, rfl⟩ := List.cons.inj hleft
    exact ⟨bytes, rfl, rfl⟩

theorem cons_iff_of_lt (hb : b < 0x80) : Base128 n (b :: bytes) ↔ n = b.toNat ∧ bytes = [] := by
  constructor
  · intro h
    cases h with
    | last _ => exact ⟨rfl, rfl⟩
    | more hb' _ => exact absurd hb hb'
  · rintro ⟨rfl, rfl⟩
    exact .last hb

theorem cons_iff_of_not_lt (hb : ¬b < 0x80) :
    Base128 n (b :: bytes) ↔ ∃ m, n = b.toNat % 128 + 128 * m ∧ Base128 m bytes := by
  constructor
  · intro h
    cases h with
    | last hb' => exact absurd hb' hb
    | more _ hrest => exact ⟨_, rfl, hrest⟩
  · rintro ⟨m, rfl, hrest⟩
    exact .more hb hrest

/-- Every number has one byte below 128. -/
theorem countP_eq_one (h : Base128 n bytes) : bytes.countP (· < 0x80) = 1 := by
  induction h with
  | last hb => simp [hb]
  | more hb _ ih => rw [List.countP_cons_of_neg (by simpa using hb), ih]

end Base128

theorem SpellsWord.ne_nil {w : UInt64} {bytes : List UInt8} (h : SpellsWord w bytes) :
    bytes ≠ [] :=
  h.digits.elim fun _ hn => hn.1.ne_nil

/-! ## Reads -/

namespace Reader

/-- Wherever a read stands, it gives a value just where bytes stand there that are related to the
value, and passes them, and only them. -/
def Reads {α : Type} (r : Reader α) (P : α → List UInt8 → Prop) : Prop :=
  ∀ passed left a next, (ExceptT.run r).run ⟨passed, left⟩ = (.ok a, next) ↔
    ∃ front rest, left = front ++ rest ∧ next = ⟨front.reverse ++ passed, rest⟩ ∧ P a front

theorem Reads.map {α β : Type} {r : Reader α} {P : α → List UInt8 → Prop} (h : r.Reads P)
    (f : α → β) : (r >>= fun a => pure (f a)).Reads fun b front => ∃ a, P a front ∧ b = f a := by
  intro passed left b next
  rw [ExceptT.run_bind, StateT.run_bind]
  cases hr : (ExceptT.run r).run ⟨passed, left⟩ with
  | mk answer stop =>
    cases answer with
    | error e =>
      refine iff_of_false (by intro heq; cases heq) ?_
      rintro ⟨front, rest, hleft, -, a, ha, -⟩
      have hok := (h passed left a ⟨front.reverse ++ passed, rest⟩).mpr
        ⟨front, rest, hleft, rfl, ha⟩
      rw [hr] at hok
      cases hok
    | ok a =>
      have hread := (h passed left a stop).mp hr
      constructor
      · intro heq
        obtain ⟨front, rest, hleft, hstop, ha⟩ := hread
        cases heq
        exact ⟨front, rest, hleft, hstop, a, ha, rfl⟩
      · rintro ⟨front, rest, hleft, hnext, a', ha', rfl⟩
        have hok := (h passed left a' next).mpr ⟨front, rest, hleft, hnext, ha'⟩
        rw [hr] at hok
        cases hok
        rfl

theorem Reads.congr {α : Type} {r : Reader α} {P Q : α → List UInt8 → Prop} (h : r.Reads P)
    (hPQ : ∀ a front, P a front ↔ Q a front) : r.Reads Q := by
  intro passed left a next
  simp only [h passed left a next, hPQ]

theorem byte_reads : byte.Reads fun b front => front = [b] := by
  intro passed left a next
  cases left with
  | nil =>
    refine iff_of_false (by intro heq; cases heq) ?_
    rintro ⟨front, rest, hleft, -, rfl⟩
    cases hleft
  | cons b left =>
    constructor
    · intro heq
      cases heq
      exact ⟨_, left, rfl, rfl, rfl⟩
    · rintro ⟨front, rest, hleft, rfl, rfl⟩
      cases hleft
      rfl

theorem slice_reads (n : Nat) :
    (slice n).Reads fun bytes front => front = bytes ∧ bytes.length = n := by
  intro passed left a next
  rw [run_slice]
  constructor
  · intro heq
    split at heq
    · rename_i hle
      cases heq
      exact ⟨left.take n, left.drop n, (List.take_append_drop n left).symm, rfl, rfl,
        List.length_take_of_le hle⟩
    · cases heq
  · rintro ⟨front, rest, rfl, rfl, rfl, rfl⟩
    have hle : front.length ≤ (Cursor.mk passed (front ++ rest)).remaining := by
      show front.length ≤ (front ++ rest).length
      rw [List.length_append]
      exact Nat.le_add_right _ _
    rw [if_pos hle, Cursor.skip]
    dsimp only
    rw [List.take_left, List.drop_left]

/-- Digits are read up to the last one, if it comes early enough, and added from the weight on that
has been reached. -/
theorem varintFrom_reads (count shift value : Nat) :
    (varintFrom count shift value).Reads fun w front =>
      front.length ≤ count ∧ ∃ n, Base128 n front ∧ w = UInt64.ofNat (value + n * 2 ^ shift) := by
  induction count generalizing shift value with
  | zero =>
    intro passed left w next
    refine iff_of_false (by intro heq; cases heq) ?_
    rintro ⟨front, -, -, -, hshort, n, hn, -⟩
    exact hn.ne_nil (List.length_eq_zero_iff.mp (Nat.le_zero.mp hshort))
  | succ count ih =>
    intro passed left w next
    cases left with
    | nil =>
      refine iff_of_false (by intro heq; cases heq) ?_
      rintro ⟨front, rest, hleft, -, -, n, hn, -⟩
      exact hn.ne_nil (List.append_eq_nil_iff.mp hleft.symm).1
    | cons b left =>
      rw [run_varintFrom]
      by_cases hb : b < 0x80
      · have hdigit : b.toNat % 128 = b.toNat := Nat.mod_eq_of_lt (UInt8.lt_iff_toNat_lt.mp hb)
        rw [if_pos hb, hdigit]
        constructor
        · intro heq
          cases heq
          exact ⟨[b], left, rfl, rfl, Nat.succ_le_succ (Nat.zero_le _), b.toNat, .last hb, rfl⟩
        · rintro ⟨front, rest, hleft, rfl, -, n, hn, rfl⟩
          obtain ⟨front, rfl, rfl⟩ := hn.exists_cons hleft
          obtain ⟨rfl, rfl⟩ := (Base128.cons_iff_of_lt hb).mp hn
          rfl
      · have hsum (m : Nat) : value + b.toNat % 128 * 2 ^ shift + m * 2 ^ (shift + 7)
            = value + (b.toNat % 128 + 128 * m) * 2 ^ shift := by
          rw [Nat.pow_add]
          ring
        rw [if_neg hb, ih]
        constructor
        · rintro ⟨front, rest, rfl, rfl, hshort, m, hm, rfl⟩
          exact ⟨b :: front, rest, rfl, by simp, Nat.succ_le_succ hshort, _, .more hb hm,
            by rw [hsum]⟩
        · rintro ⟨front, rest, hleft, rfl, hshort, n, hn, rfl⟩
          obtain ⟨front, rfl, rfl⟩ := hn.exists_cons hleft
          obtain ⟨m, rfl, hm⟩ := (Base128.cons_iff_of_not_lt hb).mp hn
          exact ⟨front, rest, rfl, by simp, Nat.le_of_succ_le_succ hshort, m, hm,
            by rw [hsum]⟩

theorem varint_reads : varint.Reads SpellsWord := by
  intro passed left w next
  rw [varint, varintFrom_reads]
  simp only [Nat.pow_zero, Nat.mul_one, Nat.zero_add]
  constructor
  · rintro ⟨front, rest, hleft, hnext, hshort, hdigits⟩
    exact ⟨front, rest, hleft, hnext, hshort, hdigits⟩
  · rintro ⟨front, rest, hleft, hnext, hword⟩
    exact ⟨front, rest, hleft, hnext, hword.short, hword.digits⟩

theorem zigzag_reads :
    zigzag.Reads fun i front => ∃ w, SpellsWord w front ∧ i = Zigzag.decode w :=
  varint_reads.map Zigzag.decode

theorem word32_reads : word32.Reads fun n front => front = toLittleEndian 4 n.toNat := by
  have h := (slice_reads 4).map fun bytes => UInt32.ofNat (littleEndian bytes)
  refine h.congr fun n front => ⟨?_, ?_⟩
  · rintro ⟨bytes, ⟨rfl, hlength⟩, rfl⟩
    have hlt : littleEndian front < 2 ^ 32 := by
      have hbytes := littleEndian_lt front
      rwa [hlength] at hbytes
    rw [UInt32.toNat_ofNat', Nat.mod_eq_of_lt hlt, ← hlength, toLittleEndian_littleEndian]
  · rintro rfl
    refine ⟨_, ⟨rfl, length_toLittleEndian 4 n.toNat⟩, ?_⟩
    rw [littleEndian_toLittleEndian 4 _ n.toNat_lt, UInt32.ofNat_toNat]

theorem word64_reads : word64.Reads fun n front => front = toLittleEndian 8 n.toNat := by
  have h := (slice_reads 8).map fun bytes => UInt64.ofNat (littleEndian bytes)
  refine h.congr fun n front => ⟨?_, ?_⟩
  · rintro ⟨bytes, ⟨rfl, hlength⟩, rfl⟩
    have hlt : littleEndian front < 2 ^ 64 := by
      have hbytes := littleEndian_lt front
      rwa [hlength] at hbytes
    rw [UInt64.toNat_ofNat', Nat.mod_eq_of_lt hlt, ← hlength, toLittleEndian_littleEndian]
  · rintro rfl
    refine ⟨_, ⟨rfl, length_toLittleEndian 8 n.toNat⟩, ?_⟩
    rw [littleEndian_toLittleEndian 8 _ n.toNat_lt, UInt64.ofNat_toNat]

end Reader

end DocWire.Bytes
