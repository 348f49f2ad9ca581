import DocWire.Proofs.Bytes.Spellings
import Mathlib.Data.List.Basic

/-!
# Words that are read exactly

A word has 64 bits, and ten digits in base 128 can hold 70.  What a number has too much stands in
its tenth byte, of which only the lowest bit is kept.  Every other number is read exactly.

* `Base128.value_of_last`         a number is made of its last digit and of those before it;
* `Base128.overflows_iff`         the numbers of ten digits that do not fit a word;
* `Zigzag.encode_bijective`       words number the integers of 64 bits;
* `Cursor.ReadsExactly`, `Cursor.Overflows`   numbers are read by their value; one does not fit;
* `Cursor.readsExactly_iff`       where words and integers are read exactly, and what is read.
-/

namespace DocWire.Bytes

/-! ## The last digit -/

namespace Base128

variable {n m : Nat} {b : UInt8} {bytes front : List UInt8}

theorem eq_of_same_bytes (h : Base128 n bytes) (h' : Base128 m bytes) : n = m := by
  induction h generalizing m with
  | last hb => exact ((cons_iff_of_lt hb).mp h').1.symm
  | more hb _ ih =>
    obtain ⟨m', rfl, hm'⟩ := (cons_iff_of_not_lt hb).mp h'
    rw [ih hm']

/-- A number is made of its last byte, with the weight of its place, and of the digits before it. -/
theorem value_of_last (h : Base128 n (front ++ [b])) :
    (∀ d ∈ front, 0x80 ≤ d) ∧ b < 0x80 ∧
      ∃ low < 128 ^ front.length, n = low + 128 ^ front.length * b.toNat := by
  induction front generalizing n with
  | nil =>
    by_cases hb : b < 0x80
    · obtain ⟨rfl, -⟩ := (cons_iff_of_lt hb).mp h
      exact ⟨List.forall_mem_nil _, hb, 0, Nat.one_pos, by simp⟩
    · obtain ⟨m, -, hm⟩ := (cons_iff_of_not_lt hb).mp h
      exact absurd rfl hm.ne_nil
  | cons d front ih =>
    rw [List.cons_append] at h
    by_cases hd : d < 0x80
    · have hnil := ((cons_iff_of_lt hd).mp h).2
      exact absurd hnil (List.append_ne_nil_of_right_ne_nil _ (List.cons_ne_nil _ _))
    · obtain ⟨m, rfl, hm⟩ := (cons_iff_of_not_lt hd).mp h
      obtain ⟨hfront, hb, low, hlow, rfl⟩ := ih hm
      have hdigit : d.toNat % 128 < 128 := Nat.mod_lt _ (by decide)
      refine ⟨List.forall_mem_cons.mpr ⟨UInt8.not_lt.mp hd, hfront⟩, hb,
        d.toNat % 128 + 128 * low, ?_, ?_⟩
      · rw [List.length_cons, Nat.pow_succ]
        omega
      · rw [List.length_cons, Nat.pow_succ]
        ring

/-- Bytes from 128 on and one below are the digits of a number. -/
theorem exists_of_last (hfront : ∀ d ∈ front, 0x80 ≤ d) (hb : b < 0x80) :
    ∃ n, Base128 n (front ++ [b]) := by
  induction front with
  | nil => exact ⟨_, .last hb⟩
  | cons d front ih =>
    obtain ⟨hd, hfront⟩ := List.forall_mem_cons.mp hfront
    obtain ⟨n, hn⟩ := ih hfront
    exact ⟨_, .more (UInt8.not_lt.mpr hd) hn⟩

/-- At most ten digits hold more than a word just where there are ten and the last is above one. -/
theorem overflows_iff (h : Base128 n (front ++ [b])) (hshort : front.length ≤ 9) :
    2 ^ 64 ≤ n ↔ front.length = 9 ∧ 2 ≤ b := by
  obtain ⟨-, hb, low, hlow, rfl⟩ := h.value_of_last
  have hlast : b.toNat < 128 := UInt8.lt_iff_toNat_lt.mp hb
  rw [UInt8.le_iff_toNat_le]
  -- The tenth digit weighs `2 ^ 63`, and what stands before it is less than that.
  by_cases hnine : front.length = 9
  · rw [hnine] at hlow ⊢
    show 2 ^ 64 ≤ low + 128 ^ 9 * b.toNat ↔ 9 = 9 ∧ 2 ≤ b.toNat
    omega
  · refine iff_of_false ?_ fun h => hnine h.1
    have hweight : 128 ^ (front.length + 1) ≤ 128 ^ 9 :=
      Nat.pow_le_pow_right (by decide) (by omega)
    have hsum : low + 128 ^ front.length * b.toNat < 128 ^ (front.length + 1) := by
      calc low + 128 ^ front.length * b.toNat
          < 128 ^ front.length + 128 ^ front.length * 127 :=
            Nat.add_lt_add_of_lt_of_le hlow (Nat.mul_le_mul_left _ (by omega))
        _ = 128 ^ (front.length + 1) := by ring
    omega

end Base128

/-! ## Signed numbers -/

theorem Zigzag.toInt_decode (n : UInt64) : (decode n).toInt = ofCode n.toNat := by
  have hn : n.toNat < 2 ^ 64 := n.toNat_lt
  refine Int64.toInt_ofInt_of_le ?_ ?_ <;> unfold ofCode <;> split <;> omega

theorem Zigzag.encode_decode (n : UInt64) : encode (decode n) = n := by
  rw [encode, toInt_decode, toCode_ofCode, UInt64.ofNat_toNat]

theorem Zigzag.encode_bijective : Function.Bijective encode :=
  Function.bijective_iff_has_inverse.mpr ⟨decode, decode_encode, encode_decode⟩

/-! ## Reads at a position -/

/-- Bytes spell a word exactly: they are at most ten digits, and the word is their number. -/
structure SpellsExactly (w : UInt64) (bytes : List UInt8) : Prop where
  short : bytes.length ≤ 10
  digits : Base128 w.toNat bytes

/-- At a position a read gives a value just where bytes stand there that are related to the value,
and passes them, and only them. -/
def Reader.ReadsAt {α : Type} (r : Reader α) (c : Cursor) (P : α → List UInt8 → Prop) : Prop :=
  ∀ a next, (ExceptT.run r).run c = (.ok a, next) ↔
    ∃ front rest, c.left = front ++ rest ∧ next = ⟨front.reverse ++ c.passed, rest⟩ ∧ P a front

theorem Reader.Reads.readsAt {α : Type} {r : Reader α} {P : α → List UInt8 → Prop} (h : r.Reads P)
    (c : Cursor) : r.ReadsAt c P :=
  fun a next => h c.passed c.left a next

namespace Cursor

variable {c : Cursor}

/-- **Exact reading.**  A word is read just where at most ten digits stand whose number is below
`2 ^ 64`, and is their number.  An integer is read where its code is. -/
structure ReadsExactly (c : Cursor) : Prop where
  words : Reader.varint.ReadsAt c SpellsExactly
  integers : Reader.zigzag.ReadsAt c fun i front => SpellsExactly (Zigzag.encode i) front

/-- A number stands here that does not fit a word: nine bytes go on, and the tenth is the last one
and has more than its lowest bit. -/
def Overflows (c : Cursor) : Prop :=
  ∃ nine b rest, c.left = nine ++ b :: rest ∧ nine.length = 9 ∧ (∀ d ∈ nine, 0x80 ≤ d) ∧
    2 ≤ b ∧ b < 0x80

theorem Overflows.exists_number (h : c.Overflows) : ∃ n front rest, c.left = front ++ rest ∧
    front.length ≤ 10 ∧ Base128 n front ∧ 2 ^ 64 ≤ n := by
  obtain ⟨nine, b, rest, hleft, hnine, hmore, htwo, hb⟩ := h
  obtain ⟨n, hn⟩ := Base128.exists_of_last hmore hb
  refine ⟨n, nine ++ [b], rest, ?_, ?_, hn, (hn.overflows_iff hnine.le).mpr ⟨hnine, htwo⟩⟩
  · rw [hleft, List.append_assoc, List.singleton_append]
  · rw [List.length_append, hnine, List.length_singleton]

/-- The word that is read of the low bits is not the number. -/
theorem Overflows.not_readsExactly (h : c.Overflows) : ¬c.ReadsExactly := by
  intro hexact
  obtain ⟨n, front, rest, hleft, hshort, hn, hlarge⟩ := h.exists_number
  have hread := (Reader.varint_reads.readsAt c _ _).mpr
    ⟨front, rest, hleft, rfl, hshort, n, hn, rfl⟩
  obtain ⟨front', rest', -, hnext, hspells⟩ := (hexact.words _ _).mp hread
  have hsame : front = front' :=
    List.reverse_inj.mp (List.append_cancel_right (Cursor.mk.inj hnext).1)
  have hvalue : n = (UInt64.ofNat n).toNat := hn.eq_of_same_bytes (hsame ▸ hspells.digits)
  have hlt := (UInt64.ofNat n).toNat_lt
  omega

/-- Where no number overflows, the digits that spell a word are those of its number. -/
theorem spellsWord_iff_spellsExactly (h : ¬c.Overflows) {front rest : List UInt8}
    (hleft : c.left = front ++ rest) (w : UInt64) : SpellsWord w front ↔ SpellsExactly w front := by
  constructor
  · rintro ⟨hshort, n, hn, rfl⟩
    have hfits : n < 2 ^ 64 := by
      by_contra hlarge
      obtain ⟨nine, b, rfl⟩ := (List.eq_nil_or_concat' front).resolve_left hn.ne_nil
      rw [List.length_append, List.length_singleton] at hshort
      obtain ⟨hmore, hb, -⟩ := hn.value_of_last
      have hlimit := hn.overflows_iff (Nat.le_of_succ_le_succ hshort)
      obtain ⟨hnine, htwo⟩ := hlimit.mp (not_lt.mp hlarge)
      refine h ⟨nine, b, rest, ?_, hnine, hmore, htwo, hb⟩
      rw [hleft, List.append_assoc, List.singleton_append]
    refine ⟨hshort, ?_⟩
    rwa [UInt64.toNat_ofNat', Nat.mod_eq_of_lt hfits]
  · rintro ⟨hshort, hdigits⟩
    exact ⟨hshort, w.toNat, hdigits, UInt64.ofNat_toNat.symm⟩

/-- **Where numbers are read exactly.**  They are at every position but where a number overflows.
Anywhere, a word is read of the low 64 bits, and an integer where its code is read. -/
theorem readsExactly_iff (c : Cursor) :
    (c.ReadsExactly ↔ ¬c.Overflows) ∧
      Reader.varint.ReadsAt c SpellsWord ∧
      (Reader.zigzag.ReadsAt c fun i front => SpellsWord (Zigzag.encode i) front) ∧
      Function.Bijective Zigzag.encode ∧ ∀ n, (Zigzag.decode n).toInt = Zigzag.ofCode n.toNat := by
  have hword := Reader.varint_reads.readsAt c
  have hinteger : Reader.zigzag.ReadsAt c fun i front => SpellsWord (Zigzag.encode i) front := by
    refine (Reader.zigzag_reads.congr fun i front => ⟨?_, fun h => ⟨_, h, ?_⟩⟩).readsAt c
    · rintro ⟨w, hw, rfl⟩
      rwa [Zigzag.encode_decode]
    · exact (Zigzag.decode_encode i).symm
  refine ⟨⟨fun hexact hover => hover.not_readsExactly hexact, fun hfits => ⟨?_, ?_⟩⟩, hword,
    hinteger, Zigzag.encode_bijective, Zigzag.toInt_decode⟩
  · intro w next
    rw [hword w next]
    exact exists₂_congr fun front rest => and_congr_right fun hleft =>
      and_congr_right fun _ => spellsWord_iff_spellsExactly hfits hleft w
  · intro i next
    rw [hinteger i next]
    exact exists₂_congr fun front rest => and_congr_right fun hleft =>
      and_congr_right fun _ => spellsWord_iff_spellsExactly hfits hleft _

/-- The number `2 ^ 64` is read as zero. -/
theorem not_readsExactly_overflow :
    let c := ofList [0x80, 0x80, 0x80, 0x80, 0x80, 0x80, 0x80, 0x80, 0x80, 0x02]
    Base128 (2 ^ 64) c.left ∧
      (ExceptT.run Reader.varint).run c = (.ok 0, c.skip 10) ∧ ¬c.ReadsExactly := by
  intro c
  have hzero : (0x80 : UInt8).toNat % 128 = 0 := rfl
  have hmore {n : Nat} {rest : List UInt8} (h : Base128 n rest) :
      Base128 (128 * n) (0x80 :: rest) := by
    have hdigit := Base128.more (b := 0x80) (by decide) h
    rwa [hzero, Nat.zero_add] at hdigit
  have htwo : Base128 2 [0x02] := Base128.last (b := 0x02) (by decide)
  have hover : c.Overflows := by
    refine ⟨List.replicate 9 0x80, 0x02, [], rfl, rfl, fun d hd => ?_, by decide, by decide⟩
    rw [List.eq_of_mem_replicate hd]
    exact UInt8.le_refl _
  refine ⟨?_, rfl, hover.not_readsExactly⟩
  exact hmore (hmore (hmore (hmore (hmore (hmore (hmore (hmore (hmore htwo))))))))

end Cursor

end DocWire.Bytes
