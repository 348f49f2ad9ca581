import DocWire.Proofs.Fallible
import DocWire.Text.Utf8

/-!
# Texts and their bytes

Reading takes back what was written, and nothing but what can be written is read as a text.

* `begin_ascii`, `begin_two`, `begin_three`, `begin_four`   what a first byte starts;
* `exists_of_scan`          an unfinished character goes on only with a byte within its bounds;
* `scan_encodeChar`         the bytes of a character are scanned as that character;
* `exists_of_scan_none`     what is scanned as characters begins with the bytes of the first one;
* `decode?_eq_some_iff`     the bytes that are read as a text are those of that text.
-/

namespace DocWire.Text.Utf8

open String (utf8EncodeChar)

/-! ## One byte -/

section
variable {b : UInt8}

theorem begin_ascii (h : b.toNat < 0x80) : begin b = ([some (Char.ofNat b.toNat)], none) := by
  unfold begin
  rw [if_pos (UInt8.lt_iff_toNat_lt.mpr h)]

theorem begin_two (low : 0xc2 ≤ b.toNat) (high : b.toNat < 0xe0) :
    begin b = ([], some ⟨1, 0x80, 0xbf, b.toNat - 0xc0⟩) := by
  unfold begin
  simp only [UInt8.lt_iff_toNat_lt]
  rw [if_neg (by simp; omega), if_neg (by simp; omega), if_pos (by simpa using high)]

theorem begin_three (low : 0xe0 ≤ b.toNat) (high : b.toNat < 0xf0) :
    begin b = ([], some ⟨2, if b.toNat = 0xe0 then 0xa0 else 0x80,
      if b.toNat = 0xed then 0x9f else 0xbf, b.toNat - 0xe0⟩) := by
  unfold begin
  simp only [UInt8.lt_iff_toNat_lt, ← UInt8.toNat_inj]
  rw [if_neg (by simp; omega), if_neg (by simp; omega), if_neg (by simp; omega),
    if_pos (by simpa using high)]
  rfl

theorem begin_four (low : 0xf0 ≤ b.toNat) (high : b.toNat < 0xf5) :
    begin b = ([], some ⟨3, if b.toNat = 0xf0 then 0x90 else 0x80,
      if b.toNat = 0xf4 then 0x8f else 0xbf, b.toNat - 0xf0⟩) := by
  unfold begin
  simp only [UInt8.lt_iff_toNat_lt, ← UInt8.toNat_inj]
  rw [if_neg (by simp; omega), if_neg (by simp; omega), if_neg (by simp; omega),
    if_neg (by simp; omega), if_pos (by simpa using high)]
  rfl

/-- Other bytes begin nothing. -/
theorem begin_other (h : 0x80 ≤ b.toNat) (h' : b.toNat < 0xc2 ∨ 0xf5 ≤ b.toNat) :
    begin b = ([none], none) := by
  unfold begin
  simp only [UInt8.lt_iff_toNat_lt]
  rw [if_neg (by simp; omega)]
  rcases h' with h' | h'
  · rw [if_pos (by simpa using h')]
  · rw [if_neg (by simp; omega), if_neg (by simp; omega), if_neg (by simp; omega),
      if_neg (by simp; omega)]

end

/-- Every byte finishes something or leaves something unfinished. -/
theorem step_ne (u : Option Unfinished) (b : UInt8) : step u b ≠ ([], none) := by
  have hbegin : begin b ≠ ([], none) := by
    unfold begin
    repeat' split
    all_goals simp
  cases u with
  | none => exact hbegin
  | some u =>
    unfold step
    dsimp only
    split
    · split <;> simp
    · simp

/-- Only nothing has no parts. -/
theorem eq_nil_of_scan {u : Option Unfinished} {bytes : List UInt8} (h : scan u bytes = []) :
    u = none ∧ bytes = [] := by
  induction bytes generalizing u with
  | nil =>
    cases u with
    | none => exact ⟨rfl, rfl⟩
    | some u => cases h
  | cons b rest ih =>
    rw [scan_cons] at h
    obtain ⟨hparts, hrest⟩ := List.append_eq_nil_iff.mp h
    exact absurd (Prod.ext hparts (ih hrest).1) (step_ne u b)

/-! ## Unfinished characters -/

section
variable {low high b : UInt8} {value : Nat} (rest : List UInt8)

/-- A byte within the bounds finishes a character of which one byte is to come. -/
theorem scan_last (h : low.toNat ≤ b.toNat ∧ b.toNat ≤ high.toNat) :
    scan (some ⟨1, low, high, value⟩) (b :: rest)
      = some (Char.ofNat (value * 64 + (b.toNat - 0x80))) :: scan none rest := by
  rw [scan_cons]
  unfold step
  dsimp only
  rw [if_pos (by simpa only [UInt8.le_iff_toNat_le] using h), if_pos (Nat.le_refl 1)]
  rfl

/-- A byte within the bounds is taken into a character of which more are to come. -/
theorem scan_more (more : Nat) (h : low.toNat ≤ b.toNat ∧ b.toNat ≤ high.toNat) :
    scan (some ⟨more + 2, low, high, value⟩) (b :: rest)
      = scan (some ⟨more + 1, 0x80, 0xbf, value * 64 + (b.toNat - 0x80)⟩) rest := by
  rw [scan_cons]
  unfold step
  dsimp only
  rw [if_pos (by simpa only [UInt8.le_iff_toNat_le] using h), if_neg (by omega)]
  rfl

/-- An unfinished character goes on only with a byte within its bounds. -/
theorem exists_of_scan {u : Unfinished} {bytes : List UInt8} (h : none ∉ scan (some u) bytes) :
    ∃ b rest, bytes = b :: rest ∧ u.low.toNat ≤ b.toNat ∧ b.toNat ≤ u.high.toNat := by
  cases bytes with
  | nil => exact absurd List.mem_cons_self h
  | cons b rest =>
    by_cases hwithin : u.low ≤ b ∧ b ≤ u.high
    · exact ⟨b, rest, rfl, by simpa only [UInt8.le_iff_toNat_le] using hwithin⟩
    · refine absurd ?_ h
      rw [scan_cons]
      unfold step
      dsimp only
      rw [if_neg hwithin]
      exact List.mem_cons_self

end

/-! ## Characters -/

section
variable (rest : List UInt8)

theorem toNat_byte {n : Nat} (h : n < 256) : (UInt8.ofNat n).toNat = n := by
  rw [UInt8.toNat_ofNat']
  omega

/-- The bytes of a character are scanned as that character. -/
theorem scan_encodeChar (c : Char) :
    scan none (utf8EncodeChar c ++ rest) = some c :: scan none rest := by
  have hvalid : c.toNat < 0xd800 ∨ 0xdfff < c.toNat ∧ c.toNat < 0x110000 := c.valid
  have found {n : Nat} (h : n = c.toNat) : some (Char.ofNat n) :: scan none rest
      = some c :: scan none rest := by rw [h, Char.ofNat_toNat]
  unfold utf8EncodeChar
  dsimp only
  rw [show c.val.toNat = c.toNat from rfl]
  split
  · have hb := toNat_byte (n := c.toNat) (by omega)
    rw [List.singleton_append, scan_cons, step, begin_ascii (by omega), hb]
    exact found rfl
  · split
    · have hb := toNat_byte (n := c.toNat / 64 % 32 + 192) (by omega)
      have ht := toNat_byte (n := c.toNat % 64 + 128) (by omega)
      rw [List.cons_append, scan_cons, step, begin_two (by omega) (by omega)]
      simp only [List.cons_append, List.nil_append]
      rw [scan_last rest (by rw [ht]; simp; omega), hb, ht]
      exact found (by omega)
    · split
      · have hb := toNat_byte (n := c.toNat / 4096 % 16 + 224) (by omega)
        have hs := toNat_byte (n := c.toNat / 64 % 64 + 128) (by omega)
        have ht := toNat_byte (n := c.toNat % 64 + 128) (by omega)
        rw [List.cons_append, scan_cons, step, begin_three (by omega) (by omega)]
        simp only [List.cons_append, List.nil_append]
        rw [scan_more _ 0 (by rw [hs, hb]; constructor <;> split <;> simp <;> omega),
          scan_last rest (by rw [ht]; simp; omega), hb, hs, ht]
        exact found (by omega)
      · have hb := toNat_byte (n := c.toNat / 262144 % 8 + 240) (by omega)
        have hr := toNat_byte (n := c.toNat / 4096 % 64 + 128) (by omega)
        have hs := toNat_byte (n := c.toNat / 64 % 64 + 128) (by omega)
        have ht := toNat_byte (n := c.toNat % 64 + 128) (by omega)
        rw [List.cons_append, scan_cons, step, begin_four (by omega) (by omega)]
        simp only [List.cons_append, List.nil_append]
        rw [scan_more _ 1 (by rw [hr, hb]; constructor <;> split <;> simp <;> omega),
          scan_more _ 0 (by rw [hs]; simp; omega),
          scan_last rest (by rw [ht]; simp; omega), hb, hr, hs, ht]
        exact found (by omega)

/-- the bytes of the character of a number -/
theorem encodeChar_ofNat {n : Nat} (h : n.isValidChar) : utf8EncodeChar (Char.ofNat n)
    = if n ≤ 127 then [UInt8.ofNat n]
      else if n ≤ 2047 then [UInt8.ofNat (n / 64 % 32 + 192), UInt8.ofNat (n % 64 + 128)]
      else if n ≤ 65535 then
        [UInt8.ofNat (n / 4096 % 16 + 224), UInt8.ofNat (n / 64 % 64 + 128),
          UInt8.ofNat (n % 64 + 128)]
      else
        [UInt8.ofNat (n / 262144 % 8 + 240), UInt8.ofNat (n / 4096 % 64 + 128),
          UInt8.ofNat (n / 64 % 64 + 128), UInt8.ofNat (n % 64 + 128)] := by
  have hn : (Char.ofNat n).val.toNat = n := by
    show (Char.ofNat n).toNat = n
    unfold Char.ofNat
    rw [dif_pos h]
    rfl
  unfold utf8EncodeChar
  dsimp only
  rw [hn]

theorem eq_byte {b : UInt8} {n : Nat} (h : n = b.toNat) : UInt8.ofNat n = b := by
  rw [h, UInt8.ofNat_toNat]

/-- What is scanned as characters alone begins with the bytes of the first one. -/
theorem exists_of_scan_none {bytes : List UInt8} (hne : bytes ≠ [])
    (h : none ∉ scan none bytes) :
    ∃ c rest, bytes = utf8EncodeChar c ++ rest ∧ scan none bytes = some c :: scan none rest := by
  obtain ⟨b, bytes, rfl⟩ := List.exists_cons_of_ne_nil hne
  suffices ∃ n rest, n.isValidChar ∧ b :: bytes = utf8EncodeChar (Char.ofNat n) ++ rest by
    obtain ⟨n, rest, -, hbytes⟩ := this
    exact ⟨Char.ofNat n, rest, hbytes, by rw [hbytes, scan_encodeChar]⟩
  have hscan : scan none (b :: bytes) = (begin b).1 ++ scan (begin b).2 bytes := scan_cons _ _ _
  rw [hscan] at h
  have hb := b.toNat_lt
  by_cases hascii : b.toNat < 0x80
  · refine ⟨b.toNat, bytes, Or.inl (by omega), ?_⟩
    rw [encodeChar_ofNat (Or.inl (by omega)), if_pos (by omega), eq_byte rfl]
    rfl
  by_cases hother : b.toNat < 0xc2 ∨ 0xf5 ≤ b.toNat
  · rw [begin_other (by omega) hother] at h
    exact absurd List.mem_cons_self h
  by_cases htwo : b.toNat < 0xe0
  · rw [begin_two (by omega) htwo] at h
    obtain ⟨t, rest, rfl, ht⟩ := exists_of_scan h
    simp only [UInt8.toNat_ofNat] at ht
    refine ⟨(b.toNat - 0xc0) * 64 + (t.toNat - 0x80), rest, Or.inl (by omega), ?_⟩
    rw [encodeChar_ofNat (Or.inl (by omega)), if_neg (by omega), if_pos (by omega),
      eq_byte (b := b) (by omega), eq_byte (b := t) (by omega)]
    rfl
  by_cases hthree : b.toNat < 0xf0
  · rw [begin_three (by omega) hthree] at h
    obtain ⟨r, rest, rfl, hr⟩ := exists_of_scan h
    rw [List.nil_append, scan_more rest 0 hr] at h
    obtain ⟨t, rest, rfl, ht⟩ := exists_of_scan h
    obtain ⟨hr₁, hr₂, hlow, hhigh⟩ : 0x80 ≤ r.toNat ∧ r.toNat ≤ 0xbf ∧
        (b.toNat = 0xe0 → 0xa0 ≤ r.toNat) ∧ (b.toNat = 0xed → r.toNat ≤ 0x9f) := by
      dsimp only at hr
      split at hr <;> split at hr <;> simp only [UInt8.toNat_ofNat] at hr <;> omega
    simp only [UInt8.toNat_ofNat] at ht
    have hvalid : Nat.isValidChar
        (((b.toNat - 0xe0) * 64 + (r.toNat - 0x80)) * 64 + (t.toNat - 0x80)) := by
      unfold Nat.isValidChar
      omega
    refine ⟨_, rest, hvalid, ?_⟩
    rw [encodeChar_ofNat hvalid, if_neg (by omega), if_neg (by omega), if_pos (by omega),
      eq_byte (b := b) (by omega), eq_byte (b := r) (by omega), eq_byte (b := t) (by omega)]
    rfl
  · rw [begin_four (by omega) (by omega)] at h
    obtain ⟨q, rest, rfl, hq⟩ := exists_of_scan h
    rw [List.nil_append, scan_more rest 1 hq] at h
    obtain ⟨r, rest, rfl, hr⟩ := exists_of_scan h
    rw [scan_more rest 0 hr] at h
    obtain ⟨t, rest, rfl, ht⟩ := exists_of_scan h
    obtain ⟨hq₁, hq₂, hlow, hhigh⟩ : 0x80 ≤ q.toNat ∧ q.toNat ≤ 0xbf ∧
        (b.toNat = 0xf0 → 0x90 ≤ q.toNat) ∧ (b.toNat = 0xf4 → q.toNat ≤ 0x8f) := by
      dsimp only at hq
      split at hq <;> split at hq <;> simp only [UInt8.toNat_ofNat] at hq <;> omega
    simp only [UInt8.toNat_ofNat] at hr ht
    have hvalid : Nat.isValidChar
        ((((b.toNat - 0xf0) * 64 + (q.toNat - 0x80)) * 64 + (r.toNat - 0x80)) * 64
          + (t.toNat - 0x80)) := by
      unfold Nat.isValidChar
      omega
    refine ⟨_, rest, hvalid, ?_⟩
    rw [encodeChar_ofNat hvalid, if_neg (by omega), if_neg (by omega), if_neg (by omega),
      eq_byte (b := b) (by omega), eq_byte (b := q) (by omega), eq_byte (b := r) (by omega),
      eq_byte (b := t) (by omega)]
    rfl

end

/-! ## Texts -/

theorem scan_encode (s : String) : scan none (encode s) = s.toList.map some := by
  unfold encode
  induction s.toList with
  | nil => rfl
  | cons c cs ih => rw [List.flatMap_cons, scan_encodeChar, ih, List.map_cons]

/-- Bytes that are scanned as characters are those of the characters. -/
theorem eq_of_scan {cs : List Char} {bytes : List UInt8} (h : scan none bytes = cs.map some) :
    bytes = cs.flatMap utf8EncodeChar := by
  induction cs generalizing bytes with
  | nil => exact (eq_nil_of_scan h).2
  | cons c cs ih =>
    have hne : bytes ≠ [] := by
      rintro rfl
      cases h
    obtain ⟨d, rest, hbytes, hscan⟩ := exists_of_scan_none hne (by rw [h]; simp)
    rw [h, List.map_cons] at hscan
    obtain ⟨hd, hrest⟩ := List.cons.inj hscan
    rw [List.flatMap_cons, Option.some.inj hd, ← ih hrest.symm]
    exact hbytes

theorem mapM_id_eq_some {parts : List (Option Char)} {cs : List Char} :
    parts.mapM (fun part => part) = some cs ↔ parts = cs.map some := by
  rw [mapM_eq_some_iff, ← List.forall₂_eq_eq_eq, List.forall₂_map_right_iff]

/-- **The bytes that are read as a text are the bytes of that text.** -/
theorem decode?_eq_some_iff {bytes : List UInt8} {s : String} :
    decode? bytes = some s ↔ bytes = encode s := by
  constructor
  · intro h
    obtain ⟨cs, hcs, rfl⟩ := Option.map_eq_some_iff.mp h
    rw [eq_of_scan (mapM_id_eq_some.mp hcs), encode, String.toList_ofList]
  · rintro rfl
    unfold decode?
    rw [scan_encode, mapM_id_eq_some.mpr rfl, Option.map_some, String.ofList_toList]

theorem decode?_encode (s : String) : decode? (encode s) = some s := decode?_eq_some_iff.mpr rfl

theorem encode_injective {s t : String} (h : encode s = encode t) : s = t := by
  have hs := decode?_encode s
  rw [h, decode?_encode] at hs
  exact (Option.some.inj hs).symm

theorem decodeLossy_encode (s : String) : decodeLossy (encode s) = s := by
  unfold decodeLossy
  rw [scan_encode, List.map_map]
  show String.ofList (s.toList.map id) = s
  rw [List.map_id, String.ofList_toList]

end DocWire.Text.Utf8
