import DocWire.Bytes.Cursor
import DocWire.Protobuf.Varint
import Mathlib.Tactic.Ring

/-!
# Numbers in bytes

What is written of a number is read back, whatever follows it.

* `littleEndian_toLittleEndian`, `toLittleEndian_littleEndian`   words of a fixed width;
* `Zigzag.decode_encode`        signed numbers and their codes;
* `Varint.decode_encode`        numbers of a varying width, as bytes of a message;
* `Reader.Takes`                a read takes just the bytes that it is to take;
* `Reader.varint_takes`, `Reader.zigzag_takes`, `Reader.word64_takes`, …   reads of numbers.
-/

namespace DocWire

namespace Bytes

open Reader (littleEndian)

/-! ## Words -/

theorem littleEndian_toLittleEndian (count n : Nat) (h : n < 256 ^ count) :
    littleEndian (toLittleEndian count n) = n := by
  induction count generalizing n with
  | zero =>
    rw [Nat.pow_zero] at h
    exact (Nat.lt_one_iff.mp h).symm
  | succ count ih =>
    have hdiv : n / 256 < 256 ^ count := by
      rw [Nat.pow_succ] at h
      exact Nat.div_lt_of_lt_mul (by omega)
    show (UInt8.ofNat n).toNat + 256 * littleEndian (toLittleEndian count (n / 256)) = n
    rw [ih _ hdiv, UInt8.toNat_ofNat']
    omega

theorem toLittleEndian_littleEndian (bytes : List UInt8) :
    toLittleEndian bytes.length (littleEndian bytes) = bytes := by
  induction bytes with
  | nil => rfl
  | cons b rest ih =>
    have hb : b.toNat < 256 := b.toNat_lt
    have hdiv : (b.toNat + 256 * littleEndian rest) / 256 = littleEndian rest := by omega
    show UInt8.ofNat (b.toNat + 256 * littleEndian rest)
      :: toLittleEndian rest.length ((b.toNat + 256 * littleEndian rest) / 256) = b :: rest
    rw [hdiv, ih]
    refine congrArg (· :: rest) (UInt8.toNat_inj.mp ?_)
    rw [UInt8.toNat_ofNat']
    omega

theorem littleEndian_lt (bytes : List UInt8) : littleEndian bytes < 256 ^ bytes.length := by
  induction bytes with
  | nil => exact Nat.one_pos
  | cons b rest ih =>
    have hb : b.toNat < 256 := b.toNat_lt
    show b.toNat + 256 * littleEndian rest < 256 ^ (rest.length + 1)
    rw [Nat.pow_succ]
    omega

/-! ## Signed numbers -/

theorem Zigzag.toNat_encode (i : Int64) : (encode i).toNat = toCode i.toInt := by
  have low : -(2 ^ 63) ≤ i.toInt := i.le_toInt
  have high : i.toInt < 2 ^ 63 := i.toInt_lt
  unfold encode
  rw [UInt64.toNat_ofNat', Nat.mod_eq_of_lt]
  unfold toCode
  split <;> omega

theorem Zigzag.decode_encode (i : Int64) : decode (encode i) = i := by
  rw [decode, toNat_encode, ofCode_toCode, Int64.ofInt_toInt]

end Bytes

/-! ## Numbers of a varying width -/

namespace Protobuf.Varint

theorem encodeWithin_ne_nil (more n : Nat) : encodeWithin more n ≠ [] := by
  cases more with
  | zero => exact List.cons_ne_nil _ _
  | succ more =>
    unfold encodeWithin
    split <;> exact List.cons_ne_nil _ _

theorem encode_ne_nil (n : Nat) : encode n ≠ [] := encodeWithin_ne_nil 9 n

theorem decode_encode {n : Nat} (h : n < 2 ^ 64) (rest : List UInt8) :
    decode (encode n ++ rest) = some (n, rest) := by
  unfold decode encode
  rw [decodeWithin_encodeWithin 9 n rest (by omega), Option.filter_some]
  exact if_pos (decide_eq_true h)

end Protobuf.Varint

/-! ## Reads -/

namespace Bytes.Reader

/-- Wherever a read stands before these bytes it gives this value and passes them, and only them. -/
def Takes {α : Type} (r : Reader α) (front : List UInt8) (a : α) : Prop :=
  ∀ passed rest, (ExceptT.run r).run ⟨passed, front ++ rest⟩
    = (.ok a, ⟨front.reverse ++ passed, rest⟩)

theorem pure_takes {α : Type} (a : α) : Takes (pure a) [] a := fun _ _ => rfl

theorem Takes.bind {α β : Type} {r : Reader α} {k : α → Reader β} {front more : List UInt8} {a : α}
    {b : β} (hr : r.Takes front a) (hk : (k a).Takes more b) :
    (r >>= k).Takes (front ++ more) b := by
  intro passed rest
  rw [ExceptT.run_bind, StateT.run_bind, List.append_assoc, hr]
  show (ExceptT.run (k a)).run _ = _
  rw [hk, List.reverse_append, List.append_assoc]

theorem Takes.map {α β : Type} {r : Reader α} {front : List UInt8} {a : α} (hr : r.Takes front a)
    (f : α → β) : (r >>= fun a => pure (f a)).Takes front (f a) := by
  have h := hr.bind (k := fun a => pure (f a)) (pure_takes (f a))
  rwa [List.append_nil] at h

theorem byte_takes (b : UInt8) : byte.Takes [b] b := fun _ _ => rfl

theorem run_slice (n : Nat) (c : Cursor) : (ExceptT.run (slice n)).run c
    = if n ≤ c.remaining then (.ok (c.left.take n), c.skip n)
      else (.error (c.outOfBounds n), c) := by
  unfold slice
  rw [ExceptT.run_bind, StateT.run_bind]
  show StateT.run (ExceptT.run (ite (n ≤ c.remaining) _ _)) c = _
  split <;> rfl

theorem slice_takes (bytes : List UInt8) : (slice bytes.length).Takes bytes bytes := by
  intro passed rest
  have hle : bytes.length ≤ (Cursor.mk passed (bytes ++ rest)).remaining := by
    show bytes.length ≤ (bytes ++ rest).length
    rw [List.length_append]
    omega
  have htake : (bytes ++ rest).take bytes.length = bytes := List.take_left
  have hdrop : (bytes ++ rest).drop bytes.length = rest := List.drop_left
  rw [run_slice, if_pos hle, Cursor.skip, htake, hdrop]

open Protobuf

theorem run_varintFrom (count shift value : Nat) (b : UInt8) (passed left : List UInt8) :
    (ExceptT.run (varintFrom (count + 1) shift value)).run ⟨passed, b :: left⟩
      = (ExceptT.run (if b < 0x80 then pure (UInt64.ofNat (value + b.toNat % 128 * 2 ^ shift))
        else varintFrom count (shift + 7) (value + b.toNat % 128 * 2 ^ shift))).run
          ⟨b :: passed, left⟩ := rfl

theorem varintFrom_last (count shift value n : Nat) (h : n < 128) :
    (varintFrom (count + 1) shift value).Takes [UInt8.ofNat n]
      (UInt64.ofNat (value + n * 2 ^ shift)) := by
  intro passed rest
  have hb : (UInt8.ofNat n).toNat = n := by
    rw [UInt8.toNat_ofNat']
    omega
  rw [List.singleton_append, run_varintFrom, hb,
    if_pos (UInt8.lt_iff_toNat_lt.mpr (by rw [hb]; exact h)), Nat.mod_eq_of_lt h]
  rfl

/-- The digits are added up from the weight on that has been reached. -/
theorem varintFrom_takes (more shift value n : Nat) (h : n < 128 ^ (more + 1)) :
    (varintFrom (more + 1) shift value).Takes (Varint.encodeWithin more n)
      (UInt64.ofNat (value + n * 2 ^ shift)) := by
  induction more generalizing shift value n with
  | zero => exact varintFrom_last 0 shift value n (by omega)
  | succ more ih =>
    unfold Varint.encodeWithin
    by_cases small : n < 128
    · rw [if_pos small]
      exact varintFrom_last _ shift value n small
    · intro passed rest
      have hb : (UInt8.ofNat (n % 128 + 128)).toNat = n % 128 + 128 := by
        rw [UInt8.toNat_ofNat']
        omega
      have hquotient : n / 128 < 128 ^ (more + 1) := by
        rw [Nat.pow_succ] at h
        exact Nat.div_lt_of_lt_mul (by omega)
      have hsum : value + n % 128 * 2 ^ shift + n / 128 * 2 ^ (shift + 7)
          = value + n * 2 ^ shift := by
        calc value + n % 128 * 2 ^ shift + n / 128 * 2 ^ (shift + 7)
            = value + (n % 128 + 128 * (n / 128)) * 2 ^ shift := by
              rw [Nat.pow_add]
              ring
          _ = value + n * 2 ^ shift := by rw [Nat.mod_add_div]
      rw [if_neg small, List.cons_append, run_varintFrom, hb,
        if_neg (by rw [UInt8.lt_iff_toNat_lt, hb]; simp), Nat.add_mod_right, Nat.mod_mod,
        ih _ _ _ hquotient, hsum, List.reverse_cons, List.append_assoc]
      rfl

theorem varint_takes (n : UInt64) : varint.Takes (Varint.encode n.toNat) n := by
  have h := varintFrom_takes 9 0 0 n.toNat (by have := n.toNat_lt; omega)
  rwa [Nat.zero_add, Nat.pow_zero, Nat.mul_one, UInt64.ofNat_toNat] at h

theorem zigzag_takes (i : Int64) : zigzag.Takes (Varint.encode (Zigzag.encode i).toNat) i := by
  have h := (varint_takes (Zigzag.encode i)).map Zigzag.decode
  rwa [Zigzag.decode_encode] at h

theorem word32_takes (n : UInt32) : word32.Takes (toLittleEndian 4 n.toNat) n := by
  have hslice := slice_takes (toLittleEndian 4 n.toNat)
  rw [length_toLittleEndian] at hslice
  have h := hslice.map fun bytes => UInt32.ofNat (littleEndian bytes)
  rwa [littleEndian_toLittleEndian 4 _ n.toNat_lt, UInt32.ofNat_toNat] at h

theorem word64_takes (n : UInt64) : word64.Takes (toLittleEndian 8 n.toNat) n := by
  have hslice := slice_takes (toLittleEndian 8 n.toNat)
  rw [length_toLittleEndian] at hslice
  have h := hslice.map fun bytes => UInt64.ofNat (littleEndian bytes)
  rwa [littleEndian_toLittleEndian 8 _ n.toNat_lt, UInt64.ofNat_toNat] at h

end Bytes.Reader

end DocWire
