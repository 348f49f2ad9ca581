import DocWire.Bytes.Zigzag

/-!
# Reading a byte buffer

A cursor splits a buffer into the bytes that were passed and the bytes that are left, so it cannot
stand outside the buffer. A read either takes what it asks for or says how far it would have had to
go.

* `Cursor`, `Cursor.tell`, `Cursor.seek`   position and movement;
* `Reader`                                 a read: its result and the cursor after it;
* `byte`, `slice`, `rest`, `varint`, …     the reads;
* `Cursor.buffer_ofList`                   a fresh cursor stands at the start of its buffer.
-/

namespace DocWire.Bytes

/-- A read or a move would have left the buffer. -/
structure OutOfBounds where
  offset : Int
  requested : Nat
  length : Nat
deriving DecidableEq

def OutOfBounds.message (e : OutOfBounds) : String :=
  "out of bounds: offset " ++ toString e.offset ++ " + " ++ toString e.requested
    ++ " exceeds buffer length " ++ toString e.length

/-- A position in a buffer: the bytes passed, last one first, and the bytes left. -/
structure Cursor where
  passed : List UInt8
  left : List UInt8
deriving DecidableEq

namespace Cursor

/-- the start of a buffer -/
def ofList (bytes : List UInt8) : Cursor := ⟨[], bytes⟩

def buffer (c : Cursor) : List UInt8 := c.passed.reverse ++ c.left

def tell (c : Cursor) : Nat := c.passed.length

def length (c : Cursor) : Nat := c.passed.length + c.left.length

def remaining (c : Cursor) : Nat := c.left.length

theorem buffer_ofList (bytes : List UInt8) : (ofList bytes).buffer = bytes := rfl

theorem tell_ofList (bytes : List UInt8) : (ofList bytes).tell = 0 := rfl

theorem tell_le_length (c : Cursor) : c.tell ≤ c.length := Nat.le_add_right _ _

def skip (c : Cursor) (n : Nat) : Cursor :=
  ⟨(c.left.take n).reverse ++ c.passed, c.left.drop n⟩

theorem buffer_skip (c : Cursor) (n : Nat) : (c.skip n).buffer = c.buffer := by
  simp [skip, buffer, List.append_assoc]

def outOfBounds (c : Cursor) (n : Nat) : OutOfBounds := ⟨c.tell, n, c.length⟩

def moveTo (c : Cursor) (offset : Nat) : Cursor := (ofList c.buffer).skip offset

/-- the least and greatest number that an offset can be added to -/
def minOffset : Int := -9223372036854775808

@[inherit_doc minOffset]
def maxOffset : Int := 9223372036854775807

end Cursor

/-- A read: what it found and where it stopped. -/
abbrev Reader (α : Type) := ExceptT OutOfBounds (StateM Cursor) α

namespace Reader

open Cursor

/-- the result of a read from the start of a buffer -/
def runOn {α : Type} (r : Reader α) (bytes : List UInt8) : Except OutOfBounds α :=
  ((ExceptT.run r).run (ofList bytes)).1

def refuse {α : Type} (n : Nat) : Reader α := do
  throw ((← get).outOfBounds n)

/-- Moves by a signed distance to a byte of the buffer and tells its offset. A sum outside the
range of offsets is reported by the end of that range. -/
def seek (delta : Int) : Reader Nat := do
  let c ← get
  let target : Int := c.tell + delta
  if target < minOffset then throw ⟨minOffset, 0, c.length⟩
  else if maxOffset < target then throw ⟨maxOffset, 0, c.length⟩
  else if target < 0 ∨ (c.length : Int) ≤ target then throw ⟨target, 0, c.length⟩
  else
    set (c.moveTo target.toNat)
    pure target.toNat

def byte : Reader UInt8 := do
  match (← get) with
  | ⟨passed, b :: left⟩ =>
    set (⟨b :: passed, left⟩ : Cursor)
    pure b
  | ⟨_, []⟩ => refuse 1

/-- The next `n` bytes, all or none. -/
def slice (n : Nat) : Reader (List UInt8) := do
  let c ← get
  if n ≤ c.remaining then
    set (c.skip n)
    pure (c.left.take n)
  else refuse n

def rest : Reader (List UInt8) := do
  let c ← get
  set (c.skip c.remaining)
  pure c.left

def remaining : Reader Nat := do
  pure (← get).remaining

/-- Up to `count` more digits of a base-128 number, least significant first, added to `value` from
weight `2 ^ shift` on. Only the low 64 bits of the sum are kept. -/
def varintFrom : Nat → Nat → Nat → Reader UInt64
  | 0, _, _ => refuse 1
  | count + 1, shift, value => do
    let b ← byte
    let value := value + b.toNat % 128 * 2 ^ shift
    if b < 0x80 then pure (UInt64.ofNat value) else varintFrom count (shift + 7) value

/-- A base-128 number of at most ten bytes, the last of which is below 128. -/
def varint : Reader UInt64 := varintFrom 10 0 0

/-- A base-128 zigzag code. -/
def zigzag : Reader Int64 := do
  pure (Zigzag.decode (← varint))

/-- the number whose base-256 digits are the bytes, least significant first -/
def littleEndian : List UInt8 → Nat
  | [] => 0
  | b :: rest => b.toNat + 256 * littleEndian rest

theorem littleEndian_nil : littleEndian [] = 0 := rfl

theorem littleEndian_cons (b : UInt8) (rest : List UInt8) :
    littleEndian (b :: rest) = b.toNat + 256 * littleEndian rest := rfl

/-- A 32-bit number, least significant byte first. -/
def word32 : Reader UInt32 := do
  pure (UInt32.ofNat (littleEndian (← slice 4)))

/-- A 64-bit number, least significant byte first. -/
def word64 : Reader UInt64 := do
  pure (UInt64.ofNat (littleEndian (← slice 8)))

end Reader

/-- the `count` base-256 digits of a number, least significant first -/
def toLittleEndian : Nat → Nat → List UInt8
  | 0, _ => []
  | count + 1, n => UInt8.ofNat n :: toLittleEndian count (n / 256)

theorem length_toLittleEndian (count n : Nat) : (toLittleEndian count n).length = count := by
  induction count generalizing n with
  | zero => rfl
  | succ count ih => simp [toLittleEndian, ih]

end DocWire.Bytes
