import DocWire.Digest.Block

/-!
# SHA-1

* `sha1`          the digest;
* `length_sha1`   it has 20 bytes.
-/

namespace DocWire.Digest

namespace Sha1

/-- the chaining value -/
structure State where
  a : UInt32
  b : UInt32
  c : UInt32
  d : UInt32
  e : UInt32

def start : State := ⟨0x67452301, 0xefcdab89, 0x98badcfe, 0x10325476, 0xc3d2e1f0⟩

def nextWord (ws : List UInt32) : UInt32 :=
  rotateLeft (back ws 3 ^^^ back ws 8 ^^^ back ws 14 ^^^ back ws 16) 1

/-- the function and the constant of a round -/
def mix (round : Nat) (s : State) : UInt32 × UInt32 :=
  if round < 20 then ((s.b &&& s.c) ||| (~~~s.b &&& s.d), 0x5a827999)
  else if round < 40 then (s.b ^^^ s.c ^^^ s.d, 0x6ed9eba1)
  else if round < 60 then ((s.b &&& s.c) ||| (s.b &&& s.d) ||| (s.c &&& s.d), 0x8f1bbcdc)
  else (s.b ^^^ s.c ^^^ s.d, 0xca62c1d6)

/-- one round -/
def step (s : State) (w : UInt32 × Nat) : State :=
  let (f, k) := mix w.2 s
  ⟨rotateLeft s.a 5 + f + s.e + k + w.1, s.a, rotateLeft s.b 30, s.c, s.d⟩

/-- one block -/
def compress (s : State) (block : List UInt32) : State :=
  let words := (extend nextWord 64 block.reverse).reverse
  let t := words.zipIdx.foldl step s
  ⟨s.a + t.a, s.b + t.b, s.c + t.c, s.d + t.d, s.e + t.e⟩

end Sha1

def sha1 (message : List UInt8) : List UInt8 :=
  let s := (blocks message).foldl Sha1.compress Sha1.start
  bytesOfWords [s.a, s.b, s.c, s.d, s.e]

theorem length_sha1 (message : List UInt8) : (sha1 message).length = 20 :=
  length_bytesOfWords _

end DocWire.Digest
