import DocWire.Number.Natural

/-!
# Message blocks

What the digests of the SHA family have in common: a message is padded to blocks of 64 bytes, each
of them sixteen words with the most significant byte first.

* `blocks`        the blocks of a padded message;
* `bytesOfWords`  the bytes of a row of words;
* `length_bytesOfWords`   four bytes for each word.
-/

namespace DocWire.Digest

/-- the bytes of a word, most significant first -/
def bytesOfWord (w : UInt32) : List UInt8 :=
  [(w >>> 24).toUInt8, (w >>> 16).toUInt8, (w >>> 8).toUInt8, w.toUInt8]

def bytesOfWords (ws : List UInt32) : List UInt8 := ws.flatMap bytesOfWord

theorem length_bytesOfWords (ws : List UInt32) : (bytesOfWords ws).length = 4 * ws.length := by
  induction ws with
  | nil => rfl
  | cons w ws ih =>
    simp only [bytesOfWords, List.flatMap_cons, List.length_append, List.length_cons] at ih ⊢
    rw [ih]
    simp only [bytesOfWord, List.length_cons, List.length_nil]
    omega

/-- the words of a row of bytes; bytes that make up no whole word are left out -/
def wordsOfBytes : List UInt8 → List UInt32
  | a :: b :: c :: d :: rest =>
    (a.toUInt32 <<< 24 ||| b.toUInt32 <<< 16 ||| c.toUInt32 <<< 8 ||| d.toUInt32)
      :: wordsOfBytes rest
  | _ => []

/-- The message, a one bit, zeros, and the length of the message in bits as two words. -/
def pad (message : List UInt8) : List UInt8 :=
  let length := message.length
  let bits := UInt64.ofNat (length * 8)
  let zeros : List UInt8 := List.replicate ((119 - length % 64) % 64) 0
  message ++ (0x80 : UInt8) :: (zeros ++ bytesOfWords [(bits >>> 32).toUInt32, bits.toUInt32])

/-- the first `count` blocks of sixteen words -/
def blocksWithin : Nat → List UInt32 → List (List UInt32)
  | 0, _ => []
  | count + 1, ws => if ws.isEmpty then [] else ws.take 16 :: blocksWithin count (ws.drop 16)

def blocks (message : List UInt8) : List (List UInt32) :=
  let ws := wordsOfBytes (pad message)
  blocksWithin ws.length ws

/-- turns a word to the left by fewer than 32 bits -/
def rotateLeft (w : UInt32) (n : UInt32) : UInt32 := w <<< n ||| w >>> (32 - n)

/-- turns a word to the right by fewer than 32 bits -/
def rotateRight (w : UInt32) (n : UInt32) : UInt32 := w >>> n ||| w <<< (32 - n)

/-- A block extended by `count` words, each of which `next` makes from all the words before it,
the latest one first. Gives the words from the latest to the first. -/
def extend (next : List UInt32 → UInt32) : Nat → List UInt32 → List UInt32
  | 0, reversed => reversed
  | count + 1, reversed => extend next count (next reversed :: reversed)

/-- the word `n` places before the next one, among words from the latest to the first -/
def back (reversed : List UInt32) (n : Nat) : UInt32 := reversed.getD (n - 1) 0

end DocWire.Digest
