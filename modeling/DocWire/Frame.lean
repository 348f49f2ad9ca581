import DocWire.Error

/-!
# Frames

A message on the wire is framed by the length of what follows, four bytes with the least
significant one first, and a tag that tells its type. The bytes of a stream arrive in pieces that
need not end where frames end; an assembler puts them together.

* `Frame`, `Frame.encode`   a frame and its bytes;
* `Assembler.feed`          takes in bytes;
* `Assembler.next`          the next whole frame;
* `Assembler.frames`, `Assembler.drain`   every whole frame.
-/

namespace DocWire

open Bytes

/-- A message on the wire. -/
structure Frame where
  tag : UInt8
  payload : List UInt8
deriving DecidableEq

namespace Frame

/-- what the length in front counts: the tag and the payload -/
def length (f : Frame) : Nat := f.payload.length + 1

def encode (f : Frame) : List UInt8 := toLittleEndian 4 f.length ++ f.tag :: f.payload

theorem length_encode (f : Frame) : f.encode.length = 4 + f.length := by
  simp [encode, length, length_toLittleEndian]

/-- the greatest frame that is accepted unless another limit is set -/
def defaultLimit : Nat := 64 * 1024 * 1024

/-- What stands in the place of the tag when a server greets in the classic protocol. -/
def classicTag : UInt8 := 0x0a

end Frame

/-- The bytes that have arrived and are not yet part of a frame. -/
structure Assembler where
  buffer : List UInt8 := []
  /-- the greatest length that a frame may have -/
  limit : Nat := Frame.defaultLimit
  /-- whether a frame has been cut -/
  started : Bool := false
deriving DecidableEq

namespace Assembler

def feed (a : Assembler) (bytes : List UInt8) : Assembler := { a with buffer := a.buffer ++ bytes }

def pending (a : Assembler) : Nat := a.buffer.length

theorem buffer_feed (a : Assembler) (bytes : List UInt8) :
    (a.feed bytes).buffer = a.buffer ++ bytes := rfl

theorem feed_nil (a : Assembler) : a.feed [] = a := by simp [feed]

/-- The next whole frame and what is left after it, or nothing if more bytes are needed. The tag of
the very first frame is looked at as soon as it is there, since a classic server may never send as
many bytes as its greeting seems to announce. -/
def next (a : Assembler) : Except ConnectionError (Option (Frame × Assembler)) :=
  match a.buffer with
  | b₀ :: b₁ :: b₂ :: b₃ :: rest =>
    let length := Reader.littleEndian [b₀, b₁, b₂, b₃]
    if !a.started && rest.head? == some Frame.classicTag then .error .notXProtocol
    else if length = 0 then .error (.violation .emptyFrame)
    else if a.limit < length then .error (.violation (.longFrame length a.limit))
    else if rest.length < length then .ok none
    else
      match rest.take length with
      | tag :: payload =>
        .ok (some (⟨tag, payload⟩, { a with buffer := rest.drop length, started := true }))
      | [] => .ok none
  | _ => .ok none

/-- The whole frames among the next `bound` ones, the error that stopped, and what is left. -/
def framesWithin : Nat → Assembler → List Frame × Option ConnectionError × Assembler
  | 0, a => ([], none, a)
  | bound + 1, a =>
    match a.next with
    | .error e => ([], some e, a)
    | .ok none => ([], none, a)
    | .ok (some (frame, a)) =>
      let (frames, stop, a) := framesWithin bound a
      (frame :: frames, stop, a)

/-- Every whole frame that is there, in order, the error that stopped, and what is left. -/
def frames (a : Assembler) : List Frame × Option ConnectionError × Assembler :=
  a.framesWithin a.pending

/-- Every whole frame that is there. After an error the frames before it are gone. -/
def drain (a : Assembler) : Except ConnectionError (List Frame) × Assembler :=
  match a.frames with
  | (frames, none, a) => (.ok frames, a)
  | (_, some e, a) => (.error e, a)

end Assembler

end DocWire
