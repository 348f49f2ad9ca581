import DocWire.Frame
import DocWire.Proofs.Bytes.Numerals
import Mathlib.Data.List.Induction

/-!
# Putting frames together again

However a stream is cut into pieces and however often an assembler is asked for a frame, the frames
that it gives and the bytes that it keeps are the bytes that it was fed.  It waits only while the
next frame is not whole, so a stream of frames comes out as it went in.

* `Assembler.next_eq_some`, `Assembler.next_encode`   what is cut, and what must be cut;
* `Assembler.run_conserves`     nothing is lost, added or reordered;
* `Assembler.frames_reassembled`   the whole of it.
-/

namespace DocWire

open Bytes

/-- Whether a frame can be cut with a limit, as the first one or a later one. -/
structure Frame.Fits (f : Frame) (limit : Nat) (started : Bool) : Prop where
  length : f.length < 2 ^ 32
  limit : f.length ≤ limit
  tag : started = true ∨ f.tag ≠ Frame.classicTag

namespace Assembler

/-! ## One frame -/

/-- What is cut is the first bytes of the buffer, if they are a frame that can be cut. -/
theorem next_eq_some {a a' : Assembler} {frame : Frame} (h : a.next = .ok (some (frame, a'))) :
    a.buffer = frame.encode ++ a'.buffer ∧ a' = ⟨a'.buffer, a.limit, true⟩ ∧
      frame.Fits a.limit a.started := by
  obtain ⟨buffer, limit, started⟩ := a
  unfold next at h
  split at h
  case h_2 => cases h
  case h_1 b₀ b₁ b₂ b₃ rest hbuffer =>
    change buffer = b₀ :: b₁ :: b₂ :: b₃ :: rest at hbuffer
    subst hbuffer
    dsimp only at h
    split at h
    · cases h
    rename_i hclassic
    split at h
    · cases h
    split at h
    · cases h
    rename_i hlimit
    split at h
    · cases h
    rename_i hlong
    cases htake : rest.take (Reader.littleEndian [b₀, b₁, b₂, b₃]) with
    | nil =>
      rw [htake] at h
      cases h
    | cons tag payload =>
      rw [htake] at h
      obtain ⟨rfl, rfl⟩ := Prod.mk.inj (Option.some.inj (Except.ok.inj h))
      have hlength : payload.length + 1 = Reader.littleEndian [b₀, b₁, b₂, b₃] := by
        have hlen := congrArg List.length htake
        rw [List.length_take, List.length_cons] at hlen
        omega
      have hbytes : toLittleEndian 4 (payload.length + 1) = [b₀, b₁, b₂, b₃] := by
        rw [hlength]
        exact toLittleEndian_littleEndian [b₀, b₁, b₂, b₃]
      refine ⟨?_, rfl, ?_, ?_, ?_⟩
      · show _ = (toLittleEndian 4 (payload.length + 1) ++ tag :: payload)
          ++ rest.drop (Reader.littleEndian [b₀, b₁, b₂, b₃])
        rw [hbytes, ← htake, List.append_assoc, List.take_append_drop]
        rfl
      · have hbound : Reader.littleEndian [b₀, b₁, b₂, b₃] < 256 ^ 4 :=
          littleEndian_lt [b₀, b₁, b₂, b₃]
        have hpow : 256 ^ 4 = 2 ^ 32 := by decide
        rw [← hlength, hpow] at hbound
        exact hbound
      · show payload.length + 1 ≤ limit
        omega
      · cases started with
        | true => exact Or.inl rfl
        | false =>
          refine Or.inr fun htag => hclassic ?_
          have hhead := congrArg List.head? htake
          rw [← hlength, List.head?_take, if_neg (Nat.succ_ne_zero _)] at hhead
          rw [hhead]
          show (some tag == some Frame.classicTag) = true
          rw [show tag = Frame.classicTag from htag]
          rfl

theorem encode_eq_cons {frame : Frame} (h : frame.length < 2 ^ 32) :
    ∃ b₀ b₁ b₂ b₃, frame.encode = b₀ :: b₁ :: b₂ :: b₃ :: frame.tag :: frame.payload ∧
      Reader.littleEndian [b₀, b₁, b₂, b₃] = frame.length :=
  ⟨_, _, _, _, rfl, littleEndian_toLittleEndian 4 frame.length h⟩

/-- What becomes of a buffer that begins with a frame. -/
theorem next_encode {a : Assembler} {frame : Frame} {rest : List UInt8}
    (hlength : frame.length < 2 ^ 32) (h : a.buffer = frame.encode ++ rest) :
    a.next = if !a.started && frame.tag == Frame.classicTag then .error .notXProtocol
      else if a.limit < frame.length then .error (.violation (.longFrame frame.length a.limit))
      else .ok (some (frame, ⟨rest, a.limit, true⟩)) := by
  obtain ⟨buffer, limit, started⟩ := a
  obtain ⟨b₀, b₁, b₂, b₃, hcons, hle⟩ := encode_eq_cons hlength
  obtain rfl : buffer = frame.encode ++ rest := h
  have hpos : frame.length ≠ 0 := Nat.succ_ne_zero _
  have hlong : ¬ (frame.tag :: (frame.payload ++ rest)).length < frame.length := by
    unfold Frame.length
    rw [List.length_cons, List.length_append]
    omega
  have htake : (frame.tag :: (frame.payload ++ rest)).take frame.length
      = frame.tag :: frame.payload := by
    show (frame.tag :: (frame.payload ++ rest)).take (frame.payload.length + 1) = _
    rw [List.take_succ_cons, List.take_left]
  have hdrop : (frame.tag :: (frame.payload ++ rest)).drop frame.length = rest := by
    show (frame.tag :: (frame.payload ++ rest)).drop (frame.payload.length + 1) = _
    rw [List.drop_succ_cons, List.drop_left]
  unfold next
  simp only [hcons, List.cons_append, hle, List.head?_cons, Option.some_beq_some, if_neg hpos,
    if_neg hlong, htake, hdrop]

/-- A whole frame that can be cut is cut. -/
theorem next_of_fits {a : Assembler} {frame : Frame} {rest : List UInt8}
    (hfits : frame.Fits a.limit a.started) (h : a.buffer = frame.encode ++ rest) :
    a.next = .ok (some (frame, ⟨rest, a.limit, true⟩)) := by
  have htag : (!a.started && frame.tag == Frame.classicTag) = false := by
    rcases hfits.tag with hstarted | htag
    · rw [hstarted]
      rfl
    · rw [beq_false_of_ne htag, Bool.and_false]
  rw [next_encode hfits.length h, htag, if_neg (Nat.not_lt.mpr hfits.limit)]
  rfl

/-- A frame that is not whole is waited for. -/
theorem next_short {a : Assembler} {frame : Frame} {more tail : List UInt8}
    (hfits : frame.Fits a.limit a.started) (h : a.buffer ++ more = frame.encode ++ tail)
    (hshort : a.pending < frame.encode.length) : a.next = .ok none := by
  obtain ⟨buffer, limit, started⟩ := a
  obtain ⟨b₀, b₁, b₂, b₃, hcons, hle⟩ := encode_eq_cons hfits.length
  have hlength := Frame.length_encode frame
  change buffer ++ more = frame.encode ++ tail at h
  change buffer.length < frame.encode.length at hshort
  rw [hcons] at h
  match buffer with
  | [] | [_] | [_, _] | [_, _, _] => rfl
  | c₀ :: c₁ :: c₂ :: c₃ :: rest =>
    simp only [List.cons_append, List.cons.injEq] at h
    obtain ⟨rfl, rfl, rfl, rfl, hrest⟩ := h
    have hpos : frame.length ≠ 0 := Nat.succ_ne_zero _
    have hlimit : ¬ limit < frame.length := Nat.not_lt.mpr hfits.limit
    have hwait : rest.length < frame.length := by
      simp only [List.length_cons] at hshort
      omega
    have hclassic : (!started && rest.head? == some Frame.classicTag) = false := by
      cases rest with
      | nil => cases started <;> rfl
      | cons tag rest =>
        obtain ⟨rfl, _⟩ := List.cons.inj hrest
        rcases hfits.tag with hstarted | htag
        · obtain rfl : started = true := hstarted
          rfl
        · rw [List.head?_cons, Option.some_beq_some, beq_false_of_ne htag, Bool.and_false]
    unfold next
    simp only [hle, hclassic, if_neg hpos, if_neg hlimit, if_pos hwait]
    rfl

/-- Whatever frame comes next, an assembler that waits does not have all of it. -/
theorem pending_lt_of_none {a : Assembler} (h : a.next = .ok none) {frame : Frame}
    (hlength : frame.length < 2 ^ 32) {more tail : List UInt8}
    (hnext : a.buffer ++ more = frame.encode ++ tail) : a.pending < frame.encode.length := by
  by_contra hall
  have hprefix : frame.encode <+: a.buffer :=
    List.prefix_of_prefix_length_le ⟨tail, hnext.symm⟩ (List.prefix_append _ _)
      (Nat.le_of_not_lt hall)
  obtain ⟨rest, hrest⟩ := hprefix
  rw [next_encode hlength hrest.symm] at h
  split at h
  · cases h
  · split at h <;> cases h

/-! ## Many calls -/

end Assembler

inductive AssemblerCall
  | feed (bytes : List UInt8)
  /-- asks for the next frame -/
  | poll

def fed (calls : List AssemblerCall) : List UInt8 :=
  calls.flatMap fun | .feed bytes => bytes | .poll => []

/-- what was given for a frame that was asked for -/
abbrev Polled := Except ConnectionError (Option Frame)

/-- the frames that were given, in order -/
def cut (answers : List Polled) : List Frame :=
  answers.filterMap fun | .ok frame => frame | .error _ => none

theorem fed_append (a b : List AssemblerCall) : fed (a ++ b) = fed a ++ fed b :=
  List.flatMap_append
theorem cut_append (a b : List Polled) : cut (a ++ b) = cut a ++ cut b := List.filterMap_append

namespace Assembler

/-- Asks for the next frame.  Where there is none, or an error, the assembler stays as it is. -/
def poll (a : Assembler) : Polled × Assembler :=
  match a.next with
  | .error e => (.error e, a)
  | .ok none => (.ok none, a)
  | .ok (some (frame, a')) => (.ok (some frame), a')

/-- The assembler after a call, with the answer if it asks for a frame. -/
def call (a : Assembler) : AssemblerCall → List Polled × Assembler
  | .feed bytes => ([], a.feed bytes)
  | .poll => ([a.poll.1], a.poll.2)

/-- The assembler after calls, with the answers of those that ask for a frame. -/
def run (a : Assembler) : List AssemblerCall → List Polled × Assembler
  | [] => ([], a)
  | c :: rest => ((a.call c).1 ++ ((a.call c).2.run rest).1, ((a.call c).2.run rest).2)

theorem run_nil (a : Assembler) : a.run [] = ([], a) := rfl
theorem run_cons (a : Assembler) (c : AssemblerCall) (rest : List AssemblerCall) :
    a.run (c :: rest) = ((a.call c).1 ++ ((a.call c).2.run rest).1, ((a.call c).2.run rest).2) :=
  rfl

theorem run_append (a : Assembler) (calls more : List AssemblerCall) :
    a.run (calls ++ more)
      = ((a.run calls).1 ++ ((a.run calls).2.run more).1, ((a.run calls).2.run more).2) := by
  induction calls generalizing a with
  | nil => rfl
  | cons c rest ih =>
    rw [List.cons_append, run_cons, ih, run_cons]
    simp only [List.append_assoc]

theorem call_conserves (a : Assembler) (c : AssemblerCall) :
    (cut (a.call c).1).flatMap Frame.encode ++ (a.call c).2.buffer = a.buffer ++ fed [c] := by
  cases c with
  | feed bytes => exact congrArg (a.buffer ++ ·) (List.append_nil bytes).symm
  | poll =>
    rw [show fed [.poll] = [] from rfl, List.append_nil]
    show (cut [a.poll.1]).flatMap Frame.encode ++ a.poll.2.buffer = a.buffer
    unfold poll
    split
    · rfl
    · rfl
    · rename_i frame a' h
      show [frame].flatMap Frame.encode ++ a'.buffer = a.buffer
      rw [List.flatMap_singleton, (next_eq_some h).1]

/-- **Nothing is lost, added or reordered.** -/
theorem run_conserves (a : Assembler) (calls : List AssemblerCall) :
    (cut (a.run calls).1).flatMap Frame.encode ++ (a.run calls).2.buffer
      = a.buffer ++ fed calls := by
  induction calls generalizing a with
  | nil => exact (List.append_nil a.buffer).symm
  | cons c rest ih =>
    rw [run_cons, cut_append, List.flatMap_append, List.append_assoc, ih, ← List.append_assoc,
      call_conserves, List.append_assoc, ← fed_append]
    rfl

theorem poll_eq_self {a a' : Assembler} {x : Polled} (h : a.poll = (x, a'))
    (hx : ∀ frame, x ≠ .ok (some frame)) : a' = a := by
  unfold poll at h
  split at h
  · exact (Prod.mk.inj h).2.symm
  · exact (Prod.mk.inj h).2.symm
  · exact absurd (Prod.mk.inj h).1.symm (hx _)

theorem poll_of_none {a : Assembler} (h : a.next = .ok none) : a.poll = (.ok none, a) := by
  unfold poll
  rw [h]

theorem next_of_poll_none {a : Assembler} (h : a.poll.1 = .ok none) : a.next = .ok none := by
  unfold poll at h
  split at h
  · cases h
  · assumption
  · cases h

end Assembler

/-! ## A stream of frames -/

/-- Frames that a server can send to a client with a limit. -/
structure Streamable (frames : List Frame) (limit : Nat) : Prop where
  length : ∀ f ∈ frames, f.length < 2 ^ 32
  limit : ∀ f ∈ frames, f.length ≤ limit
  first : ∀ f, frames.head? = some f → f.tag ≠ Frame.classicTag

namespace Assembler

/-- An assembler that has cut the first `k` frames of a stream.  It was fed all but `more`. -/
structure Reads (frames : List Frame) (limit : Nat) (a : Assembler) (answers : List Polled)
    (k : Nat) (more : List UInt8) : Prop where
  sound : ∀ x ∈ answers, ∃ frame, x = .ok frame
  given : cut answers = frames.take k
  limit : a.limit = limit
  tag : a.started = true ∨ ∀ f, (frames.drop k).head? = some f → f.tag ≠ Frame.classicTag
  buffer : a.buffer ++ more = (frames.drop k).flatMap Frame.encode

section
variable {frames : List Frame} {limit k : Nat} {a : Assembler} {answers : List Polled}
  {more bytes : List UInt8}

theorem Reads.feed (h : Reads frames limit a answers k (bytes ++ more)) :
    Reads frames limit (a.feed bytes) answers k more := by
  refine ⟨h.sound, h.given, h.limit, h.tag, ?_⟩
  rw [buffer_feed, List.append_assoc]
  exact h.buffer

theorem Reads.fits (h : Reads frames limit a answers k more) (hs : Streamable frames limit)
    {frame : Frame} {tail : List Frame} (hdrop : frames.drop k = frame :: tail) :
    frame.Fits a.limit a.started := by
  have hmem : frame ∈ frames := by
    apply List.mem_of_mem_drop (i := k)
    rw [hdrop]
    exact List.mem_cons_self
  refine ⟨hs.length frame hmem, ?_, ?_⟩
  · rw [h.limit]
    exact hs.limit frame hmem
  · rcases h.tag with hstarted | htag
    · exact Or.inl hstarted
    · refine Or.inr (htag frame ?_)
      rw [hdrop]
      rfl

/-- Where the next frame is not whole, nothing is given. -/
theorem Reads.wait (h : Reads frames limit a answers k more) (hnone : a.next = .ok none) :
    Reads frames limit a.poll.2 (answers ++ [a.poll.1]) k more := by
  rw [poll_of_none hnone]
  refine ⟨?_, ?_, h.limit, h.tag, h.buffer⟩
  · intro x hx
    rcases List.mem_append.mp hx with hold | hnew
    · exact h.sound x hold
    · exact ⟨none, List.mem_singleton.mp hnew⟩
  · rw [cut_append, h.given]
    exact List.append_nil _

/-- Where it is whole, it is given. -/
theorem Reads.take (h : Reads frames limit a answers k more) (hs : Streamable frames limit)
    {frame : Frame} {tail : List Frame} (hdrop : frames.drop k = frame :: tail)
    (hwhole : frame.encode.length ≤ a.pending) :
    Reads frames limit a.poll.2 (answers ++ [a.poll.1]) (k + 1) more := by
  have hfits := h.fits hs hdrop
  have hbuffer := h.buffer
  rw [hdrop, List.flatMap_cons] at hbuffer
  obtain ⟨rest, hrest⟩ : frame.encode <+: a.buffer :=
    List.prefix_of_prefix_length_le ⟨_, hbuffer.symm⟩ (List.prefix_append _ _) hwhole
  have hnext : a.next = .ok (some (frame, ⟨rest, a.limit, true⟩)) :=
    next_of_fits hfits hrest.symm
  have hpoll : a.poll = (.ok (some frame), ⟨rest, a.limit, true⟩) := by
    unfold poll
    rw [hnext]
  rw [hpoll]
  refine ⟨?_, ?_, h.limit, Or.inl rfl, ?_⟩
  · intro x hx
    rcases List.mem_append.mp hx with hold | hnew
    · exact h.sound x hold
    · exact ⟨some frame, List.mem_singleton.mp hnew⟩
  · have hk : frames[k]? = some frame := by
      rw [← List.head?_drop, hdrop]
      rfl
    rw [cut_append, h.given, List.take_add_one, hk]
    rfl
  · show rest ++ more = _
    rw [← hrest, List.append_assoc] at hbuffer
    rw [← List.tail_drop, hdrop]
    exact List.append_cancel_left hbuffer

/-- Where nothing is left of the stream, nothing is given. -/
theorem Reads.next_of_end (h : Reads frames limit a answers k more)
    (hdrop : frames.drop k = []) : a.next = .ok none := by
  have hbuffer := h.buffer
  rw [hdrop] at hbuffer
  have hnil : a.buffer = [] := (List.append_eq_nil_iff.mp hbuffer).1
  unfold next
  rw [hnil]

theorem Reads.poll (h : Reads frames limit a answers k more) (hs : Streamable frames limit) :
    ∃ k', Reads frames limit a.poll.2 (answers ++ [a.poll.1]) k' more := by
  cases hdrop : frames.drop k with
  | nil => exact ⟨k, h.wait (h.next_of_end hdrop)⟩
  | cons frame tail =>
    by_cases hwhole : frame.encode.length ≤ a.pending
    · exact ⟨k + 1, h.take hs hdrop hwhole⟩
    · have hbuffer := h.buffer
      rw [hdrop, List.flatMap_cons] at hbuffer
      exact ⟨k, h.wait (next_short (h.fits hs hdrop) hbuffer (Nat.lt_of_not_le hwhole))⟩

/-- Once all was fed, the next frame is given each time. -/
theorem Reads.poll_all (h : Reads frames limit a answers k []) (hs : Streamable frames limit) :
    Reads frames limit a.poll.2 (answers ++ [a.poll.1]) (k + 1) [] := by
  cases hdrop : frames.drop k with
  | nil =>
    have hwait := h.wait (h.next_of_end hdrop)
    have hdrop' : frames.drop (k + 1) = [] := by
      rw [← List.tail_drop, hdrop]
      rfl
    have hlen : frames.length ≤ k := List.drop_eq_nil_iff.mp hdrop
    refine ⟨hwait.sound, ?_, hwait.limit, Or.inr ?_, ?_⟩
    · rw [hwait.given, List.take_of_length_le hlen, List.take_of_length_le (Nat.le_succ_of_le hlen)]
    · intro f hf
      rw [hdrop'] at hf
      cases hf
    · rw [hwait.buffer, hdrop, hdrop']
  | cons frame tail =>
    refine h.take hs hdrop ?_
    have hbuffer := h.buffer
    rw [hdrop, List.flatMap_cons, List.append_nil] at hbuffer
    show _ ≤ a.buffer.length
    rw [hbuffer, List.length_append]
    exact Nat.le_add_right _ _

theorem Reads.run {calls : List AssemblerCall}
    (h : Reads frames limit a answers k (fed calls ++ more)) (hs : Streamable frames limit) :
    ∃ k', Reads frames limit (a.run calls).2 (answers ++ (a.run calls).1) k' more := by
  induction calls generalizing a answers k with
  | nil =>
    rw [run_nil, List.append_nil]
    exact ⟨k, h⟩
  | cons c rest ih =>
    rw [run_cons, ← List.append_assoc]
    cases c with
    | feed bytes =>
      rw [show fed (.feed bytes :: rest) = bytes ++ fed rest from rfl, List.append_assoc] at h
      have hfeed := ih h.feed
      rw [show (a.call (.feed bytes)).1 = [] from rfl, List.append_nil]
      exact hfeed
    | poll =>
      obtain ⟨k', hpoll⟩ := h.poll hs
      exact ih hpoll

theorem Reads.run_polls (h : Reads frames limit a answers k []) (hs : Streamable frames limit)
    (n : Nat) :
    Reads frames limit (a.run (List.replicate n .poll)).2
      (answers ++ (a.run (List.replicate n .poll)).1) (k + n) [] := by
  induction n generalizing a answers k with
  | zero =>
    show Reads frames limit a (answers ++ []) k []
    rw [List.append_nil]
    exact h
  | succ n ih =>
    rw [List.replicate_succ, run_cons, ← List.append_assoc, Nat.add_succ, ← Nat.succ_add]
    exact ih (h.poll_all hs)

end

/-- **Frames come out as they went in.**  Whatever is fed and however often a frame is asked for,
the frames given and the buffer are what was fed.  Where no frame is given nothing is taken from
the buffer, and where one is waited for the next one is not whole, whatever it is.  Of a stream of
frames that the server can send, each part that was fed is cut without an error into the first
frames; and once all was fed, the next frame is given each time. -/
theorem frames_reassembled (limit : Nat) (calls : List AssemblerCall) :
    let answers := (run { limit } calls).1
    let a := (run { limit } calls).2
    (cut answers).flatMap Frame.encode ++ a.buffer = fed calls ∧
    (∀ x a', a.poll = (x, a') → (∀ frame, x ≠ .ok (some frame)) → a' = a) ∧
    (a.poll.1 = .ok none → ∀ (frame : Frame) more tail, frame.length < 2 ^ 32 →
      a.buffer ++ more = frame.encode ++ tail → a.pending < frame.encode.length) ∧
    ∀ frames, Streamable frames limit →
      (fed calls <+: frames.flatMap Frame.encode →
        (∀ x ∈ answers, ∃ frame, x = .ok frame) ∧ cut answers <+: frames) ∧
      (fed calls = frames.flatMap Frame.encode → ∀ n,
        cut (run { limit } (calls ++ List.replicate n .poll)).1
          = frames.take ((cut answers).length + n)) := by
  intro answers a
  have hfresh {frames : List Frame} (hs : Streamable frames limit) {more : List UInt8}
      (hmore : fed calls ++ more = frames.flatMap Frame.encode) :
      Reads frames limit { limit } [] 0 (fed calls ++ more) :=
    ⟨fun _ hx => absurd hx List.not_mem_nil, rfl, rfl, Or.inr hs.first, hmore⟩
  refine ⟨run_conserves _ calls, fun x a' => poll_eq_self, ?_, ?_⟩
  · intro hnone frame more tail hlength hnext
    exact pending_lt_of_none (next_of_poll_none hnone) hlength hnext
  · intro frames hs
    refine ⟨?_, ?_⟩
    · rintro ⟨more, hmore⟩
      obtain ⟨k, hreads⟩ := (hfresh hs hmore).run hs
      refine ⟨hreads.sound, ?_⟩
      rw [show cut answers = frames.take k from hreads.given]
      exact List.take_prefix k frames
    · intro hall n
      have hmore : fed calls ++ [] = frames.flatMap Frame.encode := by
        rw [List.append_nil]
        exact hall
      obtain ⟨k, hreads⟩ := (hfresh hs hmore).run hs
      have hpolls := hreads.run_polls hs n
      rw [run_append]
      show cut (answers ++ _) = _
      rw [show cut (answers ++ _) = frames.take (k + n) from hpolls.given]
      rw [show cut answers = frames.take k from hreads.given, List.length_take]
      rcases Nat.le_total k frames.length with hle | hge
      · rw [Nat.min_eq_left hle]
      · rw [Nat.min_eq_right hge, List.take_of_length_le (Nat.le_add_right_of_le hge),
          List.take_of_length_le (Nat.le_add_right _ _)]

example : cut (run ⟨[], 10, false⟩ [.feed [2, 0, 0], .poll, .feed [0, 5, 7, 1, 0, 0, 0, 6], .poll,
    .poll]).1 = [⟨5, [7]⟩, ⟨6, []⟩] := by decide

end Assembler

end DocWire
