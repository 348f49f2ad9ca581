import DocWire.Proofs.Bytes.Spellings

/-!
# What failed calls leave behind

A call on a cursor that fails leaves it where it stands, and a read that fails tells how far it
would have had to go.  But a number in base 128 is read byte by byte: where none ends in the next
ten bytes the read has passed them when it fails, and where more bytes follow its error is untrue.

* `CursorCall`, `CursorTurn`, `Cursor.turns`   calls, and what comes of them;
* `Cursor.Moves`, `CursorCall.moves`           all that one call can do;
* `Cursor.moves_of_mem_turns`                  all that can come of calls;
* `Cursor.Careful`                             no failed call leaves a trace or tells an untruth;
* `Cursor.careful_iff`                         which runs are careful.
-/

namespace DocWire.Bytes

/-! ## Calls -/

/-- What is done with a cursor.  Floating point numbers are read as the words of their bits. -/
inductive CursorCall
  | seek (delta : Int)
  | byte
  | slice (n : Nat)
  | rest
  | word32
  | word64
  | varint
  | zigzag

/-- How a read ends: why it fails, if it does, and where it stops. -/
def Reader.outcome {α : Type} (r : Reader α) (c : Cursor) : Option OutOfBounds × Cursor :=
  match (ExceptT.run r).run c with
  | (.ok _, next) => (none, next)
  | (.error e, next) => (some e, next)

namespace CursorCall

def outcome : CursorCall → Cursor → Option OutOfBounds × Cursor
  | seek delta => (Reader.seek delta).outcome
  | byte => Reader.byte.outcome
  | slice n => (Reader.slice n).outcome
  | rest => Reader.rest.outcome
  | word32 => Reader.word32.outcome
  | word64 => Reader.word64.outcome
  | varint => Reader.varint.outcome
  | zigzag => Reader.zigzag.outcome

def isRead : CursorCall → Bool
  | seek _ => false
  | _ => true

/-- whether a call reads a number in base 128 -/
def isNumber : CursorCall → Bool
  | varint | zigzag => true
  | _ => false

theorem isRead_of_isNumber {call : CursorCall} (h : call.isNumber) : call.isRead := by
  cases call with
  | varint | zigzag => rfl
  | seek _ | byte | slice _ | rest | word32 | word64 => cases h

end CursorCall

/-- A call, where it starts, why it fails, if it does, and where it leaves the cursor. -/
structure CursorTurn where
  before : Cursor
  call : CursorCall
  failure : Option OutOfBounds
  after : Cursor

namespace Cursor

def turns (c : Cursor) : List CursorCall → List CursorTurn
  | [] => []
  | call :: rest =>
    ⟨c, call, (call.outcome c).1, (call.outcome c).2⟩ :: (call.outcome c).2.turns rest

/-- No number in base 128 ends in the next ten bytes. -/
def Unended (c : Cursor) : Prop := ∀ b ∈ c.left.take 10, 0x80 ≤ b

instance (c : Cursor) : Decidable c.Unended := List.decidableBAll _ _

end Cursor

namespace CursorTurn

/-- the offset up to which a failing call has looked -/
def stop (t : CursorTurn) : Nat :=
  t.before.tell + if t.call.isNumber then (t.before.left.take 10).length else 0

/-- If the call fails, the offset is what it was. -/
def Traceless (t : CursorTurn) : Prop := t.failure ≠ none → t.after.tell = t.before.tell

/-- If the call is a read that fails, its error tells where the read has stopped, and that what it
asks for from there on goes beyond the buffer. -/
def Truthful (t : CursorTurn) : Prop := t.call.isRead → ∀ e, t.failure = some e →
  e.offset = t.stop ∧ e.length = t.before.length ∧ (e.length : Int) < e.offset + e.requested

/-- A number is read where none ends in the next ten bytes, and a byte is there. -/
def Strands (t : CursorTurn) : Prop := t.call.isNumber ∧ t.before.Unended ∧ t.before.left ≠ []

instance (t : CursorTurn) : Decidable t.Strands :=
  inferInstanceAs (Decidable (t.call.isNumber ∧ t.before.Unended ∧ t.before.left ≠ []))

/-- A number is read where none ends in the next ten bytes, and still more bytes are there. -/
def Misstates (t : CursorTurn) : Prop :=
  t.call.isNumber ∧ t.before.Unended ∧ 10 < t.before.left.length

end CursorTurn

/-- **Careful calls**: none goes beyond the buffer, none that fails leaves a trace, and no error of
a read is untrue. -/
structure Cursor.Careful (bytes : List UInt8) (calls : List CursorCall) : Prop where
  inside : ∀ t ∈ (ofList bytes).turns calls, t.after.tell ≤ bytes.length
  traceless : ∀ t ∈ (ofList bytes).turns calls, t.Traceless
  truthful : ∀ t ∈ (ofList bytes).turns calls, t.Truthful

/-! ## Positions -/

namespace Cursor

variable (c : Cursor)

theorem length_buffer : c.buffer.length = c.length := by
  rw [buffer, List.length_append, List.length_reverse, length]

theorem tell_skip (n : Nat) : (c.skip n).tell = c.tell + (c.left.take n).length := by
  simp only [skip, tell, List.length_append, List.length_reverse]
  exact Nat.add_comm _ _

theorem length_skip (n : Nat) : (c.skip n).length = c.length := by
  rw [← length_buffer, buffer_skip, length_buffer]

theorem buffer_moveTo (offset : Nat) : (c.moveTo offset).buffer = c.buffer := by
  rw [moveTo, buffer_skip, buffer_ofList]

theorem skip_succ (n : Nat) (b : UInt8) (passed left : List UInt8) :
    (Cursor.mk passed (b :: left)).skip (n + 1) = (Cursor.mk (b :: passed) left).skip n := by
  simp [skip]

end Cursor

/-! ## Reads -/

theorem Reader.run_seek (delta : Int) (c : Cursor) : (ExceptT.run (seek delta)).run c
    = if c.tell + delta < Cursor.minOffset then (.error ⟨Cursor.minOffset, 0, c.length⟩, c)
      else if Cursor.maxOffset < c.tell + delta then (.error ⟨Cursor.maxOffset, 0, c.length⟩, c)
      else if c.tell + delta < 0 ∨ (c.length : Int) ≤ c.tell + delta then
        (.error ⟨c.tell + delta, 0, c.length⟩, c)
      else (.ok (c.tell + delta).toNat, c.moveTo (c.tell + delta).toNat) := by
  unfold seek
  rw [ExceptT.run_bind, StateT.run_bind]
  show StateT.run (ExceptT.run (ite (c.tell + delta < Cursor.minOffset) _ _)) c = _
  split
  · rfl
  · split
    · rfl
    · split <;> rfl

namespace Base128

/-- Digits stand wherever a last one comes early enough. -/
theorem exists_of_mem {count : Nat} {left : List UInt8} (h : ∃ b ∈ left.take count, b < 0x80) :
    ∃ n front rest, left = front ++ rest ∧ front.length ≤ count ∧ Base128 n front := by
  induction count generalizing left with
  | zero => simp at h
  | succ count ih =>
    cases left with
    | nil => simp at h
    | cons d left =>
      by_cases hd : d < 0x80
      · exact ⟨d.toNat, [d], left, rfl, Nat.succ_le_succ (Nat.zero_le _), .last hd⟩
      · obtain ⟨b, hmem, hb⟩ := h
        rw [List.take_succ_cons] at hmem
        have hlater : b ∈ left.take count :=
          (List.mem_cons.mp hmem).resolve_left fun heq => hd (heq ▸ hb)
        obtain ⟨n, front, rest, rfl, hshort, hn⟩ := ih ⟨b, hlater, hb⟩
        exact ⟨_, d :: front, rest, rfl, Nat.succ_le_succ hshort, .more hd hn⟩

end Base128

namespace Reader

/-- The read of a number that does not end in time passes all the bytes that it may take. -/
theorem run_varintFrom_unended (count shift value : Nat) (c : Cursor)
    (h : ∀ b ∈ c.left.take count, 0x80 ≤ b) :
    (ExceptT.run (varintFrom count shift value)).run c
      = (.error ((c.skip count).outOfBounds 1), c.skip count) := by
  induction count generalizing shift value c with
  | zero => rfl
  | succ count ih =>
    obtain ⟨passed, left⟩ := c
    cases left with
    | nil => rfl
    | cons b left =>
      rw [List.take_succ_cons] at h
      obtain ⟨hb, hleft⟩ := List.forall_mem_cons.mp h
      rw [run_varintFrom, if_neg (UInt8.not_lt.mpr hb), ih _ _ _ hleft, Cursor.skip_succ]

theorem outcome_map {α β : Type} (r : Reader α) (f : α → β) :
    (r >>= fun a => pure (f a)).outcome = r.outcome := by
  funext c
  unfold outcome
  rw [ExceptT.run_bind, StateT.run_bind]
  cases hr : (ExceptT.run r).run c with
  | mk answer next => cases answer <;> rfl

end Reader

/-! ## One call -/

/-- What a call does: it is done, or it strays from the buffer, or too few bytes are left for it, or
it reads a number that does not end. -/
inductive Cursor.Moves (c : Cursor) : CursorCall → Option OutOfBounds → Cursor → Prop
  | done {call next} (hended : call.isNumber → ¬c.Unended) (hbuffer : next.buffer = c.buffer) :
      c.Moves call none next
  | strayed {delta e} : c.Moves (.seek delta) (some e) c
  | short {call n} (hcall : call.isNumber = false) (h : c.remaining < n) :
      c.Moves call (some (c.outOfBounds n)) c
  | unended {call} (hcall : call.isNumber) (h : c.Unended) :
      c.Moves call (some ((c.skip 10).outOfBounds 1)) (c.skip 10)

namespace CursorCall

variable (c : Cursor)

theorem seek_moves (delta : Int) :
    c.Moves (.seek delta) ((Reader.seek delta).outcome c).1 ((Reader.seek delta).outcome c).2 := by
  rw [Reader.outcome, Reader.run_seek]
  split_ifs
  · exact .strayed
  · exact .strayed
  · exact .strayed
  · exact .done nofun (c.buffer_moveTo _)

theorem byte_moves : c.Moves .byte (Reader.byte.outcome c).1 (Reader.byte.outcome c).2 := by
  obtain ⟨passed, left⟩ := c
  cases left with
  | nil => exact .short rfl Nat.zero_lt_one
  | cons b left => exact .done nofun (Cursor.buffer_skip ⟨passed, b :: left⟩ 1)

theorem slice_moves {call : CursorCall} (hcall : call.isNumber = false) (n : Nat) :
    c.Moves call ((Reader.slice n).outcome c).1 ((Reader.slice n).outcome c).2 := by
  rw [Reader.outcome, Reader.run_slice]
  split_ifs with hn
  · exact .done (by simp [hcall]) (c.buffer_skip n)
  · exact .short hcall (Nat.not_le.mp hn)

theorem varint_moves {call : CursorCall} (hcall : call.isNumber) :
    c.Moves call (Reader.varint.outcome c).1 (Reader.varint.outcome c).2 := by
  by_cases hunended : c.Unended
  · rw [Reader.outcome, Reader.varint, Reader.run_varintFrom_unended 10 0 0 c hunended]
    exact .unended hcall hunended
  · -- A byte below 128 comes early enough, so the bytes up to the first one are read.
    have hlast : ∃ b ∈ c.left.take 10, b < 0x80 := by
      simpa [Cursor.Unended, UInt8.not_le] using hunended
    obtain ⟨n, front, rest, hleft, hshort, hn⟩ := Base128.exists_of_mem hlast
    have hread := (Reader.varint_reads c.passed c.left _ _).mpr
      ⟨front, rest, hleft, rfl, hshort, n, hn, rfl⟩
    rw [Reader.outcome, hread]
    refine .done (fun _ => hunended) ?_
    simp [Cursor.buffer, hleft]

/-- **One call**: it does one of these things, and no other. -/
theorem moves (call : CursorCall) : c.Moves call (call.outcome c).1 (call.outcome c).2 := by
  cases call with
  | seek delta => exact seek_moves c delta
  | byte => exact byte_moves c
  | slice n => exact slice_moves c rfl n
  | rest => exact .done nofun (c.buffer_skip _)
  | word32 =>
    rw [outcome, Reader.word32, Reader.outcome_map]
    exact slice_moves c rfl 4
  | word64 =>
    rw [outcome, Reader.word64, Reader.outcome_map]
    exact slice_moves c rfl 8
  | varint => exact varint_moves c rfl
  | zigzag =>
    rw [outcome, Reader.zigzag, Reader.outcome_map]
    exact varint_moves c rfl

end CursorCall

namespace Cursor.Moves

variable {c next : Cursor} {call : CursorCall} {failure : Option OutOfBounds}

theorem buffer_eq (h : c.Moves call failure next) : next.buffer = c.buffer := by
  cases h with
  | done _ hbuffer => exact hbuffer
  | strayed | short _ _ => rfl
  | unended _ _ => exact c.buffer_skip 10

/-- A failed call leaves a trace just where it is stranded in a number. -/
theorem traceless_iff (h : c.Moves call failure next) :
    CursorTurn.Traceless ⟨c, call, failure, next⟩ ↔
      ¬CursorTurn.Strands ⟨c, call, failure, next⟩ := by
  cases h with
  | done hended _ => exact iff_of_true (absurd rfl) fun h => hended h.1 h.2.1
  | strayed => exact iff_of_true (fun _ => rfl) fun h => by cases h.1
  | short hcall _ => exact iff_of_true (fun _ => rfl) fun h => ne_true_of_eq_false hcall h.1
  | unended hcall hunended =>
    -- Ten bytes are passed, or all that are left; none is passed only if none is left.
    have hstays : (c.skip 10).tell = c.tell ↔ c.left = [] := by
      rw [c.tell_skip, Nat.add_eq_left, List.length_eq_zero_iff, List.take_eq_nil_iff]
      simp
    show (_ ≠ none → (c.skip 10).tell = c.tell) ↔ ¬(_ ∧ _ ∧ c.left ≠ [])
    rw [hstays]
    simp [hcall, hunended]

/-- A read tells an untruth just where more than ten bytes are left and no number ends in them. -/
theorem truthful_iff (h : c.Moves call failure next) :
    CursorTurn.Truthful ⟨c, call, failure, next⟩ ↔
      ¬CursorTurn.Misstates ⟨c, call, failure, next⟩ := by
  cases h with
  | done hended _ => exact iff_of_true (fun _ e he => nomatch he) fun h => hended h.1 h.2.1
  | strayed => exact iff_of_true (fun hread => by cases hread) fun h => by cases h.1
  | @short call n hcall hshort =>
    refine iff_of_true (fun _ e he => ?_) fun h => ne_true_of_eq_false hcall h.1
    obtain rfl := Option.some.inj he
    have hstop : CursorTurn.stop ⟨c, call, some (c.outOfBounds n), c⟩ = c.tell := by
      simp [CursorTurn.stop, hcall]
    rw [hstop]
    refine ⟨rfl, rfl, ?_⟩
    show ((c.tell + c.remaining : Nat) : Int) < (c.tell : Int) + n
    omega
  | @unended call hcall hunended =>
    have hstop : CursorTurn.stop ⟨c, call, some ((c.skip 10).outOfBounds 1), c.skip 10⟩
        = (c.skip 10).tell := by
      simp [CursorTurn.stop, hcall, c.tell_skip]
    have hbeyond : ((c.skip 10).length : Int) < (c.skip 10).tell + (1 : Nat) ↔
        ¬10 < c.left.length := by
      rw [c.length_skip, c.tell_skip, List.length_take]
      show ((c.tell + c.left.length : Nat) : Int) < _ ↔ _
      omega
    constructor
    · intro htruthful hmisstates
      exact hbeyond.mp (htruthful (CursorCall.isRead_of_isNumber hcall) _ rfl).2.2 hmisstates.2.2
    · intro hfew _ e he
      obtain rfl := Option.some.inj he
      rw [hstop]
      exact ⟨rfl, c.length_skip 10, hbeyond.mpr fun hlong => hfew ⟨hcall, hunended, hlong⟩⟩

end Cursor.Moves

/-! ## Runs -/

namespace Cursor

/-- **A run**: each of its turns is a move, and all of them are made in one buffer. -/
theorem moves_of_mem_turns {c : Cursor} {calls : List CursorCall} {t : CursorTurn}
    (h : t ∈ c.turns calls) :
    t.before.buffer = c.buffer ∧ t.before.Moves t.call t.failure t.after := by
  induction calls generalizing c with
  | nil => cases h
  | cons call rest ih =>
    have hmoves := call.moves c
    rcases List.mem_cons.mp h with rfl | hlater
    · exact ⟨rfl, hmoves⟩
    · obtain ⟨hbuffer, ht⟩ := ih hlater
      exact ⟨hbuffer.trans hmoves.buffer_eq, ht⟩

/-- **What failed calls leave behind.**  Calls are careful exactly where no number is read that does
not end in the next ten bytes, unless no byte is left.  Every call stays in the buffer, leaves a
trace only where it is stranded in such a number, and tells an untruth only where more bytes
follow. -/
theorem careful_iff (bytes : List UInt8) (calls : List CursorCall) :
    (Careful bytes calls ↔ ∀ t ∈ (ofList bytes).turns calls, ¬t.Strands) ∧
      ∀ t ∈ (ofList bytes).turns calls, t.after.tell ≤ bytes.length ∧
        (t.Traceless ↔ ¬t.Strands) ∧ (t.Truthful ↔ ¬t.Misstates) := by
  have hturn : ∀ t ∈ (ofList bytes).turns calls, t.after.tell ≤ bytes.length ∧
      (t.Traceless ↔ ¬t.Strands) ∧ (t.Truthful ↔ ¬t.Misstates) := by
    intro t ht
    obtain ⟨hbuffer, hmoves⟩ := moves_of_mem_turns ht
    refine ⟨?_, hmoves.traceless_iff, hmoves.truthful_iff⟩
    have hafter : t.after.buffer = bytes := hmoves.buffer_eq.trans hbuffer
    rw [← hafter, length_buffer]
    exact t.after.tell_le_length
  refine ⟨⟨fun h t ht => (hturn t ht).2.1.mp (h.traceless t ht), fun h => ?_⟩, hturn⟩
  refine ⟨fun t ht => (hturn t ht).1, fun t ht => (hturn t ht).2.1.mpr (h t ht), fun t ht => ?_⟩
  refine (hturn t ht).2.2.mpr fun hmisstates => h t ht ⟨hmisstates.1, hmisstates.2.1, ?_⟩
  exact List.ne_nil_of_length_pos (Nat.zero_lt_of_lt hmisstates.2.2)

theorem careful_iff_sample :
    let calls := [.varint, .slice 4, .seek maxOffset, .seek (-4), .word32, .rest, .zigzag]
    Careful [0xac, 0x02, 0x03] calls ∧
      ((ofList [0xac, 0x02, 0x03]).turns calls).map CursorTurn.failure
        = [none, some ⟨2, 4, 3⟩, some ⟨maxOffset, 0, 3⟩, some ⟨-2, 0, 3⟩, some ⟨2, 4, 3⟩, none,
          some ⟨3, 1, 3⟩] := by
  intro calls
  exact ⟨(careful_iff _ calls).1.mpr (by decide), by decide⟩

/-- A number that is cut off fails behind the bytes that are there. -/
theorem not_careful_truncated :
    (ofList [0xff, 0xff]).turns [.varint]
        = [⟨ofList [0xff, 0xff], .varint, some ⟨2, 1, 2⟩, ⟨[0xff, 0xff], []⟩⟩] ∧
      ¬Careful [0xff, 0xff] [.varint] := by
  refine ⟨rfl, fun h => ?_⟩
  have htrace := h.traceless _ (List.mem_singleton_self _) nofun
  cases htrace

/-- Behind ten bytes that go on there is one byte more, and the error denies it. -/
example : ((ofList (List.replicate 11 0xff)).turns [.varint]).map CursorTurn.failure
    = [some ⟨10, 1, 11⟩] := rfl

end Cursor

end DocWire.Bytes
