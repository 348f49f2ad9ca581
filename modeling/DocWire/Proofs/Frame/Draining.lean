import DocWire.Proofs.Frame.Reassembly

/-!
# What an assembler holds

The frames of an assembler are cut one after the other until the next one is not whole or is
broken.  Bytes that come later add to them and change none.

* `Assembler.frames_of_cut`, `Assembler.frames_of_wait`, `Assembler.frames_of_error`   one frame
                                   after the other;
* `Assembler.frames_feed`          bytes that come later;
* `Assembler.frames_conserve`      the frames and what is left are the buffer;
* `Assembler.frames_replay`        the frames come out of their bytes alone.
-/

namespace DocWire

open Bytes

namespace Assembler

/-! ## One frame after the other -/

theorem next_of_pending_lt {a : Assembler} (h : a.pending < 4) : a.next = .ok none := by
  obtain ⟨buffer, limit, started⟩ := a
  match buffer with
  | [] | [_] | [_, _] | [_, _, _] => rfl
  | _ :: _ :: _ :: _ :: rest =>
    exfalso
    change rest.length + 4 < 4 at h
    omega

theorem pending_of_cut {a a' : Assembler} {frame : Frame} (h : a.next = .ok (some (frame, a'))) :
    a'.pending < a.pending := by
  have hbuffer := congrArg List.length (next_eq_some h).1
  rw [List.length_append, Frame.length_encode] at hbuffer
  have hpos : 0 < frame.length := Nat.succ_pos _
  show a'.buffer.length < a.buffer.length
  omega

/-- A bound that the buffer does not exceed is no bound. -/
theorem framesWithin_eq {bound bound' : Nat} {a : Assembler} (h : a.pending ≤ bound)
    (h' : a.pending ≤ bound') : a.framesWithin bound = a.framesWithin bound' := by
  induction bound generalizing bound' a with
  | zero =>
    have hwait : a.next = .ok none := next_of_pending_lt (by omega)
    cases bound' with
    | zero => rfl
    | succ bound' => simp only [framesWithin, hwait]
  | succ bound ih =>
    cases bound' with
    | zero =>
      have hwait : a.next = .ok none := next_of_pending_lt (by omega)
      simp only [framesWithin, hwait]
    | succ bound' =>
      cases hn : a.next with
      | error e => simp only [framesWithin, hn]
      | ok cut =>
        cases cut with
        | none => simp only [framesWithin, hn]
        | some cut =>
          obtain ⟨frame, a'⟩ := cut
          have hless := pending_of_cut hn
          have hrest : a'.framesWithin bound = a'.framesWithin bound' :=
            ih (by omega) (by omega)
          simp only [framesWithin, hn, hrest]

theorem frames_eq (a : Assembler) : a.frames = a.framesWithin (a.pending + 1) :=
  framesWithin_eq (Nat.le_refl _) (Nat.le_succ _)

theorem frames_of_error {a : Assembler} {e : ConnectionError} (h : a.next = .error e) :
    a.frames = ([], some e, a) := by
  rw [frames_eq]
  simp only [framesWithin, h]

theorem frames_of_wait {a : Assembler} (h : a.next = .ok none) : a.frames = ([], none, a) := by
  rw [frames_eq]
  simp only [framesWithin, h]

theorem frames_of_cut {a a' : Assembler} {frame : Frame} (h : a.next = .ok (some (frame, a'))) :
    a.frames = (frame :: a'.frames.1, a'.frames.2) := by
  have hless := pending_of_cut h
  have hrest : a'.framesWithin a.pending = a'.frames :=
    framesWithin_eq (by omega) (Nat.le_refl _)
  rw [frames_eq]
  simp only [framesWithin, h, hrest]

/-- What holds of an assembler that gives no frame, and of one that gives a frame if it holds of
what is left, holds of every assembler. -/
theorem frames_induction {P : Assembler → Prop}
    (herror : ∀ a e, a.next = .error e → P a) (hwait : ∀ a, a.next = .ok none → P a)
    (hcut : ∀ a frame a', a.next = .ok (some (frame, a')) → P a' → P a) (a : Assembler) : P a := by
  generalize hp : a.pending = p
  induction p using Nat.strongRecOn generalizing a with
  | ind p ih =>
    cases hn : a.next with
    | error e => exact herror a e hn
    | ok cut =>
      cases cut with
      | none => exact hwait a hn
      | some cut =>
        obtain ⟨frame, a'⟩ := cut
        have hless := pending_of_cut hn
        exact hcut a frame a' hn (ih a'.pending (by omega) a' rfl)

section
variable {a b : Assembler} {frame : Frame} {rest : List Frame} {stop : Option ConnectionError}

theorem next_of_frames_nil (h : a.frames = ([], stop, b)) :
    b = a ∧ a.next = stop.elim (.ok none) .error := by
  cases hn : a.next with
  | error e =>
    rw [frames_of_error hn] at h
    cases h
    exact ⟨rfl, rfl⟩
  | ok cut =>
    cases cut with
    | none =>
      rw [frames_of_wait hn] at h
      cases h
      exact ⟨rfl, rfl⟩
    | some cut =>
      rw [frames_of_cut hn] at h
      cases h

theorem next_of_frames_cons (h : a.frames = (frame :: rest, stop, b)) :
    ∃ a', a.next = .ok (some (frame, a')) ∧ a'.frames = (rest, stop, b) := by
  cases hn : a.next with
  | error e =>
    rw [frames_of_error hn] at h
    cases h
  | ok cut =>
    cases cut with
    | none =>
      rw [frames_of_wait hn] at h
      cases h
    | some cut =>
      obtain ⟨first, a'⟩ := cut
      rw [frames_of_cut hn] at h
      obtain ⟨hfirst, hrest⟩ := Prod.mk.inj h
      obtain ⟨rfl, hframes⟩ := List.cons.inj hfirst
      exact ⟨a', rfl, Prod.ext hframes hrest⟩

end

/-- The frames of a stream that the server can send are its frames. -/
theorem frames_of_stream {a : Assembler} {frames : List Frame}
    (hbuffer : a.buffer = frames.flatMap Frame.encode) (hlength : ∀ f ∈ frames, f.length < 2 ^ 32)
    (hlimit : ∀ f ∈ frames, f.length ≤ a.limit)
    (htag : a.started = true ∨ ∀ f, frames.head? = some f → f.tag ≠ Frame.classicTag) :
    a.frames.1 = frames ∧ a.frames.2.1 = none := by
  induction frames generalizing a with
  | nil =>
    have hwait : a.next = .ok none := next_of_pending_lt (by
      show a.buffer.length < 4
      rw [hbuffer]
      exact Nat.zero_lt_succ _)
    rw [frames_of_wait hwait]
    exact ⟨rfl, rfl⟩
  | cons frame rest ih =>
    have hfits : frame.Fits a.limit a.started := by
      refine ⟨hlength frame List.mem_cons_self, hlimit frame List.mem_cons_self, ?_⟩
      exact htag.imp_right fun h => h frame rfl
    rw [List.flatMap_cons] at hbuffer
    have hrest := ih (a := ⟨rest.flatMap Frame.encode, a.limit, true⟩) rfl
      (fun f hf => hlength f (List.mem_cons_of_mem _ hf))
      (fun f hf => hlimit f (List.mem_cons_of_mem _ hf)) (Or.inl rfl)
    rw [frames_of_cut (next_of_fits hfits hbuffer)]
    exact ⟨congrArg (frame :: ·) hrest.1, hrest.2⟩

/-! ## Bytes that come later -/

/-- A frame that is whole stays what it is. -/
theorem next_feed_of_cut {a a' : Assembler} {frame : Frame}
    (h : a.next = .ok (some (frame, a'))) (bytes : List UInt8) :
    (a.feed bytes).next = .ok (some (frame, a'.feed bytes)) := by
  obtain ⟨hbuffer, ha', hfits⟩ := next_eq_some h
  have hfits' : frame.Fits (a.feed bytes).limit (a.feed bytes).started := hfits
  have hfed : (a.feed bytes).buffer = frame.encode ++ (a'.buffer ++ bytes) := by
    rw [buffer_feed, hbuffer, List.append_assoc]
  rw [next_of_fits hfits' hfed, ha']
  rfl

/-- What is wrong with the header of the next frame, as far as the bytes behind it show. -/
def fault (a : Assembler) (header behind : List UInt8) : Option ConnectionError :=
  if !a.started && behind.head? == some Frame.classicTag then some .notXProtocol
  else if Reader.littleEndian header = 0 then some (.violation .emptyFrame)
  else if a.limit < Reader.littleEndian header then
    some (.violation (.longFrame (Reader.littleEndian header) a.limit))
  else none

theorem next_eq_error_iff {a : Assembler} {e : ConnectionError} :
    a.next = .error e ↔ ∃ header behind, a.buffer = header ++ behind ∧ header.length = 4 ∧
      a.fault header behind = some e := by
  constructor
  · intro h
    unfold next at h
    split at h
    case h_2 => cases h
    case h_1 b₀ b₁ b₂ b₃ rest hbuffer =>
      refine ⟨[b₀, b₁, b₂, b₃], rest, hbuffer, rfl, ?_⟩
      unfold fault
      dsimp only at h
      split at h
      · rename_i hclassic
        cases h
        rw [if_pos hclassic]
      · rename_i hclassic
        rw [if_neg hclassic]
        split at h
        · rename_i hzero
          cases h
          rw [if_pos hzero]
        · rename_i hzero
          rw [if_neg hzero]
          split at h
          · rename_i hlimit
            cases h
            rw [if_pos hlimit]
          · split at h
            · cases h
            · split at h <;> cases h
  · rintro ⟨header, behind, hbuffer, hlength, hfault⟩
    match header, hlength with
    | [b₀, b₁, b₂, b₃], _ =>
      unfold next
      rw [hbuffer]
      dsimp only [List.cons_append, List.nil_append]
      unfold fault at hfault
      split at hfault
      · rename_i hclassic
        cases hfault
        rw [if_pos hclassic]
      · rename_i hclassic
        rw [if_neg hclassic]
        split at hfault
        · rename_i hzero
          cases hfault
          rw [if_pos hzero]
        · rename_i hzero
          rw [if_neg hzero]
          split at hfault
          · rename_i hlimit
            cases hfault
            rw [if_pos hlimit]
          · cases hfault

/-- A broken header stays broken.  Its error changes only where the bytes behind the first header
begin to show, and show a classic greeting. -/
theorem next_feed_of_error {a : Assembler} {e : ConnectionError} (h : a.next = .error e)
    (bytes : List UInt8) :
    (a.feed bytes).next = .error e ∨
      (a.feed bytes).next = .error .notXProtocol ∧ a.started = false ∧ a.pending = 4 ∧
        bytes.head? = some Frame.classicTag := by
  obtain ⟨header, behind, hbuffer, hlength, hfault⟩ := next_eq_error_iff.mp h
  have hfed : (a.feed bytes).buffer = header ++ (behind ++ bytes) := by
    rw [buffer_feed, hbuffer, List.append_assoc]
  have hnext {e' : ConnectionError} (h' : a.fault header (behind ++ bytes) = some e') :
      (a.feed bytes).next = .error e' := next_eq_error_iff.mpr ⟨header, _, hfed, hlength, h'⟩
  cases behind with
  | cons tag rest => exact Or.inl (hnext hfault)
  | nil =>
    have hnone : (!a.started && ([] : List UInt8).head? == some Frame.classicTag) = false :=
      Bool.and_false _
    by_cases hclassic : (!a.started && bytes.head? == some Frame.classicTag) = true
    · refine Or.inr ⟨hnext ?_, ?_, ?_, ?_⟩
      · unfold fault
        rw [List.nil_append, if_pos hclassic]
      · simp only [Bool.and_eq_true, Bool.not_eq_true'] at hclassic
        exact hclassic.1
      · show a.buffer.length = 4
        rw [hbuffer, List.append_nil, hlength]
      · simp only [Bool.and_eq_true, beq_iff_eq] at hclassic
        exact hclassic.2
    · refine Or.inl (hnext ?_)
      unfold fault at hfault ⊢
      rw [hnone, if_neg Bool.false_ne_true] at hfault
      rw [List.nil_append, if_neg hclassic]
      exact hfault

/-- **Bytes that come later** are taken up where the frames before them have ended. -/
theorem frames_feed (a : Assembler) (bytes : List UInt8) :
    (a.feed bytes).frames
      = (a.frames.1 ++ (a.frames.2.2.feed bytes).frames.1,
          (a.frames.2.2.feed bytes).frames.2) := by
  induction a using frames_induction with
  | herror a e h => rw [frames_of_error h, List.nil_append]
  | hwait a h => rw [frames_of_wait h, List.nil_append]
  | hcut a frame a' h ih =>
    rw [frames_of_cut h, frames_of_cut (next_feed_of_cut h bytes), ih]
    rfl

/-- Where the frames end, no frame is whole, and the next header is broken or not. -/
theorem next_frames (a : Assembler) :
    a.frames.2.2.next = match a.frames.2.1 with
      | some e => .error e
      | none => .ok none := by
  induction a using frames_induction with
  | herror a e h =>
    rw [frames_of_error h]
    exact h
  | hwait a h =>
    rw [frames_of_wait h]
    exact h
  | hcut a frame a' h ih =>
    rw [frames_of_cut h]
    exact ih

/-- The frames and what is left are the buffer, and the frames can be cut. -/
theorem frames_conserve (a : Assembler) :
    a.buffer = a.frames.1.flatMap Frame.encode ++ a.frames.2.2.buffer ∧
      a.frames.2.2.limit = a.limit ∧ a.frames.2.2.started = (a.started || !a.frames.1.isEmpty) := by
  induction a using frames_induction with
  | herror a e h =>
    rw [frames_of_error h]
    exact ⟨rfl, rfl, (Bool.or_false _).symm⟩
  | hwait a h =>
    rw [frames_of_wait h]
    exact ⟨rfl, rfl, (Bool.or_false _).symm⟩
  | hcut a frame a' h ih =>
    obtain ⟨hbuffer, ha', -⟩ := next_eq_some h
    obtain ⟨ihbuffer, ihlimit, ihstarted⟩ := ih
    have hlimit : a'.limit = a.limit := by rw [ha']
    have hstarted : a'.started = true := by rw [ha']
    rw [frames_of_cut h]
    refine ⟨?_, ihlimit.trans hlimit, ?_⟩
    · show a.buffer = (frame :: a'.frames.1).flatMap Frame.encode ++ a'.frames.2.2.buffer
      rw [List.flatMap_cons, List.append_assoc, ← ihbuffer]
      exact hbuffer
    · show a'.frames.2.2.started = (a.started || true)
      rw [ihstarted, hstarted, Bool.true_or, Bool.or_true]

/-- The bytes of the frames alone give the frames again. -/
theorem frames_replay (a : Assembler) :
    ({ a with buffer := a.frames.1.flatMap Frame.encode } : Assembler).frames
      = (a.frames.1, none, { a.frames.2.2 with buffer := [] }) := by
  induction a using frames_induction with
  | herror a e h =>
    rw [frames_of_error h]
    exact frames_of_wait rfl
  | hwait a h =>
    rw [frames_of_wait h]
    exact frames_of_wait rfl
  | hcut a frame a' h ih =>
    obtain ⟨-, ha', hfits⟩ := next_eq_some h
    rw [frames_of_cut h]
    dsimp only
    have hfits' : frame.Fits
        ({ a with buffer := (frame :: a'.frames.1).flatMap Frame.encode } : Assembler).limit
        ({ a with buffer := (frame :: a'.frames.1).flatMap Frame.encode } : Assembler).started :=
      hfits
    rw [frames_of_cut (next_of_fits hfits' (List.flatMap_cons ..))]
    rw [ha'] at ih ⊢
    rw [ih]

end Assembler

end DocWire
