import DocWire.Session.Basic

/-!
# What a session does with a piece of the stream

A session takes in a piece, drains its assembler and routes the frames one by one, until one of
them ends the connection.

* `Session.routed`               the session after one frame;
* `Session.routeFrames_append`   more frames;
* `Session.receive_of_drained`, `Session.receive_of_broken`   one piece;
* `Session.read`                 many pieces.
-/

namespace DocWire

namespace Session

/-- The session after a frame that does not end it. -/
def routed (s : Session) (frame : Frame) : Session :=
  { s with queue := (s.queue.route frame).queue }

section
variable {s : Session} {frame : Frame} {rest : List Frame}

theorem routeFrames_of_ok {requests : List Request}
    (h : (s.queue.route frame).result = .ok requests) (rest : List Frame) :
    s.routeFrames (frame :: rest) = (((s.routed frame).routeFrames rest).1,
      (s.queue.route frame).deliveries.map .deliver ++ requests.map .write
        ++ ((s.routed frame).routeFrames rest).2) := by
  rw [routeFrames]
  simp only [h]
  rfl

theorem routeFrames_of_error {e : ConnectionError}
    (h : (s.queue.route frame).result = .error e) (rest : List Frame) :
    s.routeFrames (frame :: rest) = (((s.routed frame).shutdown e).1,
      (s.queue.route frame).deliveries.map .deliver ++ ((s.routed frame).shutdown e).2) := by
  rw [routeFrames]
  simp only [h]
  rfl

/-- The bytes that wait do not matter to what is routed. -/
theorem routeFrames_assembler (s : Session) (a : Assembler) (frames : List Frame) :
    { s with assembler := a }.routeFrames frames
      = ({ (s.routeFrames frames).1 with assembler := a }, (s.routeFrames frames).2) := by
  induction frames generalizing s with
  | nil => rfl
  | cons frame rest ih =>
    cases hresult : (s.queue.route frame).result with
    | error e =>
      rw [routeFrames_of_error hresult,
        routeFrames_of_error (s := { s with assembler := a }) hresult]
      rfl
    | ok requests =>
      have hrouted : routed { s with assembler := a } frame
          = { s.routed frame with assembler := a } := rfl
      rw [routeFrames_of_ok hresult, routeFrames_of_ok (s := { s with assembler := a }) hresult,
        hrouted, ih]

/-- More frames are routed unless the frames before them have ended the session. -/
theorem routeFrames_append (h : s.isOpen = true) (frames more : List Frame) :
    s.routeFrames (frames ++ more)
      = if (s.routeFrames frames).1.isOpen then
          (((s.routeFrames frames).1.routeFrames more).1,
            (s.routeFrames frames).2 ++ ((s.routeFrames frames).1.routeFrames more).2)
        else s.routeFrames frames := by
  induction frames generalizing s with
  | nil =>
    rw [List.nil_append, routeFrames_nil, if_pos h]
    rfl
  | cons frame rest ih =>
    rw [List.cons_append]
    cases hresult : (s.queue.route frame).result with
    | error e =>
      rw [routeFrames_of_error hresult, routeFrames_of_error hresult,
        if_neg (by rw [isOpen_shutdown]; exact Bool.false_ne_true)]
    | ok requests =>
      have hrest := ih (s := s.routed frame) h
      rw [routeFrames_of_ok hresult, routeFrames_of_ok hresult, hrest]
      by_cases hopen : ((s.routed frame).routeFrames rest).1.isOpen = true
      · rw [if_pos hopen, if_pos hopen]
        dsimp only
        rw [List.append_assoc _ _ (routeFrames _ more).2]
      · rw [if_neg hopen, if_neg hopen]

end

/-! ## Pieces -/

section
variable {s : Session} {piece : List UInt8} {a : Assembler}

theorem receive_of_drained (h : s.isOpen = true) {frames : List Frame}
    (hdrain : (s.assembler.feed piece).drain = (.ok frames, a)) :
    s.receive (.bytes piece)
      = ({ (s.routeFrames frames).1 with assembler := a }, (s.routeFrames frames).2) := by
  unfold receive pump
  rw [if_pos h]
  simp only [hdrain]
  exact routeFrames_assembler s a frames

theorem receive_of_broken (h : s.isOpen = true) {e : ConnectionError}
    (hdrain : (s.assembler.feed piece).drain = (.error e, a)) :
    s.receive (.bytes piece) = ({ (s.shutdown e).1 with assembler := a }, (s.shutdown e).2) := by
  unfold receive pump
  rw [if_pos h]
  simp only [hdrain]
  rfl

end

/-- The session after pieces of the stream, and what it has done. -/
def read (s : Session) : List (List UInt8) → Session × List Effect
  | [] => (s, [])
  | piece :: rest =>
    let (s, effects) := s.receive (.bytes piece)
    let (s, more) := s.read rest
    (s, effects ++ more)

theorem read_cons (s : Session) (piece : List UInt8) (rest : List (List UInt8)) :
    s.read (piece :: rest) = (((s.receive (.bytes piece)).1.read rest).1,
      (s.receive (.bytes piece)).2 ++ ((s.receive (.bytes piece)).1.read rest).2) := rfl

theorem read_of_not_open {s : Session} (h : s.isOpen = false) (pieces : List (List UInt8)) :
    s.read pieces = (s, []) := by
  induction pieces with
  | nil => rfl
  | cons piece rest ih => rw [read_cons, receive_of_not_open h, ih, List.append_nil]

end Session

end DocWire
