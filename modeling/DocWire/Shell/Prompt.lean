import DocWire.Shell.Command
import DocWire.Text.Utf8

/-!
# The prompt

Before a command is read, the mode is shown. A line ends with a line feed, and the end of the input
is the command to exit.

* `promptLabel`    what is shown;
* `takeLine`       the next line of the input;
* `prompt`         one command: what is shown, what is read, and what is left of the input.
-/

namespace DocWire

def promptLabel : Mode → String
  | .document => "doc> "
  | .table => "table> "

/-- The next line of an input with the line feed that ends it, and what is left. -/
def takeLine (input : List UInt8) : List UInt8 × List UInt8 :=
  let line := input.takeWhile (· ≠ 10)
  let rest := input.dropWhile (· ≠ 10)
  (line ++ rest.take 1, rest.drop 1)

/-- Why nothing could be shown. -/
inductive ShowFailure
  /-- not even the mode was written -/
  | write (text : String)
  /-- the mode was written and did not get through -/
  | flush (text : String)
deriving DecidableEq

structure Prompted where
  result : Except CommandError Command
  shown : String
  /-- what is left of the input -/
  rest : List UInt8

def readCommand (input : List UInt8) : Except CommandError Command :=
  if input.isEmpty then .ok .exit
  else
    match Text.Utf8.decode? (takeLine input).1 with
    | some line => Command.ofLine line
    | none => .error (.io "stream did not contain valid UTF-8")

/-- Shows the mode and reads a command. Where the mode cannot be shown, nothing is read. -/
def prompt (mode : Mode) (failure : Option ShowFailure) (input : List UInt8) : Prompted :=
  match failure with
  | some (.write text) => ⟨.error (.io text), "", input⟩
  | some (.flush text) => ⟨.error (.io text), promptLabel mode, input⟩
  | none => ⟨readCommand input, promptLabel mode, (takeLine input).2⟩

/-- Reads at most `bound` commands, until the one to exit; a command may change the mode. Gives
what was read and what was shown. -/
def promptMany (bound : Nat) (mode : Mode) (failure : Option ShowFailure) (input : List UInt8) :
    List (Except CommandError Command) × String :=
  match bound with
  | 0 => ([], "")
  | bound + 1 =>
    let p := prompt mode failure input
    match p.result with
    | .ok .exit => ([.ok .exit], p.shown)
    | result =>
      let mode := match result with | .ok (.mode m) => m | _ => mode
      let (results, shown) := promptMany bound mode failure p.rest
      (result :: results, p.shown ++ shown)

/-- A line and what is left make up the input. -/
theorem takeLine_append (input : List UInt8) :
    (takeLine input).1 ++ (takeLine input).2 = input := by
  unfold takeLine
  dsimp only
  rw [List.append_assoc, List.take_append_drop, List.takeWhile_append_dropWhile]

end DocWire
