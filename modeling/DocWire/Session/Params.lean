import DocWire.Auth.Mechanism
import DocWire.Frame

/-!
# Connection parameters

What has to be known before a connection is made.
-/

namespace DocWire

structure ConnectionParams where
  host : String := "localhost"
  port : UInt16 := 33060
  user : String := ""
  password : String := ""
  schema : Option String := none
  /-- whether the connection must be secured -/
  tls : Bool := false
  /-- the mechanism to insist on -/
  mechanism : Option Mechanism := none
  /-- how long to wait for the connection, in milliseconds -/
  connectTimeout : Nat := 10000
  /-- the greatest frame that is accepted -/
  frameLimit : Nat := Frame.defaultLimit
deriving DecidableEq

namespace ConnectionParams

def address (p : ConnectionParams) : String := p.host ++ ":" ++ toString p.port.toNat

/-- Who connects. No schema is an empty one. -/
def credentials (p : ConnectionParams) : Credentials := ⟨p.user, p.password, p.schema.getD ""⟩

end ConnectionParams

end DocWire
