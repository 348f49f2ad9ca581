import DocWire.Bytes.Cursor
import DocWire.Text.Hex

/-!
# What can go wrong on a connection

Every failure is a cause with the data that belongs to it; the wording is one function.

* `Mechanism`, `AuthState`   the names that failures speak of;
* `ConnectionError`          the causes;
* `ConnectionError.message`  the wording;
* `ConnectionError.isFatal`  whether the connection is lost with it.
-/

namespace DocWire

/-- The authentication mechanisms. -/
inductive Mechanism
  | mysql41
  | plain
  | sha256Memory
deriving DecidableEq, Repr

def Mechanism.name : Mechanism → String
  | mysql41 => "MYSQL41"
  | plain => "PLAIN"
  | sha256Memory => "SHA256_MEMORY"

/-- How far an authentication has come. -/
inductive AuthState
  | start
  | awaitingContinue
  | done
  | failed
deriving DecidableEq, Repr

def AuthState.name : AuthState → String
  | start => "Start"
  | awaitingContinue => "AwaitingContinue"
  | done => "Done"
  | failed => "Failed"

/-- The peer, or the caller, has departed from the protocol. -/
inductive Violation
  | emptyFrame
  | longFrame (length limit : Nat)
  | rowWidth (fields columns : Nat)
  | lateColumn
  | unannouncedRow
  | inStatement (kind : String)
  | inAuthentication (kind : String)
  | outsideAuthentication (kind : String) (state : AuthState)
  | startedTwice (state : AuthState)
  | unaskedChallenge (mechanism : Mechanism) (round : Nat)
  | secondChallenge (mechanism : Mechanism)
  | wrongReply (expected kind : String)
  /-- a reason that the caller gives in words -/
  | stated (text : String)
deriving DecidableEq

def Violation.message : Violation → String
  | emptyFrame => "frame length does not cover a type tag"
  | longFrame length limit =>
    "frame of " ++ toString length ++ " bytes exceeds the " ++ toString limit ++ " byte limit"
  | rowWidth fields columns =>
    "row has " ++ toString fields ++ " fields but " ++ toString columns
      ++ " columns were announced"
  | lateColumn => "column metadata after the first row of a resultset"
  | unannouncedRow => "row without column metadata"
  | inStatement kind => "unexpected " ++ kind ++ " while executing a statement"
  | inAuthentication kind => "unexpected " ++ kind ++ " during authentication"
  | outsideAuthentication kind state =>
    kind ++ " received in authentication state " ++ state.name
  | startedTwice state => "authentication already started (" ++ state.name ++ ")"
  | unaskedChallenge mechanism round =>
    mechanism.name ++ " does not expect AuthenticateContinue (round " ++ toString round ++ ")"
  | secondChallenge mechanism =>
    mechanism.name ++ " expects a single challenge, got another"
  | wrongReply expected kind => "expected " ++ expected ++ ", got " ++ kind
  | stated text => text

/-- Why an authentication cannot succeed. -/
inductive AuthFailure
  | unknownMechanism (name : String)
  | insecurePlain
  | notOffered (mechanism : Mechanism) (offered : List String)
  | notCached
  /-- a reason that the caller gives in words -/
  | stated (text : String)
deriving DecidableEq

def AuthFailure.message : AuthFailure → String
  | unknownMechanism name => "unknown authentication mechanism " ++ name
  | insecurePlain => "PLAIN authentication requires a secure connection"
  | notOffered mechanism offered =>
    mechanism.name ++ " is not offered by the server (offered: "
      ++ String.intercalate ", " offered ++ ")"
  | notCached =>
    "SHA256_MEMORY authentication is not supported by the server or the credentials are not cached"
  | stated text => text

/-- What could not be decoded. -/
inductive Undecodable
  | message
  | scalarType (type : Int)
  | missingValue (type : String)
  | anyType (type : Int)
  | missingScalar
  | missingField (key : String)
  | stateParameter (number : Int)
  | columnType (type : Int)
  | json (column : String)
  | temporal (value : Nat)
  | set (byte : UInt8)
  | nibble (value : Nat)
  | unsigned
  /-- a reason that the caller gives in words -/
  | stated (text : String)
deriving DecidableEq

def Undecodable.text : Undecodable → String
  | message => "failed to decode Protobuf message"
  | scalarType type => "scalar type " ++ toString type
  | missingValue type => "scalar of type " ++ type ++ " without a value"
  | anyType type => "any type " ++ toString type
  | missingScalar => "any without its scalar"
  | missingField key => "object field " ++ key ++ " without value"
  | stateParameter number => "session state parameter " ++ toString number
  | columnType type => "column type " ++ toString type
  | json column => "JSON column " ++ column
  | temporal value => "temporal component " ++ toString value ++ " out of range"
  | set byte => "SET value 0x" ++ String.ofList (Text.Hex.encode [byte])
  | nibble value => "decimal nibble 0x" ++ String.ofList [Text.Hex.lowerDigit value]
  | unsigned => "decimal without sign"
  | stated text => text

/-- An error that the server reports. -/
structure ServerError where
  code : UInt32
  sqlState : String
  text : String
  fatal : Bool
deriving DecidableEq

/-- A failure on a connection. -/
inductive ConnectionError
  | violation (what : Violation)
  | authentication (why : AuthFailure)
  | server (error : ServerError)
  /-- the transport gives its reasons in words -/
  | transport (text : String)
  | notXProtocol
  | closed
  | undecodable (what : Undecodable)
  | outOfBounds (error : Bytes.OutOfBounds)
  | expression (position : Nat) (text : String)
deriving DecidableEq

namespace ConnectionError

def message : ConnectionError → String
  | violation what => "protocol violation: " ++ what.message
  | authentication why => "authentication failed: " ++ why.message
  | server e =>
    "server error " ++ toString e.code.toNat ++ " (" ++ e.sqlState ++ "): " ++ e.text
  | transport text => "transport error: " ++ text
  | notXProtocol => "not an X Protocol server, the peer sent a classic protocol greeting"
  | closed => "connection closed"
  | undecodable what => "failed to decode " ++ what.text
  | outOfBounds e => e.message
  | expression position text =>
    "syntax error at position " ++ toString position ++ ": " ++ text

/-- Whether the connection is unusable after the error. -/
def isFatal : ConnectionError → Bool
  | transport _ | notXProtocol | closed => true
  | server e => e.fatal
  | _ => false

/-- The ways in which reading or writing a stream fails, as far as they are told apart. -/
inductive StreamFailure
  /-- the stream has come to its end: an unexpected end, a reset or a broken pipe -/
  | ended
  | other (text : String)
deriving DecidableEq

/-- A stream that has ended is a closed connection; any other failure is the transport's. -/
def ofStreamFailure : StreamFailure → ConnectionError
  | .ended => closed
  | .other text => transport text

theorem isFatal_ofStreamFailure (f : StreamFailure) : (ofStreamFailure f).isFatal = true := by
  cases f <;> rfl

end ConnectionError

end DocWire
