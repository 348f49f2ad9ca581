import DocWire.Digest.Sha1
import DocWire.Digest.Sha256
import DocWire.Error
import DocWire.Text.Hex
import DocWire.Text.Utf8

/-!
# Authentication mechanisms

What each mechanism sends for given credentials, and which of them is used.

* `Mechanism.ofName`          the mechanism of a name, in any letter case;
* `Credentials`               user, password and schema;
* `mysql41Scramble`, `sha256Scramble`   the proofs, for any hash;
* `Mechanism.answer`          the answer to a challenge;
* `Mechanism.choose`          the mechanism of a connection.
-/

namespace DocWire

/-- Who connects, and to which schema, an empty one being none. -/
structure Credentials where
  user : String
  password : String
  schema : String
deriving DecidableEq

/-- schema and user, each ended by a zero byte: the front of every mechanism's data -/
def Credentials.front (c : Credentials) : List UInt8 :=
  Text.Utf8.encode c.schema ++ 0 :: (Text.Utf8.encode c.user ++ [0])

/-- bytewise exclusive or, as long as the shorter operand -/
def xorBytes (a b : List UInt8) : List UInt8 := List.zipWith (· ^^^ ·) a b

theorem length_xorBytes (a b : List UInt8) : (xorBytes a b).length = min a.length b.length := by
  simp [xorBytes]

/-- The proof that the password is known whose double hash the server keeps; the challenge goes
before the double hash. -/
def mysql41Scramble (hash : List UInt8 → List UInt8) (password challenge : List UInt8) :
    List UInt8 :=
  let once := hash password
  xorBytes once (hash (challenge ++ hash once))

/-- The proof that the password is known whose double hash the server keeps; the challenge goes
behind the double hash. -/
def sha256Scramble (hash : List UInt8 → List UInt8) (password challenge : List UInt8) :
    List UInt8 :=
  let once := hash password
  xorBytes once (hash (hash once ++ challenge))

def asciiBytes (cs : List Char) : List UInt8 := cs.map fun c => UInt8.ofNat c.toNat

namespace Mechanism

def ofName (name : String) : Except ConnectionError Mechanism :=
  let upper := String.ofList (name.toList.map Char.toUpper)
  match upper with
  | "MYSQL41" => .ok mysql41
  | "PLAIN" => .ok plain
  | "SHA256_MEMORY" => .ok sha256Memory
  | other => .error (.authentication (.unknownMechanism other))

/-- Whether the mechanism shows the password to whoever can read the transport. -/
def needsSecureTransport : Mechanism → Bool
  | plain => true
  | mysql41 | sha256Memory => false

def initialData (m : Mechanism) (c : Credentials) : Option (List UInt8) :=
  match m with
  | plain => some (c.front ++ Text.Utf8.encode c.password)
  | mysql41 | sha256Memory => none

/-- The answer to the challenge of a round. There is one round at most. -/
def answer (m : Mechanism) (c : Credentials) (round : Nat) (challenge : List UInt8) :
    Except ConnectionError (List UInt8) :=
  let password := Text.Utf8.encode c.password
  match m with
  | plain => .error (.violation (.unaskedChallenge plain round))
  | mysql41 =>
    if 0 < round then .error (.violation (.secondChallenge mysql41))
    else if password.isEmpty then .ok c.front
    else
      let proof := mysql41Scramble Digest.sha1 password challenge
      .ok (c.front ++ asciiBytes ('*' :: Text.Hex.encodeUpper proof))
  | sha256Memory =>
    if 0 < round then .error (.violation (.secondChallenge sha256Memory))
    else
      let proof := sha256Scramble Digest.sha256 password challenge
      .ok (c.front ++ asciiBytes (Text.Hex.encode proof))

/-- the code by which a server refuses credentials -/
def accessDenied : UInt32 := 1045

/-- The error of a server as the mechanism explains it. -/
def explain (m : Mechanism) (e : ConnectionError) : ConnectionError :=
  match m, e with
  | sha256Memory, .server s => if s.code = accessDenied then .authentication .notCached else e
  | _, _ => e

/-- Whether a server offers the mechanism. A server that was not asked offers everything. -/
def isOffered (m : Mechanism) (offered : List String) : Bool :=
  offered.isEmpty || offered.contains m.name

/-- The mechanism to try: the one that is asked for; otherwise the plain one if the transport is
secure, and the first one the server offers of the others if not. -/
def preferred (requested : Option Mechanism) (offered : List String) (secure : Bool) : Mechanism :=
  match requested with
  | some m => m
  | none =>
    if secure then plain
    else if mysql41.isOffered offered then mysql41
    else sha256Memory

/-- The mechanism of a connection. It is refused where it would show the password, and where the
server does not offer it. -/
def choose (requested : Option Mechanism) (offered : List String) (secure : Bool) :
    Except ConnectionError Mechanism :=
  let m := preferred requested offered secure
  if m.needsSecureTransport && !secure then .error (.authentication .insecurePlain)
  else if m.isOffered offered then .ok m
  else .error (.authentication (.notOffered m offered))

end Mechanism

end DocWire
