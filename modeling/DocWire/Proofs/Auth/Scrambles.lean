import DocWire.Auth.Mechanism
import DocWire.Proofs.Text.Utf8

/-!
# Answers to challenges, as the server checks them

The server keeps the double hash of a password and sends a challenge.  From an answer it takes the
names and a scramble, and from the scramble the single hash, which it hashes once more.

* `splitAnswer?`, `scrambleOf?`       what the server reads off an answer;
* `Verifies`                          what it checks;
* `scramble_verifies`                 a scramble of the password passes, whatever the hash;
* `decode?_spelled`                   bytes spelled in hexadecimal digits are read back;
* `Mechanism.answers_verify`          the answers of both mechanisms.
-/

namespace DocWire

open Text (Utf8.encode)

/-! ## The server's side -/

/-- what stands before and behind the first zero -/
def splitZero? : List UInt8 → Option (List UInt8 × List UInt8)
  | [] => none
  | b :: rest =>
    if b = 0 then some ([], rest)
    else (splitZero? rest).map fun (front, rest) => (b :: front, rest)

/-- The schema, the user and the proof of an answer, which the first two zeros divide. -/
def splitAnswer? (answer : List UInt8) : Option (List UInt8 × List UInt8 × List UInt8) := do
  let (schema, rest) ← splitZero? answer
  let (user, proof) ← splitZero? rest
  pure (schema, user, proof)

/-- the bytes that ASCII hexadecimal digits spell -/
def scrambleOf? (digits : List UInt8) : Option (List UInt8) :=
  Text.Hex.decode? (digits.map fun b => Char.ofNat b.toNat)

/-- The check of a scramble against the double hash that is kept: the hash of the challenge and the
double hash, in the order of the mechanism, is taken off, and what is left is hashed. -/
def Verifies (hash : List UInt8 → List UInt8) (challenged : List UInt8 → List UInt8)
    (stored scramble : List UInt8) : Prop :=
  hash (xorBytes scramble (hash (challenged stored))) = stored

/-! ## Scrambles -/

theorem xorBytes_xorBytes {a b : List UInt8} (h : a.length ≤ b.length) :
    xorBytes (xorBytes a b) b = a := by
  induction a generalizing b with
  | nil => rfl
  | cons x a ih =>
    cases b with
    | nil => simp at h
    | cons y b =>
      show (x ^^^ y ^^^ y) :: xorBytes (xorBytes a b) b = x :: a
      rw [ih (Nat.le_of_succ_le_succ h), UInt8.xor_assoc, UInt8.xor_self, UInt8.xor_zero]

/-- **A scramble passes the check**, for any hash whose digests are of one length. -/
theorem scramble_verifies {hash : List UInt8 → List UInt8} {width : Nat}
    (hwidth : ∀ m, (hash m).length = width) (challenged : List UInt8 → List UInt8)
    (password : List UInt8) :
    Verifies hash challenged (hash (hash password))
      (xorBytes (hash password) (hash (challenged (hash (hash password))))) := by
  unfold Verifies
  rw [xorBytes_xorBytes (Nat.le_of_eq ((hwidth _).trans (hwidth _).symm))]

/-! ## Answers -/

theorem splitZero?_append {front : List UInt8} (h : 0 ∉ front) (rest : List UInt8) :
    splitZero? (front ++ 0 :: rest) = some (front, rest) := by
  induction front with
  | nil => rfl
  | cons b front ih =>
    obtain ⟨hb, hfront⟩ := not_or.mp fun hor => h (List.mem_cons.mpr hor)
    rw [List.cons_append, splitZero?, if_neg (Ne.symm hb), ih hfront]
    rfl

theorem splitAnswer?_front {c : Credentials} (hschema : 0 ∉ Utf8.encode c.schema)
    (huser : 0 ∉ Utf8.encode c.user) (proof : List UInt8) :
    splitAnswer? (c.front ++ proof) = some (Utf8.encode c.schema, Utf8.encode c.user, proof) := by
  unfold splitAnswer? Credentials.front
  rw [List.append_assoc, List.cons_append, splitZero?_append hschema, List.append_assoc]
  show (splitZero? (_ ++ 0 :: proof)).bind _ = _
  rw [splitZero?_append huser]
  rfl

section
variable (digit : Nat → Char)

/-- Bytes spelled with digits whose values are known are read back. -/
theorem decode?_spelled (hvalue : ∀ n : Fin 16, Text.Hex.digitValue? (digit n) = some n.val)
    (bytes : List UInt8) :
    Text.Hex.decode? (bytes.flatMap (Text.Hex.byteDigits digit)) = some bytes := by
  induction bytes with
  | nil => rfl
  | cons b rest ih =>
    have hb := b.toNat_lt
    have hhigh := hvalue ⟨b.toNat / 16, by omega⟩
    have hlow := hvalue ⟨b.toNat % 16, by omega⟩
    have hbyte : UInt8.ofNat (b.toNat / 16 * 16 + b.toNat % 16) = b := by
      rw [Nat.div_add_mod', UInt8.ofNat_toNat]
    show Text.Hex.decode? (digit (b.toNat / 16) :: digit (b.toNat % 16)
      :: rest.flatMap (Text.Hex.byteDigits digit)) = _
    rw [Text.Hex.decode?, hhigh, hlow, ih]
    exact congrArg (fun b => some (b :: rest)) hbyte

/-- A character of ASCII is its byte. -/
theorem ofNat_asciiBytes {cs : List Char} (h : ∀ c ∈ cs, c.toNat < 128) :
    (asciiBytes cs).map (fun b => Char.ofNat b.toNat) = cs := by
  induction cs with
  | nil => rfl
  | cons c rest ih =>
    obtain ⟨hc, hrest⟩ := List.forall_mem_cons.mp h
    have hbyte : (UInt8.ofNat c.toNat).toNat = c.toNat := by
      rw [UInt8.toNat_ofNat', Nat.mod_eq_of_lt (by omega)]
    show Char.ofNat (UInt8.ofNat c.toNat).toNat :: (asciiBytes rest).map _ = c :: rest
    rw [hbyte, Char.ofNat_toNat, ih hrest]

theorem scrambleOf?_spelled (hvalue : ∀ n : Fin 16, Text.Hex.digitValue? (digit n) = some n.val)
    (hascii : ∀ n : Fin 16, (digit n).toNat < 128) (bytes : List UInt8) :
    scrambleOf? (asciiBytes (bytes.flatMap (Text.Hex.byteDigits digit))) = some bytes := by
  have hchars : ∀ c ∈ bytes.flatMap (Text.Hex.byteDigits digit), c.toNat < 128 := by
    intro c hc
    obtain ⟨b, -, hc⟩ := List.mem_flatMap.mp hc
    have hb := b.toNat_lt
    rcases List.mem_cons.mp hc with rfl | hc
    · exact hascii ⟨b.toNat / 16, by omega⟩
    · rw [List.mem_singleton.mp hc]
      exact hascii ⟨b.toNat % 16, by omega⟩
  rw [scrambleOf?, ofNat_asciiBytes hchars, decode?_spelled digit hvalue]

end

namespace Mechanism

theorem mysql41_answer {c : Credentials} (h : c.password ≠ "") (challenge : List UInt8) :
    mysql41.answer c 0 challenge = .ok (c.front ++ (asciiBytes ['*'] ++ asciiBytes
      (Text.Hex.encodeUpper
        (mysql41Scramble Digest.sha1 (Utf8.encode c.password) challenge)))) := by
  have hsome : ¬(Utf8.encode c.password).isEmpty = true := fun hempty =>
    h (Text.Utf8.encode_injective (List.isEmpty_iff.mp hempty))
  exact if_neg hsome

/-- **Answers to challenges pass the check.**  A scramble of a password passes it with any hash
whose digests are of one length.  The answer of a mechanism to its challenge is divided by its first
two zeros into the schema, the user and a proof, and the hexadecimal digits of the proof spell a
scramble that passes the check of that mechanism. -/
theorem answers_verify :
    (∀ (hash : List UInt8 → List UInt8) (width : Nat), (∀ m, (hash m).length = width) →
      ∀ password challenge : List UInt8,
        Verifies hash (challenge ++ ·) (hash (hash password))
          (mysql41Scramble hash password challenge) ∧
        Verifies hash (· ++ challenge) (hash (hash password))
          (sha256Scramble hash password challenge)) ∧
    ∀ (c : Credentials) (challenge : List UInt8), 0 ∉ Utf8.encode c.schema →
      0 ∉ Utf8.encode c.user →
      (c.password ≠ "" → ∃ answer digits scramble, mysql41.answer c 0 challenge = .ok answer ∧
        splitAnswer? answer
          = some (Utf8.encode c.schema, Utf8.encode c.user, asciiBytes ['*'] ++ digits) ∧
        scrambleOf? digits = some scramble ∧
        Verifies Digest.sha1 (challenge ++ ·) (Digest.sha1 (Digest.sha1 (Utf8.encode c.password)))
          scramble) ∧
      ∃ answer digits scramble, sha256Memory.answer c 0 challenge = .ok answer ∧
        splitAnswer? answer = some (Utf8.encode c.schema, Utf8.encode c.user, digits) ∧
        scrambleOf? digits = some scramble ∧
        Verifies Digest.sha256 (· ++ challenge)
          (Digest.sha256 (Digest.sha256 (Utf8.encode c.password))) scramble := by
  refine ⟨fun hash width hwidth password challenge =>
    ⟨scramble_verifies hwidth (challenge ++ ·) password,
      scramble_verifies hwidth (· ++ challenge) password⟩, ?_⟩
  intro c challenge hschema huser
  constructor
  · intro hpassword
    exact ⟨_, _, mysql41Scramble Digest.sha1 (Utf8.encode c.password) challenge,
      mysql41_answer hpassword challenge, splitAnswer?_front hschema huser _,
      scrambleOf?_spelled Text.Hex.upperDigit (by decide) (by decide) _,
      scramble_verifies Digest.length_sha1 (challenge ++ ·) _⟩
  · exact ⟨_, _, sha256Scramble Digest.sha256 (Utf8.encode c.password) challenge, rfl,
      splitAnswer?_front hschema huser _,
      scrambleOf?_spelled Text.Hex.lowerDigit (by decide) (by decide) _,
      scramble_verifies Digest.length_sha256 (· ++ challenge) _⟩

/-- A user with a schema and a password, an empty challenge, and one with zeros in it. -/
theorem answers_verify_zeros :
    0 ∉ Utf8.encode "test" ∧ 0 ∉ Utf8.encode "root" ∧
    Verifies Digest.sha256 (· ++ []) (Digest.sha256 (Digest.sha256 []))
      (sha256Scramble Digest.sha256 [] []) ∧
    ∃ answer digits scramble,
      mysql41.answer ⟨"root", "secret", "test"⟩ 0 [0, 1, 0] = .ok answer ∧
      splitAnswer? answer
        = some (Utf8.encode "test", Utf8.encode "root", asciiBytes ['*'] ++ digits) ∧
      scrambleOf? digits = some scramble ∧
      Verifies Digest.sha1 ([0, 1, 0] ++ ·) (Digest.sha1 (Digest.sha1 (Utf8.encode "secret")))
        scramble :=
  have hschema : 0 ∉ Utf8.encode "test" := by decide
  have huser : 0 ∉ Utf8.encode "root" := by decide
  ⟨hschema, huser, (answers_verify.1 Digest.sha256 32 Digest.length_sha256 [] []).2,
    (answers_verify.2 ⟨"root", "secret", "test"⟩ [0, 1, 0] hschema huser).1 (by decide)⟩

end Mechanism

end DocWire
