import NexusWorkflow.Lib.Utf16
import NexusWorkflow.Model.Types

/-!
# Passwords

`PasswordHasher` (`auth/PasswordHasher.ts`).  What it takes from its host is a parameter:
`normalize` to NFKC, `scrypt` and base64.
-/

namespace NexusWorkflow.PasswordHasher

def MIN_PASSWORD_LENGTH : Nat := 12
def MAX_PASSWORD_LENGTH : Nat := 1024
def KEY_LENGTH : Nat := 64
def SALT_LENGTH : Nat := 16

structure ScryptParams where
  N : Nat
  r : Nat
  p : Nat
  deriving DecidableEq

def DEFAULT_PARAMS : ScryptParams := ⟨32768, 8, 1⟩

def MIN_N : Nat := 1024
def MAX_N : Nat := 2 ^ 17
def MAX_R : Nat := 16
def MAX_P : Nat := 4

/-- What `hash` throws. -/
inductive HashError where
  | policy (message : String)
  | scrypt
  deriving DecidableEq

structure ParsedHash extends ScryptParams where
  salt : List UInt8
  hash : List UInt8
  deriving DecidableEq

structure Host where
  /-- To NFKC, in UTF-16 units. -/
  normalize : List UInt16 → List UInt16
  /-- Of the password, the salt, the length of the key, the parameters and `maxmem`. -/
  scrypt : List UInt8 → List UInt8 → Nat → ScryptParams → Nat → Option (List UInt8)
  toBase64 : List UInt8 → List Char
  fromBase64 : List Char → List UInt8

/-- What `randomBytes` gives for a salt. -/
abbrev Salt := { salt : List UInt8 // salt.length = SALT_LENGTH }

def DUMMY_SALT : Salt := ⟨List.replicate SALT_LENGTH 7, List.length_replicate⟩

variable (host : Host)

/-- The bytes of the password are those of its UTF-8. -/
def derive (password : List UInt16) (salt : List UInt8) (params : ScryptParams) (keyLength : Nat) :
    Option (List UInt8) :=
  host.scrypt (Utf16.utf8 password) salt keyLength params (256 * params.N * params.r)

/-! ## The stored text -/

/-- `/^\d+$/`. -/
def numeric (v : List Char) : Bool := v ≠ [] ∧ v.all Char.isDigit

/-- `N & (N - 1)` is taken of 32 bits. -/
def powerOfTwo (n : Nat) : Bool := n % 2 ^ 32 &&& (n - 1) % 2 ^ 32 = 0

def ScryptParams.withinBounds (params : ScryptParams) : Bool :=
  ¬ (params.N < MIN_N ∨ params.N > MAX_N ∨ params.r < 1 ∨ params.r > MAX_R ∨ params.p < 1 ∨
    params.p > MAX_P)

def parse (stored : String) : Option ParsedHash :=
  match stored.toList.splitOn '$' with
  | [scheme, n, r, p, salt, hash] =>
    if scheme ≠ "scrypt".toList then none
    else
      let params : ScryptParams :=
        ⟨Nat.ofDigitChars 10 n 0, Nat.ofDigitChars 10 r 0, Nat.ofDigitChars 10 p 0⟩
      let saltBuf := host.fromBase64 salt
      let hashBuf := host.fromBase64 hash
      if ¬ ([n, r, p].all numeric ∧ powerOfTwo params.N) then none
      else if ¬ params.withinBounds then none
      else if saltBuf.length = 0 ∨ hashBuf.length = 0 then none
      else some { params with salt := saltBuf, hash := hashBuf }
  | _ => none

def format (params : ScryptParams) (salt key : List UInt8) : String :=
  String.ofList (['$'].intercalate
    ["scrypt".toList, Nat.toDigits 10 params.N, Nat.toDigits 10 params.r,
    Nat.toDigits 10 params.p, host.toBase64 salt, host.toBase64 key])

/-! ## The policy -/

def withinPolicy (password : List UInt16) : Bool :=
  let length := (Utf16.decode (host.normalize password)).length
  MIN_PASSWORD_LENGTH ≤ length ∧ length ≤ MAX_PASSWORD_LENGTH

def checkPolicy (password : List UInt16) : Except HashError (List UInt16) :=
  let normalized := host.normalize password
  let length := (Utf16.decode normalized).length
  if length < MIN_PASSWORD_LENGTH then
    .error
      (.policy ("Password must be at least " ++ toString MIN_PASSWORD_LENGTH ++ " characters long"))
  else if length > MAX_PASSWORD_LENGTH then
    .error
      (.policy ("Password must be at most " ++ toString MAX_PASSWORD_LENGTH ++ " characters long"))
  else .ok normalized

/-! ## The hasher -/

/-- `hash` of a hasher with these parameters. -/
def hash (params : ScryptParams) (salt : Salt) (password : List UInt16) :
    Except HashError String := do
  let normalized ← checkPolicy host password
  match derive host normalized salt params KEY_LENGTH with
  | none => throw .scrypt
  | some key => return format host params salt key

/-- What `verify` comes to. -/
structure Verification where
  /-- The parameters that it derives a key with. -/
  derived : ScryptParams
  /-- `none` if it throws. -/
  answer : Option Bool
  deriving DecidableEq

def verify (params : ScryptParams) (password : List UInt16) (stored : Option String) :
    Verification :=
  match stored.bind (parse host), withinPolicy host password with
  | some parsed, true =>
    { derived := parsed.toScryptParams
      answer := (derive host (host.normalize password) parsed.salt parsed.toScryptParams
        parsed.hash.length).map fun key => key.length = parsed.hash.length ∧ key = parsed.hash }
  | _, _ =>
    { derived := params
      answer := (derive host ((host.normalize password).take MAX_PASSWORD_LENGTH) DUMMY_SALT
        params KEY_LENGTH).map fun _ => false }

def needsRehash (params : ScryptParams) (stored : String) : Bool :=
  match parse host stored with
  | none => true
  | some parsed => parsed.N < params.N ∨ parsed.r < params.r ∨ parsed.p < params.p

end NexusWorkflow.PasswordHasher
