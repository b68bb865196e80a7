import NexusWorkflow.Lib.Base64
import NexusWorkflow.Model.PasswordHasher

/-!
# Password hashes verify

A hash is read back by `parse` exactly when its parameters are within the bounds of `parse`.  Then
`verify` derives the same key from the same password, whatever its own parameters are.
-/

namespace NexusWorkflow.PasswordHasher

variable {host : Host} {params others : ScryptParams} {salt : Salt}
    {password other attempt : List UInt16} {h : String}

/-! ## What is promised -/

/-- What `parse` accepts. -/
def ScryptParams.Bounded (params : ScryptParams) : Prop :=
  powerOfTwo params.N = true ∧ params.withinBounds = true

/-- What the hasher relies on. -/
structure Host.Lawful (host : Host) : Prop where
  runs : ∀ password salt keyLength (params : ScryptParams), params.Bounded →
    ((host.scrypt password salt keyLength params (256 * params.N * params.r)).isSome = true ↔
      params.N < 2 ^ (16 * params.r) ∧ keyLength < 2 ^ 31)
  length : ∀ password salt keyLength params maxmem key,
    host.scrypt password salt keyLength params maxmem = some key → key.length = keyLength
  exact : ∀ bytes, host.fromBase64 (host.toBase64 bytes) = bytes
  no_dollar : ∀ bytes, '$' ∉ host.toBase64 bytes

/-- A hasher of these parameters can hash. -/
def Hashes (host : Host) (params : ScryptParams) : Prop :=
  ∀ password salt, (derive host password salt params KEY_LENGTH).isSome = true

/-- `scrypt` does not collide on these two passwords. -/
def CollisionFree (host : Host) (params : ScryptParams) (salt : Salt)
    (password other : List UInt16) : Prop :=
  ∀ key, derive host (host.normalize password) salt params KEY_LENGTH = some key →
    derive host (host.normalize other) salt params KEY_LENGTH = some key →
      Utf16.utf8 (host.normalize other) = Utf16.utf8 (host.normalize password)

/-- A hash `h` of the password is verified, by a hasher of these parameters; so are a stored text
and an attempt at it. -/
structure Verifies (host : Host) (params : ScryptParams) (password other : List UInt16) (h : String)
    (attempt : List UInt16) (stored : Option String) : Prop where
  accepts : (verify host params password (some h)).answer = some true
  only : (verify host params other (some h)).answer = some true →
    withinPolicy host other = true ∧ host.normalize other = host.normalize password
  answers : (verify host params attempt stored).answer.isSome = true
  bounded : (verify host params attempt stored).derived.Bounded

/-- No other password of the policy looks the same when every lone surrogate is replaced. -/
def Distinct (host : Host) (password other : List UInt16) : Prop :=
  withinPolicy host other = true →
    Utf16.decode (host.normalize other) = Utf16.decode (host.normalize password) →
      host.normalize other = host.normalize password

/-- What the stored text names can be derived; where it names nothing, the hasher's own parameters
are within the bounds. -/
def Derivable (host : Host) (params : ScryptParams) (attempt : List UInt16)
    (stored : Option String) : Prop :=
  match stored.bind (parse host), withinPolicy host attempt with
  | some parsed, true => parsed.N < 2 ^ (16 * parsed.r) ∧ parsed.hash.length < 2 ^ 31
  | _, _ => params.Bounded

/-! ## The stored text -/

theorem numeric_toDigits (n : Nat) : numeric (Nat.toDigits 10 n) = true := by
  have hall : (Nat.toDigits 10 n).all Char.isDigit = true :=
    List.all_eq_true.2 fun c hc => Nat.isDigit_of_mem_toDigits (by decide) (by decide) hc
  simp [numeric, hall, Nat.toDigits_ne_nil]

theorem dollar_notMem_toDigits (n : Nat) : '$' ∉ Nat.toDigits 10 n := fun hmem =>
  absurd (Nat.isDigit_of_mem_toDigits (by decide) (by decide) hmem) (by decide)

theorem splitOn_format (hlawful : host.Lawful) (params : ScryptParams) (salt key : List UInt8) :
    (format host params salt key).toList.splitOn '$' = ["scrypt".toList, Nat.toDigits 10 params.N,
      Nat.toDigits 10 params.r, Nat.toDigits 10 params.p, host.toBase64 salt,
        host.toBase64 key] := by
  rw [format, String.toList_ofList]
  refine List.splitOn_intercalate '$' (fun l hl => ?_) (by simp)
  simp only [List.mem_cons, List.not_mem_nil, or_false] at hl
  rcases hl with rfl | rfl | rfl | rfl | rfl | rfl
  · decide
  · exact dollar_notMem_toDigits _
  · exact dollar_notMem_toDigits _
  · exact dollar_notMem_toDigits _
  · exact hlawful.no_dollar _
  · exact hlawful.no_dollar _

theorem parse_bounded {stored : String} {parsed : ParsedHash}
    (hparse : parse host stored = some parsed) : parsed.toScryptParams.Bounded := by
  unfold parse at hparse
  split at hparse
  · dsimp only at hparse
    split_ifs at hparse with hscheme hnumeric hbounds hempty
    cases hparse
    exact ⟨hnumeric.2, hbounds⟩
  · cases hparse

/-- What `hash` has written is read back, or not at all. -/
theorem parse_format (hlawful : host.Lawful) (params : ScryptParams) {salt key : List UInt8}
    (hsalt : salt ≠ []) (hkey : key ≠ []) : (params.Bounded →
    parse host (format host params salt key) = some { params with salt, hash := key }) ∧
      (¬ params.Bounded → parse host (format host params salt key) = none) := by
  have hnumeric :
      ([Nat.toDigits 10 params.N, Nat.toDigits 10 params.r, Nat.toDigits 10 params.p].all numeric) =
      true := by
    simp [numeric_toDigits]
  simp only [parse, splitOn_format hlawful, Nat.ofDigitChars_ten_toDigits, hlawful.exact, hnumeric,
    ne_eq,
    not_true_eq_false, if_false, true_and, List.length_eq_zero_iff, hsalt, hkey, or_self]
  constructor
  · rintro ⟨hpower, hbounds⟩
    simp [hpower, hbounds]
  · intro hnot
    by_cases hpower : powerOfTwo params.N = true
    · have hbounds : ¬ params.withinBounds = true := fun hbounds => hnot ⟨hpower, hbounds⟩
      simp [hbounds]
    · simp [hpower]

/-! ## Hashes -/

theorem checkPolicy_ok {normalized : List UInt16} (h : checkPolicy host password = .ok normalized) :
    normalized = host.normalize password ∧ withinPolicy host password = true := by
  unfold checkPolicy at h
  dsimp only at h
  split_ifs at h with hshort hlong
  cases h
  refine ⟨rfl, ?_⟩
  unfold withinPolicy
  exact decide_eq_true ⟨by omega, by omega⟩

theorem hash_ok (hhash : hash host params salt password = .ok h) :
    withinPolicy host password = true ∧
    ∃ key, derive host (host.normalize password) salt params KEY_LENGTH = some key ∧
      h = format host params salt key := by
  unfold hash at hhash
  cases hpolicy : checkPolicy host password with
  | error e =>
    rw [hpolicy] at hhash
    cases hhash
  | ok normalized =>
    obtain ⟨rfl, hwithin⟩ := checkPolicy_ok hpolicy
    rw [hpolicy] at hhash
    cases hkey : derive host (host.normalize password) salt params KEY_LENGTH with
    | none =>
      simp only [bind, Except.bind, hkey] at hhash
      cases hhash
    | some key =>
      simp only [bind, Except.bind, hkey] at hhash
      cases hhash
      exact ⟨hwithin, key, rfl, rfl⟩

/-- What `hash` has written is read back exactly if its parameters are within the bounds. -/
theorem parse_hash (hlawful : host.Lawful) (hhash : hash host params salt password = .ok h) :
    ∃ key, derive host (host.normalize password) salt params KEY_LENGTH = some key ∧
      key.length = KEY_LENGTH ∧
      (params.Bounded → parse host h = some { params with salt := salt.val, hash := key }) ∧
      (¬ params.Bounded → parse host h = none) := by
  obtain ⟨-, key, hkey, rfl⟩ := hash_ok hhash
  have hlength := hlawful.length _ _ _ _ _ _ hkey
  have hsalt : salt.val ≠ [] := fun hnil => by
    have hsize := salt.property
    rw [hnil] at hsize
    cases hsize
  have hne : key ≠ [] := fun hnil => by
    rw [hnil] at hlength
    cases hlength
  exact ⟨key, hkey, hlength, parse_format hlawful params hsalt hne⟩

/-- A hash that a hasher has made needs no other by the same hasher. -/
theorem needsRehash_hash (hlawful : host.Lawful) (hbounded : params.Bounded)
    (hhash : hash host params salt password = .ok h) : needsRehash host params h = false := by
  obtain ⟨key, -, -, hparse, -⟩ := parse_hash hlawful hhash
  simp [needsRehash, hparse hbounded]

/-! ## Verifying -/

theorem verify_of_parsed {stored : String} {parsed : ParsedHash}
    (hparse : parse host stored = some parsed) (hwithin : withinPolicy host password = true) :
    verify host params password (some stored) =
      { derived := parsed.toScryptParams
        answer :=
          (derive host (host.normalize password) parsed.salt parsed.toScryptParams
          parsed.hash.length).map
          fun key => key.length = parsed.hash.length ∧ key = parsed.hash } := by
  simp [verify, hparse, hwithin]

/-- `verify` says yes only by way of the key that is stored. -/
theorem answer_eq_true {stored : String}
    (hanswer : (verify host params password (some stored)).answer = some true) :
    ∃ parsed, parse host stored = some parsed ∧ withinPolicy host password = true ∧
      derive host (host.normalize password) parsed.salt parsed.toScryptParams parsed.hash.length =
        some parsed.hash := by
  unfold verify at hanswer
  split at hanswer
  · rename_i parsed hparse hwithin
    obtain ⟨key, hkey, heq⟩ := Option.map_eq_some_iff.1 hanswer
    obtain ⟨-, rfl⟩ := of_decide_eq_true heq
    exact ⟨parsed, hparse, hwithin, hkey⟩
  · obtain ⟨_, -, heq⟩ := Option.map_eq_some_iff.1 hanswer
    cases heq

theorem accepts_iff (hlawful : host.Lawful) (hhash : hash host params salt password = .ok h) :
    (verify host others password (some h)).answer = some true ↔ params.Bounded := by
  obtain ⟨key, hkey, hlength, hread, hunread⟩ := parse_hash hlawful hhash
  constructor
  · intro hanswer
    obtain ⟨parsed, hparse, -⟩ := answer_eq_true hanswer
    by_contra hnot
    rw [hunread hnot] at hparse
    cases hparse
  · intro hbounded
    rw [verify_of_parsed (hread hbounded) (hash_ok hhash).1]
    simp [hlength, hkey]

/-- Another password is verified exactly if it is of the policy and has the bytes of the
password. -/
theorem answer_iff (hlawful : host.Lawful) (hhash : hash host params salt password = .ok h)
    (hbounded : params.Bounded) (hfree : CollisionFree host params salt password other) :
    (verify host others other (some h)).answer = some true ↔
      withinPolicy host other = true ∧
        Utf16.utf8 (host.normalize other) = Utf16.utf8 (host.normalize password) := by
  obtain ⟨key, hkey, hlength, hread, -⟩ := parse_hash hlawful hhash
  constructor
  · intro hanswer
    obtain ⟨parsed, hparse, hwithin, hderive⟩ := answer_eq_true hanswer
    rw [hread hbounded] at hparse
    cases hparse
    rw [hlength] at hderive
    exact ⟨hwithin, hfree key hkey hderive⟩
  · rintro ⟨hwithin, hbytes⟩
    rw [verify_of_parsed (hread hbounded) hwithin]
    simp only [hlength, derive, hbytes]
    change (derive host (host.normalize password) salt params KEY_LENGTH).map _ = _
    simp [hkey, hlength]

theorem only_iff (hlawful : host.Lawful) (hhash : hash host params salt password = .ok h)
    (hbounded : params.Bounded) (hfree : CollisionFree host params salt password other) :
    ((verify host others other (some h)).answer = some true →
      withinPolicy host other = true ∧ host.normalize other = host.normalize password) ↔
        Distinct host password other := by
  rw [answer_iff hlawful hhash hbounded hfree, Utf16.utf8_eq_iff]
  constructor
  · exact fun honly hwithin hsame => (honly ⟨hwithin, hsame⟩).2
  · exact fun hdistinct ⟨hwithin, hsame⟩ => ⟨hwithin, hdistinct hwithin hsame⟩

/-- A password without a lone surrogate is not taken for another one without. -/
theorem distinct_of_wellFormed (hpassword : Utf16.wellFormed (host.normalize password) = true)
    (hother : Utf16.wellFormed (host.normalize other) = true) : Distinct host password other :=
  fun _ hsame => Utf16.decode_injective hother hpassword hsame

theorem derivable_iff (hlawful : host.Lawful) (hothers : Hashes host others)
    {stored : Option String} : ((verify host others attempt stored).answer.isSome = true ∧
    (verify host others attempt stored).derived.Bounded) ↔
      Derivable host others attempt stored := by
  have hdummy : (derive host ((host.normalize attempt).take MAX_PASSWORD_LENGTH) DUMMY_SALT others
      KEY_LENGTH).isSome = true :=
    hothers _ _
  unfold verify Derivable
  cases hparse : stored.bind (parse host) with
  | none =>
    dsimp only
    rw [Option.isSome_map]
    exact and_iff_right hdummy
  | some parsed =>
    cases hwithin : withinPolicy host attempt with
    | false =>
      dsimp only
      rw [Option.isSome_map]
      exact and_iff_right hdummy
    | true =>
      obtain ⟨text, -, htext⟩ := Option.bind_eq_some_iff.1 hparse
      have hbounded := parse_bounded htext
      dsimp only
      rw [Option.isSome_map, derive, hlawful.runs _ _ _ _ hbounded]
      exact and_iff_left hbounded

/-- A hash verifies, and nothing else does, exactly under these conditions. -/
theorem passwords_verify (hlawful : host.Lawful) (hhash : hash host params salt password = .ok h)
    (hothers : Hashes host others) (hfree : CollisionFree host params salt password other)
    (stored : Option String) : Verifies host others password other h attempt stored ↔
      params.Bounded ∧ Distinct host password other ∧ Derivable host others attempt stored := by
  constructor
  · rintro ⟨haccepts, honly, hanswers, hderived⟩
    have hbounded := (accepts_iff hlawful hhash).1 haccepts
    exact ⟨hbounded, (only_iff hlawful hhash hbounded hfree).1 honly,
      (derivable_iff hlawful hothers).1 ⟨hanswers, hderived⟩⟩
  · rintro ⟨hbounded, hdistinct, hderivable⟩
    obtain ⟨hanswers, hderived⟩ := (derivable_iff hlawful hothers).2 hderivable
    exact ⟨(accepts_iff hlawful hhash).2 hbounded,
      (only_iff hlawful hhash hbounded hfree).2 hdistinct, hanswers, hderived⟩

/-! ## A host -/

/-- When `scrypt` runs. -/
def scryptRuns (params : ScryptParams) (maxmem : Nat) : Bool :=
  (params.N &&& (params.N - 1)) = 0 ∧ 2 ≤ params.N ∧ 1 ≤ params.r ∧ 1 ≤ params.p ∧
    params.N < 2 ^ (16 * params.r) ∧
    params.p * params.r < 2 ^ 30 ∧ 128 * params.r * (params.N + params.p + 2) ≤ maxmem

/-- A host for texts that are in NFKC; it is no one-way function. -/
def plainHost : Host where
  normalize := id
  scrypt password salt keyLength params maxmem :=
    if scryptRuns params maxmem ∧ keyLength < 2 ^ 31 then
      some ((password ++ salt ++ List.replicate keyLength 0).take keyLength)
    else none
  toBase64 := Base64.encode
  fromBase64 := Base64.decode

theorem scryptRuns_of_bounded (h : params.Bounded) :
    scryptRuns params (256 * params.N * params.r) = true ↔ params.N < 2 ^ (16 * params.r) := by
  obtain ⟨hpower, hbounds⟩ := h
  have hbounds := of_decide_eq_true hbounds
  simp only [MIN_N, MAX_N, MAX_R, MAX_P] at hbounds
  have hmod : params.N % 2 ^ 32 = params.N := Nat.mod_eq_of_lt (by omega)
  have hmod' : (params.N - 1) % 2 ^ 32 = params.N - 1 := Nat.mod_eq_of_lt (by omega)
  have hpower := of_decide_eq_true hpower
  rw [hmod, hmod'] at hpower
  have hmemory : 128 * params.r * (params.N + params.p + 2) ≤ 256 * params.N * params.r := by
    have hle : params.N + params.p + 2 ≤ 2 * params.N := by omega
    calc 128 * params.r * (params.N + params.p + 2) ≤ 128 * params.r * (2 * params.N) :=
      Nat.mul_le_mul_left _ hle
      _ = 256 * params.N * params.r := by
        rw [Nat.mul_mul_mul_comm, Nat.mul_comm params.r, ← Nat.mul_assoc]
  have hproduct : params.p * params.r < 2 ^ 30 :=
    Nat.lt_of_le_of_lt (Nat.mul_le_mul (show params.p ≤ 4 by omega) (show params.r ≤ 16 by omega))
      (by decide)
  unfold scryptRuns
  rw [decide_eq_true_eq]
  constructor
  · exact fun h => h.2.2.2.2.1
  · exact fun h => ⟨hpower, by omega, by omega, by omega, h, hproduct, hmemory⟩

theorem plainHost_lawful : plainHost.Lawful where
  runs password salt keyLength params hbounded := by
    rw [← scryptRuns_of_bounded hbounded]
    by_cases hruns : scryptRuns params (256 * params.N * params.r) = true ∧ keyLength < 2 ^ 31 <;>
      simp [plainHost, hruns]
  length password salt keyLength params maxmem key h := by
    simp only [plainHost] at h
    split_ifs at h
    cases h
    rw [List.length_take, List.length_append, List.length_replicate]
    omega
  exact := Base64.decode_encode
  no_dollar bytes hmem := by
    rcases Base64.mem_encode hmem with h | h
    · exact absurd h (by decide)
    · exact absurd h (by decide)

theorem hashes_default : Hashes plainHost DEFAULT_PARAMS := fun _ _ =>
  (plainHost_lawful.runs _ _ _ DEFAULT_PARAMS ⟨by decide +kernel, by decide +kernel⟩).2
    (by decide +kernel)

def units (text : String) : List UInt16 := text.toList.flatMap Utf16.units

instance : Decidable params.Bounded := inferInstanceAs (Decidable (_ ∧ _))

instance decidableDerivable (stored : Option String) :
    Decidable (Derivable host params attempt stored) := by
  unfold Derivable
  split <;> infer_instance

/-- A hash that a hasher with the default parameters has made, verified by a cheap one. -/
theorem passwords_verify_default :
    ∃ h, hash plainHost DEFAULT_PARAMS DUMMY_SALT (units "correct horse battery staple") = .ok h ∧
    Verifies plainHost ⟨1024, 8, 1⟩ (units "correct horse battery staple")
      (units "wrong password here") h (units "correct horse battery staple")
      (some "scrypt$2048$8$1$YWJj$YWJj") := by
  have hhash : (hash plainHost DEFAULT_PARAMS DUMMY_SALT
      (units "correct horse battery staple")).isOk = true := by
    decide +kernel
  cases hh : hash plainHost DEFAULT_PARAMS DUMMY_SALT (units "correct horse battery staple") with
  | error e =>
    rw [hh] at hhash
    cases hhash
  | ok h =>
    have hothers : Hashes plainHost ⟨1024, 8, 1⟩ := fun _ _ =>
      (plainHost_lawful.runs _ _ _ ⟨1024, 8, 1⟩ (by decide +kernel)).2 (by decide +kernel)
    have hdiffer : derive plainHost
        (plainHost.normalize (units "correct horse battery staple")) DUMMY_SALT DEFAULT_PARAMS
        KEY_LENGTH ≠ derive plainHost
          (plainHost.normalize (units "wrong password here")) DUMMY_SALT DEFAULT_PARAMS
          KEY_LENGTH := by
      decide +kernel
    have hfree : CollisionFree plainHost DEFAULT_PARAMS DUMMY_SALT
        (units "correct horse battery staple")
        (units "wrong password here") := fun key hkey hkey' =>
          absurd (hkey.trans hkey'.symm) hdiffer
    exact ⟨h, rfl, (passwords_verify plainHost_lawful hh hothers hfree _).2 ⟨by decide +kernel,
      distinct_of_wellFormed (by decide +kernel) (by decide +kernel), by decide +kernel⟩⟩

/-- A hasher with `N = 2 ^ 18` makes hashes that no hasher reads. -/
theorem not_passwords_verify : ¬ ∀ (host : Host) (params others : ScryptParams) (salt : Salt)
    (password other attempt : List UInt16) (h : String) (stored : Option String), host.Lawful →
      hash host params salt password = .ok h → Hashes host others →
        CollisionFree host params salt password other →
        Verifies host others password other h attempt stored := by
  intro hall
  have hhash : (hash plainHost ⟨2 ^ 18, 8, 1⟩ DUMMY_SALT
      (units "correct horse battery staple")).isOk = true := by
    decide +kernel
  cases hh : hash plainHost ⟨2 ^ 18, 8, 1⟩ DUMMY_SALT (units "correct horse battery staple") with
  | error e =>
    rw [hh] at hhash
    cases hhash
  | ok h =>
    have hverifies := hall plainHost ⟨2 ^ 18, 8, 1⟩ DEFAULT_PARAMS DUMMY_SALT
        (units "correct horse battery staple")
      (units "correct horse battery staple") [] h none plainHost_lawful hh hashes_default
        fun _ _ _ => rfl
    exact absurd ((accepts_iff plainHost_lawful hh).1 hverifies.accepts) (by decide +kernel)

end NexusWorkflow.PasswordHasher
