import M6.Auth.Session
import M6.Edge.Gate
import Mathlib.Algebra.Ring.Int.Defs

/-!
# The two token verifiers

Tokens are checked in two programs: the edge's `PublicKey::verify`, before a request
for a protected route is forwarded, and the auth server's `JwtEngine::decode_access`.
Both call `jsonwebtoken` with a `Validation` of their own and a claim type of their
own, so what a token must be is written down twice.

`TokenLib` is what the two share: reading keys and opening a signed token. `validate`
and the readers of the claim types say what is asked of the document inside.
`verifiers_agree_iff` says for which documents the two give the same answer.
-/

namespace M6

open Option

/-! ## Documents -/

abbrev ClaimsDoc : Type := List (Str × Value)

namespace Value

def asInteger : Value → Option Int
  | number text =>
    let negative := text.head? = some '-'
    let digits := if negative then text.tail else text
    let n : Nat := digits.foldl (fun n c => n * 10 + (c.toNat - '0'.toNat)) 0
    if digits = [] ∨ !digits.all Char.isDigit then none
    else if negative then if n = 0 then none else some (-n)
    else some n
  | _ => none

/-- A `u64`. -/
def asU64 (v : Value) : Option Nat :=
  v.asInteger.bind fun n => if 0 ≤ n ∧ n < 2 ^ 64 then some n.toNat else none

/-- An `i64`. -/
def asI64 (v : Value) : Option Int :=
  v.asInteger.bind fun n => if -2 ^ 63 ≤ n ∧ n < 2 ^ 63 then some n else none

def asStrings : Value → Option (List Str)
  | array items => items.mapM asStr
  | _ => none

end Value

/-- The member of a name. A name that stands twice is an error: the outer `none`. -/
def member (doc : ClaimsDoc) (name : Str) : Option (Option Value) :=
  match doc.filter fun m => m.1 = name with
  | [] => some none
  | [m] => some (some m.2)
  | _ => none

section

variable {α : Type} (read : Value → Option α) (doc : ClaimsDoc) (name : Str)

def requiredField : Option α := (member doc name).bind fun m => m.bind read

/-- A field of an `Option` type: it may be missing or null. -/
def optionalField : Option (Option α) :=
  (member doc name).bind fun
    | none | some .null => some none
    | some v => (read v).map some

end

/-- The edge's claim type. What it does not name goes into a map of extras. -/
def Claims.read (doc : ClaimsDoc) : Option Claims := do
  let sub ← optionalField Value.asStr doc "sub".toList
  let iss ← optionalField Value.asStr doc "iss".toList
  let exp ← optionalField Value.asU64 doc "exp".toList
  let groups ← optionalField Value.asStrings doc "groups".toList
  let roles ← optionalField Value.asStrings doc "roles".toList
  return ⟨sub, iss, exp, groups, roles⟩

def AccessClaims.read (doc : ClaimsDoc) : Option AccessClaims := do
  let iss ← requiredField Value.asStr doc "iss".toList
  let sub ← requiredField Value.asStr doc "sub".toList
  let exp ← requiredField Value.asI64 doc "exp".toList
  let iat ← requiredField Value.asI64 doc "iat".toList
  let username ← requiredField Value.asStr doc "username".toList
  let groups ← requiredField Value.asStrings doc "groups".toList
  let roles ← requiredField Value.asStrings doc "roles".toList
  return ⟨iss, sub, exp, iat, username, groups, roles⟩

def RefreshClaims.read (doc : ClaimsDoc) : Option RefreshClaims := do
  let iss ← requiredField Value.asStr doc "iss".toList
  let sub ← requiredField Value.asStr doc "sub".toList
  let exp ← requiredField Value.asI64 doc "exp".toList
  let iat ← requiredField Value.asI64 doc "iat".toList
  let username ← requiredField Value.asStr doc "username".toList
  let tokenType ← requiredField Value.asStr doc "type".toList
  return ⟨iss, sub, exp, iat, username, tokenType⟩

def integerValue (n : Int) : Value :=
  .number (if n < 0 then '-' :: decimal n.natAbs else decimal n.natAbs)

def RefreshClaims.doc (c : RefreshClaims) : ClaimsDoc :=
  [("iss".toList, .string c.iss), ("sub".toList, .string c.sub), ("exp".toList, integerValue c.exp),
    ("iat".toList, integerValue c.iat), ("username".toList, .string c.username),
    ("type".toList, .string c.tokenType)]

def AccessClaims.doc (c : AccessClaims) : ClaimsDoc :=
  [("iss".toList, .string c.iss), ("sub".toList, .string c.sub), ("exp".toList, integerValue c.exp),
    ("iat".toList, integerValue c.iat), ("username".toList, .string c.username),
    ("groups".toList, .array (c.groups.map .string)),
      ("roles".toList, .array (c.roles.map .string))]

/-! ## The library -/

inductive Algorithm where
  | rs256
  | es256
  deriving DecidableEq

structure TokenLib (Key SigningKey : Type) where
  /-- read a PEM text as a key of the kind -/
  rsaPublic : Str → Option Key
  ecPublic : Str → Option Key
  rsaPrivate : Str → Option SigningKey
  ecPrivate : Str → Option SigningKey
  /-- the document of a token that names the algorithm and is signed under the key -/
  openToken : Algorithm → Key → Str → Option ClaimsDoc
  /-- whether an audience passes a validation that names none -/
  audience : Value → Bool
  public_kind : ∀ {pem key}, rsaPublic pem = some key → ecPublic pem = none

/-- What a decoder asks of a document beside its claim type. -/
structure Validation where
  algorithm : Algorithm
  requiredSpecClaims : List Str
  leeway : Nat
  validateExp : Bool
  validateAud : Bool
  iss : Option (List Str)

def Validation.new (algorithm : Algorithm) : Validation :=
  ⟨algorithm, ["exp".toList], 60, true, true, none⟩

section

variable {Key SigningKey : Type} (lib : TokenLib Key SigningKey)

/-- A registered claim, where it can be read. A document that holds one twice is
refused as a whole by `registeredOnce`. -/
def registered {α : Type} (read : Value → Option α) (doc : ClaimsDoc) (name : Str) : Option α :=
  ((member doc name).getD none).bind read

def registeredOnce (doc : ClaimsDoc) : Bool :=
  ["exp".toList, "nbf".toList, "sub".toList, "iss".toList, "aud".toList].all fun name =>
    (member doc name).isSome

/-- Whether a document passes a validation. A date that is not an integer does not
come so far: both claim types refuse it. -/
def validate (v : Validation) (now : Nat) (doc : ClaimsDoc) : Bool :=
  registeredOnce doc &&
  (!v.requiredSpecClaims.contains "exp".toList ||
    (registered Value.asU64 doc "exp".toList).isSome) &&
  (!v.validateExp || ((registered Value.asU64 doc "exp".toList).all fun exp =>
    !decide (exp < now - v.leeway))) &&
  (match registered Value.asStr doc "iss".toList, v.iss with
    | some iss, some issuers => issuers.contains iss
    | _, _ => true) &&
  (!v.validateAud || (registered some doc "aud".toList).all lib.audience)

def decode {α : Type} (read : ClaimsDoc → Option α) (v : Validation) (key : Key) (now : Nat)
    (token : Str) : Option α := do
  let doc ← lib.openToken v.algorithm key token
  let claims ← read doc
  if validate lib v now doc then some claims else none

end

/-! ## The edge's verifier -/

structure VerifyKey (Key : Type) where
  decodingKey : Key
  algorithm : Algorithm

namespace VerifyKey

variable {Key SigningKey : Type} (lib : TokenLib Key SigningKey)

def fromPem (pem : Str) : Option (VerifyKey Key) :=
  match lib.rsaPublic pem with
  | some key => some ⟨key, .rs256⟩
  | none => (lib.ecPublic pem).map fun key => ⟨key, .es256⟩

/-- What the edge asks: an expiry, and no issuer. -/
def validation (key : VerifyKey Key) : Validation :=
  { Validation.new key.algorithm with validateExp := true, requiredSpecClaims := ["exp".toList] }

def verify (key : VerifyKey Key) (now : Nat) (token : Str) : Option Claims :=
  decode lib Claims.read key.validation key.decodingKey now token

def toPublicKey (key : VerifyKey Key) : PublicKey := ⟨key.verify lib⟩

end VerifyKey

/-! ## The server's verifier -/

structure TokenEngine (Key SigningKey : Type) where
  encoding : SigningKey
  decoding : Key
  algorithm : Algorithm
  issuer : Str

namespace TokenEngine

variable {Key SigningKey : Type} (lib : TokenLib Key SigningKey)

def new (privatePem publicPem issuer : Str) : Option (TokenEngine Key SigningKey) :=
  match lib.ecPrivate privatePem with
  | some encoding => (lib.ecPublic publicPem).map fun decoding =>
      ⟨encoding, decoding, .es256, issuer⟩
  | none => do
    let encoding ← lib.rsaPrivate privatePem
    let decoding ← lib.rsaPublic publicPem
    return ⟨encoding, decoding, .rs256, issuer⟩

def validation (engine : TokenEngine Key SigningKey) : Validation :=
  { Validation.new engine.algorithm with iss := some [engine.issuer] }

def decodeAccess (engine : TokenEngine Key SigningKey) (now : Nat) (token : Str) :
    Option AccessClaims :=
  decode lib AccessClaims.read engine.validation engine.decoding now token

def decodeRefresh (engine : TokenEngine Key SigningKey) (now : Nat) (token : Str) :
    Option RefreshClaims :=
  decode lib RefreshClaims.read engine.validation engine.decoding now token

end TokenEngine

/-! ## Agreement -/

structure EdgeDoc {Key SigningKey : Type} (lib : TokenLib Key SigningKey) (now : Nat)
    (doc : ClaimsDoc) : Prop where
  sub : (optionalField Value.asStr doc "sub".toList).isSome
  iss : (optionalField Value.asStr doc "iss".toList).isSome
  exp : ∃ exp, requiredField Value.asU64 doc "exp".toList = some exp ∧ now - 60 ≤ exp
  groups : (optionalField Value.asStrings doc "groups".toList).isSome
  roles : (optionalField Value.asStrings doc "roles".toList).isSome
  nbf : (member doc "nbf".toList).isSome
  aud : ∃ aud, member doc "aud".toList = some aud ∧ ∀ v, aud = some v → lib.audience v = true

/-- The document of an access token of an issuer: every claim of the type, and the
issuer's name. -/
structure AccessDoc (issuer : Str) (doc : ClaimsDoc) : Prop where
  iss : requiredField Value.asStr doc "iss".toList = some issuer
  sub : (requiredField Value.asStr doc "sub".toList).isSome
  exp : (requiredField Value.asI64 doc "exp".toList).isSome
  iat : (requiredField Value.asI64 doc "iat".toList).isSome
  username : (requiredField Value.asStr doc "username".toList).isSome
  groups : (requiredField Value.asStrings doc "groups".toList).isSome
  roles : (requiredField Value.asStrings doc "roles".toList).isSome

/-- The two verifiers agree on a token: they accept the same, and neither accepts a token
of another issuer or a refresh token. -/
structure VerifiersAgree {Key SigningKey : Type} (lib : TokenLib Key SigningKey)
    (key : VerifyKey Key) (engine : TokenEngine Key SigningKey) (now : Nat)
      (token : Str) : Prop where
  same : (key.verify lib now token).isSome ↔ (engine.decodeAccess lib now token).isSome
  foreign : ∀ doc, lib.openToken key.algorithm key.decodingKey token = some doc →
    requiredField Value.asStr doc "iss".toList ≠ some engine.issuer →
    key.verify lib now token = none ∧ engine.decodeAccess lib now token = none
  refresh : ∀ c : RefreshClaims, lib.openToken key.algorithm key.decodingKey token = some c.doc →
    key.verify lib now token = none ∧ engine.decodeAccess lib now token = none

section

variable {Key SigningKey : Type} {lib : TokenLib Key SigningKey}

variable {doc : ClaimsDoc} {read : Value → Option α} {α : Type} {name : Str}

theorem requiredField_isSome :
    (requiredField read doc name).isSome ↔ ∃ v, member doc name = some (some v) ∧
      (read v).isSome := by
  rw [requiredField]
  rcases member doc name with _ | _ | v
  · simp
  · simp
  · simp

/-- A required field that can be read is one that an `Option` type can read. -/
theorem optionalField_of_required
    (hnull : read .null = none) (h : (requiredField read doc name).isSome) :
    (optionalField read doc name).isSome := by
  obtain ⟨v, hv, hread⟩ := requiredField_isSome.mp h
  cases v with
  | null => rw [hnull] at hread; cases hread
  | bool b | number text | string s | array items | object fields =>
    simpa [optionalField, hv] using hread

theorem claims_read_isSome :
    (Claims.read doc).isSome ↔ (optionalField Value.asStr doc "sub".toList).isSome ∧
      (optionalField Value.asStr doc "iss".toList).isSome ∧
      (optionalField Value.asU64 doc "exp".toList).isSome ∧
      (optionalField Value.asStrings doc "groups".toList).isSome ∧
      (optionalField Value.asStrings doc "roles".toList).isSome := by
  rw [Claims.read]
  rcases optionalField Value.asStr doc "sub".toList with _ | sub
  · simp
  rcases optionalField Value.asStr doc "iss".toList with _ | iss
  · simp
  rcases optionalField Value.asU64 doc "exp".toList with _ | exp
  · simp
  rcases optionalField Value.asStrings doc "groups".toList with _ | groups
  · simp
  rcases optionalField Value.asStrings doc "roles".toList with _ | roles
  · simp
  · simp

theorem accessClaims_read_isSome :
    (AccessClaims.read doc).isSome ↔ (requiredField Value.asStr doc "iss".toList).isSome ∧
      (requiredField Value.asStr doc "sub".toList).isSome ∧
      (requiredField Value.asI64 doc "exp".toList).isSome ∧
      (requiredField Value.asI64 doc "iat".toList).isSome ∧
      (requiredField Value.asStr doc "username".toList).isSome ∧
      (requiredField Value.asStrings doc "groups".toList).isSome ∧
      (requiredField Value.asStrings doc "roles".toList).isSome := by
  rw [AccessClaims.read]
  rcases requiredField Value.asStr doc "iss".toList with _ | iss
  · simp
  rcases requiredField Value.asStr doc "sub".toList with _ | sub
  · simp
  rcases requiredField Value.asI64 doc "exp".toList with _ | exp
  · simp
  rcases requiredField Value.asI64 doc "iat".toList with _ | iat
  · simp
  rcases requiredField Value.asStr doc "username".toList with _ | username
  · simp
  rcases requiredField Value.asStrings doc "groups".toList with _ | groups
  · simp
  rcases requiredField Value.asStrings doc "roles".toList with _ | roles
  · simp
  · simp

variable {now : Nat}

theorem decode_isSome {read : ClaimsDoc → Option α} {v : Validation} {key : Key} {token : Str} :
    (decode lib read v key now token).isSome ↔
      ∃ doc, lib.openToken v.algorithm key token = some doc ∧ (read doc).isSome ∧
        validate lib v now doc = true := by
  rw [decode]
  rcases lib.openToken v.algorithm key token with _ | doc
  · simp
  simp only [bind_eq_bind, bind_some, some.injEq, exists_eq_left']
  rcases read doc with _ | claims
  · simp
  · simp

theorem member_of_optional
    (h : (optionalField read doc name).isSome) : (member doc name).isSome := by
  rw [optionalField] at h
  rcases hm : member doc name with _ | m
  · rw [hm] at h
    cases h
  · rfl

theorem registered_eq_required : registered read doc name = requiredField read doc name := by
  rw [registered, requiredField]
  rcases member doc name with _ | m
  · rfl
  · rfl

theorem validate_iff {algorithm : Algorithm} {issuers : Option (List Str)} :
    validate lib { Validation.new algorithm with iss := issuers } now doc = true ↔
      registeredOnce doc = true ∧
      (∃ exp, requiredField Value.asU64 doc "exp".toList = some exp ∧ now - 60 ≤ exp) ∧
      (∀ iss issuers', requiredField Value.asStr doc "iss".toList = some iss →
        issuers = some issuers' → iss ∈ issuers') ∧
      ∀ v, requiredField some doc "aud".toList = some v → lib.audience v = true := by
  simp only [validate, registered_eq_required, Validation.new, Bool.and_eq_true, and_assoc]
  refine and_congr Iff.rfl ?_
  rw [← and_assoc]
  refine and_congr ?_ (and_congr ?_ ?_)
  · rcases requiredField Value.asU64 doc "exp".toList with _ | exp
    · simp
    · simp only [isSome_some, all_some, Bool.or_true, true_and, Bool.not_true,
        Bool.false_or, Bool.not_eq_true', some.injEq, exists_eq_left']
      exact decide_eq_false_iff_not.trans not_lt
  · rcases requiredField Value.asStr doc "iss".toList with _ | iss
    · simp
    · cases issuers with
      | none | some issuers => simp
  · rcases requiredField some doc "aud".toList with _ | aud
    · simp
    · simp

theorem registeredOnce_iff :
    registeredOnce doc = true ↔ (member doc "exp".toList).isSome ∧
      (member doc "nbf".toList).isSome ∧
      (member doc "sub".toList).isSome ∧ (member doc "iss".toList).isSome ∧
      (member doc "aud".toList).isSome := by
  simp [registeredOnce]

theorem member_of_required
    (h : (requiredField read doc name).isSome) : (member doc name).isSome := by
  obtain ⟨v, hv, -⟩ := requiredField_isSome.mp h
  rw [hv]
  rfl

theorem audience_iff :
    (∃ aud, member doc "aud".toList = some aud ∧ ∀ v, aud = some v → lib.audience v = true) ↔
      (member doc "aud".toList).isSome ∧
        ∀ v, requiredField some doc "aud".toList = some v → lib.audience v = true := by
  rw [requiredField]
  rcases member doc "aud".toList with _ | _ | v
  · simp
  · simp
  · simp

/-- **What the edge accepts.** -/
theorem verify_isSome {key : VerifyKey Key} {token : Str} :
    (key.verify lib now token).isSome ↔
      ∃ doc, lib.openToken key.algorithm key.decodingKey token = some doc ∧
        EdgeDoc lib now doc := by
  rw [VerifyKey.verify, decode_isSome]
  refine exists_congr fun doc => and_congr Iff.rfl ?_
  rw [claims_read_isSome]
  rw [show key.validation = { Validation.new key.algorithm with iss := none } from rfl,
    validate_iff,
    registeredOnce_iff]
  constructor
  · rintro ⟨⟨hsub, hiss, -, hgroups, hroles⟩, ⟨-, hnbf, -, -, haud⟩, hexp, -, hpass⟩
    exact ⟨hsub, hiss, hexp, hgroups, hroles, hnbf, audience_iff.mpr ⟨haud, hpass⟩⟩
  · rintro ⟨hsub, hiss, ⟨exp, hexp, hnow⟩, hgroups, hroles, hnbf, haud⟩
    obtain ⟨haud, hpass⟩ := audience_iff.mp haud
    have hexpSome : (requiredField Value.asU64 doc "exp".toList).isSome := by
      rw [hexp]
      rfl
    exact ⟨⟨hsub, hiss, optionalField_of_required rfl hexpSome, hgroups, hroles⟩,
      ⟨member_of_required hexpSome, hnbf, member_of_optional hsub, member_of_optional hiss, haud⟩,
      ⟨exp, hexp, hnow⟩, fun _ _ _ h => absurd h.symm (some_ne_none _), hpass⟩

/-- **What the server accepts**: what the edge accepts, where it is the document of an
access token of the issuer. -/
theorem decodeAccess_isSome {engine : TokenEngine Key SigningKey} {token : Str} :
    (engine.decodeAccess lib now token).isSome ↔
      ∃ doc, lib.openToken engine.algorithm engine.decoding token = some doc ∧
        EdgeDoc lib now doc ∧ AccessDoc engine.issuer doc := by
  rw [TokenEngine.decodeAccess, decode_isSome]
  refine exists_congr fun doc => and_congr Iff.rfl ?_
  rw [accessClaims_read_isSome, TokenEngine.validation, validate_iff, registeredOnce_iff]
  constructor
  · rintro ⟨⟨hiss, hsub, hexp64, hiat, husername, hgroups, hroles⟩, ⟨-, hnbf, -, -, haud⟩, hexp,
      hissuer, hpass⟩
    obtain ⟨iss, hiss'⟩ := isSome_iff_exists.mp hiss
    obtain rfl : iss = engine.issuer := List.mem_singleton.mp (hissuer iss _ hiss' rfl)
    exact ⟨⟨optionalField_of_required rfl hsub, optionalField_of_required rfl hiss, hexp,
      optionalField_of_required rfl hgroups, optionalField_of_required rfl hroles, hnbf,
      audience_iff.mpr ⟨haud, hpass⟩⟩, ⟨hiss', hsub, hexp64, hiat, husername, hgroups, hroles⟩⟩
  · rintro ⟨⟨hsub, hiss, ⟨exp, hexp, hnow⟩, -, -, hnbf, haud⟩, hdoc⟩
    obtain ⟨haud, hpass⟩ := audience_iff.mp haud
    refine ⟨⟨hdoc.iss ▸ rfl, hdoc.sub, hdoc.exp, hdoc.iat, hdoc.username, hdoc.groups, hdoc.roles⟩,
      ⟨member_of_required hdoc.exp, hnbf, member_of_optional hsub, member_of_optional hiss, haud⟩,
      ⟨exp, hexp, hnow⟩, ?_, hpass⟩
    intro iss issuers hfield hissuers
    cases hissuers
    cases hdoc.iss.symm.trans hfield
    exact List.mem_singleton_self _

theorem same_key {privatePem publicPem issuer : Str} {engine : TokenEngine Key SigningKey}
    {key : VerifyKey Key} (hengine : TokenEngine.new lib privatePem publicPem issuer = some engine)
    (hkey : VerifyKey.fromPem lib publicPem = some key) :
    key.algorithm = engine.algorithm ∧ key.decodingKey = engine.decoding ∧
      engine.issuer = issuer := by
  rw [TokenEngine.new] at hengine
  rw [VerifyKey.fromPem] at hkey
  rcases hec : lib.ecPrivate privatePem with _ | encoding
  · simp only [hec] at hengine
    obtain ⟨encoding, -, hengine⟩ := bind_eq_some_iff.mp hengine
    obtain ⟨decoding, hrsa, hengine⟩ := bind_eq_some_iff.mp hengine
    cases hengine
    simp only [hrsa] at hkey
    cases hkey
    exact ⟨rfl, rfl, rfl⟩
  · simp only [hec] at hengine
    obtain ⟨decoding, hpublic, rfl⟩ := map_eq_some_iff.mp hengine
    rcases hrsa : lib.rsaPublic publicPem with _ | rsa
    · simp only [hrsa, hpublic, map_some] at hkey
      cases hkey
      exact ⟨rfl, rfl, rfl⟩
    · rw [lib.public_kind hrsa] at hpublic
      cases hpublic

theorem not_accessDoc_refresh (issuer : Str) (c : RefreshClaims) : ¬ AccessDoc issuer c.doc := by
  intro h
  have hgroups := h.groups
  rw [show requiredField Value.asStrings c.doc "groups".toList = none from rfl] at hgroups
  cases hgroups

end

/-- **The two verifiers agree** on a token exactly if a document the edge accepts in it is
the document of an access token of the server's issuer. -/
theorem verifiers_agree_iff {Key SigningKey : Type} (lib : TokenLib Key SigningKey)
    (privatePem publicPem issuer : Str) (engine : TokenEngine Key SigningKey) (key : VerifyKey Key)
    (hengine : TokenEngine.new lib privatePem publicPem issuer = some engine)
    (hkey : VerifyKey.fromPem lib publicPem = some key) (now : Nat) (token : Str) :
    VerifiersAgree lib key engine now token ↔
      ∀ doc, lib.openToken key.algorithm key.decodingKey token = some doc → EdgeDoc lib now doc →
        AccessDoc issuer doc := by
  obtain ⟨halgorithm, hdecoding, rfl⟩ := same_key hengine hkey
  have hserver : (engine.decodeAccess lib now token).isSome ↔
      ∃ doc, lib.openToken key.algorithm key.decodingKey token = some doc ∧
        EdgeDoc lib now doc ∧ AccessDoc engine.issuer doc := by
    rw [decodeAccess_isSome, halgorithm, hdecoding]
  constructor
  · intro h doc hopen hedge
    obtain ⟨doc', hopen', -, hdoc⟩ := hserver.mp (h.same.mp (verify_isSome.mpr ⟨doc, hopen, hedge⟩))
    cases hopen.symm.trans hopen'
    exact hdoc
  · intro h
    have hnone : ∀ doc, lib.openToken key.algorithm key.decodingKey token = some doc →
        ¬ AccessDoc engine.issuer doc →
        key.verify lib now token = none ∧ engine.decodeAccess lib now token = none := by
      intro doc hopen hdoc
      refine ⟨not_isSome_iff_eq_none.mp fun hsome => hdoc ?_,
        not_isSome_iff_eq_none.mp fun hsome => hdoc ?_⟩
      · obtain ⟨doc', hopen', hedge⟩ := verify_isSome.mp hsome
        cases hopen.symm.trans hopen'
        exact h doc hopen hedge
      · obtain ⟨doc', hopen', -, haccess⟩ := hserver.mp hsome
        cases hopen.symm.trans hopen'
        exact haccess
    refine ⟨?_, fun doc hopen hiss => hnone doc hopen fun hdoc => hiss hdoc.iss,
      fun c hopen => hnone c.doc hopen (not_accessDoc_refresh _ c)⟩
    rw [hserver]
    constructor
    · intro hsome
      obtain ⟨doc, hopen, hedge⟩ := verify_isSome.mp hsome
      exact ⟨doc, hopen, hedge, h doc hopen hedge⟩
    · rintro ⟨doc, hopen, hedge, -⟩
      exact verify_isSome.mpr ⟨doc, hopen, hedge⟩

/-! ## Three tokens -/

def smallAccess (issuer : Str) : AccessClaims :=
  ⟨issuer, "1".toList, 1900, 1000, "ann".toList, ["staff".toList], []⟩

def smallRefresh : RefreshClaims :=
  ⟨"m6".toList, "1".toList, 4600, 1000, "ann".toList, "refresh".toList⟩

def smallTokenLib : TokenLib Unit Unit where
  rsaPublic _ := none
  ecPublic pem := if pem = "public".toList then some () else none
  rsaPrivate _ := none
  ecPrivate pem := if pem = "private".toList then some () else none
  openToken algorithm _ token :=
    if algorithm ≠ .es256 then none
    else if token = "h.access.s".toList then some (smallAccess "m6".toList).doc
    else if token = "h.foreign.s".toList then some (smallAccess "other".toList).doc
    else if token = "h.refresh.s".toList then some smallRefresh.doc
    else none
  audience _ := false
  public_kind h := absurd h.symm (Option.some_ne_none _)

def smallKey : VerifyKey Unit := ⟨(), .es256⟩
def smallEngine : TokenEngine Unit Unit := ⟨(), (), .es256, "m6".toList⟩

theorem verifiers_agree_access :
    VerifiersAgree smallTokenLib smallKey smallEngine 1000 "h.access.s".toList := by
  refine (verifiers_agree_iff smallTokenLib "private".toList "public".toList "m6".toList smallEngine
    smallKey rfl rfl 1000 "h.access.s".toList).mpr ?_
  intro doc hopen _
  obtain rfl : (smallAccess "m6".toList).doc = doc := some.inj hopen
  refine ⟨?_, ?_, ?_, ?_, ?_, ?_, ?_⟩ <;> decide

theorem verifiers_disagree :
    ¬ VerifiersAgree smallTokenLib smallKey smallEngine 1000 "h.refresh.s".toList ∧
    ¬ VerifiersAgree smallTokenLib smallKey smallEngine 1000 "h.foreign.s".toList ∧
    (authorise (smallKey.toPublicKey smallTokenLib) 1000
      [("authorization".toList, "Bearer h.foreign.s".toList)]
        "group:staff".toList).toOption.isSome ∧
    smallEngine.decodeAccess smallTokenLib 1000 "h.foreign.s".toList = none := by
  refine ⟨fun h => ?_, fun h => ?_, by decide, by decide⟩
  · exact absurd (h.same.mp (by decide)) (by decide)
  · exact absurd (h.same.mp (by decide)) (by decide +kernel)

end M6
