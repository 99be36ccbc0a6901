import M6.Core.Responder

/-!
# The auth server

The handlers of `m6-auth-server` over its shared state: the database (`Db` of
`m6-auth`), the signing keys and the login throttle. A handler is a function from
the state, the circumstances of the request and the request to a response and the
next state.

A handler holds the database lock from its first use of the database to its end,
so the database sees the requests one after the other and a run of requests is a
list.

Password hashing, token signing, digests and JSON are libraries outside the
repository: `Libs` and `JwtEngine`. What the handlers rely on of tokens is stated
with the engine.
-/

namespace M6

open Option

/-! ## Responses -/

/-- A response of a service that writes its own status, headers and body. -/
structure RawResponse where
  status : Nat
  headers : List (Str × Str)
  body : Bytes
  deriving DecidableEq

namespace RawResponse

def new (status : Nat) : RawResponse := ⟨status, [], []⟩

def header (r : RawResponse) (name value : Str) : RawResponse :=
  { r with headers := r.headers ++ [(name, value)] }

/-- Set the `Content-Type`. -/
def contentType (r : RawResponse) (ct : Str) : RawResponse := r.header "Content-Type".toList ct

def bodyText (r : RawResponse) (text : Str) : RawResponse := { r with body := Utf8.encode text }

/-- The response an `App` handler returns for it, after the pipeline: the body is
final, and a cache policy is added unless the handler set one. -/
def intoResponse (r : RawResponse) (cache : Str) : Response :=
  ⟨r.status, r.headers ++
      if !containsHeader r.headers "cache-control".toList then [("Cache-Control".toList, cache)]
      else [],
    .bytes r.body⟩

end RawResponse

def redirectTo (location : Str) : RawResponse :=
  (RawResponse.new 302).header "Location".toList location

def jsonResponse (status : Nat) (text : Str) : RawResponse :=
  ((RawResponse.new status).contentType "application/json".toList).bodyText text

/-- The answer to a failure of the server itself. -/
def internalError : RawResponse := jsonResponse 500 "\x7b\"error\":\"internal_error\"\x7d".toList

/-! ## Tokens -/

structure AccessClaims where
  iss : Str
  sub : Str
  exp : Int
  iat : Int
  username : Str
  groups : List Str
  roles : List Str
  deriving DecidableEq

structure RefreshClaims where
  iss : Str
  sub : Str
  exp : Int
  iat : Int
  username : Str
  tokenType : Str
  deriving DecidableEq

/-- The characters of a token: three texts in the URL alphabet of base64, joined by
dots. -/
def isTokenChar (c : Char) : Bool := c.isAlphanum || c == '-' || c == '_' || c == '.'

/-- Token signing and checking under one key pair and issuer. Checking reads the
clock. -/
structure JwtEngine where
  encodeAccess : AccessClaims → Option Str
  encodeRefresh : RefreshClaims → Option Str
  decodeAccess : Int → Str → Option AccessClaims
  decodeRefresh : Int → Str → Option RefreshClaims
  encodeAccess_chars : ∀ {c t}, encodeAccess c = some t → ∀ x ∈ t, isTokenChar x = true
  encodeRefresh_chars : ∀ {c t}, encodeRefresh c = some t → ∀ x ∈ t, isTokenChar x = true
  decodeAccess_chars : ∀ {now t c}, decodeAccess now t = some c → ∀ x ∈ t, isTokenChar x = true
  /-- a token is decoded to the claims it was signed with -/
  decode_encode : ∀ {now t c c'},
    encodeRefresh c = some t → decodeRefresh now t = some c' → c' = c

/-- The other libraries. -/
structure Libs where
  /-- compare a password with a stored hash -/
  bcryptVerify : Str → Str → Option Bool
  /-- the digest under which a token is stored -/
  hashToken : Str → Str
  /-- the user name and the password of a JSON login -/
  loginReq : Bytes → Option (Str × Str)
  /-- the token of a JSON refresh -/
  refreshReq : Bytes → Option Str
  /-- a JSON document as text -/
  jsonToString : Value → Str

/-! ## The database -/

structure User where
  id : Str
  username : Str
  roles : List Str
  groups : List Str
  deriving DecidableEq

structure UserRow extends User where
  password : Str
  deriving DecidableEq

/-- The tables. -/
structure Db where
  users : List UserRow
  /-- by digest: the user and the expiry -/
  refreshTokens : SortedMap Str (Str × Int)

/-- What may fail in a request without being in the state: a poisoned lock or a
database operation. -/
inductive Fault where
  | limiterLock
  | dbLock
  | keysLock
  | userVerify
  | userGet
  | tokenStore
  | tokenVerify
  | tokenRevoke
  | tokensRevokeAll
  deriving DecidableEq

/-- The circumstances of a request: the readings of the wall clock in seconds, one
after the other, the monotonic clock in nanoseconds, and what fails. -/
structure Env where
  now : Nat → Int
  instant : Nat
  fails : Fault → Bool

def Env.attempt {α : Type} (env : Env) (fault : Fault) (x : Option α) : Option α :=
  if env.fails fault then none else x

theorem Env.attempt_eq_some {α : Type} {env : Env} {fault : Fault} {x : Option α} {a : α} :
    env.attempt fault x = some a ↔ env.fails fault = false ∧ x = some a := by
  simp only [attempt]
  split_ifs with h
  · simp [h]
  · simp [h]

namespace Db

/-- The user whose name and password these are. The outer `none` is an error. -/
def userVerifyPassword (libs : Libs) (db : Db) (username password : Str) : Option (Option User) :=
  match db.users.find? fun row => row.username = username with
  | none => some none
  | some row => (libs.bcryptVerify password row.password).map fun valid =>
    if valid then some row.toUser else none

def userGetById (db : Db) (id : Str) : Option User :=
  (db.users.find? fun row => row.id = id).map UserRow.toUser

def refreshTokenStore (db : Db) (userId tokenHash : Str) (expiresAt : Int) : Db :=
  { db with refreshTokens := db.refreshTokens.insert tokenHash (userId, expiresAt) }

def refreshTokenVerify (db : Db) (tokenHash : Str) (now : Int) : Option Str :=
  (db.refreshTokens.get? tokenHash).bind fun row => if row.2 > now then some row.1 else none

def refreshTokenRevoke (db : Db) (tokenHash : Str) : Db :=
  { db with refreshTokens := db.refreshTokens.filter fun e => e.1 ≠ tokenHash }

def refreshTokensRevokeAll (db : Db) (userId : Str) : Db :=
  { db with refreshTokens := db.refreshTokens.filter fun e => e.2.1 ≠ userId }

end Db

/-! ## The throttle -/

/-- The login throttle: failures and the start of their window, by address. -/
structure RateLimiter where
  map : SortedMap Str (Nat × Nat)
  maxAttempts : Nat
  windowSecs : Nat

namespace RateLimiter

def elapsedSecs (now started : Nat) : Nat := (now - started) / 1000000000

/-- Whether an address has used up its failures for the window. -/
def isBlocked (rl : RateLimiter) (now : Nat) (ip : Str) : Bool :=
  match rl.map.get? ip with
  | some (count, started) =>
    if elapsedSecs now started ≥ rl.windowSecs then false else count ≥ rl.maxAttempts
  | none => false

def recordFailure (rl : RateLimiter) (now : Nat) (ip : Str) : RateLimiter :=
  let entry := (rl.map.get? ip).getD (0, now)
  let entry := if elapsedSecs now entry.2 ≥ rl.windowSecs then (0, now) else entry
  { rl with map := rl.map.insert ip (entry.1 + 1, entry.2) }

def clear (rl : RateLimiter) (ip : Str) : RateLimiter :=
  { rl with map := rl.map.filter fun e => e.1 ≠ ip }

end RateLimiter

/-! ## Handlers -/

structure AppState where
  db : Db
  keys : JwtEngine
  accessTtl : Nat
  refreshTtl : Nat
  issuer : Str
  rateLimiter : RateLimiter

/-- Whether a redirect target is a path on this origin: one slash, and behind it
neither a slash nor a backslash. -/
def isSameOriginPath (candidate : Str) : Bool :=
  candidate.head? == some '/' && !(candidate[1]? == some '/' || candidate[1]? == some '\\')

def validateNext : Option Str → Str
  | some n => if isSameOriginPath n then n else "/".toList
  | none => "/".toList

def formField (fields : List (Str × Str)) (key : Str) : Option Str :=
  (fields.find? fun f => f.1 = key).map Prod.snd

def cookieAttributes (path : Str) (maxAge : Nat) : Str :=
  "; HttpOnly; Secure; SameSite=Lax; Path=".toList ++ path ++ "; Max-Age=".toList ++ decimal maxAge

def sessionCookie (jwt : Str) (ttl : Nat) : Str :=
  "session=".toList ++ jwt ++ cookieAttributes "/".toList ttl

def refreshCookie (jwt : Str) (ttl : Nat) : Str :=
  "refresh=".toList ++ jwt ++ cookieAttributes "/auth/refresh".toList ttl

/-- The address that the throttle counts by. -/
def peerIp (raw : RawRequest) : Str :=
  ((raw.header "x-forwarded-for".toList).or (raw.header "x-real-ip".toList)).getD "unix".toList

section

variable (libs : Libs) (st : AppState) (env : Env) (raw : RawRequest)

/-- Count a wrong password. A poisoned lock leaves it uncounted. -/
def noteLoginFailure (peer : Str) : AppState :=
  if env.fails .limiterLock then st
  else { st with rateLimiter := st.rateLimiter.recordFailure env.instant peer }

/-- Forget the failures after a correct password. -/
def noteLoginSuccess (peer : Str) : AppState :=
  if env.fails .limiterLock then st
  else { st with rateLimiter := st.rateLimiter.clear peer }

def refreshClaims (user : User) : RefreshClaims :=
  ⟨st.issuer, user.id, env.now 0 + st.refreshTtl, env.now 0, user.username, "refresh".toList⟩

def issueTokens (user : User) : Option (Str × Str) :=
  env.attempt .keysLock <|
    (st.keys.encodeAccess ⟨st.issuer, user.id, env.now 0 + st.accessTtl, env.now 0, user.username,
      user.groups, user.roles⟩).bind fun access =>
    (st.keys.encodeRefresh (refreshClaims st env user)).map fun refresh => (access, refresh)

/-- Both ways to log in: check the password, issue the tokens and store the refresh
token. What is answered to a wrong password and to a right one is the caller's. -/
def logIn (username password : Str) (refused : RawResponse) (accepted : Str → Str → RawResponse)
    (peer : Str) : RawResponse × AppState :=
  match env.attempt .dbLock (some ()) with
  | none => (internalError, st)
  | some () =>
    match env.attempt .userVerify (st.db.userVerifyPassword libs username password) with
    | none => (internalError, st)
    | some none => (refused, noteLoginFailure st env peer)
    | some (some user) =>
      let st := noteLoginSuccess st env peer
      match issueTokens st env user with
      | none => (internalError, st)
      | some (access, refresh) =>
        match env.attempt .tokenStore (some (st.db.refreshTokenStore user.id
          (libs.hashToken refresh) (env.now 1 + st.refreshTtl))) with
        | none => (internalError, st)
        | some db => (accepted access refresh, { st with db := db })

def handleLoginForm (peer : Str) : RawResponse × AppState :=
  let fields := parseFormBody raw.body
  let next := validateNext (formField fields "next".toList)
  logIn libs st env ((formField fields "username".toList).getD [])
    ((formField fields "password".toList).getD [])
    (redirectTo ("/login?error=invalid&next=".toList ++ urlEncodePath next))
    (fun access refresh =>
      ((redirectTo next).header "Set-Cookie".toList (sessionCookie access st.accessTtl)).header
        "Set-Cookie".toList (refreshCookie refresh st.refreshTtl))
    peer

def handleLoginJson (peer : Str) : RawResponse × AppState :=
  match libs.loginReq raw.body with
  | none => (jsonResponse 400 "\x7b\"error\":\"bad_request\"\x7d".toList, st)
  | some (username, password) =>
    logIn libs st env username password
      (jsonResponse 401 "\x7b\"error\":\"invalid_credentials\"\x7d".toList)
      (fun access refresh => jsonResponse 200 (libs.jsonToString (.object
        [("access_token".toList, .string access),
          ("expires_in".toList, .number (decimal st.accessTtl)),
          ("refresh_token".toList, .string refresh)])))
      peer

def hasMediaType (name : Str) : Bool :=
  decide (name <:+: Text.toAsciiLowercase (raw.contentType.getD []))

/-- `POST /auth/login`: anything that is not JSON is a form. -/
def handleLogin : RawResponse × AppState :=
  let isJson := hasMediaType raw "application/json".toList
  if env.fails .limiterLock then (internalError, st)
  else if st.rateLimiter.isBlocked env.instant (peerIp raw) then
    let tooMany := (RawResponse.new 429).header "Retry-After".toList "60".toList
    if isJson then
      ((tooMany.contentType "application/json".toList).bodyText
        "\x7b\"error\":\"rate_limited\"\x7d".toList, st)
    else (tooMany.bodyText "Too Many Requests".toList, st)
  else if isJson then handleLoginJson libs st env raw (peerIp raw)
  else handleLoginForm libs st env raw (peerIp raw)

/-- Exchange a refresh token for an access token: it must decode, be in the
database and unexpired, belong to the user it names, and the user must exist. -/
def doRefresh (token : Str) : Option (Str × Str) :=
  (env.attempt .keysLock (st.keys.decodeRefresh (env.now 0) token)).bind fun claims =>
  (env.attempt .dbLock (env.attempt .tokenVerify
    (st.db.refreshTokenVerify (libs.hashToken token) (env.now 1)))).bind fun storedUserId =>
  if storedUserId ≠ claims.sub then none
  else
    (env.attempt .userGet (st.db.userGetById claims.sub)).bind fun user =>
    (st.keys.encodeAccess ⟨st.issuer, user.id, env.now 2 + st.accessTtl, env.now 2, user.username,
      user.groups, user.roles⟩).map fun access => (access, user.id)

def requestCookie (name : Str) : Option Str :=
  (raw.header "cookie".toList).bind fun h => cookie h name

def handleRefreshBrowser : RawResponse :=
  match requestCookie raw "refresh".toList with
  | none => redirectTo "/login".toList
  | some token =>
    match doRefresh libs st env token with
    | some (access, _) =>
      let location := ((raw.header "referer".toList).filter isSameOriginPath).getD "/".toList
      (redirectTo location).header "Set-Cookie".toList (sessionCookie access st.accessTtl)
    | none => redirectTo "/login".toList

def handleRefreshJson : RawResponse :=
  match libs.refreshReq raw.body with
  | none => jsonResponse 400 "\x7b\"error\":\"bad_request\"\x7d".toList
  | some token =>
    match doRefresh libs st env token with
    | some (access, _) => jsonResponse 200 (libs.jsonToString (.object
        [("access_token".toList, .string access),
          ("expires_in".toList, .number (decimal st.accessTtl))]))
    | none => jsonResponse 401 "\x7b\"error\":\"invalid_token\"\x7d".toList

/-- `POST /auth/refresh`. -/
def handleRefresh : RawResponse :=
  if hasMediaType raw "application/json".toList then handleRefreshJson libs st env raw
  else handleRefreshBrowser libs st env raw

/-- The database after an operation whose failure is ignored. -/
def dbOr (fault : Fault) (db : Db) : AppState :=
  { st with db := (env.attempt .dbLock (env.attempt fault (some db))).getD st.db }

def handleLogoutBrowser : RawResponse × AppState :=
  let st' := match requestCookie raw "refresh".toList with
    | some token => dbOr st env .tokenRevoke (st.db.refreshTokenRevoke (libs.hashToken token))
    | none => st
  (((redirectTo "/".toList).header "Set-Cookie".toList (sessionCookie [] 0)).header
    "Set-Cookie".toList (refreshCookie [] 0), st')

/-- The token of a bearer header: every leading `Bearer ` is cut off, then every
leading `bearer `. -/
def bearerToken (auth : Str) : Str :=
  Text.trimStartMatches "bearer ".toList (Text.trimStartMatches "Bearer ".toList auth)

def handleLogoutApi : RawResponse × AppState :=
  let claims := (raw.header "authorization".toList).bind fun auth =>
    env.attempt .keysLock (st.keys.decodeAccess (env.now 0) (bearerToken auth))
  let st' := match claims with
    | some c => dbOr st env .tokensRevokeAll (st.db.refreshTokensRevokeAll c.sub)
    | none => st
  (RawResponse.new 204, st')

/-- Whether a request is taken as an API client's: its scheme is `bearer` in any
case. -/
def isApiLogout : Bool :=
  ((raw.header "authorization".toList).map fun v =>
    decide ("bearer ".toList <+: Text.toAsciiLowercase v)).getD false

/-- `POST /auth/logout`. -/
def handleLogout : RawResponse × AppState :=
  if isApiLogout raw then handleLogoutApi st env raw else handleLogoutBrowser libs st env raw

end

/-! ## What a login does -/

section

variable {libs : Libs} {st : AppState} {env : Env}

@[simp] theorem noteLoginSuccess_db (peer : Str) : (noteLoginSuccess st env peer).db = st.db := by
  rw [noteLoginSuccess]
  split_ifs <;> rfl

@[simp] theorem noteLoginSuccess_keys (peer : Str) :
    (noteLoginSuccess st env peer).keys = st.keys := by
  rw [noteLoginSuccess]
  split_ifs <;> rfl

@[simp] theorem noteLoginSuccess_refreshTtl (peer : Str) :
    (noteLoginSuccess st env peer).refreshTtl = st.refreshTtl := by
  rw [noteLoginSuccess]
  split_ifs <;> rfl

@[simp] theorem noteLoginFailure_db (peer : Str) : (noteLoginFailure st env peer).db = st.db := by
  rw [noteLoginFailure]
  split_ifs <;> rfl

@[simp] theorem noteLoginFailure_keys (peer : Str) :
    (noteLoginFailure st env peer).keys = st.keys := by
  rw [noteLoginFailure]
  split_ifs <;> rfl

@[simp] theorem issueTokens_noteLoginSuccess (peer : Str) (user : User) :
    issueTokens (noteLoginSuccess st env peer) env user = issueTokens st env user := by
  rw [noteLoginSuccess]
  split_ifs <;> rfl

/-- A login that goes through: whose it is, and the tokens it issues. -/
structure LogsInAs (libs : Libs) (st : AppState) (env : Env) (username password : Str) (user : User)
    (access refresh : Str) : Prop where
  locked : env.fails .dbLock = false
  verified : env.attempt .userVerify (st.db.userVerifyPassword libs username password) =
    some (some user)
  issued : issueTokens st env user = some (access, refresh)
  stored : env.fails .tokenStore = false

/-- **What a login does.** It goes through, answers as accepted and stores the refresh
token; or it does not, answers with an error or as refused, and leaves the database
alone. -/
theorem logIn_cases (username password : Str) (refused : RawResponse)
    (accepted : Str → Str → RawResponse) (peer : Str) :
    (∃ user access refresh, LogsInAs libs st env username password user access refresh ∧
      (logIn libs st env username password refused accepted peer).1 = accepted access refresh ∧
      (logIn libs st env username password refused accepted peer).2.db =
        st.db.refreshTokenStore user.id (libs.hashToken refresh) (env.now 1 + st.refreshTtl) ∧
      (logIn libs st env username password refused accepted peer).2.keys = st.keys) ∨
    ((∀ user access refresh, ¬ LogsInAs libs st env username password user access refresh) ∧
      ((logIn libs st env username password refused accepted peer).1 = internalError ∨
        (logIn libs st env username password refused accepted peer).1 = refused) ∧
      (logIn libs st env username password refused accepted peer).2.db = st.db ∧
      (logIn libs st env username password refused accepted peer).2.keys = st.keys) := by
  rcases hlock : env.attempt .dbLock (some ()) with _ | ⟨⟨⟩⟩
  · simp only [logIn, hlock]
    refine .inr ⟨fun _ _ _ h => ?_, .inl trivial, trivial, trivial⟩
    rw [Env.attempt_eq_some.mpr ⟨h.locked, rfl⟩] at hlock
    cases hlock
  rcases hverify : env.attempt .userVerify (st.db.userVerifyPassword libs username password) with
    _ | _ | user
  · simp only [logIn, hlock, hverify]
    refine .inr ⟨fun _ _ _ h => ?_, .inl trivial, trivial, trivial⟩
    cases hverify.symm.trans h.verified
  · simp only [logIn, hlock, hverify]
    refine .inr ⟨fun _ _ _ h => ?_, .inr trivial, noteLoginFailure_db peer,
      noteLoginFailure_keys peer⟩
    cases hverify.symm.trans h.verified
  rcases hissue : issueTokens st env user with _ | ⟨access, refresh⟩
  · simp only [logIn, hlock, hverify, issueTokens_noteLoginSuccess, hissue]
    refine .inr ⟨fun _ _ _ h => ?_, .inl trivial, noteLoginSuccess_db peer,
      noteLoginSuccess_keys peer⟩
    cases hverify.symm.trans h.verified
    cases hissue.symm.trans h.issued
  simp only [logIn, hlock, hverify, issueTokens_noteLoginSuccess, hissue, noteLoginSuccess_db,
    noteLoginSuccess_refreshTtl]
  rcases hstore : env.attempt .tokenStore (some (st.db.refreshTokenStore user.id
      (libs.hashToken refresh) (env.now 1 + st.refreshTtl))) with _ | db
  · refine .inr ⟨fun _ _ _ h => ?_, .inl rfl, noteLoginSuccess_db peer,
      noteLoginSuccess_keys peer⟩
    rw [Env.attempt_eq_some.mpr ⟨h.stored, rfl⟩] at hstore
    cases hstore
  · obtain ⟨hstored, hdb⟩ := Env.attempt_eq_some.mp hstore
    exact .inl ⟨user, access, refresh,
      ⟨(Env.attempt_eq_some.mp hlock).1, hverify, hissue, hstored⟩, rfl, (some.inj hdb).symm,
      noteLoginSuccess_keys peer⟩

theorem issueTokens_chars {user : User} {access refresh : Str}
    (h : issueTokens st env user = some (access, refresh)) :
    (∀ x ∈ access, isTokenChar x = true) ∧ (∀ x ∈ refresh, isTokenChar x = true) ∧
      st.keys.encodeRefresh (refreshClaims st env user) = some refresh := by
  obtain ⟨-, h⟩ := Env.attempt_eq_some.mp h
  obtain ⟨a, ha, h⟩ := bind_eq_some_iff.mp h
  obtain ⟨r, hr, h⟩ := map_eq_some_iff.mp h
  cases h
  exact ⟨st.keys.encodeAccess_chars ha, st.keys.encodeRefresh_chars hr, hr⟩

theorem doRefresh_chars {token access userId : Str}
    (h : doRefresh libs st env token = some (access, userId)) :
    ∀ x ∈ access, isTokenChar x = true := by
  obtain ⟨claims, -, h⟩ := bind_eq_some_iff.mp h
  obtain ⟨stored, -, h⟩ := bind_eq_some_iff.mp h
  split_ifs at h
  obtain ⟨user, -, h⟩ := bind_eq_some_iff.mp h
  obtain ⟨a, ha, h⟩ := map_eq_some_iff.mp h
  cases h
  exact st.keys.encodeAccess_chars ha

end

/-! ## A small server -/

theorem small_tokens_chars : "access.token.signature".toList.all isTokenChar = true ∧
    "refresh.token.signature".toList.all isTokenChar = true := by decide

def JwtEngine.ofClaims (a : AccessClaims) (r : RefreshClaims) : JwtEngine where
  encodeAccess c := if c = a then some "access.token.signature".toList else none
  encodeRefresh c := if c = r then some "refresh.token.signature".toList else none
  decodeAccess now t :=
    if t = "access.token.signature".toList ∧ now < a.exp then some a else none
  decodeRefresh now t :=
    if t = "refresh.token.signature".toList ∧ now < r.exp then some r else none
  encodeAccess_chars := by
    intro c t h
    split_ifs at h
    obtain rfl := Option.some.inj h
    exact List.all_eq_true.mp small_tokens_chars.1
  encodeRefresh_chars := by
    intro c t h
    split_ifs at h
    obtain rfl := Option.some.inj h
    exact List.all_eq_true.mp small_tokens_chars.2
  decodeAccess_chars := by
    intro now t c h
    split_ifs at h with ht
    rw [ht.1]
    exact List.all_eq_true.mp small_tokens_chars.1
  decode_encode := by
    intro now t c c' h h'
    split_ifs at h h' with hc ht
    rw [hc, Option.some.inj h']

def smallServer : AppState where
  db := ⟨[⟨⟨"1".toList, "ann".toList, [], []⟩, "secret".toList⟩], .empty⟩
  keys := .ofClaims ⟨"m6".toList, "1".toList, 1900, 1000, "ann".toList, [], []⟩
    ⟨"m6".toList, "1".toList, 4600, 1000, "ann".toList, "refresh".toList⟩
  accessTtl := 900
  refreshTtl := 3600
  issuer := "m6".toList
  rateLimiter := ⟨.empty, 5, 900⟩

def smallLibs : Libs where
  bcryptVerify password stored := some (password = stored)
  hashToken token := token
  loginReq _ := none
  refreshReq _ := none
  jsonToString _ := []

/-- A request at second 1000 during which nothing fails. -/
def calm : Env := ⟨fun _ => 1000, 0, fun _ => false⟩

end M6
