import M6.Auth.Handlers

/-!
# Sessions

Runs of logins, refreshes and logouts. A **browser** keeps the cookies it is given and
sends them back by path, as RFC 6265 has it; an **API client** sends what it likes.

`World` is the server with the cookie jars of the browsers and a history: the refresh
tokens issued, and those that a logout with a valid session should have ended.
`Ended` is what a logout is for, and `logout_ends` says in which runs it holds in every
state: the refresh cookie is scoped to `/auth/refresh` and never reaches the logout, the
two readings of the bearer scheme differ, and a failing database is not reported.
-/

namespace M6

open Option SortedMap

/-! ## A browser's cookies -/

structure JarCookie where
  name : Str
  value : Str
  path : Str
  /-- when it expires, if it does not live as long as the browser -/
  expires : Option Int
  deriving DecidableEq

def defaultPath (path : Str) : Str :=
  let dir := (path.reverse.dropWhile fun c => c ≠ '/').tail.reverse
  if path.head? = some '/' ∧ dir ≠ [] then dir else "/".toList

/-- The number of a `Max-Age` attribute. -/
def maxAgeSeconds (s : Str) : Option Int :=
  let digits := if s.head? = some '-' then s.tail else s
  if digits ≠ [] ∧ digits.all Char.isDigit then
    let n : Int := digits.foldl (fun n c => n * 10 + (c.toNat - '0'.toNat : Nat)) 0
    some (if s.head? = some '-' then -n else n)
  else none

/-- The cookie of a `Set-Cookie` line, received for a request path. -/
def parseSetCookie (now : Int) (requestPath line : Str) : Option JarCookie :=
  match line.splitOn ';' with
  | [] => none
  | pair :: attributes =>
    let nv := Text.cutAt '=' pair
    let valueOf (name : Str) : Option Str :=
      ((attributes.map fun a => Text.cutAt '=' a).reverse.find? fun a =>
        Text.eqIgnoreAsciiCase (Text.trim a.1) name).map fun a => Text.trim (a.2.getD [])
    nv.2.bind fun value =>
      if Text.trim nv.1 = [] then none
      else some
        { name := Text.trim nv.1
          value := Text.trim value
          path := ((valueOf "path".toList).filter fun p => p.head? = some '/').getD
            (defaultPath requestPath)
          expires := ((valueOf "max-age".toList).bind maxAgeSeconds).map fun age => now + age }

def pathMatches (requestPath cookiePath : Str) : Bool :=
  decide (requestPath = cookiePath) ||
    (decide (cookiePath <+: requestPath) &&
      (cookiePath.getLast? == some '/' || requestPath[cookiePath.length]? == some '/'))

/-- The cookies of one browser for the site. -/
abbrev Jar : Type := List JarCookie

def JarCookie.live (c : JarCookie) (now : Int) : Bool :=
  match c.expires with
  | none => true
  | some t => now < t

/-- Take a cookie into the jar: one of the same name and path goes out, and an expired
one does not come in. -/
def Jar.store (jar : Jar) (now : Int) (c : JarCookie) : Jar :=
  let rest := jar.filter fun d => !(d.name == c.name && d.path == c.path)
  if c.live now then rest ++ [c] else rest

def Jar.receive (jar : Jar) (now : Int) (requestPath : Str) (resp : RawResponse) : Jar :=
  ((resp.headers.filter fun h => Text.eqIgnoreAsciiCase h.1 "set-cookie".toList).filterMap
    fun h => parseSetCookie now requestPath h.2).foldl (fun jar c => jar.store now c) jar

def Jar.sent (jar : Jar) (now : Int) (requestPath : Str) : Jar :=
  (jar.filter fun c => pathMatches requestPath c.path && c.live now).insertionSort
    fun a b => b.path.length ≤ a.path.length

/-- The `Cookie` header of a request, if there is a cookie to send. -/
def Jar.header (jar : Jar) (now : Int) (requestPath : Str) : List (Str × Str) :=
  match jar.sent now requestPath with
  | [] => []
  | cookies => [("Cookie".toList,
      "; ".toList.intercalate (cookies.map fun c => c.name ++ '=' :: c.value))]

def Jar.value (jar : Jar) (now : Int) (name : Str) : Option Str :=
  (jar.find? fun c => c.name == name && c.live now).map JarCookie.value

/-! ## Requests -/

inductive Endpoint where
  | login
  | refresh
  | logout
  deriving DecidableEq

def Endpoint.path : Endpoint → Str
  | login => "/auth/login".toList
  | refresh => "/auth/refresh".toList
  | logout => "/auth/logout".toList

inductive Event where
  /-- by a browser: its own cookies are sent, and no `Authorization` -/
  | browser (b : Nat) (endpoint : Endpoint) (raw : RawRequest) (env : Env)
  /-- by any other client -/
  | api (endpoint : Endpoint) (raw : RawRequest) (env : Env)

def browserRequest (jar : Jar) (now : Int) (endpoint : Endpoint) (raw : RawRequest) : RawRequest :=
  { raw with
    method := "POST".toList
    path := endpoint.path
    headers := (raw.headers.filter fun h => !(Text.eqIgnoreAsciiCase h.1 "cookie".toList ||
        Text.eqIgnoreAsciiCase h.1 "authorization".toList)) ++ jar.header now endpoint.path }

section

variable (libs : Libs)

def serve (st : AppState) (env : Env) (endpoint : Endpoint) (raw : RawRequest) :
    RawResponse × AppState :=
  match endpoint with
  | .login => handleLogin libs st env raw
  | .refresh => (handleRefresh libs st env raw, st)
  | .logout => handleLogout libs st env raw

/-- The user name and the password a login is tried with, if it comes to that. -/
def loginCredentials (st : AppState) (env : Env) (raw : RawRequest) : Option (Str × Str) :=
  if env.fails .limiterLock || st.rateLimiter.isBlocked env.instant (peerIp raw) then none
  else if hasMediaType raw "application/json".toList then libs.loginReq raw.body
  else
    let fields := parseFormBody raw.body
    some ((formField fields "username".toList).getD [],
      (formField fields "password".toList).getD [])

def loginOutcome (st : AppState) (env : Env) (username password : Str) : Option (User × Str) :=
  (env.attempt .dbLock (env.attempt .userVerify
    (st.db.userVerifyPassword libs username password))).bind fun found =>
  found.bind fun user =>
  (issueTokens st env user).bind fun tokens => env.attempt .tokenStore (some (user, tokens.2))

def issuedBy (st : AppState) (env : Env) (endpoint : Endpoint) (raw : RawRequest) :
    Option (User × Str) :=
  match endpoint with
  | .login => (loginCredentials libs st env raw).bind fun c => loginOutcome libs st env c.1 c.2
  | _ => none

def bearerCredential (auth : Str) : Str := (auth.drop 7).dropWhile fun c => c == ' '

def apiSession (st : AppState) (env : Env) (raw : RawRequest) : Option AccessClaims :=
  if isApiLogout raw then
    (raw.header "authorization".toList).bind fun auth =>
      st.keys.decodeAccess (env.now 0) (bearerCredential auth)
  else none

/-! ## The world -/

structure World where
  server : AppState
  jars : Nat → Jar
  /-- the refresh tokens issued so far, each with its user -/
  issued : List (Str × Str)
  /-- the refresh tokens whose session a logout should have ended -/
  ended : List Str

def World.start (server : AppState) : World := ⟨server, fun _ => [], [], []⟩

/-- The refresh tokens that a logout with a valid session should end: of a browser its
own, of an API client all that its user was issued. -/
def endedBy (w : World) : Event → List Str
  | .browser b .logout _ env =>
    match ((w.jars b).value (env.now 0) "session".toList).bind fun token =>
      w.server.keys.decodeAccess (env.now 0) token with
    | some _ => ((w.jars b).value (env.now 0) "refresh".toList).toList
    | none => []
  | .api .logout raw env =>
    match apiSession w.server env raw with
    | some claims => (w.issued.filter fun e => e.2 = claims.sub).map Prod.fst
    | none => []
  | _ => []

def Event.request (w : World) : Event → Endpoint × RawRequest × Env
  | .browser b endpoint raw env =>
    (endpoint, browserRequest (w.jars b) (env.now 0) endpoint raw, env)
  | .api endpoint raw env => (endpoint, raw, env)

def World.step (w : World) (e : Event) : World :=
  let (endpoint, raw, env) := e.request w
  let (resp, server) := serve libs w.server env endpoint raw
  { server := server
    jars := match e with
      | .browser b endpoint _ env => fun b' =>
        if b' = b then (w.jars b).receive (env.now 0) endpoint.path resp else w.jars b'
      | .api .. => w.jars
    issued := ((issuedBy libs w.server env endpoint raw).map fun i =>
      (i.2, i.1.id)).toList ++ w.issued
    ended := endedBy w e ++ w.ended }

def World.run (w : World) (events : List Event) : World := events.foldl (World.step libs) w

/-- **Logout ends the session**: no refresh with an ended token succeeds, whenever it is
tried. -/
def Ended (w : World) : Prop :=
  ∀ token ∈ w.ended, ∀ env, doRefresh libs w.server env token = none

/-- What a step must meet. A login issues no token with the digest of an ended one. A
logout finds none of the tokens it should end in the database; or it is an API client's,
spells the scheme `Bearer` or `bearer` with one space behind it, and nothing fails. -/
structure StepMeets (w : World) (e : Event) : Prop where
  login : ∀ user refresh, issuedBy libs w.server (e.request w).2.2 (e.request w).1
      (e.request w).2.1 = some (user, refresh) →
    ∀ token ∈ w.ended, libs.hashToken refresh ≠ libs.hashToken token
  logout : (∀ token ∈ endedBy w e, w.server.db.refreshTokens.get? (libs.hashToken token) = none) ∨
    ∃ raw env, e = .api .logout raw env ∧
      (∀ auth, raw.header "authorization".toList = some auth →
        auth = "Bearer ".toList ++ bearerCredential auth ∨
        auth = "bearer ".toList ++ bearerCredential auth) ∧
      env.fails .keysLock = false ∧ env.fails .dbLock = false ∧
      env.fails .tokensRevokeAll = false

def StepsMeet : World → List Event → Prop
  | _, [] => True
  | w, e :: events => StepMeets libs w e ∧ StepsMeet (w.step libs e) events

end

/-! ## What a request does to the refresh tokens -/

section

variable {libs : Libs} {st : AppState} {env : Env}

theorem loginOutcome_eq_some {username password refresh : Str} {user : User} :
    loginOutcome libs st env username password = some (user, refresh) ↔
      ∃ access, LogsInAs libs st env username password user access refresh := by
  constructor
  · intro h
    obtain ⟨found, hfound, hrest⟩ := bind_eq_some_iff.mp h
    obtain ⟨hlock, hverify⟩ := Env.attempt_eq_some.mp hfound
    obtain ⟨user', huser, htokens⟩ := bind_eq_some_iff.mp hrest
    obtain ⟨⟨access, refresh'⟩, hissue, hattempt⟩ := bind_eq_some_iff.mp htokens
    obtain ⟨hstore, hpair⟩ := Env.attempt_eq_some.mp hattempt
    cases hpair
    rw [huser] at hverify
    exact ⟨access, hlock, hverify, hissue, hstore⟩
  · rintro ⟨access, h⟩
    rw [loginOutcome, h.verified, Env.attempt_eq_some.mpr ⟨h.locked, rfl⟩, bind_some,
      bind_some, h.issued, bind_some, Env.attempt_eq_some.mpr ⟨h.stored, rfl⟩]

/-- What a request does to the refresh tokens: a login that goes through stores the one
it issues, and every other request stores none. -/
def TokensAfter (libs : Libs) (st : AppState) (env : Env) (endpoint : Endpoint) (raw : RawRequest)
    (st' : AppState) : Prop :=
  st'.keys = st.keys ∧
    ((∃ user refresh, issuedBy libs st env endpoint raw = some (user, refresh) ∧
        st'.db.refreshTokens = st.db.refreshTokens.insert (libs.hashToken refresh)
          (user.id, env.now 1 + st.refreshTtl)) ∨
      issuedBy libs st env endpoint raw = none ∧
        ∀ h row, st'.db.refreshTokens.get? h = some row → st.db.refreshTokens.get? h = some row)

variable {raw : RawRequest}

theorem logIn_tokens {c : Str × Str}
    (hc : loginCredentials libs st env raw = some c) (refused : RawResponse)
    (accepted : Str → Str → RawResponse) (peer : Str) :
    TokensAfter libs st env .login raw (logIn libs st env c.1 c.2 refused accepted peer).2 := by
  have hissued : issuedBy libs st env .login raw = loginOutcome libs st env c.1 c.2 := by
    simp only [issuedBy, hc, bind_some]
  rcases @logIn_cases libs st env c.1 c.2 refused accepted peer with
    ⟨user, access, refresh, hlogin, -, hdb, hkeys⟩ | ⟨hno, -, hdb, hkeys⟩
  · refine ⟨hkeys, .inl ⟨user, refresh, ?_, by rw [hdb]; rfl⟩⟩
    rw [hissued, loginOutcome_eq_some]
    exact ⟨access, hlogin⟩
  · refine ⟨hkeys, .inr ⟨?_, fun h row hrow => by rwa [hdb] at hrow⟩⟩
    rw [hissued]
    rcases hout : loginOutcome libs st env c.1 c.2 with _ | ⟨user, refresh⟩
    · rfl
    · obtain ⟨access, hlogin⟩ := loginOutcome_eq_some.mp hout
      exact absurd hlogin (hno user access refresh)

theorem handleLogin_tokens (raw : RawRequest) :
    TokensAfter libs st env .login raw (handleLogin libs st env raw).2 := by
  have hnone : loginCredentials libs st env raw = none → TokensAfter libs st env .login raw st := by
    intro hc
    refine ⟨rfl, .inr ⟨?_, fun h row hrow => hrow⟩⟩
    simp only [issuedBy, hc, bind_none]
  unfold handleLogin
  rcases hlimiter : env.fails .limiterLock with _ | _
  swap
  · refine hnone ?_
    unfold loginCredentials
    rw [hlimiter]
    rfl
  rcases hblocked : st.rateLimiter.isBlocked env.instant (peerIp raw) with _ | _
  swap
  · have hc : loginCredentials libs st env raw = none := by
      unfold loginCredentials
      rw [hlimiter, hblocked]
      rfl
    rcases hasMediaType raw "application/json".toList with _ | _
    · exact hnone hc
    · exact hnone hc
  rcases hjson : hasMediaType raw "application/json".toList with _ | _
  · have hc : loginCredentials libs st env raw =
        some ((formField (parseFormBody raw.body) "username".toList).getD [],
          (formField (parseFormBody raw.body) "password".toList).getD []) := by
      unfold loginCredentials
      rw [hlimiter, hblocked, hjson]
      rfl
    exact logIn_tokens hc _ _ _
  · have hc : loginCredentials libs st env raw = libs.loginReq raw.body := by
      unfold loginCredentials
      rw [hlimiter, hblocked, hjson]
      rfl
    suffices hjsonLogin : TokensAfter libs st env .login raw
      (handleLoginJson libs st env raw (peerIp raw)).2 from hjsonLogin
    unfold handleLoginJson
    rcases hreq : libs.loginReq raw.body with _ | ⟨username, password⟩
    · exact hnone (hc.trans hreq)
    · exact logIn_tokens (hc.trans hreq) _ _ _

/-- An operation whose failure is ignored leaves the database as it was or does what it
does. -/
theorem dbOr_db (fault : Fault) (db : Db) :
    (dbOr st env fault db).db = st.db ∨ (dbOr st env fault db).db = db := by
  simp only [dbOr, Env.attempt]
  split_ifs
  · exact .inl rfl
  · exact .inl rfl
  · exact .inr rfl

theorem handleLogout_tokens (raw : RawRequest) :
    TokensAfter libs st env .logout raw (handleLogout libs st env raw).2 := by
  have hsub : ∀ (fault : Fault) (q : Str × Str × Int → Bool), TokensAfter libs st env .logout raw
        (dbOr st env fault { st.db with refreshTokens := st.db.refreshTokens.filter q }) := by
    intro fault q
    refine ⟨rfl, .inr ⟨rfl, fun h row hrow => ?_⟩⟩
    rcases @dbOr_db st env fault
      { st.db with refreshTokens := st.db.refreshTokens.filter q } with hdb | hdb
    · rwa [hdb] at hrow
    · rw [hdb] at hrow
      exact (get?_filter.mp hrow).1
  have hsame : TokensAfter libs st env .logout raw st :=
    ⟨rfl, .inr ⟨rfl, fun h row hrow => hrow⟩⟩
  rw [handleLogout]
  split_ifs
  · simp only [handleLogoutApi]
    split
    · exact hsub _ _
    · exact hsame
  · simp only [handleLogoutBrowser]
    split
    · exact hsub _ _
    · exact hsame

/-- **What a request does to the refresh tokens.** -/
theorem serve_tokens (endpoint : Endpoint) (raw : RawRequest) :
    TokensAfter libs st env endpoint raw (serve libs st env endpoint raw).2 := by
  cases endpoint with
  | login => exact handleLogin_tokens raw
  | refresh => exact ⟨rfl, .inr ⟨rfl, fun h row hrow => hrow⟩⟩
  | logout => exact handleLogout_tokens raw

theorem issuedBy_signed {endpoint : Endpoint} {user : User} {refresh : Str}
    (h : issuedBy libs st env endpoint raw = some (user, refresh)) :
    ∃ c, st.keys.encodeRefresh c = some refresh ∧ c.sub = user.id := by
  cases endpoint with
  | login =>
    obtain ⟨c, -, hout⟩ := bind_eq_some_iff.mp h
    obtain ⟨access, hlogin⟩ := loginOutcome_eq_some.mp hout
    exact ⟨_, (issueTokens_chars hlogin.issued).2.2, rfl⟩
  | refresh | logout => cases h

/-! ## The logout of an API client -/

theorem not_prefix_of_token {p cred : Str} (hp : ' ' ∈ p) (hcred : ∀ x ∈ cred,
    isTokenChar x = true) :
    ¬ p <+: cred := by
  intro hpre
  exact absurd (hcred ' ' (hpre.subset hp)) (by decide)

theorem bearerToken_eq {auth cred : Str} (hcred : ∀ x ∈ cred, isTokenChar x = true)
    (h : auth = "Bearer ".toList ++ cred ∨ auth = "bearer ".toList ++ cred) :
    bearerToken auth = cred := by
  have hupper : ¬ "Bearer ".toList <+: cred := not_prefix_of_token (by decide) hcred
  have hlower : ¬ "bearer ".toList <+: cred := not_prefix_of_token (by decide) hcred
  rw [bearerToken]
  rcases h with rfl | rfl
  · rw [Text.trimStartMatches_append (by decide) hupper, Text.trimStartMatches_of_absent hlower]
  · have hother : ¬ "Bearer ".toList <+: "bearer ".toList ++ cred := by
      rintro ⟨t, ht⟩
      exact absurd (List.cons.inj ht).1 (by decide)
    rw [Text.trimStartMatches_of_absent hother, Text.trimStartMatches_append (by decide) hlower]

/-- A logout in one of the two spellings, during which nothing fails, deletes every
refresh token of the user. -/
theorem logout_revokes {claims : AccessClaims} (hsession : apiSession st env raw = some claims)
    (hscheme : ∀ auth, raw.header "authorization".toList = some auth →
      auth = "Bearer ".toList ++ bearerCredential auth ∨
      auth = "bearer ".toList ++ bearerCredential auth)
    (hkeys : env.fails .keysLock = false) (hlock : env.fails .dbLock = false)
    (hrevoke : env.fails .tokensRevokeAll = false) :
    (serve libs st env .logout raw).2.db.refreshTokens =
      st.db.refreshTokens.filter fun e => e.2.1 ≠ claims.sub := by
  rw [apiSession] at hsession
  split_ifs at hsession with hapi
  obtain ⟨auth, hauth, hdecode⟩ := bind_eq_some_iff.mp hsession
  have htoken : bearerToken auth = bearerCredential auth :=
    bearerToken_eq (st.keys.decodeAccess_chars hdecode) (hscheme auth hauth)
  simp only [serve, handleLogout, if_pos hapi, handleLogoutApi, hauth, bind_some, htoken,
    Env.attempt, hkeys, Bool.false_eq_true, if_false, hdecode, dbOr, hlock, hrevoke,
    getD_some, Db.refreshTokensRevokeAll]

/-! ## Runs -/

/-- A token that no refresh accepts: the database has no row for it under the user it
names. -/
def Dead (libs : Libs) (st : AppState) (token : Str) : Prop :=
  ∀ now c, st.keys.decodeRefresh now token = some c →
    ∀ expires, st.db.refreshTokens.get? (libs.hashToken token) ≠ some (c.sub, expires)

theorem doRefresh_of_dead {token : Str} (h : Dead libs st token) (env : Env) :
    doRefresh libs st env token = none := by
  rcases hrefresh : doRefresh libs st env token with _ | fresh
  · rfl
  · exfalso
    obtain ⟨claims, hdecode, hrest⟩ := bind_eq_some_iff.mp hrefresh
    obtain ⟨stored, hstored, hrest⟩ := bind_eq_some_iff.mp hrest
    split_ifs at hrest with hsub
    obtain ⟨-, hverify⟩ := Env.attempt_eq_some.mp (Env.attempt_eq_some.mp hstored).2
    obtain ⟨⟨userId, expires⟩, hrow, hlive⟩ := bind_eq_some_iff.mp hverify
    split_ifs at hlive
    obtain rfl : userId = stored := some.inj hlive
    refine h _ claims (Env.attempt_eq_some.mp hdecode).2 expires ?_
    rw [hrow, not_ne_iff.mp hsub]

theorem Dead.serve {token : Str} (h : Dead libs st token) {endpoint : Endpoint}
    (hlogin : ∀ user refresh, issuedBy libs st env endpoint raw = some (user, refresh) →
      libs.hashToken refresh ≠ libs.hashToken token) :
    Dead libs (M6.serve libs st env endpoint raw).2 token := by
  obtain ⟨hkeys, htokens⟩ := @serve_tokens libs st env endpoint raw
  intro now c hdecode expires hrow
  rw [hkeys] at hdecode
  refine h now c hdecode expires ?_
  rcases htokens with ⟨user, refresh, hissued, hstore⟩ | ⟨-, hsub⟩
  · rw [hstore, get?_insert, if_neg (hlogin user refresh hissued).symm] at hrow
    exact hrow
  · exact hsub _ _ hrow

/-- What holds in every state of a run: issued tokens are signed over claims that name
their user, and ended tokens are dead. -/
structure Inv (libs : Libs) (w : World) : Prop where
  issued : ∀ i ∈ w.issued, ∃ c, w.server.keys.encodeRefresh c = some i.1 ∧ c.sub = i.2
  dead : ∀ token ∈ w.ended, Dead libs w.server token

theorem inv_start (server : AppState) : Inv libs (World.start server) where
  issued _ hi := (List.not_mem_nil hi).elim
  dead _ htoken := (List.not_mem_nil htoken).elim

variable {w : World}

theorem endpoint_of_endedBy {e : Event} {token : Str} (h : token ∈ endedBy w e) :
    (e.request w).1 = .logout := by
  rcases e with ⟨b, endpoint, raw, env⟩ | ⟨endpoint, raw, env⟩
  all_goals
    cases endpoint with
    | login | refresh => cases h
    | logout => rfl

/-- **One step** keeps the invariant. -/
theorem inv_step {e : Event} (h : Inv libs w) (hmeets : StepMeets libs w e) :
    Inv libs (w.step libs e) := by
  obtain ⟨hkeys, -⟩ := @serve_tokens libs w.server (e.request w).2.2 (e.request w).1
    (e.request w).2.1
  have hserver : (w.step libs e).server =
      (serve libs w.server (e.request w).2.2 (e.request w).1 (e.request w).2.1).2 := rfl
  constructor
  · intro i hi
    rw [hserver, hkeys]
    rcases List.mem_append.mp hi with hi | hi
    · obtain ⟨⟨user, refresh⟩, hissued, rfl⟩ := map_eq_some_iff.mp (mem_toList.mp hi)
      exact issuedBy_signed hissued
    · exact h.issued i hi
  · intro token htoken
    rw [hserver]
    rcases List.mem_append.mp htoken with htoken | htoken
    · have hnone : issuedBy libs w.server (e.request w).2.2 (e.request w).1 (e.request w).2.1 =
          none := by
        rw [endpoint_of_endedBy htoken]
        rfl
      rcases hmeets.logout with habsent | ⟨raw, env, rfl, hscheme, hkeysOk, hlock, hrevoke⟩
      · -- the database had no row for it, and the logout stores none
        refine Dead.serve (fun now c _ expires hrow => ?_) fun user refresh hissued => ?_
        · rw [habsent token htoken] at hrow
          cases hrow
        · rw [hnone] at hissued
          cases hissued
      · -- every row of the user is gone, and the token names that user
        simp only [endedBy] at htoken
        rcases hsession : apiSession w.server env raw with _ | claims
        · rw [hsession] at htoken
          cases htoken
        rw [hsession] at htoken
        obtain ⟨⟨token', userId⟩, hissued, rfl⟩ := List.mem_map.mp htoken
        obtain ⟨hissued, huser⟩ := List.mem_filter.mp hissued
        obtain ⟨c, hsigned, hsub⟩ := h.issued _ hissued
        intro now c' hdecode expires hrow
        rw [hkeys] at hdecode
        obtain rfl := w.server.keys.decode_encode hsigned hdecode
        rw [Event.request, logout_revokes hsession hscheme hkeysOk hlock hrevoke,
          get?_filter] at hrow
        refine absurd hrow.2 ?_
        simpa using hsub.trans (by simpa using huser)
    · exact Dead.serve (h.dead token htoken) fun user refresh hissued =>
        hmeets.login user refresh hissued token htoken

/-- **Every run** whose steps meet their condition keeps the invariant. -/
theorem inv_run {events : List Event} (h : Inv libs w)
    (hmeets : StepsMeet libs w events) : Inv libs (w.run libs events) := by
  induction events generalizing w with
  | nil => exact h
  | cons e events ih => exact ih (inv_step h hmeets.1) hmeets.2

theorem stepsMeet_take {events : List Event} (h : StepsMeet libs w events) (n : Nat) :
    StepsMeet libs w (events.take n) := by
  induction events generalizing w n with
  | nil => rw [List.take_nil]; exact h
  | cons e events ih =>
    cases n with
    | zero => trivial
    | succ n => exact ⟨h.1, ih h.2 n⟩

/-! ## Where a session comes from -/

def RowsOfLogins (libs : Libs) (server : AppState) (w : World) : Prop :=
  ∀ digest userId expires, w.server.db.refreshTokens.get? digest = some (userId, expires) →
    server.db.refreshTokens.get? digest = some (userId, expires) ∨
      ∃ refresh, (refresh, userId) ∈ w.issued ∧ libs.hashToken refresh = digest

/-- A refresh that succeeds signs a session for the user of an unexpired row, which is one that the
server started with, or that a login of this user stored. -/
def RefreshesOfLogins (libs : Libs) (server : AppState) (w : World) : Prop :=
  ∀ token env access userId, doRefresh libs w.server env token = some (access, userId) →
    (∃ c, w.server.keys.encodeAccess c = some access ∧ c.sub = userId) ∧
      ∃ expires, env.now 1 < expires ∧
        (server.db.refreshTokens.get? (libs.hashToken token) = some (userId, expires) ∨
          ∃ refresh, (refresh, userId) ∈ w.issued ∧
            libs.hashToken refresh = libs.hashToken token)

theorem doRefresh_spec {token access userId : Str}
    (h : doRefresh libs st env token = some (access, userId)) :
    (∃ c, st.keys.encodeAccess c = some access ∧ c.sub = userId) ∧ ∃ expires, env.now 1 < expires ∧
        st.db.refreshTokens.get? (libs.hashToken token) = some (userId, expires) := by
  obtain ⟨claims, -, h⟩ := bind_eq_some_iff.mp h
  obtain ⟨stored, hstored, h⟩ := bind_eq_some_iff.mp h
  split_ifs at h with hsub
  obtain ⟨user, huser, h⟩ := bind_eq_some_iff.mp h
  obtain ⟨a, ha, h⟩ := map_eq_some_iff.mp h
  cases h
  obtain ⟨row, hrow, rfl⟩ := map_eq_some_iff.mp (Env.attempt_eq_some.mp huser).2
  have hid : row.id = claims.sub := by simpa using List.find?_some hrow
  obtain ⟨-, hverify⟩ := Env.attempt_eq_some.mp (Env.attempt_eq_some.mp hstored).2
  obtain ⟨⟨userId, expires⟩, hget, hlive⟩ := bind_eq_some_iff.mp hverify
  split_ifs at hlive with hafter
  obtain rfl : userId = stored := some.inj hlive
  refine ⟨⟨_, ha, rfl⟩, expires, hafter, ?_⟩
  rw [hget, not_ne_iff.mp hsub, hid]

theorem rowsOfLogins_step {server : AppState} (h : RowsOfLogins libs server w)
    (e : Event) : RowsOfLogins libs server (w.step libs e) := by
  obtain ⟨-, htokens⟩ := @serve_tokens libs w.server (e.request w).2.2 (e.request w).1
    (e.request w).2.1
  intro digest userId expires hrow
  have hold : w.server.db.refreshTokens.get? digest = some (userId, expires) →
      server.db.refreshTokens.get? digest = some (userId, expires) ∨
        ∃ refresh, (refresh, userId) ∈ (w.step libs e).issued ∧ libs.hashToken refresh = digest :=
    fun hget => (h digest userId expires hget).imp_right fun ⟨refresh, hmem, hdigest⟩ =>
      ⟨refresh, List.mem_append_right _ hmem, hdigest⟩
  rcases htokens with ⟨user, refresh, hissued, hstore⟩ | ⟨-, hsub⟩
  · have hget : ((w.server.db.refreshTokens.insert (libs.hashToken refresh)
        (user.id, (e.request w).2.2.now 1 + w.server.refreshTtl)).get? digest) =
          some (userId, expires) := by
      rw [← hstore]
      exact hrow
    rw [get?_insert] at hget
    split_ifs at hget with hdigest
    · cases hget
      have hnew : (w.step libs e).issued = ((issuedBy libs w.server (e.request w).2.2
          (e.request w).1 (e.request w).2.1).map fun i => (i.2, i.1.id)).toList ++ w.issued := rfl
      rw [hnew, hissued]
      exact .inr ⟨refresh, List.mem_append_left _ (List.mem_singleton_self _), hdigest.symm⟩
    · exact hold hget
  · exact hold (hsub _ _ hrow)

/-- **Refreshes are of logins**, in every state of every run: no request makes a session for a user
but a login of that user, however the requests of browsers and other clients come. -/
theorem refreshes_of_logins (libs : Libs) (server : AppState) (events : List Event) :
    RefreshesOfLogins libs server ((World.start server).run libs events) := by
  have hrun : ∀ (events : List Event) (w : World), RowsOfLogins libs server w →
      RowsOfLogins libs server (w.run libs events) := by
    intro events
    induction events with
    | nil => exact fun _ h => h
    | cons e events ih => exact fun w h => ih _ (rowsOfLogins_step h e)
  intro token env access userId hrefresh
  obtain ⟨hsigned, expires, hafter, hrow⟩ := doRefresh_spec hrefresh
  refine ⟨hsigned, expires, hafter, ?_⟩
  exact hrun events (World.start server) (fun _ _ _ hrow => .inl hrow) _ _ _ hrow

end

/-- **Logout ends the session** in every state of every run in which each login issues
no token with the digest of an ended one, and each logout finds none of its tokens in
the database, or is an API client's in one of the two spellings and nothing fails. -/
theorem logout_ends (libs : Libs) (server : AppState) (events : List Event)
    (h : StepsMeet libs (World.start server) events) (n : Nat) :
    Ended libs ((World.start server).run libs (events.take n)) := by
  intro token htoken env
  exact doRefresh_of_dead ((inv_run (inv_start server) (stepsMeet_take h n)).dead token htoken) env

/-! ## Small runs -/

def plainPost (headers : List (Str × Str)) (body : Str) : RawRequest :=
  ⟨"POST".toList, "/".toList, none, "HTTP/1.1".toList, headers, Utf8.encode body⟩

def smallLogin : RawRequest := plainPost [] "username=ann&password=secret".toList

def smallLogout (scheme : Str) : RawRequest :=
  plainPost [("Authorization".toList, scheme ++ " access.token.signature".toList)] []

theorem logout_ends_bearer : ((World.start smallServer).run smallLibs
        [.api .login smallLogin calm, .api .logout (smallLogout "Bearer".toList) calm]).ended =
      ["refresh.token.signature".toList] ∧
    ∀ n, Ended smallLibs ((World.start smallServer).run smallLibs ([.api .login smallLogin calm,
        .api .logout (smallLogout "Bearer".toList) calm].take n)) := by
  refine ⟨by decide +kernel, logout_ends _ _ _ ⟨⟨?_, ?_⟩, ⟨?_, ?_⟩, trivial⟩⟩
  · intro user refresh _ token htoken
    cases htoken
  · exact .inl fun token htoken => (List.not_mem_nil htoken).elim
  · intro user refresh hissued
    cases hissued
  · refine .inr ⟨_, _, rfl, fun auth hauth => .inl ?_, rfl, rfl, rfl⟩
    cases hauth
    decide

theorem refresh_after_logout : ¬ Ended smallLibs ((World.start smallServer).run smallLibs
        [.browser 0 .login smallLogin calm, .browser 0 .logout (plainPost [] []) calm]) ∧
    ¬ Ended smallLibs ((World.start smallServer).run smallLibs
        [.api .login smallLogin calm, .api .logout (smallLogout "BEARER".toList) calm]) ∧
    ¬ Ended smallLibs ((World.start smallServer).run smallLibs
        [.api .login smallLogin calm, .api .logout (smallLogout "Bearer".toList)
          ⟨fun _ => 1000, 0, fun f => f == .tokensRevokeAll⟩]) := by
  refine ⟨fun h => ?_, fun h => ?_, fun h => ?_⟩
  all_goals
    exact absurd (h "refresh.token.signature".toList (by decide +kernel) calm) (by decide +kernel)

end M6
