import M6.Auth.Throttle
import M6.Auth.Tokens

/-!
# Two sessions of one user

Two logins of one user, and a browser that logs out of one of them. The other session goes on if
its refresh token is still in the database, and the database knows a token by its digest alone.

`Untouched` is what may happen around these requests: whatever it is, the rows of the two tokens
stay as they are. A token is the claims and a signature, the claims have no more than the second
and the name in them, and an RS256 signature adds nothing. `independence` says that the two
sessions are independent exactly if the claims differ, or the signatures do.
-/

namespace M6

open Option

namespace TwoSessions

/-! ## Keys -/

/-- **A key pair**, and what it signs with the randomness of a moment. -/
structure Signer where
  Randomness : Type
  algorithm : Algorithm
  issuer : Str
  engine : Randomness → JwtEngine
  deterministic : algorithm = .rs256 → ∀ r r' c,
    (engine r).encodeRefresh c = (engine r').encodeRefresh c
  /-- a token carries the claims it was signed over -/
  carries : ∀ {r r' c c' t}, (engine r).encodeRefresh c = some t →
    (engine r').encodeRefresh c' = some t → c = c'
  accepts : ∀ {r r' c t now}, (engine r).encodeRefresh c = some t → c.iss = issuer →
    c.exp < 2 ^ 63 → 0 ≤ now → now < c.exp → (engine r').decodeRefresh now t = some c
  signs : ∃ r, ∀ c, ((engine r).encodeAccess c).isSome

def Signer.signing (signer : Signer) (r : signer.Randomness) (st : AppState) : AppState :=
  { st with keys := signer.engine r }

@[simp] theorem Signer.signing_db (signer : Signer) (r : signer.Randomness) (st : AppState) :
    (signer.signing r st).db = st.db := rfl

/-! ## Requests -/

section

variable (libs : Libs) (signer : Signer)

/-- **A login that goes through**, with a form or with JSON. -/
structure Login where
  before : AppState
  randomness : signer.Randomness
  raw : RawRequest
  env : Env
  asked : LoginRequest
  user : User
  access : Str
  refresh : Str
  unlocked : env.fails .limiterLock = false
  allowed : before.rateLimiter.isBlocked env.instant (peerIp raw) = false
  read : loginRequest libs (signer.signing randomness before) raw = .ok asked
  succeeds : LogsInAs libs (signer.signing randomness before) env asked.username asked.password
    user access refresh
  issuer : before.issuer = signer.issuer
  /-- the expiry is an `i64` -/
  fits : (refreshClaims before env user).exp < 2 ^ 63

/-- The rows of some tokens stay as they are, whatever else happens. -/
def Untouched (tokens : List Str) (st st' : AppState) : Prop :=
  ∀ t ∈ tokens, st'.db.refreshTokens.get? (libs.hashToken t) =
    st.db.refreshTokens.get? (libs.hashToken t)

end

section

variable {libs : Libs} {signer : Signer}

namespace Login

variable (l : Login libs signer)

def claims : RefreshClaims := refreshClaims l.before l.env l.user

def after : AppState :=
  (handleLogin libs (signer.signing l.randomness l.before) l.env l.raw).2

def expiresAt : Int := l.env.now 1 + l.before.refreshTtl

theorem encoded : (signer.engine l.randomness).encodeRefresh l.claims = some l.refresh :=
  (issueTokens_chars l.succeeds.issued).2.2

theorem handled : (handleLogin libs (signer.signing l.randomness l.before) l.env l.raw).1 =
        l.asked.accepted l.access l.refresh ∧
      l.after.db = l.before.db.refreshTokenStore l.user.id (libs.hashToken l.refresh)
        l.expiresAt := by
  have hallowed : (signer.signing l.randomness l.before).rateLimiter.isBlocked l.env.instant
      (peerIp l.raw) = false := l.allowed
  have heq := handleLogin_eq libs (signer.signing l.randomness l.before) l.env l.raw
  rw [l.unlocked, if_neg Bool.false_ne_true, hallowed, if_neg Bool.false_ne_true, l.read] at heq
  rw [after, heq]
  rcases @logIn_cases libs (signer.signing l.randomness l.before) l.env l.asked.username
      l.asked.password l.asked.refused l.asked.accepted (peerIp l.raw) with
    ⟨user, access, refresh, hlogin, hanswer, hdb, -⟩ | ⟨hno, -⟩
  · have huser : some (some user) = some (some l.user) :=
      hlogin.verified.symm.trans l.succeeds.verified
    cases huser
    have htokens : some (access, refresh) = some (l.access, l.refresh) :=
      hlogin.issued.symm.trans l.succeeds.issued
    cases htokens
    exact ⟨hanswer, hdb⟩
  · exact absurd l.succeeds (hno _ _ _)

theorem get?_after (h : Str) : l.after.db.refreshTokens.get? h =
    if h = libs.hashToken l.refresh then some (l.user.id, l.expiresAt)
    else l.before.db.refreshTokens.get? h := by
  rw [l.handled.2, Db.refreshTokenStore, SortedMap.get?_insert]
  split_ifs <;> rfl

end Login

/-! ## What leaves the rows alone -/

theorem Untouched.trans {tokens : List Str} {st st' st'' : AppState}
    (h : Untouched libs tokens st st') (h' : Untouched libs tokens st' st'') :
    Untouched libs tokens st st'' :=
  fun t ht => (h' t ht).trans (h t ht)

theorem untouched_logout (hdigest : Function.Injective libs.hashToken) {tokens : List Str}
    {raw : RawRequest} (h : ∀ t ∈ tokens, requestCookie raw "refresh".toList ≠ some t)
    (st : AppState) (env : Env) :
    Untouched libs tokens st (handleLogoutBrowser libs st env raw).2 := by
  rw [handleLogoutBrowser]
  cases hcookie : requestCookie raw "refresh".toList with
  | none => exact fun t _ => rfl
  | some token =>
    intro t ht
    dsimp only
    rcases @dbOr_db st env .tokenRevoke (st.db.refreshTokenRevoke (libs.hashToken token)) with
      hdb | hdb
    · rw [hdb]
    · have hne : libs.hashToken t ≠ libs.hashToken token := by
        intro heq
        exact h t ht (hdigest heq ▸ hcookie)
      rw [hdb]
      refine ext fun row => ?_
      rw [Db.refreshTokenRevoke, SortedMap.get?_filter]
      exact ⟨fun hrow => hrow.1, fun hrow => ⟨hrow, decide_eq_true hne⟩⟩

theorem get?_logout {raw : RawRequest} {token : Str} {st : AppState} {env : Env}
    (hcookie : requestCookie raw "refresh".toList = some token)
    (hlock : env.fails .dbLock = false) (hrevoke : env.fails .tokenRevoke = false) :
    (handleLogoutBrowser libs st env raw).2.db.refreshTokens.get? (libs.hashToken token) =
      none := by
  rw [handleLogoutBrowser, hcookie]
  dsimp only
  simp only [dbOr, Env.attempt, hlock, hrevoke, Bool.false_eq_true, if_false, getD_some]
  rw [eq_none_iff_forall_ne_some]
  intro row hrow
  rw [Db.refreshTokenRevoke, SortedMap.get?_filter] at hrow
  exact of_decide_eq_true hrow.2 rfl

theorem doRefresh_isSome {st : AppState} {env : Env} {token : Str} {c : RefreshClaims}
    {expiresAt : Int} (hfails : ∀ fault, env.fails fault = false)
    (hdecode : st.keys.decodeRefresh (env.now 0) token = some c)
    (hrow : st.db.refreshTokens.get? (libs.hashToken token) = some (c.sub, expiresAt))
    (hlive : env.now 1 < expiresAt) (huser : (st.db.userGetById c.sub).isSome)
    (hsigns : ∀ c, (st.keys.encodeAccess c).isSome) : (doRefresh libs st env token).isSome := by
  obtain ⟨user, huser⟩ := isSome_iff_exists.mp huser
  have hverify : st.db.refreshTokenVerify (libs.hashToken token) (env.now 1) = some c.sub := by
    rw [Db.refreshTokenVerify, hrow, bind_some, if_pos hlive]
  simp only [doRefresh, Env.attempt, hfails, Bool.false_eq_true, if_false, hdecode,
    bind_some, hverify, ne_eq, not_true_eq_false, huser, isSome_map, hsigns]

theorem doRefresh_eq_none {st : AppState} {token : Str}
    (hrow : st.db.refreshTokens.get? (libs.hashToken token) = none) (env : Env) :
    doRefresh libs st env token = none := by
  refine doRefresh_of_dead (fun now c _ expires hrow' => ?_) env
  rw [hrow] at hrow'
  cases hrow'

end

/-! ## The two sessions -/

/-- **Two logins of one user, and a logout of one of the two sessions.** Before, between and after
them anything may happen that leaves the two tokens alone. -/
structure Sessions (libs : Libs) (signer : Signer) where
  /-- the digest is free of collisions -/
  digest_injective : Function.Injective libs.hashToken
  first : Login libs signer
  second : Login libs signer
  one_user : second.user.id = first.user.id
  between : Untouched libs [first.refresh] first.after second.before
  atLogout : AppState
  meanwhile : Untouched libs [first.refresh, second.refresh] second.after atLogout
  firstEnds : Bool
  logout : RawRequest
  logoutEnv : Env
  cookie : requestCookie logout "refresh".toList =
    some (if firstEnds then first.refresh else second.refresh)
  later : AppState
  afterwards : Untouched libs [if firstEnds then second.refresh else first.refresh]
    (handleLogoutBrowser libs atLogout logoutEnv logout).2 later
  user_exists : (later.db.userGetById first.user.id).isSome

section

variable {libs : Libs} {signer : Signer}

namespace Sessions

variable (s : Sessions libs signer)

def ending : Login libs signer := if s.firstEnds then s.first else s.second

def other : Login libs signer := if s.firstEnds then s.second else s.first

/-- A refresh of the other session, before its token expires, with nothing that fails. -/
structure Refresh where
  env : Env
  randomness : signer.Randomness
  fails : ∀ fault, env.fails fault = false
  signs : ∀ c, ((signer.engine randomness).encodeAccess c).isSome
  clock : 0 ≤ env.now 0
  unexpired : env.now 0 < s.other.claims.exp
  unexpired_row : env.now 1 < s.other.expiresAt

/-- **The other session goes on.** -/
def Independent : Prop := ∀ r : s.Refresh,
  (doRefresh libs (signer.signing r.randomness s.later) r.env s.other.refresh).isSome

/-- **The logins are told apart**: by the second or by the name, or by the signatures, which are
random under ES256. -/
def Apart : Prop :=
  s.first.claims ≠ s.second.claims ∨
    signer.algorithm = .es256 ∧
      (signer.engine s.first.randomness).encodeRefresh s.first.claims ≠
        (signer.engine s.second.randomness).encodeRefresh s.first.claims

def Reaches : Prop :=
  s.logoutEnv.fails .dbLock = false ∧ s.logoutEnv.fails .tokenRevoke = false

theorem cookie_ending : requestCookie s.logout "refresh".toList = some s.ending.refresh := by
  rw [s.cookie, ending]
  cases s.firstEnds <;> rfl

theorem afterwards_other : Untouched libs [s.other.refresh]
    (handleLogoutBrowser libs s.atLogout s.logoutEnv s.logout).2 s.later := by
  have h := s.afterwards
  rw [other]
  cases hends : s.firstEnds with
  | true | false => rwa [hends] at h

theorem other_user : s.other.user.id = s.first.user.id := by
  rw [other]
  cases s.firstEnds with
  | true => exact s.one_user
  | false => rfl

/-- **The tokens differ exactly if the logins are told apart.** -/
theorem tokens_differ_iff : s.first.refresh ≠ s.second.refresh ↔ s.Apart := by
  have hfirst := s.first.encoded
  have hsecond := s.second.encoded
  constructor
  · intro hne
    by_cases hclaims : s.first.claims = s.second.claims
    · right
      rw [hclaims] at hfirst ⊢
      have hdiffer : (signer.engine s.first.randomness).encodeRefresh s.second.claims ≠
          (signer.engine s.second.randomness).encodeRefresh s.second.claims := by
        rw [hfirst, hsecond]
        exact mt some.inj hne
      refine ⟨?_, hdiffer⟩
      cases halgorithm : signer.algorithm with
      | es256 => rfl
      | rs256 => exact absurd (signer.deterministic halgorithm _ _ _) hdiffer
    · exact .inl hclaims
  · rintro (hclaims | ⟨-, hdiffer⟩) heq
    · rw [heq] at hfirst
      exact hclaims (signer.carries hfirst hsecond)
    · have hclaims : s.first.claims = s.second.claims := by
        rw [heq] at hfirst
        exact signer.carries hfirst hsecond
      rw [hfirst, hclaims, hsecond, heq] at hdiffer
      exact hdiffer rfl

theorem other_ne_ending (h : s.first.refresh ≠ s.second.refresh) :
    s.other.refresh ≠ s.ending.refresh := by
  rw [other, ending]
  cases s.firstEnds with
  | true => exact h.symm
  | false => exact h

theorem get?_atLogout (h : s.first.refresh ≠ s.second.refresh) :
    s.atLogout.db.refreshTokens.get? (libs.hashToken s.other.refresh) =
      some (s.other.user.id, s.other.expiresAt) := by
  have hfirst := s.meanwhile s.first.refresh List.mem_cons_self
  have hsecond := s.meanwhile s.second.refresh (List.mem_cons_of_mem _ List.mem_cons_self)
  rw [other]
  cases s.firstEnds with
  | true =>
    rw [if_pos rfl, hsecond, s.second.get?_after, if_pos rfl]
  | false =>
    have hne : libs.hashToken s.first.refresh ≠ libs.hashToken s.second.refresh :=
      fun heq => h (s.digest_injective heq)
    rw [if_neg Bool.false_ne_true, hfirst, s.second.get?_after, if_neg hne,
      s.between s.first.refresh List.mem_cons_self, s.first.get?_after, if_pos rfl]

/-- **Sessions with different tokens are independent.** -/
theorem independent_of_ne (h : s.first.refresh ≠ s.second.refresh) : s.Independent := by
  intro r
  have hother : ∀ t ∈ [s.other.refresh], requestCookie s.logout "refresh".toList ≠ some t := by
    intro t ht
    obtain rfl := List.mem_singleton.mp ht
    rw [s.cookie_ending]
    exact fun heq => s.other_ne_ending h (some.inj heq).symm
  have huntouched := (untouched_logout s.digest_injective hother s.atLogout s.logoutEnv).trans
    s.afterwards_other
  have hrow := (huntouched s.other.refresh List.mem_cons_self).trans (s.get?_atLogout h)
  have huser : (s.later.db.userGetById s.other.user.id).isSome := by
    rw [s.other_user]
    exact s.user_exists
  have hdecode : (signer.engine r.randomness).decodeRefresh (r.env.now 0) s.other.refresh =
      some s.other.claims :=
    signer.accepts s.other.encoded s.other.issuer s.other.fits r.clock r.unexpired
  exact doRefresh_isSome r.fails hdecode hrow r.unexpired_row huser r.signs

/-- **With one token there is one row**, and the logout deletes it. -/
theorem not_independent (h : s.first.refresh = s.second.refresh) (hreaches : s.Reaches)
    (hexp : 0 < s.other.claims.exp) : ¬ s.Independent := by
  intro hindependent
  have hsame : s.other.refresh = s.ending.refresh := by
    rw [other, ending]
    cases s.firstEnds with
    | true => exact h.symm
    | false => exact h
  have hrow : s.later.db.refreshTokens.get? (libs.hashToken s.other.refresh) = none := by
    rw [s.afterwards_other s.other.refresh List.mem_cons_self, hsame]
    exact get?_logout s.cookie_ending hreaches.1 hreaches.2
  obtain ⟨r, hsigns⟩ := signer.signs
  -- at the start of time the token has not expired
  let env : Env := ⟨fun k => if k = 0 then 0 else s.other.expiresAt - 1, 0, fun _ => false⟩
  have hrefresh : (doRefresh libs (signer.signing r s.later) env s.other.refresh).isSome :=
    hindependent
      { env := env
        randomness := r
        fails := fun _ => rfl
        signs := hsigns
        clock := Int.le_refl 0
        unexpired := hexp
        unexpired_row := Int.sub_one_lt_of_le (Int.le_refl _) }
  have hnone : doRefresh libs (signer.signing r s.later) env s.other.refresh = none :=
    @doRefresh_eq_none libs (signer.signing r s.later) _ hrow env
  rw [hnone] at hrefresh
  cases hrefresh

/-- **When sessions are independent.** -/
structure Independence : Prop where
  /-- when a login is given a token of its own -/
  tokens : s.first.refresh ≠ s.second.refresh ↔ s.Apart
  /-- no logout ends the other session then -/
  apart : s.Apart → s.Independent
  /-- and one that reaches the database does so in every other case, where there is a session
  to end -/
  reaches : s.Reaches → (s.Independent ↔ s.other.claims.exp ≤ 0 ∨ s.Apart)

end Sessions

end

/-- **Two sessions are independent exactly if the logins are told apart.** -/
theorem independence {libs : Libs} {signer : Signer} (s : Sessions libs signer) :
    s.Independence where
  tokens := s.tokens_differ_iff
  apart h := s.independent_of_ne (s.tokens_differ_iff.mpr h)
  reaches hreaches := by
    constructor
    · intro hindependent
      by_cases hexp : s.other.claims.exp ≤ 0
      · exact .inl hexp
      · refine .inr (s.tokens_differ_iff.mp fun heq => ?_)
        exact s.not_independent heq hreaches (Int.not_le.mp hexp) hindependent
    · rintro (hexp | hapart)
      · intro r
        exact absurd (r.clock.trans_lt r.unexpired) (Int.not_lt.mpr hexp)
      · exact s.independent_of_ne (s.tokens_differ_iff.mpr hapart)

/-! ## One second, and two -/

def secondClaims : RefreshClaims :=
  ⟨"m6".toList, "1".toList, 4600, 1000, "ann".toList, "refresh".toList⟩

def laterClaims : RefreshClaims :=
  ⟨"m6".toList, "1".toList, 4601, 1001, "ann".toList, "refresh".toList⟩

def signed (c : RefreshClaims) : Option Str :=
  if c = secondClaims then some "refresh.token.signature".toList
  else if c = laterClaims then some "later.token.signature".toList
  else none

def opened (now : Int) (t : Str) : Option RefreshClaims :=
  if t = "refresh.token.signature".toList ∧ now < secondClaims.exp then some secondClaims
  else if t = "later.token.signature".toList ∧ now < laterClaims.exp then some laterClaims
  else none

theorem signed_eq {c : RefreshClaims} {t : Str} (h : signed c = some t) :
    c = secondClaims ∧ t = "refresh.token.signature".toList ∨
      c = laterClaims ∧ t = "later.token.signature".toList := by
  rw [signed] at h
  split_ifs at h with hc hlater
  · exact .inl ⟨hc, (some.inj h).symm⟩
  · exact .inr ⟨hlater, (some.inj h).symm⟩

theorem signed_chars {c : RefreshClaims} {t : Str} (h : signed c = some t) :
    ∀ x ∈ t, isTokenChar x = true := by
  obtain ⟨-, rfl⟩ | ⟨-, rfl⟩ := signed_eq h
  · exact List.all_eq_true.mp small_tokens_chars.2
  · exact List.all_eq_true.mp (by decide)

theorem texts_apart : "refresh.token.signature".toList ≠ "later.token.signature".toList := by decide

theorem signed_inj {c c' : RefreshClaims} {t : Str} (h : signed c = some t)
    (h' : signed c' = some t) : c = c' := by
  obtain ⟨rfl, rfl⟩ | ⟨rfl, rfl⟩ := signed_eq h
  · obtain ⟨rfl, -⟩ | ⟨-, ht⟩ := signed_eq h'
    · rfl
    · exact absurd ht texts_apart
  · obtain ⟨-, ht⟩ | ⟨rfl, -⟩ := signed_eq h'
    · exact absurd ht.symm texts_apart
    · rfl

theorem opened_of_signed {c : RefreshClaims} {t : Str} {now : Int} (h : signed c = some t)
    (hnow : now < c.exp) : opened now t = some c := by
  obtain ⟨rfl, rfl⟩ | ⟨rfl, rfl⟩ := signed_eq h
  · exact if_pos ⟨rfl, hnow⟩
  · exact (if_neg fun h => texts_apart h.1.symm).trans (if_pos ⟨rfl, hnow⟩)

theorem opened_signed {now : Int} {t : Str} {c c' : RefreshClaims} (h : signed c = some t)
    (h' : opened now t = some c') : c' = c := by
  rw [opened] at h'
  split_ifs at h' with ht ht
  all_goals
    cases h'
    exact signed_inj (ht.1 ▸ rfl) h

theorem accessText_chars {t : Str} (h : some "access.token.signature".toList = some t) :
    ∀ x ∈ t, isTokenChar x = true := by
  cases h
  exact List.all_eq_true.mp small_tokens_chars.1

def secondEngine : JwtEngine :=
  { JwtEngine.ofClaims ⟨"m6".toList, "1".toList, 1900, 1000, "ann".toList, [], []⟩ secondClaims with
    encodeAccess := fun _ => some "access.token.signature".toList
    encodeAccess_chars := fun h => accessText_chars h
    encodeRefresh := signed
    encodeRefresh_chars := signed_chars
    decodeRefresh := opened
    decode_encode := opened_signed }

theorem secondEngine_signs : ∃ _ : Unit, ∀ c, (secondEngine.encodeAccess c).isSome :=
  ⟨(), fun _ => rfl⟩

def secondSigner : Signer where
  Randomness := Unit
  algorithm := .rs256
  issuer := "m6".toList
  engine _ := secondEngine
  deterministic _ _ _ _ := rfl
  carries := signed_inj
  accepts h _ _ _ hnow := opened_of_signed h hnow
  signs := secondEngine_signs

def ann : User := ⟨"1".toList, "ann".toList, [], []⟩

theorem small_read (st : AppState) :
    loginRequest smallLibs st smallLogin = .ok (formLogin st smallLogin) := by
  have hform : hasMediaType smallLogin "application/json".toList = false := by decide +kernel
  rw [loginRequest, hform]
  rfl

theorem formLogin_asked (st : AppState) (raw : RawRequest) : (formLogin st raw).username =
        (formField (parseFormBody raw.body) "username".toList).getD [] ∧
      (formLogin st raw).password =
        (formField (parseFormBody raw.body) "password".toList).getD [] :=
  ⟨rfl, rfl⟩

theorem small_asked (st : AppState) : (formLogin st smallLogin).username = "ann".toList ∧
    (formLogin st smallLogin).password = "secret".toList := by
  rw [(formLogin_asked st smallLogin).1, (formLogin_asked st smallLogin).2]
  decide +kernel

/-- Nothing fails for a login of ann, and she is given a token. -/
structure AnnLogsIn (st : AppState) (env : Env) (refresh : Str) : Prop where
  calm : env.fails = fun _ => false
  allowed : st.rateLimiter.isBlocked env.instant (peerIp smallLogin) = false
  users : st.db.users = smallServer.db.users
  issued : issueTokens (secondSigner.signing () st) env ann =
    some ("access.token.signature".toList, refresh)
  issuer : st.issuer = "m6".toList
  fits : (refreshClaims st env ann).exp < 2 ^ 63

theorem AnnLogsIn.succeeds {st : AppState} {env : Env} {refresh : Str}
    (h : AnnLogsIn st env refresh) : LogsInAs smallLibs (secondSigner.signing () st) env
      (formLogin (secondSigner.signing () st) smallLogin).username
      (formLogin (secondSigner.signing () st) smallLogin).password ann
      "access.token.signature".toList refresh := by
  rw [(small_asked _).1, (small_asked _).2]
  refine ⟨congrFun h.calm _, ?_, h.issued, congrFun h.calm _⟩
  change env.attempt .userVerify (st.db.userVerifyPassword smallLibs _ _) = _
  rw [Db.userVerifyPassword, h.users, Env.attempt, h.calm]
  rfl

def annLogin {st : AppState} {env : Env} {refresh : Str} (h : AnnLogsIn st env refresh) :
    Login smallLibs secondSigner where
  before := st
  randomness := ()
  raw := smallLogin
  env := env
  asked := formLogin (secondSigner.signing () st) smallLogin
  user := ann
  access := "access.token.signature".toList
  refresh := refresh
  unlocked := congrFun h.calm _
  allowed := h.allowed
  read := small_read _
  succeeds := h.succeeds
  issuer := h.issuer
  fits := h.fits

theorem first_logsIn : AnnLogsIn smallServer calm "refresh.token.signature".toList where
  calm := rfl
  allowed := rfl
  users := rfl
  issued := rfl
  issuer := rfl
  fits := by decide

def firstLogin : Login smallLibs secondSigner := annLogin first_logsIn

def laterEnv : Env := ⟨fun _ => 1001, 1, fun _ => false⟩

theorem first_users : firstLogin.after.db.users = smallServer.db.users := by
  rw [firstLogin.handled.2]
  rfl

theorem second_logsIn : AnnLogsIn firstLogin.after calm "refresh.token.signature".toList where
  calm := rfl
  allowed := by decide +kernel
  users := first_users
  issued := by decide +kernel
  issuer := by decide +kernel
  fits := by decide +kernel

theorem later_logsIn : AnnLogsIn firstLogin.after laterEnv "later.token.signature".toList where
  calm := rfl
  allowed := by decide +kernel
  users := first_users
  issued := by decide +kernel
  issuer := by decide +kernel
  fits := by decide +kernel

def secondLogout : RawRequest :=
  plainPost [("Cookie".toList, "refresh=refresh.token.signature".toList)] []

def afterLogout (second : Login smallLibs secondSigner) : AppState :=
  (handleLogoutBrowser smallLibs second.after calm secondLogout).2

theorem secondLogout_cookie : requestCookie secondLogout "refresh".toList =
    some "refresh.token.signature".toList := rfl

theorem smallLibs_digest : Function.Injective smallLibs.hashToken := fun _ _ h => h

theorem untouched_annLogin {st : AppState} {env : Env} {refresh : Str}
    (h : AnnLogsIn st env refresh) (tokens : List Str) :
    Untouched smallLibs tokens st (annLogin h).before :=
  fun _ _ => rfl

/-- The first browser logs out after the second login. -/
def sessions {env : Env} {refresh : Str} (h : AnnLogsIn firstLogin.after env refresh)
    (hexists : ((afterLogout (annLogin h)).db.userGetById "1".toList).isSome) :
    Sessions smallLibs secondSigner where
  digest_injective := smallLibs_digest
  first := firstLogin
  second := annLogin h
  one_user := rfl
  between := untouched_annLogin h _
  atLogout := (annLogin h).after
  meanwhile _ _ := rfl
  firstEnds := true
  logout := secondLogout
  logoutEnv := calm
  cookie := secondLogout_cookie
  later := afterLogout (annLogin h)
  afterwards _ _ := rfl
  user_exists := hexists

theorem ann_exists :
    ((afterLogout (annLogin second_logsIn)).db.userGetById "1".toList).isSome ∧
      ((afterLogout (annLogin later_logsIn)).db.userGetById "1".toList).isSome := by
  decide +kernel

def oneSecond : Sessions smallLibs secondSigner := sessions second_logsIn ann_exists.1

def twoSeconds : Sessions smallLibs secondSigner := sessions later_logsIn ann_exists.2

/-- A second login one second later is not ended with the first. -/
theorem twoSeconds_independent : twoSeconds.first.refresh ≠ twoSeconds.second.refresh ∧
    (doRefresh smallLibs (secondSigner.signing () twoSeconds.later) laterEnv
      twoSeconds.other.refresh).isSome := by
  have hapart : twoSeconds.Apart := .inl (by decide +kernel)
  have h := independence twoSeconds
  exact ⟨h.tokens.mpr hapart, h.apart hapart
    { env := laterEnv
      randomness := ()
      fails := fun _ => rfl
      signs := fun _ => rfl
      clock := by decide
      unexpired := by decide +kernel
      unexpired_row := by decide +kernel }⟩

/-- **A session that ends with another**: both have one refresh token, and within the same second
the browser that did not log out cannot refresh any more. -/
theorem oneSecond_not_independent :
    oneSecond.first.refresh = oneSecond.second.refresh ∧
    doRefresh smallLibs (secondSigner.signing () oneSecond.later) calm oneSecond.other.refresh =
      none ∧ ¬ oneSecond.Independent := by
  have hnone : doRefresh smallLibs (secondSigner.signing () oneSecond.later) calm
      oneSecond.other.refresh = none := by
    decide +kernel
  refine ⟨by decide +kernel, hnone, fun hindependent => ?_⟩
  have hrefresh := hindependent
    { env := calm
      randomness := ()
      fails := fun _ => rfl
      signs := fun _ => rfl
      clock := by decide
      unexpired := by decide +kernel
      unexpired_row := by decide +kernel }
  have hfails : ¬ (doRefresh smallLibs (secondSigner.signing () oneSecond.later) calm
      oneSecond.other.refresh).isSome := by
    rw [hnone]
    exact Bool.false_ne_true
  exact hfails hrefresh

end TwoSessions

end M6
