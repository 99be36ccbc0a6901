import M6.Auth.Session

/-!
# Logins side by side

`handleLogin` runs a login from end to end. The server runs many at once, and a login
takes the locks one after the other: the throttle's for the check, the database's from
the password check to the end of the request, and inside that the throttle's once more
to count a wrong password or to forget the failures after a right one. Between the
check and the count anything may happen.

`LoginServer.step` is one critical section of one request, so that a list of events is
an interleaving; a request that runs alone does what `handleLogin` does
(`step_alone`). What the throttle knows of one address is its `Tally`, a small machine
of its own, and every step of the server is a `Move` of the tally (`tally_step`).
-/

namespace M6

open List Option

/-! ## The parts of a login -/

/-- What a login asks for, and how it is answered. -/
structure LoginRequest where
  username : Str
  password : Str
  refused : RawResponse
  accepted : Str → Str → RawResponse

def formLogin (st : AppState) (raw : RawRequest) : LoginRequest :=
  let fields := parseFormBody raw.body
  let next := validateNext (formField fields "next".toList)
  ⟨(formField fields "username".toList).getD [], (formField fields "password".toList).getD [],
    redirectTo ("/login?error=invalid&next=".toList ++ urlEncodePath next),
    fun access refresh =>
      ((redirectTo next).header "Set-Cookie".toList (sessionCookie access st.accessTtl)).header
        "Set-Cookie".toList (refreshCookie refresh st.refreshTtl)⟩

def jsonLogin (libs : Libs) (st : AppState) (username password : Str) : LoginRequest :=
  ⟨username, password, jsonResponse 401 "\x7b\"error\":\"invalid_credentials\"\x7d".toList,
    fun access refresh => jsonResponse 200 (libs.jsonToString (.object
      [("access_token".toList, .string access),
        ("expires_in".toList, .number (decimal st.accessTtl)),
        ("refresh_token".toList, .string refresh)]))⟩

def loginRequest (libs : Libs) (st : AppState) (raw : RawRequest) :
    Except RawResponse LoginRequest :=
  if hasMediaType raw "application/json".toList then
    match libs.loginReq raw.body with
    | none => .error (jsonResponse 400 "\x7b\"error\":\"bad_request\"\x7d".toList)
    | some (username, password) => .ok (jsonLogin libs st username password)
  else .ok (formLogin st raw)

/-- The answer to an address that has used up its failures. -/
def tooManyRequests (raw : RawRequest) : RawResponse :=
  let tooMany := (RawResponse.new 429).header "Retry-After".toList "60".toList
  if hasMediaType raw "application/json".toList then
    (tooMany.contentType "application/json".toList).bodyText
      "\x7b\"error\":\"rate_limited\"\x7d".toList
  else tooMany.bodyText "Too Many Requests".toList

def openSession (libs : Libs) (st : AppState) (env : Env) (login : LoginRequest) (user : User) :
    RawResponse × AppState :=
  match issueTokens st env user with
  | none => (internalError, st)
  | some (access, refresh) =>
    match env.attempt .tokenStore (some (st.db.refreshTokenStore user.id
      (libs.hashToken refresh) (env.now 1 + st.refreshTtl))) with
    | none => (internalError, st)
    | some db => (login.accepted access refresh, { st with db := db })

theorem handleLogin_eq (libs : Libs) (st : AppState) (env : Env) (raw : RawRequest) :
    handleLogin libs st env raw =
      if env.fails .limiterLock then (internalError, st)
      else if st.rateLimiter.isBlocked env.instant (peerIp raw) then (tooManyRequests raw, st)
      else match loginRequest libs st raw with
        | .error answer => (answer, st)
        | .ok login => logIn libs st env login.username login.password login.refused
            login.accepted (peerIp raw) := by
  simp only [handleLogin, tooManyRequests, loginRequest]
  split_ifs with hlock hblocked hjson hjson
  · rfl
  · rfl
  · rfl
  · rw [handleLoginJson]
    rcases libs.loginReq raw.body with _ | ⟨username, password⟩
    · rfl
    · rfl
  · rfl

theorem logIn_eq (libs : Libs) (st : AppState) {env : Env} (login : LoginRequest) (peer : Str)
    (hdb : env.fails .dbLock = false) (hverify : env.fails .userVerify = false) :
    logIn libs st env login.username login.password login.refused login.accepted peer =
      match st.db.userVerifyPassword libs login.username login.password with
      | none => (internalError, st)
      | some none => (login.refused, noteLoginFailure st env peer)
      | some (some user) => openSession libs (noteLoginSuccess st env peer) env login user := by
  have hlock : env.attempt .dbLock (some ()) = some () := by rw [Env.attempt, hdb]; rfl
  have hcheck : env.attempt .userVerify
      (st.db.userVerifyPassword libs login.username login.password) =
      st.db.userVerifyPassword libs login.username login.password := by
    rw [Env.attempt, hverify]
    rfl
  rw [logIn, hlock, hcheck]
  rcases st.db.userVerifyPassword libs login.username login.password with _ | _ | user
  · rfl
  · rfl
  · rfl

/-! ## The server -/

/-- How far a login has come. -/
inductive Phase where
  /-- before the throttle check -/
  | arrived
  /-- let through, waiting for the password check -/
  | passed
  /-- the password was wrong, and is not counted yet; the database lock is held -/
  | wrong (login : LoginRequest)
  /-- the password was right; the database lock is held -/
  | right (login : LoginRequest) (user : User)
  /-- the failures are forgotten; the database lock is held -/
  | cleared (login : LoginRequest) (user : User)
  | answered (response : RawResponse)

def Phase.holdsDb : Phase → Bool
  | .wrong _ | .right _ _ | .cleared _ _ => true
  | .arrived | .passed | .answered _ => false

/-- A login and how far it has come. -/
structure Attempt where
  raw : RawRequest
  phase : Phase

/-- The server with its logins. A lock that a thread has died under stays poisoned. -/
structure LoginServer where
  st : AppState
  limiterPoisoned : Bool
  dbPoisoned : Bool
  dbHeld : Bool
  attempts : List Attempt

/-- What may happen next: a critical section of the login at an index, or something
else that touches the shared state. -/
inductive LoginEvent where
  | arrive (raw : RawRequest)
  | check (i : Nat)
  | verify (i : Nat)
  | note (i : Nat)
  | finish (i : Nat)
  | poisonLimiter
  | poisonDb
  /-- another handler, or another process, writes the database -/
  | database (db : Db)

namespace LoginServer

def start (st : AppState) : LoginServer := ⟨st, false, false, false, []⟩

def circumstances (s : LoginServer) (env : Env) : Env :=
  { env with fails := fun
      | .limiterLock => s.limiterPoisoned
      | .dbLock => s.dbPoisoned
      | fault => env.fails fault }

def advance (s : LoginServer) (i : Nat) (raw : RawRequest) (phase : Phase) : LoginServer :=
  { s with attempts := s.attempts.set i ⟨raw, phase⟩ }

def checked (s : LoginServer) (env : Env) (raw : RawRequest) : Phase :=
  if s.limiterPoisoned then .answered internalError
  else if s.st.rateLimiter.isBlocked env.instant (peerIp raw) then .answered (tooManyRequests raw)
  else .passed

/-- The password check, under the database lock. `none`: the lock is taken. -/
def verified (libs : Libs) (s : LoginServer) (env : Env) (raw : RawRequest) : Option Phase :=
  match loginRequest libs s.st raw with
  | .error answer => some (.answered answer)
  | .ok login =>
    if s.dbHeld then none
    else if s.dbPoisoned then some (.answered internalError)
    else match env.attempt .userVerify
        (s.st.db.userVerifyPassword libs login.username login.password) with
      | none => some (.answered internalError)
      | some none => some (.wrong login)
      | some (some user) => some (.right login user)

/-- One step. A login that has not come so far, or waits for the database lock, stays
where it is. -/
def step (libs : Libs) (s : LoginServer) (env : Env) : LoginEvent → LoginServer
  | .arrive raw => { s with attempts := s.attempts ++ [⟨raw, .arrived⟩] }
  | .check i =>
    match s.attempts[i]? with
    | some ⟨raw, .arrived⟩ => s.advance i raw (s.checked env raw)
    | _ => s
  | .verify i =>
    match s.attempts[i]? with
    | some ⟨raw, .passed⟩ =>
      match s.verified libs env raw with
      | none => s
      | some phase => { s.advance i raw phase with dbHeld := s.dbHeld || phase.holdsDb }
    | _ => s
  | .note i =>
    match s.attempts[i]? with
    | some ⟨raw, .wrong login⟩ =>
      { s.advance i raw (.answered login.refused) with
        st := noteLoginFailure s.st (s.circumstances env) (peerIp raw), dbHeld := false }
    | some ⟨raw, .right login user⟩ =>
      { s.advance i raw (.cleared login user) with
        st := noteLoginSuccess s.st (s.circumstances env) (peerIp raw) }
    | _ => s
  | .finish i =>
    match s.attempts[i]? with
    | some ⟨raw, .cleared login user⟩ =>
      let (response, st) := openSession libs s.st (s.circumstances env) login user
      { s.advance i raw (.answered response) with st := st, dbHeld := false }
    | _ => s
  | .poisonLimiter => { s with limiterPoisoned := true }
  | .poisonDb => { s with dbPoisoned := true }
  | .database db => if s.dbHeld then s else { s with st := { s.st with db := db } }

def run (libs : Libs) (s : LoginServer) (events : List (Env × LoginEvent)) : LoginServer :=
  events.foldl (fun s e => s.step libs e.1 e.2) s

def alone (i : Nat) (env : Env) : List (Env × LoginEvent) :=
  [(env, .check i), (env, .verify i), (env, .note i), (env, .finish i)]

theorem circumstances_eq {s : LoginServer} {env : Env}
    (hlimiter : env.fails .limiterLock = s.limiterPoisoned)
    (hdb : env.fails .dbLock = s.dbPoisoned) : s.circumstances env = env := by
  obtain ⟨now, instant, fails⟩ := env
  simp only [circumstances, Env.mk.injEq, true_and]
  funext fault
  cases fault with
  | limiterLock => exact hlimiter.symm
  | dbLock => exact hdb.symm
  | keysLock | userVerify | userGet | tokenStore | tokenVerify | tokenRevoke | tokensRevokeAll =>
    rfl

/-- **A login that runs alone** is answered as `handleLogin` answers it, and leaves the
state it leaves. -/
theorem run_alone (libs : Libs) (s : LoginServer) (env : Env) (raw : RawRequest) (i : Nat)
    (harrived : s.attempts[i]? = some ⟨raw, .arrived⟩) (hfree : s.dbHeld = false)
    (hlimiter : env.fails .limiterLock = s.limiterPoisoned)
    (hdb : env.fails .dbLock = s.dbPoisoned) : s.run libs (alone i env) =
      { s.advance i raw (.answered (handleLogin libs s.st env raw).1) with
        st := (handleLogin libs s.st env raw).2 } := by
  have hlt : i < s.attempts.length := (List.getElem?_eq_some_iff.mp harrived).1
  obtain ⟨st, limiterPoisoned, dbPoisoned, dbHeld, attempts⟩ := s
  subst hfree
  have hnow : ∀ phase, (attempts.set i ⟨raw, phase⟩)[i]? = some ⟨raw, phase⟩ := fun phase =>
    getElem?_set_self hlt
  have hcirc : ∀ st dbHeld attempts, circumstances ⟨st, limiterPoisoned, dbPoisoned, dbHeld,
      attempts⟩ env = env := fun _ _ _ => circumstances_eq hlimiter hdb
  simp only [run, alone, foldl_cons, foldl_nil, step, harrived, handleLogin_eq, hlimiter, checked]
  split_ifs with hpoisoned hblocked
  · simp only [advance, hnow]
  · simp only [advance, hnow]
  simp only [advance, hnow, verified]
  rcases loginRequest libs st raw with answer | login
  · simp only [hnow, set_set, Phase.holdsDb, Bool.or_false]
  cases dbPoisoned with
  | true =>
    simp only [logIn, Env.attempt, hdb, Bool.false_eq_true, if_false, if_true, hnow, set_set,
      Phase.holdsDb, Bool.or_false]
  | false =>
    cases hverify : env.fails .userVerify with
    | true =>
      simp only [logIn, Env.attempt, hdb, hverify, Bool.false_eq_true, if_false, if_true, hnow,
        set_set, Phase.holdsDb, Bool.or_false]
    | false =>
      simp only [logIn_eq libs st login (peerIp raw) hdb hverify, Env.attempt, hverify,
        Bool.false_eq_true, if_false]
      rcases st.db.userVerifyPassword libs login.username login.password with _ | _ | user
      · simp only [hnow, set_set, Phase.holdsDb, Bool.or_false]
      all_goals simp only [hnow, set_set, hcirc]

theorem run_alone_ann :
    (LoginServer.mk smallServer false false false [⟨smallLogin, .arrived⟩]).run smallLibs
        (alone 0 calm) =
      ⟨(handleLogin smallLibs smallServer calm smallLogin).2, false, false, false,
        [⟨smallLogin, .answered (handleLogin smallLibs smallServer calm smallLogin).1⟩]⟩ ∧
    (handleLogin smallLibs smallServer calm smallLogin).2.db.refreshTokens.get?
        "refresh.token.signature".toList = some ("1".toList, 4600) :=
  ⟨run_alone smallLibs _ calm smallLogin 0 rfl rfl rfl rfl, by decide +kernel⟩

end LoginServer

/-! ## What the throttle knows of an address -/

/-- One address: its logins that were let through and not decided yet, those found
wrong and not counted yet, whether the throttle's lock is poisoned, and its entry. -/
structure Tally where
  waiting : Nat
  uncounted : Nat
  poisoned : Bool
  entry : Option (Nat × Nat)

/-- What a step does to an address. -/
inductive Move where
  | stay
  /-- a login is let through -/
  | pass
  /-- a password is checked and found wrong -/
  | miss
  /-- a login that was let through is decided otherwise -/
  | leave
  /-- a wrong password is counted -/
  | count
  /-- a wrong password goes uncounted, under a poisoned lock -/
  | lose
  /-- a login succeeds and the failures are forgotten -/
  | clear
  | poison
  deriving DecidableEq

def Move.misses : Move → Nat
  | .miss => 1
  | _ => 0

namespace Tally

variable (windowSecs now : Nat)

def failures (t : Tally) : Nat :=
  match t.entry with
  | some (count, started) => if RateLimiter.elapsedSecs now started ≥ windowSecs then 0 else count
  | none => 0

def counted (entry : Option (Nat × Nat)) : Nat × Nat :=
  let entry := entry.getD (0, now)
  let entry := if RateLimiter.elapsedSecs now entry.2 ≥ windowSecs then (0, now) else entry
  (entry.1 + 1, entry.2)

def move (t : Tally) : Move → Tally
  | .stay => t
  | .pass => { t with waiting := t.waiting + 1 }
  | .miss => { t with waiting := t.waiting - 1, uncounted := t.uncounted + 1 }
  | .leave => { t with waiting := t.waiting - 1 }
  | .count =>
    { t with uncounted := t.uncounted - 1, entry := some (counted windowSecs now t.entry) }
  | .lose => { t with uncounted := t.uncounted - 1 }
  | .clear => { t with entry := none }
  | .poison => { t with poisoned := true }

def pending (t : Tally) : Nat := t.waiting + t.uncounted

/-- What a login that is let through must find: if others of its address are pending,
they leave room for it. -/
def HasRoom (maxAttempts : Nat) (t : Tally) : Prop :=
  0 < t.pending → t.failures windowSecs now + t.pending < maxAttempts

end Tally

namespace LoginServer

/-- Whether a login is of an address and was let through. -/
def isWaiting (ip : Str) : Attempt → Bool
  | ⟨raw, .passed⟩ => peerIp raw == ip
  | _ => false

def isUncounted (ip : Str) : Attempt → Bool
  | ⟨raw, .wrong _⟩ => peerIp raw == ip
  | _ => false

def tally (s : LoginServer) (ip : Str) : Tally where
  waiting := s.attempts.countP (isWaiting ip)
  uncounted := s.attempts.countP (isUncounted ip)
  poisoned := s.limiterPoisoned
  entry := s.st.rateLimiter.map.get? ip

def moveOf (libs : Libs) (s : LoginServer) (env : Env) (ip : Str) : LoginEvent → Move
  | .check i =>
    match s.attempts[i]? with
    | some ⟨raw, .arrived⟩ =>
      match s.checked env raw with
      | .passed => if peerIp raw = ip then .pass else .stay
      | _ => .stay
    | _ => .stay
  | .verify i =>
    match s.attempts[i]? with
    | some ⟨raw, .passed⟩ =>
      match s.verified libs env raw with
      | none => .stay
      | some (.wrong _) => if peerIp raw = ip then .miss else .stay
      | some _ => if peerIp raw = ip then .leave else .stay
    | _ => .stay
  | .note i =>
    match s.attempts[i]? with
    | some ⟨raw, .wrong _⟩ =>
      if peerIp raw = ip then if s.limiterPoisoned then .lose else .count else .stay
    | some ⟨raw, .right _ _⟩ =>
      if peerIp raw = ip then if s.limiterPoisoned then .stay else .clear else .stay
    | _ => .stay
  | .poisonLimiter => .poison
  | .arrive _ | .finish _ | .poisonDb | .database _ => .stay

def wrongChecks (libs : Libs) (ip : Str) : LoginServer → List (Env × LoginEvent) → Nat
  | _, [] => 0
  | s, (env, e) :: events =>
    (s.moveOf libs env ip e).misses + wrongChecks libs ip (s.step libs env e) events

def NoSuccess (libs : Libs) (ip : Str) : LoginServer → List (Env × LoginEvent) → Prop
  | _, [] => True
  | s, (env, e) :: events =>
    s.moveOf libs env ip e ≠ .clear ∧ NoSuccess libs ip (s.step libs env e) events

def AllHaveRoom (libs : Libs) (ip : Str) : LoginServer → List (Env × LoginEvent) → Prop
  | _, [] => True
  | s, (env, e) :: events =>
    (s.moveOf libs env ip e = .pass → (s.tally ip).HasRoom s.st.rateLimiter.windowSecs env.instant
      s.st.rateLimiter.maxAttempts) ∧ AllHaveRoom libs ip (s.step libs env e) events

/-! ### Every step is a move -/

theorem get?_recordFailure (rl : RateLimiter) (now : Nat) (peer ip : Str) :
    (rl.recordFailure now peer).map.get? ip =
      if peer = ip then some (Tally.counted rl.windowSecs now (rl.map.get? ip))
      else rl.map.get? ip := by
  rw [RateLimiter.recordFailure, SortedMap.get?_insert]
  by_cases h : peer = ip
  · rw [if_pos h.symm, if_pos h, h]
    rfl
  · rw [if_neg (Ne.symm h), if_neg h]

theorem get?_clear (rl : RateLimiter) (peer ip : Str) :
    (rl.clear peer).map.get? ip = if peer = ip then none else rl.map.get? ip := by
  refine ext fun v => ?_
  rw [RateLimiter.clear, SortedMap.get?_filter]
  by_cases h : peer = ip
  · simp [h]
  · simp [h, Ne.symm h]

theorem countP_attempts {l : List Attempt} {i : Nat} {a : Attempt} (h : l[i]? = some a)
    (p : Attempt → Bool) (b : Attempt) :
    (l.set i b).countP p = l.countP p - (if p a then 1 else 0) + if p b then 1 else 0 := by
  obtain ⟨hlt, rfl⟩ := List.getElem?_eq_some_iff.mp h
  exact countP_set hlt

theorem verified_cases {libs : Libs} {s : LoginServer} {env : Env} {raw : RawRequest}
    {phase : Phase} (h : s.verified libs env raw = some phase) :
    (∃ answer, phase = .answered answer) ∨ (∃ login, phase = .wrong login) ∨
      ∃ login user, phase = .right login user := by
  simp only [verified] at h
  split at h
  · exact .inl ⟨_, (some.inj h).symm⟩
  split_ifs at h
  · exact .inl ⟨_, (some.inj h).symm⟩
  split at h
  · exact .inl ⟨_, (some.inj h).symm⟩
  · exact .inr (.inl ⟨_, (some.inj h).symm⟩)
  · exact .inr (.inr ⟨_, _, (some.inj h).symm⟩)

theorem checked_cases (s : LoginServer) (env : Env) (raw : RawRequest) :
    (∃ answer, s.checked env raw = .answered answer) ∨
      (s.checked env raw = .passed ∧ s.limiterPoisoned = false ∧
        s.st.rateLimiter.isBlocked env.instant (peerIp raw) = false) := by
  rw [checked]
  split_ifs with hpoisoned hblocked
  · exact .inl ⟨_, rfl⟩
  · exact .inl ⟨_, rfl⟩
  · exact .inr ⟨rfl, by simpa using hpoisoned, by simpa using hblocked⟩

theorem openSession_rateLimiter (libs : Libs) (st : AppState) (env : Env) (login : LoginRequest)
    (user : User) : (openSession libs st env login user).2.rateLimiter = st.rateLimiter := by
  rw [openSession]
  split
  · rfl
  · split <;> rfl

theorem step_limits (libs : Libs) (s : LoginServer) (env : Env) (e : LoginEvent) :
    (s.step libs env e).st.rateLimiter.maxAttempts = s.st.rateLimiter.maxAttempts ∧
      (s.step libs env e).st.rateLimiter.windowSecs = s.st.rateLimiter.windowSecs := by
  have hfailure : ∀ st env peer, (noteLoginFailure st env peer).rateLimiter.maxAttempts =
      st.rateLimiter.maxAttempts ∧ (noteLoginFailure st env peer).rateLimiter.windowSecs =
        st.rateLimiter.windowSecs := by
    intro st env peer
    rw [noteLoginFailure]
    split_ifs <;> exact ⟨rfl, rfl⟩
  have hsuccess : ∀ st env peer, (noteLoginSuccess st env peer).rateLimiter.maxAttempts =
      st.rateLimiter.maxAttempts ∧ (noteLoginSuccess st env peer).rateLimiter.windowSecs =
        st.rateLimiter.windowSecs := by
    intro st env peer
    rw [noteLoginSuccess]
    split_ifs <;> exact ⟨rfl, rfl⟩
  cases e with
  | arrive raw | poisonLimiter | poisonDb => exact ⟨rfl, rfl⟩
  | check i =>
    simp only [step]
    split <;> exact ⟨rfl, rfl⟩
  | verify i =>
    simp only [step]
    split
    · split <;> exact ⟨rfl, rfl⟩
    · exact ⟨rfl, rfl⟩
  | note i =>
    simp only [step]
    split
    · exact hfailure ..
    · exact hsuccess ..
    · exact ⟨rfl, rfl⟩
  | finish i =>
    simp only [step]
    split
    · rw [openSession_rateLimiter]
      exact ⟨rfl, rfl⟩
    · exact ⟨rfl, rfl⟩
  | database db =>
    simp only [step]
    split_ifs <;> exact ⟨rfl, rfl⟩

/-- **Every step is a move** of the tally of every address. -/
theorem tally_step (libs : Libs) (s : LoginServer) (env : Env) (ip : Str) (e : LoginEvent) :
    (s.step libs env e).tally ip =
      (s.tally ip).move s.st.rateLimiter.windowSecs env.instant (s.moveOf libs env ip e) := by
  have hwaiting : ∀ i raw old phase, s.attempts[i]? = some ⟨raw, old⟩ →
      (s.attempts.set i ⟨raw, phase⟩).countP (isWaiting ip) = s.attempts.countP (isWaiting ip) -
        (if isWaiting ip ⟨raw, old⟩ then 1 else 0) + if isWaiting ip ⟨raw, phase⟩ then 1 else 0 :=
    fun _ _ _ _ h => countP_attempts h _ _
  have huncounted : ∀ i raw old phase, s.attempts[i]? = some ⟨raw, old⟩ →
      (s.attempts.set i ⟨raw, phase⟩).countP (isUncounted ip) = s.attempts.countP (isUncounted ip) -
        (if isUncounted ip ⟨raw, old⟩ then 1 else 0) +
          if isUncounted ip ⟨raw, phase⟩ then 1 else 0 :=
    fun _ _ _ _ h => countP_attempts h _ _
  cases e with
  | arrive raw => simp [step, moveOf, tally, Tally.move, isWaiting, isUncounted]
  | check i =>
    simp only [step, moveOf]
    split
    · rename_i raw h
      simp only [tally, advance, hwaiting _ _ _ _ h, huncounted _ _ _ _ h]
      rcases checked_cases s env raw with ⟨answer, hc⟩ | ⟨hc, -, -⟩
      · simp [hc, isWaiting, isUncounted, Tally.move]
      · by_cases hip : peerIp raw = ip <;> simp [hc, hip, isWaiting, isUncounted, Tally.move]
    · rfl
  | verify i =>
    simp only [step, moveOf]
    split
    · rename_i raw h
      rcases hv : s.verified libs env raw with _ | phase
      · rfl
      simp only [tally, advance, hwaiting _ _ _ _ h, huncounted _ _ _ _ h]
      rcases verified_cases hv with ⟨answer, rfl⟩ | ⟨login, rfl⟩ | ⟨login, user, rfl⟩
      all_goals by_cases hip : peerIp raw = ip <;> simp [hip, isWaiting, isUncounted, Tally.move]
    · rfl
  | note i =>
    simp only [step, moveOf]
    split
    · rename_i raw login h
      simp only [tally, advance, hwaiting _ _ _ _ h, huncounted _ _ _ _ h, noteLoginFailure]
      by_cases hip : peerIp raw = ip <;> by_cases hpoisoned : s.limiterPoisoned = true <;>
        simp [hip, hpoisoned, circumstances, isWaiting, isUncounted, Tally.move, get?_recordFailure]
    · rename_i raw login user h
      simp only [tally, advance, hwaiting _ _ _ _ h, huncounted _ _ _ _ h, noteLoginSuccess]
      by_cases hip : peerIp raw = ip <;> by_cases hpoisoned : s.limiterPoisoned = true <;>
        simp [hip, hpoisoned, circumstances, isWaiting, isUncounted, Tally.move, get?_clear]
    · rfl
  | finish i =>
    simp only [step, moveOf]
    split
    · rename_i raw login user h
      simp only [tally, advance, hwaiting _ _ _ _ h, huncounted _ _ _ _ h, openSession_rateLimiter]
      simp [isWaiting, isUncounted, Tally.move]
    · rfl
  | poisonLimiter | poisonDb => rfl
  | database db =>
    simp only [step, moveOf]
    split_ifs <;> rfl

end LoginServer

/-! ## The bound -/

namespace Tally

def Enabled (maxAttempts windowSecs now : Nat) (t : Tally) : Move → Prop
  | .pass => t.poisoned = false ∧ t.failures windowSecs now < maxAttempts
  | .miss | .leave => 0 < t.waiting
  | .count => 0 < t.uncounted ∧ t.poisoned = false
  | .lose => 0 < t.uncounted ∧ t.poisoned = true
  | .stay | .clear | .poison => True

variable {maxAttempts windowSecs since now wrong : Nat} {t : Tally} {m : Move}

theorem HasRoom.pending_lt (h : t.HasRoom windowSecs now maxAttempts)
    (hfree : t.failures windowSecs now < maxAttempts) :
    t.failures windowSecs now + t.pending < maxAttempts := by
  rcases Nat.eq_zero_or_pos t.pending with hzero | hpos
  · rwa [hzero]
  · exact h hpos

theorem pending_move (h : t.pending ≤ maxAttempts)
    (henabled : t.Enabled maxAttempts windowSecs now m)
    (hroom : m = .pass → t.HasRoom windowSecs now maxAttempts) :
    (t.move windowSecs now m).pending ≤ maxAttempts := by
  cases m with
  | stay | clear | poison => exact h
  | pass =>
    have := (hroom rfl).pending_lt henabled.2
    simp only [move, pending] at this ⊢
    omega
  | miss =>
    simp only [move, pending, Enabled] at *
    omega
  | leave | count | lose =>
    simp only [move, pending] at *
    omega

/-- What holds in a period that began at an instant with no failures: the open window
began in it, a wrong password is counted or about to be, and with the logins that wait
for their password check the wrong passwords stay within the budget. -/
structure Within (maxAttempts windowSecs since now wrong : Nat) (t : Tally) : Prop where
  begun : ∀ count started, t.entry = some (count, started) →
    RateLimiter.elapsedSecs now started < windowSecs → since ≤ started
  counted : t.poisoned = false → wrong ≤ t.failures windowSecs now + t.uncounted
  bound : wrong + t.waiting ≤ maxAttempts

theorem elapsedSecs_lt {started : Nat} (hstarted : since ≤ started) (hbegin : since ≤ now)
    (hnow : now < since + windowSecs * 1000000000) :
    RateLimiter.elapsedSecs now started < windowSecs := by
  rw [RateLimiter.elapsedSecs]
  exact Nat.div_lt_of_lt_mul (by omega)

theorem elapsedSecs_mono {now' : Nat} (h : now ≤ now') (started : Nat) :
    RateLimiter.elapsedSecs now started ≤ RateLimiter.elapsedSecs now' started :=
  Nat.div_le_div_right (by omega)

theorem Within.later (h : t.Within maxAttempts windowSecs since now wrong) {now' : Nat}
    (hbegin : since ≤ now) (hlater : now ≤ now') (hend : now' < since + windowSecs * 1000000000) :
    t.Within maxAttempts windowSecs since now' wrong := by
  refine ⟨fun count started hentry hopen => ?_, fun hpoisoned => ?_, h.bound⟩
  · exact h.begun count started hentry (lt_of_le_of_lt (elapsedSecs_mono hlater started) hopen)
  · have hsame : t.failures windowSecs now' = t.failures windowSecs now := by
      rw [failures, failures]
      rcases hentry : t.entry with _ | ⟨count, started⟩
      · rfl
      · simp only
        by_cases hopen : RateLimiter.elapsedSecs now started < windowSecs
        · have := elapsedSecs_lt (h.begun count started hentry hopen) (le_trans hbegin hlater) hend
          rw [if_neg (not_le.mpr this), if_neg (not_le.mpr hopen)]
        · have := le_trans (not_lt.mp hopen) (elapsedSecs_mono hlater started)
          rw [if_pos this, if_pos (not_lt.mp hopen)]
    rw [hsame]
    exact h.counted hpoisoned

theorem failures_count (hbegin : since ≤ now) (hend : now < since + windowSecs * 1000000000)
    (t : Tally) : (t.move windowSecs now .count).failures windowSecs now =
      t.failures windowSecs now + 1 := by
  have hfresh : RateLimiter.elapsedSecs now now < windowSecs := elapsedSecs_lt hbegin hbegin hend
  simp only [move, failures, counted]
  rcases hentry : t.entry with _ | ⟨count, started⟩
  · simp only [getD_none, if_neg (not_le.mpr hfresh)]
  · simp only [getD_some]
    by_cases hopen : RateLimiter.elapsedSecs now started < windowSecs
    · simp only [if_neg (not_le.mpr hopen)]
    · simp only [if_pos (not_lt.mp hopen), if_neg (not_le.mpr hfresh)]

theorem begun_count (h : t.Within maxAttempts windowSecs since now wrong)
    (hbegin : since ≤ now) {count started : Nat}
    (hentry : (t.move windowSecs now .count).entry = some (count, started)) : since ≤ started := by
  cases hentry
  rcases hold : t.entry with _ | ⟨count, started⟩
  · simp only [getD_none]
    split_ifs <;> exact hbegin
  · simp only [getD_some]
    split_ifs with hopen
    · exact hbegin
    · exact h.begun count started hold (not_le.mp hopen)

theorem Within.move (h : t.Within maxAttempts windowSecs since now wrong)
    (hbegin : since ≤ now) (hend : now < since + windowSecs * 1000000000)
    (henabled : t.Enabled maxAttempts windowSecs now m)
    (hroom : m = .pass → t.HasRoom windowSecs now maxAttempts) (hsuccess : m ≠ .clear) :
    (t.move windowSecs now m).Within maxAttempts windowSecs since now (wrong + m.misses) := by
  obtain ⟨hbegun, hcounted, hbound⟩ := h
  cases m with
  | stay => exact ⟨hbegun, hcounted, hbound⟩
  | pass =>
    have hlt := (hroom rfl).pending_lt henabled.2
    have hwrong := hcounted henabled.1
    refine ⟨hbegun, hcounted, ?_⟩
    simp only [pending, Tally.move, Move.misses] at hlt ⊢
    omega
  | miss =>
    refine ⟨hbegun, fun hpoisoned => ?_, ?_⟩
    · exact Nat.add_le_add_right (hcounted hpoisoned) 1
    · simp only [Tally.move, Move.misses, Enabled] at henabled ⊢
      omega
  | leave =>
    refine ⟨hbegun, hcounted, ?_⟩
    simp only [Tally.move, Move.misses] at hbound ⊢
    omega
  | count =>
    refine ⟨fun count started hentry _ => begun_count ⟨hbegun, hcounted, hbound⟩ hbegin hentry,
      fun hpoisoned => ?_, hbound⟩
    rw [failures_count hbegin hend]
    have := hcounted hpoisoned
    simp only [Tally.move, Move.misses, Enabled] at henabled ⊢
    omega
  | lose =>
    refine ⟨hbegun, fun hpoisoned => ?_, hbound⟩
    exact absurd (hpoisoned.symm.trans henabled.2) Bool.false_ne_true
  | clear => exact absurd rfl hsuccess
  | poison => exact ⟨hbegun, fun hpoisoned => absurd hpoisoned.symm Bool.false_ne_true, hbound⟩

end Tally

namespace LoginServer

variable {libs : Libs} {s : LoginServer} {env : Env} {ip : Str}

theorem failures_lt {now : Nat} (hmax : 0 < s.st.rateLimiter.maxAttempts)
    (h : s.st.rateLimiter.isBlocked now ip = false) :
    (s.tally ip).failures s.st.rateLimiter.windowSecs now < s.st.rateLimiter.maxAttempts := by
  simp only [RateLimiter.isBlocked] at h
  simp only [Tally.failures, tally]
  rcases hentry : s.st.rateLimiter.map.get? ip with _ | ⟨count, started⟩
  · exact hmax
  · rw [hentry] at h
    simp only at h ⊢
    split_ifs at h ⊢ with hopen
    · exact hmax
    · simpa using h

theorem moveOf_enabled (libs : Libs) (hmax : 0 < s.st.rateLimiter.maxAttempts) (e : LoginEvent) :
    (s.tally ip).Enabled s.st.rateLimiter.maxAttempts s.st.rateLimiter.windowSecs env.instant
      (s.moveOf libs env ip e) := by
  have hcount : ∀ {i a} {p : Attempt → Bool}, s.attempts[i]? = some a → p a = true →
      0 < s.attempts.countP p := fun h hp =>
    countP_pos_iff.mpr ⟨_, mem_of_getElem? h, hp⟩
  cases e with
  | arrive raw | finish i | poisonLimiter | poisonDb | database db => trivial
  | check i =>
    simp only [moveOf]
    split
    · rename_i raw h
      rcases checked_cases s env raw with ⟨answer, hc⟩ | ⟨hc, hpoisoned, hblocked⟩
      · rw [hc]
        trivial
      · rw [hc]
        by_cases hip : peerIp raw = ip
        · rw [if_pos hip]
          exact ⟨hpoisoned, failures_lt hmax (hip ▸ hblocked)⟩
        · rw [if_neg hip]
          trivial
    · trivial
  | verify i =>
    simp only [moveOf]
    split
    · rename_i raw h
      by_cases hip : peerIp raw = ip
      · have hpos : 0 < (s.tally ip).waiting := hcount h (by simpa [isWaiting] using hip)
        simp only [if_pos hip]
        split
        · trivial
        · exact hpos
        · exact hpos
      · simp only [if_neg hip]
        split <;> trivial
    · trivial
  | note i =>
    simp only [moveOf]
    split
    · rename_i raw login h
      by_cases hip : peerIp raw = ip
      · have hpos : 0 < (s.tally ip).uncounted := hcount h (by simpa [isUncounted] using hip)
        rw [if_pos hip]
        split_ifs with hpoisoned
        · exact ⟨hpos, hpoisoned⟩
        · exact ⟨hpos, Bool.eq_false_iff.mpr hpoisoned⟩
      · rw [if_neg hip]
        trivial
    · split_ifs <;> trivial
    · trivial

theorem pending_run {events : List (Env × LoginEvent)} (hmax : 0 < s.st.rateLimiter.maxAttempts)
    (h : (s.tally ip).pending ≤ s.st.rateLimiter.maxAttempts)
    (hroom : s.AllHaveRoom libs ip events) :
    ((s.run libs events).tally ip).pending ≤ s.st.rateLimiter.maxAttempts := by
  induction events generalizing s with
  | nil => exact h
  | cons e events ih =>
    obtain ⟨hlimit, -⟩ := step_limits libs s e.1 e.2
    have hstep := ih (s := s.step libs e.1 e.2) (hlimit ▸ hmax) ?_ hroom.2
    · rw [hlimit] at hstep
      exact hstep
    · rw [tally_step, hlimit]
      exact Tally.pending_move h (moveOf_enabled libs hmax e.2) hroom.1

theorem run_limits (libs : Libs) (s : LoginServer) (events : List (Env × LoginEvent)) :
    (s.run libs events).st.rateLimiter.maxAttempts = s.st.rateLimiter.maxAttempts ∧
      (s.run libs events).st.rateLimiter.windowSecs = s.st.rateLimiter.windowSecs := by
  induction events generalizing s with
  | nil => exact ⟨rfl, rfl⟩
  | cons e events ih =>
    obtain ⟨hmax, hwindow⟩ := step_limits libs s e.1 e.2
    obtain ⟨hmax', hwindow'⟩ := ih (s.step libs e.1 e.2)
    exact ⟨hmax'.trans hmax, hwindow'.trans hwindow⟩

theorem allHaveRoom_append {before events : List (Env × LoginEvent)}
    (h : s.AllHaveRoom libs ip (before ++ events)) :
    s.AllHaveRoom libs ip before ∧ (s.run libs before).AllHaveRoom libs ip events := by
  induction before generalizing s with
  | nil => exact ⟨trivial, h⟩
  | cons e before ih =>
    obtain ⟨hbefore, hevents⟩ := ih h.2
    exact ⟨⟨h.1, hbefore⟩, hevents⟩

/-- A stretch of a run that begins at an instant, with the clock running forward, and
that is shorter than the window. -/
structure Period (windowSecs since : Nat) (events : List (Env × LoginEvent)) : Prop where
  forward : events.Pairwise fun a b => a.1.instant ≤ b.1.instant
  begins : ∀ e ∈ events, since ≤ e.1.instant
  ends : ∀ e ∈ events, e.1.instant < since + windowSecs * 1000000000

def NoFailures (s : LoginServer) (since : Nat) (ip : Str) : Prop :=
  ∀ count started, s.st.rateLimiter.map.get? ip = some (count, started) →
    s.st.rateLimiter.windowSecs ≤ RateLimiter.elapsedSecs since started

theorem within_run {events : List (Env × LoginEvent)} {since now wrong : Nat}
    (hmax : 0 < s.st.rateLimiter.maxAttempts) (hbegin : since ≤ now)
    (hafter : ∀ e ∈ events, now ≤ e.1.instant)
    (hperiod : Period s.st.rateLimiter.windowSecs since events)
    (h : (s.tally ip).Within s.st.rateLimiter.maxAttempts s.st.rateLimiter.windowSecs since now
      wrong) (hroom : s.AllHaveRoom libs ip events) (hsuccess : NoSuccess libs ip s events) :
    wrong + wrongChecks libs ip s events ≤ s.st.rateLimiter.maxAttempts := by
  induction events generalizing s now wrong with
  | nil => exact le_trans (Nat.le_add_right _ _) h.bound
  | cons e events ih =>
    obtain ⟨hforward, hrest⟩ := pairwise_cons.mp hperiod.forward
    obtain ⟨hlimit, hwindow⟩ := step_limits libs s e.1 e.2
    have hbegins := hperiod.begins e (mem_cons_self ..)
    have hends := hperiod.ends e (mem_cons_self ..)
    have hstep := ((h.later hbegin (hafter e (mem_cons_self ..)) hends).move hbegins hends
      (moveOf_enabled libs hmax e.2) hroom.1 hsuccess.1)
    rw [← tally_step] at hstep
    have hrun := ih (s := s.step libs e.1 e.2) (hlimit ▸ hmax) hbegins hforward
      (hwindow ▸ ⟨hrest, fun e' he' => hperiod.begins e' (mem_cons_of_mem _ he'),
        fun e' he' => hperiod.ends e' (mem_cons_of_mem _ he')⟩)
      (by rw [hlimit, hwindow]; exact hstep) hroom.2 hsuccess.2
    rw [hlimit] at hrun
    rw [wrongChecks, ← Nat.add_assoc]
    exact hrun

instance (windowSecs now maxAttempts : Nat) (t : Tally) :
    Decidable (t.HasRoom windowSecs now maxAttempts) :=
  inferInstanceAs (Decidable (_ → _))

instance decidableAllHaveRoom (libs : Libs) (ip : Str) :
    ∀ s events, Decidable (AllHaveRoom libs ip s events)
  | _, [] => .isTrue trivial
  | s, (env, e) :: events =>
    @instDecidableAnd _ _ inferInstance (decidableAllHaveRoom libs ip (s.step libs env e) events)

instance decidableNoSuccess (libs : Libs) (ip : Str) :
    ∀ s events, Decidable (NoSuccess libs ip s events)
  | _, [] => .isTrue trivial
  | s, (env, e) :: events =>
    @instDecidableAnd _ _ inferInstance (decidableNoSuccess libs ip (s.step libs env e) events)

end LoginServer

open LoginServer in
/-- **The login throttle bounds the wrong passwords** of an address in every period of
every run: if the budget is not empty, and every login of the address that is let
through while others are pending finds room for all of them, then a period shorter than
the window, with no success and no failures to begin with, checks at most
`maxAttempts` wrong passwords. -/
theorem wrongChecks_le (libs : Libs) (st : AppState) (ip : Str)
    (before events : List (Env × LoginEvent)) (since : Nat) (hmax : 0 < st.rateLimiter.maxAttempts)
    (hroom : (start st).AllHaveRoom libs ip (before ++ events))
    (hperiod : Period st.rateLimiter.windowSecs since events)
    (hnone : ((start st).run libs before).NoFailures since ip)
    (hsuccess : ((start st).run libs before).NoSuccess libs ip events) :
    ((start st).run libs before).wrongChecks libs ip events ≤ st.rateLimiter.maxAttempts := by
  obtain ⟨hbefore, hevents⟩ := allHaveRoom_append hroom
  obtain ⟨hlimit, hwindow⟩ := run_limits libs (start st) before
  have hpending := @pending_run libs (start st) ip _ hmax (Nat.zero_le _) hbefore
  have hstart : (((start st).run libs before).tally ip).Within
      ((start st).run libs before).st.rateLimiter.maxAttempts
      ((start st).run libs before).st.rateLimiter.windowSecs since since 0 := by
    refine ⟨fun count started hentry hopen => ?_, fun _ => Nat.zero_le _, ?_⟩
    · exact absurd hopen (not_lt.mpr (hnone count started hentry))
    · rw [hlimit]
      exact le_trans (by simp [Tally.pending]) hpending
  have := within_run (hlimit ▸ hmax) le_rfl hperiod.begins (hwindow ▸ hperiod) hstart hevents
    hsuccess
  rwa [hlimit, Nat.zero_add] at this

def smallGuess : RawRequest :=
  plainPost [("X-Forwarded-For".toList, "192.0.2.1".toList)] "username=ann&password=guess".toList

/-- So many guesses side by side: they all arrive, all are checked by the throttle, and
then each has its password checked and counted. -/
def guessesAtOnce (n : Nat) : List (Env × LoginEvent) :=
  ((List.range n).map fun _ => (calm, .arrive smallGuess)) ++
  ((List.range n).map fun i => (calm, .check i)) ++
  (List.range n).flatMap fun i => [(calm, .verify i), (calm, .note i)]

theorem period_guessesAtOnce (n : Nat) : LoginServer.Period 900 0 (guessesAtOnce n) := by
  have hcalm : ∀ e ∈ guessesAtOnce n, e.1 = calm := by
    intro e he
    simp only [guessesAtOnce, mem_append, List.mem_map, mem_flatMap, mem_cons,
      not_mem_nil, or_false] at he
    obtain (⟨i, -, rfl⟩ | ⟨i, -, rfl⟩) | ⟨i, -, rfl | rfl⟩ := he <;> rfl
  refine ⟨pairwise_of_forall_mem_list fun a ha b hb => ?_, fun e he => Nat.zero_le _,
    fun e he => ?_⟩
  · rw [hcalm a ha, hcalm b hb]
  · rw [hcalm e he]
    decide

theorem wrongChecks_le_five :
    (LoginServer.start smallServer).wrongChecks smallLibs "192.0.2.1".toList (guessesAtOnce 5) ≤
      5 :=
  wrongChecks_le smallLibs smallServer "192.0.2.1".toList [] (guessesAtOnce 5) 0 (by decide)
    (by decide +kernel) (period_guessesAtOnce 5) (fun _ _ h => by cases h) (by decide +kernel)

theorem six_wrongChecks :
    LoginServer.Period smallServer.rateLimiter.windowSecs 0 (guessesAtOnce 6) ∧
    (LoginServer.start smallServer).NoFailures 0 "192.0.2.1".toList ∧
    (LoginServer.start smallServer).NoSuccess smallLibs "192.0.2.1".toList (guessesAtOnce 6) ∧
    ¬ (LoginServer.start smallServer).wrongChecks smallLibs "192.0.2.1".toList (guessesAtOnce 6) ≤
      smallServer.rateLimiter.maxAttempts := by
  refine ⟨period_guessesAtOnce 6, fun _ _ h => ?_, by decide +kernel, by decide +kernel⟩
  cases h

end M6
