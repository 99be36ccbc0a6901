import M6.Edge.Forward

/-!
# Sessions

`analytics.rs` of m6-http: a node logs one line for each response, under the session that the
request's cookie names or under a new one, and sets a cookie for a new one on a page. The backend of
a node may be another node, so a response comes through a chain of them (`respond`), each of which
gives it its own fields.

`sessions_respond` is that a chain of any length gives the client at most one session, and none
where there is one already. `oneSession_iff` says when all nodes of the chain log the response under
the session that the client gets.
-/

namespace M6.Analytics

open List Text

/-- A session id as `generate_session_id` makes it: hexadecimal digits. -/
structure SessionId where
  text : Str
  ne_nil : text ≠ []
  hex : ∀ c ∈ text, "0123456789abcdef".toList.contains c = true

def sessionCookie : Str := "_m6sid".toList

/-- The session that one cookie names. -/
def sessionOfPair (kv : Str) : Option Str :=
  match cutAt '=' (Text.trim kv) with
  | (k, some v) => if k = sessionCookie ∧ v ≠ [] then some v else none
  | (_, none) => none

def sessionFromCookieHeader (cookies : Str) : Option Str :=
  (cookies.splitOn ';').findSome? sessionOfPair

def sessionCookieHeaderValue (id : Str) : Str :=
  sessionCookie ++ '=' :: (id ++
    ';' :: " Max-Age=1800; Path=/; HttpOnly; Secure; SameSite=Lax".toList)

def sessionFromSetCookieHeader (setCookie : Str) : Option Str :=
  sessionOfPair (cutAt ';' setCookie).1

/-- The sessions that a response sets. -/
def sessionsOf (headers : List (Str × Str)) : List Str :=
  (fieldValues headers "set-cookie".toList).filterMap sessionFromSetCookieHeader

def sessionFromResponseHeaders (headers : List (Str × Str)) : Option Str :=
  (fieldValues headers "set-cookie".toList).findSome? sessionFromSetCookieHeader

def isHtmlResponse (headers : List (Str × Str)) : Bool :=
  (header headers "content-type".toList).any fun v =>
    "text/html".toList <+: toAsciiLowercase v

/-- What is behind the first `://`. -/
def afterScheme : Str → Option Str
  | [] => none
  | c :: s => if "://".toList <+: c :: s then some ((c :: s).drop 3) else afterScheme s

/-- `parse_referer`: the host and the path. -/
def parseReferer (raw : Str) : Option Str × Option Str :=
  let trimmed := ((afterScheme raw).getD raw).takeWhile fun c => c ≠ '?' ∧ c ≠ '#'
  match cutAt '/' trimmed with
  | (c :: host, some path) => (some (c :: host), some ('/' :: path))
  | _ => if trimmed ≠ [] then (some trimmed, none) else (none, none)

/-- What happened to a request on a node. -/
structure Event where
  node : Str
  path : Str
  status : UInt16
  cacheState : Str
  clientIp : Str
  latencyNs : Option UInt64

/-- A line of the analytics log. -/
structure LogLine where
  event : Event
  sessionId : Str
  sessionNew : Bool
  refererHost : Option Str
  refererPath : Option Str
  userAgent : Option Str

/-- A node, and what it knows of the request. -/
structure Node where
  /-- `[analytics] enabled` -/
  enabled : Bool
  request : List (Str × Str)
  event : Event
  /-- the id that it makes, if it makes one -/
  minted : SessionId
  /-- what it makes of the fields of its backend's response -/
  relay : List (Str × Str) → List (Str × Str)
  /-- a response keeps its cookies on the way -/
  relay_cookies : ∀ headers, fieldValues (relay headers) "set-cookie".toList =
    fieldValues headers "set-cookie".toList
  /-- and its type -/
  relay_html : ∀ headers, isHtmlResponse (relay headers) = isHtmlResponse headers

namespace Node

variable (n : Node)

/-- The session that the request brings. -/
def session : Option Str := (combinedCookieHeader n.request).bind sessionFromCookieHeader

/-- `log_request`, with `extract_features` -/
def logRequest (id : Str) (new : Bool) : LogLine :=
  let referer := ((header n.request "referer".toList).map parseReferer).getD (none, none)
  ⟨n.event, id, new, referer.1, referer.2, header n.request "user-agent".toList⟩

/-- `record`: the line, and the cookie of a new session. -/
def record : LogLine × Option Str :=
  match n.session with
  | some id => (n.logRequest id false, none)
  | none => (n.logRequest n.minted.text true, some (sessionCookieHeaderValue n.minted.text))

def finishResponse (headers : List (Str × Str)) : List (Str × Str) × List LogLine :=
  if n.enabled then
    match n.record with
    | (line, some cookie) =>
      if isHtmlResponse headers then (headers ++ [("Set-Cookie".toList, cookie)], [line])
      else (headers, [line])
    | (line, none) => (headers, [line])
  else (headers, [])

def finishProxiedResponse (headers : List (Str × Str)) : List (Str × Str) × List LogLine :=
  if n.enabled then
    match sessionFromResponseHeaders headers with
    | some id => (headers, [n.logRequest id false])
    | none => n.finishResponse headers
  else (headers, [])

end Node

/-- A response on its way through a chain of nodes, the one next to the backend first. -/
def respond (headers : List (Str × Str)) : List Node → List (Str × Str) × List LogLine
  | [] => (headers, [])
  | n :: nodes =>
    let (headers, lines) := n.finishProxiedResponse (n.relay headers)
    let (headers, more) := respond headers nodes
    (headers, lines ++ more)

/-! ## The cookie of a new session -/

theorem hex_plain {c : Char} (hc : "0123456789abcdef".toList.contains c = true) :
    (c == ';') = false ∧ isWhitespace c = false := by
  have h := all_eq_true.mp (rfl : "0123456789abcdef".toList.all (fun c =>
    !(c == ';') && !isWhitespace c) = true) c (contains_iff_mem.mp hc)
  simpa using h

/-- **The cookie is read back** by the next node. -/
theorem session_of_minted (id : SessionId) :
    sessionFromSetCookieHeader (sessionCookieHeaderValue id.text) = some id.text := by
  have hname : ∀ c ∈ sessionCookie ++ ['='], (c == ';') = false ∧ isWhitespace c = false := by
    intro c hc
    have h := all_eq_true.mp (rfl : (sessionCookie ++ ['=']).all (fun c =>
      !(c == ';') && !isWhitespace c) = true) c hc
    simpa using h
  have hplain : ∀ c ∈ sessionCookie ++ '=' :: id.text,
      (c == ';') = false ∧ isWhitespace c = false := by
    intro c hc
    rw [append_cons] at hc
    rcases mem_append.mp hc with hc | hc
    · exact hname c hc
    · exact hex_plain (id.hex c hc)
  have habsent : ';' ∉ sessionCookie ++ '=' :: id.text := fun hmem => by
    simpa using (hplain ';' hmem).1
  have hcut := cutAt_append " Max-Age=1800; Path=/; HttpOnly; Secure; SameSite=Lax".toList habsent
  rw [sessionFromSetCookieHeader, sessionCookieHeaderValue, ← cons_append, ← append_assoc,
    hcut, sessionOfPair, trim_eq_self fun c hc => (hplain c hc).2,
    cutAt_append _ (by decide : '=' ∉ sessionCookie)]
  exact if_pos ⟨rfl, id.ne_nil⟩

theorem sessionsOf_cookie (headers : List (Str × Str)) (id : SessionId) :
    sessionsOf (headers ++ [("Set-Cookie".toList, sessionCookieHeaderValue id.text)]) =
      sessionsOf headers ++ [id.text] := by
  rw [sessionsOf, fieldValues, filter_append, map_append, filterMap_append]
  congr 1
  change [sessionCookieHeaderValue id.text].filterMap sessionFromSetCookieHeader = _
  rw [filterMap_cons, session_of_minted]
  rfl

/-! ## A chain of nodes -/

section

variable {headers : List (Str × Str)} {nodes : List Node}

theorem sessionsOf_relay (n : Node) (headers : List (Str × Str)) :
    sessionsOf (n.relay headers) = sessionsOf headers := by
  rw [sessionsOf, sessionsOf, n.relay_cookies]

/-- The session that a node knows: that of the response, or else that of the request. -/
def Node.known (n : Node) (headers : List (Str × Str)) : Option Str :=
  (sessionsOf headers).head?.or n.session

/-- What a node does with a response. -/
theorem Node.finishProxiedResponse_cases (n : Node) (headers : List (Str × Str)) :
    (n.enabled = false ∧ n.finishProxiedResponse headers = (headers, [])) ∨
    (n.enabled = true ∧ ∃ id, n.known headers = some id ∧
      n.finishProxiedResponse headers = (headers, [n.logRequest id false])) ∨
    (n.enabled = true ∧ n.known headers = none ∧
      n.finishProxiedResponse headers = (if isHtmlResponse headers
        then headers ++ [("Set-Cookie".toList, sessionCookieHeaderValue n.minted.text)]
        else headers, [n.logRequest n.minted.text true])) := by
  have hhead : sessionFromResponseHeaders headers = (sessionsOf headers).head? :=
    head?_filterMap.symm
  rw [known]
  cases hen : n.enabled with
  | false => exact .inl ⟨rfl, by simp [finishProxiedResponse, hen]⟩
  | true =>
    refine .inr ?_
    cases hfound : (sessionsOf headers).head? with
    | some id => exact .inl ⟨rfl, id, rfl, by simp [finishProxiedResponse, hen, hhead, hfound]⟩
    | none =>
      cases hsession : n.session with
      | some id =>
        refine .inl ⟨rfl, id, rfl, ?_⟩
        simp [finishProxiedResponse, finishResponse, record, hen, hhead, hfound, hsession]
      | none =>
        refine .inr ⟨rfl, rfl, ?_⟩
        simp only [finishProxiedResponse, finishResponse, record, hen, hhead, hfound, hsession]
        split_ifs <;> rfl

theorem respond_cons (n : Node) : respond headers (n :: nodes) =
      ((respond (n.finishProxiedResponse (n.relay headers)).1 nodes).1,
        (n.finishProxiedResponse (n.relay headers)).2 ++
          (respond (n.finishProxiedResponse (n.relay headers)).1 nodes).2) := rfl

/-- **At most one session for a response**, through a chain of any length: where there is none, one
of the nodes may give one, and where there is one no node adds another. -/
theorem sessions_respond (headers : List (Str × Str)) (nodes : List Node) :
    sessionsOf (respond headers nodes).1 = sessionsOf headers ∨
      sessionsOf headers = [] ∧ ∃ n ∈ nodes, n.enabled = true ∧ n.session = none ∧
        sessionsOf (respond headers nodes).1 = [n.minted.text] := by
  induction nodes generalizing headers with
  | nil => exact .inl rfl
  | cons n nodes ih =>
    have hrelay := sessionsOf_relay n headers
    have hsame (h : (n.finishProxiedResponse (n.relay headers)).1 = n.relay headers) :
        sessionsOf (respond headers (n :: nodes)).1 = sessionsOf headers ∨
          sessionsOf headers = [] ∧ ∃ m ∈ n :: nodes, m.enabled = true ∧ m.session = none ∧
            sessionsOf (respond headers (n :: nodes)).1 = [m.minted.text] := by
      have hrest := ih (n.relay headers)
      rw [hrelay] at hrest
      rw [respond_cons, h]
      refine hrest.imp_right fun ⟨hnone, m, hm, hgives⟩ => ?_
      exact ⟨hnone, m, mem_cons_of_mem n hm, hgives⟩
    rcases n.finishProxiedResponse_cases (n.relay headers) with ⟨-, h⟩ | ⟨-, id, -, h⟩ |
      ⟨hen, hknown, h⟩
    · exact hsame (by rw [h])
    · exact hsame (by rw [h])
    · by_cases hpage : isHtmlResponse (n.relay headers) = true
      · rw [Node.known, hrelay] at hknown
        obtain ⟨hnone, hnew⟩ := Option.or_eq_none_iff.mp hknown
        have hnone := head?_eq_none_iff.mp hnone
        have hgiven := sessionsOf_cookie (n.relay headers) n.minted
        rw [if_pos hpage] at h
        rw [hrelay, hnone] at hgiven
        refine .inr ⟨hnone, n, mem_cons_self, hen, hnew, ?_⟩
        rw [respond_cons, h]
        rcases ih _ with hrest | ⟨hempty, -⟩
        · rw [hrest, hgiven]
          rfl
        · rw [hgiven] at hempty
          cases hempty
      · exact hsame (by rw [h, if_neg hpage])

/-- Behind the node that gave the session, all log under it. -/
theorem lines_of_session {id : Str} (h : (sessionsOf headers).head? = some id) :
    ∀ line ∈ (respond headers nodes).2, line.sessionId = id := by
  induction nodes generalizing headers with
  | nil => exact fun line hline => absurd hline not_mem_nil
  | cons n nodes ih =>
    have hrelay : (sessionsOf (n.relay headers)).head? = some id := by rwa [sessionsOf_relay]
    have hknown : n.known (n.relay headers) = some id := by rw [Node.known, hrelay, Option.some_or]
    intro line hline
    rw [respond_cons] at hline
    rcases n.finishProxiedResponse_cases (n.relay headers) with ⟨-, hfin⟩ | ⟨-, id', hid, hfin⟩ |
      ⟨-, hnone, -⟩
    · rw [hfin] at hline
      exact ih hrelay line hline
    · rw [hfin] at hline
      rcases mem_append.mp hline with hline | hline
      · rw [mem_singleton.mp hline]
        exact Option.some.inj (hid.symm.trans hknown)
      · exact ih hrelay line hline
    · rw [hknown] at hnone
      cases hnone

/-- A page is logged under one session. -/
theorem lines_of_page (hpage : isHtmlResponse headers = true) (hnone : sessionsOf headers = [])
    (hnew : ∀ n ∈ nodes, n.session = none) :
    ∃ id, ∀ line ∈ (respond headers nodes).2, line.sessionId = id := by
  induction nodes generalizing headers with
  | nil => exact ⟨[], fun line hline => absurd hline not_mem_nil⟩
  | cons n nodes ih =>
    have hrelay : sessionsOf (n.relay headers) = [] := by rw [sessionsOf_relay, hnone]
    have hhtml : isHtmlResponse (n.relay headers) = true := by rw [n.relay_html, hpage]
    rw [respond_cons]
    rcases n.finishProxiedResponse_cases (n.relay headers) with ⟨-, hfin⟩ | ⟨-, id, hid, -⟩ |
      ⟨-, -, hfin⟩
    · rw [hfin]
      exact ih hhtml hrelay fun m hm => hnew m (mem_cons_of_mem n hm)
    · rw [Node.known, hrelay, hnew n mem_cons_self] at hid
      cases hid
    · rw [hfin, if_pos hhtml]
      refine ⟨n.minted.text, fun line hline => ?_⟩
      rcases mem_append.mp hline with hline | hline
      · rw [mem_singleton.mp hline]
        rfl
      · refine lines_of_session ?_ line hline
        rw [sessionsOf_cookie, hrelay]
        rfl

/-- What is no page gets a session of each node that logs it. -/
theorem lines_of_other (hpage : isHtmlResponse headers = false) (hnone : sessionsOf headers = [])
    (hnew : ∀ n ∈ nodes, n.session = none) : (respond headers nodes).2.map LogLine.sessionId =
      (nodes.filter Node.enabled).map fun n => n.minted.text := by
  induction nodes generalizing headers with
  | nil => rfl
  | cons n nodes ih =>
    have hrelay : sessionsOf (n.relay headers) = [] := by rw [sessionsOf_relay, hnone]
    have hother : isHtmlResponse (n.relay headers) = false := by rw [n.relay_html, hpage]
    have hrest := ih hother hrelay fun m hm => hnew m (mem_cons_of_mem n hm)
    rw [respond_cons]
    rcases n.finishProxiedResponse_cases (n.relay headers) with ⟨hen, hfin⟩ | ⟨-, id, hid, -⟩ |
      ⟨hen, -, hfin⟩
    · rw [hfin, filter_cons_of_neg (by rw [hen]; exact Bool.false_ne_true)]
      exact hrest
    · rw [Node.known, hrelay, hnew n mem_cons_self] at hid
      cases hid
    · rw [hfin, filter_cons_of_pos hen, if_neg (by rw [hother]; exact Bool.false_ne_true),
        map_append, hrest]
      rfl

end

/-- **One session in all logs.** A response to a visitor who brings none, and that has none of the
backend, is logged under one session by all nodes if and only if it is a page or at most one node
logs it. -/
theorem oneSession_iff (headers : List (Str × Str)) (nodes : List Node)
    (hnone : sessionsOf headers = []) (hnew : ∀ n ∈ nodes, n.session = none)
    (hdistinct : (nodes.map fun n => n.minted.text).Nodup) :
    (∃ id, ∀ line ∈ (respond headers nodes).2, line.sessionId = id) ↔
      isHtmlResponse headers = true ∨ (nodes.filter Node.enabled).length ≤ 1 := by
  cases hpage : isHtmlResponse headers with
  | true => exact iff_of_true (lines_of_page hpage hnone hnew) (.inl rfl)
  | false =>
    have hlines := lines_of_other hpage hnone hnew
    have hsub : ((nodes.filter Node.enabled).map fun n => n.minted.text).Nodup :=
      hdistinct.sublist (filter_sublist.map _)
    rw [← hlines] at hsub
    have hlength := congrArg List.length hlines
    rw [length_map, length_map] at hlength
    rw [← hlength]
    generalize (respond headers nodes).2 = lines at hsub
    constructor
    · rintro ⟨id, hid⟩
      refine .inr ?_
      rcases lines with _ | ⟨a, _ | ⟨b, rest⟩⟩
      · exact Nat.zero_le 1
      · exact le_rfl
      · have hsame : a.sessionId = b.sessionId := (hid a (by simp)).trans (hid b (by simp)).symm
        rw [map_cons, map_cons, hsame] at hsub
        exact absurd mem_cons_self (nodup_cons.mp hsub).1
    · rintro (h | h)
      · cases h
      · rcases lines with _ | ⟨a, _ | ⟨b, rest⟩⟩
        · exact ⟨[], fun line hline => absurd hline not_mem_nil⟩
        · exact ⟨a.sessionId, fun line hline => by rw [mem_singleton.mp hline]⟩
        · exact absurd h (by simp)

/-- A node that logs, and keeps the fields as they come. -/
def edgeNode (id : SessionId) : Node :=
  ⟨true, [("User-Agent".toList, "curl".toList)],
    ⟨"edge".toList, "/".toList, 200, "miss".toList, "192.0.2.1".toList, none⟩, id, fun h => h,
    fun _ => rfl, fun _ => rfl⟩

theorem hex_of_all {text : Str} (h : text.all ("0123456789abcdef".toList.contains ·) = true) :
    ∀ c ∈ text, "0123456789abcdef".toList.contains c = true :=
  all_eq_true.mp h

def firstId : SessionId := ⟨"0a".toList, List.cons_ne_nil _ _, hex_of_all rfl⟩

def secondId : SessionId := ⟨"0b".toList, List.cons_ne_nil _ _, hex_of_all rfl⟩

/-- Two nodes log an image under two sessions. -/
theorem two_sessions : ¬ ∃ id, ∀ line ∈ (respond [("Content-Type".toList, "image/png".toList)]
      [edgeNode firstId, edgeNode secondId]).2, line.sessionId = id := by
  have hiff := oneSession_iff [("Content-Type".toList, "image/png".toList)]
    [edgeNode firstId, edgeNode secondId] rfl (by decide) (by decide)
  rw [hiff]
  decide

end M6.Analytics
