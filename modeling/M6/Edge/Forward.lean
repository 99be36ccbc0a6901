import M6.Edge.H2Client
import M6.Edge.Pool

/-!
# Forwarding a request

A request leaves the edge on one of four transports: a backend's unix socket, an http or https
URL, and the two outbound HTTP/2 clients. Each writes its own field list. `EndToEnd` says what a
forwarded request should be, without naming a writer, and `endToEnd_iff` which of them keep to
it.

`forwardToBackend` is the way over a unix socket, through the backend pool. `spared_iff` says
when it leaves the pool as it was unless the backend itself failed: a request that the edge
refuses to write counts against the member that it would have gone to.
-/

namespace M6

open List Option Text

/-! ## The field lists -/

/-- The fields that `build_forwarded_request_bytes` writes for an upstream of an http or https
URL: the upstream's host, and what the socket's writer writes but for the client's `Host`. -/
def urlForwardedFields (host : Str) (req : RawRequest) (clientIp originalHost : Str) :
    List (Str × Str) :=
  ("Host".toList, host) ::
    (req.headers.filter fun f => isCopied (connectionNominated req.headers) f &&
      !(Text.eqIgnoreAsciiCase f.1 "host".toList)) ++
    proxyFields req clientIp originalHost

/-- Whether a field of the client goes along on an HTTP/2 stream. -/
def isForwardedOnStream (f : Str × Str) : Bool :=
  !(hopByHop.any fun n => Text.eqIgnoreAsciiCase f.1 n) && f.1.head? != some ':' &&
    !isProxyEmittedHopHeader f.1

def streamFields (req : RawRequest) (clientIp originalHost : Str) : List (Str × Str) :=
  [("x-forwarded-for".toList, clientIp), ("x-forwarded-proto".toList, "https".toList),
    ("x-forwarded-host".toList, originalHost)] ++
  (req.headers.filter isForwardedOnStream).map fun f => (Text.toAsciiLowercase f.1, f.2)

/-- The fields of a stream are what both clients encode behind the pseudo-headers. -/
theorem headerList_eq (kind : ClientKind) (d : ClientConn.Dispatch) :
    ClientConn.headerList kind d = (ClientConn.headerList kind d).take 4 ++
      (streamFields d.req d.clientIp d.originalHost).map fun f =>
        (Utf8.encode f.1, Utf8.encode f.2) := by
  rw [ClientConn.headerList, ClientConn.forwarded, streamFields, map_append, List.map_map]
  rfl

inductive Transport where
  | unixSocket
  | url
  | stream (kind : ClientKind)

/-- The fields that a request leaves with, up to pseudo-headers, or nothing if it is refused. The
clients of HTTP/2 refuse no request. -/
def written (t : Transport) (host : Str) (req : RawRequest) (clientIp originalHost : Str) :
    Option (List (Str × Str)) :=
  match t with
  | .unixSocket =>
    if checkForwardable req clientIp originalHost then
      some (forwardedFields req clientIp originalHost)
    else none
  | .url =>
    if checkForwardable req clientIp originalHost then
      some (urlForwardedFields host req clientIp originalHost)
    else none
  | .stream _ => some (streamFields req clientIp originalHost)

/-! ## End to end -/

def fieldValues (fields : List (Str × Str)) (name : Str) : List Str :=
  (fields.filter fun f => Text.eqIgnoreAsciiCase f.1 name).map Prod.snd

def isHopByHop (name : Str) : Bool := hopByHop.any fun h => Text.eqIgnoreAsciiCase name h

/-- A field that the request's `Connection` names. -/
def isNominated (req : RawRequest) (name : Str) : Bool :=
  (connectionNominated req.headers).any fun n => Text.eqIgnoreAsciiCase name n

/-- The fields that a proxy writes on its own account: where the request came from and went to,
and the framing of its own hop. -/
def proxyWritten : List Str :=
  ["via".toList, "host".toList, "connection".toList] ++ proxyOwned

def isProxyWritten (name : Str) : Bool := proxyWritten.any fun h => Text.eqIgnoreAsciiCase name h

/-- What leaves the edge for a request, where `out` is the field list or nothing if it was
refused. -/
structure EndToEnd (req : RawRequest) (clientIp originalHost : Str)
    (out : Option (List (Str × Str))) : Prop where
  /-- refused exactly where it could not be written as HTTP/1.1 -/
  refused : out = none ↔ checkForwardable req clientIp originalHost = false
  /-- of the client's fields those go along that are neither of one hop nor nominated -/
  fields : ∀ fs, out = some fs → ∀ name, isProxyWritten name = false →
    fieldValues fs name =
      if isHopByHop name || isNominated req name then [] else fieldValues req.headers name
  /-- `Via` has this hop behind those it had -/
  via : ∀ fs, out = some fs → fieldValues fs "via".toList =
    [viaValue (fieldValues req.headers "via".toList).getLast? req.version]
  /-- and has this hop alone where the client nominated it -/
  ownVia : ∀ fs, out = some fs → isNominated req "via".toList = true →
    fieldValues fs "via".toList = [viaValue none req.version]

theorem fieldValues_append (fs gs : List (Str × Str)) (name : Str) :
    fieldValues (fs ++ gs) name = fieldValues fs name ++ fieldValues gs name := by
  rw [fieldValues, filter_append, map_append]
  rfl

variable {name : Str} {fs : List (Str × Str)}

theorem fieldValues_eq_nil
    (h : ∀ f ∈ fs, Text.eqIgnoreAsciiCase f.1 name = false) : fieldValues fs name = [] := by
  rw [fieldValues, map_eq_nil_iff, filter_eq_nil_iff]
  intro f hf
  rw [h f hf]
  exact Bool.false_ne_true

theorem fieldValues_filter {p : Str × Str → Bool} {b : Bool}
    (h : ∀ f ∈ fs, Text.eqIgnoreAsciiCase f.1 name = true → p f = b) :
    fieldValues (fs.filter p) name = if b then fieldValues fs name else [] := by
  rw [fieldValues, List.filter_filter]
  cases b with
  | true =>
    rw [if_pos rfl, fieldValues]
    refine congrArg _ (filter_congr fun f hf => ?_)
    cases hname : eqIgnoreAsciiCase f.1 name with
    | false => rw [Bool.false_and]
    | true => rw [Bool.true_and, h f hf hname]
  | false =>
    rw [if_neg Bool.false_ne_true, map_eq_nil_iff, filter_eq_nil_iff]
    intro f hf hboth
    rw [Bool.and_eq_true] at hboth
    rw [h f hf hboth.1] at hboth
    cases hboth.2

theorem eqIgnoreAsciiCase_comm (a b : Str) :
    Text.eqIgnoreAsciiCase a b = Text.eqIgnoreAsciiCase b a := Bool.beq_comm

theorem any_congr {a b : Str} (h : Text.eqIgnoreAsciiCase a b = true) (names : List Str) :
    (names.any fun n => Text.eqIgnoreAsciiCase a n) =
      names.any fun n => Text.eqIgnoreAsciiCase b n := by
  simp only [eqIgnoreAsciiCase_congr h]

theorem ne_of_not_proxyWritten (h : isProxyWritten name = false) (own : Str)
    (hown : own ∈ proxyWritten) : Text.eqIgnoreAsciiCase own name = false := by
  rw [eqIgnoreAsciiCase_comm]
  exact Bool.eq_false_iff.mpr (List.any_eq_false.mp h own hown)

theorem isCopied_of_name {req : RawRequest} {f : Str × Str}
    (hname : Text.eqIgnoreAsciiCase f.1 name = true) (hown : isProxyWritten name = false) :
    isCopied (connectionNominated req.headers) f = !(isHopByHop name || isNominated req name) := by
  have hvia : eqIgnoreAsciiCase f.1 "via".toList = false := by
    rw [eqIgnoreAsciiCase_congr hname, eqIgnoreAsciiCase_comm]
    exact ne_of_not_proxyWritten hown _ (by decide)
  have howned : (proxyOwned.any fun n => eqIgnoreAsciiCase name n) = false := by
    rw [List.any_eq_false]
    intro n hn
    rw [eqIgnoreAsciiCase_comm, ne_of_not_proxyWritten hown _ (mem_append_right _ hn)]
    exact Bool.false_ne_true
  rw [isCopied, hvia, skipWhenForwarding, any_congr hname, any_congr hname, any_congr hname, howned,
    isHopByHop, isNominated]
  simp

/-- The names of the proxy's own fields behind `Via`. -/
def ownNames : List Str :=
  ["Host".toList, "X-Forwarded-For".toList, "X-Forwarded-Proto".toList,
    "X-Forwarded-Host".toList, "Content-Length".toList, "Connection".toList]

theorem proxyFields_eq (req : RawRequest) (clientIp originalHost : Str) :
    ∃ rest, proxyFields req clientIp originalHost =
        ("Via".toList, viaValue (fieldValues req.headers "via".toList).getLast? req.version) ::
          rest ∧ ∀ f ∈ rest, f.1 ∈ ownNames := by
  refine ⟨(proxyFields req clientIp originalHost).tail, rfl, fun f hf => ?_⟩
  simp only [proxyFields, cons_append, tail_cons,
    mem_append, mem_ite_nil_left, mem_cons, not_mem_nil, or_false,
    false_or] at hf
  simp only [ownNames, mem_cons, not_mem_nil, or_false]
  obtain ((⟨-, rfl⟩ | (rfl | rfl | rfl)) | ⟨-, rfl⟩) | rfl := hf
  · exact .inl rfl
  · exact .inr (.inl rfl)
  · exact .inr (.inr (.inl rfl))
  · exact .inr (.inr (.inr (.inl rfl)))
  · exact .inr (.inr (.inr (.inr (.inl rfl))))
  · exact .inr (.inr (.inr (.inr (.inr rfl))))

theorem fieldValues_proxyFields (req : RawRequest) (clientIp originalHost : Str)
    (hown : isProxyWritten name = false) :
    fieldValues (proxyFields req clientIp originalHost) name = [] := by
  have hnames : ∀ n ∈ "Via".toList :: ownNames, ∃ own ∈ proxyWritten,
      eqIgnoreAsciiCase n own = true := by decide
  obtain ⟨rest, heq, hrest⟩ := proxyFields_eq req clientIp originalHost
  rw [heq]
  refine fieldValues_eq_nil fun f hf => ?_
  have hmem : f.1 ∈ "Via".toList :: ownNames := by
    obtain rfl | hf := mem_cons.mp hf
    · exact mem_cons_self
    · exact mem_cons_of_mem _ (hrest f hf)
  obtain ⟨own, hmem, hsame⟩ := hnames f.1 hmem
  rw [eqIgnoreAsciiCase_congr hsame]
  exact ne_of_not_proxyWritten hown _ hmem

theorem via_proxyFields (req : RawRequest) (clientIp originalHost : Str) :
    fieldValues (proxyFields req clientIp originalHost) "via".toList =
      [viaValue (fieldValues req.headers "via".toList).getLast? req.version] := by
  have hnames : ∀ n ∈ ownNames, eqIgnoreAsciiCase n "via".toList = false := by
    decide +kernel
  obtain ⟨rest, heq, hrest⟩ := proxyFields_eq req clientIp originalHost
  have hnil : fieldValues rest "via".toList = [] :=
    fieldValues_eq_nil fun f hf => hnames f.1 (hrest f hf)
  have hvia : eqIgnoreAsciiCase "Via".toList "via".toList = true := by decide
  rw [fieldValues, map_eq_nil_iff] at hnil
  rw [heq, fieldValues, filter_cons, if_pos hvia, hnil]
  rfl

/-- The client's `Via` is not copied: the proxy writes its own. -/
theorem not_isCopied_via {nominated : List Str} {f : Str × Str}
    (h : Text.eqIgnoreAsciiCase f.1 "via".toList = true) : isCopied nominated f = false := by
  rw [isCopied, h]
  rfl

/-! ## Who keeps to it -/

def inkOf (s : Str) : Nat := s.countP fun c => !Text.isWhitespace c

theorem inkOf_dropWhile (s : Str) : inkOf (s.dropWhile Text.isWhitespace) = inkOf s := by
  induction s with
  | nil => rfl
  | cons c s ih =>
    rw [dropWhile_cons]
    split_ifs with hc
    · rw [ih, inkOf, inkOf, countP_cons_of_neg (by simp [hc])]
    · rfl

theorem inkOf_trim (s : Str) : inkOf (Text.trim s) = inkOf s := by
  rw [Text.trim, inkOf, countP_reverse]
  rw [show countP _ _ = inkOf _ from rfl, inkOf_dropWhile, inkOf, countP_reverse]
  exact inkOf_dropWhile s

theorem viaValue_none (version : Str) : 0 < inkOf (viaValue none version) := by
  unfold viaValue
  split_ifs <;> decide

theorem viaValue_some (v version : Str) : viaValue (some v) version =
      if Text.trim v ≠ [] then Text.trim v ++ ", ".toList ++ viaValue none version
      else viaValue none version := rfl

/-- No value of `Via` has this hop behind itself. -/
theorem viaValue_ne (v version : Str) : viaValue (some v) version ≠ v := by
  intro heq
  have hnone := viaValue_none version
  have hink := congrArg inkOf heq
  rw [viaValue_some] at hink
  split_ifs at hink with htrim
  · rw [inkOf, countP_append, countP_append] at hink
    have htrimmed : countP (fun c => !isWhitespace c) (Text.trim v) = inkOf v :=
      inkOf_trim v
    rw [htrimmed] at hink
    change inkOf v + _ + inkOf (viaValue none version) = inkOf v at hink
    omega
  · have hblank : inkOf v = 0 := by
      rw [← inkOf_trim, not_ne_iff.mp htrim]
      rfl
    omega

theorem viaValue_eq_none_iff (prior : Option Str) (version : Str) :
    viaValue prior version = viaValue none version ↔ ∀ v, prior = some v → Text.trim v = [] := by
  cases prior with
  | none => exact iff_of_true rfl fun _ h => (by cases h)
  | some v =>
    rw [viaValue_some]
    split_ifs with htrim
    · refine iff_of_false (fun heq => ?_) fun h => htrim (h v rfl)
      have hlen := congrArg List.length heq
      rw [length_append, length_append] at hlen
      have : 0 < (Text.trim v).length := length_pos_iff.mpr htrim
      omega
    · exact iff_of_true rfl fun w hw => by
        cases hw
        exact not_ne_iff.mp htrim

theorem toAsciiLowercase_idem (s : Str) :
    Text.toAsciiLowercase (Text.toAsciiLowercase s) = Text.toAsciiLowercase s := by
  have hchar : ∀ c : Char, c.toLower.toLower = c.toLower := by
    intro c
    by_cases h : c.val ≥ 'A'.val ∧ c.val ≤ 'Z'.val
    · have hlower : c.toLower.val = c.val + ('a'.val - 'A'.val) := congrArg Char.val (dif_pos h)
      refine dif_neg fun hbounds => ?_
      have hle : c.toLower.val.toNat ≤ 'Z'.val.toNat := hbounds.2
      have hge : 'A'.val.toNat ≤ c.val.toNat := h.1
      have hmax : c.val.toNat ≤ 'Z'.val.toNat := h.2
      rw [hlower, UInt32.toNat_add] at hle
      have hA : 'A'.val.toNat = 65 := rfl
      have hZ : 'Z'.val.toNat = 90 := rfl
      have hd : ('a'.val - 'A'.val).toNat = 32 := rfl
      omega
    · have hsame : c.toLower = c := dif_neg h
      rw [hsame, hsame]
  rw [toAsciiLowercase, toAsciiLowercase, List.map_map]
  exact map_congr_left fun c _ => hchar c

theorem fieldValues_lower (fs : List (Str × Str)) (name : Str) :
    fieldValues (fs.map fun f => (Text.toAsciiLowercase f.1, f.2)) name = fieldValues fs name := by
  have hname : ∀ f : Str × Str, eqIgnoreAsciiCase (toAsciiLowercase f.1) name =
      eqIgnoreAsciiCase f.1 name := fun f => by
    rw [eqIgnoreAsciiCase, toAsciiLowercase_idem]
    rfl
  rw [fieldValues, List.filter_map, List.map_map, fieldValues]
  refine congrArg _ (filter_congr fun f _ => hname f)

/-- The HTTP/2 clients copy `Via` as it came. -/
theorem via_streamFields (req : RawRequest) (clientIp originalHost : Str) :
    fieldValues (streamFields req clientIp originalHost) "via".toList =
      fieldValues req.headers "via".toList := by
  have hcopied : ∀ f : Str × Str, eqIgnoreAsciiCase f.1 "via".toList = true →
      isForwardedOnStream f = true := by
    intro f hf
    have hhead : f.1.head? ≠ some ':' := by
      intro hcolon
      obtain ⟨s, hs⟩ := head?_eq_some_iff.mp hcolon
      rw [hs, eqIgnoreAsciiCase, beq_iff_eq] at hf
      exact absurd (congrArg head? hf) (by
        rw [toAsciiLowercase, map_cons, head?_cons]
        decide)
    rw [isForwardedOnStream, any_congr hf, isProxyEmittedHopHeader, any_congr hf,
      bne_iff_ne.mpr hhead]
    decide
  have hown : fieldValues [("x-forwarded-for".toList, clientIp),
      ("x-forwarded-proto".toList, "https".toList), ("x-forwarded-host".toList, originalHost)]
      "via".toList = [] := rfl
  rw [streamFields, fieldValues_append, hown, nil_append, fieldValues_lower,
    fieldValues_filter fun f _ hf => hcopied f hf, if_pos rfl]

/-- **The writers of HTTP/1.1** keep to it, but that a nominated `Via` stays: they put this hop
behind it. -/
theorem endToEnd_http1 {req : RawRequest} {clientIp originalHost : Str}
    (hfields : ∀ name, isProxyWritten name = false → fieldValues fs name =
      if isHopByHop name || isNominated req name then [] else fieldValues req.headers name)
    (hvia : fieldValues fs "via".toList =
      [viaValue (fieldValues req.headers "via".toList).getLast? req.version]) :
    EndToEnd req clientIp originalHost
        (if checkForwardable req clientIp originalHost then some fs else none) ↔
      (checkForwardable req clientIp originalHost = true → isNominated req "via".toList = true →
        ∀ v, (fieldValues req.headers "via".toList).getLast? = some v → Text.trim v = []) := by
  cases hcheck : checkForwardable req clientIp originalHost with
  | false =>
    refine iff_of_true ⟨by simp [hcheck], ?_, ?_, ?_⟩ fun h => (by cases h)
    all_goals
      intro gs hgs
      cases hgs
  | true =>
    rw [if_pos rfl]
    constructor
    · intro h _ hnominated
      have hown := h.ownVia fs rfl hnominated
      rw [hvia, singleton_inj] at hown
      exact (viaValue_eq_none_iff _ _).mp hown
    · intro h
      refine ⟨by simp [hcheck], fun gs hgs => ?_, fun gs hgs => ?_, fun gs hgs hnominated => ?_⟩
      all_goals cases hgs
      · exact hfields
      · exact hvia
      · rw [hvia, (viaValue_eq_none_iff _ _).mpr (h rfl hnominated)]

theorem fieldValues_copied (req : RawRequest) (hown : isProxyWritten name = false) :
    fieldValues (req.headers.filter (isCopied (connectionNominated req.headers))) name =
      if isHopByHop name || isNominated req name then [] else fieldValues req.headers name := by
  rw [fieldValues_filter fun f _ hf => isCopied_of_name hf hown]
  cases isHopByHop name || isNominated req name <;> rfl

theorem via_copied (req : RawRequest) :
    fieldValues (req.headers.filter (isCopied (connectionNominated req.headers))) "via".toList =
      [] := by
  rw [fieldValues_filter fun f _ hf => not_isCopied_via hf, if_neg Bool.false_ne_true]

/-- Without the client's `Host` the other fields are the same. -/
theorem fieldValues_without_host (fs : List (Str × Str))
    (h : Text.eqIgnoreAsciiCase "host".toList name = false) :
    fieldValues (fs.filter fun f => !(Text.eqIgnoreAsciiCase f.1 "host".toList)) name =
      fieldValues fs name := by
  rw [fieldValues_filter (b := true) fun f _ hf => ?_, if_pos rfl]
  rw [eqIgnoreAsciiCase_congr hf, eqIgnoreAsciiCase_comm, h]
  rfl

theorem fieldValues_url (host : Str) (req : RawRequest) (clientIp originalHost : Str)
    (h : Text.eqIgnoreAsciiCase "host".toList name = false) :
    fieldValues (urlForwardedFields host req clientIp originalHost) name =
      fieldValues (forwardedFields req clientIp originalHost) name := by
  have hcopied : fieldValues (req.headers.filter fun f =>
        isCopied (connectionNominated req.headers) f &&
          !(eqIgnoreAsciiCase f.1 "host".toList)) name =
      fieldValues (req.headers.filter (isCopied (connectionNominated req.headers))) name := by
    rw [← fieldValues_without_host (req.headers.filter
      (isCopied (connectionNominated req.headers))) h, List.filter_filter]
    refine congrArg (fun p => fieldValues (req.headers.filter p) name) (funext fun f => ?_)
    exact Bool.and_comm _ _
  have hhost : fieldValues [("Host".toList, host)] name = [] := by
    refine fieldValues_eq_nil fun f hf => ?_
    obtain rfl := mem_singleton.mp hf
    rw [eqIgnoreAsciiCase_congr (show eqIgnoreAsciiCase "Host".toList "host".toList = true by
      decide)]
    exact h
  rw [urlForwardedFields, ← singleton_append, fieldValues_append, fieldValues_append, hhost,
    hcopied, nil_append, forwardedFields, fieldValues_append]

/-- **End-to-end fields only.** For every request, what leaves on a transport is refused,
sanitised and announced as it should be exactly on a unix socket and for an http or https URL,
and there unless the client nominated a `Via` of its own. The HTTP/2 clients never announce this
hop, so that no request leaves on a stream as it leaves on a socket. -/
theorem endToEnd_iff (t : Transport) (host : Str) (req : RawRequest) (clientIp originalHost : Str) :
    EndToEnd req clientIp originalHost (written t host req clientIp originalHost) ↔
      (∀ kind, t ≠ .stream kind) ∧
        (checkForwardable req clientIp originalHost = true → isNominated req "via".toList = true →
          ∀ v, (fieldValues req.headers "via".toList).getLast? = some v → Text.trim v = []) := by
  cases t with
  | unixSocket =>
    rw [and_iff_right fun kind h => by cases h]
    refine endToEnd_http1 (fun name hown => ?_) ?_
    · rw [forwardedFields, fieldValues_append, fieldValues_copied req hown,
        fieldValues_proxyFields _ _ _ hown, append_nil]
    · rw [forwardedFields, fieldValues_append, via_copied, via_proxyFields]
      rfl
  | url =>
    rw [and_iff_right fun kind h => by cases h]
    refine endToEnd_http1 (fun name hown => ?_) ?_
    · rw [fieldValues_url host _ _ _ (ne_of_not_proxyWritten hown "host".toList (by decide)),
        forwardedFields, fieldValues_append, fieldValues_copied req hown,
        fieldValues_proxyFields _ _ _ hown, append_nil]
    · rw [fieldValues_url host _ _ _ (by decide), forwardedFields, fieldValues_append, via_copied,
        via_proxyFields]
      rfl
  | stream kind =>
    refine iff_of_false (fun h => ?_) fun h => h.1 kind rfl
    have hvia := h.via _ rfl
    rw [via_streamFields] at hvia
    cases hlast : (fieldValues req.headers "via".toList).getLast? with
    | none =>
      rw [getLast?_eq_none_iff] at hlast
      rw [hlast] at hvia
      cases hvia
    | some v =>
      have hv := hlast
      rw [hvia, getLast?_singleton, hlast, some.injEq] at hv
      exact viaValue_ne v req.version hv

def hintedRequest : RawRequest where
  method := "GET".toList
  path := "/".toList
  query := none
  version := "HTTP/1.1".toList
  headers := [("Host".toList, "site.test".toList), ("Connection".toList, "X-Session-Hint".toList),
    ("X-Session-Hint".toList, "1".toList)]
  body := []

/-- The hint stays on a unix socket, and goes on to an HTTP/2 upstream, without a `Via`. -/
theorem hint_leaks :
    fieldValues (forwardedFields hintedRequest "203.0.113.7".toList "site.test".toList)
        "x-session-hint".toList = [] ∧
      fieldValues (streamFields hintedRequest "203.0.113.7".toList "site.test".toList)
        "x-session-hint".toList = ["1".toList] ∧
      ∀ kind, ¬ EndToEnd hintedRequest "203.0.113.7".toList "site.test".toList
        (written (.stream kind) "origin".toList hintedRequest "203.0.113.7".toList
          "site.test".toList) := by
  refine ⟨by decide +kernel, by decide +kernel, fun kind h => ?_⟩
  have hvia := h.via _ rfl
  exact absurd (congrArg List.length hvia) (by decide)

/-! ## Over a unix socket -/

/-- Why a request got no answer over a socket. -/
inductive ForwardError where
  /-- `check_forwardable` refused it, before there was a connection -/
  | refused
  | connect (e : Str)
  /-- the socket takes no timeout of zero -/
  | timeout
  /-- writing it or reading the answer failed, or the answer was malformed -/
  | exchange (e : Str)

/-- What a backend's socket does with a connection and with a request on it. -/
structure SocketPeer where
  connect : Option Str
  answer : Except Str HttpResponse

def SocketPeer.fails (peer : SocketPeer) (timeoutSecs : Nat) : Prop :=
  peer.connect ≠ none ∨ (timeoutSecs ≠ 0 ∧ ∃ e, peer.answer = .error e)

def forwardRequestTimeout (peer : SocketPeer) (req : RawRequest) (clientIp originalHost : Str)
    (timeoutSecs : Nat) : Except ForwardError HttpResponse :=
  if checkForwardable req clientIp originalHost then
    match peer.connect with
    | some e => .error (.connect e)
    | none =>
      if timeoutSecs = 0 then .error .timeout
      else
        match peer.answer with
        | .ok resp => .ok resp
        | .error e => .error (.exchange e)
  else .error .refused

inductive BackendError where
  | unknownBackend
  | poolEmpty
  | forward (e : ForwardError)

section
variable (peers : Str → SocketPeer) (now later : Instant) (timeoutSecs : Nat) (req : RawRequest)
  (clientIp originalHost : Str)

/-- Forward a request to a member of a pool. The member is picked at `now`, and a failure is
marked `later`. -/
def forwardToPool (members : List PoolMember) :
    Option (Except BackendError HttpResponse × List PoolMember) :=
  match pickMember now members with
  | none => some (.error .poolEmpty, members)
  | some idx =>
    match members[idx]? with
    | none => none
    | some m => do
      let picked ← BackendPool.step members (.pickSocket now)
      match forwardRequestTimeout (peers m.path) req clientIp originalHost timeoutSecs with
      | .ok resp =>
        let released ← BackendPool.step picked (.release idx)
        return (.ok resp, released)
      | .error e =>
        let failed ← BackendPool.step picked (.markFailed idx later)
        return (.error (.forward e), failed)

/-- Forward a request to the backend of a name, in the first pool that has it; `none` if an
operation panics. -/
def forwardToBackend (backendName : Str) : List (Str × List PoolMember) →
    Option (Except BackendError HttpResponse × List (Str × List PoolMember))
  | [] => some (.error .unknownBackend, [])
  | (name, members) :: pools =>
    if name = backendName then
      (forwardToPool peers now later timeoutSecs req clientIp originalHost members).map
        fun r => (r.1, (name, r.2) :: pools)
    else (forwardToBackend backendName pools).map fun r => (r.1, (name, members) :: r.2)

def pickedMember (pools : List (Str × List PoolMember)) (backendName : Str) : Option PoolMember :=
  (pools.find? fun p => p.1 = backendName).bind fun p =>
    (pickMember now p.2).bind fun idx => p.2[idx]?

def Spared (pools : List (Str × List PoolMember)) (backendName : Str) : Prop :=
  (∃ m, pickedMember now pools backendName = some m ∧
    checkForwardable req clientIp originalHost = true ∧ (peers m.path).fails timeoutSecs) ∨
  ∃ answer, forwardToBackend peers now later timeoutSecs req clientIp originalHost backendName pools
    = some (answer, pools)

end

theorem updateAt_bind {α : Type} (f g : α → Option α) (i : Nat) (l : List α) :
    ((updateAt f i l).bind fun l => updateAt g i l) = updateAt (fun a => (f a).bind g) i l := by
  induction l generalizing i with
  | nil => cases i <;> rfl
  | cons a l ih =>
    cases i with
    | zero =>
      simp only [updateAt]
      cases f a with
      | none | some b => rfl
    | succ i =>
      simp only [updateAt, ← ih]
      cases updateAt f i l with
      | none | some l' => rfl

theorem updateAt_self {α : Type} {f : α → Option α} {i : Nat} {l : List α} {a : α}
    (ha : l[i]? = some a) (hf : f a = some a) : updateAt f i l = some l := by
  induction l generalizing i with
  | nil => cases ha
  | cons b l ih =>
    cases i with
    | zero =>
      cases ha
      rw [updateAt, hf]
      rfl
    | succ i =>
      rw [updateAt, ih (by simpa using ha)]
      rfl

theorem updateAt_ne {α : Type} {f : α → Option α} {i : Nat} {l : List α} {a : α}
    (ha : l[i]? = some a) (hf : f a ≠ some a) : updateAt f i l ≠ some l := by
  induction l generalizing i with
  | nil => cases ha
  | cons b l ih =>
    cases i with
    | zero =>
      cases ha
      intro h
      obtain ⟨b', hb', heq⟩ := map_eq_some_iff.mp h
      rw [(List.cons.inj heq).1] at hb'
      exact hf hb'
    | succ i =>
      intro h
      obtain ⟨l', hl', heq⟩ := map_eq_some_iff.mp h
      rw [(List.cons.inj heq).2] at hl'
      exact ih (by simpa using ha) hl'

theorem pickMember_some {now : Instant} {members : List PoolMember} {idx : Nat}
    (h : pickMember now members = some idx) :
    ∃ m, members[idx]? = some m ∧ m.acquire = some { m with connections := m.connections + 1 } := by
  obtain hbest | ⟨j, m, hj, hm, hlt⟩ := pickFrom_lt h
  · cases hbest
  · rw [Nat.zero_add] at hj
    exact ⟨m, hj ▸ hm, if_pos (by omega)⟩

section
variable {peers : Str → SocketPeer} {now later : Instant} {timeoutSecs : Nat} {req : RawRequest}
  {clientIp originalHost : Str}

theorem forwardToPool_answered {members : List PoolMember} {idx : Nat} {m : PoolMember}
    {resp : HttpResponse} (hpick : pickMember now members = some idx) (hm : members[idx]? = some m)
    (hresp : forwardRequestTimeout (peers m.path) req clientIp originalHost
      timeoutSecs = .ok resp) :
    forwardToPool peers now later timeoutSecs req clientIp originalHost members =
      some (.ok resp, members) := by
  obtain ⟨m', hm', hacquire⟩ := pickMember_some hpick
  cases hm.symm.trans hm'
  have hboth := updateAt_bind PoolMember.acquire (fun m => some m.disconnect) idx members
  rw [updateAt_self hm (f := fun a => a.acquire.bind fun m => some m.disconnect)
    (by simp [hacquire, PoolMember.disconnect])] at hboth
  obtain ⟨picked, hpicked, hreleased⟩ := bind_eq_some_iff.mp hboth
  simp only [forwardToPool, hpick, hm, BackendPool.step, hpicked, hresp, hreleased,
    bind_eq_bind, bind_some]
  rfl

theorem forwardToPool_failed {members : List PoolMember} {idx : Nat} {m : PoolMember}
    {e : ForwardError} (hpick : pickMember now members = some idx) (hm : members[idx]? = some m)
    (herror : forwardRequestTimeout (peers m.path) req clientIp originalHost timeoutSecs = .error e)
    (answer : Except BackendError HttpResponse) :
    forwardToPool peers now later timeoutSecs req clientIp originalHost members ≠
      some (answer, members) := by
  obtain ⟨m', hm', hacquire⟩ := pickMember_some hpick
  cases hm.symm.trans hm'
  have hboth := updateAt_bind PoolMember.acquire
    (fun m => m.disconnect.markFailed later) idx members
  have hchanged : (m.acquire.bind fun m => m.disconnect.markFailed later) ≠ some m := by
    rw [hacquire, bind_some]
    intro h
    obtain ⟨count, hcount, h⟩ := bind_eq_some_iff.mp h
    obtain ⟨secs, -, h⟩ := bind_eq_some_iff.mp h
    obtain ⟨retryAt, -, h⟩ := bind_eq_some_iff.mp h
    have hsame : count = m.failureCount := congrArg PoolMember.failureCount (some.inj h)
    rw [checkedBelow] at hcount
    split_ifs at hcount
    have hmore : m.failureCount + 1 = count := some.inj hcount
    omega
  have hne := updateAt_ne hm (f := fun a => a.acquire.bind fun m => m.disconnect.markFailed later)
    hchanged
  rw [← hboth] at hne
  intro h
  simp only [forwardToPool, hpick, hm, BackendPool.step, herror, bind_eq_bind] at h
  obtain ⟨picked, hpicked, h⟩ := bind_eq_some_iff.mp h
  obtain ⟨failed, hfailed, h⟩ := bind_eq_some_iff.mp h
  rw [hpicked, bind_some, hfailed] at hne
  exact hne (congrArg some (Prod.mk.inj (some.inj h)).2)

theorem forwardRequestTimeout_cases (peer : SocketPeer) (req : RawRequest)
    (clientIp originalHost : Str) (timeoutSecs : Nat) :
    (∃ resp, forwardRequestTimeout peer req clientIp originalHost timeoutSecs = .ok resp ∧
      checkForwardable req clientIp originalHost = true ∧ timeoutSecs ≠ 0) ∨
    ∃ e, forwardRequestTimeout peer req clientIp originalHost timeoutSecs = .error e ∧
      ((checkForwardable req clientIp originalHost = true ∧ peer.fails timeoutSecs) ↔
        checkForwardable req clientIp originalHost = true ∧
          (timeoutSecs = 0 → peer.connect ≠ none)) := by
  rw [forwardRequestTimeout, SocketPeer.fails]
  cases hcheck : checkForwardable req clientIp originalHost with
  | false => exact .inr ⟨.refused, rfl, by simp⟩
  | true =>
    rw [if_pos rfl]
    cases hconnect : peer.connect with
    | some e => exact .inr ⟨.connect e, rfl, by simp⟩
    | none =>
      simp only
      split_ifs with hzero
      · exact .inr ⟨.timeout, rfl, by simp [hzero]⟩
      · cases hanswer : peer.answer with
        | ok resp => exact .inl ⟨resp, rfl, trivial, hzero⟩
        | error e => exact .inr ⟨.exchange e, rfl, by simp [hzero]⟩

theorem forwardToPool_spared (peers : Str → SocketPeer) (later : Instant)
    (members : List PoolMember) :
    ((∃ m, ((pickMember now members).bind fun idx => members[idx]?) = some m ∧
        checkForwardable req clientIp originalHost = true ∧ (peers m.path).fails timeoutSecs) ∨
      ∃ answer, forwardToPool peers now later timeoutSecs req clientIp originalHost members =
        some (answer, members)) ↔
    ∀ m, ((pickMember now members).bind fun idx => members[idx]?) = some m →
      checkForwardable req clientIp originalHost = true ∧
        (timeoutSecs = 0 → (peers m.path).connect ≠ none) := by
  cases hpick : pickMember now members with
  | none =>
    refine iff_of_true (.inr ⟨.error .poolEmpty, ?_⟩) fun m hm => (by cases hm)
    simp only [forwardToPool, hpick]
  | some idx =>
    obtain ⟨m, hm, -⟩ := pickMember_some hpick
    simp only [bind_some, hm, some.injEq, exists_eq_left', forall_eq']
    obtain ⟨resp, hresp, hcheck, hzero⟩ | ⟨e, herror, hiff⟩ := forwardRequestTimeout_cases
      (peers m.path) req clientIp originalHost timeoutSecs
    · refine iff_of_true (.inr ⟨.ok resp, forwardToPool_answered hpick hm hresp⟩) ⟨hcheck, ?_⟩
      exact fun h => absurd h hzero
    · rw [← hiff]
      refine or_iff_left ?_
      rintro ⟨answer, h⟩
      exact forwardToPool_failed hpick hm herror answer h

/-- **A client cannot eject backends**, where the edge writes its requests. For every state of
the pools and every request, backend and peer: they are as they were unless the backend failed at
a request that was sent to it, exactly if the request that goes to a member can be written, and a
connection can be given its timeout. -/
theorem spared_iff (pools : List (Str × List PoolMember)) (backendName : Str) :
    Spared peers now later timeoutSecs req clientIp originalHost pools backendName ↔
      ∀ m, pickedMember now pools backendName = some m →
        checkForwardable req clientIp originalHost = true ∧
          (timeoutSecs = 0 → (peers m.path).connect ≠ none) := by
  induction pools with
  | nil => exact iff_of_true (.inr ⟨.error .unknownBackend, rfl⟩) fun m hm => (by cases hm)
  | cons p pools ih =>
    obtain ⟨name, members⟩ := p
    rw [Spared, pickedMember, find?_cons, forwardToBackend]
    by_cases hname : name = backendName
    · simp only [hname, decide_true, if_true, bind_some]
      refine Iff.trans (or_congr_right (exists_congr fun answer => ?_))
        (forwardToPool_spared peers later members)
      rw [map_eq_some_iff]
      constructor
      · rintro ⟨⟨a, ms⟩, hr, heq⟩
        simp only [Prod.mk.injEq, List.cons.injEq, true_and, and_true] at heq
        rw [hr, heq.1, heq.2]
      · exact fun h => ⟨_, h, rfl⟩
    · simp only [hname, decide_false, if_false]
      refine Iff.trans (or_congr_right (exists_congr fun answer => ?_)) ih
      rw [map_eq_some_iff]
      constructor
      · rintro ⟨⟨a, rest⟩, hr, heq⟩
        simp only [Prod.mk.injEq, List.cons.injEq, true_and] at heq
        rw [hr, heq.1, heq.2]
      · exact fun h => ⟨_, h, rfl⟩

end

def freshMember : PoolMember := .new "/run/app-1.sock".toList

/-- A request with a line break in a field, as HTTP/2 carries it. -/
def brokenRequest : RawRequest where
  method := "GET".toList
  path := "/".toList
  query := none
  version := "HTTP/2".toList
  headers := [("host".toList, "site.test".toList), ("x-note".toList, "a\nb".toList)]
  body := []

/-- A backend that takes every connection and would answer every request. -/
def healthyPeer : SocketPeer := ⟨none, .ok ⟨200, [], []⟩⟩

theorem client_ejects :
    checkForwardable brokenRequest "203.0.113.7".toList "site.test".toList = false ∧
    (forwardToBackend (fun _ => healthyPeer) 0 0 30 brokenRequest "203.0.113.7".toList
        "site.test".toList "app".toList [("app".toList, [freshMember])]).map Prod.snd =
      some [("app".toList, [⟨freshMember.path, 0, some nanos, 1⟩])] ∧
    ¬ Spared (fun _ => healthyPeer) 0 0 30 brokenRequest "203.0.113.7".toList
        "site.test".toList [("app".toList, [freshMember])] "app".toList := by
  have hcheck : checkForwardable brokenRequest "203.0.113.7".toList "site.test".toList = false := by
    decide +kernel
  have hafter : (forwardToBackend (fun _ => healthyPeer) 0 0 30 brokenRequest
      "203.0.113.7".toList "site.test".toList "app".toList
      [("app".toList, [freshMember])]).map Prod.snd =
      some [("app".toList, [⟨freshMember.path, 0, some nanos, 1⟩])] := by decide +kernel
  refine ⟨hcheck, hafter, ?_⟩
  rintro (⟨m, -, hok, -⟩ | ⟨answer, h⟩)
  · rw [hcheck] at hok
    cases hok
  · rw [h, map_some, some.injEq] at hafter
    have hsame : [("app".toList, [freshMember])] =
        [("app".toList, [⟨freshMember.path, 0, some nanos, 1⟩])] := hafter
    exact absurd hsame (by decide +kernel)

end M6
