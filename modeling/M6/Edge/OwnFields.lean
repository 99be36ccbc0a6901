import M6.Edge.Forward
import M6.Edge.H1

/-!
# What the proxy says on its own account

Where a route asks for it the edge verifies a token and tells the backend whose it was, in an
`X-Auth-Claims` of its own, behind the fields of the client. On the way out the same list passes the
filters for what a client may nominate, so that a client can have the field taken off again.
`ownFieldsSurvive_iff` says of which requests what the proxy writes arrives once, and as it was
written, over a unix socket and for an http or https URL.
-/

namespace M6

open Text

/-! ## The fields of a name -/

theorem fieldValues_isCopied (req : RawRequest) (name : Str) :
    fieldValues (req.headers.filter (isCopied (connectionNominated req.headers))) name =
      if eqIgnoreAsciiCase name "via".toList || skipWhenForwarding name ||
          isNominated req name then []
      else fieldValues req.headers name := by
  have hsame : ∀ f ∈ req.headers, eqIgnoreAsciiCase f.1 name = true →
      isCopied (connectionNominated req.headers) f =
        !(eqIgnoreAsciiCase name "via".toList || skipWhenForwarding name ||
          isNominated req name) := by
    intro f _ hf
    rw [isCopied, skipWhenForwarding, skipWhenForwarding, isNominated, any_congr hf, any_congr hf,
      any_congr hf, eqIgnoreAsciiCase_congr hf]
    simp
  rw [fieldValues_filter hsame]
  cases eqIgnoreAsciiCase name "via".toList || skipWhenForwarding name ||
    isNominated req name <;> rfl

theorem containsHeader_iff (headers : List (Str × Str)) (name : Str) :
    containsHeader headers name = true ↔ fieldValues headers name ≠ [] := by
  rw [containsHeader, fieldValues, Ne, List.map_eq_nil_iff, List.filter_eq_nil_iff,
    List.any_eq_true]
  simp

theorem fieldValues_added (req : RawRequest) (clientIp originalHost : Str) :
    fieldValues (proxyFields req clientIp originalHost) "x-auth-claims".toList = [] ∧
    fieldValues (proxyFields req clientIp originalHost) "host".toList =
      (if originalHost = [] ∨ containsHeader req.headers "host".toList then []
        else [originalHost]) ∧
    fieldValues (proxyFields req clientIp originalHost) "x-forwarded-for".toList = [clientIp] ∧
    fieldValues (proxyFields req clientIp originalHost) "x-forwarded-proto".toList =
      ["https".toList] ∧
    fieldValues (proxyFields req clientIp originalHost) "x-forwarded-host".toList =
      [originalHost] := by
  rw [proxyFields]
  by_cases hhost : originalHost = [] ∨ containsHeader req.headers "host".toList
  · rw [if_pos hhost, if_pos hhost]
    by_cases hbody : req.body = []
    · rw [if_pos hbody]
      exact ⟨rfl, rfl, rfl, rfl, rfl⟩
    · rw [if_neg hbody]
      exact ⟨rfl, rfl, rfl, rfl, rfl⟩
  · rw [if_neg hhost, if_neg hhost]
    by_cases hbody : req.body = []
    · rw [if_pos hbody]
      exact ⟨rfl, rfl, rfl, rfl, rfl⟩
    · rw [if_neg hbody]
      exact ⟨rfl, rfl, rfl, rfl, rfl⟩

/-! ## The claims of a verified token -/

/-- The request that is forwarded for a client whose token was verified: without what a client may
not send, and with the claims behind the rest. -/
def claimsRequest (client : RawRequest) (claims : Str) : RawRequest :=
  { stripUntrustedInbound client with
    headers := (stripUntrustedInbound client).headers ++ [("X-Auth-Claims".toList, claims)] }

variable (client : RawRequest)

theorem fieldValues_strip (name : Str) : fieldValues (stripUntrustedInbound client).headers name =
      if isUntrustedInbound name then [] else fieldValues client.headers name := by
  have hsame : ∀ f ∈ client.headers, eqIgnoreAsciiCase f.1 name = true →
      (!isUntrustedInbound f.1) = !isUntrustedInbound name := by
    intro f _ hf
    rw [isUntrustedInbound, isUntrustedInbound, any_congr hf]
  rw [stripUntrustedInbound, fieldValues_filter hsame]
  cases isUntrustedInbound name <;> rfl

theorem fieldValues_claimsRequest (claims : Str) {name : Str}
    (h : eqIgnoreAsciiCase "x-auth-claims".toList name = false) :
    fieldValues (claimsRequest client claims).headers name =
      if isUntrustedInbound name then [] else fieldValues client.headers name := by
  have hown : fieldValues [("X-Auth-Claims".toList, claims)] name = [] := by
    refine fieldValues_eq_nil fun f hf => ?_
    obtain rfl := List.mem_singleton.mp hf
    rw [eqIgnoreAsciiCase_congr (show eqIgnoreAsciiCase "X-Auth-Claims".toList
      "x-auth-claims".toList = true by decide)]
    exact h
  rw [claimsRequest, fieldValues_append, hown, List.append_nil, fieldValues_strip]

theorem claims_claimsRequest (claims : Str) :
    fieldValues (claimsRequest client claims).headers "x-auth-claims".toList = [claims] := by
  rw [claimsRequest, fieldValues_append, fieldValues_strip, if_pos (by decide)]
  rfl

theorem isNominated_claimsRequest (claims name : Str) :
    isNominated (claimsRequest client claims) name = isNominated client name := by
  have hconn : (claimsRequest client claims).headers.filter
        (fun f => eqIgnoreAsciiCase f.1 "connection".toList) =
      client.headers.filter fun f => eqIgnoreAsciiCase f.1 "connection".toList := by
    have hkeep : ∀ f : Str × Str, eqIgnoreAsciiCase f.1 "connection".toList = true →
        (!isUntrustedInbound f.1) = true := by
      intro f hf
      rw [isUntrustedInbound, any_congr hf]
      decide
    rw [claimsRequest, List.filter_append, stripUntrustedInbound, List.filter_filter]
    refine (List.append_nil _).trans (List.filter_congr fun f _ => ?_)
    cases hf : eqIgnoreAsciiCase f.1 "connection".toList with
    | false => rfl
    | true => rw [hkeep f hf]; rfl
  rw [isNominated, isNominated, connectionNominated, connectionNominated, hconn]

/-! ## On the way out -/

/-- **What the proxy says arrives.** The claims, the forwarded address, scheme and host once each,
as the proxy wrote them, and one host where there is one to name. -/
structure OwnFieldsSurvive (claims clientIp originalHost : Str) (fields : List (Str × Str)) :
    Prop where
  claims : fieldValues fields "x-auth-claims".toList = [claims]
  host : originalHost ≠ [] → (fieldValues fields "host".toList).length = 1
  forwardedFor : fieldValues fields "x-forwarded-for".toList = [clientIp]
  forwardedProto : fieldValues fields "x-forwarded-proto".toList = ["https".toList]
  forwardedHost : fieldValues fields "x-forwarded-host".toList = [originalHost]

theorem fieldValues_forwarded (claims clientIp originalHost : Str) :
    fieldValues (forwardedFields (claimsRequest client claims) clientIp originalHost)
        "x-auth-claims".toList =
      (if isNominated client "x-auth-claims".toList then [] else [claims]) ∧
    fieldValues (forwardedFields (claimsRequest client claims) clientIp originalHost)
        "host".toList =
      (if isNominated client "host".toList then [] else fieldValues client.headers "host".toList) ++
        (if originalHost = [] ∨ containsHeader client.headers "host".toList then []
          else [originalHost]) ∧
    fieldValues (forwardedFields (claimsRequest client claims) clientIp originalHost)
        "x-forwarded-for".toList = [clientIp] ∧
    fieldValues (forwardedFields (claimsRequest client claims) clientIp originalHost)
        "x-forwarded-proto".toList = ["https".toList] ∧
    fieldValues (forwardedFields (claimsRequest client claims) clientIp originalHost)
        "x-forwarded-host".toList = [originalHost] := by
  have hhost : containsHeader (claimsRequest client claims).headers "host".toList =
      containsHeader client.headers "host".toList := by
    rw [Bool.eq_iff_iff, containsHeader_iff, containsHeader_iff,
      fieldValues_claimsRequest client claims (by decide)]
    rfl
  obtain ⟨hclaims, hadded, hfor, hproto, hforhost⟩ :=
    fieldValues_added (claimsRequest client claims) clientIp originalHost
  simp only [forwardedFields, fieldValues_append, fieldValues_isCopied, isNominated_claimsRequest,
    hclaims, hadded, hfor, hproto, hforhost, hhost, claims_claimsRequest]
  refine ⟨?_, ?_, rfl, rfl, rfl⟩
  · rw [List.append_nil]
    rfl
  · rw [fieldValues_claimsRequest client claims (by decide)]
    rfl

theorem host_url (host : Str) (client : RawRequest) (claims clientIp originalHost : Str) :
    fieldValues (urlForwardedFields host (claimsRequest client claims) clientIp originalHost)
        "host".toList =
      host :: (if originalHost = [] ∨ containsHeader (claimsRequest client claims).headers
        "host".toList then [] else [originalHost]) := by
  have hnone : fieldValues ((claimsRequest client claims).headers.filter fun f =>
      isCopied (connectionNominated (claimsRequest client claims).headers) f &&
        !(eqIgnoreAsciiCase f.1 "host".toList)) "host".toList = [] := by
    rw [fieldValues_filter (b := false) fun f _ hf => ?_]
    · rfl
    · rw [hf]
      exact Bool.and_false _
  rw [urlForwardedFields, ← List.singleton_append, fieldValues_append, fieldValues_append, hnone,
    (fieldValues_added _ _ _).2.1]
  rfl

def HostStands (client : RawRequest) : Prop :=
  fieldValues client.headers "host".toList = [] ∨
    (fieldValues client.headers "host".toList).length = 1 ∧
      isNominated client "host".toList = false

theorem host_length_iff {client : RawRequest} {originalHost : Str} (h : originalHost ≠ []) :
    ((if isNominated client "host".toList then [] else fieldValues client.headers "host".toList) ++
        (if originalHost = [] ∨ containsHeader client.headers "host".toList then []
          else [originalHost])).length = 1 ↔ HostStands client := by
  rw [HostStands]
  by_cases hhost : fieldValues client.headers "host".toList = []
  · have hno : ¬ (originalHost = [] ∨ containsHeader client.headers "host".toList = true) := by
      rw [containsHeader_iff]
      exact fun hor => hor.elim h fun hne => hne hhost
    rw [if_neg hno, hhost, ite_self]
    exact iff_of_true rfl (Or.inl rfl)
  · have hyes : originalHost = [] ∨ containsHeader client.headers "host".toList = true :=
      Or.inr ((containsHeader_iff _ _).mpr hhost)
    rw [if_pos hyes, List.append_nil, or_iff_right hhost]
    cases isNominated client "host".toList with
    | false => exact (and_iff_left rfl).symm
    | true => exact iff_of_false (fun hlen => nomatch hlen) fun hboth => nomatch hboth.2

/-- **What the proxy says on its own account.** Whatever the fields of the client and whatever the
claims, what the proxy writes survives on the way to a unix socket if and only if the request is
refused, or the client nominates neither the field of the claims, nor the one host it names. On the
way to an http or https URL the field of the claims must not be nominated either, and the client
must have named a host: for one that did not, the upstream's is written, and the client's after
it. -/
theorem ownFieldsSurvive_iff (host : Str) (client : RawRequest)
    (claims clientIp originalHost : Str) :
    ((∀ fields, written .unixSocket host (claimsRequest client claims) clientIp originalHost =
          some fields → OwnFieldsSurvive claims clientIp originalHost fields) ↔
        (checkForwardable (claimsRequest client claims) clientIp originalHost = true →
          isNominated client "x-auth-claims".toList = false ∧
            (originalHost ≠ [] → HostStands client))) ∧
      ((∀ fields, written .url host (claimsRequest client claims) clientIp originalHost =
          some fields → OwnFieldsSurvive claims clientIp originalHost fields) ↔
        (checkForwardable (claimsRequest client claims) clientIp originalHost = true →
          isNominated client "x-auth-claims".toList = false ∧
            (originalHost ≠ [] → fieldValues client.headers "host".toList ≠ []))) := by
  obtain ⟨hclaims, hhost, hfor, hproto, hforhost⟩ :=
    fieldValues_forwarded client claims clientIp originalHost
  have hsurvives : (if isNominated client "x-auth-claims".toList then [] else [claims]) =
      [claims] ↔ isNominated client "x-auth-claims".toList = false := by
    cases isNominated client "x-auth-claims".toList <;> simp
  rw [written, written]
  cases checkForwardable (claimsRequest client claims) clientIp originalHost with
  | false => simp
  | true =>
    simp only [if_true, Option.some.injEq, forall_eq', true_implies]
    constructor
    · constructor
      · intro h
        have hc := h.claims
        rw [hclaims] at hc
        refine ⟨hsurvives.mp hc, fun hne => ?_⟩
        have hh := h.host hne
        rw [hhost] at hh
        exact (host_length_iff hne).mp hh
      · rintro ⟨hc, hh⟩
        refine ⟨hclaims.trans (hsurvives.mpr hc), fun hne => ?_, hfor, hproto, hforhost⟩
        rw [hhost]
        exact (host_length_iff hne).mpr (hh hne)
    · have hcontains : containsHeader (claimsRequest client claims).headers "host".toList = true ↔
          fieldValues client.headers "host".toList ≠ [] := by
        rw [containsHeader_iff, fieldValues_claimsRequest client claims (by decide)]
        rfl
      constructor
      · intro h
        have hc := h.claims
        rw [fieldValues_url _ _ _ _ (by decide), hclaims] at hc
        refine ⟨hsurvives.mp hc, fun hne => ?_⟩
        have hh := h.host hne
        rw [host_url] at hh
        by_contra hno
        rw [if_neg (not_or.mpr ⟨hne, fun hyes => hcontains.mp hyes hno⟩)] at hh
        exact nomatch hh
      · rintro ⟨hc, hh⟩
        refine ⟨?_, fun hne => ?_, ?_, ?_, ?_⟩
        · rw [fieldValues_url _ _ _ _ (by decide)]
          exact hclaims.trans (hsurvives.mpr hc)
        · rw [host_url, if_pos (Or.inr (hcontains.mpr (hh hne)))]
          rfl
        · rw [fieldValues_url _ _ _ _ (by decide), hfor]
        · rw [fieldValues_url _ _ _ _ (by decide), hproto]
        · rw [fieldValues_url _ _ _ _ (by decide), hforhost]

/-- A client with a token that nominates the field it never sent. -/
def disownedRequest : RawRequest where
  method := "GET".toList
  path := "/members".toList
  query := none
  version := "HTTP/1.1".toList
  headers := [("Host".toList, "site.test".toList), ("Connection".toList, "x-auth-claims".toList)]
  body := []

theorem disowned_claims_lost :
    ∃ fields, written .unixSocket [] (claimsRequest disownedRequest "e30=".toList)
        "203.0.113.7".toList "site.test".toList = some fields ∧
      fieldValues fields "x-auth-claims".toList = [] ∧
      ¬ OwnFieldsSurvive "e30=".toList "203.0.113.7".toList "site.test".toList fields := by
  have hnone : fieldValues (forwardedFields (claimsRequest disownedRequest "e30=".toList)
      "203.0.113.7".toList "site.test".toList) "x-auth-claims".toList = [] := by decide
  refine ⟨_, by rw [written, if_pos (by decide)], hnone, fun h => ?_⟩
  exact nomatch hnone.symm.trans h.claims

end M6
