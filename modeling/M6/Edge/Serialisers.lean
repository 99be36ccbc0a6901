import M6.Edge.H2Server
import M6.Edge.H3Delivery
import M6.Edge.ResponseFraming

/-!
# One response on three protocols

`build_response`, `encode_response_headers` and `send_h3_response` write the fields of a response
for
HTTP/1.1, HTTP/2 and HTTP/3. Each of them deals with the `content-length` of the response in its own
way: the first takes the length of a `HEAD` from a backend that framed it, the second has the body
only, and the third keeps what the backend said where it sends no body.

`saysOneLength_iff` says of which responses the three say one length.
-/

namespace M6

open List

namespace Serialisers

open Text
open ResponseReader (isLength)

/-! ## The security headers -/

inductive CspMode where
  | enforce
  | reportOnly
  | off
  deriving DecidableEq

structure SecurityConfig where
  hsts : Str
  xContentTypeOptions : Str
  xFrameOptions : Str
  referrerPolicy : Str
  permissionsPolicy : Str
  crossOriginOpenerPolicy : Str
  crossOriginResourcePolicy : Str
  contentSecurityPolicy : Str
  cspMode : CspMode

def cspHeaderName : CspMode → Str
  | .enforce => "content-security-policy".toList
  | .reportOnly => "content-security-policy-report-only".toList
  | .off => []

def SecurityConfig.resolvedHeaders (c : SecurityConfig) : List (Str × Str) :=
  [("strict-transport-security".toList, c.hsts),
    ("x-content-type-options".toList, c.xContentTypeOptions),
    ("x-frame-options".toList, c.xFrameOptions), ("referrer-policy".toList, c.referrerPolicy),
    ("permissions-policy".toList, c.permissionsPolicy),
    ("cross-origin-opener-policy".toList, c.crossOriginOpenerPolicy),
    ("cross-origin-resource-policy".toList, c.crossOriginResourcePolicy),
    (cspHeaderName c.cspMode, c.contentSecurityPolicy)].filter fun p => p.1 ≠ [] ∧ p.2 ≠ []

theorem isLength_resolvedHeaders {c : SecurityConfig} {p : Str × Str}
    (h : p ∈ c.resolvedHeaders) : isLength p.1 = false := by
  have hmem := (mem_filter.mp h).1
  simp only [mem_cons, not_mem_nil, or_false] at hmem
  rcases hmem with rfl | rfl | rfl | rfl | rfl | rfl | rfl | rfl
  · rfl
  · rfl
  · rfl
  · rfl
  · rfl
  · rfl
  · rfl
  · cases c.cspMode <;> rfl

/-! ## The three serialisers -/

/-- What the serialisers are given besides the response. -/
structure Setting where
  config : SecurityConfig
  libs : Http2.Libs
  /-- no ASCII letter is a capital after `str::to_lowercase` -/
  lowercase : ∀ s, toAsciiLowercase (libs.toLowercase s) = libs.toLowercase s

/-- A response of the edge, and the method of its request. -/
structure Reply where
  status : Nat
  headers : List (Str × Str)
  body : Bytes
  method : Str

inductive Protocol where
  | http1 (keepAlive : Bool)
  | http2
  | http3

def Reply.isHead (r : Reply) : Bool := eqIgnoreAsciiCase r.method "HEAD".toList

def rawBytes (f : Str × Str) : RawField := (Utf8.encode f.1, Utf8.encode f.2)

/-- `absent_from`: the security headers that a response lacks. -/
def Setting.absentFrom (s : Setting) (existing : List (Str × Str)) : List (Str × Str) :=
  s.config.resolvedHeaders.filter fun h => !containsHeader existing h.1

def fieldsOn (s : Setting) (r : Reply) : Protocol → List RawField
  | .http1 keepAlive =>
    (ResponseFraming.responseFields s.config.resolvedHeaders r.status r.headers r.body r.method
      keepAlive).map rawBytes
  | .http2 =>
    Http2.Conn.responseFields { s.libs with security := s.config.resolvedHeaders }
      r.status r.headers
      r.body.length
  | .http3 =>
    ({ status := r.status, headers := r.headers, body := r.body, isHead := r.isHead } :
      H3Response).sentHeaders s.absentFrom

/-! ## Lengths -/

def isRawLength (f : RawField) : Bool := (Utf8.fromUtf8? f.1).any isLength

def lengthsOf (fs : List RawField) : List Bytes := (fs.filter isRawLength).map Prod.snd

def Reply.ownLengths (r : Reply) : List Str :=
  (r.headers.filter fun f => isLength f.1).map Prod.snd

theorem lengthsOf_append (fs gs : List RawField) :
    lengthsOf (fs ++ gs) = lengthsOf fs ++ lengthsOf gs := by
  rw [lengthsOf, filter_append, map_append]
  rfl

theorem isRawLength_rawBytes (f : Str × Str) : isRawLength (rawBytes f) = isLength f.1 := by
  rw [isRawLength, rawBytes, Utf8.fromUtf8?_encode, Option.any_some]

theorem lengthsOf_map (fs : List (Str × Str)) : lengthsOf (fs.map rawBytes) =
      (fs.filter fun f => isLength f.1).map fun f => Utf8.encode f.2 := by
  rw [lengthsOf, filter_map, map_map]
  congr 1
  refine filter_congr fun f _ => ?_
  exact isRawLength_rawBytes f

theorem lengthsOf_map_eq_nil {fs : List (Str × Str)} (h : ∀ f ∈ fs, isLength f.1 = false) :
    lengthsOf (fs.map rawBytes) = [] := by
  rw [lengthsOf_map, map_eq_nil_iff, filter_eq_nil_iff]
  intro f hf
  rw [h f hf]
  exact Bool.false_ne_true

def saidFor (status n : Nat) : List Bytes :=
  if statusMayHaveContentLength status then [Utf8.encode (decimal n)] else []

theorem length_saidFor_le (status n : Nat) : (saidFor status n).length ≤ 1 := by
  rw [saidFor]
  split_ifs
  · exact Nat.le_refl 1
  · exact Nat.zero_le 1

variable (s : Setting) (r : Reply)

theorem absentFrom_plain {f : Str × Str} (h : f ∈ s.absentFrom r.headers) : isLength f.1 = false :=
  isLength_resolvedHeaders (mem_filter.mp h).1

theorem lengths_http1 (keepAlive : Bool) : lengthsOf (fieldsOn s r (.http1 keepAlive)) =
      saidFor r.status (ResponseFraming.saidLength r.headers r.body r.method) := by
  have hkept : lengthsOf ((r.headers.filter fun h =>
      !(eqIgnoreAsciiCase h.1 "content-length".toList ||
        eqIgnoreAsciiCase h.1 "connection".toList)).map rawBytes) = [] := by
    refine lengthsOf_map_eq_nil fun f hf => ?_
    have hdropped := (mem_filter.mp hf).2
    rw [Bool.not_eq_true', Bool.or_eq_false_iff] at hdropped
    exact hdropped.1
  have hsecurity : lengthsOf ((s.config.resolvedHeaders.filter fun h =>
      !containsHeader r.headers h.1).map rawBytes) = [] :=
    lengthsOf_map_eq_nil fun f hf => absentFrom_plain s r hf
  have hconnection : ∀ v, lengthsOf ([("connection".toList, v)].map rawBytes) = [] := fun v =>
    lengthsOf_map_eq_nil fun f hf => by
      rw [mem_singleton.mp hf]
      rfl
  rw [fieldsOn, ResponseFraming.responseFields, map_append, map_append, map_append,
    lengthsOf_append, lengthsOf_append, lengthsOf_append, hkept, hsecurity, hconnection,
    append_nil, saidFor]
  split_ifs
  · rfl
  · rfl

theorem isLength_toLowercase {name : Str} (h : isLength (s.libs.toLowercase name) = true) :
    s.libs.toLowercase name = "content-length".toList := by
  rw [isLength, eqIgnoreAsciiCase, s.lowercase, beq_iff_eq] at h
  exact h.trans (by decide)

theorem lengths_http2 : lengthsOf (fieldsOn s r .http2) = saidFor r.status r.body.length := by
  have hstatus : ∀ digits, lengthsOf [(lit ":status", digits)] = [] := fun _ => rfl
  rw [fieldsOn, Http2.Conn.responseFields]
  dsimp only
  generalize hfiltered : (r.headers.filter fun h => !(["connection".toList,
    "transfer-encoding".toList, "keep-alive".toList, "content-length".toList].contains
      (s.libs.toLowercase h.1))).map (fun h => (s.libs.toLowercase h.1, h.2)) = filtered
  have hkept : lengthsOf (filtered.map rawBytes) = [] := by
    refine lengthsOf_map_eq_nil fun f hf => ?_
    rw [← hfiltered] at hf
    obtain ⟨h, hh, rfl⟩ := mem_map.mp hf
    have hdropped := (mem_filter.mp hh).2
    refine Bool.eq_false_iff.mpr fun hlength => ?_
    rw [isLength_toLowercase s hlength] at hdropped
    exact absurd hdropped (by decide)
  have hsecurity : lengthsOf ((s.config.resolvedHeaders.filter fun h =>
      !containsHeader filtered h.1).map rawBytes) = [] :=
    lengthsOf_map_eq_nil fun f hf => isLength_resolvedHeaders (mem_filter.mp hf).1
  change lengthsOf (_ ++ _ ++ filtered.map rawBytes ++ List.map rawBytes _) = _
  rw [lengthsOf_append, lengthsOf_append, lengthsOf_append, hstatus, hkept, hsecurity,
    append_nil, append_nil, nil_append, saidFor]
  split_ifs
  · rfl
  · rfl

theorem lengths_http3 : lengthsOf (fieldsOn s r .http3) =
    if r.isHead = false ∧ r.body ≠ [] then []
    else r.ownLengths.map Utf8.encode ++ saidFor r.status r.body.length := by
  have hstatus : ∀ digits, lengthsOf [(lit ":status", digits)] = [] := fun _ => rfl
  have hsecurity : lengthsOf ((s.absentFrom r.headers).map rawBytes) = [] :=
    lengthsOf_map_eq_nil fun f hf => absentFrom_plain s r hf
  have hsent : (r.isHead = false ∧ r.body ≠ []) ↔
      ({ status := r.status, headers := r.headers, body := r.body, isHead := r.isHead } :
        H3Response).sentBody ≠ [] := by
    rw [H3Response.sentBody]
    cases r.isHead <;> simp
  rw [fieldsOn, H3Response.sentHeaders, if_congr hsent rfl rfl]
  dsimp only
  rw [lengthsOf_append, lengthsOf_append, lengthsOf_append]
  change lengthsOf [_] ++ lengthsOf ((s.absentFrom r.headers).map rawBytes) ++
    lengthsOf (List.map rawBytes _) ++ _ = _
  rw [hstatus, hsecurity, nil_append, nil_append]
  generalize ({ status := r.status, headers := r.headers, body := r.body, isHead := r.isHead } :
    H3Response).sentBody = sent
  by_cases hnil : sent = []
  · rw [if_neg (not_not_intro hnil)]
    have hall : (r.headers.filter fun f =>
        !(decide (sent ≠ []) && eqIgnoreAsciiCase f.1 "content-length".toList)) = r.headers :=
      filter_eq_self.mpr fun f _ => by simp [hnil]
    rw [hall, lengthsOf_map, Reply.ownLengths, map_map, saidFor]
    simp only [hnil, true_and]
    split_ifs
    · rfl
    · rfl
  · rw [if_pos hnil, if_neg fun h => hnil h.1]
    refine (append_nil _).trans (lengthsOf_map_eq_nil fun f hf => ?_)
    simpa [hnil, isLength] using (mem_filter.mp hf).2

/-! ## One length -/

/-- The length of what the matching `GET` has: that of the body, or what a backend said that framed
the `HEAD` itself. -/
def Reply.representationLength (r : Reply) : Nat :=
  if r.body = [] then
    (((header r.headers "content-length".toList).map trim).bind parseUsize).getD 0
  else r.body.length

/-- **The three say one length**: each at most one, and for a `HEAD` all the same, which is that of
what the `GET` has. -/
structure SaysOneLength : Prop where
  atMostOne : ∀ p, (lengthsOf (fieldsOn s r p)).length ≤ 1
  same : r.isHead = true → ∀ p q, lengthsOf (fieldsOn s r p) = lengthsOf (fieldsOn s r q)
  right : r.isHead = true → ∀ p, ∀ v ∈ lengthsOf (fieldsOn s r p),
    v = Utf8.encode (decimal r.representationLength)

/-- The backend has said no length where that would be sent beside the edge's own. -/
structure SaysNone : Prop where
  head : r.isHead = true → r.ownLengths = []
  empty : r.isHead = false → r.body = [] →
    r.ownLengths.length + (saidFor r.status 0).length ≤ 1

variable {r}

theorem header_of_ownLengths (h : r.ownLengths = []) :
    header r.headers "content-length".toList = none := by
  rw [Reply.ownLengths, map_eq_nil_iff, filter_eq_nil_iff] at h
  rw [header, Option.map_eq_none_iff, find?_eq_none]
  exact h

/-- Where the backend said nothing, a `HEAD` has the length of its body. -/
theorem representationLength_of_none (h : r.ownLengths = []) :
    r.representationLength = r.body.length := by
  rw [Reply.representationLength, header_of_ownLengths h]
  split_ifs with hnil
  · rw [hnil]
    rfl
  · rfl

theorem saidLength_of_none (h : r.ownLengths = []) :
    ResponseFraming.saidLength r.headers r.body r.method = r.body.length := by
  rw [ResponseFraming.saidLength, header_of_ownLengths h]
  split_ifs with hnil
  · rw [Bool.and_eq_true, List.isEmpty_iff] at hnil
    rw [hnil.2]
    rfl
  · rfl

theorem length_saidFor (status m n : Nat) :
    (saidFor status m).length = (saidFor status n).length := by
  rw [saidFor, saidFor]
  split_ifs
  · rfl
  · rfl

variable (r)

/-- **The three protocols say one length** if and only if the backend said none: for a `HEAD`, or
for a response without a body that has a length of the edge's own. -/
theorem saysOneLength_iff : SaysOneLength s r ↔ SaysNone r := by
  constructor
  · intro h
    refine ⟨fun hhead => ?_, fun hhead hbody => ?_⟩
    · -- HTTP/3 says no more than HTTP/2 does
      have hsame := h.same hhead .http3 .http2
      rw [lengths_http2, lengths_http3, if_neg (by simp [hhead])] at hsame
      exact map_eq_nil_iff.mp (append_left_eq_self.mp hsame)
    · have hone := h.atMostOne .http3
      rw [lengths_http3, if_neg (by simp [hbody]), length_append, length_map,
        length_saidFor _ _ 0] at hone
      exact hone
  · intro h
    have hlengths : r.isHead = true → ∀ p,
        lengthsOf (fieldsOn s r p) = saidFor r.status r.body.length := by
      intro hhead p
      have hnone := h.head hhead
      cases p with
      | http1 keepAlive => rw [lengths_http1, saidLength_of_none hnone]
      | http2 => exact lengths_http2 s r
      | http3 => rw [lengths_http3, if_neg (by simp [hhead]), hnone, map_nil, nil_append]
    refine ⟨fun p => ?_, fun hhead p q => (hlengths hhead p).trans (hlengths hhead q).symm,
      fun hhead p v hv => ?_⟩
    · cases p with
      | http1 keepAlive =>
        rw [lengths_http1]
        exact length_saidFor_le _ _
      | http2 =>
        rw [lengths_http2]
        exact length_saidFor_le _ _
      | http3 =>
        rw [lengths_http3]
        split_ifs with hsent
        · exact Nat.zero_le 1
        · rw [length_append, length_map]
          cases hhead : r.isHead with
          | true =>
            rw [h.head hhead, length_nil, Nat.zero_add]
            exact length_saidFor_le _ _
          | false =>
            rw [length_saidFor _ _ 0]
            exact h.empty hhead (not_not.mp fun hbody => hsent ⟨hhead, hbody⟩)
    · rw [hlengths hhead p, saidFor] at hv
      rw [representationLength_of_none (h.head hhead)]
      split_ifs at hv
      · exact mem_singleton.mp hv
      · cases hv

theorem toLower_toLower (c : Char) : c.toLower.toLower = c.toLower := by
  have hsmall : ¬ (c.toLower.val ≥ 'A'.val ∧ c.toLower.val ≤ 'Z'.val) := by
    by_cases hc : c.val ≥ 'A'.val ∧ c.val ≤ 'Z'.val
    · have hval : c.toLower.val = c.val + ('a'.val - 'A'.val) := by
        rw [show c.toLower = _ from dif_pos hc]
      rw [hval]
      grind [UInt32.toNat_add, UInt32.le_iff_toNat_le]
    · rw [show c.toLower = c from dif_neg hc]
      exact hc
  exact dif_neg hsmall

def plainSetting : Setting where
  config := ⟨[], [], [], [], [], [], [], [], .off⟩
  libs := ⟨fun _ _ => none, fun _ _ => [], toAsciiLowercase, []⟩
  lowercase s := by
    change (s.map Char.toLower).map Char.toLower = s.map Char.toLower
    rw [List.map_map]
    exact List.map_congr_left fun c _ => toLower_toLower c

/-- A `HEAD` that the backend framed itself. -/
def framedHead : Reply :=
  ⟨200, [("Content-Length".toList, "16580".toList)], [], "HEAD".toList⟩

theorem framed_head_differs : ¬ ∀ (s : Setting) (r : Reply), SaysOneLength s r := by
  intro h
  have hsame := (h plainSetting framedHead).same rfl (.http1 true) .http2
  rw [lengths_http1, lengths_http2] at hsame
  exact absurd hsame (by decide)

end Serialisers

end M6
