import M6.Edge.Gate
import M6.Core.Head

/-!
# Requests from HTTP/2 and HTTP/3

Both protocols deliver a request as a list of fields, names and values as bytes, and a
body. `fields.rs` validates the list for both; what is built from it is written twice:
`build_request` for HTTP/2, which reads the fields as text with replacement characters
and turns `:authority` into a `Host`, and the second phase of `handle_h3_request`,
which drops what is not UTF-8.
-/

namespace M6

abbrev RawField : Type := Bytes × Bytes

def lit (s : String) : Bytes := Utf8.encode s.toList

/-! ## Validation -/

def connectionSpecific : List Bytes :=
  [lit "connection", lit "keep-alive", lit "proxy-connection", lit "transfer-encoding",
    lit "upgrade"]

structure FieldScan where
  seenRegular : Bool
  method : Nat
  scheme : Nat
  path : Nat
  authority : Nat
  pathValue : Option Bytes
  methodValue : Option Bytes
  schemeValue : Option Bytes
  seenHost : Bool
  deriving DecidableEq

def FieldScan.start : FieldScan := ⟨false, 0, 0, 0, 0, none, none, none, false⟩

def isUpper (b : UInt8) : Bool := 0x41 ≤ b.toNat && b.toNat ≤ 0x5a

def scanField (s : FieldScan) (f : RawField) : Except Str FieldScan :=
  if f.1 = [] then .error "empty field name".toList
  else if f.1.any isUpper then .error "uppercase field name".toList
  else if f.1.head? = some 0x3a then
    if s.seenRegular then .error "pseudo-header after regular field".toList
    else if f.1 = lit ":method" then
      .ok { s with method := s.method + 1, methodValue := some f.2 }
    else if f.1 = lit ":scheme" then
      .ok { s with scheme := s.scheme + 1, schemeValue := some f.2 }
    else if f.1 = lit ":path" then .ok { s with path := s.path + 1, pathValue := some f.2 }
    else if f.1 = lit ":authority" then .ok { s with authority := s.authority + 1 }
    else if f.1 = lit ":status" then .error "response pseudo-header in request".toList
    else .error "unknown pseudo-header".toList
  else if connectionSpecific.contains f.1 then .error "connection-specific header field".toList
  else if f.1 = lit "te" ∧ f.2 ≠ lit "trailers" then
    .error "TE header with a value other than trailers".toList
  else .ok { s with seenRegular := true, seenHost := s.seenHost || f.1 == lit "host" }

def finishScan (s : FieldScan) : Except Str Unit :=
  if s.method > 1 ∨ s.scheme > 1 ∨ s.path > 1 ∨ s.authority > 1 then
    .error "duplicate pseudo-header".toList
  else if s.methodValue = some (lit "CONNECT") then
    if s.scheme ≠ 0 ∨ s.path ≠ 0 then .error "CONNECT with :scheme or :path".toList
    else if s.authority = 0 then .error "CONNECT without :authority".toList
    else .ok ()
  else if s.method = 0 then .error "missing :method".toList
  else if s.scheme = 0 then .error "missing :scheme".toList
  else if s.path = 0 then .error "missing :path".toList
  else if s.pathValue = some [] then .error "empty :path".toList
  else if s.pathValue = some (lit "*") ∧ s.methodValue ≠ some (lit "OPTIONS") then
    .error "asterisk :path on non-OPTIONS".toList
  else if (s.schemeValue = some (lit "http") ∨ s.schemeValue = some (lit "https")) ∧
      s.authority = 0 ∧ !s.seenHost then
    .error "neither :authority nor Host".toList
  else .ok ()

def validateRequestHeaderBytes (headers : List RawField) : Except Str Unit :=
  (headers.foldlM scanField .start) >>= finishScan

/-! ## HTTP/2 -/

def decodeHpack (block : List RawField) : List (Str × Str) :=
  block.map fun f => (Utf8.decodeLossy f.1, Utf8.decodeLossy f.2)

def validateRequestHeaders (headers : List (Str × Str)) : Except Str Unit :=
  validateRequestHeaderBytes (headers.map fun f => (Utf8.encode f.1, Utf8.encode f.2))

def untrustedInbound : List Str :=
  ["x-auth-claims".toList, "x-forwarded-for".toList, "x-forwarded-proto".toList,
    "x-forwarded-host".toList, "x-real-ip".toList]

/-- Whether a client may not send a field. -/
def isUntrustedInbound (name : Str) : Bool :=
  untrustedInbound.any fun h => Text.eqIgnoreAsciiCase name h

/-- A request that is being built. -/
structure Building where
  method : Str
  path : Str
  query : Option Str
  fwd : List (Str × Str)
  authority : Option Str
  forwardedFor : Option Str

def buildStep (b : Building) (f : Str × Str) : Building :=
  if f.1 = ":method".toList then { b with method := f.2 }
  else if f.1 = ":path".toList then
    match Text.cutAt '?' f.2 with
    | (path, some query) => { b with path := path, query := some query }
    | (_, none) => { b with path := f.2 }
  else if f.1 = ":authority".toList then { b with authority := some f.2 }
  else if f.1.head? = some ':' then b
  else if isUntrustedInbound f.1 then
    if Text.eqIgnoreAsciiCase f.1 "x-forwarded-for".toList then
      { b with forwardedFor := some f.2 }
    else b
  else { b with fwd := b.fwd ++ [f] }

/-- The fields with a `Host`, where there is an authority and no `Host` yet. -/
def withHost (authority : Option Str) (fwd : List (Str × Str)) : List (Str × Str) :=
  match authority with
  | some authority =>
    if !containsHeader fwd "host".toList then fwd ++ [("Host".toList, authority)] else fwd
  | none => fwd

/-- The request of a field list, and the `x-forwarded-for` it carried. -/
def buildRequest (headers : List (Str × Str)) (body : Bytes) : RawRequest × Option Str :=
  let b := headers.foldl buildStep ⟨[], [], none, [], none, none⟩
  (⟨b.method, b.path, b.query, "HTTP/2".toList, withHost b.authority b.fwd, body⟩, b.forwardedFor)

/-- The fields that an HTTP/2 request keeps. -/
def isRegular (f : Str × Str) : Bool := f.1.head? ≠ some ':' && !isUntrustedInbound f.1

theorem buildStep_regular (b : Building) {f : Str × Str} (h : isRegular f = true) :
    buildStep b f = { b with fwd := b.fwd ++ [f] } := by
  obtain ⟨hhead, huntrusted⟩ : f.1.head? ≠ some ':' ∧ isUntrustedInbound f.1 = false := by
    simpa [isRegular] using h
  have hne : ∀ name : Str, name.head? = some ':' → f.1 ≠ name := by
    rintro name hname rfl
    exact hhead hname
  rw [buildStep, if_neg (hne _ rfl), if_neg (hne _ rfl), if_neg (hne _ rfl), if_neg hhead,
    huntrusted, if_neg Bool.false_ne_true]

theorem fwd_buildStep (b : Building) {f : Str × Str} (h : isRegular f = false) :
    (buildStep b f).fwd = b.fwd := by
  simp only [buildStep]
  split_ifs with hmethod hpath hauthority hhead huntrusted hfor
  · rfl
  · rcases Text.cutAt '?' f.2 with ⟨path, _ | query⟩ <;> rfl
  · rfl
  · rfl
  · rfl
  · rfl
  · simp [isRegular, hhead, huntrusted] at h

theorem fwd_foldl (l : List (Str × Str)) (b : Building) :
    (l.foldl buildStep b).fwd = b.fwd ++ l.filter isRegular := by
  induction l generalizing b with
  | nil => simp
  | cons f l ih =>
    rw [List.foldl_cons, ih]
    by_cases h : isRegular f = true
    · rw [buildStep_regular b h, List.filter_cons_of_pos h]
      simp
    · rw [fwd_buildStep b (by simpa using h), List.filter_cons_of_neg h]

def isHeadersonly (headers : List (Str × Str)) : Bool :=
  match headers.find? fun f => f.1 = ":method".toList with
  | some f => ["GET".toList, "HEAD".toList, "DELETE".toList, "OPTIONS".toList,
      "CONNECT".toList].contains f.2
  | none => false

/-! ## HTTP/3 -/

structure H3Scan where
  path : Bytes
  query : Option Bytes
  method : Bytes
  deriving DecidableEq

/-- The bytes before and after the first question mark. -/
def cutQuery (v : Bytes) : Bytes × Option Bytes :=
  match v.dropWhile fun b => b ≠ 0x3f with
  | [] => (v, none)
  | _ :: query => (v.takeWhile fun b => b ≠ 0x3f, some query)

def h3ScanStep (s : H3Scan) (f : RawField) : H3Scan :=
  if f.1 = lit ":path" then
    match cutQuery f.2 with
    | (path, some query) => { s with path := path, query := some query }
    | (_, none) => { s with path := f.2 }
  else if f.1 = lit ":method" then { s with method := f.2 }
  else s

/-- The defaults of the scan are those of a plain request for the root. -/
def h3Scan (headers : List RawField) : H3Scan :=
  headers.foldl h3ScanStep ⟨lit "/", none, lit "GET"⟩

def h3Field (f : RawField) : Option (Str × Str) :=
  if f.1.head? = some 0x3a then none
  else (Utf8.fromUtf8? f.1).bind fun k => (Utf8.fromUtf8? f.2).bind fun v =>
    if isUntrustedInbound k then none else some (k, v)

def h3Request (headers : List RawField) (body : Bytes) : RawRequest :=
  let s := h3Scan headers
  { method := (Utf8.fromUtf8? s.method).getD "GET".toList
    path := (Utf8.fromUtf8? s.path).getD "/".toList
    query := s.query.bind Utf8.fromUtf8?
    version := "HTTP/3".toList
    headers := headers.filterMap h3Field
    body := body }

end M6
