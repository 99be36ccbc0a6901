import M6.File.Tail
import M6.Edge.Replay

/-!
# Serving a static file

`serve` of the file server's `handler.rs` with `choose_encoding` of its `compress.rs`. What the file
system gives at the path is a `Lookup`, and the libraries and tables are fields of `Library`.

A `HEAD` is to be answered as the `GET` would be. Where the file itself is what is sent
(`SendsFile`) it is not opened for a `HEAD`, so the two differ when it cannot be: `mirrors_iff`.
-/

namespace M6.FileServer

open M6.App

/-! ## The parts of the request -/

/-- What `std::fs::metadata` says: the time in nanoseconds since the epoch. -/
structure Metadata where
  modified : Nat
  len : Nat
  isFile : Bool

/-- What the file system gives at the path of a request. -/
structure Lookup where
  /-- a symbolic link out of the site, or none that can be followed -/
  escapes : Bool
  metadata : Option Metadata
  opened : Option (List ReadResult)
  /-- `std::fs::read` -/
  data : Option Bytes
  /-- what the file holds, and what becomes of it, when its end is asked for -/
  content : Bytes
  access : Access

/-- The libraries, and the tables of `mime.rs`. -/
structure Library where
  transforms : Transforms
  date : HttpDate
  mimeFromPath : Str → Str
  shouldCompressDefault : Str → Bool
  /-- the quality of a coding, an `f32` above 0 by its bits, which are ordered as it is -/
  codingQuality : Str → Str → Option Nat

inductive Encoding where
  | brotli
  | gzip
  | identity
  deriving DecidableEq

def levelOf (n : Nat) : Option Nat := if 0 < n then some n else none

/-- `choose_encoding`: the coding that the client rates highest, brotli before gzip, with its
level. -/
def chooseEncoding (lib : Library) (mime acceptEncoding : Str)
    (compression : SortedMap Str CompressionLevel) : Encoding × Option Nat :=
  let mimeBase := Text.trim ((mime.splitOn ';').headD mime)
  let levels : Option Nat × Option Nat :=
    match compression.get? mimeBase with
    | some settings => (levelOf settings.brotli, levelOf settings.gzip)
    | none => if lib.shouldCompressDefault mimeBase then (some 6, some 6) else (none, none)
  let consider (best : Option (Encoding × Nat × Nat)) (candidate : Encoding × Option Nat × Str) :=
    match candidate.2.1, lib.codingQuality acceptEncoding candidate.2.2 with
    | some level, some q =>
      if best.all fun b => b.2.2 < q then some (candidate.1, level, q) else best
    | _, _ => best
  match [(Encoding.brotli, levels.1, "br".toList), (.gzip, levels.2, "gzip".toList)].foldl
      consider none with
  | some (encoding, level, _) => (encoding, some level)
  | none => (.identity, none)

def cacheControlFor (query : Str) : Str :=
  if (query.splitOn '&').any fun p => "v=".toList.isPrefixOf p && 2 < p.length then
    "public, max-age=31536000, immutable".toList
  else "public, max-age=60, s-maxage=86400, stale-while-revalidate=60".toList

def etagSuffix : Encoding → Str
  | .identity => []
  | .brotli => "-br".toList
  | .gzip => "-gz".toList

/-- The entity tag: the second of the time, the size, and the coding. -/
def etagText (m : Metadata) (suffix : Str) : Str :=
  '"' :: Nat.toDigits 16 (m.modified / second) ++ '-' :: Nat.toDigits 16 m.len ++ suffix ++ ['"']

def minifyAs (lib : Transforms) (mimeBase : Str) (inlineJs : Bool) (data : Bytes) : Bytes :=
  if mimeBase = "text/html".toList then lib.minifyHtml data inlineJs
  else if mimeBase = "text/css".toList then lib.minifyCss data
  else if mimeBase = "application/json".toList then lib.minifyJson data
  else if mimeBase = "application/javascript".toList ∨ mimeBase = "text/javascript".toList then
    lib.minifyJs data
  else data

/-! ## One request -/

/-- What is settled about a request before the file is read. -/
structure Plan where
  mime : Str
  encoding : Encoding
  level : Option Nat
  /-- whether the config minifies the type -/
  minifyThis : Bool
  inlineJs : Bool
  cacheControl : Str
  lastModified : Str

section

variable (lib : Library) (config : Option RendererConfig) (tail : Bool) (raw : RawRequest)
  (fsPath : Str) (fs : Lookup)

def planOf (m : Metadata) : Plan :=
  let mime := lib.mimeFromPath fsPath
  let mimeBase := (mime.splitOn ';').headD mime
  let chosen := chooseEncoding lib mime ((raw.header "accept-encoding".toList).getD [])
    ((config.map RendererConfig.compression).getD .empty)
  { mime := mime
    encoding := chosen.1
    level := chosen.2
    minifyThis := (config.bind fun c => c.minification.enabled.get? mimeBase).getD false
    inlineJs := (config.map fun c => c.minification.inlineJs).getD false
    cacheControl := cacheControlFor raw.queryText
    lastModified := lib.date.fmt (m.modified / second) }

def preconditionOf (plan : Plan) (m : Metadata) : Precondition :=
  evaluatePreconditions lib.date
    [("ETag".toList, etagText m (etagSuffix plan.encoding)),
      ("Last-Modified".toList, plan.lastModified)]
    raw.headers raw.method

def Plan.validatorHeaders (plan : Plan) (etag : Str) : List (Str × Str) :=
  [("Cache-Control".toList, plan.cacheControl), ("ETag".toList, etag),
    ("Last-Modified".toList, plan.lastModified)]

def Plan.isTheFile (plan : Plan) (m : Metadata) : Bool :=
  m.isFile && decide (plan.encoding = .identity) && !plan.minifyThis

def verbatim (status : Nat) (headers : List (Str × Str)) (body : Body) : AppResponse :=
  ⟨⟨status, headers, body⟩, true, none, none⟩

/-- The file as it is, or for a `HEAD` its length. -/
def sendFile (plan : Plan) (m : Metadata) : AppResponse :=
  let etag := etagText m (etagSuffix plan.encoding)
  if raw.method = "HEAD".toList then
    verbatim 200 (("Content-Type".toList, plan.mime) :: plan.validatorHeaders etag)
      (.stream m.len [])
  else
    match fs.opened with
    | none => .ofStatus 404
    | some reader =>
      verbatim 200 (plan.validatorHeaders etag ++ [("Content-Type".toList, plan.mime)])
        (.stream m.len reader)

/-- The body, its coding and its tag. A coding that fails is given up, and its mark with it. -/
def encodeBody (plan : Plan) (m : Metadata) (data : Bytes) : Bytes × Option Str × Str :=
  let coded (name : Str) : Option Bytes → Bytes × Option Str × Str
    | some bytes => (bytes, some name, etagText m (etagSuffix plan.encoding))
    | none => (data, none, etagText m [])
  match plan.encoding with
  | .identity => (data, none, etagText m [])
  | .brotli => coded "br".toList (lib.transforms.brotliCompress data (plan.level.getD 6))
  | .gzip => coded "gzip".toList (lib.transforms.gzipCompress data (plan.level.getD 6))

def sendMade (plan : Plan) (m : Metadata) : AppResponse :=
  match fs.data with
  | none => .ofStatus 404
  | some data =>
    let data := if plan.minifyThis then
      minifyAs lib.transforms ((plan.mime.splitOn ';').headD plan.mime) plan.inlineJs data else data
    let (body, coding, etag) := encodeBody lib plan m data
    verbatim 200
      (("Content-Type".toList, plan.mime) :: plan.validatorHeaders etag ++
        (coding.map fun c => ("Content-Encoding".toList, c)).toList)
      (.bytes body)

/-- The part of `serve` that has found a file. -/
def serveFound (m : Metadata) : AppResponse :=
  let plan := planOf lib config raw fsPath m
  let etag := etagText m (etagSuffix plan.encoding)
  match preconditionOf lib raw plan m with
  | .failed => verbatim 412 (plan.validatorHeaders etag) (.bytes [])
  | .notModified => verbatim 304 (plan.validatorHeaders etag) (.bytes [])
  | .proceed =>
    if plan.isTheFile m then sendFile raw fs plan m else sendMade lib fs plan m

def serve : Except Error AppResponse :=
  if raw.method ≠ "GET".toList ∧ raw.method ≠ "HEAD".toList then .ok (.ofStatus 405)
  else if fs.escapes then .ok (.ofStatus 404)
  else if tail then serveTail lib.mimeFromPath raw.queryText fsPath fs.content fs.access
  else
    match fs.metadata with
    | none => .ok (.ofStatus 404)
    | some m => .ok (serveFound lib config raw fsPath fs m)

end

/-! ## What is sent -/

def answered : Except Error AppResponse → AppResponse
  | .ok resp => resp
  | .error e => errorToResponse e

/-- The `Content-Length` of a head. -/
def contentLength : Body → Nat
  | .bytes b => b.length
  | .stream len _ => len

/-- The bytes of the body that a `GET` sends to a client who takes them all. -/
def bytesSent (hash : Bytes → Nat) (keepAlive : Bool) (resp : Response) : Nat :=
  (resp.send hash (.new "GET".toList keepAlive) ⟨[], none⟩).body

theorem copyStream_sent {w : Wire} (hw : w.limit = none) (n : Nat) (reader : List ReadResult) :
    (copyStream n reader w).1.sent.length = w.sent.length + min n (delivered reader) := by
  induction reader generalizing n w with
  | nil => cases n <;> simp [copyStream, delivered]
  | cons a reader ih =>
    cases n with
    | zero => simp [copyStream]
    | succ n =>
      cases a with
      | failed => simp [copyStream, delivered]
      | data bytes =>
        simp only [copyStream, delivered]
        by_cases hb : bytes = []
        · simp [hb]
        · have hlen : (bytes.take (min bufferSize (n + 1))).length =
              min (min bufferSize (n + 1)) bytes.length := List.length_take
          have hpos : 0 < bytes.length := List.length_pos_iff.mpr hb
          have hbuf : 0 < bufferSize := by decide
          have hne : bytes.take (min bufferSize (n + 1)) ≠ [] := by
            intro hnil
            rw [hnil, List.length_nil] at hlen
            omega
          rw [if_neg hne, if_neg hb, Wire.write_of_unlimited hw]
          simp only [if_true]
          rw [ih rfl, List.length_append, hlen]
          omega

theorem body_send {w : Wire} (hw : w.limit = none) (r : Responder) (status : Nat)
    (headers : List (Str × Str)) (body : Bytes) :
    (r.send status headers body w).body = if r.bodyless status then 0 else body.length := by
  rw [Responder.send]
  generalize Utf8.encode (headText r status headers body.length) = head
  rw [Wire.write_of_unlimited hw]
  cases r.bodyless status with
  | true => rfl
  | false =>
    dsimp only
    rw [Wire.write_of_unlimited rfl]
    simp only [Bool.not_true, Bool.false_eq_true, if_false, List.length_append]
    omega

theorem body_sendStream {w : Wire} (hw : w.limit = none) (r : Responder) (status : Nat)
    (headers : List (Str × Str)) (len : Nat) (reader : List ReadResult) :
    (r.sendStream status headers len reader w).body =
      if r.bodyless status then 0 else min len (delivered reader) := by
  rw [Responder.sendStream]
  generalize Utf8.encode (headText r status headers len) = head
  rw [Wire.write_of_unlimited hw]
  cases r.bodyless status with
  | true => rfl
  | false =>
    have hcopy := copyStream_sent (w := ⟨w.sent ++ head, none⟩) rfl len reader
    dsimp only at hcopy ⊢
    simp [hcopy]

/-- What a `GET` sends of a body. -/
theorem bytesSent_eq (hash : Bytes → Nat) (keepAlive : Bool) (resp : Response) :
    bytesSent hash keepAlive resp =
      if (Responder.new "GET".toList keepAlive).bodyless resp.status then 0
      else
        match resp.body with
        | .bytes b => b.length
        | .stream len reader => min len (delivered reader) := by
  rw [bytesSent, Response.send]
  cases resp.body with
  | bytes b => exact body_send rfl _ _ _ _
  | stream len reader => exact body_sendStream rfl _ _ _ _ _

/-- **A `HEAD` is answered as the `GET`**: with the same status and fields, and the length of what
the `GET` sends. -/
structure Mirrors (head get : AppResponse) : Prop where
  status : head.status = get.status
  headers : head.headers.Perm get.headers
  length : ∀ hash keepAlive, contentLength head.body = bytesSent hash keepAlive get.toResponse

theorem Mirrors.refl {resp : AppResponse} {b : Bytes} (hbody : resp.body = .bytes b)
    (h : b = [] ∨ ∀ r : Responder, r.isHead = false → r.bodyless resp.status = false) :
    Mirrors resp resp where
  status := rfl
  headers := .refl _
  length := by
    intro hash keepAlive
    rw [bytesSent_eq, hbody]
    rcases h with rfl | h
    · simp [contentLength]
    · rw [h _ rfl]
      rfl

/-! ## A `HEAD` beside a `GET` -/

def asGet (raw : RawRequest) : RawRequest := { raw with method := "GET".toList }

def asHead (raw : RawRequest) : RawRequest := { raw with method := "HEAD".toList }

section

variable (lib : Library) (config : Option RendererConfig) (tail : Bool) (raw : RawRequest)
  (fsPath : Str) (fs : Lookup)

def sendsFile : Option Metadata :=
  if fs.escapes || tail then none
  else
    fs.metadata.filter fun m =>
      let plan := planOf lib config raw fsPath m
      decide (preconditionOf lib (asGet raw) plan m = .proceed) && plan.isTheFile m

theorem preconditionOf_asHead (plan : Plan) (m : Metadata) :
    preconditionOf lib (asHead raw) plan m = preconditionOf lib (asGet raw) plan m := by
  have hhead : (Text.eqIgnoreAsciiCase "HEAD".toList "GET".toList ||
      Text.eqIgnoreAsciiCase "HEAD".toList "HEAD".toList) = true := by decide
  have hget : (Text.eqIgnoreAsciiCase "GET".toList "GET".toList ||
      Text.eqIgnoreAsciiCase "GET".toList "HEAD".toList) = true := by decide
  rw [preconditionOf, preconditionOf, evaluatePreconditions, evaluatePreconditions]
  simp only [asHead, asGet, hhead, hget]

theorem Mirrors.bodyless {resp : AppResponse} (hbody : resp.body = .bytes []) :
    Mirrors resp resp := .refl hbody (.inl rfl)

/-- The end of a file is answered to a `HEAD` as to a `GET`. -/
theorem mirrors_serveTail (query : Str) (content : Bytes) (access : Access) :
    Mirrors (answered (serveTail lib.mimeFromPath query fsPath content access))
      (answered (serveTail lib.mimeFromPath query fsPath content access)) := by
  rw [serveTail]
  split
  · exact .bodyless rfl
  · exact .bodyless rfl
  · refine .refl rfl (.inr fun r hr => ?_)
    simp [answered, Responder.bodyless, hr]

theorem mirrors_sendMade (plan : Plan) (m : Metadata) :
    Mirrors (sendMade lib fs plan m) (sendMade lib fs plan m) := by
  rw [sendMade]
  split
  · exact .bodyless rfl
  · refine .refl rfl (.inr fun r hr => ?_)
    simp [verbatim, Responder.bodyless, hr]

/-- **The file as it is** is answered alike exactly if it can be opened and has all its bytes. -/
theorem mirrors_sendFile_iff (plan : Plan) (m : Metadata) :
    Mirrors (sendFile (asHead raw) fs plan m) (sendFile (asGet raw) fs plan m) ↔
      ∃ reader, fs.opened = some reader ∧ m.len ≤ delivered reader := by
  have hhead : sendFile (asHead raw) fs plan m = verbatim 200 (("Content-Type".toList, plan.mime) ::
        plan.validatorHeaders (etagText m (etagSuffix plan.encoding))) (.stream m.len []) := by
    rw [sendFile, if_pos (show (asHead raw).method = "HEAD".toList from rfl)]
  have hget : sendFile (asGet raw) fs plan m =
      match fs.opened with
      | none => .ofStatus 404
      | some reader =>
        verbatim 200 (plan.validatorHeaders (etagText m (etagSuffix plan.encoding)) ++
          [("Content-Type".toList, plan.mime)]) (.stream m.len reader) := by
    have hmethod : (asGet raw).method ≠ "HEAD".toList :=
      show "GET".toList ≠ "HEAD".toList by decide
    rw [sendFile, if_neg hmethod]
  rw [hhead, hget]
  cases fs.opened with
  | none =>
    constructor
    · intro h
      exact absurd h.status (show (200 : Nat) ≠ 404 by decide)
    · rintro ⟨reader, hreader, -⟩
      cases hreader
  | some reader =>
    have hsent : ∀ hash keepAlive headers,
        bytesSent hash keepAlive (verbatim 200 headers (.stream m.len reader)).toResponse =
          min m.len (delivered reader) := by
      intro hash keepAlive headers
      rw [bytesSent_eq]
      rfl
    constructor
    · intro h
      have hlen := h.length (fun _ => 0) true
      rw [hsent] at hlen
      exact ⟨reader, rfl, by simpa [contentLength, verbatim] using hlen⟩
    · rintro ⟨reader', hreader, hlen⟩
      cases hreader
      refine ⟨rfl, (List.perm_append_singleton _ _).symm, fun hash keepAlive => ?_⟩
      rw [hsent, Nat.min_eq_left hlen]
      rfl

/-- **When a `HEAD` mirrors the `GET`**: exactly if a file that is sent as it is can be opened and
has all the bytes of its length. -/
theorem mirrors_iff : Mirrors (answered (serve lib config tail (asHead raw) fsPath fs))
        (answered (serve lib config tail (asGet raw) fsPath fs)) ↔
      ∀ m, sendsFile lib config tail raw fsPath fs = some m →
        ∃ reader, fs.opened = some reader ∧ m.len ≤ delivered reader := by
  have hget : ¬ ((asGet raw).method ≠ "GET".toList ∧ (asGet raw).method ≠ "HEAD".toList) :=
    fun h => h.1 rfl
  have hhead : ¬ ((asHead raw).method ≠ "GET".toList ∧ (asHead raw).method ≠ "HEAD".toList) :=
    fun h => h.2 rfl
  rw [serve, serve, if_neg hhead, if_neg hget, sendsFile]
  cases hescapes : fs.escapes with
  | true => exact iff_of_true (.bodyless rfl) fun m hm => by simp at hm
  | false =>
    cases tail with
    | true => exact iff_of_true (mirrors_serveTail lib _ _ _ _) fun m hm => by simp at hm
    | false =>
      cases fs.metadata with
      | none => exact iff_of_true (.bodyless rfl) fun m hm => by simp at hm
      | some m =>
        have hplan : planOf lib config (asHead raw) fsPath m =
          planOf lib config (asGet raw) fsPath m :=
          rfl
        simp only [Bool.false_eq_true, if_false, Bool.or_self, answered, serveFound, hplan,
          preconditionOf_asHead, Option.filter_some]
        have hplan' : planOf lib config (asGet raw) fsPath m = planOf lib config raw fsPath m := rfl
        rw [hplan']
        generalize planOf lib config raw fsPath m = plan
        cases preconditionOf lib (asGet raw) plan m with
        | failed | notModified =>
          refine iff_of_true (.bodyless rfl) fun m' hm => ?_
          simp at hm
        | proceed =>
          dsimp only
          cases plan.isTheFile m with
          | false =>
            refine iff_of_true (mirrors_sendMade lib fs plan m) fun m' hm => ?_
            simp at hm
          | true =>
            rw [if_pos rfl, if_pos rfl, mirrors_sendFile_iff]
            simp

end

/-- The libraries as they answer a request for an image that names no coding. -/
def imageLibrary : Library where
  transforms := noTransforms
  date := ⟨fun _ => none, fun _ => "Thu, 01 Jan 1970 00:00:00 GMT".toList⟩
  mimeFromPath _ := "image/png".toList
  shouldCompressDefault _ := false
  codingQuality _ _ := none

/-- A file that may be looked up but not read. -/
def unreadableFile : Lookup where
  escapes := false
  metadata := some ⟨0, 5, true⟩
  opened := none
  data := none
  content := []
  access := ⟨[], none⟩

def imageRequest : RawRequest := plainRequest "GET" "/a.png" "" []

/-- A file that cannot be opened is there for a `HEAD` and not for a `GET`. -/
theorem head_of_unreadable : ¬ Mirrors
      (answered (serve imageLibrary none false (asHead imageRequest) "/srv/a.png".toList
        unreadableFile))
      (answered (serve imageLibrary none false (asGet imageRequest) "/srv/a.png".toList
        unreadableFile)) := by
  intro h
  have hstatus := h.status
  revert hstatus
  decide

end M6.FileServer
