import M6.Core.H1
import M6.Edge.Ingress

/-!
# Requests on an HTTP/2 stream

A request comes as a header section, data and perhaps a trailer section, each section in one
frame or in several. `maybe_dispatch` looks at the stream after each of them and hands the
request over once: when its end has been seen, or, for a method that has no body, as soon as
the header section is there.

`h2Handed_eq` says what is handed over, whatever the frames, by the sections alone.
-/

namespace M6

open List Option Bool Utf8

/-! ## Validation of fields that were read as text -/

def cleaned (bs : Bytes) : Bytes := Utf8.encode (Utf8.decodeLossy bs)

theorem decodeLossy_cleaned (bs : Bytes) :
    Utf8.decodeLossy (cleaned bs) = Utf8.decodeLossy bs := decodeLossy_encode _

theorem cleaned_eq {s : Str} (hs : (s.all fun c => decide (c.toNat < 0x80)) = true) (bs : Bytes) :
    cleaned bs = Utf8.encode s ↔ bs = Utf8.encode s := by
  rw [← decodeLossy_eq_ascii hs, ← decodeLossy_eq_ascii hs, decodeLossy_cleaned]

theorem cleaned_eq_lit {s : String} (hs : (s.toList.all fun c => decide (c.toNat < 0x80)) = true)
    (bs : Bytes) : cleaned bs = lit s ↔ bs = lit s := cleaned_eq hs bs

theorem cleaned_eq_nil (bs : Bytes) : cleaned bs = [] ↔ bs = [] := @cleaned_eq [] rfl bs

theorem head?_cleaned {c : UInt8} (hc : Utf8.isAscii c = true) (bs : Bytes) :
    (cleaned bs).head? = some c ↔ bs.head? = some c := by
  rw [← head?_decodeLossy hc, ← head?_decodeLossy hc, decodeLossy_cleaned]

theorem any_isUpper_cleaned (bs : Bytes) : (cleaned bs).any isUpper = bs.any isUpper := by
  have hascii : ∀ c, isUpper c = true → isAscii c = true := by
    intro c hc
    simp only [isUpper, and_eq_true, decide_eq_true_eq] at hc
    simp only [isAscii, decide_eq_true_eq]
    omega
  rw [Bool.eq_iff_iff, List.any_eq_true, List.any_eq_true]
  refine exists_congr fun c => and_congr_left fun hc => ?_
  rw [← mem_decodeLossy_ascii (hascii c hc), ← mem_decodeLossy_ascii (hascii c hc),
    decodeLossy_cleaned]

def FieldScan.cleaned (s : FieldScan) : FieldScan :=
  { s with
    pathValue := s.pathValue.map M6.cleaned
    methodValue := s.methodValue.map M6.cleaned
    schemeValue := s.schemeValue.map M6.cleaned }

theorem contains_connectionSpecific_cleaned (name : Bytes) :
    connectionSpecific.contains (cleaned name) = connectionSpecific.contains name := by
  have hascii : ∀ s ∈ ["connection", "keep-alive", "proxy-connection", "transfer-encoding",
      "upgrade"], (s.toList.all fun c => decide (c.toNat < 0x80)) = true := by decide
  have heq : ∀ x ∈ connectionSpecific, cleaned name = x ↔ name = x := by
    intro x hx
    obtain ⟨s, hs, rfl⟩ := mem_map.mp (show x ∈ ["connection", "keep-alive",
      "proxy-connection", "transfer-encoding", "upgrade"].map lit from hx)
    exact cleaned_eq_lit (hascii s hs) name
  rw [Bool.eq_iff_iff, contains_iff_mem, contains_iff_mem]
  constructor
  · intro h
    rwa [(heq _ h).mp rfl]
  · intro h
    rwa [(heq _ h).mpr rfl]

theorem scanField_cleaned (s : FieldScan) (f : RawField) :
    scanField s.cleaned (cleaned f.1, cleaned f.2) = (scanField s f).map FieldScan.cleaned := by
  obtain ⟨name, value⟩ := f
  have hbeq : ∀ s : String, (s.toList.all fun c => decide (c.toNat < 0x80)) = true →
      (cleaned name == lit s) = (name == lit s) := by
    intro s hs
    rw [Bool.eq_iff_iff, beq_iff_eq, beq_iff_eq, cleaned_eq_lit hs]
  have hhost := hbeq "host" (by decide)
  have hhead := @head?_cleaned 0x3a (by decide) name
  have hmethod := @cleaned_eq_lit ":method" (by decide) name
  have hscheme := @cleaned_eq_lit ":scheme" (by decide) name
  have hpath := @cleaned_eq_lit ":path" (by decide) name
  have hauthority := @cleaned_eq_lit ":authority" (by decide) name
  have hstatus := @cleaned_eq_lit ":status" (by decide) name
  have hte := @cleaned_eq_lit "te" (by decide) name
  have htrailers := @cleaned_eq_lit "trailers" (by decide) value
  have hupper : (cleaned name).any isUpper = true ↔ name.any isUpper = true := by
    rw [any_isUpper_cleaned]
  have hlisted : connectionSpecific.contains (cleaned name) = true ↔
      connectionSpecific.contains name = true := by
    rw [contains_connectionSpecific_cleaned]
  simp only [scanField, apply_ite (Except.map FieldScan.cleaned), hhost]
  refine if_congr (cleaned_eq_nil name) rfl (if_congr hupper rfl (if_congr hhead ?_ ?_))
  · refine if_congr Iff.rfl rfl (if_congr hmethod rfl (if_congr hscheme rfl ?_))
    exact if_congr hpath rfl (if_congr hauthority rfl (if_congr hstatus rfl rfl))
  · exact if_congr hlisted rfl (if_congr (and_congr hte (not_congr htrailers)) rfl rfl)

theorem finishScan_cleaned (s : FieldScan) : finishScan s.cleaned = finishScan s := by
  have hlit : ∀ (o : Option Bytes) (v : String),
      (v.toList.all fun c => decide (c.toNat < 0x80)) = true →
      (o.map cleaned = some (lit v) ↔ o = some (lit v)) := by
    intro o v hv
    rcases o with _ | bs
    · simp
    · simp [cleaned_eq_lit hv]
  have hnil : s.pathValue.map cleaned = some [] ↔ s.pathValue = some [] := by
    rcases s.pathValue with _ | bs
    · simp
    · simp [cleaned_eq_nil]
  have hconnect := hlit s.methodValue "CONNECT" (by decide)
  have hoptions := hlit s.methodValue "OPTIONS" (by decide)
  have hstar := hlit s.pathValue "*" (by decide)
  have hhttp := hlit s.schemeValue "http" (by decide)
  have hhttps := hlit s.schemeValue "https" (by decide)
  unfold finishScan
  refine if_congr Iff.rfl rfl (if_congr hconnect rfl ?_)
  refine if_congr Iff.rfl rfl (if_congr Iff.rfl rfl (if_congr Iff.rfl rfl (if_congr hnil rfl ?_)))
  refine if_congr (and_congr hstar (not_congr hoptions)) rfl ?_
  exact if_congr (and_congr (or_congr hhttp hhttps) Iff.rfl) rfl rfl

theorem foldlM_scanField_cleaned (headers : List RawField) (s : FieldScan) :
    (headers.map fun f => (cleaned f.1, cleaned f.2)).foldlM scanField s.cleaned =
      (headers.foldlM scanField s).map FieldScan.cleaned := by
  induction headers generalizing s with
  | nil => rfl
  | cons f headers ih =>
    rw [map_cons, foldlM_cons, foldlM_cons, scanField_cleaned]
    rcases scanField s f with e | s'
    · rfl
    · exact ih s'

theorem validateRequestHeaders_decodeHpack (headers : List RawField) :
    validateRequestHeaders (decodeHpack headers) = validateRequestHeaderBytes headers := by
  have hmap : (decodeHpack headers).map (fun f => (Utf8.encode f.1, Utf8.encode f.2)) =
      headers.map fun f => (cleaned f.1, cleaned f.2) := by
    rw [decodeHpack, List.map_map]
    rfl
  have hstart : FieldScan.start = FieldScan.start.cleaned := rfl
  rw [validateRequestHeaders, validateRequestHeaderBytes, validateRequestHeaderBytes, hmap, hstart,
    foldlM_scanField_cleaned, ← hstart]
  rcases headers.foldlM scanField FieldScan.start with e | s
  · rfl
  · exact finishScan_cleaned s

/-! ## The stream -/

def maxH2Body : Nat := 20 * 1024 * 1024

def declaredLength (headers : List (Str × Str)) : Option Nat :=
  (headers.find? fun f => f.1 = "content-length".toList).bind fun f => parseUsize (Text.trim f.2)

/-- What comes on a stream. A header block that is not complete in its first frame is decoded
with its last. -/
inductive H2Frame where
  | headers (block : List RawField) (endStream : Bool)
  | headersPart (endStream : Bool)
  | continuation (block : List RawField)
  | data (bytes : Bytes) (endStream : Bool)

/-- A stream that is open. `dispatched` says that a response is there or awaited. -/
structure H2Stream where
  headers : List (Str × Str)
  body : Bytes
  headersDone : Bool
  halfClosed : Bool
  dispatched : Bool

/-- A stream before its first frame, open, or gone. -/
inductive H2State where
  | idle
  | opened (s : H2Stream)
  | gone

def h2Accept (headers : List (Str × Str)) (body : Bytes) : Option RawRequest :=
  if ∃ n ∈ declaredLength headers, n ≠ body.length then none
  else
    match validateRequestHeaders headers with
    | .error _ => none
    | .ok _ => some (buildRequest headers body).1

/-- Hand the request over if it is ready. A request that fails a check takes its stream away. -/
def maybeDispatch (s : H2Stream) : H2State × List RawRequest :=
  if s.headersDone && (s.halfClosed || isHeadersonly s.headers) && !s.dispatched then
    match h2Accept s.headers s.body with
    | some req => (.opened { s with dispatched := true }, [req])
    | none => (.gone, [])
  else (.opened s, [])

def H2Stream.new : H2Stream := ⟨[], [], false, false, false⟩

def H2State.entry : H2State → Option H2Stream
  | .idle => some .new
  | .opened s => some s
  | .gone => none

def h2Step (st : H2State) : H2Frame → H2State × List RawRequest
  | .headers block endStream =>
    match st.entry with
    | none => (.gone, [])
    | some s =>
      let s := if endStream then { s with halfClosed := true } else s
      let block := decodeHpack block
      -- a second header section is a trailer section
      if s.headersDone && (!endStream || block.any fun f => f.1.head? == some ':') then (.gone, [])
      else maybeDispatch { s with headers := s.headers ++ block, headersDone := true }
  | .headersPart endStream =>
    match st.entry with
    | none => (.gone, [])
    | some s => maybeDispatch (if endStream then { s with halfClosed := true } else s)
  | .continuation block =>
    match st with
    | .opened s =>
      maybeDispatch { s with headers := s.headers ++ decodeHpack block, headersDone := true }
    | _ => (st, [])
  | .data bytes endStream =>
    match st with
    | .opened s =>
      if s.body.length + bytes.length > maxH2Body then (.gone, [])
      else
        let s := { s with body := s.body ++ bytes, halfClosed := s.halfClosed || endStream }
        if endStream && s.headersDone then maybeDispatch s else (.opened s, [])
    | _ => (st, [])

/-- Take the frames of a stream, and gather what is handed over. -/
def h2Frames : H2State → List H2Frame → List RawRequest
  | _, [] => []
  | st, f :: frames => (h2Step st f).2 ++ h2Frames (h2Step st f).1 frames

/-! ## Presentations of a request -/

/-- How a request is cut into frames. -/
structure H2Presentation (body : Bytes) where
  chunks : List Bytes
  splitHeaders : Bool
  splitTrailers : Bool
  flat : chunks.flatten = body

def h2Section (split : Bool) (block : List RawField) (endStream : Bool) : List H2Frame :=
  if split then [.headersPart endStream, .continuation block] else [.headers block endStream]

def dataFrames (endStream : Bool) : List Bytes → List H2Frame
  | [] => []
  | [chunk] => [.data chunk endStream]
  | chunk :: chunks => .data chunk false :: dataFrames endStream chunks

def H2Presentation.frames {body : Bytes} (p : H2Presentation body) (headers : List RawField)
    (trailers : Option (List RawField)) : List H2Frame :=
  h2Section p.splitHeaders headers (p.chunks.isEmpty && trailers.isNone) ++
    dataFrames trailers.isNone p.chunks ++
    (trailers.map fun t => h2Section p.splitTrailers t true).getD []

def h2Handed {body : Bytes} (headers : List RawField) (trailers : Option (List RawField))
    (p : H2Presentation body) : List RawRequest := h2Frames .idle (p.frames headers trailers)

def hasPseudo (section_ : List RawField) : Bool := section_.any fun f => f.1.head? == some 0x3a

/-- The section and the body that are checked and handed over. A method without a body does not
wait for one. Trailers in one frame join the header section; in several, they come too
late for it. -/
def h2Submission (splitTrailers : Bool) (headers : List RawField) (body : Bytes)
    (trailers : Option (List RawField)) : Option (List RawField × Bytes) :=
  if isHeadersonly (decodeHpack headers) then some (headers, [])
  else if body.length > maxH2Body then none
  else
    match trailers with
    | none => some (headers, body)
    | some t =>
      if splitTrailers then some (headers, body)
      else if hasPseudo t then none
      else some (headers ++ t, body)

/-! ## Frames that hand nothing over -/

def H2State.Settled : H2State → Prop
  | .idle => False
  | .opened s => s.dispatched = true
  | .gone => True

theorem maybeDispatch_settled {s : H2Stream} (h : s.dispatched = true) :
    (maybeDispatch s).2 = [] ∧ (maybeDispatch s).1.Settled := by
  rw [maybeDispatch, h, Bool.not_true, Bool.and_false, if_neg Bool.false_ne_true]
  exact ⟨rfl, h⟩

theorem h2Step_settled {st : H2State} (h : st.Settled) (f : H2Frame) :
    (h2Step st f).2 = [] ∧ (h2Step st f).1.Settled := by
  cases st with
  | idle => cases h
  | gone => cases f <;> exact ⟨rfl, trivial⟩
  | opened s =>
    have h : s.dispatched = true := h
    cases f with
    | headers block endStream =>
      have hclosed : ∀ s' : H2Stream, s'.dispatched = true →
          ((if s'.headersDone && (!endStream || (decodeHpack block).any fun f =>
              f.1.head? == some ':') then (.gone, [])
            else maybeDispatch
              { s' with headers := s'.headers ++ decodeHpack block, headersDone := true } :
            H2State × List RawRequest)).2 = [] ∧
          ((if s'.headersDone && (!endStream || (decodeHpack block).any fun f =>
              f.1.head? == some ':') then (.gone, [])
            else maybeDispatch
              { s' with headers := s'.headers ++ decodeHpack block, headersDone := true } :
            H2State × List RawRequest)).1.Settled := by
        intro s' hs'
        split_ifs
        · exact ⟨rfl, trivial⟩
        · exact maybeDispatch_settled hs'
      cases endStream
      · exact hclosed s h
      · exact hclosed { s with halfClosed := true } h
    | headersPart endStream =>
      cases endStream
      · exact maybeDispatch_settled h
      · exact @maybeDispatch_settled { s with halfClosed := true } h
    | continuation block =>
      exact @maybeDispatch_settled { s with headers := _, headersDone := true } h
    | data bytes endStream =>
      simp only [h2Step]
      split_ifs
      · exact ⟨rfl, trivial⟩
      · exact maybeDispatch_settled h
      · exact ⟨rfl, h⟩

theorem h2Frames_settled {st : H2State} (h : st.Settled) (frames : List H2Frame) :
    h2Frames st frames = [] := by
  induction frames generalizing st with
  | nil => rfl
  | cons f frames ih =>
    obtain ⟨hnone, hsettled⟩ := h2Step_settled h f
    rw [h2Frames, hnone, ih hsettled]
    rfl

theorem h2Frames_gone (frames : List H2Frame) : h2Frames .gone frames = [] :=
  @h2Frames_settled .gone trivial frames

/-! ## Frames that do -/

theorem maybeDispatch_ready {s : H2Stream} (hdone : s.headersDone = true)
    (hready : (s.halfClosed || isHeadersonly s.headers) = true) (hnew : s.dispatched = false)
    (frames : List H2Frame) : (maybeDispatch s).2 ++ h2Frames (maybeDispatch s).1 frames =
      (h2Accept s.headers s.body).toList := by
  rw [maybeDispatch, hdone, hready, hnew]
  simp only [Bool.not_false, Bool.and_self, if_true]
  cases h2Accept s.headers s.body with
  | none => exact h2Frames_gone frames
  | some req =>
    have hsettled : (H2State.opened
        { s with headersDone := true, dispatched := true }).Settled := rfl
    simp only [h2Frames_settled hsettled frames, toList_some, append_nil]

theorem maybeDispatch_waiting {s : H2Stream}
    (hwait : (s.halfClosed || isHeadersonly s.headers) = false) :
    maybeDispatch s = (.opened s, []) := by
  rw [maybeDispatch, hwait, Bool.and_false, Bool.false_and, if_neg Bool.false_ne_true]

theorem h2Frames_section (split : Bool) (headers : List RawField) (endStream : Bool)
    (rest : List H2Frame) : h2Frames .idle (h2Section split headers endStream ++ rest) =
      (maybeDispatch ⟨decodeHpack headers, [], true, endStream, false⟩).2 ++
        h2Frames (maybeDispatch ⟨decodeHpack headers, [], true, endStream, false⟩).1 rest := by
  cases split with
  | false | true => cases endStream <;> rfl

theorem h2Frames_data {s : H2Stream} (hsmall : s.body.length ≤ maxH2Body) (chunks : List Bytes)
    (rest : List H2Frame) : h2Frames (.opened s) (dataFrames false chunks ++ rest) =
      if s.body.length + chunks.flatten.length > maxH2Body then []
      else h2Frames (.opened { s with body := s.body ++ chunks.flatten }) rest := by
  induction chunks generalizing s with
  | nil =>
    rw [flatten_nil, length_nil, Nat.add_zero, if_neg (by omega), append_nil]
    rfl
  | cons chunk chunks ih =>
    have hframes : dataFrames false (chunk :: chunks) =
      .data chunk false :: dataFrames false chunks := by
      cases chunks <;> rfl
    rw [hframes, cons_append, h2Frames, flatten_cons, length_append]
    by_cases hcap : s.body.length + chunk.length > maxH2Body
    · simp only [h2Step, if_pos hcap]
      rw [if_pos (by omega), h2Frames_gone]
      rfl
    · have hstep : h2Step (.opened s) (.data chunk false) =
          (.opened { s with body := s.body ++ chunk, halfClosed := s.halfClosed || false },
            []) := by
        simp only [h2Step, if_neg hcap, Bool.false_and, false_eq_true, if_false]
      rw [hstep, nil_append, ih]
      · simp only [length_append, Bool.or_false, append_assoc, Nat.add_assoc]
      · simp only [length_append]
        omega

theorem h2Frames_lastData {s : H2Stream} (hdone : s.headersDone = true)
    (hnew : s.dispatched = false) {chunks : List Bytes} (hchunks : chunks ≠ []) :
    h2Frames (.opened s) (dataFrames true chunks) =
      if s.body.length + chunks.flatten.length > maxH2Body then []
      else (h2Accept s.headers (s.body ++ chunks.flatten)).toList := by
  induction chunks generalizing s with
  | nil => contradiction
  | cons chunk chunks ih =>
    rw [flatten_cons, length_append]
    by_cases hcap : s.body.length + chunk.length > maxH2Body
    · rw [if_pos (by omega)]
      cases chunks with
      | nil => simp only [dataFrames, h2Frames, h2Step, if_pos hcap, append_nil]
      | cons d chunks =>
        simp only [dataFrames, h2Frames, h2Step, if_pos hcap, nil_append]
        exact h2Frames_gone _
    · cases chunks with
      | nil =>
        have hstep : h2Step (.opened s) (.data chunk true) =
            maybeDispatch
              { s with body := s.body ++ chunk, halfClosed := s.halfClosed || true } := by
          simp only [h2Step, if_neg hcap, hdone, Bool.and_self, if_true]
        rw [dataFrames, h2Frames, hstep,
          maybeDispatch_ready (by exact hdone) (by simp) (by exact hnew), flatten_nil,
          length_nil, if_neg (by omega), append_nil]
      | cons d chunks =>
        have hstep : h2Step (.opened s) (.data chunk false) =
            (.opened { s with body := s.body ++ chunk, halfClosed := s.halfClosed || false },
              []) := by
          simp only [h2Step, if_neg hcap, Bool.false_and, false_eq_true, if_false]
        have hrest := @ih { s with body := s.body ++ chunk, halfClosed := s.halfClosed || false }
          hdone hnew (cons_ne_nil _ _)
        rw [dataFrames, h2Frames, hstep, nil_append, hrest]
        · simp only [length_append, append_assoc, Nat.add_assoc]
        · exact cons_ne_nil _ _

theorem any_decodeHpack (block : List RawField) :
    ((decodeHpack block).any fun f => f.1.head? == some ':') = hasPseudo block := by
  rw [decodeHpack, List.any_map, hasPseudo]
  refine any_congr rfl fun f => ?_
  rw [Bool.eq_iff_iff, Function.comp_apply, beq_iff_eq, beq_iff_eq]
  exact head?_decodeLossy (c := 0x3a) (by decide) f.1

theorem h2Frames_trailers {s : H2Stream} (hdone : s.headersDone = true)
    (hnew : s.dispatched = false) (split : Bool) (t : List RawField) :
    h2Frames (.opened s) (h2Section split t true) =
      if split then (h2Accept s.headers s.body).toList
      else if hasPseudo t then []
      else (h2Accept (s.headers ++ decodeHpack t) s.body).toList := by
  cases split with
  | true =>
    have hready := @maybeDispatch_ready { s with halfClosed := true } hdone rfl hnew
      [.continuation t]
    exact hready
  | false =>
    have hstep : h2Step (.opened s) (.headers t true) =
        if hasPseudo t then (.gone, [])
        else maybeDispatch { s with
          headers := s.headers ++ decodeHpack t, headersDone := true, halfClosed := true } := by
      simp only [h2Step, H2State.entry, if_true, hdone, any_decodeHpack, Bool.not_true,
        Bool.false_or, Bool.true_and]
    rw [h2Section, if_neg Bool.false_ne_true, h2Frames, hstep, if_neg Bool.false_ne_true]
    split_ifs with hpseudo
    · rfl
    · exact @maybeDispatch_ready
        { s with headers := s.headers ++ decodeHpack t, headersDone := true, halfClosed := true }
        rfl rfl hnew []

/-- **What HTTP/2 hands over**, however the request is cut into frames. -/
theorem h2Handed_eq {body : Bytes} (headers : List RawField) (trailers : Option (List RawField))
    (p : H2Presentation body) : h2Handed headers trailers p =
      ((h2Submission p.splitTrailers headers body trailers).bind fun x =>
        h2Accept (decodeHpack x.1) x.2).toList := by
  obtain ⟨chunks, splitHeaders, splitTrailers, rfl⟩ := p
  rw [h2Handed, H2Presentation.frames, append_assoc, h2Frames_section]
  simp only [h2Submission]
  by_cases honly : isHeadersonly (decodeHpack headers) = true
  · -- the request does not wait
    rw [if_pos honly, maybeDispatch_ready rfl (by rw [honly, Bool.or_true]) rfl]
    rfl
  rw [if_neg honly]
  rw [not_eq_true] at honly
  by_cases hend : (chunks.isEmpty && trailers.isNone) = true
  · -- the header section is all there is
    obtain ⟨hchunks, htrailers⟩ := and_eq_true_iff.mp hend
    rw [List.isEmpty_iff] at hchunks
    rw [isNone_iff_eq_none] at htrailers
    subst hchunks htrailers
    rw [maybeDispatch_ready rfl rfl rfl]
    rfl
  rw [not_eq_true] at hend
  rw [hend, maybeDispatch_waiting (by rw [honly]; rfl), nil_append]
  cases trailers with
  | none =>
    have hchunks : chunks ≠ [] := by
      rintro rfl
      cases hend
    rw [map_none, getD_none, append_nil, isNone_none,
      h2Frames_lastData rfl rfl hchunks, length_nil, Nat.zero_add, nil_append]
    split_ifs <;> rfl
  | some t =>
    rw [map_some, getD_some, isNone_some, h2Frames_data (Nat.zero_le _),
      length_nil, Nat.zero_add, nil_append]
    by_cases hcap : chunks.flatten.length > maxH2Body
    · rw [if_pos hcap, if_pos hcap]
      rfl
    · rw [if_neg hcap, if_neg hcap, h2Frames_trailers rfl rfl]
      by_cases hsplit : splitTrailers = true
      · simp only [if_pos hsplit]
        rfl
      · by_cases hpseudo : hasPseudo t = true
        · simp only [if_neg hsplit, if_pos hpseudo]
          rfl
        · simp only [if_neg hsplit, if_neg hpseudo, bind_some]
          simp [decodeHpack]

/-! ## Header blocks -/

/-- An HPACK integer, with `bits` bits beside the pattern `first`. -/
def hpackInt (first bits n : Nat) : Bytes :=
  if n < 2 ^ bits - 1 then [UInt8.ofNat (first + n)]
  else UInt8.ofNat (first + 2 ^ bits - 1) :: rest n (n - (2 ^ bits - 1))
where
  /-- seven bits a byte, the lowest first -/
  rest : Nat → Nat → Bytes
    | 0, n => [UInt8.ofNat n]
    | fuel + 1, n =>
      if n < 128 then [UInt8.ofNat n] else UInt8.ofNat (128 + n % 128) :: rest fuel (n / 128)

def hpackString (s : Bytes) : Bytes := hpackInt 0 7 s.length ++ s

def staticTable : List RawField :=
  [(lit ":authority", []), (lit ":method", lit "GET"), (lit ":method", lit "POST"),
    (lit ":path", lit "/"), (lit ":path", lit "/index.html"), (lit ":scheme", lit "http"),
    (lit ":scheme", lit "https")]

def hpackField (f : RawField) : Bytes :=
  let exact_ := staticTable.findIdx (· = f)
  let name := staticTable.findIdx fun e => e.1 = f.1
  if exact_ < staticTable.length then hpackInt 0x80 7 (exact_ + 1)
  else if name < staticTable.length then hpackInt 0 4 (name + 1) ++ hpackString f.2
  else 0x40 :: (hpackString f.1 ++ hpackString f.2)

theorem length_hpackField {f : RawField} (h : ∀ e ∈ staticTable, e.1 ≠ f.1) :
    f.2.length < (hpackField f).length := by
  have hname : ¬ staticTable.findIdx (fun e => e.1 = f.1) < staticTable.length := by
    rw [findIdx_lt_length]
    rintro ⟨e, he, heq⟩
    exact h e he (of_decide_eq_true heq)
  have hexact : ¬ staticTable.findIdx (· = f) < staticTable.length := by
    rw [findIdx_lt_length]
    rintro ⟨e, he, heq⟩
    exact h e he (congrArg Prod.fst (of_decide_eq_true heq))
  simp only [hpackField, if_neg hexact, if_neg hname, hpackString, length_cons, length_append]
  omega

end M6
