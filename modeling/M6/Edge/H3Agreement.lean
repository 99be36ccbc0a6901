import M6.Edge.H2
import M6.Edge.H3

/-!
# The two protocols on one request

The same request, a header section, a body and perhaps a trailer section, over HTTP/2 and
over HTTP/3. Both check the fields with the same validator, and all around it is written
twice. `agree_iff` says **exactly when** the two hand over the same: what they do with
trailers, with a declared length, with a method that has no body, with bytes that are no
UTF-8 and with `:authority` sets them apart.
-/

namespace M6

open List

/-! ## What HTTP/3 hands over -/

/-- How a request comes in events. A read of nothing ends an event, so an event has none. If
`finSeen`, the end of the stream is known with its last section. -/
structure H3Presentation (body : Bytes) where
  reads : List (List Bytes)
  finSeen : Bool
  flat : reads.flatten.flatten = body
  nonempty : ∀ event ∈ reads, ∀ read ∈ event, read ≠ []

def H3Presentation.events {body : Bytes} (p : H3Presentation body) (headers : List RawField)
    (trailers : Option (List RawField)) : List H3Event :=
  .headers 0 headers (!(p.finSeen && p.reads.isEmpty && trailers.isNone)) ::
    (p.reads.map (.data 0 ·) ++
      ((trailers.map fun t => [.headers 0 t (!p.finSeen)]).getD [] ++ [.finished 0]))

def requestsOf (answers : List (Nat × H3Answer)) : List RawRequest :=
  answers.filterMap fun a =>
    match a.2 with
    | .request req => some req
    | _ => none

def h3Handed {body : Bytes} (headers : List RawField) (trailers : Option (List RawField))
    (p : H3Presentation body) : List RawRequest :=
  requestsOf (processH3 (p.events headers trailers)).2

def h3Accept (headers : List RawField) (body : Bytes) : Option RawRequest :=
  match validateRequestHeaderBytes headers with
  | .error _ => none
  | .ok _ => some (h3Request headers body)

/-- The section and the body that are checked and handed over. Trailers replace the header
section, and after a body that is too large they stand alone. -/
def h3Submission (headers : List RawField) (body : Bytes) (trailers : Option (List RawField)) :
    Option (List RawField × Bytes) :=
  match trailers with
  | none => if body.length > maxH3Body then none else some (headers, body)
  | some t => some (t, if body.length > maxH3Body then [] else body)

def h3Answers : PendingMap → List H3Event → List (Nat × H3Answer)
  | _, [] => []
  | pending, e :: events => (h3Step pending e).2 ++ h3Answers (h3Step pending e).1 events

theorem processH3_answers (events : List H3Event) : (processH3 events).2 =
    h3Answers .empty events := by
  have hfold : ∀ (events : List H3Event) (run : PendingMap × List (Nat × H3Answer)),
      (events.foldl (fun run e => ((h3Step run.1 e).1, run.2 ++ (h3Step run.1 e).2)) run).2 =
        run.2 ++ h3Answers run.1 events := by
    intro events
    induction events with
    | nil => intro run; simp [h3Answers]
    | cons e events ih =>
      intro run
      rw [foldl_cons, ih, h3Answers, append_assoc]
  rw [processH3, hfold]
  rfl

theorem requestsOf_append (a b : List (Nat × H3Answer)) :
    requestsOf (a ++ b) = requestsOf a ++ requestsOf b := filterMap_append

theorem requestsOf_answer (s : Nat) (req : PendingRequest) :
    requestsOf [(s, req.answer)] = (h3Accept req.headers req.body).toList := by
  rw [PendingRequest.answer, h3Accept]
  cases validateRequestHeaderBytes req.headers <;> rfl

section

variable {pending : PendingMap} {s : Nat} {req : PendingRequest}

theorem recvBody_none (h : pending.get? s = none) (reads : List Bytes) :
    recvBody s reads pending = (pending, []) := by
  induction reads with
  | nil => rfl
  | cons read reads ih =>
    rw [recvBody, h]
    simp only [ih, ite_self]

theorem recvBody_some (h : pending.get? s = some req) (hsmall : req.body.length ≤ maxH3Body)
    {reads : List Bytes} (hreads : ∀ read ∈ reads, read ≠ []) :
    requestsOf (recvBody s reads pending).2 = [] ∧ (recvBody s reads pending).1.get? s =
        if req.body.length + reads.flatten.length > maxH3Body then none
        else some { req with body := req.body ++ reads.flatten } := by
  induction reads generalizing pending req with
  | nil =>
    rw [flatten_nil, length_nil, Nat.add_zero, if_neg (by omega), append_nil]
    exact ⟨rfl, h⟩
  | cons read reads ih =>
    have hread := hreads read (mem_cons_self ..)
    rw [recvBody, if_neg hread, h, flatten_cons, length_append]
    simp only
    by_cases hcap : req.body.length + read.length > maxH3Body
    · rw [if_pos hcap, if_pos (by omega)]
      refine ⟨rfl, ?_⟩
      rw [SortedMap.get?_erase, if_pos rfl]
    · rw [if_neg hcap]
      have hentry : (pending.insert s { req with body := req.body ++ read }).get? s =
          some { req with body := req.body ++ read } := by
        rw [SortedMap.get?_insert, if_pos rfl]
      obtain ⟨hnone, hget⟩ := ih hentry (by simp only [length_append]; omega)
        fun r hr => hreads r (mem_cons_of_mem _ hr)
      refine ⟨hnone, hget.trans ?_⟩
      simp only [length_append, append_assoc, Nat.add_assoc]

theorem h3Answers_data_none (h : pending.get? 0 = none) (reads : List (List Bytes))
    (rest : List H3Event) :
    h3Answers pending (reads.map (.data 0 ·) ++ rest) = h3Answers pending rest := by
  induction reads with
  | nil => rfl
  | cons event reads ih =>
    rw [map_cons, cons_append, h3Answers, h3Step, recvBody_none h]
    exact ih

theorem h3Answers_data (h : pending.get? 0 = some req) (hsmall : req.body.length ≤ maxH3Body)
    {reads : List (List Bytes)} (hreads : ∀ event ∈ reads, ∀ read ∈ event, read ≠ [])
    (rest : List H3Event) : ∃ pending' : PendingMap, (pending'.get? 0 =
        if req.body.length + reads.flatten.flatten.length > maxH3Body then none
        else some { req with body := req.body ++ reads.flatten.flatten }) ∧
      requestsOf (h3Answers pending (reads.map (.data 0 ·) ++ rest)) =
        requestsOf (h3Answers pending' rest) := by
  induction reads generalizing pending req with
  | nil =>
    refine ⟨pending, ?_, rfl⟩
    rw [flatten_nil, flatten_nil, length_nil, Nat.add_zero, if_neg (by omega), append_nil]
    exact h
  | cons event reads ih =>
    obtain ⟨hnone, hget⟩ := recvBody_some h hsmall (hreads event (mem_cons_self ..))
    rw [map_cons, cons_append, h3Answers, requestsOf_append, h3Step, hnone,
      nil_append, flatten_cons, flatten_append, length_append]
    by_cases hcap : req.body.length + event.flatten.length > maxH3Body
    · rw [if_pos hcap] at hget
      refine ⟨(recvBody 0 event pending).1, ?_, by rw [h3Answers_data_none hget]⟩
      rw [hget, if_pos (by omega)]
    · rw [if_neg hcap] at hget
      obtain ⟨pending', hget', heq⟩ := ih hget (by simp only [length_append]; omega)
        fun e he => hreads e (mem_cons_of_mem _ he)
      refine ⟨pending', hget'.trans ?_, heq⟩
      simp only [length_append, append_assoc, Nat.add_assoc]

theorem h3Answers_finished : requestsOf (h3Answers pending [.finished 0]) =
      ((pending.get? 0).bind fun req => h3Accept req.headers req.body).toList := by
  simp only [h3Answers, h3Step, handleH3Request, append_nil]
  rcases pending.get? 0 with _ | req
  · rfl
  · exact requestsOf_answer 0 req

theorem h3Answers_section (list : List RawField) (moreFrames : Bool) :
    requestsOf (h3Answers pending [.headers 0 list moreFrames, .finished 0]) =
      (h3Accept list (((pending.get? 0).map PendingRequest.body).getD [])).toList := by
  have hentry := @get?_withHeaders pending 0 list 0
  rw [if_pos rfl] at hentry
  cases moreFrames with
  | true =>
    have hstep : h3Step pending (.headers 0 list true) = (withHeaders pending 0 list, []) := rfl
    rw [h3Answers, hstep, nil_append, h3Answers_finished, hentry]
    rfl
  | false =>
    have hstep : h3Step pending (.headers 0 list false) =
        handleH3Request 0 (withHeaders pending 0 list) := rfl
    have hgone := get?_handleH3Request 0 (withHeaders pending 0 list) 0
    rw [if_pos rfl] at hgone
    rw [h3Answers, requestsOf_append, hstep, h3Answers_finished, hgone, handleH3Request, hentry]
    simp only [requestsOf_answer, Option.bind_none, Option.toList_none, append_nil]

end

/-- **What HTTP/3 hands over**, however the request comes in events. -/
theorem h3Handed_eq {body : Bytes} (headers : List RawField) (trailers : Option (List RawField))
    (p : H3Presentation body) : h3Handed headers trailers p =
      ((h3Submission headers body trailers).bind fun x => h3Accept x.1 x.2).toList := by
  obtain ⟨reads, finSeen, rfl, hnonempty⟩ := p
  rw [h3Handed, processH3_answers, H3Presentation.events]
  simp only
  by_cases hat : (finSeen && reads.isEmpty && trailers.isNone) = true
  · -- the end is known with the header section
    obtain ⟨hreads, htrailers⟩ := Bool.and_eq_true_iff.mp hat
    have hreads := isEmpty_iff.mp (Bool.and_eq_true_iff.mp hreads).2
    rw [Option.isNone_iff_eq_none] at htrailers
    subst hreads htrailers
    rw [hat]
    exact h3Answers_section headers false
  have hentry := @get?_withHeaders .empty 0 headers 0
  rw [if_pos rfl] at hentry
  have hstep : h3Step .empty (.headers 0 headers true) = (withHeaders .empty 0 headers, []) := rfl
  rw [Bool.not_eq_true] at hat
  rw [hat, Bool.not_false, h3Answers, hstep, nil_append]
  obtain ⟨pending, hget, heq⟩ := h3Answers_data hentry (Nat.zero_le _) hnonempty
    ((trailers.map fun t => [.headers 0 t (!finSeen)]).getD [] ++ [.finished 0])
  have hbody : ((SortedMap.get? (.empty : PendingMap) 0).map PendingRequest.body).getD
    [] = [] := rfl
  rw [hbody, length_nil, Nat.zero_add, nil_append] at hget
  rw [heq]
  cases trailers with
  | none =>
    rw [Option.map_none, Option.getD_none, nil_append, h3Answers_finished, hget, h3Submission]
    split_ifs <;> rfl
  | some t =>
    rw [Option.map_some, Option.getD_some, singleton_append, h3Answers_section, hget, h3Submission]
    split_ifs <;> rfl

/-! ## Reading a field list -/

def valuesOf (name : String) (headers : List RawField) : List Bytes :=
  (headers.filter fun f => f.1 == lit name).map Prod.snd

/-- Whether the validator passes a section. -/
def isValid (headers : List RawField) : Bool :=
  match validateRequestHeaderBytes headers with
  | .error _ => false
  | .ok _ => true

theorem valuesOf_cons (name : String) (f : RawField) (headers : List RawField) :
    valuesOf name (f :: headers) =
      (if f.1 = lit name then [f.2] else []) ++ valuesOf name headers := by
  rw [valuesOf, filter_cons]
  split_ifs with h h' h'
  · rfl
  · exact absurd (beq_iff_eq.mp h) h'
  · exact absurd (beq_iff_eq.mpr h') h
  · rfl

theorem scanField_ok {s s' : FieldScan} {f : RawField} (h : scanField s f = .ok s') :
    s'.method = s.method + (if f.1 = lit ":method" then [f.2] else []).length ∧
    s'.methodValue = (if f.1 = lit ":method" then [f.2] else []).getLast?.or s.methodValue ∧
    s'.path = s.path + (if f.1 = lit ":path" then [f.2] else []).length := by
  have hne : lit ":path" ≠ lit ":method" := by decide +kernel
  have hhead : ∀ name : String, name ∈ [":method", ":path"] → (lit name).head? = some 0x3a := by
    decide +kernel
  simp only [scanField] at h
  split_ifs at h with h1 h2 hcolon hreg hmethod hscheme hpath hauth hstatus hconn hte
  · cases h
    rw [if_pos hmethod, if_neg (fun hp => hne (hp.symm.trans hmethod))]
    exact ⟨rfl, rfl, rfl⟩
  · cases h
    rw [if_neg hmethod, if_neg (fun hp => absurd (hp.symm.trans hscheme) (by decide +kernel))]
    exact ⟨rfl, rfl, rfl⟩
  · cases h
    rw [if_neg hmethod, if_pos hpath]
    exact ⟨rfl, rfl, rfl⟩
  · cases h
    rw [if_neg hmethod, if_neg hpath]
    exact ⟨rfl, rfl, rfl⟩
  · cases h
    rw [if_neg fun hm => hcolon ((congrArg head? hm).trans (hhead ":method" (by decide))),
      if_neg fun hp => hcolon ((congrArg head? hp).trans (hhead ":path" (by decide)))]
    exact ⟨rfl, rfl, rfl⟩

theorem foldlM_scanField_ok {headers : List RawField} {s s' : FieldScan}
    (h : headers.foldlM scanField s = .ok s') :
    s'.method = s.method + (valuesOf ":method" headers).length ∧
    s'.methodValue = (valuesOf ":method" headers).getLast?.or s.methodValue ∧
    s'.path = s.path + (valuesOf ":path" headers).length := by
  induction headers generalizing s with
  | nil =>
    cases h
    exact ⟨rfl, rfl, rfl⟩
  | cons f headers ih =>
    rw [foldlM_cons] at h
    rcases hf : scanField s f with e | s₁
    · rw [hf] at h
      cases h
    · rw [hf] at h
      obtain ⟨hm, hv, hp⟩ := ih h
      obtain ⟨hm', hv', hp'⟩ := scanField_ok hf
      rw [valuesOf_cons, valuesOf_cons, length_append, length_append,
        getLast?_append, hm, hv, hp, hm', hv', hp', Option.or_assoc]
      exact ⟨Nat.add_assoc .., rfl, Nat.add_assoc ..⟩

theorem valuesOf_of_valid {headers : List RawField} (h : isValid headers = true) :
    ∃ m, valuesOf ":method" headers = [m] ∧ ((m = lit "CONNECT" ∧ valuesOf ":path" headers = []) ∨
        (m ≠ lit "CONNECT" ∧ ∃ v, valuesOf ":path" headers = [v])) := by
  rw [isValid, validateRequestHeaderBytes] at h
  rcases hs : headers.foldlM scanField .start with e | s
  · rw [hs] at h
    cases h
  have hfinish : finishScan s = .ok () := by
    rw [hs] at h
    rcases hf : finishScan s with e | u
    · have herror : ((Except.ok s : Except Str FieldScan) >>= finishScan) = .error e := hf
      rw [herror] at h
      cases h
    · rfl
  obtain ⟨hm, hv, hp⟩ := foldlM_scanField_ok hs
  have hm : s.method = (valuesOf ":method" headers).length := hm.trans (Nat.zero_add _)
  have hp : s.path = (valuesOf ":path" headers).length := hp.trans (Nat.zero_add _)
  have hv : s.methodValue = (valuesOf ":method" headers).getLast? := hv.trans (Option.or_none)
  simp only [finishScan] at hfinish
  split_ifs at hfinish with hdup hconnect htarget hauth hnomethod hnoscheme hnopath
    hempty hstar hnone
  · simp only [not_or, not_not] at htarget
    rw [hv] at hconnect
    obtain ⟨m, hm'⟩ := length_eq_one_iff.mp (show (valuesOf ":method" headers).length = 1 by
      have hne : valuesOf ":method" headers ≠ [] := by
        intro hnil
        rw [hnil] at hconnect
        cases hconnect
      have hpos := length_pos_of_ne_nil hne
      omega)
    rw [hm'] at hconnect
    refine ⟨m, hm', .inl ⟨Option.some.inj hconnect, ?_⟩⟩
    exact eq_nil_of_length_eq_zero (hp ▸ htarget.2)
  · obtain ⟨m, hm'⟩ := length_eq_one_iff.mp
      (show (valuesOf ":method" headers).length = 1 by omega)
    refine ⟨m, hm', .inr ⟨?_, length_eq_one_iff.mp (by omega)⟩⟩
    rintro rfl
    rw [hv, hm'] at hconnect
    exact hconnect rfl

/-! ### Method and path -/

def isUtf8 (bs : Bytes) : Bool := (Utf8.fromUtf8? bs).isSome

def namedValues (name : Str) (l : List (Str × Str)) : List Str :=
  (l.filter fun f => f.1 = name).map Prod.snd

theorem namedValues_cons (name : Str) (f : Str × Str) (l : List (Str × Str)) :
    namedValues name (f :: l) = (if f.1 = name then [f.2] else []) ++ namedValues name l := by
  rw [namedValues, filter_cons]
  by_cases h : f.1 = name
  · rw [if_pos h, if_pos (decide_eq_true h)]
    rfl
  · rw [if_neg h, if_neg fun hf => h (of_decide_eq_true hf)]
    rfl

theorem namedValues_decodeHpack {name : String}
    (hname : (name.toList.all fun c => decide (c.toNat < 0x80)) = true) (headers : List RawField) :
    namedValues name.toList (decodeHpack headers) =
      (valuesOf name headers).map Utf8.decodeLossy := by
  induction headers with
  | nil => rfl
  | cons f headers ih =>
    rw [decodeHpack, map_cons, ← decodeHpack, namedValues_cons, ih, valuesOf_cons, map_append]
    by_cases h : f.1 = lit name
    · rw [if_pos h, if_pos ((Utf8.decodeLossy_eq_ascii hname f.1).mpr h)]
      rfl
    · rw [if_neg h, if_neg fun hf => h ((Utf8.decodeLossy_eq_ascii hname f.1).mp hf)]
      rfl

/-- What a `:path` value makes of path and query. -/
def pathStep (pq : Str × Option Str) (v : Str) : Str × Option Str :=
  match Text.cutAt '?' v with
  | (path, some query) => (path, some query)
  | (_, none) => (v, pq.2)

theorem foldl_buildStep (l : List (Str × Str)) (b : Building) :
    (l.foldl buildStep b).method = (namedValues ":method".toList l).getLast?.getD b.method ∧
      ((l.foldl buildStep b).path, (l.foldl buildStep b).query) =
        (namedValues ":path".toList l).foldl pathStep (b.path, b.query) ∧
      (l.foldl buildStep b).authority =
        (namedValues ":authority".toList l).getLast?.or b.authority := by
  induction l generalizing b with
  | nil => exact ⟨rfl, rfl, rfl⟩
  | cons f l ih =>
    obtain ⟨hm, hp, ha⟩ := ih (buildStep b f)
    rw [foldl_cons, hm, hp, ha, namedValues_cons, namedValues_cons, namedValues_cons]
    by_cases hmethod : f.1 = ":method".toList
    · have hstep : buildStep b f = { b with method := f.2 } := by rw [buildStep, if_pos hmethod]
      rw [hstep, if_pos hmethod, if_neg (by rw [hmethod]; decide), if_neg (by rw [hmethod]; decide),
        singleton_append, getLast?_cons]
      exact ⟨rfl, rfl, rfl⟩
    by_cases hpath : f.1 = ":path".toList
    · have hstep : buildStep b f =
          { b with path := (pathStep (b.path, b.query) f.2).1
                   query := (pathStep (b.path, b.query) f.2).2 } := by
        rw [buildStep, if_neg hmethod, if_pos hpath, pathStep]
        rcases Text.cutAt '?' f.2 with ⟨path, _ | query⟩ <;> rfl
      rw [hstep, if_neg hmethod, if_pos hpath, if_neg (by rw [hpath]; decide)]
      exact ⟨rfl, rfl, rfl⟩
    by_cases hauthority : f.1 = ":authority".toList
    · have hstep : buildStep b f = { b with authority := some f.2 } := by
        rw [buildStep, if_neg hmethod, if_neg hpath, if_pos hauthority]
      rw [hstep, if_neg hmethod, if_neg hpath, if_pos hauthority, singleton_append, getLast?_cons]
      refine ⟨rfl, rfl, ?_⟩
      cases (namedValues ":authority".toList l).getLast? <;> rfl
    · have hstep : (buildStep b f).method = b.method ∧ (buildStep b f).path = b.path ∧
          (buildStep b f).query = b.query ∧ (buildStep b f).authority = b.authority := by
        rw [buildStep, if_neg hmethod, if_neg hpath, if_neg hauthority]
        split_ifs <;> exact ⟨rfl, rfl, rfl, rfl⟩
      obtain ⟨hm', hp', hq', ha'⟩ := hstep
      rw [hm', hp', hq', ha', if_neg hmethod, if_neg hpath, if_neg hauthority]
      exact ⟨rfl, rfl, rfl⟩

/-- What a `:path` value makes of path and query, in bytes. -/
def h3PathStep (pq : Bytes × Option Bytes) (v : Bytes) : Bytes × Option Bytes :=
  match cutQuery v with
  | (path, some query) => (path, some query)
  | (_, none) => (v, pq.2)

theorem foldl_h3ScanStep (headers : List RawField) (s : H3Scan) :
    (headers.foldl h3ScanStep s).method = ((valuesOf ":method" headers).getLast?).getD s.method ∧
      ((headers.foldl h3ScanStep s).path, (headers.foldl h3ScanStep s).query) =
        (valuesOf ":path" headers).foldl h3PathStep (s.path, s.query) := by
  have hne : lit ":path" ≠ lit ":method" := by decide
  induction headers generalizing s with
  | nil => exact ⟨rfl, rfl⟩
  | cons f headers ih =>
    obtain ⟨hm, hp⟩ := ih (h3ScanStep s f)
    rw [foldl_cons, hm, hp, valuesOf_cons, valuesOf_cons]
    by_cases hpath : f.1 = lit ":path"
    · have hstep : h3ScanStep s f = { s with path := (h3PathStep (s.path, s.query) f.2).1
                                             query := (h3PathStep (s.path, s.query) f.2).2 } := by
        rw [h3ScanStep, if_pos hpath, h3PathStep]
        rcases cutQuery f.2 with ⟨path, _ | query⟩ <;> rfl
      rw [hstep, if_pos hpath, if_neg (fun hm => hne (hpath.symm.trans hm))]
      exact ⟨rfl, rfl⟩
    by_cases hmethod : f.1 = lit ":method"
    · have hstep : h3ScanStep s f = { s with method := f.2 } := by
        rw [h3ScanStep, if_neg hpath, if_pos hmethod]
      rw [hstep, if_pos hmethod, if_neg hpath, singleton_append, getLast?_cons]
      exact ⟨rfl, rfl⟩
    · have hstep : h3ScanStep s f = s := by rw [h3ScanStep, if_neg hpath, if_neg hmethod]
      rw [hstep, if_neg hpath, if_neg hmethod]
      exact ⟨rfl, rfl⟩

theorem cutQuery_append {a : Bytes} (h : (0x3f : UInt8) ∉ a) (c : Bytes) :
    cutQuery (a ++ 0x3f :: c) = (a, some c) := by
  have hall : ∀ b ∈ a, decide (b ≠ (0x3f : UInt8)) = true := fun b hb =>
    decide_eq_true fun hq => h (hq ▸ hb)
  have hdrop : (a ++ 0x3f :: c).dropWhile (fun b => decide (b ≠ (0x3f : UInt8))) = 0x3f :: c := by
    rw [dropWhile_append_of_pos hall]
    rfl
  have htake : (a ++ 0x3f :: c).takeWhile (fun b => decide (b ≠ (0x3f : UInt8))) = a := by
    rw [takeWhile_append_of_pos hall]
    exact append_nil a
  rw [cutQuery, hdrop, htake]

theorem cutQuery_of_absent {v : Bytes} (h : (0x3f : UInt8) ∉ v) : cutQuery v = (v, none) := by
  have hdrop : v.dropWhile (fun b => decide (b ≠ (0x3f : UInt8))) = [] :=
    dropWhile_eq_nil_iff.mpr fun b hb => decide_eq_true fun hq => h (hq ▸ hb)
  rw [cutQuery, hdrop]

theorem decodeLossy_eq_getD {d : Str} (hd : d.contains Utf8.replacementChar = false) (bs : Bytes) :
    Utf8.decodeLossy bs = (Utf8.fromUtf8? bs).getD d ↔ isUtf8 bs = true := by
  rw [isUtf8]
  rcases Utf8.decodeLossy_cases bs with hsome | ⟨hnone, hmem⟩
  · rw [hsome]
    exact ⟨fun _ => rfl, fun _ => rfl⟩
  · rw [hnone]
    refine ⟨fun h => ?_, fun h => (nomatch h)⟩
    rw [h, Option.getD_none, ← contains_iff_mem, hd] at hmem
    cases hmem

theorem some_decodeLossy_eq (bs : Bytes) :
    some (Utf8.decodeLossy bs) = Utf8.fromUtf8? bs ↔ isUtf8 bs = true := by
  rw [isUtf8]
  rcases Utf8.decodeLossy_cases bs with hsome | ⟨hnone, -⟩
  · rw [hsome]
    exact ⟨fun _ => rfl, fun _ => rfl⟩
  · rw [hnone]
    exact ⟨fun h => (nomatch h), fun h => (nomatch h)⟩

theorem isUtf8_append {c : UInt8} (hc : Utf8.isAscii c = true) (a b : Bytes) :
    isUtf8 (a ++ c :: b) = (isUtf8 a && isUtf8 b) := by
  rw [isUtf8, isUtf8, isUtf8, Utf8.fromUtf8?_append_ascii hc]
  rcases Utf8.fromUtf8? a with _ | s
  · rfl
  · rcases Utf8.fromUtf8? b with _ | t <;> rfl

theorem path_reading (pq : Str × Option Str) (pq' : Bytes × Option Bytes) (hpq : pq.2 = none)
    (hpq' : pq'.2 = none) (v : Bytes) : pathStep pq (Utf8.decodeLossy v) =
        ((Utf8.fromUtf8? (h3PathStep pq' v).1).getD "/".toList,
          (h3PathStep pq' v).2.bind Utf8.fromUtf8?) ↔ isUtf8 v = true := by
  have hmark : Utf8.isAscii 0x3f = true := by decide
  have habsent : ∀ {a : Bytes}, (0x3f : UInt8) ∉ a → '?' ∉ Utf8.decodeLossy a := fun ha hq =>
    ha ((Utf8.mem_decodeLossy_ascii hmark _).mp hq)
  by_cases hv : (0x3f : UInt8) ∈ v
  · obtain ⟨a, c, rfl, ha⟩ := eq_append_cons_of_mem hv
    have hcut : Text.cutAt '?' (Utf8.decodeLossy (a ++ 0x3f :: c)) =
        (Utf8.decodeLossy a, some (Utf8.decodeLossy c)) := by
      rw [Utf8.decodeLossy_append_ascii hmark]
      exact Text.cutAt_append _ (habsent ha)
    rw [pathStep, hcut, h3PathStep, cutQuery_append ha, isUtf8_append hmark, Bool.and_eq_true,
      Prod.mk.injEq, decodeLossy_eq_getD (by decide), Option.bind_some, some_decodeLossy_eq]
  · rw [pathStep, Text.cutAt_of_absent (habsent hv), h3PathStep, cutQuery_of_absent hv]
    simp only [hpq, hpq', Option.bind_none, Prod.mk.injEq, and_true]
    exact decodeLossy_eq_getD (by decide) v

/-! ### Fields -/

def isForwarded (f : RawField) : Bool := isRegular (Utf8.decodeLossy f.1, Utf8.decodeLossy f.2)

def readStrict (f : RawField) : Option (Str × Str) :=
  (Utf8.fromUtf8? f.1).bind fun k => (Utf8.fromUtf8? f.2).map fun v => (k, v)

theorem filter_isRegular_decodeHpack (headers : List RawField) :
    (decodeHpack headers).filter isRegular = decodeHpack (headers.filter isForwarded) :=
  filter_map

theorem filterMap_h3Field (headers : List RawField) :
    headers.filterMap h3Field = (headers.filter isForwarded).filterMap readStrict := by
  rw [filterMap_filter]
  refine filterMap_congr fun f _ => ?_
  have hcolon := Utf8.head?_decodeLossy (c := 0x3a) (by decide) f.1
  rw [h3Field, readStrict]
  by_cases hhead : f.1.head? = some 0x3a
  · have hpseudo : isForwarded f = false := by
      have hlossy : (Utf8.decodeLossy f.1).head? = some ':' := hcolon.mpr hhead
      simp [isForwarded, isRegular, hlossy]
    rw [if_pos hhead, hpseudo, if_neg Bool.false_ne_true]
  · have hregular : isForwarded f = !isUntrustedInbound (Utf8.decodeLossy f.1) := by
      have hlossy : (Utf8.decodeLossy f.1).head? ≠ some ':' := fun h => hhead (hcolon.mp h)
      simp [isForwarded, isRegular, hlossy]
    rw [if_neg hhead, hregular]
    rcases Utf8.decodeLossy_cases f.1 with hsome | ⟨hnone, -⟩
    · rw [hsome]
      by_cases huntrusted : isUntrustedInbound (Utf8.decodeLossy f.1) = true
      all_goals cases Utf8.fromUtf8? f.2 <;> simp [huntrusted]
    · rw [hnone]
      simp

theorem isSome_readStrict (f : RawField) : (readStrict f).isSome = (isUtf8 f.1 && isUtf8 f.2) := by
  rw [readStrict, isUtf8, isUtf8]
  rcases Utf8.fromUtf8? f.1 with _ | k
  · rfl
  · rcases Utf8.fromUtf8? f.2 with _ | v <;> rfl

theorem readStrict_eq {f : RawField} (h : (readStrict f).isSome = true) :
    readStrict f = some (Utf8.decodeLossy f.1, Utf8.decodeLossy f.2) := by
  rw [isSome_readStrict, Bool.and_eq_true] at h
  rw [readStrict, ← (some_decodeLossy_eq f.1).mpr h.1, ← (some_decodeLossy_eq f.2).mpr h.2]
  rfl

/-- Whether a `Host` is added. -/
def addsHost (authority : Option Str) (fwd : List (Str × Str)) : Bool :=
  authority.isSome && !containsHeader fwd "host".toList

theorem length_withHost (authority : Option Str) (fwd : List (Str × Str)) :
    (withHost authority fwd).length = fwd.length + (addsHost authority fwd).toNat := by
  cases authority with
  | none => rfl
  | some a =>
    simp only [withHost, addsHost, Option.isSome_some, Bool.true_and]
    split_ifs with h
    · rw [h, length_append]
      rfl
    · rw [Bool.not_eq_true] at h
      rw [h]
      rfl

theorem withHost_eq {authority : Option Str} {fwd : List (Str × Str)}
    (h : addsHost authority fwd = false) : withHost authority fwd = fwd := by
  cases authority with
  | none => rfl
  | some a =>
    rw [addsHost, Option.isSome_some, Bool.true_and] at h
    simp only [withHost]
    rw [h]
    rfl

/-- The forwarded fields are the same exactly if all are UTF-8 and no `Host` is added. -/
theorem fields_eq_iff (authority : Option Str) (kept : List RawField) :
    withHost authority (decodeHpack kept) = kept.filterMap readStrict ↔
      (∀ f ∈ kept, isUtf8 f.1 = true ∧ isUtf8 f.2 = true) ∧
        addsHost authority (decodeHpack kept) = false := by
  have hlossy : (decodeHpack kept).length = kept.length := length_map ..
  constructor
  · -- a field that HTTP/3 drops, and a `Host` that HTTP/2 adds, make the first list longer
    intro h
    have hlength := congrArg List.length h
    have hle : (kept.filterMap readStrict).length ≤ kept.length := length_filterMap_le ..
    rw [length_withHost, hlossy] at hlength
    have hnoHost : addsHost authority (decodeHpack kept) = false := by
      cases hadd : addsHost authority (decodeHpack kept) with
      | false => rfl
      | true =>
        rw [hadd, Bool.toNat_true] at hlength
        omega
    rw [hnoHost, Bool.toNat_false, Nat.add_zero] at hlength
    refine ⟨fun f hf => ?_, hnoHost⟩
    have hall := countP_eq_length.mp ((length_filterMap_eq_countP ..).symm.trans hlength.symm) f hf
    rwa [isSome_readStrict, Bool.and_eq_true] at hall
  · rintro ⟨hutf8, hnoHost⟩
    rw [withHost_eq hnoHost, decodeHpack, ← filterMap_eq_map]
    refine filterMap_congr fun f hf => ?_
    have hsome : (readStrict f).isSome = true := by
      rw [isSome_readStrict, Bool.and_eq_true]
      exact hutf8 f hf
    exact (readStrict_eq hsome).symm

/-! ### Requests -/

def RawRequest.essence (r : RawRequest) : Str × Str × Option Str × List (Str × Str) × Bytes :=
  (r.method, r.path, r.query, r.headers, r.body)

def SameReading (headers headers' : List RawField) : Prop :=
  (buildRequest (decodeHpack headers) []).1.essence = (h3Request headers' []).essence

/-- A section that both protocols read alike: no CONNECT, nothing but UTF-8 in what is kept, and
no `:authority` without a `host`. -/
structure Plain (headers : List RawField) : Prop where
  method : ∀ m ∈ valuesOf ":method" headers, m ≠ lit "CONNECT" ∧ isUtf8 m = true
  path : ∀ v ∈ valuesOf ":path" headers, isUtf8 v = true
  fields : ∀ f ∈ headers, isForwarded f = true → isUtf8 f.1 = true ∧ isUtf8 f.2 = true
  host : valuesOf ":authority" headers = [] ∨
    containsHeader (decodeHpack (headers.filter isForwarded)) "host".toList = true

theorem essence_buildRequest (headers : List RawField) (body : Bytes) :
    (buildRequest (decodeHpack headers) body).1.essence =
      (((valuesOf ":method" headers).map Utf8.decodeLossy).getLast?.getD [],
        (((valuesOf ":path" headers).map Utf8.decodeLossy).foldl pathStep ([], none)).1,
        (((valuesOf ":path" headers).map Utf8.decodeLossy).foldl pathStep ([], none)).2,
        withHost ((valuesOf ":authority" headers).map Utf8.decodeLossy).getLast?
          (decodeHpack (headers.filter isForwarded)), body) := by
  obtain ⟨hm, hp, ha⟩ := foldl_buildStep (decodeHpack headers) ⟨[], [], none, [], none, none⟩
  have hf := fwd_foldl (decodeHpack headers) ⟨[], [], none, [], none, none⟩
  rw [namedValues_decodeHpack (by decide)] at hm hp ha
  rw [filter_isRegular_decodeHpack, nil_append] at hf
  simp only [RawRequest.essence, buildRequest]
  rw [hm, hf, ha, ← hp, Option.or_none]

theorem essence_h3Request (headers : List RawField) (body : Bytes) :
    (h3Request headers body).essence =
      ((Utf8.fromUtf8? ((valuesOf ":method" headers).getLast?.getD (lit "GET"))).getD "GET".toList,
        (Utf8.fromUtf8? ((valuesOf ":path" headers).foldl h3PathStep (lit "/", none)).1).getD
          "/".toList,
        ((valuesOf ":path" headers).foldl h3PathStep (lit "/", none)).2.bind Utf8.fromUtf8?,
        (headers.filter isForwarded).filterMap readStrict, body) := by
  obtain ⟨hm, hp⟩ := foldl_h3ScanStep headers ⟨lit "/", none, lit "GET"⟩
  simp only [RawRequest.essence, h3Request, h3Scan, filterMap_h3Field]
  rw [hm, ← hp]

theorem sameReading_self {headers : List RawField} (h : isValid headers = true) :
    SameReading headers headers ↔ Plain headers := by
  obtain ⟨m, hm, htarget⟩ := valuesOf_of_valid h
  rw [SameReading, essence_buildRequest, essence_h3Request, hm]
  simp only [Prod.mk.injEq, and_true, map_cons, map_nil, getLast?_singleton, Option.getD_some]
  rw [decodeLossy_eq_getD (by decide), fields_eq_iff]
  have hhost : addsHost ((valuesOf ":authority" headers).map Utf8.decodeLossy).getLast?
      (decodeHpack (headers.filter isForwarded)) = false ↔
      (valuesOf ":authority" headers = [] ∨
        containsHeader (decodeHpack (headers.filter isForwarded)) "host".toList = true) := by
    rw [addsHost]
    cases valuesOf ":authority" headers with
    | nil => simp
    | cons v vs => simp [getLast?_cons]
  rw [hhost]
  rcases htarget with ⟨hconnect, hpath⟩ | ⟨hconnect, v, hpath⟩
  · -- a CONNECT has no path over HTTP/2, and the default one over HTTP/3
    rw [hpath]
    constructor
    · rintro ⟨-, hroot, -⟩
      exact absurd hroot (by decide)
    · intro hplain
      exact absurd hconnect (hplain.method m (by rw [hm]; exact mem_cons_self ..)).1
  · rw [hpath]
    have hreading := path_reading ([], none) (lit "/", none) rfl rfl v
    rw [Prod.mk.injEq] at hreading
    simp only [map_cons, map_nil, foldl_cons, foldl_nil]
    constructor
    · rintro ⟨hmethod, hp, hq, hfields, hauthority⟩
      refine ⟨?_, ?_, fun f hf hforwarded => hfields f (mem_filter.mpr ⟨hf, hforwarded⟩),
        hauthority⟩
      · rw [hm]
        intro m' hm'
        rw [mem_singleton.mp hm']
        exact ⟨hconnect, hmethod⟩
      · rw [hpath]
        intro v' hv'
        rw [mem_singleton.mp hv']
        exact hreading.mp ⟨hp, hq⟩
    · intro hplain
      obtain ⟨hp, hq⟩ := hreading.mpr (hplain.path v (by rw [hpath]; exact mem_cons_self ..))
      refine ⟨(hplain.method m (by rw [hm]; exact mem_cons_self ..)).2, hp, hq, ?_, hplain.host⟩
      intro f hf
      obtain ⟨hmem, hforwarded⟩ := mem_filter.mp hf
      exact hplain.fields f hmem hforwarded

/-! ## Agreement -/

def Agree {body : Bytes} (headers : List RawField) (trailers : Option (List RawField))
    (p : H2Presentation body) (p' : H3Presentation body) : Prop :=
  (h2Handed headers trailers p).map RawRequest.essence =
    (h3Handed headers trailers p').map RawRequest.essence

def LengthOk (headers : List RawField) (body : Bytes) : Prop :=
  ∀ n, declaredLength (decodeHpack headers) = some n → n = body.length

def H2Passes (x : List RawField × Bytes) : Prop := isValid x.1 = true ∧ LengthOk x.1 x.2

/-- **When the protocols agree.** Without trailers: the section is malformed; or the body is too
large and HTTP/2 waits for it, or refuses before for its length; or the body fits, HTTP/2
waits for it or it is empty, its declared length is right, and the section is plain. With
trailers: they make no request of their own and HTTP/2 refuses too; or they do, and it is the
one that HTTP/2 hands over. -/
def Agreeable (splitTrailers : Bool) (headers : List RawField) (body : Bytes)
    (trailers : Option (List RawField)) : Prop :=
  match trailers with
  | none =>
    isValid headers = false ∨
      (body.length > maxH3Body ∧
        (isHeadersonly (decodeHpack headers) = true → ¬ LengthOk headers [])) ∨
      (body.length ≤ maxH3Body ∧ (isHeadersonly (decodeHpack headers) = true → body = []) ∧
        LengthOk headers body ∧ Plain headers)
  | some t =>
    if isValid t then
      ∃ x, h2Submission splitTrailers headers body trailers = some x ∧ H2Passes x ∧
        x.2 = (if body.length > maxH3Body then [] else body) ∧ SameReading x.1 t
    else ∀ x, h2Submission splitTrailers headers body trailers = some x → ¬ H2Passes x

theorem h2Accept_eq (headers : List RawField) (body : Bytes) [Decidable (LengthOk headers body)] :
    h2Accept (decodeHpack headers) body =
      if isValid headers = true ∧ LengthOk headers body then
        some (buildRequest (decodeHpack headers) body).1
      else none := by
  have hlength : (∃ n ∈ declaredLength (decodeHpack headers), n ≠ body.length) ↔
      ¬ LengthOk headers body := by
    rw [LengthOk]
    simp only [Option.mem_def, ne_eq, not_forall, exists_prop]
  rw [h2Accept, validateRequestHeaders_decodeHpack]
  by_cases hok : LengthOk headers body
  · rw [if_neg fun h => hlength.mp h hok, isValid]
    cases validateRequestHeaderBytes headers with
    | error e => rfl
    | ok u => rw [if_pos ⟨rfl, hok⟩]
  · rw [if_pos (hlength.mpr hok), if_neg fun h => hok h.2]

theorem h3Accept_eq (headers : List RawField) (body : Bytes) :
    h3Accept headers body =
      if isValid headers = true then some (h3Request headers body) else none := by
  rw [h3Accept, isValid]
  cases validateRequestHeaderBytes headers <;> rfl

theorem essence_eq_iff {headers headers' : List RawField} {body body' : Bytes} :
    (buildRequest (decodeHpack headers) body).1.essence = (h3Request headers' body').essence ↔
      body = body' ∧ SameReading headers headers' := by
  rw [SameReading, essence_buildRequest, essence_h3Request, essence_buildRequest, essence_h3Request]
  simp only [Prod.mk.injEq, and_true]
  tauto

theorem agree_iff_submissions {body : Bytes} (headers : List RawField)
    (trailers : Option (List RawField)) (p : H2Presentation body) (p' : H3Presentation body) :
    Agree headers trailers p p' ↔
      (((∀ x, h2Submission p.splitTrailers headers body trailers = some x → ¬ H2Passes x) ∧
          ∀ y, h3Submission headers body trailers = some y → isValid y.1 = false) ∨
        ∃ x y, h2Submission p.splitTrailers headers body trailers = some x ∧
          h3Submission headers body trailers = some y ∧ H2Passes x ∧ isValid y.1 = true ∧
          x.2 = y.2 ∧ SameReading x.1 y.1) := by
  classical
  rw [Agree, h2Handed_eq, h3Handed_eq]
  rcases h2Submission p.splitTrailers headers body trailers with _ | x <;>
  rcases h3Submission headers body trailers with _ | y
  · simp
  · simp only [Option.bind_none, Option.bind_some, h3Accept_eq]
    split_ifs with hy <;> simp [hy]
  · simp only [Option.bind_none, Option.bind_some, h2Accept_eq]
    split_ifs with hx
    · simp [H2Passes, hx]
    · simp only [Option.toList_none, map_nil, true_iff]
      refine .inl ⟨?_, fun y hy => (nomatch hy)⟩
      rintro x' ⟨⟩
      exact hx
  · simp only [Option.bind_some, h2Accept_eq, h3Accept_eq, Option.some.injEq, forall_eq',
      exists_and_left, exists_eq_left']
    split_ifs with hx hy hy
    · simp only [Option.toList_some, map_cons, map_nil, List.cons.injEq, and_true, essence_eq_iff]
      have hpass : H2Passes x := hx
      simp [hpass, hy]
    · have hpass : H2Passes x := hx
      simp [hpass, hy]
    all_goals
      have hpass : ¬ H2Passes x := hx
      simp [hpass, hy]

theorem agree_iff_trailers {body : Bytes} (headers t : List RawField) (p : H2Presentation body)
    (p' : H3Presentation body) :
    Agree headers (some t) p p' ↔ Agreeable p.splitTrailers headers body (some t) := by
  rw [agree_iff_submissions, Agreeable]
  by_cases hvalid : isValid t = true
  · rw [if_pos hvalid]
    constructor
    · rintro (⟨-, hnone⟩ | ⟨x, y, hx, ⟨⟩, hpass, -, hbody, hsame⟩)
      · rw [hnone _ rfl] at hvalid
        cases hvalid
      · exact ⟨x, hx, hpass, hbody, hsame⟩
    · rintro ⟨x, hx, hpass, hbody, hsame⟩
      exact .inr ⟨x, _, hx, rfl, hpass, hvalid, hbody, hsame⟩
  · rw [if_neg hvalid]
    constructor
    · rintro (⟨hnone, -⟩ | ⟨x, y, -, ⟨⟩, -, hvalid', -⟩)
      · exact hnone
      · exact absurd hvalid' hvalid
    · intro hnone
      refine .inl ⟨hnone, ?_⟩
      rintro y ⟨⟩
      simpa using hvalid

theorem h2Submission_none (splitTrailers : Bool) (headers : List RawField) (body : Bytes) :
    h2Submission splitTrailers headers body none =
      if isHeadersonly (decodeHpack headers) then some (headers, [])
      else if body.length > maxH3Body then none else some (headers, body) := rfl

theorem agree_iff_no_trailers {body : Bytes} (headers : List RawField) (p : H2Presentation body)
    (p' : H3Presentation body) :
    Agree headers none p p' ↔ Agreeable p.splitTrailers headers body none := by
  rw [agree_iff_submissions, Agreeable, h2Submission_none, h3Submission]
  by_cases hvalid : isValid headers = true
  · have hinvalid : ¬ isValid headers = false := fun h => absurd (hvalid.symm.trans h) (by decide)
    by_cases hcap : body.length > maxH3Body
    · -- HTTP/3 refuses
      have hsmall : ¬ body.length ≤ maxH3Body := by omega
      rw [if_pos hcap]
      by_cases honly : isHeadersonly (decodeHpack headers) = true
      · simp [honly, hcap, hsmall, hinvalid, H2Passes]
      · simp [honly, hcap, hinvalid]
    · -- HTTP/3 hands the request over
      have hsmall : body.length ≤ maxH3Body := by omega
      rw [if_neg hcap]
      by_cases honly : isHeadersonly (decodeHpack headers) = true
      · have hbody : ([] : Bytes) = body ↔ body = [] := eq_comm
        simp only [honly, if_true, Option.some.injEq, forall_eq', exists_and_left, exists_eq_left',
          H2Passes, hvalid, true_and, sameReading_self hvalid, hcap, hsmall, false_and, false_or,
          forall_const, hbody, Bool.true_eq_false, and_false]
        constructor
        · rintro ⟨hlength, rfl, hplain⟩
          exact ⟨rfl, hlength, hplain⟩
        · rintro ⟨rfl, hlength, hplain⟩
          exact ⟨hlength, rfl, hplain⟩
      · simp [honly, hcap, hsmall, H2Passes, hvalid, sameReading_self hvalid]
  · -- both refuse
    rw [Bool.not_eq_true] at hvalid
    refine iff_of_true (.inl ⟨?_, ?_⟩) (.inl hvalid)
    · intro x hx hpass
      have hheaders : x.1 = headers := by
        split_ifs at hx <;> cases hx <;> rfl
      rw [H2Passes, hheaders, hvalid] at hpass
      cases hpass.1
    · intro y hy
      split_ifs at hy
      cases hy
      exact hvalid

/-- **HTTP/2 and HTTP/3 on one request.** For every header section, body and trailer section, cut
into frames and events in any way, the two hand over the same if and only if the request is
agreeable. -/
theorem agree_iff {body : Bytes} (headers : List RawField) (trailers : Option (List RawField))
    (p : H2Presentation body) (p' : H3Presentation body) :
    Agree headers trailers p p' ↔ Agreeable p.splitTrailers headers body trailers := by
  cases trailers with
  | none => exact agree_iff_no_trailers headers p p'
  | some t => exact agree_iff_trailers headers t p p'

def declaringPost (length : String) : List RawField :=
  [(lit ":method", lit "POST"), (lit ":scheme", lit "https"), (lit ":path", lit "/"),
    (lit "host", lit "example.org"), (lit "content-length", lit length)]

theorem protocols_differ :
    ¬ Agree (declaringPost "5") none (⟨[[1, 2, 3]], false, false, rfl⟩ : H2Presentation [1, 2, 3])
        ⟨[[[1, 2, 3]]], true, rfl, by decide⟩ ∧
      ¬ Agree (declaringPost "3") (some [(lit "x-sum", lit "6")])
        (⟨[[1, 2, 3]], false, false, rfl⟩ : H2Presentation [1, 2, 3])
        ⟨[[[1, 2, 3]]], true, rfl, by decide⟩ := by
  constructor <;> intro h
  all_goals
    have hlength := congrArg List.length h
    rw [length_map, length_map] at hlength
    exact absurd hlength (by decide +kernel)

end M6
