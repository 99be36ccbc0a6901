import M6.File.Serve
import M6.Lib.Runs

/-!
# Entity tags over the history of a file

The tag that `serve` gives a representation names the second of the file's time, its size and the
coding (`etagText_inj`). The bytes also depend on what else the file holds, and on the settings for
its type.

`Site` is a URL over time: what it addresses changes, the config is loaded again, and clients ask.
Every answer is kept, a 304 with the body that it stands for. `strong_of_settled` says that tags are
strong in every run in which a second, a size and a coding stand for one content and one setting.
-/

namespace M6.FileServer

open List M6.App Text

/-! ## What a tag names -/

def hexValue (c : Char) : Nat := "0123456789abcdef".toList.idxOf c

theorem hexValue_digitChar : ∀ d < 16, hexValue (Nat.digitChar d) = d := by decide

theorem digitChar_mem : ∀ d < 16, Nat.digitChar d ∈ "0123456789abcdef".toList := by decide

theorem foldl_hexValue (n : Nat) :
    (Nat.toDigits 16 n).foldl (fun v c => 16 * v + hexValue c) 0 = n := by
  induction n using Nat.strongRecOn with
  | _ n ih =>
    rcases Nat.lt_or_ge n 16 with hlt | hge
    · rw [Nat.toDigits_of_lt_base hlt, foldl_cons, foldl_nil, hexValue_digitChar n hlt]
      omega
    · rw [Nat.toDigits_of_base_le (by decide) hge, foldl_append, ih (n / 16) (by omega),
        foldl_cons, foldl_nil, hexValue_digitChar _ (by omega)]
      omega

theorem mem_toDigits {n : Nat} {c : Char} (h : c ∈ Nat.toDigits 16 n) :
    c ∈ "0123456789abcdef".toList := by
  induction n using Nat.strongRecOn with
  | _ n ih =>
    rcases Nat.lt_or_ge n 16 with hlt | hge
    · rw [Nat.toDigits_of_lt_base hlt] at h
      exact mem_singleton.mp h ▸ digitChar_mem n hlt
    · rw [Nat.toDigits_of_base_le (by decide) hge] at h
      rcases mem_append.mp h with h | h
      · exact ih (n / 16) (by omega) h
      · exact mem_singleton.mp h ▸ digitChar_mem _ (by omega)

theorem toDigits_append_inj {n n' : Nat} {c c' : Char} {s s' : Str}
    (hc : c ∉ "0123456789abcdef".toList) (hc' : c' ∉ "0123456789abcdef".toList)
    (h : Nat.toDigits 16 n ++ c :: s = Nat.toDigits 16 n' ++ c' :: s') :
    n = n' ∧ c :: s = c' :: s' := by
  have hdigits : ∀ (n : Nat) (c : Char) (s : Str), c ∉ "0123456789abcdef".toList →
      (Nat.toDigits 16 n ++ c :: s).takeWhile (fun c => decide (c ∈ "0123456789abcdef".toList)) =
        Nat.toDigits 16 n := by
    intro n c s hc
    rw [takeWhile_append_of_pos fun x hx => decide_eq_true (mem_toDigits hx),
      takeWhile_cons_of_neg (by simpa using hc), append_nil]
  have hsame : Nat.toDigits 16 n = Nat.toDigits 16 n' := by
    rw [← hdigits n c s hc, h, hdigits n' c' s' hc']
  refine ⟨?_, ?_⟩
  · rw [← foldl_hexValue n, hsame, foldl_hexValue]
  · rw [hsame] at h
    exact append_cancel_left h

/-- **A tag names** a second, a size and a coding, and no other. -/
theorem etagText_inj {m m' : Metadata} {e e' : Encoding}
    (h : etagText m (etagSuffix e) = etagText m' (etagSuffix e')) :
    m.modified / second = m'.modified / second ∧ m.len = m'.len ∧ e = e' := by
  have hend : ∀ e : Encoding, ∃ c s, etagSuffix e ++ ['"'] = c :: s ∧
      c ∉ "0123456789abcdef".toList := by
    intro e
    cases e with
    | identity => exact ⟨'"', [], rfl, by decide⟩
    | brotli | gzip => exact ⟨'-', _, rfl, by decide⟩
  obtain ⟨c, s, hs, hc⟩ := hend e
  obtain ⟨c', s', hs', hc'⟩ := hend e'
  simp only [etagText, cons_append, append_assoc, List.cons.injEq, true_and] at h
  obtain ⟨htime, hrest⟩ := toDigits_append_inj (by decide) (by decide) h
  rw [List.cons.injEq, hs, hs'] at hrest
  obtain ⟨hlen, hmark⟩ := toDigits_append_inj hc hc' hrest.2
  refine ⟨htime, hlen, ?_⟩
  rw [← hs, ← hs'] at hmark
  have hsuffix := append_cancel_right hmark
  revert hsuffix
  cases e <;> cases e' <;> decide

/-! ## What a representation is made of -/

def bodyBytes : Body → Bytes
  | .bytes b => b
  | .stream len reader => (copyStream len reader ⟨[], none⟩).1.sent

def fileReads (content : Bytes) : List ReadResult :=
  if _h : content = [] then []
  else .data (content.take bufferSize) :: fileReads (content.drop bufferSize)
termination_by content.length
decreasing_by
  have hpos := List.length_pos_of_ne_nil _h
  have hbuf : 0 < bufferSize := by decide
  rw [List.length_drop]
  omega

theorem take_buffer (content : Bytes) (buffer n : Nat) : content.take (min buffer n) ++
        (content.drop buffer).take (n - min (min buffer n) content.length) = content.take n := by
  rcases Nat.lt_or_ge content.length buffer with hlt | hge
  · rw [drop_eq_nil_of_le hlt.le, take_nil, append_nil, take_eq_take_iff]
    omega
  · rcases Nat.le_total n buffer with hn | hn
    · rw [Nat.min_eq_right hn, Nat.min_eq_left (by omega), Nat.sub_self, take_zero, append_nil]
    · rw [Nat.min_eq_left hn, Nat.min_eq_left hge, ← take_add]
      congr 1
      omega

theorem copyStream_fileReads (n : Nat) (content sent : Bytes) :
    (copyStream n (fileReads content) ⟨sent, none⟩).1.sent = sent ++ content.take n := by
  induction hn : content.length using Nat.strongRecOn generalizing content n sent with
  | _ k ih =>
    subst hn
    have hbuf : 0 < bufferSize := by decide
    rw [fileReads]
    split_ifs with hnil
    · subst hnil
      cases n <;> simp [copyStream]
    · have hpos := length_pos_of_ne_nil hnil
      cases n with
      | zero => simp [copyStream]
      | succ n =>
        have hchunk : (content.take bufferSize).take (min bufferSize (n + 1)) =
            content.take (min bufferSize (n + 1)) := by
          rw [take_take, Nat.min_eq_left (Nat.min_le_left _ _)]
        have hlen : (content.take (min bufferSize (n + 1))).length =
            min (min bufferSize (n + 1)) content.length := length_take
        have hne : content.take (min bufferSize (n + 1)) ≠ [] := by
          intro h
          rw [h, length_nil] at hlen
          omega
        simp only [copyStream, hchunk]
        rw [if_neg hne, Wire.write_of_unlimited rfl]
        simp only [if_true]
        rw [ih (content.drop bufferSize).length (by rw [length_drop]; omega) _ _ _ rfl, hlen,
          append_assoc]
        rw [take_buffer]

/-- What a representation is made of: what was found of the file, what was read of it, and what was
settled about the request. -/
structure Made where
  metadata : Metadata
  content : Bytes
  plan : Plan

namespace Made

variable (lib : Library) (a b : Made)

def plainBytes : Bytes :=
  if a.plan.minifyThis then
    minifyAs lib.transforms ((a.plan.mime.splitOn ';').headD a.plan.mime) a.plan.inlineJs a.content
  else a.content

def coded : Option Bytes :=
  match a.plan.encoding with
  | .identity => none
  | .brotli => lib.transforms.brotliCompress (a.plainBytes lib) (a.plan.level.getD 6)
  | .gzip => lib.transforms.gzipCompress (a.plainBytes lib) (a.plan.level.getD 6)

def applied : Encoding := if (a.coded lib).isSome then a.plan.encoding else .identity

def sentBytes : Bytes :=
  if a.plan.isTheFile a.metadata then a.content.take a.metadata.len
  else (a.coded lib).getD (a.plainBytes lib)

/-- Two representations that a tag cannot tell apart: of one second, one size and one coding. The
second is also told by the coding that was meant for it. -/
def SameMark : Prop :=
  a.metadata.modified / second = b.metadata.modified / second ∧ a.metadata.len = b.metadata.len ∧
    (a.applied lib = b.applied lib ∨ a.applied lib = b.plan.encoding)

/-- Two representations that are made alike: from one content, of one type, under one setting. -/
structure SameMaking : Prop where
  content : a.content = b.content
  isFile : a.metadata.isFile = b.metadata.isFile
  mime : a.plan.mime = b.plan.mime
  minifyThis : a.plan.minifyThis = b.plan.minifyThis
  inlineJs : a.plan.inlineJs = b.plan.inlineJs
  level : a.applied lib ≠ .identity → a.plan.level = b.plan.level
  /-- a coding that failed leaves the bytes of the file, if these are as many as was said -/
  whole : a.plan.encoding = b.plan.encoding ∨ a.content.length = a.metadata.len

variable {lib a b}

theorem SameMaking.refl (a : Made) : SameMaking lib a a :=
  ⟨rfl, rfl, rfl, rfl, rfl, fun _ => rfl, .inl rfl⟩

theorem SameMaking.plainBytes_eq (h : SameMaking lib a b) :
    a.plainBytes lib = b.plainBytes lib := by
  rw [plainBytes, plainBytes, h.minifyThis, h.mime, h.inlineJs, h.content]

theorem encoding_ne_of_coded (h : (a.coded lib).isSome = true) : a.plan.encoding ≠ .identity := by
  intro he
  rw [coded, he] at h
  cases h

theorem applied_of_coded (h : (a.coded lib).isSome = true) : a.applied lib = a.plan.encoding :=
  if_pos h

theorem applied_of_not_coded (h : a.coded lib = none) : a.applied lib = .identity := by
  rw [applied, h]
  rfl

theorem coded_eq (hmark : SameMark lib a b) (h : SameMaking lib a b) : a.coded lib =
    b.coded lib := by
  obtain ⟨-, -, hcoding⟩ := hmark
  cases ha : a.coded lib with
  | some bytes =>
    have hsome : (a.coded lib).isSome = true := by rw [ha]; rfl
    have hne := encoding_ne_of_coded hsome
    rw [applied_of_coded hsome] at hcoding
    have henc : a.plan.encoding = b.plan.encoding := by
      rcases hcoding with hb | hb
      · cases hcb : b.coded lib with
        | none =>
          rw [applied_of_not_coded hcb] at hb
          exact absurd hb hne
        | some bytes' =>
          rw [applied_of_coded (a := b) (by rw [hcb]; rfl)] at hb
          exact hb
      · exact hb
    have hlevel := h.level (by rw [applied_of_coded hsome]; exact hne)
    rw [← ha, coded, coded, henc, hlevel, h.plainBytes_eq]
  | none =>
    rw [applied_of_not_coded ha] at hcoding
    cases hcb : b.coded lib with
    | none => rfl
    | some bytes' =>
      have hsome : (b.coded lib).isSome = true := by rw [hcb]; rfl
      rw [applied_of_coded hsome, or_self] at hcoding
      exact absurd hcoding.symm (encoding_ne_of_coded hsome)

theorem sentBytes_of_whole (hminify : a.plan.minifyThis = false) (hcoded : a.coded lib = none)
    (hlen : a.content.length = a.metadata.len) : a.sentBytes lib = a.content := by
  rw [sentBytes]
  split_ifs
  · rw [← hlen, take_length]
  · rw [hcoded, Option.getD_none, plainBytes, hminify]
    rfl

/-- **What is made alike is the same.** -/
theorem sentBytes_eq (hmark : SameMark lib a b) (h : SameMaking lib a b) :
    a.sentBytes lib = b.sentBytes lib := by
  have hcoded := coded_eq hmark h
  have hlen := hmark.2.1
  rcases h.whole with henc | hwhole
  · have hfile : a.plan.isTheFile a.metadata = b.plan.isTheFile b.metadata := by
      rw [Plan.isTheFile, Plan.isTheFile, henc, h.isFile, h.minifyThis]
    rw [sentBytes, sentBytes, hfile, h.content, hlen, hcoded, h.plainBytes_eq]
  · by_cases hfile : a.plan.isTheFile a.metadata = true ∨ b.plan.isTheFile b.metadata = true
    · -- one of them is the file itself, so neither is minified or coded
      have hplain : a.plan.minifyThis = false ∧ a.coded lib = none := by
        rcases hfile with hfile | hfile
        · simp only [Plan.isTheFile, Bool.and_eq_true, decide_eq_true_eq,
            Bool.not_eq_true'] at hfile
          exact ⟨hfile.2, by rw [coded, hfile.1.2]⟩
        · simp only [Plan.isTheFile, Bool.and_eq_true, decide_eq_true_eq,
            Bool.not_eq_true'] at hfile
          exact ⟨h.minifyThis.trans hfile.2, by rw [hcoded, coded, hfile.1.2]⟩
      rw [sentBytes_of_whole hplain.1 hplain.2 hwhole,
        sentBytes_of_whole (h.minifyThis ▸ hplain.1) (hcoded ▸ hplain.2)
          (by rw [← h.content, hwhole, hlen]), h.content]
    · rw [not_or, Bool.not_eq_true, Bool.not_eq_true] at hfile
      rw [sentBytes, sentBytes, hfile.1, hfile.2, hcoded, h.plainBytes_eq]
      rfl

end Made

/-! ## What a request is answered with -/

/-- What a URL addresses at one time. -/
structure Version where
  path : Str
  content : Bytes
  modified : Nat

def Version.metadata (v : Version) : Metadata := ⟨v.modified, v.content.length, true⟩

def lookupOf (found read : Version) : Lookup where
  escapes := false
  metadata := some found.metadata
  opened := some (fileReads read.content)
  data := some read.content
  content := read.content
  access := ⟨[], none⟩

def isConditional (h : Str × Str) : Bool :=
  ["if-match".toList, "if-none-match".toList, "if-modified-since".toList,
    "if-unmodified-since".toList].any (eqIgnoreAsciiCase h.1)

def unconditional (raw : RawRequest) : RawRequest :=
  { raw with headers := raw.headers.filter fun h => !isConditional h }

section

variable (lib : Library) (config : Option RendererConfig) (raw : RawRequest) (found read : Version)

/-- The answer to a `GET`. -/
def answerTo : AppResponse :=
  answered (serve lib config false (asGet raw) found.path (lookupOf found read))

def madeFor : Made :=
    ⟨found.metadata, read.content, planOf lib config raw found.path found.metadata⟩

def represent (plan : Plan) : AppResponse :=
  if plan.isTheFile found.metadata then
    sendFile (asGet raw) (lookupOf found read) plan found.metadata
  else sendMade lib (lookupOf found read) plan found.metadata

def representation : AppResponse :=
  represent lib raw found read (planOf lib config raw found.path found.metadata)

theorem answerTo_cases :
    let plan := planOf lib config raw found.path found.metadata
    let etag := etagText found.metadata (etagSuffix plan.encoding)
    answerTo lib config raw found read = representation lib config raw found read ∨
      answerTo lib config raw found read =
        verbatim 412 (plan.validatorHeaders etag) (.bytes []) ∨
      answerTo lib config raw found read =
        verbatim 304 (plan.validatorHeaders etag) (.bytes []) := by
  have hget : ¬ ((asGet raw).method ≠ "GET".toList ∧ (asGet raw).method ≠ "HEAD".toList) :=
    fun h => h.1 rfl
  intro plan etag
  rw [answerTo, serve, if_neg hget]
  simp only [lookupOf, Bool.false_eq_true, if_false, answered, serveFound]
  cases preconditionOf lib (asGet raw) (planOf lib config (asGet raw) found.path found.metadata)
      found.metadata with
  | failed => exact .inr (.inl rfl)
  | notModified => exact .inr (.inr rfl)
  | proceed => exact .inl rfl

theorem header_unconditional (name : Str) : header (unconditional raw).headers name =
      if isConditional (name, []) then none else header raw.headers name := by
  have hname : ∀ h : Str × Str, eqIgnoreAsciiCase h.1 name = true →
      isConditional h = isConditional (name, []) := by
    intro h hh
    have hlower : toAsciiLowercase h.1 = toAsciiLowercase name := eq_of_beq hh
    have hsame : eqIgnoreAsciiCase h.1 = eqIgnoreAsciiCase name := by
      funext t
      rw [eqIgnoreAsciiCase, eqIgnoreAsciiCase, hlower]
    rw [isConditional, isConditional, hsame]
  rw [header, header, unconditional, find?_filter]
  split_ifs with hcond
  · rw [find?_eq_none.mpr]
    · rfl
    · intro h _ hh
      obtain ⟨hplain, hnamed⟩ := of_decide_eq_true hh
      rw [hname h hnamed, hcond] at hplain
      exact absurd hplain (by decide)
  · congr 2
    funext h
    cases hh : eqIgnoreAsciiCase h.1 name with
    | false => simp
    | true =>
      rw [hname h hh]
      simpa using hcond

theorem evaluatePreconditions_of_none {headers : List (Str × Str)}
    (hmatch : header headers "if-match".toList = none)
    (hnoneMatch : header headers "if-none-match".toList = none)
    (hmodified : header headers "if-modified-since".toList = none)
    (hunmodified : header headers "if-unmodified-since".toList = none) (date : HttpDate)
    (cached : List (Str × Str)) (method : Str) :
    evaluatePreconditions date cached headers method = .proceed := by
  rw [evaluatePreconditions, hmatch, hnoneMatch, hmodified, hunmodified]
  simp only [Option.any_none, Bool.false_eq_true, if_false, Bool.and_false]

theorem answerTo_unconditional :
    answerTo lib config (unconditional raw) found read =
      representation lib config raw found read := by
  have hget : ¬ ((asGet (unconditional raw)).method ≠ "GET".toList ∧
      (asGet (unconditional raw)).method ≠ "HEAD".toList) := fun h => h.1 rfl
  have hnone : ∀ name ∈ ["if-match".toList, "if-none-match".toList, "if-modified-since".toList,
      "if-unmodified-since".toList], header (unconditional raw).headers name = none := by
    intro name hmem
    rw [header_unconditional, if_pos]
    revert name
    decide
  have hplan : planOf lib config (asGet (unconditional raw)) found.path found.metadata =
      planOf lib config raw found.path found.metadata := by
    have haccept : (asGet (unconditional raw)).header "accept-encoding".toList =
        raw.header "accept-encoding".toList :=
      (header_unconditional raw _).trans (if_neg (by decide))
    simp only [planOf, haccept]
    rfl
  have hproceed : ∀ plan m, preconditionOf lib (asGet (unconditional raw)) plan m = .proceed :=
    fun plan m => evaluatePreconditions_of_none (hnone _ (by decide)) (hnone _ (by decide))
      (hnone _ (by decide)) (hnone _ (by decide)) lib.date _ _
  rw [answerTo, serve, if_neg hget]
  simp only [lookupOf, Bool.false_eq_true, if_false, answered, serveFound, hplan, hproceed]
  rfl

theorem encodeBody_eq (a : Made) : encodeBody lib a.plan a.metadata (a.plainBytes lib) =
      ((a.coded lib).getD (a.plainBytes lib),
        (encodeBody lib a.plan a.metadata (a.plainBytes lib)).2.1,
        etagText a.metadata (etagSuffix (a.applied lib))) := by
  rw [encodeBody, Made.applied, Made.coded]
  cases a.plan.encoding with
  | identity => rfl
  | brotli =>
    dsimp only
    cases lib.transforms.brotliCompress (a.plainBytes lib) (a.plan.level.getD 6) <;> rfl
  | gzip =>
    dsimp only
    cases lib.transforms.gzipCompress (a.plainBytes lib) (a.plan.level.getD 6) <;> rfl

/-- **A representation**, its tag and its bytes. -/
theorem represent_spec (plan : Plan) :
    (represent lib raw found read plan).status = 200 ∧
      header (represent lib raw found read plan).headers "ETag".toList =
        some (etagText found.metadata
          (etagSuffix (Made.applied lib ⟨found.metadata, read.content, plan⟩))) ∧
      bodyBytes (represent lib raw found read plan).body =
        Made.sentBytes lib ⟨found.metadata, read.content, plan⟩ := by
  have hmethod : (asGet raw).method ≠ "HEAD".toList := show "GET".toList ≠ "HEAD".toList by decide
  rw [represent, Made.sentBytes]
  split_ifs with hfile
  · have henc : plan.encoding = .identity := by
      simp only [Plan.isTheFile, Bool.and_eq_true, decide_eq_true_eq] at hfile
      exact hfile.1.2
    have happlied : Made.applied lib ⟨found.metadata, read.content, plan⟩ = .identity :=
      Made.applied_of_not_coded (by rw [Made.coded, henc])
    rw [sendFile, if_neg hmethod, happlied, henc]
    exact ⟨rfl, rfl, copyStream_fileReads _ _ _⟩
  · have hbody := encodeBody_eq lib ⟨found.metadata, read.content, plan⟩
    have hsend : sendMade lib (lookupOf found read) plan found.metadata =
        let made := encodeBody lib plan found.metadata
          (Made.plainBytes lib ⟨found.metadata, read.content, plan⟩)
        verbatim 200
          (("Content-Type".toList, plan.mime) :: plan.validatorHeaders made.2.2 ++
            (made.2.1.map fun c => ("Content-Encoding".toList, c)).toList)
          (.bytes made.1) := rfl
    rw [hsend, hbody]
    exact ⟨rfl, rfl, rfl⟩

end

/-! ## A URL over time -/

/-- An answer that a client has, or whose body it is told that it has. -/
structure Answer where
  tag : Str
  body : Bytes
  /-- a 200, and not a 304 -/
  sent : Bool
  made : Made

/-- A URL: what it addresses, the config of the renderer, and the answers so far, oldest first. -/
structure Site where
  current : Option Version
  config : Option RendererConfig
  answers : List Answer

inductive SiteEvent where
  /-- the file is written, replaced or removed -/
  | change (version : Option Version)
  | reload (config : Option RendererConfig)
  /-- a `GET`, and what the file becomes between its metadata and its bytes -/
  | get (raw : RawRequest) (during : Option Version)

section

variable (lib : Library)

def answerKept (config : Option RendererConfig) (raw : RawRequest) (found read : Version) :
    Option Answer :=
  let resp := answerTo lib config raw found read
  let tag := (header resp.headers "ETag".toList).getD []
  let made := madeFor lib config raw found read
  if resp.status = 200 then some ⟨tag, bodyBytes resp.body, true, made⟩
  else if resp.status = 304 then
    some ⟨tag, bodyBytes (answerTo lib config (unconditional raw) found read).body, false, made⟩
  else none

def Site.step (s : Site) : SiteEvent → Site
  | .change version => { s with current := version }
  | .reload config => { s with config := config }
  | .get raw during =>
    match s.current with
    | none => s
    | some found =>
      let read := during.getD found
      { s with
        current := some read
        answers := s.answers ++ (answerKept lib s.config raw found read).toList }

/-- **Tags are strong**: whatever goes by the tag of a 200 has its body. -/
def Site.Strong (s : Site) : Prop :=
  s.answers.Pairwise fun a b => a.sent = true → a.tag = b.tag → a.body = b.body

/-- The request asks for what was not sent yet, or was made alike: no two answers of one second,
size and coding differ in what they are made of. -/
def Site.Settled (s : Site) : SiteEvent → Prop
  | .get raw during =>
    ∀ found, s.current = some found → ∀ a ∈ s.answers, a.sent = true →
      let made := madeFor lib s.config raw found (during.getD found)
      Made.SameMark lib a.made made → Made.SameMaking lib a.made made
  | _ => True

/-- What is known of each answer: the tag of a 200 names its coding, that of a 304 the coding that
was meant. -/
structure Answer.Correct (a : Answer) : Prop where
  body : a.body = a.made.sentBytes lib
  tag : ∃ e, a.tag = etagText a.made.metadata (etagSuffix e) ∧
    (e = a.made.applied lib ∨ a.sent = false ∧ e = a.made.plan.encoding)

variable {lib}

theorem answerKept_made {config : Option RendererConfig} {raw : RawRequest} {found read : Version}
    {b : Answer} (h : answerKept lib config raw found read = some b) :
    b.made = madeFor lib config raw found read ∧ b.Correct lib := by
  have hrep := represent_spec lib raw found read (planOf lib config raw found.path found.metadata)
  obtain ⟨hstatus, hetag, hbody⟩ := hrep
  have hverbatim : ∀ (status : Nat) (plan : Plan) (etag : Str),
      header (verbatim status (plan.validatorHeaders etag) (.bytes [])).headers "ETag".toList =
        some etag := fun _ _ _ => rfl
  rw [answerKept] at h
  rcases answerTo_cases lib config raw found read with hr | hr | hr
  · rw [hr, representation, if_pos hstatus, hetag, hbody] at h
    cases h
    exact ⟨rfl, rfl, _, rfl, .inl rfl⟩
  · rw [hr] at h
    cases h
  · rw [hr, answerTo_unconditional, representation, hbody, hverbatim] at h
    cases h
    exact ⟨rfl, rfl, _, rfl, .inr ⟨rfl, rfl⟩⟩

theorem Answer.Correct.sameMark {a b : Answer} (ha : a.Correct lib) (hb : b.Correct lib)
    (hsent : a.sent = true) (htag : a.tag = b.tag) : Made.SameMark lib a.made b.made := by
  obtain ⟨e, hae, he⟩ := ha.tag
  obtain ⟨e', hbe, he'⟩ := hb.tag
  obtain ⟨htime, hlen, rfl⟩ := etagText_inj (hae.symm.trans (htag.trans hbe))
  refine ⟨htime, hlen, ?_⟩
  have happlied : e = a.made.applied lib := he.resolve_right fun h => by simp [hsent] at h
  rcases he' with h | ⟨-, h⟩
  · exact .inl (happlied ▸ h)
  · exact .inr (happlied ▸ h)

/-- **One step** keeps the tags strong, if what is asked for is settled. -/
theorem strong_step {s : Site} {e : SiteEvent} (hcorrect : ∀ a ∈ s.answers, a.Correct lib)
    (hstrong : s.Strong) (h : s.Settled lib e) :
    (∀ a ∈ (s.step lib e).answers, a.Correct lib) ∧ (s.step lib e).Strong := by
  cases e with
  | change version | reload config => exact ⟨hcorrect, hstrong⟩
  | get raw during =>
    rw [Site.step]
    cases hcurrent : s.current with
    | none => exact ⟨hcorrect, hstrong⟩
    | some found =>
      dsimp only [Site.Strong]
      cases hkept : answerKept lib s.config raw found (during.getD found) with
      | none =>
        rw [Option.toList_none, append_nil]
        exact ⟨hcorrect, hstrong⟩
      | some b =>
        obtain ⟨hmade, hb⟩ := answerKept_made hkept
        rw [Option.toList_some]
        constructor
        · intro a ha
          rcases mem_append.mp ha with ha | ha
          · exact hcorrect a ha
          · exact mem_singleton.mp ha ▸ hb
        · refine pairwise_append.mpr ⟨hstrong, pairwise_singleton _ _, ?_⟩
          intro a ha b' hb' hsent htag
          obtain rfl := mem_singleton.mp hb'
          have hmark := (hcorrect a ha).sameMark hb hsent htag
          have hsame := h found hcurrent a ha hsent (hmade ▸ hmark)
          rw [(hcorrect a ha).body, hb.body, Made.sentBytes_eq hmark (hmade ▸ hsame)]

variable (lib)

/-- **Tags stay strong** in a run in which all that is asked for is settled. -/
theorem strong_of_settled (current : Option Version) (config : Option RendererConfig)
    (events : List SiteEvent)
    (h : Runs.EachStep (fun s e => some (Site.step lib s e)) (Site.Settled lib)
      ⟨current, config, []⟩ events) :
    Runs.Throughout (fun s e => some (Site.step lib s e)) Site.Strong ⟨current, config, []⟩
      events := by
  refine Runs.throughout_of_steps
    (I := fun s : Site => (∀ a ∈ s.answers, a.Correct lib) ∧ s.Strong) ?_ (fun s hs => hs.2)
    events ⟨fun a ha => absurd ha not_mem_nil, List.Pairwise.nil⟩ h
  intro s e s' hs hsettled hstep
  cases hstep
  exact strong_step hs.1 hs.2 hsettled

end

/-! ## Two files of one tag -/

def imageOf (byte : UInt8) : Version := ⟨"/srv/a.png".toList, [byte], 0⟩

/-- A `GET` of the image is answered with its byte. -/
theorem answerKept_image (byte : UInt8) :
    answerKept imageLibrary none imageRequest (imageOf byte) (imageOf byte) =
      some ⟨"\"0-1\"".toList, [byte], true,
        madeFor imageLibrary none imageRequest (imageOf byte) (imageOf byte)⟩ := by
  have hrep : answerTo imageLibrary none imageRequest (imageOf byte) (imageOf byte) =
      representation imageLibrary none imageRequest (imageOf byte) (imageOf byte) := rfl
  obtain ⟨hstatus, hetag, hbody⟩ := represent_spec imageLibrary imageRequest (imageOf byte)
    (imageOf byte) (planOf imageLibrary none imageRequest (imageOf byte).path
      (imageOf byte).metadata)
  have htag : etagText (imageOf byte).metadata (etagSuffix (Made.applied imageLibrary
      (madeFor imageLibrary none imageRequest (imageOf byte) (imageOf byte)))) =
        "\"0-1\"".toList := by
    have happlied : Made.applied imageLibrary
        (madeFor imageLibrary none imageRequest (imageOf byte) (imageOf byte)) = .identity := rfl
    rw [happlied]
    exact show etagText ⟨0, 1, true⟩ [] = "\"0-1\"".toList by decide
  have hsent : Made.sentBytes imageLibrary
      (madeFor imageLibrary none imageRequest (imageOf byte) (imageOf byte)) = [byte] := rfl
  rw [madeFor] at htag hsent
  rw [answerKept, hrep, representation, if_pos hstatus, hetag, hbody, htag, hsent]
  rfl

/-- A second later the file has another byte. -/
def laterImage : Version := ⟨"/srv/a.png".toList, [2], second⟩

/-- The file is asked for twice, written, and asked for again. -/
def imageEvents : List SiteEvent :=
  [.get imageRequest none, .get imageRequest none, .change (some laterImage),
    .get imageRequest none]

theorem strong_of_rewritten :
    Runs.EachStep (fun s e => some (Site.step imageLibrary s e)) (Site.Settled imageLibrary)
        ⟨some (imageOf 1), none, []⟩ imageEvents ∧
      Runs.Throughout (fun s e => some (Site.step imageLibrary s e)) Site.Strong
        ⟨some (imageOf 1), none, []⟩ imageEvents := by
  have hmade : ∀ a ∈ (answerKept imageLibrary none imageRequest (imageOf 1) (imageOf 1)).toList,
      a.made = madeFor imageLibrary none imageRequest (imageOf 1) (imageOf 1) :=
    fun a ha => (answerKept_made (Option.mem_toList.mp ha)).1
  have hsettled : Runs.EachStep (fun s e => some (Site.step imageLibrary s e))
      (Site.Settled imageLibrary) ⟨some (imageOf 1), none, []⟩ imageEvents := by
    refine .cons (fun _ _ a ha => absurd ha not_mem_nil) rfl
      (.cons ?_ rfl (.cons trivial rfl (.cons ?_ rfl trivial)))
    · intro found hfound a ha _ made _
      cases hfound
      rw [hmade a ha]
      exact .refl _
    · intro found hfound a ha _ made hmark
      cases hfound
      have ha := (mem_append.mp ha).elim (hmade a) (hmade a)
      rw [ha] at hmark
      exact absurd hmark.1 (by decide)
  exact ⟨hsettled, strong_of_settled imageLibrary _ _ _ hsettled⟩

theorem tag_outlives_bytes :
    ¬ Runs.Throughout (fun s e => some (Site.step imageLibrary s e)) Site.Strong
      ⟨some (imageOf 1), none, []⟩
      [.get imageRequest none, .change (some (imageOf 2)), .get imageRequest none] := by
  intro h
  have hstrong := h.result rfl
  simp only [Site.step, Site.Strong, Option.getD_none, answerKept_image, Option.toList_some,
    nil_append, singleton_append, pairwise_pair] at hstrong
  exact absurd (hstrong trivial trivial) (by decide)

end M6.FileServer
