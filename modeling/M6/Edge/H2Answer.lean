import M6.Edge.H2Outcome

/-!
# The answers that the outbound HTTP/2 client hands on

A peer answers on a stream with any number of interim header blocks, a final one, DATA and
perhaps trailers, and each block may be cut into HEADERS and CONTINUATION. `PeerReader` reads
the frames of a connection as the protocol means them: it keeps the state of an HPACK decoder
and of the answer on one stream, and has no next state where the peer breaks the rules.

`answered_iff` says for which answers the receiver gets the final header block and the body:
interim blocks and trailers go into the same list as the final fields, and `END_STREAM` is taken
from a HEADERS frame before its block is complete.
-/

namespace M6

open List

namespace ClientConn

variable {hp : Hpack}

/-! ## What a peer says -/

def fieldText (f : RawField) : Str × Str := (Utf8.decodeLossy f.1, Utf8.decodeLossy f.2)

def isRegular (f : RawField) : Bool := f.1.head? != some 58

def statusCode (v : Bytes) : Option Nat :=
  (parseUsize (Utf8.decodeLossy v)).filter fun n =>
    100 ≤ n ∧ n ≤ 999 ∧ v = Utf8.encode (decimal n)

/-- The status and the fields of a response's header block: `:status` comes first, and there is
no other pseudo-header. -/
def responseHead : List RawField → Option (Nat × List (Str × Str))
  | [] => none
  | (name, v) :: rest =>
    if name = lit ":status" ∧ rest.all isRegular then
      (statusCode v).map fun n => (n, rest.map fieldText)
    else none

def trailerFields (fields : List RawField) : Option (List (Str × Str)) :=
  if fields.all isRegular then some (fields.map fieldText) else none

def content (f : Frame) : Option Bytes :=
  if f.has flagPadded then
    match f.payload with
    | [] => none
    | n :: rest => if n.toNat ≤ rest.length then some (rest.take (rest.length - n.toNat)) else none
  else some f.payload

def fragment (f : Frame) : Option Bytes :=
  (content f).bind fun bs =>
    if f.has flagPriority then (if 5 ≤ bs.length then some (bs.drop 5) else none) else some bs

/-- The answer on a stream, as far as it has come. -/
structure PeerAnswer where
  /-- the header blocks of status 1xx -/
  interims : List (Nat × List (Str × Str))
  final : Option (Nat × List (Str × Str))
  body : Bytes
  trailers : Option (List (Str × Str))
  ended : Bool
  /-- the last block was cut, and its first frame had `END_STREAM` -/
  cut : Bool

namespace PeerAnswer

def start : PeerAnswer := ⟨[], none, [], none, false, false⟩

/-- The answer after a header block. A block of status 1xx does not end it, and one that comes
after the final block does. -/
def head (a : PeerAnswer) (fields : List RawField) (endStream cut : Bool) : Option PeerAnswer :=
  if a.ended then none
  else
    match a.final with
    | none =>
      (responseHead fields).bind fun h =>
        if h.1 < 200 then
          if endStream then none else some { a with interims := a.interims ++ [h] }
        else some { a with final := some h, ended := endStream, cut := endStream && cut }
    | some _ =>
      if endStream then
        (trailerFields fields).map fun t => { a with trailers := some t, ended := true, cut := cut }
      else none

def data (a : PeerAnswer) (bytes : Bytes) (endStream : Bool) : Option PeerAnswer :=
  if a.ended ∨ a.final = none then none
  else some { a with body := a.body ++ bytes, ended := endStream }

def response (a : PeerAnswer) : HttpResponse :=
  match a.final with
  | some (status, headers) => ⟨status, headers, a.body⟩
  | none => ⟨0, [], a.body⟩

/-- The answer is one that the client can take: its interim blocks are a status alone, a final
block that ends the stream is one frame, and trailers are empty unless they are cut. -/
def Plain (a : PeerAnswer) : Prop :=
  (∀ h ∈ a.interims, h.2 = []) ∧ (a.trailers = none → a.cut = false) ∧
    ∀ t ∈ a.trailers, t = [] ∨ a.cut = true

instance (a : PeerAnswer) : Decidable a.Plain :=
  inferInstanceAs (Decidable ((∀ h ∈ a.interims, h.2 = []) ∧
    (a.trailers = none → a.cut = false) ∧ ∀ t ∈ a.trailers, t = [] ∨ a.cut = true))

/-- The order in which it came: 1xx, then final, then trailers. -/
structure Valid (a : PeerAnswer) : Prop where
  interim : ∀ h ∈ a.interims, h.1 < 200
  final : ∀ h, a.final = some h → 200 ≤ h.1
  trailing : a.trailers ≠ none → a.ended = true
  cutting : a.cut = true → a.ended = true
  ends : a.ended = true → a.final ≠ none

theorem valid_start : Valid start :=
  ⟨fun _ h => (by cases h), fun _ h => (by cases h), fun h => absurd rfl h, fun h => (by cases h),
    fun h => (by cases h)⟩

theorem head_cases {a a' : PeerAnswer} {fields : List RawField} {endStream cut : Bool}
    (h : a.head fields endStream cut = some a') :
    a.ended = false ∧
      ((∃ i, a.final = none ∧ responseHead fields = some i ∧ i.1 < 200 ∧ endStream = false ∧
          a' = { a with interims := a.interims ++ [i] }) ∨
        (∃ i, a.final = none ∧ responseHead fields = some i ∧ 200 ≤ i.1 ∧
          a' = { a with final := some i, ended := endStream, cut := endStream && cut }) ∨
        ∃ i t, a.final = some i ∧ endStream = true ∧ trailerFields fields = some t ∧
          a' = { a with trailers := some t, ended := true, cut := cut }) := by
  unfold head at h
  by_cases hended : a.ended = true
  · rw [if_pos hended] at h
    cases h
  rw [if_neg hended] at h
  refine ⟨Bool.eq_false_iff.mpr hended, ?_⟩
  cases hfinal : a.final with
  | none =>
    simp only [hfinal] at h
    obtain ⟨i, hi, h⟩ := Option.bind_eq_some_iff.mp h
    split_ifs at h with hlt hend
    · exact .inl ⟨i, rfl, hi, hlt, Bool.eq_false_iff.mpr hend, (Option.some.inj h).symm⟩
    · exact .inr (.inl ⟨i, rfl, hi, Nat.not_lt.mp hlt, (Option.some.inj h).symm⟩)
  | some i =>
    simp only [hfinal] at h
    split_ifs at h with hend
    obtain ⟨t, ht, rfl⟩ := Option.map_eq_some_iff.mp h
    exact .inr (.inr ⟨i, t, rfl, hend, ht, rfl⟩)

theorem Valid.head {a a' : PeerAnswer} (hv : a.Valid) {fields : List RawField}
    {endStream cut : Bool} (h : a.head fields endStream cut = some a') : a'.Valid := by
  obtain ⟨hended, ⟨i, hfinal, -, hlt, -, rfl⟩ | ⟨i, hfinal, -, hge, rfl⟩ |
    ⟨i, t, hfinal, -, -, rfl⟩⟩ := head_cases h
  · refine ⟨fun b hb => ?_, hv.final, hv.trailing, hv.cutting, hv.ends⟩
    obtain hb | hb := mem_append.mp hb
    · exact hv.interim b hb
    · exact mem_singleton.mp hb ▸ hlt
  · refine ⟨hv.interim, fun b hb => Option.some.inj hb ▸ hge, fun ht => ?_, fun hc => ?_,
      fun _ => Option.some_ne_none i⟩
    · rw [hv.trailing ht] at hended
      cases hended
    · exact (Bool.and_eq_true _ _ ▸ hc).1
  · exact ⟨hv.interim, hv.final, fun _ => rfl, fun _ => rfl, fun _ =>
      hfinal ▸ Option.some_ne_none i⟩

theorem Valid.data {a a' : PeerAnswer} (hv : a.Valid) {bytes : Bytes} {endStream : Bool}
    (h : a.data bytes endStream = some a') :
    a'.Valid ∧ a.ended = false ∧ a' = { a with body := a.body ++ bytes, ended := endStream } := by
  rw [PeerAnswer.data] at h
  split_ifs at h with hbad
  push Not at hbad
  obtain ⟨hended, hfinal⟩ := hbad
  have hopen : a.ended = false := Bool.eq_false_iff.mpr hended
  cases h
  refine ⟨⟨hv.interim, hv.final, fun ht => ?_, fun hc => ?_, fun _ => hfinal⟩, hopen, rfl⟩
  · exact absurd (hv.trailing ht) hended
  · exact absurd (hv.cutting hc) hended

end PeerAnswer

/-- The frames of a connection as the protocol means them, up to some point. -/
structure PeerReader (hp : Hpack) where
  dec : hp.Dec
  /-- a header block that goes on: its stream, its `END_STREAM` and its bytes -/
  block : Option (Nat × Bool × Bytes)
  answer : PeerAnswer

namespace PeerReader

def start (hp : Hpack) : PeerReader hp := ⟨hp.newDec, none, .start⟩

def endBlock (id : Nat) (r : PeerReader hp) (stream : Nat) (endStream cut : Bool)
    (bytes : Bytes) : Option (PeerReader hp) :=
  match hp.decode r.dec bytes with
  | (.error _, _) => none
  | (.ok fields, dec) =>
    if stream = id then (r.answer.head fields endStream cut).map fun a => ⟨dec, none, a⟩
    else some ⟨dec, none, r.answer⟩

/-- A frame of the peer, read for the stream `id`. -/
def read (id : Nat) (r : PeerReader hp) (f : Frame) : Option (PeerReader hp) :=
  match r.block with
  | some (stream, endStream, bytes) =>
    if f.ftype = .continuation ∧ f.stream = stream then
      if f.has flagEndHeaders then r.endBlock id stream endStream true (bytes ++ f.payload)
      else some { r with block := some (stream, endStream, bytes ++ f.payload) }
    else none
  | none =>
    match f.ftype with
    | .continuation => none
    | .headers =>
      if f.stream = 0 then none
      else
        (fragment f).bind fun bytes =>
          if f.has flagEndHeaders then
            r.endBlock id f.stream (f.has flagEndStream) false bytes
          else some { r with block := some (f.stream, f.has flagEndStream, bytes) }
    | .data =>
      if f.stream = id then
        (content f).bind fun bytes =>
          (r.answer.data bytes (f.has flagEndStream)).map fun a => { r with answer := a }
      else some r
    | .rstStream => if f.stream = id then none else some r
    | _ => some r

def readAll (id : Nat) : PeerReader hp → List Frame → Option (PeerReader hp)
  | r, [] => some r
  | r, f :: fs => (r.read id f).bind fun r => readAll id r fs

end PeerReader

def frames (events : List ClientEvent) : List Frame :=
  events.filterMap fun e => match e with
    | .receive f => some f
    | _ => none

theorem frames_append (events more : List ClientEvent) :
    frames (events ++ more) = frames events ++ frames more := filterMap_append

section
variable (kind : ClientKind) (iter : Iter hp)

/-- The peer's credit for a stream is lawful: no increment is zero, and none takes the window
past its limit. -/
def Credited (id : Nat) : ClientConn hp → List ClientEvent → Prop
  | _, [] => True
  | c, e :: events =>
    (∀ f n, e = .receive f → f.ftype = .windowUpdate → f.stream = id →
      increment f.payload = some n →
        0 < n ∧ ∀ s, c.streams.get? id = some s → s.sendWindow + n ≤ maxWindow) ∧
    Credited id (step kind iter c e) events

end

/-! ## What the client makes of an answer -/

def PeerAnswer.gathering (a : PeerAnswer) : Gathered where
  status := ((a.interims ++ a.final.toList).getLast?.map Prod.fst).getD 0
  headers := (a.interims ++ a.final.toList).flatMap Prod.snd ++ a.trailers.getD []
  body := a.body
  done := !(a.interims ++ a.final.toList).isEmpty

/-- What had come of an answer when the client took it to be complete. -/
def PeerAnswer.seen (a : PeerAnswer) : PeerAnswer :=
  if a.cut then
    match a.trailers with
    | some _ => { a with trailers := none }
    | none => { a with final := none }
  else a

theorem PeerAnswer.seen_of_whole {a : PeerAnswer} (h : a.cut = false) {body : Bytes}
    {ended : Bool} :
    PeerAnswer.seen { a with body := body, ended := ended } =
      { a with body := body, ended := ended } := by
  simp only [PeerAnswer.seen, h, Bool.false_eq_true, if_false]

theorem addField_regular {f : RawField} (h : isRegular f = true) (s : ClientStream) :
    addField s f = { s with respHeaders := s.respHeaders ++ [fieldText f] } := by
  rw [addField, if_neg]
  · rfl
  · intro heq
    rw [isRegular, heq] at h
    exact absurd h (by decide)

variable {fields : List RawField}

theorem foldl_addField_regular (h : fields.all isRegular = true) (s : ClientStream) :
    fields.foldl addField s =
      { s with respHeaders := s.respHeaders ++ fields.map fieldText } := by
  induction fields generalizing s with
  | nil => simp
  | cons f fields ih =>
    rw [all_cons, Bool.and_eq_true] at h
    rw [foldl_cons, addField_regular h.1, ih h.2, map_cons, append_assoc]
    rfl

theorem addFields_head {h : Nat × List (Str × Str)}
    (hhead : responseHead fields = some h) (s : ClientStream) :
    streamGathered (addFields fields s) = ⟨h.1, s.respHeaders ++ h.2, s.respBody, true⟩ := by
  unfold responseHead at hhead
  split at hhead
  · cases hhead
  · rename_i name v rest
    split_ifs at hhead with hok
    obtain ⟨rfl, hrest⟩ := hok
    obtain ⟨n, hn, rfl⟩ := Option.map_eq_some_iff.mp hhead
    rw [statusCode, Option.filter_eq_some_iff] at hn
    obtain ⟨hparse, hrange⟩ := hn
    have hsmall : n < 2 ^ 16 := by
      have := (of_decide_eq_true hrange).2.1
      omega
    have hstatus : addField s (lit ":status", v) = { s with respStatus := n } := by
      rw [addField, if_pos rfl, hparse, Option.filter_some, if_pos (decide_eq_true hsmall)]
      rfl
    rw [addFields, foldl_cons, hstatus, foldl_addField_regular hrest]
    rfl

theorem addFields_trailer {t : List (Str × Str)}
    (htrailer : trailerFields fields = some t) (s : ClientStream) :
    streamGathered (addFields fields s) = ⟨s.respStatus, s.respHeaders ++ t, s.respBody, true⟩ := by
  unfold trailerFields at htrailer
  split_ifs at htrailer with hall
  cases htrailer
  rw [addFields, foldl_addField_regular hall]
  rfl

/-- The part of a connection that the header blocks go through. -/
structure Codec (hp : Hpack) where
  dec : hp.Dec
  acc : Bytes
  cont : Option Nat
  dead : Bool

def codec (c : ClientConn hp) : Codec hp :=
  ⟨c.hpackDec, c.headerBlockAcc, c.continuationStream, c.isDead⟩

theorem SendOnly.codec {c c' : ClientConn hp} (h : SendOnly c c') : c'.codec = c.codec := by
  rw [ClientConn.codec, h.dec, h.acc, h.cont, h.alive]
  rfl

theorem SendOnly.outcomes {c c' : ClientConn hp} (h : SendOnly c c') (id : Nat) :
    c'.outcomes id = c.outcomes id := by
  rw [ClientConn.outcomes, h.resolved]
  rfl

theorem codec_updateStream (c : ClientConn hp) (t : Nat) (f : ClientStream → ClientStream) :
    (c.updateStream t f).codec = c.codec := by
  rw [updateStream]
  split <;> rfl

theorem outcomes_updateStream (c : ClientConn hp) (t : Nat) (f : ClientStream → ClientStream)
    (id : Nat) : (c.updateStream t f).outcomes id = c.outcomes id := by
  rw [updateStream]
  split <;> rfl

theorem gathered_updateStream (c : ClientConn hp) (t : Nat) (f : ClientStream → ClientStream)
    (id : Nat) : (c.updateStream t f).gathered id =
      if id = t then (c.streams.get? id).map fun s => streamGathered (f s) else c.gathered id := by
  rw [updateStream]
  cases hs : c.streams.get? t with
  | none =>
    simp only
    split_ifs with ht
    · rw [gathered, ht, hs]
      rfl
    · rfl
  | some s =>
    simp only [gathered, SortedMap.get?_insert]
    split_ifs with ht
    · rw [ht, hs]
      rfl
    · rfl

theorem codec_completeStream (kind : ClientKind) (c : ClientConn hp) (t : Nat) :
    (c.completeStream kind t).codec = c.codec := by
  cases hg : c.gathered t with
  | none => rw [completeStream_gone kind hg]
  | some g =>
    obtain ⟨buf, heq⟩ := completeStream_eq kind hg
    rw [heq]
    rfl

theorem isDead_completeStream (kind : ClientKind) (c : ClientConn hp) (t : Nat) :
    (c.completeStream kind t).isDead = c.isDead :=
  congrArg Codec.dead (codec_completeStream kind c t)

variable {c : ClientConn hp} {id : Nat}

theorem completeStream_self (kind : ClientKind) {g : Gathered} (hg : c.gathered id = some g) :
    (c.completeStream kind id).gathered id = none ∧
      (c.completeStream kind id).outcomes id = c.outcomes id ++ [g.outcome kind] := by
  obtain ⟨buf, heq⟩ := completeStream_eq kind hg
  rw [heq]
  refine ⟨?_, ?_⟩
  · simp only [gathered, SortedMap.get?_erase, if_true, Option.map_none]
  · simp only [outcomes, filter_append, map_append]
    simp

theorem gathered_erase (c : ClientConn hp) {id t : Nat} (h : id ≠ t) :
    ((c.streams.erase t).get? id).map streamGathered = c.gathered id := by
  rw [SortedMap.get?_erase, if_neg h]
  rfl

theorem outcomes_snoc (c : ClientConn hp) {id t : Nat} (h : id ≠ t)
    (answer : Except Str HttpResponse) :
    ((c.resolved ++ [(t, answer)]).filter fun e => e.1 = id).map Prod.snd = c.outcomes id := by
  have hne : ¬ t = id := fun heq => h heq.symm
  rw [filter_append, map_append, outcomes]
  simp [hne]

theorem completeStream_other (kind : ClientKind) (c : ClientConn hp) {id t : Nat} (h : id ≠ t) :
    (c.completeStream kind t).gathered id = c.gathered id ∧
      (c.completeStream kind t).outcomes id = c.outcomes id := by
  cases hg : c.gathered t with
  | none =>
    rw [completeStream_gone kind hg]
    exact ⟨rfl, rfl⟩
  | some g =>
    obtain ⟨buf, heq⟩ := completeStream_eq kind hg
    rw [heq]
    exact ⟨gathered_erase c h, outcomes_snoc c h _⟩

variable {f : Frame}

theorem unpad_of_content {bs : Bytes} (h : content f = some bs) (name : Str) :
    ∃ pl pos, f.unpad name = .ok (pl, pos) ∧ ∀ k, pl.drop (pos + k) = bs.drop k := by
  unfold content at h
  rw [Frame.unpad]
  split_ifs at h with hpad
  · rw [if_pos hpad]
    cases hp : f.payload with
    | nil =>
      rw [hp] at h
      cases h
    | cons n rest =>
      rw [hp] at h
      simp only at h ⊢
      split_ifs at h with hle
      cases h
      rw [length_cons, if_neg (by omega)]
      refine ⟨_, _, rfl, fun k => ?_⟩
      rw [show rest.length + 1 - n.toNat = (rest.length - n.toNat) + 1 by omega,
        take_succ_cons, Nat.add_comm 1 k, drop_succ_cons]
  · cases h
    rw [if_neg hpad]
    exact ⟨_, _, rfl, fun k => by rw [Nat.zero_add]⟩

theorem unpad_of_fragment {bs : Bytes} (h : fragment f = some bs) (name : Str) :
    ∃ pl pos, f.unpad name = .ok (pl, pos) ∧
      pl.drop (if f.has flagPriority then pos + 5 else pos) = bs := by
  obtain ⟨whole, hwhole, hrest⟩ := Option.bind_eq_some_iff.mp h
  obtain ⟨pl, pos, hunpad, hdrop⟩ := unpad_of_content hwhole name
  refine ⟨pl, pos, hunpad, ?_⟩
  split_ifs at hrest ⊢ with hprio hlen
  · rw [hdrop 5]
    exact Option.some.inj hrest
  · have hzero := hdrop 0
    rw [Nat.add_zero, drop_zero] at hzero
    rw [hzero]
    exact Option.some.inj hrest

def decoded (c : ClientConn hp) (stream : Nat) (fields : List RawField) (dec : hp.Dec) :
    ClientConn hp :=
  (({ c with headerBlockAcc := [], hpackDec := dec } : ClientConn hp).updateStream stream
    (addFields fields)).expect none

theorem endHeaders_eq (kind : ClientKind)
    {dec : hp.Dec} (h : hp.decode c.hpackDec c.headerBlockAcc = (.ok fields, dec)) (stream : Nat) :
    c.endHeaders kind stream = c.decoded stream fields dec := by
  have htake : c.takeBlock = (.ok fields, { c with headerBlockAcc := [], hpackDec := dec }) := by
    rw [takeBlock, h]
  rw [endHeaders, htake]
  rfl

theorem codec_decoded (c : ClientConn hp) (stream : Nat) (fields : List RawField) (dec : hp.Dec) :
    (c.decoded stream fields dec).codec = ⟨dec, [], none, c.isDead⟩ := by
  have hcodec := codec_updateStream
    ({ c with headerBlockAcc := [], hpackDec := dec } : ClientConn hp) stream (addFields fields)
  simp only [codec, Codec.mk.injEq] at hcodec
  simp only [codec, decoded, expect, hcodec]

theorem outcomes_decoded (c : ClientConn hp) (stream : Nat) (fields : List RawField)
    (dec : hp.Dec) (id : Nat) : (c.decoded stream fields dec).outcomes id = c.outcomes id :=
  outcomes_updateStream ({ c with headerBlockAcc := [], hpackDec := dec } : ClientConn hp) stream
    (addFields fields) id

theorem gathered_decoded (c : ClientConn hp) (stream : Nat) (fields : List RawField)
    (dec : hp.Dec) (id : Nat) : (c.decoded stream fields dec).gathered id =
      if id = stream then (c.streams.get? id).map fun s => streamGathered (addFields fields s)
      else c.gathered id :=
  gathered_updateStream ({ c with headerBlockAcc := [], hpackDec := dec } : ClientConn hp) stream
    (addFields fields) id

/-! ## Reading along -/

/-- How far the stream `id` is, where the peer's frames are read for it: its request was not
sent yet, its answer is awaited, the client took the answer to be complete although its last
header block goes on, or it is complete. -/
inductive Stands (kind : ClientKind) (id : Nat) (r : PeerReader hp) (c : ClientConn hp) :
    Bool → Prop
  | unopened (hblock : ∀ b, r.block = some b → b.1 ≠ id) (hanswer : r.answer = .start) :
    Stands kind id r c false
  | waiting (hended : r.answer.ended = false)
    (hblock : ∀ es bytes, r.block = some (id, es, bytes) → es = false)
    (hgathered : c.gathered id = some r.answer.gathering) (houtcomes : c.outcomes id = []) :
    Stands kind id r c true
  | early (bytes : Bytes) (hended : r.answer.ended = false)
    (hblock : r.block = some (id, true, bytes)) (hgathered : c.gathered id = none)
    (houtcomes : c.outcomes id = [r.answer.gathering.outcome kind]) : Stands kind id r c true
  | done (hended : r.answer.ended = true) (hgathered : c.gathered id = none)
    (houtcomes : c.outcomes id = [r.answer.seen.gathering.outcome kind]) : Stands kind id r c true

/-- A live connection and the reading of the frames that came on it. -/
structure Reads (kind : ClientKind) (id : Nat) (opened : Bool) (r : PeerReader hp)
    (c : ClientConn hp) : Prop where
  codec : c.codec =
    ⟨r.dec, (r.block.map fun b => b.2.2).getD [], r.block.map Prod.fst, false⟩
  positive : ∀ b, r.block = some b → b.1 ≠ 0
  valid : r.answer.Valid
  stands : Stands kind id r c opened

variable {kind : ClientKind} {opened : Bool}

theorem Reads.codec_parts {r : PeerReader hp} (h : Reads kind id opened r c) :
    c.hpackDec = r.dec ∧ c.headerBlockAcc = (r.block.map fun b => b.2.2).getD [] ∧
      c.continuationStream = r.block.map Prod.fst ∧ c.isDead = false := by
  have hcodec := h.codec
  simp only [ClientConn.codec, Codec.mk.injEq] at hcodec
  exact hcodec

variable {r r' : PeerReader hp}

theorem Stands.off {c c' : ClientConn hp} (h : Stands kind id r c opened)
    (hblock : ∀ b, r.block = some b → b.1 ≠ id) (hblock' : ∀ b, r'.block = some b → b.1 ≠ id)
    (hanswer : r'.answer = r.answer) (hgathered : c'.gathered id = c.gathered id)
    (houtcomes : c'.outcomes id = c.outcomes id) : Stands kind id r' c' opened := by
  cases h with
  | unopened _ hstart => exact .unopened hblock' (hanswer.trans hstart)
  | waiting hended _ hg ho =>
    exact .waiting (hanswer ▸ hended) (fun es bytes hb => absurd rfl (hblock' _ hb))
      (by rw [hgathered, hg, hanswer]) (houtcomes.trans ho)
  | early bytes _ hb => exact absurd rfl (hblock _ hb)
  | done hended hg ho =>
    exact .done (hanswer ▸ hended) (hgathered.trans hg) (by rw [houtcomes, ho, hanswer])

theorem Reads.same {r : PeerReader hp}
    {c c' : ClientConn hp} (h : Reads kind id opened r c) (hcodec : c'.codec = c.codec)
    (hgathered : c'.gathered id = c.gathered id) (houtcomes : c'.outcomes id = c.outcomes id) :
    Reads kind id opened r c' := by
  refine ⟨hcodec.trans h.codec, h.positive, h.valid, ?_⟩
  cases h.stands with
  | unopened hblock hstart => exact .unopened hblock hstart
  | waiting hended hb hg ho =>
    exact .waiting hended hb (hgathered.trans hg) (houtcomes.trans ho)
  | early bytes hended hb hg ho =>
    exact .early bytes hended hb (hgathered.trans hg) (houtcomes.trans ho)
  | done hended hg ho => exact .done hended (hgathered.trans hg) (houtcomes.trans ho)

theorem Reads.sendOnly {r : PeerReader hp}
    {c c' : ClientConn hp} (h : Reads kind id opened r c) (hs : SendOnly c c') :
    Reads kind id opened r c' :=
  h.same hs.codec (hs.gathered id) (hs.outcomes id)

variable {a a' : PeerAnswer} {endStream cut : Bool}

theorem gathering_head (hv : a.Valid) (h : a.head fields endStream cut = some a') {s : ClientStream}
    (hs : streamGathered s = a.gathering) : streamGathered (addFields fields s) = a'.gathering := by
  obtain ⟨hended, hcases⟩ := PeerAnswer.head_cases h
  have htrailers : a.trailers = none := by
    by_contra hne
    rw [hv.trailing hne] at hended
    cases hended
  have hheaders : s.respHeaders = a.gathering.headers := congrArg Gathered.headers hs
  have hbody : s.respBody = a.body := congrArg Gathered.body hs
  have hstatus : s.respStatus = a.gathering.status := congrArg Gathered.status hs
  obtain ⟨i, hfinal, hi, -, -, rfl⟩ | ⟨i, hfinal, hi, -, rfl⟩ | ⟨i, t, hfinal, -, ht, rfl⟩ := hcases
  · rw [addFields_head hi, hheaders, hbody]
    simp [PeerAnswer.gathering, hfinal, htrailers]
  · rw [addFields_head hi, hheaders, hbody]
    simp [PeerAnswer.gathering, hfinal, htrailers]
  · rw [addFields_trailer ht, hheaders, hbody, hstatus]
    simp [PeerAnswer.gathering, hfinal, htrailers]

theorem seen_head_cut (hv : a.Valid)
    (h : a.head fields true true = some a') : a'.seen.gathering = a.gathering := by
  obtain ⟨hended, hcases⟩ := PeerAnswer.head_cases h
  have htrailers : a.trailers = none := by
    by_contra hne
    rw [hv.trailing hne] at hended
    cases hended
  obtain ⟨i, hfinal, hi, -, hend, rfl⟩ | ⟨i, hfinal, hi, -, rfl⟩ | ⟨i, t, hfinal, -, ht, rfl⟩ :=
    hcases
  · cases hend
  all_goals simp [PeerAnswer.seen, PeerAnswer.gathering, hfinal, htrailers]

theorem seen_head_whole (hv : a.Valid)
    {endStream : Bool} (h : a.head fields endStream false = some a') : a'.seen = a' := by
  obtain ⟨hended, hcases⟩ := PeerAnswer.head_cases h
  have hcut : a.cut = false := by
    by_contra hne
    rw [hv.cutting (Bool.eq_true_of_not_eq_false hne)] at hended
    cases hended
  obtain ⟨i, hfinal, hi, -, hend, rfl⟩ | ⟨i, hfinal, hi, -, rfl⟩ | ⟨i, t, hfinal, -, ht, rfl⟩ :=
    hcases
  · simp [PeerAnswer.seen, hcut]
  all_goals simp [PeerAnswer.seen]

theorem ended_head
    (h : a.head fields endStream cut = some a') (ha : a.ended = false) : a'.ended = endStream := by
  obtain ⟨-, ⟨i, -, -, -, rfl, rfl⟩ | ⟨i, -, -, -, rfl⟩ | ⟨i, t, -, rfl, -, rfl⟩⟩ :=
    PeerAnswer.head_cases h
  · exact ha
  · rfl
  · rfl

variable {bytes : Bytes} {stream : Nat}

theorem endBlock_cases (h : r.endBlock id stream endStream cut bytes = some r') :
    ∃ fields dec, hp.decode r.dec bytes = (.ok fields, dec) ∧
      ((stream ≠ id ∧ r' = ⟨dec, none, r.answer⟩) ∨
        stream = id ∧ ∃ a, r.answer.head fields endStream cut = some a ∧ r' = ⟨dec, none, a⟩) := by
  unfold PeerReader.endBlock at h
  split at h
  · cases h
  · rename_i fields dec hdec
    refine ⟨fields, dec, hdec, ?_⟩
    by_cases hid : stream = id
    · rw [if_pos hid] at h
      obtain ⟨a, ha, rfl⟩ := Option.map_eq_some_iff.mp h
      exact .inr ⟨hid, a, ha, rfl⟩
    · rw [if_neg hid] at h
      exact .inl ⟨hid, (Option.some.inj h).symm⟩

theorem gathered_decoded_self (hv : a.Valid) (hg : c.gathered id = some a.gathering)
    (h : a.head fields endStream cut = some a') (dec : hp.Dec) :
    (c.decoded id fields dec).gathered id = some a'.gathering := by
  rw [gathered, Option.map_eq_some_iff] at hg
  obtain ⟨s, hs, hgs⟩ := hg
  rw [gathered_decoded, if_pos rfl, hs, Option.map_some, gathering_head hv h hgs]

theorem gathered_decoded_gone (hg : c.gathered id = none)
    (fields : List RawField) (dec : hp.Dec) : (c.decoded id fields dec).gathered id = none := by
  rw [gathered, Option.map_eq_none_iff] at hg
  rw [gathered_decoded, if_pos rfl, hg]
  rfl

theorem Reads.lastContinuation (h : Reads kind id opened r c)
    {endStream : Bool} (hblock : r.block = some (stream, endStream, bytes))
    (hopened : stream = id → opened = true) {part : Bytes}
    (hread : r.endBlock id stream endStream true (bytes ++ part) = some r') :
    Reads kind id opened r' ((c.addBlock part).endHeaders kind stream) := by
  obtain ⟨hdec, hacc, -, halive⟩ := h.codec_parts
  rw [hblock, Option.map_some, Option.getD_some] at hacc
  obtain ⟨fields, dec, hdecode, hcases⟩ := endBlock_cases hread
  have hd : hp.decode (c.addBlock part).hpackDec (c.addBlock part).headerBlockAcc =
      (.ok fields, dec) := by
    change hp.decode c.hpackDec (c.headerBlockAcc ++ part) = _
    rw [hdec, hacc, hdecode]
  rw [endHeaders_eq kind hd]
  have hcodec' : ((c.addBlock part).decoded stream fields dec).codec = ⟨dec, [], none, false⟩ :=
    (codec_decoded _ _ _ _).trans
      (by rw [show (c.addBlock part).isDead = c.isDead from rfl, halive])
  obtain ⟨hid, rfl⟩ | ⟨rfl, a, ha, rfl⟩ := hcases
  · refine ⟨hcodec', fun b hb => (by cases hb), h.valid, ?_⟩
    refine h.stands.off (fun b hb => ?_) (fun b hb => by cases hb) rfl ?_
      (outcomes_decoded _ _ _ _ _)
    · rw [hblock] at hb
      exact Option.some.inj hb ▸ hid
    · rw [gathered_decoded, if_neg fun heq => hid heq.symm]
      rfl
  · refine ⟨hcodec', fun b hb => (by cases hb), h.valid.head ha, ?_⟩
    have hended := (PeerAnswer.head_cases ha).1
    cases h.stands with
    | unopened => exact absurd (hopened rfl) (by simp)
    | waiting _ hes hg ho =>
      obtain rfl := hes endStream bytes hblock
      exact .waiting (ended_head ha hended) (fun _ _ hb => by cases hb)
        (gathered_decoded_self (c := c.addBlock part) h.valid hg ha dec)
        ((outcomes_decoded _ _ _ _ _).trans ho)
    | early bytes' _ hb hg ho =>
      rw [hblock] at hb
      obtain ⟨rfl, rfl⟩ : endStream = true ∧ bytes = bytes' := by simpa using hb
      refine .done (ended_head ha hended) (gathered_decoded_gone (c := c.addBlock part) hg _ _) ?_
      rw [outcomes_decoded, seen_head_cut h.valid ha]
      exact ho
    | done hdone => rw [hdone] at hended; cases hended

theorem Reads.wholeBlock (h : Reads kind id opened r c) (hblock : r.block = none)
    (hopened : stream = id → opened = true) {endStream : Bool}
    (hread : r.endBlock id stream endStream false bytes = some r') :
    Reads kind id opened r' (if endStream then
      ((c.addBlock bytes).endHeaders kind stream).completeStream kind stream
      else (c.addBlock bytes).endHeaders kind stream) := by
  obtain ⟨hdec, hacc, -, halive⟩ := h.codec_parts
  rw [hblock, Option.map_none, Option.getD_none] at hacc
  obtain ⟨fields, dec, hdecode, hcases⟩ := endBlock_cases hread
  have hd : hp.decode (c.addBlock bytes).hpackDec (c.addBlock bytes).headerBlockAcc =
      (.ok fields, dec) := by
    change hp.decode c.hpackDec (c.headerBlockAcc ++ bytes) = _
    rw [hdec, hacc, nil_append, hdecode]
  rw [endHeaders_eq kind hd]
  have hcodec' : ((c.addBlock bytes).decoded stream fields dec).codec = ⟨dec, [], none, false⟩ :=
    (codec_decoded _ _ _ _).trans
      (by rw [show (c.addBlock bytes).isDead = c.isDead from rfl, halive])
  have hcodec'' : (if endStream then
      ((c.addBlock bytes).decoded stream fields dec).completeStream kind stream
      else (c.addBlock bytes).decoded stream fields dec).codec = ⟨dec, [], none, false⟩ := by
    split_ifs
    · exact (codec_completeStream kind _ _).trans hcodec'
    · exact hcodec'
  obtain ⟨hid, rfl⟩ | ⟨rfl, a, ha, rfl⟩ := hcases
  · refine ⟨hcodec'', fun b hb => (by cases hb), h.valid, ?_⟩
    have hne : id ≠ stream := fun heq => hid heq.symm
    have hother := completeStream_other kind ((c.addBlock bytes).decoded stream fields dec) hne
    have hg : ((c.addBlock bytes).decoded stream fields dec).gathered id = c.gathered id := by
      rw [gathered_decoded, if_neg hne]
      rfl
    refine h.stands.off (fun b hb => ?_) (fun b hb => by cases hb) rfl ?_ ?_
    · rw [hblock] at hb
      cases hb
    · split_ifs
      · exact hother.1.trans hg
      · exact hg
    · split_ifs
      · exact hother.2.trans (outcomes_decoded _ _ _ _ _)
      · exact outcomes_decoded _ _ _ _ _
  · refine ⟨hcodec'', fun b hb => (by cases hb), h.valid.head ha, ?_⟩
    have hended := (PeerAnswer.head_cases ha).1
    cases h.stands with
    | unopened => exact absurd (hopened rfl) (by simp)
    | waiting _ _ hg ho =>
      have hg' := gathered_decoded_self (c := c.addBlock bytes) h.valid hg ha dec
      have ho' := (outcomes_decoded (c.addBlock bytes) stream fields dec stream).trans ho
      cases endStream with
      | false =>
        exact .waiting (ended_head ha hended) (fun _ _ hb => by cases hb) hg' ho'
      | true =>
        obtain ⟨hgone, hout⟩ := completeStream_self kind hg'
        refine .done (ended_head ha hended) hgone ?_
        rw [ho', nil_append] at hout
        rw [seen_head_whole h.valid ha]
        exact hout
    | early bytes' _ hb =>
      rw [hblock] at hb
      cases hb
    | done hdone => rw [hdone] at hended; cases hended

theorem Reads.firstPart {r : PeerReader hp} (h : Reads kind id opened r c) (hblock : r.block = none)
    (hpos : stream ≠ 0) (hopened : stream = id → opened = true) (endStream : Bool) (bytes : Bytes) :
    Reads kind id opened { r with block := some (stream, endStream, bytes) } (if endStream then
      ((c.addBlock bytes).expect (some stream)).completeStream kind stream
      else (c.addBlock bytes).expect (some stream)) := by
  obtain ⟨hdec, hacc, -, halive⟩ := h.codec_parts
  rw [hblock, Option.map_none, Option.getD_none] at hacc
  have hcodec' : ((c.addBlock bytes).expect (some stream)).codec =
      ⟨r.dec, bytes, some stream, false⟩ := by
    simp only [ClientConn.codec, expect, addBlock, hdec, hacc, halive, nil_append]
  refine ⟨?_, fun b hb => Option.some.inj hb ▸ hpos, h.valid, ?_⟩
  · split_ifs
    · exact (codec_completeStream kind _ _).trans hcodec'
    · exact hcodec'
  by_cases hid : id = stream
  · subst hid
    cases hs : h.stands with
    | unopened => exact absurd (hopened rfl) (by simp)
    | waiting hended _ hg ho =>
      cases endStream with
      | false =>
        refine .waiting hended (fun es bytes' hb => ?_) hg ho
        simp only [Option.some.injEq, Prod.mk.injEq, true_and] at hb
        exact hb.1.symm
      | true =>
        obtain ⟨hgone, hout⟩ := completeStream_self kind
          (c := (c.addBlock bytes).expect (some id)) hg
        refine .early bytes hended rfl hgone (hout.trans ?_)
        change c.outcomes id ++ _ = _
        rw [ho, nil_append]
    | early bytes' _ hb =>
      rw [hblock] at hb
      cases hb
    | done hended hg ho =>
      have hgone := completeStream_gone kind (c := (c.addBlock bytes).expect (some id)) hg
      refine .done hended ?_ ?_
      · split_ifs
        · rw [hgone]
          exact hg
        · exact hg
      · split_ifs
        · rw [hgone]
          exact ho
        · exact ho
  · have hother := completeStream_other kind ((c.addBlock bytes).expect (some stream)) hid
    refine h.stands.off (fun b hb => ?_) (fun b hb => ?_) rfl ?_ ?_
    · rw [hblock] at hb
      cases hb
    · exact Option.some.inj hb ▸ fun heq => hid heq.symm
    · split_ifs
      · exact hother.1
      · rfl
    · split_ifs
      · exact hother.2
      · rfl

theorem content_updateStream (c : ClientConn hp) {a : PeerAnswer} (bytes : Bytes)
    (hg : c.gathered id = some a.gathering) (endStream : Bool) :
    (c.updateStream id fun s => { s with respBody := s.respBody ++ bytes }).gathered id =
      some ({ a with body := a.body ++ bytes, ended := endStream } : PeerAnswer).gathering := by
  rw [gathered, Option.map_eq_some_iff] at hg
  obtain ⟨s, hs, hgs⟩ := hg
  have hbody : s.respBody = a.body := congrArg Gathered.body hgs
  rw [gathered_updateStream, if_pos rfl, hs, Option.map_some, Option.some.injEq]
  rw [show streamGathered { s with respBody := s.respBody ++ bytes } =
    { streamGathered s with body := s.respBody ++ bytes } from rfl, hgs, hbody]
  rfl

theorem Reads.answerData {r : PeerReader hp}
    (h : Reads kind id true r c) (hblock : r.block = none) {endStream : Bool}
    {a : PeerAnswer} (ha : r.answer.data bytes endStream = some a) :
    Reads kind id true { r with answer := a }
      (if endStream then
        (c.updateStream id fun s => { s with respBody := s.respBody ++ bytes }).completeStream kind
          id
      else c.updateStream id fun s => { s with respBody := s.respBody ++ bytes }) := by
  obtain ⟨hvalid, hopen, rfl⟩ := h.valid.data ha
  refine ⟨?_, h.positive, hvalid, ?_⟩
  · refine Eq.trans ?_ h.codec
    split_ifs
    · exact (codec_completeStream kind _ _).trans (codec_updateStream _ _ _)
    · exact codec_updateStream _ _ _
  cases h.stands with
  | waiting _ hb hg ho =>
    have hg' := content_updateStream c bytes hg endStream
    have ho' := (outcomes_updateStream c id
      (fun s => { s with respBody := s.respBody ++ bytes }) id).trans ho
    cases endStream with
    | false => exact .waiting rfl hb hg' ho'
    | true =>
      obtain ⟨hgone, hout⟩ := completeStream_self kind hg'
      have hcut : r.answer.cut = false := by
        by_contra hne
        rw [h.valid.cutting (Bool.eq_true_of_not_eq_false hne)] at hopen
        cases hopen
      rw [ho', nil_append] at hout
      refine .done rfl hgone (hout.trans ?_)
      rw [PeerAnswer.seen_of_whole hcut]
  | early bytes' _ hb =>
    rw [hblock] at hb
    cases hb
  | done hdone => rw [hdone] at hopen; cases hopen

theorem onData_other (kind : ClientKind)
    (hne : id ≠ f.stream) (halive : (c.onData kind f).isDead = false) :
    (c.onData kind f).codec = c.codec ∧ (c.onData kind f).gathered id = c.gathered id ∧
      (c.onData kind f).outcomes id = c.outcomes id := by
  unfold onData at halive ⊢
  split at halive
  · cases halive
  · rename_i pl pos hunpad
    have hgrant : SendOnly c (if (pl.drop pos).length > 0 then c.grant f.stream (pl.drop pos).length
        else c) := by
      split_ifs
      · exact grant_sendOnly c _ _
      · exact SendOnly.refl c
    have hupdate : ∀ c₁ : ClientConn hp, SendOnly c c₁ →
        (c₁.updateStream f.stream fun s => { s with respBody := s.respBody ++ pl.drop pos }).codec =
            c.codec ∧
          (c₁.updateStream f.stream fun s =>
            { s with respBody := s.respBody ++ pl.drop pos }).gathered id = c.gathered id ∧
          (c₁.updateStream f.stream fun s =>
            { s with respBody := s.respBody ++ pl.drop pos }).outcomes id = c.outcomes id := by
      intro c₁ hs
      refine ⟨(codec_updateStream _ _ _).trans hs.codec, ?_,
        (outcomes_updateStream _ _ _ _).trans (hs.outcomes id)⟩
      rw [gathered_updateStream, if_neg hne, hs.gathered]
    obtain ⟨hcodec, hg, ho⟩ := hupdate _ hgrant
    split_ifs
    · obtain ⟨hg', ho'⟩ := completeStream_other kind _ hne
      exact ⟨(codec_completeStream kind _ _).trans hcodec, hg'.trans hg, ho'.trans ho⟩
    · exact ⟨hcodec, hg, ho⟩

theorem onFrame_other (kind : ClientKind) (iter : Iter hp)
    (halive : c.isDead = false) (hnotHead : f.ftype ≠ .headers)
    (hnotMore : f.ftype ≠ .continuation) (hdata : f.ftype = .data → id ≠ f.stream)
    (hreset : f.ftype = .rstStream → id ≠ f.stream)
    (hcredit : ∀ n, f.ftype = .windowUpdate → f.stream = id → f.stream ≠ 0 →
      increment f.payload = some n →
        0 < n ∧ ∀ s, c.streams.get? id = some s → s.sendWindow + n ≤ maxWindow)
    (halive' : (c.onFrame kind iter f).isDead = false) :
    (c.onFrame kind iter f).codec = c.codec ∧ (c.onFrame kind iter f).gathered id = c.gathered id ∧
      (c.onFrame kind iter f).outcomes id = c.outcomes id := by
  have hsame : ∀ c', SendOnly c c' → c'.codec = c.codec ∧ c'.gathered id = c.gathered id ∧
      c'.outcomes id = c.outcomes id := fun c' hs => ⟨hs.codec, hs.gathered id, hs.outcomes id⟩
  cases hf : f.ftype with
  | settings =>
    simp only [onFrame, hf] at halive' ⊢
    split_ifs at halive' ⊢ with hack hdead
    · exact ⟨rfl, rfl, rfl⟩
    · rw [hdead] at halive'
      cases halive'
    · obtain hsend | ⟨hgone, -⟩ := applySettings_sendOnly kind halive (settingsPairs f.payload)
      · exact hsame _ ((hsend.trans (pushFrame_sendOnly _ _ _ _ _)).trans (pumpAll_sendOnly iter _))
      · exact absurd hgone hdead
  | headers => exact absurd hf hnotHead
  | continuation => exact absurd hf hnotMore
  | data =>
    simp only [onFrame, hf] at halive' ⊢
    split_ifs at halive' ⊢
    · exact onData_other kind (hdata hf) halive'
    · exact ⟨rfl, rfl, rfl⟩
  | rstStream =>
    simp only [onFrame, hf]
    split_ifs
    · split
      · exact ⟨rfl, rfl, rfl⟩
      · exact ⟨rfl, gathered_erase c (hreset hf), outcomes_snoc c (hreset hf) _⟩
    · exact ⟨rfl, rfl, rfl⟩
  | goaway =>
    simp only [onFrame, hf] at halive'
    cases halive'
  | ping =>
    simp only [onFrame, hf]
    split_ifs
    · exact hsame _ (pushFrame_sendOnly _ _ _ _ _)
    · exact ⟨rfl, rfl, rfl⟩
  | windowUpdate =>
    simp only [onFrame, hf] at halive' ⊢
    cases hn : increment f.payload with
    | none => exact ⟨rfl, rfl, rfl⟩
    | some n =>
      simp only [hn] at halive' ⊢
      split_ifs at halive' ⊢ with hzero
      · rw [onConnCredit] at halive' ⊢
        split_ifs at halive' ⊢
        · cases halive'
        · refine hsame _ (SendOnly.trans ?_ (pumpAll_sendOnly iter _))
          exact ⟨rfl, rfl, rfl, rfl, rfl, rfl, fun _ => rfl⟩
        · cases halive'
      · by_cases hid : f.stream = id
        · obtain ⟨hpos, hroom⟩ := hcredit n hf hid hzero hn
          exact hsame _ (onStreamCredit_sendOnly hpos (hid ▸ hroom))
        · obtain hsend | ⟨code, heq⟩ := onStreamCredit_cases c f.stream n
          · exact hsame _ hsend
          · rw [heq]
            exact ⟨rfl, gathered_erase c fun h => hid h.symm, rfl⟩
  | other code =>
    have hkept : c.onFrame kind iter f = c := by simp only [onFrame, hf]
    rw [hkept]
    exact ⟨rfl, rfl, rfl⟩

/-- **A further part** of a block. -/
theorem Reads.laterPart (h : Reads kind id opened r c) {endStream : Bool}
    (hblock : r.block = some (stream, endStream, bytes)) (part : Bytes) :
    Reads kind id opened { r with block := some (stream, endStream, bytes ++ part) }
      (c.addBlock part) := by
  obtain ⟨hdec, hacc, hcont, halive⟩ := h.codec_parts
  have hpos := h.positive _ hblock
  rw [hblock, Option.map_some, Option.getD_some] at hacc
  refine ⟨?_, fun b hb => Option.some.inj hb ▸ hpos, h.valid, ?_⟩
  · simp only [ClientConn.codec, addBlock, hdec, hacc, hcont, halive, hblock, Option.map_some,
      Option.getD_some]
  · cases h.stands with
    | unopened hb ha =>
      refine .unopened (fun b hb' => ?_) ha
      cases hb'
      exact hb (stream, endStream, bytes) hblock
    | waiting hended hb hg ho =>
      refine .waiting hended (fun es bytes' hb' => ?_) hg ho
      simp only [Option.some.injEq, Prod.mk.injEq] at hb'
      obtain ⟨rfl, rfl, -⟩ := hb'
      exact hb _ _ hblock
    | early bytes' hended hb hg ho =>
      rw [hblock] at hb
      obtain ⟨rfl, rfl, -⟩ : stream = id ∧ endStream = true ∧ bytes = bytes' := by
        simpa using hb
      exact .early _ hended rfl hg ho
    | done hended hg ho => exact .done hended hg ho

/-- **A HEADERS frame**, outside of a block. -/
theorem Reads.headers (iter : Iter hp) (h : Reads kind id opened r c) (hblock : r.block = none)
    (hf : f.ftype = .headers) (hopened : f.stream = id → opened = true)
    (hread : r.read id f = some r') : Reads kind id opened r' (c.onFrame kind iter f) := by
  obtain ⟨-, -, -, halive⟩ := h.codec_parts
  simp only [PeerReader.read, hblock, hf] at hread
  by_cases hzero : f.stream = 0
  · rw [if_pos hzero] at hread
    cases hread
  rw [if_neg hzero] at hread
  obtain ⟨bytes, hfragment, hread⟩ := Option.bind_eq_some_iff.mp hread
  obtain ⟨pl, pos, hunpad, hdrop⟩ := unpad_of_fragment hfragment "HEADERS".toList
  have hframe : c.onFrame kind iter f = c.onHeaders kind f := by
    simp only [onFrame, hf, if_pos (Nat.pos_of_ne_zero hzero)]
  rw [hframe, onHeaders, hunpad]
  simp only [hdrop]
  by_cases hwhole : f.has flagEndHeaders = true
  · rw [if_pos hwhole] at hread
    have hreads := h.wholeBlock hblock hopened hread
    simp only [if_pos hwhole]
    split_ifs at hreads ⊢ with hdead hend
    · obtain ⟨-, -, -, hlive⟩ := hreads.codec_parts
      rw [isDead_completeStream, hdead] at hlive
      cases hlive
    · obtain ⟨-, -, -, hlive⟩ := hreads.codec_parts
      rw [hdead] at hlive
      cases hlive
    all_goals exact hreads
  · rw [if_neg hwhole] at hread
    cases hread
    have hreads := h.firstPart hblock hzero hopened (f.has flagEndStream) bytes
    simp only [if_neg hwhole]
    rw [if_neg (by change ¬ c.isDead = true; rw [halive]; simp)]
    exact hreads

/-- **A frame of the peer**, on a connection that outlives it. -/
theorem Reads.receive (iter : Iter hp) (h : Reads kind id opened r c)
    (hid : id ≠ 0) (hopened : f.stream = id → opened = true) (hread : r.read id f = some r')
    (hcredit : ∀ n, f.ftype = .windowUpdate → f.stream = id → increment f.payload = some n →
      0 < n ∧ ∀ s, c.streams.get? id = some s → s.sendWindow + n ≤ maxWindow)
    (halive' : (c.receive kind iter f).isDead = false) :
    Reads kind id opened r' (c.receive kind iter f) := by
  obtain ⟨-, hacc, hcont, halive⟩ := h.codec_parts
  unfold ClientConn.receive at halive' ⊢
  rw [if_neg (by rw [halive]; simp)] at halive' ⊢
  rw [hcont] at halive' ⊢
  cases hblock : r.block with
  | some b =>
    obtain ⟨stream, endStream, bytes⟩ := b
    have hpos := h.positive _ hblock
    simp only [PeerReader.read, hblock] at hread
    split_ifs at hread with hcontinues hlast
    all_goals
      obtain ⟨hf, rfl⟩ := hcontinues
      have hframe : c.onFrame kind iter f = c.onContinuation kind f := by
        simp only [onFrame, hf, if_pos (Nat.pos_of_ne_zero hpos)]
      simp only [Option.map_some, hf, ne_eq, not_true_eq_false, or_self, if_false,
        hframe] at halive' ⊢
    · rw [onContinuation, if_pos hlast]
      exact h.lastContinuation hblock hopened hread
    · rw [onContinuation, if_neg hlast]
      cases hread
      exact h.laterPart hblock f.payload
  | none =>
    simp only [hblock, Option.map_none] at halive' ⊢
    have hother : f.ftype ≠ .headers → f.ftype ≠ .continuation →
        (f.ftype = .data → id ≠ f.stream) → (f.ftype = .rstStream → id ≠ f.stream) → r' = r →
        Reads kind id opened r' (c.onFrame kind iter f) := by
      intro hh hc hd hr heq
      obtain ⟨hcodec, hg, ho⟩ := onFrame_other kind iter halive hh hc hd hr
        (fun n hw hid _ hn => hcredit n hw hid hn) halive'
      exact heq ▸ h.same hcodec hg ho
    have hunread := hread
    simp only [PeerReader.read, hblock] at hread
    cases hf : f.ftype with
    | continuation =>
      simp only [hf] at hread
      cases hread
    | headers => exact h.headers iter hblock hf hopened hunread
    | data =>
      simp only [hf] at hread
      split_ifs at hread with hself
      · obtain ⟨bytes, hcontent, hread⟩ := Option.bind_eq_some_iff.mp hread
        obtain ⟨a, ha, rfl⟩ := Option.map_eq_some_iff.mp hread
        obtain ⟨pl, pos, hunpad, hdrop⟩ := unpad_of_content hcontent "DATA".toList
        have hzero := hdrop 0
        rw [Nat.add_zero, drop_zero] at hzero
        obtain rfl := hopened hself
        have hpos : 0 < f.stream := Nat.pos_of_ne_zero (hself ▸ hid)
        simp only [onFrame, hf, if_pos hpos]
        rw [onData, hunpad, ← hblock]
        simp only [hzero, hself]
        refine Reads.answerData ?_ hblock ha
        split_ifs
        · exact h.sendOnly (grant_sendOnly c _ _)
        · exact h
      · exact hother (by simp [hf]) (by simp [hf]) (fun _ => fun h => hself h.symm) (by simp [hf])
          (Option.some.inj hread).symm
    | rstStream =>
      simp only [hf] at hread
      split_ifs at hread with hself
      exact hother (by simp [hf]) (by simp [hf]) (by simp [hf]) (fun _ => fun h => hself h.symm)
        (Option.some.inj hread).symm
    | settings | goaway | ping | windowUpdate | other code =>
      simp only [hf] at hread
      exact hother (by simp [hf]) (by simp [hf]) (by simp [hf]) (by simp [hf])
        (Option.some.inj hread).symm

/-! ## Runs -/

section
variable (kind : ClientKind) (iter : Iter hp)

theorem run_nil (c : ClientConn hp) : run kind iter c [] = c := rfl

theorem alive_of_run (c : ClientConn hp) (events : List ClientEvent)
    (h : (run kind iter c events).isDead = false) : c.isDead = false := by
  by_contra hdead
  have hdead : c.isDead = true := Bool.eq_true_of_not_eq_false hdead
  rw [run_of_dead kind iter hdead, hdead] at h
  cases h

theorem openStream_codec (c : ClientConn hp) (d : Dispatch) :
    (openStream kind c d).codec = c.codec := rfl

theorem Reads.dispatched {kind : ClientKind} {id : Nat} {opened : Bool} {r : PeerReader hp}
    {c : ClientConn hp} (h : Reads kind id opened r c)
    (hnext : opened = true → id < c.nextStreamId) (d : Dispatch) :
    Reads kind id opened r (dispatch kind c d).2 := by
  obtain ⟨-, -, -, halive⟩ := h.codec_parts
  rw [ClientConn.dispatch, if_neg (by rw [halive]; simp)]
  refine Reads.sendOnly ?_ (pumpStream_sendOnly _ _)
  cases opened with
  | false =>
    refine ⟨h.codec, h.positive, h.valid, ?_⟩
    cases h.stands with
    | unopened hb ha => exact .unopened hb ha
  | true =>
    refine h.same (openStream_codec kind c d) ?_ rfl
    change ((c.streams.insert c.nextStreamId _).get? id).map streamGathered = _
    rw [SortedMap.get?_insert, if_neg (Nat.ne_of_lt (hnext rfl))]
    rfl

theorem Reads.opens {kind : ClientKind} {r : PeerReader hp} {c : ClientConn hp}
    (h : Reads kind c.nextStreamId false r c) (hunique : Unique c) (d : Dispatch) :
    Reads kind c.nextStreamId true r (dispatch kind c d).2 := by
  obtain ⟨-, -, -, halive⟩ := h.codec_parts
  rw [ClientConn.dispatch, if_neg (by rw [halive]; simp)]
  refine Reads.sendOnly ?_ (pumpStream_sendOnly _ _)
  refine ⟨h.codec, h.positive, h.valid, ?_⟩
  have hempty : c.outcomes c.nextStreamId = [] := by
    rw [outcomes, map_eq_nil_iff, filter_eq_nil_iff]
    intro e he heq
    have hlt := (hunique.gone e.1 (mem_map_of_mem he)).1
    rw [of_decide_eq_true heq] at hlt
    exact Nat.lt_irrefl _ hlt
  cases h.stands with
  | unopened hb ha =>
    refine .waiting (by rw [ha]; rfl) (fun es bytes hblock => absurd rfl (hb _ hblock)) ?_ hempty
    rw [ha]
    change ((c.streams.insert c.nextStreamId _).get? c.nextStreamId).map streamGathered = _
    rw [SortedMap.get?_insert, if_pos rfl]
    rfl

theorem next_dispatch (c : ClientConn hp) (d : Dispatch) :
    c.nextStreamId ≤ (ClientConn.dispatch kind c d).2.nextStreamId := by
  rw [ClientConn.dispatch]
  split_ifs
  · exact Nat.le_refl _
  · rw [(pumpStream_sendOnly _ _).next]
    exact Nat.le_add_right _ 2

theorem next_run (c : ClientConn hp) (events : List ClientEvent) :
    c.nextStreamId ≤ (run kind iter c events).nextStreamId := by
  induction events generalizing c with
  | nil => exact Nat.le_refl _
  | cons e events ih =>
    refine Nat.le_trans ?_ (ih _)
    cases e with
    | dispatch d => exact next_dispatch kind c d
    | receive f => exact Nat.le_of_eq (receive_settles kind iter c f).next.symm
    | lost reason =>
      rw [step]
      split_ifs
      · exact Nat.le_refl _
      · exact Nat.le_of_eq (markDead_settles c reason).next.symm

theorem readAll_append (id : Nat) (r : PeerReader hp) (fs fs' : List Frame) :
    PeerReader.readAll id r (fs ++ fs') =
      (PeerReader.readAll id r fs).bind fun r => PeerReader.readAll id r fs' := by
  induction fs generalizing r with
  | nil => rfl
  | cons f fs ih =>
    simp only [cons_append, PeerReader.readAll]
    cases r.read id f with
    | none => rfl
    | some r' => exact ih r'

/-- **A run of a connection that outlives it**, read for one stream. -/
theorem Reads.run {kind : ClientKind} (iter : Iter hp) {id : Nat} (hid : id ≠ 0) {opened : Bool}
    {r r' : PeerReader hp} {c : ClientConn hp} (h : Reads kind id opened r c)
    (events : List ClientEvent) (hnext : opened = true → id < c.nextStreamId)
    (hopened : ∀ f ∈ frames events, f.stream = id → opened = true)
    (hread : PeerReader.readAll id r (frames events) = some r')
    (hcredit : Credited kind iter id c events)
    (halive : (ClientConn.run kind iter c events).isDead = false) :
    Reads kind id opened r' (ClientConn.run kind iter c events) := by
  induction events generalizing r c with
  | nil =>
    cases hread
    exact h
  | cons e events ih =>
    obtain ⟨hhere, hcredit⟩ := hcredit
    have hstep : (step kind iter c e).isDead = false := alive_of_run kind iter _ events halive
    cases e with
    | dispatch d =>
      exact ih (h.dispatched hnext d)
        (fun ho => Nat.lt_of_lt_of_le (hnext ho) (next_dispatch kind c d)) hopened hread hcredit
        halive
    | receive f =>
      obtain ⟨r₁, hr₁, hread⟩ := Option.bind_eq_some_iff.mp hread
      have hreads := h.receive iter hid (hopened f mem_cons_self) hr₁
        (fun n hw hs hn => hhere f n rfl hw hs hn) hstep
      have hnext' : (c.receive kind iter f).nextStreamId = c.nextStreamId :=
        (receive_settles kind iter c f).next
      exact ih hreads (fun ho => Nat.lt_of_lt_of_eq (hnext ho) hnext'.symm)
        (fun f' hf' => hopened f' (mem_cons_of_mem f hf')) hread hcredit halive
    | lost reason =>
      obtain ⟨-, -, -, hlive⟩ := h.codec_parts
      rw [step, if_neg (by rw [hlive]; simp)] at hstep
      cases hstep

theorem credited_of_idle {id : Nat} (c : ClientConn hp) {events : List ClientEvent}
    (h : ∀ f ∈ frames events, f.stream ≠ id) : Credited kind iter id c events := by
  induction events generalizing c with
  | nil => trivial
  | cons e events ih =>
    refine ⟨?_, ih _ fun f hf => h f ?_⟩
    · rintro f n rfl - hs -
      exact absurd hs (h f mem_cons_self)
    · cases e with
      | receive g => exact mem_cons_of_mem g hf
      | dispatch d | lost reason => exact hf

theorem reads_connect (id : Nat) : Reads kind id false (PeerReader.start hp) (connect hp) :=
  ⟨rfl, fun b hb => (by cases hb), PeerAnswer.valid_start,
    .unopened (fun b hb => (by cases hb)) rfl⟩

theorem step_outcomes (c : ClientConn hp) (e : ClientEvent) (id : Nat) :
    c.outcomes id <+: (step kind iter c e).outcomes id := by
  have hsettles : ∀ {c' : ClientConn hp}, Settles c c' → c.outcomes id <+: c'.outcomes id := by
    intro c' hs
    obtain ⟨new, hres, -, -⟩ := hs.answers
    rw [outcomes, outcomes, hres, filter_append, map_append]
    exact prefix_append _ _
  cases e with
  | dispatch d =>
    rw [step, ClientConn.dispatch]
    split_ifs
    · exact prefix_rfl
    · rw [(pumpStream_sendOnly _ _).outcomes]
      exact prefix_rfl
  | receive f => exact hsettles (receive_settles kind iter c f)
  | lost reason =>
    rw [step]
    split_ifs
    · exact prefix_rfl
    · exact hsettles (markDead_settles c reason)

theorem run_outcomes (c : ClientConn hp) (events : List ClientEvent) (id : Nat) :
    c.outcomes id <+: (run kind iter c events).outcomes id := by
  induction events generalizing c with
  | nil => exact prefix_rfl
  | cons e events ih => exact (step_outcomes kind iter c e id).trans (ih _)

end

theorem PeerAnswer.seen_iff {a : PeerAnswer} (hv : a.Valid) (hended : a.ended = true)
    (kind : ClientKind) : a.seen.gathering.outcome kind = .ok a.response ↔ a.Plain := by
  obtain ⟨⟨n, hs⟩, hfinal⟩ := Option.ne_none_iff_exists'.mp (hv.ends hended)
  have hinterims : a.interims.flatMap Prod.snd = [] ↔ ∀ h ∈ a.interims, h.2 = [] := by
    rw [flatMap_eq_nil_iff]
  cases hcut : a.cut with
  | false =>
    have hall : a.seen.gathering.outcome kind =
        .ok ⟨n, a.interims.flatMap Prod.snd ++ hs ++ a.trailers.getD [], a.body⟩ := by
      simp [PeerAnswer.seen, PeerAnswer.gathering, Gathered.outcome, hcut, hfinal]
    rw [hall, PeerAnswer.response, hfinal, PeerAnswer.Plain, ← hinterims]
    simp only [Except.ok.injEq, HttpResponse.mk.injEq, true_and, and_true, hcut, implies_true,
      Bool.false_eq_true, or_false]
    constructor
    · intro heq
      have hlen := congrArg List.length heq
      rw [length_append, length_append] at hlen
      refine ⟨length_eq_zero_iff.mp (by omega), fun t ht => length_eq_zero_iff.mp ?_⟩
      rw [ht, Option.getD_some] at hlen
      omega
    · rintro ⟨hnil, htrailers⟩
      rw [hnil]
      cases ht : a.trailers with
      | none => simp
      | some t => simp [htrailers t ht]
  | true =>
    cases ht : a.trailers with
    | some t =>
      have hall : a.seen.gathering.outcome kind =
          .ok ⟨n, a.interims.flatMap Prod.snd ++ hs, a.body⟩ := by
        simp [PeerAnswer.seen, PeerAnswer.gathering, Gathered.outcome, hcut, hfinal, ht]
      rw [hall, PeerAnswer.response, hfinal, PeerAnswer.Plain, ← hinterims]
      simp [hcut, ht]
    | none =>
      refine iff_of_false ?_ fun hplain => ?_
      · intro heq
        cases hlast : a.interims.getLast? with
        | none =>
          rw [getLast?_eq_none_iff] at hlast
          simp [PeerAnswer.seen, PeerAnswer.gathering, Gathered.outcome, hcut, ht, hlast] at heq
        | some i =>
          have hne : a.interims ≠ [] := by
            rintro hnil
            rw [hnil] at hlast
            cases hlast
          simp [PeerAnswer.seen, PeerAnswer.gathering, Gathered.outcome, hcut, ht, hlast, hne,
            PeerAnswer.response, hfinal] at heq
          have hlow := hv.interim i (mem_of_getLast? hlast)
          have hhigh := hv.final _ hfinal
          simp only at hhigh
          omega
      · have := hplain.2.1 ht
        rw [hcut] at this
        cases this

/-- **What the receiver of a request gets.** No receiver ever gets two outcomes, whatever comes.
And where the peer answers a request as the protocol allows, on a connection that lives until
then, its receiver gets exactly the final status and fields and the whole body, and nothing
after it, exactly if the answer is plain: no interim block has a field besides its status, a
final block that ends the stream is not cut, and trailers are empty unless they are cut. Other
requests and the frames of other streams may come at any point between. -/
theorem answered_iff (hp : Hpack) (kind : ClientKind) (iter : Iter hp) :
    (∀ events id, ((run kind iter (connect hp) events).outcomes id).length ≤ 1) ∧
    ∀ (before : List ClientEvent) (d : Dispatch) (answer after : List ClientEvent)
      (r : PeerReader hp) (c c' : ClientConn hp), c = run kind iter (connect hp) before →
      c' = run kind iter (dispatch kind c d).2 answer →
      (∀ f ∈ frames before, f.stream ≠ c.nextStreamId) →
      (PeerReader.start hp).readAll c.nextStreamId (frames (before ++ answer)) = some r →
      r.answer.ended = true → Credited kind iter c.nextStreamId (dispatch kind c d).2 answer →
      c'.isDead = false →
      ((run kind iter c' after).outcomes c.nextStreamId = [.ok r.answer.response] ↔
        r.answer.Plain) := by
  refine ⟨at_most_once kind iter, ?_⟩
  intro before d answer after r c c' hc hc' hidle hread hended hcredit halive
  rw [frames_append, readAll_append] at hread
  obtain ⟨r₀, hr₀, hread⟩ := Option.bind_eq_some_iff.mp hread
  rw [hc'] at halive
  have hdispatched : (dispatch kind c d).2.isDead = false := alive_of_run kind iter _ answer halive
  have hlive : c.isDead = false := alive_of_run kind iter c [.dispatch d] hdispatched
  have hid : c.nextStreamId ≠ 0 := by
    have hpos : 1 ≤ c.nextStreamId := hc ▸ next_run kind iter (connect hp) before
    omega
  have hunique : Unique c := hc ▸ run_unique kind iter unique_connect before
  -- up to the request nothing concerns the stream, and from then on the reading follows it
  have hbefore : Reads kind c.nextStreamId false r₀ c := by
    have hrun := Reads.run iter hid (reads_connect kind c.nextStreamId) before
      (fun h => by cases h) (fun f hf hs => absurd hs (hidle f hf)) hr₀
        (credited_of_idle kind iter _ hidle)
      (hc ▸ hlive)
    rwa [← hc] at hrun
  have hopens := hbefore.opens hunique d
  have hnext : c.nextStreamId < (dispatch kind c d).2.nextStreamId := by
    rw [dispatch, if_neg (by rw [hlive]; simp), (pumpStream_sendOnly _ _).next]
    exact Nat.lt_add_of_pos_right (by decide)
  have hreads := Reads.run iter hid hopens answer (fun _ => hnext) (fun _ _ _ => rfl) hread
    hcredit halive
  rw [← hc'] at hreads
  have houtcome : c'.outcomes c.nextStreamId = [r.answer.seen.gathering.outcome kind] := by
    cases hreads.stands with
    | waiting ho | early _ ho => rw [ho] at hended; cases hended
    | done _ _ ho => exact ho
  -- the outcome stays the only one
  have hfinal : (run kind iter c' after).outcomes c.nextStreamId =
      [r.answer.seen.gathering.outcome kind] := by
    obtain ⟨more, hmore⟩ := run_outcomes kind iter c' after c.nextStreamId
    have hone := at_most_once kind iter (before ++ .dispatch d :: answer ++ after) c.nextStreamId
    rw [run_append, run_append, ← hc] at hone
    change ((run kind iter (run kind iter (dispatch kind c d).2 answer) after).outcomes
      c.nextStreamId).length ≤ 1 at hone
    rw [← hc', ← hmore, houtcome, length_append, length_singleton] at hone
    have hnil : more = [] := length_eq_zero_iff.mp (by omega)
    rw [← hmore, houtcome, hnil, append_nil]
  rw [hfinal, singleton_inj]
  exact PeerAnswer.seen_iff hreads.valid hended kind

/-! ## Two answers -/

def literalFields : Nat → Bytes → List RawField
  | fuel + 1, 0 :: n :: rest =>
    match rest.drop n.toNat with
    | m :: rest' =>
      (rest.take n.toNat, rest'.take m.toNat) :: literalFields fuel (rest'.drop m.toNat)
    | [] => []
  | _, _ => []

/-- The encoder of `plainHpack`, and a decoder of literal fields. -/
def literalHpack : Hpack :=
  { plainHpack with decode := fun _ block => (.ok (literalFields block.length block), ()) }

def literal (name value : String) : Bytes :=
  let string (s : String) : Bytes := UInt8.ofNat (lit s).length :: lit s
  0 :: (string name ++ string value)

def smallRequest : Dispatch where
  req := ⟨"GET".toList, "/".toList, none, "HTTP/2".toList, [], []⟩
  host := "origin".toList
  clientIp := "203.0.113.7".toList
  originalHost := "site.test".toList

def answeredBy (kind : ClientKind) (fs : List Frame) : ClientConn literalHpack :=
  run kind (fun _ ids => ids) (dispatch kind (connect literalHpack) smallRequest).2
    (fs.map .receive)

theorem credited_of_no_update (kind : ClientKind) (iter : Iter hp) (id : Nat) (c : ClientConn hp)
    {fs : List Frame} (h : ∀ f ∈ fs, f.ftype ≠ .windowUpdate) :
    Credited kind iter id c (fs.map .receive) := by
  induction fs generalizing c with
  | nil => trivial
  | cons f fs ih =>
    refine ⟨?_, ih _ fun g hg => h g (mem_cons_of_mem f hg)⟩
    rintro g n heq hw - -
    cases heq
    exact absurd hw (h f mem_cons_self)

def plainAnswer : List Frame :=
  [⟨.headers, flagEndHeaders, 1, literal ":status" "100"⟩,
    ⟨.headers, 0, 1, literal ":status" "200"⟩,
    ⟨.continuation, flagEndHeaders, 1, literal "etag" "a"⟩,
    ⟨.data, flagPadded ||| flagEndStream, 1, [2, 104, 105, 0, 0]⟩]

theorem plain_answered : (answeredBy .h2cClientConn plainAnswer).outcomes 1 =
      [.ok ⟨200, [("etag".toList, "a".toList)], [104, 105]⟩] := by
  have hread : (PeerReader.readAll 1 (PeerReader.start literalHpack) plainAnswer).map
      (fun r => (r.answer.ended, r.answer.response)) =
      some (true, ⟨200, [("etag".toList, "a".toList)], [104, 105]⟩) := by decide
  obtain ⟨r, hr, hanswer⟩ := Option.map_eq_some_iff.mp hread
  obtain ⟨hended, hresponse⟩ := Prod.mk.inj hanswer
  have hplain : (PeerReader.readAll 1 (PeerReader.start literalHpack) plainAnswer).map
      (fun r => decide r.answer.Plain) = some true := by decide
  rw [hr, Option.map_some, Option.some.injEq, decide_eq_true_iff] at hplain
  have hanswered := (answered_iff literalHpack .h2cClientConn fun _ ids => ids).2 [] smallRequest
    (plainAnswer.map .receive) [] r (connect literalHpack)
    (answeredBy .h2cClientConn plainAnswer) rfl rfl (by rintro f ⟨⟩) hr hended
    (credited_of_no_update _ _ _ _ (by decide)) (by decide)
  rw [hresponse, run_nil] at hanswered
  exact hanswered.mpr hplain

/-- Early hints, and then a response without a body. -/
def hintedAnswer : List Frame :=
  [⟨.headers, flagEndHeaders, 1, literal ":status" "103" ++ literal "link" "</a.css>"⟩,
    ⟨.headers, flagEndHeaders ||| flagEndStream, 1, literal ":status" "200"⟩]

/-- The `link` of early hints is handed on as a field of the response, by either client, on a
connection that goes on. -/
theorem hints_mixed : (PeerReader.readAll 1 (PeerReader.start literalHpack) hintedAnswer).map
        (fun r => (r.answer.ended, r.answer.response)) = some (true, ⟨200, [], []⟩) ∧
      (answeredBy .h2cClientConn hintedAnswer).isDead = false ∧
      (answeredBy .h2cClientConn hintedAnswer).outcomes 1 =
        [.ok ⟨200, [("link".toList, "</a.css>".toList)], []⟩] ∧
      (answeredBy .h2sTlsClientConn hintedAnswer).isDead = false ∧
      (answeredBy .h2sTlsClientConn hintedAnswer).outcomes 1 =
        [.ok ⟨200, [("link".toList, "</a.css>".toList)], []⟩] := by
  refine ⟨?_, ?_, ?_, ?_, ?_⟩ <;> decide

end ClientConn

end M6
