import M6.Edge.H1

/-!
# Delivery of HTTP/3 responses

`send_h3_response` offers a response to the QUIC library, which may take the head or not,
and of the body as much as the peer has granted. What is left is parked, and
`drain_writable` offers it again, as often as the stream is reported writable.

`delivered_run` says that whatever the library answers, the client gets one head at most and
then the body in order, with FIN on its last byte.
-/

namespace M6

open List

/-! ## Sending -/

/-- What the library answers to a call. -/
inductive SendResult where
  | ok (n : Nat)
  | done
  | streamBlocked
  | failed

inductive PendingH3Response where
  | headers (headers : List RawField) (body : Bytes)
  | body (body : Bytes) (offset : Nat)

inductive Taken where
  | head (headers : List RawField) (fin : Bool)
  | body (bytes : Bytes) (fin : Bool)
  deriving DecidableEq

/-- The sending side of a connection: what is parked, and what has been taken so far. -/
structure H3Sender where
  partialResponses : SortedMap Nat PendingH3Response
  accepted : List (Nat × Taken)

structure H3Response where
  status : Nat
  headers : List (Str × Str)
  body : Bytes
  isHead : Bool

namespace H3Response

def sentBody (resp : H3Response) : Bytes := if resp.isHead then [] else resp.body

/-- The fields that are sent. `security` gives the security headers that a list lacks. -/
def sentHeaders (security : List (Str × Str) → List (Str × Str)) (resp : H3Response) :
    List RawField :=
  let bytes := fun f : Str × Str => (Utf8.encode f.1, Utf8.encode f.2)
  [(lit ":status", [0x30 + UInt8.ofNat (resp.status / 100),
    0x30 + UInt8.ofNat (resp.status / 10 % 10), 0x30 + UInt8.ofNat (resp.status % 10)])] ++
  (security resp.headers).map bytes ++
  (resp.headers.filter fun f =>
    !(resp.sentBody ≠ [] && Text.eqIgnoreAsciiCase f.1 "content-length".toList)).map bytes ++
  if resp.sentBody = [] ∧ statusMayHaveContentLength resp.status then
    [(lit "content-length", Utf8.encode (decimal resp.body.length))]
  else []

end H3Response

namespace H3Sender

def accept (q : H3Sender) (s : Nat) (a : Taken) : H3Sender :=
  { q with accepted := q.accepted ++ [(s, a)] }

def park (q : H3Sender) (s : Nat) (p : PendingH3Response) : H3Sender :=
  { q with partialResponses := q.partialResponses.insert s p }

def unpark (q : H3Sender) (s : Nat) : H3Sender :=
  { q with partialResponses := q.partialResponses.erase s }

end H3Sender

/-- Offer a whole body with FIN. Of a body the library takes no more than is offered, and the
FIN only with all of it. -/
def sendBody (s : Nat) (body : Bytes) (r : SendResult) (q : H3Sender) : H3Sender :=
  match r with
  | .ok n =>
    let written := min n body.length
    let q := q.accept s (.body (body.take written) (written == body.length))
    if written = body.length then q else q.park s (.body body written)
  | .done => q.park s (.body body 0)
  | .streamBlocked => q.park s (.body body 0)
  | .failed => q

def sendHead (s : Nat) (headers : List RawField) (body : Bytes) (r r' : SendResult)
    (q : H3Sender) : H3Sender :=
  match r with
  | .ok _ =>
    let q := q.accept s (.head headers (body == []))
    if body ≠ [] then sendBody s body r' q else q
  | .streamBlocked => q.park s (.headers headers body)
  | .done => q
  | .failed => q

def sendH3Response (security : List (Str × Str) → List (Str × Str)) (s : Nat) (resp : H3Response)
    (r r' : SendResult) (q : H3Sender) : H3Sender :=
  sendHead s (resp.sentHeaders security) resp.sentBody r r' q

def drainStream (s : Nat) (r r' : SendResult) (q : H3Sender) : H3Sender :=
  match q.partialResponses.get? s with
  | none => q
  | some (.headers headers body) => sendHead s headers body r r' (q.unpark s)
  | some (.body body offset) =>
    let remaining := body.drop offset
    let q := q.unpark s
    match r with
    | .ok n =>
      let written := min n remaining.length
      let q := q.accept s (.body (remaining.take written) (written == remaining.length))
      if offset + written < body.length then q.park s (.body body (offset + written)) else q
    | .done => q.park s (.body body offset)
    | .streamBlocked => q.park s (.body body offset)
    | .failed => q

def drainWritable (writable : List (Nat × SendResult × SendResult)) (q : H3Sender) : H3Sender :=
  writable.foldl (fun q w => drainStream w.1 w.2.1 w.2.2 q) q

/-- What happens on the sending side of a connection. -/
inductive SendOp where
  | respond (s : Nat) (resp : H3Response) (r r' : SendResult)
  | drain (writable : List (Nat × SendResult × SendResult))

section

variable (security : List (Str × Str) → List (Str × Str))

def sendStep (q : H3Sender) : SendOp → H3Sender
  | .respond s resp r r' => sendH3Response security s resp r r' q
  | .drain writable => drainWritable writable q

def sendRun (ops : List SendOp) : H3Sender := ops.foldl (sendStep security) ⟨.empty, []⟩

end

def responseFor (s : Nat) : SendOp → Option H3Response
  | .respond s' resp _ _ => if s' = s then some resp else none
  | .drain _ => none

/-! ## What the client gets -/

namespace Taken

def isHead : Taken → Bool
  | .head _ _ => true
  | .body _ _ => false

def fin : Taken → Bool
  | .head _ fin => fin
  | .body _ fin => fin

def bytes : Taken → Bytes
  | .head _ _ => []
  | .body b _ => b

end Taken

def H3Sender.log (q : H3Sender) (s : Nat) : List Taken :=
  (q.accepted.filter fun e => e.1 == s).map Prod.snd

def sentBytes (log : List Taken) : Bytes := log.flatMap Taken.bytes

/-- A good delivery of a head and a body, as far as it goes. -/
structure Delivered (headers : List RawField) (body : Bytes) (log : List Taken) : Prop where
  headFirst : log = [] ∨ ∃ fin rest, log = .head headers fin :: rest
  oneHead : (log.filter Taken.isHead).length ≤ 1
  inOrder : sentBytes log <+: body
  finLast : ∀ pre x post, log = pre ++ x :: post → x.fin = true →
    (x.isHead = true ∧ body = []) ∨ (x.bytes ≠ [] ∧ sentBytes pre ++ x.bytes = body)

def underway (headers : List RawField) (chunks : List Bytes) : List Taken :=
  .head headers false :: chunks.map fun c => .body c false

/-- What a log can look like. -/
inductive Shape (headers : List RawField) (body : Bytes) : List Taken → Prop where
  | nothing : Shape headers body []
  | empty : body = [] → Shape headers body [.head headers true]
  | some (chunks : List Bytes) : chunks.flatten <+: body →
      Shape headers body (underway headers chunks)
  | all (chunks : List Bytes) (last : Bytes) : last ≠ [] → chunks.flatten ++ last = body →
      Shape headers body (underway headers chunks ++ [.body last true])

theorem sentBytes_underway (headers : List RawField) (chunks : List Bytes) :
    sentBytes (underway headers chunks) = chunks.flatten := by
  simp [sentBytes, underway, Taken.bytes, flatMap_map, flatMap_id']

theorem fin_underway {headers : List RawField} {chunks : List Bytes} {x : Taken}
    (h : x ∈ underway headers chunks) : x.fin = false := by
  rcases mem_cons.mp h with rfl | h
  · rfl
  · obtain ⟨c, -, rfl⟩ := mem_map.mp h
    rfl

theorem heads_underway (headers : List RawField) (chunks : List Bytes) :
    (underway headers chunks).filter Taken.isHead = [.head headers false] := by
  have hnone : (chunks.map fun c => Taken.body c false).filter Taken.isHead = [] := by
    refine filter_eq_nil_iff.mpr fun x hx => ?_
    obtain ⟨c, -, rfl⟩ := mem_map.mp hx
    exact Bool.false_ne_true
  rw [underway, filter_cons_of_pos rfl, hnone]

theorem Shape.delivered {headers : List RawField} {body : Bytes} {log : List Taken}
    (h : Shape headers body log) : Delivered headers body log := by
  cases h with
  | nothing =>
    refine ⟨.inl rfl, Nat.zero_le 1, nil_prefix, fun pre x post hlog => ?_⟩
    simp at hlog
  | empty hbody =>
    refine ⟨.inr ⟨true, [], rfl⟩, le_rfl, nil_prefix, fun pre x post hlog hfin => ?_⟩
    rcases singleton_eq_append_iff.mp hlog with ⟨rfl, hx⟩ | ⟨rfl, hx⟩
    · obtain ⟨rfl, -⟩ := List.cons.inj hx
      exact .inl ⟨rfl, hbody⟩
    · simp at hx
  | some chunks hprefix =>
    refine ⟨.inr ⟨false, _, rfl⟩, ?_, ?_, fun pre x post hlog hfin => ?_⟩
    · rw [heads_underway]
      exact le_rfl
    · rw [sentBytes_underway]
      exact hprefix
    · have hmem : x ∈ underway headers chunks := by
        rw [hlog]
        simp
      rw [fin_underway hmem] at hfin
      cases hfin
  | all chunks last hlast hall =>
    refine ⟨.inr ⟨false, _, rfl⟩, ?_, ?_, fun pre x post hlog hfin => ?_⟩
    · rw [filter_append, heads_underway]
      exact le_rfl
    · rw [sentBytes, flatMap_append, ← sentBytes, sentBytes_underway, ← hall]
      simp [Taken.bytes]
    · -- only the last of the log has FIN
      rcases eq_nil_or_concat post with rfl | ⟨post, y, rfl⟩
      · obtain ⟨rfl, hx⟩ := append_inj' hlog rfl
        obtain rfl := singleton_inj.mp hx
        refine .inr ⟨hlast, ?_⟩
        rw [sentBytes_underway]
        exact hall
      · have hlog : underway headers chunks ++ [.body last true] = (pre ++ x :: post) ++ [y] := by
          rw [hlog]
          simp
        obtain ⟨hpre, -⟩ := append_inj' hlog rfl
        have hmem : x ∈ underway headers chunks := by
          rw [hpre]
          simp
        rw [fin_underway hmem] at hfin
        cases hfin

/-! ## One stream -/

def Standing (headers : List RawField) (body : Bytes) (log : List Taken) :
    Option PendingH3Response → Prop
  | none => Shape headers body log
  | some (.headers headers' body') => headers' = headers ∧ body' = body ∧ log = []
  | some (.body body' offset) => body' = body ∧ offset < body.length ∧
      ∃ chunks, log = underway headers chunks ∧ chunks.flatten = body.take offset

section

variable {s s' : Nat}

@[simp] theorem log_accept (q : H3Sender) (a : Taken) :
    (q.accept s a).log s' = if s = s' then q.log s' ++ [a] else q.log s' := by
  simp only [H3Sender.log, H3Sender.accept, filter_append, map_append]
  split_ifs with h
  · simp [h]
  · simp [h]

@[simp] theorem log_park (q : H3Sender) (p : PendingH3Response) : (q.park s p).log s' =
    q.log s' := rfl

@[simp] theorem log_unpark (q : H3Sender) : (q.unpark s).log s' = q.log s' := rfl

@[simp] theorem parked_accept (q : H3Sender) (a : Taken) :
    (q.accept s a).partialResponses = q.partialResponses := rfl

@[simp] theorem parked_park (q : H3Sender) (p : PendingH3Response) :
    (q.park s p).partialResponses.get? s' = if s' = s then some p else q.partialResponses.get? s' :=
  SortedMap.get?_insert _ _ _ _

@[simp] theorem parked_unpark (q : H3Sender) : (q.unpark s).partialResponses.get? s' =
      if s' = s then none else q.partialResponses.get? s' :=
  SortedMap.get?_erase _ _ _

def Untouched (s : Nat) (q q' : H3Sender) : Prop :=
  q'.log s = q.log s ∧ q'.partialResponses.get? s = q.partialResponses.get? s

theorem sendBody_untouched (h : s ≠ s') (body : Bytes) (r : SendResult) (q : H3Sender) :
    Untouched s q (sendBody s' body r q) := by
  cases r with
  | ok n =>
    simp only [sendBody]
    split_ifs <;> simp [Untouched, h, h.symm]
  | done | streamBlocked => simp [sendBody, Untouched, h]
  | failed => exact ⟨rfl, rfl⟩

theorem sendHead_untouched (h : s ≠ s') (headers : List RawField) (body : Bytes)
    (r r' : SendResult) (q : H3Sender) : Untouched s q (sendHead s' headers body r r' q) := by
  cases r with
  | ok n =>
    simp only [sendHead]
    split_ifs
    · obtain ⟨hlog, hparked⟩ :=
        sendBody_untouched h body r' (q.accept s' (.head headers (body == [])))
      refine ⟨hlog.trans ?_, hparked⟩
      simp [h.symm]
    · simp [Untouched, h.symm]
  | done | failed => exact ⟨rfl, rfl⟩
  | streamBlocked => simp [sendHead, Untouched, h]

theorem drainStream_untouched (h : s ≠ s') (r r' : SendResult) (q : H3Sender) :
    Untouched s q (drainStream s' r r' q) := by
  simp only [drainStream]
  split
  · exact ⟨rfl, rfl⟩
  · next headers body _ =>
    obtain ⟨hlog, hparked⟩ := sendHead_untouched h headers body r r' (q.unpark s')
    refine ⟨hlog, hparked.trans ?_⟩
    simp [h]
  · cases r with
    | ok n =>
      simp only
      split_ifs <;> simp [Untouched, h, h.symm]
    | done | streamBlocked | failed => simp [Untouched, h]

variable {headers : List RawField} {body : Bytes} {q : H3Sender}

def H3Sender.Stands (q : H3Sender) (s : Nat) (headers : List RawField) (body : Bytes) : Prop :=
  Standing headers body (q.log s) (q.partialResponses.get? s)

theorem Untouched.stands {q' : H3Sender} (h : Untouched s q q') (hq : q.Stands s headers body) :
    q'.Stands s headers body := by
  rw [H3Sender.Stands, h.1, h.2]
  exact hq

theorem sendBody_stands (hbody : body ≠ []) (hlog : q.log s = underway headers [])
    (hfree : q.partialResponses.get? s = none) (r : SendResult) :
    (sendBody s body r q).Stands s headers body := by
  have hlength : 0 < body.length := length_pos_of_ne_nil hbody
  have hzero : (q.park s (.body body 0)).Stands s headers body := by
    simp only [H3Sender.Stands, parked_park, if_true, Standing]
    exact ⟨trivial, hlength, [], hlog, rfl⟩
  cases r with
  | ok n =>
    simp only [sendBody]
    split_ifs with hall
    · simp only [H3Sender.Stands, parked_accept, hfree, Standing, log_accept, if_true, hlog, hall,
        beq_self_eq_true, take_length]
      exact Shape.all [] body hbody rfl
    · have hlt : min n body.length < body.length := lt_of_le_of_ne (Nat.min_le_right _ _) hall
      have hfin : (min n body.length == body.length) = false := by simpa using hall
      simp only [H3Sender.Stands, parked_park, if_true, Standing, log_park, log_accept, hlog, hfin]
      exact ⟨trivial, hlt, [body.take (min n body.length)], rfl, by simp⟩
  | done | streamBlocked => exact hzero
  | failed =>
    simp only [sendBody, H3Sender.Stands, hfree, Standing, hlog]
    exact Shape.some [] nil_prefix

theorem sendHead_stands (hlog : q.log s = []) (hfree : q.partialResponses.get? s = none)
    (r r' : SendResult) : (sendHead s headers body r r' q).Stands s headers body := by
  have hnothing : q.Stands s headers body := by
    simp only [H3Sender.Stands, hfree, Standing, hlog]
    exact Shape.nothing
  cases r with
  | ok n =>
    simp only [sendHead]
    by_cases hbody : body = []
    · rw [if_neg (not_not.mpr hbody)]
      simp only [H3Sender.Stands, parked_accept, hfree, Standing, log_accept, if_true, hlog, hbody]
      exact Shape.empty rfl
    · rw [if_pos hbody]
      have hhead : (q.accept s (.head headers (body == []))).log s = underway headers [] := by
        simp [hlog, underway, hbody]
      exact sendBody_stands hbody hhead hfree r'
  | streamBlocked =>
    simp only [sendHead, H3Sender.Stands, parked_park, if_true, Standing, log_park]
    exact ⟨trivial, trivial, hlog⟩
  | done | failed => exact hnothing

theorem underway_append (chunks : List Bytes) (c : Bytes) :
    underway headers chunks ++ [.body c false] = underway headers (chunks ++ [c]) := by
  simp [underway]

theorem drainBody_stands {offset : Nat} {chunks : List Bytes}
    (hparked : q.partialResponses.get? s = some (.body body offset))
      (hoffset : offset < body.length)
    (hlog : q.log s = underway headers chunks) (hchunks : chunks.flatten = body.take offset)
    (r r' : SendResult) : (drainStream s r r' q).Stands s headers body := by
  have hagain : ((q.unpark s).park s (.body body offset)).Stands s headers body := by
    simp only [H3Sender.Stands, parked_park, if_true, Standing, log_park, log_unpark]
    exact ⟨trivial, hoffset, chunks, hlog, hchunks⟩
  have hlength : (body.drop offset).length = body.length - offset := length_drop
  simp only [drainStream, hparked]
  cases r with
  | ok n =>
    simp only
    have htake : chunks.flatten ++ (body.drop offset).take (min n (body.drop offset).length) =
        body.take (offset + min n (body.drop offset).length) := by
      rw [hchunks, take_add]
    split_ifs with hmore
    · -- a part was taken, without FIN
      have hfin : (min n (body.drop offset).length == (body.drop offset).length) = false := by
        rw [beq_eq_false_iff_ne]
        omega
      simp only [H3Sender.Stands, parked_park, if_true, Standing, log_park, log_accept, log_unpark,
        hlog, hfin, underway_append]
      exact ⟨trivial, hmore, _, rfl, by rw [flatten_concat, htake]⟩
    · -- the rest was taken, with FIN
      have hall : min n (body.drop offset).length = (body.drop offset).length := by omega
      simp only [H3Sender.Stands, parked_accept, parked_unpark, if_true, Standing, log_accept,
        log_unpark, hlog, hall, beq_self_eq_true, take_length]
      refine Shape.all chunks _ ?_ ?_
      · intro hnil
        rw [hnil, length_nil] at hlength
        omega
      · rw [hchunks, take_append_drop]
  | done | streamBlocked => exact hagain
  | failed =>
    simp only [H3Sender.Stands, parked_unpark, if_true, Standing, log_unpark, hlog]
    exact Shape.some chunks (hchunks ▸ take_prefix _ _)

theorem drainStream_stands (h : q.Stands s headers body) (r r' : SendResult) :
    (drainStream s r r' q).Stands s headers body := by
  rcases hparked : q.partialResponses.get? s with _ | (⟨headers', body'⟩ | ⟨body', offset⟩)
  · simp only [drainStream, hparked]
    exact h
  · rw [H3Sender.Stands, hparked] at h
    obtain ⟨rfl, rfl, hlog⟩ := h
    simp only [drainStream, hparked]
    have hfree : (q.unpark s).partialResponses.get? s = none := by
      rw [parked_unpark, if_pos rfl]
    have hlog' : (q.unpark s).log s = [] := hlog
    exact sendHead_stands hlog' hfree r r'
  · rw [H3Sender.Stands, hparked] at h
    obtain ⟨rfl, hoffset, chunks, hlog, hchunks⟩ := h
    exact drainBody_stands hparked hoffset hlog hchunks r r'

theorem drainWritable_stands (writable : List (Nat × SendResult × SendResult)) (q : H3Sender)
    (h : q.Stands s headers body) : (drainWritable writable q).Stands s headers body := by
  induction writable generalizing q with
  | nil => exact h
  | cons w writable ih =>
    rw [drainWritable, foldl_cons]
    refine ih _ ?_
    by_cases hs : s = w.1
    · subst hs
      exact drainStream_stands h _ _
    · exact (drainStream_untouched hs _ _ q).stands h

theorem drainWritable_idle (writable : List (Nat × SendResult × SendResult)) (q : H3Sender)
    (h : q.partialResponses.get? s = none) : Untouched s q (drainWritable writable q) := by
  induction writable generalizing q with
  | nil => exact ⟨rfl, rfl⟩
  | cons w writable ih =>
    rw [drainWritable, foldl_cons]
    have hstep : Untouched s q (drainStream w.1 w.2.1 w.2.2 q) := by
      by_cases hs : s = w.1
      · subst hs
        simp only [drainStream, h]
        exact ⟨rfl, rfl⟩
      · exact drainStream_untouched hs _ _ q
    obtain ⟨hlog, hparked⟩ := ih (drainStream w.1 w.2.1 w.2.2 q) (hstep.2.trans h)
    exact ⟨hlog.trans hstep.1, hparked.trans hstep.2⟩

end

/-! ## Runs -/

section

variable (security : List (Str × Str) → List (Str × Str))

theorem sendRun_append (ops : List SendOp) (op : SendOp) :
    sendRun security (ops ++ [op]) = sendStep security (sendRun security ops) op := by
  rw [sendRun, foldl_append]
  rfl

theorem sendRun_idle {s : Nat} {ops : List SendOp} (h : ops.filterMap (responseFor s) = []) :
    (sendRun security ops).log s = [] ∧ (sendRun security ops).partialResponses.get? s = none := by
  induction ops using reverseRecOn with
  | nil => exact ⟨rfl, rfl⟩
  | append_singleton ops op ih =>
    rw [filterMap_append, append_eq_nil_iff] at h
    obtain ⟨hlog, hfree⟩ := ih h.1
    rw [sendRun_append]
    cases op with
    | respond s' resp r r' =>
      have hs : s ≠ s' := by
        rintro rfl
        simp [responseFor] at h
      obtain ⟨hlog', hfree'⟩ := sendHead_untouched hs (resp.sentHeaders security) resp.sentBody r r'
        (sendRun security ops)
      exact ⟨hlog'.trans hlog, hfree'.trans hfree⟩
    | drain writable =>
      obtain ⟨hlog', hfree'⟩ := drainWritable_idle writable (sendRun security ops) hfree
      exact ⟨hlog'.trans hlog, hfree'.trans hfree⟩

theorem sendRun_stands {s : Nat} {ops : List SendOp} {resp : H3Response}
    (h : ops.filterMap (responseFor s) = [resp]) :
    (sendRun security ops).Stands s (resp.sentHeaders security) resp.sentBody := by
  induction ops using reverseRecOn with
  | nil => cases h
  | append_singleton ops op ih =>
    rw [sendRun_append]
    rw [filterMap_append] at h
    cases op with
    | respond s' resp' r r' =>
      by_cases hs : s = s'
      · -- this is the response, so none came before
        subst hs
        have hlast : [SendOp.respond s resp' r r'].filterMap (responseFor s) = [resp'] := by
          simp [responseFor]
        rw [hlast] at h
        obtain ⟨hbefore, hresp⟩ := append_inj' (h.trans (nil_append _).symm) rfl
        obtain rfl := singleton_inj.mp hresp
        obtain ⟨hlog, hfree⟩ := sendRun_idle security hbefore
        exact sendHead_stands hlog hfree r r'
      · have hnone : [SendOp.respond s' resp' r r'].filterMap (responseFor s) = [] := by
          simp [responseFor, Ne.symm hs]
        rw [hnone, append_nil] at h
        exact (sendHead_untouched hs _ _ r r' _).stands (ih h)
    | drain writable =>
      have hnone : [SendOp.drain writable].filterMap (responseFor s) = [] := rfl
      rw [hnone, append_nil] at h
      exact drainWritable_stands writable _ (ih h)

/-- **Delivery of a response.** However the library answers, in every run of a connection that
sends one response on a stream, among responses on other streams and any number of drains, the
stream gets that response's head at most once and before all else, then a prefix of its body in
order, and FIN only with the last byte of the body or with the head of an empty one. -/
theorem delivered_run {s : Nat} {ops : List SendOp} {resp : H3Response}
    (h : ops.filterMap (responseFor s) = [resp]) :
    Delivered (resp.sentHeaders security) resp.sentBody ((sendRun security ops).log s) := by
  have hstands := sendRun_stands security h
  rw [H3Sender.Stands] at hstands
  rcases hparked : (sendRun security ops).partialResponses.get? s with
    _ | (⟨headers', body'⟩ | ⟨body', offset⟩)
  · rw [hparked] at hstands
    exact Shape.delivered hstands
  · rw [hparked] at hstands
    rw [hstands.2.2]
    exact Shape.nothing.delivered
  · rw [hparked] at hstands
    obtain ⟨-, -, chunks, hlog, hchunks⟩ := hstands
    rw [hlog]
    exact (Shape.some chunks (hchunks ▸ take_prefix _ _)).delivered

end

theorem delivered_in_parts :
    let resp : H3Response := ⟨200, [], [1, 2, 3, 4], false⟩
    let ops : List SendOp := [.respond 0 resp .streamBlocked .done, .drain [(0, .ok 0, .ok 1)],
      .drain [(0, .done, .done)], .drain [(4, .ok 9, .ok 9), (0, .ok 0, .done)],
      .drain [(0, .ok 7, .done)]]
    (sendRun id ops).log 0 = [.head (resp.sentHeaders id) false, .body [1] false, .body [] false,
      .body [2, 3, 4] true] ∧
    Delivered (resp.sentHeaders id) resp.sentBody ((sendRun id ops).log 0) := by
  intro resp ops
  exact ⟨by decide, delivered_run id rfl⟩

end M6
