import M6.Edge.H2Streams
import Mathlib.Algebra.BigOperators.Group.List.Basic

/-!
# The send credit of an HTTP/2 connection

The client says how large a frame may be, and grants credit: so much for each stream, which it may
change for all of them at once, and so much for the connection. What it has granted is read off the
frames that came, and what was used of it off those that were written. No DATA is written without
the credit for it, on its stream and on the connection, and the window of the connection is what is
left of its credit (`WithinCredit`).

The size of a frame is another matter. A response writes its header block in one HEADERS frame,
however long it is; and when SETTINGS come in the middle of a header block, which ends the
connection, what is sent after that does not heed them. As long as neither happens (`Oversends`) no
frame is larger than the client allows.
-/

namespace M6.Http2

open List Runs History Conn Option SortedMap

/-! ## What the client has granted -/

/-- The settings that come with a frame, up to the first that is refused. -/
def Entry.settings : Entry → List (Nat × Nat)
  | .took f =>
    if f.ftype = .settings ∧ f.stream = 0 ∧ has f.flags flagAck = false ∧ f.payload.length % 6 = 0
    then applied (Conn.settingsPairs f.payload) else []
  | _ => []

/-- The credit that a frame grants a stream, or the connection for stream 0. -/
def Entry.increment (id : Nat) : Entry → Nat
  | .took f =>
    if f.ftype = .windowUpdate ∧ f.stream = id ∧ f.payload.length = 4 then
      low31 (bigEndian f.payload)
    else 0
  | _ => 0

def Entry.sentOn (id : Nat) : Entry → Nat
  | .wrote f => if f.ftype = .data ∧ f.stream = id then f.payload.length else 0
  | _ => 0

def Entry.sent : Entry → Nat
  | .wrote f => if f.ftype = .data then f.payload.length else 0
  | _ => 0

def settingsCame (log : List Entry) : List (Nat × Nat) := log.flatMap Entry.settings

def initialCredit (log : List Entry) : Int := lastWindow defaultWindow (settingsCame log)

def frameLimit (log : List Entry) : Nat := lastFrame defaultMaxFrame (settingsCame log)

def increments (id : Nat) (log : List Entry) : Nat := (log.map (Entry.increment id)).sum

def sentOn (id : Nat) (log : List Entry) : Nat := (log.map (Entry.sentOn id)).sum

def sent (log : List Entry) : Nat := (log.map Entry.sent).sum

/-- **What a frame needs** to be written after what happened: it is not larger than a frame may be,
and what it carries of a body is covered by what is left of both credits. A frame that carries
nothing needs no credit of its stream, which the client may have overdrawn. -/
structure Permitted (before : List Entry) (f : Frame) : Prop where
  size : f.payload.length ≤ frameLimit before
  stream : f.ftype = .data → f.payload ≠ [] →
    (sentOn f.stream before : Int) + f.payload.length ≤
      initialCredit before + increments f.stream before
  connection : f.ftype = .data →
    (sent before : Int) + f.payload.length ≤ defaultWindow + increments 0 before

def Lawful (before : List Entry) (e : Entry) : Prop := ∀ f, e = .wrote f → Permitted before f

/-! ### Sums -/

theorem settingsCame_append (l l' : List Entry) :
    settingsCame (l ++ l') = settingsCame l ++ settingsCame l' := flatMap_append

theorem increments_append (id : Nat) (l l' : List Entry) :
    increments id (l ++ l') = increments id l + increments id l' := by
  rw [increments, map_append, sum_append]
  rfl

theorem sentOn_append (id : Nat) (l l' : List Entry) :
    sentOn id (l ++ l') = sentOn id l + sentOn id l' := by
  rw [sentOn, map_append, sum_append]
  rfl

theorem sent_append (l l' : List Entry) : sent (l ++ l') = sent l + sent l' := by
  rw [sent, map_append, sum_append]
  rfl

theorem lastWindow_append (w : Int) (l l' : List (Nat × Nat)) :
    lastWindow w (l ++ l') = lastWindow (lastWindow w l) l' := foldl_append

theorem lastFrame_append (n : Nat) (l l' : List (Nat × Nat)) :
    lastFrame n (l ++ l') = lastFrame (lastFrame n l) l' := foldl_append

theorem acceptable_settingsCame {log : List Entry} {p : Nat × Nat} (h : p ∈ settingsCame log) :
    acceptable p = true := by
  obtain ⟨e, -, hp⟩ := mem_flatMap.mp h
  cases e with
  | took f =>
    unfold Entry.settings at hp
    dsimp only at hp
    split_ifs at hp
    · exact mem_takeWhile_imp hp
    · exact absurd hp not_mem_nil
  | _ => exact absurd hp not_mem_nil

/-- **A client takes frames of the default size**, whatever it has set. -/
theorem defaultMaxFrame_le_frameLimit (log : List Entry) : defaultMaxFrame ≤ frameLimit log := by
  have general (l : List (Nat × Nat)) (hl : ∀ p ∈ l, acceptable p = true) :
      ∀ n, defaultMaxFrame ≤ n → defaultMaxFrame ≤ lastFrame n l := by
    induction l with
    | nil => exact fun n hn => hn
    | cons p l ih =>
      intro n hn
      refine ih (fun q hq => hl q (mem_cons_of_mem _ hq)) _ ?_
      dsimp only
      split_ifs with hp
      · have hok := hl p mem_cons_self
        rw [acceptable, if_neg (by omega), if_neg (by omega), if_pos hp, Bool.and_eq_true,
          decide_eq_true_eq] at hok
        exact hok.1
      · exact hn
  exact general _ (fun p hp => acceptable_settingsCame hp) _ (le_refl _)

namespace Conn

def creditFor (log : List Entry) : Int := defaultWindow + increments 0 log - sent log

/-- **What is written is within the credit**, and the window of the connection is what is left of
it, as long as the connection is not done. -/
structure WithinCredit (c : Conn) : Prop where
  writes : Each Lawful c.log
  window : c.phase ≠ .done → c.connSendWindow = creditFor c.log

/-- What was granted on a connection, where the grants of `due` are not applied yet: no window is
larger than what is left of its credit. -/
structure Covered (due : List Entry) (c : Conn) : Prop where
  writes : Each Lawful c.log
  connection : c.connSendWindow + increments 0 due ≤ creditFor c.log
  streams : ∀ id s, c.streams.get? id = some s →
    s.sendWindow + increments id due ≤
      c.peerInitialWindow + increments id c.log - sentOn id c.log
  fresh : ∀ id, c.lastStreamId < id → sentOn id c.log = 0

/-- The settings of the client are in force, when those of `due` are. -/
structure Heeds (due : List Entry) (c : Conn) : Prop where
  initial : lastWindow c.peerInitialWindow (settingsCame due) = initialCredit c.log
  frame : lastFrame c.peerMaxFrame (settingsCame due) = frameLimit c.log

/-- The window of the connection is what is left of its credit, when `due` is granted. -/
def Exact (due : List Entry) (c : Conn) : Prop :=
  c.connSendWindow + increments 0 due = creditFor c.log

def HeadTooLong (libs : Libs) (c : Conn) (status : Nat) (headers : List (Str × Str))
    (body : Bytes) : Prop :=
  c.peerMaxFrame < (libs.encode c.hpackEnc (responseFields libs status headers body.length)).length

/-- A response comes whose header block is too long for a frame, or what can be sent is sent on a
connection that has failed, while the settings of the client are not in force. -/
def Oversends (libs : Libs) (c : Conn) : Event → Prop
  | .answer _ stream status headers body => c.phase ≠ .done ∧
      (∃ s, c.streams.get? stream = some s ∧ s.pending ≠ none) ∧
      c.HeadTooLong libs status headers body
  | .frame env => ∃ f rest s status headers body, c.nextFrame = some (f, rest) ∧
      Completes libs env (c.enter.take f rest) f s ∧ ready s = true ∧ ¬ Invalid s ∧
      outcomeOf env s = .ready status headers body ∧ c.HeadTooLong libs status headers body
  | .flush _ => c.phase = .done ∧ ¬ c.Heeds []
  | _ => False

variable {libs : Libs} {env : Env} {c c' : Conn} {f : Frame} {due : List Entry}

theorem Covered.new : Conn.new.Covered [] where
  writes := each_nil
  connection := by decide
  streams := nofun
  fresh := fun _ _ => rfl

theorem Heeds.new : Conn.new.Heeds [] := ⟨rfl, rfl⟩

/-! ## What no credit is needed for -/

def Modest (e : Entry) : Prop :=
  ∃ f, e = .wrote f ∧ f.ftype ≠ .data ∧ f.payload.length ≤ defaultMaxFrame

theorem lawful_of_modest {e : Entry} (h : Modest e) (before : List Entry) : Lawful before e := by
  obtain ⟨f, rfl, hf, hlen⟩ := h
  rintro g ⟨⟩
  exact ⟨hlen.trans (defaultMaxFrame_le_frameLimit before), fun hd => absurd hd hf,
    fun hd => absurd hd hf⟩

/-- What modest entries add: nothing. -/
structure Free (es : List Entry) : Prop where
  settings : settingsCame es = []
  increments : ∀ id, increments id es = 0
  sentOn : ∀ id, sentOn id es = 0
  sent : sent es = 0

theorem free_nil : Free [] := ⟨rfl, fun _ => rfl, fun _ => rfl, rfl⟩

theorem Free.cons {e : Entry} {es : List Entry} (h : Free es) (hset : e.settings = [])
    (hinc : ∀ id, e.increment id = 0) (hon : ∀ id, e.sentOn id = 0) (hsent : e.sent = 0) :
    Free (e :: es) where
  settings := by rw [settingsCame, flatMap_cons, hset, nil_append]; exact h.settings
  increments := fun id => by
    rw [Http2.increments, map_cons, sum_cons, hinc, Nat.zero_add]
    exact h.increments id
  sentOn := fun id => by
    rw [Http2.sentOn, map_cons, sum_cons, hon, Nat.zero_add]
    exact h.sentOn id
  sent := by rw [Http2.sent, map_cons, sum_cons, hsent, Nat.zero_add]; exact h.sent

theorem free_of_modest {es : List Entry} (h : ∀ e ∈ es, Modest e) : Free es := by
  induction es with
  | nil => exact free_nil
  | cons e es ih =>
    obtain ⟨f, rfl, hf, -⟩ := h e mem_cons_self
    exact (ih fun e he => h e (mem_cons_of_mem _ he)).cons rfl (fun _ => rfl)
      (fun _ => if_neg fun hd => hf hd.1) (if_neg hf)

theorem creditFor_append (l l' : List Entry) :
    creditFor (l ++ l') = creditFor l + increments 0 l' - sent l' := by
  rw [creditFor, creditFor, increments_append, sent_append]
  push_cast
  omega

theorem Covered.free (h : c.Covered due) {l : List Entry} (hlog : c'.log = c.log ++ l)
    (hfree : Free l) (hes : ∀ e ∈ l, ∀ before, Lawful before e)
    (hconn : c'.connSendWindow ≤ c.connSendWindow) (hlast : c.lastStreamId ≤ c'.lastStreamId)
    (hinit : c'.peerInitialWindow = c.peerInitialWindow)
    (hstreams : ∀ id s', c'.streams.get? id = some s' →
      ∃ s, c.streams.get? id = some s ∧ s'.sendWindow ≤ s.sendWindow) : c'.Covered due where
  writes := hlog ▸ each_append_of_forall h.writes hes
  connection := by
    rw [hlog, creditFor_append, hfree.increments, hfree.sent]
    have := h.connection
    omega
  streams := fun id s' hs' => by
    obtain ⟨s, hs, hle⟩ := hstreams id s' hs'
    rw [hlog, increments_append, sentOn_append, hfree.increments, hfree.sentOn, hinit]
    have := h.streams id s hs
    omega
  fresh := fun id hid => by
    rw [hlog, sentOn_append, h.fresh id (hlast.trans_lt hid), hfree.sentOn]

theorem Covered.modest (h : c.Covered []) (happ : Appends Modest c c')
    (hconn : c'.connSendWindow = c.connSendWindow) (hlast : c'.lastStreamId = c.lastStreamId)
    (hinit : c'.peerInitialWindow = c.peerInitialWindow) (hstreams : c'.streams = c.streams) :
    c'.Covered [] := by
  obtain ⟨es, hes, hall⟩ := happ
  exact h.free hes (free_of_modest hall) (fun e he => lawful_of_modest (hall e he)) hconn.le
    hlast.ge hinit fun id s hs => ⟨s, hstreams ▸ hs, le_refl _⟩

theorem Heeds.free (h : c.Heeds due) {l : List Entry} (hlog : c'.log = c.log ++ l)
    (hfree : Free l) (hinit : c'.peerInitialWindow = c.peerInitialWindow)
    (hframe : c'.peerMaxFrame = c.peerMaxFrame) : c'.Heeds due where
  initial := by
    rw [hlog, initialCredit, settingsCame_append, hfree.settings, append_nil, hinit]
    exact h.initial
  frame := by
    rw [hlog, frameLimit, settingsCame_append, hfree.settings, append_nil, hframe]
    exact h.frame

theorem Exact.free (h : c.Exact due) {l : List Entry} (hlog : c'.log = c.log ++ l)
    (hfree : Free l) (hconn : c'.connSendWindow = c.connSendWindow) : c'.Exact due := by
  rw [Exact, hlog, creditFor_append, hfree.increments, hfree.sent, hconn]
  have := h
  unfold Exact at this
  omega

/-! ## Handlers -/

theorem refused_grants_nothing
    (h : frameShapeVerdict f.ftype f.flags f.stream f.payload.length ≠ .allow ∨
      c.frameVerdict f.ftype f.stream ≠ .allow) :
    (Entry.took f).settings = [] ∧ (Entry.took f).increment 0 = 0 := by
  constructor
  · refine if_neg ?_
    rintro ⟨hf, hid, hack, hlen⟩
    rcases h with h | h
    · rw [hf, hid] at h
      simp [frameShapeVerdict, FrameType.needsStream, FrameType.needsConnection, hack, hlen] at h
    · rw [hid] at h
      exact h (if_pos rfl)
  · refine if_neg ?_
    rintro ⟨hf, hid, hlen⟩
    rcases h with h | h
    · rw [hf, hid, hlen] at h
      exact h rfl
    · rw [hid] at h
      exact h (if_pos rfl)

theorem settings_other (h : f.ftype ≠ .settings) : (Entry.took f).settings = [] :=
  if_neg fun hno => h hno.1

variable {id : Nat}

theorem increment_other (h : f.ftype ≠ .windowUpdate ∨ f.stream ≠ id) :
    (Entry.took f).increment id = 0 := by
  refine if_neg fun hno => ?_
  rcases h with h | h
  · exact h hno.1
  · exact h hno.2.1

theorem took_other {t : FrameType} (hf : f.ftype = t) (hset : t ≠ .settings)
    (hwin : t ≠ .windowUpdate) : (Entry.took f).settings = [] ∧ (Entry.took f).increment 0 = 0 :=
  ⟨settings_other (hf ▸ hset), increment_other (.inl (hf ▸ hwin))⟩

theorem refused_of_breaks {code : Nat} (h : Breaks c f code) :
    (Entry.took f).settings = [] ∧ (Entry.took f).increment 0 = 0 := by
  cases h with
  | shape h => exact refused_grants_nothing (c := c) (.inl (by rw [h]; exact nofun))
  | state _ _ h => exact refused_grants_nothing (.inr (by rw [h]; exact nofun))
  | backwards _ hf => exact took_other hf nofun nofun

theorem increment_took (ha : Allowed c f) (hf : f.ftype = .windowUpdate) :
    (Entry.took f).increment f.stream = low31 (bigEndian (f.payload.take 4)) := by
  have hlen : f.payload.length = 4 := frameShapeVerdict_windowUpdate (hf ▸ ha.shape)
  rw [Entry.increment, if_pos ⟨hf, rfl, hlen⟩, take_of_length_le hlen.le]

theorem settings_rejectRequest (c : Conn) (stream : Nat) :
    (c.rejectRequest stream).peerInitialWindow = c.peerInitialWindow ∧
      (c.rejectRequest stream).peerMaxFrame = c.peerMaxFrame ∧
      (c.rejectRequest stream).connSendWindow = c.connSendWindow := ⟨rfl, rfl, rfl⟩

variable {c₁ : Conn} {tail : Tail}

/-- **What a frame does to the settings and to the window of the connection**, unless it fails. -/
theorem Handles.grants (hh : Handles libs env c f c₁ tail) (htail : ∀ why, tail ≠ .error why) :
    c₁.peerInitialWindow = lastWindow c.peerInitialWindow (Entry.took f).settings ∧
      c₁.peerMaxFrame = lastFrame c.peerMaxFrame (Entry.took f).settings ∧
      c₁.connSendWindow = c.connSendWindow + (Entry.took f).increment 0 := by
  have free {c₁ : Conn} (h : (Entry.took f).settings = [] ∧ (Entry.took f).increment 0 = 0)
      (hinit : c₁.peerInitialWindow = c.peerInitialWindow)
      (hframe : c₁.peerMaxFrame = c.peerMaxFrame) (hconn : c₁.connSendWindow = c.connSendWindow) :
      c₁.peerInitialWindow = lastWindow c.peerInitialWindow (Entry.took f).settings ∧
        c₁.peerMaxFrame = lastFrame c.peerMaxFrame (Entry.took f).settings ∧
        c₁.connSendWindow = c.connSendWindow + (Entry.took f).increment 0 := by
    rw [h.1, h.2]
    exact ⟨hinit, hframe, by omega⟩
  have onStream (hf : f.ftype = .windowUpdate) (hid : f.stream ≠ 0) :
      (Entry.took f).settings = [] ∧ (Entry.took f).increment 0 = 0 :=
    ⟨settings_other (by rw [hf]; exact nofun), increment_other (.inr hid)⟩
  cases hh with
  | failed why => exact absurd rfl (htail why)
  | nothing hout h hack =>
    refine free ⟨if_neg fun hno => ?_, increment_other (.inl ?_)⟩ rfl rfl rfl
    · exact nomatch (hack hno.1).symm.trans hno.2.2.1
    · rcases h with h | h | h | ⟨code, h⟩
      all_goals
        rw [h]
        exact nofun
  | connectionError hwhy => exact free (refused_of_breaks hwhy) rfl rfl rfl
  | illegal code hout hshape hstate =>
    exact free (refused_grants_nothing (.inr (by rw [hstate]; exact nofun))) rfl rfl rfl
  | reset code hout h =>
    rcases h with hp | hw
    · exact free (took_other hp.priority nofun nofun) rfl rfl rfl
    · exact free (onStream hw.windowUpdate hw.stream) rfl rfl rfl
  | rstStream ha hf | ping ha hf | goaway ha hf =>
    exact free (took_other hf nofun nofun) rfl rfl rfl
  | settings ha hf hflags hall =>
    obtain ⟨hid, hlen⟩ := frameShapeVerdict_settings (hf ▸ ha.shape)
    have happ : applied (settingsPairs f.payload) = settingsPairs f.payload :=
      takeWhile_eq_self_iff.mpr (all_eq_true.mp hall)
    have hset : (Entry.took f).settings = settingsPairs f.payload :=
      (if_pos ⟨hf, hid, hflags, hlen hflags⟩).trans happ
    have hinc : (Entry.took f).increment 0 = 0 := increment_other (.inl (by rw [hf]; exact nofun))
    rw [hset, hinc]
    exact ⟨rfl, rfl, (Int.add_zero _).symm⟩
  | connCredit ha hf hinc hpos hid =>
    have hw := increment_took ha hf
    rw [hid, ← hinc] at hw
    rw [hw, settings_other (by rw [hf]; exact nofun)]
    exact ⟨rfl, rfl, rfl⟩
  | streamCredit ha hf _ _ hid | closedOverflow ha hf hid | closedCredit ha hf _ _ hid
  | uncredited ha hf _ hid => exact free (onStream hf hid) rfl rfl rfl
  | overCap ha hf =>
    rw [charged_eq]
    exact free (took_other hf nofun nofun) rfl rfl rfl
  | data ha hf =>
    rw [charged_eq, grant_eq]
    exact free (took_other hf nofun nofun) rfl rfl rfl
  | refusedLate ha hf | refusedBusy ha hf => exact free (took_other hf nofun nofun) rfl rfl rfl
  | selfDependent ha | headersPart ha => exact free (took_other ha.headers nofun nofun) rfl rfl rfl
  | @trailersRejected first last block fields s ha =>
    obtain ⟨hinit, hframe, hconn⟩ :=
      settings_rejectRequest ((c.entered f).blockDone.decoded libs block) f.stream
    exact free (took_other ha.headers nofun nofun) hinit hframe hconn
  | headers ha =>
    obtain ⟨m, hm, -⟩ := addFields_eq ((c.entered f).blockDone.decoded libs _) f.stream _
    rw [hm]
    exact free (took_other ha.headers nofun nofun) rfl rfl rfl
  | continuationPart ha | continuationGone ha =>
    exact free (took_other ha.continuation nofun nofun) rfl rfl rfl
  | continuation ha =>
    obtain ⟨m, hm, -⟩ := addFields_eq (c.blockDone.decoded libs _) f.stream _
    rw [hm]
    exact free (took_other ha.continuation nofun nofun) rfl rfl rfl

theorem window_opening (ha : Admitted env c f) :
    (∃ s, c.streams.get? f.stream = some s ∧ (c.opening f).sendWindow = s.sendWindow) ∨
      c.lastStreamId < f.stream ∧ (c.opening f).sendWindow = c.peerInitialWindow := by
  cases hs : c.streams.get? f.stream with
  | some s =>
    refine .inl ⟨s, rfl, ?_⟩
    rw [Conn.opening, hs, getD_some]
    split_ifs
    · rfl
    · rfl
  | none =>
    refine .inr ⟨not_le.mp fun hle => ha.known hle hs, ?_⟩
    rw [Conn.opening, hs, getD_none]
    split_ifs
    · rfl
    · rfl

/-- What can be said of the window of a stream after a frame: it grew by what the frame grants, or
by what it adds to INITIAL_WINDOW_SIZE, or the stream is a new one. -/
def Regranted (c : Conn) (f : Frame) (initial : Int) (id : Nat) (s' : Stream) : Prop :=
  (∃ s, c.streams.get? id = some s ∧
    s'.sendWindow ≤ s.sendWindow + (initial - c.peerInitialWindow) + (Entry.took f).increment id) ∨
  c.lastStreamId < id ∧ s'.sendWindow ≤ initial

variable {s' : Stream}

theorem Regranted.same (hs : c.streams.get? id = some s') :
    c.Regranted f c.peerInitialWindow id s' :=
  .inl ⟨s', hs, by omega⟩

theorem Regranted.removed {id stream : Nat} (hs : (c.streams.erase stream).get? id = some s') :
    c.Regranted f c.peerInitialWindow id s' := by
  rw [get?_erase] at hs
  split_ifs at hs
  exact .same hs

theorem Regranted.opened (ha : Admitted env c f) (h : c.streams.get? id = some s' ∨
      id = f.stream ∧ s'.sendWindow = (c.opening f).sendWindow) :
    c.Regranted f c.peerInitialWindow id s' := by
  rcases h with h | ⟨rfl, hw⟩
  · exact .same h
  · rcases window_opening ha with ⟨s, hs, heq⟩ | ⟨hnew, heq⟩
    · exact .inl ⟨s, hs, by omega⟩
    · exact .inr ⟨hnew, by omega⟩

theorem Regranted.entered (ha : Admitted env c f) (hs : (c.entered f).streams.get? id = some s') :
    c.Regranted f c.peerInitialWindow id s' := by
  rw [get?_entered_opening] at hs
  split_ifs at hs with hid
  · cases hs
    exact .opened ha (.inr ⟨hid, rfl⟩)
  · exact .opened ha (.inl hs)

theorem Regranted.configured (pairs : List (Nat × Nat))
    (hs : (c.configureAll pairs).streams.get? id = some s') :
    c.Regranted f (lastWindow c.peerInitialWindow pairs) id s' := by
  obtain ⟨s, hs₀, rfl⟩ := map_eq_some_iff.mp ((get?_map ..).symm.trans hs)
  refine .inl ⟨s, hs₀, ?_⟩
  dsimp only
  omega

theorem Fails.windows (hf : Fails libs env c f c₁)
    (hs : c₁.streams.get? id = some s') : c.Regranted f c₁.peerInitialWindow id s' := by
  cases hf with
  | longHeaders ha | invalidHeaders ha | undecodableHeaders ha => exact .entered ha hs
  | settings => exact .configured _ hs
  | _ => exact .same hs

/-- **What a frame does to the windows of the streams.** -/
theorem Handles.windows (hh : Handles libs env c f c₁ tail) (hs : c₁.streams.get? id = some s') :
    c.Regranted f c₁.peerInitialWindow id s' := by
  cases hh with
  | failed why hf => exact hf.windows hs
  | illegal | reset | rstStream => exact .removed hs
  | settings => exact .configured _ hs
  | streamCredit ha hf hinc hpos hid hs₀ =>
    change (c.streams.insert _ _).get? id = some s' at hs
    rw [get?_insert] at hs
    split_ifs at hs with heq
    · cases hs
      refine .inl ⟨_, heq ▸ hs₀, ?_⟩
      rw [heq, increment_took ha hf, ← hinc]
      change _ ≤ _ + (c.peerInitialWindow - c.peerInitialWindow) + _
      dsimp only
      omega
    · exact .same hs
  | overCap =>
    rw [charged_eq] at hs ⊢
    exact .removed hs
  | data ha hf hid hs₀ =>
    rw [charged_eq, grant_eq] at hs ⊢
    change (c.streams.insert _ _).get? id = some s' at hs
    rw [get?_insert] at hs
    split_ifs at hs with heq
    · cases hs
      refine .inl ⟨_, heq ▸ hs₀, ?_⟩
      change _ ≤ _ + (c.peerInitialWindow - c.peerInitialWindow) + _
      dsimp only [takeData]
      omega
    · exact .same hs
  | headersPart ha => exact .entered ha hs
  | trailersRejected ha =>
    change ((c.entered f).streams.erase _).get? id = some s' at hs
    rw [get?_erase] at hs
    split_ifs at hs
    exact .entered ha hs
  | @headers first last block fields ha =>
    have hopen : ((c.entered f).blockDone.decoded libs block).streams = (c.entered f).streams := rfl
    rw [get?_addFields, hopen, get?_entered_opening] at hs
    obtain ⟨m, hm, -⟩ := addFields_eq ((c.entered f).blockDone.decoded libs block) f.stream
      (decodeHpack fields)
    rw [hm]
    split_ifs at hs with heq
    · cases hs
      exact .opened ha (.inr ⟨heq, rfl⟩)
    · exact .same hs
  | @continuation fields s ha hend hlen hvalid hs₀ =>
    have hstreams : (c.blockDone.decoded libs
      (c.headerBlockBuf ++ f.payload)).streams = c.streams :=
      rfl
    rw [get?_addFields, hstreams] at hs
    obtain ⟨m, hm, -⟩ := addFields_eq (c.blockDone.decoded libs (c.headerBlockBuf ++ f.payload))
      f.stream (decodeHpack fields)
    rw [hm]
    split_ifs at hs with heq
    · rw [heq, hs₀] at hs
      cases hs
      refine .inl ⟨s, heq ▸ hs₀, ?_⟩
      change s.sendWindow ≤ s.sendWindow + (c.peerInitialWindow - c.peerInitialWindow) + _
      omega
    · exact .same hs
  | _ => exact .same hs

theorem Handles.connSendWindow_le (hh : Handles libs env c f c₁ tail) :
    c₁.connSendWindow ≤ c.connSendWindow + (Entry.took f).increment 0 := by
  by_cases htail : ∀ why, tail ≠ .error why
  · exact (hh.grants htail).2.2.le
  · obtain ⟨why, rfl⟩ : ∃ why, tail = .error why := by
      by_contra hno
      exact htail fun why heq => hno ⟨why, heq⟩
    have hsame : c₁.connSendWindow = c.connSendWindow := by
      cases hh.fails with
      | _ => rfl
    omega

theorem Handles.modest (hh : Handles libs env c f c₁ tail) : Appends Modest c c₁ := by
  refine hh.appends (fun t ht flags stream payload hlen => ⟨_, rfl, ?_, hlen⟩)
    fun _ g hg hlen => ⟨g, rfl, ?_, hlen⟩
  · rintro rfl
    exact absurd ht (by decide)
  · rw [hg]
    exact nofun

/-- **What was granted on the connection**, after a frame that is due. -/
theorem Covered.handles (h : c.Covered [.took f])
    (hh : Handles libs env c f c₁ tail) : c₁.Covered [] := by
  obtain ⟨es, hes, hall⟩ := hh.modest
  have hfree := free_of_modest hall
  have hdue (id : Nat) : increments id [.took f] = (Entry.took f).increment id := rfl
  refine ⟨hes ▸ each_append_of_forall h.writes fun e he before =>
    lawful_of_modest (hall e he) before,
    ?_, fun id s' hs' => ?_, fun id hid => ?_⟩
  · have hconn := h.connection
    have hle := hh.connSendWindow_le
    rw [hes, creditFor_append, hfree.increments, hfree.sent]
    rw [hdue] at hconn
    change _ + ((0 : Nat) : Int) ≤ _
    omega
  · rw [hes, increments_append, sentOn_append, hfree.increments, hfree.sentOn]
    change _ + ((0 : Nat) : Int) ≤ _
    rcases hh.windows hs' with ⟨s, hs, hle⟩ | ⟨hnew, hle⟩
    · have hstream := h.streams id s hs
      rw [hdue] at hstream
      omega
    · have hfresh := h.fresh id hnew
      omega
  · rw [hes, sentOn_append, h.fresh id (hh.last.trans_lt hid), hfree.sentOn]

theorem Heeds.handles (h : c.Heeds [.took f])
    (hh : Handles libs env c f c₁ tail) (htail : ∀ why, tail ≠ .error why) : c₁.Heeds [] := by
  obtain ⟨es, hes, hall⟩ := hh.modest
  obtain ⟨hinit, hframe, -⟩ := hh.grants htail
  have hset : settingsCame [.took f] = (Entry.took f).settings := append_nil _
  have hlog : settingsCame c₁.log = settingsCame c.log := by
    rw [hes, settingsCame_append, (free_of_modest hall).settings, append_nil]
  obtain ⟨h₁, h₂⟩ := h
  rw [hset] at h₁ h₂
  exact ⟨by rw [initialCredit, hlog, hinit]; exact h₁, by rw [frameLimit, hlog, hframe]; exact h₂⟩

theorem Exact.handles (h : c.Exact [.took f])
    (hh : Handles libs env c f c₁ tail) (htail : ∀ why, tail ≠ .error why) : c₁.Exact [] := by
  obtain ⟨es, hes, hall⟩ := hh.modest
  obtain ⟨-, -, hconn⟩ := hh.grants htail
  have hfree := free_of_modest hall
  have hdue : increments 0 [.took f] = (Entry.took f).increment 0 := rfl
  unfold Exact at *
  rw [hes, creditFor_append, hfree.increments, hfree.sent, hconn]
  rw [hdue] at h
  change _ + ((0 : Nat) : Int) = _
  omega

/-! ## Responses -/

theorem Covered.wroteData (h : c.Covered []) {d : Frame} {n : Nat} (hd : d.ftype = .data)
    (hn : d.payload.length = n) (hlawful : Lawful c.log (.wrote d))
    (hlog : c'.log = c.log ++ [.wrote d]) (hlast : c.lastStreamId ≤ c'.lastStreamId)
    (hknown : d.stream ≤ c.lastStreamId) (hinit : c'.peerInitialWindow = c.peerInitialWindow)
    (hconn : c'.connSendWindow = c.connSendWindow - n)
    (hstreams : ∀ id s', c'.streams.get? id = some s' → ∃ s, c.streams.get? id = some s ∧
      s'.sendWindow = if id = d.stream then s.sendWindow - n else s.sendWindow) :
    c'.Covered [] where
  writes := hlog ▸ each_concat h.writes hlawful
  connection := by
    have hsent : sent [.wrote d] = n := (Nat.add_zero _).trans ((if_pos hd).trans hn)
    have hinc : increments 0 [.wrote d] = 0 := rfl
    have hbefore := h.connection
    rw [hlog, creditFor_append, hsent, hinc, hconn]
    omega
  streams := fun id s' hs' => by
    obtain ⟨s, hs, hw⟩ := hstreams id s' hs'
    have hinc : increments id [.wrote d] = 0 := rfl
    have hbefore := h.streams id s hs
    rw [hlog, increments_append, sentOn_append, hinc, hinit]
    by_cases hid : id = d.stream
    · have hsent : sentOn id [.wrote d] = n :=
        (Nat.add_zero _).trans ((if_pos ⟨hd, hid.symm⟩).trans hn)
      rw [if_pos hid] at hw
      omega
    · have hsent : sentOn id [.wrote d] = 0 :=
        (Nat.add_zero _).trans (if_neg fun hno => hid hno.2.symm)
      rw [if_neg hid] at hw
      omega
  fresh := fun id hid => by
    have hne : d.stream ≠ id := by omega
    rw [hlog, sentOn_append, h.fresh id (hlast.trans_lt hid)]
    exact (Nat.zero_add _).trans ((Nat.add_zero _).trans (if_neg fun hno => hne hno.2))

theorem Exact.wroteData (h : c.Exact []) {d : Frame} {n : Nat} (hd : d.ftype = .data)
    (hn : d.payload.length = n) (hlog : c'.log = c.log ++ [.wrote d])
    (hconn : c'.connSendWindow = c.connSendWindow - n) : c'.Exact [] := by
  have hsent : sent [.wrote d] = n := (Nat.add_zero _).trans ((if_pos hd).trans hn)
  have hinc : increments 0 [.wrote d] = 0 := rfl
  unfold Exact at *
  rw [hlog, creditFor_append, hsent, hinc, hconn]
  omega

theorem Heeds.kept (h : c.Heeds due) (hk : Kept c c') : c'.Heeds due := by
  obtain ⟨es, hes, hall⟩ := hk.log
  have hnone : settingsCame es = [] := by
    refine flatMap_eq_nil_iff.mpr fun e he => ?_
    cases e with
    | took f => exact False.elim (hall _ he)
    | _ => rfl
  have hlog : settingsCame c'.log = settingsCame c.log := by
    rw [hes, settingsCame_append, hnone, append_nil]
  exact ⟨by rw [initialCredit, hlog, hk.initial]; exact h.initial,
    by rw [frameLimit, hlog, hk.maxFrame]; exact h.frame⟩

theorem connSendWindow_closeStream (c : Conn) (stream : Nat) :
    (c.closeStreamRememberingWindow stream).connSendWindow = c.connSendWindow := by
  unfold closeStreamRememberingWindow
  cases c.streams.get? stream with
  | none | some s => rfl

theorem windows_endStream (c : Conn) (stream : Nat) (state : StreamState) :
    (c.endStream stream state).connSendWindow = c.connSendWindow ∧
      ∀ id s', (c.endStream stream state).streams.get? id = some s' →
        ∃ s, c.streams.get? id = some s ∧ s'.sendWindow = s.sendWindow := by
  have closed (id : Nat) (s' : Stream)
      (hs' : (c.closeStreamRememberingWindow stream).streams.get? id = some s') :
      ∃ s, c.streams.get? id = some s ∧ s'.sendWindow = s.sendWindow := by
    rw [get?_closeStream] at hs'
    split_ifs at hs'
    exact ⟨s', hs', rfl⟩
  unfold Conn.endStream
  split_ifs
  · exact ⟨connSendWindow_closeStream c stream, closed⟩
  · exact ⟨connSendWindow_closeStream c stream, closed⟩
  · obtain ⟨m, hm, hget⟩ := updateStream_eq c stream fun s => { s with state := .halfClosedLocal }
    rw [hm]
    refine ⟨rfl, fun id s' hs' => ?_⟩
    rw [hget] at hs'
    split_ifs at hs'
    · obtain ⟨s, hs, rfl⟩ := map_eq_some_iff.mp hs'
      exact ⟨s, hs, rfl⟩
    · exact ⟨s', hs', rfl⟩

variable {body : Bytes}

theorem length_chunk {i n : Nat} (h : i + n ≤ body.length) :
    ((body.take (i + n)).drop i).length = n := by
  rw [length_drop, length_take]
  omega

variable {stream : Nat} {s : Stream}

theorem Covered.chunkSent (h : c.Covered []) (hheeds : c.Heeds [])
    (hid : stream < 2 ^ 31) (hknown : stream ≤ c.lastStreamId) {n : Nat}
    (hs : c.streams.get? stream = some s) (ha : Affords c s body n) :
    (c.chunkSent stream s body n).Covered [] := by
  have hlen := length_chunk ha.rest
  have hlow := low31_of_lt hid
  refine h.wroteData (n := n) rfl hlen ?_ rfl (le_refl _) (hlow.le.trans hknown) rfl rfl
    fun id s' hs' => ?_
  · rintro g ⟨⟩
    have hframe : c.peerMaxFrame = frameLimit c.log := hheeds.frame
    have hinit : c.peerInitialWindow = initialCredit c.log := hheeds.initial
    have hconn := h.connection
    have hstream := h.streams stream s hs
    have hn := ha.conn
    have hn' := ha.stream
    have hzero (id : Nat) : increments id [] = 0 := rfl
    rw [hzero] at hconn hstream
    constructor
    · dsimp only
      rw [hlen, ← hframe]
      exact ha.frame
    · intro _ _
      dsimp only
      rw [hlen, hlow]
      omega
    · intro _
      dsimp only
      rw [hlen]
      unfold creditFor at hconn
      omega
  · rw [get?_chunkSent] at hs'
    dsimp only
    rw [hlow]
    split_ifs at hs' ⊢ with heq
    · cases hs'
      exact ⟨s, heq ▸ hs, rfl⟩
    · exact ⟨s', hs', rfl⟩

/-- **What is sent on a stream** is covered by its credit. -/
theorem Sends.covered (hsends : Sends stream c c') (h : c.Covered [])
    (hsound : c.Sound) (hheeds : c.Heeds []) (hid : stream < 2 ^ 31)
    (hknown : stream ≤ c.lastStreamId) : c'.Covered [] := by
  induction hsends with
  | nothing c => exact h
  | @drained c s body hs hbody hall =>
    have hclose := get?_closeStream (c.pushFrame .data flagEndStream stream []) stream
    have hconn := connSendWindow_closeStream (c.pushFrame .data flagEndStream stream []) stream
    have hlast := (Follows.closeStream (c.pushFrame .data flagEndStream stream []) stream).last
    have hinit := (Kept.closeStream (c.pushFrame .data flagEndStream stream []) stream).initial
    refine h.wroteData (d := ⟨.data, flagEndStream, low31 stream, []⟩) (n := 0) rfl rfl ?_
      (log_closeStream ..) hlast ((low31_of_lt hid).le.trans hknown) hinit
      (hconn.trans (Int.sub_zero _).symm) fun id s' hs' => ?_
    · rintro g ⟨⟩
      have hge := hsound.connSend_ge
      have hcover := h.connection
      have hzero : increments 0 [] = 0 := rfl
      refine ⟨Nat.zero_le _, fun _ hno => absurd rfl hno, fun _ => ?_⟩
      rw [hzero] at hcover
      unfold creditFor at hcover
      change (sent c.log : Int) + ((0 : Nat) : Int) ≤ _
      omega
    · rw [hclose] at hs'
      split_ifs at hs' with hne
      exact ⟨s', hs', by rw [if_neg (by rw [low31_of_lt hid]; exact hne)]⟩
  | @last c s body n hs hbody ha hall =>
    have hcovered := h.chunkSent hheeds hid hknown hs ha
    obtain ⟨hconn, hwindows⟩ := windows_endStream (c.chunkSent stream s body n) stream s.state
    have hsent := get?_chunkSent c stream s body n stream
    rw [if_pos rfl] at hsent
    have hlast := (Follows.endStream (c.chunkSent stream s body n) stream hsent).last
    have hinit := (Kept.endStream (c.chunkSent stream s body n) stream s.state).initial
    refine hcovered.free (l := []) ((log_endStream ..).trans (append_nil _).symm) free_nil
      nofun hconn.le hlast hinit fun id s' hs' => ?_
    obtain ⟨s₁, hs₁, heq⟩ := hwindows id s' hs'
    exact ⟨s₁, hs₁, heq.le⟩
  | @chunk c c' s body n hs hbody ha hpart rest ih =>
    exact ih (h.chunkSent hheeds hid hknown hs ha) (hsound.chunkSent hs hbody ha)
      (hheeds.kept (.chunkSent ..)) hknown

theorem Exact.chunkSent (h : c.Exact []) (stream : Nat) {n : Nat}
    (ha : Affords c s body n) : (c.chunkSent stream s body n).Exact [] :=
  h.wroteData (n := n) rfl (length_chunk ha.rest) rfl rfl

theorem Sends.exact (hsends : Sends stream c c') (h : c.Exact []) : c'.Exact [] := by
  induction hsends with
  | nothing c => exact h
  | @drained c s body =>
    have hconn := connSendWindow_closeStream (c.pushFrame .data flagEndStream stream []) stream
    exact h.wroteData (d := ⟨.data, flagEndStream, low31 stream, []⟩) (n := 0) rfl rfl
      (log_closeStream ..) (hconn.trans (Int.sub_zero _).symm)
  | @last c s body n hs hbody ha hall =>
    have hconn := (windows_endStream (c.chunkSent stream s body n) stream s.state).1
    exact (h.chunkSent stream ha).free (l := [])
      ((log_endStream ..).trans (append_nil _).symm) free_nil hconn
  | @chunk c c' s body n hs hbody ha hpart rest ih => exact ih (h.chunkSent stream ha)

theorem Flushes.exact {ids : List Nat} (hf : Flushes ids c c') (h : c.Exact []) : c'.Exact [] := by
  induction hf with
  | nil c => exact h
  | cons first rest ih => exact ih (first.exact h)

theorem Flushes.covered {ids : List Nat} (hf : Flushes ids c c') (h : c.Covered [])
    (hsound : c.Sound) (hheeds : c.Heeds [])
    (hid : ∀ id ∈ ids, id < 2 ^ 31 ∧ id ≤ c.lastStreamId) : c'.Covered [] := by
  induction hf with
  | nil c => exact h
  | cons first rest ih =>
    obtain ⟨hlt, hknown⟩ := hid _ mem_cons_self
    refine ih (first.covered h hsound hheeds hlt hknown) (first.sound hsound)
      (hheeds.kept first.kept) fun id hin => ?_
    obtain ⟨hlt, hknown⟩ := hid id (mem_cons_of_mem _ hin)
    exact ⟨hlt, hknown.trans first.follows.last⟩

theorem flushOrder_known (env : Env)
    (h : ∀ id s, c.streams.get? id = some s → id < 2 ^ 31 ∧ id ≤ c.lastStreamId) :
    ∀ id ∈ c.flushOrder env, id < 2 ^ 31 ∧ id ≤ c.lastStreamId := by
  intro id hid
  obtain ⟨s, hs⟩ := SortedMap.mem_keys.mp ((env.order_perm _).mem_iff.mp hid)
  exact h id s hs

theorem windows_respond (libs : Libs) (c : Conn) (stream status : Nat) (headers : List (Str × Str))
    (body : Bytes) (method : Str) :
    (c.respond libs stream status headers body method).connSendWindow = c.connSendWindow ∧
      ∀ id s', (c.respond libs stream status headers body method).streams.get? id = some s' →
        ∃ s, c.streams.get? id = some s ∧ s'.sendWindow = s.sendWindow := by
  constructor
  · obtain ⟨m, hm, -⟩ := updateStream_eq
      ((c.noteAnswer stream (sentBody method body)).writeHead libs stream status
        headers body.length)
      stream fun s => setBody s (sentBody method body)
    rw [Conn.respond, hm]
    rfl
  · intro id s' hs'
    rw [get?_respond] at hs'
    split_ifs at hs'
    · obtain ⟨s, hs, rfl⟩ := map_eq_some_iff.mp hs'
      exact ⟨s, hs, rfl⟩
    · exact ⟨s', hs', rfl⟩

theorem free_answer (stream : Nat) (body : Bytes) (head : Frame) (hf : head.ftype ≠ .data) :
    Free [.answered stream body, .wrote head] := by
  have hon (id : Nat) : (Entry.wrote head).sentOn id = 0 := if_neg fun hno => hf hno.1
  have hhead : Free [.wrote head] := free_nil.cons rfl (fun _ => rfl) hon (if_neg hf)
  exact hhead.cons rfl (fun _ => rfl) (fun _ => rfl) rfl

/-- **A response** whose header block fits a frame. -/
theorem Covered.respond (h : c.Covered []) (hheeds : c.Heeds []) (libs : Libs) (stream status : Nat)
    (headers : List (Str × Str)) (body : Bytes) (hfits : ¬ c.HeadTooLong libs status headers body)
    (method : Str) : (c.respond libs stream status headers body method).Covered [] := by
  have hlog := log_respond libs c stream status headers body method
  obtain ⟨hconn, hwindows⟩ := windows_respond libs c stream status headers body method
  have hfree := free_answer stream (sentBody method body) ⟨.headers, flagEndHeaders,
    low31 stream, libs.encode c.hpackEnc (responseFields libs status headers body.length)⟩ nofun
  have hlast := (Follows.respond libs c stream status headers body method).last
  have hinit := (Kept.respond libs c stream status headers body method).initial
  have hbefore : frameLimit (c.log ++ [.answered stream (sentBody method body)]) =
      frameLimit c.log := by
    rw [frameLimit, settingsCame_append]
    exact congrArg _ (append_nil _)
  constructor
  · rw [hlog, ← singleton_append, ← append_assoc]
    refine each_concat (each_concat h.writes nofun) ?_
    rintro g ⟨⟩
    refine ⟨?_, nofun, nofun⟩
    rw [hbefore, ← hheeds.frame]
    exact not_lt.mp hfits
  · have hcover := h.connection
    rw [hlog, creditFor_append, hfree.increments, hfree.sent, hconn]
    omega
  · intro id s' hs'
    obtain ⟨s, hs, hw⟩ := hwindows id s' hs'
    have hstream := h.streams id s hs
    rw [hlog, increments_append, sentOn_append, hfree.increments, hfree.sentOn, hw, hinit]
    omega
  · intro id hid
    rw [hlog, sentOn_append, h.fresh id (hlast.trans_lt hid), hfree.sentOn]

theorem Exact.respond (h : c.Exact []) (libs : Libs) (stream status : Nat)
    (headers : List (Str × Str)) (body : Bytes) (method : Str) :
    (c.respond libs stream status headers body method).Exact [] :=
  h.free (log_respond libs c stream status headers body method) (free_answer _ _ _ nofun)
    (windows_respond libs c stream status headers body method).1

theorem free_handed (stream : Nat) (req : RawRequest) : Free [.handed stream req] :=
  free_nil.cons rfl (fun _ => rfl) (fun _ => rfl) rfl

/-- **What comes of a request** is covered, if the header block of its response fits a frame. -/
theorem Dispatches.covered (hd : Dispatches libs env stream c c')
    (h : c.Covered []) (hheeds : c.Heeds []) (hsound : c.Sound)
    (hknown : ∀ id s, c.streams.get? id = some s → id < 2 ^ 31 ∧ id ≤ c.lastStreamId)
    (hfits : ∀ s status headers body, c.streams.get? stream = some s → ready s = true →
      ¬ Invalid s → outcomeOf env s = .ready status headers body →
      ¬ c.HeadTooLong libs status headers body) : c'.Covered [] := by
  have given (req : RawRequest) : (c.handOver stream req).Covered [] :=
    h.free (l := [.handed stream req]) rfl (free_handed stream req)
      (fun e he _ => by rw [mem_singleton.mp he]; exact nofun) (le_refl _) (le_refl _) rfl
      fun id s hs => ⟨s, hs, le_refl _⟩
  cases hd with
  | notReady => exact h
  | rejected =>
    have hreset : (c.pushReset stream errProtocolError).Covered [] :=
      h.modest (.single ⟨_, rfl, nofun, short_be32 _⟩ rfl) rfl rfl rfl rfl
    refine hreset.free (l := []) (append_nil _).symm free_nil nofun (le_refl _) (le_refl _) rfl
      fun id s' hs' => ?_
    change (c.streams.erase stream).get? id = some s' at hs'
    rw [get?_erase] at hs'
    split_ifs at hs'
    exact ⟨s', hs', le_refl _⟩
  | @pending s hs hr hgood hout =>
    obtain ⟨m, hm, hget⟩ := updateStream_eq (c.handOver stream (requestOf s)) stream
      fun s' => { s' with pending := some (requestOf s).method }
    rw [hm]
    refine (given (requestOf s)).free (l := []) (append_nil _).symm free_nil nofun
      (le_refl _) (le_refl _) rfl fun id s' hs' => ?_
    change m.get? id = some s' at hs'
    rw [hget] at hs'
    split_ifs at hs'
    · obtain ⟨s₀, hs₀, rfl⟩ := map_eq_some_iff.mp hs'
      exact ⟨s₀, hs₀, le_refl _⟩
    · exact ⟨s', hs', le_refl _⟩
  | @answered s status headers body c' hs hr hgood hout hf =>
    have hk := Kept.handOver c stream (requestOf s)
    have hresp := (given (requestOf s)).respond (hheeds.kept hk) libs stream status headers body
      (hfits s status headers body hs hr hgood hout) (requestOf s).method
    have hfollows := (Follows.handOver c stream (requestOf s)).trans (Follows.respond libs
      (c.handOver stream (requestOf s)) stream status headers body (requestOf s).method)
    refine hf.covered hresp (Sound.respond libs (c := c.handOver stream (requestOf s)) hsound ..)
      ((hheeds.kept hk).kept (.respond ..)) (flushOrder_known env fun id s' hs' => ?_)
    obtain ⟨s₀, hs₀, -⟩ := hfollows.streams id s' hs'
    obtain ⟨hlt, hle⟩ := hknown id s₀ hs₀
    exact ⟨hlt, hle.trans hfollows.last⟩

theorem Dispatches.exact (hd : Dispatches libs env stream c c') (h : c.Exact []) : c'.Exact [] := by
  have given (req : RawRequest) : (c.handOver stream req).Exact [] :=
    h.free (l := [.handed stream req]) rfl (free_handed stream req) rfl
  cases hd with
  | notReady => exact h
  | rejected =>
    refine h.free (l := [_]) rfl (free_of_modest fun e he => ?_) rfl
    rw [mem_singleton.mp he]
    exact ⟨_, rfl, nofun, short_be32 _⟩
  | @pending s =>
    obtain ⟨m, hm, -⟩ := updateStream_eq (c.handOver stream (requestOf s)) stream
      fun s' => { s' with pending := some (requestOf s).method }
    rw [hm]
    exact given (requestOf s)
  | @answered s status headers body c' hs hr hgood hout hf =>
    exact hf.exact ((given (requestOf s)).respond libs stream status headers body _)

/-! ## Nothing is held back -/

/-- A stream has no more to send, or a window that it needs is spent. -/
def Idle (c : Conn) (stream : Nat) : Prop := c.unsent stream = 0 ∨ c.exhausted stream = true

theorem unsent_eq (hs : c.streams.get? stream = some s)
    (hbody : s.respBody = some body) : c.unsent stream = body.length - s.respSent := by
  rw [unsent, hs]
  change (s.respBody.getD []).length - s.respSent = _
  rw [hbody, getD_some]

theorem unsent_chunkSent (c : Conn) (stream : Nat) (hbody : s.respBody = some body) (n : Nat) :
    (c.chunkSent stream s body n).unsent stream = body.length - (s.respSent + n) :=
  unsent_eq ((get?_chunkSent c stream s body n stream).trans (if_pos rfl)) hbody

theorem unsent_closeStream (c : Conn) (stream : Nat) :
    (c.closeStreamRememberingWindow stream).unsent stream = 0 := by
  rw [unsent, get?_closeStream, if_pos rfl]

theorem unsent_endStream (h : c.unsent stream = 0) (state : StreamState) :
    (c.endStream stream state).unsent stream = 0 := by
  unfold endStream
  split_ifs
  · exact unsent_closeStream c stream
  · exact unsent_closeStream c stream
  · obtain ⟨m, hm, hget⟩ := updateStream_eq c stream fun s => { s with state := .halfClosedLocal }
    rw [hm, unsent]
    dsimp only
    rw [hget, if_pos rfl]
    unfold unsent at h
    cases hs : c.streams.get? stream <;> rw [hs] at h <;> exact h

theorem flushRounds_idle (stream : Nat) {rounds : Nat} (h : c.Sound)
    (hr : c.unsent stream < rounds) (hflush : flushRounds stream rounds c = some c') :
    c'.Idle stream := by
  induction rounds generalizing c with
  | zero => exact absurd hr (Nat.not_lt_zero _)
  | succ rounds ih =>
    rw [flushRounds] at hflush
    cases hs : c.streams.get? stream with
    | none =>
      rw [hs] at hflush
      cases hflush
      exact .inl (by rw [unsent, hs])
    | some s =>
      rw [hs] at hflush
      dsimp only at hflush
      cases hbody : s.respBody with
      | none =>
        rw [hbody] at hflush
        cases hflush
        refine .inl ?_
        rw [unsent, hs]
        change (s.respBody.getD []).length - _ = 0
        rw [hbody]
        exact Nat.zero_sub _
      | some body =>
        rw [hbody] at hflush
        dsimp only at hflush
        rw [if_neg (Nat.not_lt.mpr ((h.streams stream s hs).sent_le body hbody))] at hflush
        by_cases hrem : body.length - s.respSent = 0
        · rw [if_pos hrem] at hflush
          cases hflush
          exact .inl (unsent_closeStream _ stream)
        rw [if_neg hrem] at hflush
        cases hex : c.exhausted stream with
        | true =>
          rw [hex, if_pos rfl] at hflush
          cases hflush
          exact .inr hex
        | false =>
          have ha := affords_toSend h hs hex hrem
          have hpos := ha.pos
          have hbefore : c.unsent stream = body.length - s.respSent := unsent_eq hs hbody
          have hafter := unsent_chunkSent c stream hbody (c.toSend s (body.length - s.respSent))
          rw [hex, if_neg Bool.false_ne_true, sendChunk_eq h hs ha] at hflush
          dsimp only at hflush
          split_ifs at hflush with hall hspent
          · cases hflush
            exact .inl (unsent_endStream (by omega) _)
          · cases hflush
            exact .inr hspent
          · exact ih (h.chunkSent hs hbody ha) (by omega) hflush

theorem Sends.connSendWindow_le (hsends : Sends stream c c') :
    c'.connSendWindow ≤ c.connSendWindow := by
  induction hsends with
  | nothing c => exact le_refl _
  | drained => exact (connSendWindow_closeStream ..).le
  | @last c s body n =>
    have hconn := (windows_endStream (c.chunkSent stream s body n) stream s.state).1
    have hsent : (c.chunkSent stream s body n).connSendWindow = c.connSendWindow - n := rfl
    omega
  | @chunk c c' s body n _ _ _ _ _ ih =>
    have hsent : (c.chunkSent stream s body n).connSendWindow = c.connSendWindow - n := rfl
    omega

theorem Sends.idle {stream id : Nat} (hsends : Sends stream c c') (hne : id ≠ stream)
    (h : c.Idle id) : c'.Idle id := by
  have hconn := hsends.connSendWindow_le
  unfold Idle unsent exhausted at h ⊢
  rw [hsends.other hne]
  refine h.imp_right fun hspent => ?_
  simp only [Bool.or_eq_true, decide_eq_true_eq] at hspent ⊢
  exact hspent.imp_left hconn.trans

theorem flushPendingStreams_idle (env : Env) (h : c.Sound) :
    ∃ c', c.flushPendingStreams env = some c' ∧ ∀ id, c'.Idle id := by
  have general (ids : List Nat) : ∀ c : Conn, c.Sound → ∃ c',
      ids.foldlM (fun c stream => flushRounds stream (c.unsent stream + 1) c) c = some c' ∧
        ∀ id, c.Idle id ∨ id ∈ ids → c'.Idle id := by
    induction ids with
    | nil => exact fun c _ => ⟨c, rfl, fun id hid => hid.resolve_right not_mem_nil⟩
    | cons stream ids ih =>
      intro c h
      obtain ⟨c₁, h₁, hsends⟩ := flushRounds_sends stream (c.unsent stream + 1) h
      obtain ⟨c', h', hidle⟩ := ih c₁ (hsends.sound h)
      refine ⟨c', ?_, fun id hid => hidle id ?_⟩
      · rw [foldlM_cons, h₁]
        exact h'
      by_cases heq : id = stream
      · exact .inl (heq ▸ flushRounds_idle stream h (Nat.lt_succ_self _) h₁)
      · exact hid.imp (hsends.idle heq) fun hmem => (mem_cons.mp hmem).resolve_left heq
  obtain ⟨c', hc', hidle⟩ := general (c.flushOrder env) c h
  refine ⟨c', hc', fun id => hidle id ?_⟩
  cases hs : c.streams.get? id with
  | none => exact .inl (.inl (by rw [unsent, hs]))
  | some s =>
    exact .inr ((env.order_perm _).mem_iff.mpr (SortedMap.mem_keys.mpr ⟨s, hs⟩))

/-- **Nothing is held back**, in every state of every run: when the streams are flushed, in whatever
order they are listed, the process does not end, and behind that each stream has no more to send, or
the client has granted it no more. -/
theorem nothing_held_back (libs : Libs) (events : List Event) :
    Throughout (Conn.step libs) (fun c => ∀ env, ∃ c', c.flushPendingStreams env = some c' ∧
      ∀ id, c'.Idle id) Conn.new events := by
  refine throughout_of_inv (I := Conn.Sound) ?_ ?_ events Sound.new
  · exact fun c e c' h hs => (step_steps h hs).sound h
  · exact fun c h env => flushPendingStreams_idle env h

/-! ## Steps -/

/-- What a connection keeps. -/
structure Lends (c : Conn) : Prop where
  covered : c.Covered []
  ordered : c.Ordered
  heeds : c.phase ≠ .done → c.Heeds []
  exact : c.phase ≠ .done → c.Exact []

theorem Ordered.bounds (h : c.Ordered) (id : Nat) (s : Stream) (hs : c.streams.get? id = some s) :
    id < 2 ^ 31 ∧ id ≤ c.lastStreamId :=
  ⟨(h.known id s hs).2.2, (h.known id s hs).1⟩

theorem Covered.take (h : c.Covered []) (f : Frame) (rest : Bytes) :
    (c.take f rest).Covered [.took f] := by
  have hsent : sent [.took f] = 0 := rfl
  have hzero (id : Nat) : increments id [] = 0 := rfl
  have hon (id : Nat) : sentOn id [.took f] = 0 := rfl
  have hlog : (c.take f rest).log = c.log ++ [.took f] := rfl
  have hconn : (c.take f rest).connSendWindow = c.connSendWindow := rfl
  have hinit : (c.take f rest).peerInitialWindow = c.peerInitialWindow := rfl
  refine ⟨each_concat h.writes nofun, ?_, fun id s hs => ?_, fun id hid => ?_⟩
  · have hbefore := h.connection
    rw [hconn, hlog, creditFor_append, hsent]
    rw [hzero] at hbefore
    omega
  · have hbefore := h.streams id s hs
    rw [hinit, hlog, increments_append, sentOn_append, hon]
    rw [hzero] at hbefore
    omega
  · rw [hlog, sentOn_append, h.fresh id hid, hon]

theorem Heeds.take (h : c.Heeds []) (f : Frame) (rest : Bytes) : (c.take f rest).Heeds
    [.took f] := by
  have hinit : c.peerInitialWindow = initialCredit c.log := h.initial
  have hframe : c.peerMaxFrame = frameLimit c.log := h.frame
  constructor
  · change lastWindow c.peerInitialWindow _ = initialCredit (c.log ++ [.took f])
    rw [initialCredit, settingsCame_append, lastWindow_append, hinit]
    rfl
  · change lastFrame c.peerMaxFrame _ = frameLimit (c.log ++ [.took f])
    rw [frameLimit, settingsCame_append, lastFrame_append, hframe]
    rfl

theorem Exact.take (h : c.Exact []) (f : Frame) (rest : Bytes) : (c.take f rest).Exact
    [.took f] := by
  have hsent : sent [.took f] = 0 := rfl
  have hzero : increments 0 [] = 0 := rfl
  unfold Exact at *
  change c.connSendWindow + _ = creditFor (c.log ++ [.took f])
  rw [creditFor_append, hsent]
  rw [hzero] at h
  omega

theorem modest_enter (c : Conn) : Appends Modest c c.enter := by
  refine appends_enter (fun t ht flags stream payload hlen => ⟨_, rfl, ?_, hlen⟩) c
  rintro rfl
  exact absurd ht (by decide)

theorem settings_enter (c : Conn) : c.enter.peerInitialWindow = c.peerInitialWindow ∧
    c.enter.peerMaxFrame = c.peerMaxFrame ∧ c.enter.connSendWindow = c.connSendWindow ∧
    c.enter.hpackEnc = c.hpackEnc := by
  unfold enter
  split_ifs
  all_goals exact ⟨rfl, rfl, rfl, rfl⟩

theorem Lends.enter (h : c.Lends) (hp : c.phase ≠ .done) :
    c.enter.Covered [] ∧ c.enter.Ordered ∧ c.enter.Heeds [] ∧ c.enter.Exact [] := by
  obtain ⟨hinit, hframe, hconn, -⟩ := settings_enter c
  obtain ⟨es, hes, hall⟩ := modest_enter c
  have hfree := free_of_modest hall
  refine ⟨h.covered.modest (modest_enter c) hconn (streams_enter c).2 hinit (streams_enter c).1, ?_,
    (h.heeds hp).free hes hfree hinit hframe, (h.exact hp).free hes hfree hconn⟩
  exact h.ordered.same (streams_enter c).1 (streams_enter c).2
    (handedStreams_of_appends (P := ofHandler) (fun _ _ h => h) (ofHandler_enter c))

theorem Covered.giveUp (h : c.Covered []) : c.giveUp.Covered [] := by
  unfold Conn.giveUp
  split_ifs
  · exact h.modest (.same rfl) rfl rfl rfl rfl
  · exact h.modest (.single ⟨_, rfl, nofun, short_goaway _ _⟩ rfl) rfl rfl rfl rfl

theorem Handles.encoder (hh : Handles libs env c f c₁ (.dispatch stream)) :
    c₁.hpackEnc = c.hpackEnc ∧ c₁.peerMaxFrame = c.peerMaxFrame := by
  generalize ht : Tail.dispatch stream = tail at hh
  cases hh with
  | data =>
    rw [charged_eq, grant_eq]
    exact ⟨rfl, rfl⟩
  | headersPart => exact ⟨rfl, rfl⟩
  | headers =>
    obtain ⟨m, hm, -⟩ := addFields_eq ((c.entered f).blockDone.decoded libs _) f.stream _
    rw [hm]
    exact ⟨rfl, rfl⟩
  | continuation =>
    obtain ⟨m, hm, -⟩ := addFields_eq (c.blockDone.decoded libs _) f.stream _
    rw [hm]
    exact ⟨rfl, rfl⟩
  | _ => cases ht

/-- **One step** writes what there is credit for, unless it sends too much. -/
theorem Steps.lends {e : Event} (hs : Steps libs c e c') (hsound : c.Sound) (h : c.Lends)
    (hok : ¬ c.Oversends libs e) : c'.Lends := by
  have hord := hs.ordered h.ordered
  have done {c : Conn} (hc : c.Covered []) (ho : c.Ordered) (hp : c.phase = .done) : c.Lends :=
    ⟨hc, ho, fun hno => absurd hp hno, fun hno => absurd hp hno⟩
  cases hs with
  | still => exact h
  | arrive =>
    exact ⟨{ h.covered with }, { h.ordered with }, fun hp => { h.heeds hp with }, h.exact⟩
  | waits env hp =>
    obtain ⟨h₁, h₂, h₃, h₄⟩ := h.enter hp
    exact ⟨h₁, h₂, fun _ => h₃, fun _ => h₄⟩
  | badPreface => exact done h.covered.giveUp hord rfl
  | tooLarge env hp =>
    have herr : (c.enter.connectionError errFrameSize).Covered [] :=
      (h.enter hp).1.modest (.single ⟨_, rfl, nofun, short_goaway _ _⟩ rfl) rfl rfl rfl rfl
    exact done herr.giveUp hord rfl
  | @frame env f rest c₁ _ tail hp hf hh hl =>
    have htail : ∀ why, tail ≠ .error why := by
      rintro why rfl
      cases hl
    obtain ⟨hcov, hordered, hheeds, hexact⟩ := h.enter hp
    have hcov₁ := (hcov.take f rest).handles hh
    have hheeds₁ := (hheeds.take f rest).handles hh htail
    have hexact₁ := (hexact.take f rest).handles hh htail
    have hord₁ := (h.ordered.take f rest).handles hh (nextFrame_bounds hf).2
    have hsound₁ := hh.sound (c := c.enter.take f rest) hsound.enter
    refine ⟨?_, hord, fun _ => hheeds₁.kept hl.kept, fun _ => ?_⟩
    · cases hl with
      | ok => exact hcov₁
      | flush hflush =>
        exact hflush.covered hcov₁ hsound₁ hheeds₁ (flushOrder_known env hord₁.bounds)
      | dispatch hd =>
        refine hd.covered hcov₁ hheeds₁ hsound₁ hord₁.bounds
          fun s status headers body hs hr hgood hout hlong => ?_
        obtain ⟨rfl, s', hcomp, hs'⟩ := hh.completes
        cases hs.symm.trans hs'
        refine hok ⟨f, rest, s, status, headers, body, hf, hcomp, hr, hgood, hout, ?_⟩
        obtain ⟨henc, hmax⟩ := hh.encoder
        unfold HeadTooLong at *
        rw [henc, hmax] at hlong
        change c.enter.peerMaxFrame < (libs.encode c.enter.hpackEnc _).length at hlong
        rwa [(settings_enter c).2.1, (settings_enter c).2.2.2] at hlong
    · cases hl with
      | ok => exact hexact₁
      | flush hflush => exact hflush.exact hexact₁
      | dispatch hd => exact hd.exact hexact₁
  | @failed env f rest c₁ hp hf hh =>
    have hcov₁ := ((h.enter hp).1.take f rest).handles (.failed [] hh)
    exact done hcov₁.giveUp hord rfl
  | @answered env stream status headers body s method c' hp hs hm hf =>
    have hset : (c.setStream stream { s with pending := none }).Covered [] := by
      refine h.covered.free (l := []) (append_nil _).symm free_nil nofun (le_refl _)
        (le_refl _) rfl fun id s' hs' => ?_
      change (c.streams.insert _ _).get? id = some s' at hs'
      rw [get?_insert] at hs'
      split_ifs at hs' with hid
      · cases hs'
        exact ⟨s, hid ▸ hs, le_refl _⟩
      · exact ⟨s', hs', le_refl _⟩
    have hkset : Kept c (c.setStream stream { s with pending := none }) := .setStream ..
    have hkept := Kept.answerWith libs c stream s status headers body method
    have hpending : s.pending ≠ none := fun hno => nomatch hm.symm.trans hno
    have hresp := hset.respond ((h.heeds hp).kept hkset) libs stream status headers body
      (fun hlong => hok ⟨hp, ⟨s, hs, hpending⟩, hlong⟩) method
    have hsound₁ := (hsound.setStream stream (s := { s with pending := none })
      { hsound.streams _ _ hs with }).respond libs stream status headers body method
    have hfollows := Follows.answerWith libs hs status headers body method
    refine ⟨hf.covered hresp hsound₁ ((h.heeds hp).kept hkept) (flushOrder_known env
      fun id s' hs' => ?_), hord, fun _ => (h.heeds hp).kept (hkept.trans hf.kept), fun _ => ?_⟩
    · obtain ⟨s₀, hs₀, -⟩ := hfollows.streams id s' hs'
      obtain ⟨hlt, hle⟩ := h.ordered.bounds id s₀ hs₀
      exact ⟨hlt, hle.trans hfollows.last⟩
    · have hexact : (c.setStream stream { s with pending := none }).Exact [] := h.exact hp
      exact hf.exact (hexact.respond libs stream status headers body method)
  | @flushed env c' hf =>
    have hheeds : c.Heeds [] := by
      by_cases hp : c.phase = .done
      · by_contra hno
        exact hok ⟨hp, hno⟩
      · exact h.heeds hp
    have hphase (hp : c'.phase ≠ .done) : c.phase ≠ .done := by
      rwa [← hf.kept.phase]
    exact ⟨hf.covered h.covered hsound hheeds (flushOrder_known env h.ordered.bounds), hord,
      fun _ => hheeds.kept hf.kept, fun hp => hf.exact (h.exact (hphase hp))⟩
  | idled =>
    exact done (h.covered.modest (.single ⟨_, rfl, nofun, short_goaway _ _⟩ rfl) rfl rfl rfl rfl)
      hord rfl
  | ioFailed | settled => exact done { h.covered with } hord rfl

end Conn

/-- **What the server writes is within the credit**, in every state of a run, as long as no response
has a header block that is too long for a frame, and nothing is sent that does not heed the settings
of the client. -/
theorem withinCredit_of_steps (libs : Libs) (events : List Event)
    (h : EachStep (Conn.step libs) (fun c e => ¬ c.Oversends libs e) Conn.new events) :
    Throughout (Conn.step libs) Conn.WithinCredit Conn.new events :=
  Conn.throughout_kept_of libs (I := Conn.Lends)
    (fun _ _ _ hsound hc hok hs => hs.lends hsound hc hok)
    (fun _ _ hc => ⟨hc.covered.writes, fun hp => by
      have hexact := hc.exact hp
      unfold Conn.Exact at hexact
      rw [← hexact]
      exact (Int.add_zero _).symm⟩)
    ⟨.new, .new, fun _ => .new, fun _ => rfl⟩ events h

theorem withinCredit_of_steps_slow :
    Throughout (Conn.step postLibs) Conn.WithinCredit Conn.new slowRun := by
  have hshort : ∀ {c : Conn} {env : Env}, ¬ c.Oversends postLibs (.frame env) := by
    rintro c env ⟨f, rest, s, status, headers, body, -, -, -, -, -, hlong⟩
    exact Nat.not_lt_zero _ hlong
  exact withinCredit_of_steps postLibs _ (.cons id rfl (.cons hshort rfl (.cons hshort rfl
    (.cons hshort rfl (.cons hshort rfl ⟨hshort, fun _ _ => trivial⟩)))))

/-- An encoder of literal fields. -/
def literalLibs : Libs := { postLibs with encode := fun _ fields => fields.flatMap hpackField }

/-- A field of a response that is as long as a frame may be. -/
def longField : Str × Str := ("x-token".toList, List.replicate 16384 'a')

theorem longField_mem : (lit "x-token", Utf8.encode longField.2) ∈
    responseFields literalLibs 200 [longField] 0 := by
  have hkeep : (!(["connection".toList, "transfer-encoding".toList, "keep-alive".toList,
      "content-length".toList].contains (literalLibs.toLowercase longField.1))) = true := by decide
  rw [responseFields, filter_cons, hkeep]
  exact mem_append_left _ (mem_append_right _ mem_cons_self)

theorem headers_beyond_frame : ¬ Throughout (Conn.step literalLibs) Conn.WithinCredit Conn.new
      [.arrive (clientPreface ++ postFrame 5 1),
        .frame ⟨0, fun _ => [], fun _ _ => .ready 200 [longField] [], id, fun _ => .refl _⟩] := by
  intro h
  have hlast := (h.2 _ rfl).2 _ rfl
  have hsize :=
    (hlast.writes [_, _, _, _] (.wrote ⟨.headers, flagEndHeaders, 1, _⟩) [_] rfl _ rfl).size
  change (responseFields literalLibs 200 [longField] 0 |>.flatMap hpackField).length ≤
    16384 at hsize
  have hlong := length_hpackField (f := (lit "x-token", Utf8.encode longField.2)) (by decide)
  have hvalue : 16384 ≤ (Utf8.encode longField.2).length :=
    length_replicate.symm.le.trans (Utf8.length_le_encode _)
  obtain ⟨before, after, hsplit⟩ := append_of_mem longField_mem
  rw [hsplit, flatMap_append, flatMap_cons, length_append, length_append] at hsize
  dsimp only at hlong
  omega

end M6.Http2
