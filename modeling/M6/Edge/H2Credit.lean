import M6.Edge.H2Steps
import Mathlib.Algebra.BigOperators.Group.List.Basic

/-!
# The receive credit of an HTTP/2 connection

A client counts down the credit of the connection by every DATA frame that it sends, and up by every
WINDOW_UPDATE frame that comes for stream 0. The server must count the same, or the connection
stalls: `connRecvWindow` is the credit that is left by what it took and wrote (`Accounted`). That is
so as long as no DATA frame with a payload is refused for the state of its stream, because such a
frame is not charged, and not after one that is (`accounted_iff`).
-/

namespace M6.Http2

open Runs

/-! ## Numbers on the wire -/

theorem bigEndian_be32 {n : Nat} (h : n < 2 ^ 32) : bigEndian (be32 n) = n := by
  simp only [bigEndian, be32, List.foldl_cons, List.foldl_nil, UInt8.toNat_ofNat']
  omega

/-! ## What the client sees -/

/-- What a frame that came takes from the credit of the connection. -/
def Entry.received : Entry → Nat
  | .took f => if f.ftype = .data then f.payload.length else 0
  | _ => 0

/-- What a frame that was written adds to it. -/
def Entry.credited : Entry → Nat
  | .wrote f =>
    if f.ftype = .windowUpdate ∧ f.stream = 0 then low31 (bigEndian f.payload) else 0
  | _ => 0

/-- The payload bytes of every DATA frame that came. -/
def dataReceived (log : List Entry) : Nat := (log.map Entry.received).sum

def creditWritten (log : List Entry) : Nat := (log.map Entry.credited).sum

theorem dataReceived_append (l l' : List Entry) :
    dataReceived (l ++ l') = dataReceived l + dataReceived l' := by
  rw [dataReceived, List.map_append, List.sum_append]
  rfl

theorem creditWritten_append (l l' : List Entry) :
    creditWritten (l ++ l') = creditWritten l + creditWritten l' := by
  rw [creditWritten, List.map_append, List.sum_append]
  rfl

namespace Conn

def creditLeft (c : Conn) : Int := defaultWindow - dataReceived c.log + creditWritten c.log

/-- **The credit of the connection is what the client sees**, and it covers any frame of the largest
size, as does that of each stream. -/
structure Accounted (c : Conn) : Prop where
  connection : c.goawaySent = false → c.connRecvWindow = c.creditLeft
  covered : ∀ n : Nat, n ≤ maxFrameSize → 0 ≤ c.connRecvWindow - n
  coveredStream : ∀ n : Nat, n ≤ maxFrameSize → ∀ id s, c.streams.get? id = some s →
    0 ≤ s.recvWindow - n

def RefusesData (c : Conn) : Event → Prop
  | .frame _ => c.goawaySent = false ∧ ∃ f rest code, c.nextFrame = some (f, rest) ∧
      f.ftype = .data ∧ f.payload ≠ [] ∧ c.continuationStreamId = none ∧
      frameShapeVerdict f.ftype f.flags f.stream f.payload.length = .allow ∧
      c.frameVerdict f.ftype f.stream = .streamError code
  | _ => False

/-- What a connection keeps as long as it goes on. -/
def Balanced (c : Conn) : Prop := c.goawaySent = false → c.connRecvWindow = c.creditLeft

variable {libs : Libs} {env : Env} {c c' : Conn} {f : Frame}

theorem covers {w : Int} (h : defaultWindow / 2 ≤ w) {n : Nat} (hn : n ≤ maxFrameSize) :
    0 ≤ w - n := by
  simp only [defaultWindow, maxFrameSize] at h hn
  omega

theorem Sound.accounted (h : c.Sound) (hb : c.Balanced) : c.Accounted where
  connection := hb
  covered := fun _ hn => covers h.connRecv_ge hn
  coveredStream := fun _ hn _ _ hs => covers (h.streams _ _ hs).recv_ge hn

/-! ## One step -/

theorem creditLeft_same {l : List Entry} (hlog : c'.log = c.log ++ l)
    (hr : dataReceived l = 0) (hw : creditWritten l = 0) : c'.creditLeft = c.creditLeft := by
  rw [creditLeft, creditLeft, hlog, dataReceived_append, creditWritten_append, hr, hw]
  rfl

theorem dataReceived_granted (stream : Nat) (inc : Int) : dataReceived
    (granted stream inc) = 0 := by
  unfold granted
  split_ifs
  · rfl
  · rfl

theorem creditWritten_granted {inc : Int} (low : 0 ≤ inc) (high : inc ≤ defaultWindow) :
    (creditWritten (granted 0 inc) : Int) = inc := by
  simp only [defaultWindow] at high
  unfold granted
  split_ifs with hpos
  · have hn : low31 inc.toNat = inc.toNat := low31_of_lt (by omega)
    have hb : bigEndian (be32 inc.toNat) = inc.toNat := bigEndian_be32 (by omega)
    have hcredit : creditWritten [.wrote ⟨.windowUpdate, 0, low31 0, be32 (low31 inc.toNat)⟩] =
        low31 (bigEndian (be32 (low31 inc.toNat))) := rfl
    rw [hcredit, hn, hb, hn]
    omega
  · change (0 : Int) = inc
    omega

theorem creditWritten_grantedStream {stream : Nat} (hid : stream ≠ 0) (hlt : stream < 2 ^ 31)
    (inc : Int) : creditWritten (granted stream inc) = 0 := by
  have hlow : ¬ (FrameType.windowUpdate = .windowUpdate ∧ low31 stream = 0) := fun h =>
    hid ((low31_of_lt hlt).symm.trans h.2)
  unfold granted
  split_ifs
  · change (if _ then _ else _) + 0 = 0
    rw [if_neg hlow]
  · rfl

theorem creditLeft_charged (h : c.Sound) {n : Nat} (hn : n ≤ maxFrameSize) {w inc : Int}
    (hw : replenish (c.connRecvWindow - n) = some (w, inc))
    (hc : c.connRecvWindow = c.creditLeft + n) : w = (c.charged w inc).creditLeft := by
  have hcover := covers h.connRecv_ge hn
  have high := h.connRecv_le
  obtain ⟨hsum, hinc, -, hle⟩ := replenish_some hw (by omega)
  have hcredit : (creditWritten (granted 0 inc) : Int) = inc :=
    creditWritten_granted hinc (by omega)
  rw [charged_eq, creditLeft]
  dsimp only
  rw [dataReceived_append, creditWritten_append, dataReceived_granted]
  simp only [creditLeft] at hc
  omega

/-- **One frame**: what it takes from the credit is charged, unless it is refused. -/
theorem Handles.balanced {c₁ : Conn} {tail : Tail} (hh : Handles libs env c f c₁ tail)
    (h : c.Sound) (hn : f.payload.length ≤ maxFrameSize) (hid : f.stream < 2 ^ 31)
    (htail : ∀ why, tail ≠ .error why)
    (hno : ∀ code, f.ftype = .data → f.payload ≠ [] → c.continuationStreamId = none →
      frameShapeVerdict f.ftype f.flags f.stream f.payload.length = .allow →
      c.frameVerdict f.ftype f.stream ≠ .streamError code)
    (hc : c.connRecvWindow = c.creditLeft + (Entry.took f).received)
    (hgo : c₁.goawaySent = false) : c₁.connRecvWindow = c₁.creditLeft := by
  have free {c₁ : Conn} {l : List Entry} (hzero : (Entry.took f).received = 0)
      (hrecv : c₁.connRecvWindow = c.connRecvWindow) (hlog : c₁.log = c.log ++ l)
      (hr : dataReceived l = 0) (hw : creditWritten l = 0) :
      c₁.connRecvWindow = c₁.creditLeft := by
    rw [hrecv, hc, hzero, creditLeft_same hlog hr hw]
    omega
  have other (hf : f.ftype ≠ .data) : (Entry.took f).received = 0 := if_neg hf
  have nil (c : Conn) : c.log = c.log ++ [] := (List.append_nil _).symm
  cases hh with
  | failed why => exact absurd rfl (htail why)
  | nothing hout hf =>
    refine free (other ?_) rfl (nil c) rfl rfl
    rcases hf with hf | hf | hf | ⟨code, hf⟩
    all_goals
      rw [hf]
      nofun
  | connectionError => exact nomatch hgo
  | illegal code hout hshape hstate =>
    refine free ?_ rfl (l := [_]) rfl rfl rfl
    by_cases hf : f.ftype = .data
    · have hnil : f.payload = [] := by
        by_contra hne
        exact hno code hf hne hout hshape hstate
      rw [Entry.received, if_pos hf, hnil]
      rfl
    · exact other hf
  | reset code hout hf =>
    refine free (other ?_) rfl (l := [_]) rfl rfl rfl
    rcases hf with hp | hw
    · rw [hp.priority]
      nofun
    · rw [hw.windowUpdate]
      nofun
  | rstStream ha hf | goaway ha hf | connCredit ha hf | streamCredit ha hf | closedCredit ha hf
  | uncredited ha hf => exact free (other (by rw [hf]; nofun)) rfl (nil c) rfl rfl
  | ping ha hf | settings ha hf | closedOverflow ha hf | refusedLate ha hf | refusedBusy ha hf =>
    exact free (other (by rw [hf]; nofun)) rfl (l := [_]) rfl rfl rfl
  | @overCap s first last w inc ha hf _ _ _ hw =>
    rw [Entry.received, if_pos hf] at hc
    have hw' : (c.charged w inc).connRecvWindow = w := by rw [charged_eq]
    change (c.charged w inc).connRecvWindow = _
    rw [hw', creditLeft_same (c := c.charged w inc) (l := [_]) rfl rfl rfl]
    exact creditLeft_charged h hn hw hc
  | @data s first last w inc w' inc' tail ha hf hne _ _ hw =>
    rw [Entry.received, if_pos hf] at hc
    have hw' : (c.charged w inc).connRecvWindow = w := by rw [charged_eq]
    rw [grant_eq]
    change (c.charged w inc).connRecvWindow = _
    rw [hw', creditLeft_same (c := c.charged w inc) (l := granted f.stream inc') rfl
      (dataReceived_granted ..) (creditWritten_grantedStream hne hid inc')]
    exact creditLeft_charged h hn hw hc
  | selfDependent ha | trailersRejected ha =>
    exact free (other (by rw [ha.headers]; nofun)) rfl (l := [_]) rfl rfl rfl
  | headersPart ha => exact free (other (by rw [ha.headers]; nofun)) rfl (nil c) rfl rfl
  | headers ha =>
    exact free (other (by rw [ha.headers]; nofun)) (Kept.addFields ..).connRecv
      ((log_updateStream ..).trans (nil c)) rfl rfl
  | continuationPart ha | continuationGone ha =>
    exact free (other (by rw [ha.continuation]; nofun)) rfl (nil c) rfl rfl
  | continuation ha =>
    exact free (other (by rw [ha.continuation]; nofun)) (Kept.addFields ..).connRecv
      ((log_updateStream ..).trans (nil c)) rfl rfl

theorem Balanced.kept (h : c.Balanced) (hk : Kept c c') : c'.Balanced := by
  intro hgo
  obtain ⟨es, hes, hall⟩ := hk.log
  have hr : dataReceived es = 0 := by
    refine List.sum_eq_zero fun n hn => ?_
    obtain ⟨e, he, rfl⟩ := List.mem_map.mp hn
    cases e with
    | took f => exact absurd (hall _ he) id
    | wrote | handed | answered => rfl
  have hw : creditWritten es = 0 := by
    refine List.sum_eq_zero fun n hn => ?_
    obtain ⟨e, he, rfl⟩ := List.mem_map.mp hn
    cases e with
    | took | handed | answered => rfl
    | wrote f =>
      refine if_neg fun hf => ?_
      have hof : f.ftype = .data ∨ f.ftype = .headers ∨ f.ftype = .rstStream := hall _ he
      rw [hf.1] at hof
      exact absurd hof (by decide)
  rw [hk.connRecv, creditLeft_same hes hr hw]
  exact h (hk.goaway ▸ hgo)

theorem Balanced.enter (h : c.Balanced) : c.enter.Balanced := by
  unfold Conn.enter
  split_ifs
  · intro hgo
    rw [creditLeft_same (c := c) (l := [_]) rfl rfl rfl]
    exact h hgo
  · exact h

theorem Balanced.take (h : c.Balanced) (f : Frame) (rest : Bytes) (hgo : c.goawaySent = false) :
    (c.take f rest).connRecvWindow = (c.take f rest).creditLeft + (Entry.took f).received := by
  have hc := h hgo
  have hrecv : (c.take f rest).connRecvWindow = c.connRecvWindow := rfl
  have hlog : (c.take f rest).log = c.log ++ [.took f] := rfl
  have hreceived : dataReceived [.took f] = (Entry.took f).received := Nat.add_zero _
  have hwritten : creditWritten [.took f] = 0 := rfl
  rw [creditLeft] at hc
  rw [creditLeft, hrecv, hlog, dataReceived_append, creditWritten_append, hreceived, hwritten]
  omega

/-- **One step** keeps the balance, unless it refuses DATA. -/
theorem Steps.balanced {e : Event} (hs : Steps libs c e c') (hc : c.Sound) (h : c.Balanced)
    (hok : ¬ c.RefusesData e) : c'.Balanced := by
  have gone (c : Conn) (hsent : c.goawaySent = true) : c.Balanced :=
    fun hgo => nomatch hsent.symm.trans hgo
  cases hs with
  | still | arrive | ioFailed | settled => exact h
  | waits => exact h.enter
  | badPreface | tooLarge | failed => exact gone _ (goawaySent_giveUp _)
  | @frame env f rest c₁ _ tail hp hf hh hl =>
    have htail : ∀ why, tail ≠ .error why := by
      rintro why rfl
      cases hl
    refine Balanced.kept (c := c₁) (fun hgo => ?_) hl.kept
    cases hsent : c.goawaySent with
    | true =>
      have hsent' := hh.goawaySent ((goawaySent_take_enter c f rest).trans hsent)
      exact nomatch hsent'.symm.trans hgo
    | false =>
      obtain ⟨hn, hid⟩ := nextFrame_bounds hf
      have htaken := h.enter.take f rest ((goawaySent_enter c).trans hsent)
      refine hh.balanced (c := c.enter.take f rest) hc.enter hn hid htail ?_ htaken hgo
      intro code hdata hne hout hshape hstate
      rw [outside_take.1] at hout
      rw [outside_take.2] at hstate
      exact hok ⟨hsent, f, rest, code, hf, hdata, hne, hout, hshape, hstate⟩
  | answered _ _ _ hf => exact h.kept ((Kept.answerWith ..).trans hf.kept)
  | flushed hf => exact h.kept hf.kept
  | idled => exact gone _ rfl

theorem RefusesData.breaks {e : Event} (libs : Libs) (h : c.Balanced) (hr : c.RefusesData e) :
    ∃ c', c.step libs e = some c' ∧ ¬ c'.Accounted := by
  cases e with
  | frame env =>
    obtain ⟨hgo, f, rest, code, hf, hdata, hne, hout, hshape, hstate⟩ := hr
    have hout' : (c.enter.take f rest).continuationStreamId = none := outside_take.1.trans hout
    have hstate' : (c.enter.take f rest).frameVerdict f.ftype f.stream = .streamError code :=
      outside_take.2.trans hstate
    have hreceive : receive libs env (c.enter.take f rest) f =
        some ((c.enter.take f rest).resetStream f.stream code, .ok ()) := by
      rw [receive, hout', if_neg (by rintro ⟨_, h, -⟩; cases h),
        if_neg (by rw [hdata]; exact fun h => nomatch h.2), refuse, hshape]
      dsimp only
      rw [hout', hstate']
      rfl
    refine ⟨(c.enter.take f rest).resetStream f.stream code, ?_, fun hacc => ?_⟩
    · rw [step_frame libs env hf, hreceive]
      rfl
    · have htaken := h.enter.take f rest ((goawaySent_enter c).trans hgo)
      have hafter := hacc.connection ((goawaySent_take_enter c f rest).trans hgo)
      rw [creditLeft_same (c := c.enter.take f rest) (l := [_]) rfl rfl rfl] at hafter
      have hpos : 0 < f.payload.length := List.length_pos_iff.mpr hne
      rw [Entry.received, if_pos hdata] at htaken
      change (c.enter.take f rest).connRecvWindow = _ at hafter
      omega
  | _ => exact absurd hr id

end Conn

/-- **The server counts the credit as the client does**, and never finds it overdrawn, if and only
if it refuses no DATA frame with a payload for the state of its stream. -/
theorem accounted_iff (libs : Libs) (events : List Event) :
    Throughout (Conn.step libs) Conn.Accounted Conn.new events ↔
      EachStep (Conn.step libs) (fun c e => ¬ c.RefusesData e) Conn.new events := by
  have holds (c : Conn) (h : c.Sound ∧ c.Balanced) : c.Accounted := h.1.accounted h.2
  have keeps (c : Conn) (e : Event) (c' : Conn) (h : c.Sound ∧ c.Balanced) (hok : ¬ c.RefusesData e)
      (hs : c.step libs e = some c') : c'.Sound ∧ c'.Balanced := by
    have hst := Conn.step_steps h.1 hs
    exact ⟨hst.sound h.1, hst.balanced h.1 h.2 hok⟩
  have breaks (c : Conn) (e : Event) (h : c.Sound ∧ c.Balanced) (hr : ¬ ¬ c.RefusesData e) :
      ∃ c', c.step libs e = some c' ∧ ¬ c'.Accounted :=
    (not_not.mp hr).breaks libs h.2
  exact throughout_iff_eachStep holds keeps breaks events ⟨Conn.Sound.new, fun _ => rfl⟩

theorem refused_data_not_accounted : ¬ Throughout (Conn.step postLibs) Conn.Accounted Conn.new
      [.arrive (clientPreface ++ postFrame 5 1 ++
        [0, 0, 2, 0, 0, 0, 0, 0, 1, 0x61, 0x62]), .frame plainEnv, .frame plainEnv] := by
  intro h
  have hlast := ((h.2 _ rfl).2 _ rfl).2 _ rfl
  exact absurd (hlast.connection rfl) (by decide)

end M6.Http2
