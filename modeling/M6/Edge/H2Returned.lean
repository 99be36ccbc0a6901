import M6.Edge.H2Written
import Mathlib.Algebra.BigOperators.Group.List.Basic

/-!
# The receive credit of the outbound HTTP/2 client

A peer counts the whole payload of a DATA frame against the window of the connection, its padding
included. `drive` gives back what it hands on, which is less by the padding and the byte that says
how long that is.

`returnsCredit_iff` says in which runs everything is given back.
-/

namespace M6

open List

namespace ClientConn

variable {hp : Hpack}

/-! ## What the peer counts -/

structure FromWire (f : Frame) : Prop where
  stream_lt : f.stream < 2 ^ 31
  length_lt : f.payload.length < 2 ^ 24

/-- The events of a connection, whose frames were read from a socket. -/
structure WireRun where
  events : List ClientEvent
  wire : ∀ f, ClientEvent.receive f ∈ events → FromWire f

def frameReturns (f : Frame) : Nat :=
  if f.ftype = .windowUpdate ∧ f.stream = 0 then (increment f.payload).getD 0 else 0

def returned (c : ClientConn hp) : Nat := (c.sendBuf.map frameReturns).sum

def brings (c : ClientConn hp) : ClientEvent → Nat
  | .receive f => if c.isDead = false ∧ f.ftype = .data then f.payload.length else 0
  | _ => 0

/-- A DATA frame of which nothing is lost: it has no payload, or else no padding, and comes for a
stream where DATA may come. -/
def Lossless (c : ClientConn hp) (f : Frame) : Prop :=
  f.payload = [] ∨ (c.continuationStream = none ∧ 0 < f.stream ∧ f.has flagPadded = false)

def KeepsCredit (c : ClientConn hp) : ClientEvent → Prop
  | .receive f => c.isDead = false → f.ftype = .data → Lossless c f
  | _ => True

section
variable (kind : ClientKind) (iter : Iter hp)

def dataReceived : ClientConn hp → List ClientEvent → Nat
  | _, [] => 0
  | c, e :: events => brings c e + dataReceived (step kind iter c e) events

/-- No event of a run brings DATA of which something is lost. -/
def KeepsAll : ClientConn hp → List ClientEvent → Prop
  | _, [] => True
  | c, e :: events => KeepsCredit c e ∧ KeepsAll (step kind iter c e) events

def peerWindow (events : List ClientEvent) : Int :=
  defaultWindow - dataReceived kind iter (connect hp) events +
    returned (run kind iter (connect hp) events)

/-- **All credit is returned**, so that the window is what it was. -/
structure ReturnsCredit (events : List ClientEvent) : Prop where
  sum : returned (run kind iter (connect hp) events) = dataReceived kind iter (connect hp) events
  window : peerWindow kind iter events = defaultWindow

end

/-! ## One frame -/

theorem dataLength_le (f : Frame) : dataLength f ≤ f.payload.length := by
  rw [dataLength, Frame.unpad]
  split_ifs
  · cases f.payload with
    | nil => exact Nat.zero_le _
    | cons padLen rest =>
      dsimp only
      split_ifs
      · exact Nat.zero_le _
      · simp only [length_drop, length_take]
        omega
  · exact Nat.le_refl _

theorem dataLength_unpadded {f : Frame} (h : f.has flagPadded = false) :
    dataLength f = f.payload.length := by
  rw [dataLength, Frame.unpad, h, if_neg Bool.false_ne_true]
  rfl

/-- **Padding costs a byte at least.** -/
theorem dataLength_padded {f : Frame} (h : f.has flagPadded = true) (hne : f.payload ≠ []) :
    dataLength f < f.payload.length := by
  rw [dataLength, Frame.unpad, if_pos h]
  cases hpayload : f.payload with
  | nil => exact absurd hpayload hne
  | cons padLen rest =>
    dsimp only
    split_ifs
    · exact Nat.succ_pos _
    · simp only [length_drop, length_take, length_cons]
      omega

theorem increment_toBeBytes {n : Nat} (h : n < 2 ^ 31) : increment (toBeBytes n) = some n := by
  have hread : bigEndian (toBeBytes n) = n := by
    simp only [bigEndian, toBeBytes, foldl_cons, foldl_nil, UInt8.toNat_ofNat']
    omega
  have hincrement : increment (toBeBytes n) = some (bigEndian (toBeBytes n) % 2 ^ 31) := rfl
  rw [hincrement, hread, Nat.mod_eq_of_lt h]

theorem returned_append {c c' : ClientConn hp} {w : List Frame} (h : c'.sendBuf = c.sendBuf ++ w) :
    c'.returned = c.returned + (w.map frameReturns).sum := by
  rw [returned, h, map_append, sum_append]
  rfl

theorem Adds.returned {c c' : ClientConn hp} (h : Adds c c') : c'.returned = c.returned := by
  obtain ⟨w, hbuf, hw⟩ := h
  have hnone : (w.map frameReturns).sum = 0 := by
    refine sum_eq_zero fun n hn => ?_
    obtain ⟨f, hf, rfl⟩ := mem_map.mp hn
    exact if_neg fun hupdate => (hw f hf).2 hupdate.1
  rw [returned_append hbuf, hnone, Nat.add_zero]

/-- **The bytes that are handed on are given back.** -/
theorem returned_credited (c : ClientConn hp) {f : Frame} (hwire : FromWire f)
    (hstream : 0 < f.stream) : (c.credited f).returned = c.returned + dataLength f := by
  have hlt : dataLength f < 2 ^ 31 := by
    have hle := dataLength_le f
    have hlength := hwire.length_lt
    omega
  rw [credited]
  split_ifs with hpos
  · let inc := toBeBytes (dataLength f % 2 ^ 31)
    have hbuf : (c.grant f.stream (dataLength f)).sendBuf =
        c.sendBuf ++ [⟨.windowUpdate, 0, 0 % 2 ^ 31, inc⟩,
          ⟨.windowUpdate, 0, f.stream % 2 ^ 31, inc⟩] := append_assoc _ _ _
    have hconn : frameReturns ⟨.windowUpdate, 0, 0 % 2 ^ 31, inc⟩ = dataLength f := by
      rw [frameReturns, if_pos ⟨rfl, rfl⟩]
      change (increment (toBeBytes (dataLength f % 2 ^ 31))).getD 0 = dataLength f
      rw [Nat.mod_eq_of_lt hlt, increment_toBeBytes hlt]
      rfl
    have hown : frameReturns ⟨.windowUpdate, 0, f.stream % 2 ^ 31, inc⟩ = 0 := by
      refine if_neg fun h => ?_
      have hzero : f.stream % 2 ^ 31 = 0 := h.2
      rw [Nat.mod_eq_of_lt hwire.stream_lt] at hzero
      exact absurd hzero (Nat.ne_of_gt hstream)
    rw [returned_append hbuf, map_cons, map_singleton, hconn, hown]
    rfl
  · rw [Nat.eq_zero_of_not_pos hpos, Nat.add_zero]

/-! ## One event -/

def restores (c : ClientConn hp) : ClientEvent → Nat
  | .receive f =>
    if c.isDead = false ∧ f.ftype = .data ∧ c.continuationStream = none ∧ 0 < f.stream then
      dataLength f
    else 0
  | _ => 0

section
variable (kind : ClientKind) (iter : Iter hp)

theorem returned_onFrame (c : ClientConn hp) {f : Frame} (hwire : FromWire f) :
    (c.onFrame kind iter f).returned =
      c.returned + if f.ftype = .data ∧ 0 < f.stream then dataLength f else 0 := by
  by_cases hdata : f.ftype = .data
  · simp only [onFrame, hdata, true_and]
    split_ifs with hstream
    · rw [(onData_adds kind c f).returned, returned_credited c hwire hstream]
    · rfl
  · rw [(onFrame_adds kind iter c hdata).returned, if_neg fun h => hdata h.1, Nat.add_zero]

theorem returned_receive (c : ClientConn hp) {f : Frame} (hwire : FromWire f) :
    (c.receive kind iter f).returned = c.returned + restores c (.receive f) := by
  rw [restores]
  unfold receive
  split_ifs with hdead hdata hdata
  · exact absurd hdata.1 (by rw [hdead]; exact Bool.noConfusion)
  · rfl
  · rw [hdata.2.2.1]
    exact (returned_onFrame kind iter c hwire).trans (by rw [if_pos ⟨hdata.2.1, hdata.2.2.2⟩])
  · have halive : c.isDead = false := Bool.eq_false_iff.mpr hdead
    split
    · -- in the middle of a header block nothing but its CONTINUATION goes on
      split_ifs with hbroken
      · rfl
      · have hcont : f.ftype = .continuation := not_not.mp fun h => hbroken (Or.inl h)
        rw [returned_onFrame kind iter c hwire, if_neg (by simp [hcont])]
    · next hnone =>
      rw [returned_onFrame kind iter c hwire,
        if_neg fun h => hdata ⟨halive, h.1, hnone, h.2⟩]

/-- **What an event has the client give back** is written, and nothing else. -/
theorem returned_step (c : ClientConn hp) {e : ClientEvent}
    (hwire : ∀ f, e = .receive f → FromWire f) :
    (step kind iter c e).returned = c.returned + restores c e := by
  cases e with
  | dispatch d =>
    have hnone : restores c (.dispatch d) = 0 := rfl
    rw [step, hnone, Nat.add_zero]
    cases hdead : c.isDead with
    | true => rw [show dispatch kind c d = _ from if_pos hdead]
    | false =>
      have hopen : (openStream kind c d).sendBuf = c.sendBuf ++ [headersFrame kind c d] := rfl
      rw [(dispatch_adds kind hdead d).returned, returned_append hopen]
      rfl
  | receive f => exact returned_receive kind iter c (hwire f rfl)
  | lost reason =>
    rw [step]
    split_ifs
    · rfl
    · rfl

end

theorem restores_le (c : ClientConn hp) (e : ClientEvent) : restores c e ≤ brings c e := by
  cases e with
  | dispatch d | lost reason => exact Nat.le_refl 0
  | receive f =>
    rw [restores, brings]
    split_ifs with hall hboth hboth
    · exact dataLength_le f
    · exact absurd ⟨hall.1, hall.2.1⟩ hboth
    · exact Nat.zero_le _
    · exact Nat.le_refl 0

/-- **An event gives back what it brings** if and only if nothing of it is lost. -/
theorem restores_eq_iff (c : ClientConn hp) (e : ClientEvent) :
    restores c e = brings c e ↔ KeepsCredit c e := by
  cases e with
  | dispatch d | lost reason => exact iff_of_true rfl trivial
  | receive f =>
    rw [restores, brings, KeepsCredit, Lossless]
    by_cases hboth : c.isDead = false ∧ f.ftype = .data
    · have hplace : (c.isDead = false ∧ f.ftype = .data ∧ c.continuationStream = none ∧
          0 < f.stream) ↔ c.continuationStream = none ∧ 0 < f.stream := by
        simp only [hboth.1, hboth.2, true_and]
      rw [if_pos hboth, if_congr hplace rfl rfl]
      simp only [hboth.1, hboth.2, true_implies]
      by_cases hnil : f.payload = []
      · have hzero : dataLength f = 0 := by
          have hle := dataLength_le f
          rw [hnil] at hle
          exact Nat.le_zero.mp hle
        rw [hzero, ite_self, hnil]
        exact iff_of_true rfl (Or.inl rfl)
      · have hpos : 0 < f.payload.length := length_pos_iff.mpr hnil
        split_ifs with hthere
        · cases hpadded : f.has flagPadded with
          | true =>
            have hlost := dataLength_padded hpadded hnil
            simp only [hnil, false_or, Bool.true_eq_false, and_false, iff_false]
            omega
          | false =>
            rw [dataLength_unpadded hpadded]
            exact iff_of_true rfl (Or.inr ⟨hthere.1, hthere.2, rfl⟩)
        · -- a payload that comes where none may come is dropped
          refine iff_of_false (Nat.ne_of_lt hpos) ?_
          rintro (h | ⟨hnone, hstream, -⟩)
          · exact hnil h
          · exact hthere ⟨hnone, hstream⟩
    · have hnone : ¬ (c.isDead = false ∧ f.ftype = .data ∧ c.continuationStream = none ∧
          0 < f.stream) := fun h => hboth ⟨h.1, h.2.1⟩
      rw [if_neg hboth, if_neg hnone]
      exact iff_of_true rfl fun halive hdata => absurd ⟨halive, hdata⟩ hboth

/-! ## Runs -/

section
variable (kind : ClientKind) (iter : Iter hp)

/-- **A run gives back no more than it brings**, and as much only if nothing is lost. -/
theorem returned_run (c : ClientConn hp) {events : List ClientEvent}
    (hwire : ∀ f, ClientEvent.receive f ∈ events → FromWire f) :
    (run kind iter c events).returned ≤ c.returned + dataReceived kind iter c events ∧
      ((run kind iter c events).returned = c.returned + dataReceived kind iter c events ↔
        KeepsAll kind iter c events) := by
  induction events generalizing c with
  | nil => exact ⟨Nat.le_refl _, iff_of_true rfl trivial⟩
  | cons e events ih =>
    have hrest := ih (step kind iter c e) fun f hf => hwire f (mem_cons_of_mem e hf)
    have hstep := returned_step kind iter c (e := e) fun f hf => hwire f (hf ▸ mem_cons_self)
    have hle := restores_le c e
    have hkeeps := restores_eq_iff c e
    -- no event gives back more than it brings, so that what one loses no other makes up for
    rw [run, foldl_cons, dataReceived, KeepsAll, ← hrest.2, ← hkeeps]
    rw [run] at hrest
    rw [run, hstep]
    rw [hstep] at hrest
    omega

variable (r : WireRun)

theorem ReturnsCredit.keepsAll {kind : ClientKind} {iter : Iter hp} {r : WireRun}
    (h : ReturnsCredit kind iter r.events) : KeepsAll kind iter (connect hp) r.events := by
  refine (returned_run kind iter (connect hp) r.wire).2.mp (h.sum.trans ?_)
  exact (Nat.zero_add _).symm

/-- **All credit is returned** if and only if no DATA frame that came has padding, or came where
none may come, unless it was empty. -/
theorem returnsCredit_iff :
    ReturnsCredit kind iter r.events ↔ KeepsAll kind iter (connect hp) r.events := by
  refine ⟨ReturnsCredit.keepsAll, fun h => ?_⟩
  have hsum := (returned_run kind iter (connect hp) r.wire).2.mpr h
  have hnone : (connect hp).returned = 0 := rfl
  rw [hnone, Nat.zero_add] at hsum
  refine ⟨hsum, ?_⟩
  rw [peerWindow, hsum, Int.sub_add_cancel]

end

def paddedFrame : Frame := ⟨.data, flagPadded, 1, [3, 0x61, 0x62, 0x63, 0x64, 0x65, 0x66, 0, 0, 0]⟩

def paddedRun : WireRun where
  events := [.receive paddedFrame]
  wire f h := by
    obtain rfl := ClientEvent.receive.inj (List.mem_singleton.mp h)
    exact ⟨by decide, by decide⟩

theorem padding_leaks : ¬ ∀ (kind : ClientKind) (iter : Iter plainHpack) (r : WireRun),
    ReturnsCredit kind iter r.events := by
  intro h
  have hkeeps := (h .h2cClientConn (fun _ ids => ids) paddedRun).keepsAll
  have hlossless : Lossless (connect plainHpack) paddedFrame := hkeeps.1 rfl rfl
  obtain hnil | ⟨-, -, hpadded⟩ := hlossless
  · cases hnil
  · exact absurd hpadded (by decide)

end ClientConn

end M6
