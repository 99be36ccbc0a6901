import M6.Edge.H2Steps

/-!
# The windows of the HTTP/2 server stay in range

The process ends when a window leaves `i32`, which a WINDOW_UPDATE frame is kept from and a SETTINGS
frame is not: INITIAL_WINDOW_SIZE moves the windows of all streams that are open, by an unchecked
sum. So a run goes on, with all windows in range, as long as no SETTINGS frame raises the window of
an open stream above the largest, and no longer (`survives_iff`).
-/

namespace M6.Http2

open Runs

namespace Conn

def windows (c : Conn) : List Int :=
  c.connSendWindow :: c.connRecvWindow ::
    c.streams.entries.flatMap fun e => [e.2.sendWindow, e.2.recvWindow]

def InRange (c : Conn) : Prop := ∀ w ∈ c.windows, -maxWindow ≤ w ∧ w ≤ maxWindow

theorem Sound.inRange {c : Conn} (h : c.Sound) : c.InRange := by
  have hconn := h.connSend_ge
  have hrecv := h.connRecv_ge
  have hrecv' := h.connRecv_le
  have hinit := h.initial_ge
  simp only [defaultWindow] at hrecv hrecv'
  intro w hw
  rw [windows, List.mem_cons, List.mem_cons, List.mem_flatMap] at hw
  rcases hw with rfl | rfl | ⟨e, he, hw⟩
  · exact ⟨by simp only [maxWindow]; omega, h.connSend_le⟩
  · simp only [maxWindow]
    omega
  · have ok := h.streams e.1 e.2 (SortedMap.mem_entries.mp he)
    have hsend := ok.send_ge
    have hrecv := ok.recv_ge
    have hrecv' := ok.recv_le
    simp only [defaultWindow] at hrecv hrecv'
    rcases List.mem_cons.mp hw with rfl | hw
    · exact ⟨by simp only [maxWindow] at *; omega, ok.send_le⟩
    · cases List.mem_singleton.mp hw
      simp only [maxWindow]
      omega

end Conn

/-- **A run goes on, and all windows stay in range**, if and only if no SETTINGS frame of it raises
the window of an open stream above the largest. -/
theorem survives_iff (libs : Libs) (events : List Event) :
    (Conn.new.run libs events ≠ none ∧ Throughout (Conn.step libs) Conn.InRange Conn.new events) ↔
      EachStep (Conn.step libs) (fun c e => ¬ c.Overflows e) Conn.new events := by
  have keeps (c : Conn) (e : Event) (c' : Conn) (h : c.Sound) (hs : c.step libs e = some c') :
      c'.Sound := (Conn.step_steps h hs).sound h
  have hrange := throughout_of_inv keeps (fun c h => Conn.Sound.inRange h)
    events Conn.Sound.new
  have hsteps := eachStep_congr (C := fun c e => c.step libs e ≠ none)
    (D := fun c e => ¬ c.Overflows e) keeps
    (fun c e h => not_congr (Conn.step_eq_none_iff h e)) events Conn.Sound.new
  rw [Conn.run, foldlM_ne_none_iff, hsteps]
  exact and_iff_left hrange

/-- A stream that has all the credit there can be, and a setting that gives it more. -/
theorem overflow_ends_process : Conn.new.run postLibs [.arrive (clientPreface ++ postHeaders ++
        [0, 0, 4, 8, 0, 0, 0, 0, 1, 0x7f, 0xff, 0, 0] ++
        [0, 0, 6, 4, 0, 0, 0, 0, 0, 0, 4, 0, 1, 0, 0]),
        .frame plainEnv, .frame plainEnv, .frame plainEnv] = none := rfl

end M6.Http2
