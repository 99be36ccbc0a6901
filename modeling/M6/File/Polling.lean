import M6.File.Tail

/-!
# Following a log file

A client that follows a log file starts with any request and then asks for the offset that the last
answer named in its `X-Log-End`. The file is appended to between the requests and while one is
answered.

`Follows` is what the client knows: what it has received is a piece of the file, and the offset it
asks for next is the end of that piece. One answer keeps it (`Follows.poll`), because each names the
end of what it sends (`tailSlice_spec`); so no byte is missing or comes twice (`follows_run`). An
offset of 0, which asks for lines as well when a number of lines is given, is only ever asked for
while nothing has been received.
-/

namespace M6

open List M6.App Lines

/-! ## What an answer names -/

theorem cutFrom_le (n : Nat) (buf : Bytes) (i found : Nat) : cutFrom n buf i found ≤ i := by
  induction i generalizing found with
  | zero => exact Nat.le_refl 0
  | succ i ih =>
    rw [cutFrom]
    split_ifs
    · exact Nat.le_refl _
    all_goals exact (ih _).trans (Nat.le_succ i)

structure Piece (content : Bytes) (start : Nat) (piece : Bytes) : Prop where
  inside : start + piece.length ≤ content.length
  bytes : piece = (content.drop start).take piece.length

theorem Piece.grow {content piece : Bytes} {start : Nat} (h : Piece content start piece)
    (more : Bytes) : Piece (content ++ more) start piece where
  inside := by
    have := h.inside
    rw [length_append]
    omega
  bytes := by
    have hin := h.inside
    rw [drop_append_of_le_length (by omega), take_append_of_le_length, ← h.bytes]
    rw [length_drop]
    omega

theorem Piece.nil {content : Bytes} {start : Nat} (h : start ≤ content.length) :
    Piece content start [] := ⟨h, rfl⟩

theorem Piece.append {content piece more : Bytes} {start : Nat} (h : Piece content start piece)
    (hmore : Piece content (start + piece.length) more) : Piece content start (piece ++ more) where
  inside := by
    have := hmore.inside
    rw [length_append]
    omega
  bytes := by
    rw [length_append, take_add, ← h.bytes, drop_drop, ← hmore.bytes]

theorem piece_readToEnd {content : Bytes} {pos : Nat} (hpos : pos ≤ content.length) (left : Nat)
    (calls : List ReadCall) :
    Piece (content ++ appendedIn calls) pos (readToEnd content pos left calls) where
  inside := by
    have h := (prefix_readToEnd content pos left calls).length_le
    rw [length_drop] at h
    rw [length_append] at h ⊢
    omega
  bytes := prefix_iff_eq_take.mp (prefix_readToEnd content pos left calls)

theorem Piece.drop {content piece : Bytes} {start : Nat} (h : Piece content start piece) {k : Nat}
    (hk : k ≤ piece.length) : Piece content (start + k) (piece.drop k) where
  inside := by
    have := h.inside
    rw [length_drop]
    omega
  bytes := by
    conv_lhs => rw [h.bytes]
    rw [drop_take, drop_drop, length_drop]

/-- **What an answer names**: the end of the piece it sends. The piece begins at the offset, or at
the end of the file if that comes first, unless the last lines are asked for. -/
theorem tailSlice_spec (offset n : Nat) (content : Bytes) (calls : List ReadCall) :
    ∃ start, Piece (content ++ appendedIn calls) start (tailSlice offset n content calls).1 ∧
      (tailSlice offset n content calls).2 = start + (tailSlice offset n content calls).1.length ∧
      (offset = 0 ∧ 0 < n ∨ start = min offset content.length) := by
  rw [tailSlice]
  generalize tailLookback = room
  split_ifs with hlines
  · dsimp only
    generalize hback : min room content.length = lookback
    have hle : lookback ≤ content.length := hback ▸ Nat.min_le_right _ _
    generalize hbuf : readToEnd content (content.length - lookback) lookback calls = buf
    have hpiece := piece_readToEnd (Nat.sub_le content.length lookback) lookback calls
    have hlen : buf.length = lookback := by
      have hmax := length_readToEnd_le content (content.length - lookback) lookback calls
      have hmin := le_length_readToEnd content (content.length - lookback) lookback calls
      rw [hbuf] at hmax hmin
      omega
    have hcut : cutFrom n buf (scanEnd buf) 0 ≤ buf.length := by
      refine (cutFrom_le n buf (scanEnd buf) 0).trans ?_
      rw [scanEnd]
      split_ifs <;> omega
    rw [hbuf] at hpiece
    refine ⟨_, hpiece.drop hcut, ?_, .inl hlines⟩
    rw [length_drop]
    omega
  · exact ⟨_, piece_readToEnd (Nat.min_le_right _ _) maxTailBytes calls, rfl, .inr rfl⟩

/-! ## The client and the file -/

/-- A client that follows the file. -/
structure Follower where
  /-- the `X-Log-End` of the last answer -/
  logEnd : Option Str
  /-- the bodies of the answers, in order -/
  bodies : List Bytes

/-- The query of its next request: any for the first one, then the offset it was told, perhaps with
more parameters. -/
def Follower.query (first : Str) (more : Option Str) (c : Follower) : Str :=
  match c.logEnd with
  | none => first
  | some logEnd => "offset=".toList ++ logEnd ++ (more.map ('&' :: ·)).getD []

/-- An answer with an `X-Log-End` is kept; any other is none to go on from. -/
def Follower.receive (c : Follower) (answer : Except Error AppResponse) : Follower :=
  match answer with
  | .error _ => c
  | .ok resp =>
    match header resp.headers "X-Log-End".toList, resp.body with
    | some logEnd, .bytes body => ⟨some logEnd, c.bodies ++ [body]⟩
    | _, _ => c

def Follower.received (c : Follower) : Bytes := c.bodies.flatten

structure Following where
  content : Bytes
  client : Follower

/-- What happens: the file is appended to, or the client asks. -/
inductive LogEvent where
  | append (bytes : Bytes)
  | poll (more : Option Str) (access : Access)

def LogEvent.appended : LogEvent → Bytes
  | append bytes => bytes
  | poll _ access => appendedIn access.calls

section

variable (mimeFromPath : Str → Str) (fsPath first : Str)

def Following.step (s : Following) (e : LogEvent) : Following where
  content := s.content ++ e.appended
  client :=
    match e with
    | .append _ => s.client
    | .poll more access =>
      s.client.receive
        (serveTail mimeFromPath (s.client.query first more) fsPath s.content access)

/-- A history of a log file from the first request on. An offset is 64 bits, so a file has no
more bytes than it can count. -/
structure LogHistory where
  start : Bytes
  events : List LogEvent
  counted : (start ++ events.flatMap LogEvent.appended).length < 2 ^ 64

/-- The file and the client at the end of it. -/
def LogHistory.result (h : LogHistory) : Following :=
  h.events.foldl (Following.step mimeFromPath fsPath first) ⟨h.start, ⟨none, []⟩⟩

end

/-- **The client misses nothing**: what it has received is one piece of the file, and it goes on
where the piece ends. -/
def Follows (s : Following) : Prop :=
  ∃ start, Piece s.content start s.client.received ∧
    match s.client.logEnd with
    | none => s.client.bodies = []
    | some logEnd => logEnd = decimal (start + s.client.received.length)

/-! ## One event, and all of them -/

variable {mimeFromPath : Str → Str} {fsPath first : Str}

theorem Follows.grow {s : Following} (h : Follows s) (more : Bytes) :
    Follows ⟨s.content ++ more, s.client⟩ := by
  obtain ⟨start, hpiece, hend⟩ := h
  exact ⟨start, hpiece.grow more, hend⟩

variable (mimeFromPath fsPath) in
theorem receive_serveTail (c : Follower) (query : Str) (content : Bytes) (access : Access) :
    c.receive (serveTail mimeFromPath query fsPath content access) = c ∨
      c.receive (serveTail mimeFromPath query fsPath content access) =
        let slice := tailSlice (queryNumber "offset".toList query) (queryNumber "n".toList query)
          content access.calls
        ⟨some (decimal slice.2), c.bodies ++ [slice.1]⟩ := by
  rw [serveTail]
  split
  · exact .inl rfl
  · exact .inl rfl
  · exact .inr rfl

theorem Follows.answered {s : Following} (h : Follows s) (hsize : s.content.length < 2 ^ 64)
    (more : Option Str) (calls : List ReadCall) :
    let query := s.client.query first more
    let slice := tailSlice (queryNumber "offset".toList query) (queryNumber "n".toList query)
      s.content calls
    Follows ⟨s.content ++ appendedIn calls,
      ⟨some (decimal slice.2), s.client.bodies ++ [slice.1]⟩⟩ := by
  intro query slice
  obtain ⟨start, hpiece, hend⟩ := h
  obtain ⟨start', hslice, hend', hfrom⟩ := tailSlice_spec (queryNumber "offset".toList query)
    (queryNumber "n".toList query) s.content calls
  have hreceived : ∀ e, Follower.received ⟨e, s.client.bodies ++ [slice.1]⟩ =
      s.client.received ++ slice.1 := by
    intro e
    simp [Follower.received]
  -- an answer that follows nothing begins a piece of its own
  have hfresh : s.client.received = [] → Follows
      ⟨s.content ++ appendedIn calls, ⟨some (decimal slice.2), s.client.bodies ++ [slice.1]⟩⟩ := by
    intro hnone
    refine ⟨start', ?_, ?_⟩
    · rw [hreceived, hnone, nil_append]
      exact hslice
    · dsimp only
      rw [hreceived, hnone, nil_append, ← hend']
  cases hlog : s.client.logEnd with
  | none =>
    rw [hlog] at hend
    exact hfresh (by rw [Follower.received, hend]; rfl)
  | some logEnd =>
    rw [hlog] at hend
    have hinside := hpiece.inside
    have hoffset : queryNumber "offset".toList query = start + s.client.received.length := by
      have hquery : query = offsetQuery (start + s.client.received.length) more := by
        rw [show query = s.client.query first more from rfl, Follower.query, hlog, hend]
        rfl
      rw [hquery, queryNumber_offset, if_pos (Nat.lt_of_le_of_lt hinside hsize)]
    rcases hfrom with ⟨hzero, -⟩ | hstart
    · exact hfresh (eq_nil_of_length_eq_zero (by omega))
    · rw [hoffset, Nat.min_eq_left hinside] at hstart
      subst hstart
      refine ⟨start, ?_, ?_⟩
      · rw [hreceived]
        exact (hpiece.grow _).append hslice
      · dsimp only
        rw [hreceived, length_append, ← Nat.add_assoc, ← hend']

/-- **One event keeps it.** -/
theorem Follows.step {s : Following} (h : Follows s) (hsize : s.content.length < 2 ^ 64)
    (e : LogEvent) : Follows (s.step mimeFromPath fsPath first e) := by
  cases e with
  | append bytes => exact h.grow bytes
  | poll more access =>
    rcases receive_serveTail mimeFromPath fsPath s.client
      (s.client.query first more) s.content access with hsame | hslice
    · rw [Following.step, hsame]
      exact h.grow _
    · rw [Following.step, hslice]
      exact h.answered hsize more access.calls

/-- **A client that follows a log file receives one piece of it**, whatever is appended between and
during its requests: every history, every first request. -/
theorem follows_run (mimeFromPath : Str → Str) (fsPath first : Str) (history : LogHistory) :
    Follows (history.result mimeFromPath fsPath first) := by
  obtain ⟨start, events, hcounted⟩ := history
  rw [LogHistory.result]
  dsimp only
  have hstart : Follows ⟨start, ⟨none, []⟩⟩ := ⟨0, Piece.nil (Nat.zero_le _), rfl⟩
  revert hstart hcounted
  generalize (⟨none, []⟩ : Follower) = client
  induction events generalizing start client with
  | nil => exact fun _ h => h
  | cons e events ih =>
    intro hcounted h
    rw [flatMap_cons, ← append_assoc] at hcounted
    rw [foldl_cons]
    refine ih _ _ hcounted (h.step ?_ e)
    rw [length_append, length_append] at hcounted
    dsimp only
    omega

/-- The last line is asked for first. Then the file grows, while nobody asks, in the middle of an
answer, and at a request that fails. -/
def fourPolls : List LogEvent :=
  [.poll none ⟨[], none⟩, .append (Utf8.encode "three\n".toList),
    .poll none ⟨[⟨[], 4⟩, ⟨Utf8.encode "fo".toList, 64⟩], none⟩,
    .poll none ⟨[⟨Utf8.encode "ur".toList, 1⟩], some (.failed "read".toList)⟩,
    .poll (some "n=9".toList) ⟨[], none⟩]

theorem fourPolls_counted :
    (Utf8.encode "one\ntwo\n".toList ++ fourPolls.flatMap LogEvent.appended).length < 2 ^ 64 := by
  decide

def fourLines : LogHistory := ⟨Utf8.encode "one\ntwo\n".toList, fourPolls, fourPolls_counted⟩

theorem follows_fourLines :
    Follows (fourLines.result (fun _ => []) "/log".toList "n=1".toList) ∧
      (fourLines.result (fun _ => []) "/log".toList "n=1".toList).client.bodies =
        ["two\n", "three\nfo", "ur"].map fun body => Utf8.encode body.toList := by
  refine ⟨follows_run _ _ _ fourLines, ?_⟩
  decide +kernel

end M6
