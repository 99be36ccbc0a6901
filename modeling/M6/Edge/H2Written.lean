import M6.Edge.H2Outcome

/-!
# The frames that the outbound HTTP/2 client writes

Two kinds of frames are looked for in what a connection has written: HEADERS, which open streams,
and
WINDOW_UPDATE, which give back credit. `Adds` says that an operation writes neither. The frames of
the peer other than DATA are taken in such an operation (`onFrame_adds`), and DATA is one once what
it carries was granted (`onData_adds`). What is left is the dispatch of a request
(`dispatch_adds`).
-/

namespace M6

namespace ClientConn

variable {hp : Hpack}

/-- A frame that neither opens a stream nor grants credit. -/
def Aside (f : Frame) : Prop := f.ftype ≠ .headers ∧ f.ftype ≠ .windowUpdate

/-- Only such frames were written on the way from `c` to `c'`. -/
def Adds (c c' : ClientConn hp) : Prop := ∃ w, c'.sendBuf = c.sendBuf ++ w ∧ ∀ f ∈ w, Aside f

theorem Adds.of_eq {c c' : ClientConn hp} (h : c'.sendBuf = c.sendBuf) : Adds c c' :=
  ⟨[], by rw [h, List.append_nil], fun _ hf => absurd hf List.not_mem_nil⟩

theorem Adds.refl (c : ClientConn hp) : Adds c c := Adds.of_eq rfl

theorem Adds.trans {c c' c'' : ClientConn hp} (h : Adds c c') (h' : Adds c' c'') : Adds c c'' := by
  obtain ⟨w, hbuf, hw⟩ := h
  obtain ⟨w', hbuf', hw'⟩ := h'
  refine ⟨w ++ w', by rw [hbuf', hbuf, List.append_assoc], fun f hf => ?_⟩
  exact (List.mem_append.mp hf).elim (hw f) (hw' f)

theorem pushFrame_adds (c : ClientConn hp) {ftype : FrameType} (flags : UInt8) (id : Nat)
    (payload : Bytes) (h : ftype ≠ .headers ∧ ftype ≠ .windowUpdate) :
    Adds c (c.pushFrame ftype flags id payload) :=
  ⟨[⟨ftype, flags, id % 2 ^ 31, payload⟩], rfl, fun f hf => by
    rw [List.mem_singleton.mp hf]
    exact h⟩

/-! ## The pump -/

theorem sendChunk_adds (c : ClientConn hp) (id : Nat) (s : ClientStream) (n : Nat) :
    Adds c (c.sendChunk id s n) := by
  refine Adds.trans (Adds.of_eq ?_) (pushFrame_adds _ _ id _ ⟨by decide, by decide⟩)
  rfl

theorem adds_byChunks : ByChunks fun c c' : ClientConn hp => Adds c c' where
  refl := Adds.refl
  trans := Adds.trans
  chunk {c id s} _ _ _ := sendChunk_adds c id s _

/-! ## Frames of the peer -/

theorem applySetting_adds (kind : ClientKind) (c : ClientConn hp) (p : Nat × Nat) :
    Adds c (applySetting kind c p) := by
  rw [applySetting.eq_def]
  split
  · dsimp only
    split_ifs
    all_goals exact Adds.of_eq rfl
  · split_ifs
    · exact Adds.of_eq rfl
    · exact Adds.refl c
  · exact Adds.refl c

theorem applySettings_adds (kind : ClientKind) (pairs : List (Nat × Nat)) (c : ClientConn hp) :
    Adds c (applySettings kind c pairs) := by
  induction pairs generalizing c with
  | nil => exact Adds.refl c
  | cons p pairs ih =>
    rw [applySettings]
    split_ifs
    · exact applySetting_adds kind c p
    · exact (applySetting_adds kind c p).trans (ih _)

theorem updateStream_adds (c : ClientConn hp) (id : Nat) (f : ClientStream → ClientStream) :
    Adds c (c.updateStream id f) := by
  rw [updateStream]
  split
  · exact Adds.of_eq rfl
  · exact Adds.refl c

theorem resolve_adds (c : ClientConn hp) (id : Nat) (answer : Except Str HttpResponse) :
    Adds c (c.resolve id answer) := Adds.of_eq rfl

theorem completeStream_adds (kind : ClientKind) (c : ClientConn hp) (id : Nat) :
    Adds c (c.completeStream kind id) := by
  rw [completeStream]
  split
  · exact Adds.refl c
  · have hremove : Adds c (c.removeStream id) := Adds.of_eq rfl
    refine Adds.trans ?_ (resolve_adds _ id _)
    split_ifs
    · exact hremove.trans (pushFrame_adds _ 0 id _ ⟨by decide, by decide⟩)
    · exact hremove

theorem byParts_adds (kind : ClientKind) : ByParts kind fun c c' : ClientConn hp => Adds c c' where
  refl := Adds.refl
  trans := Adds.trans
  dead _ _ := Adds.of_eq rfl
  addBlock _ _ := Adds.of_eq rfl
  taken _ := Adds.of_eq rfl
  expect _ _ := Adds.of_eq rfl
  update c id _ _ := updateStream_adds c id _
  complete := completeStream_adds kind

theorem onConnCredit_adds (kind : ClientKind) (iter : Iter hp) (c : ClientConn hp) (n : Nat) :
    Adds c (c.onConnCredit kind iter n) := by
  rw [onConnCredit]
  split_ifs
  · exact Adds.of_eq rfl
  · exact Adds.trans (Adds.of_eq rfl) (adds_byChunks.pumpAll iter _)
  · exact Adds.of_eq rfl

theorem onStreamCredit_adds (c : ClientConn hp) (id n : Nat) : Adds c (c.onStreamCredit id n) := by
  have hreset : ∀ payload, Adds c ((c.pushFrame .rstStream 0 id payload).removeStream id) :=
    fun payload => (pushFrame_adds c 0 id payload ⟨by decide, by decide⟩).trans (Adds.of_eq rfl)
  rw [onStreamCredit]
  split_ifs
  · exact hreset _
  · split
    · exact Adds.refl c
    · split_ifs
      · exact Adds.trans (Adds.of_eq rfl) (adds_byChunks.pumpStream _ id)
      · exact hreset _

/-- **A frame of the peer that is not DATA** neither opens a stream nor grants credit. -/
theorem onFrame_adds (kind : ClientKind) (iter : Iter hp) (c : ClientConn hp) {f : Frame}
    (hdata : f.ftype ≠ .data) : Adds c (c.onFrame kind iter f) := by
  cases hf : f.ftype with
  | settings =>
    simp only [onFrame, hf]
    split_ifs
    · exact Adds.refl c
    · exact applySettings_adds kind _ c
    · refine Adds.trans ?_ (adds_byChunks.pumpAll iter _)
      refine (applySettings_adds kind (settingsPairs f.payload) c).trans ?_
      exact pushFrame_adds _ flagAck 0 [] ⟨by decide, by decide⟩
  | headers =>
    simp only [onFrame, hf]
    split_ifs
    · exact (byParts_adds kind).onHeaders c f
    · exact Adds.refl c
  | continuation =>
    simp only [onFrame, hf]
    split_ifs
    · exact (byParts_adds kind).onContinuation c f
    · exact Adds.refl c
  | data => exact absurd hf hdata
  | rstStream =>
    simp only [onFrame, hf]
    split_ifs
    · split
      · exact Adds.refl c
      · exact Adds.of_eq rfl
    · exact Adds.refl c
  | goaway =>
    simp only [onFrame, hf]
    exact Adds.of_eq rfl
  | ping =>
    simp only [onFrame, hf]
    split_ifs
    · exact pushFrame_adds c flagAck 0 f.payload ⟨by decide, by decide⟩
    · exact Adds.refl c
  | windowUpdate =>
    simp only [onFrame, hf]
    split
    · exact Adds.refl c
    · split_ifs
      · exact onConnCredit_adds kind iter c _
      · exact onStreamCredit_adds c f.stream _
  | other code =>
    simp only [onFrame, hf]
    exact Adds.refl c

/-- **A DATA frame** does no more, once what it carries was granted. -/
theorem onData_adds (kind : ClientKind) (c : ClientConn hp) (f : Frame) :
    Adds (c.credited f) (c.onData kind f) :=
  (byParts_adds kind).onData c f

/-! ## Requests -/

/-- **A request** opens its stream, and no other. -/
theorem dispatch_adds (kind : ClientKind) {c : ClientConn hp} (halive : c.isDead = false)
    (d : Dispatch) : Adds (openStream kind c d) (dispatch kind c d).2 := by
  rw [dispatch, halive, if_neg Bool.false_ne_true]
  exact adds_byChunks.pumpStream _ c.nextStreamId

theorem dispatch_alive (kind : ClientKind) (c : ClientConn hp) (d : Dispatch) :
    (dispatch kind c d).2.isDead = c.isDead := by
  rw [dispatch]
  split_ifs
  · rfl
  · exact (pumpStream_sendOnly _ _).alive

theorem dispatch_next (kind : ClientKind) {c : ClientConn hp} (halive : c.isDead = false)
    (d : Dispatch) : (dispatch kind c d).2.nextStreamId = c.nextStreamId + 2 := by
  rw [dispatch, halive, if_neg Bool.false_ne_true]
  exact (pumpStream_sendOnly _ _).next

end ClientConn

end M6
