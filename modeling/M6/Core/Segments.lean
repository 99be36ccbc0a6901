import M6.Core.Parse
import M6.Lib.Sampling

/-!
# How a request is cut into reads

`parse_request` of `parse.rs` reads a stream piece by piece, and looks at what it has after each
read. The parser of `h1.rs` does not mind where the pieces end (`parseRequest_append`), but the caps
and the check of `Expect` see only what is there when a read has come, and while it is not a request
yet. So where the reads fall may decide between a refusal and a request.

`Steady` says of which streams this is not so: `same_outcome_iff`.
-/

namespace M6

open List H1 Sampling Option

variable (lib : Httparse)

/-! ## Reads -/

def readSize : Nat := 1024

inductive StreamEnd where
  | eof
  | timedOut
  | failed

def StreamEnd.read : StreamEnd → StreamRead
  | .eof => .eof
  | .timedOut => .timedOut
  | .failed => .failed

/-- The pieces that a stream comes in: none is empty, and none is larger than a read. -/
def IsCut (bytes : Bytes) (cuts : List Bytes) : Prop :=
  cuts.flatten = bytes ∧ ∀ piece ∈ cuts, piece ≠ [] ∧ piece.length ≤ readSize

/-- What a caller gets of a request. That the client was told to go on is not part of it. -/
inductive ReadOutcome where
  | request (raw : RawRequest)
  | refused (e : ParseError)
  | closed
  | waiting
  | aborts

def Arrival.outcome : Arrival → ReadOutcome
  | .request _ raw => .request raw
  | .refused _ e => .refused e
  | .closed => .closed

def Incoming.outcome : Incoming → ReadOutcome
  | .arrived a _ _ => a.outcome
  | .waiting => .waiting
  | .aborts => .aborts

/-- What `parse_request` makes of a stream that comes in pieces and then ends. -/
def outcome (cuts : List Bytes) (fin : StreamEnd) : ReadOutcome :=
  (readRequest lib (cuts.map .data ++ [fin.read])).outcome

def Pass.verdict : Pass → Option ReadOutcome
  | .done a => some a.outcome
  | .aborts => some .aborts
  | .read _ _ => none

def verdict (buf : Bytes) : Option ReadOutcome := (pass lib buf false false).verdict

def StreamEnd.outcome (fin : StreamEnd) (n : Nat) : ReadOutcome :=
  match fin with
  | .eof => if n = 0 then .closed else .refused .invalidRequestLine
  | .timedOut => if n = 0 then .closed else .refused .requestTimeout
  | .failed => .refused .io

def Answered (answered : Bool) (buf : Bytes) : Prop :=
  answered = true → ∃ e, expectation buf = some e ∧ e ≠ .unsupported

variable {lib}

variable {buf : Bytes} {answered : Bool}

theorem Answered.append (h : Answered answered buf) (more : Bytes) :
    Answered answered (buf ++ more) := by
  intro ha
  obtain ⟨e, he, hne⟩ := h ha
  exact ⟨e, expectation_append he more, hne⟩

theorem verdict_pass (h : Answered answered buf)
    (continued : Bool) : (pass lib buf answered continued).verdict = verdict lib buf := by
  rw [verdict, pass, pass]
  cases parseRequest lib buf with
  | complete req | error | aborts => rfl
  | incomplete =>
    simp only
    by_cases hcap : readCap buf < buf.length
    · rw [if_pos hcap, if_pos hcap]
      rfl
    rw [if_neg hcap, if_neg hcap]
    cases answered with
    | false =>
      cases expectation buf with
      | none => rfl
      | some e => cases e <;> rfl
    | true =>
      obtain ⟨e, he, hne⟩ := h rfl
      rw [he]
      cases e with
      | absent | continues => rfl
      | unsupported => exact absurd rfl hne

theorem answered_pass {answered continued answered' continued' : Bool} (h : Answered answered buf)
    (hpass : pass lib buf answered continued = .read answered' continued') :
    Answered answered' buf := by
  rw [pass] at hpass
  cases hparse : parseRequest lib buf with
  | complete req | error | aborts =>
    rw [hparse] at hpass
    cases hpass
  | incomplete =>
    rw [hparse] at hpass
    simp only at hpass
    split_ifs at hpass with hcap ha
    · obtain ⟨rfl, -⟩ := Pass.read.inj hpass
      exact fun _ => h ha
    · cases he : expectation buf with
      | none =>
        rw [he] at hpass
        obtain ⟨rfl, -⟩ := Pass.read.inj hpass
        exact fun hfalse => absurd hfalse Bool.false_ne_true
      | some e =>
        rw [he] at hpass
        cases e with
        | absent => exact fun _ => ⟨.absent, he, Expectation.noConfusion⟩
        | continues => exact fun _ => ⟨.continues, he, Expectation.noConfusion⟩
        | unsupported => cases hpass

/-- **One read.** If the bytes decide, that is the outcome; otherwise it is that of what follows. -/
theorem readFrom_data (lib : Httparse) (piece : Bytes)
    (h : Answered answered buf) (continued : Bool) :
    (∃ x, verdict lib (buf ++ piece) = some x ∧ ∀ rest,
      (readFrom lib buf answered continued (.data piece :: rest)).outcome = x) ∨
    ∃ answered' continued', verdict lib (buf ++ piece) = none ∧
      Answered answered' (buf ++ piece) ∧ ∀ rest,
      readFrom lib buf answered continued (.data piece :: rest) =
        readFrom lib (buf ++ piece) answered' continued' rest := by
  have hverdict : (pass lib (buf ++ piece) answered continued).verdict =
    verdict lib (buf ++ piece) :=
    verdict_pass (h.append piece) continued
  cases hpass : pass lib (buf ++ piece) answered continued with
  | done a | aborts =>
    rw [hpass] at hverdict
    refine .inl ⟨_, hverdict.symm, fun rest => ?_⟩
    rw [readFrom, hpass]
    rfl
  | read answered' continued' =>
    rw [hpass] at hverdict
    refine .inr ⟨answered', continued', hverdict.symm, answered_pass (h.append piece) hpass,
      fun rest => ?_⟩
    rw [readFrom, hpass]

theorem readFrom_end (buf : Bytes) (answered continued : Bool) (fin : StreamEnd) :
    (readFrom lib buf answered continued [fin.read]).outcome = fin.outcome buf.length := by
  cases fin <;> cases buf <;> simp [readFrom, StreamEnd.read, StreamEnd.outcome, Incoming.outcome,
    Arrival.outcome]

/-! ## Every way to cut -/

variable (lib) in
def decided (bytes : Bytes) (n : Nat) : Option ReadOutcome := verdict lib (bytes.take n)

variable (lib) in
abbrev MayCome (bytes : Bytes) (fin : StreamEnd) : Nat → ReadOutcome → Prop :=
  Comes (decided lib bytes) readSize bytes.length (fin.outcome bytes.length)

variable {bytes : Bytes} {fin : StreamEnd}

variable {i : Nat}

theorem comes_of_cuts {cuts : List Bytes} (hi : i ≤ bytes.length)
    (hcut : IsCut (bytes.drop i) cuts) (h : Answered answered (bytes.take i)) (continued : Bool) :
    MayCome lib bytes fin i
      (readFrom lib (bytes.take i) answered continued (cuts.map .data ++ [fin.read])).outcome := by
  induction cuts generalizing i answered continued with
  | nil =>
    have hend : i = bytes.length := by
      have hlen := congrArg List.length hcut.1
      rw [flatten_nil, length_nil, length_drop] at hlen
      omega
    subst hend
    have hlen : (bytes.take bytes.length).length = bytes.length := by rw [take_length]
    rw [map_nil, nil_append, readFrom_end, hlen]
    exact .ended
  | cons piece cuts ih =>
    obtain ⟨hne, hsize⟩ := hcut.2 piece mem_cons_self
    have hsplit : bytes.drop i = piece ++ cuts.flatten := hcut.1.symm
    have hpos : 0 < piece.length := length_pos_iff.mpr hne
    have hlen : i + piece.length ≤ bytes.length := by
      have hlen := congrArg List.length hsplit
      rw [length_drop, length_append] at hlen
      omega
    have htake : bytes.take (i + piece.length) = bytes.take i ++ piece := by
      rw [take_add, hsplit, take_left]
    have hrest : IsCut (bytes.drop (i + piece.length)) cuts := by
      refine ⟨?_, fun p hp => hcut.2 p (mem_cons_of_mem _ hp)⟩
      rw [← drop_drop, hsplit, drop_left]
    rw [map_cons, cons_append]
    obtain ⟨x, hx, hout⟩ | ⟨answered', continued', hx, hans, hout⟩ :=
      readFrom_data lib piece h continued
    · rw [hout]
      refine .decided (Nat.lt_add_of_pos_right hpos) (Nat.add_le_add_left hsize i) hlen ?_
      rw [decided, htake, hx]
    · rw [hout]
      refine .onwards (Nat.lt_add_of_pos_right hpos) (Nat.add_le_add_left hsize i) hlen ?_ ?_
      · rw [decided, htake, hx]
      · rw [← htake]
        exact ih hlen hrest (by rwa [htake]) continued'

theorem isCut_singletons (bytes : Bytes) : IsCut bytes (bytes.map fun b => [b]) := by
  refine ⟨?_, fun piece hp => ?_⟩
  · induction bytes with
    | nil => rfl
    | cons b rest ih => exact congrArg (b :: ·) ih
  · obtain ⟨b, -, rfl⟩ := mem_map.mp hp
    exact ⟨cons_ne_nil _ _, by simp [readSize]⟩

theorem IsCut.cons {i k : Nat} (hik : i < k) (hnear : k ≤ i + readSize) (hk : k ≤ bytes.length)
    {cuts : List Bytes} (h : IsCut (bytes.drop k) cuts) :
    IsCut (bytes.drop i) ((bytes.drop i).take (k - i) :: cuts) ∧
      bytes.take i ++ (bytes.drop i).take (k - i) = bytes.take k := by
  have hlen : ((bytes.drop i).take (k - i)).length = k - i := by
    rw [length_take, length_drop]
    omega
  have hrest : (bytes.drop i).drop (k - i) = bytes.drop k := by
    rw [drop_drop]
    congr 1
    omega
  refine ⟨⟨?_, fun piece hp => ?_⟩, ?_⟩
  · rw [flatten_cons, h.1, ← hrest, take_append_drop]
  · obtain rfl | hp := mem_cons.mp hp
    · exact ⟨ne_nil_of_length_pos (by omega), by omega⟩
    · exact h.2 piece hp
  · rw [← take_add]
    congr 1
    omega

variable {x : ReadOutcome}

theorem cuts_of_comes (h : MayCome lib bytes fin i x)
    (hans : Answered answered (bytes.take i)) (continued : Bool) :
    ∃ cuts, IsCut (bytes.drop i) cuts ∧ (readFrom lib (bytes.take i) answered continued
        (cuts.map .data ++ [fin.read])).outcome = x := by
  induction h generalizing answered continued with
  | ended =>
    refine ⟨[], ⟨by rw [drop_length]; rfl, fun p hp => nomatch hp⟩, ?_⟩
    have hlen : (bytes.take bytes.length).length = bytes.length := by rw [take_length]
    rw [map_nil, nil_append, readFrom_end, hlen]
  | decided lt near le here =>
    rename_i i k x
    obtain ⟨hcut, htake⟩ := IsCut.cons lt near le (isCut_singletons (bytes.drop k))
    refine ⟨_, hcut, ?_⟩
    rw [decided, ← htake] at here
    obtain ⟨x', hx', hout⟩ | ⟨_, _, hnone, -⟩ := readFrom_data lib _ hans continued
    · exact (hout _).trans (some.inj (hx'.symm.trans here))
    · exact nomatch here.symm.trans hnone
  | onwards lt near le here rest ih =>
    rename_i i k x
    have htake := (IsCut.cons lt near le (isCut_singletons (bytes.drop k))).2
    rw [decided, ← htake] at here
    obtain ⟨x', hx', -⟩ | ⟨answered', continued', -, hans', hout⟩ :=
      readFrom_data lib _ hans continued
    · exact nomatch here.symm.trans hx'
    · rw [htake] at hans' hout
      obtain ⟨cuts, hcuts, hrest⟩ := ih hans' continued'
      exact ⟨_, (IsCut.cons lt near le hcuts).1, (congrArg _ (hout _)).trans hrest⟩

/-- **What may come of a stream**, from its beginning. -/
theorem comes_iff_cuts :
    MayCome lib bytes fin 0 x ↔ ∃ cuts, IsCut bytes cuts ∧ outcome lib cuts fin = x := by
  have hstart : ∀ cuts : List Bytes, outcome lib cuts fin =
      (readFrom lib (bytes.take 0) false false (cuts.map .data ++ [fin.read])).outcome := by
    intro cuts
    rw [outcome, readRequest, pass_nil, take_zero]
  have hans : Answered false (bytes.take 0) := fun hfalse => absurd hfalse Bool.false_ne_true
  constructor
  · intro h
    obtain ⟨cuts, hcuts, hout⟩ := cuts_of_comes h hans false
    exact ⟨cuts, hcuts, (hstart cuts).trans hout⟩
  · rintro ⟨cuts, hcuts, rfl⟩
    rw [hstart]
    exact comes_of_cuts (Nat.zero_le _) hcuts hans false

/-! ## What a look decides -/

def maxMessageBytes : Nat := maxHeaderBytes + maxBodyBytes

variable (lib bytes) in
def Settled (n : Nat) : Prop := parseRequest lib (bytes.take n) ≠ .incomplete

/-- What a caller gets of what the parser makes of a buffer. -/
def parsed : ParseResult → Option ReadOutcome
  | .complete req => some (.request req)
  | .error => some (.refused .invalidHeader)
  | .aborts => some .aborts
  | .incomplete => none

def tooLarge : ReadOutcome := .refused .requestTooLarge

theorem take_min (n : Nat) : bytes.take (min bytes.length n) = bytes.take n := by
  obtain hle | hlt := Nat.le_total n bytes.length
  · rw [Nat.min_eq_right hle]
  · rw [Nat.min_eq_left hlt, take_length, take_of_length_le hlt]

theorem take_append_of_le {n m : Nat} (h : n ≤ m) :
    bytes.take m = bytes.take n ++ (bytes.drop n).take (m - n) := by
  rw [← take_add]
  congr 1
  omega

theorem settled_min (n : Nat) : Settled lib bytes (min bytes.length n) ↔ Settled lib bytes n := by
  rw [Settled, take_min, Settled]

theorem Settled.mono {n m : Nat} (h : Settled lib bytes n) (hnm : n ≤ m) :
    Settled lib bytes m ∧ parseRequest lib (bytes.take m) = parseRequest lib (bytes.take n) := by
  have hsame : parseRequest lib (bytes.take m) = parseRequest lib (bytes.take n) := by
    rw [take_append_of_le hnm]
    exact parseRequest_append h _
  exact ⟨by rwa [Settled, hsame], hsame⟩

variable {n : Nat}

theorem decided_of_settled (h : Settled lib bytes n) :
    decided lib bytes n = parsed (parseRequest lib (bytes.take n)) := by
  rw [Settled] at h
  rw [decided, verdict, pass]
  cases hparse : parseRequest lib (bytes.take n) with
  | incomplete => exact absurd hparse h
  | complete req | error | aborts => rfl

/-- What the parser knows is one thing, and none of the refusals of `parse_request` itself. -/
theorem parsed_of_settled (h : Settled lib bytes n) :
    ∃ x, x ≠ tooLarge ∧ x ≠ .refused .expectationFailed ∧
      ∀ m, Settled lib bytes m → decided lib bytes m = some x := by
  have hall : ∀ m, Settled lib bytes m →
      decided lib bytes m = parsed (parseRequest lib (bytes.take n)) := by
    intro m hm
    rw [decided_of_settled hm]
    obtain hle | hle := Nat.le_total n m
    · rw [(h.mono hle).2]
    · rw [(hm.mono hle).2]
  rw [Settled] at h
  cases hparse : parseRequest lib (bytes.take n) with
  | incomplete => exact absurd hparse h
  | complete req =>
    rw [hparse] at hall
    exact ⟨.request req, (fun heq => nomatch heq), (fun heq => nomatch heq), hall⟩
  | error =>
    rw [hparse] at hall
    exact ⟨.refused .invalidHeader, (fun heq => nomatch heq), (fun heq => nomatch heq), hall⟩
  | aborts =>
    rw [hparse] at hall
    exact ⟨.aborts, (fun heq => nomatch heq), (fun heq => nomatch heq), hall⟩

theorem decided_of_not_settled (h : ¬ Settled lib bytes n) (hn : n ≤ bytes.length) :
    decided lib bytes n =
      if readCap (bytes.take n) < n then some tooLarge
      else if expectation (bytes.take n) = some .unsupported then
        some (.refused .expectationFailed)
      else none := by
  have hlen : (bytes.take n).length = n := by rw [length_take]; omega
  rw [decided, verdict, pass, not_not.mp h, hlen]
  simp only
  by_cases hcap : readCap (bytes.take n) < n
  · rw [if_pos hcap, if_pos hcap]
    rfl
  · rw [if_neg hcap, if_neg hcap, if_neg Bool.false_ne_true]
    cases expectation (bytes.take n) with
    | none => rfl
    | some e => cases e <;> rfl

/-! ## The head of a stream -/

theorem headEnd_length {d : Nat} (h : headEnd buf = some d) : d + 4 ≤ buf.length := by
  induction buf generalizing d with
  | nil => cases h
  | cons b rest ih =>
    rw [headEnd] at h
    split_ifs at h with hend
    · cases h
      have hlen := congrArg List.length hend
      simp only [length_take, length_cons, length_nil] at hlen ⊢
      omega
    · obtain ⟨k, hk, rfl⟩ := map_eq_some_iff.mp h
      have := ih hk
      rw [length_cons]
      omega

theorem headEnd_mono {n m d : Nat} (h : headEnd (bytes.take n) = some d) (hnm : n ≤ m) :
    headEnd (bytes.take m) = some d := by
  rw [take_append_of_le hnm]
  exact (headEnd_append h _).1

theorem expectation_mono {n m : Nat} {e : Expectation} (h : expectation (bytes.take n) = some e)
    (hnm : n ≤ m) : expectation (bytes.take m) = some e := by
  rw [take_append_of_le hnm]
  exact expectation_append h _

theorem expectation_of_head : headEnd buf = none ↔ expectation buf = none := by
  rw [expectation, map_eq_none_iff]

theorem readCap_of_head {d : Nat} (h : headEnd buf = some d) : readCap buf = maxMessageBytes := by
  rw [readCap, h]
  rfl

theorem readCap_of_no_head (h : headEnd buf = none) : readCap buf = maxHeaderBytes := by
  rw [readCap, h]
  rfl

/-! ## With the head read -/

variable (lib bytes) in
def Tame (i : Nat) : Prop :=
  ∀ m, i < m → m ≤ bytes.length → ¬ Settled lib bytes m →
    decided lib bytes m = if maxMessageBytes < m then some tooLarge else none

theorem outcome_ne_tooLarge (n : Nat) : fin.outcome n ≠ tooLarge := by
  cases fin with
  | failed => exact fun heq => nomatch heq
  | _ =>
    rw [StreamEnd.outcome]
    split_ifs <;> exact fun heq => nomatch heq

variable (fin) in
theorem tame_unique (htame : Tame lib bytes i) (hopen : ¬ Settled lib bytes i)
    (hsmall : bytes.length ≤ maxMessageBytes ∨ Settled lib bytes (maxMessageBytes + 1)) :
    ∃ a, a ≠ tooLarge ∧ ∀ x, MayCome lib bytes fin i x → x = a := by
  have hnone : ∀ k, i < k → k ≤ bytes.length → ¬ Settled lib bytes k →
      decided lib bytes k = none := by
    intro k hik hk hset
    have hcap : ¬ maxMessageBytes < k := by
      intro hlong
      obtain hsmall | hsmall := hsmall
      · omega
      · exact hset (hsmall.mono hlong).1
    rw [htame k hik hk hset, if_neg hcap]
  by_cases hN : Settled lib bytes bytes.length
  · obtain ⟨a, hlarge, -, hall⟩ := parsed_of_settled hN
    refine ⟨a, hlarge, fun x hx => comes_const hx (fun k y hik hk hy => ?_) fun hend => ?_⟩
    · by_cases hset : Settled lib bytes k
      · exact some.inj (hy.symm.trans (hall k hset))
      · exact nomatch hy.symm.trans (hnone k hik hk hset)
    · obtain hend | rfl := hend
      · exact nomatch hend.symm.trans (hall _ hN)
      · exact absurd hN hopen
  · refine ⟨fin.outcome bytes.length, outcome_ne_tooLarge _,
      fun x hx => comes_const hx (fun k y hik hk hy => ?_) fun _ => rfl⟩
    have hset : ¬ Settled lib bytes k := fun hset => hN (hset.mono hk).1
    exact nomatch hy.symm.trans (hnone k hik hk hset)

theorem tame_window (htame : Tame lib bytes i) (hi : i ≤ maxMessageBytes)
    (hlong : maxMessageBytes < bytes.length) (hset : ¬ Settled lib bytes (maxMessageBytes + 1)) :
    MayCome lib bytes fin i x ↔
      ∃ k, maxMessageBytes + 1 ≤ k ∧ k < maxMessageBytes + 1 + readSize ∧ k ≤ bytes.length ∧
        (decided lib bytes k = some x ∨
          decided lib bytes k = none ∧ MayCome lib bytes fin k x) := by
  refine comes_iff (by decide) (Nat.lt_succ_of_le hi) hlong fun k hik hk => ?_
  have hopen : ¬ Settled lib bytes k := fun h => hset (h.mono hk.le).1
  rw [htame k hik (by omega) hopen, if_neg (by omega)]

variable (fin) in
theorem tame_tooLarge_iff (htame : Tame lib bytes i) (hi : i ≤ maxMessageBytes)
    (hiN : i ≤ bytes.length) (hopen : ¬ Settled lib bytes i) :
    (∀ x, MayCome lib bytes fin i x → x = tooLarge) ↔
      maxMessageBytes < bytes.length ∧ ¬ Settled lib bytes (maxMessageBytes + readSize) := by
  constructor
  · intro h
    have hbig : ¬ (bytes.length ≤ maxMessageBytes ∨ Settled lib bytes (maxMessageBytes + 1)) := by
      intro hsmall
      obtain ⟨a, ha, hall⟩ := tame_unique fin htame hopen hsmall
      obtain ⟨x, hx⟩ : ∃ x, MayCome lib bytes fin i x := exists_comes (by decide) hiN
      exact ha ((hall x hx).symm.trans (h x hx))
    obtain ⟨hlong, hset⟩ := not_or.mp hbig
    refine ⟨not_le.mp hlong, fun hlate => ?_⟩
    obtain ⟨a, ha, -, hall⟩ := parsed_of_settled hlate
    have hmin : Settled lib bytes (min bytes.length (maxMessageBytes + readSize)) :=
      (settled_min _).mpr hlate
    refine ha (h a ((tame_window htame hi (not_le.mp hlong) hset).mpr
      ⟨_, ?_, ?_, Nat.min_le_left _ _, .inl (hall _ hmin)⟩))
    · simp only [readSize]; omega
    · omega
  · rintro ⟨hlong, hset⟩ x hx
    have hsets : ∀ k, k ≤ maxMessageBytes + readSize → ¬ Settled lib bytes k :=
      fun k hk h => hset (h.mono hk).1
    have hfirst : ¬ Settled lib bytes (maxMessageBytes + 1) := hsets _ (by simp [readSize])
    obtain ⟨k, hk, hkw, hkN, hhere | ⟨hhere, -⟩⟩ := (tame_window htame hi hlong hfirst).mp hx
    · rw [htame k (by omega) hkN (hsets k (by omega)), if_pos (by omega)] at hhere
      exact (some.inj hhere).symm
    · rw [htame k (by omega) hkN (hsets k (by omega)), if_pos (by omega)] at hhere
      exact nomatch hhere

variable (fin) in
theorem tame_const_iff (htame : Tame lib bytes i) (hi : i ≤ maxMessageBytes)
    (hiN : i ≤ bytes.length) (hopen : ¬ Settled lib bytes i) :
    (∀ x y, MayCome lib bytes fin i x → MayCome lib bytes fin i y → x = y) ↔
      (maxMessageBytes < bytes.length → ¬ Settled lib bytes (maxMessageBytes + 1) →
        ¬ Settled lib bytes (maxMessageBytes + readSize)) := by
  constructor
  · intro h hlong hset
    have hlarge : MayCome lib bytes fin i tooLarge := by
      refine (tame_window htame hi hlong hset).mpr
        ⟨maxMessageBytes + 1, le_rfl, by simp [readSize], hlong, .inl ?_⟩
      rw [htame _ (by omega) hlong hset, if_pos (Nat.lt_succ_self _)]
    exact ((tame_tooLarge_iff fin htame hi hiN hopen).mp fun x hx => h x tooLarge hx hlarge).2
  · intro h x y hx hy
    by_cases hsmall : bytes.length ≤ maxMessageBytes ∨ Settled lib bytes (maxMessageBytes + 1)
    · obtain ⟨a, -, hall⟩ := tame_unique fin htame hopen hsmall
      rw [hall x hx, hall y hy]
    · obtain ⟨hlong, hset⟩ := not_or.mp hsmall
      have hall := (tame_tooLarge_iff fin htame hi hiN hopen).mpr
        ⟨not_le.mp hlong, h (not_le.mp hlong) hset⟩
      rw [hall x hx, hall y hy]

/-! ## Near the limits -/

variable (lib bytes) in
/-- The parser still waits when the stream is past the cap by a whole read, or all there is: however
it is cut, it is found too long. -/
def Overlong : Prop :=
  maxMessageBytes < bytes.length ∧ ¬ Settled lib bytes (maxMessageBytes + readSize)

variable (lib) in
/-- **A stream that it does not matter how to cut.** Wherever a read may find a limit passed, or an
expectation that cannot be met, every read of the window behind it finds the same. -/
structure Steady (bytes : Bytes) : Prop where
  /-- past the limit for the head without the end of one, it stays so for a whole read; or the head
  ends there, and the whole is too long as well -/
  head : maxHeaderBytes < bytes.length → headEnd (bytes.take (maxHeaderBytes + 1)) = none →
    ¬ Settled lib bytes (maxHeaderBytes + 1) →
    ¬ Settled lib bytes (maxHeaderBytes + readSize) ∧
      (headEnd (bytes.take (maxHeaderBytes + readSize)) = none ∨
        expectation (bytes.take (maxHeaderBytes + readSize)) ≠ some .unsupported ∧
          Overlong lib bytes)
  /-- the body of a request whose expectation cannot be met does not end in the read that brings
  the end of its head -/
  expect : ∀ d, headEnd (bytes.take (maxHeaderBytes + 1)) = some d →
    expectation (bytes.take (maxHeaderBytes + 1)) = some .unsupported →
    ¬ Settled lib bytes (d + 4) → ¬ Settled lib bytes (d + 3 + readSize)
  /-- the body of another does not end in the read that passes the limit for the whole -/
  body : ∀ d, headEnd (bytes.take (maxHeaderBytes + 1)) = some d →
    expectation (bytes.take (maxHeaderBytes + 1)) ≠ some .unsupported →
    maxMessageBytes < bytes.length → ¬ Settled lib bytes (maxMessageBytes + 1) →
    ¬ Settled lib bytes (maxMessageBytes + readSize)

theorem decided_of_no_head (hset : ¬ Settled lib bytes n) (hn : n ≤ bytes.length)
    (h : headEnd (bytes.take n) = none) :
    decided lib bytes n = if maxHeaderBytes < n then some tooLarge else none := by
  rw [decided_of_not_settled hset hn, readCap_of_no_head h, expectation_of_head.mp h]
  rfl

theorem decided_of_head {n d : Nat} (hset : ¬ Settled lib bytes n) (hn : n ≤ bytes.length)
    (h : headEnd (bytes.take n) = some d) : decided lib bytes n =
      if maxMessageBytes < n then some tooLarge
      else if expectation (bytes.take n) = some .unsupported then
        some (.refused .expectationFailed)
      else none := by
  rw [decided_of_not_settled hset hn, readCap_of_head h]

theorem tame_of_head {i d : Nat} (h : headEnd (bytes.take i) = some d)
    (hexpect : expectation (bytes.take i) ≠ some .unsupported) : Tame lib bytes i := by
  intro m him hm hset
  have hsame : expectation (bytes.take m) ≠ some .unsupported := by
    cases he : expectation (bytes.take i) with
    | none => exact nomatch h.symm.trans (expectation_of_head.mpr he)
    | some e =>
      rw [expectation_mono he him.le]
      exact he ▸ hexpect
  rw [decided_of_head hset hm (headEnd_mono h him.le), if_neg hsame]

/-- **Past the limit for the head.** -/
theorem const_iff_head (fin : StreamEnd) (hlong : maxHeaderBytes < bytes.length)
    (hhead : headEnd (bytes.take (maxHeaderBytes + 1)) = none)
    (hset : ¬ Settled lib bytes (maxHeaderBytes + 1)) :
    (∀ x y, MayCome lib bytes fin 0 x → MayCome lib bytes fin 0 y → x = y) ↔
      ¬ Settled lib bytes (maxHeaderBytes + readSize) ∧
        (headEnd (bytes.take (maxHeaderBytes + readSize)) = none ∨
          expectation (bytes.take (maxHeaderBytes + readSize)) ≠ some .unsupported ∧
            Overlong lib bytes) := by
  have hwindow : ∀ {x}, MayCome lib bytes fin 0 x ↔ ∃ k, maxHeaderBytes + 1 ≤ k ∧
      k < maxHeaderBytes + 1 + readSize ∧ k ≤ bytes.length ∧
        (decided lib bytes k = some x ∨
          decided lib bytes k = none ∧ MayCome lib bytes fin k x) := by
    refine comes_iff (by decide) (Nat.succ_pos _) hlong fun k _ hk => ?_
    have hopen : ¬ Settled lib bytes k := fun h => hset (h.mono hk.le).1
    have hno : headEnd (bytes.take k) = none := by
      by_contra hsome
      obtain ⟨d, hd⟩ := ne_none_iff_exists'.mp hsome
      exact nomatch hhead.symm.trans (headEnd_mono hd hk.le)
    rw [decided_of_no_head hopen (by omega) hno, if_neg (by omega)]
  have hlarge : MayCome lib bytes fin 0 tooLarge := by
    refine hwindow.mpr ⟨_, le_rfl, by simp [readSize], hlong, .inl ?_⟩
    rw [decided_of_no_head hset hlong hhead, if_pos (Nat.lt_succ_self _)]
  -- the last place where the read that passes the limit may end
  have hlast : maxHeaderBytes + 1 ≤ min bytes.length (maxHeaderBytes + readSize) ∧
      min bytes.length (maxHeaderBytes + readSize) < maxHeaderBytes + 1 + readSize ∧
      min bytes.length (maxHeaderBytes + readSize) ≤ maxMessageBytes := by
    simp only [readSize, maxMessageBytes, maxHeaderBytes, maxBodyBytes] at hlong ⊢
    omega
  constructor
  · intro h
    have hall : ∀ x, MayCome lib bytes fin 0 x → x = tooLarge := fun x hx => h x _ hx hlarge
    have hopen : ¬ Settled lib bytes (maxHeaderBytes + readSize) := by
      intro hlate
      obtain ⟨a, ha, -, hsame⟩ := parsed_of_settled hlate
      exact ha (hall a (hwindow.mpr ⟨_, hlast.1, hlast.2.1, Nat.min_le_left _ _,
        .inl (hsame _ ((settled_min _).mpr hlate))⟩))
    refine ⟨hopen, ?_⟩
    cases hend : headEnd (bytes.take (maxHeaderBytes + readSize)) with
    | none => exact .inl rfl
    | some d =>
      right
      rw [← settled_min] at hopen
      rw [← take_min] at hend
      have hhere := decided_of_head hopen (Nat.min_le_left _ _) hend
      rw [if_neg (by omega), take_min] at hhere
      by_cases hexpect : expectation (bytes.take (maxHeaderBytes + readSize)) = some .unsupported
      · rw [if_pos hexpect] at hhere
        exact nomatch hall _ (hwindow.mpr ⟨_, hlast.1, hlast.2.1, Nat.min_le_left _ _, .inl hhere⟩)
      · rw [if_neg hexpect] at hhere
        refine ⟨hexpect, (tame_tooLarge_iff fin (tame_of_head hend ?_) hlast.2.2
          (Nat.min_le_left _ _) hopen).mp fun x hx => ?_⟩
        · rwa [take_min]
        · exact hall x (hwindow.mpr ⟨_, hlast.1, hlast.2.1, Nat.min_le_left _ _, .inr ⟨hhere, hx⟩⟩)
  · rintro ⟨hopen, hend⟩
    have hall : ∀ x, MayCome lib bytes fin 0 x → x = tooLarge := by
      intro x hx
      obtain ⟨k, hk, hkw, hkN, hcome⟩ := hwindow.mp hx
      have hkset : ¬ Settled lib bytes k := fun h => hopen (h.mono (by omega)).1
      cases hkend : headEnd (bytes.take k) with
      | none =>
        rw [decided_of_no_head hkset hkN hkend, if_pos (by omega)] at hcome
        obtain hhere | ⟨hhere, -⟩ := hcome
        · exact (some.inj hhere).symm
        · exact nomatch hhere
      | some d =>
        obtain hend | ⟨hexpect, hover⟩ := hend
        · exact nomatch hend.symm.trans (headEnd_mono hkend (by omega))
        have hksupp : expectation (bytes.take k) ≠ some .unsupported :=
          fun he => hexpect (expectation_mono he (by omega))
        have hkcap : k ≤ maxMessageBytes := by
          simp only [readSize, maxMessageBytes, maxHeaderBytes, maxBodyBytes] at hkw ⊢
          omega
        rw [decided_of_head hkset hkN hkend, if_neg (by omega), if_neg hksupp] at hcome
        obtain hhere | ⟨-, hcome⟩ := hcome
        · exact nomatch hhere
        · exact (tame_tooLarge_iff fin (tame_of_head hkend hksupp) hkcap hkN hkset).mpr hover x
            hcome
    intro x y hx hy
    rw [hall x hx, hall y hy]

theorem headEnd_of_take {d m : Nat} (h : headEnd buf = some d) (hm : d + 4 ≤ m) :
    headEnd (buf.take m) = some d := by
  induction buf generalizing d m with
  | nil => exact nomatch h
  | cons b rest ih =>
    obtain ⟨m, rfl⟩ : ∃ k, m = k + 1 := ⟨m - 1, by omega⟩
    rw [headEnd] at h
    rw [take_succ_cons, headEnd, ← take_succ_cons, take_take, Nat.min_eq_left (by omega)]
    split_ifs at h ⊢ with hend
    · exact h
    · obtain ⟨k, hk, rfl⟩ := map_eq_some_iff.mp h
      rw [ih hk (by omega)]
      rfl

theorem headEnd_take {n m d : Nat} (h : headEnd (bytes.take n) = some d) (hm : d + 4 ≤ m) :
    headEnd (bytes.take m) = some d := by
  obtain hle | hle := Nat.le_total n m
  · exact headEnd_mono h hle
  · have hhere := headEnd_of_take h hm
    rwa [take_take, Nat.min_eq_left hle] at hhere

theorem headEnd_before {n m d : Nat} (h : headEnd (bytes.take n) = some d) (hm : m < d + 4) :
    headEnd (bytes.take m) = none := by
  cases hend : headEnd (bytes.take m) with
  | none => rfl
  | some d' =>
    have hlen := headEnd_length hend
    rw [length_take] at hlen
    have hsame : headEnd (bytes.take (max n m)) = some d' :=
      headEnd_mono hend (Nat.le_max_right _ _)
    rw [headEnd_mono h (Nat.le_max_left _ _)] at hsame
    cases hsame
    omega

theorem decided_of_unsupported {k d : Nat}
    (hhead : headEnd (bytes.take (maxHeaderBytes + 1)) = some d)
    (hexpect : expectation (bytes.take (maxHeaderBytes + 1)) = some .unsupported)
    (hk : d + 4 ≤ k) (hkw : k < d + 4 + readSize) (hkN : k ≤ bytes.length)
    (hset : ¬ Settled lib bytes k) : decided lib bytes k = some (.refused .expectationFailed) := by
  have hlen := headEnd_length hhead
  rw [length_take] at hlen
  have hcap : ¬ maxMessageBytes < k := by
    simp only [readSize, maxMessageBytes, maxHeaderBytes, maxBodyBytes] at hlen hkw ⊢
    omega
  have hkexpect : expectation (bytes.take k) = some .unsupported := by
    cases he : expectation (bytes.take k) with
    | none => exact nomatch (headEnd_take hhead hk).symm.trans (expectation_of_head.mpr he)
    | some e =>
      have hboth := expectation_mono he (Nat.le_max_left k (maxHeaderBytes + 1))
      rw [expectation_mono hexpect (Nat.le_max_right _ _)] at hboth
      exact hboth.symm
  rw [decided_of_head hset hkN (headEnd_take hhead hk), if_neg hcap, if_pos hkexpect]

/-- **An expectation that cannot be met.** -/
theorem const_iff_expect (fin : StreamEnd) {d : Nat}
    (hhead : headEnd (bytes.take (maxHeaderBytes + 1)) = some d)
    (hexpect : expectation (bytes.take (maxHeaderBytes + 1)) = some .unsupported)
    (hset : ¬ Settled lib bytes (d + 4)) :
    (∀ x y, MayCome lib bytes fin 0 x → MayCome lib bytes fin 0 y → x = y) ↔
      ¬ Settled lib bytes (d + 3 + readSize) := by
  have hlen := headEnd_length hhead
  rw [length_take] at hlen
  have hwindow : ∀ {x}, MayCome lib bytes fin 0 x ↔ ∃ k, d + 4 ≤ k ∧
      k < d + 4 + readSize ∧ k ≤ bytes.length ∧
        (decided lib bytes k = some x ∨
          decided lib bytes k = none ∧ MayCome lib bytes fin k x) := by
    refine comes_iff (by decide) (by omega) (by omega) fun k _ hk => ?_
    have hopen : ¬ Settled lib bytes k := fun h => hset (h.mono hk.le).1
    rw [decided_of_no_head hopen (by omega) (headEnd_before hhead hk), if_neg (by omega)]
  have hrefused : MayCome lib bytes fin 0 (.refused .expectationFailed) :=
    hwindow.mpr ⟨d + 4, le_rfl, by simp [readSize], by omega,
      .inl (decided_of_unsupported hhead hexpect le_rfl (by simp [readSize]) (by omega) hset)⟩
  constructor
  · intro h hlate
    obtain ⟨a, -, ha, hsame⟩ := parsed_of_settled hlate
    refine ha (h _ _ (hwindow.mpr ⟨min bytes.length (d + 3 + readSize), ?_, ?_,
      Nat.min_le_left _ _, .inl (hsame _ ((settled_min _).mpr hlate))⟩) hrefused)
    · simp only [readSize]; omega
    · omega
  · intro hopen
    have hall : ∀ x, MayCome lib bytes fin 0 x → x = .refused .expectationFailed := by
      intro x hx
      obtain ⟨k, hk, hkw, hkN, hcome⟩ := hwindow.mp hx
      have hkset : ¬ Settled lib bytes k := fun h => hopen (h.mono (by omega)).1
      rw [decided_of_unsupported hhead hexpect hk hkw hkN hkset] at hcome
      obtain hhere | ⟨hhere, -⟩ := hcome
      · exact (some.inj hhere).symm
      · exact nomatch hhere
    intro x y hx hy
    rw [hall x hx, hall y hy]

/-- **Every other stream** is refused only for its length, once its head is there. -/
theorem tame_of_bounded
    (hhead : maxHeaderBytes < bytes.length → headEnd (bytes.take (maxHeaderBytes + 1)) = none →
      Settled lib bytes (maxHeaderBytes + 1))
    (hexpect : ∀ d, headEnd (bytes.take (maxHeaderBytes + 1)) = some d →
      expectation (bytes.take (maxHeaderBytes + 1)) = some .unsupported →
      Settled lib bytes (d + 4)) : Tame lib bytes 0 := by
  intro m _ hm hset
  cases hend : headEnd (bytes.take (maxHeaderBytes + 1)) with
  | none =>
    have hshort : m ≤ maxHeaderBytes := by
      by_contra hlong
      exact hset ((hhead (by omega) hend).mono (by omega)).1
    have hno : headEnd (bytes.take m) = none := by
      by_contra hsome
      obtain ⟨d, hd⟩ := ne_none_iff_exists'.mp hsome
      exact nomatch hend.symm.trans (headEnd_mono hd (by omega))
    rw [decided_of_no_head hset hm hno, if_neg (by omega), if_neg]
    simp only [maxMessageBytes] at hshort ⊢
    omega
  | some d =>
    have hlen := headEnd_length hend
    rw [length_take] at hlen
    obtain hlt | hge := Nat.lt_or_ge m (d + 4)
    · rw [decided_of_no_head hset hm (headEnd_before hend hlt), if_neg (by omega), if_neg]
      simp only [maxMessageBytes]
      omega
    · have hsupp : expectation (bytes.take m) ≠ some .unsupported := by
        intro he
        have hboth := expectation_mono he (Nat.le_max_left m (maxHeaderBytes + 1))
        refine hset ((hexpect d hend ?_).mono hge).1
        cases hfull : expectation (bytes.take (maxHeaderBytes + 1)) with
        | none => exact nomatch hend.symm.trans (expectation_of_head.mpr hfull)
        | some e => rw [← hboth, expectation_mono hfull (Nat.le_max_right _ _)]
      rw [decided_of_head hset hm (headEnd_take hend hge), if_neg hsupp]

theorem not_settled_zero : ¬ Settled lib bytes 0 := by
  rw [Settled, take_zero, parseRequest_nil]
  exact not_not.mpr rfl

theorem const_iff_body (fin : StreamEnd) (htame : Tame lib bytes 0) :
    (∀ x y, MayCome lib bytes fin 0 x → MayCome lib bytes fin 0 y → x = y) ↔
      (maxMessageBytes < bytes.length → ¬ Settled lib bytes (maxMessageBytes + 1) →
        ¬ Settled lib bytes (maxMessageBytes + readSize)) :=
  tame_const_iff fin htame (Nat.zero_le _) (Nat.zero_le _) not_settled_zero

theorem body_of_settled (h : Settled lib bytes n) (hn : n ≤ maxMessageBytes + 1) :
    maxMessageBytes < bytes.length → ¬ Settled lib bytes (maxMessageBytes + 1) →
      ¬ Settled lib bytes (maxMessageBytes + readSize) :=
  fun _ hset => absurd (h.mono hn).1 hset

theorem const_iff_steady (fin : StreamEnd) :
    (∀ x y, MayCome lib bytes fin 0 x → MayCome lib bytes fin 0 y → x = y) ↔ Steady lib bytes := by
  cases hend : headEnd (bytes.take (maxHeaderBytes + 1)) with
  | none =>
    -- the other limits are for a stream whose head ends in time
    have hother : ∀ {P : Nat → Prop} (d : Nat),
        headEnd (bytes.take (maxHeaderBytes + 1)) = some d → P d :=
      fun _ hd => nomatch hend.symm.trans hd
    by_cases hlong : maxHeaderBytes < bytes.length ∧ ¬ Settled lib bytes (maxHeaderBytes + 1)
    · obtain ⟨hlong, hset⟩ := hlong
      rw [const_iff_head fin hlong hend hset]
      exact ⟨fun h => ⟨fun _ _ _ => h, hother, hother⟩, fun h => h.head hlong hend hset⟩
    · have hknown : maxHeaderBytes < bytes.length → Settled lib bytes (maxHeaderBytes + 1) :=
        fun hlt => not_not.mp fun hset => hlong ⟨hlt, hset⟩
      rw [const_iff_body fin (tame_of_bounded (fun hlt _ => hknown hlt) hother)]
      refine ⟨fun _ => ⟨fun hlt _ hset => absurd (hknown hlt) hset, hother, hother⟩,
        fun _ hlt => ?_⟩
      refine body_of_settled (hknown ?_) ?_ hlt
      · exact Nat.lt_of_le_of_lt (Nat.le_add_right _ _) hlt
      · simp [maxMessageBytes, maxBodyBytes]
  | some d =>
    have hlen := headEnd_length hend
    rw [length_take] at hlen
    have hnone : ∀ {P : Prop}, headEnd (bytes.take (maxHeaderBytes + 1)) = none → P :=
      fun hno => nomatch hend.symm.trans hno
    have hsame : ∀ d', headEnd (bytes.take (maxHeaderBytes + 1)) = some d' → d' = d :=
      fun d' hd' => some.inj (hd'.symm.trans hend)
    by_cases hexpect : expectation (bytes.take (maxHeaderBytes + 1)) = some .unsupported
    · by_cases hset : Settled lib bytes (d + 4)
      · have htame : Tame lib bytes 0 := by
          refine tame_of_bounded (fun _ hno => hnone hno) fun d' hd' _ => ?_
          rwa [hsame d' hd']
        have hbody := body_of_settled hset (by simp only [maxMessageBytes]; omega)
        rw [const_iff_body fin htame]
        refine ⟨fun _ => ⟨fun _ hno => hnone hno, fun d' hd' _ hopen => ?_, fun _ _ _ => hbody⟩,
          fun _ => hbody⟩
        rw [hsame d' hd'] at hopen
        exact absurd hset hopen
      · rw [const_iff_expect fin hend hexpect hset]
        refine ⟨fun h => ⟨fun _ hno => hnone hno, fun d' hd' _ _ => ?_,
          fun _ _ hmet => absurd hexpect hmet⟩, fun h => h.expect d hend hexpect hset⟩
        rwa [hsame d' hd']
    · have htame : Tame lib bytes 0 :=
        tame_of_bounded (fun _ hno => hnone hno) fun _ _ hunmet => absurd hunmet hexpect
      rw [const_iff_body fin htame]
      exact ⟨fun h => ⟨fun _ hno => hnone hno, fun _ _ hunmet => absurd hunmet hexpect,
        fun _ _ _ => h⟩, fun h => h.body d hend hexpect⟩

/-- **How a stream is cut.** What the parser of `h1.rs` knows of a buffer it knows of every longer
one. What `parse_request` makes of a stream does not depend on where the reads fall if and only if
no limit, and no expectation that cannot be met, is one that a read may step over. -/
theorem same_outcome_iff (lib : Httparse) (bytes : Bytes) (fin : StreamEnd) :
    (∀ buf more, parseRequest lib buf ≠ .incomplete →
      parseRequest lib (buf ++ more) = parseRequest lib buf) ∧
    ((∀ cuts cuts', IsCut bytes cuts → IsCut bytes cuts' →
        outcome lib cuts fin = outcome lib cuts' fin) ↔ Steady lib bytes) := by
  refine ⟨fun buf more h => parseRequest_append h more, ?_⟩
  rw [← const_iff_steady fin]
  constructor
  · intro h x y hx hy
    obtain ⟨cuts, hcuts, rfl⟩ := comes_iff_cuts.mp hx
    obtain ⟨cuts', hcuts', rfl⟩ := comes_iff_cuts.mp hy
    exact h cuts cuts' hcuts hcuts'
  · intro h cuts cuts' hcuts hcuts'
    exact h _ _ (comes_iff_cuts.mpr ⟨cuts, hcuts, rfl⟩) (comes_iff_cuts.mpr ⟨cuts', hcuts', rfl⟩)

def expectHead : Bytes :=
  Utf8.encode "POST / HTTP/1.1\r\nHost: a\r\nExpect: x\r\nContent-Length: 1\r\n\r\n".toList

def expectHttparse : Httparse :=
  .ofHead expectHead ⟨some "POST".toList, some "/".toList, some 1,
    [("Host".toList, Utf8.encode "a".toList), ("Expect".toList, Utf8.encode "x".toList),
      ("Content-Length".toList, Utf8.encode "1".toList)]⟩ (Utf8.encode_ne_nil (by simp))

def expectRequest : RawRequest :=
  ⟨"POST".toList, "/".toList, none, "HTTP/1.1".toList,
    [("Host".toList, "a".toList), ("Expect".toList, "x".toList),
      ("Content-Length".toList, "1".toList)], [0x79]⟩

theorem isCut_expect :
    IsCut (expectHead ++ [0x79]) [expectHead ++ [0x79]] ∧
      IsCut (expectHead ++ [0x79]) [expectHead, [0x79]] := by
  refine ⟨⟨rfl, ?_⟩, rfl, ?_⟩ <;> decide

theorem expect_by_cut :
    outcome expectHttparse [expectHead ++ [0x79]] .eof = .request expectRequest ∧
      outcome expectHttparse [expectHead, [0x79]] .eof = .refused .expectationFailed ∧
      ¬ ∀ cuts cuts', IsCut (expectHead ++ [0x79]) cuts → IsCut (expectHead ++ [0x79]) cuts' →
        outcome expectHttparse cuts .eof = outcome expectHttparse cuts' .eof := by
  have hone : outcome expectHttparse [expectHead ++ [0x79]] .eof = .request expectRequest := rfl
  have htwo : outcome expectHttparse [expectHead, [0x79]] .eof = .refused .expectationFailed := rfl
  refine ⟨hone, htwo, fun h => ?_⟩
  have hsame := h _ _ isCut_expect.1 isCut_expect.2
  rw [hone, htwo] at hsame
  exact nomatch hsame

end M6
