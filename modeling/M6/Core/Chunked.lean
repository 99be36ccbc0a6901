import M6.Core.H1
import M6.Lib.Chunking
import M6.Lib.Looping
import M6.Lib.Machine

/-!
# Chunked bodies

What `decode_chunked` of `h1.rs` takes: chunks whose size lines are hexadecimal digits, at most
sixteen, and perhaps an extension behind a semicolon. `decodeChunked_complete` and
`decodeChunked_cut` say that it gives back what is in the chunks, and that it does not answer early.

`decodeChecked` is the decoder with its positions in the buffer, and with the sums and the slices
that could end the process. `decodeChecked_eq` says that it is the decoder, and
`answers_iff_not_overflows` when it answers.
-/

namespace M6

open List Option

namespace H1

open Chunking

/-! ## Lines -/

def crlfBytes : Bytes := [0x0d, 0x0a]

@[simp] theorem length_crlfBytes : crlfBytes.length = 2 := rfl

variable {line : Bytes}

theorem findCrlf_line (h : findCrlf line = none) (rest : Bytes) :
    findCrlf (line ++ (crlfBytes ++ rest)) = some line.length := by
  induction line with
  | nil => exact if_pos ⟨rfl, rfl⟩
  | cons b line ih =>
    rw [findCrlf] at h
    split_ifs at h with hcrlf
    have hline := map_eq_none_iff.mp h
    have hhead : ¬ (b = 0x0d ∧ (line ++ (crlfBytes ++ rest)).head? = some 0x0a) := by
      rintro ⟨rfl, hnext⟩
      cases line with
      | nil => cases hnext
      | cons c line => exact hcrlf ⟨rfl, hnext⟩
    rw [cons_append, findCrlf, if_neg hhead, ih hline]
    rfl

variable {buf : Bytes}

theorem exists_line {eol : Nat} (h : findCrlf buf = some eol) :
    ∃ line rest, buf = line ++ (crlfBytes ++ rest) ∧ line.length = eol ∧ findCrlf line = none := by
  induction buf generalizing eol with
  | nil => cases h
  | cons b buf ih =>
    rw [findCrlf] at h
    split_ifs at h with hcrlf
    · cases h
      obtain ⟨rfl, hnext⟩ := hcrlf
      cases buf with
      | nil => cases hnext
      | cons c buf =>
        cases hnext
        exact ⟨[], buf, rfl, rfl, rfl⟩
    · obtain ⟨n, hn, rfl⟩ := map_eq_some_iff.mp h
      obtain ⟨line, rest, rfl, hlen, hnone⟩ := ih hn
      refine ⟨b :: line, rest, rfl, congrArg (· + 1) hlen, ?_⟩
      have hhead : ¬ (b = 0x0d ∧ line.head? = some 0x0a) := by
        rintro ⟨rfl, hnext⟩
        cases line with
        | nil => cases hnext
        | cons c line => exact hcrlf ⟨rfl, hnext⟩
      rw [findCrlf, if_neg hhead, hnone]
      rfl

variable {i : Nat}

theorem drop_line {buf line rest : Bytes} (h : buf.drop i = line ++ (crlfBytes ++ rest)) :
    buf.drop (i + (line.length + 2)) = rest := by
  rw [← drop_drop, h, ← append_assoc]
  exact drop_left' (by simp)

theorem findCrlf_cut {line p : Bytes} (h : findCrlf line = none) (hp : p <+: line ++ crlfBytes)
    (hlen : p.length < (line ++ crlfBytes).length) : findCrlf p = none := by
  rw [eq_none_iff_forall_ne_some]
  intro eol heol
  obtain ⟨more, hmore⟩ := hp
  have hline := findCrlf_line h []
  rw [append_nil, ← hmore, findCrlf_append heol more] at hline
  have hle := findCrlf_le heol
  rw [length_append, length_crlfBytes] at hlen
  have := some.inj hline
  omega

theorem findCrlf_append_of_notMem {a : Bytes} (h : (0x0d : UInt8) ∉ a) (b : Bytes) :
    findCrlf (a ++ b) = (findCrlf b).map (· + a.length) := by
  induction a with
  | nil => simp
  | cons c a ih =>
    obtain ⟨hc, ha⟩ := not_or.mp (mt mem_cons.mpr h)
    have hhead : ¬ (c = 0x0d ∧ (a ++ b).head? = some 0x0a) := fun hboth => hc hboth.1.symm
    rw [cons_append, findCrlf, if_neg hhead, ih ha, Option.map_map]
    exact congrArg (Option.map · (findCrlf b)) (funext fun n => (Nat.add_assoc n _ 1))

/-! ## Sizes -/

def IsHex (digits : Bytes) : Prop := ∀ c ∈ digits, (hexDigit c).isSome

instance (digits : Bytes) : Decidable (IsHex digits) :=
  List.decidableBAll (fun c => (hexDigit c).isSome) digits

def digitValue (c : UInt8) : Nat := ((hexDigit c).getD 0).toNat

def hexValue (digits : Bytes) : Nat := digits.foldl (fun n c => n * 16 + digitValue c) 0

theorem digitValue_lt (c : UInt8) : digitValue c < 16 := by
  have hall : ∀ n : Fin 256, digitValue (UInt8.ofNat n) < 16 := by decide +kernel
  simpa using hall ⟨c.toNat, c.toNat_lt⟩

theorem foldl_value (digits : Bytes) (n : Nat) :
    digits.foldl (fun n c => n * 16 + digitValue c) n =
      n * 16 ^ digits.length + hexValue digits := by
  induction digits generalizing n with
  | nil => simp [hexValue]
  | cons c digits ih =>
    have hzero : hexValue (c :: digits) = digitValue c * 16 ^ digits.length + hexValue digits := by
      rw [hexValue, foldl_cons, Nat.zero_mul, Nat.zero_add, ih]
    rw [foldl_cons, ih, hzero, length_cons, Nat.pow_succ, Nat.add_mul, Nat.add_assoc,
      Nat.mul_assoc, Nat.mul_comm 16]

theorem hexValue_cons (c : UInt8) (digits : Bytes) :
    hexValue (c :: digits) = digitValue c * 16 ^ digits.length + hexValue digits := by
  rw [hexValue, foldl_cons, Nat.zero_mul, Nat.zero_add, foldl_value]

theorem hexValue_lt (digits : Bytes) : hexValue digits < 16 ^ digits.length := by
  induction digits with
  | nil => exact Nat.zero_lt_one
  | cons c digits ih =>
    have hc : (digitValue c + 1) * 16 ^ digits.length ≤ 16 * 16 ^ digits.length :=
      Nat.mul_le_mul_right _ (digitValue_lt c)
    rw [hexValue_cons, length_cons, Nat.pow_succ]
    rw [Nat.add_mul] at hc
    omega

def sizeStep (size : Option Nat) (c : UInt8) : Option Nat := do
  let size ← size
  let d ← hexDigit c
  if size * 16 + d.toNat < 2 ^ 64 then some (size * 16 + d.toNat) else none

theorem sizeStep_of_digit {c d : UInt8} (h : hexDigit c = some d) (n : Nat) : sizeStep (some n) c =
      if n * 16 + digitValue c < 2 ^ 64 then some (n * 16 + digitValue c) else none := by
  simp [sizeStep, digitValue, h]

theorem sizeStep_of_none {c : UInt8} (h : hexDigit c = none) (size : Option Nat) :
    sizeStep size c = none := by
  cases size <;> simp [sizeStep, h]

theorem foldl_sizeStep_none (digits : Bytes) : digits.foldl sizeStep none = none := by
  induction digits with
  | nil => rfl
  | cons c digits ih => exact ih

theorem foldl_sizeStep (digits : Bytes) (n k : Nat) :
    digits.foldl sizeStep (some n) = some k ↔
    IsHex digits ∧ n * 16 ^ digits.length + hexValue digits = k ∧ (digits = [] ∨ k < 2 ^ 64) := by
  induction digits generalizing n with
  | nil => simp [IsHex, hexValue]
  | cons c digits ih =>
    have hsum : n * 16 ^ (c :: digits).length + hexValue (c :: digits) =
        (n * 16 + digitValue c) * 16 ^ digits.length + hexValue digits := by
      rw [hexValue_cons, length_cons, Nat.pow_succ, Nat.add_mul, Nat.add_assoc,
        Nat.mul_assoc, Nat.mul_comm 16]
    rw [foldl_cons, hsum]
    cases hc : hexDigit c with
    | none =>
      have hbad : ¬ IsHex (c :: digits) := fun h => by simpa [hc] using h c mem_cons_self
      simp [sizeStep_of_none hc, foldl_sizeStep_none, hbad]
    | some d =>
      have hhex : IsHex (c :: digits) ↔ IsHex digits := by simp [IsHex, hc]
      rw [hhex, sizeStep_of_digit hc]
      have hpos : 0 < 16 ^ digits.length := Nat.pow_pos (by omega)
      have hle := Nat.le_mul_of_pos_right (n * 16 + digitValue c) hpos
      -- a sum that is too large stays so, whatever digits follow
      by_cases hlt : n * 16 + digitValue c < 2 ^ 64
      · rw [if_pos hlt, ih]
        refine and_congr_right fun _ => and_congr_right fun hk => ?_
        simp only [cons_ne_nil, false_or]
        refine or_iff_right_of_imp ?_
        rintro rfl
        rw [← hk]
        simpa [hexValue] using hlt
      · rw [if_neg hlt, foldl_sizeStep_none]
        simp only [reduceCtorEq, cons_ne_nil, false_or, false_iff]
        rintro ⟨-, hk, hk'⟩
        omega

theorem chunkSize_eq_some {digits : Bytes} {n : Nat} (h : digits.length ≤ 16) :
    chunkSize digits = some n ↔ IsHex digits ∧ hexValue digits = n := by
  have hfold : chunkSize digits = digits.foldl sizeStep (some 0) := rfl
  rw [hfold, foldl_sizeStep, Nat.zero_mul, Nat.zero_add]
  refine and_congr_right fun _ => and_iff_left_of_imp ?_
  rintro rfl
  have hpow : 16 ^ digits.length ≤ 16 ^ 16 := Nat.pow_le_pow_right (by omega) h
  have := hexValue_lt digits
  right
  omega

/-! ## Size lines -/

/-- An extension: nothing, or what stands behind a semicolon. -/
structure IsExtension (ext : Bytes) : Prop where
  noLine : findCrlf ext = none
  semicolon : ext = [] ∨ ext.head? = some 0x3b

/-- **A size line**: digits, and perhaps an extension. -/
def SizeLine (line : Bytes) (n : Nat) : Prop :=
  ∃ digits ext, line = digits ++ ext ∧ digits ≠ [] ∧ digits.length ≤ 16 ∧ IsHex digits ∧
    hexValue digits = n ∧ IsExtension ext

theorem IsHex.notMem {digits : Bytes} (h : IsHex digits) {b : UInt8} (hb : hexDigit b = none) :
    b ∉ digits := by
  intro hmem
  have := h b hmem
  rw [hb] at this
  cases this

theorem takeWhile_append_ext {digits ext : Bytes} (hdigits : (0x3b : UInt8) ∉ digits)
    (hext : ext = [] ∨ ext.head? = some 0x3b) : (digits ++ ext).takeWhile (· ≠ 0x3b) = digits := by
  have hall : ∀ b ∈ digits, decide (b ≠ 0x3b) = true := by
    intro b hb
    refine decide_eq_true ?_
    rintro rfl
    exact hdigits hb
  rw [takeWhile_append_of_pos hall]
  rcases hext with rfl | hext
  · simp
  · cases ext with
    | nil => cases hext
    | cons c ext =>
      cases hext
      simp

theorem SizeLine.noLine {n : Nat} (h : SizeLine line n) : findCrlf line = none := by
  obtain ⟨digits, ext, rfl, -, -, hhex, -, hext⟩ := h
  have hcr : (0x0d : UInt8) ∉ digits := hhex.notMem (by decide)
  rw [findCrlf_append_of_notMem hcr, hext.noLine]
  rfl

theorem sizeLine_iff {n : Nat} (hline : findCrlf line = none) :
    SizeLine line n ↔ ¬ (line.takeWhile (· ≠ 0x3b) = [] ∨ 16 < (line.takeWhile (· ≠ 0x3b)).length) ∧
        chunkSize (line.takeWhile (· ≠ 0x3b)) = some n := by
  constructor
  · intro h
    obtain ⟨digits, ext, rfl, hne, hlen, hhex, hn, hext⟩ := h
    rw [takeWhile_append_ext (hhex.notMem (by decide)) hext.semicolon, chunkSize_eq_some hlen]
    exact ⟨not_or.mpr ⟨hne, by omega⟩, hhex, hn⟩
  · rintro ⟨hdigits, hsize⟩
    obtain ⟨hne, hlen⟩ := not_or.mp hdigits
    obtain ⟨hhex, hn⟩ := (chunkSize_eq_some (by omega)).mp hsize
    refine ⟨_, line.dropWhile (· ≠ 0x3b), (takeWhile_append_dropWhile).symm, hne, by omega,
      hhex, hn, ?_, ?_⟩
    · have hcr : (0x0d : UInt8) ∉ line.takeWhile (· ≠ 0x3b) := hhex.notMem (by decide)
      rw [← takeWhile_append_dropWhile (p := (· ≠ 0x3b)) (l := line),
        findCrlf_append_of_notMem hcr] at hline
      exact map_eq_none_iff.mp hline
    · cases hrest : line.dropWhile (· ≠ 0x3b) with
      | nil => exact .inl rfl
      | cons c rest =>
        have := head_dropWhile_not (· ≠ (0x3b : UInt8)) (by rw [hrest]; simp)
        simp only [hrest] at this
        exact .inr (congrArg some (not_not.mp (of_decide_eq_false this)))

/-! ## What the decoder makes of a line -/

theorem decodeChunks_of_noLine (h : findCrlf buf = none) (out : Bytes) :
    decodeChunks out buf = .incomplete := by
  rw [decodeChunks]
  split
  · rfl
  next eol heol =>
    rw [h] at heol
    cases heol

theorem decodeChunks_of_badLine (hline : findCrlf line = none)
    (hbad : ∀ n, ¬ SizeLine line n) (out rest : Bytes) :
    decodeChunks out (line ++ (crlfBytes ++ rest)) = .bad := by
  have hnot := fun n => mt (sizeLine_iff hline).mpr (hbad n)
  rw [decodeChunks_of_crlf (findCrlf_line hline rest), take_left]
  dsimp only
  by_cases hdigits : line.takeWhile (· ≠ 0x3b) = [] ∨ 16 < (line.takeWhile (· ≠ 0x3b)).length
  · rw [if_pos hdigits]
  · rw [if_neg hdigits]
    cases hsize : chunkSize (line.takeWhile (· ≠ 0x3b)) with
    | none => rfl
    | some n => exact absurd ⟨hdigits, hsize⟩ (hnot n)

theorem decodeChunks_of_sizeLine {size : Nat} (h : SizeLine line size) (out rest : Bytes) :
    decodeChunks out (line ++ (crlfBytes ++ rest)) =
      if size = 0 then (if trailersEnd rest then .done out else .incomplete)
      else if 2 ^ 64 ≤ out.length + size then .aborts
      else if maxChunkedBody < out.length + size then .bad
      else if rest.length < size + 2 then .incomplete
      else if (rest.drop size).take 2 ≠ crlfBytes then .bad
      else decodeChunks (out ++ rest.take size) (rest.drop (size + 2)) := by
  obtain ⟨hdigits, hsize⟩ := (sizeLine_iff h.noLine).mp h
  have hrest : (line ++ (crlfBytes ++ rest)).drop (0 + (line.length + 2)) = rest := drop_line rfl
  rw [Nat.zero_add] at hrest
  rw [decodeChunks_of_crlf (findCrlf_line h.noLine rest), take_left]
  simp only [if_neg hdigits, hsize, hrest]
  rfl

/-- **A chunk**: its data goes behind what is decoded already. -/
theorem decodeChunks_chunk (c : Chunk SizeLine) {out : Bytes}
    (hout : out.length + c.data.length ≤ maxChunkedBody) (rest : Bytes) :
    decodeChunks out (c.text crlfBytes ++ rest) = decodeChunks (out ++ c.data) rest := by
  have hpos := c.length_pos
  have hmax : maxChunkedBody < 2 ^ 64 := by decide
  have htext : c.text crlfBytes ++ rest =
    c.line ++ (crlfBytes ++ (c.data ++ (crlfBytes ++ rest))) := by
    simp [Chunk.text]
  have hlen : (c.data ++ (crlfBytes ++ rest)).length = c.data.length + 2 + rest.length := by
    simp
    omega
  have hend : ((c.data ++ (crlfBytes ++ rest)).drop c.data.length).take 2 = crlfBytes := by
    rw [drop_left]
    rfl
  have hnext : (c.data ++ (crlfBytes ++ rest)).drop (c.data.length + 2) = rest := by
    rw [← append_assoc]
    exact drop_left' (by simp)
  rw [htext, decodeChunks_of_sizeLine c.names, if_neg (by omega), if_neg (by omega),
    if_neg (by omega), if_neg (by omega), if_neg (not_not_intro hend), take_left, hnext]

theorem decodeChunks_texts (cs : List (Chunk SizeLine)) {out : Bytes}
    (hout : out.length + (content cs).length ≤ maxChunkedBody) (rest : Bytes) :
    decodeChunks out (texts crlfBytes cs ++ rest) = decodeChunks (out ++ content cs) rest := by
  induction cs generalizing out with
  | nil => simp
  | cons c cs ih =>
    rw [content_cons, length_append] at hout
    rw [texts_cons, append_assoc, decodeChunks_chunk c (by omega),
      ih (by rw [length_append]; omega), content_cons, append_assoc]

theorem noLine_or_line (buf : Bytes) :
    findCrlf buf = none ∨
      ∃ line rest, buf = line ++ (crlfBytes ++ rest) ∧ findCrlf line = none := by
  cases heol : findCrlf buf with
  | none => exact .inl rfl
  | some eol =>
    obtain ⟨line, rest, rfl, -, hline⟩ := exists_line heol
    exact .inr ⟨line, rest, rfl, hline⟩

/-- **What a buffer begins with**: a part of a line, a line that is not a size line, or a size
line. -/
theorem line_cases (buf : Bytes) :
    findCrlf buf = none ∨ (∃ line rest, buf = line ++ (crlfBytes ++ rest) ∧ findCrlf line = none ∧
        ∀ n, ¬ SizeLine line n) ∨
      ∃ line rest size, buf = line ++ (crlfBytes ++ rest) ∧ SizeLine line size := by
  rcases noLine_or_line buf with hnone | ⟨line, rest, rfl, hline⟩
  · exact .inl hnone
  · by_cases hsize : ∃ size, SizeLine line size
    · obtain ⟨size, hsize⟩ := hsize
      exact .inr (.inr ⟨line, rest, size, rfl, hsize⟩)
    · exact .inr (.inl ⟨line, rest, rfl, hline, not_exists.mp hsize⟩)

/-- **A body that overflows**: behind chunks there is a size that is too large for the sum with what
is in them. -/
def Overflows (buf : Bytes) : Prop :=
  ∃ (cs : List (Chunk SizeLine)) (line rest : Bytes) (size : Nat),
    buf = texts crlfBytes cs ++ (line ++ (crlfBytes ++ rest)) ∧ SizeLine line size ∧
      (content cs).length ≤ maxChunkedBody ∧ 2 ^ 64 ≤ (content cs).length + size

theorem exists_of_aborts {out buf : Bytes} (hout : out.length ≤ maxChunkedBody)
    (h : decodeChunks out buf = .aborts) :
    ∃ (cs : List (Chunk SizeLine)) (line rest : Bytes) (size : Nat),
      buf = texts crlfBytes cs ++ (line ++ (crlfBytes ++ rest)) ∧ SizeLine line size ∧
        out.length + (content cs).length ≤ maxChunkedBody ∧
          2 ^ 64 ≤ out.length + (content cs).length + size := by
  induction hn : buf.length using Nat.strongRecOn generalizing out buf with
  | _ n ih =>
    rcases line_cases buf with hnone | ⟨line, rest, rfl, hline, hbad⟩ |
      ⟨line, rest, size, rfl, hsize⟩
    · rw [decodeChunks_of_noLine hnone] at h
      cases h
    · rw [decodeChunks_of_badLine hline hbad] at h
      cases h
    · rw [decodeChunks_of_sizeLine hsize] at h
      split_ifs at h with hzero hlast hover hlarge hshort hend
      · exact ⟨[], line, rest, size, rfl, hsize, hout, hover⟩
      -- the size line begins a chunk, and what overflows stands behind it
      · obtain ⟨c, -, hdata, htext⟩ := Chunk.exists_of_line crlfBytes hsize hzero
          (by omega) (not_not.mp hend)
        have hsum : (out ++ c.data).length = out.length + size := by
          rw [hdata, length_append, length_take_of_le (by omega)]
        rw [← hdata] at h
        obtain ⟨cs, line', rest', size', hbuf, hsize', hcap, hover'⟩ :=
          ih _ (by subst hn; simp; omega) (by omega) h rfl
        refine ⟨c :: cs, line', rest', size', ?_, hsize', ?_, ?_⟩
        · rw [htext, texts_cons, append_assoc, ← hbuf]
          rfl
        · rw [content_cons, length_append, ← Nat.add_assoc, ← length_append]
          exact hcap
        · rw [content_cons, length_append, ← Nat.add_assoc, ← length_append]
          exact hover'

theorem decodeChunked_aborts_iff (buf : Bytes) : decodeChunked buf = .aborts ↔ Overflows buf := by
  constructor
  · intro h
    obtain ⟨cs, line, rest, size, hbuf, hsize, hcap, hover⟩ := exists_of_aborts (Nat.zero_le _) h
    exact ⟨cs, line, rest, size, hbuf, hsize, by simpa using hcap, by simpa using hover⟩
  · rintro ⟨cs, line, rest, size, rfl, hsize, hcap, hover⟩
    have hmax : maxChunkedBody < 2 ^ 64 := by decide
    rw [decodeChunked, decodeChunks_texts cs (by simpa using hcap),
      decodeChunks_of_sizeLine hsize, nil_append, if_neg (by omega), if_pos hover]

/-! ## Bodies as they are written -/

theorem trailersEnd_of_noLine (h : findCrlf buf = none) : trailersEnd buf = false := by
  rw [trailersEnd]
  split
  · rfl
  next eol heol =>
    rw [h] at heol
    cases heol

theorem trailersEnd_line (h : findCrlf line = none) (rest : Bytes) :
    trailersEnd (line ++ (crlfBytes ++ rest)) = (line == [] || trailersEnd rest) := by
  have hrest : (line ++ (crlfBytes ++ rest)).drop (0 + (line.length + 2)) = rest := drop_line rfl
  rw [Nat.zero_add] at hrest
  rw [trailersEnd]
  split
  next hnone =>
    rw [findCrlf_line h] at hnone
    cases hnone
  next eol heol =>
    rw [findCrlf_line h] at heol
    cases heol
    rw [hrest]
    cases line <;> rfl

/-- **A chunked body as it is written**: chunks, a size line of no size, and the lines of the
trailer section. -/
structure ChunkedText where
  chunks : List (Chunk SizeLine)
  last : Bytes
  last_size : SizeLine last 0
  trailers : List Bytes
  trailers_line : ∀ t ∈ trailers, t ≠ [] ∧ findCrlf t = none

namespace ChunkedText

def trailerText (trailers : List Bytes) : Bytes := trailers.flatMap (· ++ crlfBytes) ++ crlfBytes

def text (b : ChunkedText) : Bytes :=
  texts crlfBytes b.chunks ++ (b.last ++ crlfBytes ++ trailerText b.trailers)

def body (b : ChunkedText) : Bytes := content b.chunks

end ChunkedText

open ChunkedText

theorem trailersEnd_trailerText {trailers : List Bytes}
    (h : ∀ t ∈ trailers, t ≠ [] ∧ findCrlf t = none) (suffix : Bytes) :
    trailersEnd (trailerText trailers ++ suffix) = true := by
  induction trailers with
  | nil => exact trailersEnd_line (show findCrlf [] = none from rfl) suffix
  | cons t trailers ih =>
    obtain ⟨ht, htrailers⟩ := forall_mem_cons.mp h
    have hsplit : trailerText (t :: trailers) ++ suffix =
        t ++ (crlfBytes ++ (trailerText trailers ++ suffix)) := by
      simp [trailerText]
    rw [hsplit, trailersEnd_line ht.2, ih htrailers, Bool.or_true]

theorem trailersEnd_cut {trailers : List Bytes} (h : ∀ t ∈ trailers, t ≠ [] ∧ findCrlf t = none)
    {p : Bytes} (hp : p <+: trailerText trailers)
      (hlen : p.length < (trailerText trailers).length) :
    trailersEnd p = false := by
  induction trailers generalizing p with
  | nil => exact trailersEnd_of_noLine (findCrlf_cut (show findCrlf [] = none from rfl) hp hlen)
  | cons t trailers ih =>
    obtain ⟨ht, htrailers⟩ := forall_mem_cons.mp h
    have hsplit : trailerText (t :: trailers) = t ++ crlfBytes ++ trailerText trailers := by
      simp [trailerText]
    rw [hsplit] at hp hlen
    rcases cut_append_cases hp hlen with ⟨hline, hshort⟩ | ⟨q, rfl, hq, hqlen⟩
    · exact trailersEnd_of_noLine (findCrlf_cut ht.2 hline hshort)
    · rw [append_assoc, trailersEnd_line ht.2, ih htrailers hq hqlen, Bool.or_false]
      exact beq_eq_false_iff_ne.mpr ht.1

/-- **A body that has come whole is decoded**, whatever stands behind it. -/
theorem decodeChunked_complete (b : ChunkedText) (h : b.body.length ≤ maxChunkedBody)
    (suffix : Bytes) : decodeChunked (b.text ++ suffix) = .done b.body := by
  have hsplit : b.text ++ suffix = texts crlfBytes b.chunks ++
      (b.last ++ (crlfBytes ++ (trailerText b.trailers ++ suffix))) := by
    simp [text]
  rw [decodeChunked, hsplit, decodeChunks_texts b.chunks (by simpa [body] using h),
    decodeChunks_of_sizeLine b.last_size, if_pos rfl,
    if_pos (trailersEnd_trailerText b.trailers_line suffix)]
  rfl

theorem decodeChunks_cut (c : Chunk SizeLine) {out p : Bytes}
    (hout : out.length + c.data.length ≤ maxChunkedBody) (hp : p <+: c.text crlfBytes)
    (hlen : p.length < (c.text crlfBytes).length) : decodeChunks out p = .incomplete := by
  have hmax : maxChunkedBody < 2 ^ 64 := by decide
  have hpos := c.length_pos
  rw [Chunk.text] at hp hlen
  rcases cut_append_cases hp hlen with ⟨hline, hshort⟩ | ⟨q, rfl, hq, hqlen⟩
  · exact decodeChunks_of_noLine (findCrlf_cut c.names.noLine hline hshort) out
  · rw [length_append, length_crlfBytes] at hqlen
    rw [append_assoc, decodeChunks_of_sizeLine c.names, if_neg (by omega), if_neg (by omega),
      if_neg (by omega), if_pos hqlen]

/-- **A body that has not come whole is not decoded**: the decoder does not answer early. -/
theorem decodeChunked_cut (b : ChunkedText) (h : b.body.length ≤ maxChunkedBody) {p : Bytes}
    (hp : p <+: b.text) (hne : p ≠ b.text) : decodeChunked p = .incomplete := by
  have hlen : p.length < b.text.length :=
    lt_of_le_of_ne hp.length_le fun heq => hne (hp.eq_of_length heq)
  -- the chunks that have come whole go into `out`
  suffices hfrom : ∀ (cs : List (Chunk SizeLine)) (out p : Bytes),
      out.length + (content cs).length ≤ maxChunkedBody →
      p <+: texts crlfBytes cs ++ (b.last ++ crlfBytes ++ trailerText b.trailers) →
      p.length < (texts crlfBytes cs ++ (b.last ++ crlfBytes ++ trailerText b.trailers)).length →
      decodeChunks out p = .incomplete from
    hfrom b.chunks [] p (by simpa [body] using h) hp hlen
  intro cs
  induction cs with
  | nil =>
    intro out p _ hp hlen
    rw [texts_nil, nil_append] at hp hlen
    rcases cut_append_cases hp hlen with ⟨hline, hshort⟩ | ⟨q, rfl, hq, hqlen⟩
    · exact decodeChunks_of_noLine (findCrlf_cut b.last_size.noLine hline hshort) out
    · have hend := trailersEnd_cut b.trailers_line hq hqlen
      rw [append_assoc, decodeChunks_of_sizeLine b.last_size, if_pos rfl, hend]
      rfl
  | cons c cs ih =>
    intro out p hout hp hlen
    rw [content_cons, length_append] at hout
    rw [texts_cons, append_assoc] at hp hlen
    rcases cut_append_cases hp hlen with ⟨hchunk, hshort⟩ | ⟨q, rfl, hq, hqlen⟩
    · exact decodeChunks_cut c (by omega) hchunk hshort
    · rw [decodeChunks_chunk c (by omega)]
      exact ih (out ++ c.data) q (by rw [length_append]; omega) hq hqlen

/-! ## The positions in the buffer -/

open Machine Looping Failing

/-- Where the decoder is. -/
structure Position where
  i : Nat
  out : Bytes

theorem line_within {buf tail : Bytes} {i eol : Nat} (h : slice buf i buf.length = .ok tail)
    (heol : findCrlf tail = some eol) : i + (eol + 2) ≤ buf.length := by
  obtain ⟨hi, -, hlen⟩ := slice_eq_ok h
  have := findCrlf_le heol
  omega

def sizeField (line : Bytes) : Except Panic Bytes :=
  match line.findIdx? (· = 0x3b) with
  | some semi => slice line 0 semi
  | none => .ok line

def trailerTurn (buf : Bytes) (i : Nat) : Except Panic (Nat ⊕ Bool) := do
  let tail ← slice buf i buf.length
  match findCrlf tail with
  | none => .ok (.inr false)
  | some eol =>
    let step ← add usize eol 2
    let i ← add usize i step
    .ok (if eol = 0 then .inr true else .inl i)

def trailerLoop (buf : Bytes) : Loop Panic Nat Bool where
  turn := trailerTurn buf
  left i := buf.length - i
  shrinks := by
    intro i i' h
    obtain ⟨tail, htail, h⟩ := bind_eq_ok.mp h
    cases heol : findCrlf tail with
    | none =>
      rw [heol] at h
      cases h
    | some eol =>
      have hwithin := line_within htail heol
      rw [heol] at h
      obtain ⟨step, hstep, h⟩ := bind_eq_ok.mp h
      obtain ⟨next, hnext, h⟩ := bind_eq_ok.mp h
      have hstep := add_eq_ok hstep
      have hnext := add_eq_ok hnext
      split_ifs at h with hzero
      · cases h
      · obtain rfl := Sum.inl.inj (Except.ok.inj h)
        omega

/-- One turn of `decode_chunked`. -/
def decodeTurn (buf : Bytes) (p : Position) : Except Panic (Position ⊕ Chunked) := do
  let tail ← slice buf p.i buf.length
  match findCrlf tail with
  | none => .ok (.inr .incomplete)
  | some eol =>
    let lineEnd ← add usize p.i eol
    let line ← slice buf p.i lineEnd
    let digits ← sizeField line
    if digits = [] ∨ 16 < digits.length then .ok (.inr .bad)
    else
      match chunkSize digits with
      | none => .ok (.inr .bad)
      | some size =>
        let step ← add usize eol 2
        let i ← add usize p.i step
        if size = 0 then
          let ended ← (trailerLoop buf).run i
          .ok (.inr (if ended then .done p.out else .incomplete))
        else
          let total ← add usize p.out.length size
          if maxChunkedBody < total then .ok (.inr .bad)
          else
            let dataEnd ← add usize i size
            let chunkEnd ← add usize dataEnd 2
            if buf.length < chunkEnd then .ok (.inr .incomplete)
            else
              let data ← slice buf i dataEnd
              let terminator ← slice buf dataEnd chunkEnd
              .ok (if terminator ≠ crlfBytes then .inr .bad else .inl ⟨chunkEnd, p.out ++ data⟩)

theorem decodeTurn_moves {p p' : Position}
    (h : decodeTurn buf p = .ok (.inl p')) : p.i < p'.i ∧ p'.i ≤ buf.length := by
  obtain ⟨tail, htail, h⟩ := bind_eq_ok.mp h
  cases heol : findCrlf tail with
  | none =>
    rw [heol] at h
    cases h
  | some eol =>
    have hwithin := line_within htail heol
    rw [heol] at h
    obtain ⟨lineEnd, -, h⟩ := bind_eq_ok.mp h
    obtain ⟨line, -, h⟩ := bind_eq_ok.mp h
    obtain ⟨digits, -, h⟩ := bind_eq_ok.mp h
    split_ifs at h with hdigits
    · cases h
    cases hsize : chunkSize digits with
    | none =>
      rw [hsize] at h
      cases h
    | some size =>
      rw [hsize] at h
      obtain ⟨step, hstep, h⟩ := bind_eq_ok.mp h
      obtain ⟨i, hi, h⟩ := bind_eq_ok.mp h
      split_ifs at h with hzero
      · obtain ⟨ended, -, h⟩ := bind_eq_ok.mp h
        cases h
      obtain ⟨total, -, h⟩ := bind_eq_ok.mp h
      split_ifs at h with hlarge
      · cases h
      obtain ⟨dataEnd, hdata, h⟩ := bind_eq_ok.mp h
      obtain ⟨chunkEnd, hchunk, h⟩ := bind_eq_ok.mp h
      split_ifs at h with hshort
      · cases h
      obtain ⟨data, -, h⟩ := bind_eq_ok.mp h
      obtain ⟨terminator, -, h⟩ := bind_eq_ok.mp h
      split_ifs at h with hend
      · cases h
      cases h
      have hstep := add_eq_ok hstep
      have hi := add_eq_ok hi
      have hdata := add_eq_ok hdata
      have hchunk := add_eq_ok hchunk
      dsimp only
      omega

/-- The loop of `decode_chunked`. -/
def decodeLoop (buf : Bytes) : Loop Panic Position Chunked where
  turn := decodeTurn buf
  left p := buf.length - p.i
  shrinks := by
    intro p p' h
    have := decodeTurn_moves h
    omega

/-- `decode_chunked`, with the sums and the slices that may end the process. -/
def decodeChecked (buf : Buffer UInt8) : Except Panic Chunked := (decodeLoop buf.items).run ⟨0, []⟩

/-- What the decoder makes of a buffer, where an overflow ends the process. -/
def Chunked.checked : Chunked → Except Panic Chunked
  | .aborts => .error .overflow
  | r => .ok r

theorem sizeField_eq (line : Bytes) : sizeField line = .ok (line.takeWhile (· ≠ 0x3b)) := by
  have hnot : (fun b : UInt8 => !decide (b ≠ 0x3b)) = fun b => decide (b = 0x3b) := by
    funext b
    simp
  rw [takeWhile_eq_take_findIdx_not, hnot, sizeField]
  cases hsemi : line.findIdx? (· = 0x3b) with
  | none => rw [findIdx_eq_length.mpr (by simpa using hsemi), take_length]
  | some semi =>
    obtain ⟨hlt, hfind⟩ := findIdx?_eq_some_iff_findIdx_eq.mp hsemi
    have hslice : slice line 0 semi = .ok ((line.drop 0).take (semi - 0)) :=
      slice_ok (Nat.zero_le semi) (Nat.le_of_lt hlt)
    rw [hfind]
    exact hslice

theorem trailerTurn_moves {i i' : Nat} (h : trailerTurn buf i = .ok (.inl i')) :
    i < i' ∧ i' ≤ buf.length := by
  obtain ⟨tail, htail, h⟩ := bind_eq_ok.mp h
  cases heol : findCrlf tail with
  | none =>
    rw [heol] at h
    cases h
  | some eol =>
    have hwithin := line_within htail heol
    rw [heol] at h
    obtain ⟨step, hstep, h⟩ := bind_eq_ok.mp h
    obtain ⟨next, hnext, h⟩ := bind_eq_ok.mp h
    have hstep := add_eq_ok hstep
    have hnext := add_eq_ok hnext
    split_ifs at h with hzero
    · cases h
    · cases h
      omega

theorem trailerTurn_of_noLine (hi : i ≤ buf.length)
    (h : findCrlf (buf.drop i) = none) : trailerTurn buf i = .ok (.inr false) := by
  simp only [trailerTurn, slice_length hi, bind, Except.bind, h]

theorem trailerTurn_of_line {buf line rest : Bytes} (hbuf : buf.length < 2 ^ 63)
    (hi : i ≤ buf.length) (h : buf.drop i = line ++ (crlfBytes ++ rest))
    (hline : findCrlf line = none) :
    trailerTurn buf i = .ok (if line = [] then .inr true else .inl (i + (line.length + 2))) := by
  have hlen := congrArg List.length h
  simp only [length_drop, length_append, length_crlfBytes] at hlen
  have hstep : add usize line.length 2 = .ok _ := add_ok (by rw [usize]; omega)
  have hnext : add usize i (line.length + 2) = .ok _ := add_ok (by rw [usize]; omega)
  simp only [trailerTurn, slice_length hi, h, bind, Except.bind, findCrlf_line hline, hstep, hnext,
    length_eq_zero_iff]

theorem trailerLoop_run (hbuf : buf.length < 2 ^ 63) (hi : i ≤ buf.length) :
    (trailerLoop buf).run i = .ok (trailersEnd (buf.drop i)) := by
  refine Loop.run_unique (P := (· ≤ buf.length)) (f := fun i => .ok (trailersEnd (buf.drop i)))
    (fun i i' _ h => (trailerTurn_moves h).2) ?_ i hi
  intro i hi
  rcases noLine_or_line (buf.drop i) with hnone | ⟨line, rest, h, hline⟩
  · have hturn : (trailerLoop buf).turn i = _ := trailerTurn_of_noLine hi hnone
    rw [Loop.after, hturn, trailersEnd_of_noLine hnone]
  · have hturn : (trailerLoop buf).turn i = _ := trailerTurn_of_line hbuf hi h hline
    have hrest := drop_line h
    rw [Loop.after, hturn, h, trailersEnd_line hline]
    by_cases hempty : line = []
    · subst hempty
      rfl
    · simp only [if_neg hempty, hrest]
      simp [hempty]

theorem decodeTurn_of_noLine {p : Position} (hp : p.i ≤ buf.length)
    (h : findCrlf (buf.drop p.i) = none) : decodeTurn buf p = .ok (.inr .incomplete) := by
  simp only [decodeTurn, slice_length hp, bind, Except.bind, h]

theorem slice_line {buf line rest : Bytes} (hi : i ≤ buf.length)
    (h : buf.drop i = line ++ rest) : slice buf i (i + line.length) = .ok line := by
  have hlen := congrArg List.length h
  simp only [length_drop, length_append] at hlen
  rw [slice_ok (Nat.le_add_right _ _) (by omega), h, Nat.add_sub_cancel_left, take_left]

theorem decodeTurn_of_line {buf line rest : Bytes} {p : Position} (hbuf : buf.length < 2 ^ 63)
    (hp : p.i ≤ buf.length) (h : buf.drop p.i = line ++ (crlfBytes ++ rest))
    (hline : findCrlf line = none) : decodeTurn buf p =
      let digits := line.takeWhile (· ≠ 0x3b)
      if digits = [] ∨ 16 < digits.length then .ok (.inr .bad)
      else
        match chunkSize digits with
        | none => .ok (.inr .bad)
        | some size =>
          if size = 0 then
            .ok (.inr (if trailersEnd rest then .done p.out else .incomplete))
          else if 2 ^ 64 ≤ p.out.length + size then .error .overflow
          else if maxChunkedBody < p.out.length + size then .ok (.inr .bad)
          else if rest.length < size + 2 then .ok (.inr .incomplete)
          else if (rest.drop size).take 2 ≠ crlfBytes then .ok (.inr .bad)
          else .ok (.inl ⟨p.i + (line.length + 2) + size + 2, p.out ++ rest.take size⟩) := by
  have hlen := congrArg List.length h
  simp only [length_drop, length_append, length_crlfBytes] at hlen
  have hlineEnd : add usize p.i line.length = .ok _ := add_ok (by rw [usize]; omega)
  have hstep : add usize line.length 2 = .ok _ := add_ok (by rw [usize]; omega)
  have hnext : add usize p.i (line.length + 2) = .ok _ := add_ok (by rw [usize]; omega)
  have hrest := drop_line h
  have hwithin : p.i + (line.length + 2) ≤ buf.length := by omega
  simp only [decodeTurn, slice_length hp, bind, Except.bind, h, findCrlf_line hline, hlineEnd,
    slice_line hp h, sizeField_eq, hstep, hnext]
  by_cases hdigits :
    line.takeWhile (· ≠ 0x3b) = [] ∨ 16 < (line.takeWhile (· ≠ 0x3b)).length
  · rw [if_pos hdigits, if_pos hdigits]
  rw [if_neg hdigits, if_neg hdigits]
  cases hsize : chunkSize (line.takeWhile (· ≠ 0x3b)) with
  | none => rfl
  | some size =>
    dsimp only
    by_cases hzero : size = 0
    · rw [if_pos hzero, if_pos hzero, trailerLoop_run hbuf hwithin, hrest]
    rw [if_neg hzero, if_neg hzero]
    by_cases hover : 2 ^ 64 ≤ p.out.length + size
    · have hsum : add usize p.out.length size = .error .overflow := add_overflow hover
      rw [if_pos hover, hsum]
    have hsum : add usize p.out.length size = .ok (p.out.length + size) :=
      add_ok (Nat.lt_of_not_le hover)
    rw [if_neg hover, hsum]
    dsimp only
    by_cases hlarge : maxChunkedBody < p.out.length + size
    · rw [if_pos hlarge, if_pos hlarge]
    -- from here on the size is small, and the sums with it cannot overflow
    have hmax : maxChunkedBody < 2 ^ 32 := by decide
    have hdata : add usize (p.i + (line.length + 2)) size = .ok _ := add_ok (by rw [usize]; omega)
    have hchunk : add usize (p.i + (line.length + 2) + size) 2 = .ok _ :=
      add_ok (by rw [usize]; omega)
    have hshort : buf.length < p.i + (line.length + 2) + size + 2 ↔ rest.length < size + 2 := by
      omega
    simp only [if_neg hlarge, hdata, hchunk, hshort]
    by_cases hless : rest.length < size + 2
    · rw [if_pos hless, if_pos hless]
    have hslice : slice buf (p.i + (line.length + 2)) (p.i + (line.length + 2) + size) =
        .ok (rest.take size) := by
      rw [slice_ok (Nat.le_add_right _ _) (by omega), hrest, Nat.add_sub_cancel_left]
    have hend : slice buf (p.i + (line.length + 2) + size) (p.i + (line.length + 2) + size + 2) =
        .ok ((rest.drop size).take 2) := by
      rw [slice_ok (Nat.le_add_right _ _) (by omega), ← drop_drop, hrest, Nat.add_sub_cancel_left]
    simp only [if_neg hless, hslice, hend]
    split_ifs <;> rfl

/-- **The decoder with its positions is the decoder.** -/
theorem decodeLoop_run (hbuf : buf.length < 2 ^ 63) {p : Position} (hp : p.i ≤ buf.length) :
    (decodeLoop buf).run p = (decodeChunks p.out (buf.drop p.i)).checked := by
  refine Loop.run_unique (l := decodeLoop buf) (P := fun p => p.i ≤ buf.length)
    (f := fun p => (decodeChunks p.out (buf.drop p.i)).checked)
    (fun p p' _ h => (decodeTurn_moves h).2) ?_ p hp
  intro p hp
  rcases noLine_or_line (buf.drop p.i) with hnone | ⟨line, rest, h, hline⟩
  · have hturn : (decodeLoop buf).turn p = _ := decodeTurn_of_noLine hp hnone
    rw [Loop.after, hturn, decodeChunks_of_noLine hnone]
    rfl
  · have hturn : (decodeLoop buf).turn p = _ := decodeTurn_of_line hbuf hp h hline
    rw [Loop.after, hturn, h]
    by_cases hsize : ∃ size, SizeLine line size
    · obtain ⟨size, hsize⟩ := hsize
      obtain ⟨hdigits, hchunk⟩ := (sizeLine_iff hline).mp hsize
      have hnext : buf.drop (p.i + (line.length + 2) + size + 2) = rest.drop (size + 2) := by
        rw [Nat.add_assoc _ size 2, ← drop_drop, drop_line h]
      rw [decodeChunks_of_sizeLine hsize]
      simp only [if_neg hdigits, hchunk]
      split_ifs
      all_goals first | rfl | exact congrArg (fun b => (decodeChunks _ b).checked) hnext.symm
    · have hbad := not_exists.mp hsize
      have hnot := fun n => mt (sizeLine_iff hline).mpr (hbad n)
      rw [decodeChunks_of_badLine hline hbad]
      dsimp only
      by_cases hdigits :
        line.takeWhile (· ≠ 0x3b) = [] ∨ 16 < (line.takeWhile (· ≠ 0x3b)).length
      · rw [if_pos hdigits]
        rfl
      · rw [if_neg hdigits]
        cases hchunk : chunkSize (line.takeWhile (· ≠ 0x3b)) with
        | none => rfl
        | some n => exact absurd ⟨hdigits, hchunk⟩ (hnot n)

theorem decodeChecked_eq (buf : Buffer UInt8) :
    decodeChecked buf = (decodeChunked buf.items).checked :=
  decodeLoop_run buf.length_lt (Nat.zero_le _)

def Answers (r : Except Panic Chunked) : Prop :=
  r = .ok .incomplete ∨ r = .ok .bad ∨ ∃ body, r = .ok (.done body)

theorem answers_checked_iff (r : Chunked) : Answers r.checked ↔ r ≠ .aborts := by
  cases r <;> simp [Answers, Chunked.checked]

/-- **The decoder answers unless a size overflows**: the sum of a size and the length of what is
decoded already is made before it is compared with the largest body, and a size may have sixteen
digits. -/
theorem answers_iff_not_overflows (buf : Buffer UInt8) :
    Answers (decodeChecked buf) ↔ ¬ Overflows buf.items := by
  rw [decodeChecked_eq, answers_checked_iff]
  exact not_congr (decodeChunked_aborts_iff buf.items)

def largestSize : Buffer UInt8 where
  items := Utf8.encode "1\r\nx\r\nffffffffffffffff\r\n".toList
  length_lt := by decide

theorem largestSize_overflows : ¬ Answers (decodeChecked largestSize) := by
  have hext : IsExtension [] := ⟨rfl, .inl rfl⟩
  have hone : SizeLine [0x31] 1 :=
    ⟨[0x31], [], rfl, by decide, by decide, by decide, by decide, hext⟩
  have hlarge : SizeLine (List.replicate 16 0x66) (2 ^ 64 - 1) :=
    ⟨List.replicate 16 0x66, [], rfl, by decide, by decide, by decide, by decide, hext⟩
  rw [decodeChecked_eq, answers_checked_iff, not_not, decodeChunked_aborts_iff]
  have hcap : 1 ≤ maxChunkedBody := by decide
  have hsum : 2 ^ 64 ≤ 1 + (2 ^ 64 - 1) := by decide
  exact ⟨[⟨[0x31], [0x78], hone, by decide⟩], _, [], _, rfl, hlarge, hcap, hsum⟩

end H1

end M6
