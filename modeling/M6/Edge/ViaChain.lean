import M6.Edge.Forward
import M6.Edge.Vary

/-!
# The chain of `Via`

A request names the hops behind it in `Via`, in one field or in several, and a proxy appends its
own.
The two writers of HTTP/1.1 gather the client's fields in a loop that keeps the last of them, so
that a chain that came in several lines is cut. `viaPreserved_iff` says which chains are not.
-/

namespace M6

open Text

open Text (trim)

/-! ## Lists with blanks around -/

theorem fieldNames_padded_single {a b s : Str} (ha : ∀ c ∈ a, isWhitespace c = true)
    (hb : ∀ c ∈ b, isWhitespace c = true) (hs : ',' ∉ s) :
    fieldNames (a ++ s ++ b) = fieldNames s := by
  have hblank : ∀ {u : Str}, (∀ c ∈ u, isWhitespace c = true) → ',' ∉ u :=
    fun hu hmem => absurd (hu _ hmem) (by decide)
  have hall : ',' ∉ a ++ s ++ b := by
    simp only [List.mem_append, not_or]
    exact ⟨⟨hblank ha, hs⟩, hblank hb⟩
  rw [fieldNames_single hall, fieldNames_single hs, trim_append ha hb]

theorem fieldNames_padded {a b : Str} (ha : ∀ c ∈ a, isWhitespace c = true)
    (hb : ∀ c ∈ b, isWhitespace c = true) (s : Str) : fieldNames (a ++ s ++ b) = fieldNames s := by
  have hnone : ∀ c ∈ ([] : Str), isWhitespace c = true := fun _ h => absurd h List.not_mem_nil
  induction hn : s.length using Nat.strong_induction_on generalizing a s with
  | _ n ih =>
    by_cases hs : ',' ∈ s
    · obtain ⟨u, t, rfl, hu⟩ := List.eq_append_cons_of_mem hs
      have hsplit : a ++ (u ++ ',' :: t) ++ b = (a ++ u ++ []) ++ ',' :: ([] ++ t ++ b) := by simp
      have hlt : t.length < n := by
        rw [← hn, List.length_append, List.length_cons]
        omega
      rw [hsplit, fieldNames_comma, fieldNames_padded_single ha hnone hu, ih _ hlt hnone t rfl,
        fieldNames_comma]
    · exact fieldNames_padded_single ha hb hs

theorem fieldNames_trim (s : Str) : fieldNames (trim s) = fieldNames s := by
  obtain ⟨a, b, hs, ha, hb⟩ := exists_trim s
  conv_rhs => rw [hs]
  exact (fieldNames_padded ha hb _).symm

/-! ## The chain -/

theorem fieldNames_own (version : Str) :
    fieldNames (viaValue none version) = [viaValue none version] := by
  rw [viaValue]
  split_ifs
  · rfl
  · rfl
  · rfl
  · rfl

/-- **This hop is appended to what one value lists.** -/
theorem fieldNames_viaValue (prior : Option Str) (version : Str) :
    fieldNames (viaValue prior version) =
      prior.toList.flatMap fieldNames ++ [viaValue none version] := by
  cases prior with
  | none => exact fieldNames_own version
  | some v =>
    rw [viaValue_some, Option.toList_some, List.flatMap_singleton]
    split_ifs with hblank
    · have hjoin : trim v ++ ", ".toList ++ viaValue none version =
          trim v ++ ',' :: ' ' :: viaValue none version := by
        rw [List.append_assoc]
        rfl
      rw [hjoin, fieldNames_comma, fieldNames_space, fieldNames_trim, fieldNames_own]
    · rw [← fieldNames_trim v, not_not.mp hblank, fieldNames_own]
      rfl

/-- The hops that a request has behind it, over all its lines. -/
def viaMembers (headers : List (Str × Str)) : List Str :=
  (fieldValues headers "via".toList).flatMap fieldNames

/-- **A request that leaves names all its hops**: one `Via`, with those it came with, in order, and
this one. -/
def ViaPreserved (req : RawRequest) (fields : List (Str × Str)) : Prop :=
  ∃ v, fieldValues fields "via".toList = [v] ∧
    fieldNames v = viaMembers req.headers ++ [viaValue none req.version]

theorem viaPreserved_of_value {req : RawRequest} {fields : List (Str × Str)}
    (h : fieldValues fields "via".toList =
      [viaValue (fieldValues req.headers "via".toList).getLast? req.version]) :
    ViaPreserved req fields ↔
      ∀ v ∈ (fieldValues req.headers "via".toList).dropLast, fieldNames v = [] := by
  rw [ViaPreserved, h, viaMembers]
  simp only [List.cons.injEq, and_true, exists_eq_left', fieldNames_viaValue, List.append_left_inj]
  induction fieldValues req.headers "via".toList using List.reverseRecOn with
  | nil => simp
  | append_singleton values v _ =>
    rw [List.getLast?_concat, List.dropLast_concat, Option.toList_some, List.flatMap_singleton,
      List.flatMap_append, List.flatMap_singleton, List.self_eq_append_left,
      List.flatMap_eq_nil_iff]

/-- **When the chain is whole.** Whatever a request and whatever its `Via` fields, it leaves over a
unix socket, and for an http or https URL, with one `Via` that has its hops and this one, exactly if
it is refused, or of its `Via` fields none but the last lists a hop. -/
theorem viaPreserved_iff (host : Str) (req : RawRequest) (clientIp originalHost : Str) :
    ((∀ fields, written .unixSocket host req clientIp originalHost = some fields →
        ViaPreserved req fields) ↔ (checkForwardable req clientIp originalHost = true →
        ∀ v ∈ (fieldValues req.headers "via".toList).dropLast, fieldNames v = [])) ∧
    ((∀ fields, written .url host req clientIp originalHost = some fields →
        ViaPreserved req fields) ↔ (checkForwardable req clientIp originalHost = true →
        ∀ v ∈ (fieldValues req.headers "via".toList).dropLast, fieldNames v = [])) := by
  have hsocket : fieldValues (forwardedFields req clientIp originalHost) "via".toList =
      [viaValue (fieldValues req.headers "via".toList).getLast? req.version] := by
    rw [forwardedFields, fieldValues_append, via_copied, via_proxyFields]
    rfl
  have hurl : fieldValues (urlForwardedFields host req clientIp originalHost) "via".toList =
      [viaValue (fieldValues req.headers "via".toList).getLast? req.version] := by
    rw [fieldValues_url host _ _ _ (by decide), hsocket]
  rw [written, written]
  cases checkForwardable req clientIp originalHost with
  | false => simp
  | true =>
    simp only [if_true, Option.some.injEq, forall_eq', true_implies]
    exact ⟨viaPreserved_of_value hsocket, viaPreserved_of_value hurl⟩

def twoHops : RawRequest where
  method := "GET".toList
  path := "/".toList
  query := none
  version := "HTTP/1.1".toList
  headers := [("Via".toList, "1.0 a".toList), ("Via".toList, "1.1 b".toList)]
  body := []

theorem hop_lost :
    (¬ ∀ fields, written .unixSocket [] twoHops "203.0.113.7".toList [] = some fields →
        ViaPreserved twoHops fields) ∧
      ¬ ∀ fields, written .url [] twoHops "203.0.113.7".toList [] = some fields →
        ViaPreserved twoHops fields := by
  have hcheck : checkForwardable twoHops "203.0.113.7".toList [] = true := by decide
  have hvalues : ∀ fields, fieldValues fields "via".toList = ["1.1 b, 1.1 m6".toList] →
      ¬ ViaPreserved twoHops fields := by
    rintro fields hv ⟨v, hone, hmembers⟩
    obtain rfl := List.singleton_inj.mp (hv.symm.trans hone)
    exact absurd hmembers (by decide)
  refine ⟨fun h => ?_, fun h => ?_⟩
  · exact hvalues (forwardedFields twoHops "203.0.113.7".toList []) (by decide)
      (h _ (by rw [written, if_pos hcheck]))
  · exact hvalues (urlForwardedFields [] twoHops "203.0.113.7".toList []) (by decide)
      (h _ (by rw [written, if_pos hcheck]))

end M6
