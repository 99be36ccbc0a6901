import Mathlib.Data.List.Basic

/-!
# Chunks

A text in chunks: each is a line that names a length, and then so many elements, with a separator
behind the line and behind the elements. What lines name a length, and how, is a parameter.
-/

namespace Chunking

variable {α : Type} {sep : List α} {Names Names' : List α → Nat → Prop}

/-- **A chunk**, whose line names the length of its data. -/
structure Chunk (Names : List α → Nat → Prop) where
  line : List α
  data : List α
  names : Names line data.length
  data_ne : data ≠ []

namespace Chunk

def text (sep : List α) (c : Chunk Names) : List α := c.line ++ sep ++ (c.data ++ sep)

@[simp] theorem length_text (c : Chunk Names) :
    (c.text sep).length = c.line.length + (sep.length + (c.data.length + sep.length)) := by
  simp [text]

theorem exists_of_line (sep : List α) {line rest : List α} {n : Nat} (h : Names line n)
    (hn : n ≠ 0) (hlen : n ≤ rest.length) (hend : (rest.drop n).take sep.length = sep) :
    ∃ c : Chunk Names, c.line = line ∧ c.data = rest.take n ∧
      line ++ (sep ++ rest) = c.text sep ++ rest.drop (n + sep.length) := by
  have hdata : (rest.take n).length = n := List.length_take_of_le hlen
  have hne : rest.take n ≠ [] := by
    rintro heq
    rw [heq] at hdata
    exact hn hdata.symm
  refine ⟨⟨line, rest.take n, hdata.symm ▸ h, hne⟩, rfl, rfl, ?_⟩
  have hsplit : rest = rest.take n ++ (sep ++ rest.drop (n + sep.length)) := by
    conv_lhs =>
      rw [← List.take_append_drop n rest, ← List.take_append_drop sep.length (rest.drop n), hend,
        List.drop_drop]
  simp only [text, List.append_assoc]
  rw [← hsplit]

theorem length_pos (c : Chunk Names) : 0 < c.data.length := List.length_pos_of_ne_nil c.data_ne

end Chunk

def texts (sep : List α) (cs : List (Chunk Names)) : List α := cs.flatMap (Chunk.text sep)

def content (cs : List (Chunk Names)) : List α := cs.flatMap Chunk.data

@[simp] theorem texts_nil : texts sep ([] : List (Chunk Names)) = [] := rfl

@[simp] theorem texts_cons (c : Chunk Names) (cs : List (Chunk Names)) :
    texts sep (c :: cs) = c.text sep ++ texts sep cs := rfl

@[simp] theorem content_nil : content ([] : List (Chunk Names)) = [] := rfl

@[simp] theorem content_cons (c : Chunk Names) (cs : List (Chunk Names)) :
    content (c :: cs) = c.data ++ content cs := rfl

@[simp] theorem texts_concat (cs : List (Chunk Names)) (c : Chunk Names) :
    texts sep (cs ++ [c]) = texts sep cs ++ c.text sep := by
  simp [texts]

@[simp] theorem content_concat (cs : List (Chunk Names)) (c : Chunk Names) :
    content (cs ++ [c]) = content cs ++ c.data := by
  simp [content]

theorem exists_chunks (sep : List α) {cs : List (Chunk Names)}
    (h : ∀ c ∈ cs, Names' c.line c.data.length) :
    ∃ cs' : List (Chunk Names'), texts sep cs' = texts sep cs ∧ content cs' = content cs := by
  induction cs with
  | nil => exact ⟨[], rfl, rfl⟩
  | cons c cs ih =>
    obtain ⟨hc, hcs⟩ := List.forall_mem_cons.mp h
    obtain ⟨cs', htexts, hcontent⟩ := ih hcs
    refine ⟨⟨c.line, c.data, hc, c.data_ne⟩ :: cs', ?_, ?_⟩
    · rw [texts_cons, texts_cons, htexts]
      rfl
    · rw [content_cons, content_cons, hcontent]

theorem cut_append_cases {p a b : List α} (h : p <+: a ++ b) (hlen : p.length < (a ++ b).length) :
    (p <+: a ∧ p.length < a.length) ∨ ∃ q, p = a ++ q ∧ q <+: b ∧ q.length < b.length := by
  by_cases hshort : p.length < a.length
  · exact .inl ⟨List.prefix_of_prefix_length_le h (List.prefix_append a b) (by omega), hshort⟩
  · obtain ⟨q, rfl⟩ :=
      List.prefix_of_prefix_length_le (List.prefix_append a b) h (Nat.le_of_not_lt hshort)
    rw [List.length_append, List.length_append] at hlen
    exact .inr ⟨q, rfl, (List.prefix_append_right_inj a).mp h, by omega⟩

end Chunking
