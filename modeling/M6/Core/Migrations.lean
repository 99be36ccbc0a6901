import M6.Core.Sqlite

/-!
# Each migration once

Any number of processes bring one file up, with lists of which one is a prefix of the other. A
process relies on what the others may do between its calls (`relies`) and guarantees what its own
calls do (`guarantees`): nothing but a commit changes the file, and a commit takes it from one
version to the next. So the file is at all times what the migrations up to its version have made of
it (`Inv`), whoever ran them, and no process writes into a file that is newer than its list.
-/

namespace M6.Sqlite

open Sharing Option

variable {ι D Fault : Type} (lists : ι → List Migration) (runs : Str → D → D → Prop)
  (start : Content D)

/-! ## What holds of the file -/

/-- **What migrations have made of a file**: each as the next of some process's list. -/
inductive Built : Content D → Prop where
  | start : Built start
  | migrated {c : Content D} {m : Migration} {d : D} {i : ι} (before : Built c)
      (next : (lists i)[c.version]? = some m) (ran : runs m.sql c.data d) :
      Built ⟨c.version + 1, d⟩

/-- **What holds at all times.** -/
structure Inv (w : World ι D) : Prop where
  exclusive : ∀ i j, (w.conns i).tx ≠ none → (w.conns j).tx ≠ none → i = j
  built : Built lists runs start w.file
  /-- the versions that were committed, each once and in order -/
  committed : start.version ≤ w.file.version ∧
    w.committed = List.range' (start.version + 1) (w.file.version - start.version)
  unwritten : ∀ i c, (w.conns i).tx = some c → c = w.file ∨ w.file.version < (lists i).length

/-- What a step of a process does to the file: nothing, or it commits the next migration of the
process's list. -/
inductive Writes (i : ι) (w w' : World ι D) : Prop where
  | nothing (file : w'.file = w.file) (committed : w'.committed = w.committed)
  | migration (m : Migration) (next : (lists i)[w.file.version]? = some m)
      (inside : (w.conns i).tx = some w'.file) (version : w'.file.version = w.file.version + 1)
      (ran : runs m.sql w.file.data w'.file.data)
      (committed : w'.committed = w.committed ++ [w.file.version + 1])

def guarantees (i : ι) (w w' : World ι D) : Prop :=
  (∀ j, j ≠ i → w'.conns j = w.conns j) ∧
    (Inv lists runs start w → Inv lists runs start w' ∧ Writes lists runs i w w')

def relies (i : ι) (w w' : World ι D) : Prop :=
  w'.conns i = w.conns i ∧
    (Inv lists runs start w → Inv lists runs start w' ∧ w.file.version ≤ w'.file.version ∧
      ((w.conns i).tx ≠ none → w'.file = w.file))

variable {lists runs start}

variable {i : ι}

theorem Writes.version_le {w w' : World ι D} (h : Writes lists runs i w w') :
    w.file.version ≤ w'.file.version := by
  cases h with
  | nothing file _ => rw [file]
  | migration m _ _ version _ _ => omega

theorem relies_refl (i : ι) (w : World ι D) : relies lists runs start i w w :=
  ⟨rfl, fun h => ⟨h, le_rfl, fun _ => rfl⟩⟩

theorem relies_trans (i : ι) (w₁ w₂ w₃ : World ι D) (h₁₂ : relies lists runs start i w₁ w₂)
    (h₂₃ : relies lists runs start i w₂ w₃) : relies lists runs start i w₁ w₃ := by
  refine ⟨h₂₃.1.trans h₁₂.1, fun hinv => ?_⟩
  obtain ⟨hinv₂, hle₁₂, hfile₁₂⟩ := h₁₂.2 hinv
  obtain ⟨hinv₃, hle₂₃, hfile₂₃⟩ := h₂₃.2 hinv₂
  refine ⟨hinv₃, hle₁₂.trans hle₂₃, fun htx => ?_⟩
  have htx₂ : (w₂.conns i).tx ≠ none := by rwa [h₁₂.1]
  exact (hfile₂₃ htx₂).trans (hfile₁₂ htx)

theorem relies_of_guarantees (i j : ι) (w w' : World ι D) (hij : i ≠ j)
    (h : guarantees lists runs start i w w') : relies lists runs start j w w' := by
  refine ⟨h.1 j (Ne.symm hij), fun hinv => ?_⟩
  obtain ⟨hinv', hwrites⟩ := h.2 hinv
  refine ⟨hinv', hwrites.version_le, fun htx => ?_⟩
  cases hwrites with
  | nothing file _ => exact file
  | migration m _ inside _ _ _ =>
    have hopen : (w.conns i).tx ≠ none := by
      rw [inside]
      exact some_ne_none _
    exact absurd (hinv.exclusive i j hopen htx) hij

theorem guarantees_refl (i : ι) (w : World ι D) : guarantees lists runs start i w w :=
  ⟨fun _ _ => rfl, fun h => ⟨h, .nothing rfl rfl⟩⟩

theorem Built.own (hlists : ∀ i j, lists i <+: lists j ∨ lists j <+: lists i)
    {c : Content D} (h : Built lists runs start c) (hle : c.version ≤ (lists i).length) :
    Built (fun _ : Unit => lists i) runs start c := by
  induction h with
  | start => exact .start
  | migrated before next ran ih =>
    rename_i c m d j
    have hlt : c.version < (lists i).length := hle
    refine .migrated (i := ()) (ih hlt.le) ?_ ran
    obtain ⟨hj, hm⟩ := List.getElem?_eq_some_iff.mp next
    rw [List.getElem?_eq_getElem hlt, ← hm]
    obtain hpre | hpre := hlists i j
    · exact congrArg some (hpre.getElem hlt)
    · exact congrArg some (hpre.getElem hj).symm

theorem inv_start {w₀ : World ι D} (hopen : ∀ i, (w₀.conns i).tx = none)
    (hnone : w₀.committed = []) : Inv lists runs w₀.file w₀ where
  exclusive := fun i _ hi _ => absurd (hopen i) hi
  built := .start
  committed := ⟨le_rfl, by rw [hnone, Nat.sub_self, List.range'_zero]⟩
  unwritten := fun i _ hc => nomatch (hopen i).symm.trans hc

/-! ## What a process knows -/

/-- No transaction is open, unless one could not be dropped, and the file is at least at a version.
Where `clean`, what is still open has changed nothing. -/
structure Outside (lists : ι → List Migration) (runs : Str → D → D → Prop) (start : Content D)
    (i : ι) (clean : Prop) (k : Nat) (w : World ι D) : Prop where
  inv : Inv lists runs start w
  closed : (w.conns i).tx = none ∨ (w.conns i).rollbackFailed = true
  unchanged : clean → ∀ c, (w.conns i).tx = some c → c = w.file
  reached : k ≤ w.file.version

/-- A transaction is open, on a file that nobody else changes. -/
structure Inside (lists : ι → List Migration) (runs : Str → D → D → Prop) (start : Content D)
    (i : ι) (file content : Content D) (w : World ι D) : Prop where
  inv : Inv lists runs start w
  tx : (w.conns i).tx = some content
  file : w.file = file

/-- A transaction may be open. -/
structure Anyhow (lists : ι → List Migration) (runs : Str → D → D → Prop) (start : Content D)
    (k : Nat) (w : World ι D) : Prop where
  inv : Inv lists runs start w
  reached : k ≤ w.file.version

variable {k : Nat} {clean : Prop}

theorem unchanged_relied {w w' : World ι D} (h : ∀ c, (w.conns i).tx = some c → c = w.file)
    (hinv : Inv lists runs start w) (hrely : relies lists runs start i w w') (c : Content D)
    (hc : (w'.conns i).tx = some c) : c = w'.file := by
  rw [hrely.1] at hc
  have hopen : (w.conns i).tx ≠ none := by
    rw [hc]
    exact some_ne_none c
  rw [(hrely.2 hinv).2.2 hopen, h c hc]

theorem Outside.relied {w w' : World ι D} (h : Outside lists runs start i clean k w)
    (hrely : relies lists runs start i w w') : Outside lists runs start i clean k w' := by
  obtain ⟨hinv, hle, -⟩ := hrely.2 h.inv
  refine ⟨hinv, ?_, fun hclean => unchanged_relied (h.unchanged hclean) h.inv hrely,
    h.reached.trans hle⟩
  rw [hrely.1]
  exact h.closed

variable {file content : Content D}

theorem Inside.relied {w w' : World ι D}
    (h : Inside lists runs start i file content w) (hrely : relies lists runs start i w w') :
    Inside lists runs start i file content w' := by
  obtain ⟨hinv, -, hfile⟩ := hrely.2 h.inv
  refine ⟨hinv, by rw [hrely.1, h.tx], ?_⟩
  rw [hfile (by rw [h.tx]; exact some_ne_none _), h.file]

variable {w : World ι D}

theorem Inside.not_free
    (h : Inside lists runs start i file content w) : ¬ ∀ j, (w.conns j).tx = none := by
  intro hfree
  exact nomatch (hfree i).symm.trans h.tx

theorem Anyhow.relied {w w' : World ι D} (h : Anyhow lists runs start k w)
    (hrely : relies lists runs start i w w') : Anyhow lists runs start k w' := by
  obtain ⟨hinv, hle, -⟩ := hrely.2 h.inv
  exact ⟨hinv, h.reached.trans hle⟩

theorem Outside.anyhow (h : Outside lists runs start i clean k w) :
    Anyhow lists runs start k w := ⟨h.inv, h.reached⟩

theorem Outside.seen (h : Outside lists runs start i True k w) : w.seen i = w.file := by
  rw [World.seen]
  cases htx : (w.conns i).tx with
  | none => rfl
  | some c => exact h.unchanged trivial c htx

theorem anyhow_of_guarantees {w w' : World ι D}
    (h : Anyhow lists runs start k w) (hguar : guarantees lists runs start i w w') :
    Anyhow lists runs start k w' := by
  obtain ⟨hinv, hwrites⟩ := hguar.2 h.inv
  exact ⟨hinv, h.reached.trans hwrites.version_le⟩

theorem Outside.weaken {k k' : Nat} (h : Outside lists runs start i clean k w)
    (hle : k' ≤ k) : Outside lists runs start i clean k' w :=
  ⟨h.inv, h.closed, h.unchanged, hle.trans h.reached⟩

theorem Outside.any (h : Outside lists runs start i True k w) :
    Outside lists runs start i clean k w :=
  ⟨h.inv, h.closed, fun _ => h.unchanged trivial, h.reached⟩

theorem Anyhow.weaken {k k' : Nat} (h : Anyhow lists runs start k w)
    (hle : k' ≤ k) : Anyhow lists runs start k' w := ⟨h.inv, hle.trans h.reached⟩

theorem Inside.anyhow (h : Inside lists runs start i file content w) (hle : k ≤ file.version) :
    Anyhow lists runs start k w := ⟨h.inv, by rw [h.file]; exact hle⟩

/-- What a transaction promises: the migration is committed by it, or was before, or the file is
still there. -/
structure Transacted (lists : ι → List Migration) (runs : Str → D → D → Prop) (start : Content D)
    (i : ι) (k : Nat) (r : Except (SqliteError Fault) Bool) (w : World ι D) : Prop where
  committed : r = .ok true → Outside lists runs start i True (k + 1) w
  skipped : r = .ok false → Anyhow lists runs start (k + 1) w ∧
    ∀ c, (w.conns i).tx = some c → c = w.file
  failed : ∀ e, r = .error e → Anyhow lists runs start k w

theorem transacted_error (e : SqliteError Fault)
    (h : Anyhow lists runs start k w) : Transacted lists runs start i k (.error e) w :=
  ⟨(fun heq => nomatch heq), (fun heq => nomatch heq), fun _ _ => h⟩

/-- The setting is as it was, unless the call that puts it back failed, or did nothing in a
transaction that could not be dropped. -/
def PutBack (fkWasOn : Bool) (c : Conn D) : Prop :=
  c.foreignKeys = fkWasOn ∨ c.pragmaFailed = true ∨ c.rollbackFailed = true

/-- **What `migrate` promises** when it returns, to a process that had foreign keys on, or off. No
transaction is open, unless one could not be dropped, the setting is put back, and where it reports
a version the file has it, and that is the last of the list. -/
structure Returned (lists : ι → List Migration) (fkWasOn : Bool) (i : ι)
    (r : Except (SqliteError Fault) Nat) (w : World ι D) : Prop where
  closed : (w.conns i).tx = none ∨ (w.conns i).rollbackFailed = true
  foreignKeys : PutBack fkWasOn (w.conns i)
  reached : ∀ v, r = .ok v → w.file.version = v ∧ v = (lists i).length

theorem returned_error {fkWasOn : Bool} (e : SqliteError Fault)
    (h : Outside lists runs start i clean k w) (hfk : PutBack fkWasOn (w.conns i)) :
    Returned lists fkWasOn i (.error e) w :=
  ⟨h.closed, hfk, fun _ heq => nomatch heq⟩

/-! ## Steps that leave the file alone -/

variable [DecidableEq ι]

/-- The connection of one process changes, and a transaction is open in it only where one may be. -/
theorem guarantees_conn {c : Conn D}
    (hopen : c.tx ≠ none → (w.conns i).tx ≠ none ∨ ∀ j, (w.conns j).tx = none)
    (hwritten : ∀ content, c.tx = some content →
      content = w.file ∨ w.file.version < (lists i).length) :
    guarantees lists runs start i w (w.setConn i c) := by
  have hself : (w.setConn i c).conns i = c := w.setConn_self i c
  have hother : ∀ j, j ≠ i → (w.setConn i c).conns j = w.conns j :=
    fun j hj => w.setConn_other c hj
  refine ⟨hother, fun h => ⟨⟨?_, h.built, h.committed, ?_⟩, .nothing rfl rfl⟩⟩
  · -- another transaction is open only where there was one
    have hwas : ∀ j, j ≠ i → ((w.setConn i c).conns j).tx ≠ none → c.tx ≠ none → False := by
      intro j hj htx hc
      rw [hother j hj] at htx
      obtain hi | hnone := hopen hc
      · exact hj (h.exclusive j i htx hi)
      · exact htx (hnone j)
    intro j k hj hk
    by_cases hji : j = i
    · by_cases hki : k = i
      · rw [hji, hki]
      · rw [hji, hself] at hj
        exact (hwas k hki hk hj).elim
    · by_cases hki : k = i
      · rw [hki, hself] at hk
        exact (hwas j hji hj hk).elim
      · rw [hother j hji] at hj
        rw [hother k hki] at hk
        exact h.exclusive j k hj hk
  · intro j content hj
    by_cases hji : j = i
    · subst hji
      rw [hself] at hj
      exact hwritten content hj
    · rw [hother j hji] at hj
      exact h.unwritten j content hj

/-! ## Calls -/

abbrev Keeps (lists : ι → List Migration) (runs : Str → D → D → Prop) (start : Content D) (i : ι)
    {R : Type} (post : R → World ι D → Prop) (p : Program Fault R) (w : World ι D) : Prop :=
  Safe (Answers runs i) (relies lists runs start i) (guarantees lists runs start i) post p w

/-- `?` goes on where the first program promises to. -/
theorem keeps_andThen {A B : Type} {mid : A → World ι D → Prop}
    {post : Except (SqliteError Fault) B → World ι D → Prop}
    {p : Program Fault (Except (SqliteError Fault) A)}
    {f : A → Program Fault (Except (SqliteError Fault) B)} (hp : Keeps lists runs start i
      (fun r w' => (∀ a, r = .ok a → mid a w') ∧ ∀ e, r = .error e → post (.error e) w') p w)
    (hf : ∀ a w', mid a w' → Keeps lists runs start i post (f a) w') :
    Keeps lists runs start i post (andThen p f) w := by
  refine Safe.bind hp fun r w' hr => ?_
  cases r with
  | ok a => exact hf a w' (hr.1 a rfl)
  | error e => exact hr.2 e rfl

variable {tx : Option (Content D)} {c : Call}

theorem guarantees_failed (hleft : LeftBy c (w.conns i).tx tx)
    (hwritten : ∀ content, tx = some content →
      content = w.file ∨ w.file.version < (lists i).length) :
    guarantees lists runs start i w (w.setConn i (afterFailure c (w.conns i) tx)) := by
  refine guarantees_conn (fun hopen => .inl ?_) hwritten
  obtain rfl | rfl | ⟨sql, content, data, -, hinside, -⟩ := hleft
  · exact hopen
  · exact absurd rfl hopen
  · rw [hinside]
    exact some_ne_none _

theorem LeftBy.of_not_execute {before : Option (Content D)} (h : LeftBy c before tx)
    (hc : ∀ sql, c ≠ .execute sql) : tx = before ∨ tx = none := by
  obtain rfl | rfl | ⟨sql, _, _, rfl, -, -⟩ := h
  · exact .inl rfl
  · exact .inr rfl
  · exact absurd rfl (hc sql)

theorem rollbackFailed_afterFailure {conn : Conn D} (h : conn.rollbackFailed = true) :
    (afterFailure c conn tx).rollbackFailed = true := by
  cases c <;> first | exact h | rfl

theorem outside_failed (hc : ∀ sql, c ≠ .execute sql)
    (h : Outside lists runs start i clean k w) (hleft : LeftBy c (w.conns i).tx tx) :
    guarantees lists runs start i w (w.setConn i (afterFailure c (w.conns i) tx)) ∧
      Outside lists runs start i clean k (w.setConn i (afterFailure c (w.conns i) tx)) := by
  have hsame := hleft.of_not_execute hc
  have hguar : guarantees lists runs start i w (w.setConn i (afterFailure c (w.conns i) tx)) := by
    refine guarantees_failed hleft fun content heq => ?_
    obtain rfl | rfl := hsame
    · exact h.inv.unwritten i content heq
    · cases heq
  obtain ⟨hinv, hreached⟩ := anyhow_of_guarantees h.anyhow hguar
  refine ⟨hguar, hinv, ?_, ?_, hreached⟩ <;> rw [World.setConn_self]
  · obtain rfl | rfl := hsame
    · exact h.closed.imp_right rollbackFailed_afterFailure
    · exact .inl rfl
  · obtain rfl | rfl := hsame
    · exact h.unchanged
    · rintro _ _ ⟨⟩

theorem inside_failed (h : Inside lists runs start i file content w)
    (hroom : ∀ sql, c = .execute sql → file.version < (lists i).length)
    (hleft : LeftBy c (w.conns i).tx tx) :
    guarantees lists runs start i w (w.setConn i (afterFailure c (w.conns i) tx)) ∧
      Anyhow lists runs start file.version (w.setConn i (afterFailure c (w.conns i) tx)) := by
  have hguar : guarantees lists runs start i w (w.setConn i (afterFailure c (w.conns i) tx)) := by
    refine guarantees_failed hleft fun content' heq => ?_
    obtain rfl | rfl | ⟨sql, _, _, rfl, -, -⟩ := hleft
    · exact h.inv.unwritten i content' heq
    · exact nomatch heq
    · right
      rw [h.file]
      exact hroom sql rfl
  exact ⟨hguar, anyhow_of_guarantees ⟨h.inv, by rw [h.file]⟩ hguar⟩

/-! ### Outside of a transaction -/

/-- The setting, and whether a transaction could not be dropped. -/
def setting (c : Conn D) : Bool × Bool := (c.foreignKeys, c.rollbackFailed)

/-- What a reading call promises: the setting is as it was, and something of what came back. -/
def ReadPost (lists : ι → List Migration) (runs : Str → D → D → Prop) (start : Content D) (i : ι)
    (k : Nat) (conn : Conn D) {A : Type} (good : A → World ι D → Prop)
    (r : Except (SqliteError Fault) A) (w : World ι D) : Prop :=
  (∀ a, r = .ok a → Outside lists runs start i True k w ∧ setting (w.conns i) = setting conn ∧
      good a w) ∧
    ∀ e, r = .error e → Outside lists runs start i True k w ∧ setting (w.conns i) = setting conn

theorem putBack_of_setting {fkWasOn : Bool} {conn conn' : Conn D} (h : setting conn' = setting conn)
    (hset : conn.foreignKeys = fkWasOn ∨ conn.rollbackFailed = true) : PutBack fkWasOn conn' := by
  obtain ⟨hfk, hfailed⟩ := Prod.mk.inj h
  exact hset.imp hfk.trans fun hrolled => .inr (hfailed.trans hrolled)

theorem read_failed (hc : c = .userVersion ∨ c = .foreignKeys)
    {A : Type} {good : A → World ι D → Prop} (e : SqliteError Fault)
    (h : Outside lists runs start i True k w) (hleft : LeftBy c (w.conns i).tx tx) :
    guarantees lists runs start i w (w.setConn i (afterFailure c (w.conns i) tx)) ∧
      ReadPost lists runs start i k (w.conns i) good (.error e)
        (w.setConn i (afterFailure c (w.conns i) tx)) := by
  have hreads : ∀ sql, c ≠ .execute sql := by
    rintro sql rfl
    obtain hc | hc := hc <;> cases hc
  obtain ⟨hguar, hout⟩ := outside_failed hreads h hleft
  refine ⟨hguar, (fun a ha => nomatch ha), fun _ _ => ⟨hout, ?_⟩⟩
  rw [World.setConn_self]
  obtain rfl | rfl := hc <;> rfl

variable (fail : Fault → SqliteError Fault)

theorem keeps_userVersion (h : Outside lists runs start i True k w) : Keeps lists runs start i
      (ReadPost lists runs start i k (w.conns i) fun (v : Nat) w' => v = w'.file.version)
      (attempt .userVersion fail) w := by
  intro w₁ a w₂ hrely hans
  have h₁ := h.relied hrely
  rw [← hrely.1]
  cases hans with
  | userVersion =>
    refine ⟨guarantees_refl i w₁, fun v hv => ⟨h₁, rfl, ?_⟩, fun e he => nomatch he⟩
    cases hv
    rw [h₁.seen]
  | failed e hleft => exact read_failed (.inl rfl) _ h₁ hleft

theorem keeps_foreignKeys (h : Outside lists runs start i True k w) : Keeps lists runs start i
      (ReadPost lists runs start i k (w.conns i) fun (on : Bool) _ =>
        on = (w.conns i).foreignKeys) (attempt .foreignKeys fail) w := by
  intro w₁ a w₂ hrely hans
  have h₁ := h.relied hrely
  rw [← hrely.1]
  cases hans with
  | foreignKeys =>
    refine ⟨guarantees_refl i w₁, fun on hon => ⟨h₁, rfl, ?_⟩, fun e he => nomatch he⟩
    cases hon
    rfl
  | failed e hleft => exact read_failed (.inr rfl) _ h₁ hleft

/-- A connection of which only what it says of `foreign_keys` changes. -/
theorem outside_setConn (conn : Conn D) (h : Outside lists runs start i clean k w)
    (htx : conn.tx = (w.conns i).tx) (hfailed : conn.rollbackFailed = (w.conns i).rollbackFailed) :
    guarantees lists runs start i w (w.setConn i conn) ∧
      Outside lists runs start i clean k (w.setConn i conn) := by
  have hguar : guarantees lists runs start i w (w.setConn i conn) := by
    refine guarantees_conn (fun hopen => .inl (htx ▸ hopen)) fun content heq => ?_
    exact h.inv.unwritten i content (htx.symm.trans heq)
  obtain ⟨hinv, hreached⟩ := anyhow_of_guarantees h.anyhow hguar
  refine ⟨hguar, hinv, ?_, ?_, hreached⟩ <;> rw [World.setConn_self, htx]
  · rw [hfailed]
    exact h.closed
  · exact h.unchanged

theorem keeps_setForeignKeys (on : Bool)
    (fail : Fault → SqliteError Fault) (h : Outside lists runs start i clean k w) :
    Keeps lists runs start i (fun r w' => Outside lists runs start i clean k w' ∧
        (∀ a, r = .ok a → (w'.conns i).foreignKeys = on ∨ (w'.conns i).rollbackFailed = true) ∧
        PutBack on (w'.conns i)) (attempt (.setForeignKeys on) fail) w := by
  intro w₁ a w₂ hrely hans
  have h₁ := h.relied hrely
  cases hans with
  | setForeignKeys hfree =>
    obtain ⟨hguar, hout⟩ := outside_setConn
      { w₁.conns i with foreignKeys := on, pragmaFailed := false } h₁ rfl rfl
    refine ⟨hguar, hout, fun _ _ => .inl ?_, .inl ?_⟩ <;> rw [World.setConn_self]
  | ignored hinside =>
    obtain ⟨hguar, hout⟩ := outside_setConn
      { w₁.conns i with pragmaFailed := false } h₁ rfl rfl
    -- a transaction that is open outside of one could not be dropped
    have hfailed : (w₁.conns i).rollbackFailed = true := by
      obtain hnone | hfailed := h₁.closed
      · cases hnone.symm.trans hinside
      · exact hfailed
    refine ⟨hguar, hout, fun _ _ => .inr ?_, .inr (.inr ?_)⟩ <;>
    · rw [World.setConn_self]
      exact hfailed
  | failed e hleft =>
    obtain ⟨hguar, hout⟩ := outside_failed (by nofun) h₁ hleft
    refine ⟨hguar, hout, (fun a ha => nomatch ha), .inr (.inl ?_)⟩
    rw [World.setConn_self]
    rfl

theorem keeps_begin (h : Outside lists runs start i clean k w) :
    Keeps lists runs start i (fun r w' =>
        (∀ a, r = .ok a → ∃ file, k ≤ file.version ∧ Inside lists runs start i file file w') ∧
        ∀ e, r = .error e → Outside lists runs start i clean k w')
      (attempt .beginImmediate fail) w := by
  intro w₁ a w₂ hrely hans
  have h₁ := h.relied hrely
  cases hans with
  | beginImmediate hfree =>
    have hguar : guarantees lists runs start i w₁ (w₁.setTx i (some w₁.file)) := by
      refine guarantees_conn (fun _ => .inr hfree) fun content heq => .inl ?_
      exact (some.inj heq).symm
    obtain ⟨hinv, hreached⟩ := anyhow_of_guarantees h₁.anyhow hguar
    refine ⟨hguar, fun _ _ => ⟨w₁.file, h₁.reached, hinv, ?_, rfl⟩, fun e he => nomatch he⟩
    exact w₁.setTx_self i _
  | failed e hleft =>
    obtain ⟨hguar, hout⟩ := outside_failed (by nofun) h₁ hleft
    refine ⟨hguar, ?_, fun _ _ => hout⟩
    rintro a ⟨⟩

/-- **A transaction is dropped**, or could not be, and is still open as it was. -/
theorem keeps_rollback {R : Type} {r : R} {post : R → World ι D → Prop}
    (h : Anyhow lists runs start k w) (hclean : clean → ∀ c, (w.conns i).tx = some c → c = w.file)
    (hpost : ∀ w', Outside lists runs start i clean k w' → post r w') :
    Keeps lists runs start i post (.call .rollback fun _ : Call.Answer Fault .rollback => .ret r)
      w := by
  intro w₁ a w₂ hrely hans
  have h₁ := h.relied hrely
  cases hans with
  | rollback =>
    have hguar : guarantees lists runs start i w₁ (w₁.setTx i none) :=
      guarantees_conn (fun hopen => absurd rfl hopen) fun _ heq => nomatch heq
    obtain ⟨hinv, hreached⟩ := anyhow_of_guarantees h₁ hguar
    refine ⟨hguar, hpost _ ⟨hinv, .inl (w₁.setTx_self i none), fun _ c hc => ?_, hreached⟩⟩
    cases (w₁.setTx_self i none).symm.trans hc
  | @failed _ _ tx e hleft =>
    have hsame := hleft.of_not_execute (by nofun)
    have hguar : guarantees lists runs start i w₁
        (w₁.setConn i (afterFailure .rollback (w₁.conns i) tx)) := by
      refine guarantees_failed hleft fun content heq => ?_
      obtain rfl | rfl := hsame
      · exact h₁.inv.unwritten i content heq
      · cases heq
    obtain ⟨hinv, hreached⟩ := anyhow_of_guarantees h₁ hguar
    refine ⟨hguar, hpost _ ⟨hinv, .inr ?_, fun hc c htx => ?_, hreached⟩⟩
    · rw [World.setConn_self]
      rfl
    · rw [World.setConn_self] at htx
      obtain rfl | rfl := hsame
      · exact unchanged_relied (hclean hc) h.inv hrely c htx
      · cases htx

/-! ### Inside of one -/

/-- What a call of a transaction promises: something of what came back, and where it fails that the
transaction may be dropped. -/
def InsidePost (lists : ι → List Migration) (runs : Str → D → D → Prop) (start : Content D)
    (file : Content D) {A : Type} (good : A → World ι D → Prop)
    (r : Except (SqliteError Fault) A) (w : World ι D) : Prop :=
  (∀ a, r = .ok a → good a w) ∧ ∀ e, r = .error e → Anyhow lists runs start file.version w

theorem keeps_userVersion_inside (h : Inside lists runs start i file content w) :
    Keeps lists runs start i (InsidePost lists runs start file fun (v : Nat) w' =>
        v = content.version ∧ Inside lists runs start i file content w')
      (attempt .userVersion fail) w := by
  intro w₁ a w₂ hrely hans
  have h₁ := h.relied hrely
  cases hans with
  | userVersion =>
    refine ⟨guarantees_refl i w₁, fun v hv => ?_, fun e he => nomatch he⟩
    cases hv
    refine ⟨?_, h₁⟩
    rw [World.seen, h₁.tx]
    rfl
  | failed e hleft =>
    obtain ⟨hguar, hout⟩ := inside_failed h₁ (by nofun) hleft
    refine ⟨hguar, ?_, fun _ _ => hout⟩
    rintro v ⟨⟩

variable (fkWasOn : Bool)

theorem keeps_violations (m : Migration) (h : Inside lists runs start i file content w) :
    Keeps lists runs start i (InsidePost lists runs start file fun (_ : Violations) w' =>
        Inside lists runs start i file content w') (violations fkWasOn m : Program Fault _) w := by
  cases fkWasOn with
  | false => exact ⟨fun _ _ => h, fun e he => nomatch he⟩
  | true =>
    intro w₁ a w₂ hrely hans
    have h₁ := h.relied hrely
    cases hans with
    | foreignKeyCheck =>
      exact ⟨guarantees_refl i w₁, fun _ _ => h₁, fun e he => nomatch he⟩
    | failed e hleft =>
      obtain ⟨hguar, hout⟩ := inside_failed h₁ (by nofun) hleft
      refine ⟨hguar, ?_, fun _ _ => hout⟩
      rintro v ⟨⟩

theorem inside_setTx
    (h : Inside lists runs start i file content w) (hroom : file.version < (lists i).length)
    (content' : Content D) :
    guarantees lists runs start i w (w.setTx i (some content')) ∧
      Inside lists runs start i file content' (w.setTx i (some content')) := by
  have hguar : guarantees lists runs start i w (w.setTx i (some content')) := by
    refine guarantees_conn (fun _ => .inl ?_) fun _ _ => .inr ?_
    · rw [h.tx]
      exact some_ne_none _
    · rw [h.file]
      exact hroom
  exact ⟨hguar, (hguar.2 h.inv).1, w.setTx_self i _, h.file⟩

theorem keeps_execute (sql : Str)
    (fail : Fault → SqliteError Fault) (h : Inside lists runs start i file content w)
    (hroom : file.version < (lists i).length) :
    Keeps lists runs start i (InsidePost lists runs start file fun (_ : Unit) w' =>
        ∃ d, runs sql content.data d ∧ Inside lists runs start i file ⟨content.version, d⟩ w')
      (attempt (.execute sql) fail) w := by
  intro w₁ a w₂ hrely hans
  have h₁ := h.relied hrely
  cases hans with
  | execute hinside hran =>
    cases h₁.tx.symm.trans hinside
    obtain ⟨hguar, hin⟩ := inside_setTx h₁ hroom ⟨content.version, _⟩
    exact ⟨hguar, fun _ _ => ⟨_, hran, hin⟩, fun e he => nomatch he⟩
  | executeAlone hfree _ => exact absurd hfree h₁.not_free
  | failed e hleft =>
    obtain ⟨hguar, hout⟩ := inside_failed h₁ (fun _ _ => hroom) hleft
    refine ⟨hguar, ?_, fun _ _ => hout⟩
    rintro v ⟨⟩

theorem keeps_setUserVersion (v : Nat)
    (fail : Fault → SqliteError Fault) (h : Inside lists runs start i file content w)
    (hroom : file.version < (lists i).length) :
    Keeps lists runs start i (InsidePost lists runs start file fun (_ : Unit) w' =>
        Inside lists runs start i file ⟨v, content.data⟩ w')
      (attempt (.setUserVersion v) fail) w := by
  intro w₁ a w₂ hrely hans
  have h₁ := h.relied hrely
  cases hans with
  | setUserVersion hinside =>
    cases h₁.tx.symm.trans hinside
    obtain ⟨hguar, hin⟩ := inside_setTx h₁ hroom ⟨v, content.data⟩
    exact ⟨hguar, fun _ _ => hin, fun e he => nomatch he⟩
  | setUserVersionAlone hfree => exact absurd hfree h₁.not_free
  | failed e hleft =>
    obtain ⟨hguar, hout⟩ := inside_failed h₁ (by nofun) hleft
    refine ⟨hguar, ?_, fun _ _ => hout⟩
    rintro v ⟨⟩

/-- **A commit** takes the file from one version to the next. -/
theorem keeps_commit {file : Content D} {m : Migration} {d : D}
    (h : Inside lists runs start i file ⟨file.version + 1, d⟩ w)
    (hnext : (lists i)[file.version]? = some m) (hran : runs m.sql file.data d) :
    Keeps lists runs start i (InsidePost lists runs start file fun (_ : Unit) w' =>
        Outside lists runs start i True (file.version + 1) w') (attempt .commit fail) w := by
  intro w₁ a w₂ hrely hans
  have h₁ := h.relied hrely
  cases hans with
  | commit hinside =>
    cases h₁.tx.symm.trans hinside
    obtain rfl := h₁.file
    have hinv : Inv lists runs start
        { w₁.setTx i none with
          file := ⟨w₁.file.version + 1, d⟩
          committed := w₁.committed ++ [w₁.file.version + 1] } := by
      obtain ⟨hguar, -⟩ : guarantees lists runs start i w₁ (w₁.setTx i none) ∧ True :=
        ⟨guarantees_conn (fun hopen => absurd rfl hopen) fun _ heq => (by cases heq), trivial⟩
      have hclosed := (hguar.2 h₁.inv).1
      have hnone : ∀ j, ((w₁.setTx i none).conns j).tx = none := by
        intro j
        by_cases hj : j = i
        · rw [hj, World.setTx_self]
        · by_contra hopen
          rw [World.setTx, World.setConn_other _ _ hj] at hopen
          exact hj (h₁.inv.exclusive j i hopen (by rw [h₁.tx]; exact some_ne_none _))
      refine ⟨hclosed.exclusive, .migrated h₁.inv.built hnext hran, ?_, fun j c hj => ?_⟩
      · obtain ⟨hle, hcommitted⟩ := h₁.inv.committed
        refine ⟨Nat.le_succ_of_le hle, ?_⟩
        have hlast : start.version + 1 + 1 * (w₁.file.version - start.version) =
            w₁.file.version + 1 := by omega
        rw [hcommitted, Nat.succ_sub hle, List.range'_concat, hlast]
      · cases (hnone j).symm.trans hj
    refine ⟨⟨fun j hj => w₁.setConn_other _ hj, fun _ => ⟨hinv, ?_⟩⟩, fun _ _ => ?_,
      fun e he => by cases he⟩
    · exact .migration m hnext h₁.tx rfl hran rfl
    · refine ⟨hinv, .inl (w₁.setTx_self i none), fun _ c hc => ?_, le_rfl⟩
      cases (w₁.setTx_self i none).symm.trans hc
  | failed e hleft =>
    obtain ⟨hguar, hout⟩ := inside_failed h₁ (by intro sql heq; cases heq) hleft
    refine ⟨hguar, ?_, fun _ _ => hout⟩
    rintro v ⟨⟩

/-! ## The program -/

theorem keeps_insideTransaction {m : Migration} {file : Content D}
    (hm : (lists i)[k]? = some m) (hversion : m.version = k + 1)
    (hk : k ≤ file.version) (h : Inside lists runs start i file file w) :
    Keeps lists runs start i (Transacted lists runs start i k)
      (insideTransaction (lists i).length fkWasOn m : Program Fault _) w := by
  have herror : ∀ (e : SqliteError Fault) w', Anyhow lists runs start file.version w' →
      Transacted lists runs start i k (.error e) w' :=
    fun e w' hw => transacted_error e (hw.weaken hk)
  refine keeps_andThen ((keeps_userVersion_inside _ h).mono fun r w' hr =>
    ⟨hr.1, fun e he => herror e w' (hr.2 e he)⟩) fun now w₁ hnow => ?_
  obtain ⟨hseen, h₁⟩ := hnow
  by_cases hnewer : (lists i).length < now
  · rw [if_pos hnewer]
    exact transacted_error _ (h₁.anyhow hk)
  rw [if_neg hnewer]
  by_cases hdone : m.version ≤ now
  · rw [if_pos hdone]
    refine ⟨(fun heq => nomatch heq), fun _ => ⟨h₁.anyhow ?_, fun c hc => ?_⟩,
      fun e he => nomatch he⟩
    · omega
    · rw [h₁.file]
      exact some.inj (hc.symm.trans h₁.tx)
  rw [if_neg hdone]
  -- the migration is the next one for the file
  have hfile : file.version = k := by omega
  have hnext : (lists i)[file.version]? = some m := by rw [hfile, hm]
  have hroom : file.version < (lists i).length := (List.getElem?_eq_some_iff.mp hnext).1
  refine keeps_andThen ((keeps_violations fkWasOn m h₁).mono fun r w' hr =>
    ⟨hr.1, fun e he => herror e w' (hr.2 e he)⟩) fun before w₂ h₂ => ?_
  refine keeps_andThen ((keeps_execute m.sql _ h₂ hroom).mono fun r w' hr =>
    ⟨hr.1, fun e he => herror e w' (hr.2 e he)⟩) fun _ w₃ hran => ?_
  obtain ⟨d, hran, h₃⟩ := hran
  refine keeps_andThen ((keeps_violations fkWasOn m h₃).mono fun r w' hr =>
    ⟨hr.1, fun e he => herror e w' (hr.2 e he)⟩) fun after w₄ h₄ => ?_
  cases (grown before after).head? with
  | some pair => exact transacted_error _ (h₄.anyhow hk)
  | none =>
    refine keeps_andThen ((keeps_setUserVersion m.version _ h₄ hroom).mono fun r w' hr =>
      ⟨hr.1, fun e he => herror e w' (hr.2 e he)⟩) fun _ w₅ h₅ => ?_
    have hversion' : m.version = file.version + 1 := by omega
    rw [hversion'] at h₅
    refine keeps_andThen ((keeps_commit _ h₅ hnext hran).mono fun r w' hr =>
      ⟨hr.1, fun e he => herror e w' (hr.2 e he)⟩) fun _ w₆ h₆ => ?_
    rw [hfile] at h₆
    exact ⟨fun _ => h₆, (fun heq => nomatch heq), fun e he => nomatch he⟩

/-- What a migration promises: the file is past it, or still there. -/
structure Ran (lists : ι → List Migration) (runs : Str → D → D → Prop) (start : Content D)
    (i : ι) (k k' : Nat) (r : Except (SqliteError Fault) Unit) (w : World ι D) : Prop where
  done : ∀ a, r = .ok a → Outside lists runs start i True k' w
  failed : ∀ e, r = .error e → Outside lists runs start i False k w

theorem keeps_runMigration {m : Migration}
    (hm : (lists i)[k]? = some m) (hversion : m.version = k + 1)
    (h : Outside lists runs start i True k w) :
    Keeps lists runs start i (Ran lists runs start i k (k + 1))
      (runMigration (lists i).length fkWasOn m : Program Fault _) w := by
  have herror : ∀ (e : SqliteError Fault) w', Outside lists runs start i False k w' →
      Ran lists runs start i k (k + 1) (.error e) w' :=
    fun e w' hw => ⟨(fun _ ha => nomatch ha), fun _ _ => hw⟩
  refine keeps_andThen ((keeps_setForeignKeys false _ h).mono fun r w' hr =>
    ⟨fun _ _ => hr.1, fun e _ => herror e w' hr.1.any⟩) fun _ w₁ h₁ => ?_
  refine keeps_andThen ((keeps_begin _ h₁).mono fun r w' hr =>
    ⟨hr.1, fun e he => herror e w' (hr.2 e he).any⟩) fun _ w₂ hbegun => ?_
  obtain ⟨file, hk, h₂⟩ := hbegun
  refine Safe.bind (keeps_insideTransaction fkWasOn hm hversion hk h₂) fun r w₃ h₃ => ?_
  cases r with
  | error e => exact keeps_rollback (h₃.failed e rfl) False.elim fun w' hw => herror e w' hw
  | ok committed =>
    cases committed with
    | true => exact ⟨fun _ _ => h₃.committed rfl, fun e he => nomatch he⟩
    | false =>
      obtain ⟨hskipped, hsame⟩ := h₃.skipped rfl
      exact keeps_rollback hskipped (fun _ => hsame) fun w' hw =>
        ⟨fun _ _ => hw, fun e he => nomatch he⟩

theorem keeps_runMigrations (hnumbered : ∀ (k : Nat) m, (lists i)[k]? = some m → m.version = k + 1)
    {todo : List Migration} (htodo : (lists i).drop k = todo)
    (h : Outside lists runs start i True k w) :
    Keeps lists runs start i (Ran lists runs start i 0 (lists i).length)
      (runMigrations (lists i).length fkWasOn todo : Program Fault _) w := by
  induction todo generalizing k w with
  | nil =>
    refine ⟨fun _ _ => h.weaken ?_, fun e he => nomatch he⟩
    exact List.drop_eq_nil_iff.mp htodo
  | cons m rest ih =>
    have hm : (lists i)[k]? = some m := by
      rw [← List.head?_drop, htodo]
      rfl
    have hrest : (lists i).drop (k + 1) = rest := by
      rw [← List.drop_drop, htodo]
      rfl
    refine keeps_andThen ((keeps_runMigration fkWasOn hm (hnumbered k m hm) h).mono fun r w' hr =>
      ⟨hr.done, fun e he => ⟨(fun _ ha => nomatch ha), fun _ _ => ?_⟩⟩) fun _ w₁ h₁ => ih hrest h₁
    exact (hr.failed e he).weaken (Nat.zero_le _)

/-! ## The list -/

theorem version_of_numbered {migrations : List Migration} (h : misnumbered migrations = none)
    (k : Nat) (m : Migration) (hm : migrations[k]? = some m) : m.version = k + 1 := by
  have hmem : (m, k) ∈ migrations.zipIdx := List.mem_zipIdx_iff_getElem?.mpr hm
  have hcheck := List.find?_eq_none.mp h (m, k) hmem
  simpa using hcheck

theorem filter_newer {migrations : List Migration} {offset : Nat}
    (h : ∀ k m, migrations[k]? = some m → m.version = offset + k + 1) (cur : Nat) :
    (migrations.filter fun m => cur < m.version) = migrations.drop (cur - offset) := by
  induction migrations generalizing offset with
  | nil => simp
  | cons m rest ih =>
    have hm : m.version = offset + 1 := h 0 m rfl
    have hrest : ∀ k m', rest[k]? = some m' → m'.version = offset + 1 + k + 1 := by
      intro k m' hm'
      have hnext := h (k + 1) m' (by rw [List.getElem?_cons_succ, hm'])
      omega
    rw [List.filter_cons, ih hrest]
    by_cases hnew : cur < m.version
    · rw [if_pos (decide_eq_true hnew)]
      have hzero : cur - offset = 0 := by omega
      have hzero' : cur - (offset + 1) = 0 := by omega
      rw [hzero, hzero', List.drop_zero, List.drop_zero]
    · rw [if_neg (by simpa using hnew)]
      have hsucc : cur - offset = cur - (offset + 1) + 1 := by omega
      rw [hsucc, List.drop_succ_cons]

/-! ## The whole program -/

theorem keeps_migrate (h : Outside lists runs start i True 0 w) :
    Keeps lists runs start i (Returned lists (w.conns i).foreignKeys i)
      (migrate (lists i) : Program Fault _) w := by
  rw [migrate]
  cases hnumbered : misnumbered (lists i) with
  | some p => exact returned_error _ h (.inl rfl)
  | none =>
    have hversions := version_of_numbered hnumbered
    refine keeps_andThen ((keeps_userVersion _ h).mono fun r w' hr =>
      ⟨hr.1, fun e he => returned_error e (hr.2 e he).1
        (.inl (Prod.mk.inj (hr.2 e he).2).1)⟩) fun (cur : Nat) w₁ hcur => ?_
    obtain ⟨h₁, hset₁, hseen⟩ := hcur
    have hfk₁ : (w₁.conns i).foreignKeys = (w.conns i).foreignKeys := (Prod.mk.inj hset₁).1
    by_cases hnewer : (lists i).length < cur
    · rw [if_pos hnewer]
      exact returned_error _ h₁ (.inl hfk₁)
    rw [if_neg hnewer]
    have hreached : Outside lists runs start i True cur w₁ :=
      ⟨h₁.inv, h₁.closed, h₁.unchanged, hseen.le⟩
    rw [← hfk₁]
    refine keeps_andThen ((keeps_foreignKeys _ hreached).mono fun r w' hr =>
      ⟨hr.1, fun e he => returned_error e (hr.2 e he).1
        (.inl (Prod.mk.inj (hr.2 e he).2).1)⟩) fun fkWasOn w₂ hfk => ?_
    obtain ⟨h₂, -, rfl⟩ := hfk
    have htodo : (lists i).drop cur = (lists i).filter fun m => cur < m.version := by
      have hplaced : ∀ k m, (lists i)[k]? = some m → m.version = 0 + k + 1 := by
        simpa using hversions
      rw [filter_newer hplaced, Nat.sub_zero]
    refine Safe.bind (keeps_runMigrations _ hversions htodo h₂) fun ran w₃ hran => ?_
    cases ran with
    | error e =>
      refine Safe.bind (keeps_setForeignKeys _ _ (hran.failed e rfl)) fun restored w₄ h₄ => ?_
      obtain ⟨hout, -, hfk₄⟩ := h₄
      exact returned_error e hout hfk₄
    | ok a =>
      refine Safe.bind (keeps_setForeignKeys _ _ (hran.done a rfl)) fun restored w₄ h₄ => ?_
      obtain ⟨hout, hset, hfk₄⟩ := h₄
      cases restored with
      | error e => exact returned_error e hout hfk₄
      | ok b =>
        refine keeps_andThen ((keeps_userVersion _ hout).mono fun r w' hr =>
          ⟨hr.1, fun e he => returned_error e (hr.2 e he).1
            (putBack_of_setting (hr.2 e he).2 (hset b rfl))⟩) fun (last : Nat) w₅ hlast => ?_
        obtain ⟨h₅, hset₅, hseen₅⟩ := hlast
        have hput := putBack_of_setting hset₅ (hset b rfl)
        by_cases hlate : (lists i).length < last
        · rw [if_pos hlate]
          exact returned_error _ h₅ hput
        · rw [if_neg hlate]
          refine ⟨h₅.closed, hput, fun v hv => ?_⟩
          cases hv
          have hle := h₅.reached
          exact ⟨hseen₅.symm, by omega⟩

/-! ## All processes -/

/-- **Migrations run once.** What holds of the file and of the connections in every state. -/
structure MigratedOnce (lists : ι → List Migration) (runs : Str → D → D → Prop) (w₀ : World ι D)
    (s : State ι Call (Call.Answer Fault) (Except (SqliteError Fault) Nat) (World ι D)) : Prop where
  version : s.world.file.version = w₀.file.version + s.world.committed.length
  once : s.world.committed = List.range' (w₀.file.version + 1) s.world.committed.length
  /-- and by the file nothing else was ever done -/
  built : Built lists runs w₀.file s.world.file
  own : ∀ i, s.world.file.version ≤ (lists i).length →
    Built (fun _ : Unit => lists i) runs w₀.file s.world.file
  /-- not even a transaction writes for a file that is newer than the list -/
  unwritten : ∀ i c, (s.world.conns i).tx = some c →
    c = s.world.file ∨ s.world.file.version < (lists i).length
  /-- a process that has returned has put its connection back -/
  putBack : ∀ i r, s.progs i = .ret r →
    ((s.world.conns i).tx = none ∨ (s.world.conns i).rollbackFailed = true) ∧
      PutBack (w₀.conns i).foreignKeys (s.world.conns i)

structure StepsOnce (lists : ι → List Migration) (runs : Str → D → D → Prop) (i : ι)
    (s s' : State ι Call (Call.Answer Fault) (Except (SqliteError Fault) Nat) (World ι D)) :
    Prop where
  mono : s.world.file.version ≤ s'.world.file.version
  /-- it leaves the file alone, or commits the next migration of its list -/
  writes : Writes lists runs i s.world s'.world
  /-- success is reported of a file that is at the end of the list -/
  reached : ∀ v, s'.progs i = .ret (.ok v) →
    s'.world.file.version = v ∧ v = (lists i).length

theorem putBack_step {w₀ : World ι D}
    {s s' : State ι Call (Call.Answer Fault) (Except (SqliteError Fault) Nat) (World ι D)}
    (hstep : Step (fun i => Answers runs i) i s s')
    (hguar : guarantees lists runs w₀.file i s.world s'.world)
    (hreturned : ∀ r, s'.progs i = .ret r → Returned lists (w₀.conns i).foreignKeys i r s'.world)
    (h : ∀ j r, s.progs j = .ret r →
      ((s.world.conns j).tx = none ∨ (s.world.conns j).rollbackFailed = true) ∧
        PutBack (w₀.conns j).foreignKeys (s.world.conns j))
    (j : ι) (r : Except (SqliteError Fault) Nat) (hr : s'.progs j = .ret r) :
    ((s'.world.conns j).tx = none ∨ (s'.world.conns j).rollbackFailed = true) ∧
      PutBack (w₀.conns j).foreignKeys (s'.world.conns j) := by
  by_cases hj : j = i
  · subst hj
    exact ⟨(hreturned r hr).closed, (hreturned r hr).foreignKeys⟩
  · rw [hguar.1 j hj]
    refine h j r ?_
    obtain ⟨hnext, hans⟩ := hstep
    exact (Function.update_of_ne hj ..).symm.trans hr

/-- **Each migration once.** Any number of processes bring a file up, with lists of which one is a
prefix of the other, and their calls come in any order and may fail. In every state the version
counts the migrations that were committed, each once and in order, and nothing else has changed the
file. A step of a process leaves the file alone or commits the next migration of its list, and only
where the file is then at the end of its list does it report success. A process that has returned
has no transaction open, unless one could not be dropped, and foreign keys are as they were, unless
that is so or the call that puts them back failed. -/
theorem migrated_once (lists : ι → List Migration)
    (hlists : ∀ i j, lists i <+: lists j ∨ lists j <+: lists i) (runs : Str → D → D → Prop)
    {w₀ : World ι D} (hopen : ∀ i, (w₀.conns i).tx = none) (hnone : w₀.committed = [])
    {s : State ι Call (Call.Answer Fault) (Except (SqliteError Fault) Nat) (World ι D)}
    (hs : Reachable (fun i => Answers runs i) ⟨fun i => migrate (lists i), w₀⟩ s) :
    MigratedOnce lists runs w₀ s ∧
      ∀ i s', Step (fun i => Answers runs i) i s s' → StepsOnce lists runs i s s' := by
  have hinv₀ : Inv lists runs w₀.file w₀ := inv_start hopen hnone
  have h₀ : ∀ i, Safe (Answers runs i) (relies lists runs w₀.file i)
      (guarantees lists runs w₀.file i) (Returned lists (w₀.conns i).foreignKeys i)
      (migrate (lists i) : Program Fault _) w₀ :=
    fun i => keeps_migrate ⟨hinv₀, .inl (hopen i),
      fun _ _ hc => (by cases (hopen i).symm.trans hc), Nat.zero_le _⟩
  have hinv : Inv lists runs w₀.file s.world :=
    reachable_inv relies_refl relies_trans relies_of_guarantees
      (fun i w w' hw hguar => (hguar.2 hw).1) h₀ hinv₀ hs
  have hsteps := (reachable_safe relies_refl relies_trans relies_of_guarantees h₀ hs).2
  refine ⟨?_, fun i s' hstep => ?_⟩
  · obtain ⟨hle, hcommitted⟩ := hinv.committed
    have hlength : s.world.committed.length = s.world.file.version - w₀.file.version := by
      rw [hcommitted, List.length_range']
    refine ⟨by omega, by rw [hlength]; exact hcommitted, hinv.built,
      fun i hi => hinv.built.own hlists hi, hinv.unwritten, ?_⟩
    clear hsteps hinv hle hcommitted hlength
    induction hs with
    | start =>
      intro i r hr
      have hret := h₀ i
      have hprog : (migrate (lists i) : Program Fault _) = .ret r := hr
      rw [hprog] at hret
      exact ⟨hret.closed, hret.foreignKeys⟩
    | step before step ih =>
      have hsteps := (reachable_safe relies_refl relies_trans relies_of_guarantees h₀ before).2
      obtain ⟨hguar, hreturned⟩ := hsteps _ _ step
      exact putBack_step step hguar hreturned ih
  · obtain ⟨hguar, hreturned⟩ := hsteps i s' hstep
    have hwrites := (hguar.2 hinv).2
    exact ⟨hwrites.version_le, hwrites, fun v hv => (hreturned _ hv).reached v rfl⟩

def eventsSchema : List Migration :=
  [⟨1, "CREATE TABLE events (id INTEGER PRIMARY KEY) STRICT;".toList⟩,
    ⟨2, "CREATE TABLE tags (event INTEGER REFERENCES events (id)) STRICT;".toList⟩]

/-- The data is what has been run. -/
def appends (sql : Str) (data data' : List Str) : Prop := data' = data ++ [sql]

def emptyFile (ι : Type) : World ι (List Str) := ⟨⟨0, []⟩, [], fun _ => ⟨true, none, false, false⟩⟩

/-- The second process is of an older deployment. -/
def deployed (b : Bool) : List Migration := if b then eventsSchema else eventsSchema.take 1

theorem two_processes_once :
    ∃ s : State Bool Call (Call.Answer Unit) (Except (SqliteError Unit) Nat)
        (World Bool (List Str)),
      Reachable (fun i => Answers appends i) ⟨fun b => migrate (deployed b), emptyFile Bool⟩ s ∧
      (s.progs true = .ret (.ok 2) ∧ s.progs false = .ret (.ok 1)) ∧
      s.world.file = ⟨2, eventsSchema.map Migration.sql⟩ ∧ s.world.committed = [1, 2] ∧
      MigratedOnce deployed appends (emptyFile Bool) s := by
  have hlists : ∀ b c, deployed b <+: deployed c ∨ deployed c <+: deployed b := by
    decide
  -- both read the version, and both switch the setting off
  have h₁ : Reachable (fun i => Answers appends i)
      ⟨fun b => (migrate (deployed b) : Program Unit _), emptyFile Bool⟩ _ :=
    .step (i := true) .start (.call rfl (.userVersion _))
  have h₂ := h₁.step (i := false) (.call rfl (.userVersion _))
  have h₃ := h₂.step (i := true) (.call rfl (.foreignKeys _))
  have h₄ := h₃.step (i := false) (.call rfl (.foreignKeys _))
  have h₅ := h₄.step (i := true) (.call rfl (.setForeignKeys rfl))
  have h₆ := h₅.step (i := false) (.call rfl (.setForeignKeys rfl))
  -- the first one runs the first migration
  have h₇ := h₆.step (i := true) (.call rfl (.beginImmediate (Bool.forall_bool.mpr ⟨rfl, rfl⟩)))
  have h₈ := h₇.step (i := true) (.call rfl (.userVersion _))
  have h₉ := h₈.step (i := true) (.call rfl (.foreignKeyCheck _ []))
  have h₁₀ := h₉.step (i := true) (.call rfl (.execute rfl rfl))
  have h₁₁ := h₁₀.step (i := true) (.call rfl (.foreignKeyCheck _ []))
  have h₁₂ := h₁₁.step (i := true) (.call rfl (.setUserVersion rfl))
  have h₁₃ := h₁₂.step (i := true) (.call rfl (.commit rfl))
  have h₁₄ := h₁₃.step (i := true) (.call rfl (.setForeignKeys rfl))
  -- the second one finds that it has been run
  have h₁₅ := h₁₄.step (i := false) (.call rfl (.beginImmediate (Bool.forall_bool.mpr ⟨rfl, rfl⟩)))
  have h₁₆ := h₁₅.step (i := false) (.call rfl (.userVersion _))
  have h₁₇ := h₁₆.step (i := false) (.call rfl (.rollback _))
  have h₁₈ := h₁₇.step (i := false) (.call rfl (.setForeignKeys rfl))
  have h₁₉ := h₁₈.step (i := false) (.call rfl (.userVersion _))
  -- the first one runs the second migration
  have h₂₀ := h₁₉.step (i := true) (.call rfl (.beginImmediate (Bool.forall_bool.mpr ⟨rfl, rfl⟩)))
  have h₂₁ := h₂₀.step (i := true) (.call rfl (.userVersion _))
  have h₂₂ := h₂₁.step (i := true) (.call rfl (.foreignKeyCheck _ []))
  have h₂₃ := h₂₂.step (i := true) (.call rfl (.execute rfl rfl))
  have h₂₄ := h₂₃.step (i := true) (.call rfl (.foreignKeyCheck _ []))
  have h₂₅ := h₂₄.step (i := true) (.call rfl (.setUserVersion rfl))
  have h₂₆ := h₂₅.step (i := true) (.call rfl (.commit rfl))
  have h₂₇ := h₂₆.step (i := true) (.call rfl (.setForeignKeys rfl))
  have h₂₈ := h₂₇.step (i := true) (.call rfl (.userVersion _))
  exact ⟨_, h₂₈, ⟨rfl, rfl⟩, rfl, rfl, (migrated_once _ hlists _ (fun _ => rfl) rfl h₂₈).1⟩

theorem setting_left_off : ∃ s : State Unit Call (Call.Answer Unit) (Except (SqliteError Unit) Nat)
        (World Unit (List Str)),
      Reachable (fun i => Answers appends i)
        ⟨fun _ => migrate eventsSchema, emptyFile Unit⟩ s ∧
      (∃ e, s.progs () = .ret (.error e)) ∧ (s.world.conns ()).foreignKeys = false ∧
      ((emptyFile Unit).conns ()).foreignKeys = true := by
  have hread : Reachable (fun i => Answers appends i)
      ⟨fun _ : Unit => (migrate eventsSchema : Program Unit _), emptyFile Unit⟩ _ :=
    .step (i := ()) (.step (i := ()) .start (.call rfl (.userVersion _)))
      (.call rfl (.foreignKeys _))
  have hoff := hread.step (i := ()) (.call rfl (.setForeignKeys rfl))
  have hbusy := hoff.step (i := ()) (.call rfl (.failed () (.inl rfl)))
  have hfailed := hbusy.step (i := ()) (.call rfl (.failed () (.inl rfl)))
  exact ⟨_, hfailed, ⟨_, rfl⟩, rfl, rfl⟩

end M6.Sqlite
