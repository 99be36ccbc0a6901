import Mathlib.Data.List.Perm.Basic
import M6.Lib.Runs

/-!
# The thread pool and its drain

`ThreadPool` of `app.rs` and the loop of `run_app_with_shutdown` around it, as steps of one state
that come in any order: the loop accepts connections, workers take and run them, a signal sets the
shutdown flag, and the loop leaves.

Between `submit` and the end of its run a piece of work is in three places: in the queue, with a
worker that has received it but not counted it, and with one that has. `drain` looks at the count
alone. `graceful_iff` says for every run when the loop leaves with everything finished that the
pool accepted.
-/

namespace M6

open List Option

inductive Worker (Work : Type) where
  /-- about to lock the receiving end -/
  | idle
  /-- has it, and waits for work -/
  | waiting
  /-- `recv` returned; `in_flight` is not incremented yet -/
  | received (work : Work)
  | running (work : Work)
  /-- the work returned; `in_flight` is not decremented yet -/
  | ran
  deriving DecidableEq

inductive LoopState where
  | serving
  | draining
  | left
  deriving DecidableEq

/-- The pool with the loop. `accepted` and `finished` are not part of the source: the work that
was accepted, and the work that has run. -/
structure ThreadPool (Work : Type) where
  /-- the bound of the channel -/
  queueSize : Nat
  queue : List Work
  workers : List (Worker Work)
  inFlight : Nat
  loop : LoopState
  shutdown : Bool
  accepted : List Work
  finished : List Work

/-- What happens. -/
inductive PoolEvent (Work : Type) where
  /-- a connection is accepted and submitted -/
  | submit (work : Work)
  /-- a worker locks the receiving end -/
  | lock (k : Nat)
  /-- it receives -/
  | recv (k : Nat)
  /-- it counts what it received, and calls it -/
  | begin (k : Nat)
  /-- the call returns -/
  | finish (k : Nat)
  /-- it is no longer counted -/
  | uncount (k : Nat)
  | signal
  /-- the loop sees the flag -/
  | stop
  /-- `drain` looks at the count -/
  | drainCheck
  /-- `accept` fails -/
  | acceptError
  deriving DecidableEq

namespace ThreadPool

variable {Work : Type}

def new (size queueSize : Nat) : ThreadPool Work where
  queueSize := queueSize
  queue := []
  workers := List.replicate size .idle
  inFlight := 0
  loop := .serving
  shutdown := false
  accepted := []
  finished := []

def isWaiting : Worker Work → Bool
  | .waiting => true
  | _ => false

def setWorker (s : ThreadPool Work) (k : Nat) (w : Worker Work) : ThreadPool Work :=
  { s with workers := s.workers.set k w }

/-- `try_send`: into the queue while it has room. A channel without a buffer hands the work to a
worker that waits, or refuses it. -/
def submit (s : ThreadPool Work) (work : Work) : ThreadPool Work × Bool :=
  if s.queueSize = 0 then
    match s.workers.findIdx? isWaiting with
    | some k => ({ s.setWorker k (.received work) with accepted := s.accepted ++ [work] }, true)
    | none => (s, false)
  else if s.queue.length < s.queueSize then
    ({ s with queue := s.queue ++ [work], accepted := s.accepted ++ [work] }, true)
  else (s, false)

def step (s : ThreadPool Work) : PoolEvent Work → Option (ThreadPool Work)
  | .submit work => if s.loop = .serving then some (s.submit work).1 else none
  | .lock k =>
    match s.workers[k]? with
    | some .idle => if s.workers.any isWaiting then none else some (s.setWorker k .waiting)
    | _ => none
  | .recv k =>
    match s.workers[k]?, s.queue with
    | some .waiting, work :: rest => some { s.setWorker k (.received work) with queue := rest }
    | _, _ => none
  | .begin k =>
    match s.workers[k]? with
    | some (.received work) =>
      some { s.setWorker k (.running work) with inFlight := s.inFlight + 1 }
    | _ => none
  | .finish k =>
    match s.workers[k]? with
    | some (.running work) => some { s.setWorker k .ran with finished := s.finished ++ [work] }
    | _ => none
  | .uncount k =>
    match s.workers[k]? with
    | some .ran => some { s.setWorker k .idle with inFlight := s.inFlight - 1 }
    | _ => none
  | .signal => some { s with shutdown := true }
  | .stop => if s.loop = .serving ∧ s.shutdown then some { s with loop := .draining } else none
  | .drainCheck =>
    if s.loop = .draining then some (if 0 < s.inFlight then s else { s with loop := .left })
    else none
  | .acceptError =>
    if s.loop = .serving then some (if s.shutdown then { s with loop := .left } else s) else none

/-! ## Leaving -/

def AllFinished (s : ThreadPool Work) : Prop := s.accepted.Perm s.finished

def leaves (s : ThreadPool Work) (e : PoolEvent Work) : Prop :=
  s.loop ≠ .left ∧ ∃ s', s.step e = some s' ∧ s'.loop = .left

/-- Whenever the loop leaves, everything that was accepted has run. -/
def Graceful : ThreadPool Work → List (PoolEvent Work) → Prop
  | _, [] => True
  | s, e :: es => (s.leaves e → s.AllFinished) ∧ ∀ s', s.step e = some s' → s'.Graceful es

/-- No work is in the queue or on its way to being counted; and where `drain` is not called, none
is running. -/
def Quiescent (s : ThreadPool Work) (e : PoolEvent Work) : Prop :=
  s.queue = [] ∧ (∀ work, .received work ∉ s.workers) ∧
    (e = .acceptError → ∀ work, .running work ∉ s.workers)

def LeavesQuiescent : ThreadPool Work → List (PoolEvent Work) → Prop
  | _, [] => True
  | s, e :: es =>
    (s.leaves e → s.Quiescent e) ∧ ∀ s', s.step e = some s' → s'.LeavesQuiescent es

/-! ## Where the work is -/

def inHand : Worker Work → List Work
  | .received work => [work]
  | .running work => [work]
  | _ => []

def isCounted : Worker Work → Bool
  | .running _ => true
  | .ran => true
  | _ => false

structure Accounted (s : ThreadPool Work) : Prop where
  accepted : s.accepted.Perm (s.finished ++ (s.workers.flatMap inHand ++ s.queue))
  inFlight : s.inFlight = s.workers.countP isCounted

theorem accounted_new (size queueSize : Nat) :
    (new size queueSize : ThreadPool Work).Accounted := by
  refine ⟨?_, ?_⟩
  · have hnone : (List.replicate size (Worker.idle : Worker Work)).flatMap inHand = [] :=
      flatMap_eq_nil_iff.mpr fun w hw => by rw [eq_of_mem_replicate hw]; rfl
    rw [new, hnone]
    rfl
  · rw [new, countP_replicate]
    rfl

variable {s : ThreadPool Work}

theorem accounted_split {before after : List (Worker Work)} {w : Worker Work}
    (heq : s.workers = before ++ w :: after) :
    s.Accounted ↔ s.accepted.Perm (inHand w ++ (s.finished ++
        ((before.flatMap inHand ++ after.flatMap inHand) ++ s.queue))) ∧
      s.inFlight = before.countP isCounted + after.countP isCounted +
        if isCounted w then 1 else 0 := by
  have hperm : (s.finished ++ (s.workers.flatMap inHand ++ s.queue)).Perm
      (inHand w ++ (s.finished ++
        ((before.flatMap inHand ++ after.flatMap inHand) ++ s.queue))) := by
    rw [heq, flatMap_append, flatMap_cons]
    refine List.Perm.trans (List.Perm.append_left _ ?_) (perm_append_comm_assoc ..)
    rw [append_assoc, append_assoc, append_assoc]
    exact perm_append_comm_assoc ..
  have hcount : s.workers.countP isCounted = before.countP isCounted + after.countP isCounted +
      if isCounted w then 1 else 0 := by
    rw [heq, countP_append, countP_cons, Nat.add_assoc]
  constructor
  · exact fun h => ⟨h.accepted.trans hperm, h.inFlight.trans hcount⟩
  · exact fun h => ⟨h.1.trans hperm.symm, h.2.trans hcount.symm⟩

theorem Accounted.moved {s s' : ThreadPool Work} (h : s.Accounted) {k : Nat} {w w' : Worker Work}
    (hw : s.workers[k]? = some w) (hworkers : s'.workers = s.workers.set k w')
    (haccepted : ∀ others : List Work,
      s.accepted.Perm (inHand w ++ (s.finished ++ (others ++ s.queue))) →
      s'.accepted.Perm (inHand w' ++ (s'.finished ++ (others ++ s'.queue))))
    (hinFlight : ∀ others : Nat, s.inFlight = others + (if isCounted w then 1 else 0) →
      s'.inFlight = others + if isCounted w' then 1 else 0) : s'.Accounted := by
  obtain ⟨hk, rfl⟩ := List.getElem?_eq_some_iff.mp hw
  obtain ⟨before, after, heq, -, hset⟩ : ∃ before after, s.workers =
    before ++ s.workers[k] :: after ∧
      before.length = k ∧ s.workers.set k w' = before ++ w' :: after := exists_of_set hk
  obtain ⟨hall, hcount⟩ := (accounted_split heq).mp h
  exact (accounted_split (hworkers.trans hset)).mpr ⟨haccepted _ hall, hinFlight _ hcount⟩

theorem accounted_submit (h : s.Accounted) (work : Work) : (s.submit work).1.Accounted := by
  rw [submit]
  split_ifs
  · cases hfind : s.workers.findIdx? isWaiting with
    | none => exact h
    | some k =>
      obtain ⟨hk, hwaiting, -⟩ := findIdx?_eq_some_iff_getElem.mp hfind
      have hw := (getElem?_eq_getElem hk)
      generalize s.workers[k] = w at hwaiting hw
      cases w <;> cases hwaiting
      exact h.moved hw rfl (fun _ hall => (hall.append_right [work]).trans perm_append_comm)
        fun _ hcount => hcount
  · refine ⟨?_, h.inFlight⟩
    have hall := h.accepted.append_right [work]
    simpa only [append_assoc] using hall
  · exact h

variable {e : PoolEvent Work}

/-- **One step** loses no work and no count. -/
theorem Accounted.step {s s' : ThreadPool Work} (h : s.Accounted)
    (hstep : s.step e = some s') : s'.Accounted := by
  have hloop : ∀ (loop : LoopState) (flag : Bool),
      ({ s with loop := loop, shutdown := flag } : ThreadPool Work).Accounted :=
    fun _ _ => ⟨h.accepted, h.inFlight⟩
  cases e with
  | submit work =>
    rw [ThreadPool.step] at hstep
    split_ifs at hstep
    cases hstep
    exact accounted_submit h work
  | lock k =>
    simp only [ThreadPool.step] at hstep
    split at hstep
    next hw =>
      split_ifs at hstep
      cases hstep
      exact h.moved hw rfl (fun _ hall => hall) fun _ hcount => hcount
    next => cases hstep
  | recv k =>
    simp only [ThreadPool.step] at hstep
    split at hstep
    next work rest hw hqueue =>
      cases hstep
      refine h.moved hw rfl (fun others hall => ?_) fun _ hcount => hcount
      have hmiddle : ((s.finished ++ others) ++ work :: rest).Perm
          (work :: ((s.finished ++ others) ++ rest)) := perm_middle
      rw [append_assoc, append_assoc] at hmiddle
      rw [hqueue] at hall
      exact hall.trans hmiddle
    next => cases hstep
  | begin k =>
    simp only [ThreadPool.step] at hstep
    split at hstep
    next hw =>
      cases hstep
      refine h.moved hw rfl (fun _ hall => hall) fun _ hcount => ?_
      exact congrArg Nat.succ hcount
    next => cases hstep
  | finish k =>
    simp only [ThreadPool.step] at hstep
    split at hstep
    next work hw =>
      cases hstep
      refine h.moved hw rfl (fun others hall => ?_) fun _ hcount => hcount
      refine hall.trans ?_
      change (work :: (s.finished ++ (others ++ s.queue))).Perm
        ((s.finished ++ [work]) ++ (others ++ s.queue))
      rw [append_assoc]
      exact perm_middle.symm
    next => cases hstep
  | uncount k =>
    simp only [ThreadPool.step] at hstep
    split at hstep
    next hw =>
      cases hstep
      refine h.moved hw rfl (fun _ hall => hall) fun others hcount => ?_
      change s.inFlight - 1 = others
      rw [hcount]
      rfl
    next => cases hstep
  | signal =>
    cases hstep
    exact hloop _ _
  | stop =>
    rw [ThreadPool.step] at hstep
    split_ifs at hstep
    cases hstep
    exact hloop _ _
  | drainCheck =>
    rw [ThreadPool.step] at hstep
    split_ifs at hstep
    all_goals cases hstep
    · exact h
    · exact hloop _ _
  | acceptError =>
    rw [ThreadPool.step] at hstep
    split_ifs at hstep
    all_goals cases hstep
    · exact hloop _ _
    · exact h

/-! ## In order -/

structure Queued (s : ThreadPool Work) : Prop where
  bounded : s.queue.length ≤ s.queueSize
  last : s.queue <:+ s.accepted

theorem queued_submit (h : s.Queued) (work : Work) : (s.submit work).1.Queued := by
  rw [submit]
  split_ifs with hzero hroom
  · cases s.workers.findIdx? isWaiting with
    | none => exact h
    | some k =>
      have hempty : s.queue = [] := length_eq_zero_iff.mp (by have := h.bounded; omega)
      exact ⟨h.bounded, hempty ▸ nil_suffix⟩
  · refine ⟨?_, ?_⟩
    · rw [length_append]
      exact hroom
    · obtain ⟨taken, htaken⟩ := h.last
      exact ⟨taken, by rw [← append_assoc, htaken]⟩
  · exact h

theorem Queued.step {s s' : ThreadPool Work} (h : s.Queued)
    (hstep : s.step e = some s') : s'.Queued := by
  cases e with
  | submit work =>
    rw [ThreadPool.step] at hstep
    split_ifs at hstep
    cases hstep
    exact queued_submit h work
  | recv k =>
    simp only [ThreadPool.step] at hstep
    split at hstep
    next work rest hw hqueue =>
      cases hstep
      have hrest : rest <:+ s.queue := hqueue ▸ suffix_cons work rest
      exact ⟨Nat.le_trans hrest.length_le h.bounded, hrest.trans h.last⟩
    next => cases hstep
  | lock k =>
    simp only [ThreadPool.step] at hstep
    split at hstep
    · split_ifs at hstep
      cases hstep
      exact ⟨h.bounded, h.last⟩
    · cases hstep
  | begin k | finish k | uncount k =>
    simp only [ThreadPool.step] at hstep
    split at hstep
    · cases hstep
      exact ⟨h.bounded, h.last⟩
    · cases hstep
  | signal =>
    cases hstep
    exact ⟨h.bounded, h.last⟩
  | stop | drainCheck | acceptError =>
    rw [ThreadPool.step] at hstep
    split_ifs at hstep
    all_goals
      cases hstep
      exact ⟨h.bounded, h.last⟩

/-- **Accepted work runs once, and is taken in the order in which it was accepted.** What was taken
has run or is with one worker, what was not is in the queue, and no more work is counted than there
are workers. -/
structure InOrder (s : ThreadPool Work) : Prop where
  taken : ∃ taken, s.accepted = taken ++ s.queue ∧
    taken.Perm (s.finished ++ s.workers.flatMap inHand)
  bounded : s.queue.length ≤ s.queueSize
  counted : s.inFlight = s.workers.countP isCounted ∧ s.inFlight ≤ s.workers.length

/-- **In order throughout**: every run of a new pool, of any size and with any bound, whatever is
submitted and however the workers take turns. -/
theorem inOrder_throughout (size queueSize : Nat) (es : List (PoolEvent Work)) :
    Runs.Throughout ThreadPool.step InOrder (new size queueSize) es := by
  refine Runs.throughout_of_inv (I := fun s => s.Accounted ∧ s.Queued) ?_ ?_ es
    ⟨accounted_new size queueSize, Nat.zero_le _, nil_suffix⟩
  · exact fun s e s' h hstep => ⟨h.1.step hstep, h.2.step hstep⟩
  · rintro s ⟨hall, hqueued⟩
    obtain ⟨taken, htaken⟩ := hqueued.last
    refine ⟨⟨taken, htaken.symm, ?_⟩, hqueued.bounded, hall.inFlight, ?_⟩
    · have hperm := hall.accepted
      rw [← htaken, ← append_assoc] at hperm
      exact (perm_append_right_iff s.queue).mp hperm
    · rw [hall.inFlight]
      exact countP_le_length

/-! ## When it is graceful -/

theorem allFinished_iff (h : s.Accounted) :
    s.AllFinished ↔ s.workers.flatMap inHand ++ s.queue = [] := by
  constructor
  · intro hall
    have hlen := h.accepted.length_eq
    rw [hall.length_eq, length_append] at hlen
    exact length_eq_zero_iff.mp (by omega)
  · intro hnone
    have := h.accepted
    rw [hnone, append_nil] at this
    exact this

theorem inHand_eq_nil_iff {w : Worker Work} :
    inHand w = [] ↔ (∀ work, w ≠ .received work) ∧ ∀ work, w ≠ .running work := by
  cases w <;> simp [inHand]

/-- A loop that leaves saw no work counted, or did not call `drain`. -/
theorem leaves_cases (h : s.leaves e) : e = .drainCheck ∧ s.inFlight = 0 ∨ e = .acceptError := by
  obtain ⟨hloop, s', hstep, hleft⟩ := h
  cases e with
  | drainCheck =>
    rw [ThreadPool.step] at hstep
    split_ifs at hstep with hdraining hbusy
    all_goals cases hstep
    · exact absurd hleft hloop
    · exact Or.inl ⟨rfl, by omega⟩
  | acceptError => exact Or.inr rfl
  | submit work =>
    rw [ThreadPool.step] at hstep
    split_ifs at hstep
    cases hstep
    rw [submit] at hleft
    split_ifs at hleft
    · split at hleft <;> exact absurd hleft hloop
    all_goals exact absurd hleft hloop
  | stop =>
    rw [ThreadPool.step] at hstep
    split_ifs at hstep
    cases hstep
    cases hleft
  | signal =>
    cases hstep
    exact absurd hleft hloop
  | lock k =>
    simp only [ThreadPool.step] at hstep
    split at hstep
    · split_ifs at hstep
      cases hstep
      exact absurd hleft hloop
    · cases hstep
  | recv k | begin k | finish k | uncount k =>
    simp only [ThreadPool.step] at hstep
    split at hstep
    · cases hstep
      exact absurd hleft hloop
    · cases hstep

theorem allFinished_iff_quiescent (h : s.Accounted)
    (hleaves : s.leaves e) : s.AllFinished ↔ s.Quiescent e := by
  rw [allFinished_iff h, append_eq_nil_iff, flatMap_eq_nil_iff, Quiescent]
  constructor
  · rintro ⟨hworkers, hqueue⟩
    refine ⟨hqueue, fun work hmem => ?_, fun _ work hmem => ?_⟩
    · exact (inHand_eq_nil_iff.mp (hworkers _ hmem)).1 work rfl
    · exact (inHand_eq_nil_iff.mp (hworkers _ hmem)).2 work rfl
  · rintro ⟨hqueue, hreceived, hrunning⟩
    refine ⟨fun w hmem => inHand_eq_nil_iff.mpr ⟨?_, ?_⟩, hqueue⟩
    · rintro work rfl
      exact hreceived work hmem
    · rintro work rfl
      obtain ⟨-, hzero⟩ | herror := leaves_cases hleaves
      · have hcount := countP_eq_zero.mp (h.inFlight.symm.trans hzero) _ hmem
        exact hcount rfl
      · exact hrunning herror work hmem

/-- **Shutdown drains.** For every run of a new pool, whatever its size and the bound of its
queue: whenever the loop leaves, everything that was accepted has run, exactly if whenever it
leaves no work is in the queue or with a worker that has not counted it, and none is running
where `drain` was not called. -/
theorem graceful_iff (size queueSize : Nat) (es : List (PoolEvent Work)) :
    (new size queueSize).Graceful es ↔ (new size queueSize).LeavesQuiescent es := by
  have hrun : ∀ (es : List (PoolEvent Work)) (s : ThreadPool Work), s.Accounted →
      (s.Graceful es ↔ s.LeavesQuiescent es) := by
    intro es
    induction es with
    | nil => exact fun _ _ => Iff.rfl
    | cons e es ih =>
      intro s h
      rw [Graceful, LeavesQuiescent]
      refine and_congr (forall_congr' fun hleaves => allFinished_iff_quiescent h hleaves) ?_
      exact forall_congr' fun s' => forall_congr' fun hstep => ih s' (h.step hstep)
  exact hrun es _ (accounted_new size queueSize)

def queuedConnection : List (PoolEvent Nat) := [.submit 0, .signal, .stop, .drainCheck]

def uncountedConnection : List (PoolEvent Nat) :=
  [.lock 0, .submit 0, .recv 0, .signal, .stop, .drainCheck]

/-- `drain` returns although the connection is still to be served. -/
theorem connection_dropped :
    ¬ (new 4 32).Graceful queuedConnection ∧ ¬ (new 4 32).Graceful uncountedConnection := by
  constructor
  · intro h
    have hall := (((h.2 _ rfl).2 _ rfl).2 _ rfl).1 ⟨by decide, _, rfl, rfl⟩
    cases hall.length_eq
  · intro h
    have hall := (((((h.2 _ rfl).2 _ rfl).2 _ rfl).2 _ rfl).2 _ rfl).1 ⟨by decide, _, rfl, rfl⟩
    cases hall.length_eq

end ThreadPool

end M6
