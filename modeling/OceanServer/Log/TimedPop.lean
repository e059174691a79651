import OceanServer.Log.BlockQueue

/-! `block_queue::pop` with a timeout: the deadline it passes to `timewait`, and when it gives up. -/

namespace OceanServer.Log

open Library

section Deadline

structure Timeval where
  sec : ℕ
  usec : ℕ
  usec_lt : usec < 10 ^ 6

structure Timespec where
  sec : ℕ
  nsec : ℕ
  deriving DecidableEq, Repr

def gettimeofday (clock : ℕ) : Timeval := ⟨clock / 10 ^ 9, clock % 10 ^ 9 / 1000, by omega⟩

structure TimedCall where
  now : Timeval
  ms : ℕ

def TimedCall.deadline (c : TimedCall) : Timespec := ⟨c.now.sec + c.ms / 1000, c.ms % 100 * 1000⟩

def Timespec.nanoseconds (t : Timespec) : ℕ := t.sec * 10 ^ 9 + t.nsec

def TimedCall.due (c : TimedCall) : ℕ := c.now.sec * 10 ^ 9 + c.now.usec * 10 ^ 3 + c.ms * 10 ^ 6

def TimedCall.Exact (c : TimedCall) : Prop := c.deadline.nsec < 10 ^ 9 ∧ c.deadline.nanoseconds = c.due

lemma TimedCall.exact_iff (c : TimedCall) : c.Exact ↔ c.now.usec = 0 ∧ c.ms % 1000 = 0 := by
  simp only [Exact, deadline, Timespec.nanoseconds, due]
  omega

end Deadline

section Steps

variable {T α : Type*}

structure Timed (T α : Type*) where
  threads : Threads T α
  clock : ℕ
  call : T → Option TimedCall

inductive TimedLabel (T α : Type*) where
  | tick (ns : ℕ)
  | call (i : T) (ms : ℕ)
  | wait (i : T)
  | popped (i : T) (item : α)
  | wakeEmpty (i : T)
  | timeout (i : T)
  | other (a : Label T α)

def Timed.start (q : BlockQueue α) (clock : ℕ) : Timed T α := ⟨.start q, clock, fun _ => none⟩

def Label.thread : Label T α → T
  | .push i _ _ | .popped i _ | .gaveUp i | .blocked i | .cleared i | .size i _ | .full i _ | .empty i _ => i

variable [DecidableEq T]

def Timed.finish (s : Timed T α) (i : T) (threads : Threads T α) : Timed T α :=
  { s with threads := threads, call := Function.update s.call i none }

inductive TimedStep : Timed T α → TimedLabel T α → Timed T α → Prop
  | tick {s} (ns : ℕ) : TimedStep s (.tick ns) { s with clock := s.clock + ns }
  -- the time is read before the mutex is taken
  | call {s i} (ms : ℕ) : s.call i = none → s.threads.place i = .outside →
      TimedStep s (.call i ms) { s with call := Function.update s.call i (some ⟨gettimeofday s.clock, ms⟩) }
  | wait {s i c} : s.call i = some c → s.threads.place i = .outside → s.threads.queue.size ≤ 0 →
      TimedStep s (.wait i) { s with threads := s.threads.goTo i .timed }
  -- at once, or after a wake-up
  | pop {s i c item q} : s.call i = some c → s.threads.place i = .outside ∨ s.threads.place i = .timed →
      0 < s.threads.queue.size → take s.threads.queue = some (item, q) →
      TimedStep s (.popped i item) (s.finish i { s.threads.goTo i .outside with queue := q })
  -- a wake-up, which may be spurious or come after another thread has taken the item
  | wakeEmpty {s i c} : s.call i = some c → s.threads.place i = .timed → s.threads.queue.size ≤ 0 →
      TimedStep s (.wakeEmpty i) (s.finish i (s.threads.goTo i .outside))
  | timeout {s i c} : s.call i = some c → s.threads.place i = .timed → c.deadline.nanoseconds ≤ s.clock →
      TimedStep s (.timeout i) (s.finish i (s.threads.goTo i .outside))
  | other {s a t} : s.call a.thread = none → Step s.threads a t → t.place a.thread ≠ .timed →
      TimedStep s (.other a) { s with threads := t }

variable {s t : Timed T α} {a : TimedLabel T α}

lemma TimedStep.threads (h : TimedStep s a t) : t.threads = s.threads ∨ ∃ b, Step s.threads b t.threads := by
  cases h with
  | tick | call => exact .inl rfl
  | wait _ hout hsize => exact .inr ⟨_, .timedWait hout hsize⟩
  | pop _ hplace hpos htake => exact .inr ⟨_, .timedPop hplace hpos htake⟩
  | wakeEmpty _ htimed hsize => exact .inr ⟨_, .timedWake htimed hsize⟩
  | timeout _ htimed _ => exact .inr ⟨_, .timedFails htimed⟩
  | other _ hstep _ => exact .inr ⟨_, hstep⟩

lemma timed_refines {q : BlockQueue α} {clock : ℕ} {as : List (TimedLabel T α)}
    (h : Trace TimedStep (.start q clock) as s) : ∃ bs, Trace Step (.start q) bs s.threads :=
  h.project Timed.threads fun _ _ _ hs => hs.threads

lemma goTo_of_ne (s : Threads T α) {i j : T} (h : j ≠ i) (p : Place) : (s.goTo i p).place j = s.place j :=
  Function.update_of_ne h _ _

lemma Step.place_of_ne {s t : Threads T α} {a : Label T α} {j : T} (h : Step s a t) (hj : j ≠ a.thread) :
    t.place j = s.place j := by
  cases h with
  | push | clear | size | full | empty => rfl
  | pop | wait | waitFails | timedPop | timedWait | timedWake | timedFails => exact goTo_of_ne s hj _

end Steps

section Waiting

variable {T α : Type*}

def Timed.Exact (s : Timed T α) : Prop := ∀ i c, s.call i = some c → s.threads.place i = .timed → c.Exact

def Timed.GivesUpLate (s : Timed T α) : TimedLabel T α → Prop
  | .wakeEmpty i | .timeout i => ∀ c, s.call i = some c → c.due ≤ s.clock
  | _ => True

/-- A wait starts at a full second with a timeout of full seconds, and no thread is woken for an empty queue before
its time is over. -/
def Timed.Careful (s : Timed T α) : TimedLabel T α → Prop
  | .wait i => ∀ c, s.call i = some c → c.now.usec = 0 ∧ c.ms % 1000 = 0
  | .wakeEmpty i => ∀ c, s.call i = some c → c.due ≤ s.clock
  | _ => True

lemma exact_start (q : BlockQueue α) (clock : ℕ) : (Timed.start q clock : Timed T α).Exact := nofun

variable [DecidableEq T] {s t : Timed T α} {a : TimedLabel T α} {i : T}

lemma Timed.Exact.finish (h : s.Exact) {threads : Threads T α}
    (hplace : ∀ j ≠ i, threads.place j = s.threads.place j) : (s.finish i threads).Exact := by
  intro j c hcall htimed
  replace hcall : Function.update s.call i none j = some c := hcall
  by_cases hj : j = i
  · rw [hj, Function.update_self] at hcall
    cases hcall
  · rw [Function.update_of_ne hj] at hcall
    exact h j c hcall ((hplace j hj).symm.trans htimed)

lemma Timed.Exact.wait_iff {c : TimedCall} (h : s.Exact) (hcall : s.call i = some c) :
    Timed.Exact { s with threads := s.threads.goTo i .timed } ↔ c.Exact := by
  constructor
  · intro ht
    exact ht i c hcall (Function.update_self _ _ _)
  · intro hc j d hd htimed
    by_cases hj : j = i
    · subst hj
      cases hcall.symm.trans hd
      exact hc
    · exact h j d hd ((goTo_of_ne s.threads hj _).symm.trans htimed)

lemma step_careful_iff (h : s.Exact) (hs : TimedStep s a t) : t.Exact ∧ s.GivesUpLate a ↔ s.Careful a := by
  cases hs with
  | tick => exact iff_of_true ⟨h, trivial⟩ trivial
  | @call i ms hnone hout =>
    refine iff_of_true ⟨fun j c hcall htimed => ?_, trivial⟩ trivial
    by_cases hj : j = i
    · subst hj
      exact absurd (hout.symm.trans htimed) nofun
    · exact h j c ((Function.update_of_ne hj _ _).symm.trans hcall) htimed
  | @wait i c hcall hout hsize =>
    have hcareful : s.Careful (.wait i) ↔ c.now.usec = 0 ∧ c.ms % 1000 = 0 := by
      refine ⟨fun hall => hall c hcall, fun hc d hd => ?_⟩
      cases hcall.symm.trans hd
      exact hc
    rw [hcareful, ← c.exact_iff, ← h.wait_iff hcall]
    exact and_iff_left trivial
  | pop => exact iff_of_true ⟨h.finish fun j hj => goTo_of_ne _ hj _, trivial⟩ trivial
  | wakeEmpty => exact and_iff_right (h.finish fun j hj => goTo_of_ne _ hj _)
  | @timeout i c hcall htimed hlate =>
    refine iff_of_true ⟨h.finish fun j hj => goTo_of_ne _ hj _, fun d hd => ?_⟩ trivial
    cases hcall.symm.trans hd
    rw [← (h i c hcall htimed).2]
    exact hlate
  | @other a t hnone hstep htimed =>
    refine iff_of_true ⟨fun j c hcall hj => ?_, trivial⟩ trivial
    have hne : j ≠ a.thread := by
      rintro rfl
      exact htimed hj
    exact h j c hcall ((hstep.place_of_ne hne).symm.trans hj)

/-- In every interleaving, from every time on: in every state the deadlines of the threads that wait are normalised
and exact, and a call returns `false` only when its time is over, just if every wait starts at a full second with a
timeout of full seconds and no thread is woken for an empty queue before its time is over. -/
theorem timed_pop_waits_iff (q : BlockQueue α) (clock : ℕ) (as : List (TimedLabel T α)) :
    Along TimedStep (fun s a t => t.Exact ∧ s.GivesUpLate a) (.start q clock) as ↔
      Along TimedStep (fun s a _ => s.Careful a) (.start q clock) as :=
  along_iff (B := fun _ => True) trivial (exact_start q clock) (fun _ _ _ _ _ => trivial)
    (fun _ _ _ _ h hs => step_careful_iff h hs) as

theorem timed_pop_returns_early :
    (∃ (s t : Timed Unit ℕ) (c : TimedCall),
      Trace TimedStep (.start ⟨[0], 0, 1, -1, -1⟩ 500000000) [.call () 300, .wait ()] s ∧
      TimedStep s (.timeout ()) t ∧ s.call () = some c ∧ c.deadline = ⟨0, 0⟩ ∧ c.due = 800000000 ∧
      s.clock = 500000000) ∧
    (¬ Along TimedStep (fun (s : Timed Unit ℕ) a t => t.Exact ∧ s.GivesUpLate a)
      (.start ⟨[0], 0, 1, -1, -1⟩ 500000000) [.call () 300, .wait (), .timeout ()]) ∧
    ¬ Along TimedStep (fun (s : Timed Unit ℕ) a t => t.Exact ∧ s.GivesUpLate a)
      (.start ⟨[0], 0, 1, -1, -1⟩ 0) [.call () 1000, .wait (), .wakeEmpty ()] := by
  -- A wait of 300 ms that starts at 0.5 s has the deadline 0 s and is over at once; one of a second that starts
  -- at 0 s ends at a wake-up for nothing.
  have h₁ : Trace TimedStep (.start ⟨[0], 0, 1, -1, -1⟩ 500000000 : Timed Unit ℕ) _ _ :=
    .snoc .nil (.call (i := ()) 300 rfl rfl)
  have h₂ := h₁.snoc (.wait (i := ()) rfl rfl (by decide))
  have h₃ : Trace TimedStep (.start ⟨[0], 0, 1, -1, -1⟩ 0 : Timed Unit ℕ) _ _ :=
    .snoc .nil (.call (i := ()) 1000 rfl rfl)
  have h₄ := h₃.snoc (.wait (i := ()) rfl rfl (by decide))
  refine ⟨⟨_, _, _, h₂, .timeout (i := ()) rfl rfl (by decide), rfl, rfl, rfl, rfl⟩, fun h => ?_, fun h => ?_⟩
  · have hlate := (h _ (.timeout ()) [] _ _ rfl h₂ (.timeout (i := ()) rfl rfl (by decide))).2 _ rfl
    exact absurd hlate (by decide)
  · have hlate := (h _ (.wakeEmpty ()) [] _ _ rfl h₄ (.wakeEmpty (i := ()) rfl rfl (by decide))).2 _ rfl
    exact absurd hlate (by decide)

end Waiting

end OceanServer.Log
