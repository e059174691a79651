import OceanServer.Library.Runs

/-! The reactor handshake of one connection: the rounds of the event loop in `dealwithread` and
`dealwithwrite` and the workers in the reactor branch of `run`, one assignment or test to a step. -/

namespace OceanServer.Server.Handshake

open Library

inductive Event where
  | read | write
  deriving DecidableEq, Repr

def Event.state : Event → ℕ
  | .read => 0
  | .write => 1

def operation (state : ℕ) : Event := if state = 0 then .read else .write

inductive Main where
  | idle
  | appending (e : Event)
  | polling
  | testing
  | dealing
  | lowering
  | clearing
  deriving DecidableEq, Repr

inductive Worker where
  | picked (n : ℕ)
  | raising (n : ℕ) (e : Event) (ok : Bool)
  | flagging (n : ℕ)
  | processing (n : ℕ)
  deriving DecidableEq, Repr

/-- The rounds are numbered: `round` of them have ended, `asked` is the event of each, `outcome` the
operation that a worker ran for it with its result, and `dealt` whether `deal_timer` was called in it. -/
structure State where
  improv : Bool
  timerFlag : Bool
  state : ℕ
  main : Main
  queue : List ℕ
  workers : ℕ → Option Worker
  round : ℕ
  asked : ℕ → Event
  outcome : ℕ → Option (Event × Bool)
  dealt : ℕ → Bool

def start : State where
  improv := false
  timerFlag := false
  state := 0
  main := .idle
  queue := []
  workers := fun _ => none
  round := 0
  asked := fun _ => .read
  outcome := fun _ => none
  dealt := fun _ => false

def State.setWorker (s : State) (i : ℕ) (w : Option Worker) : State :=
  { s with workers := Function.update s.workers i w }

inductive Actor where
  | main | worker (i : ℕ)

def afterImprov (n : ℕ) (e : Event) (ok : Bool) : Option Worker :=
  if ok then if e = .read then some (.processing n) else none else some (.flagging n)

inductive Step : State → Actor → State → Prop
  | event {s} (e : Event) : s.main = .idle →
      Step s .main { s with main := .appending e, asked := Function.update s.asked s.round e }
  | append {s e} : s.main = .appending e →
      Step s .main { s with main := .polling, queue := s.queue ++ [s.round], state := e.state }
  | reject {s e} : s.main = .appending e → Step s .main { s with main := .polling }
  | spin {s} : s.main = .polling → s.improv = false → Step s .main s
  | poll {s} : s.main = .polling → s.improv = true → Step s .main { s with main := .testing }
  | flagged {s} : s.main = .testing → s.timerFlag = true → Step s .main { s with main := .dealing }
  | unflagged {s} : s.main = .testing → s.timerFlag = false → Step s .main { s with main := .clearing }
  | deal {s} : s.main = .dealing →
      Step s .main { s with main := .lowering, dealt := Function.update s.dealt s.round true }
  | lower {s} : s.main = .lowering → Step s .main { s with main := .clearing, timerFlag := false }
  | clear {s} : s.main = .clearing →
      Step s .main { s with main := .idle, improv := false, round := s.round + 1 }
  | take {s i n queue} : s.workers i = none → s.queue = n :: queue →
      Step s (.worker i) { s.setWorker i (some (.picked n)) with queue := queue }
  | perform {s i n} (ok : Bool) : s.workers i = some (.picked n) →
      Step s (.worker i) { s.setWorker i (some (.raising n (operation s.state) ok)) with
        outcome := Function.update s.outcome n (some (operation s.state, ok)) }
  | raise {s i n e ok} : s.workers i = some (.raising n e ok) →
      Step s (.worker i) { s.setWorker i (afterImprov n e ok) with improv := true }
  | flag {s i n} : s.workers i = some (.flagging n) →
      Step s (.worker i) { s.setWorker i none with timerFlag := true }
  | finish {s i n} : s.workers i = some (.processing n) → Step s (.worker i) (s.setWorker i none)

/-- The event loop does not test `timer_flag` while a worker is between its two assignments. -/
def Waits (s : State) : Actor → Prop
  | .main => s.main = .testing → ∀ i n, s.workers i ≠ some (.flagging n)
  | .worker _ => True

section Workers

variable {s t : State} {i j n : ℕ} {v w : Worker} {q q' : List ℕ} {o : Option (ℕ × Worker)}

def Worker.Due : Worker → Prop
  | .processing _ => False
  | _ => True

def Held (s : State) (q : List ℕ) (o : Option (ℕ × Worker)) : Prop :=
  s.queue = q ∧ ∀ i w, w.Due → (s.workers i = some w ↔ o = some (i, w))

lemma Held.is (h : Held s q o) (hw : s.workers i = some w) (hd : w.Due) : o = some (i, w) := (h.2 i w hd).mp hw

lemma Held.set (h : Held s q o) (ho : ∀ j w, o = some (j, w) → j = i) (hq : t.queue = q')
    (ht : t.workers = Function.update s.workers i (some v)) : Held t q' (some (i, v)) := by
  refine ⟨hq, fun j w hw => ?_⟩
  rw [ht]
  by_cases hji : j = i
  · rw [hji, Function.update_self, Option.some.injEq, Option.some.injEq, Prod.mk.injEq]
    exact ⟨fun h => ⟨rfl, h⟩, fun h => h.2⟩
  · rw [Function.update_of_ne hji, h.2 j w hw]
    constructor
    · intro hj
      exact absurd (ho j w hj) hji
    · intro hj
      cases hj
      exact absurd rfl hji

lemma Held.release {x : Option Worker} (h : Held s q (some (i, w))) (hx : ∀ v, x = some v → ¬ v.Due)
    (hq : t.queue = s.queue) (ht : t.workers = Function.update s.workers i x) : Held t q none := by
  refine ⟨hq.trans h.1, fun j v hv => ⟨fun hj => ?_, fun hj => by cases hj⟩⟩
  rw [ht] at hj
  by_cases hji : j = i
  · rw [hji, Function.update_self] at hj
    exact absurd hv (hx v hj)
  · rw [Function.update_of_ne hji] at hj
    have he := (h.2 j v hv).mp hj
    cases he
    exact absurd rfl hji

lemma Held.finish (h : Held s q o) (hj : s.workers j = some (.processing n)) :
    Held (s.setWorker j none) q o := by
  refine ⟨h.1, fun i w hw => ?_⟩
  rw [← h.2 i w hw]
  change Function.update s.workers j none i = some w ↔ s.workers i = some w
  by_cases hij : i = j
  · rw [hij, Function.update_self, hj]
    constructor
    · intro hn
      cases hn
    · intro hp
      cases hp
      exact hw.elim
  · rw [Function.update_of_ne hij]

lemma afterImprov_ok (n : ℕ) (e : Event) (v : Worker) (hv : afterImprov n e true = some v) : ¬ v.Due := by
  cases e with
  | read =>
    cases hv
    exact id
  | write => cases hv

lemma Held.worker_step (h : Held s [] none) (hs : Step s (.worker i) t) :
    t = s.setWorker i none ∧ Held t [] none := by
  cases hs with
  | take _ hq =>
    rw [h.1] at hq
    cases hq
  | perform ok hw | raise hw | flag hw => cases h.is hw trivial
  | finish hw => exact ⟨rfl, h.finish hw⟩

end Workers

section Invariant

variable {s t : State}

inductive Worked (s : State) : Prop
  | rejected : Held s [] none → s.improv = false → s.timerFlag = false → Worked s
  | queued : Held s [s.round] none → s.improv = false → s.timerFlag = false →
      s.state = (s.asked s.round).state → Worked s
  | picked {i} : Held s [] (some (i, .picked s.round)) → s.improv = false → s.timerFlag = false →
      s.state = (s.asked s.round).state → Worked s
  | raising {i b} : Held s [] (some (i, .raising s.round (s.asked s.round) b)) → s.improv = false →
      s.timerFlag = false → s.outcome s.round = some (s.asked s.round, b) → Worked s
  | flagging {i} : Held s [] (some (i, .flagging s.round)) → s.improv = true → s.timerFlag = false →
      s.outcome s.round = some (s.asked s.round, false) → Worked s
  | done {b} : Held s [] none → s.improv = true → s.timerFlag = !b →
      s.outcome s.round = some (s.asked s.round, b) → Worked s

def AtMain (s : State) : Main → Prop
  | .idle => Held s [] none ∧ s.improv = false ∧ s.timerFlag = false ∧ s.dealt s.round = false
  | .appending e => Held s [] none ∧ s.improv = false ∧ s.timerFlag = false ∧ s.dealt s.round = false ∧
      s.asked s.round = e
  | .polling => Worked s ∧ s.dealt s.round = false
  | .testing => Worked s ∧ s.improv = true ∧ s.dealt s.round = false
  | .dealing => Held s [] none ∧ s.outcome s.round = some (s.asked s.round, false) ∧ s.dealt s.round = false
  | .lowering => Held s [] none ∧ s.outcome s.round = some (s.asked s.round, false) ∧ s.dealt s.round = true
  | .clearing => Held s [] none ∧ s.outcome s.round = some (s.asked s.round, !s.dealt s.round) ∧
      s.timerFlag = false

lemma AtMain.dealt {m : Main} (h : AtMain s m) (hd : s.dealt s.round = true) :
    s.outcome s.round = some (s.asked s.round, false) := by
  cases m with
  | idle =>
    rw [h.2.2.2] at hd
    cases hd
  | appending =>
    rw [h.2.2.2.1] at hd
    cases hd
  | polling =>
    rw [h.2] at hd
    cases hd
  | testing =>
    rw [h.2.2] at hd
    cases hd
  | dealing | lowering => exact h.2.1
  | clearing =>
    rw [h.2.1, hd]
    rfl

structure Inv (s : State) : Prop where
  main : AtMain s s.main
  past : ∀ n < s.round, s.outcome n = some (s.asked n, !s.dealt n)
  future : ∀ n, s.round < n → s.dealt n = false

lemma Worked.goTo (h : Worked s) (m : Main) : Worked { s with main := m } := by
  cases h with
  | rejected hh hi hf => exact .rejected hh hi hf
  | queued hh hi hf hst => exact .queued hh hi hf hst
  | picked hh hi hf hst => exact .picked hh hi hf hst
  | raising hh hi hf ho => exact .raising hh hi hf ho
  | flagging hh hi hf ho => exact .flagging hh hi hf ho
  | done hh hi hf ho => exact .done hh hi hf ho

lemma Worked.tested (h : Worked s) (hi : s.improv = true) (hn : ∀ i n, s.workers i ≠ some (.flagging n)) :
    ∃ b, Held s [] none ∧ s.timerFlag = !b ∧ s.outcome s.round = some (s.asked s.round, b) := by
  cases h with
  | rejected _ hi' | queued _ hi' | picked _ hi' | raising _ hi' =>
    rw [hi] at hi'
    cases hi'
  | @flagging i hh => exact absurd ((hh.2 i (.flagging s.round) trivial).mpr rfl) (hn _ _)
  | done hh _ hf ho => exact ⟨_, hh, hf, ho⟩

lemma operation_state (e : Event) : operation e.state = e := by cases e <;> rfl

lemma worked_step {i : ℕ} (h : Worked s) (hs : Step s (.worker i) t) :
    Worked t ∧ (s.improv = true → t.improv = true) ∧ t.main = s.main ∧ t.round = s.round ∧
      t.asked = s.asked ∧ t.dealt = s.dealt ∧ ∀ n, n ≠ s.round → t.outcome n = s.outcome n := by
  cases hs with
  | take _ hq =>
    cases h with
    | queued hh hi hf hst =>
      rw [hh.1] at hq
      cases hq
      refine ⟨.picked (i := i) ?_ hi hf hst, id, rfl, rfl, rfl, rfl, fun _ _ => rfl⟩
      exact hh.set (fun _ _ hn => by cases hn) rfl rfl
    | rejected hh | picked hh | raising hh | flagging hh | done hh =>
      rw [hh.1] at hq
      cases hq
  | perform ok hw =>
    cases h with
    | picked hh hi hf hst =>
      cases hh.is hw trivial
      have he : operation s.state = s.asked s.round := by rw [hst, operation_state]
      refine ⟨.raising (i := i) (b := ok) ?_ hi hf ?_, id, rfl, rfl, rfl, rfl,
        fun n hn => Function.update_of_ne hn _ _⟩
      · rw [he]
        exact hh.set (fun _ _ hn => by cases hn; rfl) hh.1 rfl
      · rw [he]
        exact Function.update_self _ _ _
    | rejected hh | queued hh | raising hh | flagging hh | done hh => cases hh.is hw trivial
  | @raise _ _ _ ok hw =>
    cases h with
    | raising hh hi hf ho =>
      cases hh.is hw trivial
      refine ⟨?_, fun _ => rfl, rfl, rfl, rfl, rfl, fun _ _ => rfl⟩
      cases ok with
      | false => exact .flagging (hh.set (fun _ _ hn => by cases hn; rfl) hh.1 rfl) rfl hf ho
      | true =>
        exact .done (b := true) (hh.release (afterImprov_ok _ _) rfl rfl) rfl hf ho
    | rejected hh | queued hh | picked hh | flagging hh | done hh => cases hh.is hw trivial
  | flag hw =>
    cases h with
    | flagging hh hi hf ho =>
      cases hh.is hw trivial
      exact ⟨.done (hh.release (fun _ hn => by cases hn) rfl rfl) hi rfl ho, id, rfl, rfl, rfl, rfl,
        fun _ _ => rfl⟩
    | rejected hh | queued hh | picked hh | raising hh | done hh => cases hh.is hw trivial
  | finish hw =>
    refine ⟨?_, id, rfl, rfl, rfl, rfl, fun _ _ => rfl⟩
    cases h with
    | rejected hh hi hf => exact .rejected (hh.finish hw) hi hf
    | queued hh hi hf hst => exact .queued (hh.finish hw) hi hf hst
    | picked hh hi hf hst => exact .picked (hh.finish hw) hi hf hst
    | raising hh hi hf ho => exact .raising (hh.finish hw) hi hf ho
    | flagging hh hi hf ho => exact .flagging (hh.finish hw) hi hf ho
    | done hh hi hf ho => exact .done (hh.finish hw) hi hf ho

lemma worker_inv {i : ℕ} (h : Inv s) (hs : Step s (.worker i) t) : Inv t := by
  obtain ⟨hmain, hpast, hfuture⟩ := h
  -- outside polling and testing no request is under way
  have hrest : Held s [] none → AtMain (s.setWorker i none) s.main → Inv t := by
    intro hh hat
    obtain ⟨rfl, -⟩ := hh.worker_step hs
    exact ⟨hat, hpast, hfuture⟩
  have hwork : Worked s → AtMain t s.main → Inv t := by
    intro hw hat
    obtain ⟨-, -, hm, hr, ha, hd, ho⟩ := worked_step hw hs
    refine ⟨?_, fun n hn => ?_, fun n hn => ?_⟩
    · rw [hm]
      exact hat
    · rw [hr] at hn
      rw [ho n hn.ne, ha, hd]
      exact hpast n hn
    · rw [hr] at hn
      rw [hd]
      exact hfuture n hn
  have hquiet : Held s [] none → Held (s.setWorker i none) [] none := by
    intro hh
    obtain ⟨rfl, ht⟩ := hh.worker_step hs
    exact ht
  cases hm : s.main with
  | polling =>
    rw [hm] at hmain hwork
    obtain ⟨hw, hd⟩ := hmain
    obtain ⟨hw', -, -, hr, -, hd', -⟩ := worked_step hw hs
    exact hwork hw ⟨hw', by rw [hd', hr, hd]⟩
  | testing =>
    rw [hm] at hmain hwork
    obtain ⟨hw, hi, hd⟩ := hmain
    obtain ⟨hw', hi', -, hr, -, hd', -⟩ := worked_step hw hs
    exact hwork hw ⟨hw', hi' hi, by rw [hd', hr, hd]⟩
  | idle | appending | dealing | lowering | clearing =>
    rw [hm] at hmain hrest
    exact hrest hmain.1 ⟨hquiet hmain.1, hmain.2⟩

lemma main_inv (h : Inv s) (hw : Waits s .main) (hs : Step s .main t) : Inv t := by
  obtain ⟨hmain, hpast, hfuture⟩ := h
  cases hs with
  | event e hm =>
    rw [hm] at hmain
    obtain ⟨hh, hi, hf, hd⟩ := hmain
    refine ⟨⟨hh, hi, hf, hd, Function.update_self _ _ _⟩, fun n hn => ?_, hfuture⟩
    change s.outcome n = some (Function.update s.asked s.round e n, _)
    rw [Function.update_of_ne hn.ne]
    exact hpast n hn
  | append hm =>
    rw [hm] at hmain
    obtain ⟨hh, hi, hf, hd, ha⟩ := hmain
    refine ⟨⟨.queued ⟨?_, hh.2⟩ hi hf ?_, hd⟩, hpast, hfuture⟩
    · rw [hh.1]
      rfl
    · rw [ha]
  | reject hm =>
    rw [hm] at hmain
    obtain ⟨hh, hi, hf, hd, -⟩ := hmain
    exact ⟨⟨.rejected hh hi hf, hd⟩, hpast, hfuture⟩
  | spin => exact ⟨hmain, hpast, hfuture⟩
  | poll hm hi =>
    rw [hm] at hmain
    obtain ⟨hw, hd⟩ := hmain
    exact ⟨⟨hw.goTo .testing, hi, hd⟩, hpast, hfuture⟩
  | flagged hm hf =>
    rw [hm] at hmain
    obtain ⟨hk, hi, hd⟩ := hmain
    obtain ⟨b, hh, hfb, ho⟩ := hk.tested hi (hw hm)
    rw [hf] at hfb
    cases b with
    | false => exact ⟨⟨hh, ho, hd⟩, hpast, hfuture⟩
    | true => cases hfb
  | unflagged hm hf =>
    rw [hm] at hmain
    obtain ⟨hk, hi, hd⟩ := hmain
    obtain ⟨b, hh, hfb, ho⟩ := hk.tested hi (hw hm)
    rw [hf] at hfb
    cases b with
    | false => cases hfb
    | true => exact ⟨⟨hh, by rw [ho, hd]; rfl, hf⟩, hpast, hfuture⟩
  | deal hm =>
    rw [hm] at hmain
    obtain ⟨hh, ho, hd⟩ := hmain
    refine ⟨⟨hh, ho, Function.update_self _ _ _⟩, fun n hn => ?_, fun n hn => ?_⟩
    · change _ = some (_, !Function.update s.dealt s.round true n)
      rw [Function.update_of_ne hn.ne]
      exact hpast n hn
    · change Function.update s.dealt s.round true n = false
      rw [Function.update_of_ne hn.ne']
      exact hfuture n hn
  | lower hm =>
    rw [hm] at hmain
    obtain ⟨hh, ho, hd⟩ := hmain
    exact ⟨⟨hh, by rw [ho, hd]; rfl, rfl⟩, hpast, hfuture⟩
  | clear hm =>
    rw [hm] at hmain
    obtain ⟨hh, ho, hf⟩ := hmain
    refine ⟨⟨hh, rfl, hf, hfuture _ (Nat.lt_succ_self _)⟩, fun n hn => ?_, fun n hn => ?_⟩
    · obtain hlt | rfl := Nat.lt_succ_iff_lt_or_eq.mp hn
      · exact hpast n hlt
      · exact ho
    · exact hfuture n ((Nat.lt_succ_self _).trans hn)

lemma step_inv (s : State) (a : Actor) (t : State) (h : Inv s) (hw : Waits s a) (hs : Step s a t) : Inv t := by
  cases a with
  | main => exact main_inv h hw hs
  | worker i => exact worker_inv h hs

lemma start_inv : Inv start where
  main := ⟨⟨rfl, fun _ _ _ => ⟨nofun, nofun⟩⟩, rfl, rfl, rfl⟩
  past := fun _ hn => absurd hn (Nat.not_lt_zero _)
  future := fun _ _ => rfl

end Invariant

/-- In every run in which the event loop does not test `timer_flag` between a worker's `improv = 1` and
its `timer_flag = 1`: in each round that has ended a worker ran the operation of the event, and
`deal_timer` was called just if it returned false; and between two rounds both flags are 0. -/
theorem handshake_rounds {s : State} (h : Runs Step Waits start s) :
    (∀ n, s.dealt n = true → s.outcome n = some (s.asked n, false)) ∧
      (∀ n < s.round, ∃ ok, s.outcome n = some (s.asked n, ok) ∧ (s.dealt n = true ↔ ok = false)) ∧
      (s.main = .idle → s.improv = false ∧ s.timerFlag = false) := by
  obtain ⟨hmain, hpast, hfuture⟩ := h.invariant start_inv step_inv
  refine ⟨fun n hn => ?_, fun n hn => ⟨_, hpast n hn, by simp⟩, fun hm => ?_⟩
  · obtain hlt | rfl | hgt := Nat.lt_trichotomy n s.round
    · rw [hpast n hlt, hn]
      rfl
    · exact hmain.dealt hn
    · rw [hfuture n hgt] at hn
      cases hn
  · rw [hm] at hmain
    exact ⟨hmain.2.1, hmain.2.2.1⟩

lemma waits_main {s t u : State} (h : Runs Step Waits s t) (hm : t.main ≠ .testing) (hs : Step t .main u) :
    Runs Step Waits s u := .tail (a := .main) h (fun ht => absurd ht hm) hs

lemma waits_worker {s t u : State} {i : ℕ} (h : Runs Step Waits s t) (hs : Step t (.worker i) u) :
    Runs Step Waits s u := .tail (a := .worker i) h trivial hs

theorem handshake_rounds_failed_write : ∃ s, Runs Step Waits start s ∧ s.round = 1 ∧ s.main = .idle ∧
    s.outcome 0 = some (.write, false) ∧
    ((∀ n, s.dealt n = true → s.outcome n = some (s.asked n, false)) ∧
      (∀ n < s.round, ∃ ok, s.outcome n = some (s.asked n, ok) ∧ (s.dealt n = true ↔ ok = false)) ∧
      (s.main = .idle → s.improv = false ∧ s.timerFlag = false)) := by
  have h₁ := waits_main .refl (by decide) (.event (s := start) .write rfl)
  have h₂ := waits_main h₁ nofun (.append rfl)
  have h₃ := waits_worker h₂ (.take (i := 0) rfl rfl)
  have h₄ := waits_worker h₃ (.perform (i := 0) false rfl)
  have h₅ := waits_worker h₄ (.raise (i := 0) rfl)
  have h₆ := waits_worker h₅ (.flag (i := 0) rfl)
  have h₇ := waits_main h₆ nofun (.poll rfl rfl)
  have h₈ : Runs Step Waits start _ := .tail (a := .main) h₇ ?_ (.flagged rfl rfl)
  · have h₉ := waits_main h₈ nofun (.deal rfl)
    have h₁₀ := waits_main h₉ nofun (.lower rfl)
    have h₁₁ := waits_main h₁₀ nofun (.clear rfl)
    exact ⟨_, h₁₁, rfl, rfl, rfl, handshake_rounds h₁₁⟩
  · intro _ i n
    simp [State.setWorker, start]

theorem handshake_stale_flag : ∃ s t, Reachable Step start s ∧ Reachable Step start t ∧
    (s.round = 1 ∧ s.main = .idle ∧ s.outcome 0 = some (.read, false) ∧ s.dealt 0 = false ∧
      s.timerFlag = true) ∧
    t.round = 2 ∧ t.outcome 1 = some (.read, true) ∧ t.dealt 1 = true := by
  -- The event loop tests `timer_flag` between the two assignments of a worker whose `read_once` failed: it does
  -- not deal with the timer, the flag is left set, and in the next round, whose `read_once` succeeds, the timer
  -- is dealt with.
  have h₁ : Reachable Step start _ := .go .refl (.event .read rfl)
  have h₂ : Reachable Step start _ := .go h₁ (.append rfl)
  have h₃ : Reachable Step start _ := .go h₂ (.take (i := 0) rfl rfl)
  have h₄ : Reachable Step start _ := .go h₃ (.perform (i := 0) false rfl)
  have h₅ : Reachable Step start _ := .go h₄ (.raise (i := 0) rfl)
  have h₆ : Reachable Step start _ := .go h₅ (.poll rfl rfl)
  have h₇ : Reachable Step start _ := .go h₆ (.unflagged rfl rfl)
  have h₈ : Reachable Step start _ := .go h₇ (.clear rfl)
  have h₉ : Reachable Step start _ := .go h₈ (.flag (i := 0) rfl)
  have h₁₀ : Reachable Step start _ := .go h₉ (.event .read rfl)
  have h₁₁ : Reachable Step start _ := .go h₁₀ (.append rfl)
  have h₁₂ : Reachable Step start _ := .go h₁₁ (.take (i := 0) rfl rfl)
  have h₁₃ : Reachable Step start _ := .go h₁₂ (.perform (i := 0) true rfl)
  have h₁₄ : Reachable Step start _ := .go h₁₃ (.raise (i := 0) rfl)
  have h₁₅ : Reachable Step start _ := .go h₁₄ (.poll rfl rfl)
  have h₁₆ : Reachable Step start _ := .go h₁₅ (.flagged rfl rfl)
  have h₁₇ : Reachable Step start _ := .go h₁₆ (.deal rfl)
  have h₁₈ : Reachable Step start _ := .go h₁₇ (.lower rfl)
  have h₁₉ : Reachable Step start _ := .go h₁₈ (.clear rfl)
  exact ⟨_, _, h₉, h₁₉, ⟨rfl, rfl, rfl, rfl, rfl⟩, rfl, rfl, rfl⟩

end OceanServer.Server.Handshake
