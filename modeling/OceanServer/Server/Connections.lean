import OceanServer.Server.Invariant

/-! The count of connections and the idle timeout over whole runs of the server, and the run in which a
worker closes a connection and leaves its timer in the list. -/

namespace OceanServer.Server

open Library Library.CString Http Timer

lemma run_inv {cfg : Config} {slots : ℕ → Slot} {users : ℕ → User} {now : ℤ} {s : WebServer}
    (h : Runs (Step cfg) Answers (.start slots users now) s) : Inv s :=
  h.invariant (inv_start slots users now) step_inv

def proactor : Config := ⟨false, false, 10000, fun _ _ => .noRequest⟩

def getFile : ReadState :=
  (default : ReadState).init.receive (ascii "GET /x HTTP/1.1".toList ++ [cr, lf, cr, lf])

def launch : WebServer := .start default default 0

lemma deliver_listen (s : WebServer) : Deliverable s [.listen] := ⟨List.nodup_nil, by simp⟩

lemma deliver_alarm (s : WebServer) : Deliverable s [.signals true false] := ⟨List.nodup_nil, by simp⟩

lemma deliver_read {s : WebServer} {fd : ℕ} (ho : fd ∈ s.opened) (ha : s.armed fd = some .input) :
    Deliverable s [.readable fd] := ⟨List.nodup_singleton _, by simp [ho, ha]⟩

lemma tickServer_one {s : WebServer} {l : TimerList} {p : ℕ} {v : UtilTimer}
    (h : tick s.timers s.now = some (l, [(p, v)])) :
    tickServer s = some (cbFunc { s with timers := l } v.userData) := by
  simp only [tickServer, h, Option.bind_eq_bind, Option.bind_some, List.foldl_cons, List.foldl_nil]

section FirstClient

/-- A step that opens and closes no connection, receives nothing, and is no parsing or answering of a worker. -/
structure Quiet (cfg : Config) (s : WebServer) (a : Actor) (t : WebServer) : Prop where
  step : Step cfg s a t
  opened : t.opened = s.opened
  reads : ∀ k, (t.users k).read = (s.users k).read
  worker : ∀ i k, a = .worker i → s.workers i ≠ some (.reading k) ∧ ∀ ret, s.workers i ≠ some (.writing k ret)

lemma Quiet.answers {cfg : Config} {s t : WebServer} {a : Actor} (h : Quiet cfg s a t) : Answers s a := by
  cases a with
  | clock | main => trivial
  | worker i => exact fun fd ret hw => absurd hw ((h.worker i fd rfl).2 ret)

lemma Quiet.main {cfg : Config} {s t : WebServer} (hs : Step cfg s .main t) (ho : t.opened = s.opened)
    (hr : ∀ k, (t.users k).read = (s.users k).read) : Quiet cfg s .main t :=
  ⟨hs, ho, hr, fun _ _ he => nomatch he⟩

lemma Quiet.ofWorker {cfg : Config} {s t : WebServer} {i : ℕ} {w : Option Worker} (hs : Step cfg s (.worker i) t)
    (hw : s.workers i = w) (hn : ∀ k, w ≠ some (.reading k) ∧ ∀ ret, w ≠ some (.writing k ret))
    (ho : t.opened = s.opened) (hr : ∀ k, (t.users k).read = (s.users k).read) : Quiet cfg s (.worker i) t := by
  refine ⟨hs, ho, hr, fun j k he => ?_⟩
  cases he
  rw [hw]
  exact hn k

-- the client on descriptor 7 is reported, is accepted at time 0, sends, and its request is read
def knocking : WebServer := (disarm launch [.listen]).goTo (.handling [.listen])

def joined : WebServer := ((startTimer knocking 7 0).getD knocking).goTo (.handling [])

def sending : WebServer := (disarm (joined.goTo .waiting) [.readable 7]).goTo (.handling [.readable 7])

def received (c : ReadState) : WebServer := (dealWithRead proactor sending 7 ⟨true, c⟩ []).getD sending

def processing (c : ReadState) : WebServer :=
  { ((received c).goTo .waiting).setWorker 0 (some (.picked 7)) with queue := [] }.setWorker 0 (some (.reading 7))

lemma run_knocking : Reachable (Quiet proactor) launch knocking :=
  .go .refl (.main (.wait [.listen] rfl rfl (deliver_listen _)) rfl fun _ => rfl)

lemma step_joined : Step proactor knocking .main joined := .accept 7 0 rfl (by decide) (by decide) rfl rfl

lemma run_sending : Reachable (Quiet proactor) joined sending := by
  have h₁ : Reachable (Quiet proactor) joined (joined.goTo .waiting) :=
    .go .refl (.main (.idle rfl rfl) rfl fun _ => rfl)
  exact h₁.go (.main (.wait [.readable 7] rfl rfl (deliver_read (by decide) rfl)) rfl fun _ => rfl)

lemma step_received (c : ReadState) : Step proactor sending .main (received c) := .readable ⟨true, c⟩ rfl rfl

lemma run_processing (c : ReadState) : Reachable (Quiet proactor) (received c) (processing c) := by
  have h₁ : Reachable (Quiet proactor) (received c) _ := .go .refl (.main (.idle rfl rfl) rfl fun _ => rfl)
  have h₂ := h₁.go (.ofWorker (w := none) (.dequeue (i := 0) rfl rfl) rfl (fun _ => ⟨nofun, nofun⟩) rfl fun _ => rfl)
  exact h₂.go (.ofWorker (w := some (.picked 7)) (.process (i := 0) rfl rfl) rfl (fun _ => ⟨nofun, nofun⟩) rfl
    fun _ => rfl)

lemma run_firstClient {R : WebServer → Actor → WebServer → Prop} {allowed : WebServer → Actor → Prop} (c : ReadState)
    (hquiet : ∀ s a t, Quiet proactor s a t → allowed s a ∧ R s a t)
    (hjoined : allowed knocking .main ∧ R knocking .main joined)
    (hreceived : allowed sending .main ∧ R sending .main (received c)) : Runs R allowed launch (processing c) := by
  have hlift {s t u : WebServer} (h : Runs R allowed s t) (hrun : Reachable (Quiet proactor) t u) :
      Runs R allowed s u :=
    hrun.invariant (I := fun v => Runs R allowed s v) h fun v a w hv _ hs =>
      hv.tail (hquiet v a w hs).1 (hquiet v a w hs).2
  have h₁ := (hlift .refl run_knocking).tail hjoined.1 hjoined.2
  have h₂ := (hlift h₁ run_sending).tail hreceived.1 hreceived.2
  exact hlift h₂ (run_processing c)

lemma run_answering (c : ReadState) : Runs (Step proactor) Answers launch (processing c) :=
  run_firstClient c (fun _ _ _ h => ⟨h.answers, h.step⟩) ⟨trivial, step_joined⟩ ⟨trivial, step_received c⟩

end FirstClient

lemma run_worker_close :
    ∃ s, Reachable (Step proactor) launch s ∧ s.main = .waiting ∧ s.stop = false ∧ s.timeout = false ∧
      s.now = 0 ∧ s.userCount = 0 ∧ s.opened = [] ∧ (s.slots 7).sockfd = 7 ∧
      (∃ l, tick s.timers 15 = some (l, [(0, ⟨15, 7⟩)])) ∧ s.timers.heap.cell 1 = none ∧
      ∃ l, addTimer (s.timers.new 1 ⟨29, 7⟩) (some 1) = some l ∧
        ∃ l', tick l 15 = some (l', [(0, ⟨15, 7⟩)]) := by
  have h : Reachable (Step proactor) launch (processing getFile) := (run_answering getFile).mono fun _ _ _ => trivial
  have h₁ : Reachable (Step proactor) launch _ := .go h (.parse (i := 0) .missing rfl rfl rfl)
  have h₂ : Reachable (Step proactor) launch _ := .go h₁ (.answer (i := 0) rfl)
  have h₃ : Reachable (Step proactor) launch _ := .go h₂ (.close (i := 0) rfl rfl)
  have h₄ : Reachable (Step proactor) launch _ := .go h₃ (.reset (i := 0) rfl)
  have h₅ : Reachable (Step proactor) launch _ := .go h₄ (.discount (i := 0) rfl)
  have h₆ : Reachable (Step proactor) launch _ := .go h₅ (.rearm (i := 0) rfl)
  exact ⟨_, h₆, rfl, rfl, rfl, rfl, rfl, rfl, rfl, ⟨_, rfl⟩, rfl, _, rfl, _, rfl⟩

lemma worker_tail {s t u : WebServer} {i : ℕ} {w : Option Worker} (h : Runs (Step proactor) Answers s t)
    (hs : Step proactor t (.worker i) u) (hw : t.workers i = w) (hn : ∀ fd ret, w ≠ some (.writing fd ret)) :
    Runs (Step proactor) Answers s u :=
  .tail (a := .worker i) h (fun fd ret he => absurd (hw.symm.trans he) (hn fd ret)) hs

lemma run_served : ∃ s, Runs (Step proactor) Answers launch s ∧ s.opened = [7] ∧ s.now = 15 := by
  have h₁ := worker_tail (w := some (.reading 7)) (run_answering getFile)
    (.parse (i := 0) (.found true false 10) rfl rfl rfl) rfl nofun
  have h₂ : Runs (Step proactor) Answers launch _ := .tail (a := .worker 0) h₁ ?_ (.answer rfl)
  · have h₃ := worker_tail (w := some (.rearming 7 .output)) h₂ (.rearm (i := 0) rfl) rfl nofun
    exact ⟨_, .tail (a := .clock) h₃ trivial (.clock 15 (show (0 : ℤ) ≤ 15 by decide)), rfl, rfl⟩
  · rintro fd ret he
    have he' : some (.writing 7 .fileRequest) = some (Worker.writing fd ret) := he
    cases he'
    exact .inl ⟨rfl, show (10 : ℤ) ≠ 0 by decide⟩

/-- In every run in which each verdict that reaches `process_write` is answered, `m_user_count` is the
number of connections that are open. -/
theorem connection_count {cfg : Config} {slots : ℕ → Slot} {users : ℕ → User} {now : ℤ} {s : WebServer}
    (h : Runs (Step cfg) Answers (.start slots users now) s) :
    s.opened.Nodup ∧ s.userCount = s.opened.length := by
  obtain ⟨xs, hg⟩ := (run_inv h).good
  exact ⟨hg.linked.nodup, hg.linked.count⟩

theorem connection_count_served : ∃ s, Runs (Step proactor) Answers launch s ∧ s.opened = [7] ∧
    s.opened.Nodup ∧ s.userCount = s.opened.length := by
  obtain ⟨s, h, ho, -⟩ := run_served
  exact ⟨s, h, ho, connection_count h⟩

theorem connection_count_worker_close :
    ∃ s, Reachable (Step proactor) launch s ∧ s.opened = [] ∧ s.userCount = -1 := by
  obtain ⟨s, h, hm, hstop, -, hnow, hc, ho, hfd, ⟨l, hl⟩, -⟩ := run_worker_close
  have h₁ : Reachable (Step proactor) launch _ := .go h (.clock 15 (by rw [hnow]; decide))
  have h₂ : Reachable (Step proactor) launch _ := .go h₁ (.wait [.signals true false] hm hstop (deliver_alarm _))
  have h₃ : Reachable (Step proactor) launch _ := .go h₂ (.signals rfl)
  have h₄ : Reachable (Step proactor) launch _ := .go h₃ (.tick rfl (Bool.or_true _) (tickServer_one hl))
  refine ⟨_, h₄, ?_, ?_⟩
  · change s.opened.erase _ = []
    rw [ho, List.erase_nil]
  · change s.userCount - 1 = -1
    rw [hc, zero_sub]

/-- In every run in which each verdict that reaches `process_write` is answered, each timer belongs to
the connection that is open on its slot, and a tick closes only connections that were accepted or
adjusted at least `3 * TIMESLOT` before. -/
theorem no_premature_close {cfg : Config} {slots : ℕ → Slot} {users : ℕ → User} {now : ℤ} {s : WebServer}
    (h : Runs (Step cfg) Answers (.start slots users now) s) :
    (∃ xs, s.timers.walk = some xs ∧ ∀ e ∈ xs, (s.slots e.2.userData).sockfd = e.2.userData ∧
      e.2.userData ∈ s.opened ∧ (s.slots e.2.userData).timer = some e.1) ∧
    ∃ l fired, tick s.timers s.now = some (l, fired) ∧ ∀ e ∈ fired,
      (s.slots e.2.userData).sockfd ∈ s.opened ∧
        s.touched (s.slots e.2.userData).sockfd + 3 * timeslot ≤ s.now := by
  obtain ⟨xs, hg⟩ := (run_inv h).good
  refine ⟨⟨xs, walk_spec hg.shape, fun e he => ?_⟩, ?_⟩
  · obtain ⟨ho, hs, -⟩ := hg.linked.owner e he
    rw [hs]
    exact ⟨rfl, ho, rfl⟩
  · obtain ⟨l, hl, -⟩ := tick_spec hg.shape s.now
    rw [(hg.sorted.takeWhile_eq s.now).1] at hl
    refine ⟨l, _, hl, fun e he => ?_⟩
    obtain ⟨hmem, hdue⟩ := List.mem_filter.mp he
    obtain ⟨ho, hs, ht⟩ := hg.linked.owner e hmem
    rw [hs]
    exact ⟨ho, ht ▸ of_decide_eq_true hdue⟩

theorem no_premature_close_served : ∃ s, Runs (Step proactor) Answers launch s ∧ s.now = 15 ∧
    ∃ l fired, tick s.timers s.now = some (l, fired) ∧ ∀ e ∈ fired,
      (s.slots e.2.userData).sockfd ∈ s.opened ∧
        s.touched (s.slots e.2.userData).sockfd + 3 * timeslot ≤ s.now := by
  obtain ⟨s, h, -, hnow⟩ := run_served
  exact ⟨s, h, hnow, (no_premature_close h).2⟩

theorem premature_close_of_reused_descriptor :
    ∃ s t, Reachable (Step proactor) launch s ∧ s.main = .handling [] ∧ s.timeout = true ∧
      Step proactor s .main t ∧ 7 ∈ s.opened ∧ 7 ∉ t.opened ∧ s.touched 7 = 14 ∧ s.now = 15 := by
  obtain ⟨s, h, hm, hstop, htime, hnow, hc, ho, hfd, -, hfree, l, hl, l', hl'⟩ := run_worker_close
  have h₁ : Reachable (Step proactor) launch _ := .go h (.clock 14 (by rw [hnow]; decide))
  have h₂ : Reachable (Step proactor) launch _ := .go h₁ (.wait [.listen] hm hstop (deliver_listen _))
  have h₃ : Reachable (Step proactor) launch _ := .go h₂ (.accept 7 1 rfl (by simp [disarm, WebServer.goTo, ho])
    (by simp [disarm, WebServer.goTo, hc, maxFd]) hfree (by
      simp only [startTimer, disarm, WebServer.goTo]
      exact congrArg (Option.map _) hl))
  have h₄ : Reachable (Step proactor) launch _ := .go h₃ (.idle rfl htime)
  have h₅ : Reachable (Step proactor) launch _ := .go h₄ (.clock 15 (show (14 : ℤ) ≤ 15 by decide))
  have h₆ : Reachable (Step proactor) launch _ := .go h₅ (.wait [.signals true false] rfl hstop (deliver_alarm _))
  have h₇ : Reachable (Step proactor) launch _ := .go h₆ (.signals rfl)
  refine ⟨_, _, h₇, rfl, Bool.or_true _, .tick rfl (Bool.or_true _) (tickServer_one hl'), List.mem_cons_self, ?_,
    rfl, rfl⟩
  change 7 ∉ (7 :: s.opened).erase 7
  rw [ho]
  decide

end OceanServer.Server
