import OceanServer.Server.Exclusive

/-! Signals reach the event loop as bytes: `sig_handler` writes the number of the signal into a socket pair,
`dealwithsignal` reads what is there, and `timer_handler` asks for the next alarm. -/

namespace OceanServer.Server.Signals

open Library Http Timer

def sigalrm : UInt8 := 14
def sigterm : UInt8 := 15

def signalsSize : ℕ := 1024

/-- `pipe` is what has been written to `m_pipefd[1]` and not been read from `m_pipefd[0]`, and `due` is when
the alarm that `alarm` has set will go off. -/
structure System where
  web : WebServer
  pipe : List UInt8
  due : Option ℤ

def System.start (slots : ℕ → Slot) (users : ℕ → User) (now : ℤ) : System where
  web := .start slots users now
  pipe := []
  due := some (now + timeslot)

def send (capacity : ℕ) (pipe : List UInt8) (sig : UInt8) : List UInt8 :=
  if pipe.length < capacity then pipe ++ [sig] else pipe

def sigHandler (capacity : ℕ) (sig : UInt8) (s : System) : System :=
  { s with pipe := send capacity s.pipe sig }

def takeSignal (flags : Bool × Bool) (sig : UInt8) : Bool × Bool :=
  if sig = sigalrm then (true, flags.2) else if sig = sigterm then (flags.1, true) else flags

def dealWithSignal (s : System) (batch : List Ready) : System :=
  -- where nothing is there `recv` fails, and nothing changes
  let flags := (s.pipe.take signalsSize).foldl takeSignal (s.web.timeout, s.web.stop)
  { s with
    web := { s.web with main := .handling batch, timeout := flags.1, stop := flags.2 }
    pipe := s.pipe.drop signalsSize }

def timerHandler (s : System) (t : WebServer) : System where
  web := { t with timeout := false, main := .waiting }
  pipe := s.pipe
  due := some (s.web.now + timeslot)

def isPipe : Ready → Bool
  | .signals _ _ => true
  | _ => false

inductive Event where
  | alarm (stored : Bool)
  | kill (stored : Bool)
  | wait
  | receive
  | tick (now : ℤ)
  | server (a : Actor)

def Event.dropped : Event → Bool
  | .alarm stored => !stored
  | _ => false

def Event.isWait : Event → Bool
  | .wait => true
  | _ => false

def Event.tickTime : Event → Option ℤ
  | .tick now => some now
  | _ => none

/-- What the event loop does apart from the signals: it is not at `epoll_wait`, unless it leaves the loop there,
not at the event of the socket pair and not at `timer_handler`. -/
def Elsewhere (s t : WebServer) : Main → Prop
  | .waiting => t.main = .stopped
  | .handling [] => s.timeout = false
  | .handling (.signals _ _ :: _) => False
  | _ => True

section Steps

variable (cfg : Config) (capacity : ℕ)

inductive Step : System → Event → System → Prop
  | alarm {s time} : s.due = some time → time ≤ s.web.now →
      Step s (.alarm (s.pipe.length < capacity)) (sigHandler capacity sigalrm { s with due := none })
  | kill {s} : Step s (.kill (s.pipe.length < capacity)) (sigHandler capacity sigterm s)
  | wait {s} (batch : List Ready) : s.web.main = .waiting → s.web.stop = false → Deliverable s.web batch →
      batch.countP isPipe ≤ 1 → (s.pipe = [] → batch.countP isPipe = 0) →
      Step s .wait { s with web := (disarm s.web batch).goTo (.handling batch) }
  -- the flags of the event mean nothing here: what it brings is decided by `recv`
  | receive {s alarm term batch} : s.web.main = .handling (.signals alarm term :: batch) →
      Step s .receive (dealWithSignal s batch)
  | tick {s t} : s.web.main = .handling [] → s.web.timeout = true → tickServer s.web = some t →
      Step s (.tick s.web.now) (timerHandler s t)
  | server {s a t} : Server.Step cfg s.web a t → (a = .main → Elsewhere s.web t s.web.main) →
      Step s (.server a) { s with web := t }

end Steps

section Loop

variable {s t u : WebServer} {fd : ℕ} {timer : Option ℕ}

structure SameLoop (s t : WebServer) : Prop where
  timeout : t.timeout = s.timeout
  stop : t.stop = s.stop
  now : t.now = s.now

lemma SameLoop.refl (s : WebServer) : SameLoop s s := ⟨rfl, rfl, rfl⟩

lemma SameLoop.trans (h : SameLoop s t) (h' : SameLoop t u) : SameLoop s u :=
  ⟨h'.timeout.trans h.timeout, h'.stop.trans h.stop, h'.now.trans h.now⟩

lemma retimed_sameLoop {fds : List ℕ} (h : Retimed s t fds) : SameLoop s t := by
  obtain ⟨l, touched, rfl⟩ := h
  exact ⟨rfl, rfl, rfl⟩

lemma tickServer_sameLoop (h : tickServer s = some t) : SameLoop s t := by
  obtain ⟨fds, hticked⟩ := tickServer_retimed h
  exact retimed_sameLoop hticked

lemma append_sameLoop (cfg : Config) (s : WebServer) (fd state : ℕ) : SameLoop s (append cfg s fd state) := by
  rw [append]
  split_ifs
  · exact .refl s
  · exact ⟨rfl, rfl, rfl⟩

lemma appendP_sameLoop (cfg : Config) (s : WebServer) (fd : ℕ) : SameLoop s (appendP cfg s fd) := by
  rw [appendP]
  split_ifs
  · exact .refl s
  · exact ⟨rfl, rfl, rfl⟩

def pending (m : Main) : ℕ := m.batch.countP isPipe

lemma pending_tail {e : Ready} {batch : List Ready} (hm : s.main = .handling (e :: batch)) (he : isPipe e = false) :
    pending s.main = batch.countP isPipe := by
  rw [pending, hm, Main.batch, List.countP_cons_of_neg (by simp [he])]

structure Calm (s t : WebServer) : Prop where
  timeout : t.timeout = s.timeout
  stop : t.stop = s.stop
  now : s.now ≤ t.now
  pending : pending t.main = pending s.main

lemma SameLoop.calm {m : Main} (h : SameLoop s t) (hp : Signals.pending m = Signals.pending s.main) :
    Calm s (t.goTo m) := ⟨h.timeout, h.stop, h.now.ge, hp⟩

variable {cfg : Config} {batch : List Ready}

lemma polled_calm {state : ℕ} {m : Main}
    (h : ((adjust s fd timer).bind fun u => some ((append cfg u fd state).goTo m)) = some t)
    (hp : pending m = pending s.main) : Calm s t := by
  obtain ⟨u, hu, h⟩ := Option.bind_eq_some_iff.mp h
  cases h
  exact ((retimed_sameLoop (adjust_retimed hu)).trans (append_sameLoop cfg u fd state)).calm hp

lemma dealt_calm {v w : WebServer} {ok : Bool} {m : Main}
    (h : (if ok then adjust v fd timer else dealTimer w fd timer).map (·.goTo m) = some t)
    (hv : SameLoop s v) (hw : SameLoop s w) (hp : pending m = pending s.main) : Calm s t := by
  obtain ⟨u, hu, rfl⟩ := Option.map_eq_some_iff.mp h
  cases ok with
  | true => exact (hv.trans (retimed_sameLoop (adjust_retimed hu))).calm hp
  | false => exact (hw.trans (retimed_sameLoop (dealTimer_retimed hu))).calm hp

lemma dealWithRead_calm {io : Io} (hm : s.main = .handling (.readable fd :: batch))
    (h : dealWithRead cfg s fd io batch = some t) : Calm s t := by
  have hp := (pending_tail hm rfl).symm
  rw [dealWithRead] at h
  by_cases hr : cfg.reactor = true
  · rw [if_pos hr] at h
    exact polled_calm h hp
  · rw [if_neg hr] at h
    have hu : SameLoop s (s.setUser fd { s.users fd with read := io.read }) := ⟨rfl, rfl, rfl⟩
    exact dealt_calm h (hu.trans (appendP_sameLoop cfg _ fd)) hu hp

lemma dealWithWrite_calm {io : Io} (hm : s.main = .handling (.writable fd :: batch))
    (h : dealWithWrite cfg s fd io batch = some t) : Calm s t := by
  have hp := (pending_tail hm rfl).symm
  rw [dealWithWrite] at h
  by_cases hr : cfg.reactor = true
  · rw [if_pos hr] at h
    exact polled_calm h hp
  · rw [if_neg hr] at h
    exact dealt_calm h (.refl s) (.refl s) hp

lemma modfd_sameLoop (s : WebServer) (interest : Interest) (k : Option ℕ) : SameLoop s (modfd s interest k) := by
  cases k with
  | none => exact .refl s
  | some k =>
    rw [modfd]
    split_ifs
    · exact ⟨rfl, rfl, rfl⟩
    · exact .refl s

lemma main_calm (hs : Server.Step cfg s .main t) (he : Elsewhere s t s.main) : Calm s t := by
  cases hs with
  | wait batch hm =>
    rw [hm] at he
    cases he
  | leave hm => exact ⟨rfl, rfl, le_rfl, by rw [hm]; rfl⟩
  | @accept u batch k p hm hk hc hp hu =>
    obtain ⟨l, -, rfl⟩ := Option.map_eq_some_iff.mp hu
    refine ⟨rfl, rfl, le_rfl, ?_⟩
    rw [pending_tail hm rfl]
    split_ifs <;> rfl
  | busy hm | acceptFail hm => exact ⟨rfl, rfl, le_rfl, (pending_tail hm rfl).symm⟩
  | hangup hm ht => exact (retimed_sameLoop (dealTimer_retimed ht)).calm (pending_tail hm rfl).symm
  | signals hm =>
    rw [hm] at he
    exact he.elim
  | readable io hm ht => exact dealWithRead_calm hm ht
  | writable io hm ht => exact dealWithWrite_calm hm ht
  | poll hm | unflagged hm | clear hm => exact ⟨rfl, rfl, le_rfl, by rw [hm]; rfl⟩
  | flagged hm _ ht =>
    have h := retimed_sameLoop (dealTimer_retimed ht)
    exact ⟨h.timeout, h.stop, h.now.ge, by rw [hm]; rfl⟩
  | tick hm htime =>
    rw [hm] at he
    exact absurd (htime.symm.trans he) (by decide)
  | idle hm => exact ⟨rfl, rfl, le_rfl, by rw [hm]; rfl⟩

lemma worker_calm {i : ℕ} (hs : Server.Step cfg s (.worker i) t) : Calm s t := by
  cases hs with
  | @rearm _ k interest =>
    have h := modfd_sameLoop s interest (s.users k).sockfd
    refine ⟨h.timeout, h.stop, h.now.ge, ?_⟩
    exact congrArg pending (modfd_same s interest (s.users k).sockfd).2.2
  | _ => exact ⟨rfl, rfl, le_rfl, rfl⟩

lemma server_calm {a : Actor} (hs : Server.Step cfg s a t) (he : a = .main → Elsewhere s t s.main) : Calm s t := by
  cases a with
  | clock =>
    cases hs with
    | clock now hle => exact ⟨rfl, rfl, hle, rfl⟩
  | main => exact main_calm hs (he rfl)
  | worker i => exact worker_calm hs

end Loop

section Tokens

variable {cfg : Config} {capacity : ℕ} {s t : System} {es : List Event}

def System.alarms (s : System) : ℕ := s.due.isSome.toNat + s.pipe.count sigalrm + s.web.timeout.toNat

lemma deliver_signals (s : WebServer) (alarm term : Bool) : Deliverable s [.signals alarm term] :=
  ⟨List.nodup_nil, by simp⟩

lemma foldl_takeSignal (bytes : List UInt8) (flags : Bool × Bool) :
    bytes.foldl takeSignal flags =
      (flags.1 || decide (sigalrm ∈ bytes), flags.2 || decide (sigterm ∈ bytes)) := by
  induction bytes generalizing flags with
  | nil => simp
  | cons b bytes ih =>
    rw [List.foldl_cons, ih, takeSignal]
    have hne : sigalrm ≠ sigterm := by decide
    split_ifs with h₁ h₂
    · subst h₁
      simp [hne.symm]
    · subst h₂
      simp [hne]
    · simp [Ne.symm h₁, Ne.symm h₂]

lemma count_send (pipe : List UInt8) (b sig : UInt8) :
    (send capacity pipe sig).count b =
      pipe.count b + if sig = b ∧ pipe.length < capacity then 1 else 0 := by
  rw [send]
  by_cases hroom : pipe.length < capacity
  · rw [if_pos hroom, List.count_append, List.count_singleton]
    simp [hroom]
  · simp [hroom]

lemma toNat_or_mem {flag : Bool} {sig : UInt8} {bytes : List UInt8} (h : flag.toNat + bytes.count sig ≤ 1) :
    (flag || decide (sig ∈ bytes)).toNat = flag.toNat + bytes.count sig := by
  by_cases hin : sig ∈ bytes
  · have hpos := List.count_pos_iff.mpr hin
    rw [decide_eq_true hin, Bool.or_true, Bool.toNat_true]
    omega
  · rw [decide_eq_false hin, Bool.or_false, List.count_eq_zero.mpr hin, add_zero]

lemma receive_alarms (batch : List Ready) (h : s.alarms ≤ 1) : (dealWithSignal s batch).alarms = s.alarms := by
  have hsplit := congrArg (List.count sigalrm) (List.take_append_drop signalsSize s.pipe)
  rw [List.count_append] at hsplit
  rw [System.alarms] at h
  simp only [System.alarms, dealWithSignal, foldl_takeSignal]
  rw [toNat_or_mem (by omega)]
  omega

lemma alarms_step {e : Event} (hs : Step cfg capacity s e t) (h : s.alarms ≤ 1) :
    t.alarms + (if e.dropped then 1 else 0) = s.alarms := by
  cases hs with
  | alarm hdue =>
    simp only [System.alarms, sigHandler, count_send, hdue, Event.dropped]
    by_cases hroom : s.pipe.length < capacity <;> simp [hroom] <;> omega
  | kill =>
    have hne : sigterm ≠ sigalrm := by decide
    simp [System.alarms, sigHandler, count_send, Event.dropped, hne]
  | wait => rfl
  | receive => exact receive_alarms _ h
  | tick hm htime ht =>
    simp only [System.alarms, timerHandler, htime, Event.dropped] at h ⊢
    cases hdue : s.due with
    | none => simp [Nat.add_comm]
    | some time =>
      rw [hdue, Option.isSome_some, Bool.toNat_true] at h
      omega
  | server hs he =>
    simp only [System.alarms, (server_calm hs he).timeout, Event.dropped]
    rfl

/-- However signals, event loop, workers and clock interleave, there is one alarm, until a byte of it has
been dropped at a full socket pair. -/
theorem alarm_conserved {slots : ℕ → Slot} {users : ℕ → User} {now : ℤ}
    (h : Trace (Step cfg capacity) (.start slots users now) es s) :
    s.due.isSome.toNat + s.pipe.count sigalrm + s.web.timeout.toNat + es.countP Event.dropped = 1 := by
  refine h.invariant (I := fun es s => s.alarms + es.countP Event.dropped = 1) rfl ?_
  intro es t e u ht hs
  have hstep := alarms_step hs (by omega)
  rw [List.countP_append, List.countP_singleton]
  omega

def firstAlarm : List Event := [.server .clock, .alarm true, .wait, .receive, .tick 5]

lemma run_firstAlarm : ∃ s, Trace (Step proactor 4) (.start default default 0) firstAlarm s ∧ s.due = some 10 := by
  have h₁ : Trace (Step proactor 4) (.start default default 0) _ _ :=
    .snoc .nil (.server (.clock 5 (show (0 : ℤ) ≤ 5 by decide)) (by intro he; cases he))
  have h₂ := h₁.snoc (.alarm rfl (show (5 : ℤ) ≤ 5 from le_rfl))
  have h₃ := h₂.snoc (.wait [.signals false false] rfl rfl (deliver_signals _ _ _) le_rfl (by intro he; cases he))
  have h₄ := h₃.snoc (.receive rfl)
  have h₅ := h₄.snoc (.tick rfl rfl rfl)
  exact ⟨_, h₅, rfl⟩

theorem alarm_conserved_firstAlarm : ∃ s, Trace (Step proactor 4) (.start default default 0) firstAlarm s ∧
    s.due.isSome.toNat + s.pipe.count sigalrm + s.web.timeout.toNat + firstAlarm.countP Event.dropped = 1 := by
  obtain ⟨s, h, -⟩ := run_firstAlarm
  exact ⟨s, h, alarm_conserved h⟩

end Tokens

section Pace

variable {cfg : Config} {capacity : ℕ} {s t : System} {es : List Event} {marks : List ℤ}

structure Paced (marks : List ℤ) (s : System) : Prop where
  one : s.alarms ≤ 1
  spaced : marks.Pairwise fun a b => a + timeslot ≤ b
  past : ∀ x ∈ marks, x ≤ s.web.now
  set : ∀ time ∈ s.due, ∀ x ∈ marks, x + timeslot ≤ time
  off : s.due = none → ∀ x ∈ marks, x + timeslot ≤ s.web.now

lemma Paced.step {e : Event} (h : Paced marks s) (hs : Step cfg capacity s e t) :
    Paced (marks ++ [e].filterMap Event.tickTime) t := by
  have hone : t.alarms ≤ 1 := by
    have hle := alarms_step hs h.one
    have hone := h.one
    omega
  cases hs with
  | @alarm time hdue hle =>
    change Paced (marks ++ []) _
    rw [List.append_nil]
    refine ⟨hone, h.spaced, h.past, fun _ hset => ?_, fun _ x hx => (h.set time hdue x hx).trans hle⟩
    cases hset
  | kill | wait | receive =>
    change Paced (marks ++ []) _
    rw [List.append_nil]
    exact ⟨hone, h.spaced, h.past, h.set, h.off⟩
  | @tick u hm htime ht =>
    have hdue : s.due = none := by
      cases hdue : s.due with
      | none => rfl
      | some time =>
        have hle := h.one
        rw [System.alarms, htime, hdue, Option.isSome_some, Bool.toNat_true] at hle
        omega
    have hnow : u.now = s.web.now := (tickServer_sameLoop ht).now
    have hoff := h.off hdue
    refine ⟨hone, ?_, ?_, ?_, fun hn => by cases hn⟩
    · refine List.pairwise_append.mpr ⟨h.spaced, List.pairwise_singleton _ _, fun x hx y hy => ?_⟩
      rw [List.mem_singleton.mp hy]
      exact hoff x hx
    · change ∀ x ∈ marks ++ [s.web.now], x ≤ u.now
      rw [hnow]
      exact List.forall_mem_append.mpr ⟨h.past, by simp⟩
    · intro time hset
      cases hset
      refine List.forall_mem_append.mpr ⟨fun x hx => Int.add_le_add_right (h.past x hx) _, ?_⟩
      exact fun x hx => Int.add_le_add_right (List.mem_singleton.mp hx).le _
  | server hs he =>
    change Paced (marks ++ []) _
    rw [List.append_nil]
    have hnow := (server_calm hs he).now
    exact ⟨hone, h.spaced, fun x hx => (h.past x hx).trans hnow, h.set, fun hn x hx => (h.off hn x hx).trans hnow⟩

/-- The timer list is looked through at most once in `TIMESLOT` seconds, from the start of the server on. -/
theorem ticks_spaced {slots : ℕ → Slot} {users : ℕ → User} {now : ℤ}
    (h : Trace (Step cfg capacity) (.start slots users now) es s) :
    (now :: es.filterMap Event.tickTime).Pairwise (fun a b => a + timeslot ≤ b) ∧
      ∀ x ∈ es.filterMap Event.tickTime, x ≤ s.web.now := by
  have hp : Paced (now :: es.filterMap Event.tickTime) s := by
    refine h.invariant (I := fun es s => Paced (now :: es.filterMap Event.tickTime) s) ?_ ?_
    · refine ⟨le_rfl, List.pairwise_singleton _ _, by simp [System.start, WebServer.start], ?_, fun hn => by cases hn⟩
      intro time hset
      cases hset
      simp
    · intro es t e u ht hs
      rw [List.filterMap_append, ← List.cons_append]
      exact ht.step hs
  exact ⟨hp.spaced, fun x hx => hp.past x (List.mem_cons_of_mem _ hx)⟩

theorem ticks_spaced_firstAlarm : ∃ s, Trace (Step proactor 4) (.start default default 0) firstAlarm s ∧
    (0 :: firstAlarm.filterMap Event.tickTime).Pairwise (fun a b => a + timeslot ≤ b) ∧
      ∀ x ∈ firstAlarm.filterMap Event.tickTime, x ≤ s.web.now := by
  obtain ⟨s, h, -⟩ := run_firstAlarm
  exact ⟨s, h, ticks_spaced h⟩

end Pace

section Term

variable {cfg : Config} {capacity : ℕ} {s t : System} {e : Event} {es : List Event}

def Prompt (s : System) (e : Event) (t : System) : Prop := e = .wait → s.pipe ≠ [] → pending t.web.main ≠ 0

def PromptStep (cfg : Config) (capacity : ℕ) (s : System) (e : Event) (t : System) : Prop :=
  Step cfg capacity s e t ∧ Prompt s e t

lemma pending_waiting (hm : s.web.main = .waiting) : pending s.web.main = 0 := by
  rw [hm]
  rfl

lemma pending_receive {alarm term : Bool} {batch : List Ready}
    (hm : s.web.main = .handling (.signals alarm term :: batch)) : pending s.web.main = batch.countP isPipe + 1 := by
  rw [hm]
  exact List.countP_cons_of_pos rfl

lemma pending_step (hs : Step cfg capacity s e t) (h : pending s.web.main ≤ 1) : pending t.web.main ≤ 1 := by
  cases hs with
  | alarm | kill => exact h
  | wait batch hm hstop hd hone => exact hone
  | @receive _ _ batch hm =>
    rw [pending_receive hm] at h
    exact (Nat.le_add_right _ 1).trans h
  | tick => exact Nat.zero_le 1
  | server hs he => exact (server_calm hs he).pending.le.trans h

lemma pending_le_one {slots : ℕ → Slot} {users : ℕ → User} {now : ℤ}
    (h : Trace (Step cfg capacity) (.start slots users now) es s) : pending s.web.main ≤ 1 :=
  h.invariant (I := fun _ (s : System) => pending s.web.main ≤ 1) zero_le_one fun _ _ _ _ hp hs => pending_step hs hp

structure Termed (s : System) : Prop where
  single : pending s.web.main ≤ 1
  known : s.web.stop = true ∨ sigterm ∈ s.pipe

def System.rounds (s : System) : ℕ :=
  if s.web.stop then 0 else s.pipe.idxOf sigterm / signalsSize + 1 - pending s.web.main

lemma rounds_stopped (h : s.web.stop = true) : s.rounds = 0 := by rw [System.rounds, h, if_pos rfl]

lemma rounds_running (h : s.web.stop = false) :
    s.rounds = s.pipe.idxOf sigterm / signalsSize + 1 - pending s.web.main := by rw [System.rounds, h, if_neg (by decide)]

lemma Termed.in_pipe (h : Termed s) (hstop : s.web.stop = false) : sigterm ∈ s.pipe :=
  h.known.resolve_left (by simp [hstop])

lemma rounds_same (h : Termed s) (hstop : t.web.stop = s.web.stop) (hp : pending t.web.main = pending s.web.main)
    (hpipe : s.pipe <+: t.pipe) : Termed t ∧ t.rounds ≤ s.rounds := by
  refine ⟨⟨hp.le.trans h.single, h.known.imp hstop.trans fun hin => hpipe.subset hin⟩, ?_⟩
  cases hs : s.web.stop with
  | true => exact (rounds_stopped (hstop.trans hs)).le.trans (Nat.zero_le _)
  | false =>
    obtain ⟨rest, hrest⟩ := hpipe
    rw [rounds_running hs, rounds_running (hstop.trans hs), ← hrest, List.idxOf_append_of_mem (h.in_pipe hs), hp]

lemma prefix_send (capacity : ℕ) (pipe : List UInt8) (sig : UInt8) : pipe <+: send capacity pipe sig := by
  rw [send]
  split_ifs
  · exact List.prefix_append pipe [sig]
  · exact List.prefix_rfl

lemma idxOf_drop {a : UInt8} {n : ℕ} {bytes : List UInt8} (h : a ∈ bytes) (hn : a ∉ bytes.take n) :
    a ∈ bytes.drop n ∧ bytes.idxOf a = n + (bytes.drop n).idxOf a := by
  have hsplit := List.take_append_drop n bytes
  have hin : a ∈ bytes.drop n := by
    rw [← hsplit] at h
    exact (List.mem_append.mp h).resolve_left hn
  refine ⟨hin, ?_⟩
  have hlen : (bytes.take n).length = n := by
    have hpos := List.length_pos_of_mem hin
    rw [List.length_drop] at hpos
    rw [List.length_take]
    omega
  nth_rewrite 1 [← hsplit]
  rw [List.idxOf_append_of_notMem hn, hlen]

lemma rounds_receive {alarm term : Bool} {batch : List Ready}
    (hm : s.web.main = .handling (.signals alarm term :: batch)) (h : Termed s) :
    Termed (dealWithSignal s batch) ∧ (dealWithSignal s batch).rounds ≤ s.rounds := by
  have hpend := pending_receive hm
  have hone := h.single
  have hzero : pending (dealWithSignal s batch).web.main = 0 := by
    change batch.countP isPipe = 0
    omega
  have hstop : (dealWithSignal s batch).web.stop = (s.web.stop || decide (sigterm ∈ s.pipe.take signalsSize)) :=
    congrArg Prod.snd (foldl_takeSignal (s.pipe.take signalsSize) (s.web.timeout, s.web.stop))
  by_cases hread : s.web.stop = true ∨ sigterm ∈ s.pipe.take signalsSize
  · have hs : (dealWithSignal s batch).web.stop = true := by
      rw [hstop, Bool.or_eq_true, decide_eq_true_iff]
      exact hread
    exact ⟨⟨hzero.le.trans (Nat.zero_le 1), .inl hs⟩, (rounds_stopped hs).le.trans (Nat.zero_le _)⟩
  · obtain ⟨hs, hnot⟩ := not_or.mp hread
    rw [Bool.not_eq_true] at hs
    obtain ⟨hin, hidx⟩ := idxOf_drop (h.in_pipe hs) hnot
    have hs' : (dealWithSignal s batch).web.stop = false := by rw [hstop, hs, decide_eq_false hnot, Bool.or_false]
    refine ⟨⟨hzero.le.trans (Nat.zero_le 1), .inr hin⟩, ?_⟩
    rw [rounds_running hs', rounds_running hs, hzero, hidx, Nat.add_div_left _ (by decide)]
    change (s.pipe.drop signalsSize).idxOf sigterm / signalsSize + 1 - 0 ≤ _
    omega

lemma rounds_step (hs : PromptStep cfg capacity s e t) (h : Termed s) :
    Termed t ∧ t.rounds + (if e.isWait then 1 else 0) ≤ s.rounds := by
  obtain ⟨hs, hprompt⟩ := hs
  cases hs with
  | alarm | kill => exact rounds_same h rfl rfl (prefix_send capacity s.pipe _)
  | wait batch hm hstop hd hone =>
    have hin := h.in_pipe hstop
    have hpend := hprompt rfl (List.ne_nil_of_mem hin)
    refine ⟨⟨hone, .inr hin⟩, ?_⟩
    have hrounds := rounds_running (s := { s with web := (disarm s.web batch).goTo (.handling batch) }) hstop
    rw [hrounds, rounds_running hstop, pending_waiting hm]
    change _ + 1 ≤ _
    generalize pending ((disarm s.web batch).goTo (.handling batch)).main = k at hpend ⊢
    generalize s.pipe.idxOf sigterm / signalsSize = q
    omega
  | receive hm => exact rounds_receive hm h
  | tick hm htime ht => exact rounds_same h (tickServer_sameLoop ht).stop (by rw [hm]; rfl) List.prefix_rfl
  | server hs he =>
    have hc := server_calm hs he
    exact rounds_same h hc.stop hc.pending List.prefix_rfl

/-- Once `SIGTERM` is in the socket pair it is not lost, and the event loop takes up no more arrays of events
than it takes to read up to its byte. -/
theorem sigterm_stops {slots : ℕ → Slot} {users : ℕ → User} {now : ℤ} {es' : List Event}
    (h : Trace (Step cfg capacity) (.start slots users now) es s) (hin : sigterm ∈ s.pipe)
    (h' : Trace (PromptStep cfg capacity) s es' t) :
    (t.web.stop = true ∨ sigterm ∈ t.pipe) ∧
      es'.countP Event.isWait ≤ s.pipe.idxOf sigterm / signalsSize + 1 := by
  obtain ⟨ht, hle⟩ := h'.countP_add_le (f := System.rounds) (p := Event.isWait) ⟨pending_le_one h, .inr hin⟩
    fun _ _ _ hI hs => rounds_step hs hI
  refine ⟨ht.known, ?_⟩
  have hs : s.rounds ≤ s.pipe.idxOf sigterm / signalsSize + 1 := by
    rw [System.rounds]
    split_ifs
    · exact Nat.zero_le _
    · exact Nat.sub_le _ _
  exact (Nat.le_add_right _ _).trans (hle.trans hs)

def killed : System := sigHandler 4 sigterm (.start default default 0)

theorem sigterm_stops_killed : ∃ t, Trace (Step proactor 4) (.start default default 0) [.kill true] killed ∧
    sigterm ∈ killed.pipe ∧ Trace (PromptStep proactor 4) killed [.wait, .receive] t ∧
    (t.web.stop = true ∨ sigterm ∈ t.pipe) ∧
      [Event.wait, .receive].countP Event.isWait ≤ killed.pipe.idxOf sigterm / signalsSize + 1 := by
  have h₁ : Trace (Step proactor 4) (.start default default 0) [.kill true] killed := .snoc .nil .kill
  have hin : sigterm ∈ killed.pipe := List.mem_singleton.mpr rfl
  have h₂ : Trace (PromptStep proactor 4) killed [.wait] _ :=
    .snoc .nil ⟨.wait [.signals false false] rfl rfl (deliver_signals _ _ _) le_rfl
      (fun he => absurd he (List.ne_nil_of_mem hin)), fun _ _ => one_ne_zero⟩
  have h₃ := h₂.snoc ⟨.receive rfl, fun he => by cases he⟩
  exact ⟨_, h₁, hin, h₃, sigterm_stops h₁ hin h₃⟩

end Term

end OceanServer.Server.Signals
