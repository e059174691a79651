import OceanServer.Http.Response
import OceanServer.Library.Runs
import OceanServer.Timer.List

/-! The server: the event loop of `webserver`, the workers that run `http_conn::process`, and what both
share, as a step relation. The kernel decides what arrives; the clock never goes back. -/

namespace OceanServer.Server

open Library Library.LinkedHeap Http Timer

def timeslot : ℤ := 5
def maxFd : ℤ := 65536

structure Config where
  reactor : Bool
  listenEt : Bool
  maxRequests : ℕ
  junk : ℕ → ℕ → HttpCode

inductive Interest where
  | input | output
  deriving DecidableEq, Repr

inductive Ready where
  | listen
  | signals (alarm term : Bool)
  | hangup (fd : ℕ)
  | readable (fd : ℕ)
  | writable (fd : ℕ)
  deriving DecidableEq, Repr

def Ready.fd : Ready → Option ℕ
  | .listen | .signals _ _ => none
  | .hangup fd | .readable fd | .writable fd => some fd

structure Slot where
  sockfd : ℕ
  timer : Option ℕ
  deriving DecidableEq, Inhabited

structure User where
  -- `none` where `m_sokcfd` is -1
  sockfd : Option ℕ
  state : ℕ
  improv : Bool
  timerFlag : Bool
  read : ReadState
  write : WriteState
  fileSize : ℤ
  deriving Inhabited

inductive Main where
  -- Where the event loop stands: in `epoll_wait`, before the next element of its array, in the three places of
  -- the handshake with a worker, or outside the loop.
  | waiting
  | handling (batch : List Ready)
  | polling (fd : ℕ) (timer : Option ℕ) (batch : List Ready)
  | testing (fd : ℕ) (timer : Option ℕ) (batch : List Ready)
  | clearing (fd : ℕ) (batch : List Ready)
  | stopped

inductive Worker where
  | picked (fd : ℕ)
  | flagging (fd : ℕ) (isRead ok : Bool)
  | failing (fd : ℕ)
  | reading (fd : ℕ)
  | writing (fd : ℕ) (ret : HttpCode)
  | closing (fd : ℕ)
  | resetting (fd : ℕ)
  | discounting (fd : ℕ)
  | rearming (fd : ℕ) (interest : Interest)

/-- `opened` holds the descriptors of the client connections that are open and `armed` their one-shot
registration with epoll. `touched` is when each was accepted or last passed to `adjust_timer`. -/
structure WebServer where
  timers : TimerList
  slots : ℕ → Slot
  users : ℕ → User
  userCount : ℤ
  opened : List ℕ
  armed : ℕ → Option Interest
  touched : ℕ → ℤ
  now : ℤ
  main : Main
  timeout : Bool
  stop : Bool
  queue : List ℕ
  workers : ℕ → Option Worker

def WebServer.start (slots : ℕ → Slot) (users : ℕ → User) (now : ℤ) : WebServer where
  timers := .empty
  slots := slots
  users := users
  userCount := 0
  opened := []
  armed := fun _ => none
  touched := fun _ => now
  now := now
  main := .waiting
  timeout := false
  stop := false
  queue := []
  workers := fun _ => none

def WebServer.setUser (s : WebServer) (fd : ℕ) (u : User) : WebServer :=
  { s with users := Function.update s.users fd u }

def WebServer.setWorker (s : WebServer) (i : ℕ) (w : Option Worker) : WebServer :=
  { s with workers := Function.update s.workers i w }

def WebServer.goTo (s : WebServer) (m : Main) : WebServer := { s with main := m }

def WebServer.close (s : WebServer) (fd : ℕ) : WebServer :=
  { s with opened := s.opened.erase fd, armed := Function.update s.armed fd none }

def User.init (u : User) (fd : ℕ) : User :=
  { u with
    sockfd := some fd, state := 0, improv := false, timerFlag := false
    read := u.read.init, write := u.write.init }

def cbFunc (s : WebServer) (slot : ℕ) : WebServer :=
  let s := s.close (s.slots slot).sockfd
  { s with userCount := s.userCount - 1 }

/-- `webserver::timer`, with the new `util_timer` at address `p`; `l` is the list it was added to. -/
def enroll (s : WebServer) (fd p : ℕ) (l : TimerList) : WebServer :=
  { s with
    timers := l
    slots := Function.update s.slots fd ⟨fd, some p⟩
    users := Function.update s.users fd ((s.users fd).init fd)
    userCount := s.userCount + 1
    opened := fd :: s.opened
    armed := Function.update s.armed fd (some .input)
    touched := Function.update s.touched fd s.now }

def startTimer (s : WebServer) (fd p : ℕ) : Option WebServer :=
  (addTimer (s.timers.new p ⟨s.now + 3 * timeslot, fd⟩) (some p)).map (enroll s fd p)

def adjust (s : WebServer) (fd : ℕ) : Option ℕ → Option WebServer
  | none => some s
  | some p => do
    let l ← s.timers.setExpire p (s.now + 3 * timeslot)
    let l ← adjustTimer l (some p)
    some { s with timers := l, touched := Function.update s.touched fd s.now }

def dealTimer (s : WebServer) (fd : ℕ) : Option ℕ → Option WebServer
  | none => none
  | some p => do
    let _ ← s.timers.heap.cell p
    let s := cbFunc s fd
    let l ← delTimer s.timers (some p)
    some { s with timers := l }

def tickServer (s : WebServer) : Option WebServer := do
  let (l, fired) ← tick s.timers s.now
  some (fired.foldl (fun s e => cbFunc s e.2.userData) { s with timers := l })

def append (cfg : Config) (s : WebServer) (fd state : ℕ) : WebServer :=
  if cfg.maxRequests ≤ s.queue.length then s
  else { s.setUser fd { s.users fd with state := state } with queue := s.queue ++ [fd] }

def appendP (cfg : Config) (s : WebServer) (fd : ℕ) : WebServer :=
  if cfg.maxRequests ≤ s.queue.length then s else { s with queue := s.queue ++ [fd] }

structure Io where
  ok : Bool
  read : ReadState

def dealWithRead (cfg : Config) (s : WebServer) (fd : ℕ) (io : Io) (batch : List Ready) : Option WebServer :=
  let timer := (s.slots fd).timer
  if cfg.reactor then do
    let s ← adjust s fd timer
    some ((append cfg s fd 0).goTo (.polling fd timer batch))
  else
    let s := s.setUser fd { s.users fd with read := io.read }
    (if io.ok then adjust (appendP cfg s fd) fd timer else dealTimer s fd timer).map
      (·.goTo (.handling batch))

def dealWithWrite (cfg : Config) (s : WebServer) (fd : ℕ) (io : Io) (batch : List Ready) : Option WebServer :=
  let timer := (s.slots fd).timer
  if cfg.reactor then do
    let s ← adjust s fd timer
    some ((append cfg s fd 1).goTo (.polling fd timer batch))
  else
    (if io.ok then adjust s fd timer else dealTimer s fd timer).map (·.goTo (.handling batch))

/-- The array that `epoll_wait` may return: each client connection at most once, open and armed. -/
def Deliverable (s : WebServer) (batch : List Ready) : Prop :=
  (batch.filterMap Ready.fd).Nodup ∧
    ∀ e ∈ batch, match e with
      | .listen | .signals _ _ => True
      | .hangup fd => fd ∈ s.opened ∧ s.armed fd ≠ none
      | .readable fd => fd ∈ s.opened ∧ s.armed fd = some .input
      | .writable fd => fd ∈ s.opened ∧ s.armed fd = some .output

def disarm (s : WebServer) (batch : List Ready) : WebServer :=
  { s with armed := fun fd => if fd ∈ batch.filterMap Ready.fd then none else s.armed fd }

inductive Actor where
  | clock | main | worker (i : ℕ)

def afterFlag (fd : ℕ) (isRead ok : Bool) : Option Worker :=
  if ok then if isRead then some (.reading fd) else none else some (.failing fd)

def afterRead (u : User) (fd : ℕ) (stat : FileStat) : Leave → Option (User × Worker)
  | .returned .noRequest c => some ({ u with read := c }, .rearming fd .input)
  | .returned code c => some ({ u with read := c }, .writing fd code)
  | .doRequest _ c =>
    some ({ u with read := c, fileSize := stat.sizeOr u.fileSize }, .writing fd stat.verdict)
  | .fault => none

def afterWrite (u : User) (fd : ℕ) (ret : HttpCode) : User × Worker :=
  match processWrite u.write u.read.linger u.fileSize ret with
  | (true, w) => ({ u with write := w }, .rearming fd .output)
  | (false, w) => ({ u with write := w }, .closing fd)

def modfd (s : WebServer) (interest : Interest) : Option ℕ → WebServer
  -- `modfd`; on a descriptor that is not registered `epoll_ctl` fails.
  | none => s
  | some fd =>
    if fd ∈ s.opened then { s with armed := Function.update s.armed fd (some interest) } else s

section Steps

variable (cfg : Config)

inductive Step : WebServer → Actor → WebServer → Prop
  | clock {s} (t : ℤ) : s.now ≤ t → Step s .clock { s with now := t }
  | wait {s} (batch : List Ready) : s.main = .waiting → s.stop = false → Deliverable s batch →
      Step s .main ((disarm s batch).goTo (.handling batch))
  | leave {s} : s.main = .waiting → Step s .main (s.goTo .stopped)
  | accept {s t batch} (fd p : ℕ) : s.main = .handling (.listen :: batch) → fd ∉ s.opened →
      s.userCount < maxFd → s.timers.heap.cell p = none → startTimer s fd p = some t →
      Step s .main (t.goTo (.handling (if cfg.listenEt then .listen :: batch else batch)))
  | busy {s batch} : s.main = .handling (.listen :: batch) → maxFd ≤ s.userCount →
      Step s .main (s.goTo (.handling batch))
  | acceptFail {s batch} : s.main = .handling (.listen :: batch) → Step s .main (s.goTo (.handling batch))
  | hangup {s t fd batch} : s.main = .handling (.hangup fd :: batch) →
      dealTimer s fd (s.slots fd).timer = some t → Step s .main (t.goTo (.handling batch))
  | signals {s alarm term batch} : s.main = .handling (.signals alarm term :: batch) →
      Step s .main { s with
        main := .handling batch, timeout := s.timeout || alarm, stop := s.stop || term }
  | readable {s t fd batch} (io : Io) : s.main = .handling (.readable fd :: batch) →
      dealWithRead cfg s fd io batch = some t → Step s .main t
  | writable {s t fd batch} (io : Io) : s.main = .handling (.writable fd :: batch) →
      dealWithWrite cfg s fd io batch = some t → Step s .main t
  | poll {s fd timer batch} : s.main = .polling fd timer batch → (s.users fd).improv = true →
      Step s .main (s.goTo (.testing fd timer batch))
  | flagged {s t fd timer batch} : s.main = .testing fd timer batch → (s.users fd).timerFlag = true →
      dealTimer s fd timer = some t →
      Step s .main ((t.setUser fd { t.users fd with timerFlag := false }).goTo (.clearing fd batch))
  | unflagged {s fd timer batch} : s.main = .testing fd timer batch → (s.users fd).timerFlag = false →
      Step s .main (s.goTo (.clearing fd batch))
  | clear {s fd batch} : s.main = .clearing fd batch →
      Step s .main ((s.setUser fd { s.users fd with improv := false }).goTo (.handling batch))
  | tick {s t} : s.main = .handling [] → s.timeout = true → tickServer s = some t →
      Step s .main { t with timeout := false, main := .waiting }
  | idle {s} : s.main = .handling [] → s.timeout = false → Step s .main (s.goTo .waiting)
  | dequeue {s i fd queue} : s.workers i = none → s.queue = fd :: queue →
      Step s (.worker i) { s.setWorker i (some (.picked fd)) with queue := queue }
  | process {s i fd} : s.workers i = some (.picked fd) → cfg.reactor = false →
      Step s (.worker i) (s.setWorker i (some (.reading fd)))
  | read {s i fd} (io : Io) : s.workers i = some (.picked fd) → cfg.reactor = true → (s.users fd).state = 0 →
      Step s (.worker i) ((s.setUser fd { s.users fd with read := io.read }).setWorker i
        (some (.flagging fd true io.ok)))
  | write {s i fd} (ok : Bool) : s.workers i = some (.picked fd) → cfg.reactor = true → (s.users fd).state ≠ 0 →
      Step s (.worker i) (s.setWorker i (some (.flagging fd false ok)))
  | flag {s i fd isRead ok} : s.workers i = some (.flagging fd isRead ok) →
      Step s (.worker i) ((s.setUser fd { s.users fd with improv := true }).setWorker i (afterFlag fd isRead ok))
  | fail {s i fd} : s.workers i = some (.failing fd) →
      Step s (.worker i) ((s.setUser fd { s.users fd with timerFlag := true }).setWorker i none)
  | parse {s i fd leave u w} (stat : FileStat) : s.workers i = some (.reading fd) →
      processRead cfg.junk (s.users fd).read = some leave →
      afterRead (s.users fd) fd stat leave = some (u, w) →
      Step s (.worker i) ((s.setUser fd u).setWorker i (some w))
  | answer {s i fd ret} : s.workers i = some (.writing fd ret) →
      Step s (.worker i) ((s.setUser fd (afterWrite (s.users fd) fd ret).1).setWorker i
        (some (afterWrite (s.users fd) fd ret).2))
  | closed {s i fd} : s.workers i = some (.closing fd) → (s.users fd).sockfd = none →
      Step s (.worker i) (s.setWorker i (some (.rearming fd .output)))
  | close {s i fd k} : s.workers i = some (.closing fd) → (s.users fd).sockfd = some k →
      Step s (.worker i) ((s.close k).setWorker i (some (.resetting fd)))
  | reset {s i fd} : s.workers i = some (.resetting fd) →
      Step s (.worker i) ((s.setUser fd { s.users fd with sockfd := none }).setWorker i (some (.discounting fd)))
  | discount {s i fd} : s.workers i = some (.discounting fd) →
      Step s (.worker i) ({ s with userCount := s.userCount - 1 }.setWorker i (some (.rearming fd .output)))
  | rearm {s i fd interest} : s.workers i = some (.rearming fd interest) →
      Step s (.worker i) ((modfd s interest (s.users fd).sockfd).setWorker i none)

end Steps

section Timers

def WebServer.retime (s : WebServer) (l : TimerList) (touched : ℕ → ℤ) (fds : List ℕ) : WebServer :=
  { s with
    timers := l
    touched := touched
    userCount := s.userCount - fds.length
    opened := s.opened.diff fds
    armed := fun fd => if fd ∈ fds then none else s.armed fd }

def Retimed (s t : WebServer) (fds : List ℕ) : Prop := ∃ l touched, t = s.retime l touched fds

variable {s t : WebServer} {k : ℕ} {timer : Option ℕ}

lemma retime_nil (s : WebServer) : s.retime s.timers s.touched [] = s := by
  simp [WebServer.retime]

lemma cbFunc_retime (s : WebServer) (k : ℕ) (l : TimerList) (touched : ℕ → ℤ) (fds : List ℕ) :
    (cbFunc s k).retime l touched fds = s.retime l touched ((s.slots k).sockfd :: fds) := by
  simp only [WebServer.retime, cbFunc, WebServer.close, List.diff_cons, List.length_cons, WebServer.mk.injEq, true_and,
    and_true]
  refine ⟨by push_cast; ring, funext fun fd => ?_⟩
  by_cases hfd : fd = (s.slots k).sockfd
  · simp [hfd]
  · simp [hfd]

lemma closes_retime (fired : List (ℕ × UtilTimer)) (s : WebServer) :
    fired.foldl (fun s e => cbFunc s e.2.userData) s =
      s.retime s.timers s.touched (fired.map fun e => (s.slots e.2.userData).sockfd) := by
  induction fired generalizing s with
  | nil => exact (retime_nil s).symm
  | cons e fired ih => exact (ih (cbFunc s e.2.userData)).trans (cbFunc_retime s e.2.userData _ _ _)

lemma adjust_retimed (h : adjust s k timer = some t) : Retimed s t [] := by
  cases timer with
  | none =>
    cases h
    exact ⟨_, _, (retime_nil s).symm⟩
  | some p =>
    obtain ⟨_, -, h⟩ := Option.bind_eq_some_iff.mp h
    obtain ⟨l, -, h⟩ := Option.bind_eq_some_iff.mp h
    cases h
    exact ⟨l, Function.update s.touched k s.now, by simp [WebServer.retime]⟩

lemma dealTimer_retimed (h : dealTimer s k timer = some t) : Retimed s t [(s.slots k).sockfd] := by
  cases timer with
  | none => cases h
  | some p =>
    obtain ⟨_, -, h⟩ := Option.bind_eq_some_iff.mp h
    obtain ⟨l, -, h⟩ := Option.bind_eq_some_iff.mp h
    cases h
    refine ⟨l, s.touched, ?_⟩
    rw [← cbFunc_retime]
    simp [WebServer.retime, cbFunc, WebServer.close]

lemma tickServer_eq (h : tickServer s = some t) : ∃ l fired, tick s.timers s.now = some (l, fired) ∧
    t = s.retime l s.touched (fired.map fun e => (s.slots e.2.userData).sockfd) := by
  obtain ⟨⟨l, fired⟩, hl, h⟩ := Option.bind_eq_some_iff.mp h
  cases h
  exact ⟨l, fired, hl, closes_retime fired { s with timers := l }⟩

lemma tickServer_retimed (h : tickServer s = some t) : ∃ fds, Retimed s t fds := by
  obtain ⟨l, fired, -, ht⟩ := tickServer_eq h
  exact ⟨_, l, s.touched, ht⟩

lemma Retimed.sublist {fds : List ℕ} (h : Retimed s t fds) : t.opened.Sublist s.opened := by
  obtain ⟨l, touched, rfl⟩ := h
  exact List.diff_sublist _ _

end Timers

end OceanServer.Server
