import OceanServer.Library.Getopt
import OceanServer.Library.Runs
import OceanServer.Server.Connections

/-! From the command line to the running server, in the order of `main`: `config::parse_arg`, `webserver::init`,
`webserver::trig_mode`, and the socket that `webserver::eventListen` leaves to the event loop. -/

namespace OceanServer.Server.Startup

open Library Library.Getopt Library.Scanf

section Model

structure Settings where
  port : Int32
  logWrite : Int32
  trigMode : Int32
  listenTrigmode : Int32
  connTrigmode : Int32
  optLinger : Int32
  sqlNum : Int32
  threadNum : Int32
  closeLog : Int32
  actorModel : Int32
  deriving DecidableEq, Repr

def Settings.config : Settings where
  port := 9006
  logWrite := 0
  trigMode := 0
  listenTrigmode := 0
  connTrigmode := 0
  optLinger := 0
  sqlNum := 8
  threadNum := 8
  closeLog := 0
  actorModel := 0

def optstring : List Char := "p:l:m:o:s:t:c:a:".toList

def Settings.take (s : Settings) : Found → Settings
  | .option 'p' (some arg) => { s with port := atoi arg }
  | .option 'l' (some arg) => { s with logWrite := atoi arg }
  | .option 'm' (some arg) => { s with trigMode := atoi arg }
  | .option 'o' (some arg) => { s with optLinger := atoi arg }
  | .option 's' (some arg) => { s with sqlNum := atoi arg }
  | .option 't' (some arg) => { s with threadNum := atoi arg }
  | .option 'c' (some arg) => { s with closeLog := atoi arg }
  | .option 'a' (some arg) => { s with actorModel := atoi arg }
  -- `?` is no case of the `switch`
  | _ => s

def Settings.parseArg (s : Settings) (argv : List (List Char)) : Settings :=
  (options (takes optstring) none argv.tail).foldl Settings.take s

/-- The numbers of a `webserver`; the two triggers are `none` as long as nothing is assigned to them. -/
structure Numbers where
  port : Int32
  sqlNum : Int32
  threadNum : Int32
  logWrite : Int32
  optLinger : Int32
  trigMode : Int32
  closeLog : Int32
  actorModel : Int32
  listenTrigmode : Option Int32
  connTrigmode : Option Int32
  deriving DecidableEq, Repr

def init (s : Settings) : Numbers where
  port := s.port
  sqlNum := s.sqlNum
  threadNum := s.threadNum
  logWrite := s.logWrite
  optLinger := s.optLinger
  trigMode := s.trigMode
  closeLog := s.closeLog
  actorModel := s.actorModel
  listenTrigmode := none
  connTrigmode := none

def Numbers.setTriggers (n : Numbers) : Numbers :=
  if 0 = n.trigMode then { n with listenTrigmode := some 0, connTrigmode := some 0 }
  else if 1 = n.trigMode then { n with listenTrigmode := some 0, connTrigmode := some 1 }
  else if 2 = n.trigMode then { n with listenTrigmode := some 1, connTrigmode := some 0 }
  else if 3 = n.trigMode then { n with listenTrigmode := some 1, connTrigmode := some 1 }
  else n

def main (argv : List (List Char)) : Numbers := (init (Settings.config.parseArg argv)).setTriggers

def Numbers.server (n : Numbers) (maxRequests : ℕ) (junk : ℕ → ℕ → Http.HttpCode) : Option Config :=
  n.listenTrigmode.map fun listen => ⟨1 = n.actorModel, 0 ≠ listen, maxRequests, junk⟩

end Model

section Told

inductive Setting where
  | port | logWrite | trigMode | optLinger | sqlNum | threadNum | closeLog | actorModel
  deriving DecidableEq, Repr

def Settings.get (s : Settings) : Setting → Int32
  | .port => s.port
  | .logWrite => s.logWrite
  | .trigMode => s.trigMode
  | .optLinger => s.optLinger
  | .sqlNum => s.sqlNum
  | .threadNum => s.threadNum
  | .closeLog => s.closeLog
  | .actorModel => s.actorModel

inductive Told where
  | attached (k : Setting) (n : Int32)
  | separate (k : Setting) (n : Int32)
  | stray (c : Char) (known : takes optstring c = none) (single : c ≠ '-')
  | operand (arg : List Char) (plain : arg.head? ≠ some '-')

def Told.value (k : Setting) : Told → Option Int32
  | .attached k' n | .separate k' n => if k' = k then some n else none
  | .stray _ _ _ | .operand _ _ => none

def lastTold (k : Setting) (ts : List Told) : Option Int32 := (ts.filterMap (Told.value k)).getLast?

def asked (ts : List Told) (k : Setting) : Int32 := (lastTold k ts).getD (Settings.config.get k)

def Numbers.get (n : Numbers) : Setting → Int32
  | .port => n.port
  | .logWrite => n.logWrite
  | .trigMode => n.trigMode
  | .optLinger => n.optLinger
  | .sqlNum => n.sqlNum
  | .threadNum => n.threadNum
  | .closeLog => n.closeLog
  | .actorModel => n.actorModel

end Told

section Result

end Result

section Listen

structure Socket where
  linger : Option (Int32 × Int32)
  reuseAddr : Bool
  port : Option UInt16
  listening : Bool
  deriving DecidableEq, Repr

inductive Call where
  | setLinger (onoff seconds : Int32)
  | setReuseAddr
  | bind (port : UInt16)
  | listen
  deriving DecidableEq, Repr

def Socket.new : Socket := ⟨none, false, none, false⟩

def Call.run (s : Socket) : Call → Socket
  | .setLinger onoff seconds => { s with linger := some (onoff, seconds) }
  | .setReuseAddr => { s with reuseAddr := true }
  | .bind port => { s with port := some port }
  | .listen => { s with listening := true }

def eventListen (n : Numbers) : List Call :=
  -- the address with `m_port` is filled in and not used
  (if 0 = n.optLinger then [.setLinger 0 1] else if 1 = n.optLinger then [.setLinger 1 1] else []) ++ [.setReuseAddr]

def listenSocket (n : Numbers) : Socket := (eventListen n).foldl Call.run .new

def Hosted (cfg : Config) (socket : Socket) (s : WebServer) (a : Actor) (t : WebServer) : Prop :=
  Step cfg s a t ∧ ∀ fd ∈ t.opened, fd ∉ s.opened → socket.listening = true

lemma listenSocket_closed (n : Numbers) : (listenSocket n).listening = false ∧ (listenSocket n).port = none := by
  rw [listenSocket, eventListen]
  split_ifs <;> exact ⟨rfl, rfl⟩

structure Deserted (s : WebServer) : Prop where
  opened : s.opened = []
  timers : s.timers = .empty
  userCount : s.userCount = 0
  queue : s.queue = []
  workers : ∀ i, s.workers i = none
  main : s.main = .waiting ∨ s.main = .stopped ∨ ∃ batch, s.main = .handling batch ∧ ∀ e ∈ batch, e.fd = none

variable {cfg : Config} {s t : WebServer} {a : Actor}

lemma Deserted.handles {batch : List Ready} (h : Deserted s) (hm : s.main = .handling batch) :
    ∀ e ∈ batch, e.fd = none := by
  rcases h.main with hw | hs | ⟨batch', hb, hfd⟩
  · cases hm.symm.trans hw
  · cases hm.symm.trans hs
  · cases hm.symm.trans hb
    exact hfd

lemma Deserted.goTo {m : Main} (h : Deserted s)
    (hm : m = .waiting ∨ m = .stopped ∨ ∃ batch, m = .handling batch ∧ ∀ e ∈ batch, e.fd = none) :
    Deserted (s.goTo m) := ⟨h.opened, h.timers, h.userCount, h.queue, h.workers, hm⟩

lemma Deserted.drop {e : Ready} {batch : List Ready} (h : Deserted s) (hm : s.main = .handling (e :: batch)) :
    Deserted (s.goTo (.handling batch)) :=
  h.goTo (.inr (.inr ⟨batch, rfl, fun _ he => h.handles hm _ (List.mem_cons_of_mem e he)⟩))

lemma Deserted.no_client {e : Ready} {batch : List Ready} {fd : ℕ} (h : Deserted s)
    (hm : s.main = .handling (e :: batch)) : e.fd ≠ some fd := by
  rw [h.handles hm e List.mem_cons_self]
  exact (Option.some_ne_none fd).symm

lemma Deserted.main_step (h : Deserted s) (hs : Step cfg s .main t) (hopen : ∀ fd ∈ t.opened, fd ∈ s.opened) :
    Deserted t := by
  cases hs with
  | wait batch hm hstop hd =>
    refine ⟨h.opened, h.timers, h.userCount, h.queue, h.workers, .inr (.inr ⟨batch, rfl, fun e he => ?_⟩)⟩
    -- an event of a client needs an open connection
    have hclient := hd.2 e he
    cases e with
    | listen | signals => rfl
    | hangup fd | readable fd | writable fd =>
      rw [h.opened] at hclient
      exact absurd hclient.1 List.not_mem_nil
  | leave => exact h.goTo (.inr (.inl rfl))
  | @accept u batch fd p hm hk hc hp hu =>
    obtain ⟨l, -, rfl⟩ := Option.map_eq_some_iff.mp hu
    exact absurd (hopen fd List.mem_cons_self) hk
  | busy hm | acceptFail hm => exact h.drop hm
  | hangup hm | readable io hm | writable io hm => exact absurd rfl (h.no_client hm)
  | signals hm =>
    have hd := h.drop hm
    exact ⟨hd.opened, hd.timers, hd.userCount, hd.queue, hd.workers, hd.main⟩
  | poll hm | flagged hm | unflagged hm | clear hm =>
    rcases h.main with he | he | ⟨batch, he, -⟩ <;> cases hm.symm.trans he
  | tick hm hf ht =>
    rw [tickServer, h.timers] at ht
    cases ht
    exact ⟨h.opened, rfl, h.userCount, h.queue, h.workers, .inl rfl⟩
  | idle => exact h.goTo (.inl rfl)

lemma Deserted.step {socket : Socket} (h : Deserted s) (hclosed : socket.listening = false)
    (hs : Hosted cfg socket s a t) : Deserted t := by
  have hopen (fd : ℕ) (hfd : fd ∈ t.opened) : fd ∈ s.opened := by
    by_contra hno
    exact absurd (hclosed.symm.trans (hs.2 fd hfd hno)) Bool.false_ne_true
  cases a with
  | clock =>
    cases hs.1 with
    | clock => exact ⟨h.opened, h.timers, h.userCount, h.queue, h.workers, h.main⟩
  | main => exact h.main_step hs.1 hopen
  | worker i =>
    cases hs.1 with
    | dequeue hw hq => cases h.queue.symm.trans hq
    | _ => rename_i hw; cases (h.workers i).symm.trans hw

/-- Whatever the command line says, `eventListen` binds the socket to no port and does not listen on it, so that in no
run of the event loop a client is ever connected: no descriptor is opened, no timer is added, and no worker is given
anything to do. -/
theorem never_connected (argv : List (List Char)) {slots : ℕ → Slot} {users : ℕ → User} {now : ℤ}
    (h : Reachable (Hosted cfg (listenSocket (main argv))) (.start slots users now) s) :
    (listenSocket (main argv)).port = none ∧ s.opened = [] ∧ s.timers = .empty ∧ s.userCount = 0 ∧ s.queue = [] ∧
      ∀ i, s.workers i = none := by
  obtain ⟨hclosed, hport⟩ := listenSocket_closed (main argv)
  have hd : Deserted s := by
    refine h.invariant ⟨rfl, rfl, rfl, rfl, fun _ => rfl, .inl rfl⟩ ?_
    intro s a t hs _ hstep
    exact hs.step hclosed hstep
  exact ⟨hport, hd.opened, hd.timers, hd.userCount, hd.queue, hd.workers⟩

theorem never_connected_port80 : ∃ s,
    Reachable (Hosted proactor (listenSocket (main ["server".toList, "-p80".toList]))) launch s ∧
      s.main = .handling [] ∧ s.opened = [] := by
  have h₁ : Reachable (Hosted proactor (listenSocket (main ["server".toList, "-p80".toList]))) launch _ :=
    .go .refl ⟨.wait [.listen] rfl rfl (deliver_listen _), fun _ hfd hno => absurd hfd hno⟩
  have h₂ := h₁.go ⟨.acceptFail rfl, fun _ hfd hno => absurd hfd hno⟩
  exact ⟨_, h₂, rfl, (never_connected _ h₂).2.1⟩

end Listen

end OceanServer.Server.Startup
