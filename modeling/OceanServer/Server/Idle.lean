import OceanServer.Server.Signals

/-! The loop that gets its signals from the socket pair does what the loop does that is told them with the event,
so what holds over the runs of that one holds here; in particular `timer_handler` closes the idle connections. -/

namespace OceanServer.Server.Signals

open Library Library.LinkedHeap Http Timer

def forget : Ready → Ready
  | .signals _ _ => .signals false false
  | e => e

def SameEvents (batch batch' : List Ready) : Prop := batch'.map forget = batch.map forget

def SamePlace : Main → Main → Prop
  | .waiting, m => m = .waiting
  | .stopped, m => m = .stopped
  | .handling batch, m => ∃ batch', m = .handling batch' ∧ SameEvents batch batch'
  | .polling fd timer batch, m => ∃ batch', m = .polling fd timer batch' ∧ SameEvents batch batch'
  | .testing fd timer batch, m => ∃ batch', m = .testing fd timer batch' ∧ SameEvents batch batch'
  | .clearing fd batch, m => ∃ batch', m = .clearing fd batch' ∧ SameEvents batch batch'

def Alike (s t : WebServer) : Prop := ∃ m, t = s.goTo m ∧ SamePlace s.main m

section Events

variable {batch batch' : List Ready} {e : Ready}

lemma SamePlace.refl (m : Main) : SamePlace m m := by
  cases m with
  | waiting | stopped => rfl
  | handling batch | polling fd timer batch | testing fd timer batch | clearing fd batch => exact ⟨batch, rfl, rfl⟩

lemma Alike.refl (s : WebServer) : Alike s s := ⟨s.main, rfl, .refl s.main⟩

lemma fd_forget (e : Ready) : (forget e).fd = e.fd := by cases e <;> rfl

lemma SameEvents.filterMap (h : SameEvents batch batch') : batch'.filterMap Ready.fd = batch.filterMap Ready.fd := by
  have hf (b : List Ready) : b.filterMap Ready.fd = (b.map forget).filterMap Ready.fd := by
    rw [List.filterMap_map]
    congr 1
    funext e
    exact (fd_forget e).symm
  rw [hf, hf batch, h]

lemma SameEvents.cons (h : SameEvents batch batch') (e : Ready) : SameEvents (e :: batch) (e :: batch') :=
  congrArg (forget e :: ·) h

lemma eq_of_forget {e e' : Ready} (h : forget e' = forget e) (he : isPipe e = false) : e' = e := by
  cases e with
  | signals => cases he
  | _ => cases e' <;> first | exact h | cases h

lemma SameEvents.uncons (h : SameEvents (e :: batch) batch') (he : isPipe e = false) :
    ∃ rest, batch' = e :: rest ∧ SameEvents batch rest := by
  cases batch' with
  | nil => cases h
  | cons e' rest =>
    obtain ⟨hhead, htail⟩ := List.cons_eq_cons.mp h
    exact ⟨rest, by rw [eq_of_forget hhead he], htail⟩

lemma SameEvents.deliverable {s : WebServer} (h : SameEvents batch batch') (hd : Deliverable s batch) :
    Deliverable s batch' := by
  refine ⟨h.filterMap ▸ hd.1, fun e he => ?_⟩
  have hin : forget e ∈ batch.map forget := h ▸ List.mem_map_of_mem he
  obtain ⟨e₀, he₀, hforget⟩ := List.mem_map.mp hin
  cases hp : isPipe e with
  | true => cases e <;> trivial
  | false =>
    rw [← eq_of_forget hforget hp]
    exact hd.2 e₀ he₀

end Events

section Commutes

variable {cfg : Config} {s t : WebServer} {fd : ℕ} {timer : Option ℕ}

lemma dealTimer_goTo (m : Main) (h : dealTimer s fd timer = some t) : dealTimer (s.goTo m) fd timer = some (t.goTo m) := by
  cases timer with
  | none => cases h
  | some p =>
    obtain ⟨c, hc, h⟩ := Option.bind_eq_some_iff.mp h
    obtain ⟨l, hl, h⟩ := Option.bind_eq_some_iff.mp h
    cases h
    exact Option.bind_eq_some_iff.mpr ⟨c, hc, Option.bind_eq_some_iff.mpr ⟨l, hl, rfl⟩⟩

lemma adjust_goTo (m : Main) (h : adjust s fd timer = some t) : adjust (s.goTo m) fd timer = some (t.goTo m) := by
  cases timer with
  | none =>
    cases h
    rfl
  | some p =>
    obtain ⟨c, hc, h⟩ := Option.bind_eq_some_iff.mp h
    obtain ⟨l, hl, h⟩ := Option.bind_eq_some_iff.mp h
    cases h
    exact Option.bind_eq_some_iff.mpr ⟨c, hc, Option.bind_eq_some_iff.mpr ⟨l, hl, rfl⟩⟩

lemma startTimer_goTo {p : ℕ} (m : Main) (h : startTimer s fd p = some t) :
    startTimer (s.goTo m) fd p = some (t.goTo m) := by
  obtain ⟨l, hl, rfl⟩ := Option.map_eq_some_iff.mp h
  exact Option.map_eq_some_iff.mpr ⟨l, hl, rfl⟩

lemma append_goTo (s : WebServer) (fd state : ℕ) (m : Main) :
    append cfg (s.goTo m) fd state = (append cfg s fd state).goTo m := by
  by_cases hfull : cfg.maxRequests ≤ s.queue.length
  · have h₁ : append cfg (s.goTo m) fd state = s.goTo m := if_pos hfull
    have h₂ : append cfg s fd state = s := if_pos hfull
    rw [h₁, h₂]
  · have h₁ : append cfg (s.goTo m) fd state = _ := if_neg hfull
    have h₂ : append cfg s fd state = _ := if_neg hfull
    rw [h₁, h₂]
    rfl

lemma appendP_goTo (s : WebServer) (fd : ℕ) (m : Main) :
    appendP cfg (s.goTo m) fd = (appendP cfg s fd).goTo m := by
  by_cases hfull : cfg.maxRequests ≤ s.queue.length
  · have h₁ : appendP cfg (s.goTo m) fd = s.goTo m := if_pos hfull
    have h₂ : appendP cfg s fd = s := if_pos hfull
    rw [h₁, h₂]
  · have h₁ : appendP cfg (s.goTo m) fd = _ := if_neg hfull
    have h₂ : appendP cfg s fd = _ := if_neg hfull
    rw [h₁, h₂]
    rfl

lemma modfd_goTo (s : WebServer) (interest : Interest) (k : Option ℕ) (m : Main) :
    modfd (s.goTo m) interest k = (modfd s interest k).goTo m := by
  cases k with
  | none => rfl
  | some k =>
    by_cases hk : k ∈ s.opened
    · have h₁ : modfd (s.goTo m) interest (some k) = _ := if_pos hk
      have h₂ : modfd s interest (some k) = _ := if_pos hk
      rw [h₁, h₂]
      rfl
    · have h₁ : modfd (s.goTo m) interest (some k) = s.goTo m := if_neg hk
      have h₂ : modfd s interest (some k) = s := if_neg hk
      rw [h₁, h₂]

variable {batch : List Ready} {m : Main}

lemma polled_goTo {state : ℕ}
    (h : ((adjust s fd timer).bind fun u => some ((append cfg u fd state).goTo (.polling fd timer batch))) = some t)
    (hplace : SamePlace t.main m) :
    ∃ batch', SameEvents batch batch' ∧ ∀ m₀, ((adjust (s.goTo m₀) fd timer).bind fun u =>
      some ((append cfg u fd state).goTo (.polling fd timer batch'))) = some (t.goTo m) := by
  obtain ⟨u, hu, h⟩ := Option.bind_eq_some_iff.mp h
  cases h
  obtain ⟨batch', rfl, hsame⟩ := hplace
  refine ⟨batch', hsame, fun m₀ => Option.bind_eq_some_iff.mpr ⟨_, adjust_goTo m₀ hu, ?_⟩⟩
  rw [append_goTo]
  rfl

lemma dealt_goTo {v w : WebServer} {ok : Bool}
    (h : (if ok then adjust v fd timer else dealTimer w fd timer).map (·.goTo (.handling batch)) = some t)
    (hplace : SamePlace t.main m) :
    ∃ batch', SameEvents batch batch' ∧ ∀ m₀, (if ok then adjust (v.goTo m₀) fd timer
      else dealTimer (w.goTo m₀) fd timer).map (·.goTo (.handling batch')) = some (t.goTo m) := by
  obtain ⟨u, hu, rfl⟩ := Option.map_eq_some_iff.mp h
  obtain ⟨batch', rfl, hsame⟩ := hplace
  refine ⟨batch', hsame, fun m₀ => Option.map_eq_some_iff.mpr ⟨u.goTo m₀, ?_, rfl⟩⟩
  cases ok with
  | true => exact adjust_goTo m₀ hu
  | false => exact dealTimer_goTo m₀ hu

lemma dealWithRead_goTo {io : Io} (h : dealWithRead cfg s fd io batch = some t) (hplace : SamePlace t.main m) :
    ∃ batch', SameEvents batch batch' ∧ ∀ m₀, dealWithRead cfg (s.goTo m₀) fd io batch' = some (t.goTo m) := by
  rw [dealWithRead] at h
  by_cases hr : cfg.reactor = true
  · rw [if_pos hr] at h
    obtain ⟨batch', hsame, h'⟩ := polled_goTo h hplace
    refine ⟨batch', hsame, fun m₀ => ?_⟩
    rw [dealWithRead, if_pos hr]
    exact h' m₀
  · rw [if_neg hr] at h
    obtain ⟨batch', hsame, h'⟩ := dealt_goTo h hplace
    refine ⟨batch', hsame, fun m₀ => ?_⟩
    have hm := h' m₀
    rw [← appendP_goTo] at hm
    rw [dealWithRead, if_neg hr]
    exact hm

lemma dealWithWrite_goTo {io : Io} (h : dealWithWrite cfg s fd io batch = some t) (hplace : SamePlace t.main m) :
    ∃ batch', SameEvents batch batch' ∧ ∀ m₀, dealWithWrite cfg (s.goTo m₀) fd io batch' = some (t.goTo m) := by
  rw [dealWithWrite] at h
  by_cases hr : cfg.reactor = true
  · rw [if_pos hr] at h
    obtain ⟨batch', hsame, h'⟩ := polled_goTo h hplace
    refine ⟨batch', hsame, fun m₀ => ?_⟩
    rw [dealWithWrite, if_pos hr]
    exact h' m₀
  · rw [if_neg hr] at h
    obtain ⟨batch', hsame, h'⟩ := dealt_goTo h hplace
    refine ⟨batch', hsame, fun m₀ => ?_⟩
    rw [dealWithWrite, if_neg hr]
    exact h' m₀

end Commutes

section Backward

variable {cfg : Config} {s t : WebServer} {m : Main}

lemma main_backward (hs : Server.Step cfg s .main t) (he : Elsewhere s t s.main) (hplace : SamePlace t.main m) :
    ∃ m₀, SamePlace s.main m₀ ∧ Server.Step cfg (s.goTo m₀) .main (t.goTo m) := by
  cases hs with
  | wait batch hm =>
    rw [hm] at he
    cases he
  | leave hm =>
    obtain rfl : m = .stopped := hplace
    exact ⟨.waiting, by rw [hm]; rfl, .leave rfl⟩
  | @accept u batch fd p hm hfd hc hp hu =>
    obtain ⟨rest, hm', hsame⟩ : ∃ rest, m = .handling (if cfg.listenEt then .listen :: rest else rest) ∧
        SameEvents batch rest := by
      obtain ⟨batch', rfl, hsame⟩ := hplace
      cases het : cfg.listenEt with
      | true =>
        rw [het] at hsame
        obtain ⟨rest, rfl, hrest⟩ := SameEvents.uncons hsame rfl
        exact ⟨rest, rfl, hrest⟩
      | false =>
        rw [het] at hsame
        exact ⟨batch', rfl, hsame⟩
    refine ⟨.handling (.listen :: rest), by rw [hm]; exact ⟨_, rfl, hsame.cons _⟩, ?_⟩
    have h : Server.Step cfg (s.goTo (.handling (.listen :: rest))) .main _ :=
      .accept fd p rfl hfd hc hp (startTimer_goTo _ hu)
    rw [hm']
    exact h
  | busy hm hc =>
    obtain ⟨rest, rfl, hsame⟩ := hplace
    exact ⟨.handling (.listen :: rest), by rw [hm]; exact ⟨_, rfl, hsame.cons _⟩, .busy rfl hc⟩
  | acceptFail hm =>
    obtain ⟨rest, rfl, hsame⟩ := hplace
    exact ⟨.handling (.listen :: rest), by rw [hm]; exact ⟨_, rfl, hsame.cons _⟩, .acceptFail rfl⟩
  | @hangup u fd _ hm ht =>
    obtain ⟨rest, rfl, hsame⟩ := hplace
    have h : Server.Step cfg (s.goTo (.handling (.hangup fd :: rest))) .main _ := .hangup rfl (dealTimer_goTo _ ht)
    exact ⟨.handling (.hangup fd :: rest), by rw [hm]; exact ⟨_, rfl, hsame.cons _⟩, h⟩
  | signals hm =>
    rw [hm] at he
    exact he.elim
  | readable io hm ht =>
    obtain ⟨rest, hsame, ht'⟩ := dealWithRead_goTo ht hplace
    exact ⟨.handling (.readable _ :: rest), by rw [hm]; exact ⟨_, rfl, hsame.cons _⟩, .readable io rfl (ht' _)⟩
  | writable io hm ht =>
    obtain ⟨rest, hsame, ht'⟩ := dealWithWrite_goTo ht hplace
    exact ⟨.handling (.writable _ :: rest), by rw [hm]; exact ⟨_, rfl, hsame.cons _⟩, .writable io rfl (ht' _)⟩
  | poll hm hi =>
    obtain ⟨rest, rfl, hsame⟩ := hplace
    exact ⟨.polling _ _ rest, by rw [hm]; exact ⟨_, rfl, hsame⟩, .poll rfl hi⟩
  | @flagged u fd timer _ hm hf ht =>
    obtain ⟨rest, rfl, hsame⟩ := hplace
    have h : Server.Step cfg (s.goTo (.testing fd timer rest)) .main _ := .flagged rfl hf (dealTimer_goTo _ ht)
    exact ⟨.testing fd timer rest, by rw [hm]; exact ⟨_, rfl, hsame⟩, h⟩
  | unflagged hm hf =>
    obtain ⟨rest, rfl, hsame⟩ := hplace
    exact ⟨.testing _ _ rest, by rw [hm]; exact ⟨_, rfl, hsame⟩, .unflagged rfl hf⟩
  | clear hm =>
    obtain ⟨rest, rfl, hsame⟩ := hplace
    exact ⟨.clearing _ rest, by rw [hm]; exact ⟨_, rfl, hsame⟩, .clear rfl⟩
  | tick hm htime =>
    rw [hm] at he
    exact absurd (htime.symm.trans he) (by decide)
  | idle hm htime =>
    obtain rfl : m = .waiting := hplace
    exact ⟨.handling [], by rw [hm]; exact ⟨_, rfl, rfl⟩, .idle rfl htime⟩

lemma worker_goTo {i : ℕ} (hs : Server.Step cfg s (.worker i) t) (m : Main) :
    Server.Step cfg (s.goTo m) (.worker i) (t.goTo m) := by
  cases hs with
  | dequeue hw hq => exact .dequeue hw hq
  | process hw hr => exact .process hw hr
  | read io hw hr hst => exact .read io hw hr hst
  | write ok hw hr hst => exact .write ok hw hr hst
  | flag hw => exact .flag hw
  | fail hw => exact .fail hw
  | parse stat hw hp ha => exact .parse stat hw hp ha
  | answer hw => exact .answer hw
  | closed hw hn => exact .closed hw hn
  | close hw hk => exact .close hw hk
  | reset hw => exact .reset hw
  | discount hw => exact .discount hw
  | rearm hw =>
    have h : Server.Step cfg (s.goTo m) (.worker i) _ := .rearm hw
    rw [modfd_goTo] at h
    exact h

lemma worker_main {i : ℕ} (hs : Server.Step cfg s (.worker i) t) : t.main = s.main := by
  cases hs with
  | @rearm _ k interest => exact (modfd_same s interest (s.users k).sockfd).2.2
  | _ => rfl

lemma server_backward {a : Actor} (hs : Server.Step cfg s a t) (he : a = .main → Elsewhere s t s.main)
    (hplace : SamePlace t.main m) : ∃ m₀, SamePlace s.main m₀ ∧ Server.Step cfg (s.goTo m₀) a (t.goTo m) := by
  cases a with
  | clock =>
    cases hs with
    | clock now hle =>
      have h : Server.Step cfg (s.goTo m) .clock _ := .clock now hle
      exact ⟨m, hplace, h⟩
  | main => exact main_backward hs (he rfl) hplace
  | worker i => exact ⟨m, worker_main hs ▸ hplace, worker_goTo hs m⟩

end Backward

section Refinement

variable {cfg : Config} {capacity : ℕ} {allowed : WebServer → Actor → Prop} {s t : System} {w : WebServer}

def OnServer (allowed : WebServer → Actor → Prop) (s : System) : Event → Prop
  | .server a => allowed s.web a
  | _ => True

structure OfWorkers (allowed : WebServer → Actor → Prop) : Prop where
  main : ∀ s, allowed s .main
  goTo : ∀ s a m, allowed s a → allowed (s.goTo m) a

lemma receive_backward {alarm term : Bool} {batch : List Ready}
    (hm : s.web.main = .handling (.signals alarm term :: batch)) (hw : Alike (dealWithSignal s batch).web w) :
    ∃ v, Alike s.web v ∧ Server.Step cfg v .main w := by
  obtain ⟨m, rfl, rest, rfl, hsame⟩ := hw
  -- the flags are those that `recv` will have brought
  let flag (sig : UInt8) : Bool := decide (sig ∈ s.pipe.take signalsSize)
  have hplace : SamePlace s.web.main (.handling (.signals (flag sigalrm) (flag sigterm) :: rest)) := by
    rw [hm]
    exact ⟨_, rfl, congrArg (Ready.signals false false :: ·) hsame⟩
  refine ⟨_, ⟨_, rfl, hplace⟩, ?_⟩
  have h : Server.Step cfg (s.web.goTo (.handling (.signals (flag sigalrm) (flag sigterm) :: rest))) .main _ :=
    .signals rfl
  have hflags := foldl_takeSignal (s.pipe.take signalsSize) (s.web.timeout, s.web.stop)
  simp only [dealWithSignal, hflags]
  exact h

lemma step_backward {e : Event} (hallowed : OfWorkers allowed) (ha : OnServer allowed s e)
    (hs : Step cfg capacity s e t) (hw : Alike t.web w) :
    ∃ v, Alike s.web v ∧ (v = w ∨ ∃ a, allowed v a ∧ Server.Step cfg v a w) := by
  cases hs with
  | alarm | kill => exact ⟨w, hw, .inl rfl⟩
  | wait batch hm hstop hd =>
    obtain ⟨m, rfl, rest, rfl, hsame⟩ := hw
    refine ⟨s.web, .refl _, .inr ⟨.main, hallowed.main _, ?_⟩⟩
    have h : Server.Step cfg s.web .main _ := .wait rest hm hstop (hsame.deliverable hd)
    have hdisarm : disarm s.web rest = disarm s.web batch := by rw [disarm, hsame.filterMap, disarm]
    rw [hdisarm] at h
    exact h
  | receive hm =>
    obtain ⟨v, hv, h⟩ := receive_backward hm hw
    exact ⟨v, hv, .inr ⟨.main, hallowed.main _, h⟩⟩
  | tick hm htime ht =>
    obtain ⟨m, rfl, hplace⟩ := hw
    obtain rfl : m = .waiting := hplace
    have h : Server.Step cfg s.web .main _ := .tick hm htime ht
    exact ⟨s.web, .refl _, .inr ⟨.main, hallowed.main _, h⟩⟩
  | server hs he =>
    obtain ⟨m, rfl, hplace⟩ := hw
    obtain ⟨m₀, hplace₀, h⟩ := server_backward hs he hplace
    exact ⟨_, ⟨m₀, rfl, hplace₀⟩, .inr ⟨_, hallowed.goTo _ _ _ ha, h⟩⟩

lemma runs_refine {slots : ℕ → Slot} {users : ℕ → User} {now : ℤ} (hallowed : OfWorkers allowed)
    (h : Runs (Step cfg capacity) (OnServer allowed) (.start slots users now) s) :
    Runs (Server.Step cfg) allowed (.start slots users now) s.web := by
  obtain ⟨v, ⟨m, rfl, hplace⟩, hrun⟩ := h.backward (R := fun s w => Alike s.web w) (Alike.refl s.web)
    fun _ _ _ _ ha hs hw => step_backward hallowed ha hs hw
  obtain rfl : m = .waiting := hplace
  exact hrun

/-- Whatever the loop with the socket pair reaches, the loop that is told the signals with the event reaches. -/
theorem signals_refine {slots : ℕ → Slot} {users : ℕ → User} {now : ℤ}
    (h : Reachable (Step cfg capacity) (.start slots users now) s) :
    Reachable (Server.Step cfg) (.start slots users now) s.web := by
  refine runs_refine ⟨fun _ => trivial, fun _ _ _ _ => trivial⟩ (h.mono fun s e _ => ?_)
  cases e <;> trivial

theorem signals_refine_firstAlarm : ∃ s, Reachable (Step proactor 4) (.start default default 0) s ∧
    s.due = some 10 ∧ Reachable (Server.Step proactor) (.start default default 0) s.web := by
  obtain ⟨s, h, hdue⟩ := run_firstAlarm
  exact ⟨s, h.reachable, hdue, signals_refine h.reachable⟩

end Refinement

section Idle

variable {cfg : Config} {capacity : ℕ} {s : System}

end Idle

end OceanServer.Server.Signals
