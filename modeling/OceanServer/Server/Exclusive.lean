import OceanServer.Server.Connections

/-! Who may touch a connection object. A descriptor's one-shot registration, its event in the array of
`epoll_wait`, its place in the queue and the worker that has dequeued it exclude each other, as long as
no descriptor is closed and reused under the hands of a worker. -/

namespace OceanServer.Server

open Library Library.LinkedHeap Http Timer

def Worker.fd : Worker → ℕ
  | .picked fd | .flagging fd _ _ | .failing fd | .reading fd | .writing fd _ | .closing fd
  | .resetting fd | .discounting fd | .rearming fd _ => fd

def Worker.Finishing : Worker → Prop
  | .resetting _ | .discounting _ | .rearming _ _ => True
  | _ => False

def Main.batch : Main → List Ready
  | .handling batch | .polling _ _ batch | .testing _ _ batch | .clearing _ batch => batch
  | .waiting | .stopped => []

def WebServer.InHand (s : WebServer) (fd : ℕ) : Prop := ∃ i w, s.workers i = some w ∧ w.fd = fd

structure Exclusive (s : WebServer) : Prop where
  single : ∀ i j w v, s.workers i = some w → s.workers j = some v → w.fd = v.fd → i = j
  socket : ∀ fd ∈ s.opened, (s.users fd).sockfd = some fd

/-- The event loop closes no descriptor whose object is queued or in the hands of a worker, and `accept`
returns none that a worker has closed before it is done with the object. -/
structure Careful (s : WebServer) (a : Actor) (t : WebServer) : Prop where
  closes : a = .main → ∀ fd ∈ s.opened, fd ∉ t.opened → fd ∉ s.queue ∧ ¬ s.InHand fd
  accepts : ∀ fd ∈ t.opened, fd ∉ s.opened → ∀ i w, s.workers i = some w → w.fd = fd → ¬ w.Finishing

def CarefulStep (cfg : Config) (s : WebServer) (a : Actor) (t : WebServer) : Prop :=
  Step cfg s a t ∧ Careful s a t

def WebServer.tokens (s : WebServer) : List ℕ := s.main.batch.filterMap Ready.fd ++ s.queue

def Stage (s : WebServer) : Worker → Prop
  | .resetting fd => fd ∉ s.opened
  | .discounting fd => fd ∉ s.opened ∧ (s.users fd).sockfd = none
  | .rearming fd _ => fd ∈ s.opened ∨ (s.users fd).sockfd = none
  | w => w.fd ∈ s.opened

def Polls (s : WebServer) : Main → Prop
  | .polling fd _ batch | .testing fd _ batch =>
    (s.slots fd).sockfd = fd ∧ fd ∉ batch.filterMap Ready.fd
  | _ => True

structure Solo (s : WebServer) : Prop extends Exclusive s where
  nodup : s.opened.Nodup
  tokens : s.tokens.Nodup
  waits : ∀ fd ∈ s.tokens, fd ∈ s.opened ∧ s.armed fd = none ∧ ¬ s.InHand fd
  armed : ∀ fd, s.armed fd ≠ none → fd ∈ s.opened ∧ ¬ s.InHand fd
  slot : ∀ fd ∈ s.opened, (s.slots fd).sockfd = fd
  stage : ∀ i w, s.workers i = some w → Stage s w
  polls : Polls s s.main

structure Shut (s t : WebServer) (ks : List ℕ) : Prop where
  opened : ∀ fd, fd ∈ t.opened ↔ fd ∈ s.opened ∧ fd ∉ ks
  nodup : t.opened.Nodup
  armed : ∀ fd, t.armed fd = if fd ∈ ks then none else s.armed fd
  slots : t.slots = s.slots
  users : ∀ fd, (t.users fd).sockfd = (s.users fd).sockfd
  workers : t.workers = s.workers

section Main

variable {s t u : WebServer} {ks : List ℕ} {fd : ℕ}

lemma Stage.congr {w : Worker} (h : Stage s w) (ho : w.fd ∈ t.opened ↔ w.fd ∈ s.opened)
    (hu : (t.users w.fd).sockfd = (s.users w.fd).sockfd) : Stage t w := by
  cases w with
  | resetting k => exact fun hk => h (ho.mp hk)
  | discounting k => exact ⟨fun hk => h.1 (ho.mp hk), hu.trans h.2⟩
  | rearming k interest => exact h.imp ho.mpr hu.trans
  | _ => exact ho.mpr h

lemma Solo.shut (h : Solo s) (hs : Shut s t ks) (hn : t.tokens.Nodup) (ht : ∀ k ∈ t.tokens, k ∈ s.tokens)
    (hfree : ∀ k ∈ ks, k ∈ s.opened → k ∉ t.tokens ∧ ¬ s.InHand k) (hp : Polls t t.main) : Solo t := by
  have hhand (k : ℕ) : t.InHand k ↔ s.InHand k := by rw [WebServer.InHand, WebServer.InHand, hs.workers]
  refine ⟨⟨hs.workers ▸ h.single, fun k hk => ?_⟩, hs.nodup, hn, fun k hk => ?_, fun k hk => ?_,
    fun k hk => ?_, fun i w hw => ?_, hp⟩
  · rw [hs.users]
    exact h.socket k ((hs.opened k).mp hk).1
  · obtain ⟨ho, ha, hw⟩ := h.waits k (ht k hk)
    refine ⟨(hs.opened k).mpr ⟨ho, fun hks => (hfree k hks ho).1 hk⟩, ?_, (hhand k).not.mpr hw⟩
    rw [hs.armed, ha, ite_self]
  · rw [hs.armed] at hk
    by_cases hks : k ∈ ks
    · exact absurd (if_pos hks) hk
    · rw [if_neg hks] at hk
      obtain ⟨ho, hw⟩ := h.armed k hk
      exact ⟨(hs.opened k).mpr ⟨ho, hks⟩, (hhand k).not.mpr hw⟩
  · rw [hs.slots]
    exact h.slot k ((hs.opened k).mp hk).1
  · rw [hs.workers] at hw
    refine (h.stage i w hw).congr ?_ (hs.users _)
    rw [hs.opened]
    refine ⟨And.left, fun ho => ⟨ho, fun hks => (hfree _ hks ho).2 ⟨i, w, hw, rfl⟩⟩⟩

lemma Shut.same (hn : s.opened.Nodup) (ho : t.opened = s.opened) (ha : t.armed = s.armed)
    (hs : t.slots = s.slots) (hu : ∀ fd, (t.users fd).sockfd = (s.users fd).sockfd)
    (hw : t.workers = s.workers) : Shut s t [] :=
  ⟨fun k => by simp [ho], ho ▸ hn, fun k => by simp [ha], hs, hu, hw⟩

lemma Shut.trans {ls : List ℕ} (h : Shut s t ks) (h' : Shut t u ls) : Shut s u (ks ++ ls) := by
  refine ⟨fun k => ?_, h'.nodup, fun k => ?_, h'.slots.trans h.slots, fun k => (h'.users k).trans (h.users k),
    h'.workers.trans h.workers⟩
  · rw [h'.opened, h.opened, List.mem_append, not_or, and_assoc]
  · rw [h'.armed, h.armed]
    by_cases hk : k ∈ ks <;> simp [hk]

lemma Shut.goTo (h : Shut s t ks) (m : Main) : Shut s (t.goTo m) ks :=
  ⟨h.opened, h.nodup, h.armed, h.slots, h.users, h.workers⟩

lemma setUser_sockfd {k : ℕ} {v : User} (hv : v.sockfd = (s.users fd).sockfd) :
    ((s.setUser fd v).users k).sockfd = (s.users k).sockfd := by
  change (Function.update s.users fd v k).sockfd = (s.users k).sockfd
  by_cases hk : k = fd
  · rw [hk, Function.update_self, hv]
  · rw [Function.update_of_ne hk]

lemma Shut.setUser (h : Shut s t ks) (fd : ℕ) (v : User) (hv : v.sockfd = (t.users fd).sockfd) :
    Shut s (t.setUser fd v) ks :=
  ⟨h.opened, h.nodup, h.armed, h.slots, fun k => (setUser_sockfd hv).trans (h.users k), h.workers⟩

lemma Retimed.shut (h : Retimed s t ks) (hn : s.opened.Nodup) : Shut s t ks ∧ t.queue = s.queue := by
  obtain ⟨l, touched, rfl⟩ := h
  exact ⟨⟨fun fd => hn.mem_sdiff_iff, hn.diff, fun fd => rfl, rfl, fun _ => rfl, rfl⟩, rfl⟩

lemma Solo.move (h : Solo s) (hs : Shut s t []) (hsub : t.tokens.Sublist s.tokens) (hp : Polls t t.main) : Solo t :=
  h.shut hs (h.tokens.sublist hsub) (fun _ hk => hsub.subset hk) (fun _ hk => (List.not_mem_nil hk).elim) hp

lemma tokens_of_main {batch : List Ready} (hm : s.main = .handling batch) :
    s.tokens = batch.filterMap Ready.fd ++ s.queue := by rw [WebServer.tokens, hm, Main.batch]

lemma tokens_tail {e : Ready} {batch : List Ready} (hm : s.main = .handling (e :: batch))
    (hb : t.main.batch = batch) (hq : t.queue = s.queue) : t.tokens.Sublist s.tokens := by
  rw [tokens_of_main hm, WebServer.tokens, hb, hq]
  exact ((List.sublist_cons_self e batch).filterMap Ready.fd).append_right _

lemma tokens_head {e : Ready} {batch : List Ready} (hm : s.main = .handling (e :: batch)) (he : e.fd = some fd) :
    s.tokens = fd :: (batch.filterMap Ready.fd ++ s.queue) := by
  rw [tokens_of_main hm, List.filterMap_cons_some he, List.cons_append]

lemma Solo.hand {e : Ready} {batch : List Ready} (h : Solo s) (hm : s.main = .handling (e :: batch))
    (he : e.fd = some fd) (hs : Shut s t []) (hb : t.main.batch = batch)
    (hq : t.queue = s.queue ∨ t.queue = s.queue ++ [fd]) (hp : Polls t t.main) : Solo t := by
  rcases hq with hq | hq
  · exact h.move hs (tokens_tail hm hb hq) hp
  · have hperm : t.tokens.Perm s.tokens := by
      rw [tokens_head hm he, WebServer.tokens, hb, hq, ← List.append_assoc]
      exact List.perm_append_singleton fd _
    exact h.shut hs (hperm.nodup_iff.mpr h.tokens) (fun _ hk => hperm.mem_iff.mp hk)
      (fun _ hk => (List.not_mem_nil hk).elim) hp

lemma Solo.front {e : Ready} {batch : List Ready} (h : Solo s) (hm : s.main = .handling (e :: batch))
    (he : e.fd = some fd) :
    fd ∈ s.opened ∧ ¬ s.InHand fd ∧ (s.slots fd).sockfd = fd ∧ fd ∉ batch.filterMap Ready.fd ∧ fd ∉ s.queue := by
  have hn := h.tokens
  have hw := h.waits fd
  rw [tokens_head hm he] at hn hw
  obtain ⟨ho, -, hh⟩ := hw List.mem_cons_self
  have hnot := (List.nodup_cons.mp hn).1
  exact ⟨ho, hh, h.slot fd ho, fun hk => hnot (List.mem_append_left _ hk), fun hk => hnot (List.mem_append_right _ hk)⟩

lemma Solo.drop {e : Ready} {batch : List Ready} (h : Solo s) (hm : s.main = .handling (e :: batch))
    (he : e.fd = some fd) (hs : Shut s t [fd]) (hb : t.main.batch = batch) (hq : t.queue = s.queue)
    (hp : Polls t t.main) : Solo t := by
  obtain ⟨-, hh, -, hnb, hnq⟩ := h.front hm he
  have hsub := tokens_tail hm hb hq
  refine h.shut hs (h.tokens.sublist hsub) (fun _ hk => hsub.subset hk) (fun k hk _ => ?_) hp
  rw [List.mem_singleton.mp hk, WebServer.tokens, hb, hq]
  exact ⟨fun hm => (List.mem_append.mp hm).elim hnb hnq, hh⟩

lemma Solo.deliver {batch : List Ready} (h : Solo s) (hm : s.main = .waiting) (hd : Deliverable s batch) :
    Solo ((disarm s batch).goTo (.handling batch)) := by
  have hq : s.tokens = s.queue := by rw [WebServer.tokens, hm, Main.batch, List.filterMap_nil, List.nil_append]
  have hready (fd : ℕ) (hfd : fd ∈ batch.filterMap Ready.fd) : s.armed fd ≠ none := by
    obtain ⟨e, he, hef⟩ := List.mem_filterMap.mp hfd
    have hopen := hd.2 e he
    cases e with
    | listen | signals => cases hef
    | hangup k =>
      cases hef
      exact hopen.2
    | readable k | writable k =>
      cases hef
      rw [hopen.2]
      exact Option.some_ne_none _
  refine ⟨⟨h.single, h.socket⟩, h.nodup, ?_, fun fd hfd => ?_, fun fd hfd => ?_, h.slot, h.stage, trivial⟩
  · refine List.nodup_append.mpr ⟨hd.1, hq ▸ h.tokens, fun fd hfd k hk he => ?_⟩
    subst he
    exact hready fd hfd (h.waits fd (hq ▸ hk)).2.1
  · rcases List.mem_append.mp hfd with hfd | hfd
    · obtain ⟨ho, hh⟩ := h.armed fd (hready fd hfd)
      exact ⟨ho, if_pos hfd, hh⟩
    · obtain ⟨ho, ha, hh⟩ := h.waits fd (hq ▸ hfd)
      exact ⟨ho, (congrArg (ite _ none) ha).trans (ite_self none), hh⟩
  · by_cases hb : fd ∈ batch.filterMap Ready.fd
    · exact absurd (if_pos hb) hfd
    · exact h.armed fd fun ha => hfd ((if_neg hb).trans ha)

lemma Solo.free (h : Solo s) (ho : fd ∉ s.opened)
    (hf : ∀ i w, s.workers i = some w → w.fd = fd → ¬ w.Finishing) : ¬ s.InHand fd := by
  rintro ⟨i, w, hw, rfl⟩
  have hstage := h.stage i w hw
  have hnot := hf i w hw rfl
  cases w with
  | resetting | discounting | rearming => exact hnot trivial
  | _ => exact ho hstage

lemma Solo.enroll {p : ℕ} {l : TimerList} {batch : List Ready} {m : Main} (h : Solo s)
    (hm : s.main = .handling (.listen :: batch)) (ho : fd ∉ s.opened) (hh : ¬ s.InHand fd)
    (hb : m.batch.filterMap Ready.fd = batch.filterMap Ready.fd) (hp : Polls (enroll s fd p l) m) :
    Solo ((enroll s fd p l).goTo m) := by
  have htok : ((Server.enroll s fd p l).goTo m).tokens = s.tokens := by
    rw [tokens_of_main hm]
    change m.batch.filterMap Ready.fd ++ s.queue = _
    rw [hb]
    rfl
  have hnot : fd ∉ s.tokens := fun hk => ho (h.waits fd hk).1
  have hne {k : ℕ} (hk : k ∈ s.opened) : k ≠ fd := fun he => ho (he ▸ hk)
  refine ⟨⟨h.single, fun k hk => ?_⟩, List.nodup_cons.mpr ⟨ho, h.nodup⟩, htok ▸ h.tokens, fun k hk => ?_,
    fun k hk => ?_, fun k hk => ?_, fun i w hw => ?_, hp⟩
  · change (Function.update s.users fd ((s.users fd).init fd) k).sockfd = some k
    rcases List.mem_cons.mp hk with rfl | hk
    · rw [Function.update_self]
      rfl
    · rw [Function.update_of_ne (hne hk)]
      exact h.socket k hk
  · rw [htok] at hk
    obtain ⟨hko, hka, hkh⟩ := h.waits k hk
    refine ⟨List.mem_cons_of_mem _ hko, ?_, hkh⟩
    exact (Function.update_of_ne (hne hko) _ _).trans hka
  · by_cases hkf : k = fd
    · subst hkf
      exact ⟨List.mem_cons_self, hh⟩
    · obtain ⟨hko, hkh⟩ := h.armed k fun ha => hk ((Function.update_of_ne hkf _ _).trans ha)
      exact ⟨List.mem_cons_of_mem _ hko, hkh⟩
  · change (Function.update s.slots fd ⟨fd, some p⟩ k).sockfd = k
    rcases List.mem_cons.mp hk with rfl | hk
    · rw [Function.update_self]
    · rw [Function.update_of_ne (hne hk)]
      exact h.slot k hk
  · have hwf : w.fd ≠ fd := fun he => hh ⟨i, w, hw, he⟩
    refine (h.stage i w hw).congr ⟨fun hk => ?_, List.mem_cons_of_mem _⟩ ?_
    · exact (List.mem_cons.mp hk).resolve_left hwf
    · exact congrArg User.sockfd (Function.update_of_ne hwf _ s.users)

lemma append_shut (cfg : Config) (fd k : ℕ) (h : Shut s t []) (hq : t.queue = s.queue) :
    Shut s (append cfg t fd k) [] ∧
      ((append cfg t fd k).queue = s.queue ∨ (append cfg t fd k).queue = s.queue ++ [fd]) := by
  rw [append]
  split_ifs
  · exact ⟨h, .inl hq⟩
  · have hset := h.setUser fd { t.users fd with state := k } rfl
    exact ⟨⟨hset.opened, hset.nodup, hset.armed, hset.slots, hset.users, hset.workers⟩, .inr (hq ▸ rfl)⟩

lemma appendP_shut (cfg : Config) (fd : ℕ) (h : Shut s t []) (hq : t.queue = s.queue) :
    Shut s (appendP cfg t fd) [] ∧
      ((appendP cfg t fd).queue = s.queue ∨ (appendP cfg t fd).queue = s.queue ++ [fd]) := by
  rw [appendP]
  split_ifs
  · exact ⟨h, .inl hq⟩
  · exact ⟨⟨h.opened, h.nodup, h.armed, h.slots, h.users, h.workers⟩, .inr (hq ▸ rfl)⟩

variable {cfg : Config} {io : Io} {batch : List Ready}

lemma Solo.reactor {e : Ready} {k : ℕ} (h : Solo s) (hm : s.main = .handling (e :: batch)) (he : e.fd = some fd)
    (ht : adjust s fd (s.slots fd).timer = some t) :
    Solo ((append cfg t fd k).goTo (.polling fd (s.slots fd).timer batch)) := by
  obtain ⟨-, -, hslot, hnb, -⟩ := h.front hm he
  obtain ⟨hs, hq⟩ := (adjust_retimed ht).shut h.nodup
  obtain ⟨hs, hq⟩ := append_shut cfg fd k hs hq
  refine h.hand hm he (hs.goTo _) rfl hq ⟨?_, hnb⟩
  exact (congrArg (fun f => (f fd).sockfd) hs.slots).trans hslot

lemma Solo.dealWithRead (h : Solo s) (hm : s.main = .handling (.readable fd :: batch))
    (ht : dealWithRead cfg s fd io batch = some t) : Solo t := by
  obtain ⟨-, -, hslot, -, -⟩ := h.front hm rfl
  rw [Server.dealWithRead] at ht
  split_ifs at ht with hr hok
  · obtain ⟨u, hu, ht⟩ := Option.bind_eq_some_iff.mp ht
    cases ht
    exact h.reactor hm rfl hu
  · obtain ⟨u, hu, rfl⟩ := Option.map_eq_some_iff.mp ht
    have h₀ : Shut s (s.setUser fd { s.users fd with read := io.read }) [] :=
      (Shut.same h.nodup rfl rfl rfl (fun _ => rfl) rfl).setUser fd _ rfl
    obtain ⟨hs, hq⟩ := appendP_shut cfg fd h₀ rfl
    obtain ⟨hs', hq'⟩ := (adjust_retimed hu).shut hs.nodup
    exact h.hand hm rfl ((hs.trans hs').goTo _) rfl (hq'.symm ▸ hq) trivial
  · obtain ⟨u, hu, rfl⟩ := Option.map_eq_some_iff.mp ht
    have h₀ : Shut s (s.setUser fd { s.users fd with read := io.read }) [] :=
      (Shut.same h.nodup rfl rfl rfl (fun _ => rfl) rfl).setUser fd _ rfl
    obtain ⟨hs, hq⟩ := (dealTimer_retimed hu).shut h₀.nodup
    have hs' := h₀.trans hs
    rw [h₀.slots, hslot, List.nil_append] at hs'
    exact h.drop hm rfl (hs'.goTo _) rfl hq trivial

lemma Solo.dealWithWrite (h : Solo s) (hm : s.main = .handling (.writable fd :: batch))
    (ht : dealWithWrite cfg s fd io batch = some t) : Solo t := by
  obtain ⟨-, -, hslot, -, -⟩ := h.front hm rfl
  rw [Server.dealWithWrite] at ht
  split_ifs at ht with hr hok
  · obtain ⟨u, hu, ht⟩ := Option.bind_eq_some_iff.mp ht
    cases ht
    exact h.reactor hm rfl hu
  · obtain ⟨u, hu, rfl⟩ := Option.map_eq_some_iff.mp ht
    obtain ⟨hs, hq⟩ := (adjust_retimed hu).shut h.nodup
    exact h.hand hm rfl (hs.goTo _) rfl (.inl hq) trivial
  · obtain ⟨u, hu, rfl⟩ := Option.map_eq_some_iff.mp ht
    obtain ⟨hs, hq⟩ := (dealTimer_retimed hu).shut h.nodup
    rw [hslot] at hs
    exact h.drop hm rfl (hs.goTo _) rfl hq trivial

lemma main_solo (h : Solo s) (hs : Step cfg s .main t) (hc : Careful s .main t) : Solo t := by
  have hsame : Shut s s [] := .same h.nodup rfl rfl rfl (fun _ => rfl) rfl
  cases hs with
  | wait batch hm _ hd => exact h.deliver hm hd
  | leave hm =>
    refine h.move (hsame.goTo _) ?_ trivial
    rw [WebServer.tokens, WebServer.tokens, hm]
    rfl
  | @accept t batch fd p hm hfd _ hp ht =>
    obtain ⟨l, -, rfl⟩ := Option.map_eq_some_iff.mp ht
    have hh := h.free hfd (hc.accepts fd List.mem_cons_self hfd)
    refine h.enroll hm hfd hh ?_ trivial
    split_ifs <;> rfl
  | busy hm | acceptFail hm => exact h.move (hsame.goTo _) (tokens_tail hm rfl rfl) trivial
  | @hangup t fd batch hm ht =>
    obtain ⟨hs, hq⟩ := (dealTimer_retimed ht).shut h.nodup
    rw [(h.front hm rfl).2.2.1] at hs
    exact h.drop hm rfl (hs.goTo _) rfl hq trivial
  | signals hm =>
    exact h.move ⟨hsame.opened, hsame.nodup, hsame.armed, rfl, fun _ => rfl, rfl⟩ (tokens_tail hm rfl rfl) trivial
  | readable io hm ht => exact h.dealWithRead hm ht
  | writable io hm ht => exact h.dealWithWrite hm ht
  | poll hm =>
    have hp := h.polls
    rw [hm] at hp
    refine h.move (hsame.goTo _) ?_ hp
    rw [WebServer.tokens, WebServer.tokens, hm]
    rfl
  | @flagged t fd timer batch hm _ ht =>
    have hp := h.polls
    rw [hm] at hp
    obtain ⟨hs, hq⟩ := (dealTimer_retimed ht).shut h.nodup
    rw [hp.1] at hs
    have hset := (hs.setUser fd { t.users fd with timerFlag := false } rfl).goTo (.clearing fd batch)
    have htok : ((t.setUser fd { t.users fd with timerFlag := false }).goTo (.clearing fd batch)).tokens =
        s.tokens := by
      rw [WebServer.tokens, WebServer.tokens, hm]
      exact congrArg (_ ++ ·) hq
    refine h.shut hset (htok ▸ h.tokens) (fun k hk => htok ▸ hk) (fun k hk ho => ?_) trivial
    obtain ⟨hnq, hh⟩ := hc.closes rfl k ho fun hko => ((hset.opened k).mp hko).2 hk
    rw [htok, WebServer.tokens, hm, List.mem_singleton.mp hk]
    rw [List.mem_singleton.mp hk] at hnq hh
    exact ⟨fun hmem => (List.mem_append.mp hmem).elim hp.2 hnq, hh⟩
  | unflagged hm =>
    refine h.move (hsame.goTo _) ?_ trivial
    rw [WebServer.tokens, WebServer.tokens, hm]
    rfl
  | @clear fd batch hm =>
    refine h.move ((hsame.setUser fd { s.users fd with improv := false } rfl).goTo _) ?_ trivial
    rw [WebServer.tokens, WebServer.tokens, hm]
    rfl
  | @tick t hm _ ht =>
    obtain ⟨ks, hticked⟩ := tickServer_retimed ht
    obtain ⟨hs, hq⟩ := hticked.shut h.nodup
    have hset : Shut s { t with timeout := false, main := .waiting } ks :=
      ⟨hs.opened, hs.nodup, hs.armed, hs.slots, hs.users, hs.workers⟩
    have htok : ({ t with timeout := false, main := .waiting } : WebServer).tokens = s.queue := hq
    have hold : s.tokens = s.queue := tokens_of_main hm
    refine h.shut hset (htok ▸ hold ▸ h.tokens) (fun k hk => hold ▸ htok ▸ hk) (fun k hk ho => ?_) trivial
    rw [htok]
    exact hc.closes rfl k ho fun hko => ((hset.opened k).mp hko).2 hk
  | idle hm =>
    refine h.move (hsame.goTo _) ?_ trivial
    rw [WebServer.tokens, WebServer.tokens, hm]
    rfl

end Main

structure Frame (s t : WebServer) (fd : ℕ) : Prop where
  main : t.main = s.main
  queue : t.queue = s.queue
  slots : t.slots = s.slots
  nodup : t.opened.Nodup
  closed : ∀ k ∈ t.opened, k ∈ s.opened
  opened : ∀ k ≠ fd, k ∈ s.opened → k ∈ t.opened
  armed : ∀ k ≠ fd, t.armed k = s.armed k
  users : ∀ k ≠ fd, (t.users k).sockfd = (s.users k).sockfd

section Worker

variable {s t : WebServer} {i : ℕ} {w : Worker} {w' : Option Worker}

lemma inHand_update {k : ℕ} (ht : t.workers = Function.update s.workers i w') (hw : s.workers i = some w)
    (hw' : ∀ v, w' = some v → v.fd = w.fd) (h : t.InHand k) : s.InHand k := by
  obtain ⟨j, v, hj, rfl⟩ := h
  rw [ht] at hj
  by_cases hji : j = i
  · rw [hji, Function.update_self] at hj
    exact ⟨i, w, hw, (hw' v hj).symm⟩
  · rw [Function.update_of_ne hji] at hj
    exact ⟨j, v, hj, rfl⟩

lemma single_update (h : ∀ j l v u, s.workers j = some v → s.workers l = some u → v.fd = u.fd → j = l)
    (ht : t.workers = Function.update s.workers i w')
    (hw' : ∀ v, w' = some v → ∀ j u, j ≠ i → s.workers j = some u → u.fd ≠ v.fd) (j l : ℕ) (v u : Worker)
    (hj : t.workers j = some v) (hl : t.workers l = some u) (he : v.fd = u.fd) : j = l := by
  rw [ht] at hj hl
  by_cases hji : j = i <;> by_cases hli : l = i
  · rw [hji, hli]
  · rw [hji, Function.update_self] at hj
    rw [Function.update_of_ne hli] at hl
    exact absurd he.symm (hw' v hj l u hli hl)
  · rw [Function.update_of_ne hji] at hj
    rw [hli, Function.update_self] at hl
    exact absurd he (hw' u hl j v hji hj)
  · rw [Function.update_of_ne hji] at hj
    rw [Function.update_of_ne hli] at hl
    exact h j l v u hj hl he

lemma Solo.work (h : Solo s) (hw : s.workers i = some w) (ht : t.workers = Function.update s.workers i w')
    (hf : Frame s t w.fd) (hsock : w.fd ∈ t.opened → (t.users w.fd).sockfd = some w.fd)
    (harm : t.armed w.fd ≠ none → w.fd ∈ t.opened ∧ w' = none)
    (hw' : ∀ v, w' = some v → v.fd = w.fd ∧ Stage t v) : Solo t := by
  have hhand {k : ℕ} (hk : t.InHand k) : s.InHand k := inHand_update ht hw (fun v hv => (hw' v hv).1) hk
  have hin : s.InHand w.fd := ⟨i, w, hw, rfl⟩
  have hother {j : ℕ} {v : Worker} (hji : j ≠ i) (hj : t.workers j = some v) :
      s.workers j = some v ∧ v.fd ≠ w.fd := by
    rw [ht, Function.update_of_ne hji] at hj
    exact ⟨hj, fun he => hji (h.single j i v w hj hw he)⟩
  have hown {v : Worker} (hi : t.workers i = some v) : w' = some v := by
    rwa [ht, Function.update_self] at hi
  have htok : t.tokens = s.tokens := by rw [WebServer.tokens, WebServer.tokens, hf.main, hf.queue]
  have hnot : w.fd ∉ s.tokens := fun hk => (h.waits _ hk).2.2 hin
  have hsingle := single_update h.single ht fun v hv j u hji hj he =>
    hji (h.single j i u w hj hw (he.trans (hw' v hv).1))
  refine ⟨⟨hsingle, fun k hk => ?_⟩, hf.nodup, htok ▸ h.tokens, fun k hk => ?_, fun k hk => ?_, fun k hk => ?_,
    fun j v hj => ?_, ?_⟩
  · by_cases hkf : k = w.fd
    · subst hkf
      exact hsock hk
    · rw [hf.users k hkf]
      exact h.socket k (hf.closed k hk)
  · rw [htok] at hk
    obtain ⟨ho, ha, hh⟩ := h.waits k hk
    have hkf : k ≠ w.fd := fun he => hnot (he ▸ hk)
    exact ⟨hf.opened k hkf ho, (hf.armed k hkf).trans ha, fun hh' => hh (hhand hh')⟩
  · by_cases hkf : k = w.fd
    · subst hkf
      obtain ⟨ho, hnone⟩ := harm hk
      refine ⟨ho, ?_⟩
      rintro ⟨j, v, hj, he⟩
      by_cases hji : j = i
      · subst hji
        cases hnone.symm.trans (hown hj)
      · exact (hother hji hj).2 he
    · rw [hf.armed k hkf] at hk
      obtain ⟨ho, hh⟩ := h.armed k hk
      exact ⟨hf.opened k hkf ho, fun hh' => hh (hhand hh')⟩
  · rw [hf.slots]
    exact h.slot k (hf.closed k hk)
  · by_cases hji : j = i
    · subst hji
      exact (hw' v (hown hj)).2
    · obtain ⟨hj, hne⟩ := hother hji hj
      exact (h.stage j v hj).congr ⟨hf.closed _, hf.opened _ hne⟩ (hf.users _ hne)
  · have hp := h.polls
    rw [hf.main]
    cases hm : s.main with
    | polling fd timer batch | testing fd timer batch =>
      rw [hm] at hp
      exact ⟨hf.slots ▸ hp.1, hp.2⟩
    | waiting | handling | clearing | stopped => trivial

lemma Solo.keep (h : Solo s) (hw : s.workers i = some w) (ht : t.workers = Function.update s.workers i w')
    (hm : t.main = s.main) (hq : t.queue = s.queue) (hs : t.slots = s.slots) (ho : t.opened = s.opened)
    (ha : t.armed = s.armed) (hu : ∀ k, (t.users k).sockfd = (s.users k).sockfd)
    (hw' : ∀ v, w' = some v → v.fd = w.fd ∧ Stage s v) : Solo t := by
  have hn : t.armed w.fd = none := by
    by_contra hne
    rw [ha] at hne
    exact (h.armed _ hne).2 ⟨i, w, hw, rfl⟩
  refine h.work hw ht ⟨hm, hq, hs, ho ▸ h.nodup, fun k hk => ho ▸ hk, fun k _ hk => ho ▸ hk, fun k _ => by rw [ha],
    fun k _ => hu k⟩ (fun hk => ?_) (fun hne => absurd hn hne) fun v hv => ⟨(hw' v hv).1, ?_⟩
  · rw [hu]
    exact h.socket _ (ho ▸ hk)
  · exact (hw' v hv).2.congr (by rw [ho]) (hu _)

lemma Solo.dequeue {fd : ℕ} {queue : List ℕ} (h : Solo s) (hq : s.queue = fd :: queue) :
    Solo { s.setWorker i (some (.picked fd)) with queue := queue } := by
  let t : WebServer := { s.setWorker i (some (.picked fd)) with queue := queue }
  change Solo t
  have hperm : s.tokens.Perm (fd :: t.tokens) := by
    rw [WebServer.tokens, hq]
    exact List.perm_middle
  have hn := List.nodup_cons.mp (hperm.nodup_iff.mp h.tokens)
  obtain ⟨ho, ha, hh⟩ := h.waits fd (hperm.mem_iff.mpr List.mem_cons_self)
  have hnew {j : ℕ} {v : Worker} (hj : t.workers j = some v) :
      v = .picked fd ∨ s.workers j = some v := by
    by_cases hji : j = i
    · rw [hji] at hj
      exact .inl (Option.some.inj ((Function.update_self i _ s.workers).symm.trans hj)).symm
    · exact .inr ((Function.update_of_ne hji _ s.workers).symm.trans hj)
  have hhand {k : ℕ} (hk : t.InHand k) : k = fd ∨ s.InHand k := by
    obtain ⟨j, v, hj, rfl⟩ := hk
    obtain rfl | hj := hnew hj
    · exact .inl rfl
    · exact .inr ⟨j, v, hj, rfl⟩
  have hsingle := single_update (t := t) h.single rfl fun v hv j u _ hj he =>
    hh ⟨j, u, hj, he.trans (congrArg Worker.fd (Option.some.inj hv).symm)⟩
  refine ⟨⟨hsingle, h.socket⟩, h.nodup, hn.2, fun k hk => ?_, fun k hk => ?_, h.slot, fun j v hj => ?_, h.polls⟩
  · obtain ⟨hko, hka, hkh⟩ := h.waits k (hperm.mem_iff.mpr (List.mem_cons_of_mem _ hk))
    exact ⟨hko, hka, fun hk' => (hhand hk').elim (fun he => hn.1 (he ▸ hk)) hkh⟩
  · obtain ⟨hko, hkh⟩ := h.armed k hk
    exact ⟨hko, fun hk' => (hhand hk').elim (fun he => hk (he ▸ ha)) hkh⟩
  · obtain rfl | hj := hnew hj
    · exact ho
    · exact h.stage j v hj

lemma afterRead_worker {u u' : User} {fd : ℕ} {stat : FileStat} {leave : Leave} {v : Worker}
    (h : afterRead u fd stat leave = some (u', v)) (ho : fd ∈ s.opened) :
    u'.sockfd = u.sockfd ∧ v.fd = fd ∧ Stage s v := by
  rcases leave with ⟨code, c⟩ | ⟨origin, c⟩ | -
  · cases code with
    | noRequest =>
      cases h
      exact ⟨rfl, rfl, .inl ho⟩
    | _ =>
      cases h
      exact ⟨rfl, rfl, ho⟩
  · cases h
    exact ⟨rfl, rfl, ho⟩
  · cases h

lemma afterWrite_worker (u : User) {fd : ℕ} (ret : HttpCode) (ho : fd ∈ s.opened) :
    (afterWrite u fd ret).1.sockfd = u.sockfd ∧ (afterWrite u fd ret).2.fd = fd ∧
      Stage s (afterWrite u fd ret).2 := by
  rw [afterWrite]
  split
  · exact ⟨rfl, rfl, .inl ho⟩
  · exact ⟨rfl, rfl, ho⟩

lemma afterFlag_worker {fd : ℕ} {isRead ok : Bool} {v : Worker} (h : afterFlag fd isRead ok = some v)
    (ho : fd ∈ s.opened) : v.fd = fd ∧ Stage s v := by
  cases ok <;> cases isRead <;> cases h <;> exact ⟨rfl, ho⟩

variable {cfg : Config}

lemma worker_solo (h : Solo s) (hs : Step cfg s (.worker i) t) : Solo t := by
  cases hs with
  | dequeue _ hq => exact h.dequeue hq
  | process hw =>
    have ho := h.stage i _ hw
    refine h.keep hw rfl rfl rfl rfl rfl rfl (fun _ => rfl) ?_
    rintro _ ⟨⟩
    exact ⟨rfl, ho⟩
  | read io hw =>
    have ho := h.stage i _ hw
    refine h.keep hw rfl rfl rfl rfl rfl rfl (fun _ => setUser_sockfd rfl) ?_
    rintro _ ⟨⟩
    exact ⟨rfl, ho⟩
  | write ok hw =>
    have ho := h.stage i _ hw
    refine h.keep hw rfl rfl rfl rfl rfl rfl (fun _ => rfl) ?_
    rintro _ ⟨⟩
    exact ⟨rfl, ho⟩
  | flag hw =>
    refine h.keep hw rfl rfl rfl rfl rfl rfl (fun _ => setUser_sockfd rfl) fun v hv => ?_
    exact afterFlag_worker hv (h.stage i _ hw)
  | fail hw =>
    refine h.keep hw rfl rfl rfl rfl rfl rfl (fun _ => setUser_sockfd rfl) ?_
    rintro _ ⟨⟩
  | parse stat hw _ hr =>
    obtain ⟨hu, hv⟩ := afterRead_worker hr (h.stage i _ hw)
    refine h.keep hw rfl rfl rfl rfl rfl rfl (fun _ => setUser_sockfd hu) ?_
    rintro _ ⟨⟩
    exact hv
  | answer hw =>
    obtain ⟨hu, hv⟩ := afterWrite_worker (s.users _) _ (h.stage i _ hw)
    refine h.keep hw rfl rfl rfl rfl rfl rfl (fun _ => setUser_sockfd hu) ?_
    rintro _ ⟨⟩
    exact hv
  | closed hw hnone => cases (h.socket _ (h.stage i _ hw)).symm.trans hnone
  | @close _ fd k hw hk =>
    obtain rfl : fd = k := Option.some.inj ((h.socket _ (h.stage i _ hw)).symm.trans hk)
    have hmem {j : ℕ} : j ∈ s.opened.erase fd ↔ j ≠ fd ∧ j ∈ s.opened := h.nodup.mem_erase_iff
    refine h.work hw rfl ⟨rfl, rfl, rfl, h.nodup.erase _, fun j hj => (hmem.mp hj).2,
      fun j hne hj => hmem.mpr ⟨hne, hj⟩, fun j hne => Function.update_of_ne hne _ _, fun _ _ => rfl⟩
      (fun hj => absurd rfl (hmem.mp hj).1) (fun hne => absurd (Function.update_self _ _ _) hne) ?_
    rintro _ ⟨⟩
    exact ⟨rfl, fun hj => (hmem.mp hj).1 rfl⟩
  | @reset _ fd hw =>
    have hcl : fd ∉ s.opened := h.stage i _ hw
    refine h.work hw rfl ⟨rfl, rfl, rfl, h.nodup, fun _ hj => hj, fun _ _ hj => hj, fun _ _ => rfl,
      fun j hne => congrArg User.sockfd (Function.update_of_ne hne _ s.users)⟩ (fun hj => absurd hj hcl)
      (fun hne => absurd (h.armed fd hne).1 hcl) ?_
    rintro _ ⟨⟩
    exact ⟨rfl, hcl, congrArg User.sockfd (Function.update_self fd _ s.users)⟩
  | discount hw =>
    refine h.keep hw rfl rfl rfl rfl rfl rfl (fun _ => rfl) ?_
    rintro _ ⟨⟩
    exact ⟨rfl, .inr (h.stage i _ hw).2⟩
  | @rearm _ fd interest hw =>
    by_cases ho : fd ∈ s.opened
    · have hmod : modfd s interest (s.users fd).sockfd =
          { s with armed := Function.update s.armed fd (some interest) } := by
        rw [h.socket fd ho]
        exact if_pos ho
      rw [hmod]
      refine h.work hw (show _ = Function.update s.workers i none from rfl) ⟨rfl, rfl, rfl, h.nodup, fun _ hj => hj,
        fun _ _ hj => hj, fun j hne => Function.update_of_ne hne _ _, fun _ _ => rfl⟩ (fun hj => h.socket fd hj)
        (fun _ => ⟨ho, rfl⟩) ?_
      rintro _ ⟨⟩
    · have hnone : (s.users fd).sockfd = none := (h.stage i _ hw).resolve_left ho
      rw [hnone]
      refine h.keep hw (show _ = Function.update s.workers i none from rfl) rfl rfl rfl rfl rfl (fun _ => rfl) ?_
      rintro _ ⟨⟩

end Worker

lemma solo_start (slots : ℕ → Slot) (users : ℕ → User) (now : ℤ) : Solo (.start slots users now) where
  single _ _ _ _ h := nomatch h
  socket _ h := nomatch h
  nodup := List.nodup_nil
  tokens := List.nodup_nil
  waits _ h := nomatch h
  armed _ h := absurd rfl h
  slot _ h := nomatch h
  stage _ _ h := nomatch h
  polls := trivial

lemma step_solo {cfg : Config} (s : WebServer) (a : Actor) (t : WebServer) (h : Solo s) (hs : CarefulStep cfg s a t) :
    Solo t := by
  cases a with
  | clock =>
    cases hs.1 with
    | clock now hle =>
      exact ⟨⟨h.single, h.socket⟩, h.nodup, h.tokens, h.waits, h.armed, h.slot, h.stage, h.polls⟩
  | main => exact main_solo h hs.1 hs.2
  | worker i => exact worker_solo h hs.1

/-- In every careful run each object is in the hands of one worker at most, has its descriptor while its
connection is open, and is not set up for a new connection while a worker has it. -/
theorem exclusive_processing {cfg : Config} {slots : ℕ → Slot} {users : ℕ → User} {now : ℤ} {s : WebServer}
    (h : Reachable (CarefulStep cfg) (.start slots users now) s) :
    Exclusive s ∧ ∀ a t, CarefulStep cfg s a t → ∀ fd ∈ t.opened, fd ∉ s.opened → ¬ s.InHand fd := by
  have hs : Solo s := h.invariant (solo_start slots users now) fun s a t hs _ hstep => step_solo s a t hs hstep
  exact ⟨hs.toExclusive, fun a t hstep fd ht ho => hs.free ho (hstep.2.accepts fd ht ho)⟩

lemma Careful.same {s t : WebServer} {a : Actor} (ho : t.opened = s.opened) : Careful s a t :=
  ⟨fun _ _ hs ht => absurd (ho ▸ hs) ht, fun _ ht hs => absurd (ho ▸ ht) hs⟩

lemma Careful.accept {s t : WebServer} {a : Actor} {fd : ℕ} (ho : t.opened = fd :: s.opened)
    (hw : ∀ i w, s.workers i = some w → w.fd ≠ fd) : Careful s a t := by
  refine ⟨fun _ k hs ht => absurd (ho ▸ List.mem_cons_of_mem _ hs) ht, fun k ht hs i w hi he => ?_⟩
  rw [ho] at ht
  exact absurd (he.trans ((List.mem_cons.mp ht).resolve_right hs)) (hw i w hi)

lemma run_careful (c : ReadState) : Reachable (CarefulStep proactor) launch (processing c) :=
  run_firstClient c (fun _ _ _ h => ⟨trivial, h.step, .same h.opened⟩)
    ⟨trivial, step_joined, .accept rfl nofun⟩ ⟨trivial, step_received c, .same rfl⟩

theorem exclusive_processing_two_clients :
    ∃ s t, Reachable (CarefulStep proactor) launch s ∧ CarefulStep proactor s .main t ∧ s.InHand 7 ∧
      8 ∈ t.opened ∧ 8 ∉ s.opened ∧ Exclusive s ∧ ¬ s.InHand 8 := by
  have h : Reachable (CarefulStep proactor) launch _ :=
    .go (run_careful getFile) ⟨.wait [.listen] rfl rfl (deliver_listen _), .same rfl⟩
  have hbusy (i : ℕ) (w : Worker)
      (hi : ((disarm (processing getFile) [.listen]).goTo (.handling [.listen])).workers i = some w) : w.fd ≠ 8 := by
    by_cases hi0 : i = 0
    · subst hi0
      cases hi
      decide
    · have hnone : (processing getFile).workers i = none :=
        (Function.update_of_ne hi0 _ _).trans (Function.update_of_ne hi0 _ _)
      cases hnone.symm.trans hi
  obtain ⟨h, hstep, -⟩ := h.follow (⟨.accept 8 1 rfl (by decide) (by decide) rfl rfl, .accept rfl hbusy⟩ :
    CarefulStep proactor _ .main _)
  obtain ⟨hx, hn⟩ := exclusive_processing h
  exact ⟨_, _, h, hstep, ⟨0, .reading 7, rfl, rfl⟩, List.mem_cons_self, by decide, hx,
    hn _ _ hstep 8 List.mem_cons_self (by decide)⟩

theorem exclusive_processing_reused_descriptor :
    ∃ s t u, Reachable (Step proactor) launch s ∧ Step proactor s .main t ∧ Step proactor t (.worker 0) u ∧
      s.InHand 7 ∧ 7 ∉ s.opened ∧ 7 ∈ t.opened ∧ (t.users 7).sockfd = some 7 ∧
      7 ∈ u.opened ∧ (u.users 7).sockfd = none ∧ ¬ Exclusive u := by
  -- `accept` returns the descriptor that a worker has just closed. The worker then clears `m_sokcfd` of the new
  -- connection.
  have h : Reachable (Step proactor) launch (processing getFile) := (run_answering getFile).mono fun _ _ _ => trivial
  have h₁ : Reachable (Step proactor) launch _ := .go h (.parse (i := 0) .missing rfl rfl rfl)
  have h₂ : Reachable (Step proactor) launch _ := .go h₁ (.answer (i := 0) rfl)
  have h₃ : Reachable (Step proactor) launch _ := .go h₂ (.close (i := 0) rfl rfl)
  have h₄ : Reachable (Step proactor) launch _ := .go h₃ (.wait [.listen] rfl rfl (deliver_listen _))
  obtain ⟨-, ha, h₅⟩ := h₄.follow (.accept 7 1 rfl (by decide) (by decide) rfl rfl)
  obtain ⟨-, hr, -⟩ := h₅.follow (.reset (i := 0) rfl)
  refine ⟨_, _, _, h₄, ha, hr, ⟨0, .resetting 7, rfl, rfl⟩, by decide, List.mem_cons_self, rfl,
    List.mem_cons_self, rfl, fun hx => ?_⟩
  exact nomatch hx.socket 7 List.mem_cons_self

end OceanServer.Server
