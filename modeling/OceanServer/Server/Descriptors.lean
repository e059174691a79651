import OceanServer.Server.Invariant

/-! The descriptors of the process: `accept` returns the lowest number that is not in use, and `webserver::timer`
takes it for an index of `users` and `users_timer`. -/

namespace OceanServer.Server

open Library Library.LinkedHeap Http Timer

section Model

structure Process where
  server : WebServer
  others : Finset ℕ

variable (cfg : Config) (held : Finset ℕ)

def Accepts (s : WebServer) (fd : ℕ) (t : WebServer) : Prop :=
  ∃ batch p u, s.main = .handling (.listen :: batch) ∧ fd ∉ s.opened ∧ s.userCount < maxFd ∧
    s.timers.heap.cell p = none ∧ startTimer s fd p = some u ∧
    t = u.goTo (.handling (if cfg.listenEt then .listen :: batch else batch))

inductive Event where
  | accept (fd : ℕ)
  | server (a : Actor)
  | others

/-- The process, where `m_user_count` is the number of open client connections whenever one is accepted. Of
the other descriptors those in `held` are never closed. -/
inductive Move : Process → Event → Process → Prop
  | accept {s t : WebServer} {others : Finset ℕ} {fd : ℕ} : Accepts cfg s fd t →
      IsLeast {n | n ∉ s.opened ∧ n ∉ others} fd → s.userCount = s.opened.length →
      Move ⟨s, others⟩ (.accept fd) ⟨t, others⟩
  | server {s t : WebServer} {others : Finset ℕ} {a : Actor} : Step cfg s a t → (∀ fd, ¬ Accepts cfg s fd t) →
      Move ⟨s, others⟩ (.server a) ⟨t, others⟩
  | others {s : WebServer} {old new : Finset ℕ} : held ⊆ new → (∀ n ∈ new, n ∉ s.opened) →
      Move ⟨s, old⟩ .others ⟨s, new⟩

def Event.Inside : Event → Prop
  | .accept fd => (fd : ℤ) < maxFd
  | _ => True

def Process.HasRoom (p : Process) : Event → Prop
  | .accept _ => (p.server.opened.length + (p.others.filter fun n : ℕ => (n : ℤ) < maxFd).card : ℤ) < maxFd
  | _ => True

end Model

section Opened

variable {cfg : Config} {s t : WebServer} {fd : ℕ} {timer : Option ℕ} {a : Actor}

lemma startTimer_eq {p : ℕ} (h : startTimer s fd p = some t) : ∃ l, t = enroll s fd p l := by
  obtain ⟨l, -, rfl⟩ := Option.map_eq_some_iff.mp h
  exact ⟨l, rfl⟩

lemma Accepts.opened (h : Accepts cfg s fd t) : t.opened = fd :: s.opened ∧ fd ∉ s.opened := by
  obtain ⟨batch, p, u, -, hfd, -, -, hstart, rfl⟩ := h
  obtain ⟨l, rfl⟩ := startTimer_eq hstart
  exact ⟨rfl, hfd⟩

lemma Accepts.step (h : Accepts cfg s fd t) : Step cfg s .main t := by
  obtain ⟨batch, p, u, hmain, hfd, hcount, hcell, hstart, rfl⟩ := h
  exact .accept fd p hmain hfd hcount hcell hstart

lemma Move.step {held : Finset ℕ} {p q : Process} {e : Event} (h : Move cfg held p e q) :
    q.server = p.server ∨ ∃ a, Step cfg p.server a q.server := by
  cases h with
  | accept hacc => exact .inr ⟨.main, hacc.step⟩
  | server hs => exact .inr ⟨_, hs⟩
  | others => exact .inl rfl

lemma moves_refine {held : Finset ℕ} {p q : Process} {es : List Event} (h : Trace (Move cfg held) p es q) :
    ∃ as, Trace (Step cfg) p.server as q.server :=
  h.project Process.server fun _ _ _ hm => hm.step

lemma not_accepts (h : t.opened.Sublist s.opened) (fd : ℕ) : ¬ Accepts cfg s fd t := by
  intro hacc
  have hlen := h.length_le
  rw [hacc.opened.1, List.length_cons] at hlen
  omega

lemma polled_sublist {state : ℕ} {m : Main}
    (h : ((adjust s fd timer).bind fun u => some ((append cfg u fd state).goTo m)) = some t) :
    t.opened.Sublist s.opened := by
  obtain ⟨u, hu, h⟩ := Option.bind_eq_some_iff.mp h
  cases h
  change (append cfg u fd state).opened.Sublist s.opened
  rw [(append_same cfg u fd state).1.opened]
  exact (adjust_retimed hu).sublist

lemma dealt_sublist {u : WebServer} {ok : Bool} {m : Main} (ho : u.opened = s.opened)
    (h : (if ok then adjust u fd timer else dealTimer s fd timer).map (·.goTo m) = some t) :
    t.opened.Sublist s.opened := by
  obtain ⟨v, hv, rfl⟩ := Option.map_eq_some_iff.mp h
  change v.opened.Sublist s.opened
  cases ok with
  | true => exact ho ▸ (adjust_retimed hv).sublist
  | false => exact (dealTimer_retimed hv).sublist

lemma dealWithRead_sublist {io : Io} {batch : List Ready} (h : dealWithRead cfg s fd io batch = some t) :
    t.opened.Sublist s.opened := by
  unfold dealWithRead at h
  by_cases hr : cfg.reactor = true
  · rw [if_pos hr] at h
    exact polled_sublist h
  · rw [if_neg hr] at h
    exact dealt_sublist (s := s.setUser fd _) (appendP_same cfg _ fd).1.opened h

lemma dealWithWrite_sublist {io : Io} {batch : List Ready} (h : dealWithWrite cfg s fd io batch = some t) :
    t.opened.Sublist s.opened := by
  unfold dealWithWrite at h
  by_cases hr : cfg.reactor = true
  · rw [if_pos hr] at h
    exact polled_sublist h
  · rw [if_neg hr] at h
    exact dealt_sublist rfl h

lemma step_sublist (hs : Step cfg s a t) (hacc : ∀ fd, ¬ Accepts cfg s fd t) : t.opened.Sublist s.opened := by
  cases hs with
  | @accept u batch fd p hm hfd hcount hp hu => exact absurd ⟨batch, p, u, hm, hfd, hcount, hp, hu, rfl⟩ (hacc fd)
  | hangup _ ht | flagged _ _ ht =>
    have hsub := (dealTimer_retimed ht).sublist
    exact hsub
  | readable _ _ ht => exact dealWithRead_sublist ht
  | writable _ _ ht => exact dealWithWrite_sublist ht
  | tick _ _ ht =>
    obtain ⟨fds, hticked⟩ := tickServer_retimed ht
    exact hticked.sublist
  | close => exact List.erase_sublist
  | rearm =>
    change (modfd s _ _).opened.Sublist s.opened
    rw [(modfd_same s _ _).1.opened]
  | _ => exact .refl _

end Opened

section Room

lemma isLeast_lt_iff {used : Finset ℕ} {k : ℕ} (h : IsLeast {n | n ∉ used} k) (N : ℕ) :
    k < N ↔ (used.filter (· < N)).card < N := by
  have hsub : used.filter (· < N) ⊆ Finset.range N := by
    intro n hn
    exact Finset.mem_range.mpr (Finset.mem_filter.mp hn).2
  constructor
  · intro hk
    have hlt : used.filter (· < N) ⊂ Finset.range N := by
      refine hsub.ssubset_of_mem_notMem (Finset.mem_range.mpr hk) fun hmem => ?_
      exact h.1 (Finset.mem_filter.mp hmem).1
    simpa using Finset.card_lt_card hlt
  · intro hcard
    -- fewer than `N` numbers below `N` are in use, so one of them is free
    have hcard' := hcard.trans_eq (Finset.card_range N).symm
    obtain ⟨n, hn, hnot⟩ := Finset.exists_mem_notMem_of_card_lt_card hcard'
    have hnN := Finset.mem_range.mp hn
    have hfree : n ∉ used := fun hmem => hnot (Finset.mem_filter.mpr ⟨hmem, hnN⟩)
    exact (h.2 hfree).trans_lt hnN

variable {cfg : Config} {held : Finset ℕ} {p q : Process} {e : Event}

structure Process.Apart (p : Process) : Prop where
  nodup : p.server.opened.Nodup
  apart : ∀ n ∈ p.others, n ∉ p.server.opened

def Process.Indexed (p : Process) : Prop := ∀ fd ∈ p.server.opened, (fd : ℤ) < maxFd

lemma Process.Apart.move (h : p.Apart) (hm : Move cfg held p e q) : q.Apart := by
  cases hm with
  | accept hacc hleast _ =>
    obtain ⟨ho, hfd⟩ := hacc.opened
    refine ⟨?_, fun n hn => ?_⟩
    · rw [ho]
      exact List.nodup_cons.mpr ⟨hfd, h.nodup⟩
    · rw [ho]
      refine List.not_mem_cons_of_ne_of_not_mem (fun he => ?_) (h.apart n hn)
      exact hleast.1.2 (he ▸ hn)
  | server hs hacc =>
    have hsub := step_sublist hs hacc
    exact ⟨h.nodup.sublist hsub, fun n hn hmem => h.apart n hn (hsub.subset hmem)⟩
  | others _ hnew => exact ⟨h.nodup, hnew⟩

lemma Process.Indexed.move (h : p.Indexed) (hm : Move cfg held p e q) (he : e.Inside) : q.Indexed := by
  cases hm with
  | accept hacc _ _ =>
    intro k hk
    rw [hacc.opened.1] at hk
    rcases List.mem_cons.mp hk with rfl | hk
    · exact he
    · exact h k hk
  | server hs hacc => exact fun k hk => h k ((step_sublist hs hacc).subset hk)
  | others => exact h

lemma Process.Apart.card_used (h : p.Apart) (hi : p.Indexed) :
    ((p.server.opened.toFinset ∪ p.others).filter (· < 65536)).card =
      p.server.opened.length + (p.others.filter fun n : ℕ => (n : ℤ) < maxFd).card := by
  have hclients : p.server.opened.toFinset.filter (· < 65536) = p.server.opened.toFinset := by
    refine Finset.filter_true_of_mem fun n hn => ?_
    have hlt := hi n (List.mem_toFinset.mp hn)
    rw [maxFd] at hlt
    omega
  have hothers : p.others.filter (· < 65536) = p.others.filter fun n : ℕ => (n : ℤ) < maxFd := by
    refine Finset.filter_congr fun n _ => ?_
    rw [maxFd]
    omega
  have hdisj : Disjoint p.server.opened.toFinset (p.others.filter (· < 65536)) := by
    refine Finset.disjoint_right.mpr fun n hn hmem => ?_
    exact h.apart n (Finset.mem_filter.mp hn).1 (List.mem_toFinset.mp hmem)
  rw [Finset.filter_union, hclients, Finset.card_union_of_disjoint hdisj, List.toFinset_card_of_nodup h.nodup, hothers]

lemma inside_iff_hasRoom (h : p.Apart) (hi : p.Indexed) (hm : Move cfg held p e q) : e.Inside ↔ p.HasRoom e := by
  cases hm with
  | @accept s t others fd hacc hleast _ =>
    have hused : IsLeast {n | n ∉ s.opened.toFinset ∪ others} fd := by
      simpa only [Finset.notMem_union, List.mem_toFinset] using hleast
    have hlt := isLeast_lt_iff hused 65536
    rw [h.card_used hi] at hlt
    dsimp only [Event.Inside, Process.HasRoom] at hlt ⊢
    rw [maxFd] at hlt ⊢
    omega
  | server | others => exact Iff.rfl

theorem descriptors_inside_iff (cfg : Config) (held : Finset ℕ) (slots : ℕ → Slot) (users : ℕ → User) (now : ℤ)
    (es : List Event) :
    Along (Move cfg held) (fun _ e _ => e.Inside) ⟨.start slots users now, held⟩ es ↔
      Along (Move cfg held) (fun p e _ => p.HasRoom e) ⟨.start slots users now, held⟩ es := by
  have hapart : Process.Apart ⟨.start slots users now, held⟩ := ⟨List.nodup_nil, fun _ _ hn => List.not_mem_nil hn⟩
  have hindexed : Process.Indexed ⟨.start slots users now, held⟩ := fun _ hk => absurd hk List.not_mem_nil
  have hrun := along_iff (F := fun _ e _ => e.Inside) (C := fun p e _ => p.HasRoom e) hapart hindexed
    (fun _ _ _ hB (hm : Move cfg held _ _ _) => hB.move hm)
    (fun _ _ _ hB hI hm => by
      rw [← inside_iff_hasRoom hB hI hm, and_iff_right_iff_imp]
      exact hI.move hm) es
  refine Iff.trans ⟨fun h => ?_, fun h => h.imp fun _ _ _ _ => And.right⟩ hrun
  exact h.strengthen hindexed fun _ _ _ hI hm he => hI.move hm he

end Room

section Full

def heldAtStart : Finset ℕ := Finset.range 9

def serverConfig (listenEt : Bool) : Config := ⟨false, listenEt, 10000, fun _ _ => .noRequest⟩

def freshServer : WebServer := .start (fun _ => default) (fun _ => default) 0

structure Crowd (k : ℕ) (s : WebServer) : Prop where
  good : ∃ xs, Good s xs
  waiting : s.main = .waiting
  goes : s.stop = false
  calm : s.timeout = false
  clients : ∀ n, n ∈ s.opened ↔ 9 ≤ n ∧ n < 9 + k
  count : s.userCount = k

variable {k : ℕ} {s : WebServer}

lemma exists_free {xs : List (ℕ × UtilTimer)} (h : Good s xs) : ∃ p, s.timers.heap.cell p = none := by
  obtain ⟨p, hp⟩ := Infinite.exists_notMem_finset (addrs xs).toFinset
  refine ⟨p, Option.not_isSome_iff_eq_none.mp fun hsome => hp ?_⟩
  exact List.mem_toFinset.mpr (h.shape.owned p hsome)

lemma main_move {cfg : Config} {t : WebServer} (others : Finset ℕ) (hs : Step cfg s .main t) (ho : t.opened = s.opened) :
    Move cfg others ⟨s, others⟩ (.server .main) ⟨t, others⟩ :=
  .server hs (not_accepts (ho ▸ .refl _))

lemma settles {et : Bool} (others : Finset ℕ) (hm : s.main = .handling (if et then [.listen] else [])) (ht : s.timeout = false) :
    ∃ es, Trace (Move (serverConfig et) others) ⟨s, others⟩ es ⟨s.goTo .waiting, others⟩ := by
  cases et with
  | false => exact ⟨_, Trace.nil.snoc (main_move others (.idle hm ht) rfl)⟩
  | true =>
    -- edge-triggered, the loop of `dealclientdata` ends when `accept` fails
    have hfail : Step (serverConfig true) s .main (s.goTo (.handling [])) := .acceptFail hm
    exact ⟨_, (Trace.nil.snoc (main_move others hfail rfl)).snoc (main_move others (.idle rfl ht) rfl)⟩

lemma Crowd.least (h : Crowd k s) : IsLeast {n | n ∉ s.opened ∧ n ∉ heldAtStart} (9 + k) := by
  constructor
  · constructor
    · intro hmem
      exact absurd ((h.clients _).mp hmem).2 (lt_irrefl _)
    · intro hmem
      have hlt := Finset.mem_range.mp hmem
      omega
  · intro n hn
    have hclient : ¬ (9 ≤ n ∧ n < 9 + k) := fun hmem => hn.1 ((h.clients n).mpr hmem)
    have hheld : ¬ n < 9 := fun hlt => hn.2 (Finset.mem_range.mpr hlt)
    omega

lemma Crowd.grows (h : Crowd k s) (et : Bool) (hk : (k : ℤ) < maxFd) :
    ∃ q r es t, Move (serverConfig et) heldAtStart ⟨s, heldAtStart⟩ (.server .main) q ∧
      Move (serverConfig et) heldAtStart q (.accept (9 + k)) r ∧
      Trace (Move (serverConfig et) heldAtStart) r es ⟨t, heldAtStart⟩ ∧ Crowd (k + 1) t := by
  obtain ⟨xs, hg⟩ := h.good
  obtain ⟨p, hp⟩ := exists_free hg
  have hleast := h.least
  let q := (disarm s [.listen]).goTo (.handling [.listen])
  have hq : Good q xs := hg.same ⟨rfl, rfl, rfl, rfl, rfl, rfl⟩
  obtain ⟨u, ys, hu, hgu, ho, -⟩ := startTimer_good hq hleast.1.1 hp
  have hwait : Step (serverConfig et) s .main q := .wait [.listen] h.waiting h.goes ⟨List.nodup_nil, by simp⟩
  have hacc : Accepts (serverConfig et) q (9 + k) (u.goTo (.handling (if et then [.listen] else []))) :=
    ⟨[], p, u, rfl, hleast.1.1, h.count.trans_lt hk, hp, hu, rfl⟩
  obtain ⟨l, rfl⟩ := startTimer_eq hu
  obtain ⟨es, hes⟩ := settles heldAtStart
    (s := (enroll q (9 + k) p l).goTo (.handling (if et then [.listen] else []))) rfl h.calm
  refine ⟨⟨q, heldAtStart⟩, _, es, _, main_move _ hwait rfl, .accept hacc hleast hq.linked.count, hes,
    ⟨ys, hgu.same ⟨rfl, rfl, rfl, rfl, rfl, rfl⟩⟩, rfl, h.goes, h.calm, fun n => ?_, ?_⟩
  · have hmem := h.clients n
    change n ∈ (9 + k) :: s.opened ↔ _
    rw [List.mem_cons, hmem]
    omega
  · change s.userCount + 1 = _
    rw [h.count, Nat.cast_succ]

lemma crowd_reached (et : Bool) (hk : (k : ℤ) ≤ maxFd) :
    ∃ es s, Trace (Move (serverConfig et) heldAtStart) ⟨freshServer, heldAtStart⟩ es ⟨s, heldAtStart⟩ ∧ Crowd k s := by
  induction k with
  | zero =>
    refine ⟨[], freshServer, .nil, (inv_start _ _ _).good, rfl, rfl, rfl, fun n => ?_, rfl⟩
    change n ∈ [] ↔ _
    simp
  | succ k ih =>
    rw [Nat.cast_succ] at hk
    obtain ⟨es, s, hrun, hs⟩ := ih (by omega)
    obtain ⟨q, r, es', t, hwait, hacc, hback, ht⟩ := hs.grows et (by omega)
    exact ⟨_, t, ((hrun.snoc hwait).snoc hacc).append hback, ht⟩

lemma accepted_at (et : Bool) (hk : (k : ℤ) < maxFd) :
    ∃ es, ∃ q r, Trace (Move (serverConfig et) heldAtStart) ⟨freshServer, heldAtStart⟩ es q ∧
      Move (serverConfig et) heldAtStart q (.accept (9 + k)) r := by
  obtain ⟨es, s, hrun, hs⟩ := crowd_reached et hk.le
  obtain ⟨q, r, -, -, hwait, hacc, -, -⟩ := hs.grows et hk
  exact ⟨_, q, r, hrun.snoc hwait, hacc⟩

lemma beyond_arrays (et : Bool) :
    ∃ es, ¬ Along (Move (serverConfig et) heldAtStart) (fun _ e _ => e.Inside) ⟨freshServer, heldAtStart⟩ es := by
  obtain ⟨es, q, r, hrun, hacc⟩ := accepted_at (k := 65527) et (by rw [maxFd]; norm_num)
  refine ⟨es ++ [.accept (9 + 65527)], fun h => ?_⟩
  have hlt : ((9 + 65527 : ℕ) : ℤ) < maxFd := h es _ [] q r rfl hrun hacc
  rw [maxFd] at hlt
  omega

theorem descriptor_beyond_arrays :
    (∃ es, ¬ Along (Move (serverConfig false) heldAtStart) (fun _ e _ => e.Inside) ⟨freshServer, heldAtStart⟩ es) ∧
      ∃ es, ¬ Along (Move (serverConfig true) heldAtStart) (fun _ e _ => e.Inside) ⟨freshServer, heldAtStart⟩ es :=
  ⟨beyond_arrays false, beyond_arrays true⟩

end Full

end OceanServer.Server
