import OceanServer.Server.Exclusive

/-! One answer for a connection. `http_conn::write` sends nothing, sets nothing up again and does not register the
descriptor for input, so once `process_write` has run for a connection no later request on it is read. -/

namespace OceanServer.Server

open Library Library.LinkedHeap Http Timer

variable {cfg : Config} {s t : WebServer} {fd : ℕ}

def AfterAnswer (cfg : Config) (u : User) : Worker → Prop
  | .picked _ => cfg.reactor = true ∧ u.state ≠ 0
  | .flagging _ isRead _ => isRead = false
  | .reading _ | .writing _ _ => False
  | .rearming _ interest => interest = .output
  | .failing _ | .closing _ | .resetting _ | .discounting _ => True

structure HasAnswer (cfg : Config) (s : WebServer) (fd : ℕ) : Prop where
  armed : s.armed fd ≠ some .input
  batch : Ready.readable fd ∉ s.main.batch
  queue : fd ∈ s.queue → cfg.reactor = true ∧ (s.users fd).state ≠ 0
  worker : ∀ i w, s.workers i = some w → w.fd = fd → AfterAnswer cfg (s.users fd) w

structure Beside (s t : WebServer) (fd : ℕ) : Prop where
  armed : t.armed fd = s.armed fd ∨ t.armed fd = none
  queue : fd ∈ t.queue → fd ∈ s.queue
  state : (t.users fd).state = (s.users fd).state
  workers : t.workers = s.workers

lemma afterAnswer_congr {u v : User} {w : Worker} (h : AfterAnswer cfg u w) (hs : v.state = u.state) :
    AfterAnswer cfg v w := by
  cases w with
  | picked => exact ⟨h.1, hs ▸ h.2⟩
  | _ => exact h

lemma HasAnswer.beside (h : HasAnswer cfg s fd) (hb : Beside s t fd) (hbatch : ∀ e ∈ t.main.batch, e ∈ s.main.batch) :
    HasAnswer cfg t fd := by
  refine ⟨?_, fun hin => h.batch (hbatch _ hin), fun hq => ?_, fun i w hw hfd => ?_⟩
  · rcases hb.armed with he | he <;> rw [he]
    · exact h.armed
    · exact (Option.some_ne_none _).symm
  · rw [hb.state]
    exact h.queue (hb.queue hq)
  · rw [hb.workers] at hw
    exact afterAnswer_congr (h.worker i w hw hfd) hb.state

section Beside

variable {u : WebServer} {k : ℕ} {timer : Option ℕ}

lemma Beside.refl (s : WebServer) : Beside s s fd := ⟨.inl rfl, id, rfl, rfl⟩

lemma Beside.trans (h : Beside s t fd) (h' : Beside t u fd) : Beside s u fd := by
  refine ⟨?_, fun hq => h.queue (h'.queue hq), h'.state.trans h.state, h'.workers.trans h.workers⟩
  rcases h'.armed with he | he
  · rw [he]
    exact h.armed
  · exact .inr he

lemma Retimed.beside {fds : List ℕ} (h : Retimed s t fds) : Beside s t fd := by
  obtain ⟨l, touched, rfl⟩ := h
  refine ⟨?_, id, rfl, rfl⟩
  by_cases hfd : fd ∈ fds
  · exact .inr (if_pos hfd)
  · exact .inl (if_neg hfd)

lemma Retimed.main {fds : List ℕ} (h : Retimed s t fds) : t.main = s.main := by
  obtain ⟨l, touched, rfl⟩ := h
  rfl

lemma setUser_beside {v : User} (hv : k = fd → v.state = (s.users k).state) : Beside s (s.setUser k v) fd := by
  refine ⟨.inl rfl, id, ?_, rfl⟩
  change (Function.update s.users k v fd).state = _
  by_cases hk : k = fd
  · subst hk
    rw [Function.update_self]
    exact hv rfl
  · rw [Function.update_of_ne (Ne.symm hk)]

lemma mem_snoc_of_ne {queue : List ℕ} (hk : k ≠ fd) (h : fd ∈ queue ++ [k]) : fd ∈ queue :=
  (List.mem_append.mp h).resolve_right fun hin => hk (List.mem_singleton.mp hin).symm

lemma append_beside (state : ℕ) (hk : k ≠ fd) : Beside s (append cfg s k state) fd := by
  rw [append]
  split_ifs
  · exact .refl s
  · have hu : Beside s (s.setUser k { s.users k with state := state }) fd := setUser_beside fun he => absurd he hk
    exact ⟨hu.armed, mem_snoc_of_ne hk, hu.state, hu.workers⟩

lemma append_main (cfg : Config) (s : WebServer) (k state : ℕ) : (append cfg s k state).main = s.main := by
  rw [append]
  split_ifs <;> rfl

lemma appendP_beside (hk : k ≠ fd) : Beside s (appendP cfg s k) fd := by
  rw [appendP]
  split_ifs
  · exact .refl s
  · exact ⟨.inl rfl, mem_snoc_of_ne hk, rfl, rfl⟩

end Beside

section Main

variable {batch : List Ready}

lemma HasAnswer.append (h : HasAnswer cfg s fd) (hr : cfg.reactor = true) : HasAnswer cfg (append cfg s fd 1) fd := by
  rw [Server.append]
  split_ifs
  · exact h
  · have hstate : ((s.setUser fd { s.users fd with state := 1 }).users fd).state = 1 :=
      congrArg User.state (Function.update_self fd _ s.users)
    refine ⟨h.armed, h.batch, fun _ => ⟨hr, ?_⟩, fun i w hw hfd => ?_⟩
    · change ((s.setUser fd { s.users fd with state := 1 }).users fd).state ≠ 0
      rw [hstate]
      exact one_ne_zero
    · have hw' := h.worker i w hw hfd
      cases w with
      | picked =>
        refine ⟨hr, ?_⟩
        change ((s.setUser fd { s.users fd with state := 1 }).users fd).state ≠ 0
        rw [hstate]
        exact one_ne_zero
      | _ => exact hw'

lemma batch_tail {e : Ready} (hm : s.main = .handling (e :: batch)) : ∀ x ∈ batch, x ∈ s.main.batch := by
  rw [hm]
  exact fun x hx => List.mem_cons_of_mem e hx

lemma HasAnswer.goTo {m : Main} (h : HasAnswer cfg s fd) (hb : ∀ e ∈ m.batch, e ∈ s.main.batch) :
    HasAnswer cfg (s.goTo m) fd := h.beside ⟨.inl rfl, id, rfl, rfl⟩ hb

lemma HasAnswer.dealWithRead {k : ℕ} {io : Io} (h : HasAnswer cfg s fd) (hm : s.main = .handling (.readable k :: batch))
    (ht : dealWithRead cfg s k io batch = some t) : HasAnswer cfg t fd := by
  have hk : k ≠ fd := by
    rintro rfl
    apply h.batch
    rw [hm]
    exact List.mem_cons_self
  rw [Server.dealWithRead] at ht
  by_cases hr : cfg.reactor = true
  · rw [if_pos hr] at ht
    obtain ⟨u, hu, ht⟩ := Option.bind_eq_some_iff.mp ht
    cases ht
    have hb : Beside s (Server.append cfg u k 0) fd := (adjust_retimed hu).beside.trans (append_beside 0 hk)
    exact h.beside ⟨hb.armed, hb.queue, hb.state, hb.workers⟩ (batch_tail hm)
  · rw [if_neg hr] at ht
    obtain ⟨u, hu, rfl⟩ := Option.map_eq_some_iff.mp ht
    have hs : Beside s (s.setUser k { s.users k with read := io.read }) fd := setUser_beside fun _ => rfl
    have hb : Beside s u fd := by
      cases hok : io.ok with
      | true =>
        rw [hok] at hu
        exact hs.trans ((appendP_beside hk).trans (adjust_retimed hu).beside)
      | false =>
        rw [hok] at hu
        exact hs.trans ((dealTimer_retimed hu).beside)
    exact h.beside ⟨hb.armed, hb.queue, hb.state, hb.workers⟩ (batch_tail hm)

lemma HasAnswer.dealWithWrite {k : ℕ} {io : Io} (h : HasAnswer cfg s fd)
    (hm : s.main = .handling (.writable k :: batch)) (ht : dealWithWrite cfg s k io batch = some t) : HasAnswer cfg t fd := by
  rw [Server.dealWithWrite] at ht
  by_cases hr : cfg.reactor = true
  · rw [if_pos hr] at ht
    obtain ⟨u, hu, ht⟩ := Option.bind_eq_some_iff.mp ht
    cases ht
    have hu' : HasAnswer cfg u fd :=
      h.beside (adjust_retimed hu).beside (by rw [(adjust_retimed hu).main]; exact fun _ => id)
    have ha : HasAnswer cfg (Server.append cfg u k 1) fd := by
      by_cases hk : k = fd
      · rw [hk]
        exact hu'.append hr
      · exact hu'.beside (append_beside 1 hk) (by rw [append_main]; exact fun _ => id)
    refine ha.goTo ?_
    rw [append_main, (adjust_retimed hu).main]
    exact batch_tail hm
  · rw [if_neg hr] at ht
    obtain ⟨u, hu, rfl⟩ := Option.map_eq_some_iff.mp ht
    have hb : Beside s u fd := by
      cases hok : io.ok with
      | true =>
        rw [hok] at hu
        exact (adjust_retimed hu).beside
      | false =>
        rw [hok] at hu
        exact (dealTimer_retimed hu).beside
    exact h.beside ⟨hb.armed, hb.queue, hb.state, hb.workers⟩ (batch_tail hm)

lemma HasAnswer.main (h : HasAnswer cfg s fd) (ho : fd ∈ s.opened) (hs : Step cfg s .main t) : HasAnswer cfg t fd := by
  cases hs with
  | wait batch hm _ hd =>
    refine ⟨fun ha => h.armed ?_, fun hb => h.armed (hd.2 _ hb).2, h.queue, h.worker⟩
    by_cases hin : fd ∈ batch.filterMap Ready.fd
    · exact absurd ((if_pos hin).symm.trans ha) (Option.some_ne_none _).symm
    · exact (if_neg hin).symm.trans ha
  | leave => exact h.goTo fun e he => absurd he List.not_mem_nil
  | @accept u batch k p hm hk hc hp hu =>
    have hne : fd ≠ k := fun he => hk (he ▸ ho)
    obtain ⟨l, -, rfl⟩ := Option.map_eq_some_iff.mp hu
    refine h.beside ⟨.inl (Function.update_of_ne hne _ _), id, ?_, rfl⟩ ?_
    · exact congrArg User.state (Function.update_of_ne hne _ _)
    · rw [hm]
      change ∀ e ∈ (if cfg.listenEt then Ready.listen :: batch else batch), e ∈ Ready.listen :: batch
      split_ifs
      · exact fun e he => he
      · exact fun e he => List.mem_cons_of_mem _ he
  | busy hm | acceptFail hm => exact h.goTo (batch_tail hm)
  | hangup hm ht =>
    have hb : Beside s _ fd := (dealTimer_retimed ht).beside
    exact h.beside ⟨hb.armed, hb.queue, hb.state, hb.workers⟩ (batch_tail hm)
  | signals hm => exact h.beside ⟨.inl rfl, id, rfl, rfl⟩ (batch_tail hm)
  | readable io hm ht => exact h.dealWithRead hm ht
  | writable io hm ht => exact h.dealWithWrite hm ht
  | poll hm | unflagged hm => exact h.goTo (by rw [hm]; exact fun _ => id)
  | @flagged u k timer batch hm _ ht =>
    have hb : Beside s (u.setUser k { u.users k with timerFlag := false }) fd :=
      ((dealTimer_retimed ht).beside).trans (setUser_beside fun _ => rfl)
    exact h.beside ⟨hb.armed, hb.queue, hb.state, hb.workers⟩ (by rw [hm]; exact fun _ => id)
  | @clear k batch hm =>
    have hb : Beside s (s.setUser k { s.users k with improv := false }) fd := setUser_beside fun _ => rfl
    exact h.beside ⟨hb.armed, hb.queue, hb.state, hb.workers⟩ (by rw [hm]; exact fun _ => id)
  | tick hm _ ht =>
    obtain ⟨fds, hticked⟩ := tickServer_retimed ht
    have hb : Beside s _ fd := hticked.beside
    exact h.beside ⟨hb.armed, hb.queue, hb.state, hb.workers⟩ fun e he => absurd he List.not_mem_nil
  | idle hm => exact h.goTo fun e he => absurd he List.not_mem_nil

end Main

section Worker

variable {i : ℕ} {w : Worker}

lemma HasAnswer.work {w' : Option Worker} (h : HasAnswer cfg s fd) (ht : t.workers = Function.update s.workers i w')
    (ha : t.armed fd = s.armed fd ∨ t.armed fd = none ∨ t.armed fd = some .output) (hm : t.main = s.main)
    (hq : ∀ k ∈ t.queue, k ∈ s.queue) (hu : (t.users fd).state = (s.users fd).state)
    (hw' : ∀ v, w' = some v → v.fd = fd → AfterAnswer cfg (s.users fd) v) : HasAnswer cfg t fd := by
  refine ⟨?_, hm ▸ h.batch, fun hin => hu ▸ h.queue (hq fd hin), fun j v hv hfd => ?_⟩
  · rcases ha with ha | ha | ha <;> rw [ha]
    · exact h.armed
    · exact (Option.some_ne_none _).symm
    · decide
  · refine afterAnswer_congr ?_ hu
    rw [ht] at hv
    by_cases hj : j = i
    · subst hj
      rw [Function.update_self] at hv
      exact hw' v hv hfd
    · rw [Function.update_of_ne hj] at hv
      exact h.worker j v hv hfd

lemma setUser_state {k : ℕ} {v : User} (hv : v.state = (s.users k).state) :
    ((s.setUser k v).users fd).state = (s.users fd).state := (setUser_beside fun _ => hv).state

lemma HasAnswer.step_worker (h : HasAnswer cfg s fd) (hsolo : Solo s) (hs : Step cfg s (.worker i) t) :
    HasAnswer cfg t fd := by
  cases hs with
  | @dequeue _ k queue hw hq =>
    refine h.work rfl (.inl rfl) rfl (fun j hj => hq ▸ List.mem_cons_of_mem k hj) rfl ?_
    rintro _ ⟨⟩ hk
    exact h.queue (hq ▸ (show k = fd from hk) ▸ List.mem_cons_self)
  | process hw hr =>
    refine h.work rfl (.inl rfl) rfl (fun _ => id) rfl ?_
    rintro _ ⟨⟩ hk
    exact absurd hr (by rw [(h.worker _ _ hw hk).1]; decide)
  | read io hw hr hstate =>
    refine h.work rfl (.inl rfl) rfl (fun _ => id) (setUser_state rfl) ?_
    rintro _ ⟨⟩ hk
    exact absurd ((show _ = fd from hk) ▸ hstate) (h.worker _ _ hw hk).2
  | write ok hw =>
    refine h.work rfl (.inl rfl) rfl (fun _ => id) rfl ?_
    rintro _ ⟨⟩ hk
    rfl
  | @flag _ k isRead ok hw =>
    refine h.work rfl (.inl rfl) rfl (fun _ => id) (setUser_state rfl) fun v hv hk => ?_
    cases ok with
    | false =>
      cases hv
      trivial
    | true =>
      cases isRead with
      | false => cases hv
      | true =>
        cases hv
        exact absurd (h.worker _ _ hw hk) Bool.noConfusion
  | fail hw =>
    refine h.work rfl (.inl rfl) rfl (fun _ => id) (setUser_state rfl) ?_
    rintro _ ⟨⟩
  | @parse _ k _ _ _ stat hw hp hr =>
    have hk : k ≠ fd := fun hk => h.worker _ _ hw hk
    obtain ⟨-, hv⟩ := afterRead_worker hr (hsolo.stage i _ hw)
    refine h.work rfl (.inl rfl) rfl (fun _ => id) (setUser_beside fun he => absurd he hk).state ?_
    rintro _ ⟨⟩ hfd
    exact absurd (hv.1.symm.trans hfd) hk
  | @answer _ k ret hw =>
    have hk : k ≠ fd := fun hk => h.worker _ _ hw hk
    obtain ⟨-, hv⟩ := afterWrite_worker (s.users k) ret (hsolo.stage i _ hw)
    refine h.work rfl (.inl rfl) rfl (fun _ => id) (setUser_beside fun he => absurd he hk).state ?_
    rintro _ ⟨⟩ hfd
    exact absurd (hv.1.symm.trans hfd) hk
  | closed hw | discount hw =>
    refine h.work rfl (.inl rfl) rfl (fun _ => id) rfl ?_
    rintro _ ⟨⟩ hk
    rfl
  | @close _ k j hw hj =>
    refine h.work rfl ?_ rfl (fun _ => id) rfl ?_
    · change Function.update s.armed j none fd = _ ∨ Function.update s.armed j none fd = none ∨ _
      by_cases hfd : fd = j
      · subst hfd
        exact .inr (.inl (Function.update_self _ _ _))
      · exact .inl (Function.update_of_ne hfd _ _)
    · rintro _ ⟨⟩ hk
      trivial
  | reset hw =>
    refine h.work rfl (.inl rfl) rfl (fun _ => id) (setUser_state rfl) ?_
    rintro _ ⟨⟩ hk
    trivial
  | @rearm _ k interest hw =>
    by_cases ho : k ∈ s.opened
    · have hmod : modfd s interest (s.users k).sockfd =
          { s with armed := Function.update s.armed k (some interest) } := by
        rw [hsolo.socket k ho]
        exact if_pos ho
      rw [hmod]
      refine h.work (show _ = Function.update s.workers i none from rfl) ?_ rfl (fun _ => id) rfl ?_
      · change Function.update s.armed k (some interest) fd = s.armed fd ∨ _ ∨
          Function.update s.armed k (some interest) fd = some .output
        by_cases hk : k = fd
        · subst hk
          obtain rfl : interest = .output := h.worker _ _ hw rfl
          exact .inr (.inr (Function.update_self _ _ _))
        · exact .inl (Function.update_of_ne (Ne.symm hk) _ _)
      · rintro _ ⟨⟩
    · have hnone : (s.users k).sockfd = none := (hsolo.stage i _ hw).resolve_left ho
      rw [hnone]
      refine h.work (show _ = Function.update s.workers i none from rfl) (.inl rfl) rfl (fun _ => id) rfl ?_
      rintro _ ⟨⟩

lemma hasAnswer_of_answer {ret : HttpCode} (h : Solo s) (hw : s.workers i = some (.writing fd ret))
    (hs : Step cfg s (.worker i) t) : HasAnswer cfg t fd := by
  have hhand : s.InHand fd := ⟨i, _, hw, rfl⟩
  have ho : fd ∈ s.opened := h.stage i _ hw
  cases hs with
  | @answer _ k r hw' =>
    cases hw.symm.trans hw'
    have hnone : s.armed fd = none := by
      by_contra hne
      exact (h.armed fd hne).2 hhand
    have htok : fd ∉ s.tokens := fun hin => (h.waits fd hin).2.2 hhand
    refine ⟨?_, fun hb => htok ?_, fun hq => absurd (List.mem_append_right _ hq) htok, fun j v hv hfd => ?_⟩
    · change s.armed fd ≠ _
      rw [hnone]
      exact (Option.some_ne_none _).symm
    · exact List.mem_append_left _ (List.mem_filterMap.mpr ⟨_, hb, rfl⟩)
    · change Function.update s.workers i _ j = some v at hv
      by_cases hj : j = i
      · subst hj
        rw [Function.update_self] at hv
        cases hv
        rw [afterWrite]
        split
        · exact rfl
        · trivial
      · rw [Function.update_of_ne hj] at hv
        exact absurd (h.single j i v _ hv hw hfd) hj
  | _ => rename_i hw'; cases hw.symm.trans hw'

end Worker

lemma HasAnswer.step {a : Actor} (h : HasAnswer cfg s fd) (hsolo : Solo s) (ho : fd ∈ s.opened) (hs : Step cfg s a t) :
    HasAnswer cfg t fd := by
  cases a with
  | clock =>
    cases hs with
    | clock => exact ⟨h.armed, h.batch, h.queue, h.worker⟩
  | main => exact h.main ho hs
  | worker i => exact h.step_worker hsolo hs

/-- In every careful run `process_write` runs at most once for a connection: as long as the connection stays open no
worker parses or answers for it again, and its descriptor is not registered for input. -/
theorem one_answer {slots : ℕ → Slot} {users : ℕ → User} {now : ℤ} {u : WebServer} {i : ℕ} {ret : HttpCode}
    (h : Reachable (CarefulStep cfg) (.start slots users now) s) (hw : s.workers i = some (.writing fd ret))
    (hs : CarefulStep cfg s (.worker i) t) (h' : Runs (CarefulStep cfg) (fun v _ => fd ∈ v.opened) t u) :
    u.armed fd ≠ some .input ∧
      ∀ j, u.workers j ≠ some (.reading fd) ∧ ∀ ret', u.workers j ≠ some (.writing fd ret') := by
  have hsolo : Solo s := h.invariant (solo_start slots users now) fun s a t hs _ hstep => step_solo s a t hs hstep
  have hu : Solo u ∧ HasAnswer cfg u fd := by
    refine h'.invariant (I := fun v => Solo v ∧ HasAnswer cfg v fd)
      ⟨step_solo s _ t hsolo hs, hasAnswer_of_answer hsolo hw hs.1⟩ ?_
    intro v a v' hv ho hstep
    exact ⟨step_solo v a v' hv.1 hstep, hv.2.step hv.1 ho hstep.1⟩
  refine ⟨hu.2.armed, fun j => ⟨fun hj => hu.2.worker j _ hj rfl, fun ret' hj => hu.2.worker j _ hj rfl⟩⟩

lemma deliver_write (ho : fd ∈ s.opened) (ha : s.armed fd = some .output) : Deliverable s [.writable fd] :=
  ⟨List.nodup_singleton _, by simp [ho, ha]⟩

lemma openRun_of_step {a : Actor} (_ : CarefulStep cfg s a t) : Runs (CarefulStep cfg) (fun v _ => fd ∈ v.opened) t t :=
  .refl

lemma open_tail {u : WebServer} {a : Actor} (h : Runs (CarefulStep cfg) (fun v _ => fd ∈ v.opened) s t)
    (hs : CarefulStep cfg t a u) (ho : fd ∈ t.opened) : Runs (CarefulStep cfg) (fun v _ => fd ∈ v.opened) s u :=
  .tail h ho hs

theorem one_answer_written : ∃ s t u, Reachable (CarefulStep proactor) launch s ∧
    s.workers 0 = some (.writing 7 .fileRequest) ∧ CarefulStep proactor s (.worker 0) t ∧
    Runs (CarefulStep proactor) (fun v _ => 7 ∈ v.opened) t u ∧ 7 ∈ u.opened ∧ u.main = .handling [.writable 7] ∧
    u.armed 7 ≠ some .input ∧
      ∀ j, u.workers j ≠ some (.reading 7) ∧ ∀ ret', u.workers j ≠ some (.writing 7 ret') := by
  have h : Reachable (CarefulStep proactor) launch _ :=
    .go (run_careful getFile) ⟨.parse (i := 0) (.found true false 10) rfl rfl rfl, .same rfl⟩
  obtain ⟨h, ha, -⟩ := h.follow (⟨.answer (i := 0) rfl, .same rfl⟩ : CarefulStep proactor _ (.worker 0) _)
  have r₁ := open_tail (openRun_of_step ha) (⟨.rearm (i := 0) rfl, .same rfl⟩ : CarefulStep proactor _ (.worker 0) _)
    List.mem_cons_self
  have hrun := open_tail r₁ (⟨.wait [.writable 7] rfl rfl (deliver_write (by decide) rfl), .same rfl⟩ :
    CarefulStep proactor _ .main _) List.mem_cons_self
  exact ⟨_, _, _, h, rfl, ha, hrun, List.mem_cons_self, rfl, one_answer h rfl ha hrun⟩

end OceanServer.Server
