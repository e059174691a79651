import OceanServer.Server.Model
import OceanServer.Timer.Runs

/-! As long as no worker closes a connection, the timer list, the slots, the open descriptors and the
count agree. -/

namespace OceanServer.Server

open Library Library.LinkedHeap Http Timer

structure Linked (s : WebServer) (xs : List (ℕ × UtilTimer)) : Prop where
  owner : ∀ e ∈ xs, e.2.userData ∈ s.opened ∧ s.slots e.2.userData = ⟨e.2.userData, some e.1⟩ ∧
    e.2.expire = s.touched e.2.userData + 3 * timeslot
  timed : ∀ fd ∈ s.opened, ∃ e ∈ xs, e.2.userData = fd
  nodup : s.opened.Nodup
  count : s.userCount = s.opened.length
  past : ∀ fd ∈ s.opened, s.touched fd ≤ s.now

structure Good (s : WebServer) (xs : List (ℕ × UtilTimer)) : Prop where
  shape : Represents s.timers xs
  sorted : Sorted xs
  linked : Linked s xs

structure SameCore (s t : WebServer) : Prop where
  timers : t.timers = s.timers
  slots : t.slots = s.slots
  opened : t.opened = s.opened
  touched : t.touched = s.touched
  userCount : t.userCount = s.userCount
  now : t.now = s.now

section Core

variable {s t : WebServer} {xs ys : List (ℕ × UtilTimer)} {fd p : ℕ} {v : UtilTimer}

lemma Linked.same (h : Linked s xs) (hc : SameCore s t) : Linked t xs := by
  obtain ⟨-, hsl, ho, ht, hu, hn⟩ := hc
  refine ⟨?_, ?_, ?_, ?_, ?_⟩
  · rw [hsl, ho, ht]
    exact h.owner
  · rw [ho]
    exact h.timed
  · rw [ho]
    exact h.nodup
  · rw [hu, ho]
    exact h.count
  · rw [ho, ht, hn]
    exact h.past

lemma Good.same (h : Good s xs) (hc : SameCore s t) : Good t xs :=
  ⟨hc.timers ▸ h.shape, h.sorted, h.linked.same hc⟩

lemma Linked.perm (h : Linked s xs) (hp : xs.Perm ys) : Linked s ys where
  owner e he := h.owner e (hp.mem_iff.mpr he)
  timed fd hfd := by
    obtain ⟨e, he, hu⟩ := h.timed fd hfd
    exact ⟨e, hp.mem_iff.mp he, hu⟩
  nodup := h.nodup
  count := h.count
  past := h.past

lemma Linked.other (h : Linked s ((p, v) :: xs)) (hp : p ∉ addrs xs) {e : ℕ × UtilTimer} (he : e ∈ xs) :
    e.2.userData ≠ v.userData := by
  intro hu
  obtain ⟨-, hs, -⟩ := h.owner e (List.mem_cons_of_mem _ he)
  obtain ⟨-, hs', -⟩ := h.owner (p, v) List.mem_cons_self
  rw [hu, hs'] at hs
  obtain rfl : p = e.1 := by simpa using hs
  exact hp (List.mem_map.mpr ⟨e, he, rfl⟩)

lemma Linked.close (h : Linked s ((p, v) :: xs)) (hp : p ∉ addrs xs) :
    Linked (cbFunc s v.userData) xs ∧ (cbFunc s v.userData).opened = s.opened.erase v.userData := by
  obtain ⟨hopen, hslot, -⟩ := h.owner (p, v) List.mem_cons_self
  have hfd : (s.slots v.userData).sockfd = v.userData := by rw [hslot]
  have ho : (cbFunc s v.userData).opened = s.opened.erase v.userData := congrArg s.opened.erase hfd
  have hmem : ∀ {fd}, fd ∈ (cbFunc s v.userData).opened ↔ fd ≠ v.userData ∧ fd ∈ s.opened := by
    intro fd
    rw [ho]
    exact h.nodup.mem_erase_iff
  refine ⟨⟨fun e he => ?_, fun fd hf => ?_, ?_, ?_, fun fd hf => h.past fd (hmem.mp hf).2⟩, ho⟩
  · obtain ⟨heo, hes, het⟩ := h.owner e (List.mem_cons_of_mem _ he)
    exact ⟨hmem.mpr ⟨h.other hp he, heo⟩, hes, het⟩
  · obtain ⟨hne, hf⟩ := hmem.mp hf
    obtain ⟨e, he, rfl⟩ := h.timed fd hf
    rcases List.mem_cons.mp he with rfl | he
    · exact absurd rfl hne
    · exact ⟨e, he, rfl⟩
  · rw [ho]
    exact h.nodup.erase _
  · have hlen := List.length_erase_of_mem hopen
    have hpos := List.length_pos_of_mem hopen
    change s.userCount - 1 = _
    rw [ho, hlen, h.count]
    omega

lemma Good.entry (h : Good s xs) (hfd : fd ∈ s.opened) :
    ∃ us p v ws, xs = us ++ (p, v) :: ws ∧ v.userData = fd ∧ s.slots fd = ⟨fd, some p⟩ ∧
      p ∉ addrs (us ++ ws) := by
  obtain ⟨⟨p, v⟩, he, rfl⟩ := h.linked.timed fd hfd
  obtain ⟨us, ws, rfl⟩ := List.append_of_mem he
  refine ⟨us, p, v, ws, rfl, rfl, (h.linked.owner _ he).2.1, ?_⟩
  have hn := h.shape.nodup
  rw [addrs_append, addrs_cons, List.nodup_middle, ← addrs_append] at hn
  exact (List.nodup_cons.mp hn).1

lemma dealTimer_good (h : Good s xs) (hfd : fd ∈ s.opened) :
    ∃ t ys, dealTimer s fd (s.slots fd).timer = some t ∧ Good t ys ∧ t.opened = s.opened.erase fd ∧
      t.slots = s.slots ∧ t.workers = s.workers ∧ t.users = s.users := by
  obtain ⟨us, p, v, ws, rfl, rfl, hslot, hp⟩ := h.entry hfd
  obtain ⟨l, hl, hr⟩ := delTimer_spec h.shape
  obtain ⟨hlink, ho⟩ := (h.linked.perm List.perm_middle).close hp
  refine ⟨{ cbFunc s v.userData with timers := l }, us ++ ws, ?_, ⟨hr, ?_, ?_⟩, ho, rfl, rfl, rfl⟩
  · have hl' : delTimer (cbFunc s v.userData).timers (some p) = some l := hl
    simp only [dealTimer, hslot, h.shape.chain.cell_eq, Option.bind_eq_bind, Option.bind_some, hl']
  · exact h.sorted.sublist ((List.sublist_cons_self _ _).append_left us)
  · exact ⟨hlink.owner, hlink.timed, hlink.nodup, hlink.count, hlink.past⟩

lemma adjust_good (h : Good s xs) (hfd : fd ∈ s.opened) :
    ∃ t ys, adjust s fd (s.slots fd).timer = some t ∧ Good t ys ∧ t.opened = s.opened ∧
      t.slots = s.slots ∧ t.workers = s.workers ∧ t.main = s.main ∧ t.queue = s.queue ∧ t.users = s.users := by
  obtain ⟨us, p, v, ws, rfl, rfl, hslot, hp⟩ := h.entry hfd
  obtain ⟨-, -, hexp⟩ := h.linked.owner (p, v) (by simp)
  have hpast := h.linked.past _ hfd
  obtain ⟨l₁, hl₁, hr₁⟩ := setExpire_spec h.shape (s.now + 3 * timeslot)
  obtain ⟨l, hl, hr⟩ := adjustTimer_spec hr₁
  refine ⟨{ s with timers := l, touched := Function.update s.touched v.userData s.now }, _, ?_,
    ⟨hr, adjust_sorted h.sorted ?_, ?_⟩, rfl, rfl, rfl, rfl, rfl, rfl⟩
  · simp only [adjust, hslot, hl₁, hl, Option.bind_eq_bind, Option.bind_some]
  · dsimp only at hexp
    omega
  · have hlink := h.linked.perm List.perm_middle
    have hperm : (us ++ insertTimer (p, { v with expire := s.now + 3 * timeslot }) ws).Perm
        ((p, { v with expire := s.now + 3 * timeslot }) :: (us ++ ws)) :=
      ((insertTimer_perm _ ws).append_left us).trans List.perm_middle
    refine Linked.perm ⟨fun e he => ?_, fun fd hf => ?_, hlink.nodup, hlink.count, fun fd hf => ?_⟩ hperm.symm
    · rcases List.mem_cons.mp he with rfl | he
      · exact ⟨hfd, hslot, by simp⟩
      · obtain ⟨heo, hes, het⟩ := hlink.owner e (List.mem_cons_of_mem _ he)
        refine ⟨heo, hes, ?_⟩
        dsimp only
        rwa [Function.update_of_ne (hlink.other hp he)]
    · obtain ⟨e, he, rfl⟩ := hlink.timed fd hf
      rcases List.mem_cons.mp he with rfl | he
      · exact ⟨_, List.mem_cons_self, rfl⟩
      · exact ⟨e, List.mem_cons_of_mem _ he, rfl⟩
    · dsimp only
      by_cases hne : fd = v.userData
      · rw [hne, Function.update_self]
      · rw [Function.update_of_ne hne]
        exact hlink.past fd hf

lemma startTimer_good (h : Good s xs) (hfd : fd ∉ s.opened) (hp : s.timers.heap.cell p = none) :
    ∃ t ys, startTimer s fd p = some t ∧ Good t ys ∧ t.opened = fd :: s.opened ∧
      t.workers = s.workers := by
  have hne : ∀ {k}, k ∈ s.opened → k ≠ fd := fun hk he => hfd (he ▸ hk)
  obtain ⟨l, hl, hr⟩ := addTimer_spec (v := ⟨s.now + 3 * timeslot, fd⟩) h.shape hp
  refine ⟨enroll s fd p l, insertTimer (p, ⟨s.now + 3 * timeslot, fd⟩) xs,
    by rw [startTimer, hl, Option.map_some], ⟨hr, insertTimer_sorted _ h.sorted, ?_⟩, rfl, rfl⟩
  refine Linked.perm ⟨fun e he => ?_, fun k hk => ?_, List.nodup_cons.mpr ⟨hfd, h.linked.nodup⟩, ?_,
    fun k hk => ?_⟩ (insertTimer_perm _ xs).symm
  · rcases List.mem_cons.mp he with rfl | he
    · simp [enroll]
    · obtain ⟨heo, hes, het⟩ := h.linked.owner e he
      dsimp only [enroll]
      rw [Function.update_of_ne (hne heo), Function.update_of_ne (hne heo)]
      exact ⟨List.mem_cons_of_mem _ heo, hes, het⟩
  · rcases List.mem_cons.mp hk with rfl | hk
    · exact ⟨_, List.mem_cons_self, rfl⟩
    · obtain ⟨e, he, hu⟩ := h.linked.timed k hk
      exact ⟨e, List.mem_cons_of_mem _ he, hu⟩
  · simp [enroll, h.linked.count]
  · dsimp only [enroll]
    rcases List.mem_cons.mp hk with rfl | hk
    · rw [Function.update_self]
    · rw [Function.update_of_ne (hne hk)]
      exact h.linked.past k hk

lemma closes_linked {fs : List (ℕ × UtilTimer)} (h : Linked s (fs ++ xs)) (hn : (addrs (fs ++ xs)).Nodup) :
    Linked (fs.foldl (fun s e => cbFunc s e.2.userData) s) xs := by
  induction fs generalizing s with
  | nil => exact h
  | cons f fs ih =>
    obtain ⟨hf, hn⟩ := List.nodup_cons.mp hn
    exact ih (Linked.close (p := f.1) (v := f.2) h hf).1 hn

lemma tickServer_good (h : Good s xs) :
    ∃ t ys, tickServer s = some t ∧ Good t ys ∧ t.workers = s.workers := by
  obtain ⟨l, hl, hr⟩ := tick_spec h.shape s.now
  have hsplit := List.takeWhile_append_dropWhile (p := fun e : ℕ × UtilTimer => decide (e.2.expire ≤ s.now))
    (l := xs)
  have hlink : Linked { s with timers := l } xs :=
    ⟨h.linked.owner, h.linked.timed, h.linked.nodup, h.linked.count, h.linked.past⟩
  have hn := h.shape.nodup
  rw [← hsplit] at hlink hn
  have hrest := closes_linked hlink hn
  refine ⟨_, _, by rw [tickServer, hl, Option.bind_eq_bind, Option.bind_some], ⟨?_, ?_, hrest⟩, ?_⟩
  · rw [closes_retime]
    exact hr
  · exact h.sorted.sublist (List.dropWhile_sublist _)
  · rw [closes_retime]
    rfl

end Core

def BatchOk (s : WebServer) (batch : List Ready) : Prop :=
  (batch.filterMap Ready.fd).Nodup ∧ ∀ fd ∈ batch.filterMap Ready.fd, fd ∈ s.opened

def MainOk (s : WebServer) : Main → Prop
  | .waiting | .stopped => True
  | .handling batch | .clearing _ batch => BatchOk s batch
  | .polling fd timer batch | .testing fd timer batch =>
    fd ∈ s.opened ∧ timer = (s.slots fd).timer ∧ BatchOk s batch ∧ fd ∉ batch.filterMap Ready.fd

def Worker.Closes : Worker → Prop
  | .closing _ | .resetting _ | .discounting _ => True
  | _ => False

structure Inv (s : WebServer) : Prop where
  good : ∃ xs, Good s xs
  main : MainOk s s.main
  workers : ∀ i w, s.workers i = some w → ¬ w.Closes

def Answers (s : WebServer) : Actor → Prop
  | .worker i => ∀ fd ret, s.workers i = some (.writing fd ret) →
    Answered (s.users fd).write (s.users fd).read.linger (s.users fd).fileSize ret
  | _ => True

section Step

variable {s t : WebServer} {batch : List Ready} {fd : ℕ}

lemma inv_start (slots : ℕ → Slot) (users : ℕ → User) (now : ℤ) : Inv (.start slots users now) where
  good := ⟨[], represents_empty, List.Pairwise.nil,
    fun _ he => (List.not_mem_nil he).elim, fun _ hf => (List.not_mem_nil hf).elim, List.nodup_nil, rfl,
    fun _ hf => (List.not_mem_nil hf).elim⟩
  main := trivial
  workers i w hw := by cases hw

lemma BatchOk.tail {e : Ready} (h : BatchOk s (e :: batch)) : BatchOk s batch := by
  cases he : e.fd with
  | none => simpa only [BatchOk, List.filterMap_cons_none he] using h
  | some fd =>
    rw [BatchOk, List.filterMap_cons_some he] at h
    exact ⟨(List.nodup_cons.mp h.1).2, fun k hk => h.2 k (List.mem_cons_of_mem _ hk)⟩

lemma BatchOk.head {e : Ready} (h : BatchOk s (e :: batch)) (he : e.fd = some fd) :
    fd ∈ s.opened ∧ fd ∉ batch.filterMap Ready.fd := by
  rw [BatchOk, List.filterMap_cons_some he] at h
  exact ⟨h.2 fd List.mem_cons_self, (List.nodup_cons.mp h.1).1⟩

lemma BatchOk.mono (h : BatchOk s batch) (ho : ∀ k ∈ s.opened, k ∈ t.opened) : BatchOk t batch :=
  ⟨h.1, fun k hk => ho k (h.2 k hk)⟩

lemma BatchOk.erase (h : BatchOk s batch) (hfd : fd ∉ batch.filterMap Ready.fd)
    (ho : t.opened = s.opened.erase fd) : BatchOk t batch := by
  refine ⟨h.1, fun k hk => ?_⟩
  rw [ho]
  exact (List.mem_erase_of_ne fun he : k = fd => hfd (he ▸ hk)).mpr (h.2 k hk)

lemma Inv.setWorker {i : ℕ} {w : Option Worker} (h : Inv s) (hc : SameCore s t) (hm : t.main = s.main)
    (ht : t.workers = Function.update s.workers i w) (hw : ∀ v, w = some v → ¬ v.Closes) : Inv t where
  good := by
    obtain ⟨xs, hg⟩ := h.good
    exact ⟨xs, hg.same hc⟩
  main := by
    have hmain := h.main
    rw [← hm] at hmain
    have ho := hc.opened
    have hs := hc.slots
    unfold MainOk BatchOk at hmain ⊢
    rw [ho, hs]
    exact hmain
  workers j v hv := by
    rw [ht] at hv
    by_cases hj : j = i
    · rw [hj, Function.update_self] at hv
      exact hw v hv
    · rw [Function.update_of_ne hj] at hv
      exact h.workers j v hv

lemma Inv.goTo (h : Inv s) (hc : SameCore s t) (hw : t.workers = s.workers) (hm : MainOk t t.main) : Inv t := by
  obtain ⟨xs, hg⟩ := h.good
  exact ⟨⟨xs, hg.same hc⟩, hm, by rw [hw]; exact h.workers⟩

lemma Inv.deal {m : Main} (h : Inv s) (hfd : fd ∈ s.opened) (ht : dealTimer s fd (s.slots fd).timer = some t)
    (hm : ∀ u : WebServer, u.opened = s.opened.erase fd → u.slots = s.slots → MainOk u m) :
    Inv (t.goTo m) := by
  obtain ⟨xs, hg⟩ := h.good
  obtain ⟨t', ys, ht', hg', ho, hsl, hw, -⟩ := dealTimer_good hg hfd
  obtain rfl : t' = t := Option.some.inj (ht'.symm.trans ht)
  exact ⟨⟨ys, hg'.same ⟨rfl, rfl, rfl, rfl, rfl, rfl⟩⟩, hm _ ho hsl, by
    change ∀ i w, t'.workers i = some w → _
    rw [hw]
    exact h.workers⟩

lemma append_same (cfg : Config) (s : WebServer) (fd k : ℕ) :
    SameCore s (append cfg s fd k) ∧ (append cfg s fd k).workers = s.workers := by
  unfold append
  split_ifs <;> exact ⟨⟨rfl, rfl, rfl, rfl, rfl, rfl⟩, rfl⟩

lemma appendP_same (cfg : Config) (s : WebServer) (fd : ℕ) :
    SameCore s (appendP cfg s fd) ∧ (appendP cfg s fd).workers = s.workers ∧
      (appendP cfg s fd).main = s.main := by
  unfold appendP
  split_ifs <;> exact ⟨⟨rfl, rfl, rfl, rfl, rfl, rfl⟩, rfl, rfl⟩

lemma Inv.adjusted {m : Main} (h : Inv s) (hfd : fd ∈ s.opened)
    (ht : adjust s fd (s.slots fd).timer = some t)
    (hm : ∀ u : WebServer, u.opened = s.opened → u.slots = s.slots → MainOk u m) :
    Inv (t.goTo m) := by
  obtain ⟨xs, hg⟩ := h.good
  obtain ⟨t', ys, ht', hg', ho, hsl, hw, -⟩ := adjust_good hg hfd
  obtain rfl : t' = t := Option.some.inj (ht'.symm.trans ht)
  refine ⟨⟨ys, hg'.same ⟨rfl, rfl, rfl, rfl, rfl, rfl⟩⟩, hm _ ho hsl, ?_⟩
  change ∀ i w, t'.workers i = some w → _
  rw [hw]
  exact h.workers

lemma BatchOk.same (h : BatchOk s batch) (ho : t.opened = s.opened) : BatchOk t batch :=
  h.mono fun _ hk => ho ▸ hk

lemma Inv.hand {cfg : Config} (k : ℕ) (h : Inv s) (hfd : fd ∈ s.opened)
    (ht : adjust s fd (s.slots fd).timer = some t) (hb : BatchOk s batch)
    (hn : fd ∉ batch.filterMap Ready.fd) :
    Inv ((append cfg t fd k).goTo (.polling fd (s.slots fd).timer batch)) := by
  have hp : Inv (t.goTo (.polling fd (s.slots fd).timer batch)) :=
    h.adjusted hfd ht fun u ho hsl => ⟨ho ▸ hfd, by rw [hsl], hb.same ho, hn⟩
  obtain ⟨hc, hw⟩ := append_same cfg t fd k
  obtain ⟨ho, htm, hbt, -⟩ := hp.main
  refine hp.goTo ⟨hc.timers, hc.slots, hc.opened, hc.touched, hc.userCount, hc.now⟩ hw ?_
  exact ⟨hc.opened ▸ ho, htm.trans (congrArg (fun f => (f fd).timer) hc.slots.symm), hbt.same hc.opened, hn⟩

lemma dealWithRead_inv {cfg : Config} {io : Io} (h : Inv s) (hm : s.main = .handling (.readable fd :: batch))
    (ht : dealWithRead cfg s fd io batch = some t) : Inv t := by
  have hb : BatchOk s (.readable fd :: batch) := by
    have hmain := h.main
    rwa [hm] at hmain
  obtain ⟨hfd, hn⟩ := hb.head rfl
  have h' : Inv (s.setUser fd { s.users fd with read := io.read }) :=
    h.goTo ⟨rfl, rfl, rfl, rfl, rfl, rfl⟩ rfl h.main
  unfold dealWithRead at ht
  by_cases hr : cfg.reactor = true
  · rw [if_pos hr] at ht
    obtain ⟨u, hu, ht⟩ := Option.bind_eq_some_iff.mp ht
    cases ht
    exact h.hand _ hfd hu hb.tail hn
  · rw [if_neg hr] at ht
    obtain ⟨u, hu, rfl⟩ := Option.map_eq_some_iff.mp ht
    by_cases hok : io.ok = true
    · rw [if_pos hok] at hu
      obtain ⟨hc, hw, hmain⟩ := appendP_same cfg (s.setUser fd { s.users fd with read := io.read }) fd
      have hq : Inv (appendP cfg (s.setUser fd { s.users fd with read := io.read }) fd) := by
        refine h'.goTo hc hw ?_
        rw [hmain]
        change MainOk _ s.main
        rw [hm]
        exact hb.same hc.opened
      refine hq.adjusted (hc.opened ▸ hfd) ?_ fun u ho _ => hb.tail.same (ho.trans hc.opened)
      rw [hc.slots]
      exact hu
    · rw [if_neg hok] at hu
      exact h'.deal hfd hu fun u ho _ => hb.tail.erase hn ho

lemma dealWithWrite_inv {cfg : Config} {io : Io} (h : Inv s) (hm : s.main = .handling (.writable fd :: batch))
    (ht : dealWithWrite cfg s fd io batch = some t) : Inv t := by
  have hb : BatchOk s (.writable fd :: batch) := by
    have hmain := h.main
    rwa [hm] at hmain
  obtain ⟨hfd, hn⟩ := hb.head rfl
  unfold dealWithWrite at ht
  by_cases hr : cfg.reactor = true
  · rw [if_pos hr] at ht
    obtain ⟨u, hu, ht⟩ := Option.bind_eq_some_iff.mp ht
    cases ht
    exact h.hand _ hfd hu hb.tail hn
  · rw [if_neg hr] at ht
    obtain ⟨u, hu, rfl⟩ := Option.map_eq_some_iff.mp ht
    by_cases hok : io.ok = true
    · rw [if_pos hok] at hu
      exact h.adjusted hfd hu fun u ho _ => hb.tail.same ho
    · rw [if_neg hok] at hu
      exact h.deal hfd hu fun u ho _ => hb.tail.erase hn ho

lemma Inv.handling (h : Inv s) (hm : s.main = .handling batch) : BatchOk s batch := by
  have hmain := h.main
  rwa [hm] at hmain

lemma modfd_same (s : WebServer) (interest : Interest) (fd : Option ℕ) :
    SameCore s (modfd s interest fd) ∧ (modfd s interest fd).workers = s.workers ∧
      (modfd s interest fd).main = s.main := by
  cases fd with
  | none => exact ⟨⟨rfl, rfl, rfl, rfl, rfl, rfl⟩, rfl, rfl⟩
  | some k =>
    simp only [modfd]
    split_ifs <;> exact ⟨⟨rfl, rfl, rfl, rfl, rfl, rfl⟩, rfl, rfl⟩

lemma afterRead_closes {u u' : User} {stat : FileStat} {leave : Leave} {w : Worker}
    (h : afterRead u fd stat leave = some (u', w)) : ¬ w.Closes := by
  rcases leave with ⟨code, c⟩ | ⟨origin, c⟩ | -
  · cases code <;> cases h <;> exact id
  · cases h
    exact id
  · cases h

lemma afterWrite_closes {u : User} {ret : HttpCode}
    (h : Answered u.write u.read.linger u.fileSize ret) : ¬ (afterWrite u fd ret).2.Closes := by
  have hp := (processWrite_fst u.write u.read.linger u.fileSize ret).mpr h
  unfold afterWrite
  split
  · exact id
  · rename_i hq
    rw [hq] at hp
    cases hp

lemma afterFlag_closes {isRead ok : Bool} : ∀ w, afterFlag fd isRead ok = some w → ¬ w.Closes := by
  intro w hw
  cases ok <;> cases isRead <;> cases hw <;> exact id

variable {cfg : Config}

lemma main_inv (h : Inv s) (hs : Step cfg s .main t) : Inv t := by
  cases hs with
  | wait batch hm _ hd =>
    refine h.goTo ⟨rfl, rfl, rfl, rfl, rfl, rfl⟩ rfl ⟨hd.1, fun fd hfd => ?_⟩
    obtain ⟨e, he, hef⟩ := List.mem_filterMap.mp hfd
    have hopen := hd.2 e he
    cases e with
    | listen | signals => cases hef
    | hangup k | readable k | writable k =>
      cases hef
      exact hopen.1
  | leave hm => exact h.goTo ⟨rfl, rfl, rfl, rfl, rfl, rfl⟩ rfl trivial
  | @accept t batch fd p hm hfd _ hp ht =>
    obtain ⟨xs, hg⟩ := h.good
    obtain ⟨t', ys, ht', hg', ho, hw⟩ := startTimer_good hg hfd hp
    obtain rfl : t' = t := Option.some.inj (ht'.symm.trans ht)
    have hb : ∀ {b}, BatchOk s b → BatchOk t' b := fun hb => hb.mono fun k hk => by
      rw [ho]
      exact List.mem_cons_of_mem _ hk
    refine ⟨⟨ys, hg'.same ⟨rfl, rfl, rfl, rfl, rfl, rfl⟩⟩, ?_, ?_⟩
    · have hbatch := h.handling hm
      split_ifs
      · exact hb hbatch
      · exact hb hbatch.tail
    · change ∀ i w, t'.workers i = some w → _
      rw [hw]
      exact h.workers
  | busy hm | acceptFail hm =>
    exact h.goTo ⟨rfl, rfl, rfl, rfl, rfl, rfl⟩ rfl (h.handling hm).tail
  | hangup hm ht =>
    obtain ⟨hfd, hn⟩ := (h.handling hm).head rfl
    exact h.deal hfd ht fun u ho _ => (h.handling hm).tail.erase hn ho
  | signals hm => exact h.goTo ⟨rfl, rfl, rfl, rfl, rfl, rfl⟩ rfl (h.handling hm).tail
  | readable io hm ht => exact dealWithRead_inv h hm ht
  | writable io hm ht => exact dealWithWrite_inv h hm ht
  | poll hm =>
    have hmain := h.main
    rw [hm] at hmain
    exact h.goTo ⟨rfl, rfl, rfl, rfl, rfl, rfl⟩ rfl hmain
  | @flagged t fd timer batch hm _ ht =>
    have hmain := h.main
    rw [hm] at hmain
    obtain ⟨hfd, rfl, hb, hn⟩ := hmain
    have hd : Inv (t.goTo (.clearing fd batch)) := h.deal hfd ht fun u ho _ => hb.erase hn ho
    exact hd.goTo ⟨rfl, rfl, rfl, rfl, rfl, rfl⟩ rfl hd.main
  | unflagged hm =>
    have hmain := h.main
    rw [hm] at hmain
    exact h.goTo ⟨rfl, rfl, rfl, rfl, rfl, rfl⟩ rfl hmain.2.2.1
  | clear hm =>
    have hmain := h.main
    rw [hm] at hmain
    exact h.goTo ⟨rfl, rfl, rfl, rfl, rfl, rfl⟩ rfl hmain
  | @tick t hm _ ht =>
    obtain ⟨xs, hg⟩ := h.good
    obtain ⟨t', ys, ht', hg', hw⟩ := tickServer_good hg
    obtain rfl : t' = t := Option.some.inj (ht'.symm.trans ht)
    refine ⟨⟨ys, hg'.same ⟨rfl, rfl, rfl, rfl, rfl, rfl⟩⟩, trivial, ?_⟩
    change ∀ i w, t'.workers i = some w → _
    rw [hw]
    exact h.workers
  | idle hm => exact h.goTo ⟨rfl, rfl, rfl, rfl, rfl, rfl⟩ rfl trivial

lemma worker_inv {i : ℕ} (h : Inv s) (ha : Answers s (.worker i)) (hs : Step cfg s (.worker i) t) : Inv t := by
  cases hs with
  | dequeue | process | read | write =>
    exact h.setWorker ⟨rfl, rfl, rfl, rfl, rfl, rfl⟩ rfl rfl fun v hv => by cases hv; exact id
  | flag => exact h.setWorker ⟨rfl, rfl, rfl, rfl, rfl, rfl⟩ rfl rfl afterFlag_closes
  | fail => exact h.setWorker ⟨rfl, rfl, rfl, rfl, rfl, rfl⟩ rfl rfl fun v hv => by cases hv
  | parse stat _ _ hr =>
    refine h.setWorker ⟨rfl, rfl, rfl, rfl, rfl, rfl⟩ rfl rfl fun v hv => ?_
    cases hv
    exact afterRead_closes hr
  | answer hw =>
    refine h.setWorker ⟨rfl, rfl, rfl, rfl, rfl, rfl⟩ rfl rfl fun v hv => ?_
    cases hv
    exact afterWrite_closes (ha _ _ hw)
  | closed hw | close hw | reset hw | discount hw => exact absurd trivial (h.workers _ _ hw)
  | @rearm _ fd interest hw =>
    obtain ⟨hc, hwk, hm⟩ := modfd_same s interest (s.users fd).sockfd
    refine h.setWorker (i := i) (w := none) ⟨hc.timers, hc.slots, hc.opened, hc.touched, hc.userCount, hc.now⟩ hm ?_
      fun v hv => by cases hv
    exact congrArg (fun f => Function.update f i none) hwk

lemma step_inv (s : WebServer) (a : Actor) (t : WebServer) (h : Inv s) (ha : Answers s a)
    (hs : Step cfg s a t) : Inv t := by
  cases a with
  | clock =>
    cases hs with
    | clock now hle =>
      obtain ⟨xs, hg⟩ := h.good
      refine ⟨⟨xs, hg.shape, hg.sorted, hg.linked.owner, hg.linked.timed, hg.linked.nodup, hg.linked.count,
        fun fd hfd => (hg.linked.past fd hfd).trans hle⟩, h.main, h.workers⟩
  | main => exact main_inv h hs
  | worker i => exact worker_inv h ha hs

end Step

end OceanServer.Server
