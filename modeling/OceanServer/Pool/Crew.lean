import OceanServer.Pool.SqlPool

/-! The workers of `threadpool::run` with the requests they have taken. Each gets a connection into
`request->mysql` through `connectionRAII`, runs `process`, and releases the connection. -/

namespace OceanServer.Pool

open Library

structure Crew (T α : Type*) where
  threads : Threads T α
  request : T → Option ℕ
  mysql : ℕ → Option α

namespace Crew

inductive Action (T : Type*) where
  | take (i : T) (r : ℕ)
  | go (i : T)

variable {T α : Type*}

def start (p : SqlConnectionPool α) (mysql : ℕ → Option α) : Crew T α := ⟨.start p, fun _ => none, mysql⟩

def Processes (s : Crew T α) (i : T) (r : ℕ) : Prop :=
  s.request i = some r ∧ ∃ con, s.threads.place i = .holding con

def Supplied (made : List (Option α)) (s : Crew T α) : Prop :=
  ∀ i r, s.Processes i r → ∃ con, s.mysql r = some con ∧ some con ∈ made ∧
    ∀ j, j ≠ i → s.threads.place j ≠ .holding (some con)

def Alone (s : Crew T α) : Action T → Prop
  | .take _ r => ∀ j, s.request j ≠ some r
  | .go _ => True

lemma alone_go (s : Crew T α) (i : T) : s.Alone (.go i) := trivial

section Served

variable [Fintype T] {all : List α} {n : ℕ} {s : Crew T α} {i : T}

structure Served (all : List α) (n : ℕ) (s : Crew T α) : Prop where
  kept : Kept all s.threads
  size : s.threads.pool.maxConn = n
  linked : ∀ i r con, s.request i = some r → s.threads.place i = .holding con → s.mysql r = con
  apart : ∀ i j r, s.request i = some r → s.request j = some r → i = j
  idle : ∀ i, s.request i = none → s.threads.place i = .outside
  supplied : ∀ i, s.threads.place i ≠ .holding none

lemma Served.not_empty (h : Served all n s) (hcard : Fintype.card T ≤ n) (hi : s.threads.place i = .outside) :
    s.threads.pool.connList.length ≠ 0 := by
  intro hempty
  have hlt : count Place.isHolding s.threads.place < Fintype.card T := count_lt (i := i) (by rw [hi]; rfl)
  have htotal := h.kept.total
  rw [h.kept.free, h.kept.cur, h.size, hempty] at htotal
  omega

lemma Served.supplied_made {made : List (Option α)} (h : Served all n s) (hall : all.map some = made) :
    Supplied made s := by
  rintro i r ⟨hr, con, hi⟩
  obtain ⟨c, rfl⟩ := Option.ne_none_iff_exists'.mp fun hnone => h.supplied i (hnone ▸ hi)
  have hheld : (Place.con ∘ s.threads.place) i = some c := Place.con_eq_some.mpr hi
  refine ⟨c, h.linked i r _ hr hi, ?_, fun j hji hj => ?_⟩
  · rw [← hall]
    exact List.mem_map_of_mem ((h.kept.shared.mem c).mpr (.inr ⟨i, hheld⟩))
  · exact hji (h.kept.shared.single j i c (Place.con_eq_some.mpr hj) hheld)

lemma served_start {made : List (Option α)} {m : ℤ} {p : SqlConnectionPool α} (mysql : ℕ → Option α)
    (hinit : init (.new m) made = some p) (hnd : made.Nodup) :
    Served p.connList made.length (start p mysql : Crew T α) where
  kept := kept_start hinit hnd
  size := (init_spec hinit).2.2.1
  linked := fun _ _ _ => nofun
  apart := fun _ _ _ => nofun
  idle := fun _ _ => rfl
  supplied := fun _ => nofun

end Served

section Taken

variable {p : SqlConnectionPool α} {mysql : ℕ → Option α}

structure Taken (n : ℕ) (ws : List T) (s : Crew T α) : Prop where
  outside : ∀ i, i ∉ ws → s.threads.place i = .outside ∧ s.request i = none
  numbered : ∀ i r, s.request i = some r → r < ws.length
  left : s.threads.pool.connList.length + ws.length = n
  reserve : s.threads.pool.reserve = s.threads.pool.connList.length

lemma taken_start {n : ℕ} (hl : p.connList.length = n) (hr : p.reserve = n) :
    Taken n [] (start p mysql : Crew T α) where
  outside := fun _ _ => ⟨rfl, rfl⟩
  numbered := fun _ _ => nofun
  left := hl
  reserve := hr.trans hl.symm

lemma exists_idle [Fintype T] {n : ℕ} (hcard : n < Fintype.card T) :
    ∃ ws : List T, ws.Nodup ∧ ws.length = n ∧ ∃ i, i ∉ ws := by
  obtain ⟨w, -, hw⟩ := Finset.exists_subset_card_eq (s := (Finset.univ : Finset T)) (n := n) hcard.le
  refine ⟨w.toList, w.nodup_toList, w.length_toList.trans hw, ?_⟩
  obtain ⟨i, -, hi⟩ := Finset.exists_mem_notMem_of_card_lt_card (s := w) (t := Finset.univ)
    (by rw [hw]; exact hcard)
  exact ⟨i, fun hmem => hi (Finset.mem_toList.mp hmem)⟩

end Taken

variable [DecidableEq T]

/-- The worker has moved on in the pool: `*SQL = GetConnection()` is done where it has its result, and
the next request can be taken where it is outside. -/
def after (s : Crew T α) (i : T) (r : ℕ) (t : Threads T α) : Crew T α :=
  match t.place i with
  | .holding con => { s with threads := t, mysql := Function.update s.mysql r con }
  | .outside => { s with threads := t, request := Function.update s.request i none }
  | .tested | .woken | .posting => { s with threads := t }

inductive Step : Crew T α → Action T → Crew T α → Prop
  | take {s i} (r : ℕ) : s.request i = none →
      Step s (.take i r) { s with request := Function.update s.request i (some r) }
  | go {s i r t} : s.request i = some r → Use s.threads i t → Step s (.go i) (s.after i r t)

section Steps

variable {s : Crew T α} {u t : Threads T α} {i j : T} {r : ℕ}

lemma use_place (h : Use u i t) (hj : j ≠ i) : t.place j = u.place j := by
  cases h <;> exact Function.update_of_ne hj _ _

lemma use_maxConn (h : Use u i t) : t.pool.maxConn = u.pool.maxConn := by
  cases h with
  | pop _ hp => exact (popFront_eq hp).2.2.1
  | _ => rfl

lemma use_holding_none (h : Use u i t) (ht : t.place i = .holding none) :
    u.place i = .outside ∧ u.pool.connList.length = 0 := by
  cases h with
  | test hi =>
    refine ⟨hi, ?_⟩
    by_contra hne
    cases ((Function.update_self i _ u.place).symm.trans ht).symm.trans (if_neg hne)
  | wait | pop | releaseNull | push | post => cases (Function.update_self i _ u.place).symm.trans ht

lemma after_threads : (s.after i r t).threads = t := by
  rw [after]
  split <;> rfl

lemma after_request_of_ne (hj : j ≠ i) : (s.after i r t).request j = s.request j := by
  rw [after]
  split
  · rfl
  · exact Function.update_of_ne hj _ _
  all_goals rfl

lemma after_mysql_of_ne {q : ℕ} (hq : q ≠ r) : (s.after i r t).mysql q = s.mysql q := by
  rw [after]
  split
  · exact Function.update_of_ne hq _ _
  all_goals rfl

lemma after_mysql {con : Option α} (ht : t.place i = .holding con) : (s.after i r t).mysql r = con := by
  rw [after, ht]
  exact Function.update_self r con s.mysql

lemma after_request {q : ℕ} (h : (s.after i r t).request i = some q) : s.request i = some q := by
  rw [after] at h
  split at h
  · exact h
  · cases (Function.update_self i none s.request).symm.trans h
  all_goals exact h

lemma after_idle (hr : s.request i = some r) (h : (s.after i r t).request i = none) : t.place i = .outside := by
  rw [after] at h
  split at h
  · cases hr.symm.trans h
  · assumption
  all_goals cases hr.symm.trans h

end Steps

section Enough

variable [Fintype T] {all : List α} {n : ℕ} {s : Crew T α} {i : T} {r : ℕ}

lemma Served.take (h : Served all n s) (hi : s.request i = none) (hr : ∀ j, s.request j ≠ some r) :
    Served all n { s with request := Function.update s.request i (some r) } := by
  have hcases : ∀ {j q}, Function.update s.request i (some r) j = some q →
      j = i ∧ r = q ∨ j ≠ i ∧ s.request j = some q := fun hj =>
    (update_eq_some.mp hj).imp_left fun ⟨hji, hq⟩ => ⟨hji, Option.some.inj hq⟩
  refine ⟨h.kept, h.size, fun j q con hj hcon => ?_, fun j k q hj hk => ?_, fun j hj => ?_, h.supplied⟩
  · obtain ⟨rfl, -⟩ | ⟨-, hj⟩ := hcases hj
    · cases (h.idle j hi).symm.trans hcon
    · exact h.linked j q con hj hcon
  · obtain ⟨rfl, rfl⟩ | ⟨-, hj⟩ := hcases hj
    · obtain ⟨hki, -⟩ | ⟨-, hk⟩ := hcases hk
      · exact hki.symm
      · exact absurd hk (hr k)
    · obtain ⟨-, rfl⟩ | ⟨-, hk⟩ := hcases hk
      · exact absurd hj (hr j)
      · exact h.apart j k q hj hk
  · by_cases hji : j = i
    · rw [hji]
      exact h.idle i hi
    · exact h.idle j ((Function.update_of_ne hji _ _).symm.trans hj)

lemma Served.go {t : Threads T α} (h : Served all n s) (hcard : Fintype.card T ≤ n) (hr : s.request i = some r)
    (hu : Use s.threads i t) : Served all n (s.after i r t) := by
  have hreq : ∀ {j q}, (s.after i r t).request j = some q → s.request j = some q := by
    intro j q hj
    by_cases hji : j = i
    · subst hji
      exact after_request hj
    · exact (after_request_of_ne hji).symm.trans hj
  refine ⟨?_, ?_, fun j q con hj hcon => ?_, fun j k q hj hk => h.apart j k q (hreq hj) (hreq hk),
    fun j hj => ?_, fun j hj => ?_⟩
  · rw [after_threads]
    exact use_kept s.threads i t h.kept hu
  · rw [after_threads, use_maxConn hu]
    exact h.size
  · rw [after_threads] at hcon
    have hq := hreq hj
    by_cases hji : j = i
    · subst hji
      cases hr.symm.trans hq
      exact after_mysql hcon
    · -- another worker has another request
      have hqr : q ≠ r := fun hqr => hji (h.apart j i r (hqr ▸ hq) hr)
      rw [after_mysql_of_ne hqr]
      exact h.linked j q con hq ((use_place hu hji).symm.trans hcon)
  · rw [after_threads]
    by_cases hji : j = i
    · subst hji
      exact after_idle hr hj
    · rw [use_place hu hji]
      exact h.idle j ((after_request_of_ne hji).symm.trans hj)
  · rw [after_threads] at hj
    by_cases hji : j = i
    · subst hji
      obtain ⟨hout, hempty⟩ := use_holding_none hu hj
      exact h.not_empty hcard hout hempty
    · exact h.supplied j ((use_place hu hji).symm.trans hj)

lemma step_served (hcard : Fintype.card T ≤ n) (s : Crew T α) (a : Action T) (t : Crew T α)
    (h : Served all n s) (ha : s.Alone a) (hs : Step s a t) : Served all n t := by
  cases hs with
  | take r hi => exact h.take hi ha
  | go hr hu => exact h.go hcard hr hu

end Enough

section Short

variable {p : SqlConnectionPool α} {mysql : ℕ → Option α} {s : Crew T α}

lemma popFront_cons {p : SqlConnectionPool α} {con : α} {rest : List α} (h : p.connList = con :: rest) :
    popFront p = some (con, { p with
      connList := rest, freeConn := p.freeConn - 1, curConn := p.curConn + 1 }) := by
  rw [popFront, h]

lemma goes {s₀ : Crew T α} {u t : Threads T α} {q : T → Option ℕ} {i : T} {r : ℕ}
    (hs : Runs Step Alone s₀ s) (hsu : s.threads = u) (hsq : s.request = q) (hr : q i = some r)
    (hu : Use u i t) (hout : t.place i ≠ .outside) :
    ∃ s', Runs Step Alone s₀ s' ∧ s'.threads = t ∧ s'.request = q := by
  subst hsu hsq
  refine ⟨s.after i r t, hs.tail (alone_go _ i) (.go hr hu), after_threads, ?_⟩
  rw [after]
  split
  · rfl
  · contradiction
  all_goals rfl

lemma Taken.next {n : ℕ} {ws : List T} {i : T} (h : Taken n ws s) (hs : Runs Step Alone (start p mysql) s)
    (hi : i ∉ ws) (hlt : ws.length < n) :
    ∃ t, Runs Step Alone (start p mysql) t ∧ Taken n (i :: ws) t := by
  obtain ⟨hout, hreq⟩ := h.outside i hi
  have hleft := h.left
  have hres := h.reserve
  obtain ⟨con, rest, hl⟩ := List.exists_cons_of_length_pos (l := s.threads.pool.connList) (by omega)
  have hne : s.threads.pool.connList.length ≠ 0 := by
    rw [hl]
    exact Nat.succ_ne_zero _
  have hfresh : s.Alone (.take i ws.length) := fun j hj => Nat.lt_irrefl _ (h.numbered j _ hj)
  have hr : Function.update s.request i (some ws.length) i = some ws.length := Function.update_self _ _ _
  have h₀ := hs.tail hfresh (.take ws.length hreq)
  obtain ⟨s₁, h₁, ht₁, hr₁⟩ := goes h₀ rfl rfl hr (.test hout) (by simp [Threads.goTo, hne])
  rw [if_neg hne] at ht₁
  obtain ⟨s₂, h₂, ht₂, hr₂⟩ := goes h₁ ht₁ hr₁ hr
    (.wait (Function.update_self _ _ _) (hres ▸ Nat.pos_of_ne_zero hne)) (by simp [Threads.goTo])
  obtain ⟨s₃, h₃, ht₃, hr₃⟩ := goes h₂ ht₂ hr₂ hr
    (.pop (Function.update_self _ _ _) (popFront_cons hl)) (by simp [Threads.goTo])
  refine ⟨s₃, h₃, fun j hj => ?_, fun j r hj => ?_, ?_, ?_⟩
  · obtain ⟨hji, hj⟩ := not_or.mp (mt List.mem_cons.mpr hj)
    rw [ht₃, hr₃]
    simpa [Threads.goTo, hji] using h.outside j hj
  · rw [hr₃] at hj
    rw [List.length_cons]
    obtain ⟨-, hr⟩ | ⟨-, hj⟩ := update_eq_some.mp hj
    · cases hr
      exact Nat.lt_succ_self _
    · exact (h.numbered j r hj).trans (Nat.lt_succ_self _)
  · rw [hl, List.length_cons] at hleft
    rw [ht₃, List.length_cons]
    change rest.length + (ws.length + 1) = n
    omega
  · rw [hl, List.length_cons] at hres
    rw [ht₃]
    change s.threads.pool.reserve - 1 = rest.length
    omega

lemma taken_all (mysql : ℕ → Option α) {n : ℕ} (hl : p.connList.length = n) (hr : p.reserve = n) (ws : List T) (hnd : ws.Nodup)
    (hle : ws.length ≤ n) : ∃ s, Runs Step Alone (start p mysql) s ∧ Taken n ws s := by
  induction ws with
  | nil => exact ⟨_, .refl, taken_start hl hr⟩
  | cons w ws ih =>
    obtain ⟨hw, hnd⟩ := List.nodup_cons.mp hnd
    rw [List.length_cons] at hle
    obtain ⟨s, hs, h⟩ := ih hnd (by omega)
    exact h.next hs hw (by omega)

lemma Taken.null {n : ℕ} {ws : List T} {i : T} (h : Taken n ws s) (hs : Runs Step Alone (start p mysql) s)
    (hn : ws.length = n) (hi : i ∉ ws) :
    ∃ t, Runs Step Alone (start p mysql) t ∧ t.Processes i n ∧ t.mysql n = none := by
  obtain ⟨hout, hreq⟩ := h.outside i hi
  have hleft := h.left
  have hempty : s.threads.pool.connList.length = 0 := by omega
  have hfresh : s.Alone (.take i n) := fun j hj => absurd (h.numbered j _ hj) (by omega)
  have h₀ := hs.tail hfresh (.take n hreq)
  have hr : Function.update s.request i (some n) i = some n := Function.update_self _ _ _
  have hgo : Step { s with request := Function.update s.request i (some n) } (.go i) _ := .go hr (.test hout)
  have h₁ := h₀.tail (alone_go _ i) hgo
  have hplace : (s.threads.goTo i (if s.threads.pool.connList.length = 0 then .holding none else .tested)).place i =
      .holding none := by
    rw [if_pos hempty]
    exact Function.update_self _ _ _
  refine ⟨_, h₁, ⟨?_, none, ?_⟩, after_mysql hplace⟩
  · rw [after, hplace]
    exact Function.update_self _ _ _
  · rw [after_threads]
    exact hplace

end Short

section Result

variable [Fintype T]

/-- With the connections that `init` has created and no request object with two workers at once: every
worker that processes a request has a connection of its own in every run just if there are not more workers
than connections. -/
theorem workers_supplied_iff {m : ℤ} {made : List (Option α)} {p : SqlConnectionPool α}
    (hinit : init (.new m) made = some p) (hnd : made.Nodup) (mysql : ℕ → Option α) :
    (∀ s : Crew T α, Runs Step Alone (start p mysql) s → Supplied made s) ↔ Fintype.card T ≤ made.length := by
  obtain ⟨hmade, hr, -⟩ := init_spec hinit
  constructor
  · intro h
    by_contra hlt
    have hl : p.connList.length = made.length := by rw [← hmade, List.length_map]
    obtain ⟨ws, hws, hlen, i, hi⟩ := exists_idle (T := T) (not_le.mp hlt)
    obtain ⟨s, hs, htaken⟩ := taken_all mysql hl hr ws hws hlen.le
    obtain ⟨t, ht, hproc, hnull⟩ := htaken.null hs hlen hi
    obtain ⟨con, hcon, -⟩ := h t ht i _ hproc
    cases hnull.symm.trans hcon
  · intro hcard s hs
    have hserved := hs.invariant (served_start mysql hinit hnd) (step_served hcard)
    exact hserved.supplied_made hmade

theorem workers_supplied_two :
    init (.new 0) [some 10, some 11] = some ⟨[10, 11], 2, 2, 0, 2⟩ ∧
    [some 10, some 11].Nodup ∧
    ∀ s : Crew Bool ℕ, Runs Step Alone (start ⟨[10, 11], 2, 2, 0, 2⟩ fun _ => none) s →
      Supplied [some 10, some 11] s := by
  have hinit : init (.new 0) [some 10, some 11] = some ⟨[10, 11], 2, 2, 0, 2⟩ := rfl
  have hnd : [some 10, some 11].Nodup := by decide
  have hcard : Fintype.card Bool ≤ [some 10, some 11].length := by decide
  exact ⟨hinit, hnd, (workers_supplied_iff hinit hnd _).mpr hcard⟩

theorem workers_supplied_one_connection :
    init (.new 0) [some 10] = some ⟨[10], 1, 1, 0, 1⟩ ∧
    ∃ s : Crew Bool ℕ, Runs Step Alone (start ⟨[10], 1, 1, 0, 1⟩ fun _ => none) s ∧
      s.threads.place true = .holding (some 10) ∧ s.Processes false 1 ∧ s.mysql 1 = none := by
  have hfree : (start ⟨[10], 1, 1, 0, 1⟩ fun _ => none : Crew Bool ℕ).Alone (.take true 0) := fun _ => nofun
  have h₁ := Runs.refl.tail hfree (Step.take 0 rfl)
  have h₂ := h₁.tail (alone_go _ true) (.go (r := 0) rfl (.test rfl))
  have h₃ := h₂.tail (alone_go _ true) (.go (r := 0) rfl (.wait rfl (by decide)))
  have h₄ := h₃.tail (alone_go _ true) (.go (r := 0) rfl (.pop rfl rfl))
  have h₅ := Runs.tail (a := .take false 1) h₄ (by intro j; cases j <;> decide) (.take 1 rfl)
  have h₆ := h₅.tail (alone_go _ false) (.go (r := 1) rfl (.test rfl))
  exact ⟨rfl, _, h₆, rfl, ⟨rfl, none, rfl⟩, rfl⟩

end Result

end Crew

end OceanServer.Pool
