import OceanServer.Timer.Shape

/-! Whole runs of the timer list, with the log of what happened to each timer. -/

namespace OceanServer.Timer

open Library.LinkedHeap

inductive Op where
  | add (p : ℕ) (t : UtilTimer)
  | adjust (p : ℕ) (expire : ℤ)
  | del (p : ℕ)
  | tick (cur : ℤ)

inductive Event where
  | added (p : ℕ) (expire : ℤ)
  | adjusted (p : ℕ) (expire : ℤ)
  | deleted (p : ℕ)
  | fired (p : ℕ) (cur : ℤ)

def exec (l : TimerList) : Op → Option (TimerList × List Event)
  | .add p t => (addTimer (l.new p t) (some p)).map (·, [.added p t.expire])
  | .adjust p expire => do
    let l ← l.setExpire p expire
    (adjustTimer l (some p)).map (·, [.adjusted p expire])
  | .del p => (delTimer l (some p)).map (·, [.deleted p])
  | .tick cur => (tick l cur).map fun r => (r.1, r.2.map fun e => .fired e.1 cur)

def Event.record (d : ℕ → Option ℤ) : Event → ℕ → Option ℤ
  | .added p expire => Function.update d p (some expire)
  | .adjusted p expire => Function.update d p (some expire)
  | .deleted p => Function.update d p none
  | .fired p _ => Function.update d p none

def deadline (log : List Event) : ℕ → Option ℤ := log.foldl Event.record fun _ => none

def Allowed (log : List Event) : Op → Prop
  | .add p _ => deadline log p = none
  | .adjust p expire => ∃ d, deadline log p = some d ∧ d ≤ expire
  | .del p => deadline log p ≠ none
  | .tick _ => True

inductive Run : TimerList → List Event → Prop
  | start : Run .empty []
  | step {l l' log evs} (op) : Run l log → Allowed log op → exec l op = some (l', evs) → Run l' (log ++ evs)

def Sorted (xs : List (ℕ × UtilTimer)) : Prop := xs.Pairwise fun a b => a.2.expire ≤ b.2.expire

lemma insertTimer_sorted {xs : List (ℕ × UtilTimer)} (e : ℕ × UtilTimer) (h : Sorted xs) :
    Sorted (insertTimer e xs) := by
  induction xs with
  | nil => exact List.pairwise_singleton _ _
  | cons f xs ih =>
    obtain ⟨hf, hxs⟩ := List.pairwise_cons.mp h
    by_cases hlt : e.2.expire < f.2.expire
    · rw [insertTimer_cons_lt hlt]
      refine List.pairwise_cons.mpr ⟨fun g hg => ?_, h⟩
      rcases List.mem_cons.mp hg with rfl | hg
      · exact hlt.le
      · exact hlt.le.trans (hf g hg)
    · rw [insertTimer_cons_le hlt]
      refine List.pairwise_cons.mpr ⟨fun g hg => ?_, ih hxs⟩
      rcases List.mem_cons.mp ((insertTimer_perm e xs).mem_iff.mp hg) with rfl | hg
      · exact not_lt.mp hlt
      · exact hf g hg

lemma adjust_sorted {xs ys : List (ℕ × UtilTimer)} {t : ℕ} {v : UtilTimer} {expire : ℤ}
    (h : Sorted (xs ++ (t, v) :: ys)) (he : v.expire ≤ expire) :
    Sorted (xs ++ insertTimer (t, { v with expire := expire }) ys) := by
  obtain ⟨hx, hy, hxy⟩ := List.pairwise_append.mp h
  refine List.pairwise_append.mpr ⟨hx, insertTimer_sorted _ (List.pairwise_cons.mp hy).2, fun a ha b hb => ?_⟩
  rcases List.mem_cons.mp ((insertTimer_perm _ ys).mem_iff.mp hb) with rfl | hb
  · exact (hxy a ha _ List.mem_cons_self).trans he
  · exact hxy a ha b (List.mem_cons_of_mem _ hb)

lemma Sorted.takeWhile_eq {xs : List (ℕ × UtilTimer)} (h : Sorted xs) (cur : ℤ) :
    (xs.takeWhile fun e => decide (e.2.expire ≤ cur)) = xs.filter (fun e => decide (e.2.expire ≤ cur)) ∧
      (xs.dropWhile fun e => decide (e.2.expire ≤ cur)) = xs.filter (fun e => decide (cur < e.2.expire)) := by
  induction xs with
  | nil => exact ⟨rfl, rfl⟩
  | cons e xs ih =>
    obtain ⟨he, hxs⟩ := List.pairwise_cons.mp h
    obtain ⟨ih₁, ih₂⟩ := ih hxs
    by_cases hle : e.2.expire ≤ cur
    · simp [hle, not_lt.mpr hle, ih₁, ih₂]
    · have hlt : ∀ f ∈ xs, cur < f.2.expire := fun f hf => (not_le.mp hle).trans_le (he f hf)
      have hnone : xs.filter (fun e => decide (e.2.expire ≤ cur)) = [] :=
        List.filter_eq_nil_iff.mpr fun f hf => by simpa using hlt f hf
      have hall : xs.filter (fun e => decide (cur < e.2.expire)) = xs :=
        List.filter_eq_self.mpr fun f hf => by simpa using hlt f hf
      simp [hle, not_le.mp hle, hnone, hall]

def Event.Legal (d : ℕ → Option ℤ) : Event → Prop
  | .added p _ => d p = none
  | .adjusted p expire => ∃ e, d p = some e ∧ e ≤ expire
  | .deleted p => d p ≠ none
  | .fired p cur => ∃ e, d p = some e ∧ e ≤ cur

def LegalFrom (d : ℕ → Option ℤ) : List Event → Prop
  | [] => True
  | ev :: evs => ev.Legal d ∧ LegalFrom (ev.record d) evs

lemma legalFrom_append {d : ℕ → Option ℤ} {evs evs' : List Event} :
    LegalFrom d (evs ++ evs') ↔ LegalFrom d evs ∧ LegalFrom (evs.foldl Event.record d) evs' := by
  induction evs generalizing d with
  | nil => simp [LegalFrom]
  | cons ev evs ih => simp [LegalFrom, ih, and_assoc]

def Agrees (d : ℕ → Option ℤ) (xs : List (ℕ × UtilTimer)) : Prop :=
  ∀ p e, d p = some e ↔ ∃ v, (p, v) ∈ xs ∧ v.expire = e

section Agreement

variable {d : ℕ → Option ℤ} {xs ys : List (ℕ × UtilTimer)} {p : ℕ} {v w : UtilTimer}

lemma Agrees.perm (h : Agrees d xs) (hp : xs.Perm ys) : Agrees d ys := by
  intro q e
  rw [h q e]
  simp only [hp.mem_iff]

lemma Agrees.none_iff (h : Agrees d xs) : d p = none ↔ p ∉ addrs xs := by
  rw [Option.eq_none_iff_forall_ne_some]
  constructor
  · intro hn hm
    obtain ⟨⟨q, v⟩, hv, rfl⟩ := List.mem_map.mp hm
    exact hn v.expire ((h q v.expire).mpr ⟨v, hv, rfl⟩)
  · intro hm e he
    obtain ⟨v, hv, -⟩ := (h p e).mp he
    exact hm (List.mem_map.mpr ⟨_, hv, rfl⟩)

lemma Agrees.unset (h : Agrees d ((p, v) :: xs)) (hp : p ∉ addrs xs) :
    Agrees (Function.update d p none) xs := by
  intro q e
  by_cases hq : q = p
  · subst hq
    rw [Function.update_self]
    constructor
    · intro hn
      cases hn
    · rintro ⟨w, hw, -⟩
      exact absurd (List.mem_map.mpr ⟨_, hw, rfl⟩) hp
  · rw [Function.update_of_ne hq, h q e]
    simp [hq]

lemma Agrees.set (h : Agrees d xs) (hp : p ∉ addrs xs) :
    Agrees (Function.update d p (some v.expire)) ((p, v) :: xs) := by
  intro q e
  by_cases hq : q = p
  · subst hq
    rw [Function.update_self, Option.some.injEq]
    constructor
    · exact fun he => ⟨v, List.mem_cons_self, he⟩
    · rintro ⟨w, hw, rfl⟩
      rcases List.mem_cons.mp hw with hw | hw
      · cases hw
        rfl
      · exact absurd (List.mem_map.mpr ⟨_, hw, rfl⟩) hp
  · rw [Function.update_of_ne hq, h q e]
    simp [hq]

lemma Agrees.reset (h : Agrees d ((p, w) :: xs)) (hp : p ∉ addrs xs) :
    Agrees (Function.update d p (some v.expire)) ((p, v) :: xs) := by
  have hs := (h.unset hp).set (v := v) hp
  rwa [Function.update_idem] at hs

end Agreement

structure Holds (l : TimerList) (log : List Event) (xs : List (ℕ × UtilTimer)) : Prop where
  shape : Represents l xs
  sorted : Sorted xs
  deadlines : Agrees (deadline log) xs

section Step

variable {l : TimerList} {log : List Event} {xs : List (ℕ × UtilTimer)}

lemma deadline_append (log evs : List Event) :
    deadline (log ++ evs) = evs.foldl Event.record (deadline log) := List.foldl_append

lemma Holds.fresh (h : Holds l log xs) {p : ℕ} (hp : deadline log p = none) : l.heap.cell p = none := by
  by_contra hs
  exact h.deadlines.none_iff.mp hp (h.shape.owned p (Option.isSome_iff_ne_none.mpr hs))

lemma Holds.split (h : Holds l log xs) {p : ℕ} {e : ℤ} (hp : deadline log p = some e) :
    ∃ us v ws, xs = us ++ (p, v) :: ws ∧ v.expire = e ∧ p ∉ addrs (us ++ ws) := by
  obtain ⟨v, hv, he⟩ := (h.deadlines p e).mp hp
  obtain ⟨us, ws, rfl⟩ := List.append_of_mem hv
  refine ⟨us, v, ws, rfl, he, ?_⟩
  have hn := h.shape.nodup
  rw [addrs_append, addrs_cons, List.nodup_middle, ← addrs_append] at hn
  exact (List.nodup_cons.mp hn).1

lemma Holds.add (h : Holds l log xs) {p : ℕ} {t : UtilTimer} (hp : deadline log p = none) :
    ∃ l', exec l (.add p t) = some (l', [.added p t.expire]) ∧
      Holds l' (log ++ [.added p t.expire]) (insertTimer (p, t) xs) := by
  obtain ⟨l', hl', hr⟩ := addTimer_spec (v := t) h.shape (h.fresh hp)
  refine ⟨l', by rw [exec, hl']; rfl, hr, insertTimer_sorted _ h.sorted, ?_⟩
  rw [deadline_append]
  exact (h.deadlines.set (h.deadlines.none_iff.mp hp)).perm (insertTimer_perm _ _).symm

lemma Holds.adjust (h : Holds l log xs) {p : ℕ} {e expire : ℤ} (hp : deadline log p = some e)
    (he : e ≤ expire) :
    ∃ l' us v ws, xs = us ++ (p, v) :: ws ∧
      exec l (.adjust p expire) = some (l', [.adjusted p expire]) ∧
      Holds l' (log ++ [.adjusted p expire]) (us ++ insertTimer (p, { v with expire := expire }) ws) := by
  obtain ⟨us, v, ws, rfl, rfl, hmem⟩ := h.split hp
  obtain ⟨l₁, hl₁, hr₁⟩ := setExpire_spec h.shape expire
  obtain ⟨l', hl', hr⟩ := adjustTimer_spec hr₁
  refine ⟨l', us, v, ws, rfl, ?_, hr, adjust_sorted h.sorted he, ?_⟩
  · simp only [exec, hl₁, Option.bind_eq_bind, Option.bind_some, hl', Option.map_some]
  · rw [deadline_append]
    refine ((h.deadlines.perm List.perm_middle).reset (v := { v with expire := expire }) hmem).perm ?_
    exact List.perm_middle.symm.trans ((insertTimer_perm _ ws).symm.append_left us)

lemma Holds.del (h : Holds l log xs) {p : ℕ} {e : ℤ} (hp : deadline log p = some e) :
    ∃ l' us v ws, xs = us ++ (p, v) :: ws ∧ exec l (.del p) = some (l', [.deleted p]) ∧
      Holds l' (log ++ [.deleted p]) (us ++ ws) := by
  obtain ⟨us, v, ws, rfl, -, hmem⟩ := h.split hp
  obtain ⟨l', hl', hr⟩ := delTimer_spec h.shape
  refine ⟨l', us, v, ws, rfl, by rw [exec, hl']; rfl, hr, ?_, ?_⟩
  · exact h.sorted.sublist ((List.sublist_cons_self _ _).append_left us)
  · rw [deadline_append]
    exact (h.deadlines.perm List.perm_middle).unset hmem

lemma Agrees.fire {d : ℕ → Option ℤ} {fs ys : List (ℕ × UtilTimer)} {cur : ℤ} (h : Agrees d (fs ++ ys))
    (hn : (addrs (fs ++ ys)).Nodup) (hf : ∀ e ∈ fs, e.2.expire ≤ cur) :
    Agrees ((fs.map fun e => Event.fired e.1 cur).foldl Event.record d) ys ∧
      LegalFrom d (fs.map fun e => Event.fired e.1 cur) := by
  induction fs generalizing d with
  | nil => exact ⟨h, trivial⟩
  | cons f fs ih =>
    obtain ⟨hmem, hn⟩ := List.nodup_cons.mp hn
    obtain ⟨hag, hleg⟩ := ih (Agrees.unset (p := f.1) (v := f.2) h hmem) hn fun e he =>
      hf e (List.mem_cons_of_mem _ he)
    refine ⟨hag, ⟨f.2.expire, (h f.1 _).mpr ⟨f.2, List.mem_cons_self, rfl⟩, hf f List.mem_cons_self⟩, hleg⟩

lemma Holds.tick (h : Holds l log xs) (cur : ℤ) :
    ∃ l', Timer.tick l cur = some (l', xs.filter fun e => decide (e.2.expire ≤ cur)) ∧
      LegalFrom (deadline log) ((xs.filter fun e => decide (e.2.expire ≤ cur)).map fun e => .fired e.1 cur) ∧
      Holds l' (log ++ (xs.filter fun e => decide (e.2.expire ≤ cur)).map fun e => .fired e.1 cur)
        (xs.filter fun e => decide (cur < e.2.expire)) := by
  obtain ⟨htake, hdrop⟩ := h.sorted.takeWhile_eq cur
  obtain ⟨l', hl', hr⟩ := tick_spec h.shape cur
  have hsplit := List.takeWhile_append_dropWhile (p := fun e : ℕ × UtilTimer => decide (e.2.expire ≤ cur)) (l := xs)
  rw [htake] at hl' hsplit
  rw [hdrop] at hr hsplit
  have hag := h.deadlines
  have hn := h.shape.nodup
  rw [← hsplit] at hag hn
  have hdue : ∀ e ∈ xs.filter fun e => decide (e.2.expire ≤ cur), e.2.expire ≤ cur := fun e he => by
    simpa using List.of_mem_filter he
  obtain ⟨hag', hleg⟩ := hag.fire hn hdue
  exact ⟨l', hl', hleg, hr, h.sorted.filter _, by rw [deadline_append]; exact hag'⟩

lemma exec_holds {op : Op} (h : Holds l log xs) (ha : Allowed log op) :
    ∃ l' evs xs', exec l op = some (l', evs) ∧ LegalFrom (deadline log) evs ∧ Holds l' (log ++ evs) xs' := by
  cases op with
  | add p t =>
    obtain ⟨l', he, hh⟩ := h.add (t := t) ha
    exact ⟨l', _, _, he, ⟨ha, trivial⟩, hh⟩
  | adjust p expire =>
    obtain ⟨e, hp, hle⟩ := ha
    obtain ⟨l', us, v, ws, -, he, hh⟩ := h.adjust hp hle
    exact ⟨l', _, _, he, ⟨⟨e, hp, hle⟩, trivial⟩, hh⟩
  | del p =>
    obtain ⟨e, hp⟩ := Option.ne_none_iff_exists'.mp ha
    obtain ⟨l', us, v, ws, -, he, hh⟩ := h.del hp
    exact ⟨l', _, _, he, ⟨ha, trivial⟩, hh⟩
  | tick cur =>
    obtain ⟨l', he, hleg, hh⟩ := h.tick cur
    exact ⟨l', _, _, by rw [exec, he]; rfl, hleg, hh⟩

lemma Run.holds (h : Run l log) : LegalFrom (fun _ => none) log ∧ ∃ xs, Holds l log xs := by
  induction h with
  | start =>
    refine ⟨trivial, [], represents_empty, List.Pairwise.nil, fun p e => ?_⟩
    simp [deadline]
  | step op _ ha he ih =>
    obtain ⟨hleg, xs, hh⟩ := ih
    obtain ⟨l', evs, xs', he', hleg', hh'⟩ := exec_holds hh ha
    rw [he] at he'
    cases he'
    exact ⟨legalFrom_append.mpr ⟨hleg, hleg'⟩, xs', hh'⟩

end Step

/-- Every operation that is allowed runs without a fault, and the pointers form one list: following
`next` from `head` meets each timer that was added and not removed, and each allocated cell, exactly
once, `prev` undoes `next`, the ends are null, `tail` is the last cell and `expire` never decreases. -/
theorem timer_list_shape {l : TimerList} {log : List Event} (h : Run l log) :
    (∀ op, Allowed log op → ∃ r, exec l op = some r) ∧
    ∃ xs, l.walk = some xs ∧ (addrs xs).Nodup ∧
      (∀ p, p ∈ addrs xs ↔ deadline log p ≠ none) ∧ (∀ p, p ∈ addrs xs ↔ l.heap.cell p ≠ none) ∧
      (∀ p q, l.heap.next p = some q ↔ l.heap.prev q = some p) ∧
      (∀ p, l.head = some p → l.heap.prev p = none) ∧
      (∀ hne : xs ≠ [], l.tail = some (xs.getLast hne).1 ∧ l.heap.next (xs.getLast hne).1 = none) ∧
      xs.Pairwise fun a b => a.2.expire ≤ b.2.expire := by
  obtain ⟨-, xs, hh⟩ := h.holds
  refine ⟨fun op ha => ?_, xs, walk_spec hh.shape, hh.shape.nodup, fun p => ?_, fun p => ?_,
    hh.shape.chain.next_iff_prev hh.shape.owned, fun p hp => ?_, fun hne => ?_, hh.sorted⟩
  · obtain ⟨l', evs, -, he, -⟩ := exec_holds hh ha
    exact ⟨_, he⟩
  · rw [Ne, hh.deadlines.none_iff, not_not]
  · rw [← Option.isSome_iff_ne_none]
    exact ⟨hh.shape.chain.allocated, hh.shape.owned p⟩
  · rw [hh.shape.head] at hp
    cases xs with
    | nil => cases hp
    | cons e xs =>
      obtain rfl : e.1 = p := Option.some.inj hp
      rw [Heap.prev, hh.shape.chain.1]
      rfl
  · obtain ⟨ys, e, rfl⟩ := (List.eq_nil_or_concat xs).resolve_left hne
    simp only [List.concat_eq_append] at hh ⊢
    rw [List.getLast_append_singleton]
    refine ⟨(hh.shape.tail (by simp)).trans (by rw [final_append]; rfl), ?_⟩
    rw [Heap.next, Chain.cell_eq (a := e.2) hh.shape.chain]
    rfl

lemma run_two_timers : ∃ l, Run l [.added 7 15, .added 3 12, .fired 3 12] :=
  ⟨_, .step (.tick 12) (.step (.add 3 ⟨12, 3⟩) (.step (.add 7 ⟨15, 7⟩) .start rfl rfl) rfl rfl) trivial rfl⟩

theorem timer_list_shape_two_timers :
    ∃ l, Run l [.added 7 15, .added 3 12, .fired 3 12] ∧
      ∃ xs, l.walk = some xs ∧ (addrs xs).Nodup ∧
        ∀ p, p ∈ addrs xs ↔ deadline [.added 7 15, .added 3 12, .fired 3 12] p ≠ none := by
  obtain ⟨l, hl⟩ := run_two_timers
  obtain ⟨-, xs, hw, hn, hd, -⟩ := timer_list_shape hl
  exact ⟨l, hl, xs, hw, hn, hd⟩

lemma LegalFrom.split {d : ℕ → Option ℤ} {before after : List Event} {ev : Event}
    (h : LegalFrom d (before ++ ev :: after)) : ev.Legal (before.foldl Event.record d) :=
  (legalFrom_append.mp h).2.1

lemma LegalFrom.added {d : ℕ → Option ℤ} {evs : List Event} {p : ℕ} (h : LegalFrom d evs) (hp : d p = none)
    (hd : evs.foldl Event.record d p ≠ none) : ∃ e, .added p e ∈ evs := by
  induction evs generalizing d with
  | nil => exact absurd hp hd
  | cons ev evs ih =>
    obtain ⟨hev, hevs⟩ := h
    by_cases hn : ev.record d p = none
    · obtain ⟨e, he⟩ := ih hevs hn hd
      exact ⟨e, List.mem_cons_of_mem _ he⟩
    · cases ev with
      | added q e =>
        obtain rfl : p = q := by
          by_contra hne
          exact hn ((Function.update_of_ne hne _ _).trans hp)
        exact ⟨e, List.mem_cons_self⟩
      | adjusted q e =>
        obtain ⟨e', he', -⟩ := hev
        obtain rfl : p = q := by
          by_contra hne
          exact hn ((Function.update_of_ne hne _ _).trans hp)
        rw [hp] at he'
        cases he'
      | deleted q | fired q =>
        refine absurd ?_ hn
        by_cases hpq : p = q
        · rw [hpq]
          exact Function.update_self _ _ _
        · exact (Function.update_of_ne hpq _ _).trans hp

/-- A callback runs only while its timer is in the list and not before its latest deadline; after a
callback or a deletion it runs again only if the timer was added again; and a tick calls back the
timers that are due, in the order of their deadlines, and keeps the others in their order. -/
theorem timer_firing_exact {l : TimerList} {log : List Event} (h : Run l log) :
    (∀ before after p cur, log = before ++ .fired p cur :: after →
      ∃ e, deadline before p = some e ∧ e ≤ cur) ∧
    (∀ before mid after p cur ev, log = before ++ ev :: (mid ++ .fired p cur :: after) →
      ev = .deleted p ∨ (∃ cur', ev = .fired p cur') → ∃ e, .added p e ∈ mid) ∧
    ∀ cur, ∃ xs l', l.walk = some xs ∧ tick l cur = some (l', xs.filter fun e => decide (e.2.expire ≤ cur)) ∧
      ((xs.filter fun e => decide (e.2.expire ≤ cur)).Pairwise fun a b => a.2.expire ≤ b.2.expire) ∧
      l'.walk = some (xs.filter fun e => decide (cur < e.2.expire)) := by
  obtain ⟨hleg, xs, hh⟩ := h.holds
  refine ⟨?_, ?_, fun cur => ?_⟩
  · rintro before after p cur rfl
    exact hleg.split
  · rintro before mid after p cur ev rfl hev
    obtain ⟨-, hrest⟩ := legalFrom_append.mp hleg
    obtain ⟨-, hmid⟩ := hrest
    have hnone : ev.record (before.foldl Event.record fun _ => none) p = none := by
      rcases hev with rfl | ⟨cur', rfl⟩
      · exact Function.update_self _ _ _
      · exact Function.update_self _ _ _
    obtain ⟨e, he, -⟩ := hmid.split
    exact (legalFrom_append.mp hmid).1.added hnone (by rw [he]; simp)
  · obtain ⟨l', he, -, hh'⟩ := hh.tick cur
    exact ⟨xs, l', walk_spec hh.shape, he, hh.sorted.filter _, walk_spec hh'.shape⟩

theorem timer_firing_exact_two_timers :
    ∃ l, Run l [.added 7 15, .added 3 12, .fired 3 12] ∧
      ∃ e, deadline [.added 7 15, .added 3 12] 3 = some e ∧ e ≤ 12 := by
  obtain ⟨l, hl⟩ := run_two_timers
  exact ⟨l, hl, (timer_firing_exact hl).1 [.added 7 15, .added 3 12] [] 3 12 rfl⟩

section Accounting

def Event.adds (p : ℕ) : Event → Bool
  | .added q _ => q = p
  | _ => false

def Event.frees (p : ℕ) : Event → Bool
  | .deleted q | .fired q _ => q = p
  | _ => false

lemma Event.Legal.account {d : ℕ → Option ℤ} {ev : Event} (h : ev.Legal d) (p : ℕ) :
    (d p).isSome.toNat + (ev.adds p).toNat = (ev.frees p).toNat + (ev.record d p).isSome.toNat := by
  cases ev with
  | added q e =>
    have hnone : d q = none := h
    by_cases hq : q = p
    · subst hq
      simp [Event.adds, Event.frees, Event.record, hnone]
    · simp [Event.adds, Event.frees, Event.record, hq, Function.update_of_ne (Ne.symm hq)]
  | adjusted q e =>
    obtain ⟨e', hsome, -⟩ := h
    by_cases hq : q = p
    · subst hq
      simp [Event.adds, Event.frees, Event.record, hsome]
    · simp [Event.adds, Event.frees, Event.record, Function.update_of_ne (Ne.symm hq)]
  | deleted q =>
    obtain ⟨e', hsome⟩ := Option.ne_none_iff_exists'.mp h
    by_cases hq : q = p
    · subst hq
      simp [Event.adds, Event.frees, Event.record, hsome]
    · simp [Event.adds, Event.frees, Event.record, hq, Function.update_of_ne (Ne.symm hq)]
  | fired q cur =>
    obtain ⟨e', hsome, -⟩ := h
    by_cases hq : q = p
    · subst hq
      simp [Event.adds, Event.frees, Event.record, hsome]
    · simp [Event.adds, Event.frees, Event.record, hq, Function.update_of_ne (Ne.symm hq)]

lemma LegalFrom.account {d : ℕ → Option ℤ} {evs : List Event} (h : LegalFrom d evs) (p : ℕ) :
    (d p).isSome.toNat + evs.countP (Event.adds p) =
      evs.countP (Event.frees p) + (evs.foldl Event.record d p).isSome.toNat := by
  induction evs generalizing d with
  | nil => simp
  | cons ev evs ih =>
    have hev := h.1.account p
    have hevs := ih h.2
    have hone : ∀ b : Bool, (if b = true then 1 else 0) = b.toNat := by decide
    rw [List.countP_cons, List.countP_cons, List.foldl_cons, hone, hone]
    omega

end Accounting

theorem timers_freed_once {l : TimerList} {log : List Event} (h : Run l log) :
    ∃ l' freed, destroy l = some (l', freed) ∧ (∀ p, l'.heap.cell p = none) ∧
      ∀ p, log.countP (Event.adds p) = log.countP (Event.frees p) + freed.count p := by
  obtain ⟨hleg, xs, hh⟩ := h.holds
  obtain ⟨l', hl', hnone⟩ := destroy_spec hh.shape
  refine ⟨l', addrs xs, hl', hnone, fun p => ?_⟩
  have haccount := hleg.account p
  have hleft : (addrs xs).count p = (deadline log p).isSome.toNat := by
    by_cases hp : deadline log p = none
    · rw [hp, List.count_eq_zero_of_not_mem (hh.deadlines.none_iff.mp hp)]
      rfl
    · have hmem : p ∈ addrs xs := not_not.mp fun hn => hp (hh.deadlines.none_iff.mpr hn)
      rw [List.count_eq_one_of_mem hh.shape.nodup hmem, Option.isSome_iff_ne_none.mpr hp]
      rfl
  rw [hleft, deadline]
  simpa using haccount

theorem timers_freed_once_two_timers :
    ∃ l, Run l [.added 7 15, .added 3 12, .fired 3 12] ∧ ∃ l' freed, destroy l = some (l', freed) ∧ freed.count 7 = 1 := by
  obtain ⟨l, hl⟩ := run_two_timers
  obtain ⟨l', freed, hd, -, hcount⟩ := timers_freed_once hl
  exact ⟨l, hl, l', freed, hd, by have h := hcount 7; simpa [Event.adds, Event.frees] using h.symm⟩

end OceanServer.Timer
