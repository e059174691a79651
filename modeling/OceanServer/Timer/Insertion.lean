import OceanServer.Timer.Runs

/-! Adding a timer is a stable insertion, and adjusting one is its removal followed by the same insertion,
whichever timer the search starts from. -/

namespace OceanServer.Timer

open Library.LinkedHeap

/-- `zs` is `xs` with `e` right after the last timer that expires no later, at the front if there is none. -/
def InsertedAfterLast (e : ℕ × UtilTimer) (xs zs : List (ℕ × UtilTimer)) : Prop :=
  ∃ us ws, xs = us ++ ws ∧ zs = us ++ e :: ws ∧
    (∀ u ∈ us.getLast?, u.2.expire ≤ e.2.expire) ∧ ∀ w ∈ ws, e.2.expire < w.2.expire

lemma insertTimer_eq (e : ℕ × UtilTimer) (xs : List (ℕ × UtilTimer)) :
    insertTimer e xs = (xs.takeWhile fun a => decide (a.2.expire ≤ e.2.expire)) ++
      e :: xs.dropWhile fun a => decide (a.2.expire ≤ e.2.expire) := by
  simp only [insertTimer, List.orderedInsert_eq_take_drop, not_lt]

lemma insertTimer_inserted {e : ℕ × UtilTimer} {xs : List (ℕ × UtilTimer)} (hs : Sorted xs) :
    InsertedAfterLast e xs (insertTimer e xs) := by
  obtain ⟨htake, hdrop⟩ := hs.takeWhile_eq e.2.expire
  refine ⟨_, _, List.takeWhile_append_dropWhile.symm, insertTimer_eq e xs, fun u hu => ?_, fun w hw => ?_⟩
  · have hmem := List.mem_of_getLast? hu
    rw [htake] at hmem
    exact of_decide_eq_true (List.mem_filter.mp hmem).2
  · rw [hdrop] at hw
    exact of_decide_eq_true (List.mem_filter.mp hw).2

-- The search may start behind any timers that expire no later.
lemma insertTimer_append {e : ℕ × UtilTimer} {us ws : List (ℕ × UtilTimer)}
    (hu : ∀ u ∈ us, u.2.expire ≤ e.2.expire) : insertTimer e (us ++ ws) = us ++ insertTimer e ws := by
  induction us with
  | nil => rfl
  | cons u us ih =>
    have hle := hu u List.mem_cons_self
    rw [List.cons_append, insertTimer_cons_le (not_lt.mpr hle), ih fun a ha => hu a (List.mem_cons_of_mem u ha)]
    rfl

lemma readjusted_inserted {t : ℕ} {v : UtilTimer} {us ws : List (ℕ × UtilTimer)} {expire : ℤ}
    (hs : Sorted (us ++ (t, v) :: ws)) (he : v.expire ≤ expire) :
    InsertedAfterLast (t, { v with expire := expire }) (us ++ ws)
      (us ++ insertTimer (t, { v with expire := expire }) ws) := by
  have hsub : (us ++ ws).Sublist (us ++ (t, v) :: ws) := (List.sublist_cons_self _ ws).append_left us
  have hbefore := (List.pairwise_append.mp hs).2.2
  rw [← insertTimer_append fun u hu => (hbefore u hu _ List.mem_cons_self).trans he]
  exact insertTimer_inserted (hs.sublist hsub)

theorem add_adjust_insert {l : TimerList} {xs : List (ℕ × UtilTimer)} (hl : Linked l xs) (hs : Sorted xs) :
    (∀ t v, l.heap.cell t = some ⟨v, none, none⟩ → t ∉ addrs xs →
      ∃ l' zs, addTimer l (some t) = some l' ∧ Linked l' zs ∧ InsertedAfterLast (t, v) xs zs) ∧
    ∀ us t v ws expire, xs = us ++ (t, v) :: ws → v.expire ≤ expire →
      ∃ l₁ l' zs, l.setExpire t expire = some l₁ ∧ adjustTimer l₁ (some t) = some l' ∧ Linked l' zs ∧
        InsertedAfterLast (t, { v with expire := expire }) (us ++ ws) zs := by
  refine ⟨fun t v hcell hmem => ?_, ?_⟩
  · obtain ⟨l', hadd, hlinked, -⟩ := addTimer_linked hl hcell hmem
    exact ⟨l', _, hadd, hlinked, insertTimer_inserted hs⟩
  · rintro us t v ws expire rfl he
    obtain ⟨l₁, hset, hl₁, -⟩ := setExpire_linked hl expire
    obtain ⟨l', hadjust, hlinked, -⟩ := adjustTimer_linked hl₁
    exact ⟨l₁, l', _, hset, hadjust, hlinked, readjusted_inserted hs he⟩

-- Timers 7 and 3 are linked and expire together; timer 9 is new. The old head moves behind timer 3.
theorem add_adjust_insert_equal_deadlines :
    ∃ l : TimerList, Linked l [(7, ⟨15, 0⟩), (3, ⟨15, 1⟩)] ∧
      (∃ l' zs, addTimer l (some 9) = some l' ∧ Linked l' zs ∧
        InsertedAfterLast (9, ⟨15, 2⟩) [(7, ⟨15, 0⟩), (3, ⟨15, 1⟩)] zs) ∧
      ∃ l₁ l' zs, l.setExpire 7 15 = some l₁ ∧ adjustTimer l₁ (some 7) = some l' ∧ Linked l' zs ∧
        InsertedAfterLast (7, ⟨15, 0⟩) [(3, ⟨15, 1⟩)] zs := by
  let heap : Heap UtilTimer :=
    ((Heap.empty.store 7 ⟨⟨15, 0⟩, none, some 3⟩).store 3 ⟨⟨15, 1⟩, some 7, none⟩).store 9 ⟨⟨15, 2⟩, none, none⟩
  have hl : Linked ⟨heap, some 7, some 3⟩ [(7, ⟨15, 0⟩), (3, ⟨15, 1⟩)] :=
    ⟨by decide, ⟨rfl, rfl, trivial⟩, rfl, fun _ => rfl⟩
  have hs : Sorted [(7, ⟨15, 0⟩), (3, ⟨15, 1⟩)] := by simp [Sorted]
  obtain ⟨hadd, hadjust⟩ := add_adjust_insert hl hs
  exact ⟨_, hl, hadd 9 ⟨15, 2⟩ rfl (by decide), hadjust [] 7 ⟨15, 0⟩ [(3, ⟨15, 1⟩)] 15 rfl le_rfl⟩

end OceanServer.Timer
