import OceanServer.Timer.List

/-! What each operation of the timer list does to the sequence of timers that it links. -/

namespace OceanServer.Timer

open Library.LinkedHeap

structure Represents (l : TimerList) (xs : List (ℕ × UtilTimer)) : Prop where
  nodup : (addrs xs).Nodup
  chain : Chain l.heap none none xs
  head : l.head = first none xs
  tail : xs ≠ [] → l.tail = final none xs
  owned : ∀ p, (l.heap.cell p).isSome → p ∈ addrs xs

structure Linked (l : TimerList) (xs : List (ℕ × UtilTimer)) : Prop where
  nodup : (addrs xs).Nodup
  chain : Chain l.heap none none xs
  head : l.head = first none xs
  tail : xs ≠ [] → l.tail = final none xs

def SameCells (l l' : TimerList) : Prop := ∀ r, (l'.heap.cell r).isSome = (l.heap.cell r).isSome

lemma Represents.linked {l : TimerList} {xs : List (ℕ × UtilTimer)} (hr : Represents l xs) : Linked l xs :=
  ⟨hr.nodup, hr.chain, hr.head, hr.tail⟩

lemma Represents.relinked {l l' : TimerList} {xs ys : List (ℕ × UtilTimer)} (hr : Represents l xs) (hl : Linked l' ys)
    (hs : SameCells l l') (hperm : ys.Perm xs) : Represents l' ys := by
  refine ⟨hl.nodup, hl.chain, hl.head, hl.tail, fun r hr' => ?_⟩
  rw [hs r] at hr'
  exact (hperm.map Prod.fst).mem_iff.mpr (hr.owned r hr')

def insertTimer (e : ℕ × UtilTimer) (xs : List (ℕ × UtilTimer)) : List (ℕ × UtilTimer) :=
  xs.orderedInsert (fun a b => a.2.expire < b.2.expire) e

lemma insertTimer_perm (e : ℕ × UtilTimer) (xs : List (ℕ × UtilTimer)) :
    (insertTimer e xs).Perm (e :: xs) := List.perm_orderedInsert _ e xs

lemma insertTimer_cons_lt {e f : ℕ × UtilTimer} (h : e.2.expire < f.2.expire)
    (xs : List (ℕ × UtilTimer)) : insertTimer e (f :: xs) = e :: f :: xs := by
  simp [insertTimer, List.orderedInsert_cons, h]

lemma insertTimer_cons_le {e f : ℕ × UtilTimer} (h : ¬ e.2.expire < f.2.expire)
    (xs : List (ℕ × UtilTimer)) : insertTimer e (f :: xs) = f :: insertTimer e xs := by
  simp [insertTimer, List.orderedInsert_cons, h]

section Insert

variable {l : TimerList} {xs ys : List (ℕ × UtilTimer)} {p t fuel : ℕ} {a v : UtilTimer}
  {b n : Option ℕ}

lemma insertLoop_spec (hc : Chain l.heap none none (xs ++ (p, a) :: ys))
    (ht : l.heap.cell t = some ⟨v, b, n⟩) (hn : (t :: addrs (xs ++ (p, a) :: ys)).Nodup)
    (htail : l.tail = final none (xs ++ (p, a) :: ys)) (hf : ys.length < fuel) :
    ∃ l', insertLoop l t fuel p (first none ys) = some l' ∧ l'.head = l.head ∧
      (∀ r, (l'.heap.cell r).isSome = (l.heap.cell r).isSome) ∧
      Chain l'.heap none none (xs ++ (p, a) :: insertTimer (t, v) ys) ∧
      l'.tail = final none (xs ++ (p, a) :: insertTimer (t, v) ys) := by
  induction ys generalizing xs p a fuel with
  | nil =>
    obtain ⟨fuel, rfl⟩ : ∃ m, fuel = m + 1 := ⟨fuel - 1, by simp at hf; omega⟩
    obtain ⟨h₁, h₂, h₃, e₁, e₂, e₃, hdom, hchain⟩ := hc.append ht (by
      simp only [addrs_append, addrs_cons, addrs_nil] at hn ⊢
      grind)
    refine ⟨{ l with heap := h₃, tail := some t }, ?_, rfl, hdom, hchain, ?_⟩
    · simp only [insertLoop, first, e₁, e₂, e₃, Option.bind_eq_bind, Option.bind_some]
    · rw [final_append]
      rfl
  | cons e ys ih =>
    obtain ⟨q, d⟩ := e
    obtain ⟨fuel, rfl⟩ : ∃ m, fuel = m + 1 := ⟨fuel - 1, by simp at hf; omega⟩
    obtain ⟨hx, hp, hq⟩ := chain_append.mp hc
    have hqc := hq.1
    by_cases hlt : v.expire < d.expire
    · have hins := insertTimer_cons_lt (e := (t, v)) (f := (q, d)) hlt ys
      obtain ⟨h₁, h₂, h₃, h₄, e₁, e₂, e₃, e₄, hdom, hchain⟩ :=
        Chain.insert (chain_append.mpr ⟨hx, hp, trivial⟩) hq ht (by
          simp only [addrs_append, addrs_cons] at hn ⊢
          grind)
      refine ⟨{ l with heap := h₄ }, ?_, rfl, hdom, hins ▸ hchain, ?_⟩
      · simp only [insertLoop, first, ht, hqc, e₁, e₂, e₃, e₄, Option.bind_eq_bind, Option.bind_some,
          if_pos hlt]
      · rw [hins]
        simp only [htail, final_append, final_cons]
    · have hins := insertTimer_cons_le (e := (t, v)) (f := (q, d)) hlt ys
      have hassoc : ∀ zs : List (ℕ × UtilTimer), xs ++ (p, a) :: (q, d) :: zs =
          (xs ++ [(p, a)]) ++ (q, d) :: zs := by simp
      rw [hassoc] at hc htail hn
      obtain ⟨l', hl', hrest⟩ := ih hc hn htail (by simp at hf; omega)
      refine ⟨l', ?_, ?_⟩
      · simp only [insertLoop, first, ht, hqc, Option.bind_eq_bind, Option.bind_some, if_neg hlt]
        exact hl'
      · rw [hins, hassoc]
        exact hrest

lemma addTimerFrom_linked (hc : Chain l.heap none none (xs ++ (p, a) :: ys))
    (ht : l.heap.cell t = some ⟨v, b, n⟩) (hn : (t :: addrs (xs ++ (p, a) :: ys)).Nodup)
    (hhead : l.head = first none (xs ++ (p, a) :: ys))
    (htail : l.tail = final none (xs ++ (p, a) :: ys)) :
    ∃ l', addTimerFrom l t p = some l' ∧ Linked l' (xs ++ (p, a) :: insertTimer (t, v) ys) ∧ SameCells l l' := by
  have hlen := hc.length_le (List.nodup_cons.mp hn).2
  rw [List.length_append, List.length_cons] at hlen
  obtain ⟨-, hp, -⟩ := chain_append.mp hc
  obtain ⟨l', hl', hh, hdom, hchain, htl⟩ :=
    insertLoop_spec hc ht hn htail (show ys.length < l.heap.top + 1 by omega)
  have hperm : (addrs (xs ++ (p, a) :: insertTimer (t, v) ys)).Perm (t :: addrs (xs ++ (p, a) :: ys)) := by
    refine ((((insertTimer_perm (t, v) ys).cons (p, a)).append_left xs).map Prod.fst).trans ?_
    simp only [addrs, List.map_append, List.map_cons]
    exact ((List.Perm.swap t p _).append_left _).trans List.perm_middle
  refine ⟨l', ?_, ⟨hperm.nodup_iff.mpr hn, hchain, ?_, fun _ => htl⟩, hdom⟩
  · rw [addTimerFrom, hp]
    exact hl'
  · rw [hh, hhead, first_append, first_append]
    rfl

end Insert

section Operations

variable {l : TimerList} {xs ys : List (ℕ × UtilTimer)} {t : ℕ} {v : UtilTimer}

lemma represents_empty : Represents .empty [] :=
  ⟨List.nodup_nil, trivial, rfl, fun h => absurd rfl h, fun _ hp => by cases hp⟩

lemma Represents.not_mem (hr : Represents l xs) (hf : l.heap.cell t = none) : t ∉ addrs xs := by
  intro hm
  have hs := hr.chain.allocated hm
  rw [hf] at hs
  cases hs

lemma addTimer_linked (hl : Linked l xs) (hcell : l.heap.cell t = some ⟨v, none, none⟩) (hmem : t ∉ addrs xs) :
    ∃ l', addTimer l (some t) = some l' ∧ Linked l' (insertTimer (t, v) xs) ∧ SameCells l l' := by
  have hnodup : (t :: addrs xs).Nodup := List.nodup_cons.mpr ⟨hmem, hl.nodup⟩
  cases xs with
  | nil =>
    have hh : l.head = none := hl.head
    refine ⟨{ l with head := some t, tail := some t }, ?_, ⟨hnodup, ⟨hcell, trivial⟩, rfl, fun _ => rfl⟩, fun _ => rfl⟩
    simp only [addTimer, hh]
  | cons e ys =>
    obtain ⟨p, a⟩ := e
    have hchain := hl.chain
    have hh : l.head = some p := hl.head
    by_cases hlt : v.expire < a.expire
    · have htp : t ≠ p := fun he => hmem (he ▸ List.mem_cons_self)
      have hpy : p ∉ addrs ys := (List.nodup_cons.mp hl.nodup).1
      have htc : Chain l.heap none none [(t, v)] := ⟨hcell, trivial⟩
      obtain ⟨h₁, e₁, w₁, ht₁⟩ := htc.setNext_one (some p)
      have hc₁ := hchain.frame w₁ hmem
      obtain ⟨h₂, e₂, w₂, hc₂⟩ := hc₁.setPrev hpy (some t)
      have ht₂ := ht₁.frame w₂ (by simp [Ne.symm htp])
      rw [insertTimer_cons_lt hlt]
      refine ⟨{ l with heap := h₂, head := some t }, ?_, ⟨hnodup, ⟨ht₂.1, hc₂⟩, rfl, fun _ => ?_⟩, fun r => ?_⟩
      · simp only [addTimer, hh, hcell, hchain.1, Option.bind_eq_bind, Option.bind_some, if_pos hlt, e₁, e₂]
      · exact hl.tail (by simp)
      · rw [w₂.domain, w₁.domain]
    · rw [insertTimer_cons_le hlt]
      rw [← List.nil_append ((p, a) :: ys)] at hchain hnodup hl
      obtain ⟨l', hl', hrep⟩ := addTimerFrom_linked hchain hcell hnodup hh (hl.tail (by simp))
      refine ⟨l', ?_, hrep⟩
      simp only [addTimer, hh, hcell, hchain.1, Option.bind_eq_bind, Option.bind_some, if_neg hlt]
      exact hl'

lemma addTimer_spec (hr : Represents l xs) (hf : l.heap.cell t = none) :
    ∃ l', addTimer (l.new t v) (some t) = some l' ∧ Represents l' (insertTimer (t, v) xs) := by
  have hmem := hr.not_mem hf
  have hcell : (l.new t v).heap.cell t = some ⟨v, none, none⟩ := l.heap.store_self t _
  have hchain : Chain (l.new t v).heap none none xs :=
    hr.chain.congr fun q hq => l.heap.store_of_ne _ fun he => hmem (he ▸ hq)
  obtain ⟨l', hl', hlinked, hsame⟩ := addTimer_linked ⟨hr.nodup, hchain, hr.head, hr.tail⟩ hcell hmem
  refine ⟨l', hl', hlinked.nodup, hlinked.chain, hlinked.head, hlinked.tail, fun r hs => ?_⟩
  refine ((insertTimer_perm (t, v) xs).map Prod.fst).mem_iff.mpr ?_
  rw [hsame] at hs
  by_cases hrt : r = t
  · exact hrt ▸ List.mem_cons_self
  · refine List.mem_cons_of_mem _ (hr.owned r ?_)
    rwa [TimerList.new, l.heap.store_of_ne _ hrt] at hs

lemma setExpire_linked (hl : Linked l (xs ++ (t, v) :: ys)) (expire : ℤ) :
    ∃ l', l.setExpire t expire = some l' ∧ Linked l' (xs ++ (t, { v with expire := expire }) :: ys) ∧ SameCells l l' := by
  have hn := hl.nodup
  simp only [addrs_append, addrs_cons, List.nodup_append, List.nodup_cons, List.mem_cons] at hn
  obtain ⟨-, ⟨hty, -⟩, hdis⟩ := hn
  have htx : t ∉ addrs xs := fun hm => hdis t hm t (.inl rfl) rfl
  obtain ⟨h', he, hw, hc⟩ := hl.chain.setData htx hty { v with expire := expire }
  obtain ⟨-, hcell, -⟩ := chain_append.mp hl.chain
  have haddr : addrs (xs ++ (t, { v with expire := expire }) :: ys) = addrs (xs ++ (t, v) :: ys) := by simp
  refine ⟨{ l with heap := h' }, ?_, ⟨haddr ▸ hl.nodup, hc, ?_, fun _ => ?_⟩, hw.domain⟩
  · simp only [TimerList.setExpire, hcell, Option.bind_eq_bind, Option.bind_some, he]
  · exact hl.head.trans (by rw [first_append, first_append]; rfl)
  · exact (hl.tail (by simp)).trans (by simp only [final_append, final_cons])

lemma setExpire_spec (hr : Represents l (xs ++ (t, v) :: ys)) (expire : ℤ) :
    ∃ l', l.setExpire t expire = some l' ∧ Represents l' (xs ++ (t, { v with expire := expire }) :: ys) := by
  obtain ⟨l', hl', hlinked, hsame⟩ := setExpire_linked hr.linked expire
  refine ⟨l', hl', hlinked.nodup, hlinked.chain, hlinked.head, hlinked.tail, fun r hs => ?_⟩
  rw [hsame] at hs
  have hmem := hr.owned r hs
  rwa [addrs_append, addrs_cons] at hmem ⊢

lemma Linked.head_ne {e : ℕ × UtilTimer} (hl : Linked l (e :: xs)) (ht : t ∈ addrs xs) :
    l.head ≠ some t := by
  intro he
  rw [hl.head] at he
  obtain rfl : e.1 = t := Option.some.inj he
  exact (List.nodup_cons.mp hl.nodup).1 ht

lemma Represents.tail_ne {e : ℕ × UtilTimer} (hr : Represents l (xs ++ [e])) (ht : t ∈ addrs xs) :
    l.tail ≠ some t := by
  intro he
  rw [hr.tail (by simp), final_append] at he
  obtain rfl : e.1 = t := Option.some.inj he
  have hn := hr.nodup
  rw [addrs_append, List.nodup_append] at hn
  exact hn.2.2 _ ht _ (by simp) rfl

lemma Linked.inner_ne {p : ℕ} {a : UtilTimer} (hl : Linked l (xs ++ (p, a) :: (t, v) :: ys)) : l.head ≠ some t := by
  cases xs with
  | nil => exact hl.head_ne (by simp)
  | cons e xs => exact hl.head_ne (by simp)

lemma perm_inner {p q : ℕ} {a d : UtilTimer} :
    (addrs (xs ++ (p, a) :: (t, v) :: (q, d) :: ys)).Perm (t :: addrs (xs ++ (p, a) :: (q, d) :: ys)) := by
  simp only [addrs_append, addrs_cons]
  exact ((List.Perm.swap t p _).append_left _).trans List.perm_middle

lemma adjustTimer_first {q : ℕ} {d : UtilTimer} (hl : Linked l ((t, v) :: (q, d) :: ys))
    (hle : ¬ v.expire < d.expire) :
    ∃ l', adjustTimer l (some t) = some l' ∧ Linked l' ((q, d) :: insertTimer (t, v) ys) ∧ SameCells l l' := by
  obtain ⟨hcell, hy⟩ := hl.chain
  have hh : l.head = some t := hl.head
  obtain ⟨htq, hqn⟩ := List.nodup_cons.mp hl.nodup
  obtain ⟨h₁, e₁, w₁, hy₁⟩ := hy.setPrev (List.nodup_cons.mp hqn).1 none
  have htc : Chain l.heap none (some q) [(t, v)] := ⟨hcell, trivial⟩
  have ht₁ := htc.frame w₁ (by rintro hm; simp only [addrs_cons, addrs_nil, List.mem_singleton] at hm; simp [hm] at htq)
  obtain ⟨h₂, e₂, w₂, ht₂⟩ := ht₁.setNext_one none
  have hc₂ : Chain h₂ none none ([] ++ (q, d) :: ys) := hy₁.frame w₂ htq
  obtain ⟨l', hl', hrep, hsame⟩ := addTimerFrom_linked (l := ⟨h₂, some q, l.tail⟩) hc₂ ht₂.1 hl.nodup rfl
    (hl.tail (by simp))
  refine ⟨l', ?_, hrep, fun r => (hsame r).trans (by rw [w₂.domain, w₁.domain])⟩
  simp only [adjustTimer, hcell, Option.bind_eq_bind, Option.bind_some, first, hy.1, if_neg hle, if_pos hh,
    e₁, e₂]
  exact hl'

lemma adjustTimer_inner {p q : ℕ} {a d : UtilTimer}
    (hl : Linked l (xs ++ (p, a) :: (t, v) :: (q, d) :: ys)) (hle : ¬ v.expire < d.expire) :
    ∃ l', adjustTimer l (some t) = some l' ∧
      Linked l' (xs ++ (p, a) :: (q, d) :: insertTimer (t, v) ys) ∧ SameCells l l' := by
  have hnh := hl.inner_ne
  obtain ⟨-, -, -, hq, -⟩ := chain_append.mp hl.chain
  obtain ⟨ht, h₁, h₂, e₁, k₁, e₂, k₂, hdom, hc⟩ := hl.chain.unlink hl.nodup
  have hh : l.head = first none (xs ++ (p, a) :: (q, d) :: ys) :=
    hl.head.trans (by rw [first_append, first_append]; rfl)
  have htl : l.tail = final none (xs ++ (p, a) :: (q, d) :: ys) :=
    (hl.tail (by simp)).trans (by simp only [final_append, final_cons])
  have hperm : (addrs (xs ++ (p, a) :: (t, v) :: (q, d) :: ys)).Perm
    (t :: addrs (xs ++ (p, a) :: (q, d) :: ys)) := perm_inner
  have hassoc : ∀ us, xs ++ (p, a) :: (q, d) :: us = (xs ++ [(p, a)]) ++ (q, d) :: us := by simp
  rw [hassoc] at hc hh htl hperm
  obtain ⟨l', hl', hrep, hsame⟩ := addTimerFrom_linked (l := ⟨h₂, l.head, l.tail⟩) hc (k₂.trans ht)
    (hperm.nodup_iff.mp hl.nodup) hh htl
  refine ⟨l', ?_, by rw [hassoc]; exact hrep, fun r => (hsame r).trans (hdom r)⟩
  simp only [adjustTimer, ht, Option.bind_eq_bind, Option.bind_some, hq, if_neg hle, if_neg hnh, e₁, k₁, e₂, k₂]
  exact hl'

lemma adjustTimer_linked (hl : Linked l (xs ++ (t, v) :: ys)) :
    ∃ l', adjustTimer l (some t) = some l' ∧ Linked l' (xs ++ insertTimer (t, v) ys) ∧ SameCells l l' := by
  obtain ⟨-, hcell, hy⟩ := chain_append.mp hl.chain
  cases ys with
  | nil => exact ⟨l, by simp only [adjustTimer, hcell, Option.bind_eq_bind, Option.bind_some, first], hl, fun _ => rfl⟩
  | cons e ys =>
    by_cases hlt : v.expire < e.2.expire
    · rw [insertTimer_cons_lt hlt]
      refine ⟨l, ?_, hl, fun _ => rfl⟩
      simp only [adjustTimer, hcell, Option.bind_eq_bind, Option.bind_some, first, hy.1, if_pos hlt]
    · rw [insertTimer_cons_le hlt]
      rcases List.eq_nil_or_concat xs with rfl | ⟨zs, ⟨p, a⟩, rfl⟩
      · exact adjustTimer_first hl hlt
      · simp only [List.concat_eq_append, List.append_assoc, List.cons_append, List.nil_append] at hl ⊢
        exact adjustTimer_inner hl hlt

lemma adjustTimer_spec (hr : Represents l (xs ++ (t, v) :: ys)) :
    ∃ l', adjustTimer l (some t) = some l' ∧ Represents l' (xs ++ insertTimer (t, v) ys) := by
  obtain ⟨l', hl', hlinked, hsame⟩ := adjustTimer_linked hr.linked
  exact ⟨l', hl', hr.relinked hlinked hsame ((insertTimer_perm (t, v) ys).append_left xs)⟩

lemma Represents.freed {us : List (ℕ × UtilTimer)} {h : Heap UtilTimer} {head tail : Option ℕ}
    (hr : Represents l xs) (hperm : (addrs xs).Perm (t :: addrs us)) (hc : Chain h none none us)
    (hdom : ∀ r, (h.cell r).isSome = (l.heap.cell r).isSome) (hhead : head = first none us)
    (htail : us ≠ [] → tail = final none us) : Represents ⟨h.free t, head, tail⟩ us := by
  obtain ⟨htn, hn⟩ := List.nodup_cons.mp (hperm.nodup_iff.mp hr.nodup)
  refine ⟨hn, hc.free htn, hhead, htail, fun r hs => ?_⟩
  by_cases hrt : r = t
  · rw [hrt, h.free_self] at hs
    cases hs
  · rw [h.free_of_ne hrt, hdom] at hs
    exact (List.mem_cons.mp (hperm.mem_iff.mp (hr.owned r hs))).resolve_left hrt

lemma delTimer_only (hr : Represents l [(t, v)]) :
    ∃ l', delTimer l (some t) = some l' ∧ Represents l' [] := by
  have hh : l.head = some t ∧ l.tail = some t := ⟨hr.head, hr.tail (by simp)⟩
  refine ⟨⟨l.heap.free t, none, none⟩, ?_, hr.freed (List.Perm.refl _) trivial (fun _ => rfl) rfl (by simp)⟩
  simp only [delTimer, if_pos hh, hr.chain.1, Option.bind_eq_bind, Option.bind_some]

lemma delTimer_first {e : ℕ × UtilTimer} (hr : Represents l ((t, v) :: e :: xs)) :
    ∃ l', delTimer l (some t) = some l' ∧ Represents l' (e :: xs) := by
  have hh : l.head = some t := hr.head
  have hnt : l.tail ≠ some t := by
    obtain ⟨zs, f, hz⟩ := (List.eq_nil_or_concat (e :: xs)).resolve_left (by simp)
    rw [hz, List.concat_eq_append, ← List.cons_append] at hr
    exact hr.tail_ne (by simp)
  obtain ⟨h₁, e₁, w₁, hc₁⟩ :=
    Chain.setPrev (p := e.1) (a := e.2) hr.chain.2 (List.nodup_cons.mp (List.nodup_cons.mp hr.nodup).2).1 none
  refine ⟨⟨h₁.free t, some e.1, l.tail⟩, ?_,
    hr.freed (List.Perm.refl _) hc₁ w₁.domain rfl (fun _ => hr.tail (by simp))⟩
  simp only [delTimer, hh, hnt, and_false, if_false, if_true, hr.chain.1, Option.bind_eq_bind,
    Option.bind_some, first, e₁]

lemma delTimer_last {p : ℕ} {a : UtilTimer} (hr : Represents l (xs ++ [(p, a), (t, v)])) :
    ∃ l', delTimer l (some t) = some l' ∧ Represents l' (xs ++ [(p, a)]) := by
  have htl : l.tail = some t := (hr.tail (by simp)).trans (by rw [final_append]; rfl)
  have hnh := hr.linked.inner_ne
  obtain ⟨hx, hp, ht, -⟩ := chain_append.mp hr.chain
  have hpx : p ∉ addrs xs := by
    intro hm
    have hn := hr.nodup
    rw [addrs_append, List.nodup_append] at hn
    exact hn.2.2 p hm p (by simp) rfl
  have hxp : Chain l.heap none (some t) (xs ++ [(p, a)]) := chain_append.mpr ⟨hx, hp, trivial⟩
  obtain ⟨h₁, e₁, w₁, hx₁⟩ := hxp.setNext hpx none
  refine ⟨⟨h₁.free t, l.head, some p⟩, ?_, hr.freed ?_ hx₁ w₁.domain (hr.head.trans ?_) fun _ => ?_⟩
  · simp only [delTimer, hnh, false_and, if_false, if_pos htl, ht, Option.bind_eq_bind, Option.bind_some, e₁]
  · rw [show xs ++ [(p, a), (t, v)] = (xs ++ [(p, a)]) ++ [(t, v)] by simp, addrs_append]
    exact List.perm_append_comm
  · rw [first_append, first_append]
    rfl
  · rw [final_append]
    rfl

lemma delTimer_inner {p q : ℕ} {a d : UtilTimer} (hr : Represents l (xs ++ (p, a) :: (t, v) :: (q, d) :: ys)) :
    ∃ l', delTimer l (some t) = some l' ∧ Represents l' (xs ++ (p, a) :: (q, d) :: ys) := by
  have hnh := hr.linked.inner_ne
  have hnt : l.tail ≠ some t := by
    obtain ⟨zs, f, hz⟩ := (List.eq_nil_or_concat ((q, d) :: ys)).resolve_left (by simp)
    rw [hz, List.concat_eq_append, ← List.cons_append, ← List.cons_append, ← List.append_assoc] at hr
    exact hr.tail_ne (by simp)
  obtain ⟨ht, h₁, h₂, e₁, k₁, e₂, -, hdom, hc⟩ := hr.chain.unlink hr.nodup
  refine ⟨⟨h₂.free t, l.head, l.tail⟩, ?_, hr.freed ?_ hc hdom (hr.head.trans ?_) fun _ => ?_⟩
  · simp only [delTimer, hnh, hnt, false_and, if_false, ht, Option.bind_eq_bind, Option.bind_some, e₁, k₁, e₂]
  · exact perm_inner
  · rw [first_append, first_append]
    rfl
  · exact (hr.tail (by simp)).trans (by simp only [final_append, final_cons])

lemma delTimer_spec (hr : Represents l (xs ++ (t, v) :: ys)) :
    ∃ l', delTimer l (some t) = some l' ∧ Represents l' (xs ++ ys) := by
  rcases List.eq_nil_or_concat xs with rfl | ⟨zs, ⟨p, a⟩, rfl⟩
  · cases ys with
    | nil => exact delTimer_only hr
    | cons e ys => exact delTimer_first hr
  · simp only [List.concat_eq_append, List.append_assoc, List.cons_append, List.nil_append] at hr ⊢
    cases ys with
    | nil => exact delTimer_last hr
    | cons e ys => exact delTimer_inner hr

lemma clearPrev_spec {e : ℕ × UtilTimer} (hr : Represents l (e :: xs)) :
    ∃ h, clearPrev l.heap (first none xs) = some h ∧ Chain h none none xs ∧
      ∀ r, (h.cell r).isSome = (l.heap.cell r).isSome := by
  cases xs with
  | nil => exact ⟨l.heap, rfl, trivial, fun _ => rfl⟩
  | cons f xs =>
    have hn := List.nodup_cons.mp (List.nodup_cons.mp hr.nodup).2
    obtain ⟨h, he, hw, hc⟩ := Chain.setPrev (p := f.1) (a := f.2) hr.chain.2 hn.1 none
    exact ⟨h, he, hc, hw.domain⟩

lemma tickLoop_spec {cur : ℤ} {fuel : ℕ} (hr : Represents l xs) (hf : xs.length < fuel) :
    ∃ l', tickLoop cur fuel l l.head = some (l', xs.takeWhile fun e => decide (e.2.expire ≤ cur)) ∧
      Represents l' (xs.dropWhile fun e => decide (e.2.expire ≤ cur)) := by
  induction xs generalizing l fuel with
  | nil =>
    obtain ⟨fuel, rfl⟩ : ∃ m, fuel = m + 1 := ⟨fuel - 1, by simp at hf; omega⟩
    exact ⟨l, by rw [show l.head = none from hr.head]; rfl, hr⟩
  | cons e xs ih =>
    obtain ⟨t, v⟩ := e
    obtain ⟨fuel, rfl⟩ : ∃ m, fuel = m + 1 := ⟨fuel - 1, by simp at hf; omega⟩
    have hh : l.head = some t := hr.head
    have hcell := hr.chain.1
    have htail := hr.tail (by simp)
    by_cases hlt : cur < v.expire
    · refine ⟨l, ?_, ?_⟩
      · simp [tickLoop, hh, hcell, hlt]
      · simpa [hlt] using hr
    · obtain ⟨h, he, hc, hdom⟩ := clearPrev_spec hr
      have hrest : Represents ⟨h.free t, first none xs, l.tail⟩ xs :=
        hr.freed (List.Perm.refl _) hc hdom rfl (fun hne => htail.trans (final_of_ne_nil hne _ _))
      obtain ⟨l', hl', hrep⟩ := ih hrest (by simp at hf; omega)
      have hle : v.expire ≤ cur := not_lt.mp hlt
      refine ⟨l', ?_, by simpa [hle] using hrep⟩
      simp only [tickLoop, hh, hcell, Option.bind_eq_bind, Option.bind_some, if_neg hlt, he]
      dsimp only at hl'
      rw [hl']
      simp [hle]

lemma tick_spec (hr : Represents l xs) (cur : ℤ) :
    ∃ l', tick l cur = some (l', xs.takeWhile fun e => decide (e.2.expire ≤ cur)) ∧
      Represents l' (xs.dropWhile fun e => decide (e.2.expire ≤ cur)) :=
  tickLoop_spec hr (Nat.lt_succ_of_le (hr.chain.length_le hr.nodup))

lemma follow_spec {h : Heap UtilTimer} {before : Option ℕ} {fuel : ℕ} (hc : Chain h before none xs)
    (hf : xs.length < fuel) : follow h fuel (first none xs) = some xs := by
  induction xs generalizing before fuel with
  | nil =>
    obtain ⟨fuel, rfl⟩ : ∃ m, fuel = m + 1 := ⟨fuel - 1, by simp at hf; omega⟩
    rfl
  | cons e xs ih =>
    obtain ⟨fuel, rfl⟩ : ∃ m, fuel = m + 1 := ⟨fuel - 1, by simp at hf; omega⟩
    have hrest := ih hc.2 (Nat.lt_of_succ_lt_succ hf)
    change follow h (fuel + 1) (some e.1) = _
    simp only [follow, hc.1, Option.bind_eq_bind, Option.bind_some, hrest]

lemma walk_spec (hr : Represents l xs) : l.walk = some xs := by
  rw [TimerList.walk, hr.head]
  exact follow_spec hr.chain (Nat.lt_succ_of_le (hr.chain.length_le hr.nodup))

lemma destroyLoop_spec {before : Option ℕ} {fuel : ℕ} (hn : (addrs xs).Nodup) (hc : Chain l.heap before none xs)
    (ho : ∀ p, (l.heap.cell p).isSome → p ∈ addrs xs) (hf : xs.length < fuel) :
    ∃ l', destroyLoop fuel l (first none xs) = some (l', addrs xs) ∧ ∀ p, l'.heap.cell p = none := by
  -- `before` is generalised: the destructor does not touch `prev`, so the rest starts with a dangling one
  induction xs generalizing l before fuel with
  | nil =>
    obtain ⟨fuel, rfl⟩ : ∃ m, fuel = m + 1 := ⟨fuel - 1, by simp at hf; omega⟩
    refine ⟨l, rfl, fun p => ?_⟩
    by_contra hp
    exact absurd (ho p (Option.isSome_iff_ne_none.mpr hp)) List.not_mem_nil
  | cons e xs ih =>
    obtain ⟨fuel, rfl⟩ : ∃ m, fuel = m + 1 := ⟨fuel - 1, by simp at hf; omega⟩
    obtain ⟨hmem, hrest⟩ := List.nodup_cons.mp hn
    have howned : ∀ p, ((l.heap.free e.1).cell p).isSome → p ∈ addrs xs := by
      intro p hp
      by_cases hpe : p = e.1
      · rw [hpe, l.heap.free_self] at hp
        cases hp
      · rw [l.heap.free_of_ne hpe] at hp
        exact (List.mem_cons.mp (ho p hp)).resolve_left hpe
    obtain ⟨l', hl', hnone⟩ := ih (l := ⟨l.heap.free e.1, first none xs, l.tail⟩) hrest (hc.2.free hmem) howned
      (Nat.lt_of_succ_lt_succ hf)
    refine ⟨l', ?_, hnone⟩
    change destroyLoop (fuel + 1) l (some e.1) = _
    simp only [destroyLoop, hc.1, Option.bind_eq_bind, Option.bind_some, hl']
    rfl

lemma destroy_spec (hr : Represents l xs) : ∃ l', destroy l = some (l', addrs xs) ∧ ∀ p, l'.heap.cell p = none := by
  rw [destroy, hr.head]
  exact destroyLoop_spec hr.nodup hr.chain hr.owned (Nat.lt_succ_of_le (hr.chain.length_le hr.nodup))

end Operations

end OceanServer.Timer
