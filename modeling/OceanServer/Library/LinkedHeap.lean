import Mathlib.Tactic

/-! Doubly linked cells in a heap of addresses, and the chains they form. A chain is cut and joined at
any place, and a write to one end of it changes only what the chain is linked to there. -/

namespace OceanServer.Library.LinkedHeap

variable {α : Type*}

structure Cell (α : Type*) where
  data : α
  prev : Option ℕ
  next : Option ℕ

structure Heap (α : Type*) where
  cell : ℕ → Option (Cell α)
  top : ℕ
  bounded : ∀ p, top ≤ p → cell p = none

namespace Heap

def empty : Heap α := ⟨fun _ => none, 0, fun _ _ => rfl⟩

def store (h : Heap α) (p : ℕ) (c : Cell α) : Heap α where
  cell := Function.update h.cell p (some c)
  top := max h.top (p + 1)
  bounded q hq := by
    rw [Function.update_of_ne (by omega)]
    exact h.bounded q (by omega)

def free (h : Heap α) (p : ℕ) : Heap α where
  cell := Function.update h.cell p none
  top := h.top
  bounded q hq := by
    by_cases hqp : q = p
    · rw [hqp, Function.update_self]
    · rw [Function.update_of_ne hqp]
      exact h.bounded q hq

def modify (h : Heap α) (p : ℕ) (f : Cell α → Cell α) : Option (Heap α) :=
  (h.cell p).map fun c => h.store p (f c)

def setPrev (h : Heap α) (p : ℕ) (q : Option ℕ) : Option (Heap α) := h.modify p ({ · with prev := q })
def setNext (h : Heap α) (p : ℕ) (q : Option ℕ) : Option (Heap α) := h.modify p ({ · with next := q })
def setData (h : Heap α) (p : ℕ) (a : α) : Option (Heap α) := h.modify p ({ · with data := a })

lemma store_self (h : Heap α) (p : ℕ) (c : Cell α) : (h.store p c).cell p = some c :=
  Function.update_self _ _ _

lemma store_of_ne (h : Heap α) {p r : ℕ} (c : Cell α) (hr : r ≠ p) : (h.store p c).cell r = h.cell r :=
  Function.update_of_ne hr _ _

lemma free_self (h : Heap α) (p : ℕ) : (h.free p).cell p = none := Function.update_self _ _ _

lemma free_of_ne (h : Heap α) {p r : ℕ} (hr : r ≠ p) : (h.free p).cell r = h.cell r :=
  Function.update_of_ne hr _ _

end Heap

structure Rewrites (h h' : Heap α) (p : ℕ) : Prop where
  frame : ∀ r, r ≠ p → h'.cell r = h.cell r
  domain : ∀ r, (h'.cell r).isSome = (h.cell r).isSome

lemma modify_spec {h : Heap α} {p : ℕ} {c : Cell α} (hc : h.cell p = some c) (f : Cell α → Cell α) :
    ∃ h', h.modify p f = some h' ∧ h'.cell p = some (f c) ∧ Rewrites h h' p := by
  refine ⟨h.store p (f c), by rw [Heap.modify, hc]; rfl, h.store_self p _, ?_, fun r => ?_⟩
  · exact fun r hr => h.store_of_ne _ hr
  · by_cases hr : r = p
    · rw [hr, hc, h.store_self]
      rfl
    · rw [h.store_of_ne _ hr]

def first (after : Option ℕ) : List (ℕ × α) → Option ℕ
  | [] => after
  | e :: _ => some e.1

def final (before : Option ℕ) : List (ℕ × α) → Option ℕ
  | [] => before
  | e :: xs => final (some e.1) xs

def addrs (xs : List (ℕ × α)) : List ℕ := xs.map Prod.fst

/-- The entries of `xs` are linked in this order, between `before` and `after`. -/
def Chain (h : Heap α) (before after : Option ℕ) : List (ℕ × α) → Prop
  | [] => True
  | e :: xs => h.cell e.1 = some ⟨e.2, before, first after xs⟩ ∧ Chain h (some e.1) after xs

@[simp] lemma addrs_nil : addrs ([] : List (ℕ × α)) = [] := rfl

@[simp] lemma addrs_cons (e : ℕ × α) (xs : List (ℕ × α)) : addrs (e :: xs) = e.1 :: addrs xs := rfl

@[simp] lemma addrs_append (xs ys : List (ℕ × α)) : addrs (xs ++ ys) = addrs xs ++ addrs ys :=
  List.map_append

lemma first_append (after : Option ℕ) (xs ys : List (ℕ × α)) :
    first after (xs ++ ys) = first (first after ys) xs := by
  cases xs <;> rfl

lemma final_append (before : Option ℕ) (xs ys : List (ℕ × α)) :
    final before (xs ++ ys) = final (final before xs) ys := by
  induction xs generalizing before with
  | nil => rfl
  | cons e xs ih => exact ih (some e.1)

lemma final_cons (before : Option ℕ) (e : ℕ × α) (xs : List (ℕ × α)) :
    final before (e :: xs) = final (some e.1) xs := rfl

lemma final_of_ne_nil {xs : List (ℕ × α)} (h : xs ≠ []) (b b' : Option ℕ) : final b xs = final b' xs := by
  cases xs with
  | nil => exact absurd rfl h
  | cons e xs => rfl

lemma chain_append {h : Heap α} {before after : Option ℕ} {xs ys : List (ℕ × α)} :
    Chain h before after (xs ++ ys) ↔
      Chain h before (first after ys) xs ∧ Chain h (final before xs) after ys := by
  induction xs generalizing before with
  | nil => simp [Chain, final]
  | cons e xs ih =>
    simp only [List.cons_append, Chain, final, first_append, ih, and_assoc]

lemma Chain.congr {h h' : Heap α} {before after : Option ℕ} {xs : List (ℕ × α)}
    (hc : Chain h before after xs) (hh : ∀ p ∈ addrs xs, h'.cell p = h.cell p) :
    Chain h' before after xs := by
  induction xs generalizing before with
  | nil => trivial
  | cons e xs ih =>
    refine ⟨(hh e.1 List.mem_cons_self).trans hc.1, ih hc.2 fun p hp => ?_⟩
    exact hh p (List.mem_cons_of_mem _ hp)

lemma Chain.frame {h h' : Heap α} {before after : Option ℕ} {xs : List (ℕ × α)} {p : ℕ}
    (hc : Chain h before after xs) (hw : Rewrites h h' p) (hp : p ∉ addrs xs) :
    Chain h' before after xs :=
  hc.congr fun r hr => hw.frame r fun he => hp (he ▸ hr)

lemma Chain.free {h : Heap α} {before after : Option ℕ} {xs : List (ℕ × α)} {p : ℕ}
    (hc : Chain h before after xs) (hp : p ∉ addrs xs) : Chain (h.free p) before after xs :=
  hc.congr fun _ hr => h.free_of_ne fun he => hp (he ▸ hr)

lemma Chain.allocated {h : Heap α} {before after : Option ℕ} {xs : List (ℕ × α)}
    (hc : Chain h before after xs) {p : ℕ} (hp : p ∈ addrs xs) : (h.cell p).isSome := by
  induction xs generalizing before with
  | nil => cases hp
  | cons e xs ih =>
    rcases List.mem_cons.mp hp with rfl | hp
    · rw [hc.1]
      rfl
    · exact ih hc.2 hp

lemma Chain.length_le {h : Heap α} {before after : Option ℕ} {xs : List (ℕ × α)}
    (hc : Chain h before after xs) (hn : (addrs xs).Nodup) : xs.length ≤ h.top := by
  have hsub : addrs xs ⊆ List.range h.top := by
    intro p hp
    rw [List.mem_range]
    by_contra hge
    have hs := hc.allocated hp
    rw [h.bounded p (not_lt.mp hge)] at hs
    cases hs
  simpa [addrs] using (hn.subperm hsub).length_le

def Heap.next (h : Heap α) (p : ℕ) : Option ℕ := (h.cell p).bind Cell.next
def Heap.prev (h : Heap α) (p : ℕ) : Option ℕ := (h.cell p).bind Cell.prev

lemma Chain.cell_eq {h : Heap α} {before after : Option ℕ} {xs ys : List (ℕ × α)} {p : ℕ} {a : α}
    (hc : Chain h before after (xs ++ (p, a) :: ys)) :
    h.cell p = some ⟨a, final before xs, first after ys⟩ := (chain_append.mp hc).2.1

lemma Chain.next_iff_prev {h : Heap α} {xs : List (ℕ × α)} (hc : Chain h none none xs)
    (ho : ∀ p, (h.cell p).isSome → p ∈ addrs xs) (p q : ℕ) : h.next p = some q ↔ h.prev q = some p := by
  have hmem : ∀ {r : ℕ} {f : Cell α → Option ℕ} {s : ℕ}, (h.cell r).bind f = some s →
      ∃ us a vs, xs = us ++ (r, a) :: vs := by
    intro r f s hs
    obtain ⟨c, hr, -⟩ := Option.bind_eq_some_iff.mp hs
    obtain ⟨⟨r, a⟩, hm, rfl⟩ := List.mem_map.mp (ho r (by rw [hr]; rfl))
    obtain ⟨us, vs, rfl⟩ := List.append_of_mem hm
    exact ⟨us, a, vs, rfl⟩
  constructor
  · intro hn
    obtain ⟨us, a, vs, rfl⟩ := hmem hn
    rw [Heap.next, hc.cell_eq] at hn
    cases vs with
    | nil => cases hn
    | cons e vs =>
      obtain rfl : e.1 = q := Option.some.inj hn
      have hq := (chain_append.mp hc).2.2.1
      rw [Heap.prev, hq]
      rfl
  · intro hp
    obtain ⟨us, d, vs, rfl⟩ := hmem hp
    rw [Heap.prev, hc.cell_eq] at hp
    rcases List.eq_nil_or_concat us with rfl | ⟨us, e, rfl⟩
    · cases hp
    · rw [List.concat_eq_append] at hc hp
      change final none (us ++ [e]) = some p at hp
      rw [final_append] at hp
      obtain rfl : e.1 = p := Option.some.inj hp
      rw [List.append_assoc] at hc
      rw [Heap.next, Chain.cell_eq (a := e.2) hc]
      rfl

section Writes

variable {h : Heap α} {before before' after after' : Option ℕ} {xs ys : List (ℕ × α)} {p q t : ℕ} {a d v : α}

lemma Chain.setPrev (hc : Chain h before after ((p, a) :: xs)) (hp : p ∉ addrs xs) (q : Option ℕ) :
    ∃ h', h.setPrev p q = some h' ∧ Rewrites h h' p ∧ Chain h' q after ((p, a) :: xs) := by
  obtain ⟨h', he, hcell, hw⟩ := modify_spec hc.1 ({ · with prev := q })
  exact ⟨h', he, hw, hcell, hc.2.frame hw hp⟩

lemma Chain.setNext (hc : Chain h before after (xs ++ [(p, a)])) (hp : p ∉ addrs xs) (q : Option ℕ) :
    ∃ h', h.setNext p q = some h' ∧ Rewrites h h' p ∧ Chain h' before q (xs ++ [(p, a)]) := by
  obtain ⟨hx, hcell, -⟩ := chain_append.mp hc
  obtain ⟨h', he, hcell', hw⟩ := modify_spec hcell ({ · with next := q })
  exact ⟨h', he, hw, chain_append.mpr ⟨hx.frame hw hp, hcell', trivial⟩⟩

lemma Chain.setPrev_one (hc : Chain h before after [(p, a)]) (q : Option ℕ) :
    ∃ h', h.setPrev p q = some h' ∧ Rewrites h h' p ∧ Chain h' q after [(p, a)] :=
  hc.setPrev List.not_mem_nil q

lemma Chain.setNext_one (hc : Chain h before after [(p, a)]) (q : Option ℕ) :
    ∃ h', h.setNext p q = some h' ∧ Rewrites h h' p ∧ Chain h' before q [(p, a)] := by
  rw [← List.nil_append [(p, a)]] at hc
  exact hc.setNext List.not_mem_nil q

lemma Chain.setData (hc : Chain h before after (xs ++ (p, a) :: ys)) (hp : p ∉ addrs xs)
    (hp' : p ∉ addrs ys) (b : α) :
    ∃ h', h.setData p b = some h' ∧ Rewrites h h' p ∧ Chain h' before after (xs ++ (p, b) :: ys) := by
  obtain ⟨hx, hcell, hy⟩ := chain_append.mp hc
  obtain ⟨h', he, hcell', hw⟩ := modify_spec hcell ({ · with data := b })
  exact ⟨h', he, hw, chain_append.mpr ⟨hx.frame hw hp, hcell', hy.frame hw hp'⟩⟩

lemma Chain.insert {b n : Option ℕ} (hx : Chain h before after' (xs ++ [(p, a)]))
    (hy : Chain h before' after ((q, d) :: ys)) (ht : h.cell t = some ⟨v, b, n⟩)
    (hn : (addrs (xs ++ (p, a) :: (t, v) :: (q, d) :: ys)).Nodup) :
    ∃ h₁ h₂ h₃ h₄, h.setNext p (some t) = some h₁ ∧ h₁.setNext t (some q) = some h₂ ∧
      h₂.setPrev q (some t) = some h₃ ∧ h₃.setPrev t (some p) = some h₄ ∧
      (∀ r, (h₄.cell r).isSome = (h.cell r).isSome) ∧
      Chain h₄ before after (xs ++ (p, a) :: (t, v) :: (q, d) :: ys) := by
  simp only [addrs_append, addrs_cons, List.nodup_append, List.nodup_cons, List.mem_cons, not_or] at hn
  obtain ⟨-, ⟨⟨hpt, hpq, hpy⟩, ⟨htq, hty⟩, hqy, -⟩, hdis⟩ := hn
  have hpx : p ∉ addrs xs := fun hm => hdis p hm p (.inl rfl) rfl
  have htx : t ∉ addrs xs := fun hm => hdis t hm t (.inr (.inl rfl)) rfl
  have hqx : q ∉ addrs xs := fun hm => hdis q hm q (.inr (.inr (.inl rfl))) rfl
  have htc : Chain h b n [(t, v)] := ⟨ht, trivial⟩
  obtain ⟨h₁, e₁, w₁, hx₁⟩ := hx.setNext hpx (some t)
  have hy₁ := hy.frame w₁ (by simp [hpq, hpy])
  have ht₁ := htc.frame w₁ (by simp [hpt])
  obtain ⟨h₂, e₂, w₂, ht₂⟩ := ht₁.setNext_one (some q)
  have hx₂ := hx₁.frame w₂ (by simp [htx, Ne.symm hpt])
  have hy₂ := hy₁.frame w₂ (by simp [htq, hty])
  obtain ⟨h₃, e₃, w₃, hy₃⟩ := hy₂.setPrev hqy (some t)
  have hx₃ := hx₂.frame w₃ (by simp [hqx, Ne.symm hpq])
  have ht₃ := ht₂.frame w₃ (by simp [Ne.symm htq])
  obtain ⟨h₄, e₄, w₄, ht₄⟩ := ht₃.setPrev_one (some p)
  have hx₄ := hx₃.frame w₄ (by simp [htx, Ne.symm hpt])
  have hy₄ := hy₃.frame w₄ (by simp [htq, hty])
  refine ⟨h₁, h₂, h₃, h₄, e₁, e₂, e₃, e₄, fun r => ?_, ?_⟩
  · rw [w₄.domain, w₃.domain, w₂.domain, w₁.domain]
  · rw [chain_append] at hx₄ ⊢
    exact ⟨hx₄.1, hx₄.2.1, ht₄.1, hy₄⟩

lemma Chain.append {b n : Option ℕ} (hx : Chain h before after (xs ++ [(p, a)]))
    (ht : h.cell t = some ⟨v, b, n⟩) (hn : (addrs (xs ++ [(p, a), (t, v)])).Nodup) :
    ∃ h₁ h₂ h₃, h.setNext p (some t) = some h₁ ∧ h₁.setPrev t (some p) = some h₂ ∧
      h₂.setNext t none = some h₃ ∧ (∀ r, (h₃.cell r).isSome = (h.cell r).isSome) ∧
      Chain h₃ before none (xs ++ [(p, a), (t, v)]) := by
  simp only [addrs_append, addrs_cons, List.nodup_append, List.nodup_cons, List.mem_cons, not_or] at hn
  obtain ⟨-, ⟨⟨hpt, -⟩, -⟩, hdis⟩ := hn
  have hpx : p ∉ addrs xs := fun hm => hdis p hm p (.inl rfl) rfl
  have htx : t ∉ addrs xs := fun hm => hdis t hm t (.inr (.inl rfl)) rfl
  have htc : Chain h b n [(t, v)] := ⟨ht, trivial⟩
  obtain ⟨h₁, e₁, w₁, hx₁⟩ := hx.setNext hpx (some t)
  have ht₁ := htc.frame w₁ (by simp [hpt])
  obtain ⟨h₂, e₂, w₂, ht₂⟩ := ht₁.setPrev_one (some p)
  have hx₂ := hx₁.frame w₂ (by simp [htx, Ne.symm hpt])
  obtain ⟨h₃, e₃, w₃, ht₃⟩ := ht₂.setNext_one none
  have hx₃ := hx₂.frame w₃ (by simp [htx, Ne.symm hpt])
  refine ⟨h₁, h₂, h₃, e₁, e₂, e₃, fun r => ?_, ?_⟩
  · rw [w₃.domain, w₂.domain, w₁.domain]
  · rw [chain_append] at hx₃ ⊢
    exact ⟨hx₃.1, hx₃.2.1, ht₃.1, trivial⟩

lemma Chain.unlink (hc : Chain h before after (xs ++ (p, a) :: (t, v) :: (q, d) :: ys))
    (hn : (addrs (xs ++ (p, a) :: (t, v) :: (q, d) :: ys)).Nodup) :
    h.cell t = some ⟨v, some p, some q⟩ ∧
      ∃ h₁ h₂, h.setNext p (some q) = some h₁ ∧ h₁.cell t = h.cell t ∧ h₁.setPrev q (some p) = some h₂ ∧
        h₂.cell t = h.cell t ∧ (∀ r, (h₂.cell r).isSome = (h.cell r).isSome) ∧
        Chain h₂ before after (xs ++ (p, a) :: (q, d) :: ys) := by
  simp only [addrs_append, addrs_cons, List.nodup_append, List.nodup_cons, List.mem_cons, not_or] at hn
  obtain ⟨-, ⟨⟨hpt, hpq, hpy⟩, ⟨htq, hty⟩, hqy, -⟩, hdis⟩ := hn
  have hpx : p ∉ addrs xs := fun hm => hdis p hm p (.inl rfl) rfl
  have hqx : q ∉ addrs xs := fun hm => hdis q hm q (.inr (.inr (.inl rfl))) rfl
  obtain ⟨hx, hp, ht, hy⟩ := chain_append.mp hc
  have hxp : Chain h before (some t) (xs ++ [(p, a)]) := chain_append.mpr ⟨hx, hp, trivial⟩
  obtain ⟨h₁, e₁, w₁, hx₁⟩ := hxp.setNext hpx (some q)
  have hy₁ : Chain h₁ (some t) after ((q, d) :: ys) := hy.frame w₁ (by simp [hpq, hpy])
  obtain ⟨h₂, e₂, w₂, hy₂⟩ := hy₁.setPrev hqy (some p)
  have hx₂ := hx₁.frame w₂ (by simp [hqx, Ne.symm hpq])
  refine ⟨ht, h₁, h₂, e₁, w₁.frame t (Ne.symm hpt), e₂, ?_, fun r => ?_, ?_⟩
  · rw [w₂.frame t htq, w₁.frame t (Ne.symm hpt)]
  · rw [w₂.domain, w₁.domain]
  · rw [chain_append] at hx₂ ⊢
    exact ⟨hx₂.1, hx₂.2.1, hy₂⟩

end Writes

end OceanServer.Library.LinkedHeap
