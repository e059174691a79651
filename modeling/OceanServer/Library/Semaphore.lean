import Mathlib.Algebra.BigOperators.Group.Finset.Basic
import Mathlib.Tactic

/-! Threads counted by the place where they stand, and a buffer that is guarded by a counting semaphore:
a producer pushes and then posts, a consumer waits and then pops. -/

namespace OceanServer.Library

section Count

variable {ι P : Type*} [Fintype ι] {p : P → Bool} {place : ι → P} {i : ι}

def count (p : P → Bool) (place : ι → P) : ℕ := ∑ i, (p (place i)).toNat

lemma count_eq_zero (h : ∀ i, p (place i) = false) : count p place = 0 := by
  apply Finset.sum_eq_zero
  intro i _
  rw [h i, Bool.toNat_false]

lemma exists_of_count_pos (h : 0 < count p place) : ∃ i, p (place i) = true := by
  by_contra hn
  rw [count_eq_zero fun i => Bool.eq_false_iff.mpr fun hp => hn ⟨i, hp⟩] at h
  exact Nat.lt_irrefl 0 h

lemma count_lt (h : p (place i) = false) : count p place < Fintype.card ι := by
  have hle : ∀ j ∈ Finset.univ, (p (place j)).toNat ≤ 1 := fun j _ => Bool.toNat_le _
  have hlt : (p (place i)).toNat < 1 := by
    rw [h]
    exact Nat.zero_lt_one
  calc count p place < ∑ _j : ι, 1 := Finset.sum_lt_sum hle ⟨i, Finset.mem_univ i, hlt⟩
    _ = Fintype.card ι := Finset.card_eq_sum_ones Finset.univ |>.symm

variable [DecidableEq ι]

lemma count_eq_add (p : P → Bool) (place : ι → P) (i : ι) :
    count p place = (p (place i)).toNat + ∑ j ∈ Finset.univ.erase i, (p (place j)).toNat :=
  (Finset.add_sum_erase _ _ (Finset.mem_univ i)).symm

lemma count_move (p : P → Bool) {u : P} (hi : place i = u) (v : P) :
    count p (Function.update place i v) + (p u).toNat = count p place + (p v).toNat := by
  have hrest : ∑ j ∈ Finset.univ.erase i, (p (Function.update place i v j)).toNat =
      ∑ j ∈ Finset.univ.erase i, (p (place j)).toNat := by
    apply Finset.sum_congr rfl
    intro j hj
    rw [Function.update_of_ne (Finset.ne_of_mem_erase hj)]
  rw [count_eq_add p _ i, count_eq_add p place i, hrest, Function.update_self, hi]
  omega

lemma count_pos (h : p (place i) = true) : 0 < count p place := by
  rw [count_eq_add p place i, h, Bool.toNat_true]
  omega

end Count

section Buffer

/-- `woken` consumers have waited and not yet popped, `posting` producers have pushed and not yet posted. -/
structure Buffer (α : Type*) where
  items : List α
  permits : ℕ
  woken : ℕ
  posting : ℕ

variable {α : Type*} {b c : Buffer α}

inductive Buffer.Step (b c : Buffer α) : Prop
  | push (x : α) : c.items = b.items ++ [x] → c.permits = b.permits → c.woken = b.woken →
      c.posting = b.posting + 1 → Step b c
  | post : c.items = b.items → c.permits = b.permits + 1 → c.woken = b.woken →
      c.posting + 1 = b.posting → Step b c
  | wait : c.items = b.items → c.permits + 1 = b.permits → c.woken = b.woken + 1 →
      c.posting = b.posting → Step b c
  | pop (x : α) : b.items = x :: c.items → c.permits = b.permits → c.woken + 1 = b.woken →
      c.posting = b.posting → Step b c

def Buffer.Balanced (b : Buffer α) : Prop := b.items.length = b.permits + b.woken + b.posting

lemma Buffer.Step.balanced (hs : b.Step c) (h : b.Balanced) : c.Balanced := by
  unfold Buffer.Balanced at h ⊢
  cases hs with
  | push x hi hp hw hq =>
    rw [hi, List.length_append, List.length_singleton]
    omega
  | post hi hp hw hq | wait hi hp hw hq =>
    rw [hi]
    omega
  | pop x hi hp hw hq =>
    rw [hi, List.length_cons] at h
    omega

lemma Buffer.Step.surplus (hs : b.Step c) :
    c.items.length + (b.permits + b.woken + b.posting) = b.items.length + (c.permits + c.woken + c.posting) := by
  cases hs with
  | push x hi hp hw hq =>
    rw [hi, List.length_append, List.length_singleton]
    omega
  | post hi hp hw hq | wait hi hp hw hq =>
    rw [hi]
    omega
  | pop x hi hp hw hq =>
    rw [hi, List.length_cons]
    omega

lemma Buffer.Balanced.next (h : b.Balanced) (hs : b.Step c ∨ c = b) : c.Balanced := by
  obtain hstep | rfl := hs
  · exact hstep.balanced h
  · exact h

lemma Buffer.Balanced.ne_nil (h : b.Balanced) (hw : 0 < b.woken) : b.items ≠ [] := by
  unfold Buffer.Balanced at h
  apply List.ne_nil_of_length_pos
  omega

lemma Buffer.Balanced.under_way (h : b.Balanced) (hi : b.items ≠ []) :
    0 < b.permits ∨ 0 < b.woken ∨ 0 < b.posting := by
  unfold Buffer.Balanced at h
  have hpos := List.length_pos_of_ne_nil hi
  omega

end Buffer

section Shared

variable {ι α : Type*} {all idle : List α} {held : ι → Option α} {i : ι} {x : α}

structure Shared (all idle : List α) (held : ι → Option α) : Prop where
  nodup : idle.Nodup
  apart : ∀ x ∈ idle, ∀ i, held i ≠ some x
  single : ∀ i j x, held i = some x → held j = some x → i = j
  mem : ∀ x, x ∈ all ↔ x ∈ idle ∨ ∃ i, held i = some x

lemma shared_start (h : all.Nodup) : Shared all all (fun _ : ι => none) where
  nodup := h
  apart := fun _ _ _ => nofun
  single := fun _ _ _ => nofun
  mem := fun _ => ⟨.inl, fun h => h.elim id fun ⟨_, hi⟩ => by cases hi⟩

lemma Shared.perm {idle' : List α} (h : Shared all idle held) (hp : idle.Perm idle') : Shared all idle' held where
  nodup := hp.nodup_iff.mp h.nodup
  apart := fun x hx i => h.apart x (hp.mem_iff.mpr hx) i
  single := h.single
  mem := fun x => by rw [h.mem x, hp.mem_iff]

variable [DecidableEq ι]

lemma update_eq_some {o : Option α} {j : ι} :
    Function.update held i o j = some x ↔ (j = i ∧ o = some x) ∨ (j ≠ i ∧ held j = some x) := by
  by_cases hji : j = i
  · subst hji
    simp
  · simp [hji]

lemma Shared.take (h : Shared all (x :: idle) held) (hi : held i = none) :
    Shared all idle (Function.update held i (some x)) := by
  obtain ⟨hx, hnd⟩ := List.nodup_cons.mp h.nodup
  have hfree : ∀ j, held j ≠ some x := h.apart x List.mem_cons_self
  refine ⟨hnd, fun y hy j hj => ?_, fun j k y hj hk => ?_, fun y => ?_⟩
  · obtain ⟨-, heq⟩ | ⟨-, hj⟩ := update_eq_some.mp hj
    · cases heq
      exact hx hy
    · exact h.apart y (List.mem_cons_of_mem _ hy) j hj
  · obtain ⟨rfl, heq⟩ | ⟨-, hj⟩ := update_eq_some.mp hj
    · cases heq
      obtain ⟨hki, -⟩ | ⟨-, hk⟩ := update_eq_some.mp hk
      · exact hki.symm
      · exact absurd hk (hfree k)
    · obtain ⟨-, heq⟩ | ⟨-, hk⟩ := update_eq_some.mp hk
      · cases heq
        exact absurd hj (hfree j)
      · exact h.single j k y hj hk
  · rw [h.mem y, List.mem_cons, or_assoc, or_left_comm]
    apply or_congr Iff.rfl
    constructor
    · rintro (rfl | ⟨j, hj⟩)
      · exact ⟨i, Function.update_self _ _ _⟩
      · exact ⟨j, update_eq_some.mpr (.inr ⟨fun hji => (by rw [hji, hi] at hj; cases hj), hj⟩)⟩
    · rintro ⟨j, hj⟩
      obtain ⟨-, heq⟩ | ⟨-, hj⟩ := update_eq_some.mp hj
      · exact .inl (Option.some.inj heq).symm
      · exact .inr ⟨j, hj⟩

lemma Shared.give (h : Shared all idle held) (hi : held i = some x) :
    Shared all (idle ++ [x]) (Function.update held i none) := by
  have hx : x ∉ idle := fun hmem => h.apart x hmem i hi
  have hout : ∀ {j y}, Function.update held i none j = some y → j ≠ i ∧ held j = some y := by
    intro j y hj
    obtain ⟨-, heq⟩ | hj := update_eq_some.mp hj
    · cases heq
    · exact hj
  refine ⟨?_, fun y hy j hj => ?_, fun j k y hj hk => h.single j k y (hout hj).2 (hout hk).2, fun y => ?_⟩
  · rw [List.nodup_append]
    refine ⟨h.nodup, List.nodup_singleton _, ?_⟩
    rintro y hy z hz rfl
    rw [List.mem_singleton.mp hz] at hy
    exact hx hy
  · obtain ⟨hji, hj⟩ := hout hj
    rw [List.mem_append, List.mem_singleton] at hy
    obtain hy | rfl := hy
    · exact h.apart y hy j hj
    · exact hji (h.single j i y hj hi)
  · rw [h.mem y, List.mem_append, List.mem_singleton, or_assoc]
    apply or_congr Iff.rfl
    constructor
    · rintro ⟨j, hj⟩
      by_cases hji : j = i
      · rw [hji, hi] at hj
        exact .inl (Option.some.inj hj).symm
      · exact .inr ⟨j, update_eq_some.mpr (.inr ⟨hji, hj⟩)⟩
    · rintro (rfl | ⟨j, hj⟩)
      · exact ⟨i, hi⟩
      · exact ⟨j, (hout hj).2⟩

end Shared

end OceanServer.Library
