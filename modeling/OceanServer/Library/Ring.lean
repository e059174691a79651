import Mathlib.Tactic

/-! A list kept in consecutive cells of an array, counted modulo its length. -/

namespace OceanServer.Library.Ring

variable {α : Type*} {cells l : List α} {start start' : ℕ} {x : α}

structure Holds (cells : List α) (start : ℕ) (l : List α) : Prop where
  fits : l.length ≤ cells.length
  item : ∀ k x, l[k]? = some x → cells[(start + k) % cells.length]? = some x

lemma holds_nil : Holds cells start [] := ⟨Nat.zero_le _, nofun⟩

lemma Holds.congr (h : Holds cells start l) (hmod : start % cells.length = start' % cells.length) :
    Holds cells start' l := by
  refine ⟨h.fits, fun k x hk => ?_⟩
  rw [Nat.add_mod, ← hmod, ← Nat.add_mod]
  exact h.item k x hk

lemma mod_ne {n i j : ℕ} (hij : i < j) (hj : j < n) (start : ℕ) : (start + j) % n ≠ (start + i) % n := by
  intro heq
  have hmod : j % n = i % n := Nat.ModEq.add_left_cancel' start heq
  rw [Nat.mod_eq_of_lt hj, Nat.mod_eq_of_lt (hij.trans hj)] at hmod
  exact hij.ne' hmod

lemma Holds.push (h : Holds cells start l) (hroom : l.length < cells.length) (x : α) :
    Holds (cells.set ((start + l.length) % cells.length) x) start (l ++ [x]) := by
  constructor
  · rw [List.length_append, List.length_singleton, List.length_set]
    exact hroom
  · intro k y hk
    rw [List.length_set]
    obtain hlt | rfl | hgt := Nat.lt_trichotomy k l.length
    · rw [List.getElem?_append_left hlt] at hk
      rw [List.getElem?_set_ne (mod_ne hlt hroom start)]
      exact h.item k y hk
    · rw [List.getElem?_concat_length] at hk
      rw [List.getElem?_set_self (Nat.mod_lt _ ((Nat.zero_le _).trans_lt hroom))]
      exact hk
    · rw [List.getElem?_eq_none (by rw [List.length_append, List.length_singleton]; exact hgt)] at hk
      cases hk

lemma Holds.pop (h : Holds cells start (x :: l)) :
    cells[start % cells.length]? = some x ∧ Holds cells (start + 1) l := by
  refine ⟨h.item 0 x rfl, (Nat.le_succ _).trans h.fits, fun k y hk => ?_⟩
  rw [Nat.add_assoc, Nat.add_comm 1 k]
  exact h.item (k + 1) y hk

/-- Of the elements written one behind the other, the last ones are still in their cells. -/
def Recent (cells l : List α) : Prop :=
  ∀ k x, l.length ≤ k + cells.length → l[k]? = some x → cells[k % cells.length]? = some x

lemma Recent.push (h : Recent cells l) (hpos : 0 < cells.length) (x : α) :
    Recent (cells.set (l.length % cells.length) x) (l ++ [x]) := by
  intro k y hk hy
  rw [List.length_append, List.length_singleton, List.length_set] at hk
  rw [List.length_set]
  obtain hlt | rfl | hgt := Nat.lt_trichotomy k l.length
  · have hne := mod_ne (n := cells.length) (i := 0) (j := l.length - k) (by omega) (by omega) k
    rw [Nat.add_sub_cancel' hlt.le, Nat.add_zero] at hne
    rw [List.getElem?_append_left hlt] at hy
    rw [List.getElem?_set_ne hne]
    exact h k y (by omega) hy
  · rw [List.getElem?_concat_length] at hy
    rw [List.getElem?_set_self (Nat.mod_lt _ hpos)]
    exact hy
  · rw [List.getElem?_eq_none (by rw [List.length_append, List.length_singleton]; exact hgt)] at hy
    cases hy

end OceanServer.Library.Ring
