import Mathlib.Tactic

/-! Registers that keep, of the values they are offered, one with the greatest stamp. -/

namespace OceanServer.Library.Latest

variable {α κ K : Type*} [LinearOrder κ] [DecidableEq K] (stamp : α → κ)

def offer : Option α → α → Option α
  | none, new => some new
  | some old, new => if stamp old < stamp new then some new else some old

def put (store : K → Option α) (k : K) (new : α) : K → Option α :=
  Function.update store k (offer stamp (store k) new)

def IsLatest (xs : List α) (x : α) : Prop := x ∈ xs ∧ ∀ y ∈ xs, stamp y ≤ stamp x

lemma foldl_offer_cons (x : α) (xs : List α) : ∃ y, (x :: xs).foldl (offer stamp) none = some y := by
  induction xs using List.reverseRecOn with
  | nil => exact ⟨x, rfl⟩
  | append_singleton xs z ih =>
    obtain ⟨y, hy⟩ := ih
    rw [← List.cons_append, List.foldl_append, hy, List.foldl_cons, List.foldl_nil, offer]
    split
    · exact ⟨z, rfl⟩
    · exact ⟨y, rfl⟩

variable {stamp}

lemma IsLatest.keep {xs : List α} {x y : α} (h : IsLatest stamp xs x) (hy : stamp y ≤ stamp x) :
    IsLatest stamp (xs ++ [y]) x := by
  refine ⟨List.mem_append_left _ h.1, fun z hz => ?_⟩
  rcases List.mem_append.mp hz with hz | hz
  · exact h.2 z hz
  · rwa [List.mem_singleton.mp hz]

lemma IsLatest.replace {xs : List α} {x y : α} (h : IsLatest stamp xs x) (hy : stamp x < stamp y) :
    IsLatest stamp (xs ++ [y]) y := by
  refine ⟨by simp, fun z hz => ?_⟩
  rcases List.mem_append.mp hz with hz | hz
  · exact (h.2 z hz).trans hy.le
  · rw [List.mem_singleton.mp hz]

lemma isLatest_foldl {xs : List α} {x : α} (h : xs.foldl (offer stamp) none = some x) :
    IsLatest stamp xs x := by
  induction xs using List.reverseRecOn generalizing x with
  | nil => cases h
  | append_singleton xs y ih =>
    rw [List.foldl_append, List.foldl_cons, List.foldl_nil] at h
    cases hx : xs.foldl (offer stamp) none with
    | none =>
      cases xs with
      | nil =>
        cases h
        exact ⟨by simp, by simp⟩
      | cons z zs =>
        obtain ⟨w, hw⟩ := foldl_offer_cons stamp z zs
        rw [hw] at hx
        cases hx
    | some o =>
      rw [hx, offer] at h
      split at h
      · rename_i hlt
        cases h
        exact (ih hx).replace hlt
      · rename_i hle
        cases h
        exact (ih hx).keep (not_lt.mp hle)

def Distinct (stamp : α → κ) (xs : List α) : Prop := ∀ x ∈ xs, ∀ y ∈ xs, stamp x = stamp y → x = y

lemma foldl_offer_eq_some_iff {xs : List α} (hd : Distinct stamp xs) {x : α} :
    xs.foldl (offer stamp) none = some x ↔ IsLatest stamp xs x := by
  constructor
  · exact isLatest_foldl
  · intro h
    cases xs with
    | nil => exact absurd h.1 List.not_mem_nil
    | cons z zs =>
      obtain ⟨y, hy⟩ := foldl_offer_cons stamp z zs
      have hlatest := isLatest_foldl hy
      rw [hy, hd y hlatest.1 x h.1 (le_antisymm (h.2 y hlatest.1) (hlatest.2 x h.1))]

lemma foldl_offer_toList (o : Option α) (xs : List α) :
    xs.foldl (offer stamp) o = (o.toList ++ xs).foldl (offer stamp) none := by
  cases o <;> rfl

lemma le_offer {o : Option α} {x : α} (h : o = some x) (new : α) :
    ∃ y, offer stamp o new = some y ∧ stamp x ≤ stamp y := by
  rw [h, offer]
  split
  · rename_i hlt
    exact ⟨new, rfl, hlt.le⟩
  · exact ⟨x, rfl, le_rfl⟩

end OceanServer.Library.Latest
