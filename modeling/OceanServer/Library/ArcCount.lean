import OceanServer.Library.OrderedMap
import Mathlib.Order.Interval.Finset.Fin

/-! How many of the numbers below `n` the search that goes round takes to given entries. -/

namespace OceanServer.Library.OrderedMap

open Finset

variable {n : ℕ} {α : Type*} {x : Fin n} {e : Fin n × α} {l : List (Fin n × α)}

/-- The lengths of the arcs that end at the entries selected, the first of them starting at `x`. -/
def arcSum (p : α → Bool) : Fin n → List (Fin n × α) → ℕ
  | _, [] => 0
  | x, e :: l => (if p e.2 then (e.1 : ℕ) - x else 0) + arcSum p e.1 l

def above (p : α → Bool) (x : Fin n) (l : List (Fin n × α)) : Finset (Fin n) :=
  univ.filter fun h => x < h ∧ (l.find? (h ≤ ·.1)).any (p ·.2) = true

lemma mem_above {p : α → Bool} {h : Fin n} :
    h ∈ above p x l ↔ x < h ∧ (l.find? (h ≤ ·.1)).any (p ·.2) = true := by
  rw [above, Finset.mem_filter, and_iff_right (mem_univ h)]

lemma mem_ite_empty {c : Prop} [Decidable c] {s : Finset (Fin n)} {h : Fin n} :
    h ∈ (if c then s else ∅) ↔ c ∧ h ∈ s := by
  split
  · rename_i hc
    exact (and_iff_right hc).symm
  · rename_i hc
    exact iff_of_false (notMem_empty h) fun hand => hc hand.1

lemma above_cons (hx : x < e.1) (p : α → Bool) :
    above p x (e :: l) = (if p e.2 then Ioc x e.1 else ∅) ∪ above p e.1 l := by
  ext h
  rw [mem_union, mem_above, mem_above, mem_ite_empty, mem_Ioc]
  by_cases hle : h ≤ e.1
  · have hfind : (e :: l).find? (h ≤ ·.1) = some e := List.find?_cons_of_pos (decide_eq_true hle)
    rw [hfind, Option.any_some]
    simp only [hle, not_lt.mpr hle, false_and, or_false, and_true]
    exact and_comm
  · have hfind : (e :: l).find? (h ≤ ·.1) = l.find? (h ≤ ·.1) := List.find?_cons_of_neg (by simpa using hle)
    have hlt := not_le.mp hle
    rw [hfind]
    simp only [hle, hlt, hx.trans hlt, and_false, false_or, true_and]

lemma above_cons_disjoint (p : α → Bool) : Disjoint (if p e.2 then Ioc x e.1 else ∅) (above p e.1 l) := by
  apply disjoint_left.mpr
  intro h hin hout
  have hle := (mem_Ioc.mp (mem_ite_empty.mp hin).2).2
  exact absurd (mem_above.mp hout).1 (not_lt.mpr hle)

lemma card_above (p : α → Bool) (hl : (e :: l).Pairwise fun a b => a.1 < b.1) :
    #(above p e.1 l) = arcSum p e.1 l := by
  induction l generalizing e with
  | nil => simp [above, arcSum]
  | cons f l ih =>
    obtain ⟨hlt, hl⟩ := List.pairwise_cons.mp hl
    rw [above_cons (hlt f List.mem_cons_self), card_union_of_disjoint (above_cons_disjoint p), ih hl, arcSum]
    split <;> simp

lemma arcSum_all {last : Fin n × α} (hl : (e :: l).Pairwise fun a b => a.1 < b.1)
    (hlast : (e :: l).getLast? = some last) : (e.1 : ℕ) + arcSum (fun _ => true) e.1 l = last.1 := by
  induction l generalizing e with
  | nil =>
    cases hlast
    rfl
  | cons f l ih =>
    obtain ⟨hlt, hl⟩ := List.pairwise_cons.mp hl
    rw [List.getLast?_cons_cons] at hlast
    have hlt : (e.1 : ℕ) < f.1 := hlt f List.mem_cons_self
    have hrest := ih hl hlast
    rw [arcSum, if_pos rfl]
    omega

section Round

variable {m : OrderedMap (Fin n) α} {last : Fin n × α} {h : Fin n}

lemma around_below (hm : m.entries = e :: l) (hle : h ≤ e.1) : m.around h = some e := by
  have hfind : (e :: l).find? (h ≤ ·.1) = some e := List.find?_cons_of_pos (decide_eq_true hle)
  rw [around, lowerBound, hm, hfind, Option.some_or]

lemma around_beyond (hm : m.entries = e :: l) (hlast : m.rbegin = some last) (hlt : last.1 < h) :
    m.around h = some e ∧ l.find? (h ≤ ·.1) = none := by
  have hmax := (rbegin_spec hlast).2
  have hnone : (e :: l).find? (h ≤ ·.1) = none := by
    apply List.find?_eq_none.mpr
    intro f hf
    rw [decide_eq_true_eq, not_le]
    exact (hmax f (hm ▸ hf : f ∈ m.entries)).trans_lt hlt
  refine ⟨?_, List.find?_eq_none.mpr fun f hf => List.find?_eq_none.mp hnone f (List.mem_cons_of_mem e hf)⟩
  rw [around, lowerBound, begin, hm, hnone]
  rfl

lemma around_between (hm : m.entries = e :: l) (hlast : m.rbegin = some last) (hlt : e.1 < h) (hle : h ≤ last.1) :
    m.around h = l.find? (h ≤ ·.1) := by
  have hcons : (e :: l).find? (h ≤ ·.1) = l.find? (h ≤ ·.1) :=
    List.find?_cons_of_neg (by simpa using hlt)
  have hmem : last ∈ e :: l := hm ▸ (rbegin_spec hlast).1
  have hsome : ((e :: l).find? (h ≤ ·.1)).isSome := by
    rw [List.find?_isSome]
    exact ⟨last, hmem, decide_eq_true hle⟩
  rw [around, lowerBound, hm, Option.or_of_isSome hsome, hcons]

lemma filter_around (hm : m.entries = e :: l) (hlast : m.rbegin = some last) (p : α → Bool) :
    (univ.filter fun h => (m.around h).any (p ·.2) = true) =
      (if p e.2 then Iic e.1 ∪ Ioi last.1 else ∅) ∪ above p e.1 l := by
  have hle : e.1 ≤ last.1 := (rbegin_spec hlast).2 e (hm ▸ List.mem_cons_self : e ∈ m.entries)
  ext h
  rw [Finset.mem_filter, and_iff_right (mem_univ h), mem_union, mem_ite_empty, mem_union, mem_Iic, mem_Ioi, mem_above]
  obtain hbelow | hlt := le_or_gt h e.1
  · rw [around_below hm hbelow, Option.any_some]
    simp only [hbelow, not_lt.mpr hbelow, true_or, and_true, false_and, or_false]
  obtain hbetween | hbeyond := le_or_gt h last.1
  · rw [around_between hm hlast hlt hbetween]
    simp only [not_le.mpr hlt, not_lt.mpr hbetween, hlt, or_self, and_false, false_or, true_and]
  · obtain ⟨haround, hnone⟩ := around_beyond hm hlast hbeyond
    rw [haround, hnone, Option.any_some, Option.any_none]
    simp only [hbeyond, or_true, and_true, Bool.false_eq_true, and_false, or_false]

lemma card_around (hm : m.entries = e :: l) (hlast : m.rbegin = some last) (p : α → Bool) :
    #(univ.filter fun h => (m.around h).any (p ·.2) = true) =
      (if p e.2 then n - ((last.1 : ℕ) - e.1) else 0) + arcSum p e.1 l := by
  have hle : e.1 ≤ last.1 := (rbegin_spec hlast).2 e (hm ▸ List.mem_cons_self : e ∈ m.entries)
  have hends : Disjoint (Iic e.1) (Ioi last.1) := by
    apply disjoint_left.mpr
    intro h hin hout
    exact absurd (mem_Iic.mp hin) (not_le.mpr (hle.trans_lt (mem_Ioi.mp hout)))
  have hdisj : Disjoint (if p e.2 then Iic e.1 ∪ Ioi last.1 else ∅) (above p e.1 l) := by
    apply disjoint_left.mpr
    intro h hin hout
    obtain ⟨hlt, hany⟩ := mem_above.mp hout
    obtain hin | hin := mem_union.mp (mem_ite_empty.mp hin).2
    · exact absurd (mem_Iic.mp hin) (not_le.mpr hlt)
    · rw [(around_beyond hm hlast (mem_Ioi.mp hin)).2] at hany
      exact absurd hany nofun
  rw [filter_around hm hlast, card_union_of_disjoint hdisj, card_above p (hm ▸ m.sorted)]
  congr 1
  split
  · rw [card_union_of_disjoint hends, Fin.card_Iic, Fin.card_Ioi]
    have hlast := last.1.isLt
    have hle : (e.1 : ℕ) ≤ last.1 := hle
    omega
  · rfl

end Round

end OceanServer.Library.OrderedMap
