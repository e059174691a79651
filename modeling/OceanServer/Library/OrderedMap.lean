import Mathlib.Order.Basic
import Mathlib.Data.List.Sort
import Mathlib.Tactic

/-! A map with its entries in the order of their keys, and the search in it that goes round. -/

namespace OceanServer.Library

structure OrderedMap (κ α : Type*) [LinearOrder κ] where
  entries : List (κ × α)
  sorted : entries.Pairwise fun a b => a.1 < b.1

namespace OrderedMap

variable {κ α : Type*} [LinearOrder κ]

section Operations

instance : Membership (κ × α) (OrderedMap κ α) := ⟨fun m e => e ∈ m.entries⟩

def empty : OrderedMap κ α := ⟨[], .nil⟩

def filter (m : OrderedMap κ α) (p : κ → Bool) : OrderedMap κ α :=
  ⟨m.entries.filter (p ·.1), m.sorted.filter _⟩

def begin (m : OrderedMap κ α) : Option (κ × α) := m.entries.head?

def rbegin (m : OrderedMap κ α) : Option (κ × α) := m.entries.getLast?

def lowerBound (m : OrderedMap κ α) (k : κ) : Option (κ × α) := m.entries.find? (k ≤ ·.1)

def contains (m : OrderedMap κ α) (k : κ) : Bool := m.entries.any (·.1 = k)

def put (m : OrderedMap κ α) (k : κ) (a : α) : OrderedMap κ α where
  entries := (m.filter (· < k)).entries ++ (k, a) :: (m.filter (k < ·)).entries
  sorted := by
    have hbelow : ∀ e ∈ (m.filter (· < k)).entries, e.1 < k := fun e he => of_decide_eq_true (List.mem_filter.mp he).2
    have habove : ∀ e ∈ (m.filter (k < ·)).entries, k < e.1 := fun e he => of_decide_eq_true (List.mem_filter.mp he).2
    refine List.pairwise_append.mpr ⟨(m.filter _).sorted, List.pairwise_cons.mpr ⟨habove, (m.filter _).sorted⟩,
      fun e he f hf => ?_⟩
    obtain rfl | hf := List.mem_cons.mp hf
    · exact hbelow e he
    · exact (hbelow e he).trans (habove f hf)

def emplace (m : OrderedMap κ α) (k : κ) (a : α) : OrderedMap κ α × Bool :=
  if m.contains k then (m, false) else (m.put k a, true)

def erase (m : OrderedMap κ α) (k : κ) : OrderedMap κ α × ℕ :=
  (m.filter (· ≠ k), (m.contains k).toNat)

end Operations

section Entries

variable {m m' : OrderedMap κ α} {e e' : κ × α} {k k' : κ} {a b : α}

lemma keys_nodup (m : OrderedMap κ α) : (m.entries.map Prod.fst).Nodup :=
  List.pairwise_map.mpr (m.sorted.imp ne_of_lt)

lemma eq_of_key_eq (he : e ∈ m) (he' : e' ∈ m) (h : e.1 = e'.1) : e = e' :=
  List.inj_on_of_nodup_map m.keys_nodup he he' h

lemma ext_of_mem (h : ∀ e, e ∈ m ↔ e ∈ m') : m = m' := by
  have hirrefl : Std.Irrefl fun a b : κ × α => a.1 < b.1 := ⟨fun a => lt_irrefl a.1⟩
  have hantisymm : Std.Antisymm fun a b : κ × α => a.1 < b.1 := ⟨fun _ _ hab hba => absurd hba hab.asymm⟩
  obtain ⟨l, hl⟩ := m
  obtain ⟨l', hl'⟩ := m'
  have heq : l = l' := hl.eq_of_mem_iff hl' h
  subst heq
  rfl

@[simp] lemma not_mem_empty : e ∉ (empty : OrderedMap κ α) := List.not_mem_nil

@[simp] lemma mem_filter {p : κ → Bool} : e ∈ m.filter p ↔ e ∈ m ∧ p e.1 = true := List.mem_filter

lemma contains_iff : m.contains k = true ↔ ∃ e ∈ m, e.1 = k := by
  rw [contains, List.any_eq_true]
  simp only [decide_eq_true_eq]
  rfl

lemma contains_eq_false : m.contains k = false ↔ ∀ e ∈ m, e.1 ≠ k := by
  rw [Bool.eq_false_iff, Ne, contains_iff]
  push Not
  rfl

lemma mem_put (hk : m.contains k = false) : e ∈ m.put k a ↔ e ∈ m ∨ e = (k, a) := by
  have hne := contains_eq_false.mp hk
  change e ∈ (m.filter (· < k)).entries ++ (k, a) :: (m.filter (k < ·)).entries ↔ _
  rw [List.mem_append, List.mem_cons]
  change e ∈ m.filter (· < k) ∨ e = (k, a) ∨ e ∈ m.filter (k < ·) ↔ _
  rw [mem_filter, mem_filter, decide_eq_true_eq, decide_eq_true_eq]
  constructor
  · rintro (⟨he, -⟩ | he | ⟨he, -⟩)
    · exact .inl he
    · exact .inr he
    · exact .inl he
  · rintro (he | he)
    · obtain hlt | hgt := lt_or_gt_of_ne (hne e he)
      · exact .inl ⟨he, hlt⟩
      · exact .inr (.inr ⟨he, hgt⟩)
    · exact .inr (.inl he)

lemma mem_emplace : e ∈ (m.emplace k a).1 ↔ e ∈ m ∨ (e = (k, a) ∧ m.contains k = false) := by
  rw [emplace]
  split
  · rename_i hk
    rw [hk]
    exact ⟨.inl, fun h => h.resolve_right nofun⟩
  · rename_i hk
    have hk := Bool.eq_false_iff.mpr hk
    rw [mem_put hk, hk, eq_self, and_true]

lemma emplace_snd : (m.emplace k a).2 = !m.contains k := by
  rw [emplace]
  split <;> simp_all

lemma mem_erase : e ∈ (m.erase k).1 ↔ e ∈ m ∧ e.1 ≠ k := by
  rw [erase, mem_filter, decide_eq_true_eq]

lemma contains_emplace_of_ne (h : k ≠ k') : (m.emplace k a).1.contains k' = m.contains k' := by
  rw [Bool.eq_iff_iff, contains_iff, contains_iff]
  constructor
  · rintro ⟨e, he, rfl⟩
    obtain he | ⟨rfl, -⟩ := mem_emplace.mp he
    · exact ⟨e, he, rfl⟩
    · exact absurd rfl h
  · rintro ⟨e, he, rfl⟩
    exact ⟨e, mem_emplace.mpr (.inl he), rfl⟩

lemma emplace_comm (h : k ≠ k') : ((m.emplace k a).1.emplace k' b).1 = ((m.emplace k' b).1.emplace k a).1 := by
  apply ext_of_mem
  intro e
  rw [mem_emplace, mem_emplace, mem_emplace, mem_emplace, contains_emplace_of_ne h, contains_emplace_of_ne h.symm]
  exact or_right_comm

end Entries

section Ends

variable {m : OrderedMap κ α} {e : κ × α}

lemma begin_spec (h : m.begin = some e) : e ∈ m ∧ ∀ e' ∈ m, e.1 ≤ e'.1 := by
  obtain ⟨l, hl⟩ := m
  cases l with
  | nil => cases h
  | cons f l =>
    cases h
    refine ⟨List.mem_cons_self, fun e' he' => ?_⟩
    obtain rfl | he' := List.mem_cons.mp he'
    · exact le_rfl
    · exact ((List.pairwise_cons.mp hl).1 e' he').le

lemma rbegin_spec (h : m.rbegin = some e) : e ∈ m ∧ ∀ e' ∈ m, e'.1 ≤ e.1 := by
  have hrefl : Std.Refl fun a b : κ × α => a.1 ≤ b.1 := ⟨fun a => le_refl a.1⟩
  have hle : m.entries.Pairwise fun a b => a.1 ≤ b.1 := m.sorted.imp le_of_lt
  refine ⟨List.mem_of_getLast? h, fun e' he' => ?_⟩
  have hlast := hle.rel_getLast he'
  rw [List.getLast_of_getLast?_eq_some h] at hlast
  exact hlast

lemma begin_eq_none : m.begin = none ↔ ∀ e, e ∉ m := by
  rw [begin, List.head?_eq_none_iff, List.eq_nil_iff_forall_not_mem]
  rfl

lemma rbegin_eq_none : m.rbegin = none ↔ ∀ e, e ∉ m := by
  rw [rbegin, List.getLast?_eq_none_iff, List.eq_nil_iff_forall_not_mem]
  rfl

lemma lowerBound_eq (m : OrderedMap κ α) (k : κ) : m.lowerBound k = (m.filter (k ≤ ·)).begin :=
  List.head?_filter.symm

end Ends

section Round

/-- Going up from `h` and round, `a` is met no later than `b`. -/
def Meets (h a b : κ) : Prop := (h ≤ a ∧ (a ≤ b ∨ b < h)) ∨ (a < h ∧ b < h ∧ a ≤ b)

def Arc (p k h : κ) : Prop := if p < k then p < h ∧ h ≤ k else p < h ∨ h ≤ k

def around (m : OrderedMap κ α) (h : κ) : Option (κ × α) := (m.lowerBound h).or m.begin

def predecessor (m : OrderedMap κ α) (k : κ) : Option (κ × α) := (m.filter (· < k)).rbegin.or m.rbegin

def successor (m : OrderedMap κ α) (k : κ) : Option (κ × α) := (m.filter (k < ·)).begin.or m.begin

def InArc (m : OrderedMap κ α) (k h : κ) : Prop := ∃ p, m.predecessor k = some p ∧ Arc p.1 k h

instance (p k h : κ) : Decidable (Arc p k h) :=
  inferInstanceAs (Decidable (if p < k then p < h ∧ h ≤ k else p < h ∨ h ≤ k))

instance (m : OrderedMap κ α) (k h : κ) : Decidable (m.InArc k h) :=
  decidable_of_iff ((m.predecessor k).any fun p => Arc p.1 k h) (by simp [InArc, Option.any_eq_true])

variable {m : OrderedMap κ α} {e e' : κ × α} {k h : κ} {a : α}

lemma around_spec (he : m.around h = some e) : e ∈ m ∧ ∀ e' ∈ m, Meets h e.1 e'.1 := by
  rw [around, lowerBound_eq] at he
  obtain hlb | ⟨hlb, hb⟩ := Option.or_eq_some_iff.mp he
  · obtain ⟨hmem, hleast⟩ := begin_spec hlb
    obtain ⟨hmem, hle⟩ := mem_filter.mp hmem
    have hle := of_decide_eq_true hle
    refine ⟨hmem, fun e' he' => .inl ⟨hle, ?_⟩⟩
    obtain hlt | hge := lt_or_ge e'.1 h
    · exact .inr hlt
    · exact .inl (hleast e' (mem_filter.mpr ⟨he', decide_eq_true hge⟩))
  · obtain ⟨hmem, hleast⟩ := begin_spec hb
    have hbelow : ∀ e' ∈ m, e'.1 < h := fun e' he' => by
      by_contra hge
      exact begin_eq_none.mp hlb e' (mem_filter.mpr ⟨he', decide_eq_true (not_lt.mp hge)⟩)
    exact ⟨hmem, fun e' he' => .inr ⟨hbelow e hmem, hbelow e' he', hleast e' he'⟩⟩

lemma around_eq_none : m.around h = none ↔ ∀ e, e ∉ m := by
  rw [around, lowerBound_eq, Option.or_eq_none_iff, begin_eq_none, begin_eq_none]
  exact ⟨And.right, fun hm => ⟨fun e he => hm e (mem_filter.mp he).1, hm⟩⟩

lemma Meets.antisymm {x y : κ} (hxy : Meets h x y) (hyx : Meets h y x) : x = y := by
  unfold Meets at hxy hyx
  grind

lemma around_eq_some : m.around h = some e ↔ e ∈ m ∧ ∀ e' ∈ m, Meets h e.1 e'.1 := by
  refine ⟨around_spec, fun ⟨hmem, hfirst⟩ => ?_⟩
  cases hr : m.around h with
  | none => exact absurd hmem (around_eq_none.mp hr e)
  | some f =>
    obtain ⟨hf, hfirst'⟩ := around_spec hr
    rw [eq_of_key_eq hf hmem ((hfirst' e hmem).antisymm (hfirst f hf))]

lemma predecessor_spec (hp : m.predecessor k = some e) :
    e ∈ m ∧ ((e.1 < k ∧ ∀ e' ∈ m, e'.1 < k → e'.1 ≤ e.1) ∨ ((∀ e' ∈ m, k ≤ e'.1) ∧ ∀ e' ∈ m, e'.1 ≤ e.1)) := by
  obtain hbelow | ⟨hbelow, hlast⟩ := Option.or_eq_some_iff.mp hp
  · obtain ⟨hmem, hgreatest⟩ := rbegin_spec hbelow
    obtain ⟨hmem, hlt⟩ := mem_filter.mp hmem
    refine ⟨hmem, .inl ⟨of_decide_eq_true hlt, fun e' he' hlt' => ?_⟩⟩
    exact hgreatest e' (mem_filter.mpr ⟨he', decide_eq_true hlt'⟩)
  · obtain ⟨hmem, hgreatest⟩ := rbegin_spec hlast
    refine ⟨hmem, .inr ⟨fun e' he' => ?_, hgreatest⟩⟩
    by_contra hlt
    exact rbegin_eq_none.mp hbelow e' (mem_filter.mpr ⟨he', decide_eq_true (not_le.mp hlt)⟩)

lemma predecessor_ne_none (he : e ∈ m) : m.predecessor k ≠ none := by
  intro hnone
  exact rbegin_eq_none.mp (Option.or_eq_none_iff.mp hnone).2 e he

lemma inArc_iff (he : e ∈ m) : m.InArc e.1 h ↔ m.around h = some e := by
  rw [around_eq_some]
  obtain ⟨p, hp⟩ := Option.ne_none_iff_exists'.mp (predecessor_ne_none (k := e.1) he)
  obtain ⟨hmem, hcases⟩ := predecessor_spec hp
  have harc : m.InArc e.1 h ↔ Arc p.1 e.1 h := by
    refine ⟨fun ⟨q, hq, harc⟩ => ?_, fun harc => ⟨p, hp, harc⟩⟩
    cases hp.symm.trans hq
    exact harc
  rw [harc, Arc]
  constructor
  · intro hin
    refine ⟨he, fun e' he' => ?_⟩
    obtain ⟨hlt, hnext⟩ | ⟨hle, hmax⟩ := hcases
    · rw [if_pos hlt] at hin
      have hnext := hnext e' he'
      unfold Meets
      grind
    · have hle' := hle p hmem
      rw [if_neg (not_lt.mpr hle')] at hin
      have hle := hle e' he'
      have hmax := hmax e' he'
      unfold Meets
      grind
  · rintro ⟨-, hfirst⟩
    have hfirst := hfirst p hmem
    unfold Meets at hfirst
    obtain ⟨hlt, -⟩ | ⟨hle, -⟩ := hcases
    · grind
    · have hle' := hle p hmem
      grind

lemma around_of_subset {m' : OrderedMap κ α} (hsub : ∀ e ∈ m', e ∈ m) (he : m.around h = some e)
    (hmem : e ∈ m') : m'.around h = some e :=
  around_eq_some.mpr ⟨hmem, fun e' he' => (around_spec he).2 e' (hsub e' he')⟩

lemma around_put (hk : m.contains k = false) (h : κ) :
    ((m.put k a).InArc k h → (m.put k a).around h = some (k, a)) ∧
      (¬ (m.put k a).InArc k h → (m.put k a).around h = m.around h) := by
  have hmem : (k, a) ∈ m.put k a := (mem_put hk).mpr (.inr rfl)
  have harc : (m.put k a).InArc k h ↔ (m.put k a).around h = some (k, a) := inArc_iff hmem
  refine ⟨harc.mp, fun hout => ?_⟩
  cases hf : (m.put k a).around h with
  | none => exact absurd hmem (around_eq_none.mp hf _)
  | some f =>
    obtain hfm | rfl := (mem_put hk).mp (around_spec hf).1
    · exact (around_of_subset (fun e he => (mem_put hk).mpr (.inl he)) hf hfm).symm
    · exact absurd (harc.mpr hf) hout

lemma meets_shift {x y : κ} (hx : Meets h k x) (hy : Meets h k y) (hxk : x ≠ k) (hyk : y ≠ k) :
    Meets h x y ↔ Meets k x y := by
  have hx' := hxk.lt_or_gt
  have hy' := hyk.lt_or_gt
  unfold Meets at *
  grind

lemma successor_eq (hk : ∀ e ∈ m, e.1 ≠ k) : m.successor k = m.around k := by
  have hfilter : m.filter (k < ·) = m.filter (k ≤ ·) := by
    apply ext_of_mem
    intro e
    rw [mem_filter, mem_filter, decide_eq_true_eq, decide_eq_true_eq]
    exact and_congr_right fun he => ⟨le_of_lt, fun hle => hle.lt_of_ne (hk e he).symm⟩
  rw [successor, around, lowerBound_eq, hfilter]

lemma around_erase (he : e ∈ m) (h : κ) :
    (m.InArc e.1 h → (m.erase e.1).1.around h = (m.erase e.1).1.successor e.1) ∧
      (¬ m.InArc e.1 h → (m.erase e.1).1.around h = m.around h) := by
  have hsub : ∀ f ∈ (m.erase e.1).1, f ∈ m ∧ f.1 ≠ e.1 := fun f hf => mem_erase.mp hf
  rw [inArc_iff he]
  constructor
  · intro hin
    have hfirst := (around_spec hin).2
    rw [successor_eq fun f hf => (hsub f hf).2]
    apply Option.ext
    intro f
    rw [around_eq_some, around_eq_some]
    apply and_congr_right
    intro hf
    apply forall₂_congr
    intro e' he'
    exact meets_shift (hfirst f (hsub f hf).1) (hfirst e' (hsub e' he').1) (hsub f hf).2 (hsub e' he').2
  · intro hout
    cases hf : m.around h with
    | none => exact absurd he (around_eq_none.mp hf e)
    | some f =>
      have hfm := (around_spec hf).1
      have hne : f.1 ≠ e.1 := fun hkey => hout (hf.trans (congrArg some (eq_of_key_eq hfm he hkey)))
      exact around_of_subset (fun f hf => (hsub f hf).1) hf (mem_erase.mpr ⟨hfm, hne⟩)

end Round

end OrderedMap

end OceanServer.Library
