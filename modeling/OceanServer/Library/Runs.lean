import Mathlib.Tactic

/-! Runs of a labelled transition system in which every step is allowed in the state it starts from. -/

namespace OceanServer.Library

variable {S L : Type*}

inductive Runs (step : S → L → S → Prop) (allowed : S → L → Prop) (s : S) : S → Prop
  | refl : Runs step allowed s s
  | tail {t u a} : Runs step allowed s t → allowed t a → step t a u → Runs step allowed s u

variable {step : S → L → S → Prop} {allowed : S → L → Prop} {s t u : S}

lemma Runs.invariant {I : S → Prop} (h : Runs step allowed s t) (h0 : I s)
    (hstep : ∀ t a u, I t → allowed t a → step t a u → I u) : I t := by
  induction h with
  | refl => exact h0
  | tail _ ha hs ih => exact hstep _ _ _ ih ha hs

lemma Runs.mono {allowed' : S → L → Prop} (h : Runs step allowed s t) (himp : ∀ t a, allowed t a → allowed' t a) :
    Runs step allowed' s t := by
  induction h with
  | refl => exact .refl
  | tail _ ha hs ih => exact ih.tail (himp _ _ ha) hs

/-- Backward simulation: a step is followed from its end, where more is known than at its start. -/
lemma Runs.backward {S' L' : Type*} {step' : S' → L' → S' → Prop} {allowed' : S' → L' → Prop} {R : S → S' → Prop}
    {t' : S'} (h : Runs step allowed s t) (ht : R t t')
    (hstep : ∀ t a u u', allowed t a → step t a u → R u u' →
      ∃ t', R t t' ∧ (t' = u' ∨ ∃ b, allowed' t' b ∧ step' t' b u')) :
    ∃ s', R s s' ∧ Runs step' allowed' s' t' := by
  induction h generalizing t' with
  | refl => exact ⟨t', ht, .refl⟩
  | tail _ ha hs ih =>
    obtain ⟨v, hv, hlast⟩ := hstep _ _ _ _ ha hs ht
    obtain ⟨s', hs', hrun⟩ := ih hv
    obtain rfl | ⟨b, hb, hb'⟩ := hlast
    · exact ⟨s', hs', hrun⟩
    · exact ⟨s', hs', hrun.tail hb hb'⟩

def Reachable (step : S → L → S → Prop) (s t : S) : Prop := Runs step (fun _ _ => True) s t

lemma Reachable.refl : Reachable step s s := Runs.refl

lemma Reachable.go {a : L} (h : Reachable step s t) (hs : step t a u) : Reachable step s u :=
  Runs.tail h trivial hs

lemma Reachable.follow {a : L} (h : Reachable step s t) (hs : step t a u) :
    Reachable step s t ∧ step t a u ∧ Reachable step s u := ⟨h, hs, h.go hs⟩

inductive Trace (step : S → L → S → Prop) (s : S) : List L → S → Prop
  | nil : Trace step s [] s
  | snoc {as t a u} : Trace step s as t → step t a u → Trace step s (as ++ [a]) u

lemma Trace.invariant {I : List L → S → Prop} {as : List L} (h : Trace step s as t) (h0 : I [] s)
    (hstep : ∀ as t a u, I as t → step t a u → I (as ++ [a]) u) : I as t := by
  induction h with
  | nil => exact h0
  | snoc _ hs ih => exact hstep _ _ _ _ ih hs

lemma Trace.reachable {as : List L} (h : Trace step s as t) : Reachable step s t :=
  h.invariant (I := fun _ t => Reachable step s t) .refl fun _ _ _ _ ht hs => ht.go hs

lemma Trace.append {as bs : List L} (h : Trace step s as t) (h' : Trace step t bs u) :
    Trace step s (as ++ bs) u := by
  induction h' with
  | nil =>
    rw [List.append_nil]
    exact h
  | snoc _ hs ih =>
    rw [← List.append_assoc]
    exact ih.snoc hs

lemma Trace.eq_of_nil {cs : List L} (h : Trace step s cs t) (hcs : cs = []) : t = s := by
  cases h with
  | nil => rfl
  | snoc => exact absurd hcs (List.concat_ne_nil _ _)

lemma Trace.last {as cs : List L} {a : L} (h : Trace step s cs u) (hcs : cs = as ++ [a]) :
    ∃ t, Trace step s as t ∧ step t a u := by
  cases h with
  | nil => exact absurd hcs.symm (List.concat_ne_nil a as)
  | snoc h' hs =>
    obtain ⟨rfl, ha⟩ := List.append_inj' hcs rfl
    cases ha
    exact ⟨_, h', hs⟩

lemma Trace.split {as bs : List L} (h : Trace step s (as ++ bs) u) :
    ∃ t, Trace step s as t ∧ Trace step t bs u := by
  induction bs using List.reverseRecOn generalizing u with
  | nil =>
    rw [List.append_nil] at h
    exact ⟨u, h, .nil⟩
  | append_singleton bs b ih =>
    obtain ⟨v, hv, hs⟩ := h.last (List.append_assoc as bs [b]).symm
    obtain ⟨t, ht, hb⟩ := ih hv
    exact ⟨t, ht, hb.snoc hs⟩

lemma Trace.countP_add_le {I : S → Prop} {f : S → ℕ} {p : L → Bool} {as : List L} (h : Trace step s as t) (h0 : I s)
    (hstep : ∀ t a u, I t → step t a u → I u ∧ f u + (if p a then 1 else 0) ≤ f t) : I t ∧ as.countP p + f t ≤ f s := by
  induction h with
  | nil => exact ⟨h0, by rw [List.countP_nil, zero_add]⟩
  | snoc _ hs ih =>
    obtain ⟨hI, hle⟩ := ih
    obtain ⟨hI', hle'⟩ := hstep _ _ _ hI hs
    refine ⟨hI', ?_⟩
    rw [List.countP_append, List.countP_singleton]
    omega

lemma Trace.project {S' L' : Type*} {step' : S' → L' → S' → Prop} (f : S → S') {as : List L}
    (hstep : ∀ t a u, step t a u → f u = f t ∨ ∃ b, step' (f t) b (f u)) (h : Trace step s as t) :
    ∃ bs, Trace step' (f s) bs (f t) := by
  induction h with
  | nil => exact ⟨[], .nil⟩
  | snoc _ hs ih =>
    obtain ⟨bs, hbs⟩ := ih
    obtain heq | ⟨b, hb⟩ := hstep _ _ _ hs
    · rw [heq]
      exact ⟨bs, hbs⟩
    · exact ⟨bs ++ [b], hbs.snoc hb⟩

/-- `P` holds of every step on the way along `as`, as far as there is a run. -/
def Along (step : S → L → S → Prop) (P : S → L → S → Prop) (s : S) (as : List L) : Prop :=
  ∀ pre a post t u, as = pre ++ a :: post → Trace step s pre t → step t a u → P t a u

lemma Along.imp {P Q : S → L → S → Prop} {as : List L} (h : Along step P s as)
    (himp : ∀ t a u, step t a u → P t a u → Q t a u) : Along step Q s as :=
  fun pre a post t u has ht hs => himp t a u hs (h pre a post t u has ht hs)

lemma along_nil {P : S → L → S → Prop} : Along step P s [] :=
  fun _ _ _ _ _ has => absurd has.symm (List.append_ne_nil_of_right_ne_nil _ (List.cons_ne_nil _ _))

lemma along_cons {P : S → L → S → Prop} {a : L} {as : List L} :
    Along step P s (a :: as) ↔ ∀ u, step s a u → P s a u ∧ Along step P u as := by
  constructor
  · intro h u hs
    refine ⟨h [] a as s u rfl .nil hs, fun pre b post t v has ht hv => ?_⟩
    exact h (a :: pre) b post t v (by rw [has]; rfl) (Trace.append (.snoc .nil hs) ht) hv
  · intro h pre b post t u has ht hs
    obtain ⟨rfl, hcons⟩ | ⟨pre, rfl, rfl⟩ := List.cons_eq_append_iff.mp has
    · cases hcons
      obtain rfl := ht.eq_of_nil rfl
      exact (h u hs).1
    · rw [← List.singleton_append] at ht
      obtain ⟨v, hfirst, hrest⟩ := ht.split
      obtain ⟨w, hw, hstep⟩ := hfirst.last (List.nil_append [a]).symm
      obtain rfl := hw.eq_of_nil rfl
      exact (h v hstep).2 pre b post t u rfl hrest hs

lemma along_singleton {P : S → L → S → Prop} {a : L} : Along step P s [a] ↔ ∀ u, step s a u → P s a u := by
  rw [along_cons]
  exact forall₂_congr fun u _ => and_iff_left along_nil

lemma Along.reaches {I : S → Prop} {P : S → L → S → Prop} {as pre post : List L}
    (h : Along step P s as) (h0 : I s) (hstep : ∀ t a u, I t → step t a u → P t a u → I u)
    (has : as = pre ++ post) (ht : Trace step s pre t) : I t := by
  induction ht generalizing post with
  | nil => exact h0
  | snoc ht hs ih =>
    have has' := has.trans (List.append_assoc _ _ _)
    exact hstep _ _ _ (ih has') hs (h _ _ _ _ _ has' ht hs)

lemma Along.strengthen {I : S → Prop} {P : S → L → S → Prop} {as : List L} (h : Along step P s as) (h0 : I s)
    (hstep : ∀ t a u, I t → step t a u → P t a u → I u) : Along step (fun t a u => I u ∧ P t a u) s as := by
  intro pre a post t u has ht hs
  have hP := h pre a post t u has ht hs
  exact ⟨hstep t a u (h.reaches h0 hstep has ht) hs hP, hP⟩

/-- Where `C` says of each step from a good state whether it is right and ends in a good state, it says
so of a whole run. `B` is what every step keeps. -/
lemma along_iff {B I : S → Prop} {F C : S → L → S → Prop} (hB : B s) (h0 : I s)
    (hkeep : ∀ t a u, B t → step t a u → B u)
    (hstep : ∀ t a u, B t → I t → step t a u → (I u ∧ F t a u ↔ C t a u)) (as : List L) :
    Along step (fun t a u => I u ∧ F t a u) s as ↔ Along step C s as := by
  constructor
  · intro h pre a post t u has ht hs
    have hI := h.reaches (I := fun t => B t ∧ I t) ⟨hB, h0⟩
      (fun _ _ _ hI hs hP => ⟨hkeep _ _ _ hI.1 hs, hP.1⟩) has ht
    exact (hstep t a u hI.1 hI.2 hs).mp (h pre a post t u has ht hs)
  · intro h pre a post t u has ht hs
    have hI := h.reaches (I := fun t => B t ∧ I t) ⟨hB, h0⟩
      (fun _ _ _ hI hs hC => ⟨hkeep _ _ _ hI.1 hs, ((hstep _ _ _ hI.1 hI.2 hs).mpr hC).1⟩) has ht
    exact (hstep t a u hI.1 hI.2 hs).mpr (h pre a post t u has ht hs)

end OceanServer.Library
