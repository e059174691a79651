import Mathlib.Tactic

/-! Loops whose body either hands over the next state or leaves with a result. A measure that every
iteration lowers bounds the number of iterations. -/

namespace OceanServer.Library.Loop

variable {S R : Type*}

def eval (body : S → S ⊕ R) : ℕ → S → Option R
  | 0, _ => none
  | n + 1, s =>
    match body s with
    | .inl t => eval body n t
    | .inr r => some r

inductive Exits (body : S → S ⊕ R) : S → R → Prop
  | stop {s r} : body s = .inr r → Exits body s r
  | next {s t r} : body s = .inl t → Exits body t r → Exits body s r

variable {body : S → S ⊕ R}

lemma Exits.unique {s : S} {r q : R} (h : Exits body s r) (h' : Exits body s q) : r = q := by
  induction h with
  | stop hs =>
    cases h' with
    | stop hs' => simpa [hs] using hs'
    | next hs' _ => simp [hs] at hs'
  | next hs _ ih =>
    cases h' with
    | stop hs' => simp [hs] at hs'
    | next hs' he =>
      obtain rfl : _ = _ := Sum.inl.inj (hs.symm.trans hs')
      exact ih he

lemma exits_next {s t : S} {r : R} (h : body s = .inl t) : Exits body s r ↔ Exits body t r := by
  refine ⟨fun he => ?_, .next h⟩
  cases he with
  | stop hs => simp [h] at hs
  | next hs he =>
    obtain rfl : _ = _ := Sum.inl.inj (h.symm.trans hs)
    exact he

lemma exits_stop {s : S} {r v : R} (h : body s = .inr v) : Exits body s r ↔ r = v := by
  constructor
  · intro he
    cases he with
    | stop hs => exact Sum.inr.inj (hs.symm.trans h)
    | next hs _ => cases h.symm.trans hs
  · rintro rfl
    exact .stop h

def Reaches (body : S → S ⊕ R) : S → S → Prop := Relation.ReflTransGen fun s t => body s = .inl t

lemma Reaches.exits_iff {s t : S} {r : R} (h : Reaches body s t) : Exits body s r ↔ Exits body t r := by
  induction h with
  | refl => exact Iff.rfl
  | tail _ hs ih => exact ih.trans (exits_next hs)

lemma not_exits_of_idle {s : S} {r : R} (h : body s = .inl s) : ¬ Exits body s r := by
  intro he
  induction he with
  | stop hs => cases h.symm.trans hs
  | next hs _ ih =>
    cases h.symm.trans hs
    exact ih h

lemma exits_congr {s t : S} {r : R} (h : body s = body t) : Exits body s r ↔ Exits body t r := by
  constructor
  · intro he
    cases he with
    | stop hs => exact .stop (h.symm.trans hs)
    | next hs he => exact .next (h.symm.trans hs) he
  · intro he
    cases he with
    | stop hs => exact .stop (h.trans hs)
    | next hs he => exact .next (h.trans hs) he

lemma exits_of_eval {n : ℕ} {s : S} {r : R} (h : eval body n s = some r) : Exits body s r := by
  induction n generalizing s with
  | zero => simp [eval] at h
  | succ n ih =>
    cases hs : body s with
    | inl t =>
      simp only [eval, hs] at h
      exact .next hs (ih h)
    | inr q =>
      simp only [eval, hs, Option.some.injEq] at h
      exact .stop (h ▸ hs)

lemma Exits.invariant {I : S → Prop} {Q : R → Prop} (hstep : ∀ s, I s → Sum.elim I Q (body s)) {s : S} {r : R}
    (hs : I s) (h : Exits body s r) : Q r := by
  induction h with
  | @stop s r hb =>
    have := hstep s hs
    rwa [hb] at this
  | @next s t r hb _ ih =>
    have := hstep s hs
    rw [hb] at this
    exact ih this

lemma eval_map {T Q : Type*} {body' : T → T ⊕ Q} (f : S → T) (g : R → Q)
    (h : ∀ s, body' (f s) = (body s).map f g) (n : ℕ) (s : S) :
    eval body' n (f s) = (eval body n s).map g := by
  induction n generalizing s with
  | zero => rfl
  | succ n ih =>
    cases hs : body s with
    | inl t => simp only [eval, h, hs, Sum.map_inl, ih]
    | inr r => simp only [eval, h, hs, Sum.map_inr, Option.map_some]

section Measure

variable (I : S → Prop) (μ : S → ℕ) (hstep : ∀ s t, I s → body s = .inl t → I t ∧ μ t < μ s)
include hstep

lemma eval_total {n : ℕ} {s : S} (hi : I s) (hn : μ s < n) : ∃ r, eval body n s = some r := by
  induction n generalizing s with
  | zero => omega
  | succ n ih =>
    cases hs : body s with
    | inl t =>
      obtain ⟨ht, hm⟩ := hstep s t hi hs
      simpa only [eval, hs] using ih ht (by omega)
    | inr r => exact ⟨r, by simp only [eval, hs]⟩

lemma eval_of_exits {n : ℕ} {s : S} {r : R} (hi : I s) (hn : μ s < n) (h : Exits body s r) :
    eval body n s = some r := by
  obtain ⟨q, hq⟩ := eval_total I μ hstep hi hn
  rw [hq, (exits_of_eval hq).unique h]

end Measure

end OceanServer.Library.Loop
