import OceanServer.Log.BlockQueue

/-! `write_log` in asynchronous mode, from the formatted line on, and the thread that runs `async_write_log`. -/

namespace OceanServer.Log

open Library

section Contents

variable {α : Type*} {q : BlockQueue α} {l : List α}

def popsOf : ℕ → BlockQueue α → List α
  | 0, _ => []
  | n + 1, q =>
    match take q with
    | some (item, q') => item :: popsOf n q'
    | none => []

def contents (q : BlockQueue α) : List α := popsOf q.size.toNat q

lemma Simulates.contents (h : Simulates q l) : contents q = l := by
  have hpops : popsOf l.length q = l := by
    induction l generalizing q with
    | nil => rfl
    | cons x l ih =>
      obtain ⟨q', hq', hsim, -⟩ := h.take
      rw [List.length_cons, popsOf, hq']
      exact congrArg (x :: ·) (ih hsim)
  rw [Log.contents, h.size, Int.toNat_natCast]
  exact hpops

end Contents

namespace Async

inductive Writer (α : Type*) where
  | outside
  | formatted (line : α)
  | room (line : α)
  | noRoom (line : α)

inductive Drain (α : Type*) where
  | popping
  | waiting
  | holding (line : α)
  | ended

/-- `output` has the lines in the order of the `fputs` calls, `returned` those of the calls of `write_log`
that have returned, in the order in which they did. -/
structure Logger (T α : Type*) where
  queue : BlockQueue α
  output : List α
  drain : Drain α
  place : T → Writer α
  returned : List α

inductive Action (T α : Type*) where
  | format (i : T) (line : α)
  | full (i : T)
  | push (i : T)
  | fputs (i : T)
  | pop
  | wait
  | waitFails
  | write

section Model

variable {T α : Type*}

def Drain.held : Drain α → List α
  | .holding line => [line]
  | .popping | .waiting | .ended => []

namespace Logger

def start (q : BlockQueue α) : Logger T α := ⟨q, [], .popping, fun _ => .outside, []⟩

def onWay (s : Logger T α) : List α := s.drain.held ++ contents s.queue

def Accounted (s : Logger T α) : Prop := s.returned.Perm (s.output ++ s.onWay)

def InOrder (s : Logger T α) : Prop := s.returned = s.output ++ s.onWay

def HasRoom (s : Logger T α) : Action T α → Prop
  | .push _ => full s.queue = false
  | _ => True

def Follows (s : Logger T α) : Action T α → Prop
  | .fputs i => ∀ line, s.place i = .noRoom line → ∀ x ∈ s.onWay, x = line
  | _ => True

variable [DecidableEq T]

def goTo (s : Logger T α) (i : T) (p : Writer α) : Logger T α :=
  { s with place := Function.update s.place i p }

end Logger

variable [DecidableEq T]

inductive Step : Logger T α → Action T α → Logger T α → Prop
  | format {s i} (line : α) : s.place i = .outside → Step s (.format i line) (s.goTo i (.formatted line))
  | full {s i line} : s.place i = .formatted line →
      Step s (.full i) (s.goTo i (if full s.queue then .noRoom line else .room line))
  -- the result of `push` is not looked at
  | push {s i line ok q} : s.place i = .room line → push s.queue line = some (ok, q) →
      Step s (.push i) { s.goTo i .outside with queue := q, returned := s.returned ++ [line] }
  | fputs {s i line} : s.place i = .noRoom line →
      Step s (.fputs i) { s.goTo i .outside with output := s.output ++ [line], returned := s.returned ++ [line] }
  | pop {s line q} : s.drain = .popping ∨ s.drain = .waiting → 0 < s.queue.size →
      take s.queue = some (line, q) → Step s .pop { s with queue := q, drain := .holding line }
  | wait {s} : s.drain = .popping ∨ s.drain = .waiting → s.queue.size ≤ 0 →
      Step s .wait { s with drain := .waiting }
  | waitFails {s} : s.drain = .waiting → Step s .waitFails { s with drain := .ended }
  | write {s line} : s.drain = .holding line →
      Step s .write { s with drain := .popping, output := s.output ++ [line] }

end Model

section Effect

variable {T α : Type*}

def Logger.lines (s : Logger T α) : List α × List α × List α := (s.output, s.onWay, s.returned)

inductive Effect (s : Logger T α) : Action T α → Logger T α → Prop
  | quiet {a t} : s.HasRoom a → s.Follows a → t.lines = s.lines → Effect s a t
  | queued {i t line} : s.place i = .room line → full s.queue = false →
      t.lines = (s.output, s.onWay ++ [line], s.returned ++ [line]) → Effect s (.push i) t
  | lost {i t line} : s.place i = .room line → full s.queue = true →
      t.lines = (s.output, s.onWay, s.returned ++ [line]) → Effect s (.push i) t
  | direct {i t line} : s.place i = .noRoom line →
      t.lines = (s.output ++ [line], s.onWay, s.returned ++ [line]) → Effect s (.fputs i) t
  | written {t line rest} : s.onWay = line :: rest →
      t.lines = (s.output ++ [line], rest, s.returned) → Effect s .write t

variable {s t : Logger T α} {a : Action T α} {l : List α}

lemma held_nil (h : s.drain = .popping ∨ s.drain = .waiting) : s.drain.held = [] := by
  obtain h | h := h
  all_goals
    rw [h]
    rfl

lemma onWay_eq (h : Simulates s.queue l) : s.onWay = s.drain.held ++ l := by rw [Logger.onWay, h.contents]

variable [DecidableEq T]

lemma step_simulated (h : Simulates s.queue l) (hs : Step s a t) :
    ∃ l', Simulates t.queue l' ∧ t.queue.array.length = s.queue.array.length := by
  cases hs with
  | push _ hp => exact ⟨_, (h.of_push hp).2⟩
  | pop _ hpos ht =>
    obtain ⟨l', -, hsim⟩ := h.of_take hpos ht
    exact ⟨l', hsim⟩
  | format | full | fputs | wait | waitFails | write => exact ⟨l, h, rfl⟩

lemma step_effect (h : Simulates s.queue l) (hs : Step s a t) : Effect s a t := by
  cases hs with
  | format | full => exact .quiet trivial trivial rfl
  | @push i line _ _ hi hp =>
    obtain ⟨-, hsim, -⟩ := h.of_push hp
    have hfull := h.full
    by_cases hroom : l.length < s.queue.array.length
    · rw [decide_eq_false (not_le.mpr hroom)] at hfull
      rw [if_pos hroom] at hsim
      refine .queued hi hfull (congrArg (s.output, ·, s.returned ++ [line]) ?_)
      rw [onWay_eq h, onWay_eq hsim, List.append_assoc]
      rfl
    · rw [decide_eq_true (not_lt.mp hroom)] at hfull
      rw [if_neg hroom] at hsim
      refine .lost hi hfull (congrArg (s.output, ·, s.returned ++ [line]) ?_)
      rw [onWay_eq h, onWay_eq hsim]
      rfl
  | fputs hi => exact .direct hi rfl
  | pop hd hpos ht =>
    obtain ⟨l', rfl, hsim, -⟩ := h.of_take hpos ht
    refine .quiet trivial trivial (congrArg (s.output, ·, s.returned) ?_)
    rw [onWay_eq h, onWay_eq hsim, held_nil hd]
    rfl
  | wait hd =>
    refine .quiet trivial trivial (congrArg (s.output, ·, s.returned) ?_)
    rw [onWay_eq h, onWay_eq (s := { s with drain := .waiting }) h, held_nil hd]
    rfl
  | waitFails hd =>
    refine .quiet trivial trivial (congrArg (s.output, ·, s.returned) ?_)
    rw [onWay_eq h, onWay_eq (s := { s with drain := .ended }) h, held_nil (.inr hd)]
    rfl
  | @write line hd =>
    have hway : s.onWay = line :: l := by
      rw [onWay_eq h, hd]
      rfl
    refine .written hway (congrArg (s.output ++ [line], ·, s.returned) ?_)
    exact onWay_eq (s := { s with drain := .popping, output := s.output ++ [line] }) h

end Effect

section Kept

variable {T α : Type*} {s t : Logger T α} {a : Action T α}

lemma lines_eq {output onWay returned : List α} (h : t.lines = (output, onWay, returned)) :
    t.output = output ∧ t.onWay = onWay ∧ t.returned = returned := by
  cases h
  exact ⟨rfl, rfl, rfl⟩

lemma Effect.accounted_iff (h : Effect s a t) (hs : s.Accounted) : t.Accounted ↔ s.HasRoom a := by
  rw [Logger.Accounted] at hs ⊢
  cases h with
  | quiet hroom _ hl =>
    obtain ⟨ho, hw, hr⟩ := lines_eq hl
    rw [ho, hw, hr]
    exact iff_of_true hs hroom
  | queued _ hroom hl =>
    obtain ⟨ho, hw, hr⟩ := lines_eq hl
    rw [ho, hw, hr, ← List.append_assoc]
    exact iff_of_true (hs.append_right _) hroom
  | lost _ hfull hl =>
    obtain ⟨ho, hw, hr⟩ := lines_eq hl
    rw [ho, hw, hr]
    refine iff_of_false (fun hperm => ?_) (Bool.eq_false_iff.not.mpr (not_not.mpr hfull))
    have hlen := (hperm.trans hs.symm).length_eq
    rw [List.length_append] at hlen
    exact Nat.succ_ne_self _ hlen
  | direct _ hl =>
    obtain ⟨ho, hw, hr⟩ := lines_eq hl
    rw [ho, hw, hr]
    refine iff_of_true ((hs.append_right _).trans ?_) trivial
    rw [List.append_assoc, List.append_assoc]
    exact List.perm_append_comm.append_left s.output
  | written hw' hl =>
    obtain ⟨ho, hw, hr⟩ := lines_eq hl
    rw [hw'] at hs
    rw [ho, hw, hr, List.append_assoc]
    exact iff_of_true hs trivial

lemma Logger.InOrder.output_prefix (h : s.InOrder) : s.output <+: s.returned := by
  rw [h]
  exact List.prefix_append _ _

lemma append_singleton_eq_cons {l : List α} {x : α} : l ++ [x] = x :: l ↔ ∀ y ∈ l, y = x := by
  induction l with
  | nil => exact iff_of_true rfl nofun
  | cons y l ih =>
    rw [List.cons_append, List.cons.injEq, List.forall_mem_cons]
    apply and_congr_right
    rintro rfl
    exact ih

lemma Effect.inOrder_iff (h : Effect s a t) (hs : s.InOrder)
    (hroom : ∀ i line, s.place i = .room line → full s.queue = false) : t.InOrder ↔ s.Follows a := by
  rw [Logger.InOrder] at hs ⊢
  cases h with
  | quiet _ hfol hl =>
    obtain ⟨ho, hw, hr⟩ := lines_eq hl
    rw [ho, hw, hr]
    exact iff_of_true hs hfol
  | queued _ _ hl =>
    obtain ⟨ho, hw, hr⟩ := lines_eq hl
    rw [ho, hw, hr, hs, List.append_assoc]
    exact iff_of_true rfl trivial
  | lost hi hfull => cases hfull.symm.trans (hroom _ _ hi)
  | @direct i _ line hi hl =>
    obtain ⟨ho, hw, hr⟩ := lines_eq hl
    have hfol : s.Follows (.fputs i) ↔ ∀ x ∈ s.onWay, x = line := by
      refine ⟨fun h => h line hi, fun h line' hi' => ?_⟩
      cases hi.symm.trans hi'
      exact h
    rw [ho, hw, hr, hs, hfol, List.append_assoc, List.append_assoc, List.append_right_inj]
    exact append_singleton_eq_cons
  | written hw' hl =>
    obtain ⟨ho, hw, hr⟩ := lines_eq hl
    rw [hw'] at hs
    rw [ho, hw, hr, List.append_assoc]
    exact iff_of_true hs trivial

end Kept

section Single

variable {T α : Type*} [DecidableEq T] [Subsingleton T] {s t : Logger T α} {a : Action T α}

structure Sound (s : Logger T α) : Prop where
  simulated : ∃ l, Simulates s.queue l
  room : ∀ i line, s.place i = .room line → full s.queue = false

lemma goTo_place (s : Logger T α) (i j : T) (p : Writer α) : (s.goTo i p).place j = p := by
  rw [Subsingleton.elim j i]
  exact Function.update_self _ _ _

lemma step_sound (s : Logger T α) (a : Action T α) (t : Logger T α) (h : Sound s) (hs : Step s a t) : Sound t := by
  obtain ⟨l, hsim⟩ := h.simulated
  obtain ⟨l', hsim', hlen⟩ := step_simulated hsim hs
  refine ⟨⟨l', hsim'⟩, fun j line hj => ?_⟩
  cases hs with
  | format | fputs | push => cases (goTo_place s _ j _).symm.trans hj
  | full =>
    have hplace := (goTo_place s _ j _).symm.trans hj
    split at hplace
    · cases hplace
    · exact Bool.eq_false_iff.mpr ‹_›
  | pop hd hpos ht =>
    -- the queue only gets shorter
    obtain ⟨l₀, rfl, hq', -⟩ := hsim.of_take hpos ht
    have hfull := h.room j _ hj
    rw [hsim.full, decide_eq_false_iff_not, List.length_cons] at hfull
    rw [hq'.full, decide_eq_false_iff_not, hlen]
    omega
  | wait | waitFails | write => exact h.room j line hj

end Single

section Results

variable {T α : Type*} [DecidableEq T] {maxSize : ℤ} {memory : ℕ → α} {q : BlockQueue α}

theorem log_lines_accounted_iff (hnew : BlockQueue.new maxSize memory = some q) (as : List (Action T α)) :
    Along Step (fun _ _ t => t.Accounted) (.start q) as ↔
      Along Step (fun s a _ => s.HasRoom a) (.start q) as := by
  have hstep : ∀ (s : Logger T α) a t, (∃ l, Simulates s.queue l) → s.Accounted → Step s a t →
      (t.Accounted ∧ True ↔ s.HasRoom a) := by
    rintro s a t ⟨l, hl⟩ hs hst
    rw [and_true]
    exact (step_effect hl hst).accounted_iff hs
  have hkeep : ∀ (s : Logger T α) a t, (∃ l, Simulates s.queue l) → Step s a t → ∃ l, Simulates t.queue l := by
    rintro s a t ⟨l, hl⟩ hst
    obtain ⟨l', hl', -⟩ := step_simulated hl hst
    exact ⟨l', hl'⟩
  have hq := (simulates_new hnew).1
  have h0 : (Logger.start q : Logger T α).Accounted := by
    rw [Logger.Accounted, onWay_eq (s := .start q) hq]
    exact .refl _
  simpa only [and_true] using along_iff ⟨[], hq⟩ h0 hkeep hstep as

theorem log_lines_accounted_one_cell :
    BlockQueue.new 1 (fun _ => 0) = some ⟨[0], 0, 1, -1, -1⟩ ∧
    ∀ as : List (Action Bool ℕ),
      Along Step (fun _ _ t => t.Accounted) (.start ⟨[0], 0, 1, -1, -1⟩) as ↔
        Along Step (fun s a _ => s.HasRoom a) (.start ⟨[0], 0, 1, -1, -1⟩) as := by
  have hnew : BlockQueue.new 1 (fun _ => 0) = some ⟨[0], 0, 1, -1, -1⟩ := rfl
  exact ⟨hnew, log_lines_accounted_iff hnew⟩

/-- With one thread that calls `write_log` the lines are written, and are on their way, in the order of the
calls just if no line is written directly while a different one is on its way. -/
theorem log_order_iff [Subsingleton T] (hnew : BlockQueue.new maxSize memory = some q)
    (as : List (Action T α)) :
    (Along Step (fun _ _ t => t.InOrder) (.start q) as ↔ Along Step (fun s a _ => s.Follows a) (.start q) as) ∧
    (Along Step (fun s a _ => s.Follows a) (.start q) as →
      Along Step (fun _ _ t => t.output <+: t.returned) (.start q) as) := by
  have hstep : ∀ (s : Logger T α) a t, Sound s → s.InOrder → Step s a t →
      (t.InOrder ∧ t.output <+: t.returned ↔ s.Follows a) := by
    rintro s a t ⟨⟨l, hl⟩, hroom⟩ hs hst
    rw [← (step_effect hl hst).inOrder_iff hs hroom]
    exact ⟨And.left, fun h => ⟨h, h.output_prefix⟩⟩
  have hq := (simulates_new hnew).1
  have h0 : (Logger.start q : Logger T α).InOrder := by
    rw [Logger.InOrder, onWay_eq (s := .start q) hq]
    rfl
  have hiff := along_iff (s := (Logger.start q : Logger T α)) ⟨⟨[], hq⟩, fun _ _ => nofun⟩ h0 step_sound hstep as
  refine ⟨⟨fun h => ?_, fun h pre a post t u has ht hs => (hiff.mpr h pre a post t u has ht hs).1⟩,
    fun h pre a post t u has ht hs => (hiff.mpr h pre a post t u has ht hs).2⟩
  apply hiff.mp
  intro pre a post t u has ht hs
  have hu := h pre a post t u has ht hs
  exact ⟨hu, hu.output_prefix⟩

theorem log_order_one_cell :
    BlockQueue.new 1 (fun _ => 0) = some ⟨[0], 0, 1, -1, -1⟩ ∧ Subsingleton Unit ∧
    ∀ as : List (Action Unit ℕ),
      Along Step (fun s a _ => s.Follows a) (.start ⟨[0], 0, 1, -1, -1⟩) as →
        Along Step (fun _ _ t => t.output <+: t.returned) (.start ⟨[0], 0, 1, -1, -1⟩) as := by
  have hnew : BlockQueue.new 1 (fun _ => 0) = some ⟨[0], 0, 1, -1, -1⟩ := rfl
  exact ⟨hnew, inferInstance, fun as => (log_order_iff hnew as).2⟩

end Results

section Full

variable {T : Type*} {s : Logger T ℕ} {q : BlockQueue ℕ} {as : List (Action T ℕ)}

structure Filled (cap n : ℕ) (s : Logger T ℕ) : Prop where
  simulated : Simulates s.queue (List.range n)
  length : s.queue.array.length = cap
  output : s.output = []
  drain : s.drain = .popping
  returned : s.returned = List.range n
  outside : ∀ i, s.place i = .outside

lemma Filled.full {cap n : ℕ} (h : Filled cap n s) : full s.queue = decide (cap ≤ n) := by
  rw [h.simulated.full, h.length, List.length_range]

lemma filled_new {maxSize : ℤ} {memory : ℕ → ℕ} (hnew : BlockQueue.new maxSize memory = some q) :
    Filled maxSize.toNat 0 (.start q : Logger T ℕ) :=
  ⟨(simulates_new hnew).1, (simulates_new hnew).2, rfl, rfl, rfl, fun _ => rfl⟩

lemma Filled.push {cap n : ℕ} (h : Filled cap n s) (hlt : n < cap) :
    ∃ q', push s.queue n = some (true, q') ∧ Simulates q' (List.range (n + 1)) ∧ q'.array.length = cap := by
  have hroom : (List.range n).length < s.queue.array.length := by
    rw [List.length_range, h.length]
    exact hlt
  obtain ⟨q', hq', hsim, hlen⟩ := h.simulated.push n
  rw [if_pos hroom, ← List.range_succ] at hsim
  rw [decide_eq_true hroom] at hq'
  exact ⟨q', hq', hsim, hlen.trans h.length⟩

lemma push_full {item : ℕ} (h : Log.full q = true) : Log.push q item = some (false, q) := by
  rw [Log.push, if_pos (of_decide_eq_true h)]

variable [DecidableEq T]

lemma step_room (line : ℕ) {i : T} (hi : s.place i = .formatted line) (hfull : full s.queue = false) :
    Step s (.full i) (s.goTo i (.room line)) := by
  have hs := Step.full hi
  rw [if_neg (Bool.eq_false_iff.mp hfull)] at hs
  exact hs

lemma step_noRoom (line : ℕ) {i : T} (hi : s.place i = .formatted line) (hfull : full s.queue = true) :
    Step s (.full i) (s.goTo i (.noRoom line)) := by
  have hs := Step.full hi
  rw [if_pos hfull] at hs
  exact hs

lemma Filled.next {cap n : ℕ} (h : Filled cap n s) (i : T) (ht : Trace Step (.start q) as s) (hlt : n < cap) :
    ∃ (bs : List (Action T ℕ)) (u : Logger T ℕ), Trace Step (.start q) bs u ∧ Filled cap (n + 1) u := by
  obtain ⟨q', hq', hsim, hlen⟩ := h.push hlt
  have hfull : Log.full s.queue = false := h.full.trans (decide_eq_false (not_le.mpr hlt))
  have h₁ := ht.snoc (.format n (h.outside i))
  have h₂ := h₁.snoc (step_room n (Function.update_self _ _ _) hfull)
  have h₃ := h₂.snoc (.push (Function.update_self _ _ _) hq')
  refine ⟨_, _, h₃, hsim, hlen, h.output, h.drain, ?_, fun j => ?_⟩
  · rw [List.range_succ, ← h.returned]
    rfl
  · by_cases hji : j = i
    · rw [hji]
      exact Function.update_self _ _ _
    · simpa [Logger.goTo, hji] using h.outside j

lemma filled {maxSize : ℤ} {memory : ℕ → ℕ} (hnew : BlockQueue.new maxSize memory = some q) (i : T) (n : ℕ)
    (hn : n ≤ maxSize.toNat) : ∃ as s, Trace Step (.start q : Logger T ℕ) as s ∧ Filled maxSize.toNat n s := by
  induction n with
  | zero => exact ⟨[], _, .nil, filled_new hnew⟩
  | succ n ih =>
    obtain ⟨as, s, ht, h⟩ := ih (by omega)
    exact h.next i ht (by omega)

theorem log_lines_accounted_race : ∃ q as s, BlockQueue.new 800 (fun _ => 0) = some q ∧
    Trace Step (.start q : Logger Bool ℕ) as s ∧ s.returned = List.range 801 ∧
    contents s.queue = List.range 800 ∧ s.drain.held = [] ∧ s.output = [] ∧ ¬ s.Accounted := by
  obtain ⟨q, hnew⟩ : ∃ q, BlockQueue.new 800 (fun _ => 0) = some q := ⟨_, rfl⟩
  obtain ⟨as, s, ht, h⟩ := filled hnew true 799 (by decide)
  obtain ⟨q', hq', hsim, hlen⟩ := h.push (by decide)
  have hfull : full s.queue = false := h.full
  have hlost : push q' 800 = some (false, q') := by
    apply push_full
    rw [hsim.full, hlen, List.length_range]
    rfl
  have h₁ := ht.snoc (.format 799 (h.outside true))
  have h₂ := h₁.snoc (.format (i := false) 800 (h.outside false))
  have h₃ := h₂.snoc (step_room 799 (i := true) rfl hfull)
  have h₄ := h₃.snoc (step_room 800 (i := false) rfl hfull)
  have h₅ := h₄.snoc (.push (i := true) rfl hq')
  have h₆ := h₅.snoc (.push (i := false) rfl hlost)
  have hreturned : s.returned ++ [799] ++ [800] = List.range 801 := by
    rw [h.returned, ← List.range_succ, ← List.range_succ]
  have hheld : s.drain.held = [] := held_nil (.inl h.drain)
  refine ⟨q, _, _, hnew, h₆, hreturned, hsim.contents, hheld, h.output, fun hperm => ?_⟩
  have hlen := List.Perm.length_eq hperm
  change (s.returned ++ [799] ++ [800]).length = (s.output ++ (s.drain.held ++ contents q')).length at hlen
  rw [hreturned, h.output, hheld, hsim.contents, List.nil_append, List.nil_append, List.length_range,
    List.length_range] at hlen
  exact absurd hlen (by decide)

theorem log_order_overtaken : ∃ q as s, BlockQueue.new 800 (fun _ => 0) = some q ∧
    Trace Step (.start q : Logger Unit ℕ) as s ∧ s.returned = List.range 801 ∧ s.output = [800] ∧
    s.drain = .popping ∧ contents s.queue = List.range 800 ∧ ¬ s.output <+: s.returned := by
  obtain ⟨q, hnew⟩ : ∃ q, BlockQueue.new 800 (fun _ => 0) = some q := ⟨_, rfl⟩
  obtain ⟨as, s, ht, h⟩ := filled hnew () 800 (by decide)
  have h₁ := ht.snoc (.format 800 (h.outside ()))
  have h₂ := h₁.snoc (step_noRoom 800 (i := ()) rfl h.full)
  have h₃ := h₂.snoc (.fputs (i := ()) rfl)
  have hreturned : s.returned ++ [800] = List.range 801 := by rw [h.returned, ← List.range_succ]
  have houtput : s.output ++ [800] = [800] := by
    rw [h.output]
    rfl
  refine ⟨q, _, _, hnew, h₃, hreturned, houtput, h.drain, h.simulated.contents, fun ⟨rest, hrest⟩ => ?_⟩
  have hhead := congrArg List.head? ((congrArg (· ++ rest) houtput).symm.trans (hrest.trans hreturned))
  cases hhead.trans (List.head?_range (n := 801))

end Full

end Async

end OceanServer.Log
