import OceanServer.Library.Ring
import OceanServer.Library.Runs

/-! `block_queue`: a circular array under a mutex and a condition variable, and the bounded list that it
stands for. -/

namespace OceanServer.Log

open Library

structure BlockQueue (α : Type*) where
  array : List α
  size : ℤ
  maxSize : ℤ
  front : ℤ
  back : ℤ
  deriving DecidableEq, Repr

section Operations

variable {α : Type*}

def load (array : List α) (i : ℤ) : Option α := if 0 ≤ i then array[i.toNat]? else none

def store (array : List α) (i : ℤ) (item : α) : Option (List α) :=
  if 0 ≤ i ∧ i.toNat < array.length then some (array.set i.toNat item) else none

def BlockQueue.new (maxSize : ℤ) (memory : ℕ → α) : Option (BlockQueue α) :=
  -- The constructor, with `memory` in the new array; a size that is not positive ends the program.
  if maxSize ≤ 0 then none else some ⟨(List.range maxSize.toNat).map memory, 0, maxSize, -1, -1⟩

def clear (q : BlockQueue α) : BlockQueue α := { q with size := 0, front := -1, back := -1 }

def full (q : BlockQueue α) : Bool := q.maxSize ≤ q.size

def empty (q : BlockQueue α) : Bool := 0 = q.size

def push (q : BlockQueue α) (item : α) : Option (Bool × BlockQueue α) :=
  if q.maxSize ≤ q.size then some (false, q)
  else do
    let back := (q.back + 1).tmod q.maxSize
    let array ← store q.array back item
    some (true, { q with array := array, size := q.size + 1, back := back })

def take (q : BlockQueue α) : Option (α × BlockQueue α) := do
  let front := (q.front + 1).tmod q.maxSize
  let item ← load q.array front
  some (item, { q with size := q.size - 1, front := front })

end Operations

inductive Place where
  | outside | waiting | timed
  deriving DecidableEq, Repr

structure Threads (T α : Type*) where
  queue : BlockQueue α
  place : T → Place

inductive Label (T α : Type*) where
  | push (i : T) (item : α) (ok : Bool)
  | popped (i : T) (item : α)
  | gaveUp (i : T)
  | blocked (i : T)
  | cleared (i : T)
  | size (i : T) (n : ℤ)
  | full (i : T) (b : Bool)
  | empty (i : T) (b : Bool)

section Steps

variable {T α : Type*} [DecidableEq T]

def Threads.start (q : BlockQueue α) : Threads T α := ⟨q, fun _ => .outside⟩

def Threads.goTo (s : Threads T α) (i : T) (p : Place) : Threads T α :=
  { s with place := Function.update s.place i p }

inductive Step : Threads T α → Label T α → Threads T α → Prop
  | push {s i item ok q} : s.place i = .outside → push s.queue item = some (ok, q) →
      Step s (.push i item ok) { s with queue := q }
  -- `pop` from its start or after a wake-up, which may be spurious
  | pop {s i item q} : s.place i = .outside ∨ s.place i = .waiting → 0 < s.queue.size →
      take s.queue = some (item, q) → Step s (.popped i item) { s.goTo i .outside with queue := q }
  | wait {s i} : s.place i = .outside ∨ s.place i = .waiting → s.queue.size ≤ 0 →
      Step s (.blocked i) (s.goTo i .waiting)
  | waitFails {s i} : s.place i = .waiting → Step s (.gaveUp i) (s.goTo i .outside)
  -- `pop` with a timeout tests again only once
  | timedPop {s i item q} : s.place i = .outside ∨ s.place i = .timed → 0 < s.queue.size →
      take s.queue = some (item, q) → Step s (.popped i item) { s.goTo i .outside with queue := q }
  | timedWait {s i} : s.place i = .outside → s.queue.size ≤ 0 → Step s (.blocked i) (s.goTo i .timed)
  | timedWake {s i} : s.place i = .timed → s.queue.size ≤ 0 → Step s (.gaveUp i) (s.goTo i .outside)
  | timedFails {s i} : s.place i = .timed → Step s (.gaveUp i) (s.goTo i .outside)
  | clear {s i} : s.place i = .outside → Step s (.cleared i) { s with queue := clear s.queue }
  | size {s i} : s.place i = .outside → Step s (.size i s.queue.size) s
  | full {s i} : s.place i = .outside → Step s (.full i (full s.queue)) s
  | empty {s i} : s.place i = .outside → Step s (.empty i (empty s.queue)) s

end Steps

inductive Fifo {T α : Type*} (maxSize : ℕ) : List α → Label T α → List α → Prop
  | push {l i item} : Fifo maxSize l (.push i item (l.length < maxSize))
      (if l.length < maxSize then l ++ [item] else l)
  | popped {l i item} : Fifo maxSize (item :: l) (.popped i item) l
  | gaveUp {l i} : Fifo maxSize l (.gaveUp i) l
  | blocked {i} : Fifo maxSize [] (.blocked i) []
  | cleared {l i} : Fifo maxSize l (.cleared i) []
  | size {l i} : Fifo maxSize l (.size i l.length) l
  | full {l i} : Fifo maxSize l (.full i (maxSize ≤ l.length)) l
  | empty {l i} : Fifo maxSize l (.empty i (l.length = 0)) l

section Simulation

variable {α : Type*} {q : BlockQueue α} {l : List α} {x : α}

/-- The cells behind `m_front`, as many as `m_size` says, hold `l`, and `m_back` is the last of them. -/
structure Simulates (q : BlockQueue α) (l : List α) : Prop where
  cap : q.maxSize = q.array.length
  pos : 0 < q.array.length
  size : q.size = l.length
  front : -1 ≤ q.front
  back : -1 ≤ q.back
  ends : (q.back + 1).toNat % q.array.length = ((q.front + 1).toNat + l.length) % q.array.length
  holds : Ring.Holds q.array (q.front + 1).toNat l

lemma next_index {i : ℤ} (hi : -1 ≤ i) (n : ℕ) : (i + 1).tmod n = ((i + 1).toNat % n : ℕ) := by
  obtain ⟨k, hk⟩ := Int.eq_ofNat_of_zero_le (show 0 ≤ i + 1 by omega)
  rw [hk, Int.toNat_natCast]
  rfl

lemma load_natCast (array : List α) (k : ℕ) : load array k = array[k]? := by
  rw [load, if_pos (Int.natCast_nonneg k), Int.toNat_natCast]

lemma store_natCast {array : List α} {k : ℕ} (hk : k < array.length) (item : α) :
    store array k item = some (array.set k item) := by
  rw [store, Int.toNat_natCast, if_pos ⟨Int.natCast_nonneg k, hk⟩]

lemma toNat_mod_succ (k n : ℕ) : (((k % n : ℕ) : ℤ) + 1).toNat % n = (k + 1) % n := by
  rw [show ((k % n : ℕ) : ℤ) + 1 = ((k % n + 1 : ℕ) : ℤ) from rfl, Int.toNat_natCast, Nat.mod_add_mod]

lemma simulates_new {maxSize : ℤ} {memory : ℕ → α} (h : BlockQueue.new maxSize memory = some q) :
    Simulates q [] ∧ q.array.length = maxSize.toNat := by
  unfold BlockQueue.new at h
  split at h
  · cases h
  · cases h
    have hlen : ((List.range maxSize.toNat).map memory).length = maxSize.toNat := by
      rw [List.length_map, List.length_range]
    refine ⟨⟨?_, ?_, rfl, le_rfl, le_rfl, rfl, Ring.holds_nil⟩, hlen⟩
    · change maxSize = _
      rw [hlen]
      omega
    · rw [hlen]
      omega

lemma Simulates.clear (h : Simulates q l) : Simulates (clear q) [] :=
  ⟨h.cap, h.pos, rfl, le_rfl, le_rfl, rfl, Ring.holds_nil⟩

lemma Simulates.push (h : Simulates q l) (item : α) :
    ∃ q', push q item = some (decide (l.length < q.array.length), q') ∧
      Simulates q' (if l.length < q.array.length then l ++ [item] else l) ∧
      q'.array.length = q.array.length := by
  have hsize := h.size
  have hcap := h.cap
  by_cases hroom : l.length < q.array.length
  · have hback : (q.back + 1).tmod q.maxSize = ((q.back + 1).toNat % q.array.length : ℕ) := by
      rw [hcap, next_index h.back]
    have hstore := store_natCast (Nat.mod_lt (q.back + 1).toNat h.pos) item
    rw [if_pos hroom, decide_eq_true hroom]
    refine ⟨{ q with
      array := q.array.set ((q.back + 1).toNat % q.array.length) item
      size := q.size + 1
      back := ((q.back + 1).toNat % q.array.length : ℕ) },
      ?_, ⟨?_, ?_, ?_, h.front, ?_, ?_, ?_⟩, List.length_set⟩
    · rw [Log.push, if_neg (by omega)]
      simp only [hback, hstore, Option.bind_eq_bind, Option.bind_some]
    · rw [List.length_set]
      exact hcap
    · rw [List.length_set]
      exact h.pos
    · rw [hsize, List.length_append, List.length_singleton]
      rfl
    · exact (by decide : (-1 : ℤ) ≤ 0).trans (Int.natCast_nonneg _)
    · rw [List.length_set, toNat_mod_succ, List.length_append, List.length_singleton, ← Nat.add_assoc,
        Nat.add_mod, h.ends, ← Nat.add_mod]
    · rw [h.ends]
      exact h.holds.push hroom item
  · refine ⟨q, ?_, ?_, rfl⟩
    · rw [Log.push, if_pos (by omega), decide_eq_false hroom]
    · rw [if_neg hroom]
      exact h

lemma Simulates.take (h : Simulates q (x :: l)) :
    ∃ q', take q = some (x, q') ∧ Simulates q' l ∧ q'.array.length = q.array.length := by
  obtain ⟨hx, hrest⟩ := h.holds.pop
  have hsize := h.size
  have hfront : (q.front + 1).tmod q.maxSize = ((q.front + 1).toNat % q.array.length : ℕ) := by
    rw [h.cap, next_index h.front]
  have hload := (load_natCast q.array ((q.front + 1).toNat % q.array.length)).trans hx
  refine ⟨{ q with size := q.size - 1, front := ((q.front + 1).toNat % q.array.length : ℕ) }, ?_,
    ⟨h.cap, h.pos, ?_, ?_, h.back, ?_, hrest.congr (toNat_mod_succ _ _).symm⟩, rfl⟩
  · simp only [Log.take, hfront, hload, Option.bind_eq_bind, Option.bind_some]
  · rw [hsize, List.length_cons]
    push_cast
    ring
  · exact (by decide : (-1 : ℤ) ≤ 0).trans (Int.natCast_nonneg _)
  · rw [h.ends, List.length_cons, Nat.add_mod (Int.toNat _) l.length, toNat_mod_succ, ← Nat.add_mod,
      Nat.add_assoc, Nat.add_comm 1]

lemma Simulates.size_nonpos (h : Simulates q l) (hq : q.size ≤ 0) : l = [] := by
  have hsize := h.size
  apply List.eq_nil_of_length_eq_zero
  omega

lemma Simulates.size_pos (h : Simulates q l) (hq : 0 < q.size) : ∃ x l', l = x :: l' := by
  apply List.exists_cons_of_ne_nil
  rintro rfl
  rw [h.size] at hq
  exact lt_irrefl 0 hq

lemma Simulates.of_push {q' : BlockQueue α} {ok : Bool} (h : Simulates q l) (hp : Log.push q x = some (ok, q')) :
    ok = decide (l.length < q.array.length) ∧ Simulates q' (if l.length < q.array.length then l ++ [x] else l) ∧
      q'.array.length = q.array.length := by
  obtain ⟨p, hp', hsim, hlen⟩ := h.push x
  cases hp.symm.trans hp'
  exact ⟨rfl, hsim, hlen⟩

lemma Simulates.of_take {q' : BlockQueue α} (h : Simulates q l) (hpos : 0 < q.size)
    (ht : Log.take q = some (x, q')) :
    ∃ l', l = x :: l' ∧ Simulates q' l' ∧ q'.array.length = q.array.length := by
  obtain ⟨y, l', rfl⟩ := h.size_pos hpos
  obtain ⟨p, hp, hsim, hlen⟩ := h.take
  cases ht.symm.trans hp
  exact ⟨l', rfl, hsim, hlen⟩

lemma Simulates.full (h : Simulates q l) : full q = decide (q.array.length ≤ l.length) := by
  have hsize := h.size
  have hcap := h.cap
  unfold Log.full
  congr 1
  apply propext
  omega

lemma Simulates.empty (h : Simulates q l) : empty q = decide (l.length = 0) := by
  have hsize := h.size
  unfold Log.empty
  congr 1
  apply propext
  omega

end Simulation

section Refinement

variable {T α : Type*} [DecidableEq T] {s t : Threads T α} {a : Label T α} {l : List α} {n : ℕ}

lemma step_simulates (h : Simulates s.queue l) (hn : s.queue.array.length = n) (hs : Step s a t) :
    ∃ l', Fifo n l a l' ∧ Simulates t.queue l' ∧ t.queue.array.length = n := by
  subst hn
  cases hs with
  | push _ hp =>
    obtain ⟨rfl, hsim, hlen⟩ := h.of_push hp
    exact ⟨_, .push, hsim, hlen⟩
  | pop _ hpos ht | timedPop _ hpos ht =>
    obtain ⟨l', rfl, hsim, hlen⟩ := h.of_take hpos ht
    exact ⟨l', .popped, hsim, hlen⟩
  | wait _ hle | timedWait _ hle =>
    obtain rfl := h.size_nonpos hle
    exact ⟨[], .blocked, h, rfl⟩
  | waitFails | timedWake | timedFails => exact ⟨l, .gaveUp, h, rfl⟩
  | clear => exact ⟨[], .cleared, h.clear, rfl⟩
  | size =>
    rw [h.size]
    exact ⟨l, .size, h, rfl⟩
  | full =>
    rw [h.full]
    exact ⟨l, .full, h, rfl⟩
  | empty =>
    rw [h.empty]
    exact ⟨l, .empty, h, rfl⟩

lemma trace_simulates {q : BlockQueue α} {as : List (Label T α)} (hq : Simulates q [])
    (hn : q.array.length = n) (h : Trace Step (.start q) as s) :
    ∃ l, Trace (Fifo n) [] as l ∧ Simulates s.queue l ∧ s.queue.array.length = n := by
  induction h with
  | nil => exact ⟨[], .nil, hq, hn⟩
  | snoc _ hs ih =>
    obtain ⟨l, hl, hsim, hlen⟩ := ih
    obtain ⟨l', hf, hsim', hlen'⟩ := step_simulates hsim hlen hs
    exact ⟨l', hl.snoc hf, hsim', hlen'⟩

end Refinement

section Order

variable {T α : Type*} {as bs : List (Label T α)} {l l' : List α} {n : ℕ}

def pushed (as : List (Label T α)) : List α :=
  as.filterMap fun
    | .push _ item true => some item
    | _ => none

def popped (as : List (Label T α)) : List α :=
  as.filterMap fun
    | .popped _ item => some item
    | _ => none

def Label.isClear : Label T α → Bool
  | .cleared _ => true
  | _ => false

def Cleared (as : List (Label T α)) : Prop := as = [] ∨ ∃ bs i, as = bs ++ [.cleared i]

lemma pushed_append : pushed (as ++ bs) = pushed as ++ pushed bs := List.filterMap_append

lemma popped_append : popped (as ++ bs) = popped as ++ popped bs := List.filterMap_append

lemma fifo_step {a : Label T α} (h : Fifo n l a l') (ha : a.isClear = false) :
    popped [a] ++ l' = l ++ pushed [a] := by
  cases h with
  | @push i item =>
    by_cases hlt : l.length < n
    · rw [if_pos hlt, decide_eq_true hlt]
      rfl
    · rw [if_neg hlt, decide_eq_false hlt]
      exact (List.append_nil l).symm
  | popped | gaveUp | blocked | size | full | empty => exact (List.append_nil _).symm
  | cleared => cases ha

lemma fifo_order (h : Trace (Fifo n) l as l') (has : ∀ a ∈ as, a.isClear = false) :
    popped as ++ l' = l ++ pushed as := by
  induction h with
  | nil => exact (List.append_nil l).symm
  | @snoc as t a u _ hs ih =>
    have hold := ih fun b hb => has b (List.mem_append_left _ hb)
    have hnew := fifo_step hs (has a (List.mem_append_right _ (List.mem_singleton.mpr rfl)))
    rw [popped_append, pushed_append, List.append_assoc, hnew, ← List.append_assoc, hold, List.append_assoc]

lemma cleared_nil (h : Trace (Fifo n) ([] : List α) as l) (hc : Cleared as) : l = [] := by
  obtain hnil | ⟨bs, i, hlast⟩ := hc
  · exact h.eq_of_nil hnil
  · obtain ⟨t, -, hs⟩ := h.last hlast
    cases hs
    rfl

lemma popped_prefix {cs : List (Label T α)} (h : Trace (Fifo n) [] as l) (has : as = bs ++ cs) (hc : Cleared bs)
    (hcs : ∀ a ∈ cs, a.isClear = false) : popped cs <+: pushed cs := by
  rw [has] at h
  obtain ⟨t, ht, hcs'⟩ := h.split
  rw [cleared_nil ht hc] at hcs'
  exact ⟨l, fifo_order hcs' hcs⟩

end Order

section Queue

variable {T α : Type*} [DecidableEq T]

/-- In every interleaving of critical sections the circular array stands for a list of at most `max_size`
elements, on which the sections do and return what the bounded list does; no section leaves the array; and
between two calls of `clear` the popped elements are a prefix of the pushed ones. -/
theorem block_queue_refines {maxSize : ℤ} {memory : ℕ → α} {q : BlockQueue α} {as : List (Label T α)}
    {s : Threads T α} (hnew : BlockQueue.new maxSize memory = some q) (h : Trace Step (.start q) as s) :
    (∃ l, Trace (Fifo maxSize.toNat) [] as l ∧ Simulates s.queue l ∧ l.length ≤ maxSize.toNat) ∧
    ((∀ item, push s.queue item ≠ none) ∧ (0 < s.queue.size → take s.queue ≠ none)) ∧
    ∀ bs cs, as = bs ++ cs → Cleared bs → (∀ a ∈ cs, a.isClear = false) → popped cs <+: pushed cs := by
  obtain ⟨hq, hlen⟩ := simulates_new hnew
  obtain ⟨l, hl, hsim, hn⟩ := trace_simulates hq hlen h
  refine ⟨⟨l, hl, hsim, ?_⟩, ⟨fun item hp => ?_, fun hpos ht => ?_⟩, fun bs cs has hc hcs =>
    popped_prefix hl has hc hcs⟩
  · rw [← hn]
    exact hsim.holds.fits
  · obtain ⟨q', hq', -⟩ := hsim.push item
    rw [hp] at hq'
    cases hq'
  · obtain ⟨x, l', rfl⟩ := hsim.size_pos hpos
    obtain ⟨q', hq', -⟩ := hsim.take
    rw [ht] at hq'
    cases hq'

theorem block_queue_refines_one_cell : BlockQueue.new 1 (fun _ => 0) = some ⟨[0], 0, 1, -1, -1⟩ ∧
    ∃ (as : List (Label Bool ℕ)) (s : Threads Bool ℕ), Trace Step (.start ⟨[0], 0, 1, -1, -1⟩) as s ∧
      pushed as = [7, 9] ∧ popped as = [7] ∧
      ∃ l, Trace (Fifo 1) [] as l ∧ Simulates s.queue l ∧ l.length ≤ 1 := by
  have hnew : BlockQueue.new 1 (fun _ => 0) = some ⟨[0], 0, 1, -1, -1⟩ := rfl
  have h₁ : Trace Step (.start ⟨[0], 0, 1, -1, -1⟩ : Threads Bool ℕ) _ _ :=
    .snoc .nil (.push (i := true) rfl (rfl : push _ 7 = _))
  have h₂ := h₁.snoc (.push (i := false) rfl (rfl : push _ 8 = _))
  have h₃ := h₂.snoc (.timedPop (i := false) (.inl rfl) (by decide) rfl)
  have h₄ := h₃.snoc (.push (i := true) rfl (rfl : push _ 9 = _))
  exact ⟨hnew, _, _, h₄, rfl, rfl, (block_queue_refines hnew h₄).1⟩

end Queue

end OceanServer.Log
