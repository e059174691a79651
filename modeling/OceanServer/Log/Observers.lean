import OceanServer.Log.BlockQueue
import Mathlib.Data.List.DropRight

/-! `block_queue::front` and `back` against the element popped next and the one pushed last. -/

namespace OceanServer.Log

open Library

section Slots

variable {α : Type*} {q q' : BlockQueue α} {p d : List α} {x : α}

/-- What both observers do with their index: `some none` where they return `false`, `none` where they read
outside of the array. -/
def observe (q : BlockQueue α) (i : ℤ) : Option (Option α) :=
  if 0 = q.size then some none else (load q.array i).map some

def front (q : BlockQueue α) : Option (Option α) := observe q q.front

def back (q : BlockQueue α) : Option (Option α) := observe q q.back

def lastIndex (n cap : ℕ) : ℤ := if n = 0 then -1 else ((n - 1) % cap : ℕ)

structure Slots (q : BlockQueue α) (p d : List α) : Prop where
  cap : q.maxSize = q.array.length
  pos : 0 < q.array.length
  order : d <+: p
  fits : p.length ≤ d.length + q.array.length
  size : q.size = (p.length : ℤ) - d.length
  front : q.front = lastIndex d.length q.array.length
  back : q.back = lastIndex p.length q.array.length
  recent : Ring.Recent q.array p

lemma lastIndex_succ (n cap : ℕ) : lastIndex (n + 1) cap = (n % cap : ℕ) := if_neg n.succ_ne_zero

lemma lastIndex_next (n cap : ℕ) : (lastIndex n cap + 1).tmod cap = (n % cap : ℕ) := by
  cases n with
  | zero => rfl
  | succ n =>
    rw [lastIndex_succ, next_index (by omega), toNat_mod_succ]

lemma Slots.push {ok : Bool} (h : Slots q p d) (hp : Log.push q x = some (ok, q')) :
    Slots q' (if ok then p ++ [x] else p) d ∧ q'.array.length = q.array.length := by
  have hsize := h.size
  have hcap := h.cap
  rw [Log.push] at hp
  split at hp
  · cases hp
    exact ⟨h, rfl⟩
  · rename_i hroom
    have hindex : (q.back + 1).tmod q.maxSize = (p.length % q.array.length : ℕ) := by
      rw [hcap, h.back, lastIndex_next]
    have hstore := store_natCast (Nat.mod_lt p.length h.pos) x
    simp only [hindex, hstore, Option.bind_eq_bind, Option.bind_some] at hp
    cases hp
    have hlen : (q.array.set (p.length % q.array.length) x).length = q.array.length := List.length_set
    refine ⟨⟨?_, ?_, h.order.trans (List.prefix_append p [x]), ?_, ?_, ?_, ?_, h.recent.push h.pos x⟩, hlen⟩
    · exact hcap.trans (congrArg _ hlen.symm)
    · rw [hlen]
      exact h.pos
    · rw [hlen, if_pos rfl, List.length_append, List.length_singleton]
      omega
    · rw [if_pos rfl, List.length_append, List.length_singleton]
      push_cast
      omega
    · rw [hlen]
      exact h.front
    · rw [hlen, if_pos rfl, List.length_append, List.length_singleton, lastIndex_succ]

lemma Slots.take (h : Slots q p d) (hpos : 0 < q.size) :
    ∃ x q', Log.take q = some (x, q') ∧ p[d.length]? = some x ∧ Slots q' p (d ++ [x]) ∧
      q'.array.length = q.array.length := by
  have hsize := h.size
  have hfits := h.fits
  have hlt : d.length < p.length := by omega
  have hindex : (q.front + 1).tmod q.maxSize = (d.length % q.array.length : ℕ) := by
    rw [h.cap, h.front, lastIndex_next]
  have hx : p[d.length]? = some p[d.length] := List.getElem?_eq_getElem hlt
  have hload := (load_natCast q.array _).trans (h.recent d.length p[d.length] hfits hx)
  refine ⟨p[d.length], { q with size := q.size - 1, front := (d.length % q.array.length : ℕ) }, ?_, hx, ?_, rfl⟩
  · simp only [Log.take, hindex, hload, Option.bind_eq_bind, Option.bind_some]
  · refine ⟨h.cap, h.pos, ?_, ?_, ?_, ?_, h.back, h.recent⟩
    · have htake := List.take_concat_get' p d.length hlt
      rw [← List.prefix_iff_eq_take.mp h.order] at htake
      rw [htake]
      exact List.take_prefix _ _
    · rw [List.length_append, List.length_singleton]
      exact hfits.trans (Nat.add_le_add_right (Nat.le_succ _) _)
    · rw [List.length_append, List.length_singleton]
      push_cast
      omega
    · rw [List.length_append, List.length_singleton, lastIndex_succ]

lemma Slots.unchanged (h : Slots q p d) : Slots q (p ++ []) (d ++ []) := by
  rw [List.append_nil, List.append_nil]
  exact h

lemma Slots.clear (h : Slots q p d) : Slots (clear q) [] [] :=
  ⟨h.cap, h.pos, List.nil_prefix, Nat.zero_le _, rfl, rfl, rfl, nofun⟩

lemma Slots.observe_eq {n k : ℕ} (h : Slots q p d) (hpos : 0 < q.size) (hk : p.length ≤ k + q.array.length)
    (hlt : k < p.length) (hmod : n % q.array.length = k % q.array.length) :
    observe q (lastIndex (n + 1) q.array.length) = some p[k]? := by
  have hx : p[k]? = some p[k] := List.getElem?_eq_getElem hlt
  rw [observe, if_neg hpos.ne, lastIndex_succ, load_natCast, hmod, h.recent k _ hk hx, hx, Option.map_some]

lemma Slots.back_eq (h : Slots q p d) (hpos : 0 < q.size) : Log.back q = some p.getLast? := by
  have hsize := h.size
  obtain ⟨n, hn⟩ := Nat.exists_eq_succ_of_ne_zero (show p.length ≠ 0 by omega)
  rw [Log.back, h.back, hn, List.getLast?_eq_getElem?, hn]
  exact h.observe_eq hpos (by have := h.pos; omega) (by omega) rfl

lemma Slots.front_eq (h : Slots q p d) (hpos : 0 < q.size) (hd : d ≠ []) :
    Log.front q = some (if p.length < d.length + q.array.length then d.getLast? else p.getLast?) := by
  have hfits := h.fits
  have hsize := h.size
  obtain ⟨n, hn⟩ := Nat.exists_eq_succ_of_ne_zero (List.length_pos_of_ne_nil hd).ne'
  rw [Log.front, h.front, hn]
  split
  · have hlast : d.getLast? = p[n]? := by
      rw [List.getLast?_eq_getElem?, hn, List.getElem?_eq_getElem (by omega),
        List.getElem?_eq_getElem (by omega)]
      exact congrArg some (h.order.getElem _)
    rw [hlast]
    exact h.observe_eq hpos (by omega) (by omega) rfl
  · -- the queue is full: the newest element is in the cell of the one popped last
    have hlen : p.length - 1 = n + q.array.length := by omega
    rw [List.getLast?_eq_getElem?, hlen]
    exact h.observe_eq hpos (by omega) (by omega) (Nat.add_mod_right n _).symm

lemma Slots.front_outside (h : Slots q p []) (hpos : 0 < q.size) : Log.front q = none := by
  rw [Log.front, observe, if_neg hpos.ne, h.front]
  rfl

end Slots

section Runs

variable {T α : Type*} {s t : Threads T α} {a : Label T α} {as : List (Label T α)} {p d : List α}

def sinceClear (as : List (Label T α)) : List (Label T α) := as.rtakeWhile fun a => !a.isClear

def Agrees (as : List (Label T α)) (q : BlockQueue α) : Prop :=
  (∃ x q', take q = some (x, q') ∧ front q = some (some x)) ∧
    ∃ x, (pushed as).getLast? = some x ∧ back q = some (some x)

def OldestLikeLast (maxSize : ℕ) (as : List (Label T α)) : Prop :=
  let p := pushed (sinceClear as)
  let d := popped (sinceClear as)
  d ≠ [] ∧ p[d.length]? = if p.length < d.length + maxSize then d.getLast? else p.getLast?

lemma getLast?_pushed (h : pushed (sinceClear as) ≠ []) :
    (pushed as).getLast? = (pushed (sinceClear as)).getLast? := by
  obtain ⟨pre, hpre⟩ := List.rtakeWhile_suffix (fun a : Label T α => !a.isClear) as
  have hpushed : pushed as = pushed pre ++ pushed (sinceClear as) := by
    rw [← pushed_append]
    exact congrArg pushed hpre.symm
  rw [hpushed, List.getLast?_append_of_ne_nil _ h]

variable [DecidableEq T]

lemma slots_new {maxSize : ℤ} {memory : ℕ → α} {q : BlockQueue α} (h : BlockQueue.new maxSize memory = some q) :
    Slots q [] [] ∧ q.array.length = maxSize.toNat := by
  obtain ⟨hsim, hlen⟩ := simulates_new h
  rw [BlockQueue.new] at h
  split at h
  · cases h
  · cases h
    exact ⟨⟨hsim.cap, hsim.pos, List.nil_prefix, Nat.zero_le _, rfl, rfl, rfl, nofun⟩, hlen⟩

lemma step_slots (h : Slots s.queue p d) (hs : Step s a t) (ha : a.isClear = false) :
    Slots t.queue (p ++ pushed [a]) (d ++ popped [a]) ∧ t.queue.array.length = s.queue.array.length := by
  cases hs with
  | @push i item ok q _ hp =>
    obtain ⟨hslots, hlen⟩ := h.push hp
    refine ⟨?_, hlen⟩
    cases ok with
    | true => exact (List.append_nil d).symm ▸ hslots
    | false => exact hslots.unchanged
  | pop _ hpos ht | timedPop _ hpos ht =>
    obtain ⟨x, q', hx, -, hslots, hlen⟩ := h.take hpos
    cases ht.symm.trans hx
    exact ⟨(List.append_nil p).symm ▸ hslots, hlen⟩
  | clear => cases ha
  | wait | waitFails | timedWait | timedWake | timedFails | size | full | empty => exact ⟨h.unchanged, rfl⟩

lemma trace_slots {q : BlockQueue α} (hq : Slots q [] []) (h : Trace Step (.start q) as s) :
    Slots s.queue (pushed (sinceClear as)) (popped (sinceClear as)) ∧
      s.queue.array.length = q.array.length := by
  induction h with
  | nil => exact ⟨hq, rfl⟩
  | @snoc as t a u _ hs ih =>
    obtain ⟨hslots, hlen⟩ := ih
    cases ha : a.isClear with
    | false =>
      obtain ⟨hnext, hkeep⟩ := step_slots hslots hs ha
      have hsince : sinceClear (as ++ [a]) = sinceClear as ++ [a] :=
        List.rtakeWhile_concat_pos _ _ _ (by rw [ha]; rfl)
      rw [hsince, pushed_append, popped_append]
      exact ⟨hnext, hkeep.trans hlen⟩
    | true =>
      have hsince : sinceClear (as ++ [a]) = [] := List.rtakeWhile_concat_neg _ _ _ (by rw [ha]; exact nofun)
      rw [hsince]
      cases hs with
      | clear => exact ⟨hslots.clear, hlen⟩
      | _ => cases ha

/-- In every state with elements that is reached by calls of `push`, `pop` and `clear`, in any interleaving: the
observers agree with the queue just if the element popped last, or the newest one of a full queue, equals the
oldest one. -/
theorem observers_agree_iff {maxSize : ℤ} {memory : ℕ → α} {q : BlockQueue α}
    (hnew : BlockQueue.new maxSize memory = some q) (h : Trace Step (.start q) as s) (hpos : 0 < s.queue.size) :
    Agrees as s.queue ↔ OldestLikeLast maxSize.toNat as := by
  obtain ⟨hq, hcap⟩ := slots_new hnew
  obtain ⟨hslots, hlen⟩ := trace_slots hq h
  obtain ⟨x, q', htake, hx, -⟩ := hslots.take hpos
  have hne : pushed (sinceClear as) ≠ [] := by
    intro hnil
    rw [hnil] at hx
    cases hx
  have hback : ∃ y, (pushed as).getLast? = some y ∧ back s.queue = some (some y) := by
    rw [getLast?_pushed hne, hslots.back_eq hpos, List.getLast?_eq_getLast_of_ne_nil hne]
    exact ⟨_, rfl, rfl⟩
  have hfront : (∃ y p, take s.queue = some (y, p) ∧ front s.queue = some (some y)) ↔
      front s.queue = some (some x) := by
    constructor
    · rintro ⟨y, p, hy, hfront⟩
      cases htake.symm.trans hy
      exact hfront
    · intro hfront
      exact ⟨x, q', htake, hfront⟩
  rw [Agrees, and_iff_left hback, hfront, OldestLikeLast, hx, ← hcap, ← hlen]
  by_cases hd : popped (sinceClear as) = []
  · rw [hd] at hslots
    rw [hslots.front_outside hpos]
    exact iff_of_false nofun fun h => h.1 hd
  · rw [hslots.front_eq hpos hd, Option.some.injEq, and_iff_right hd, eq_comm]

theorem observers_agree_equal_elements : ∃ (as : List (Label Unit ℕ)) (s : Threads Unit ℕ),
    Trace Step (.start ⟨[0, 0], 0, 2, -1, -1⟩) as s ∧ 0 < s.queue.size ∧ Agrees as s.queue := by
  have hnew : BlockQueue.new 2 (fun _ => 0) = some ⟨[0, 0], 0, 2, -1, -1⟩ := rfl
  have h₁ : Trace Step (.start ⟨[0, 0], 0, 2, -1, -1⟩ : Threads Unit ℕ) _ _ :=
    .snoc .nil (.push (i := ()) rfl (rfl : push _ 7 = _))
  have h₂ := h₁.snoc (.push (i := ()) rfl (rfl : push _ 7 = _))
  have h₃ := h₂.snoc (.pop (i := ()) (.inl rfl) (by decide) rfl)
  exact ⟨_, _, h₃, by decide, (observers_agree_iff hnew h₃ (by decide)).mpr ⟨by decide, rfl⟩⟩

theorem front_before_and_after_pop : ∃ (as bs : List (Label Unit ℕ)) (s t : Threads Unit ℕ),
    Trace Step (.start ⟨[0, 0], 0, 2, -1, -1⟩) as s ∧ 0 < s.queue.size ∧ front s.queue = none ∧
      ¬ Agrees as s.queue ∧
    Trace Step (.start ⟨[0, 0], 0, 2, -1, -1⟩) bs t ∧ front t.queue = some (some 7) ∧
      (take t.queue).map Prod.fst = some 9 ∧ ¬ Agrees bs t.queue := by
  have h₁ : Trace Step (.start ⟨[0, 0], 0, 2, -1, -1⟩ : Threads Unit ℕ) _ _ :=
    .snoc .nil (.push (i := ()) rfl (rfl : push _ 7 = _))
  have h₂ := h₁.snoc (.push (i := ()) rfl (rfl : push _ 9 = _))
  have h₃ := h₂.snoc (.pop (i := ()) (.inl rfl) (by decide) rfl)
  refine ⟨_, _, _, _, h₁, by decide, rfl, ?_, h₃, rfl, rfl, ?_⟩
  · rintro ⟨⟨x, q, -, hfront⟩, -⟩
    cases hfront
  · rintro ⟨⟨x, q, htake, hfront⟩, -⟩
    cases htake
    cases hfront

end Runs

end OceanServer.Log
