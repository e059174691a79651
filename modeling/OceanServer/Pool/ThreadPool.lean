import OceanServer.Library.Runs
import OceanServer.Library.Semaphore

/-! `threadpool`: `append` and `append_p` from any number of threads, and the workers of `run`. -/

namespace OceanServer.Pool

open Library

/-- An element of `m_workqueue`, with the number of the call that put it there; `none` is a null pointer. -/
structure Job (α : Type*) where
  call : ℕ
  request : Option α
  deriving DecidableEq, Repr

inductive Caller where
  | outside | posting
  deriving DecidableEq, Repr

inductive Worker (α : Type*) where
  | waiting
  | woken
  | running (job : Job α)
  deriving DecidableEq, Repr

def Caller.isPosting : Caller → Bool
  | .posting => true
  | .outside => false

def Worker.isWoken {α : Type*} : Worker α → Bool
  | .woken => true
  | _ => false

def Worker.isRunning {α : Type*} : Worker α → Bool
  | .running _ => true
  | _ => false

lemma Caller.eq_posting {p : Caller} (h : p.isPosting = true) : p = .posting := by
  cases p with
  | posting => rfl
  | outside => cases h

lemma Worker.eq_woken {α : Type*} {p : Worker α} (h : p.isWoken = true) : p = .woken := by
  cases p with
  | woken => rfl
  | waiting | running => cases h

structure ThreadPool (C W α : Type*) where
  workqueue : List (Job α)
  queuestat : ℕ
  state : α → ℤ
  callers : C → Caller
  workers : W → Worker α
  calls : ℕ

inductive Label (C W α : Type*) where
  | append (c : C) (job : Job α) (ok : Bool)
  | post (c : C)
  | wait (w : W)
  | pop (w : W) (job : Job α)
  | empty (w : W)
  | finish (w : W)

def Label.isPool {C W α : Type*} : Label C W α → Bool
  | .append _ _ _ => false
  | _ => true

section Model

variable {C W α : Type*} [DecidableEq C] [DecidableEq W] [DecidableEq α] (maxRequests : ℕ)

def ThreadPool.start (state : α → ℤ) : ThreadPool C W α where
  workqueue := []
  queuestat := 0
  state := state
  callers := fun _ => .outside
  workers := fun _ => .waiting
  calls := 0

def ThreadPool.refuse (s : ThreadPool C W α) : ThreadPool C W α := { s with calls := s.calls + 1 }

def ThreadPool.push (s : ThreadPool C W α) (c : C) (request : Option α) : ThreadPool C W α :=
  { s with
    workqueue := s.workqueue ++ [⟨s.calls, request⟩]
    callers := Function.update s.callers c .posting
    calls := s.calls + 1 }

def append (s : ThreadPool C W α) (c : C) (request : α) (state : ℤ) : Bool × ThreadPool C W α :=
  -- up to `unlock`: the thread of a call that was not refused still has to post
  if maxRequests ≤ s.workqueue.length then (false, s.refuse)
  else (true, { s with state := Function.update s.state request state }.push c (some request))

def appendP (s : ThreadPool C W α) (c : C) (request : Option α) : Bool × ThreadPool C W α :=
  if maxRequests ≤ s.workqueue.length then (false, s.refuse) else (true, s.push c request)

def ThreadPool.goTo (s : ThreadPool C W α) (w : W) (p : Worker α) : ThreadPool C W α :=
  { s with workers := Function.update s.workers w p }

def afterPop (job : Job α) : Worker α := if job.request = none then .waiting else .running job

inductive Step : ThreadPool C W α → Label C W α → ThreadPool C W α → Prop
  | append {s c} (request : α) (state : ℤ) : s.callers c = .outside →
      Step s (.append c ⟨s.calls, some request⟩ (append maxRequests s c request state).1)
        (append maxRequests s c request state).2
  | appendP {s c} (request : Option α) : s.callers c = .outside →
      Step s (.append c ⟨s.calls, request⟩ (appendP maxRequests s c request).1)
        (appendP maxRequests s c request).2
  | post {s c} : s.callers c = .posting →
      Step s (.post c) { s with queuestat := s.queuestat + 1, callers := Function.update s.callers c .outside }
  | wait {s w} : s.workers w = .waiting → 0 < s.queuestat →
      Step s (.wait w) { s.goTo w .woken with queuestat := s.queuestat - 1 }
  | pop {s w job queue} : s.workers w = .woken → s.workqueue = job :: queue →
      Step s (.pop w job) { s.goTo w (afterPop job) with workqueue := queue }
  | empty {s w} : s.workers w = .woken → s.workqueue = [] → Step s (.empty w) (s.goTo w .waiting)
  | finish {s w job} : s.workers w = .running job → Step s (.finish w) (s.goTo w .waiting)

variable {maxRequests : ℕ} {s t : ThreadPool C W α} {c : C} {job : Job α} {ok : Bool}

lemma call_cases (hs : Step maxRequests s (.append c job ok) t) :
    s.callers c = .outside ∧ job.call = s.calls ∧ t.calls = s.calls + 1 ∧ t.queuestat = s.queuestat ∧
      t.workers = s.workers ∧
      ((ok = false ∧ t.workqueue = s.workqueue ∧ t.callers = s.callers) ∨
        (ok = true ∧ s.workqueue.length < maxRequests ∧ t.workqueue = s.workqueue ++ [job] ∧
          t.callers = Function.update s.callers c .posting)) := by
  generalize ha : Label.append c job ok = a at hs
  cases hs with
  | append request state hc =>
    cases ha
    unfold append
    split
    · exact ⟨hc, rfl, rfl, rfl, rfl, .inl ⟨rfl, rfl, rfl⟩⟩
    · rename_i hlt
      exact ⟨hc, rfl, rfl, rfl, rfl, .inr ⟨rfl, Nat.lt_of_not_le hlt, rfl, rfl⟩⟩
  | appendP request hc =>
    cases ha
    unfold appendP
    split
    · exact ⟨hc, rfl, rfl, rfl, rfl, .inl ⟨rfl, rfl, rfl⟩⟩
    · rename_i hlt
      exact ⟨hc, rfl, rfl, rfl, rfl, .inr ⟨rfl, Nat.lt_of_not_le hlt, rfl, rfl⟩⟩
  | post | wait | pop | empty | finish => cases ha

end Model

lemma afterPop_isWoken {α : Type*} (job : Job α) : (afterPop job).isWoken = false := by
  unfold afterPop
  split <;> rfl

section Histories

variable {C W α : Type*} {as bs : List (Label C W α)}

def accepted (as : List (Label C W α)) : List (Job α) :=
  as.filterMap fun
    | .append _ job true => some job
    | _ => none

def refused (as : List (Label C W α)) : List (Job α) :=
  as.filterMap fun
    | .append _ job false => some job
    | _ => none

def handed (as : List (Label C W α)) : List (W × Job α) :=
  as.filterMap fun
    | .pop w job => some (w, job)
    | _ => none

lemma accepted_append : accepted (as ++ bs) = accepted as ++ accepted bs := List.filterMap_append

lemma refused_append : refused (as ++ bs) = refused as ++ refused bs := List.filterMap_append

lemma handed_append : handed (as ++ bs) = handed as ++ handed bs := List.filterMap_append

lemma handed_call (c : C) (job : Job α) (ok : Bool) : handed (as ++ [.append c job ok]) = handed as := by
  rw [handed_append]
  exact List.append_nil _

lemma countP_call (c : C) (job : Job α) (ok : Bool) :
    (as ++ [Label.append c job ok]).countP Label.isPool = as.countP Label.isPool := by
  rw [List.countP_append]
  rfl

lemma pool_step [DecidableEq C] [DecidableEq W] [DecidableEq α] {maxRequests : ℕ} {s t : ThreadPool C W α}
    {a : Label C W α} (hs : Step maxRequests s a t) (ha : a.isPool = true) :
    accepted [a] = [] ∧ refused [a] = [] ∧ t.calls = s.calls ∧
      (handed [a]).map Prod.snd ++ t.workqueue = s.workqueue := by
  cases hs with
  | append | appendP => cases ha
  | pop hw hq => exact ⟨rfl, rfl, rfl, hq.symm⟩
  | post | wait | empty | finish => exact ⟨rfl, rfl, rfl, rfl⟩

end Histories

section Delivery

variable {C W α : Type*} [Fintype C] [Fintype W] {maxRequests : ℕ}

def ThreadPool.buffer (s : ThreadPool C W α) : Buffer (Job α) where
  items := s.workqueue
  permits := s.queuestat
  woken := count Worker.isWoken s.workers
  posting := count Caller.isPosting s.callers

def ThreadPool.work (s : ThreadPool C W α) : ℕ :=
  4 * count Caller.isPosting s.callers + 3 * s.queuestat + 2 * count Worker.isWoken s.workers +
    count Worker.isRunning s.workers

structure Delivered (maxRequests : ℕ) (as : List (Label C W α)) (s : ThreadPool C W α) : Prop where
  balanced : s.buffer.Balanced
  fifo : (handed as).map Prod.snd ++ s.workqueue = accepted as
  bounded : s.workqueue.length ≤ maxRequests
  numbered : ∀ job, job ∈ accepted as ∨ job ∈ refused as → job.call < s.calls
  distinct : ((accepted as).map Job.call).Nodup
  apart : ∀ job ∈ refused as, ∀ k ∈ accepted as, k.call ≠ job.call
  worked : as.countP Label.isPool + s.work ≤ 4 * (accepted as).length

lemma delivered_start (state : α → ℤ) : Delivered maxRequests [] (ThreadPool.start state : ThreadPool C W α) where
  balanced := by
    simp only [Buffer.Balanced, ThreadPool.buffer, ThreadPool.start, List.length_nil]
    rw [count_eq_zero fun _ => rfl, count_eq_zero fun _ => rfl]
  fifo := rfl
  bounded := Nat.zero_le _
  numbered := by rintro _ (h | h) <;> cases h
  distinct := List.nodup_nil
  apart := fun _ h => by cases h
  worked := by
    simp only [ThreadPool.work, ThreadPool.start]
    rw [count_eq_zero fun _ => rfl, count_eq_zero fun _ => rfl, count_eq_zero fun _ => rfl]
    rfl

variable {s t : ThreadPool C W α} {as bs : List (Label C W α)}

lemma Delivered.older {job k : Job α} (h : Delivered maxRequests as s) (hcall : job.call = s.calls)
    (hk : k ∈ accepted as ∨ k ∈ refused as) : k.call < job.call := by
  rw [hcall]
  exact h.numbered k hk

lemma refuse_delivered {c : C} {job : Job α} (h : Delivered maxRequests as s) (hcall : job.call = s.calls)
    (hcalls : t.calls = s.calls + 1) (hq : t.workqueue = s.workqueue) (hwork : t.work = s.work)
    (hb : t.buffer.Balanced) : Delivered maxRequests (as ++ [.append c job false]) t := by
  have hacc : accepted (as ++ [.append c job false]) = accepted as := by
    rw [accepted_append]
    exact List.append_nil _
  have href : refused (as ++ [.append c job false]) = refused as ++ [job] := refused_append
  refine ⟨hb, ?_, ?_, fun k hk => ?_, ?_, fun k hk l hl => ?_, ?_⟩
  · rw [hacc, handed_call, hq]
    exact h.fifo
  · rw [hq]
    exact h.bounded
  · rw [hacc, href, List.mem_append, List.mem_singleton, ← or_assoc] at hk
    rw [hcalls, Nat.lt_succ_iff, ← hcall]
    obtain hk | rfl := hk
    · exact (h.older hcall hk).le
    · exact le_rfl
  · rw [hacc]
    exact h.distinct
  · rw [href, List.mem_append, List.mem_singleton] at hk
    rw [hacc] at hl
    obtain hk | rfl := hk
    · exact h.apart k hk l hl
    · exact (h.older hcall (.inl hl)).ne
  · rw [hacc, countP_call, hwork]
    exact h.worked

lemma accept_delivered {c : C} {job : Job α} (h : Delivered maxRequests as s) (hcall : job.call = s.calls)
    (hcalls : t.calls = s.calls + 1) (hroom : s.workqueue.length < maxRequests)
    (hq : t.workqueue = s.workqueue ++ [job]) (hwork : t.work = s.work + 4) (hb : t.buffer.Balanced) :
    Delivered maxRequests (as ++ [.append c job true]) t := by
  have hacc : accepted (as ++ [.append c job true]) = accepted as ++ [job] := accepted_append
  have href : refused (as ++ [.append c job true]) = refused as := by
    rw [refused_append]
    exact List.append_nil _
  refine ⟨hb, ?_, ?_, fun k hk => ?_, ?_, fun k hk l hl => ?_, ?_⟩
  · rw [hacc, handed_call, hq, ← List.append_assoc, h.fifo]
  · rw [hq, List.length_append, List.length_singleton]
    exact hroom
  · rw [hacc, href, List.mem_append, List.mem_singleton, or_right_comm] at hk
    rw [hcalls, Nat.lt_succ_iff, ← hcall]
    obtain hk | rfl := hk
    · exact (h.older hcall hk).le
    · exact le_rfl
  · rw [hacc, List.map_append, List.nodup_append]
    refine ⟨h.distinct, List.nodup_singleton _, ?_⟩
    rintro n hn m hm rfl
    obtain ⟨k, hk, rfl⟩ := List.mem_map.mp hn
    exact (h.older hcall (.inl hk)).ne (List.mem_singleton.mp hm)
  · rw [href] at hk
    rw [hacc, List.mem_append, List.mem_singleton] at hl
    obtain hl | rfl := hl
    · exact h.apart k hk l hl
    · exact (h.older hcall (.inr hk)).ne'
  · have hworked := h.worked
    rw [hacc, countP_call, hwork, List.length_append, List.length_singleton]
    omega

lemma Delivered.handed_all (h : Delivered maxRequests (as ++ bs) t)
    (hlong : 4 * (maxRequests + (accepted as).length) < bs.countP Label.isPool) {job : Job α}
    (hjob : job ∈ accepted as) : ∃ w, (w, job) ∈ handed (as ++ bs) := by
  have hlen : (handed (as ++ bs)).length + t.workqueue.length = (accepted (as ++ bs)).length := by
    rw [← h.fifo, List.length_append, List.length_map]
  have hworked := h.worked
  have hbounded := h.bounded
  rw [List.countP_append] at hworked
  have hpre : accepted as <+: (handed (as ++ bs)).map Prod.snd := by
    have hall : accepted as <+: accepted (as ++ bs) := by
      rw [accepted_append]
      exact List.prefix_append _ _
    apply List.prefix_of_prefix_length_le hall
    · rw [← h.fifo]
      exact List.prefix_append _ _
    · rw [List.length_map]
      omega
  obtain ⟨⟨w, k⟩, hk, rfl⟩ := List.mem_map.mp (hpre.subset hjob)
  exact ⟨w, hk⟩

variable [DecidableEq C] [DecidableEq W] [DecidableEq α] {a : Label C W α}

lemma step_buffer (hs : Step maxRequests s a t) (hb : s.buffer.Balanced) :
    s.buffer.Step t.buffer ∨ t.buffer = s.buffer := by
  cases a with
  | append c job ok =>
    obtain ⟨hc, -, -, hst, hw, ⟨-, hq, hcs⟩ | ⟨-, -, hq, hcs⟩⟩ := call_cases hs
    · right
      simp only [ThreadPool.buffer, hst, hw, hq, hcs]
    · left
      refine .push job hq hst ?_ ?_
      · simp only [ThreadPool.buffer, hw]
      · simp only [ThreadPool.buffer, hcs]
        exact count_move Caller.isPosting hc .posting
  | post c =>
    cases hs with
    | post hc => exact .inl (.post rfl rfl rfl (count_move Caller.isPosting hc .outside))
  | wait w =>
    cases hs with
    | wait hw hpos =>
      exact .inl (.wait rfl (Nat.sub_add_cancel hpos) (count_move Worker.isWoken hw .woken) rfl)
  | pop w job =>
    cases hs with
    | pop hw hq =>
      have hcount := count_move Worker.isWoken hw (afterPop job)
      rw [afterPop_isWoken] at hcount
      exact .inl (.pop job hq rfl hcount rfl)
  | empty w =>
    cases hs with
    | empty hw hq => exact absurd hq (hb.ne_nil (count_pos (i := w) (by rw [hw]; rfl)))
  | finish w =>
    cases hs with
    | finish hw =>
      have hcount : count Worker.isWoken (Function.update s.workers w .waiting) = count Worker.isWoken s.workers :=
        count_move Worker.isWoken hw .waiting
      right
      simp only [ThreadPool.buffer, ThreadPool.goTo, hcount]

lemma step_work (hs : Step maxRequests s a t) (ha : a.isPool = true) (hb : s.buffer.Balanced) :
    t.work + 1 ≤ s.work := by
  unfold ThreadPool.work
  cases hs with
  | append | appendP => cases ha
  | post hc =>
    have hp := count_move Caller.isPosting hc .outside
    simp only [Caller.isPosting, Bool.toNat_true, Bool.toNat_false] at hp
    change 4 * count Caller.isPosting (Function.update s.callers _ _) + 3 * (s.queuestat + 1) +
      2 * count Worker.isWoken s.workers + count Worker.isRunning s.workers + 1 ≤ _
    omega
  | wait hw hpos =>
    have hk := count_move Worker.isWoken hw .woken
    have hr := count_move Worker.isRunning hw .woken
    simp only [Worker.isWoken, Worker.isRunning, Bool.toNat_true, Bool.toNat_false] at hk hr
    simp only [ThreadPool.goTo]
    omega
  | @pop w job _ hw hq =>
    have hk := count_move Worker.isWoken hw (afterPop job)
    have hr := count_move Worker.isRunning hw (afterPop job)
    have hle := Bool.toNat_le (afterPop job).isRunning
    rw [afterPop_isWoken] at hk
    rw [show Worker.isWoken (.woken : Worker α) = true from rfl, Bool.toNat_true, Bool.toNat_false] at hk
    rw [show Worker.isRunning (.woken : Worker α) = false from rfl, Bool.toNat_false] at hr
    simp only [ThreadPool.goTo]
    omega
  | @empty w hw hq => exact absurd hq (hb.ne_nil (count_pos (i := w) (by rw [hw]; rfl)))
  | finish hw =>
    have hk := count_move Worker.isWoken hw .waiting
    have hr := count_move Worker.isRunning hw .waiting
    simp only [Worker.isWoken, Worker.isRunning, Bool.toNat_true, Bool.toNat_false] at hk hr
    simp only [ThreadPool.goTo]
    omega

lemma pool_delivered (h : Delivered maxRequests as s) (hs : Step maxRequests s a t) (ha : a.isPool = true)
    (hb : t.buffer.Balanced) : Delivered maxRequests (as ++ [a]) t := by
  obtain ⟨hacc, href, hcalls, hqueue⟩ := pool_step hs ha
  have hacc' : accepted (as ++ [a]) = accepted as := by rw [accepted_append, hacc, List.append_nil]
  have href' : refused (as ++ [a]) = refused as := by rw [refused_append, href, List.append_nil]
  refine ⟨hb, ?_, ?_, ?_, ?_, ?_, ?_⟩
  · rw [hacc', handed_append, List.map_append, List.append_assoc, hqueue]
    exact h.fifo
  · have hlen := congrArg List.length hqueue
    rw [List.length_append] at hlen
    exact (by omega : t.workqueue.length ≤ s.workqueue.length).trans h.bounded
  · rw [hacc', href', hcalls]
    exact h.numbered
  · rw [hacc']
    exact h.distinct
  · rw [hacc', href']
    exact h.apart
  · have hwork := step_work hs ha h.balanced
    have hall := h.worked
    rw [hacc', List.countP_append, List.countP_singleton, if_pos ha]
    omega

lemma call_delivered {c : C} {job : Job α} {ok : Bool} (h : Delivered maxRequests as s)
    (hs : Step maxRequests s (.append c job ok) t) (hb : t.buffer.Balanced) :
    Delivered maxRequests (as ++ [.append c job ok]) t := by
  obtain ⟨hc, hcall, hcalls, hst, hw, ⟨rfl, hq, hcs⟩ | ⟨rfl, hroom, hq, hcs⟩⟩ := call_cases hs
  · apply refuse_delivered h hcall hcalls hq _ hb
    simp only [ThreadPool.work, hst, hw, hcs]
  · apply accept_delivered h hcall hcalls hroom hq _ hb
    have hpost := count_move Caller.isPosting hc .posting
    simp only [Caller.isPosting, Bool.toNat_true, Bool.toNat_false] at hpost
    simp only [ThreadPool.work, hst, hw, hcs]
    omega

lemma step_delivered (as : List (Label C W α)) (s : ThreadPool C W α) (a : Label C W α) (t : ThreadPool C W α)
    (h : Delivered maxRequests as s) (hs : Step maxRequests s a t) : Delivered maxRequests (as ++ [a]) t := by
  have hb := h.balanced.next (step_buffer hs h.balanced)
  cases a with
  | append c job ok => exact call_delivered h hs hb
  | post | wait | pop | empty | finish => exact pool_delivered h hs rfl hb

lemma exists_pool_step [Nonempty W] (hb : s.buffer.Balanced) (hq : s.workqueue ≠ []) :
    ∃ a t, a.isPool = true ∧ Step maxRequests s a t := by
  obtain ⟨job, queue, hjob⟩ := List.exists_cons_of_ne_nil hq
  obtain hpermits | hwoken | hposting := hb.under_way hq
  · obtain ⟨w⟩ := ‹Nonempty W›
    cases hw : s.workers w with
    | waiting => exact ⟨_, _, rfl, .wait hw hpermits⟩
    | woken => exact ⟨_, _, rfl, .pop hw hjob⟩
    | running job => exact ⟨_, _, rfl, .finish hw⟩
  · obtain ⟨w, hw⟩ := exists_of_count_pos hwoken
    exact ⟨_, _, rfl, .pop (Worker.eq_woken hw) hjob⟩
  · obtain ⟨c, hc⟩ := exists_of_count_pos hposting
    exact ⟨_, _, rfl, .post (Caller.eq_posting hc)⟩

omit [Fintype C] [Fintype W] [DecidableEq C] [DecidableEq α] in
lemma goTo_running {w v : W} {p : Worker α} {job : Job α} (h : (s.goTo w p).workers v = .running job) :
    v = w ∧ p = .running job ∨ s.workers v = .running job := by
  change Function.update s.workers w p v = _ at h
  by_cases hv : v = w
  · subst hv
    rw [Function.update_self] at h
    exact .inl ⟨rfl, h⟩
  · rw [Function.update_of_ne hv] at h
    exact .inr h

omit [Fintype C] [Fintype W] in
lemma running_step (as : List (Label C W α)) (s : ThreadPool C W α) (a : Label C W α) (t : ThreadPool C W α)
    (h : ∀ w job, s.workers w = .running job → (w, job) ∈ handed as) (hs : Step maxRequests s a t) :
    ∀ w job, t.workers w = .running job → (w, job) ∈ handed (as ++ [a]) := by
  intro v job hv
  rw [handed_append, List.mem_append]
  cases a with
  | append c k ok =>
    obtain ⟨-, -, -, -, hworkers, -⟩ := call_cases hs
    rw [hworkers] at hv
    exact .inl (h v job hv)
  | post c =>
    cases hs with
    | post hc => exact .inl (h v job hv)
  | pop w k =>
    cases hs with
    | pop hw hq =>
      obtain ⟨rfl, hp⟩ | hv := goTo_running hv
      · rw [afterPop] at hp
        split_ifs at hp
        cases hp
        exact .inr (List.mem_singleton_self _)
      · exact .inl (h v job hv)
  | wait w | empty w | finish w =>
    cases hs
    obtain ⟨-, hp⟩ | hv := goTo_running hv
    · cases hp
    · exact .inl (h v job hv)

/-- In every run of callers and workers: the jobs handed out and the queue are the accepted jobs in the
order of the pushes, each once; a worker that is handed a job with a request runs it, and one that runs a job
was handed it; a refused job is never handed out; the queue is bounded and balanced with the semaphore, so
that no worker finds it empty; and while a job is queued the pool can go on, until after a bounded number of
its steps the job has been handed out. -/
theorem thread_pool_delivery [Nonempty W] {state : α → ℤ} (h : Trace (Step maxRequests) (.start state) as s) :
    ((handed as).map Prod.snd ++ s.workqueue = accepted as ∧ ((accepted as).map Job.call).Nodup) ∧
    (∀ w job t, Step maxRequests s (.pop w job) t → job.request ≠ none → t.workers w = .running job) ∧
    (∀ w job, s.workers w = .running job → (w, job) ∈ handed as) ∧
    (∀ job ∈ refused as, ∀ e ∈ handed as, e.2.call ≠ job.call) ∧
    s.workqueue.length ≤ maxRequests ∧
    s.workqueue.length =
      s.queuestat + count Worker.isWoken s.workers + count Caller.isPosting s.callers ∧
    (∀ w t, ¬ Step maxRequests s (.empty w) t) ∧
    (s.workqueue ≠ [] → ∃ a t, a.isPool = true ∧ Step maxRequests s a t) ∧
    ∀ bs t, Trace (Step maxRequests) s bs t →
      4 * (maxRequests + (accepted as).length) < bs.countP Label.isPool →
      ∀ job ∈ accepted as, ∃ w, (w, job) ∈ handed (as ++ bs) := by
  have hd := h.invariant (delivered_start state) step_delivered
  refine ⟨⟨hd.fifo, hd.distinct⟩, fun w job t hs hjob => ?_, h.invariant (I := fun as s =>
    ∀ w job, s.workers w = .running job → (w, job) ∈ handed as) nofun running_step,
    fun job hjob e he => ?_, hd.bounded, hd.balanced, fun w t hs => ?_,
    exists_pool_step hd.balanced, fun bs t hbs hlong job hjob => ?_⟩
  · cases hs with
    | pop hw hq => exact (Function.update_self _ _ _).trans (if_neg hjob)
  · apply hd.apart job hjob
    rw [← hd.fifo]
    exact List.mem_append_left _ (List.mem_map_of_mem he)
  · cases hs with
    | empty hw hq => exact hd.balanced.ne_nil (count_pos (i := w) (by rw [hw]; rfl)) hq
  · exact ((h.append hbs).invariant (delivered_start state) step_delivered).handed_all hlong hjob

theorem thread_pool_delivery_two_calls :
    ∃ (as : List (Label Bool Unit ℕ)) (s : ThreadPool Bool Unit ℕ), Trace (Step 1) (.start fun _ => 0) as s ∧
      handed as = [((), ⟨0, some 5⟩)] ∧ s.workers () = .running ⟨0, some 5⟩ ∧ refused as = [⟨1, some 6⟩] ∧
      (handed as).map Prod.snd ++ s.workqueue = accepted as ∧ s.workqueue.length ≤ 1 ∧
      ∀ job ∈ refused as, ∀ e ∈ handed as, e.2.call ≠ job.call := by
  have h₁ : Trace (Step 1) (.start fun _ => 0 : ThreadPool Bool Unit ℕ) _ _ :=
    .snoc .nil (.append (c := true) 5 0 rfl)
  have h₂ := h₁.snoc (.appendP (c := false) (some 6) rfl)
  have h₃ := h₂.snoc (.post (c := true) rfl)
  have h₄ := h₃.snoc (.wait (w := ()) rfl (by decide))
  have h₅ := h₄.snoc (.pop (w := ()) rfl rfl)
  obtain ⟨-, hrun, -⟩ := thread_pool_delivery h₄
  obtain ⟨hfifo, -, -, hrefused, hbound, -⟩ := thread_pool_delivery h₅
  exact ⟨_, _, h₅, rfl, hrun () ⟨0, some 5⟩ _ (.pop rfl rfl) (Option.some_ne_none 5), rfl, hfifo.1, hbound,
    hrefused⟩

end Delivery

end OceanServer.Pool
