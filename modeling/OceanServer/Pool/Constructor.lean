import OceanServer.Pool.ThreadPool

/-! The constructor of `threadpool`, which leaves its fields as the memory of the object held them, and what
`append`, `append_p` and `run` then do with them. -/

namespace OceanServer.Pool

open Library

section Model

/-- The fields that the constructor does not assign. -/
structure Fields (P : Type*) where
  threadNumber : Int32
  maxRequests : Int32
  connPool : P
  actorModel : Int32

structure Outcomes where
  allocated : Bool
  created : ℕ → Bool
  detached : ℕ → Bool

structure Construction where
  length : ℕ
  written : List ℕ
  ready : Bool
  deriving DecidableEq, Repr

def createThreads (env : Outcomes) : ℕ → ℕ → List ℕ × Bool
  | 0, _ => ([], true)
  | n + 1, i =>
    if env.created i = false then ([], false)
    else if env.detached i = false then ([i], false)
    else (i :: (createThreads env n (i + 1)).1, (createThreads env n (i + 1)).2)

variable {P : Type*}

def construct (memory : Fields P) (threadNumber maxRequests : Int32) (env : Outcomes) : Construction :=
  -- A negative length makes `new` throw, as does a lack of memory.
  if threadNumber.toInt ≤ 0 ∨ maxRequests.toInt ≤ 0 then ⟨0, [], false⟩
  else if memory.threadNumber.toInt < 0 ∨ env.allocated = false then ⟨0, [], false⟩
  else
    let loop := createThreads env threadNumber.toInt.toNat 0
    ⟨memory.threadNumber.toInt.toNat, loop.1, loop.2⟩

def capacity (memory : Fields P) : ℕ := (memory.maxRequests.toInt % 2 ^ 64).toNat

/-- Whether `run` takes the reactor branch for a request, and the pool of which it takes a connection;
`readOk` is what `read_once` returns. -/
def dispatch (memory : Fields P) (state : ℤ) (readOk : Bool) : Bool × Option P :=
  if 1 = memory.actorModel then
    (true, if 0 = state then if readOk then some memory.connPool else none else none)
  else (false, some memory.connPool)

/-- The pool does what the arguments of the constructor say, in all runs of callers `C` and workers `W`. -/
structure AsConfigured (C W α : Type*) [DecidableEq C] [DecidableEq W] [DecidableEq α] (memory : Fields P)
    (actorModel : Int32) (connPool : P) (threadNumber maxRequests : Int32) : Prop where
  inside : ∀ env, ∀ i ∈ (construct memory threadNumber maxRequests env).written,
    i < (construct memory threadNumber maxRequests env).length
  refuses : ∀ env, (construct memory threadNumber maxRequests env).ready = true →
    ∀ (state : α → ℤ) as (s t : ThreadPool C W α) c job ok, Trace (Step (capacity memory)) (.start state) as s →
      Step (capacity memory) s (.append c job ok) t → (ok = false ↔ maxRequests.toInt ≤ s.workqueue.length)
  dispatches : ∀ env, (construct memory threadNumber maxRequests env).ready = true →
    ∀ (state : α → ℤ) as (s : ThreadPool C W α) w job request readOk,
      Trace (Step (capacity memory)) (.start state) as s → s.workers w = .running job →
      job.request = some request →
      ((dispatch memory (s.state request) readOk).1 = true ↔ actorModel = 1) ∧
        ∀ p, (dispatch memory (s.state request) readOk).2 = some p → p = connPool

end Model

section Constructed

variable {P : Type*} {memory : Fields P} {threadNumber maxRequests : Int32} {env : Outcomes}

def allSucceed : Outcomes := ⟨true, fun _ => true, fun _ => true⟩

lemma createThreads_written {n i j : ℕ} (h : j ∈ (createThreads env n i).1) : j < i + n := by
  induction n generalizing i with
  | zero => cases h
  | succ n ih =>
    rw [createThreads] at h
    split_ifs at h
    · cases h
    · rw [List.mem_singleton.mp h]
      omega
    · obtain rfl | h := List.mem_cons.mp h
      · omega
      · have hj := ih h
        omega

lemma createThreads_allSucceed (n i : ℕ) : createThreads allSucceed n i = (List.range' i n, true) := by
  induction n generalizing i with
  | zero => rfl
  | succ n ih =>
    have hcreated : allSucceed.created i = true := rfl
    have hdetached : allSucceed.detached i = true := rfl
    simp only [createThreads, hcreated, hdetached, ih, List.range'_succ]
    rfl

lemma construct_threw (h : memory.threadNumber.toInt < 0) :
    construct memory threadNumber maxRequests env = ⟨0, [], false⟩ := by
  rw [construct, if_pos (.inl h : memory.threadNumber.toInt < 0 ∨ env.allocated = false), ite_self]

lemma construct_inside (h : threadNumber.toInt ≤ memory.threadNumber.toInt) :
    ∀ i ∈ (construct memory threadNumber maxRequests env).written,
      i < (construct memory threadNumber maxRequests env).length := by
  rw [construct]
  split_ifs
  · exact nofun
  · exact nofun
  · intro i hi
    have hlt : i < 0 + threadNumber.toInt.toNat := createThreads_written hi
    change i < memory.threadNumber.toInt.toNat
    omega

lemma construct_allSucceed (ht : 0 < threadNumber.toInt) (hm : 0 < maxRequests.toInt)
    (h : 0 ≤ memory.threadNumber.toInt) :
    construct memory threadNumber maxRequests allSucceed =
      ⟨memory.threadNumber.toInt.toNat, List.range' 0 threadNumber.toInt.toNat, true⟩ := by
  have hargs : ¬ (threadNumber.toInt ≤ 0 ∨ maxRequests.toInt ≤ 0) := by omega
  have hnew : ¬ (memory.threadNumber.toInt < 0 ∨ allSucceed.allocated = false) := by
    rw [not_or]
    exact ⟨not_lt.mpr h, nofun⟩
  rw [construct, if_neg hargs, if_neg hnew, createThreads_allSucceed]

end Constructed

section Runs

variable {C W α : Type*} [DecidableEq C] [DecidableEq W] [DecidableEq α] {m : ℕ} {s t : ThreadPool C W α} {c : C}
  {job : Job α} {ok : Bool}

lemma refused_iff (h : Step m s (.append c job ok) t) : ok = false ↔ m ≤ s.workqueue.length := by
  generalize ha : Label.append c job ok = a at h
  cases h with
  | append request state =>
    cases ha
    rw [append]
    split <;> simp_all
  | appendP request =>
    cases ha
    rw [appendP]
    split <;> simp_all
  | post | wait | pop | empty | finish => cases ha

lemma queue_one {state : α → ℤ} {as : List (Label C W α)} (hs : Trace (Step m) (.start state) as s)
    (hroom : s.workqueue.length < m) (hout : s.callers c = .outside) (request : α) (value : ℤ) :
    ∃ bs, ∃ t : ThreadPool C W α, Trace (Step m) (.start state) bs t ∧
      t.workqueue = s.workqueue ++ [⟨s.calls, some request⟩] ∧ t.callers c = .outside ∧
      t.queuestat = s.queuestat + 1 ∧ t.workers = s.workers ∧ t.state request = value := by
  have hstep : Step m s (.append c ⟨s.calls, some request⟩ (append m s c request value).1)
      (append m s c request value).2 := .append request value hout
  have happend : append m s c request value =
      (true, { s with state := Function.update s.state request value }.push c (some request)) :=
    if_neg (not_le.mpr hroom)
  rw [happend] at hstep
  have hposting : (ThreadPool.push { s with state := Function.update s.state request value } c
      (some request)).callers c = .posting := Function.update_self _ _ _
  refine ⟨_, _, (hs.snoc hstep).snoc (.post hposting), rfl, ?_, rfl, rfl, ?_⟩
  · exact Function.update_self _ _ _
  · exact Function.update_self _ _ _

lemma exists_queued [Inhabited C] [Inhabited α] (state : α → ℤ) {k : ℕ} (hk : k ≤ m) :
    ∃ as, ∃ s : ThreadPool C W α, Trace (Step m) (.start state) as s ∧ s.workqueue.length = k ∧
      s.callers default = .outside := by
  induction k with
  | zero => exact ⟨[], _, .nil, rfl, rfl⟩
  | succ k ih =>
    obtain ⟨as, s, hs, hlen, hout⟩ := ih (Nat.le_of_succ_le hk)
    obtain ⟨bs, t, ht, hqueue, hout', -⟩ := queue_one hs (by omega) hout (default : α) 0
    refine ⟨bs, t, ht, ?_, hout'⟩
    rw [hqueue, List.length_append, hlen]
    rfl

lemma exists_running [Inhabited C] [Inhabited W] [Inhabited α] (state : α → ℤ) (hm : 0 < m) :
    ∃ as job, ∃ s : ThreadPool C W α, Trace (Step m) (.start state) as s ∧
      s.workers default = .running job ∧ job.request = some default ∧ s.state default = 0 := by
  have hstart : Trace (Step m) (.start state) [] (.start state : ThreadPool C W α) := .nil
  have hout : (ThreadPool.start state : ThreadPool C W α).callers default = .outside := rfl
  obtain ⟨as, s, hs, hqueue, -, hstat, hworkers, hstate⟩ := queue_one hstart hm hout default 0
  have hwaiting : s.workers default = .waiting := by
    rw [hworkers]
    rfl
  have hwoken := hs.snoc (.wait hwaiting (by omega))
  have hpop := hwoken.snoc (.pop (Function.update_self _ _ _) hqueue)
  exact ⟨_, _, _, hpop, Function.update_self _ _ _, rfl, hstate⟩

lemma refuses_iff [Inhabited C] [Inhabited α] {k : ℕ} :
    (∀ (state : α → ℤ) as (s t : ThreadPool C W α) c job ok, Trace (Step m) (.start state) as s →
      Step m s (.append c job ok) t → (ok = false ↔ k ≤ s.workqueue.length)) ↔ m = k := by
  constructor
  · intro h
    obtain ⟨as, s, hs, hlen, hout⟩ := exists_queued (C := C) (W := W) (fun _ : α => 0) (min_le_left m k)
    have hstep : Step m s (.append default ⟨s.calls, some default⟩ (append m s default default 0).1)
      (append m s default default 0).2 := .append default 0 hout
    have hcode := refused_iff hstep
    have hspec := h _ as s _ _ _ _ hs hstep
    rw [hcode, hlen] at hspec
    omega
  · rintro rfl state as s t c job ok - hstep
    exact refused_iff hstep

end Runs

section Configured

variable {P : Type*} {memory : Fields P} {actorModel threadNumber maxRequests : Int32} {connPool : P}

lemma capacity_eq_iff (hm : 0 < maxRequests.toInt) :
    capacity memory = maxRequests.toInt.toNat ↔ memory.maxRequests = maxRequests := by
  have hlt : maxRequests.toInt < 2 ^ 31 := maxRequests.toInt_lt
  have hle : -2 ^ 31 ≤ memory.maxRequests.toInt := memory.maxRequests.le_toInt
  have hlt' : memory.maxRequests.toInt < 2 ^ 31 := memory.maxRequests.toInt_lt
  rw [← Int32.toInt_inj, capacity]
  omega

lemma dispatch_fst (memory : Fields P) (state : ℤ) (readOk : Bool) :
    (dispatch memory state readOk).1 = true ↔ memory.actorModel = 1 := by
  rw [dispatch]
  split
  · rename_i h
    exact iff_of_true rfl h.symm
  · rename_i h
    exact iff_of_false nofun fun heq => h heq.symm

lemma dispatch_snd {state : ℤ} {readOk : Bool} {p : P} (h : (dispatch memory state readOk).2 = some p) :
    memory.connPool = p := by
  rw [dispatch] at h
  split_ifs at h
  · exact Option.some.inj h
  · exact Option.some.inj h

lemma dispatch_zero (memory : Fields P) : (dispatch memory 0 true).2 = some memory.connPool := by
  rw [dispatch]
  split
  · rfl
  · rfl

variable {C W α : Type*} [DecidableEq C] [DecidableEq W] [DecidableEq α]

lemma AsConfigured.of_threw (h : memory.threadNumber.toInt < 0) :
    AsConfigured C W α memory actorModel connPool threadNumber maxRequests := by
  refine ⟨fun env => ?_, fun env hready => ?_, fun env hready => ?_⟩
  · rw [construct_threw h]
    exact nofun
  · rw [construct_threw h] at hready
    cases hready
  · rw [construct_threw h] at hready
    cases hready

lemma AsConfigured.of_fields (hm : 0 < maxRequests.toInt) (hlen : threadNumber.toInt ≤ memory.threadNumber.toInt)
    (hmax : memory.maxRequests = maxRequests) (hactor : memory.actorModel = 1 ↔ actorModel = 1)
    (hpool : memory.connPool = connPool) :
    AsConfigured C W α memory actorModel connPool threadNumber maxRequests := by
  refine ⟨fun env => construct_inside hlen, fun env _ state as s t c job ok _ hstep => ?_,
    fun env _ state as s w job request readOk _ _ _ => ⟨?_, fun p hp => ?_⟩⟩
  · rw [refused_iff hstep, (capacity_eq_iff hm).mpr hmax]
    omega
  · rw [dispatch_fst]
    exact hactor
  · rw [← hpool]
    exact (dispatch_snd hp).symm

lemma AsConfigured.fields [Inhabited C] [Inhabited W] [Inhabited α] (ht : 0 < threadNumber.toInt)
    (hm : 0 < maxRequests.toInt) (h0 : 0 ≤ memory.threadNumber.toInt)
    (h : AsConfigured C W α memory actorModel connPool threadNumber maxRequests) :
    threadNumber.toInt ≤ memory.threadNumber.toInt ∧ memory.maxRequests = maxRequests ∧
      (memory.actorModel = 1 ↔ actorModel = 1) ∧ memory.connPool = connPool := by
  have hbuilt : construct memory threadNumber maxRequests allSucceed = _ := construct_allSucceed ht hm h0
  have hready : (construct memory threadNumber maxRequests allSucceed).ready = true := by rw [hbuilt]
  have hlen : threadNumber.toInt ≤ memory.threadNumber.toInt := by
    have hlast := h.inside allSucceed (threadNumber.toInt.toNat - 1)
    rw [hbuilt] at hlast
    have hlt : threadNumber.toInt.toNat - 1 < memory.threadNumber.toInt.toNat :=
      hlast (List.mem_range'_1.mpr (by omega))
    omega
  have hmax : capacity memory = maxRequests.toInt.toNat := by
    apply (refuses_iff (C := C) (W := W) (α := α)).mp
    intro state as s t c job ok hs hstep
    rw [h.refuses allSucceed hready state as s t c job ok hs hstep]
    omega
  obtain ⟨as, job, s, hs, hrunning, hrequest, hstate⟩ :=
    exists_running (C := C) (W := W) (fun _ : α => 0) (show 0 < capacity memory by omega)
  obtain ⟨hactor, hpool⟩ := h.dispatches allSucceed hready _ as s default job default true hs hrunning hrequest
  rw [hstate] at hactor hpool
  rw [dispatch_fst] at hactor
  exact ⟨hlen, (capacity_eq_iff hm).mp hmax, hactor, hpool _ (dispatch_zero memory)⟩

/-- Whatever the memory of the object held, and for all arguments that the constructor accepts: the pool does what
they say just if `new` throws, or the memory held a length that suffices, the given capacity, an actor model that is
1 just if the given one is, and the given connection pool. -/
theorem pool_as_configured_iff [Inhabited C] [Inhabited W] [Inhabited α] (memory : Fields P) (actorModel : Int32)
    (connPool : P) (threadNumber maxRequests : Int32) (ht : 0 < threadNumber.toInt) (hm : 0 < maxRequests.toInt) :
    AsConfigured C W α memory actorModel connPool threadNumber maxRequests ↔
      memory.threadNumber.toInt < 0 ∨
        threadNumber.toInt ≤ memory.threadNumber.toInt ∧ memory.maxRequests = maxRequests ∧
          (memory.actorModel = 1 ↔ actorModel = 1) ∧ memory.connPool = connPool := by
  constructor
  · intro h
    obtain hneg | h0 := lt_or_ge memory.threadNumber.toInt 0
    · exact .inl hneg
    · exact .inr (h.fields ht hm h0)
  · rintro (hneg | ⟨hlen, hmax, hactor, hpool⟩)
    · exact .of_threw hneg
    · exact .of_fields hm hlen hmax hactor hpool

theorem pool_as_configured_by_memory : AsConfigured Unit Unit Unit (⟨8, 10000, 5, 1⟩ : Fields ℕ) 1 5 8 10000 :=
  (pool_as_configured_iff _ 1 5 8 10000 (by decide) (by decide)).mpr (.inr ⟨by decide, rfl, Iff.rfl, rfl⟩)

theorem pool_in_zero_memory :
    construct (⟨0, 0, 0, 0⟩ : Fields ℕ) 8 10000 allSucceed = ⟨0, [0, 1, 2, 3, 4, 5, 6, 7], true⟩ ∧
    capacity (⟨0, 0, 0, 0⟩ : Fields ℕ) = 0 ∧
    (append (capacity (⟨0, 0, 0, 0⟩ : Fields ℕ)) (.start fun _ => 0 : ThreadPool Unit Unit Unit) () () 0).1 = false ∧
    (dispatch (⟨0, 0, 0, 0⟩ : Fields ℕ) 0 true).1 = false ∧
    ¬ AsConfigured Unit Unit Unit (⟨0, 0, 0, 0⟩ : Fields ℕ) 1 5 8 10000 := by
  have hbuilt : construct (⟨0, 0, 0, 0⟩ : Fields ℕ) 8 10000 allSucceed = ⟨0, [0, 1, 2, 3, 4, 5, 6, 7], true⟩ := by
    decide +kernel
  refine ⟨hbuilt, by decide, by decide, by decide, fun h => ?_⟩
  have hinside := h.inside allSucceed 0
  rw [hbuilt] at hinside
  exact absurd (hinside List.mem_cons_self) (Nat.lt_irrefl 0)

end Configured

end OceanServer.Pool
