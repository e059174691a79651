import OceanServer.Library.Runs
import OceanServer.Library.Semaphore

/-! `sql_connection_pool`: any number of threads that get a connection and release it as `connectionRAII` does. -/

namespace OceanServer.Pool

open Library

structure SqlConnectionPool (α : Type*) where
  connList : List α
  reserve : ℕ
  maxConn : ℤ
  curConn : ℤ
  freeConn : ℤ
  deriving DecidableEq, Repr

section Pool

variable {α : Type*}

def SqlConnectionPool.new (maxConn : ℤ) : SqlConnectionPool α := ⟨[], 0, maxConn, 0, 0⟩

def connect : SqlConnectionPool α → List (Option α) → Option (SqlConnectionPool α)
  -- The loop of `init` over what `mysql_real_connect` returns; a null pointer ends the program.
  | p, [] => some p
  | _, none :: _ => none
  | p, some con :: made =>
    connect { p with connList := p.connList ++ [con], freeConn := p.freeConn + 1 } made

def init (p : SqlConnectionPool α) (made : List (Option α)) : Option (SqlConnectionPool α) :=
  (connect p made).map fun p => { p with reserve := p.freeConn.toNat, maxConn := p.freeConn }

def popFront (p : SqlConnectionPool α) : Option (α × SqlConnectionPool α) :=
  -- The locked part of `GetConnection`; `none` where it takes the front of an empty list.
  match p.connList with
  | [] => none
  | con :: rest =>
    some (con, { p with connList := rest, freeConn := p.freeConn - 1, curConn := p.curConn + 1 })

def pushBack (p : SqlConnectionPool α) (con : α) : SqlConnectionPool α :=
  { p with connList := p.connList ++ [con], freeConn := p.freeConn + 1, curConn := p.curConn - 1 }

inductive Place (α : Type*) where
  | outside
  -- between the size test and the wait
  | tested
  -- before the lock of `GetConnection`
  | woken
  | holding (con : Option α)
  -- before the post of `ReleaseConnection`
  | posting
  deriving DecidableEq, Repr

def Place.con : Place α → Option α
  | .holding con => con
  | _ => none

def Place.isWoken : Place α → Bool
  | .woken => true
  | _ => false

def Place.isPosting : Place α → Bool
  | .posting => true
  | _ => false

def Place.isHolding (p : Place α) : Bool := p.con.isSome

lemma Place.con_eq_some {p : Place α} {con : α} : p.con = some con ↔ p = .holding (some con) := by
  cases p with
  | holding c => simp [Place.con]
  | outside | tested | woken | posting => exact ⟨nofun, nofun⟩

end Pool

structure Threads (T α : Type*) where
  pool : SqlConnectionPool α
  place : T → Place α

section Steps

variable {T α : Type*} [DecidableEq T]

def Threads.start (p : SqlConnectionPool α) : Threads T α := ⟨p, fun _ => .outside⟩

def Threads.goTo (s : Threads T α) (i : T) (p : Place α) : Threads T α :=
  { s with place := Function.update s.place i p }

inductive Use : Threads T α → T → Threads T α → Prop
  | test {s i} : s.place i = .outside →
      Use s i (s.goTo i (if s.pool.connList.length = 0 then .holding none else .tested))
  | wait {s i} : s.place i = .tested → 0 < s.pool.reserve →
      Use s i { s.goTo i .woken with pool := { s.pool with reserve := s.pool.reserve - 1 } }
  | pop {s i con p} : s.place i = .woken → popFront s.pool = some (con, p) →
      Use s i { s.goTo i (.holding (some con)) with pool := p }
  | releaseNull {s i} : s.place i = .holding none → Use s i (s.goTo i .outside)
  | push {s i con} : s.place i = .holding (some con) →
      Use s i { s.goTo i .posting with pool := pushBack s.pool con }
  | post {s i} : s.place i = .posting →
      Use s i { s.goTo i .outside with pool := { s.pool with reserve := s.pool.reserve + 1 } }

end Steps

section Init

variable {α : Type*} {p q : SqlConnectionPool α} {made : List (Option α)}

lemma connect_spec (h : connect p made = some q) :
    q.connList.map some = p.connList.map some ++ made ∧ q.freeConn = p.freeConn + made.length ∧
      q.curConn = p.curConn := by
  induction made generalizing p with
  | nil =>
    cases h
    exact ⟨(List.append_nil _).symm, (add_zero _).symm, rfl⟩
  | cons r made ih =>
    cases r with
    | none => cases h
    | some con =>
      obtain ⟨hl, hf, hc⟩ := ih h
      rw [List.map_append, List.append_assoc] at hl
      refine ⟨hl, ?_, hc⟩
      rw [hf, List.length_cons]
      push_cast
      ring

lemma init_spec {m : ℤ} (h : init (.new m) made = some p) :
    p.connList.map some = made ∧ p.reserve = made.length ∧ p.maxConn = made.length ∧
      p.freeConn = made.length ∧ p.curConn = 0 := by
  obtain ⟨q, hq, rfl⟩ := Option.map_eq_some_iff.mp h
  obtain ⟨hl, hf, hc⟩ := connect_spec hq
  simp only [SqlConnectionPool.new, List.map_nil, List.nil_append, zero_add] at hl hf hc
  exact ⟨hl, by simp [hf], hf, hf, hc⟩

end Init

section Invariant

variable {T α : Type*} [Fintype T] {all : List α}

def Threads.buffer (s : Threads T α) : Buffer α where
  items := s.pool.connList
  permits := s.pool.reserve
  woken := count Place.isWoken s.place
  posting := count Place.isPosting s.place

structure Kept (all : List α) (s : Threads T α) : Prop where
  balanced : s.buffer.Balanced
  shared : Shared all s.pool.connList (Place.con ∘ s.place)
  free : s.pool.freeConn = s.pool.connList.length
  cur : s.pool.curConn = count Place.isHolding s.place
  total : s.pool.freeConn + s.pool.curConn = s.pool.maxConn

lemma kept_start {p : SqlConnectionPool α} {made : List (Option α)} {m : ℤ} (h : init (.new m) made = some p)
    (hnd : made.Nodup) : Kept p.connList (.start p : Threads T α) := by
  obtain ⟨hmade, hr, hm, hf, hc⟩ := init_spec h
  have hl : p.connList.length = made.length := by rw [← hmade, List.length_map]
  rw [← hmade] at hnd
  refine ⟨?_, shared_start hnd.of_map, ?_, ?_, ?_⟩
  · simp only [Buffer.Balanced, Threads.buffer, Threads.start]
    rw [count_eq_zero fun _ => rfl, count_eq_zero fun _ => rfl, hl, hr]
    rfl
  · simp only [Threads.start, hf, hl]
  · simp only [Threads.start, hc]
    rw [count_eq_zero fun _ => rfl]
    rfl
  · simp only [Threads.start, hf, hc, hm, add_zero]

variable [DecidableEq T]

variable {s t : Threads T α} {i : T}

lemma popFront_eq {p q : SqlConnectionPool α} {con : α} (h : popFront p = some (con, q)) :
    p.connList = con :: q.connList ∧ q.reserve = p.reserve ∧ q.maxConn = p.maxConn ∧
      q.freeConn = p.freeConn - 1 ∧ q.curConn = p.curConn + 1 := by
  unfold popFront at h
  split at h
  · cases h
  · rename_i hl
    cases h
    exact ⟨hl, rfl, rfl, rfl, rfl⟩

lemma popFront_eq_none {p : SqlConnectionPool α} : popFront p = none ↔ p.connList = [] := by
  unfold popFront
  split
  · rename_i hl
    exact ⟨fun _ => hl, fun _ => rfl⟩
  · rename_i hl
    rw [hl]
    exact ⟨nofun, nofun⟩

lemma use_buffer (hs : Use s i t) : s.buffer.Step t.buffer ∨ t.buffer = s.buffer := by
  have hsame : ∀ {u v}, s.place i = u → u.isWoken = v.isWoken → u.isPosting = v.isPosting →
      (s.goTo i v).buffer = s.buffer := by
    intro u v hi hw hp
    have hcw := count_move Place.isWoken hi v
    have hcp := count_move Place.isPosting hi v
    rw [hw] at hcw
    rw [hp] at hcp
    simp only [Threads.buffer, Threads.goTo, Nat.add_right_cancel hcw, Nat.add_right_cancel hcp]
  cases hs with
  | test hi => exact .inr (hsame hi (by split <;> rfl) (by split <;> rfl))
  | wait hi hpos =>
    exact .inl (.wait rfl (Nat.sub_add_cancel hpos) (count_move Place.isWoken hi .woken)
      (count_move Place.isPosting hi .woken))
  | @pop con p hi hp =>
    obtain ⟨hl, hr, -⟩ := popFront_eq hp
    exact .inl (.pop con hl hr (count_move Place.isWoken hi (.holding (some con)))
      (count_move Place.isPosting hi (.holding (some con))))
  | releaseNull hi => exact .inr (hsame hi rfl rfl)
  | @push con hi =>
    exact .inl (.push con rfl rfl (count_move Place.isWoken hi .posting) (count_move Place.isPosting hi .posting))
  | post hi =>
    exact .inl (.post rfl rfl (count_move Place.isWoken hi .outside) (count_move Place.isPosting hi .outside))

lemma Kept.move {u v : Place α} {p : SqlConnectionPool α} (h : Kept all s) (hi : s.place i = u)
    (hu : u.con = none) (hv : v.con = none) (hl : p.connList = s.pool.connList)
    (hn : p.freeConn = s.pool.freeConn ∧ p.curConn = s.pool.curConn ∧ p.maxConn = s.pool.maxConn)
    (hb : ({ s.goTo i v with pool := p } : Threads T α).buffer.Balanced) :
    Kept all { s.goTo i v with pool := p } := by
  obtain ⟨hf, hc, hm⟩ := hn
  have hheld : Place.con ∘ Function.update s.place i v = Place.con ∘ s.place := by
    rw [Function.comp_update, hv, ← hu, ← hi]
    exact Function.update_eq_self i _
  have hcount := count_move Place.isHolding hi v
  simp only [Place.isHolding, hu, hv] at hcount
  refine ⟨hb, ?_, ?_, ?_, ?_⟩
  · change Shared all p.connList (Place.con ∘ Function.update s.place i v)
    rw [hheld, hl]
    exact h.shared
  · rw [hf, hl]
    exact h.free
  · rw [hc, h.cur]
    exact congrArg Nat.cast (Nat.add_right_cancel hcount).symm
  · rw [hf, hc, hm]
    exact h.total

lemma Kept.pop {p : SqlConnectionPool α} {con : α} (h : Kept all s) (hi : s.place i = .woken)
    (hp : popFront s.pool = some (con, p))
    (hb : ({ s.goTo i (.holding (some con)) with pool := p } : Threads T α).buffer.Balanced) :
    Kept all { s.goTo i (.holding (some con)) with pool := p } := by
  obtain ⟨hl, -, hm, hf, hc⟩ := popFront_eq hp
  have hcount : count Place.isHolding (Function.update s.place i (.holding (some con))) =
      count Place.isHolding s.place + 1 := count_move Place.isHolding hi (.holding (some con))
  have hshared := h.shared
  have hfree := h.free
  rw [hl] at hshared hfree
  refine ⟨hb, ?_, ?_, ?_, ?_⟩
  · change Shared all p.connList (Place.con ∘ Function.update s.place i _)
    rw [Function.comp_update]
    exact hshared.take (congrArg Place.con hi)
  · rw [hf, hfree, List.length_cons]
    push_cast
    ring
  · change p.curConn = (count Place.isHolding (Function.update s.place i _) : ℕ)
    rw [hc, h.cur, hcount]
    push_cast
    rfl
  · rw [hf, hc, hm, ← h.total]
    ring

lemma Kept.push {con : α} (h : Kept all s) (hi : s.place i = .holding (some con))
    (hb : ({ s.goTo i .posting with pool := pushBack s.pool con } : Threads T α).buffer.Balanced) :
    Kept all { s.goTo i .posting with pool := pushBack s.pool con } := by
  have hcount : count Place.isHolding (Function.update s.place i .posting) + 1 =
      count Place.isHolding s.place := count_move Place.isHolding hi .posting
  refine ⟨hb, ?_, ?_, ?_, ?_⟩
  · change Shared all (s.pool.connList ++ [con]) (Place.con ∘ Function.update s.place i _)
    rw [Function.comp_update]
    exact h.shared.give (congrArg Place.con hi)
  · change s.pool.freeConn + 1 = ((s.pool.connList ++ [con]).length : ℕ)
    rw [h.free, List.length_append, List.length_singleton]
    push_cast
    rfl
  · change s.pool.curConn - 1 = (count Place.isHolding (Function.update s.place i _) : ℕ)
    rw [h.cur, ← hcount]
    push_cast
    ring
  · change s.pool.freeConn + 1 + (s.pool.curConn - 1) = s.pool.maxConn
    rw [← h.total]
    ring

lemma use_kept (s : Threads T α) (i : T) (t : Threads T α) (h : Kept all s) (hs : Use s i t) : Kept all t := by
  have hb := h.balanced.next (use_buffer hs)
  cases hs with
  | test hi => exact h.move hi rfl (by split <;> rfl) rfl ⟨rfl, rfl, rfl⟩ hb
  | wait hi | releaseNull hi | post hi => exact h.move hi rfl rfl rfl ⟨rfl, rfl, rfl⟩ hb
  | pop hi hp => exact h.pop hi hp hb
  | push hi => exact h.push hi hb

/-- After `init` has created its connections, in every state that the threads reach: no thread takes the
front of an empty list; the idle connections and those held by the threads are the created ones, each of
them once; and the counters are exact. -/
theorem sql_pool_invariant {m : ℤ} {made : List (Option α)} {p : SqlConnectionPool α} {s : Threads T α}
    (hinit : init (.new m) made = some p) (hnd : made.Nodup) (h : Reachable Use (.start p) s) :
    (∀ i, s.place i = .woken → popFront s.pool ≠ none) ∧
    (s.pool.connList.Nodup ∧
      (∀ con ∈ s.pool.connList, ∀ i, s.place i ≠ .holding (some con)) ∧
      (∀ i j con, s.place i = .holding (some con) → s.place j = .holding (some con) → i = j) ∧
      ∀ con, some con ∈ made ↔ con ∈ s.pool.connList ∨ ∃ i, s.place i = .holding (some con)) ∧
    s.pool.freeConn = s.pool.connList.length ∧ s.pool.curConn = count Place.isHolding s.place ∧
    s.pool.freeConn + s.pool.curConn = s.pool.maxConn := by
  have hk := h.invariant (kept_start hinit hnd) fun s i t hs _ hu => use_kept s i t hs hu
  obtain ⟨hmade, -⟩ := init_spec hinit
  refine ⟨fun i hi hnone => ?_, ⟨hk.shared.nodup, fun con hcon i hi => ?_, fun i j con hi hj => ?_,
    fun con => ?_⟩, hk.free, hk.cur, hk.total⟩
  · apply hk.balanced.ne_nil (count_pos (i := i) (by rw [hi]; rfl))
    exact popFront_eq_none.mp hnone
  · exact hk.shared.apart con hcon i (Place.con_eq_some.mpr hi)
  · exact hk.shared.single i j con (Place.con_eq_some.mpr hi) (Place.con_eq_some.mpr hj)
  · rw [← hmade, List.mem_map_of_injective (Option.some_injective α), hk.shared.mem con]
    apply or_congr Iff.rfl
    apply exists_congr
    intro i
    exact Place.con_eq_some

theorem sql_pool_invariant_one_connection :
    init (.new 0) [some 10] = some ⟨[10], 1, 1, 0, 1⟩ ∧
    ∃ s : Threads Bool ℕ, Reachable Use (.start ⟨[10], 1, 1, 0, 1⟩) s ∧
      s.place true = .holding (some 10) ∧ s.place false = .holding none ∧
      s.pool.freeConn = s.pool.connList.length ∧ s.pool.curConn = count Place.isHolding s.place ∧
      s.pool.freeConn + s.pool.curConn = s.pool.maxConn := by
  have hinit : init (.new 0) [some 10] = some ⟨[10], 1, 1, 0, 1⟩ := rfl
  have h₁ : Reachable Use (.start ⟨[10], 1, 1, 0, 1⟩ : Threads Bool ℕ) _ := .go .refl (.test (i := true) rfl)
  have h₂ := h₁.go (.wait (i := true) rfl (by decide))
  have h₃ := h₂.go (.pop (i := true) rfl rfl)
  have h₄ := h₃.go (.test (i := false) rfl)
  exact ⟨hinit, _, h₄, rfl, rfl, (sql_pool_invariant hinit (List.nodup_singleton _) h₄).2.2⟩

end Invariant

end OceanServer.Pool
