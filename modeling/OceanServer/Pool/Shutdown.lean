import OceanServer.Pool.SqlPool

/-! `DestroyPool` while threads use the pool: it closes the connections that are in the list and resets the counters, but
neither the connections that are held nor the semaphore. -/

namespace OceanServer.Pool

open Library

section Destroy

variable {T α : Type*}

def destroyPool (p : SqlConnectionPool α) : SqlConnectionPool α :=
  -- The part of `DestroyPool` under the lock; the connections in the list are passed to `mysql_close`.
  if 0 < p.connList.length then { p with connList := [], curConn := 0, freeConn := 0 } else p

structure Closing (T α : Type*) where
  threads : Threads T α
  closed : List α

def Closing.start (p : SqlConnectionPool α) : Closing T α := ⟨.start p, []⟩

variable [DecidableEq T]

inductive Destroys : Closing T α → Option T → Closing T α → Prop
  | use {s i t} : Use s.threads i t → Destroys s (some i) { s with threads := t }
  | destroy {s} : Destroys s none
      ⟨{ s.threads with pool := destroyPool s.threads.pool }, s.closed ++ s.threads.pool.connList⟩

end Destroy

section Changes

variable {T α : Type*} [DecidableEq T] {s t : Threads T α} {i : T}

inductive Moves (s : Threads T α) (i : T) (t : Threads T α) : Prop
  | none : t.pool.connList = s.pool.connList → t.pool.freeConn = s.pool.freeConn → t.pool.curConn = s.pool.curConn →
      Place.con ∘ t.place = Place.con ∘ s.place → Moves s i t
  | take (con : α) : s.pool.connList = con :: t.pool.connList → t.pool.freeConn = s.pool.freeConn - 1 →
      t.pool.curConn = s.pool.curConn + 1 → (Place.con ∘ s.place) i = .none →
      Place.con ∘ t.place = Function.update (Place.con ∘ s.place) i (some con) → Moves s i t
  | give (con : α) : t.pool.connList = s.pool.connList ++ [con] → t.pool.freeConn = s.pool.freeConn + 1 →
      t.pool.curConn = s.pool.curConn - 1 → (Place.con ∘ s.place) i = some con →
      Place.con ∘ t.place = Function.update (Place.con ∘ s.place) i .none → Moves s i t

lemma con_goTo {v : Place α} {u : Place α} (hi : s.place i = u) (hu : u.con = none) (hv : v.con = none) :
    Place.con ∘ (s.goTo i v).place = Place.con ∘ s.place := by
  change Place.con ∘ Function.update s.place i v = _
  rw [Function.comp_update, hv, ← hu, ← hi]
  exact Function.update_eq_self i _

lemma Use.moves (h : Use s i t) : Moves s i t := by
  cases h with
  | test hi => exact .none rfl rfl rfl (con_goTo hi rfl (by split <;> rfl))
  | wait hi | releaseNull hi | post hi => exact .none rfl rfl rfl (con_goTo hi rfl rfl)
  | @pop con p hi hp =>
    obtain ⟨hl, -, -, hf, hc⟩ := popFront_eq hp
    exact .take con hl hf hc (congrArg Place.con hi) (Function.comp_update _ _ _ _)
  | @push con hi => exact .give con rfl rfl rfl (congrArg Place.con hi) (Function.comp_update _ _ _ _)

end Changes

section Invariant

variable {T α : Type*} [Fintype T] {all : List α}

lemma count_holding (s : Threads T α) : count Place.isHolding s.place = count Option.isSome (Place.con ∘ s.place) := rfl

/-- Every connection is idle, held or closed, and the semaphore still counts those that are closed. -/
structure Parted (all : List α) (s : Closing T α) : Prop where
  permits : s.threads.pool.connList.length + s.closed.length =
    s.threads.pool.reserve + count Place.isWoken s.threads.place + count Place.isPosting s.threads.place
  shared : Shared all (s.threads.pool.connList ++ s.closed) (Place.con ∘ s.threads.place)
  free : s.threads.pool.freeConn = s.threads.pool.connList.length
  cur : s.threads.pool.curConn ≤ count Place.isHolding s.threads.place
  intact : s.closed = [] → s.threads.pool.curConn = count Place.isHolding s.threads.place

lemma parted_start {p : SqlConnectionPool α} {made : List (Option α)} {m : ℤ} (h : init (.new m) made = some p)
    (hnd : made.Nodup) : Parted p.connList (.start p : Closing T α) := by
  have hk := kept_start (T := T) h hnd
  have hb := hk.balanced
  simp only [Buffer.Balanced, Threads.buffer] at hb
  refine ⟨hb, ?_, hk.free, hk.cur.le, fun _ => hk.cur⟩
  simpa [Closing.start] using hk.shared

lemma Parted.destroy {s : Closing T α} (h : Parted all s) : Parted all
    (⟨{ s.threads with pool := destroyPool s.threads.pool }, s.closed ++ s.threads.pool.connList⟩ : Closing T α) := by
  by_cases hpos : 0 < s.threads.pool.connList.length
  · have hpool : destroyPool s.threads.pool = { s.threads.pool with connList := [], curConn := 0, freeConn := 0 } :=
      if_pos hpos
    rw [hpool]
    refine ⟨?_, ?_, rfl, Int.natCast_nonneg _, fun hn => ?_⟩
    · rw [← h.permits, List.length_append, List.length_nil, Nat.zero_add]
      exact Nat.add_comm _ _
    · exact h.shared.perm List.perm_append_comm
    · rw [(List.append_eq_nil_iff.mp hn).2] at hpos
      exact absurd hpos (Nat.lt_irrefl 0)
  · have hpool : destroyPool s.threads.pool = s.threads.pool := if_neg hpos
    have hnil : s.threads.pool.connList = [] := List.length_eq_zero_iff.mp (by omega)
    rw [hpool, hnil, List.append_nil]
    exact h

variable [DecidableEq T]

lemma Parted.use {s : Closing T α} {i : T} {t : Threads T α} (h : Parted all s) (hu : Use s.threads i t) :
    Parted all { s with threads := t } := by
  have hpermits := h.permits
  have hsurplus : t.pool.connList.length + s.closed.length =
      t.pool.reserve + count Place.isWoken t.place + count Place.isPosting t.place := by
    rcases use_buffer hu with hs | hs
    · have := hs.surplus
      simp only [Threads.buffer] at this
      omega
    · simp only [Threads.buffer, Buffer.mk.injEq] at hs
      obtain ⟨hl, hr, hw, hq⟩ := hs
      rw [hl, hr, hw, hq]
      exact hpermits
  have hcur := h.cur
  have hfree := h.free
  have hshared := h.shared
  cases hu.moves with
  | none hl hf hc hheld =>
    refine ⟨hsurplus, ?_, ?_, ?_, fun hn => ?_⟩
    · rw [hl, hheld]
      exact hshared
    · rw [hf, hl]
      exact hfree
    · rw [hc, count_holding, hheld]
      exact hcur
    · rw [hc, count_holding, hheld]
      exact h.intact hn
  | take con hl hf hc hi hheld =>
    have hcount := count_move Option.isSome hi (some con)
    rw [← hheld] at hcount
    have hmore : count Place.isHolding t.place = count Place.isHolding s.threads.place + 1 := hcount
    rw [hl] at hshared hfree
    refine ⟨hsurplus, ?_, ?_, ?_, fun hn => ?_⟩
    · rw [hheld]
      exact hshared.take hi
    · rw [hf, hfree, List.length_cons]
      push_cast
      ring
    · rw [hc, hmore]
      push_cast
      exact Int.add_le_add_right hcur 1
    · rw [hc, hmore, h.intact hn]
      push_cast
      rfl
  | give con hl hf hc hi hheld =>
    have hcount := count_move Option.isSome hi none
    rw [← hheld] at hcount
    have hless : count Place.isHolding t.place + 1 = count Place.isHolding s.threads.place := hcount
    refine ⟨hsurplus, ?_, ?_, ?_, fun hn => ?_⟩
    · rw [hheld, hl]
      refine (hshared.give hi).perm ?_
      rw [List.append_assoc, List.append_assoc]
      exact List.Perm.append_left _ List.perm_append_comm
    · rw [hf, hfree, hl, List.length_append, List.length_singleton]
      push_cast
      rfl
    · rw [hc]
      rw [← hless] at hcur
      push_cast at hcur
      exact sub_le_iff_le_add.mpr hcur
    · rw [hc, h.intact hn, ← hless]
      push_cast
      ring

/-- In every state that the threads and calls of `DestroyPool` reach: each connection is idle, or held by one thread, or
was closed, once, and a closed one is handed out to nobody; the free ones are counted right, the used ones too as long
as nothing is closed; and each closed connection leaves a permit behind, so that nothing but such a permit leads a thread
to an empty list. -/
theorem destroy_pool_safe {m : ℤ} {made : List (Option α)} {p : SqlConnectionPool α} {s : Closing T α}
    (hinit : init (.new m) made = some p) (hnd : made.Nodup) (h : Reachable Destroys (.start p) s) :
    (s.threads.pool.connList ++ s.closed).Nodup ∧
      (∀ con ∈ s.threads.pool.connList ++ s.closed, ∀ i, s.threads.place i ≠ .holding (some con)) ∧
      (∀ i j con, s.threads.place i = .holding (some con) → s.threads.place j = .holding (some con) → i = j) ∧
      (∀ con, some con ∈ made ↔ con ∈ s.threads.pool.connList ∨ con ∈ s.closed ∨
        ∃ i, s.threads.place i = .holding (some con)) ∧
      s.threads.pool.freeConn = s.threads.pool.connList.length ∧
      s.threads.pool.curConn ≤ count Place.isHolding s.threads.place ∧
      (s.closed = [] → s.threads.pool.curConn = count Place.isHolding s.threads.place) ∧
      s.threads.pool.reserve + count Place.isWoken s.threads.place + count Place.isPosting s.threads.place =
        s.threads.pool.connList.length + s.closed.length ∧
      ∀ i, s.threads.place i = .woken → popFront s.threads.pool = none → s.closed ≠ [] := by
  have hk : Parted p.connList s := by
    refine h.invariant (parted_start hinit hnd) fun s a t hs _ hst => ?_
    cases hst with
    | use hu => exact hs.use hu
    | destroy => exact hs.destroy
  obtain ⟨hmade, -⟩ := init_spec hinit
  refine ⟨hk.shared.nodup, fun con hcon i hi => ?_, fun i j con hi hj => ?_, fun con => ?_, hk.free, hk.cur, hk.intact,
    hk.permits.symm, fun i hi hnone hclosed => ?_⟩
  · exact hk.shared.apart con hcon i (Place.con_eq_some.mpr hi)
  · exact hk.shared.single i j con (Place.con_eq_some.mpr hi) (Place.con_eq_some.mpr hj)
  · rw [← hmade, List.mem_map_of_injective (Option.some_injective α), hk.shared.mem con, List.mem_append, or_assoc]
    exact or_congr Iff.rfl (or_congr Iff.rfl (exists_congr fun i => Place.con_eq_some))
  · have hwoken : 0 < count Place.isWoken s.threads.place := count_pos (i := i) (by rw [hi]; rfl)
    have hpermits := hk.permits
    rw [popFront_eq_none.mp hnone, hclosed] at hpermits
    simp only [List.length_nil] at hpermits
    omega

theorem destroy_pool_safe_late_thread : ∃ s : Closing Bool ℕ, Reachable Destroys (.start ⟨[10], 1, 1, 0, 1⟩) s ∧
    s.threads.place true = .woken ∧ popFront s.threads.pool = none ∧ s.closed ≠ [] := by
  have hinit : init (.new 0) [some 10] = some ⟨[10], 1, 1, 0, 1⟩ := rfl
  have h₁ : Reachable Destroys (.start ⟨[10], 1, 1, 0, 1⟩ : Closing Bool ℕ) _ := .go .refl (.use (.test (i := true) rfl))
  have h₂ := h₁.go .destroy
  have h₃ := h₂.go (.use (.wait (i := true) rfl (by decide)))
  exact ⟨_, h₃, rfl, rfl, (destroy_pool_safe hinit (List.nodup_singleton _) h₃).2.2.2.2.2.2.2.2 true rfl rfl⟩

end Invariant

end OceanServer.Pool
