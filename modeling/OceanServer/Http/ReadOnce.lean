import OceanServer.Http.Parser

/-! `read_once` in both trigger modes, over whatever `recv` answers: what the receive buffer holds after any
sequence of calls, and what one call does with the bytes that are pending. -/

namespace OceanServer.Http

open Library Library.CString

inductive Trigger where
  | level | edge
  deriving DecidableEq, Repr

inductive Recv where
  | data (bytes : List UInt8)
  | zero
  | again
  | error
  deriving DecidableEq, Repr

def Recv.count : Recv → ℤ
  | .data bytes => bytes.length
  | .zero => 0
  | .again | .error => -1

/-- `m_read_buf` and `m_read_idx`, which is a `long` here: it can become negative. -/
structure Receiver where
  buf : Memory
  idx : ℤ

def Receiver.init : Receiver := ⟨fun _ => 0, 0⟩

def ReadState.receiver (c : ReadState) : Receiver := ⟨c.readBuf, c.readIdx⟩

/-- What `recv` stores at `m_read_buf + m_read_idx`. Bytes that fall in front of the array overwrite other members,
which are not modelled. -/
def Receiver.store (c : Receiver) : Recv → Receiver
  | .data bytes => { c with buf := c.buf.write c.idx.toNat (bytes.drop (-c.idx).toNat) }
  | .zero | .again | .error => c

def Receiver.advance (c : Receiver) (n : ℤ) : Receiver := { c with idx := c.idx + n }

section Calls

-- The socket answers a call of `recv` with the given length; `none` where there is no answer.
variable {σ : Type} (recv : σ → ℤ → Option (Recv × σ))

def readLevel (c : Receiver) (s : σ) : Option (Bool × Receiver × σ) := do
  let (r, s) ← recv s (readBufferSize - c.idx)
  let c := (c.store r).advance r.count
  if r.count ≤ 0 then some (false, c, s) else some (true, c, s)

def readEdge : ℕ → Receiver → σ → Option (Bool × Receiver × σ)
  | 0, _, _ => none
  | n + 1, c, s => do
    let (r, s) ← recv s (readBufferSize - c.idx)
    let c := c.store r
    if r.count = -1 then if r = .again then some (true, c, s) else some (false, c, s)
    else if r.count = 0 then some (false, c, s)
    else readEdge n (c.advance r.count) s

-- Each turn of the loop but the last one stores a byte.
def readOnce (mode : Trigger) (c : Receiver) (s : σ) : Option (Bool × Receiver × σ) :=
  if readBufferSize ≤ c.idx then some (false, c, s)
  else match mode with
    | .level => readLevel recv c s
    | .edge => readEdge recv (readBufferSize + 1) c s

variable {recv} {mode : Trigger} {c : Receiver} {s s' : σ} {r : Recv}

lemma readLevel_step (h : recv s (readBufferSize - c.idx) = some (r, s')) :
    readLevel recv c s =
      if r.count ≤ 0 then some (false, (c.store r).advance r.count, s')
      else some (true, (c.store r).advance r.count, s') := by
  rw [readLevel, h]
  rfl

lemma readEdge_step (h : recv s (readBufferSize - c.idx) = some (r, s')) (n : ℕ) :
    readEdge recv (n + 1) c s =
      if r.count = -1 then if r = .again then some (true, c.store r, s') else some (false, c.store r, s')
      else if r.count = 0 then some (false, c.store r, s')
      else readEdge recv n ((c.store r).advance r.count) s' := by
  rw [readEdge, h]
  rfl

lemma readOnce_full (h : (readBufferSize : ℤ) ≤ c.idx) : readOnce recv mode c s = some (false, c, s) := if_pos h

lemma readOnce_level (h : ¬ (readBufferSize : ℤ) ≤ c.idx) : readOnce recv .level c s = readLevel recv c s := if_neg h

lemma readOnce_edge (h : ¬ (readBufferSize : ℤ) ≤ c.idx) :
    readOnce recv .edge c s = readEdge recv (readBufferSize + 1) c s := if_neg h

end Calls

def script : List Recv → ℤ → Option (Recv × List Recv)
  | [], _ => none
  | r :: rs, _ => some (r, rs)

def reads (mode : Trigger) : ℕ → Receiver → List Recv → Option (Receiver × List Recv)
  | 0, c, rs => some (c, rs)
  | calls + 1, c, rs => do
    let (_, c, rs) ← readOnce script mode c rs
    reads mode calls c rs

def Recv.bytes : Recv → List UInt8
  | .data bytes => bytes
  | .zero | .again | .error => []

def allBytes (rs : List Recv) : List UInt8 := rs.flatMap Recv.bytes

def Receiver.Holds (c : Receiver) (bytes : List UInt8) : Prop :=
  c.idx = bytes.length ∧ bytesAt c.buf 0 bytes.length = bytes

/-- After each of the calls the buffer holds `bytes` and what `recv` has delivered since, and no call moves the
index below a position that it had reached. -/
def ReceivesExactly (mode : Trigger) (calls : ℕ) (c : Receiver) (bytes : List UInt8) (rs : List Recv) : Prop :=
  ∀ m c₁ used rest, m ≤ calls → rs = used ++ rest → reads mode m c rs = some (c₁, rest) →
    c₁.Holds (bytes ++ allBytes used) ∧
      ∀ ok c₂ rest₂, m < calls → readOnce script mode c₁ rest = some (ok, c₂, rest₂) →
        ∀ checkedIdx : ℕ, (checkedIdx : ℤ) ≤ c₁.idx → (checkedIdx : ℤ) ≤ c₂.idx

section Exactness

variable {mode : Trigger} {c c' : Receiver} {bytes : List UInt8} {rs rest : List Recv} {ok : Bool}

lemma allBytes_cons (r : Recv) (rs : List Recv) : allBytes (r :: rs) = r.bytes ++ allBytes rs := rfl

@[simp] lemma allBytes_nil : allBytes [] = [] := rfl

@[simp] lemma allBytes_singleton (r : Recv) : allBytes [r] = r.bytes := List.append_nil _

lemma allBytes_append (rs rs' : List Recv) : allBytes (rs ++ rs') = allBytes rs ++ allBytes rs' :=
  List.flatMap_append

lemma Receiver.Holds.store {r : Recv} (h : c.Holds bytes) (hr : r.count ≠ -1) :
    ((c.store r).advance r.count).Holds (bytes ++ r.bytes) := by
  obtain ⟨hidx, hbuf⟩ := h
  cases r with
  | data bs =>
    have hnext := bytesAt_write_next c.buf 0 bytes.length bs
    rw [Nat.zero_add, hbuf] at hnext
    refine ⟨?_, ?_⟩
    · change c.idx + bs.length = _
      rw [hidx, Recv.bytes, List.length_append, Nat.cast_add]
    · change bytesAt (c.buf.write c.idx.toNat (bs.drop (-c.idx).toNat)) 0 (bytes ++ bs).length = _
      have hneg : (-(bytes.length : ℤ)).toNat = 0 := by omega
      rw [hidx, Int.toNat_natCast, hneg, List.drop_zero, List.length_append, hnext]
      rfl
  | zero =>
    rw [Recv.bytes, List.append_nil]
    exact ⟨(add_zero _).trans hidx, hbuf⟩
  | again | error => exact absurd rfl hr

lemma Receiver.Holds.store_idle {r : Recv} (h : c.Holds bytes) (hr : r.count = -1 ∨ r.count = 0) :
    (c.store r).Holds (bytes ++ r.bytes) := by
  rcases hr with hr | hr
  · cases r with
    | data bs => exact absurd hr (by simp only [Recv.count]; omega)
    | zero => exact absurd hr (by decide)
    | again | error =>
      rw [Recv.bytes, List.append_nil]
      exact h
  · have hs := h.store (r := r) (by omega)
    rw [hr, Receiver.advance, add_zero] at hs
    exact hs

lemma readEdge_holds {fuel : ℕ} (hc : c.Holds bytes) (h : readEdge script fuel c rs = some (ok, c', rest)) :
    ∃ used, rs = used ++ rest ∧ c'.Holds (bytes ++ allBytes used) := by
  induction fuel generalizing c bytes rs with
  | zero => cases h
  | succ fuel ih =>
    cases rs with
    | nil => cases h
    | cons r rs =>
      rw [readEdge_step (show script (r :: rs) _ = some (r, rs) from rfl)] at h
      by_cases h1 : r.count = -1
      · have hs := hc.store_idle (.inl h1)
        rw [if_pos h1] at h
        refine ⟨[r], ?_, ?_⟩
        · split_ifs at h <;> cases h <;> rfl
        · rw [allBytes_singleton]
          split_ifs at h <;> cases h <;> exact hs
      · rw [if_neg h1] at h
        by_cases h0 : r.count = 0
        · rw [if_pos h0] at h
          cases h
          exact ⟨[r], rfl, allBytes_singleton r ▸ hc.store_idle (.inr h0)⟩
        · rw [if_neg h0] at h
          obtain ⟨used, rfl, hused⟩ := ih (hc.store h1) h
          exact ⟨r :: used, rfl, by rw [allBytes_cons, ← List.append_assoc]; exact hused⟩

lemma readLevel_eq (h : readLevel script c rs = some (ok, c', rest)) :
    ∃ r, rs = r :: rest ∧ c' = (c.store r).advance r.count := by
  cases rs with
  | nil => cases h
  | cons r rs =>
    rw [readLevel_step (show script (r :: rs) _ = some (r, rs) from rfl)] at h
    refine ⟨r, ?_, ?_⟩ <;> split_ifs at h <;> cases h <;> rfl

lemma readOnce_holds (hc : c.Holds bytes) (hmode : mode = .edge ∨ ∀ r ∈ rs, r.count ≠ -1)
    (h : readOnce script mode c rs = some (ok, c', rest)) :
    ∃ used, rs = used ++ rest ∧ c'.Holds (bytes ++ allBytes used) := by
  by_cases hfull : (readBufferSize : ℤ) ≤ c.idx
  · rw [readOnce_full hfull] at h
    cases h
    exact ⟨[], rfl, by rwa [allBytes_nil, List.append_nil]⟩
  · cases mode with
    | edge =>
      rw [readOnce_edge hfull] at h
      exact readEdge_holds hc h
    | level =>
      rw [readOnce_level hfull] at h
      obtain ⟨r, rfl, rfl⟩ := readLevel_eq h
      have hr : r.count ≠ -1 := (hmode.resolve_left (by decide)) r List.mem_cons_self
      refine ⟨[r], rfl, ?_⟩
      rw [allBytes_singleton]
      exact hc.store hr

lemma reads_succ {calls : ℕ} : reads mode (calls + 1) c rs = some (c', rest) ↔
    ∃ ok c₁ rs₁, readOnce script mode c rs = some (ok, c₁, rs₁) ∧ reads mode calls c₁ rs₁ = some (c', rest) := by
  rw [reads, Option.bind_eq_bind, Option.bind_eq_some_iff]
  constructor
  · rintro ⟨⟨ok, c₁, rs₁⟩, h₁, h₂⟩
    exact ⟨ok, c₁, rs₁, h₁, h₂⟩
  · rintro ⟨ok, c₁, rs₁, h₁, h₂⟩
    exact ⟨(ok, c₁, rs₁), h₁, h₂⟩

lemma reads_holds {calls : ℕ} (hc : c.Holds bytes) (hmode : mode = .edge ∨ ∀ r ∈ rs, r.count ≠ -1)
    (h : reads mode calls c rs = some (c', rest)) :
    ∃ used, rs = used ++ rest ∧ c'.Holds (bytes ++ allBytes used) := by
  induction calls generalizing c bytes rs with
  | zero =>
    cases h
    exact ⟨[], rfl, by rwa [allBytes_nil, List.append_nil]⟩
  | succ calls ih =>
    obtain ⟨ok, c₁, rs₁, h₁, h₂⟩ := reads_succ.mp h
    obtain ⟨used, rfl, hc₁⟩ := readOnce_holds hc hmode h₁
    obtain ⟨used', rfl, hc'⟩ := ih hc₁ (hmode.imp_right fun hr r hm => hr r (List.mem_append_right _ hm)) h₂
    exact ⟨used ++ used', (List.append_assoc _ _ _).symm, by rw [allBytes_append, ← List.append_assoc]; exact hc'⟩

lemma receivesExactly_of {calls : ℕ} (hc : c.Holds bytes) (hmode : mode = .edge ∨ ∀ r ∈ rs, r.count ≠ -1) :
    ReceivesExactly mode calls c bytes rs := by
  rintro m c₁ used rest - rfl h
  obtain ⟨used', hused, hc₁⟩ := reads_holds hc hmode h
  obtain rfl := List.append_cancel_right hused
  refine ⟨hc₁, fun ok c₂ rest₂ _ h₂ checkedIdx hle => hle.trans ?_⟩
  obtain ⟨more, -, hc₂⟩ := readOnce_holds hc₁ (hmode.imp_right fun hr r hm => hr r (List.mem_append_right _ hm)) h₂
  rw [hc₁.1, hc₂.1]
  exact Int.ofNat_le.mpr (List.prefix_append _ _).length_le

lemma ReceivesExactly.tail {calls : ℕ} (used : List Recv) (h : ReceivesExactly mode (calls + 1) c bytes (used ++ rest))
    (hc : readOnce script mode c (used ++ rest) = some (ok, c', rest)) :
    c'.Holds (bytes ++ allBytes used) ∧ ReceivesExactly mode calls c' (bytes ++ allBytes used) rest := by
  refine ⟨(h 1 c' used rest (by omega) rfl (reads_succ.mpr ⟨_, _, _, hc, rfl⟩)).1, ?_⟩
  rintro m c₂ used' rest' hm rfl hreads
  obtain ⟨hholds, hidx⟩ := h (m + 1) c₂ (used ++ used') rest' (by omega) (List.append_assoc _ _ _).symm
    (reads_succ.mpr ⟨_, _, _, hc, hreads⟩)
  rw [allBytes_append, ← List.append_assoc] at hholds
  exact ⟨hholds, fun ok c₃ rest₃ hlt => hidx ok c₃ rest₃ (by omega)⟩

-- By induction on the calls: the first result of -1 leaves an index one below what was delivered.
lemma count_of_receivesExactly {calls : ℕ} (hc : c.Holds bytes) (h : reads .level calls c rs = some (c', []))
    (hexact : ReceivesExactly .level calls c bytes rs) : ∀ r ∈ rs, r.count ≠ -1 := by
  induction calls generalizing c bytes rs with
  | zero =>
    cases h
    exact fun r hr => absurd hr List.not_mem_nil
  | succ calls ih =>
    obtain ⟨ok, c₁, rs₁, h₁, h₂⟩ := reads_succ.mp h
    have hcall := h₁
    by_cases hfull : (readBufferSize : ℤ) ≤ c.idx
    · rw [readOnce_full hfull] at hcall
      cases hcall
      obtain ⟨hc₁, htail⟩ := ReceivesExactly.tail [] hexact h₁
      exact ih hc₁ h₂ htail
    · rw [readOnce_level hfull] at hcall
      obtain ⟨r, rfl, rfl⟩ := readLevel_eq hcall
      obtain ⟨hc₁, htail⟩ := ReceivesExactly.tail [r] hexact h₁
      intro r' hr'
      rcases List.mem_cons.mp hr' with rfl | hr'
      · intro hcount
        have hidle := (hc.store_idle (.inl hcount)).1
        have hidx : (c.store r').idx + r'.count = _ := hc₁.1
        rw [allBytes_singleton, hidle, hcount] at hidx
        omega
      · exact ih hc₁ h₂ htail r' hr'

lemma init_holds : Receiver.init.Holds [] := ⟨rfl, rfl⟩

theorem receive_exact_iff {calls : ℕ} (h : reads mode calls .init rs = some (c, [])) :
    ReceivesExactly mode calls .init [] rs ↔ mode = .edge ∨ ∀ r ∈ rs, r.count ≠ -1 := by
  constructor
  · intro hexact
    cases mode with
    | edge => exact .inl rfl
    | level => exact .inr (count_of_receivesExactly init_holds h hexact)
  · exact receivesExactly_of init_holds

end Exactness

-- Two calls: some bytes and a failure, then the rest of the bytes and no more for now.
theorem receive_exact_edge : ReceivesExactly .edge 2 .init [] [.data [71, 69], .error, .data [84], .again] := by
  have h : reads .edge 2 .init [.data [71, 69], .error, .data [84], .again] = some (_, []) := rfl
  exact (receive_exact_iff h).mpr (.inl rfl)

-- Three bytes arrive, then the peer resets the connection: the failing call takes one of them away.
theorem receive_not_exact_level :
    ∃ c, reads .level 2 .init [.data [71, 69, 84], .error] = some (c, []) ∧ c.idx = 2 ∧
      ¬ ReceivesExactly .level 2 .init [] [.data [71, 69, 84], .error] := by
  refine ⟨_, rfl, rfl, fun h => ?_⟩
  obtain ⟨hholds, -⟩ := h 2 _ [.data [71, 69, 84], .error] [] le_rfl rfl rfl
  exact absurd hholds.1 (by decide)

def pendingRecv (pending : List UInt8) (len : ℤ) : Option (Recv × List UInt8) :=
  if pending = [] then some (.again, [])
  else if len ≤ 0 then some (.zero, pending)
  else some (.data (pending.take len.toNat), pending.drop len.toNat)

def room (c : ReadState) : ℕ := readBufferSize - c.readIdx

def Stores (mode : Trigger) (c : ReadState) (pending : List UInt8) : Prop :=
  ∃ rest, readOnce pendingRecv mode c.receiver pending =
    some (true, (c.receive (pending.take (min pending.length (room c)))).receiver, rest)

section Pending

variable {c : ReadState} {pending : List UInt8}

lemma receiver_room (hc : c.readIdx < readBufferSize) : (readBufferSize : ℤ) - c.receiver.idx = room c := by
  have hidx : c.receiver.idx = c.readIdx := rfl
  rw [hidx, room]
  omega

lemma receiver_not_full (hc : c.readIdx < readBufferSize) : ¬ (readBufferSize : ℤ) ≤ c.receiver.idx := by
  have hidx : c.receiver.idx = c.readIdx := rfl
  omega

lemma pendingRecv_first (hc : c.readIdx < readBufferSize) (hp : pending ≠ []) :
    pendingRecv pending (readBufferSize - c.receiver.idx) =
      some (.data (pending.take (room c)), pending.drop (room c)) := by
  have hroom : 0 < room c := Nat.sub_pos_of_lt hc
  rw [receiver_room hc, pendingRecv, if_neg hp, if_neg (by omega), Int.toNat_natCast]

lemma receiver_receive (c : ReadState) (bytes : List UInt8) :
    (c.receiver.store (.data bytes)).advance (Recv.data bytes).count = (c.receive bytes).receiver := by
  have hneg : (-(c.readIdx : ℤ)).toNat = 0 := by omega
  simp only [ReadState.receiver, Receiver.store, Receiver.advance, ReadState.receive, Recv.count, hneg, List.drop_zero,
    Int.toNat_natCast, Nat.cast_add]

lemma take_min_length (pending : List UInt8) (n : ℕ) : pending.take (min pending.length n) = pending.take n := by
  rw [min_comm, ← List.take_take, List.take_length]

lemma count_take (hc : c.readIdx < readBufferSize) (hp : pending ≠ []) :
    0 < (Recv.data (pending.take (room c))).count := by
  have hroom : 0 < room c := Nat.sub_pos_of_lt hc
  have hlen := List.length_pos_iff.mpr hp
  rw [Recv.count, List.length_take]
  omega

lemma level_stores (hc : c.readIdx < readBufferSize) (hp : pending ≠ []) : Stores .level c pending := by
  have hcount := count_take hc hp
  refine ⟨pending.drop (room c), ?_⟩
  rw [readOnce_level (receiver_not_full hc), readLevel_step (pendingRecv_first hc hp), if_neg (by omega),
    receiver_receive, take_min_length]

lemma readEdge_second {n : ℕ} {c : Receiver} (hfull : pending ≠ [] → c.idx = readBufferSize) :
    readEdge pendingRecv (n + 1) c pending = some (decide (pending = []), c, pending) := by
  by_cases hp : pending = []
  · subst hp
    rw [readEdge_step (show pendingRecv [] _ = some (.again, []) from rfl)]
    rfl
  · have hzero : pendingRecv pending (readBufferSize - c.idx) = some (.zero, pending) := by
      rw [hfull hp, sub_self, pendingRecv, if_neg hp, if_pos le_rfl]
    rw [readEdge_step hzero, decide_eq_false hp]
    rfl

lemma readOnce_edge_pending (hc : c.readIdx < readBufferSize) (hp : pending ≠ []) :
    readOnce pendingRecv .edge c.receiver pending =
      some (decide (pending.length ≤ room c), (c.receive (pending.take (room c))).receiver, pending.drop (room c)) := by
  have hcount := count_take hc hp
  have hend : pending.drop (room c) = [] ↔ pending.length ≤ room c := List.drop_eq_nil_iff
  have hidx : pending.drop (room c) ≠ [] → (c.receive (pending.take (room c))).receiver.idx = readBufferSize := by
    intro hne
    have hlt : room c < pending.length := Nat.lt_of_not_le fun hle => hne (hend.mpr hle)
    have hreceived : (c.receive (pending.take (room c))).receiver.idx =
      ((c.readIdx + (pending.take (room c)).length : ℕ) : ℤ) := rfl
    rw [hreceived, List.length_take, min_eq_left hlt.le, room]
    omega
  rw [readOnce_edge (receiver_not_full hc), readEdge_step (pendingRecv_first hc hp), if_neg (by omega),
    if_neg (by omega), receiver_receive]
  have hsecond := readEdge_second (n := readBufferSize - 1) hidx
  simp only [hend] at hsecond
  exact hsecond

theorem triggers_agree_iff (hc : c.readIdx < readBufferSize) (hp : pending ≠ []) :
    Stores .edge c pending ∧ Stores .level c pending ↔ pending.length ≤ room c := by
  have hedge := readOnce_edge_pending hc hp
  constructor
  · rintro ⟨⟨rest, hstores⟩, -⟩
    rw [hedge] at hstores
    simp only [Option.some.injEq, Prod.mk.injEq, decide_eq_true_eq] at hstores
    exact hstores.1
  · intro hle
    refine ⟨⟨pending.drop (room c), ?_⟩, level_stores hc hp⟩
    rw [hedge, decide_eq_true hle, take_min_length]

end Pending

theorem triggers_agree_short_request :
    Stores .edge (default : ReadState).init (ascii "GET / HTTP/1.1\r\n".toList) ∧
      Stores .level (default : ReadState).init (ascii "GET / HTTP/1.1\r\n".toList) :=
  (triggers_agree_iff (by decide) (by decide)).mpr (by decide)

-- One byte more than the buffer holds: the edge-triggered call takes the length of 0 for a closed peer.
theorem triggers_disagree_long_request :
    (∃ c rest, readOnce pendingRecv .edge (default : ReadState).init.receiver (List.replicate 2049 65) =
      some (false, c, rest) ∧ rest ≠ []) ∧
    Stores .level (default : ReadState).init (List.replicate 2049 65) ∧
    ¬ Stores .edge (default : ReadState).init (List.replicate 2049 65) := by
  have hp : List.replicate 2049 (65 : UInt8) ≠ [] :=
    List.ne_nil_of_length_pos (by rw [List.length_replicate]; omega)
  have hroom : room (default : ReadState).init = 2048 := rfl
  have hedge := readOnce_edge_pending (c := (default : ReadState).init) (by decide) hp
  rw [List.length_replicate, hroom, decide_eq_false (by omega)] at hedge
  refine ⟨⟨_, _, hedge, List.ne_nil_of_length_pos ?_⟩, level_stores (by decide) hp, ?_⟩
  · rw [List.length_drop, List.length_replicate]
    omega
  · rintro ⟨rest, hstores⟩
    rw [hedge] at hstores
    cases (Prod.mk.inj (Option.some.inj hstores)).1

end OceanServer.Http
