import OceanServer.Http.Body
import OceanServer.Http.RequestLine

/-! The indices into the receive buffer over all calls of `process_read` on a connection, and the byte that
`parse_content` sets to end the body. -/

namespace OceanServer.Http

open Library Library.CString

structure InOrder (c : ReadState) : Prop where
  start : c.startLine ≤ c.checkedIdx
  checked : c.checkedIdx ≤ c.readIdx
  fit : c.readIdx ≤ readBufferSize

/-- The connection after `process_read`. Of what is read here, `do_request` changes `m_read_buf` only. -/
def Leave.After : Leave → ReadState → Prop
  | .returned _ d, e => e = d
  | .doRequest _ d, e => ∃ m, e = { d with readBuf := m }
  | .fault, _ => False

/-- The states in which the loop of `process_read` starts an iteration, when the function is called after
each chunk. What an incomplete `parse_content` returns may be another value each time. -/
inductive Reading (c₀ : ReadState) : LineStatus × ReadState → Prop
  | start {x} : x.length ≤ readBufferSize → Reading c₀ (.ok, c₀.init.receive x)
  | iterate {junk s t} : Reading c₀ s → readStep junk s = .inl t → Reading c₀ t
  | resume {junk s l d x} : Reading c₀ s → readStep junk s = .inr l → l.After d →
      d.readIdx + x.length ≤ readBufferSize → Reading c₀ (.ok, d.receive x)

structure Receiving (s : LineStatus × ReadState) : Prop where
  order : InOrder s.2
  low : longMin ≤ s.2.contentLength
  high : s.2.contentLength ≤ longMax
  nonzero : s.2.checkState = .content → s.2.contentLength ≠ 0
  body : s.2.checkState = .content →
    s.2.startLine = s.2.checkedIdx ∨ (s.2.checkedIdx : ℤ) < s.2.startLine + s.2.contentLength
  short : s.2.checkState = .content → s.1 ≠ .ok → (s.2.readIdx : ℤ) < s.2.startLine + s.2.contentLength

section Step

variable {s : LineStatus × ReadState} {c d : ReadState}

lemma receiving_at_line (hs : d.startLine = c.checkedIdx) (hc : d.checkedIdx = c.checkedIdx)
    (hr : d.readIdx = c.readIdx) (h : InOrder c) (low : longMin ≤ d.contentLength)
    (high : d.contentLength ≤ longMax) (hn : d.checkState = .content → d.contentLength ≠ 0) :
    Receiving (.ok, d) where
  order := ⟨(hs.trans hc.symm).le, by rw [hc, hr]; exact h.checked, hr.trans_le h.fit⟩
  low := low
  high := high
  nonzero := hn
  body _ := .inl (hs.trans hc.symm)
  short _ hne := absurd rfl hne

lemma Receiving.of_buffer {status : LineStatus} (h : Receiving (status, c)) (m : Memory) :
    Receiving (status, { c with readBuf := m }) :=
  ⟨⟨h.order.start, h.order.checked, h.order.fit⟩, h.low, h.high, h.nonzero, h.body, h.short⟩

def Onward (c : ReadState) : (LineStatus × ReadState) ⊕ Leave → Prop
  | .inl t => Receiving t ∧ c.checkedIdx ≤ t.2.checkedIdx
  | .inr l => ∀ d, l.After d → Receiving (.ok, d) ∧ c.checkedIdx ≤ d.checkedIdx

structure HeaderTaken (c d : ReadState) : Prop where
  startLine : d.startLine = c.startLine
  url : d.url = c.url
  phase : d.checkState = .content ∧ d.contentLength = c.contentLength ∧ c.contentLength ≠ 0 ∨
    d.checkState = c.checkState ∧
      (d.contentLength = c.contentLength ∨ ∃ p, d.contentLength = atol readBufferSize c.readBuf p)

lemma parseHeaders_taken (c : ReadState) (text : ℕ) : HeaderTaken c (parseHeaders c text).2 := by
  simp only [parseHeaders]
  split_ifs with h0 hl
  · exact ⟨rfl, rfl, .inl ⟨rfl, rfl, hl⟩⟩
  · exact ⟨rfl, rfl, .inr ⟨rfl, .inl rfl⟩⟩
  · exact ⟨rfl, rfl, .inr ⟨rfl, .inl rfl⟩⟩
  · exact ⟨rfl, rfl, .inr ⟨rfl, .inl rfl⟩⟩
  · exact ⟨rfl, rfl, .inr ⟨rfl, .inr ⟨_, rfl⟩⟩⟩
  · exact ⟨rfl, rfl, .inr ⟨rfl, .inl rfl⟩⟩
  · exact ⟨rfl, rfl, .inr ⟨rfl, .inl rfl⟩⟩

lemma switchState_onward (junk : ℕ → ℕ → HttpCode) (h : Receiving (.ok, c)) : Onward c (switchState junk c) := by
  cases hp : c.checkState with
  | requestLine =>
    simp only [switchState, hp]
    cases hq : parseRequestLine c.takeLine c.startLine with
    | none => exact fun d hd => hd.elim
    | some r =>
      obtain ⟨code, e⟩ := r
      have hk := parseRequestLine_keeps hq
      have he : Receiving (.ok, e) :=
        receiving_at_line hk.startLine hk.checkedIdx hk.readIdx h.order (hk.contentLength ▸ h.low)
          (hk.contentLength ▸ h.high) fun hc => by
            rcases hk.phase with ⟨-, h1⟩ | ⟨-, h1⟩
            · exact absurd (hc.symm.trans (h1.trans hp)) (by decide)
            · exact absurd (hc.symm.trans h1) (by decide)
      have hle : c.checkedIdx ≤ e.checkedIdx := hk.checkedIdx.ge
      simp only [onRequestLine]
      split_ifs
      · rintro d rfl
        exact ⟨he, hle⟩
      · exact ⟨he, hle⟩
  | header =>
    simp only [switchState, hp]
    obtain ⟨hr, hc⟩ := parseHeaders_indices c.takeLine c.startLine
    obtain ⟨hs, -, hl⟩ := parseHeaders_taken c.takeLine c.startLine
    rcases hq : parseHeaders c.takeLine c.startLine with ⟨code, e⟩
    rw [hq] at hr hc hs hl
    have he : Receiving (.ok, e) := by
      rcases hl with ⟨-, hlen, hne⟩ | ⟨hphase, hlen⟩
      · exact receiving_at_line hs hc hr h.order (hlen ▸ h.low) (hlen ▸ h.high) fun _ => hlen.symm ▸ hne
      · have hnot : e.checkState ≠ .content := fun hcont => absurd (hcont.symm.trans (hphase.trans hp)) (by decide)
        rcases hlen with hlen | ⟨p, hlen⟩
        · exact receiving_at_line hs hc hr h.order (hlen ▸ h.low) (hlen ▸ h.high) fun hcont => absurd hcont hnot
        · exact receiving_at_line hs hc hr h.order (hlen ▸ longMin_le_atol _ _ _) (hlen ▸ atol_le_longMax _ _ _)
            fun hcont => absurd hcont hnot
    have hle : c.checkedIdx ≤ e.checkedIdx := hc.ge
    simp only [onHeaders]
    split_ifs
    · rintro d rfl
      exact ⟨he, hle⟩
    · rintro d ⟨m, rfl⟩
      exact ⟨he.of_buffer m, hle⟩
    · exact ⟨he, hle⟩
  | content =>
    have hn := h.nonzero hp
    have hd (d : ReadState) (hs : d.startLine = c.checkedIdx) (hc : d.checkedIdx = c.checkedIdx)
        (hr : d.readIdx = c.readIdx) (hl : d.contentLength = c.contentLength) : Receiving (.ok, d) :=
      receiving_at_line hs hc hr h.order (hl ▸ h.low) (hl ▸ h.high) fun _ => by rwa [hl]
    rw [switchState_body hp]
    split_ifs with hover hdone hin
    · exact fun d hd => hd.elim
    · rintro d ⟨m, rfl⟩
      exact ⟨hd _ rfl rfl rfl rfl, le_rfl⟩
    · exact fun d hd => hd.elim
    · simp only [missingReturn]
      split_ifs
      · rintro d ⟨m, rfl⟩
        exact ⟨hd _ rfl rfl rfl rfl, le_rfl⟩
      · have hr := hd c.takeLine rfl rfl rfl rfl
        refine ⟨⟨hr.order, hr.low, hr.high, hr.nonzero, hr.body, fun _ _ => ?_⟩, le_rfl⟩
        change (c.readIdx : ℤ) < c.checkedIdx + c.contentLength
        omega

lemma parseLineLoop_keeps (n : ℕ) (c : ReadState) :
    (parseLineLoop n c).2.contentLength = c.contentLength ∧ (parseLineLoop n c).2.url = c.url := by
  induction n generalizing c with
  | zero => exact ⟨rfl, rfl⟩
  | succ n ih =>
    simp only [parseLineLoop]
    split_ifs
    · exact ⟨rfl, rfl⟩
    · exact ⟨rfl, rfl⟩
    · exact ⟨rfl, rfl⟩
    · exact ⟨rfl, rfl⟩
    · exact ⟨rfl, rfl⟩
    · exact ih _

lemma Receiving.parseLine (h : Receiving s) (hs : ¬ (s.2.checkState = .content ∧ s.1 = .ok)) :
    Receiving (.ok, (parseLine s.2).2) := by
  obtain ⟨ha, -⟩ := parseLine_advances h.order.checked
  have hl : (Http.parseLine s.2).2.contentLength = s.2.contentLength := (parseLineLoop_keeps _ _).1
  have hfit := h.order.fit
  refine ⟨⟨?_, ?_, ?_⟩, ?_, ?_, ?_, ?_, fun _ hne => absurd rfl hne⟩
  · rw [ha.startLine]
    exact h.order.start.trans ha.forward
  · rw [ha.readIdx]
    exact ha.checked
  · rwa [ha.readIdx]
  · rw [hl]
    exact h.low
  · rw [hl]
    exact h.high
  · rw [hl, ha.checkState]
    exact h.nonzero
  · -- `parse_line` has run over an incomplete body and stops before its end
    intro hc
    rw [ha.checkState] at hc
    have hshort := h.short hc fun hok => hs ⟨hc, hok⟩
    have hb := ha.checked
    rw [ha.startLine, hl]
    exact .inr (lt_of_le_of_lt (Int.ofNat_le.mpr hb) hshort)

lemma readStep_onward (junk : ℕ → ℕ → HttpCode) (h : Receiving s) : Onward s.2 (readStep junk s) := by
  obtain ⟨ha, -⟩ := parseLine_advances h.order.checked
  have hforward := ha.forward
  have hi := readStep_iteration junk s
  generalize readStep junk s = r at hi ⊢
  cases hi with
  | body => exact switchState_onward junk ⟨h.order, h.low, h.high, h.nonzero, h.body, fun _ hne => absurd rfl hne⟩
  | @line e hs hq =>
    have hp := h.parseLine hs
    rw [hq] at hp hforward
    have ho := switchState_onward junk hp
    generalize switchState junk e = r at ho ⊢
    cases r with
    | inl t => exact ⟨ho.1, hforward.trans ho.2⟩
    | inr l => exact fun d hd => ⟨(ho d hd).1, hforward.trans (ho d hd).2⟩
  | wait hs hq =>
    have hp := h.parseLine hs
    rw [hq] at hp hforward
    rintro d rfl
    exact ⟨hp, hforward⟩

lemma Receiving.receive (h : Receiving (.ok, c)) {x : List UInt8} (hx : c.readIdx + x.length ≤ readBufferSize) :
    Receiving (.ok, c.receive x) where
  order := ⟨h.order.start, h.order.checked.trans (Nat.le_add_right _ _), hx⟩
  low := h.low
  high := h.high
  nonzero := h.nonzero
  body := h.body
  short _ hne := absurd rfl hne

lemma receiving_init (c₀ : ReadState) : Receiving (.ok, c₀.init) :=
  receiving_at_line (c := c₀.init) rfl rfl rfl ⟨le_rfl, le_rfl, Nat.zero_le _⟩ (show longMin ≤ 0 by decide)
    (show 0 ≤ longMax by decide) fun h => by cases h

lemma Reading.receiving {c₀ : ReadState} (h : Reading c₀ s) : Receiving s := by
  induction h with
  | start hx => exact (receiving_init c₀).receive ((Nat.zero_add _).trans_le hx)
  | @iterate junk s t _ hstep ih =>
    have ho := readStep_onward junk ih
    rw [hstep] at ho
    exact ho.1
  | @resume junk s l d x _ hstep hd hx ih =>
    have ho := readStep_onward junk ih
    rw [hstep] at ho
    exact (ho _ hd).1.receive hx

end Step

section Lines

def Local (c : ReadState) : Prop :=
  ∀ m : Memory, (∀ i < c.readIdx, m i = c.readBuf i) →
    parseLine { c with readBuf := m } =
      ((parseLine c).1, { (parseLine c).2 with
        readBuf := fun i => if i < c.readIdx then (parseLine c).2.readBuf i else m i })

lemma parseLineLoop_local {n : ℕ} {c : ReadState} (hn : n + c.checkedIdx ≤ c.readIdx) {m : Memory}
    (hm : ∀ i < c.readIdx, m i = c.readBuf i) :
    parseLineLoop n { c with readBuf := m } =
      ((parseLineLoop n c).1, { (parseLineLoop n c).2 with
        readBuf := fun i => if i < c.readIdx then (parseLineLoop n c).2.readBuf i else m i }) := by
  have hsame : m = fun i => if i < c.readIdx then c.readBuf i else m i := by
    funext i
    split_ifs with hi
    · exact hm i hi
    · rfl
  have hset (j k : ℕ) (hj : j < c.readIdx) (hk : k < c.readIdx) : (m.set j 0).set k 0 =
      fun i => if i < c.readIdx then ((c.readBuf.set j 0).set k 0) i else m i := by
    funext i
    by_cases hik : i = k
    · subst hik
      rw [set_self, if_pos hk, set_self]
    · rw [set_of_ne _ _ hik, set_of_ne _ _ hik]
      by_cases hij : i = j
      · subst hij
        rw [set_self, if_pos hj, set_self]
      · rw [set_of_ne _ _ hij, set_of_ne _ _ hij]
        exact congrFun hsame i
  induction n generalizing c with
  | zero => simp only [parseLineLoop, ← hsame]
  | succ n ih =>
    have hi : m c.checkedIdx = c.readBuf c.checkedIdx := hm _ (by omega)
    have hprev : m (c.checkedIdx - 1) = c.readBuf (c.checkedIdx - 1) := hm _ (by omega)
    simp only [parseLineLoop, hi, hprev]
    by_cases hcr : c.readBuf c.checkedIdx = cr
    · simp only [hcr, if_true]
      by_cases hlast : c.checkedIdx + 1 = c.readIdx
      · simp only [hlast, if_true, ← hsame]
      · have hnext : m (c.checkedIdx + 1) = c.readBuf (c.checkedIdx + 1) := hm _ (by omega)
        simp only [hlast, if_false, hnext]
        split_ifs
        · rw [hset _ _ (by omega) (by omega)]
        · rw [← hsame]
    · simp only [hcr, if_false]
      split_ifs
      · rw [hset _ _ (by omega) (by omega)]
      · rw [← hsame]
      · exact ih (c := { c with checkedIdx := c.checkedIdx + 1 }) (by dsimp only; omega) hm hsame hset

lemma InOrder.local {c : ReadState} (h : InOrder c) : Local c := by
  intro m hm
  exact parseLineLoop_local (Nat.sub_add_cancel h.checked).le hm

end Lines

theorem read_indices_in_order {c₀ : ReadState} {s : LineStatus × ReadState} (hs : Reading c₀ s) :
    InOrder s.2 ∧ InOrder (parseLine s.2).2 ∧ s.2.checkedIdx ≤ (parseLine s.2).2.checkedIdx ∧ Local s.2 ∧
      (∀ junk t, readStep junk s = .inl t → s.2.checkedIdx ≤ t.2.checkedIdx) ∧
      (∀ junk l d, readStep junk s = .inr l → l.After d → InOrder d ∧ s.2.checkedIdx ≤ d.checkedIdx) ∧
      ∀ junk, ∃ l, Loop.eval (readStep junk) (remaining s + 1) s = some l := by
  have hr := hs.receiving
  obtain ⟨ha, -⟩ := parseLine_advances hr.order.checked
  refine ⟨hr.order, ⟨?_, ?_, ?_⟩, ha.forward, hr.order.local, ?_, ?_, ?_⟩
  · rw [ha.startLine]
    exact hr.order.start.trans ha.forward
  · rw [ha.readIdx]
    exact ha.checked
  · rw [ha.readIdx]
    exact hr.order.fit
  · intro junk t hstep
    have ho := readStep_onward junk hr
    rw [hstep] at ho
    exact ho.2
  · intro junk l d hstep hd
    have ho := readStep_onward junk hr
    rw [hstep] at ho
    exact ⟨(ho d hd).1.order, (ho d hd).2⟩
  · intro junk
    exact Loop.eval_total InBuffer remaining readStep_progress hr.order.checked (Nat.lt_succ_self _)

theorem read_indices_of_split_get :
    InOrder ((default : ReadState).init.receive splitGet.flatten) ∧
      ∃ l, Loop.eval (readStep fun _ _ => .noRequest)
        (remaining (.ok, (default : ReadState).init.receive splitGet.flatten) + 1)
        (.ok, (default : ReadState).init.receive splitGet.flatten) = some l := by
  have hs : Reading default (.ok, (default : ReadState).init.receive splitGet.flatten) := .start (by decide)
  obtain ⟨horder, -, -, -, -, -, hend⟩ := read_indices_in_order hs
  exact ⟨horder, hend _⟩

def BodyCall (s : LineStatus × ReadState) (c : ReadState) : Prop :=
  c.checkState = .content ∧
    (s = (.ok, c) ∨ ¬ (s.2.checkState = .content ∧ s.1 = .ok) ∧ parseLine s.2 = (.ok, c))

def TerminatorInside (c : ReadState) : Prop :=
  longMin ≤ c.contentLength + c.checkedIdx ∧ c.contentLength + c.checkedIdx ≤ longMax ∧
    (c.contentLength + c.checkedIdx ≤ c.readIdx →
      (c.checkedIdx : ℤ) ≤ c.startLine + c.contentLength ∧ c.startLine + c.contentLength ≤ (readBufferSize : ℤ) - 1)

def LengthFits (c : ReadState) : Prop :=
  0 < c.contentLength ∧ c.contentLength ≤ longMax - c.checkedIdx ∧
    ¬ (c.startLine = c.checkedIdx ∧ c.readIdx = readBufferSize ∧
      c.contentLength = (readBufferSize : ℤ) - c.checkedIdx)

lemma BodyCall.receiving {s : LineStatus × ReadState} {c : ReadState} (hc : BodyCall s c) (h : Receiving s) :
    Receiving (.ok, c) := by
  rcases hc.2 with rfl | ⟨hs, hp⟩
  · exact h
  · have hr := h.parseLine hs
    rwa [hp] at hr

theorem body_terminator_iff {c₀ c : ReadState} {s : LineStatus × ReadState} (hs : Reading c₀ s)
    (hc : BodyCall s c) : TerminatorInside c ↔ LengthFits c := by
  have hr := hc.receiving hs.receiving
  have hn : c.contentLength ≠ 0 := hr.nonzero hc.1
  have hbody : c.startLine = c.checkedIdx ∨ (c.checkedIdx : ℤ) < c.startLine + c.contentLength := hr.body hc.1
  have hlow : longMin ≤ c.contentLength := hr.low
  obtain ⟨hstart, hchecked, hfit⟩ := hr.order
  simp only [TerminatorInside, LengthFits, readBufferSize, longMin] at *
  constructor
  · rintro ⟨-, hhigh, hin⟩
    have hpos : 0 < c.contentLength := by
      by_contra hneg
      have h := (hin (by omega)).1
      omega
    refine ⟨hpos, by omega, ?_⟩
    rintro ⟨hs, hread, hlen⟩
    have h := (hin (by omega)).2
    omega
  · rintro ⟨hpos, hhigh, hfill⟩
    refine ⟨by omega, by omega, fun hdone => ⟨by omega, ?_⟩⟩
    by_contra hout
    exact hfill ⟨by omega, by omega, by omega⟩

def iterate (junk : ℕ → ℕ → HttpCode) : ℕ → LineStatus × ReadState → Option (LineStatus × ReadState)
  | 0, s => some s
  | n + 1, s =>
    match readStep junk s with
    | .inl t => iterate junk n t
    | .inr _ => none

lemma Reading.iterates {c₀ : ReadState} {junk : ℕ → ℕ → HttpCode} {n : ℕ} {s t : LineStatus × ReadState}
    (hs : Reading c₀ s) (h : Http.iterate junk n s = some t) : Reading c₀ t := by
  induction n generalizing s with
  | zero =>
    cases h
    exact hs
  | succ n ih =>
    rw [Http.iterate] at h
    split at h
    · rename_i hstep
      exact ih (hs.iterate hstep) h
    · cases h

def posting (text : List Char) : LineStatus × ReadState :=
  (.ok, (default : ReadState).init.receive
    (ascii "POST / HTTP/1.1\r\nContent-length: ".toList ++ ascii text ++ ascii "\r\n\r\n".toList))

def figures (s : LineStatus × ReadState) : LineStatus × CheckState × ℤ × ℕ × ℕ × ℕ :=
  (s.1, s.2.checkState, s.2.contentLength, s.2.startLine, s.2.checkedIdx, s.2.readIdx)

lemma posting_call (text : List Char) (cl : ℤ) (n : ℕ) (hx : (posting text).2.readIdx ≤ readBufferSize)
    (h : (Http.iterate (fun _ _ => .noRequest) 3 (posting text)).map figures = some (.ok, .content, cl, n, n, n)) :
    ∃ s c, Reading default s ∧ BodyCall s c ∧ c.contentLength = cl ∧ c.startLine = n ∧ c.checkedIdx = n ∧
      c.readIdx = n := by
  obtain ⟨⟨status, c⟩, hs, hc⟩ := Option.map_eq_some_iff.mp h
  simp only [figures, Prod.mk.injEq] at hc
  obtain ⟨rfl, hstate, hlen⟩ := hc
  have hstart : Reading default (posting text) := .start ((Nat.zero_add _).ge.trans hx)
  exact ⟨_, c, hstart.iterates hs, ⟨hstate, .inl rfl⟩, hlen⟩

theorem body_terminator_five : ∃ s c, Reading default s ∧ BodyCall s c ∧ c.contentLength = 5 ∧ TerminatorInside c := by
  obtain ⟨s, c, hs, hc, hlen, hstart, hchecked, hread⟩ :=
    posting_call ['5'] 5 38 (by decide +kernel) (by decide +kernel)
  refine ⟨s, c, hs, hc, hlen, (body_terminator_iff hs hc).mpr ?_⟩
  simp [LengthFits, hlen, hstart, hchecked, hread, longMax, readBufferSize]

theorem body_terminator_before_body :
    ∃ s c, Reading default s ∧ BodyCall s c ∧ c.contentLength = -5 ∧ ¬ TerminatorInside c := by
  obtain ⟨s, c, hs, hc, hlen, hstart, hchecked, hread⟩ :=
    posting_call ['-', '5'] (-5) 39 (by decide +kernel) (by decide +kernel)
  refine ⟨s, c, hs, hc, hlen, ?_⟩
  simp [TerminatorInside, hlen, hstart, hchecked, hread, longMax, longMin, readBufferSize]

section Lined

variable {junk : ℕ → ℕ → HttpCode} {s : LineStatus × ReadState} {c d : ReadState}

def Outcome (P : ReadState → Prop) : (LineStatus × ReadState) ⊕ Leave → Prop
  | .inl t => P t.2
  | .inr l => ∀ d, l.After d → P d

structure Lined (c : ReadState) : Prop where
  heading : c.checkState = .requestLine → Heading c
  url : c.checkState ≠ .requestLine → ∀ u, c.url = some u → u + 12 ≤ c.startLine

lemma lined_later (h : ∀ u, c.url = some u → u + 12 ≤ c.startLine) (hp : d.checkState ≠ .requestLine)
    (hu : d.url = c.url) (hs : c.startLine ≤ d.startLine) : Lined d where
  heading he := absurd he hp
  url _ u hd := (h u (hu.symm.trans hd)).trans hs

lemma switchState_later (hp : c.checkState ≠ .requestLine) (h : ∀ u, c.url = some u → u + 12 ≤ c.startLine)
    (horder : c.startLine ≤ c.checkedIdx) : Outcome Lined (switchState junk c) := by
  cases hc : c.checkState with
  | requestLine => exact absurd hc hp
  | header =>
    obtain ⟨hstart, hu, hphase⟩ := parseHeaders_taken c.takeLine c.startLine
    have hs : c.startLine ≤ (parseHeaders c.takeLine c.startLine).2.startLine := horder.trans hstart.ge
    have hne : (parseHeaders c.takeLine c.startLine).2.checkState ≠ .requestLine := by
      rcases hphase with ⟨hcont, -⟩ | ⟨hsame, -⟩
      · rw [hcont]
        decide
      · rw [hsame]
        exact hp
    simp only [switchState, hc, onHeaders]
    split_ifs
    · rintro d rfl
      exact lined_later h hne hu hs
    · rintro d ⟨m, rfl⟩
      exact lined_later h hne hu hs
    · exact lined_later h hne hu hs
  | content =>
    rw [switchState_body hc]
    split_ifs
    · exact fun d hd => hd.elim
    · rintro d ⟨m, rfl⟩
      exact lined_later h hp rfl horder
    · exact fun d hd => hd.elim
    · simp only [missingReturn]
      split_ifs
      · rintro d ⟨m, rfl⟩
        exact lined_later h hp rfl horder
      · exact lined_later h hp rfl horder

lemma Split.lined {z : ℕ} (h : Split c z) (hp : c.checkState = .requestLine) : Outcome Lined (switchState junk c) := by
  simp only [switchState, hp]
  cases hq : parseRequestLine c.takeLine c.startLine with
  | none => exact fun d hd => hd.elim
  | some r =>
    have hk := parseRequestLine_keeps hq
    have hedits := h.request_edits hq
    have hl : Lined r.2 := by
      refine ⟨fun hs => h.heading hedits (by rw [hs]; decide), fun hne u hu => ?_⟩
      have hcode : r.1 ≠ .badRequest := by
        intro hbad
        rcases hk.phase with ⟨-, hsame⟩ | ⟨hcode, -⟩
        · exact hne (hsame.trans hp)
        · rw [hbad] at hcode
          cases hcode
      have hroom := h.room
      have hlt : z < readBufferSize := by have := h.fit; omega
      have hlen : c.startLine + (str readBufferSize c.readBuf c.startLine).length ≤ z :=
        str_length_le h.start hlt h.nul
      rcases parseRequestLine_cases (c := c.takeLine) rfl (hlen.trans_lt hlt) with
        ⟨-, hnone⟩ | ⟨-, r', hr', ⟨-, hbad⟩ | ⟨method, path, hline, ha⟩⟩
      · cases hq.symm.trans hnone
      · obtain rfl := Option.some.inj (hq.symm.trans hr')
        exact absurd hbad hcode
      · obtain rfl := Option.some.inj (hq.symm.trans hr')
        obtain ⟨u', hu', -, hend, -⟩ := ha.url
        obtain rfl := Option.some.inj (hu.symm.trans hu')
        have hpos : path.length ≠ 0 := by
          intro h0
          have hhead := (requestLine_iff.mp hline).2.1
          rw [List.length_eq_zero_iff.mp h0] at hhead
          cases hhead
        have hend' : u + path.length + 9 ≤ z := hend.trans hlen
        have hs : r.2.startLine = z + 2 := hk.startLine.trans h.checked
        omega
    simp only [onRequestLine]
    split_ifs
    · rintro d rfl
      exact hl
    · exact hl

lemma Heading.lined (h : Heading s.2) (hp : s.2.checkState = .requestLine) : Outcome Lined (readStep junk s) := by
  have hi := readStep_iteration junk s
  generalize readStep junk s = r at hi ⊢
  cases hi with
  | body hc => exact absurd hc.1 h.phase
  | line _ hq =>
    have hscan := parseLine_scan h.scanning
    rw [hq] at hscan
    cases hscan with
    | line hl hk => exact (h.split hl hk).lined hp
  | wait _ hq hok =>
    obtain ⟨k, hl, hk, hpl, rfl⟩ := parseLine_pending h.scanning hq hok
    have hd : Heading (s.2.seek k) := by
      refine ⟨⟨h.scanning.start.trans hl, hk, fun i hi hik => ?_, h.scanning.before⟩, h.fit, h.phase, h.url⟩
      by_cases hc : i < s.2.checkedIdx
      · exact h.scanning.plain i hi hc
      · exact hpl i (not_lt.mp hc) hik
    rintro d rfl
    exact ⟨fun _ => hd, fun hne => absurd hp hne⟩

lemma readStep_lined (junk : ℕ → ℕ → HttpCode) (h : Lined s.2) (hr : Receiving s) :
    Outcome Lined (readStep junk s) := by
  by_cases hp : s.2.checkState = .requestLine
  · exact (h.heading hp).lined hp
  · obtain ⟨ha, -⟩ := parseLine_advances hr.order.checked
    have hu : (parseLine s.2).2.url = s.2.url := (parseLineLoop_keeps _ _).2
    have hstart := h.url hp
    have hne : (parseLine s.2).2.checkState ≠ .requestLine := fun he => hp (ha.checkState.symm.trans he)
    have hsame : s.2.startLine = (parseLine s.2).2.startLine := ha.startLine.symm
    have horder : (parseLine s.2).2.startLine ≤ (parseLine s.2).2.checkedIdx :=
      hsame.ge.trans (hr.order.start.trans ha.forward)
    have hi := readStep_iteration junk s
    generalize readStep junk s = r at hi ⊢
    cases hi with
    | body => exact switchState_later hp hstart hr.order.start
    | line _ hq =>
      rw [hq] at hu hne hsame horder
      exact switchState_later hne (fun u he => (hstart u (hu.symm.trans he)).trans hsame.le) horder
    | wait _ hq =>
      rw [hq] at hu hne hsame
      rintro d rfl
      exact lined_later hstart hne hu hsame.le

lemma Reading.lined {c₀ : ReadState} (h : Reading c₀ s) : Lined s.2 := by
  induction h with
  | start hx =>
    exact ⟨fun _ => (heading_init c₀).receive ((Nat.zero_add _).trans_le hx), fun hne => absurd rfl hne⟩
  | @iterate junk s t hs hstep ih =>
    have ho := readStep_lined junk ih hs.receiving
    rw [hstep] at ho
    exact ho
  | @resume junk s l d x hs hstep hd hx ih =>
    have ho := readStep_lined junk ih hs.receiving
    rw [hstep] at ho
    exact ⟨fun hp => ((ho d hd).heading hp).receive hx, (ho d hd).url⟩

lemma switchState_delivers (h : switchState junk c = .inr (.doRequest .content d)) :
    c.checkState = .content ∧ d = deliver c := by
  cases hp : c.checkState with
  | requestLine =>
    simp only [switchState, hp] at h
    cases hq : parseRequestLine c.takeLine c.startLine <;> simp only [hq, onRequestLine] at h
    · cases h
    · split_ifs at h
      cases h
  | header =>
    simp only [switchState, hp, onHeaders] at h
    split_ifs at h
    · cases h
    · cases h
  | content =>
    rw [switchState_body hp] at h
    split_ifs at h
    · cases h
    · cases h
      exact ⟨rfl, rfl⟩
    · cases h
    · simp only [missingReturn] at h
      split_ifs at h
      · cases h

lemma readStep_delivers (h : readStep junk s = .inr (.doRequest .content d)) : ∃ c, BodyCall s c ∧ d = deliver c := by
  have hi := readStep_iteration junk s
  rw [h] at hi
  generalize hr : (Sum.inr (.doRequest .content d) : (LineStatus × ReadState) ⊕ Leave) = r at hi
  cases hi with
  | body hs =>
    obtain ⟨hc, rfl⟩ := switchState_delivers hr.symm
    exact ⟨s.2, ⟨hc, .inl (Prod.ext hs.2 rfl)⟩, rfl⟩
  | @line e hs hq =>
    obtain ⟨hc, rfl⟩ := switchState_delivers hr.symm
    exact ⟨e, ⟨hc, .inr ⟨hs, hq⟩⟩, rfl⟩
  | wait => cases hr

lemma Reading.url_before_body {c₀ : ReadState} {u b : ℕ} (hs : Reading c₀ s)
    (h : readStep junk s = .inr (.doRequest .content d)) (hu : d.url = some u) (hb : d.string = some b) :
    u + 12 ≤ b := by
  obtain ⟨c, hc, rfl⟩ := readStep_delivers h
  cases hb
  have hp : c.checkState ≠ .requestLine := by
    rw [hc.1]
    decide
  rcases hc.2 with rfl | ⟨-, hq⟩
  · exact hs.lined.url hp u hu
  · obtain ⟨ha, -⟩ := parseLine_advances hs.receiving.order.checked
    have hsame : (parseLine s.2).2.url = s.2.url := (parseLineLoop_keeps _ _).2
    rw [hq] at ha hsame
    have hurl := hs.lined.url (fun he => hp (ha.checkState.trans he)) u (hsame.symm.trans hu)
    exact hurl.trans ha.startLine.ge

end Lined

theorem default_page_within_line {c₀ e d : ReadState} {s : LineStatus × ReadState} {code : HttpCode}
    {method : Method} (hs : Reading c₀ s) (hp : s.2.checkState = .requestLine) (he : parseLine s.2 = (.ok, e))
    (hline : RequestLine (str readBufferSize e.readBuf e.startLine) method [slash])
    (hd : parseRequestLine e.takeLine e.startLine = some (code, d)) :
    ∃ u, d.url = some u ∧ e.startLine ≤ u ∧ u + 1 + 11 ≤ e.checkedIdx ∧ e.checkedIdx ≤ readBufferSize ∧
      str readBufferSize d.readBuf u = withDefault [slash] ∧
      Within e.startLine e.checkedIdx s.2.readBuf d.readBuf := by
  have hh := hs.lined.heading hp
  have hscan := parseLine_scan hh.scanning
  rw [he] at hscan
  cases hscan with
  | @line k hl hk hplain hcr hlf =>
    have hsplit := hh.split hl hk
    have hstart := hsplit.start
    have hfit := hsplit.fit
    have hroom := hsplit.room
    have hlt : k < readBufferSize := by omega
    have hlen := str_length_le hstart hlt hsplit.nul
    obtain ⟨u, hurl, hle, hend, hstr⟩ := (parseRequestLine_accepted (c := (endLine s.2 k).takeLine) rfl
      (hlen.trans_lt hlt) hline hd).url
    have hcut : Within s.2.startLine (k + 2) s.2.readBuf (endLine s.2 k).readBuf :=
      (within_set _ _ (hstart) (by omega)).trans (within_set _ _ (Nat.le_succ_of_le hstart) (by omega))
    have hwithin := parseRequestLine_within (c := (endLine s.2 k).takeLine) hstart hlt hsplit.nul hd
    have hlast : u + [slash].length + 9 ≤ k := hend.trans hlen
    refine ⟨u, hurl, hle, ?_, ?_, hstr, hcut.trans hwithin⟩
    · change u + 1 + 11 ≤ k + 2
      rw [List.length_singleton] at hlast
      omega
    · change k + 2 ≤ readBufferSize
      omega

theorem default_page_within_shortest_line : ∃ (e d : ReadState) (u : ℕ),
    parseLine (lineOf "GET / HTTP/1.1\r\n".toList) = (.ok, e) ∧ d.url = some u ∧ u + 1 + 11 ≤ e.checkedIdx ∧
      Within e.startLine e.checkedIdx (lineOf "GET / HTTP/1.1\r\n".toList).readBuf d.readBuf := by
  have hs : Reading default (.ok, lineOf "GET / HTTP/1.1\r\n".toList) := .start (by decide)
  have he : parseLine (lineOf "GET / HTTP/1.1\r\n".toList) =
      (.ok, (parseLine (lineOf "GET / HTTP/1.1\r\n".toList)).2) := Prod.ext (by decide +kernel) rfl
  generalize hq : (parseLine (lineOf "GET / HTTP/1.1\r\n".toList)).2 = e at he
  have hline : RequestLine (str readBufferSize e.readBuf e.startLine) .get [slash] := by
    refine requestLine_iff.mpr ⟨⟨?_, ?_, ?_⟩, ?_⟩
    all_goals
      rw [← hq]
      decide +kernel
  obtain ⟨⟨code, d⟩, hd⟩ : ∃ r, parseRequestLine e.takeLine e.startLine = some r := by
    rw [← Option.isSome_iff_exists, ← hq]
    decide +kernel
  obtain ⟨u, hurl, -, hroom, -, -, hwithin⟩ := default_page_within_line hs rfl he hline hd
  exact ⟨e, d, u, he, hurl, hroom, hwithin⟩

end OceanServer.Http
