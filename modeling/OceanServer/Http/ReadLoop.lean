import OceanServer.Http.Incremental

/-! The loop of `process_read` ends: a whole line moves `m_checked_idx` forward, and an incomplete
body is looked at once before the next line. -/

namespace OceanServer.Http

open Library Library.CString

def SameIndices (c d : ReadState) : Prop := d.readIdx = c.readIdx ∧ d.checkedIdx = c.checkedIdx

structure Keeps (c : ReadState) (r : HttpCode × ReadState) : Prop where
  readIdx : r.2.readIdx = c.readIdx
  checkedIdx : r.2.checkedIdx = c.checkedIdx
  startLine : r.2.startLine = c.startLine
  contentLength : r.2.contentLength = c.contentLength
  phase : r.1 = .badRequest ∧ r.2.checkState = c.checkState ∨ r.1 = .noRequest ∧ r.2.checkState = .header

lemma judgePage_keeps (c : ReadState) (url : ℕ) : Keeps c (judgePage c url) := by
  simp only [judgePage]
  split_ifs
  · exact ⟨rfl, rfl, rfl, rfl, .inl ⟨rfl, rfl⟩⟩
  · exact ⟨rfl, rfl, rfl, rfl, .inr ⟨rfl, rfl⟩⟩
  · exact ⟨rfl, rfl, rfl, rfl, .inr ⟨rfl, rfl⟩⟩

lemma stripHttps_keeps (c : ReadState) (url : ℕ) : Keeps c (stripHttps c url) := by
  simp only [stripHttps]
  split_ifs
  · split
    · exact ⟨rfl, rfl, rfl, rfl, .inl ⟨rfl, rfl⟩⟩
    · exact judgePage_keeps c _
  · exact judgePage_keeps c url

lemma stripHttp_keeps {c : ReadState} {url : ℕ} {r : HttpCode × ReadState} (h : stripHttp c url = some r) :
    Keeps c r := by
  simp only [stripHttp] at h
  split_ifs at h
  · obtain ⟨u, -, rfl⟩ := Option.map_eq_some_iff.mp h
    exact stripHttps_keeps c u
  · cases h
    exact stripHttps_keeps c url

lemma parseVersion_keeps {c : ReadState} {url : ℕ} {r : HttpCode × ReadState} (h : parseVersion c url = some r) :
    Keeps c r := by
  simp only [parseVersion] at h
  split at h
  · cases h
    exact ⟨rfl, rfl, rfl, rfl, .inl ⟨rfl, rfl⟩⟩
  · split_ifs at h
    · obtain ⟨hr, hc, hs, hl, hp⟩ := stripHttp_keeps h
      exact ⟨hr, hc, hs, hl, hp⟩
    · cases h
      exact ⟨rfl, rfl, rfl, rfl, .inl ⟨rfl, rfl⟩⟩

lemma parseRequestLine_keeps {c : ReadState} {text : ℕ} {r : HttpCode × ReadState}
    (h : parseRequestLine c text = some r) : Keeps c r := by
  simp only [parseRequestLine] at h
  split at h
  · cases h
    exact ⟨rfl, rfl, rfl, rfl, .inl ⟨rfl, rfl⟩⟩
  · split_ifs at h
    · obtain ⟨hr, hc, hs, hl, hp⟩ := parseVersion_keeps h
      exact ⟨hr, hc, hs, hl, hp⟩
    · obtain ⟨hr, hc, hs, hl, hp⟩ := parseVersion_keeps h
      exact ⟨hr, hc, hs, hl, hp⟩
    · cases h
      exact ⟨rfl, rfl, rfl, rfl, .inl ⟨rfl, rfl⟩⟩

lemma parseRequestLine_indices {c d : ReadState} {text : ℕ} {code : HttpCode}
    (h : parseRequestLine c text = some (code, d)) : SameIndices c d :=
  ⟨(parseRequestLine_keeps h).readIdx, (parseRequestLine_keeps h).checkedIdx⟩

lemma parseHeaders_indices (c : ReadState) (text : ℕ) : SameIndices c (parseHeaders c text).2 := by
  simp only [parseHeaders]
  split_ifs <;> exact ⟨rfl, rfl⟩

lemma parseContent_indices {c d : ReadState} {text : ℕ} {code : Option HttpCode}
    (h : parseContent c text = some (code, d)) : SameIndices c d := by
  simp only [parseContent] at h
  split_ifs at h <;> cases h <;> exact ⟨rfl, rfl⟩

lemma switchState_indices {junk : ℕ → ℕ → HttpCode} {c d : ReadState} {status : LineStatus}
    (h : switchState junk c = .inl (status, d)) : SameIndices c d := by
  simp only [switchState] at h
  split at h
  · cases hq : parseRequestLine c.takeLine c.startLine with
    | none => simp [hq, onRequestLine] at h
    | some r =>
      simp only [hq, onRequestLine] at h
      split_ifs at h
      cases h
      exact parseRequestLine_indices (c := c.takeLine) hq
  · simp only [onHeaders] at h
    split_ifs at h
    cases h
    exact parseHeaders_indices c.takeLine c.startLine
  · rcases hq : parseContent c.takeLine c.startLine with - | ⟨code, e⟩
    · simp [hq, onContent] at h
    · have hi := parseContent_indices (c := c.takeLine) hq
      cases code <;> simp only [hq, onContent] at h <;> split_ifs at h <;> cases h <;> exact hi

structure Advances (c d : ReadState) : Prop where
  readIdx : d.readIdx = c.readIdx
  startLine : d.startLine = c.startLine
  checkState : d.checkState = c.checkState
  forward : c.checkedIdx ≤ d.checkedIdx
  checked : d.checkedIdx ≤ c.readIdx

lemma parseLineLoop_advances {n : ℕ} {c : ReadState} (hc : c.checkedIdx ≤ c.readIdx)
    (hn : n ≤ c.readIdx - c.checkedIdx) :
    Advances c (parseLineLoop n c).2 ∧
      ((parseLineLoop n c).1 = .ok → c.checkedIdx < (parseLineLoop n c).2.checkedIdx) := by
  induction n generalizing c with
  | zero => exact ⟨⟨rfl, rfl, rfl, le_rfl, hc⟩, by simp [parseLineLoop]⟩
  | succ n ih =>
    have hstay : Advances c c := ⟨rfl, rfl, rfl, le_rfl, hc⟩
    simp only [parseLineLoop]
    split_ifs with hcr hlast hlf hlf' hprev
    · exact ⟨hstay, by simp⟩
    · exact ⟨⟨rfl, rfl, rfl, Nat.le_add_right _ 2, by dsimp only; omega⟩, fun _ => by dsimp only; omega⟩
    · exact ⟨hstay, by simp⟩
    · exact ⟨⟨rfl, rfl, rfl, Nat.le_add_right _ 1, by dsimp only; omega⟩, fun _ => by dsimp only; omega⟩
    · exact ⟨hstay, by simp⟩
    · obtain ⟨ha, hok⟩ := ih (c := { c with checkedIdx := c.checkedIdx + 1 })
        (by dsimp only; omega) (by dsimp only; omega)
      have hf := ha.forward
      have hb := ha.checked
      dsimp only at hf hb
      exact ⟨⟨ha.readIdx, ha.startLine, ha.checkState, by omega, hb⟩, fun h => by omega⟩

lemma parseLine_advances {c : ReadState} (hc : c.checkedIdx ≤ c.readIdx) :
    Advances c (parseLine c).2 ∧ ((parseLine c).1 = .ok → c.checkedIdx < (parseLine c).2.checkedIdx) :=
  parseLineLoop_advances hc le_rfl

inductive Iteration (junk : ℕ → ℕ → HttpCode) (s : LineStatus × ReadState) : (LineStatus × ReadState) ⊕ Leave → Prop
  | body : s.2.checkState = .content ∧ s.1 = .ok → Iteration junk s (switchState junk s.2)
  | line {e} : ¬ (s.2.checkState = .content ∧ s.1 = .ok) → parseLine s.2 = (.ok, e) →
      Iteration junk s (switchState junk e)
  | wait {status e} : ¬ (s.2.checkState = .content ∧ s.1 = .ok) → parseLine s.2 = (status, e) → status ≠ .ok →
      Iteration junk s (.inr (.returned .noRequest e))

lemma readStep_iteration (junk : ℕ → ℕ → HttpCode) (s : LineStatus × ReadState) :
    Iteration junk s (readStep junk s) := by
  rw [readStep]
  split_ifs with hs
  · exact .body hs
  · rcases hp : parseLine s.2 with ⟨status, e⟩
    cases status with
    | ok => exact .line hs hp
    | bad => exact .wait hs hp (by decide)
    | «open» => exact .wait hs hp (by decide)

section Termination

variable {junk : ℕ → ℕ → HttpCode}

def InBuffer (s : LineStatus × ReadState) : Prop := s.2.checkedIdx ≤ s.2.readIdx

/-- Twice the bytes not yet looked at, and one more where the next iteration need not take a line. -/
def remaining (s : LineStatus × ReadState) : ℕ :=
  2 * (s.2.readIdx - s.2.checkedIdx) + if s.1 = .ok then 1 else 0

lemma switchState_content {c d : ReadState} {status : LineStatus} (hc : c.checkState = .content)
    (h : switchState junk c = .inl (status, d)) : status = .open := by
  simp only [switchState, hc] at h
  rcases hq : parseContent c.takeLine c.startLine with - | ⟨code, e⟩
  · simp [hq, onContent] at h
  · cases code <;> simp only [hq, onContent] at h <;> split_ifs at h <;> cases h <;> rfl

lemma readStep_progress (s t : LineStatus × ReadState) (hs : InBuffer s)
    (h : readStep junk s = .inl t) : InBuffer t ∧ remaining t < remaining s := by
  obtain ⟨status, c⟩ := s
  obtain ⟨status', d⟩ := t
  simp only [InBuffer] at hs ⊢
  have hi := readStep_iteration junk (status, c)
  rw [h] at hi
  generalize hr : (Sum.inl (status', d) : (LineStatus × ReadState) ⊕ Leave) = r at hi
  cases hi with
  | body hc =>
    obtain ⟨hread, hchecked⟩ := switchState_indices hr.symm
    obtain rfl := switchState_content hc.1 hr.symm
    obtain rfl : status = .ok := hc.2
    simp [remaining, hread, hchecked, hs]
  | @line e _ hp =>
    obtain ⟨ha, hlt⟩ := parseLine_advances hs
    rw [hp] at ha hlt
    obtain ⟨hr, hi⟩ := switchState_indices (c := e) hr.symm
    have hadv := hlt rfl
    have hread := ha.readIdx
    have hbound := ha.checked
    dsimp only at hadv hread hbound
    have hle : remaining (status', d) ≤ 2 * (d.readIdx - d.checkedIdx) + 1 := by
      simp only [remaining]
      split_ifs <;> omega
    have hge : 2 * (c.readIdx - c.checkedIdx) ≤ remaining (status, c) := Nat.le_add_right _ _
    exact ⟨by omega, by omega⟩
  | wait => cases hr

lemma processRead_iff {c : ReadState} {l : Leave} (h : c.checkedIdx ≤ c.readIdx) :
    processRead junk c = some l ↔ Loop.Exits (readStep junk) (.ok, c) l :=
  ⟨Loop.exits_of_eval,
    Loop.eval_of_exits InBuffer remaining readStep_progress h (by simp [remaining, iterations])⟩

end Termination

section HeaderPhase

variable {junk : ℕ → ℕ → HttpCode} {c d : ReadState} {r : HeaderEnd}

def GoesOn (junk : ℕ → ℕ → HttpCode) (c : ReadState) : HeaderEnd → Prop
  | .waiting d => Loop.Exits (readStep junk) (.ok, c) (.returned .noRequest d)
  | .left (.returned code) d => Loop.Exits (readStep junk) (.ok, c) (.returned code d)
  | .left .doRequest d => Loop.Exits (readStep junk) (.ok, c) (.doRequest .headers d)
  | .left .content d =>
    ∀ l, Loop.Exits (readStep junk) (.ok, c) l ↔ Loop.Exits (readStep junk) (.ok, d) l
  | .fault => Loop.Exits (readStep junk) (.ok, c) .fault

lemma readStep_heading (junk : ℕ → ℕ → HttpCode) (h : Heading c) :
    Follows (fun _ => True) (readStep junk (.ok, c)) ∨
      ∃ d, readStep junk (.ok, c) = .inr (.returned .noRequest d) := by
  rw [readStep_header junk h.phase]
  have hsc := parseLine_scan h.scanning
  generalize parseLine c = p at hsc
  cases hsc with
  | line hl hk => exact .inl ((switchState_follows junk (h.split hl hk)).mono fun _ _ => trivial)
  | wait | stray => exact .inr ⟨_, rfl⟩

lemma GoesOn.next (hs : readStep junk (.ok, c) = .inl (.ok, d)) (h : GoesOn junk d r) :
    GoesOn junk c r := by
  have hn : ∀ l, Loop.Exits (readStep junk) (.ok, c) l ↔ Loop.Exits (readStep junk) (.ok, d) l :=
    fun _ => Loop.exits_next hs
  rcases r with e | ⟨⟨code⟩ | - | -, e⟩ | -
  · exact (hn _).mpr h
  · exact (hn _).mpr h
  · exact (hn _).mpr h
  · exact fun l => (hn l).trans (h l)
  · exact (hn _).mpr h

lemma exits_header (h : Heading c) (he : Loop.Exits (headerStep junk) c r) : GoesOn junk c r := by
  induction he with
  | @stop c r hs =>
    simp only [headerStep] at hs
    rcases readStep_heading junk h with hf | ⟨d, hd⟩
    · generalize hq : readStep junk (.ok, c) = q at hs hf
      cases hf with
      | again =>
        simp only [headerResult] at hs
        split_ifs at hs
        cases hs
        exact fun _ => Loop.exits_next hq
      | bad | request | fault =>
        cases hs
        exact .stop hq
    · rw [hd] at hs
      cases hs
      exact .stop hd
  | @next c d r hs _ ih =>
    have hd := ih (h.next hs).1
    simp only [headerStep] at hs
    rcases readStep_heading junk h with hf | ⟨e, he⟩
    · generalize hq : readStep junk (.ok, c) = q at hs hf
      cases hf with
      | again =>
        simp only [headerResult] at hs
        split_ifs at hs
        cases hs
        exact hd.next hq
      | bad | request | fault => cases hs
    · rw [he] at hs
      cases hs

end HeaderPhase

end OceanServer.Http
