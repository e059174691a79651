import OceanServer.Http.RequestHead

/-! The header phase of a request ends in the same way however its bytes are cut into chunks. -/

namespace OceanServer.Http

open Library Library.CString

inductive Verdict where
  | returned (code : HttpCode) | doRequest | content
  deriving DecidableEq, Repr

inductive HeaderEnd where
  | waiting (c : ReadState)
  | left (verdict : Verdict) (c : ReadState)
  | fault

def headerResult : (LineStatus × ReadState) ⊕ Leave → ReadState ⊕ HeaderEnd
  | .inl (_, d) => if d.checkState = .content then .inr (.left .content d) else .inl d
  | .inr (.returned .noRequest d) => .inr (.waiting d)
  | .inr (.returned code d) => .inr (.left (.returned code) d)
  | .inr (.doRequest _ d) => .inr (.left .doRequest d)
  | .inr .fault => .inr .fault

def headerStep (junk : ℕ → ℕ → HttpCode) (c : ReadState) : ReadState ⊕ HeaderEnd :=
  headerResult (readStep junk (.ok, c))

def headerPhase (junk : ℕ → ℕ → HttpCode) (c : ReadState) : Option HeaderEnd :=
  Loop.eval (headerStep junk) (iterations c) c

def feed (junk : ℕ → ℕ → HttpCode) : ReadState → List (List UInt8) → Option HeaderEnd
  | c, [] => some (.waiting c)
  | c, x :: xs =>
    match headerPhase junk (c.receive x) with
    | some (.waiting d) => feed junk d xs
    | r => r

structure HeaderReport where
  verdict : Verdict
  method : Method
  cgi : ℕ
  url : Option (List UInt8)
  contentLength : ℤ
  linger : Bool
  headerEnd : ℕ
  deriving DecidableEq

inductive Report where
  | waiting
  | left (report : HeaderReport)
  | fault
  deriving DecidableEq

def HeaderEnd.report : HeaderEnd → Report
  | .waiting _ => .waiting
  | .left verdict c => .left
      { verdict, method := c.method, cgi := c.cgi, url := c.url.map (str readBufferSize c.readBuf)
        contentLength := c.contentLength, linger := c.linger, headerEnd := c.checkedIdx }
  | .fault => .fault

def Leave.later (ys : List UInt8) : Leave → Leave
  | .returned code c => .returned code (c.receive ys)
  | .doRequest origin c => .doRequest origin (c.receive ys)
  | .fault => .fault

def HeaderEnd.later (ys : List UInt8) : HeaderEnd → HeaderEnd
  | .waiting c => .waiting (c.receive ys)
  | .left verdict c => .left verdict (c.receive ys)
  | .fault => .fault

def UrlEnds (c : ReadState) : Prop :=
  ∀ u, c.url = some u → ∃ w, u ≤ w ∧ w < c.readIdx ∧ c.readBuf w = 0

structure Heading (c : ReadState) : Prop where
  scanning : Scanning c
  fit : c.readIdx ≤ readBufferSize
  phase : c.checkState ≠ .content
  url : UrlEnds c

structure Split (c : ReadState) (z : ℕ) : Prop where
  start : c.startLine ≤ z
  checked : c.checkedIdx = z + 2
  room : z + 1 < c.readIdx
  fit : c.readIdx ≤ readBufferSize
  nul : c.readBuf z = 0
  nul' : c.readBuf (z + 1) = 0
  phase : c.checkState ≠ .content
  url : UrlEnds c

lemma Heading.split {c : ReadState} (h : Heading c) {k : ℕ} (hl : c.checkedIdx ≤ k)
    (hk : k + 1 < c.readIdx) : Split (endLine c k) k where
  start := h.scanning.start.trans hl
  checked := rfl
  room := hk
  fit := h.fit
  nul := by
    change ((c.readBuf.set k 0).set (k + 1) 0) k = 0
    rw [set_of_ne _ _ (by omega), set_self]
  nul' := set_self _ _ _
  phase := h.phase
  url u hu := by
    obtain ⟨w, huw, hw, h0⟩ := h.url u hu
    exact ⟨w, huw, hw, set_of_eq (set_of_eq h0)⟩

lemma Split.heading {c d : ReadState} {z : ℕ} (h : Split c z)
    (he : Edits c.readIdx c.takeLine d) (hp : d.checkState ≠ .content) :
    Heading d where
  scanning := by
    refine ⟨?_, ?_, ?_, Or.inr ?_⟩
    · rw [he.startLine, he.checkedIdx]
      exact le_rfl
    · rw [he.checkedIdx, he.readIdx]
      change c.checkedIdx ≤ c.readIdx
      rw [h.checked]
      exact h.room
    · intro i hl hh
      rw [he.startLine] at hl
      rw [he.checkedIdx] at hh
      exact absurd hl (not_le.mpr hh)
    · rw [he.startLine]
      apply he.noCr
      change c.readBuf (c.checkedIdx - 1) ≠ cr
      rw [h.checked, show z + 2 - 1 = z + 1 from rfl, h.nul']
      decide
  fit := he.readIdx.trans_le h.fit
  phase := hp
  url u hu := by
    rw [he.readIdx]
    exact he.url u hu

lemma Split.request_edits {c d : ReadState} {code : HttpCode} {z : ℕ} (h : Split c z)
    (hd : parseRequestLine c.takeLine c.startLine = some (code, d)) : Edits c.readIdx c.takeLine d := by
  have hlt : z < readBufferSize := by have := h.room; have := h.fit; omega
  exact (parseRequestLine_edits (c := c.takeLine) h.start hlt h.nul hd).weaken
    rfl rfl rfl (fun _ hi => hi) h.room

section Step

variable (junk : ℕ → ℕ → HttpCode)

lemma readStep_header {c : ReadState} (hp : c.checkState ≠ .content) :
    readStep junk (.ok, c) = onLine junk (parseLine c) := by
  simp only [readStep, hp, false_and, if_false]

lemma onRequestLine_later (ys : List UInt8) (r : Option (HttpCode × ReadState)) :
    onRequestLine (r.map (later ys)) =
      (onRequestLine r).map (Prod.map id (·.receive ys)) (Leave.later ys) := by
  rcases r with - | ⟨ret, c⟩
  · rfl
  · cases ret <;> rfl

lemma onHeaders_later (ys : List UInt8) (r : HttpCode × ReadState) :
    onHeaders (later ys r) = (onHeaders r).map (Prod.map id (·.receive ys)) (Leave.later ys) := by
  rcases r with ⟨ret, c⟩
  cases ret <;> rfl

lemma switchState_receive {c : ReadState} {z : ℕ} (h : Split c z) (ys : List UInt8) :
    switchState junk (c.receive ys) =
      (switchState junk c).map (Prod.map id (·.receive ys)) (Leave.later ys) := by
  have hst : (c.receive ys).checkState = c.checkState := rfl
  cases hs : c.checkState with
  | requestLine =>
    have hq := parseRequestLine_receive (c := c.takeLine) ys h.fit h.start h.nul h.room
    simp only [switchState, hst, hs, ← onRequestLine_later, ← hq]
    rfl
  | header =>
    have hh := parseHeaders_receive (c := c.takeLine) ys h.fit h.start h.nul h.nul' h.room
    simp only [switchState, hst, hs, ← onHeaders_later, ← hh]
    rfl
  | content => exact absurd hs h.phase

inductive Follows (P : ReadState → Prop) : (LineStatus × ReadState) ⊕ Leave → Prop
  | again {d} : P d → Follows P (.inl (.ok, d))
  | bad {d} : P d → Follows P (.inr (.returned .badRequest d))
  | request {d} : P d → Follows P (.inr (.doRequest .headers d))
  | fault : Follows P (.inr .fault)

lemma Follows.mono {P Q : ReadState → Prop} {q : (LineStatus × ReadState) ⊕ Leave} (h : Follows P q)
    (hpq : ∀ d, P d → Q d) : Follows Q q := by
  cases h with
  | again hp => exact .again (hpq _ hp)
  | bad hp => exact .bad (hpq _ hp)
  | request hp => exact .request (hpq _ hp)
  | fault => exact .fault

lemma switchState_follows {c : ReadState} {z : ℕ} (h : Split c z) :
    Follows (Edits c.readIdx c.takeLine) (switchState junk c) := by
  cases hs : c.checkState with
  | requestLine =>
    simp only [switchState, hs]
    cases hd : parseRequestLine c.takeLine c.startLine with
    | none => exact .fault
    | some r =>
      have he := h.request_edits hd
      simp only [onRequestLine]
      split_ifs
      · exact .bad he
      · exact .again he
  | header =>
    have he : Edits c.readIdx c.takeLine (parseHeaders c.takeLine c.startLine).2 :=
      parseHeaders_edits (c := c.takeLine) c.startLine h.url
    simp only [switchState, hs, onHeaders]
    split_ifs
    · exact .bad he
    · exact .request he
    · exact .again he
  | content => exact absurd hs h.phase

lemma headerResult_later (ys : List UInt8) (r : (LineStatus × ReadState) ⊕ Leave) :
    headerResult (r.map (Prod.map id (·.receive ys)) (Leave.later ys)) =
      (headerResult r).map (·.receive ys) (HeaderEnd.later ys) := by
  rcases r with ⟨status, d⟩ | ⟨code, d⟩ | ⟨origin, d⟩ | -
  · have hst : (d.receive ys).checkState = d.checkState := rfl
    simp only [Sum.map_inl, Prod.map, headerResult, hst]
    split_ifs <;> rfl
  · cases code <;> rfl
  · rfl
  · rfl

lemma Follows.not_waiting {P : ReadState → Prop} {q : (LineStatus × ReadState) ⊕ Leave}
    (h : Follows P q) (d : ReadState) : headerResult q ≠ .inr (.waiting d) := by
  cases h with
  | again =>
    simp only [headerResult]
    split_ifs <;> simp
  | bad | request | fault => simp [headerResult]

lemma headerStep_cases {c : ReadState} (h : Heading c) :
    (∃ k, c.checkedIdx ≤ k ∧ Split (endLine c k) k ∧
      headerStep junk c = headerResult (switchState junk (endLine c k)) ∧
      (∀ d, headerStep junk c ≠ .inr (.waiting d)) ∧ ∀ ys, headerStep junk (c.receive ys) =
        (headerStep junk c).map (·.receive ys) (HeaderEnd.later ys)) ∨
    (∃ d, headerStep junk c = .inr (.waiting d) ∧ Heading d ∧ d.readIdx = c.readIdx ∧
      ∀ ys, headerStep junk (c.receive ys) = headerStep junk (d.receive ys)) := by
  have hphase : ∀ ys, (c.receive ys).checkState ≠ .content := fun _ => h.phase
  have hsc := parseLine_scan h.scanning
  cases hp : parseLine c with
  | mk status d =>
    rw [hp] at hsc
    by_cases hs : status = .ok
    · subst hs
      cases hsc with
      | @line k hl hk hpl hcr hlf =>
        have hsplit := h.split hl hk
        have hstep : headerStep junk c = headerResult (switchState junk (endLine c k)) := by
          rw [headerStep, readStep_header junk h.phase, hp]
          rfl
        refine .inl ⟨k, hl, hsplit, hstep, ?_, fun ys => ?_⟩
        · rw [hstep]
          exact (switchState_follows junk hsplit).not_waiting
        rw [headerStep, headerStep, readStep_header junk h.phase, readStep_header junk (hphase ys), hp,
          parseLine_receive h.scanning hp ys]
        simp only [onLine]
        rw [switchState_receive junk hsplit, headerResult_later]
    · obtain ⟨k, hl, hk, hpl, rfl⟩ := parseLine_pending h.scanning hp hs
      have hw : headerStep junk c = .inr (.waiting (c.seek k)) := by
        rw [headerStep, readStep_header junk h.phase, hp]
        cases status with
        | ok => exact absurd rfl hs
        | bad | «open» => rfl
      have hstart := h.scanning.start
      refine .inr ⟨_, hw, ⟨⟨hstart.trans hl, hk, ?_, h.scanning.before⟩, h.fit, h.phase, h.url⟩, rfl,
        fun ys => ?_⟩
      · intro i hi hik
        by_cases hc : i < c.checkedIdx
        · exact h.scanning.plain i hi hc
        · exact hpl i (not_lt.mp hc) hik
      · rw [headerStep, headerStep, readStep_header junk (hphase ys),
          readStep_header (c := (c.seek k).receive ys) junk h.phase,
          parseLine_resume h.scanning hp hs ys]

end Step

section Phase

variable {junk : ℕ → ℕ → HttpCode} {c d : ReadState} {r : HeaderEnd}

lemma Heading.receive (h : Heading c) {ys : List UInt8} (hf : c.readIdx + ys.length ≤ readBufferSize) :
    Heading (c.receive ys) where
  scanning := by
    have hs := h.scanning.start
    have hc := h.scanning.checked
    refine ⟨hs, Nat.le_add_right_of_le hc, ?_, ?_⟩
    · exact h.scanning.plain.congr fun i _ hi => receive_before c ys (by omega)
    · by_cases h0 : c.startLine = 0
      · exact .inl h0
      · have hb := receive_before c ys (i := c.startLine - 1) (by omega)
        refine .inr ?_
        change (c.receive ys).readBuf (c.startLine - 1) ≠ cr
        rw [hb]
        exact h.scanning.before.resolve_left h0
  fit := hf
  phase := h.phase
  url u hu := by
    obtain ⟨w, huw, hw, h0⟩ := h.url u hu
    exact ⟨w, huw, Nat.lt_add_right _ hw, (receive_before c ys hw).trans h0⟩

lemma Heading.next (h : Heading c) (hs : headerStep junk c = .inl d) :
    Heading d ∧ d.readIdx = c.readIdx ∧ d.readIdx - d.checkedIdx < c.readIdx - c.checkedIdx := by
  rcases headerStep_cases junk h with ⟨k, hl, hsplit, hk, -, -⟩ | ⟨e, hw, -⟩
  · rw [hk] at hs
    have hf := switchState_follows junk hsplit
    cases hq : switchState junk (endLine c k) with
    | inl p =>
      rw [hq] at hs hf
      cases hf with
      | @again e he =>
        simp only [headerResult] at hs
        split_ifs at hs with hc
        obtain rfl : e = d := Sum.inl.inj hs
        have hr : e.readIdx = c.readIdx := he.readIdx
        refine ⟨hsplit.heading he hc, hr, ?_⟩
        have hi : e.checkedIdx = k + 2 := he.checkedIdx
        have hroom : k + 1 < c.readIdx := hsplit.room
        omega
    | inr q =>
      rw [hq] at hs hf
      cases hf <;> simp [headerResult] at hs
  · rw [hw] at hs
    cases hs

lemma Heading.left {verdict : Verdict} (h : Heading c)
    (hs : headerStep junk c = .inr (.left verdict d)) : UrlEnds d ∧ d.readIdx = c.readIdx := by
  rcases headerStep_cases junk h with ⟨k, hl, hsplit, hk, -, -⟩ | ⟨e, hw, -⟩
  · rw [hk] at hs
    have hf := switchState_follows junk hsplit
    have hurl : ∀ {e}, Edits (endLine c k).readIdx (endLine c k).takeLine e →
        UrlEnds e ∧ e.readIdx = c.readIdx := by
      refine fun he => ⟨fun u hu => ?_, he.readIdx⟩
      rw [he.readIdx]
      exact he.url u hu
    cases hq : switchState junk (endLine c k) with
    | inl p =>
      rw [hq] at hs hf
      cases hf with
      | again he =>
        simp only [headerResult] at hs
        split_ifs at hs
        cases hs
        exact hurl he
    | inr q =>
      rw [hq] at hs hf
      cases hf with
      | bad he | request he =>
        cases hs
        exact hurl he
      | fault => cases hs
  · rw [hw] at hs
    cases hs

lemma Heading.progress (s t : ReadState) (h : Heading s) (hs : headerStep junk s = .inl t) :
    Heading t ∧ t.readIdx - t.checkedIdx < s.readIdx - s.checkedIdx :=
  ⟨(h.next hs).1, (h.next hs).2.2⟩

lemma headerPhase_total (junk : ℕ → ℕ → HttpCode) (h : Heading c) : ∃ r, headerPhase junk c = some r :=
  Loop.eval_total Heading _ Heading.progress h (by simp only [iterations]; omega)

lemma headerPhase_iff (h : Heading c) :
    headerPhase junk c = some r ↔ Loop.Exits (headerStep junk) c r :=
  ⟨Loop.exits_of_eval,
    Loop.eval_of_exits Heading _ Heading.progress h (by simp only [iterations]; omega)⟩

lemma exits_later (h : Heading c) (he : Loop.Exits (headerStep junk) c r) (hr : ∀ d, r ≠ .waiting d)
    (ys : List UInt8) :
    Loop.Exits (headerStep junk) (c.receive ys) (r.later ys) ∧ (r.later ys).report = r.report := by
  induction he with
  | @stop c r hs =>
    rcases headerStep_cases junk h with ⟨k, -, -, -, -, hcomm⟩ | ⟨e, hw, -⟩
    · refine ⟨.stop (by rw [hcomm ys, hs]; rfl), ?_⟩
      cases r with
      | waiting d => exact absurd rfl (hr d)
      | fault => rfl
      | left verdict d =>
        obtain ⟨hu, hri⟩ := h.left hs
        have hstr : (d.receive ys).url.map (str readBufferSize (d.receive ys).readBuf) =
            d.url.map (str readBufferSize d.readBuf) := by
          change d.url.map _ = _
          cases hd : d.url with
          | none => rfl
          | some u =>
            obtain ⟨w, huw, hw, h0⟩ := hu u hd
            exact congrArg some (str_write huw hw (hri.trans_le h.fit) h0 ys)
        simp only [HeaderEnd.later, HeaderEnd.report, hstr]
        rfl
    · rw [hw] at hs
      exact absurd (Sum.inr.inj hs).symm (hr e)
  | @next c d r hs _ ih =>
    obtain ⟨hexit, hrep⟩ := ih (h.next hs).1 hr
    rcases headerStep_cases junk h with ⟨k, -, -, -, -, hcomm⟩ | ⟨e, hw, -⟩
    · exact ⟨.next (by rw [hcomm ys, hs]; rfl) hexit, hrep⟩
    · rw [hw] at hs
      cases hs

lemma exits_resume (h : Heading c) (he : Loop.Exits (headerStep junk) c r) (hr : r = .waiting d) :
    Heading d ∧ d.readIdx = c.readIdx ∧
      ∀ ys q, Loop.Exits (headerStep junk) (c.receive ys) q ↔
        Loop.Exits (headerStep junk) (d.receive ys) q := by
  induction he with
  | @stop c r hs =>
    rcases headerStep_cases junk h with ⟨k, -, -, -, hn, -⟩ | ⟨e, hw, hd, hri, hcomm⟩
    · exact absurd (hr ▸ hs) (hn d)
    · obtain rfl : e = d := HeaderEnd.waiting.inj (Sum.inr.inj (hw.symm.trans (hr ▸ hs)))
      exact ⟨hd, hri, fun ys q => Loop.exits_congr (hcomm ys)⟩
  | @next c e r hs _ ih =>
    obtain ⟨hd, hri, hiff⟩ := ih (h.next hs).1 hr
    rcases headerStep_cases junk h with ⟨k, -, -, -, -, hcomm⟩ | ⟨e', hw, -⟩
    · refine ⟨hd, hri.trans (h.next hs).2.1, fun ys q => ?_⟩
      rw [← hiff ys q]
      exact Loop.exits_next (by rw [hcomm ys, hs]; rfl)
    · rw [hw] at hs
      cases hs

lemma feed_report {chunks : List (List UInt8)} (h : Heading c)
    (hlen : c.readIdx + chunks.flatten.length ≤ readBufferSize)
    (hw : Loop.Exits (headerStep junk) c (.waiting c)) :
    ∃ r q, feed junk c chunks = some r ∧ headerPhase junk (c.receive chunks.flatten) = some q ∧
      r.report = q.report := by
  induction chunks generalizing c with
  | nil =>
    refine ⟨.waiting c, .waiting c, rfl, ?_, rfl⟩
    rw [List.flatten_nil, receive_nil]
    exact (headerPhase_iff h).mpr hw
  | cons x xs ih =>
    rw [List.flatten_cons, List.length_append] at hlen
    have hx : Heading (c.receive x) := h.receive (by omega)
    have hxs : Heading (c.receive (x :: xs).flatten) :=
      h.receive (by rw [List.flatten_cons, List.length_append]; omega)
    have hcat : c.receive (x :: xs).flatten = (c.receive x).receive xs.flatten := receive_append _ _ _
    obtain ⟨r, hr⟩ := headerPhase_total junk hx
    have he := (headerPhase_iff hx).mp hr
    cases r with
    | waiting d =>
      obtain ⟨hd, hri, hiff⟩ := exits_resume hx he rfl
      have hdw : Loop.Exits (headerStep junk) d (.waiting d) := by
        have hh := (hiff [] (.waiting d)).mp (by rwa [receive_nil])
        rwa [receive_nil] at hh
      have hdr : d.readIdx = c.readIdx + x.length := hri
      have hlen' : d.readIdx + xs.flatten.length ≤ readBufferSize := by omega
      obtain ⟨r, q, hf, hq, hrep⟩ := ih hd hlen' hdw
      refine ⟨r, q, by simpa only [feed, hr] using hf, ?_, hrep⟩
      rw [headerPhase_iff hxs, hcat, hiff, ← headerPhase_iff (hd.receive hlen')]
      exact hq
    | left verdict d =>
      obtain ⟨hexit, hrep⟩ := exits_later hx he (by simp) xs.flatten
      refine ⟨.left verdict d, _, by simp only [feed, hr], ?_, hrep.symm⟩
      rw [headerPhase_iff hxs, hcat]
      exact hexit
    | fault =>
      obtain ⟨hexit, hrep⟩ := exits_later hx he (by simp) xs.flatten
      refine ⟨.fault, _, by simp only [feed, hr], ?_, hrep.symm⟩
      rw [headerPhase_iff hxs, hcat]
      exact hexit

end Phase

lemma heading_init (c : ReadState) : Heading c.init where
  scanning := ⟨le_rfl, le_rfl, fun _ _ hi => absurd hi (Nat.not_lt_zero _), .inl rfl⟩
  fit := Nat.zero_le _
  phase := by simp [ReadState.init]
  url u hu := by cases hu

lemma waiting_init (junk : ℕ → ℕ → HttpCode) (c : ReadState) :
    Loop.Exits (headerStep junk) c.init (.waiting c.init) := .stop rfl

/-- Cutting a stream into chunks changes neither whether the header phase ends nor how: the verdict,
the method, the URL, the length, the keep-alive flag and the end of the header are those of the
stream received at once. -/
theorem header_phase_chunking (junk : ℕ → ℕ → HttpCode) (c : ReadState) (chunks : List (List UInt8))
    (hlen : chunks.flatten.length ≤ readBufferSize) :
    ∃ r q, feed junk c.init chunks = some r ∧
      headerPhase junk (c.init.receive chunks.flatten) = some q ∧ r.report = q.report :=
  feed_report (heading_init c) (by simpa [ReadState.init] using hlen) (waiting_init junk c)

def splitGet : List (List UInt8) :=
  [ascii ['G', 'E', 'T', ' ', '/', ' ', 'H', 'T', 'T', 'P', '/', '1', '.', '1'] ++ [cr], [lf, cr], [lf]]

theorem header_phase_chunking_split_get :
    splitGet.flatten.length ≤ readBufferSize ∧
      ∃ r q, feed (fun _ _ => .noRequest) (default : ReadState).init splitGet = some r ∧
        headerPhase (fun _ _ => .noRequest) ((default : ReadState).init.receive splitGet.flatten) = some q ∧
        r.report = q.report :=
  ⟨by decide, header_phase_chunking _ _ splitGet (by decide)⟩

end OceanServer.Http
