import OceanServer.Http.ReadLoop

/-! The reception of a request body. `process_read` runs `parse_line` over the part of the body that has
arrived, and `parse_content` then counts from where `parse_line` stopped. -/

namespace OceanServer.Http

open Library Library.CString

def serve (junk : ℕ → ℕ → HttpCode) : ReadState → List (List UInt8) → Option ReadState
  | c, [] => some c
  | c, x :: xs =>
    match processRead junk (c.receive x) with
    | some (.returned .noRequest d) => serve junk d xs
    | _ => none

lemma serve_append (junk : ℕ → ℕ → HttpCode) (c : ReadState) (xs ys : List (List UInt8)) :
    serve junk c (xs ++ ys) = (serve junk c xs).bind (serve junk · ys) := by
  induction xs generalizing c with
  | nil => rfl
  | cons x xs ih =>
    simp only [List.cons_append, serve]
    split
    · exact ih _
    · rfl

def skipped (bytes : List UInt8) : ℕ := bytes.findIdx fun b => b == cr || b == lf

def EndsLine (bytes : List UInt8) : Prop :=
  bytes[skipped bytes]? = some cr ∧ bytes[skipped bytes + 1]? = some lf

instance (bytes : List UInt8) : Decidable (EndsLine bytes) := inferInstanceAs (Decidable (_ ∧ _))

lemma skipped_le (bytes : List UInt8) : skipped bytes ≤ bytes.length := List.findIdx_le_length

section Content

variable {junk : ℕ → ℕ → HttpCode} {c e : ReadState} {h n k : ℕ}

def deliver (c : ReadState) : ReadState :=
  { c.takeLine with
    readBuf := c.readBuf.set ((c.startLine : ℤ) + c.contentLength).toNat 0, string := some c.startLine }

def missingReturn (junk : ℕ → ℕ → HttpCode) (c : ReadState) : (LineStatus × ReadState) ⊕ Leave :=
  if junk c.readIdx c.checkedIdx = .getRequest then .inr (.doRequest .fallThrough c.takeLine)
  else .inl (.open, c.takeLine)

lemma switchState_body (hc : c.checkState = .content) :
    switchState junk c =
      if longMax < c.contentLength + c.checkedIdx then .inr .fault
      else if c.contentLength + c.checkedIdx ≤ c.readIdx then
        if 0 ≤ (c.startLine : ℤ) + c.contentLength ∧ (c.startLine : ℤ) + c.contentLength < readBufferSize then
          .inr (.doRequest .content (deliver c))
        else .inr .fault
      else missingReturn junk c := by
  simp only [switchState, hc]
  change onContent junk (if longMax < c.contentLength + c.checkedIdx then _
    else if c.contentLength + c.checkedIdx ≤ c.readIdx then
      if 0 ≤ (c.startLine : ℤ) + c.contentLength ∧ (c.startLine : ℤ) + c.contentLength < readBufferSize then _
      else _
    else _) = _
  split_ifs <;> rfl

structure Lost (h : ℕ) (c : ReadState) : Prop where
  phase : c.checkState = .content
  start : h < c.startLine
  order : c.startLine ≤ c.checkedIdx
  checked : c.checkedIdx ≤ c.readIdx

def Misses (h : ℕ) : Leave → Prop
  | .returned _ d => Lost h d
  | .doRequest origin d => origin = .content → d.string ≠ some h
  | .fault => True

def LostStep (h : ℕ) : (LineStatus × ReadState) ⊕ Leave → Prop
  | .inl t => Lost h t.2
  | .inr l => Misses h l

lemma missingReturn_lost (hc : c.checkState = .content) (hh : h < c.checkedIdx)
    (hr : c.checkedIdx ≤ c.readIdx) : LostStep h (missingReturn junk c) := by
  simp only [missingReturn]
  split_ifs
  · exact fun ho => by cases ho
  · exact ⟨hc, hh, le_rfl, hr⟩

lemma switchState_lost (hl : Lost h c) : LostStep h (switchState junk c) := by
  have hstart := hl.start
  rw [switchState_body hl.phase]
  split_ifs
  · trivial
  · intro _ hs
    exact absurd (Option.some.inj hs) (by omega)
  · trivial
  · exact missingReturn_lost hl.phase (hstart.trans_le hl.order) hl.checked

lemma Lost.parseLine (hl : Lost h c) : Lost h (parseLine c).2 := by
  obtain ⟨ha, -⟩ := parseLine_advances hl.checked
  exact ⟨ha.checkState.trans hl.phase, ha.startLine.symm ▸ hl.start,
    ha.startLine.symm ▸ hl.order.trans ha.forward, ha.readIdx.symm ▸ ha.checked⟩

lemma readStep_lost {s : LineStatus × ReadState} (hl : Lost h s.2) : LostStep h (readStep junk s) := by
  have hp := hl.parseLine
  have hi := readStep_iteration junk s
  generalize readStep junk s = r at hi ⊢
  cases hi with
  | body => exact switchState_lost hl
  | line _ hq =>
    rw [hq] at hp
    exact switchState_lost hp
  | wait _ hq =>
    rw [hq] at hp
    exact hp

lemma exits_lost {s : LineStatus × ReadState} {l : Leave} (he : Loop.Exits (readStep junk) s l)
    (hl : LostStep h (readStep junk s)) : Misses h l := by
  induction he with
  | stop hs => rwa [hs] at hl
  | next hs _ ih =>
    rw [hs] at hl
    exact ih (readStep_lost hl)

end Content

structure AtBody (e : ReadState) (h n : ℕ) : Prop where
  phase : e.checkState = .content
  start : e.startLine = h
  checked : e.checkedIdx = h
  received : e.readIdx = h
  before : h = 0 ∨ e.readBuf (h - 1) ≠ cr
  length : e.contentLength = n
  positive : 0 < n

section Call

variable {junk : ℕ → ℕ → HttpCode} {e : ReadState} {h n : ℕ} {part : List UInt8}

lemma AtBody.byte (ha : AtBody e h n) {i : ℕ} (hi : i < part.length) :
    (e.receive part).readBuf (h + i) = part[i] := by
  rw [receive_buf, ha.received]
  exact write_inside _ _ _ hi

lemma AtBody.plain (ha : AtBody e h n) :
    Plain (e.receive part).readBuf (e.receive part).checkedIdx (h + skipped part) := by
  intro i hl hu
  replace hl : h ≤ i := ha.checked ▸ hl
  obtain ⟨j, rfl⟩ := Nat.exists_eq_add_of_le hl
  have hj : j < skipped part := by omega
  have hn := List.not_of_lt_findIdx hj
  rw [ha.byte (hj.trans_le (skipped_le part))]
  simpa using hn

lemma AtBody.scanning (ha : AtBody e h n) : Scanning (e.receive part) where
  start := (ha.start.trans ha.checked.symm).le
  checked := by
    change e.checkedIdx ≤ e.readIdx + part.length
    rw [ha.checked, ha.received]
    exact Nat.le_add_right _ _
  plain i hl hu := absurd ((ha.start.trans ha.checked.symm) ▸ hl) (not_le.mpr hu)
  before := by
    change e.startLine = 0 ∨ (e.receive part).readBuf (e.startLine - 1) ≠ cr
    rw [ha.start]
    by_cases h0 : h = 0
    · exact .inl h0
    · refine .inr ?_
      rw [receive_before e part (by rw [ha.received]; omega)]
      exact ha.before.resolve_left h0

lemma at_break (hlt : skipped part < part.length) :
    part[skipped part] = cr ∨ part[skipped part] = lf := by
  have hb := List.findIdx_getElem (w := hlt)
  simp only [Bool.or_eq_true, beq_iff_eq] at hb
  exact hb

lemma EndsLine.length (hl : EndsLine part) : skipped part + 1 < part.length :=
  (List.getElem?_eq_some_iff.mp hl.2).1

lemma AtBody.parseLine_eq (ha : AtBody e h n) :
    parseLine (e.receive part) = parseLine ((e.receive part).seek (h + skipped part)) := by
  have hle := skipped_le part
  refine parseLine_skip ?_ ?_ ha.plain
  · change e.checkedIdx ≤ _
    rw [ha.checked]
    exact Nat.le_add_right _ _
  · change _ ≤ e.readIdx + part.length
    rw [ha.received]
    omega

lemma AtBody.parseLine_line (ha : AtBody e h n) (hl : EndsLine part) :
    parseLine (e.receive part) = (.ok, endLine (e.receive part) (h + skipped part)) := by
  have hlen := hl.length
  have hr : (e.receive part).readIdx = h + part.length := congrArg (· + part.length) ha.received
  obtain ⟨_, hcr⟩ := List.getElem?_eq_some_iff.mp hl.1
  obtain ⟨_, hlf⟩ := List.getElem?_eq_some_iff.mp hl.2
  have hk : (e.receive part).readBuf (h + skipped part) = cr := (ha.byte (by omega)).trans hcr
  have hk1 : (e.receive part).readBuf (h + skipped part + 1) = lf := (ha.byte hlen).trans hlf
  rw [ha.parseLine_eq, parseLine_unfold (by omega), if_pos hk, if_neg (by omega), if_pos hk1]

lemma AtBody.parseLine_pending (ha : AtBody e h n) (hn : ¬ EndsLine part) :
    ∃ status, status ≠ .ok ∧
      parseLine (e.receive part) = (status, (e.receive part).seek (h + skipped part)) := by
  have hle := skipped_le part
  have hr : (e.receive part).readIdx = h + part.length := congrArg (· + part.length) ha.received
  rw [ha.parseLine_eq]
  by_cases hend : skipped part = part.length
  · rw [hend, ← hr]
    exact ⟨.open, by simp, parseLine_end _⟩
  · have hlt : skipped part < part.length := by omega
    have hk : (e.receive part).readBuf (h + skipped part) = part[skipped part] := ha.byte hlt
    rw [parseLine_unfold (by omega), hk]
    rcases at_break hlt with hcr | hlf
    · rw [if_pos hcr]
      split_ifs with hlast hnext
      · exact ⟨.open, by simp, rfl⟩
      · have hlt' : skipped part + 1 < part.length := by omega
        have hk1 : (e.receive part).readBuf (h + skipped part + 1) = part[skipped part + 1] := ha.byte hlt'
        refine absurd ⟨?_, ?_⟩ hn
        · rw [List.getElem?_eq_getElem hlt, hcr]
        · rw [List.getElem?_eq_getElem hlt', ← hk1, hnext]
      · exact ⟨.bad, by simp, rfl⟩
    · have hne : part[skipped part] ≠ cr := by rw [hlf]; decide
      have hbad : ¬ (1 < h + skipped part ∧ (e.receive part).readBuf (h + skipped part - 1) = cr) := by
        rintro ⟨h1, hc⟩
        exact ha.scanning.resumable.no_cr_before (ha.checked.le.trans (Nat.le_add_right _ _)) ha.plain (by omega) hc
      rw [if_neg hne, if_pos hlf, if_neg hbad]
      exact ⟨.bad, by simp, rfl⟩

def ReadState.ahead (e : ReadState) (h k : ℕ) (part : List UInt8) : ReadState :=
  (e.receive part).seek (h + k)

lemma AtBody.switch (ha : AtBody e h n) {k : ℕ} (hn : h + n < readBufferSize) (hk : k ≤ part.length)
    (hfit : h + part.length < readBufferSize) :
    readStep junk (.ok, e.ahead h k part) =
      if n + k ≤ part.length then .inr (.doRequest .content (deliver (e.ahead h k part)))
      else missingReturn junk (e.ahead h k part) := by
  have hs : readStep junk (.ok, e.ahead h k part) = switchState junk (e.ahead h k part) := by
    rw [readStep, if_pos ⟨ha.phase, rfl⟩]
  have hlen : (e.ahead h k part).contentLength = n := ha.length
  have hchk : (e.ahead h k part).checkedIdx = h + k := rfl
  have hread : (e.ahead h k part).readIdx = h + part.length := congrArg (· + part.length) ha.received
  have hstart : (e.ahead h k part).startLine = h := ha.start
  rw [hs, switchState_body (c := e.ahead h k part) ha.phase, hlen, hchk, hread, hstart]
  simp only [readBufferSize] at hn hfit
  rw [if_neg (by simp only [longMax]; omega)]
  by_cases hd : n + k ≤ part.length
  · rw [if_pos (by omega), if_pos hd, if_pos (by simp only [readBufferSize]; omega)]
  · rw [if_neg (by omega), if_neg hd]

lemma AtBody.ahead_zero (ha : AtBody e h n) : e.ahead h 0 part = e.receive part := by
  obtain ⟨-, -, hc, -⟩ := ha
  subst hc
  rfl

lemma AtBody.ahead_in_buffer (ha : AtBody e h n) {k : ℕ} (hk : k ≤ part.length) :
    (e.ahead h k part).checkedIdx ≤ (e.ahead h k part).readIdx := by
  change h + k ≤ e.readIdx + part.length
  rw [ha.received]
  omega

lemma AtBody.takeLine_receive (ha : AtBody e h n) : (e.receive part).takeLine = e.receive part := by
  have hs : e.startLine = e.checkedIdx := ha.start.trans ha.checked.symm
  simp only [ReadState.takeLine, ReadState.receive, ← hs]

lemma AtBody.line_lost (ha : AtBody e h n) (hinc : part.length < n) (hl : EndsLine part) :
    LostStep h (readStep junk (.open, e.receive part)) := by
  have hlen := hl.length
  rw [readStep, if_neg (by simp), ha.parseLine_line hl]
  have hc : (endLine (e.receive part) (h + skipped part)).checkState = .content := ha.phase
  have hread : (endLine (e.receive part) (h + skipped part)).readIdx = h + part.length :=
    congrArg (· + part.length) ha.received
  have hchk : (endLine (e.receive part) (h + skipped part)).checkedIdx = h + skipped part + 2 := rfl
  have hcl : (endLine (e.receive part) (h + skipped part)).contentLength = n := ha.length
  change LostStep h (switchState junk _)
  rw [switchState_body hc]
  split_ifs with hmax hdone
  · trivial
  · rw [hread, hchk, hcl] at hdone
    omega
  · trivial
  · exact missingReturn_lost hc (by omega) (by omega)

section Bounded

variable (ha : AtBody e h n) (hn : h + n < readBufferSize) (hfit : h + part.length < readBufferSize)
include ha hn hfit

lemma AtBody.completes {k : ℕ} (hk : n + k ≤ part.length) :
    Loop.Exits (readStep junk) (.ok, e.ahead h k part)
      (.doRequest .content (deliver (e.ahead h k part))) :=
  .stop (by rw [ha.switch hn (by omega) hfit, if_pos hk])

lemma AtBody.goes_on (hinc : part.length < n) (hj : junk (h + part.length) h ≠ .getRequest) :
    readStep junk (.ok, e.ahead h 0 part) = .inl (.open, e.receive part) := by
  rw [ha.switch hn (Nat.zero_le _) hfit, if_neg (by omega), ha.ahead_zero, missingReturn,
    ha.takeLine_receive, if_neg]
  change ¬ junk (e.readIdx + part.length) e.checkedIdx = .getRequest
  rwa [ha.received, ha.checked]

lemma AtBody.waits (hinc : part.length < n) (hj : junk (h + part.length) h ≠ .getRequest)
    (hl : ¬ EndsLine part) :
    Loop.Exits (readStep junk) (.ok, e.ahead h 0 part)
      (.returned .noRequest (e.ahead h (skipped part) part)) := by
  refine .next (ha.goes_on hn hfit hinc hj) (.stop ?_)
  obtain ⟨status, hs, hp⟩ := ha.parseLine_pending hl
  rw [readStep, if_neg (by simp), hp]
  cases status with
  | ok => exact absurd rfl hs
  | bad | «open» => rfl

lemma AtBody.disturbed {k : ℕ} {l : Leave} (hk : k ≤ part.length) (hinc : part.length < n + k)
    (hd : junk (h + part.length) h = .getRequest ∨ 0 < k ∨ EndsLine part)
    (he : Loop.Exits (readStep junk) (.ok, e.ahead h k part) l) : Misses h l := by
  by_cases h0 : k = 0
  · subst h0
    by_cases hj : junk (h + part.length) h = .getRequest
    · refine exits_lost he ?_
      rw [ha.switch hn hk hfit, if_neg (by omega), ha.ahead_zero, missingReturn, if_pos]
      · exact fun ho => by cases ho
      · change junk (e.readIdx + part.length) e.checkedIdx = .getRequest
        rwa [ha.received, ha.checked]
    · have hl := (hd.resolve_left hj).resolve_left (lt_irrefl 0)
      rw [Loop.exits_next (ha.goes_on hn hfit hinc hj)] at he
      exact exits_lost he (ha.line_lost hinc hl)
  · refine exits_lost he ?_
    rw [ha.switch hn hk hfit, if_neg (by omega)]
    refine missingReturn_lost ha.phase ?_ (ha.ahead_in_buffer hk)
    change h < h + k
    omega

end Bounded

end Call

section Header

variable {junk : ℕ → ℕ → HttpCode} {c d e : ReadState}

lemma headerStep_content (h : Heading c) (hs : headerStep junk c = .inr (.left .content d)) :
    d.checkState = .content ∧ d.startLine = d.checkedIdx ∧ 0 < d.checkedIdx ∧
      d.checkedIdx ≤ d.readIdx ∧ d.readIdx = c.readIdx ∧ d.readBuf (d.checkedIdx - 1) ≠ cr := by
  rcases headerStep_cases junk h with ⟨k, hl, hsplit, hk, -, -⟩ | ⟨w, hw, -⟩
  · rw [hk] at hs
    have hf := switchState_follows junk hsplit
    generalize switchState junk (endLine c k) = q at hs hf
    cases hf with
    | again he =>
      simp only [headerResult] at hs
      split_ifs at hs with hc
      cases hs
      have hi : d.checkedIdx = k + 2 := he.checkedIdx
      have hr : d.readIdx = c.readIdx := he.readIdx
      have hroom : k + 1 < c.readIdx := hsplit.room
      refine ⟨hc, he.startLine.trans he.checkedIdx.symm, by omega, by omega, hr, ?_⟩
      rw [hi]
      apply he.noCr
      change (endLine c k).readBuf (k + 1) ≠ cr
      rw [hsplit.nul']
      decide
    | bad | request | fault => cases hs
  · rw [hw] at hs
    cases hs

lemma exits_content {r : HeaderEnd} (h : Heading c) (he : Loop.Exits (headerStep junk) c r)
    (hr : r = .left .content d) :
    d.checkState = .content ∧ d.startLine = d.checkedIdx ∧ 0 < d.checkedIdx ∧
      d.checkedIdx ≤ d.readIdx ∧ d.readIdx = c.readIdx ∧ d.readBuf (d.checkedIdx - 1) ≠ cr := by
  induction he with
  | stop hs => exact headerStep_content h (hr ▸ hs)
  | next hs _ ih =>
    obtain ⟨hc, hst, h0, hle, hri, hb⟩ := ih (h.next hs).1 hr
    exact ⟨hc, hst, h0, hle, hri.trans (h.next hs).2.1, hb⟩

end Header

/-- `hdr` is the header block of a `POST` that announces `n` bytes, and `e` is the connection when
`process_read` has taken it. -/
structure DeclaresBody (junk : ℕ → ℕ → HttpCode) (c : ReadState) (hdr : List UInt8) (n : ℕ)
    (e : ReadState) : Prop where
  header : headerPhase junk (c.init.receive hdr) = some (.left .content e)
  whole : e.checkedIdx = hdr.length
  post : e.method = .post
  length : e.contentLength = n
  positive : 0 < n

def arrived (hdr body : List UInt8) (chunks : List (List UInt8)) : List UInt8 :=
  body.take (chunks.flatten.length - hdr.length)

/-- Every call on `pre` returns `NO_REQUEST`, and the call after `x` finds the whole body: `m_string`
points to the first byte behind the header and the `n` bytes there are those that were sent. -/
def BodyReceived (junk : ℕ → ℕ → HttpCode) (c : ReadState) (hdr : List UInt8) (n : ℕ)
    (body : List UInt8) (pre : List (List UInt8)) (x : List UInt8) : Prop :=
  ∃ d r, serve junk c.init pre = some d ∧
    processRead junk (d.receive x) = some (.doRequest .content r) ∧ r.string = some hdr.length ∧
    bytesAt r.readBuf hdr.length n = body.take n ∧ r.readBuf (hdr.length + n) = 0

/-- No call on an incomplete body disturbs the reception: the value `parse_content` fails to return is
not taken for `GET_REQUEST`, `parse_line` finds no line to cut off and, but for the last of these
calls, it stops at the first byte of the body. -/
def Calm (junk : ℕ → ℕ → HttpCode) (hdr body : List UInt8) (pre : List (List UInt8)) : Prop :=
  ∀ p, p <+: pre → hdr.length ≤ p.flatten.length →
    junk p.flatten.length hdr.length ≠ .getRequest ∧ ¬ EndsLine (arrived hdr body p) ∧
      (p ≠ pre → skipped (arrived hdr body p) = 0)

lemma calm_append {junk : ℕ → ℕ → HttpCode} {hdr body : List UInt8} {pre : List (List UInt8)}
    {y : List UInt8} :
    Calm junk hdr body (pre ++ [y]) ↔
      Calm junk hdr body pre ∧
      (hdr.length ≤ pre.flatten.length → skipped (arrived hdr body pre) = 0) ∧
      (hdr.length ≤ (pre ++ [y]).flatten.length →
        junk (pre ++ [y]).flatten.length hdr.length ≠ .getRequest ∧
          ¬ EndsLine (arrived hdr body (pre ++ [y]))) := by
  have hne : ∀ {p}, p <+: pre → p ≠ pre ++ [y] := by
    rintro p hp rfl
    have hlen := hp.length_le
    simp at hlen
  constructor
  · intro hc
    refine ⟨fun p hp hl => ?_, fun hl => ?_, fun hl => ?_⟩
    · obtain ⟨hj, he, hs⟩ := hc p (hp.trans (List.prefix_append _ _)) hl
      exact ⟨hj, he, fun _ => hs (hne hp)⟩
    · exact (hc pre (List.prefix_append _ _) hl).2.2 (hne (List.prefix_refl _))
    · exact ⟨(hc _ (List.prefix_refl _) hl).1, (hc _ (List.prefix_refl _) hl).2.1⟩
  · rintro ⟨hc, hs, hlast⟩ p hp hl
    rcases List.prefix_concat_iff.mp hp with rfl | hp
    · exact ⟨(hlast hl).1, (hlast hl).2, fun h => absurd rfl h⟩
    · obtain ⟨hj, he, hs'⟩ := hc p hp hl
      refine ⟨hj, he, fun _ => ?_⟩
      by_cases hpp : p = pre
      · subst hpp
        exact hs hl
      · exact hs' hpp

section Run

variable {junk : ℕ → ℕ → HttpCode} {c d e : ReadState} {hdr body bytes : List UInt8} {n : ℕ}

structure Pending (junk : ℕ → ℕ → HttpCode) (c d : ReadState) (bytes : List UInt8) : Prop where
  heading : Heading d
  received : d.readIdx = bytes.length
  same : ∀ ys q, Loop.Exits (headerStep junk) (c.init.receive (bytes ++ ys)) q ↔
    Loop.Exits (headerStep junk) (d.receive ys) q

lemma pending_init (junk : ℕ → ℕ → HttpCode) (c : ReadState) : Pending junk c c.init [] :=
  ⟨heading_init c, rfl, fun _ _ => Iff.rfl⟩

lemma heading_receive_init (c : ReadState) (h : bytes.length ≤ readBufferSize) :
    Heading (c.init.receive bytes) := (heading_init c).receive (by simpa [ReadState.init] using h)

lemma DeclaresBody.atBody (hd : DeclaresBody junk c hdr n e) (hfit : hdr.length ≤ readBufferSize) :
    AtBody e hdr.length n := by
  obtain ⟨hc, hst, h0, hle, hri, hb⟩ :=
    exits_content (heading_receive_init c hfit) (Loop.exits_of_eval hd.header) rfl
  rw [hd.whole] at hst hb
  have hr : e.readIdx = hdr.length := hri.trans (Nat.zero_add _)
  exact ⟨hc, hst, hd.whole, hr, .inr hb, hd.length, hd.positive⟩

lemma DeclaresBody.header_pos (hd : DeclaresBody junk c hdr n e) (hfit : hdr.length ≤ readBufferSize) :
    0 < hdr.length := by
  obtain ⟨-, -, h0, -⟩ :=
    exits_content (heading_receive_init c hfit) (Loop.exits_of_eval hd.header) rfl
  rwa [hd.whole] at h0

lemma HeaderEnd.eq_of_later {r : HeaderEnd} {ys : List UInt8} (hr : r.later ys = .left .content e) :
    ∃ w, r = .left .content w ∧ e = w.receive ys := by
  cases r with
  | waiting w => cases hr
  | left verdict w =>
    cases hr
    exact ⟨w, rfl, rfl⟩
  | fault => cases hr

lemma Pending.stays (hp : Pending junk c d bytes) (hd : DeclaresBody junk c hdr n e)
    (hfit : hdr.length ≤ readBufferSize) {y rest : List UInt8} (hcut : bytes ++ y ++ rest = hdr)
    (hrest : 0 < rest.length) :
    ∃ d', processRead junk (d.receive y) = some (.returned .noRequest d') ∧
      Pending junk c d' (bytes ++ y) := by
  have hlen := congrArg List.length hcut
  simp only [List.length_append] at hlen
  have hrec := hp.received
  have hy : Heading (d.receive y) := hp.heading.receive (by omega)
  have hin : (d.receive y).checkedIdx ≤ (d.receive y).readIdx := hy.scanning.checked
  obtain ⟨r, hr⟩ := headerPhase_total junk hy
  have he := (headerPhase_iff hy).mp hr
  by_cases hw : ∃ d', r = .waiting d'
  · obtain ⟨d', rfl⟩ := hw
    obtain ⟨hh, hri, hiff⟩ := exits_resume hy he rfl
    refine ⟨d', (processRead_iff hin).mpr (exits_header hy he), hh, ?_, fun ys q => ?_⟩
    · rw [hri, List.length_append, ← hrec]
      rfl
    · rw [List.append_assoc, hp.same, receive_append]
      exact hiff ys q
  · obtain ⟨hl, -⟩ := exits_later hy he (fun w hw' => hw ⟨w, hw'⟩) rest
    rw [← receive_append, ← hp.same, ← List.append_assoc, hcut] at hl
    obtain ⟨w, rfl, hwe⟩ := HeaderEnd.eq_of_later (hl.unique (Loop.exits_of_eval hd.header))
    obtain ⟨-, -, -, hle, hri, -⟩ := exits_content hy he rfl
    have hchk : e.checkedIdx = w.checkedIdx := by rw [hwe]; rfl
    have hwr : w.readIdx = d.readIdx + y.length := hri
    have hwhole := hd.whole
    omega

lemma Pending.enters (hp : Pending junk c d bytes) (hd : DeclaresBody junk c hdr n e)
    {y part : List UInt8} (hcut : bytes ++ y = hdr ++ part) (hfit : (hdr ++ part).length ≤ readBufferSize)
    (l : Leave) :
    processRead junk (d.receive y) = some l ↔
      Loop.Exits (readStep junk) (.ok, e.ahead hdr.length 0 part) l := by
  have hlen := congrArg List.length hcut
  simp only [List.length_append] at hlen hfit
  have hrec := hp.received
  have hy : Heading (d.receive y) := hp.heading.receive (by omega)
  have hin : (d.receive y).checkedIdx ≤ (d.receive y).readIdx := hy.scanning.checked
  have ha := hd.atBody (by omega)
  have hlate := (exits_later (heading_receive_init c (by omega))
    (Loop.exits_of_eval hd.header) (by simp) part).1
  rw [← receive_append, ← hcut, hp.same] at hlate
  rw [processRead_iff hin, ha.ahead_zero]
  exact exits_header hy hlate l

lemma Lost.receive {h : ℕ} (hl : Lost h d) (y : List UInt8) : Lost h (d.receive y) :=
  ⟨hl.phase, hl.start, hl.order, hl.checked.trans (Nat.le_add_right _ _)⟩

lemma ahead_receive (e : ReadState) (h k : ℕ) (part y : List UInt8) :
    (e.ahead h k part).receive y = e.ahead h k (part ++ y) := by
  simp only [ReadState.ahead, receive_append]
  rfl

lemma serve_single {y : List UInt8} {d' : ReadState} :
    serve junk d [y] = some d' ↔ processRead junk (d.receive y) = some (.returned .noRequest d') := by
  simp only [serve]
  split
  · rename_i hq
    rw [hq]
    simp
  · rename_i hq
    exact ⟨fun hc => (Option.some_ne_none _ hc.symm).elim, fun hc => (hq _ hc).elim⟩

lemma arrived_eq {chunks : List (List UInt8)} (hp : chunks.flatten <+: hdr ++ body)
    (hl : hdr.length ≤ chunks.flatten.length) :
    chunks.flatten = hdr ++ arrived hdr body chunks := by
  have ht := List.prefix_iff_eq_take.mp hp
  rwa [List.take_append, List.take_of_length_le hl] at ht

variable {pre : List (List UInt8)} {y : List UInt8}

inductive Stage (junk : ℕ → ℕ → HttpCode) (c e : ReadState) (hdr body : List UInt8)
    (pre : List (List UInt8)) : Option ReadState → Prop
  | header {w} : pre.flatten.length < hdr.length → Pending junk c w pre.flatten →
      Stage junk c e hdr body pre (some w)
  | calm : hdr.length ≤ pre.flatten.length → Calm junk hdr body pre →
      Stage junk c e hdr body pre
        (some (e.ahead hdr.length (skipped (arrived hdr body pre)) (arrived hdr body pre)))
  | lost {o} : hdr.length ≤ pre.flatten.length → ¬ Calm junk hdr body pre →
      (∀ w, o = some w → Lost hdr.length w) → Stage junk c e hdr body pre o

lemma Stage.of_call {k : ℕ} (ha : AtBody e hdr.length n) (hn : hdr.length + n < readBufferSize)
    (hp : (pre ++ [y]).flatten <+: hdr ++ body) (hl : hdr.length ≤ (pre ++ [y]).flatten.length)
    (hinc : (pre ++ [y]).flatten.length < hdr.length + n)
    (hk : k ≤ (arrived hdr body (pre ++ [y])).length)
    (hcall : ∀ l, processRead junk (d.receive y) = some l ↔
      Loop.Exits (readStep junk) (.ok, e.ahead hdr.length k (arrived hdr body (pre ++ [y]))) l)
    (hcalm : Calm junk hdr body (pre ++ [y]) ↔
      k = 0 ∧ junk (pre ++ [y]).flatten.length hdr.length ≠ .getRequest ∧
        ¬ EndsLine (arrived hdr body (pre ++ [y]))) :
    Stage junk c e hdr body (pre ++ [y]) (serve junk d [y]) := by
  have hlen := congrArg List.length (arrived_eq hp hl)
  rw [List.length_append] at hlen
  by_cases hq : Calm junk hdr body (pre ++ [y])
  · obtain ⟨rfl, hj, he⟩ := hcalm.mp hq
    rw [hlen] at hj
    rw [serve_single.mpr ((hcall _).mpr (ha.waits hn (by omega) (by omega) hj he))]
    exact .calm hl hq
  · refine .lost hl hq fun d' hd' => ?_
    have he := (hcall _).mp (serve_single.mp hd')
    refine ha.disturbed hn (by omega) hk (by omega) ?_ he
    by_contra hno
    push Not at hno
    rw [← hlen] at hno
    exact hq (hcalm.mpr ⟨by omega, hno.1, hno.2.2⟩)

lemma flatten_snoc (pre : List (List UInt8)) (y : List UInt8) :
    (pre ++ [y]).flatten = pre.flatten ++ y := by simp

lemma arrived_snoc (hp : (pre ++ [y]).flatten <+: hdr ++ body) (hl : hdr.length ≤ pre.flatten.length) :
    arrived hdr body (pre ++ [y]) = arrived hdr body pre ++ y := by
  have hf := flatten_snoc pre y
  have hlen := congrArg List.length hf
  rw [List.length_append] at hlen
  have h1 := arrived_eq hp (by omega)
  rw [hf, arrived_eq ((hf ▸ List.prefix_append _ _).trans hp) hl, List.append_assoc] at h1
  exact (List.append_cancel_left h1).symm

lemma AtBody.resumes (junk : ℕ → ℕ → HttpCode) (ha : AtBody e hdr.length n) (hp : (pre ++ [y]).flatten <+: hdr ++ body)
    (hl : hdr.length ≤ pre.flatten.length) :
    skipped (arrived hdr body pre) ≤ (arrived hdr body (pre ++ [y])).length ∧
      ∀ l, processRead junk ((e.ahead hdr.length (skipped (arrived hdr body pre))
          (arrived hdr body pre)).receive y) = some l ↔
        Loop.Exits (readStep junk) (.ok, e.ahead hdr.length (skipped (arrived hdr body pre))
          (arrived hdr body (pre ++ [y]))) l := by
  have hsn := arrived_snoc hp hl
  have hle := skipped_le (arrived hdr body pre)
  have hk : skipped (arrived hdr body pre) ≤ (arrived hdr body (pre ++ [y])).length := by
    rw [hsn, List.length_append]
    omega
  refine ⟨hk, fun l => ?_⟩
  rw [ahead_receive, ← hsn]
  exact processRead_iff (ha.ahead_in_buffer hk)

lemma serve_stage (hd : DeclaresBody junk c hdr n e) (hn : hdr.length + n < readBufferSize)
    (hp : pre.flatten <+: hdr ++ body) (hinc : pre.flatten.length < hdr.length + n) :
    Stage junk c e hdr body pre (serve junk c.init pre) := by
  have ha := hd.atBody (by omega)
  induction pre using List.reverseRecOn with
  | nil => exact .header (hd.header_pos (by omega)) (pending_init junk c)
  | append_singleton pre y ih =>
    have hf := flatten_snoc pre y
    have hlen := congrArg List.length hf
    rw [List.length_append] at hlen
    have ih := ih ((hf ▸ List.prefix_append _ _).trans hp) (by omega)
    rw [serve_append]
    generalize serve junk c.init pre = o at ih
    cases ih with
    | @header w hlt hw =>
      by_cases hl : hdr.length ≤ (pre ++ [y]).flatten.length
      · -- the header becomes whole in this call
        have hcut := hf.symm.trans (arrived_eq hp hl)
        have hfit := congrArg List.length hcut
        simp only [List.length_append] at hfit
        refine Stage.of_call ha hn hp hl hinc (Nat.zero_le _)
          (hw.enters hd hcut (by rw [List.length_append]; omega)) ?_
        rw [calm_append]
        constructor
        · exact fun hc => ⟨rfl, hc.2.2 hl⟩
        · refine fun hc => ⟨fun p hpp hpl => ?_, fun hpl => absurd hpl (by omega), fun _ => hc.2⟩
          have hle := hpp.sublist.flatten.length_le
          omega
      · obtain ⟨rest, hrest⟩ := List.prefix_of_prefix_length_le hp (List.prefix_append hdr body) (by omega)
        have hrl := congrArg List.length hrest
        rw [List.length_append] at hrl
        rw [hf] at hrest
        obtain ⟨w', hw', hpend⟩ := hw.stays hd (by omega) hrest (by omega)
        rw [Option.bind_some, serve_single.mpr hw']
        exact .header (by omega) (hf ▸ hpend)
    | calm hl hc =>
      obtain ⟨hk, hcall⟩ := ha.resumes junk hp hl
      refine Stage.of_call ha hn hp (by omega) hinc hk hcall ?_
      rw [calm_append]
      constructor
      · exact fun h => ⟨h.2.1 hl, h.2.2 (by omega)⟩
      · exact fun h => ⟨hc, fun _ => h.1, fun _ => h.2⟩
    | lost hl hc hlost =>
      refine .lost (by omega) (fun h => hc (calm_append.mp h).1) fun w' hw' => ?_
      obtain ⟨w, hw, hs⟩ := Option.bind_eq_some_iff.mp hw'
      have hin := ((hlost w hw).receive y)
      exact exits_lost ((processRead_iff hin.checked).mp (serve_single.mp hs)) (readStep_lost hin)

end Run

lemma AtBody.delivers {e : ReadState} {h n : ℕ} (ha : AtBody e h n) (k : ℕ) (part : List UInt8)
    (hn : n ≤ part.length) :
    (deliver (e.ahead h k part)).string = some h ∧
      bytesAt (deliver (e.ahead h k part)).readBuf h n = part.take n ∧
      (deliver (e.ahead h k part)).readBuf (h + n) = 0 := by
  have hbuf : (deliver (e.ahead h k part)).readBuf = (e.receive part).readBuf.set (h + n) 0 := by
    change (e.receive part).readBuf.set ((e.startLine : ℤ) + e.contentLength).toNat 0 = _
    rw [ha.start, ha.length]
    congr 1
  refine ⟨congrArg some ha.start, ?_, ?_⟩
  · refine List.ext_getElem (by simp [bytesAt, hn]) fun i hi hi' => ?_
    have hin : i < n := by simpa [bytesAt] using hi
    simp only [bytesAt, List.getElem_map, List.getElem_range, List.getElem_take, hbuf]
    rw [set_of_ne _ _ (by omega), ha.byte (by omega)]
  · rw [hbuf, set_self]

/-- The body is received as it was sent exactly where no call on its incomplete part disturbs it and
the call that completes it has as many bytes more as `parse_line` has passed over. -/
theorem body_reception_iff (junk : ℕ → ℕ → HttpCode) (c e : ReadState) (hdr body : List UInt8) (n : ℕ)
    (pre : List (List UInt8)) (x : List UInt8) (hd : DeclaresBody junk c hdr n e)
    (hfit : hdr.length + body.length < readBufferSize) (hp : (pre ++ [x]).flatten <+: hdr ++ body)
    (hbefore : pre.flatten.length < hdr.length + n)
    (hafter : hdr.length + n ≤ (pre ++ [x]).flatten.length) :
    BodyReceived junk c hdr n body pre x ↔
      Calm junk hdr body pre ∧
        hdr.length + n + skipped (arrived hdr body pre) ≤ (pre ++ [x]).flatten.length := by
  have hf := flatten_snoc pre x
  have hl : hdr.length ≤ (pre ++ [x]).flatten.length := by omega
  have hcut := arrived_eq hp hl
  have hlen := congrArg List.length hcut
  have hpl := hp.length_le
  rw [List.length_append] at hlen hpl
  have ha := hd.atBody (by omega)
  have htake : (arrived hdr body (pre ++ [x])).take n = body.take n := by
    rw [arrived, List.take_take, min_eq_left (by omega)]
  have hpre : pre.flatten <+: hdr ++ body := (hf ▸ List.prefix_append _ _).trans hp
  have hstage := serve_stage hd (by omega) hpre hbefore
  have hflat := congrArg List.length hf
  rw [List.length_append] at hflat
  rw [BodyReceived]
  generalize serve junk c.init pre = o at hstage
  cases hstage with
  | @header w hlt hw =>
    have henter := hw.enters hd (hf.symm.trans hcut) (by rw [List.length_append]; omega)
    obtain ⟨hs, hb, h0⟩ := ha.delivers 0 (arrived hdr body (pre ++ [x])) (by omega)
    have hzero : pre.flatten.length - hdr.length = 0 := by omega
    refine iff_of_true ⟨w, _, rfl, (henter _).mpr (ha.completes (by omega) (by omega) (by omega)), hs,
      hb.trans htake, h0⟩ ⟨fun p hpp hpl => ?_, ?_⟩
    · have hle := hpp.sublist.flatten.length_le
      omega
    · rw [arrived, hzero, List.take_zero]
      exact hafter
  | calm hle hc =>
    obtain ⟨hk, hcall⟩ := ha.resumes junk hp hle
    by_cases hdone : hdr.length + n + skipped (arrived hdr body pre) ≤ (pre ++ [x]).flatten.length
    · obtain ⟨hs, hb, h0⟩ := ha.delivers (skipped (arrived hdr body pre))
        (arrived hdr body (pre ++ [x])) (by omega)
      exact iff_of_true ⟨_, _, rfl, (hcall _).mpr (ha.completes (by omega) (by omega) (by omega)), hs,
        hb.trans htake, h0⟩ ⟨hc, hdone⟩
    · refine iff_of_false ?_ fun h => hdone h.2
      rintro ⟨d, r, hd', hr, hs, -⟩
      cases hd'
      exact ha.disturbed (by omega) (by omega) hk (by omega) (.inr (.inl (by omega))) ((hcall _).mp hr) rfl hs
  | lost hle hc hlost =>
    refine iff_of_false ?_ fun h => hc h.1
    rintro ⟨d, r, hd', hr, hs, -⟩
    have hin := (hlost d hd').receive x
    exact exits_lost ((processRead_iff hin.checked).mp hr) (readStep_lost hin) rfl hs

def twoByteHeader : List UInt8 :=
  ascii ['P', 'O', 'S', 'T', ' ', '/', '3', ' ', 'H', 'T', 'T', 'P', '/', '1', '.', '1'] ++ [cr, lf] ++
    ascii ['C', 'o', 'n', 't', 'e', 'n', 't', '-', 'l', 'e', 'n', 'g', 't', 'h', ':', ' ', '2'] ++ [cr, lf, cr, lf]

def silent : ℕ → ℕ → HttpCode := fun _ _ => .noRequest

lemma twoByteHeader_declares : ∃ e, DeclaresBody silent default twoByteHeader 2 e :=
  ⟨_, rfl, rfl, rfl, rfl, by decide⟩

theorem body_reception_cut_between_bytes :
    (∃ e, DeclaresBody silent default twoByteHeader 2 e) ∧
      ¬ BodyReceived silent default twoByteHeader 2 (ascii ['a', 'b'])
        [twoByteHeader ++ ascii ['a']] (ascii ['b']) := by
  refine ⟨twoByteHeader_declares, ?_⟩
  rintro ⟨d, r, hd, hr, -⟩
  have hwait : ∃ w, ((serve silent (default : ReadState).init [twoByteHeader ++ ascii ['a']]).bind fun d =>
      processRead silent (d.receive (ascii ['b']))) = some (.returned .noRequest w) := ⟨_, rfl⟩
  obtain ⟨w, hw⟩ := hwait
  rw [hd, Option.bind_some, hr] at hw
  cases hw

theorem body_reception_cut_one_byte_more :
    (∃ e, DeclaresBody silent default twoByteHeader 2 e) ∧
      Calm silent twoByteHeader (ascii ['a', 'b', 'c']) [twoByteHeader ++ ascii ['a']] ∧
      BodyReceived silent default twoByteHeader 2 (ascii ['a', 'b', 'c'])
        [twoByteHeader ++ ascii ['a']] (ascii ['b', 'c']) := by
  -- `parse_line` passes over the `a`, so that the cut does no harm where one byte more comes with the `b`.
  have hcalm : Calm silent twoByteHeader (ascii ['a', 'b', 'c']) [twoByteHeader ++ ascii ['a']] := by
    rw [← List.nil_append [twoByteHeader ++ ascii ['a']], calm_append]
    refine ⟨fun p hp hl => ?_, fun hl => absurd hl (by decide), fun _ => by decide⟩
    cases List.prefix_nil.mp hp
    exact absurd hl (by decide)
  obtain ⟨e, he⟩ := twoByteHeader_declares
  exact ⟨⟨e, he⟩, hcalm, (body_reception_iff silent default e twoByteHeader (ascii ['a', 'b', 'c']) 2
    [twoByteHeader ++ ascii ['a']] (ascii ['b', 'c']) he (by decide) (by simp [ascii]) (by decide)
    (by decide)).mpr ⟨hcalm, by decide⟩⟩

end OceanServer.Http
