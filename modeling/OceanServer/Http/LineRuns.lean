import OceanServer.Http.LineEndings

/-! `parse_line` from every state that earlier calls leave, and the lines that it cuts from a stream. -/

namespace OceanServer.Http

open Library Library.CString

section Splitter

def NoNewCr (c d : ReadState) : Prop := ∀ i, d.readBuf i = cr → c.readBuf i = cr

/-- The states in which `parse_line` is called: at the start of a buffer, with more bytes, after a call, and
after the handler of a line, which moves neither index and writes no CR. -/
inductive Resumed : ReadState → Prop
  | start {c} : c.checkedIdx = 0 → Resumed c
  | receive {c} (bytes : List UInt8) : Resumed c → Resumed (c.receive bytes)
  | call {c} : Resumed c → Resumed (parseLine c).2
  | handled {c d} : Resumed c → SameIndices c d → NoNewCr c d → Resumed d

def FirstBreak (c : ReadState) (k : ℕ) : Prop :=
  c.checkedIdx ≤ k ∧ k < c.readIdx ∧ (c.readBuf k = cr ∨ c.readBuf k = lf) ∧ Plain c.readBuf c.checkedIdx k

structure CutsLine (c : ReadState) (r : LineStatus × ReadState) : Prop where
  ok : r.1 = .ok ↔ ∃ k, FirstBreak c k ∧ c.readBuf k = cr ∧ k + 1 < c.readIdx ∧ c.readBuf (k + 1) = lf
  ended : r.1 = .ok → ∀ k, FirstBreak c k →
    r.2 = { c with readBuf := (c.readBuf.set k 0).set (k + 1) 0, checkedIdx := k + 2 }
  waits : r.1 = .open ↔ (¬ ∃ k, FirstBreak c k) ∨ ∃ k, FirstBreak c k ∧ c.readBuf k = cr ∧ k + 1 = c.readIdx
  unbroken : (¬ ∃ k, FirstBreak c k) → r.2 = { c with checkedIdx := c.readIdx }
  pending : r.1 ≠ .ok → ∀ k, FirstBreak c k → r.2 = { c with checkedIdx := k }

def LooksBehind (c : ReadState) : Prop :=
  ∃ k, FirstBreak c k ∧ c.readBuf k = lf ∧ 1 < k ∧ c.readBuf (k - 1) = cr

lemma FirstBreak.unique {c : ReadState} {k l : ℕ} (hk : FirstBreak c k) (hl : FirstBreak c l) : k = l := by
  obtain ⟨hck, -, hbk, hpk⟩ := hk
  obtain ⟨hcl, -, hbl, hpl⟩ := hl
  rcases lt_trichotomy k l with h | h | h
  · exact absurd hbk (not_or.mpr (hpl k hck h))
  · exact h
  · exact absurd hbl (not_or.mpr (hpk l hcl h))

lemma FirstBreak.exists_iff {c : ReadState} {k : ℕ} (h : FirstBreak c k) {p : ℕ → Prop} :
    (∃ l, FirstBreak c l ∧ p l) ↔ p k := by
  constructor
  · rintro ⟨l, hl, hp⟩
    rwa [h.unique hl]
  · intro hp
    exact ⟨k, h, hp⟩

lemma not_firstBreak {c : ReadState} (h : Plain c.readBuf c.checkedIdx c.readIdx) : ¬ ∃ k, FirstBreak c k := by
  rintro ⟨k, hl, hk, hb, -⟩
  exact absurd hb (not_or.mpr (h k hl hk))

lemma Scan.resumable {c : ReadState} {r : LineStatus × ReadState} (hs : Scan c r) (h : Resumable c) :
    Resumable r.2 := by
  have hseek {k : ℕ} (hl : c.checkedIdx ≤ k) (hk : k ≤ c.readIdx) (hp : Plain c.readBuf c.checkedIdx k) :
      Resumable (c.seek k) :=
    ⟨hk, or_iff_not_imp_left.mpr fun h0 => h.no_cr_before hl hp (Nat.pos_of_ne_zero h0)⟩
  cases hs with
  | @line k hl hk hp hcr hlf =>
    refine ⟨hk, .inr ?_⟩
    simp [endLine, cr]
  | wait hl hp hk => exact hseek hl (by omega) hp
  | stray hl hk hp _ => exact hseek hl hk.le hp

lemma Resumed.resumable {c : ReadState} (h : Resumed c) : Resumable c := by
  induction h with
  | start h0 => exact ⟨by omega, .inl h0⟩
  | @receive c bytes _ ih =>
    refine ⟨Nat.le_add_right_of_le ih.checked, or_iff_not_imp_left.mpr fun h0 => ?_⟩
    have h0 : c.checkedIdx ≠ 0 := h0
    have hlt : c.checkedIdx - 1 < c.readIdx := by
      have := ih.checked
      omega
    exact (receive_before c bytes hlt).trans_ne (ih.before.resolve_left h0)
  | call _ ih => exact ih.scan.resumable ih
  | @handled c d _ hi hw ih =>
    obtain ⟨hr, hc⟩ := hi
    refine ⟨by rw [hr, hc]; exact ih.checked, ?_⟩
    rw [hc]
    exact ih.before.imp_right (mt (hw _))

lemma Scan.cutsLine {c : ReadState} {r : LineStatus × ReadState} (h : Scan c r) : CutsLine c r := by
  cases h with
  | @line k hl hk hp hcr hlf =>
    have hb : FirstBreak c k := ⟨hl, by omega, .inl hcr, hp⟩
    have hex : ∃ k, FirstBreak c k := ⟨k, hb⟩
    refine ⟨?_, ?_, ?_, ?_, ?_⟩
    · simp [hb.exists_iff, hcr, hk, hlf]
    · intro _ l hl
      rw [hl.unique hb]
      rfl
    · simp [hb.exists_iff, hex, hk.ne]
    · exact absurd hex
    · exact absurd rfl
  | @wait k hl hp hk =>
    rcases hk with rfl | ⟨hk, hcr⟩
    · have hno := not_firstBreak hp
      refine ⟨?_, by simp, ?_, fun _ => rfl, ?_⟩
      · refine iff_of_false (by simp) ?_
        rintro ⟨k, hb, -⟩
        exact hno ⟨k, hb⟩
      · simp [hno]
      · intro _ k hb
        exact absurd ⟨k, hb⟩ hno
    · have hb : FirstBreak c k := ⟨hl, by omega, .inl hcr, hp⟩
      refine ⟨?_, by simp, ?_, ?_, ?_⟩
      · simp [hb.exists_iff, hk]
      · simp [hb.exists_iff, hcr, hk]
      · exact absurd ⟨k, hb⟩
      · intro _ l hl
        rw [hl.unique hb]
        rfl
  | @stray k hl hk hp hbad =>
    have hcrlf : cr ≠ lf := by decide
    have hb : FirstBreak c k := ⟨hl, hk, by tauto, hp⟩
    have hex : ∃ k, FirstBreak c k := ⟨k, hb⟩
    refine ⟨?_, by simp, ?_, ?_, ?_⟩
    · refine iff_of_false (by simp) ?_
      rw [hb.exists_iff]
      rintro ⟨hcr, -, hlf⟩
      rcases hbad with ⟨-, -, hne⟩ | hlf'
      · exact hne hlf
      · exact hcrlf (hcr.symm.trans hlf')
    · refine iff_of_false (by simp) ?_
      rw [hb.exists_iff]
      rintro (hno | ⟨hcr, hend⟩)
      · exact hno hex
      · rcases hbad with ⟨-, hlt, -⟩ | hlf
        · omega
        · exact hcrlf (hcr.symm.trans hlf)
    · exact absurd hex
    · intro _ l hl
      rw [hl.unique hb]
      rfl

lemma Resumable.not_looksBehind {c : ReadState} (h : Resumable c) : ¬ LooksBehind c := by
  rintro ⟨k, ⟨hl, -, -, hp⟩, -, h1, hcr⟩
  exact h.no_cr_before hl hp (by omega) hcr

end Splitter

section Handlers

lemma NoNewCr.trans {c d e : ReadState} (h : NoNewCr c d) (h' : NoNewCr d e) : NoNewCr c e :=
  fun i hi => h i (h' i hi)

lemma noNewCr_of_eq {c d : ReadState} (h : d.readBuf = c.readBuf) : NoNewCr c d := by
  intro i hi
  rwa [h] at hi

lemma noNewCr_set {c d : ReadState} {k : ℕ} (h : d.readBuf = c.readBuf.set k 0) : NoNewCr c d := by
  intro i hi
  by_contra hne
  exact set_ne (by decide) hne (h ▸ hi)

lemma judgePage_noNewCr (c : ReadState) (url : ℕ) : NoNewCr c (judgePage c url).2 := by
  simp only [judgePage]
  split_ifs
  · exact noNewCr_of_eq rfl
  · intro i hi
    by_contra hne
    exact write_ne (by decide) hne hi
  · exact noNewCr_of_eq rfl

lemma stripHttps_noNewCr (c : ReadState) (url : ℕ) : NoNewCr c (stripHttps c url).2 := by
  simp only [stripHttps]
  split_ifs
  · split
    · exact noNewCr_of_eq rfl
    · exact judgePage_noNewCr c _
  · exact judgePage_noNewCr c url

lemma stripHttp_noNewCr {c : ReadState} {url : ℕ} {r : HttpCode × ReadState} (h : stripHttp c url = some r) :
    NoNewCr c r.2 := by
  simp only [stripHttp] at h
  split_ifs at h
  · obtain ⟨u, -, rfl⟩ := Option.map_eq_some_iff.mp h
    exact stripHttps_noNewCr c u
  · cases h
    exact stripHttps_noNewCr c url

lemma parseVersion_noNewCr {c : ReadState} {url : ℕ} {r : HttpCode × ReadState} (h : parseVersion c url = some r) :
    NoNewCr c r.2 := by
  simp only [parseVersion] at h
  split at h
  · cases h
    exact noNewCr_of_eq rfl
  · split_ifs at h
    · exact (noNewCr_set rfl).trans (stripHttp_noNewCr h)
    · cases h
      exact noNewCr_set rfl

lemma parseRequestLine_noNewCr {c : ReadState} {text : ℕ} {r : HttpCode × ReadState}
    (h : parseRequestLine c text = some r) : NoNewCr c r.2 := by
  simp only [parseRequestLine] at h
  split at h
  · cases h
    exact noNewCr_of_eq rfl
  · split_ifs at h
    · exact (noNewCr_set rfl).trans (parseVersion_noNewCr h)
    · exact (noNewCr_set rfl).trans (parseVersion_noNewCr h)
    · cases h
      exact noNewCr_set rfl

lemma parseHeaders_noNewCr (c : ReadState) (text : ℕ) : NoNewCr c (parseHeaders c text).2 := by
  apply noNewCr_of_eq
  simp only [parseHeaders]
  split_ifs <;> rfl

lemma parseContent_noNewCr {c : ReadState} {text : ℕ} {r : Option HttpCode × ReadState}
    (h : parseContent c text = some r) : NoNewCr c r.2 := by
  simp only [parseContent] at h
  split_ifs at h
  · cases h
    exact noNewCr_set rfl
  · cases h
    exact noNewCr_of_eq rfl

lemma switchState_noNewCr {junk : ℕ → ℕ → HttpCode} {c d : ReadState} {status : LineStatus}
    (h : switchState junk c = .inl (status, d)) : NoNewCr c d := by
  simp only [switchState] at h
  split at h
  · cases hq : parseRequestLine c.takeLine c.startLine with
    | none => simp [hq, onRequestLine] at h
    | some r =>
      simp only [hq, onRequestLine] at h
      split_ifs at h
      cases h
      exact parseRequestLine_noNewCr (c := c.takeLine) hq
  · simp only [onHeaders] at h
    split_ifs at h
    cases h
    exact parseHeaders_noNewCr c.takeLine c.startLine
  · rcases hq : parseContent c.takeLine c.startLine with - | ⟨code, e⟩
    · simp [hq, onContent] at h
    · have hi := parseContent_noNewCr (c := c.takeLine) hq
      cases code <;> simp only [hq, onContent] at h <;> split_ifs at h <;> cases h <;> exact hi

lemma readStep_resumed {junk : ℕ → ℕ → HttpCode} {s t : LineStatus × ReadState} (hs : Resumed s.2)
    (h : readStep junk s = .inl t) : Resumed t.2 := by
  have hswitch {c : ReadState} (hc : Resumed c) (hsw : switchState junk c = .inl t) : Resumed t.2 :=
    hc.handled (switchState_indices hsw) (switchState_noNewCr hsw)
  simp only [readStep] at h
  split_ifs at h
  · exact hswitch hs h
  · have hcall := hs.call
    rcases hp : parseLine s.2 with ⟨status, e⟩
    rw [hp] at h hcall
    cases status with
    | ok => exact hswitch hcall h
    | bad => cases h
    | «open» => cases h

end Handlers

section Streams

def Paired (stream : List UInt8) : Prop :=
  ∀ pre b post, stream = pre ++ b :: post → (b = cr → post.head? = some lf) ∧ (b = lf → pre.getLast? = some cr)

def lineText (c : ReadState) : List UInt8 := bytesAt c.readBuf c.startLine (c.checkedIdx - 2 - c.startLine)

def splitStep (s : ReadState × List (List UInt8)) :
    (ReadState × List (List UInt8)) ⊕ (LineStatus × ReadState × List (List UInt8)) :=
  match parseLine s.1 with
  | (.ok, c) => .inl (c.takeLine, s.2 ++ [lineText c])
  | (status, c) => .inr (status, c, s.2)

def splitLines (s : ReadState × List (List UInt8)) : Option (LineStatus × ReadState × List (List UInt8)) :=
  Loop.eval splitStep (s.1.readIdx - s.1.checkedIdx + 1) s

def splitStream : LineStatus × ReadState × List (List UInt8) → List (List UInt8) →
    Option (LineStatus × ReadState × List (List UInt8))
  -- The bytes arrive in chunks, and the loop runs after each of them; `LINE_BAD` does not stop it.
  | r, [] => some r
  | (_, c, lines), x :: xs => (splitLines (c.receive x, lines)).bind (splitStream · xs)

def OpenLine (frag : List UInt8) : Prop := NoBreak frag ∨ ∃ front, frag = front ++ [cr] ∧ NoBreak front

def pending (c : ReadState) : List UInt8 := bytesAt c.readBuf c.startLine (c.readIdx - c.startLine)

structure Cutting (bytes : List UInt8) (s : ReadState × List (List UInt8)) : Prop where
  scanning : Scanning s.1
  lines : ∀ line ∈ s.2, NoBreak line
  text : bytes = linesText s.2 ++ pending s.1

lemma Plain.noBreak {m : Memory} {lo hi : ℕ} (h : Plain m lo hi) : NoBreak (bytesAt m lo (hi - lo)) := by
  intro b hb
  obtain ⟨i, hi, rfl⟩ := List.mem_map.mp hb
  have hlt := List.mem_range.mp hi
  exact not_or.mpr (h (lo + i) (by omega) (by omega))

lemma Plain.append {m : Memory} {lo k hi : ℕ} (h : Plain m lo k) (h' : Plain m k hi) : Plain m lo hi := by
  intro i hl hh
  by_cases hk : i < k
  · exact h i hl hk
  · exact h' i (by omega) hh

lemma Scanning.receive {c : ReadState} (h : Scanning c) (x : List UInt8) : Scanning (c.receive x) := by
  have hc := h.checked
  have hs := h.start
  have hbuf {i : ℕ} (hi : i < c.readIdx) := receive_before c x hi
  refine ⟨h.start, Nat.le_add_right_of_le h.checked, ?_, ?_⟩
  · exact h.plain.congr fun i _ hi => hbuf (hi.trans_le hc)
  · by_cases h0 : c.startLine = 0
    · exact .inl h0
    · have hlt : c.startLine - 1 < c.readIdx := by omega
      exact .inr ((hbuf hlt).trans_ne (h.before.resolve_left h0))

lemma Scanning.seek {c : ReadState} (h : Scanning c) {k : ℕ} (hl : c.checkedIdx ≤ k) (hk : k ≤ c.readIdx)
    (hp : Plain c.readBuf c.checkedIdx k) : Scanning (c.seek k) :=
  ⟨h.start.trans hl, hk, h.plain.append hp, h.before⟩

lemma Scanning.takeLine {c : ReadState} {k : ℕ} (hk : k + 1 < c.readIdx) : Scanning (endLine c k).takeLine := by
  refine ⟨le_rfl, hk, fun i hl hh => absurd hl (not_le.mpr hh), .inr ?_⟩
  simp [ReadState.takeLine, endLine, cr]

lemma Cutting.receive {bytes : List UInt8} {c : ReadState} {lines : List (List UInt8)}
    (h : Cutting bytes (c, lines)) (x : List UInt8) : Cutting (bytes ++ x) (c.receive x, lines) := by
  have hs : c.startLine ≤ c.readIdx := h.scanning.start.trans h.scanning.checked
  have hnext := bytesAt_write_next c.readBuf c.startLine (c.readIdx - c.startLine) x
  have hlen : c.readIdx - c.startLine + x.length = c.readIdx + x.length - c.startLine := by omega
  rw [Nat.add_sub_cancel' hs, hlen] at hnext
  refine ⟨h.scanning.receive x, h.lines, ?_⟩
  rw [h.text, List.append_assoc]
  exact congrArg _ hnext.symm

lemma endLine_before (c : ReadState) {k i : ℕ} (h : i < k) : (endLine c k).readBuf i = c.readBuf i := by
  simp only [endLine]
  rw [set_of_ne _ _ (by omega), set_of_ne _ _ (by omega)]

lemma endLine_behind (c : ReadState) {k i : ℕ} (h : k + 2 ≤ i) : (endLine c k).readBuf i = c.readBuf i := by
  simp only [endLine]
  rw [set_of_ne _ _ (by omega), set_of_ne _ _ (by omega)]

lemma lineText_endLine {c : ReadState} {k : ℕ} (h : c.startLine ≤ k) :
    lineText (endLine c k) = bytesAt c.readBuf c.startLine (k - c.startLine) := by
  apply bytesAt_congr
  intro i _ hi
  simp only [endLine] at hi
  exact endLine_before c (by omega)

lemma pending_line {c : ReadState} {k : ℕ} (h : c.startLine ≤ k) (hk : k + 1 < c.readIdx) (hcr : c.readBuf k = cr)
    (hlf : c.readBuf (k + 1) = lf) :
    pending c = lineText (endLine c k) ++ (crlf ++ pending (endLine c k).takeLine) := by
  have hrest : pending (endLine c k).takeLine = bytesAt c.readBuf (k + 2) (c.readIdx - (k + 2)) := by
    apply bytesAt_congr
    intro i hi _
    exact endLine_behind c hi
  rw [pending, bytesAt_cut c.readBuf h (by omega), bytesAt_cut c.readBuf le_rfl hk, hcr, hlf, lineText_endLine h, hrest]
  simp [crlf, bytesAt]

lemma eq_lf_of_paired {pre post : List UInt8} {b : UInt8} (h : Paired (pre ++ cr :: b :: post)) : b = lf := by
  simpa using (h pre cr (b :: post) rfl).1 rfl

lemma not_paired_lf {lines : List (List UInt8)} {frag post : List UInt8} (hf : NoBreak frag) :
    ¬ Paired (linesText lines ++ (frag ++ lf :: post)) := by
  intro h
  have hlast := (h (linesText lines ++ frag) lf post (by simp)).2 rfl
  cases hfrag : frag.getLast? with
  | some b =>
    rw [List.getLast?_append, hfrag, Option.some_or] at hlast
    exact hf b (List.mem_of_getLast? hfrag) (.inl (Option.some.inj hlast))
  | none =>
    obtain rfl := List.getLast?_eq_none_iff.mp hfrag
    rw [List.append_nil] at hlast
    cases lines using List.reverseRecOn with
    | nil => simp [linesText] at hlast
    | append_singleton lines line =>
      simp [linesText, crlf] at hlast
      exact absurd hlast (by decide)

section Run

variable {stream bytes : List UInt8}

lemma Cutting.step {c : ReadState} {lines : List (List UInt8)} (hpaired : Paired stream) (hbytes : bytes <+: stream)
    (h : Cutting bytes (c, lines)) :
    Sum.elim (fun t => Cutting bytes t ∧ t.1.readIdx - t.1.checkedIdx < c.readIdx - c.checkedIdx)
      (fun r => r.1 = .open ∧ Cutting bytes r.2 ∧ OpenLine (pending r.2.1)) (splitStep (c, lines)) := by
  obtain ⟨more, rfl⟩ := hbytes
  have htext : bytes = linesText lines ++ pending c := h.text
  have hscanning : Scanning c := h.scanning
  have hstart := hscanning.start
  have hscan := parseLine_scan hscanning
  simp only [splitStep]
  generalize parseLine c = r at hscan ⊢
  cases hscan with
  | @line k hl hk hp hcr hlf =>
    have hplain : Plain c.readBuf c.startLine k := hscanning.plain.append hp
    have hline := lineText_endLine (hstart.trans hl)
    refine ⟨⟨Scanning.takeLine hk, ?_, ?_⟩, ?_⟩
    · intro line hm
      rcases List.mem_append.mp hm with hm | hm
      · exact h.lines line hm
      · rw [List.mem_singleton.mp hm, hline]
        exact hplain.noBreak
    · rw [htext, pending_line (hstart.trans hl) hk hcr hlf]
      simp [linesText]
    · simp only [endLine, ReadState.takeLine]
      omega
  | @wait k hl hp hk =>
    have hplain : Plain c.readBuf c.startLine k := hscanning.plain.append hp
    refine ⟨rfl, ⟨hscanning.seek hl (by omega) hp, h.lines, htext⟩, ?_⟩
    rcases hk with rfl | ⟨hk, hcr⟩
    · exact .inl hplain.noBreak
    · refine .inr ⟨_, ?_, hplain.noBreak⟩
      simp only [pending, ReadState.seek]
      rw [bytesAt_cut c.readBuf (hstart.trans hl) (by omega), hcr, ← hk]
      simp [bytesAt]
  | @stray k hl hk hp hbad =>
    have hplain : Plain c.readBuf c.startLine k := hscanning.plain.append hp
    exfalso
    rw [htext, pending, bytesAt_cut c.readBuf (hstart.trans hl) hk] at hpaired
    rcases hbad with ⟨hcr, hlt, hne⟩ | hlf
    · rw [bytesAt_cut c.readBuf le_rfl hlt, hcr] at hpaired
      have hcut : Paired ((linesText lines ++ bytesAt c.readBuf c.startLine (k - c.startLine)) ++
          cr :: c.readBuf (k + 1) :: (bytesAt c.readBuf (k + 1 + 1) (c.readIdx - (k + 1 + 1)) ++ more)) := by
        simpa [bytesAt] using hpaired
      exact hne (eq_lf_of_paired hcut)
    · rw [hlf, List.append_assoc, List.append_assoc] at hpaired
      exact not_paired_lf hplain.noBreak hpaired

lemma splitLines_cuts {s : ReadState × List (List UInt8)} (hpaired : Paired stream) (hbytes : bytes <+: stream)
    (h : Cutting bytes s) :
    ∃ t, splitLines s = some (.open, t) ∧ Cutting bytes t ∧ OpenLine (pending t.1) := by
  have hstep : ∀ s t, Cutting bytes s → splitStep s = .inl t →
      Cutting bytes t ∧ t.1.readIdx - t.1.checkedIdx < s.1.readIdx - s.1.checkedIdx := by
    rintro ⟨c, lines⟩ t hs ht
    simpa [ht] using hs.step hpaired hbytes
  have hinv : ∀ s, Cutting bytes s → Sum.elim (Cutting bytes)
      (fun r => r.1 = .open ∧ Cutting bytes r.2 ∧ OpenLine (pending r.2.1)) (splitStep s) := by
    rintro ⟨c, lines⟩ hs
    have := hs.step hpaired hbytes
    cases hr : splitStep (c, lines) with
    | inl t => exact (hstep _ t hs hr).1
    | inr r => simpa [hr] using this
  obtain ⟨⟨status, t⟩, hr⟩ := Loop.eval_total (Cutting bytes) (fun s => s.1.readIdx - s.1.checkedIdx) hstep h
    (Nat.lt_succ_self _)
  obtain ⟨rfl, ht⟩ := (Loop.exits_of_eval hr).invariant hinv h
  exact ⟨t, hr, ht⟩

lemma splitStream_cuts (hpaired : Paired stream) {chunks : List (List UInt8)} {s : ReadState × List (List UInt8)}
    (hbytes : bytes ++ chunks.flatten <+: stream) (h : Cutting bytes s) (hopen : OpenLine (pending s.1)) :
    ∃ t, splitStream (.open, s) chunks = some (.open, t) ∧ Cutting (bytes ++ chunks.flatten) t ∧
      OpenLine (pending t.1) := by
  induction chunks generalizing bytes s with
  | nil => exact ⟨s, rfl, by simpa using h, hopen⟩
  | cons x xs ih =>
    obtain ⟨c, lines⟩ := s
    rw [List.flatten_cons, ← List.append_assoc] at hbytes ⊢
    have hx : bytes ++ x <+: stream := (List.prefix_append _ _).trans hbytes
    obtain ⟨t, ht, hcut, hline⟩ := splitLines_cuts hpaired hx (h.receive x)
    simpa [splitStream, ht] using ih hbytes hcut hline

lemma splitStep_resumed {s t : ReadState × List (List UInt8)} (hs : Resumed s.1) (h : splitStep s = .inl t) :
    Resumed t.1 := by
  have hcall := hs.call
  rcases hp : parseLine s.1 with ⟨status, c⟩
  rw [splitStep, hp] at h
  rw [hp] at hcall
  cases status with
  | ok =>
    cases h
    exact hcall.handled ⟨rfl, rfl⟩ (noNewCr_of_eq rfl)
  | bad => cases h
  | «open» => cases h

end Run

theorem parse_line_splits :
    (∀ c, Resumed c → CutsLine c (parseLine c) ∧ ¬ LooksBehind c) ∧
    (∀ junk s t, Resumed s.2 → readStep junk s = .inl t → Resumed t.2) ∧
    (∀ s t, Resumed s.1 → splitStep s = .inl t → Resumed t.1) ∧
    ∀ (c : ReadState) (stream : List UInt8) (chunks : List (List UInt8)), c.readIdx = 0 → c.checkedIdx = 0 →
      c.startLine = 0 → Paired stream → chunks.flatten <+: stream →
      ∃ d lines frag, splitStream (.open, c, []) chunks = some (.open, d, lines) ∧
        chunks.flatten = linesText lines ++ frag ∧ (∀ line ∈ lines, NoBreak line) ∧ OpenLine frag ∧
        (chunks.flatten = stream → NoBreak frag) := by
  refine ⟨?_, fun junk s t => readStep_resumed, fun s t => splitStep_resumed, ?_⟩
  · intro c hc
    have hr := hc.resumable
    exact ⟨hr.scan.cutsLine, hr.not_looksBehind⟩
  · intro c stream chunks hread hchecked hstart hpaired hbytes
    have hpending : pending c = [] := by simp [pending, bytesAt, hread]
    have hscanning : Scanning c := ⟨by omega, by omega, fun i hl hh => by omega, .inl hstart⟩
    have hcut : Cutting [] (c, []) := ⟨hscanning, by simp, by simp [linesText, hpending]⟩
    have hopen : OpenLine (pending c) := .inl (by simp [hpending, NoBreak])
    obtain ⟨⟨d, lines⟩, hd, hcuts, hline⟩ := splitStream_cuts hpaired hbytes hcut hopen
    refine ⟨d, lines, pending d, hd, hcuts.text, hcuts.lines, hline, fun hall => ?_⟩
    -- at the end of the stream no LF can follow a last CR
    rcases hline with hline | ⟨front, hfront, -⟩
    · exact hline
    · have hlast := (hpaired (linesText lines ++ front) cr [] ?_).1 rfl
      · simp at hlast
      · rw [← hall, List.append_assoc, ← hfront]
        exact hcuts.text

theorem parse_line_splits_cut :
    let c := (default : ReadState).init
    let chunks : List (List UInt8) := [[97, cr], [lf]]
    Resumed c ∧ ¬ LooksBehind c ∧ Paired chunks.flatten ∧ ∃ d lines, splitStream (.open, c, []) chunks =
      some (.open, d, lines) ∧ ∃ frag, chunks.flatten = linesText lines ++ frag ∧ NoBreak frag := by
  intro c chunks
  have hc : Resumed c := .start rfl
  have hpaired : Paired chunks.flatten := by
    intro pre b post h
    change [97, cr, lf] = _ at h
    rcases pre with - | ⟨x, - | ⟨y, - | ⟨z, pre⟩⟩⟩
    · cases h
      decide
    · cases h
      decide
    · cases h
      decide
    · simp at h
  obtain ⟨d, lines, frag, hd, htext, -, -, hfrag⟩ :=
    parse_line_splits.2.2.2 c chunks.flatten chunks rfl rfl rfl hpaired List.prefix_rfl
  exact ⟨hc, (parse_line_splits.1 c hc).2, hpaired, d, lines, hd, frag, htext, hfrag rfl⟩

end Streams

end OceanServer.Http
