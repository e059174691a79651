import OceanServer.Http.Body
import OceanServer.Http.RequestLine
import OceanServer.Http.Response

/-! Line ends other than CR LF in the header block. `parse_line` reports them as `LINE_BAD`, and
`process_read` then leaves its loop as it does for an open line. -/

namespace OceanServer.Http

open Library Library.CString

section Streams

def NoBreak (s : List UInt8) : Prop := ∀ b ∈ s, ¬ (b = cr ∨ b = lf)

def linesText (lines : List (List UInt8)) : List UInt8 := lines.flatMap (· ++ crlf)

inductive Stray : List UInt8 → Prop
  | afterCr {b} : b ≠ lf → Stray [cr, b]
  | alone : Stray [lf]

/-- Whole lines and the beginning of one that a stray line end follows, the last byte of which is the
`n`th of the stream. The lines behind the first one are not empty, so the header block has not ended. -/
def Malformed (bytes : List UInt8) (n : ℕ) : Prop :=
  ∃ lines frag stray rest, bytes = linesText lines ++ (frag ++ (stray ++ rest)) ∧ (∀ line ∈ lines, NoBreak line) ∧
    (∀ line ∈ lines.tail, line ≠ []) ∧ NoBreak frag ∧ Stray stray ∧
    n = (linesText lines).length + (frag.length + stray.length)

def WholeHead (head : List UInt8) : Prop :=
  ∃ first others, head = linesText (first :: others) ++ crlf ∧ NoBreak first ∧
    ∀ line ∈ others, NoBreak line ∧ line ≠ []

def Extendable (bytes : List UInt8) : Prop := ∃ ext head body, bytes ++ ext = head ++ body ∧ WholeHead head

def FirstLine (bytes first : List UInt8) : Prop := NoBreak first ∧ ∃ rest, bytes = first ++ (crlf ++ rest)

def Refused (line : List UInt8) : Prop := (∀ method path, ¬ RequestLine line method path) ∧ ¬ NoPath line

def cString (line : List UInt8) : List UInt8 := line.takeWhile (· ≠ 0)

def BadFirstLine (bytes : List UInt8) : Prop := ∃ first, FirstLine bytes first ∧ Refused (cString first)

def Leave.code (answer : ReadState → HttpCode) : Leave → Option HttpCode
  | .returned code _ => some code
  | .doRequest _ d => some (answer d)
  | .fault => none

/-- Whatever files there are, a call returns `BAD_REQUEST` before or with the one that brings the `n`th byte,
and those before it return `NO_REQUEST` on bytes that more bytes can make a whole header block. -/
structure Rejected (junk : ℕ → ℕ → HttpCode) (c : ReadState) (chunks : List (List UInt8)) (n : ℕ) : Prop where
  inTime : ∀ answer : ReadState → HttpCode, ∃ pre x post d l, chunks = pre ++ x :: post ∧ pre.flatten.length < n ∧
    serve junk c.init pre = some d ∧ processRead junk (d.receive x) = some l ∧ l.code answer = some .badRequest
  unfinished : ∀ pre d, pre <+: chunks → serve junk c.init pre = some d → Extendable pre.flatten

end Streams

section Splitting

variable {bytes more first first' frag stray rest : List UInt8} {n k : ℕ}

lemma FirstLine.at_break {b : UInt8} (h : FirstLine bytes first) (hs : NoBreak frag) (hb : b = cr ∨ b = lf)
    (ht : bytes = frag ++ b :: rest) : first = frag ∧ b = cr ∧ ∃ rest', rest = lf :: rest' := by
  obtain ⟨hfirst, rest', hr⟩ := h
  obtain ⟨rfl, rfl, rfl⟩ := first_break_unique hs hfirst hb (.inl rfl) (ht.symm.trans hr)
  exact ⟨rfl, rfl, rest', rfl⟩

lemma FirstLine.unique (h : FirstLine bytes first) (h' : FirstLine bytes first') : first = first' := by
  obtain ⟨hp, rest, hr⟩ := h'
  exact (h.at_break hp (.inl rfl) hr).1

lemma FirstLine.mono (h : FirstLine bytes first) (hp : bytes <+: more) : FirstLine more first := by
  obtain ⟨hn, rest, rfl⟩ := h
  obtain ⟨ys, rfl⟩ := hp
  exact ⟨hn, rest ++ ys, by simp⟩

lemma FirstLine.length_le (h : FirstLine bytes first) : first.length + 2 ≤ bytes.length := by
  obtain ⟨-, rest, rfl⟩ := h
  simp [crlf]

lemma NoBreak.not_firstLine (h : NoBreak bytes) : ¬ FirstLine bytes first := by
  rintro ⟨-, rest, rfl⟩
  exact h cr (by simp [crlf]) (.inl rfl)

lemma firstLine_of_crlf (hk : k + 1 < bytes.length) (h : NoBreak (bytes.take k)) (hcr : bytes[k] = cr)
    (hlf : bytes[k + 1] = lf) : FirstLine bytes (bytes.take k) := by
  refine ⟨h, bytes.drop (k + 2), ?_⟩
  conv_lhs => rw [← List.take_append_drop k bytes, List.drop_eq_getElem_cons (by omega), hcr,
    List.drop_eq_getElem_cons hk, hlf]
  rfl

lemma not_firstLine_of_break (hk : k < bytes.length) (h : NoBreak (bytes.take k))
    (hb : bytes[k] = cr ∧ bytes[k + 1]? ≠ some lf ∨ bytes[k] = lf) : ¬ FirstLine bytes first := by
  intro hf
  have hcut : bytes = bytes.take k ++ bytes[k] :: bytes.drop (k + 1) := by simp
  rcases hb with ⟨hcr, hne⟩ | hlf
  · obtain ⟨-, -, rest, hr⟩ := hf.at_break h (.inl hcr) hcut
    exact hne (by rw [← List.head?_drop, hr, List.head?_cons])
  · have hcr := (hf.at_break h (.inr hlf) hcut).2.1
    exact absurd (hlf.symm.trans hcr) (by decide)

lemma Stray.not_firstLine (hs : Stray stray) (hf : NoBreak frag) : ¬ FirstLine (frag ++ (stray ++ rest)) first := by
  intro h
  cases hs with
  | afterCr hb =>
    obtain ⟨-, -, rest', hr⟩ := h.at_break hf (.inl rfl) rfl
    exact hb (List.cons.inj hr).1
  | alone => exact absurd (h.at_break hf (.inr rfl) rfl).2.1 (by decide)

lemma firstLine_cons (h : NoBreak first) (lines : List (List UInt8)) (rest : List UInt8) :
    FirstLine (linesText (first :: lines) ++ rest) first :=
  ⟨h, linesText lines ++ rest, by simp [linesText]⟩

lemma Malformed.firstLine_before (h : Malformed bytes n) (hf : FirstLine bytes first) : first.length + 2 ≤ n := by
  obtain ⟨lines, frag, stray, rest, rfl, hwhole, -, hbegun, hstray, rfl⟩ := h
  cases lines with
  | nil => exact absurd hf (hstray.not_firstLine hbegun)
  | cons line lines =>
    obtain rfl := hf.unique (firstLine_cons (hwhole line List.mem_cons_self) lines _)
    simp only [linesText, List.flatMap_cons, List.length_append, crlf, List.length_cons, List.length_nil]
    omega

lemma linesText_cons (line : List UInt8) (lines : List (List UInt8)) :
    linesText (line :: lines) = line ++ (crlf ++ linesText lines) := by simp [linesText]

lemma linesText_not_head {lines others : List (List UInt8)} (rest body : List UInt8) (hs : Stray stray)
    (hf : NoBreak frag) (hl : ∀ line ∈ lines, NoBreak line ∧ line ≠ []) (ho : ∀ line ∈ others, NoBreak line) :
    linesText lines ++ (frag ++ (stray ++ rest)) ≠ linesText others ++ (crlf ++ body) := by
  have hempty : FirstLine (crlf ++ body) [] := ⟨by simp [NoBreak], body, rfl⟩
  induction lines generalizing others with
  | nil =>
    intro h
    cases others with
    | nil => exact hs.not_firstLine hf ((show _ = crlf ++ body from h) ▸ hempty)
    | cons other others => exact hs.not_firstLine hf (h ▸ firstLine_cons (ho other List.mem_cons_self) others _)
  | cons line lines ih =>
    intro h
    obtain ⟨hline, hne⟩ := hl line List.mem_cons_self
    have hfirst := firstLine_cons hline lines (frag ++ (stray ++ rest))
    cases others with
    | nil => exact hne (hfirst.unique ((show _ = crlf ++ body from h) ▸ hempty))
    | cons other others =>
      obtain rfl := hfirst.unique (h ▸ firstLine_cons (ho other List.mem_cons_self) others _)
      refine ih (fun l hm => hl l (List.mem_cons_of_mem _ hm)) (fun l hm => ho l (List.mem_cons_of_mem _ hm)) ?_
      simpa only [linesText_cons, List.append_assoc, List.append_cancel_left_eq] using h

lemma Malformed.not_extendable (h : Malformed bytes n) : ¬ Extendable bytes := by
  obtain ⟨lines, frag, stray, rest, rfl, hwhole, hheader, hbegun, hstray, -⟩ := h
  rintro ⟨ext, head, body, ht, first, others, rfl, hfirst, hothers⟩
  simp only [List.append_assoc] at ht
  cases lines with
  | nil => exact hstray.not_firstLine hbegun (ht ▸ firstLine_cons hfirst others _)
  | cons line lines =>
    have hline := firstLine_cons (hwhole line List.mem_cons_self) lines (frag ++ (stray ++ (rest ++ ext)))
    obtain rfl := hline.unique (ht ▸ firstLine_cons hfirst others _)
    refine linesText_not_head (rest ++ ext) body hstray hbegun
      (fun l hm => ⟨hwhole l (List.mem_cons_of_mem _ hm), hheader l hm⟩) (fun l hm => (hothers l hm).1) ?_
    simpa only [linesText_cons, List.append_assoc, List.append_cancel_left_eq] using ht

end Splitting

section FirstLines

variable {junk : ℕ → ℕ → HttpCode} {c d e : ReadState} {bytes first : List UInt8} {l : Leave} {k : ℕ}

lemma received_byte (c : ReadState) (h : k < bytes.length) : (c.init.receive bytes).readBuf k = bytes[k] := by
  have hb := write_inside c.init.readBuf 0 bytes h
  rwa [Nat.zero_add] at hb

lemma plain_take (hk : k ≤ bytes.length) (h : Plain (c.init.receive bytes).readBuf 0 k) : NoBreak (bytes.take k) := by
  intro b hb
  obtain ⟨i, hi, rfl⟩ := List.getElem_of_mem hb
  have hik : i < k := by simp at hi; omega
  have := h i (Nat.zero_le _) hik
  rw [received_byte c (by omega)] at this
  rw [List.getElem_take]
  exact not_or.mpr this

def AtFirstLine (c : ReadState) (bytes : List UInt8) (d : ReadState) : Prop :=
  ∃ k ≤ bytes.length, Plain (c.init.receive bytes).readBuf 0 k ∧ d = (c.init.receive bytes).seek k

lemma atFirstLine_init (c : ReadState) : AtFirstLine c [] c.init :=
  ⟨0, le_rfl, fun _ _ hi => absurd hi (Nat.not_lt_zero _), by rw [receive_nil]; rfl⟩

lemma AtFirstLine.receive (h : AtFirstLine c bytes d) (ys : List UInt8) : AtFirstLine c (bytes ++ ys) (d.receive ys) := by
  obtain ⟨k, hk, hp, rfl⟩ := h
  have hread : (c.init.receive bytes).readIdx = bytes.length := Nat.zero_add _
  refine ⟨k, by simp; omega, ?_, by rw [receive_append]; rfl⟩
  rw [receive_append]
  exact hp.congr fun i _ hi => receive_before _ ys (by omega)

lemma AtFirstLine.scan (h : AtFirstLine c bytes d) :
    (∃ first, FirstLine bytes first ∧ parseLine d = (.ok, endLine (c.init.receive bytes) first.length)) ∨
      ((∀ first, ¬ FirstLine bytes first) ∧
        ∃ status e, parseLine d = (status, e) ∧ status ≠ .ok ∧ AtFirstLine c bytes e) := by
  obtain ⟨k₀, hk₀, hplain₀, rfl⟩ := h
  have hread : (c.init.receive bytes).readIdx = bytes.length := Nat.zero_add _
  have hsc := parseLine_scan (c := (c.init.receive bytes).seek k₀) ⟨Nat.zero_le _, by rw [← hread] at hk₀; exact hk₀,
    hplain₀, .inl rfl⟩
  -- the line is read up to `k`, from its beginning
  have hplain : ∀ k, Plain (c.init.receive bytes).readBuf k₀ k → Plain (c.init.receive bytes).readBuf 0 k := by
    intro k hp i _ hi
    by_cases hik : i < k₀
    · exact hplain₀ i (Nat.zero_le _) hik
    · exact hp i (by omega) hi
  generalize parseLine ((c.init.receive bytes).seek k₀) = p at hsc ⊢
  cases hsc with
  | @line k hl hk hp hcr hlf =>
    replace hk : k + 1 < bytes.length := hread ▸ hk
    have hfirst := firstLine_of_crlf hk (plain_take (by omega) (hplain k hp))
      ((received_byte c (by omega)).symm.trans hcr) ((received_byte c hk).symm.trans hlf)
    refine .inl ⟨bytes.take k, hfirst, ?_⟩
    rw [List.length_take, min_eq_left (by omega)]
    rfl
  | @wait k hl hp hend =>
    replace hend : k = bytes.length ∨ (k + 1 = bytes.length ∧ (c.init.receive bytes).readBuf k = cr) := hread ▸ hend
    have hno := plain_take (by omega) (hplain k hp)
    refine .inr ⟨fun first => ?_, .open, _, rfl, by decide, k, by omega, hplain k hp, rfl⟩
    rcases hend with rfl | ⟨hend, hcr⟩
    · rw [List.take_length] at hno
      exact hno.not_firstLine
    · have hb : bytes[k] = cr := (received_byte c (by omega)).symm.trans hcr
      exact not_firstLine_of_break (by omega) hno (.inl ⟨hb, by simp [hend]⟩)
  | @stray k hl hk hp hbad =>
    replace hk : k < bytes.length := hread ▸ hk
    have hno := plain_take hk.le (hplain k hp)
    refine .inr ⟨fun first => not_firstLine_of_break hk hno ?_, .bad, _, rfl, by decide, k, hk.le, hplain k hp, rfl⟩
    rcases hbad with ⟨hcr, hk1, hne⟩ | hlf
    · replace hk1 : k + 1 < bytes.length := hread ▸ hk1
      refine .inl ⟨(received_byte c hk).symm.trans hcr, fun h => hne ((received_byte c hk1).trans ?_)⟩
      rwa [List.getElem?_eq_getElem hk1, Option.some.injEq] at h
    · exact .inr ((received_byte c hk).symm.trans hlf)

end FirstLines

section PastFirstLine

variable {junk : ℕ → ℕ → HttpCode} {c d e : ReadState} {bytes first : List UInt8} {l : Leave}

def Leave.Past : Leave → Prop
  | .returned code d => code ≠ .badRequest ∧ d.checkState ≠ .requestLine
  | .doRequest _ _ => True
  | .fault => True

def Behind (s : LineStatus × ReadState) : Prop := s.2.checkState ≠ .requestLine

lemma parseHeaders_past (c : ReadState) (text : ℕ) :
    (parseHeaders c text).1 ≠ .badRequest ∧
      ((parseHeaders c text).2.checkState = c.checkState ∨ (parseHeaders c text).2.checkState = .content) := by
  simp only [parseHeaders]
  split_ifs <;> simp

lemma parseContent_checkState {text : ℕ} {r : Option HttpCode × ReadState} (h : parseContent c text = some r) :
    r.2.checkState = c.checkState := by
  simp only [parseContent] at h
  split_ifs at h <;> cases h <;> rfl

lemma switchState_past (junk : ℕ → ℕ → HttpCode) (h : c.checkState ≠ .requestLine) :
    Sum.elim Behind Leave.Past (switchState junk c) := by
  rw [switchState]
  cases hphase : c.checkState with
  | requestLine => exact absurd hphase h
  | header =>
    obtain ⟨hcode, hnext⟩ := parseHeaders_past c.takeLine c.startLine
    have hd : (parseHeaders c.takeLine c.startLine).2.checkState ≠ .requestLine := by
      rcases hnext with hs | hs <;> rw [hs]
      · exact h
      · decide
    simp only [onHeaders, if_neg hcode]
    split_ifs
    · trivial
    · exact hd
  | content =>
    rcases hp : parseContent c.takeLine c.startLine with - | ⟨code, d⟩
    · trivial
    · have hd : d.checkState ≠ .requestLine := (parseContent_checkState hp).trans_ne h
      cases code with
      | none => simp only [onContent]; split_ifs <;> trivial
      | some ret => simp only [onContent]; split_ifs <;> trivial

lemma parseLineLoop_checkState (n : ℕ) (c : ReadState) : (parseLineLoop n c).2.checkState = c.checkState := by
  induction n generalizing c with
  | zero => rfl
  | succ n ih =>
    simp only [parseLineLoop]
    split_ifs <;> first | rfl | exact ih _

lemma readStep_past (junk : ℕ → ℕ → HttpCode) {s : LineStatus × ReadState} (h : Behind s) :
    Sum.elim Behind Leave.Past (readStep junk s) := by
  have hline : ∀ status e, parseLine s.2 = (status, e) → e.checkState ≠ .requestLine := by
    intro status e he
    have := parseLineLoop_checkState (s.2.readIdx - s.2.checkedIdx) s.2
    rw [← parseLine, he] at this
    exact this.trans_ne h
  have hi := readStep_iteration junk s
  generalize readStep junk s = r at hi
  cases hi with
  | body => exact switchState_past junk h
  | line _ hp => exact switchState_past junk (hline _ _ hp)
  | wait _ hp => exact ⟨by decide, hline _ _ hp⟩

lemma exits_past {s : LineStatus × ReadState} (h : Behind s) (hl : Loop.Exits (readStep junk) s l) : l.Past :=
  hl.invariant (fun _ hs => readStep_past junk hs) h

lemma processRead_past (h : c.checkState ≠ .requestLine) (hl : processRead junk c = some l) : l.Past :=
  exits_past (show Behind (.ok, c) from h) (Loop.exits_of_eval hl)

lemma str_first (c : ReadState) (hf : FirstLine bytes first) (hfit : bytes.length ≤ readBufferSize) :
    str readBufferSize (endLine (c.init.receive bytes) first.length).takeLine.readBuf 0 = cString first := by
  obtain ⟨-, rest, rfl⟩ := hf
  have hlen : (first ++ (crlf ++ rest)).length = first.length + 2 + rest.length := by simp [crlf]; omega
  refine str_takeWhile (by omega) (fun i hi => ?_) ?_
  · rw [Nat.zero_add]
    change (((c.init.receive _).readBuf.set _ _).set _ _) i = _
    rw [set_of_ne _ _ (by omega), set_of_ne _ _ (by omega), received_byte c (by omega)]
    exact List.getElem_append_left hi
  · rw [Nat.zero_add]
    exact (set_of_ne _ _ (by omega)).trans (set_self _ _ _)

lemma exits_first (hf : FirstLine bytes first) (hfit : bytes.length ≤ readBufferSize)
    (hstep : readStep junk (.ok, d) = switchState junk (endLine (c.init.receive bytes) first.length)) :
    (Refused (cString first) ∧ ∃ e, Loop.Exits (readStep junk) (.ok, d) (.returned .badRequest e)) ∨
      (¬ Refused (cString first) ∧ ∀ l, Loop.Exits (readStep junk) (.ok, d) l → l.Past) := by
  have hend : 0 + (cString first).length < readBufferSize := by
    have hle : (cString first).length ≤ first.length := takeWhile_length_le _ first
    have hlen := hf.length_le
    omega
  replace hstep : readStep junk (.ok, d) =
    onRequestLine (parseRequestLine (endLine (c.init.receive bytes) first.length).takeLine 0) := hstep
  rcases parseRequestLine_cases (str_first c hf hfit) hend with
    ⟨hno, hr⟩ | ⟨hpath, ⟨code, e⟩, hr, ⟨hnone, hcode⟩ | ⟨method, path, hline, ha⟩⟩
  · rw [hr] at hstep
    refine .inr ⟨fun h => h.2 hno, fun l hl => ?_⟩
    obtain rfl := hl.unique (.stop hstep)
    trivial
  · rw [hr, onRequestLine, if_pos hcode] at hstep
    exact .inl ⟨⟨hnone, hpath⟩, e, .stop hstep⟩
  · rw [hr, onRequestLine, if_neg (ha.code.trans_ne (by decide))] at hstep
    have hbehind : Behind (.ok, e) := ha.phase.trans_ne (by decide)
    exact .inr ⟨fun h => h.1 method path hline, fun l hl => exits_past hbehind ((Loop.exits_next hstep).mp hl)⟩

lemma AtFirstLine.call (junk : ℕ → ℕ → HttpCode) (h : AtFirstLine c bytes d) (hfit : bytes.length ≤ readBufferSize) :
    ((∀ first, ¬ FirstLine bytes first) ∧
      ∃ e, processRead junk d = some (.returned .noRequest e) ∧ AtFirstLine c bytes e) ∨
    (BadFirstLine bytes ∧ ∃ e, processRead junk d = some (.returned .badRequest e)) ∨
    ((∃ first, FirstLine bytes first ∧ ¬ Refused (cString first)) ∧ ∀ l, processRead junk d = some l → l.Past) := by
  have hphase : d.checkState = .requestLine ∧ d.checkedIdx ≤ d.readIdx := by
    obtain ⟨k, hk, -, rfl⟩ := h
    exact ⟨rfl, hk.trans (Nat.zero_add _).ge⟩
  have hstep : readStep junk (.ok, d) = onLine junk (parseLine d) := by
    rw [readStep, if_neg]
    simp [hphase.1]
  simp only [processRead_iff hphase.2]
  rcases h.scan with ⟨first, hf, hp⟩ | ⟨hno, status, e, hp, hne, he⟩
  · rw [hp] at hstep
    rcases exits_first hf hfit hstep with ⟨hbad, hexit⟩ | ⟨hok, hpast⟩
    · exact .inr (.inl ⟨⟨first, hf, hbad⟩, hexit⟩)
    · exact .inr (.inr ⟨⟨first, hf, hok⟩, hpast⟩)
  · refine .inl ⟨hno, e, .stop ?_, he⟩
    rw [hstep, hp]
    cases status with
    | ok => exact absurd rfl hne
    | bad | «open» => rfl

end PastFirstLine

section Chunks

variable {junk : ℕ → ℕ → HttpCode} {c d e : ReadState} {bytes first y : List UInt8} {pre chunks : List (List UInt8)}
  {n : ℕ}

def Waits (c : ReadState) (bytes : List UInt8) (d : ReadState) : Prop :=
  AtFirstLine c bytes d ∧ (∀ first, ¬ FirstLine bytes first) ∨
    d.checkState ≠ .requestLine ∧ ∃ first, FirstLine bytes first ∧ ¬ Refused (cString first)

lemma waits_init (c : ReadState) : Waits c [] c.init := by
  refine .inl ⟨atFirstLine_init c, ?_⟩
  rintro first ⟨-, rest, hr⟩
  simp [crlf] at hr

lemma Waits.noRequest (h : Waits c bytes d) (hfit : (bytes ++ y).length ≤ readBufferSize)
    (hc : processRead junk (d.receive y) = some (.returned .noRequest e)) : Waits c (bytes ++ y) e := by
  rcases h with ⟨hd, -⟩ | ⟨hd, first, hf, hok⟩
  · rcases (hd.receive y).call junk hfit with ⟨hno, e', he', hat⟩ | ⟨-, e', he'⟩ | ⟨hok, hpast⟩
    · cases hc.symm.trans he'
      exact .inl ⟨hat, hno⟩
    · cases hc.symm.trans he'
    · exact .inr ⟨(hpast _ hc).2, hok⟩
  · exact .inr ⟨(processRead_past (c := d.receive y) hd hc).2, first, hf.mono (List.prefix_append _ _), hok⟩

lemma Waits.badRequest (h : Waits c bytes d) (hfit : (bytes ++ y).length ≤ readBufferSize)
    (hc : processRead junk (d.receive y) = some (.returned .badRequest e)) : BadFirstLine (bytes ++ y) := by
  rcases h with ⟨hd, -⟩ | ⟨hd, -⟩
  · rcases (hd.receive y).call junk hfit with ⟨-, e', he', -⟩ | ⟨hbad, -⟩ | ⟨-, hpast⟩
    · cases hc.symm.trans he'
    · exact hbad
    · exact absurd rfl (hpast _ hc).1
  · exact absurd rfl (processRead_past (c := d.receive y) hd hc).1

lemma serve_waits (hfit : pre.flatten.length ≤ readBufferSize) (h : serve junk c.init pre = some d) :
    Waits c pre.flatten d := by
  induction pre using List.reverseRecOn generalizing d with
  | nil =>
    cases h
    exact waits_init c
  | append_singleton pre y ih =>
    rw [flatten_snoc] at hfit ⊢
    have hpre : pre.flatten.length ≤ readBufferSize := (List.prefix_append _ y).length_le.trans hfit
    obtain ⟨w, hw, hd⟩ := Option.bind_eq_some_iff.mp ((serve_append junk c.init pre [y]).symm.trans h)
    exact (ih hpre hw).noRequest hfit (serve_single.mp hd)

lemma serve_open (junk : ℕ → ℕ → HttpCode) (c : ReadState) (hfit : pre.flatten.length ≤ readBufferSize)
    (h : ∀ first, ¬ FirstLine pre.flatten first) :
    ∃ d, serve junk c.init pre = some d ∧ AtFirstLine c pre.flatten d := by
  induction pre using List.reverseRecOn with
  | nil => exact ⟨c.init, rfl, atFirstLine_init c⟩
  | append_singleton pre y ih =>
    rw [flatten_snoc] at hfit h ⊢
    have hpre : pre.flatten.length ≤ readBufferSize := (List.prefix_append _ y).length_le.trans hfit
    obtain ⟨w, hw, hat⟩ := ih hpre (fun first hf => h first (hf.mono (List.prefix_append _ _)))
    rcases (hat.receive y).call junk hfit with ⟨-, e, he, hat'⟩ | ⟨⟨first, hf, -⟩, -⟩ | ⟨⟨first, hf, -⟩, -⟩
    · exact ⟨e, by rw [serve_append, hw, Option.bind_some, serve_single.mpr he], hat'⟩
    · exact absurd hf (h first)
    · exact absurd hf (h first)

lemma exists_chunk (h0 : 0 < n) (h : n ≤ chunks.flatten.length) :
    ∃ pre x post, chunks = pre ++ x :: post ∧ pre.flatten.length < n ∧ n ≤ (pre ++ [x]).flatten.length := by
  induction chunks using List.reverseRecOn with
  | nil => simp at h; omega
  | append_singleton chunks y ih =>
    by_cases hn : n ≤ chunks.flatten.length
    · obtain ⟨pre, x, post, rfl, hlt, hle⟩ := ih hn
      exact ⟨pre, x, post ++ [y], by simp, hlt, hle⟩
    · exact ⟨chunks, y, [], rfl, by omega, h⟩

lemma FirstLine.restrict (h : FirstLine bytes first) (hp : y <+: bytes) (hl : first.length + 2 ≤ y.length) :
    FirstLine y first := by
  obtain ⟨hn, rest, rfl⟩ := h
  have hline : first ++ crlf <+: first ++ (crlf ++ rest) := ⟨rest, List.append_assoc _ _ _⟩
  obtain ⟨rest', rfl⟩ := List.prefix_of_prefix_length_le hline hp (by simpa [crlf] using hl)
  exact ⟨hn, rest', List.append_assoc _ _ _⟩

lemma FirstLine.extendable (h : FirstLine bytes first) (hp : y <+: bytes) (hl : y.length < first.length + 2) :
    Extendable y := by
  obtain ⟨hn, rest, rfl⟩ := h
  have hcr : first ++ [cr] <+: first ++ (crlf ++ rest) := ⟨lf :: rest, by simp [crlf]⟩
  have hy : y <+: first ++ [cr] := List.prefix_of_prefix_length_le hp hcr (by simp; omega)
  rcases List.prefix_concat_iff.mp hy with rfl | hy
  · exact ⟨lf :: crlf, _, [], by simp [crlf, linesText], first, [], rfl, hn, by simp⟩
  · exact ⟨crlf ++ crlf, _, [], by simp [crlf, linesText], y, [], rfl, fun b hb => hn b (hy.subset hb), by simp⟩

lemma isPrefix_flatten (h : pre <+: chunks) : pre.flatten <+: chunks.flatten := by
  obtain ⟨post, rfl⟩ := h
  exact ⟨post.flatten, List.flatten_append.symm⟩

lemma badFirstLine_of_call (hfit : (pre ++ [y]).flatten.length ≤ readBufferSize) (hd : serve junk c.init pre = some d)
    (he : processRead junk (d.receive y) = some (.returned .badRequest e)) : BadFirstLine (pre ++ [y]).flatten := by
  rw [flatten_snoc] at hfit ⊢
  exact (serve_waits ((List.prefix_append _ y).length_le.trans hfit) hd).badRequest hfit he

lemma call_of_badFirstLine (junk : ℕ → ℕ → HttpCode) (c : ReadState)
    (hfit : (pre ++ [y]).flatten.length ≤ readBufferSize) (hno : ∀ first, ¬ FirstLine pre.flatten first)
    (hbad : BadFirstLine (pre ++ [y]).flatten) :
    ∃ d e, serve junk c.init pre = some d ∧ processRead junk (d.receive y) = some (.returned .badRequest e) := by
  rw [flatten_snoc] at hfit hbad
  obtain ⟨first, hf, hrefused⟩ := hbad
  obtain ⟨d, hd, hat⟩ := serve_open junk c ((List.prefix_append _ y).length_le.trans hfit) hno
  rcases (hat.receive y).call junk hfit with ⟨hopen, -⟩ | ⟨-, e, he⟩ | ⟨⟨first', hf', hok⟩, -⟩
  · exact absurd hf (hopen first)
  · exact ⟨d, e, hd, he⟩
  · exact absurd (hf.unique hf' ▸ hrefused) hok

theorem malformed_rejected_iff (junk : ℕ → ℕ → HttpCode) (c : ReadState)
    (hfit : chunks.flatten.length ≤ readBufferSize) (hm : Malformed chunks.flatten n) :
    Rejected junk c chunks n ↔ BadFirstLine chunks.flatten := by
  have hsize : ∀ pre, pre <+: chunks → pre.flatten.length ≤ readBufferSize := fun pre hp =>
    (isPrefix_flatten hp).length_le.trans hfit
  constructor
  · rintro ⟨hin, -⟩
    -- where the file that `do_request` finds is served, the parser itself must have refused
    obtain ⟨pre, x, post, d, l, rfl, -, hd, hl, hcode⟩ := hin fun _ => .fileRequest
    obtain ⟨e, he⟩ : ∃ e, processRead junk (d.receive x) = some (.returned .badRequest e) := by
      cases l with
      | returned code e =>
        cases hcode
        exact ⟨e, hl⟩
      | doRequest | fault => cases hcode
    have hpre : pre ++ [x] <+: pre ++ x :: post := ⟨post, by simp⟩
    obtain ⟨first, hf, hbad⟩ := badFirstLine_of_call (hsize _ hpre) hd he
    exact ⟨first, hf.mono (isPrefix_flatten hpre), hbad⟩
  · rintro ⟨first, hf, hbad⟩
    refine ⟨fun answer => ?_, fun pre d hp hd => ?_⟩
    · obtain ⟨pre, x, post, rfl, hlt, hle⟩ := exists_chunk (Nat.succ_pos _) hf.length_le
      have hpre : pre ++ [x] <+: pre ++ x :: post := ⟨post, by simp⟩
      have hno : ∀ first', ¬ FirstLine pre.flatten first' := by
        intro first' hf'
        obtain rfl := hf.unique (hf'.mono (isPrefix_flatten (List.prefix_append pre _)))
        exact absurd hf'.length_le (not_le.mpr hlt)
      obtain ⟨d, e, hd, he⟩ := call_of_badFirstLine junk c (hsize _ hpre) hno
        ⟨first, hf.restrict (isPrefix_flatten hpre) hle, hbad⟩
      exact ⟨pre, x, post, d, _, rfl, hlt.trans_le (hm.firstLine_before hf), hd, he, rfl⟩
    · have hstart := isPrefix_flatten hp
      rcases serve_waits (hsize pre hp) hd with ⟨-, hno⟩ | ⟨-, first', hf', hok⟩
      · exact hf.extendable hstart (not_le.mp fun hl => hno first (hf.restrict hstart hl))
      · exact absurd (hf.unique (hf'.mono hstart) ▸ hbad) hok

lemma noBreak_of_all {s : List UInt8} (h : s.all (fun b => b != cr && b != lf) = true) : NoBreak s := by
  intro b hb
  have := List.all_eq_true.mp h b hb
  simpa [not_or] using this

lemma refused_of_version {line : List UInt8} (h : afterTarget line = []) : Refused line := by
  refine ⟨fun method path hr => (requestLine_iff.mp hr).1.1 h, fun hno => ?_⟩
  obtain ⟨method, hw, -⟩ := noPath_iff.mp hno
  exact hw.1 h

theorem malformed_rejected_two_chunks :
    Malformed [ascii "FO".toList, ascii "O\r\nA\n".toList].flatten 7 ∧
      Rejected silent default [ascii "FO".toList, ascii "O\r\nA\n".toList] 7 := by
  have hfoo : NoBreak (ascii "FOO".toList) := noBreak_of_all (by decide)
  have hm : Malformed [ascii "FO".toList, ascii "O\r\nA\n".toList].flatten 7 :=
    ⟨[ascii "FOO".toList], ascii "A".toList, [lf], [], by decide, by simpa using hfoo, by simp,
      noBreak_of_all (by decide), .alone, by decide⟩
  exact ⟨hm, (malformed_rejected_iff silent default (by decide) hm).mpr
    ⟨ascii "FOO".toList, ⟨hfoo, ascii "A\n".toList, by decide⟩, refused_of_version (by decide)⟩⟩

theorem stray_cr_not_rejected :
    Malformed [ascii "GET / HTTP/1.1\r\nA\rB".toList].flatten 19 ∧
      (∃ d, serve silent (default : ReadState).init [ascii "GET / HTTP/1.1\r\nA\rB".toList] = some d) ∧
      ¬ Rejected silent default [ascii "GET / HTTP/1.1\r\nA\rB".toList] 19 := by
  have hm : Malformed [ascii "GET / HTTP/1.1\r\nA\rB".toList].flatten 19 :=
    ⟨[ascii "GET / HTTP/1.1".toList], ascii "A".toList, [cr, 66], [], by decide,
      by simpa using noBreak_of_all (by decide), by simp, noBreak_of_all (by decide), .afterCr (by decide), by decide⟩
  have hs : ∃ d, serve silent (default : ReadState).init [ascii "GET / HTTP/1.1\r\nA\rB".toList] = some d :=
    Option.isSome_iff_exists.mp (by decide +kernel)
  refine ⟨hm, hs, fun h => ?_⟩
  obtain ⟨d, hd⟩ := hs
  exact hm.not_extendable (h.unfinished _ d List.prefix_rfl hd)

end Chunks

end OceanServer.Http
