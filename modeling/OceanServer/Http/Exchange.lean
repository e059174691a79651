import Mathlib.Data.List.DropRight
import OceanServer.Http.Framing
import OceanServer.Http.Headers
import OceanServer.Http.LineRuns
import OceanServer.Http.Paths
import OceanServer.Http.SlotReuse

/-! A whole exchange: the request that a client sends in pieces, the calls of `process` that they lead to, and the
answer that stands in the write buffer after the last of them. -/

namespace OceanServer.Http

open Library Library.CString

section Process

inductive Processed where
  | waiting (c : HttpConn)
  | answering (c : HttpConn) (w : WriteState)
  | closed
  | undefined

def HttpConn.answerWith (c : HttpConn) (w : WriteState) (size : ℤ) (code : HttpCode) : Processed :=
  match processWrite w c.read.linger size code with
  | (true, w) => .answering c w
  | (false, _) => .closed

def Environment.answerRequest (e : Environment) (c : HttpConn) (w : WriteState) (size : ℤ) : Processed × Accounts :=
  match doRequest e.files e.inserted c e.accounts with
  | .ok (code, d, s) => (d.answerWith w ((e.files d.path).sizeOr size) code, s)
  | .error _ => (.undefined, e.accounts)

def Environment.process (e : Environment) (c : HttpConn) (w : WriteState) (size : ℤ) : Processed × Accounts :=
  -- `process`, where `size` is what `m_file_stat` holds from the file before.
  match processRead e.junk c.read with
  | some (.returned .noRequest d) => (.waiting (c.withRead d), e.accounts)
  | some (.returned code d) => ((c.withRead d).answerWith w size code, e.accounts)
  | some (.doRequest _ d) => e.answerRequest (c.withRead d) w size
  | some .fault | none => (.undefined, e.accounts)

/-- `read_once` and `process`, for one piece of the stream after the other, until the socket no longer waits for it. -/
def Environment.exchange (e : Environment) (w : WriteState) (size : ℤ) :
    HttpConn → List (List UInt8) → Processed × Accounts
  | c, [] => (.waiting c, e.accounts)
  | c, x :: xs =>
    match e.process (c.withRead (c.read.receive x)) w size with
    | (.waiting d, _) => e.exchange w size d xs
    | r => r

end Process

section Requests

/-- The lines of a request up to its body, and the method and the path that the first of them names. -/
structure Head where
  first : List UInt8
  others : List (List UInt8)
  method : Method
  path : List UInt8
  line : RequestLine first method path
  whole : NoBreak first ∧ 0 ∉ first
  headers : ∀ line ∈ others, NoBreak line ∧ 0 ∉ line ∧ line ≠ []

def Head.bytes (h : Head) : List UInt8 := linesText (h.first :: h.others) ++ crlf

def Head.keepsAlive (h : Head) : Bool := h.others.any Http.keepsAlive

def Head.length (h : Head) : ℤ := ((lastValue contentLengthKey h.others).map strtol).getD 0

def Head.url (h : Head) : List UInt8 := withDefault h.path

def lastSegment (url : List UInt8) : List UInt8 := url.rtakeWhile (· ≠ slash)

def Head.page (h : Head) : List UInt8 := (digitPage ((lastSegment h.url).headD 0)).getD h.url

def Head.credential (h : Head) : Bool :=
  h.method = .post ∧ ((lastSegment h.url).headD 0 = chr '2' ∨ (lastSegment h.url).headD 0 = chr '3')

inductive Reply where
  | page (text : List UInt8)
  | file (head path : List UInt8) (size : ℤ)
  | hangup
  deriving DecidableEq

def replyWith (linger : Bool) (path : List UInt8) : FileStat → Reply
  | .missing => .hangup
  | .found false _ _ => .page (pageText linger 403 error403Title error403Form)
  | .found true true _ => .page (pageText linger 404 error404Title error404Form)
  | .found true false size => if size = 0 then .hangup else .file (headText linger 200 ok200Title (toInt size)) path size

def Processed.reply : Processed → Option Reply
  | .waiting _ | .undefined => none
  | .answering c w => if w.ivCount = 2 then some (.file w.queued c.path w.iov₁) else some (.page w.queued)
  | .closed => some .hangup

end Requests

section Lines

variable {junk : ℕ → ℕ → HttpCode} {d : ReadState} {line rest : List UInt8}

/-- A new line begins at `m_checked_idx`, and `text` is all that is received from there on. -/
structure Unread (d : ReadState) (text : List UInt8) : Prop where
  start : d.startLine = d.checkedIdx
  stop : d.readIdx = d.checkedIdx + text.length
  fit : d.readIdx ≤ readBufferSize
  bytes : ∀ i (hi : i < text.length), d.readBuf (d.checkedIdx + i) = text[i]

lemma Unread.room (h : Unread d (line ++ (crlf ++ rest))) : d.readIdx = d.checkedIdx + line.length + 2 + rest.length := by
  rw [h.stop, List.length_append, List.length_append, show crlf.length = 2 from rfl]
  omega

lemma Unread.inside (h : Unread d (line ++ (crlf ++ rest))) {i : ℕ} (hi : i < line.length) :
    d.readBuf (d.checkedIdx + i) = (line)[i] := by
  rw [h.bytes i (by rw [List.length_append]; omega), List.getElem_append_left hi]

lemma Unread.behind (h : Unread d (line ++ (crlf ++ rest))) {i : ℕ} (hi : i < (crlf ++ rest).length) :
    d.readBuf (d.checkedIdx + line.length + i) = (crlf ++ rest)[i] := by
  rw [Nat.add_assoc, h.bytes (line.length + i) (by rw [List.length_append]; omega),
    List.getElem_append_right (Nat.le_add_right _ _)]
  simp only [Nat.add_sub_cancel_left]

lemma Unread.parseLine (h : Unread d (line ++ (crlf ++ rest))) (hl : NoBreak line) :
    parseLine d = (.ok, endLine d (d.checkedIdx + line.length)) := by
  have hroom := h.room
  have hplain : Plain d.readBuf d.checkedIdx (d.checkedIdx + line.length) := by
    intro i hlo hhi
    obtain ⟨j, rfl⟩ := Nat.exists_eq_add_of_le hlo
    rw [h.inside (by omega)]
    exact not_or.mp (hl _ (List.getElem_mem _))
  have hcr : d.readBuf (d.checkedIdx + line.length) = cr := h.behind (i := 0) (by simp [crlf])
  have hlf : d.readBuf (d.checkedIdx + line.length + 1) = lf := h.behind (i := 1) (by simp [crlf])
  rw [parseLine_skip (Nat.le_add_right _ _) (by omega) hplain, parseLine_unfold (by omega), if_pos hcr,
    if_neg (by omega), if_pos hlf]

lemma Unread.lineAt (h : Unread d (line ++ (crlf ++ rest))) (h0 : 0 ∉ line) :
    LineAt (endLine d (d.checkedIdx + line.length)).readBuf d.startLine line := by
  have hroom := h.room
  have hfit := h.fit
  have hnul : (endLine d (d.checkedIdx + line.length)).readBuf (d.checkedIdx + line.length) = 0 :=
    (set_of_ne _ _ (by omega)).trans (set_self _ _ _)
  rw [h.start]
  refine ⟨?_, hnul, set_self _ _ _⟩
  rw [str_eq_append h0 (by omega), str_eq_nil _ hnul, List.append_nil]
  intro i hi
  rw [endLine_before d (by omega), h.inside hi]

lemma Unread.next {e : ReadState} (h : Unread d (line ++ (crlf ++ rest)))
    (hs : e.startLine = e.checkedIdx) (hc : e.checkedIdx = d.checkedIdx + line.length + 2)
    (hr : e.readIdx = d.readIdx)
    (hb : ∀ i, e.checkedIdx ≤ i → e.readBuf i = (endLine d (d.checkedIdx + line.length)).readBuf i) : Unread e rest := by
  have hroom := h.room
  refine ⟨hs, by omega, hr.trans_le h.fit, fun i hi => ?_⟩
  have hbyte := h.behind (i := 2 + i) (by simp [crlf]; omega)
  rw [hb _ (Nat.le_add_right _ _), endLine_behind d (by omega), hc, Nat.add_assoc _ 2 i, hbyte]
  simp [crlf, Nat.add_comm 2 i]

end Lines

section Heads

variable (junk : ℕ → ℕ → HttpCode) {d e : ReadState} {line rest : List UInt8}

def Pointed (d : ReadState) (text : List UInt8) : Prop :=
  ∃ u z, d.url = some u ∧ u + 12 ≤ d.checkedIdx ∧ u ≤ z ∧ z < d.checkedIdx ∧ d.readBuf z = 0 ∧
    str readBufferSize d.readBuf u = text

structure InHeaders (h : Head) (f : Fields) (d : ReadState) : Prop where
  method : d.method = h.method
  cgi : d.cgi = cgiOf h.method 0
  url : Pointed d h.url
  linger : d.linger = f.linger
  length : d.contentLength = f.contentLength

lemma parseHeaders_code {c : ReadState} {p : ℕ} (h : c.readBuf p ≠ 0) : (parseHeaders c p).1 = .noRequest := by
  rw [parseHeaders, if_neg h]
  split_ifs <;> rfl

lemma parseHeaders_keeps (c : ReadState) (p : ℕ) :
    (parseHeaders c p).2.method = c.method ∧ (parseHeaders c p).2.cgi = c.cgi ∧ (parseHeaders c p).2.url = c.url ∧
      (parseHeaders c p).2.readIdx = c.readIdx ∧ (parseHeaders c p).2.checkedIdx = c.checkedIdx ∧
      (parseHeaders c p).2.startLine = c.startLine := by
  rw [parseHeaders]
  split_ifs <;> exact ⟨rfl, rfl, rfl, rfl, rfl, rfl⟩

lemma parseHeaders_phase {c : ReadState} {p : ℕ} (h : c.readBuf p ≠ 0) :
    (parseHeaders c p).2.checkState = c.checkState := by
  rw [parseHeaders, if_neg h]
  split_ifs <;> rfl

lemma switchState_header {c : ReadState} (h : c.checkState = .header) :
    switchState junk c = onHeaders (parseHeaders c.takeLine c.startLine) := by
  rw [switchState, h]

lemma Pointed.endLine {text : List UInt8} {k : ℕ} (h : Pointed d text) (hk : d.checkedIdx ≤ k)
    (hlt : k < readBufferSize) : Pointed (endLine d k) text := by
  obtain ⟨u, z, hu, hbound, huz, hz, h0, ht⟩ := h
  have hstop : (Http.endLine d k).checkedIdx = k + 2 := rfl
  have hsame : ∀ i, i ≤ z → (Http.endLine d k).readBuf i = d.readBuf i := fun i hi => endLine_before d (by omega)
  refine ⟨u, z, hu, by omega, huz, by omega, (hsame z le_rfl).trans h0, ?_⟩
  rw [← ht]
  exact (str_congr huz (by omega) h0 fun i _ hi => (hsame i hi).symm).symm

lemma InHeaders.step {head : Head} {f : Fields} (h : InHeaders head f d) (hphase : d.checkState = .header)
    (hu : Unread d (line ++ (crlf ++ rest))) (hl : NoBreak line) (h0 : 0 ∉ line) (hne : line ≠ []) :
    ∃ e, headerStep junk d = .inl e ∧ InHeaders head (f.take line) e ∧ e.checkState = .header ∧ Unread e rest ∧
      e.readIdx = d.readIdx := by
  have hroom := hu.room
  have hfit := hu.fit
  have hat := hu.lineAt h0
  have hp := h.url.endLine (Nat.le_add_right d.checkedIdx line.length) (by omega)
  have hfirst : (endLine d (d.checkedIdx + line.length)).takeLine.readBuf d.startLine ≠ 0 := by
    intro he
    exact hne (hat.text.symm.trans (str_eq_nil _ he))
  obtain ⟨hmethod, hcgi, hurl, hread, hchecked, hstart⟩ :=
    parseHeaders_keeps (endLine d (d.checkedIdx + line.length)).takeLine d.startLine
  have hcode := parseHeaders_code hfirst
  have hkept := (parseHeaders_phase hfirst).trans hphase
  have hbuf := parseHeaders_readBuf (endLine d (d.checkedIdx + line.length)).takeLine d.startLine
  have hfields := parseHeaders_fields (c := (endLine d (d.checkedIdx + line.length)).takeLine) hat
  have hstep : readStep junk (.ok, d) =
      onHeaders (parseHeaders (endLine d (d.checkedIdx + line.length)).takeLine d.startLine) := by
    rw [readStep_header junk (hphase.trans_ne (by decide)), hu.parseLine hl]
    exact switchState_header junk hphase
  generalize parseHeaders (endLine d (d.checkedIdx + line.length)).takeLine d.startLine = q at *
  obtain ⟨code, e⟩ := q
  obtain rfl : code = .noRequest := hcode
  refine ⟨e, ?_, ⟨hmethod.trans h.method, hcgi.trans h.cgi, ?_, ?_, ?_⟩, hkept, ?_, hread⟩
  · rw [headerStep, hstep]
    exact if_neg (hkept.trans_ne (by decide))
  · obtain ⟨u, z, hu, hbound, huz, hz, h0, ht⟩ := hp
    refine ⟨u, z, hurl.trans hu, hbound.trans_eq hchecked.symm, huz, hz.trans_eq hchecked.symm, ?_, ?_⟩
    · rw [hbuf]
      exact h0
    · rw [hbuf]
      exact ht
  · have hlinger := congrArg Fields.linger hfields
    rw [take_linger] at hlinger ⊢
    rw [← h.linger]
    exact hlinger
  · have hlength := congrArg Fields.contentLength hfields
    rw [take_contentLength] at hlength ⊢
    rw [← h.length]
    exact hlength
  · refine hu.next (hstart.trans hchecked.symm) hchecked hread fun i _ => ?_
    rw [hbuf]
    rfl

def Fields.verdict (f : Fields) : Verdict := if f.contentLength = 0 then .doRequest else .content

lemma InHeaders.last {head : Head} {f : Fields} (h : InHeaders head f d) (hphase : d.checkState = .header)
    (hu : Unread d (crlf ++ rest)) :
    ∃ e, headerStep junk d = .inr (.left f.verdict e) ∧ InHeaders head f e ∧
      (f.contentLength ≠ 0 → e.checkState = .content) ∧ Unread e rest ∧ e.readIdx = d.readIdx := by
  have hu' : Unread d ([] ++ (crlf ++ rest)) := hu
  have hroom := hu'.room
  have hfit := hu.fit
  have hp := h.url.endLine (le_refl d.checkedIdx) (by omega)
  have hnul : (endLine d d.checkedIdx).takeLine.readBuf d.startLine = 0 := (hu'.lineAt List.not_mem_nil).nul
  have hstep : headerStep junk d =
      headerResult (onHeaders (parseHeaders (endLine d d.checkedIdx).takeLine d.startLine)) := by
    rw [headerStep, readStep_header junk (hphase.trans_ne (by decide)), hu'.parseLine (by simp [NoBreak])]
    exact congrArg headerResult (switchState_header junk hphase)
  have hlength : (endLine d d.checkedIdx).takeLine.contentLength = f.contentLength := h.length
  rw [hstep, parseHeaders, if_pos hnul, Fields.verdict]
  by_cases hlen : f.contentLength = 0
  · rw [if_neg (not_not.mpr (hlength.trans hlen)), if_pos hlen]
    exact ⟨(endLine d d.checkedIdx).takeLine, rfl, ⟨h.method, h.cgi, hp, h.linger, h.length⟩, fun hn => absurd hlen hn,
      hu'.next rfl rfl rfl fun _ _ => rfl, rfl⟩
  · rw [if_pos (hlength.trans_ne hlen), if_neg hlen]
    exact ⟨{ (endLine d d.checkedIdx).takeLine with checkState := .content }, rfl,
      ⟨h.method, h.cgi, hp, h.linger, h.length⟩, fun _ => rfl, hu'.next rfl rfl rfl fun _ _ => rfl, rfl⟩

lemma InHeaders.run {head : Head} {f : Fields} {others : List (List UInt8)} (h : InHeaders head f d)
    (hphase : d.checkState = .header) (hu : Unread d (linesText others ++ (crlf ++ rest)))
    (hl : ∀ line ∈ others, NoBreak line ∧ 0 ∉ line ∧ line ≠ []) :
    ∃ e, Loop.Exits (headerStep junk) d (.left (others.foldl Fields.take f).verdict e) ∧
      InHeaders head (others.foldl Fields.take f) e ∧
      ((others.foldl Fields.take f).contentLength ≠ 0 → e.checkState = .content) ∧ Unread e rest ∧
      e.readIdx = d.readIdx := by
  induction others generalizing d f with
  | nil =>
    obtain ⟨e, hstep, he⟩ := h.last junk hphase hu
    exact ⟨e, .stop hstep, he⟩
  | cons line others ih =>
    obtain ⟨hbreak, h0, hne⟩ := hl line List.mem_cons_self
    rw [linesText_cons, List.append_assoc, List.append_assoc] at hu
    obtain ⟨e, hstep, he, hkept, hnext, hread⟩ := h.step junk hphase hu hbreak h0 hne
    obtain ⟨q, hexit, hq, hcontent, hrest, hr⟩ := ih he hkept hnext (fun l hm => hl l (List.mem_cons_of_mem line hm))
    exact ⟨q, .next hstep hexit, hq, hcontent, hrest, hr.trans hread⟩

lemma judgePage_linger (c : ReadState) (url : ℕ) : (judgePage c url).2.linger = c.linger := by
  simp only [judgePage]
  split_ifs <;> rfl

lemma stripHttps_linger (c : ReadState) (url : ℕ) : (stripHttps c url).2.linger = c.linger := by
  simp only [stripHttps]
  split_ifs
  · split
    · rfl
    · exact judgePage_linger c _
  · exact judgePage_linger c url

lemma parseVersion_linger {c : ReadState} {url : ℕ} {q : HttpCode × ReadState} (h : parseVersion c url = some q) :
    q.2.linger = c.linger := by
  simp only [parseVersion, stripHttp] at h
  split at h
  · cases h
    rfl
  · split_ifs at h
    · obtain ⟨u, -, rfl⟩ := Option.map_eq_some_iff.mp h
      exact stripHttps_linger _ u
    · cases h
      exact stripHttps_linger _ _
    · cases h
      rfl

lemma parseRequestLine_linger {c : ReadState} {text : ℕ} {q : HttpCode × ReadState}
    (h : parseRequestLine c text = some q) : q.2.linger = c.linger := by
  simp only [parseRequestLine] at h
  split at h
  · cases h
    rfl
  · split_ifs at h
    · have hlinger := parseVersion_linger h
      exact hlinger
    · have hlinger := parseVersion_linger h
      exact hlinger
    · cases h
      rfl

lemma RequestLine.not_noPath {method : Method} {path : List UInt8} (h : RequestLine line method path) :
    ¬ NoPath line := by
  rw [noPath_iff]
  rintro ⟨_, _, hscheme, hnil⟩
  obtain ⟨-, hhead, hpath⟩ := requestLine_iff.mp h
  rw [pathOf, if_pos hscheme, hnil] at hpath
  rw [← hpath] at hhead
  cases hhead

lemma Head.begins (h : Head) (c : ReadState) (hfit : (h.bytes ++ rest).length ≤ readBufferSize) :
    ∃ d, headerStep junk (c.init.receive (h.bytes ++ rest)) = .inl d ∧ InHeaders h ⟨false, 0, none⟩ d ∧
      d.checkState = .header ∧ Unread d (linesText h.others ++ (crlf ++ rest)) ∧ d.readIdx = (h.bytes ++ rest).length := by
  have hread : (c.init.receive (h.bytes ++ rest)).readIdx = (h.bytes ++ rest).length := Nat.zero_add _
  have hbytes : h.bytes ++ rest = h.first ++ (crlf ++ (linesText h.others ++ (crlf ++ rest))) := by
    rw [Head.bytes, linesText_cons]
    simp only [List.append_assoc]
  have hu : Unread (c.init.receive (h.bytes ++ rest)) (h.first ++ (crlf ++ (linesText h.others ++ (crlf ++ rest)))) := by
    refine ⟨rfl, by rw [hread, hbytes]; exact (Nat.zero_add _).symm, hread.trans_le hfit, fun i hi => ?_⟩
    rw [← hbytes] at hi
    have hb := received_byte c hi
    simp only [hbytes] at hb ⊢
    rwa [show (c.init.receive _).checkedIdx = 0 from rfl, Nat.zero_add]
  generalize hc : c.init.receive (h.bytes ++ rest) = d at hu hread
  have hclear : d.checkedIdx = 0 ∧ d.checkState = .requestLine ∧ d.cgi = 0 ∧ d.linger = false ∧ d.contentLength = 0 := by
    rw [← hc]
    exact ⟨rfl, rfl, rfl, rfl, rfl⟩
  obtain ⟨hstart, hphase, hcgi, hlinger, hlength⟩ := hclear
  have hroom := hu.room
  have hline := hu.lineAt h.whole.2
  have hend : d.startLine + h.first.length < readBufferSize := by
    rw [hu.start]
    omega
  rw [headerStep, readStep_header junk (hphase.trans_ne (by decide)), hu.parseLine h.whole.1]
  generalize hk : d.checkedIdx + h.first.length = k at hline
  have hswitch : switchState junk (endLine d k) = onRequestLine (parseRequestLine (endLine d k).takeLine d.startLine) := by
    rw [switchState, show (endLine d k).checkState = .requestLine from hphase]
    rfl
  rcases parseRequestLine_cases (c := (endLine d k).takeLine) hline.text hend with
    ⟨hno, -⟩ | ⟨-, ⟨code, e⟩, hr, ⟨hnone, -⟩ | ⟨method, path, hrl, ha⟩⟩
  · exact absurd hno h.line.not_noPath
  · exact absurd h.line (hnone _ _)
  · obtain ⟨rfl, rfl⟩ := hrl.unique h.line
    obtain rfl : code = .noRequest := ha.code
    have hkeeps := parseRequestLine_keeps hr
    have hlow : d.startLine ≤ k := by
      rw [hu.start]
      omega
    have hhigh : k < readBufferSize := by
      have hfit := hu.fit
      omega
    have hnul : (endLine d k).takeLine.readBuf k = 0 := by
      have hnul := hline.nul
      rwa [hu.start, hk] at hnul
    obtain ⟨u, hurl, -, hbound, htext⟩ := ha.url
    have hpath : 0 < h.path.length := by
      refine List.length_pos_iff.mpr fun hnil => ?_
      have hhead := (requestLine_iff.mp h.line).2.1
      rw [hnil] at hhead
      cases hhead
    rw [show str readBufferSize (endLine d k).takeLine.readBuf d.startLine = h.first from hline.text, hu.start] at hbound
    obtain ⟨z, huz, hz, h0⟩ := (parseRequestLine_edits hlow hhigh hnul hr).url u hurl
    have hchecked : e.checkedIdx = k + 2 := hkeeps.checkedIdx
    refine ⟨e, ?_, ⟨ha.sets.1, ?_, ⟨u, z, hurl, by omega, huz, hz.trans_eq hchecked.symm, h0, htext⟩, ?_, ?_⟩, ha.phase,
      ?_, ?_⟩
    · rw [onLine, hswitch, hr]
      exact if_neg (ha.phase.trans_ne (by decide))
    · rw [← hcgi]
      exact ha.sets.2
    · exact (parseRequestLine_linger hr).trans hlinger
    · exact hkeeps.contentLength.trans hlength
    · refine hu.next (hkeeps.startLine.trans hchecked.symm) (by omega) hkeeps.readIdx fun i hi => ?_
      rw [hk]
      exact parseRequestLine_within hlow hhigh hnul hr i (.inr (by omega))
    · exact hkeeps.readIdx.trans hread

def Head.fields (h : Head) : Fields := h.others.foldl Fields.take ⟨false, 0, none⟩

lemma Head.fields_length (h : Head) : h.fields.contentLength = h.length := fold_contentLength

lemma Head.fields_linger (h : Head) : h.fields.linger = h.keepsAlive := fold_linger

lemma Head.read (h : Head) (c : ReadState) (hfit : (h.bytes ++ rest).length ≤ readBufferSize) :
    ∃ e, Loop.Exits (headerStep junk) (c.init.receive (h.bytes ++ rest)) (.left h.fields.verdict e) ∧
      InHeaders h h.fields e ∧ (h.length ≠ 0 → e.checkState = .content) ∧ Unread e rest ∧
      e.readIdx = (h.bytes ++ rest).length := by
  obtain ⟨d, hstep, hd, hphase, hu, hread⟩ := h.begins junk c hfit
  obtain ⟨e, hexit, he, hcontent, hrest, hr⟩ := hd.run junk hphase hu h.headers
  rw [← h.fields_length]
  exact ⟨e, .next hstep hexit, he, hcontent, hrest, hr.trans hread⟩

end Heads

section Pieces

variable {junk : ℕ → ℕ → HttpCode} {c d : ReadState} {verdict : Verdict}

lemma Follows.left {P : ReadState → Prop} {q : (LineStatus × ReadState) ⊕ Leave} (h : Follows P q)
    (hs : headerResult q = .inr (.left verdict d)) : P d := by
  cases h with
  | again hp =>
    simp only [headerResult] at hs
    split_ifs at hs
    cases hs
    exact hp
  | bad hp | request hp =>
    cases hs
    exact hp
  | fault => cases hs

lemma exits_left {r : HeaderEnd} (h : Heading c) (he : Loop.Exits (headerStep junk) c r) (hr : r = .left verdict d) :
    UrlEnds d ∧ d.readIdx = c.readIdx ∧ d.checkedIdx ≤ d.readIdx := by
  induction he with
  | @stop c r hs =>
    subst hr
    rcases headerStep_cases junk h with ⟨k, -, hsplit, hk, -, -⟩ | ⟨e, hw, -⟩
    · have hedits := (switchState_follows junk hsplit).left (hk.symm.trans hs)
      have hchecked : d.checkedIdx = k + 2 := hedits.checkedIdx
      have hread : d.readIdx = c.readIdx := hedits.readIdx
      have hroom : k + 1 < c.readIdx := hsplit.room
      refine ⟨fun u hu => ?_, hread, by omega⟩
      rw [hread]
      exact hedits.url u hu
    · cases hw.symm.trans hs
  | @next c e r hs _ ih =>
    obtain ⟨hn, hread, -⟩ := h.next hs
    obtain ⟨hurl, hr, hchecked⟩ := ih hn hr
    exact ⟨hurl, hr.trans hread, hchecked⟩

variable {e : Environment} {w : WriteState} {size : ℤ}

lemma process_waiting {c : HttpConn} (h : Heading c.read) (hp : headerPhase e.junk c.read = some (.waiting d)) :
    e.process c w size = (.waiting (c.withRead d), e.accounts) := by
  have hgo : GoesOn e.junk c.read (.waiting d) := exits_header h ((headerPhase_iff h).mp hp)
  rw [Environment.process, (processRead_iff h.scanning.checked).mpr hgo]

lemma process_request {c : HttpConn} (h : Heading c.read) (hp : headerPhase e.junk c.read = some (.left .doRequest d)) :
    e.process c w size = e.answerRequest (c.withRead d) w size := by
  have hgo : GoesOn e.junk c.read (.left .doRequest d) := exits_header h ((headerPhase_iff h).mp hp)
  rw [Environment.process, (processRead_iff h.scanning.checked).mpr hgo]

lemma answerRequest_ne_waiting (e : Environment) (w : WriteState) (size : ℤ) (c d : HttpConn) :
    (e.answerRequest c w size).1 ≠ .waiting d := by
  rw [Environment.answerRequest]
  split
  · simp only [HttpConn.answerWith]
    split
    · simp
    · simp
  · simp

lemma exchange_feed {c : HttpConn} {chunks : List (List UInt8)} (h : Heading c.read)
    (hfit : c.read.readIdx + chunks.flatten.length ≤ readBufferSize) :
    (∀ d, feed e.junk c.read chunks = some (.waiting d) → e.exchange w size c chunks = (.waiting (c.withRead d), e.accounts)) ∧
      ∀ d, feed e.junk c.read chunks = some (.left .doRequest d) →
        e.exchange w size c chunks = e.answerRequest (c.withRead d) w size ∧ UrlEnds d ∧ d.readIdx ≤ readBufferSize := by
  induction chunks generalizing c with
  | nil =>
    constructor
    · rintro d ⟨⟩
      rfl
    · rintro d ⟨⟩
  | cons x xs ih =>
    rw [List.flatten_cons, List.length_append] at hfit
    have hx : Heading (c.withRead (c.read.receive x)).read := h.receive (by omega)
    obtain ⟨q, hq⟩ := headerPhase_total e.junk hx
    have hq' : headerPhase e.junk (c.read.receive x) = some q := hq
    have hexit := (headerPhase_iff hx).mp hq
    simp only [feed, hq', Environment.exchange]
    cases q with
    | waiting d =>
      obtain ⟨hd, hread, -⟩ := exits_resume hx hexit rfl
      have hread' : d.readIdx = c.read.readIdx + x.length := hread
      rw [process_waiting hx hq]
      exact ih (c := c.withRead d) hd (by change d.readIdx + _ ≤ _; omega)
    | left verdict d =>
      refine ⟨by simp, ?_⟩
      rintro d' hd
      cases hd
      obtain ⟨hurl, hread, -⟩ := exits_left hx hexit rfl
      have hread' : d.readIdx = c.read.readIdx + x.length := hread
      have hsettled := answerRequest_ne_waiting e w size (c.withRead d)
      rw [process_request hx hq]
      refine ⟨?_, hurl, by omega⟩
      change (match e.answerRequest (c.withRead d) w size with
        | (.waiting d, _) => e.exchange w size d xs
        | r => r) = _
      split
      · rename_i hp
        exact absurd (congrArg Prod.fst hp) (hsettled _)
      · rfl
    | fault => simp

end Pieces

section Pages

variable {url root : List UInt8} {d : ReadState} {u : ℕ} {dirs seg : List UInt8}

lemma lastSegment_split (h : slash ∈ url) : slash ∉ lastSegment url ∧ ∃ dirs, url = dirs ++ slash :: lastSegment url := by
  have hcut : url.rdropWhile (· ≠ slash) ++ lastSegment url = url := List.rdropWhile_append_rtakeWhile
  have hne : url.rdropWhile (· ≠ slash) ≠ [] := by
    intro hnil
    have hall := List.rdropWhile_eq_nil_iff.mp hnil slash h
    simp at hall
  have hlast : (url.rdropWhile (· ≠ slash)).getLast hne = slash := by
    simpa using List.rdropWhile_last_not (· ≠ slash) url hne
  refine ⟨fun hm => ?_, (url.rdropWhile (· ≠ slash)).dropLast, ?_⟩
  · simpa using List.mem_rtakeWhile_imp hm
  · have hback := List.dropLast_append_getLast hne
    rw [hlast] at hback
    rw [← List.singleton_append, ← List.append_assoc, hback]
    exact hcut.symm

lemma Head.slash_mem (h : Head) : slash ∈ h.url := by
  rw [Head.url, withDefault]
  split_ifs
  · exact List.mem_cons_self
  · exact List.mem_of_mem_head? (requestLine_iff.mp h.line).2.1

lemma Url.doRequest_page (h : Url d u dirs seg) (hreg : d.registers = none) (h0 : 0 ∉ root)
    (hfit : root.length + (pageOf dirs seg).length < filenameLen) :
    ∃ c : HttpConn, c.read = d ∧ c.path = root ++ pageOf dirs seg ∧ ∀ files inserted s,
      doRequest files inserted (connection root d) s = .ok ((files (root ++ pageOf dirs seg)).verdict, c, s) := by
  have hroot : root.length < filenameLen := by omega
  suffices hset : ∃ c, (rooted d root).choosePath u (u + dirs.length) = .ok c ∧ c.path = root ++ pageOf dirs seg by
    obtain ⟨c, hc, hpath⟩ := hset
    refine ⟨c, choosePath_read hc, hpath, fun files inserted s => ?_⟩
    have hlen : c.path.length < filenameLen := by rwa [hpath, List.length_append]
    rw [connection, doRequest_plain h hreg hroot, hc, ok_bind, judgeFile_ok hlen, hpath]
    rfl
  cases hpage : digitPage (seg.headD 0) with
  | some page =>
    rw [pageOf, hpage, Option.getD_some] at hfit ⊢
    rw [choosePath_digit h hpage]
    have hd : (rooted d root).setPath page page.length = .ok _ := setPath_ok hfit.le
    exact ⟨_, hd, digit_path hroot h0 hpage hd⟩
  | none =>
    rw [pageOf, hpage, Option.getD_none] at hfit ⊢
    rw [choosePath_url h hpage]
    have hr := rooted_rooted d hroot h0
    obtain ⟨c, hc, -, -, hpath⟩ := hr.rest h.zero_not_mem
    have hrest : root.length + (rooted d root).restOfPath = filenameLen - 1 := hr.rest_eq
    refine ⟨c, hc, ?_⟩
    rw [hpath, List.take_of_length_le (by omega)]
    rfl

end Pages

section Answers

variable {c : HttpConn} {w : WriteState}

lemma answerWith_page {ret : HttpCode} {status : ℕ} {title form : List UInt8} (hw : w.writeIdx = 0) (size : ℤ)
    (h : builtInPage ret = some (status, title, form)) :
    (c.answerWith w size ret).reply = some (.page (pageText c.read.linger status title form)) := by
  obtain ⟨w', hpw, hq⟩ := processWrite_page hw c.read.linger size h
  rw [HttpConn.answerWith, hpw, ← (queued_of_empty hw hq).1]
  rfl

lemma answerWith_file {size : ℤ} (hw : w.writeIdx = 0) (hs : size ≠ 0) :
    (c.answerWith w size .fileRequest).reply =
      some (.file (headText c.read.linger 200 ok200Title (toInt size)) c.path size) := by
  obtain ⟨w', hpw, hq⟩ := processWrite_file hw c.read.linger hs
  rw [HttpConn.answerWith, hpw, ← (queued_of_empty hw hq).1]
  rfl

lemma answerWith_reply (stat : FileStat) (hw : w.writeIdx = 0) (size : ℤ) :
    (c.answerWith w (stat.sizeOr size) stat.verdict).reply = some (replyWith c.read.linger c.path stat) := by
  cases stat with
  | missing => rfl
  | found othersRead directory n =>
    cases othersRead with
    | false => exact answerWith_page hw _ rfl
    | true =>
      cases directory with
      | true => exact answerWith_page hw _ rfl
      | false =>
        by_cases hn : n = 0
        · subst hn
          rfl
        · exact (answerWith_file hw hn).trans (congrArg some (if_neg hn).symm)

lemma answerRequest_reply {e : Environment} {d : HttpConn} {s : Accounts} (hw : w.writeIdx = 0) (size : ℤ)
    (h : doRequest e.files e.inserted c e.accounts = .ok ((e.files d.path).verdict, d, s)) :
    ∃ r, e.answerRequest c w size = (r, s) ∧ r.reply = some (replyWith d.read.linger d.path (e.files d.path)) := by
  rw [Environment.answerRequest, h]
  exact ⟨_, rfl, answerWith_reply _ hw size⟩

end Answers

section Result

variable {h : Head} {e : Environment} {root : List UInt8} {chunks pre : List (List UInt8)}

def Head.report (h : Head) : HeaderReport where
  verdict := h.fields.verdict
  method := h.method
  cgi := cgiOf h.method 0
  url := some h.url
  contentLength := h.length
  linger := h.keepsAlive
  headerEnd := h.bytes.length

lemma Head.phase (h : Head) (junk : ℕ → ℕ → HttpCode) (c : ReadState) (hfit : h.bytes.length ≤ readBufferSize) :
    ∃ q, headerPhase junk (c.init.receive h.bytes) = some q ∧ q.report = .left h.report := by
  rw [← List.append_nil h.bytes] at hfit
  obtain ⟨d, hexit, hin, -, hu, hread⟩ := h.read junk c hfit
  rw [List.append_nil] at hexit hfit hread
  obtain ⟨u, z, hu', -, -, -, -, htext⟩ := hin.url
  have hchecked : d.checkedIdx = h.bytes.length := hu.stop.symm.trans hread
  refine ⟨_, (headerPhase_iff (heading_receive_init c hfit)).mpr hexit, ?_⟩
  simp only [HeaderEnd.report, Head.report, hin.method, hin.cgi, hu', Option.map_some, htext, hin.linger, hin.length,
    h.fields_linger, h.fields_length, hchecked]

lemma Head.feed_whole (h : Head) (junk : ℕ → ℕ → HttpCode) (c : ReadState) (hlen : h.length = 0)
    (hchunks : chunks.flatten = h.bytes) (hfit : h.bytes.length ≤ readBufferSize) :
    ∃ d, feed junk c.init chunks = some (.left .doRequest d) ∧ d.cgi = cgiOf h.method 0 ∧
      d.url.map (str readBufferSize d.readBuf) = some h.url ∧ d.linger = h.keepsAlive := by
  have hroom : c.init.readIdx + chunks.flatten.length ≤ readBufferSize := by
    rw [hchunks]
    exact (Nat.zero_add _).trans_le hfit
  obtain ⟨q, p, hq, hp, hrep⟩ := feed_report (heading_init c) hroom (waiting_init junk c)
  obtain ⟨p', hp', hreport⟩ := h.phase junk c hfit
  rw [hchunks] at hp
  obtain rfl : p = p' := Option.some.inj (hp.symm.trans hp')
  rw [hreport] at hrep
  cases q with
  | waiting | fault => cases hrep
  | left verdict d =>
    have hverdict : h.fields.verdict = .doRequest := if_pos (h.fields_length.trans hlen)
    have hfields := Report.left.inj hrep
    simp only [Head.report, HeaderReport.mk.injEq, hverdict] at hfields
    obtain ⟨rfl, -, hcgi, hurl, -, hlinger, -⟩ := hfields
    exact ⟨d, hq, hcgi, hurl, hlinger⟩

lemma Head.feed_part (h : Head) (junk : ℕ → ℕ → HttpCode) (c : ReadState) (hpre : pre.flatten <+: h.bytes)
    (hne : pre.flatten ≠ h.bytes) (hfit : h.bytes.length ≤ readBufferSize) :
    ∃ d, feed junk c.init pre = some (.waiting d) := by
  obtain ⟨rest, hrest⟩ := hpre
  have hlen : pre.flatten.length < h.bytes.length := by
    refine lt_of_le_of_ne (by rw [← hrest, List.length_append]; omega) fun he => hne ?_
    exact List.IsPrefix.eq_of_length ⟨rest, hrest⟩ he
  have hheading := heading_receive_init c (hlen.le.trans hfit)
  have hroom : c.init.readIdx + pre.flatten.length ≤ readBufferSize :=
    (Nat.zero_add _).trans_le (hlen.le.trans hfit)
  obtain ⟨q, p, hq, hp, hrep⟩ := feed_report (heading_init c) hroom (waiting_init junk c)
  obtain ⟨p', hp', hreport⟩ := h.phase junk c hfit
  have hexit := (headerPhase_iff hheading).mp hp
  -- an end of the header phase before the last byte would be its end in the whole head
  have hlater : (∀ d, p ≠ .waiting d) → p.report = .left h.report := by
    intro hends
    obtain ⟨hwhole, hsame⟩ := exits_later hheading hexit hends rest
    rw [← receive_append, hrest] at hwhole
    rw [← hsame, hwhole.unique ((headerPhase_iff (heading_receive_init c hfit)).mp hp'), hreport]
  cases p with
  | waiting =>
    cases q with
    | waiting d => exact ⟨d, hq⟩
    | left | fault => cases hrep
  | fault => cases hlater (by simp)
  | left verdict d =>
    have hfields := Report.left.inj (hlater (by simp))
    simp only [Head.report, HeaderReport.mk.injEq] at hfields
    have hend : d.checkedIdx = h.bytes.length := hfields.2.2.2.2.2.2
    obtain ⟨-, hread, hle⟩ := exits_left hheading hexit rfl
    have hread' : d.readIdx = 0 + pre.flatten.length := hread
    omega

lemma Head.pointed {d : ReadState} (h : Head) (hurl : d.url.map (str readBufferSize d.readBuf) = some h.url)
    (hends : UrlEnds d) (hread : d.readIdx ≤ readBufferSize) :
    ∃ u dirs, Url d u dirs (lastSegment h.url) ∧ h.url = dirs ++ slash :: lastSegment h.url := by
  obtain ⟨u, hu, htext⟩ := Option.map_eq_some_iff.mp hurl
  obtain ⟨hseg, dirs, hdirs⟩ := lastSegment_split h.slash_mem
  obtain ⟨z, huz, hz, hnul⟩ := hends u hu
  have hlen := str_length_le huz (hz.trans_le hread) hnul
  refine ⟨u, dirs, ⟨hu, htext.trans hdirs, hseg, ?_⟩, hdirs⟩
  rw [← hdirs, ← htext]
  omega

lemma Head.doRequest {d : ReadState} (h : Head) (hcred : h.credential = false) (hcgi : d.cgi = cgiOf h.method 0)
    (htext : d.url.map (str readBufferSize d.readBuf) = some h.url) (hends : UrlEnds d)
    (hread : d.readIdx ≤ readBufferSize) (h0 : 0 ∉ root) (hroot : root.length + h.page.length < filenameLen) :
    ∃ c : HttpConn, c.read = d ∧ c.path = root ++ h.page ∧ ∀ files inserted s,
      Http.doRequest files inserted (connection root d) s = .ok ((files (root ++ h.page)).verdict, c, s) := by
  obtain ⟨u, dirs, hurl, hdirs⟩ := h.pointed htext hends hread
  have hpage : pageOf dirs (lastSegment h.url) = h.page := by
    rw [pageOf, ← hdirs, Head.page]
  have hreg : d.registers = none := by
    rw [hurl.registers, if_neg]
    rintro ⟨hone, hflag⟩
    have hpost : h.method = .post := by
      by_contra hget
      rw [hcgi, cgiOf, if_neg hget] at hone
      cases hone
    exact of_decide_eq_false hcred ⟨hpost, hflag⟩
  rw [← hpage] at hroot ⊢
  exact hurl.doRequest_page hreg h0 hroot

/-- A request without a body is answered with the page that its path names, however its bytes are cut into pieces, and
not before its last byte is there. -/
theorem request_answered (hlen : h.length = 0) (hcred : h.credential = false) (hchunks : chunks.flatten = h.bytes)
    (hfit : h.bytes.length ≤ readBufferSize) (h0 : 0 ∉ root) (hroot : root.length + h.page.length < filenameLen)
    (c : ReadState) (w : WriteState) (size : ℤ) :
    (∃ r, e.exchange w.init size (connection root c.init) chunks = (r, e.accounts) ∧
      r.reply = some (replyWith h.keepsAlive (root ++ h.page) (e.files (root ++ h.page)))) ∧
      ∀ pre, pre <+: chunks → pre.flatten ≠ h.bytes →
        ∃ d, e.exchange w.init size (connection root c.init) pre = (.waiting d, e.accounts) := by
  have hheading : Heading (connection root c.init).read := heading_init c
  have hzero : (connection root c.init).read.readIdx = 0 := rfl
  constructor
  · obtain ⟨d, hfeed, hcgi, htext, hlinger⟩ := h.feed_whole e.junk c hlen hchunks hfit
    obtain ⟨hrun, hends, hread⟩ := (exchange_feed hheading (by rw [hchunks]; omega)).2 d hfeed
    obtain ⟨c', hread', hpath, hdo⟩ := h.doRequest hcred hcgi htext hends hread h0 hroot
    have hchosen := hdo e.files e.inserted e.accounts
    rw [← hpath] at hchosen
    have hw : w.init.writeIdx = 0 := rfl
    obtain ⟨r, hanswer, hreply⟩ := answerRequest_reply hw size hchosen
    rw [hread', hlinger, hpath] at hreply
    exact ⟨r, hrun.trans hanswer, hreply⟩
  · intro pre hpre hne
    have hprefix : pre.flatten <+: h.bytes := hchunks ▸ isPrefix_flatten hpre
    obtain ⟨d, hd⟩ := h.feed_part e.junk c hprefix hne hfit
    have hle := hprefix.length_le
    exact ⟨_, (exchange_feed hheading (by omega)).1 d hd⟩

def headOfA : Head where
  first := ascii "GET /a HTTP/1.1".toList
  others := [ascii "Host: b".toList, ascii "Connection: keep-alive".toList]
  method := .get
  path := ascii "/a".toList
  line := requestLine_iff.mpr ⟨⟨by decide, by decide, by decide⟩, by decide, by decide⟩
  whole := ⟨noBreak_of_all (by decide), by decide⟩
  headers := by
    intro line hl
    rcases List.mem_pair.mp hl with rfl | rfl
    · exact ⟨noBreak_of_all (by decide), by decide, by decide⟩
    · exact ⟨noBreak_of_all (by decide), by decide, by decide⟩

def fiveBytes : Environment := ⟨silent, fun _ => .found true false 5, true, ⟨fun _ => none, []⟩⟩

theorem request_answered_file : ∃ r,
    fiveBytes.exchange (default : WriteState).init 0 (connection (ascii "/w".toList) (default : ReadState).init)
      [headOfA.bytes.take 9, headOfA.bytes.drop 9] = (r, fiveBytes.accounts) ∧
      r.reply = some (.file (headText true 200 ok200Title 5) (ascii "/w/a".toList) 5) := by
  have hreply : replyWith headOfA.keepsAlive (ascii "/w".toList ++ headOfA.page)
      (fiveBytes.files (ascii "/w".toList ++ headOfA.page)) =
        .file (headText true 200 ok200Title 5) (ascii "/w/a".toList) 5 := by decide
  rw [← hreply]
  exact (request_answered (by decide) (by decide) (by simp) (by decide) (by decide) (by decide) _ _ _).1

end Result

end OceanServer.Http
