import OceanServer.Http.Exchange

/-! Registration and login as whole exchanges: the form that a browser posts, the page that answers it, and what a
registration means for the logins that follow it. -/

namespace OceanServer.Http

open Library Library.CString

section Forms

/-- A form with a name and a password, posted to a page whose name starts with 3 to register and with 2 to log in. -/
structure Form where
  head : Head
  registers : Bool
  name : List UInt8
  password : List UInt8
  post : head.method = .post
  flag : (lastSegment head.url).head? = some (if registers then chr '3' else chr '2')
  announced : head.length = (formText name password).length
  text : chr '&' ∉ name ∧ 0 ∉ name ∧ 0 ∉ password
  fits : FitsArrays registers name password
  short : head.url.length < 200

def Form.body (f : Form) : List UInt8 := formText f.name f.password

def Form.bytes (f : Form) : List UInt8 := f.head.bytes ++ f.body

def Form.outcome (f : Form) (s : Accounts) (inserted : Bool) : Page × Accounts :=
  if f.registers then s.register inserted (f.name, f.password) else (s.login (f.name, f.password), s)

structure Visit where
  env : Environment
  root : List UInt8
  read : ReadState
  write : WriteState
  size : ℤ
  chunks : List (List UInt8)

def Visit.envWith (v : Visit) (s : Accounts) : Environment := { v.env with accounts := s }

def Visit.run (v : Visit) (s : Accounts) : Processed × Accounts :=
  (v.envWith s).exchange v.write.init v.size (connection v.root v.read.init) v.chunks

def Visit.reply (v : Visit) (s : Accounts) : Option Reply := (v.run s).1.reply

/-- The form arrives with its body whole in the piece that ends its head, which `doc_root` and the pages fit. -/
structure Form.SentBy (f : Form) (v : Visit) : Prop where
  pieces : ∃ pre x, v.chunks = pre ++ [x] ∧ pre.flatten <+: f.head.bytes ∧ pre.flatten ≠ f.head.bytes ∧
    pre.flatten ++ x = f.bytes
  fit : f.bytes.length < readBufferSize
  ends : 0 ∉ v.root
  room : v.root.length + 19 < filenameLen

def Form.replyOf (f : Form) (v : Visit) (page : Page) : Reply :=
  replyWith f.head.keepsAlive (v.root ++ page.url) (v.env.files (v.root ++ page.url))

lemma Form.body_ends (f : Form) : 0 ∉ f.body := zero_not_mem_formText f.text.2.1 f.text.2.2

lemma Form.formBody (f : Form) : FormBody f.body f.name f.password := formText_formBody f.text.1

lemma Form.checkAccount (f : Form) (s : Accounts) (inserted : Bool) :
    checkAccount s inserted f.registers (f.name, f.password) = .ok (f.outcome s inserted) := by
  have hfits := f.fits
  rw [Form.outcome, Http.checkAccount]
  cases hr : f.registers with
  | true =>
    rw [hr] at hfits
    rw [if_pos rfl, if_pos rfl, if_pos (hfits.statement rfl)]
  | false => rfl

end Forms

section Delivery

variable {junk : ℕ → ℕ → HttpCode} {c d e : ReadState} {bytes : List UInt8} {chunks : List (List UInt8)}

lemma Pending.feed (h : Pending junk c d bytes) (hfit : (bytes ++ chunks.flatten).length ≤ readBufferSize)
    (hf : feed junk d chunks = some (.waiting e)) : Pending junk c e (bytes ++ chunks.flatten) := by
  induction chunks generalizing d bytes with
  | nil =>
    cases hf
    rwa [List.flatten_nil, List.append_nil]
  | cons x xs ih =>
    rw [List.flatten_cons, ← List.append_assoc] at hfit ⊢
    have hlen := hfit
    rw [List.length_append, List.length_append] at hlen
    have hx : Heading (d.receive x) := h.heading.receive (by rw [h.received]; omega)
    obtain ⟨q, hq⟩ := headerPhase_total junk hx
    simp only [Http.feed, hq] at hf
    cases q with
    | waiting d' =>
      obtain ⟨hd, hread, hsame⟩ := exits_resume hx ((headerPhase_iff hx).mp hq) rfl
      refine ih ⟨hd, ?_, fun ys r => ?_⟩ hfit hf
      · rw [hread, List.length_append, ← h.received]
        rfl
      · rw [List.append_assoc, h.same, receive_append]
        exact hsame ys r
    | left | fault => cases hf

structure Delivered (f : Form) (d : ReadState) : Prop where
  cgi : d.cgi = 1
  linger : d.linger = f.head.keepsAlive
  url : ∃ u dirs, Url d u dirs (lastSegment f.head.url) ∧ f.head.url = dirs ++ slash :: lastSegment f.head.url ∧
    u + 19 < readBufferSize
  body : ∃ b, d.string = some b ∧ str readBufferSize d.readBuf b = f.body ∧ b + f.body.length < readBufferSize

lemma Form.delivered (f : Form) (h : InHeaders f.head f.head.fields e) (hu : Unread e f.body)
    (hread : e.readIdx < readBufferSize) : Delivered f (deliver e) := by
  have hstop := hu.stop
  have hlong := f.formBody.length_ge
  have hlength : e.contentLength = f.body.length := h.length.trans (f.head.fields_length.trans f.announced)
  -- the NUL goes behind the body, which is the end of what is received
  have hnul : ((e.startLine : ℤ) + e.contentLength).toNat = e.readIdx := by
    rw [hlength, hu.start, hstop]
    omega
  have hkeep : ∀ i, i < e.readIdx → (deliver e).readBuf i = e.readBuf i := by
    intro i hi
    simp only [deliver, hnul]
    exact set_of_ne _ _ hi.ne
  have hzero : (deliver e).readBuf e.readIdx = 0 := by
    simp only [deliver, hnul]
    exact set_self _ _ _
  obtain ⟨u, z, hurl, hbound, huz, hz, h0, htext⟩ := h.url
  refine ⟨?_, h.linger.trans f.head.fields_linger, ?_, e.startLine, rfl, ?_, ?_⟩
  · exact h.cgi.trans (if_pos f.post)
  · obtain ⟨hseg, dirs, hdirs⟩ := lastSegment_split f.head.slash_mem
    have hstr : str readBufferSize (deliver e).readBuf u = f.head.url := by
      rw [← htext]
      exact (str_congr huz (by omega) h0 fun i _ hi => (hkeep i (by omega)).symm).symm
    have hlen := str_length_le huz (show z < readBufferSize by omega) h0
    refine ⟨u, dirs, ⟨hurl, hstr.trans hdirs, hseg, ?_⟩, hdirs, by omega⟩
    rw [← hdirs, ← htext]
    omega
  · rw [str_eq_append f.body_ends (by rw [hu.start]; omega), hu.start, ← hstop, str_eq_nil _ hzero, List.append_nil]
    intro i hi
    rw [hu.start, hkeep _ (by omega), hu.bytes i hi]
  · rw [hu.start, ← hstop]
    exact hread

lemma Form.read_last (f : Form) (junk : ℕ → ℕ → HttpCode) (hphase : e.checkState = .content)
    (h : InHeaders f.head f.head.fields e) (hu : Unread e f.body) (hread : e.readIdx < readBufferSize) :
    readStep junk (.ok, e) = .inr (.doRequest .content (deliver e)) := by
  have hstop := hu.stop
  have hstart := hu.start
  have hsize : (readBufferSize : ℤ) = 2048 := rfl
  have hmax : longMax = 2 ^ 63 - 1 := rfl
  have hlength : e.contentLength = f.body.length := h.length.trans (f.head.fields_length.trans f.announced)
  rw [readStep, if_pos ⟨hphase, rfl⟩, switchState_body hphase, if_neg (by omega), if_pos (by omega), if_pos (by omega)]

lemma Form.received (f : Form) (junk : ℕ → ℕ → HttpCode) {x : List UInt8} (hd : Pending junk c d bytes)
    (hbytes : bytes ++ x = f.bytes) (hfit : f.bytes.length < readBufferSize) :
    ∃ r, processRead junk (d.receive x) = some (.doRequest .content r) ∧ Delivered f r := by
  have hlen := congrArg List.length hbytes
  rw [List.length_append] at hlen
  have hx : Heading (d.receive x) := hd.heading.receive (by rw [hd.received]; omega)
  have hroom : (f.head.bytes ++ f.body).length ≤ readBufferSize := hfit.le
  obtain ⟨e, hexit, hin, hphase, hu, hread⟩ := f.head.read junk c hroom
  have hpos : f.head.length ≠ 0 := by
    rw [f.announced]
    have hlong : 15 ≤ (formText f.name f.password).length := f.formBody.length_ge
    omega
  have hcontent : f.head.fields.verdict = .content := if_neg (f.head.fields_length.trans_ne hpos)
  rw [hcontent] at hexit
  change Loop.Exits (headerStep junk) (c.init.receive f.bytes) _ at hexit
  rw [← hbytes, hd.same] at hexit
  have hgo : GoesOn junk (d.receive x) (.left .content e) := exits_header hx hexit
  have hread' : e.readIdx < readBufferSize := hread.trans_lt hfit
  refine ⟨deliver e, (processRead_iff hx.scanning.checked).mpr ((hgo _).mpr (.stop ?_)), f.delivered hin hu hread'⟩
  exact f.read_last junk (hphase hpos) hin hu hread'

end Delivery

section Requests

variable {files : List UInt8 → FileStat} {inserted : Bool} {c d : HttpConn} {s t : Accounts} {code : HttpCode}

lemma cgiRequest_linger {registers : Bool} {u : ℕ} (h : c.cgiRequest s inserted registers u = .ok (d, t)) :
    d.read.linger = c.read.linger := by
  obtain ⟨c₁, hcopy, h⟩ := bind_ok h
  obtain ⟨a, -, h⟩ := bind_ok h
  obtain ⟨r, -, h⟩ := bind_ok h
  obtain ⟨c₂, hset, h⟩ := bind_ok h
  cases h
  rw [HttpConn.setUrl] at hset
  split_ifs at hset
  cases hset
  rw [copyUrl_read hcopy]

lemma doRequest_linger (h : doRequest files inserted c s = .ok (code, d, t)) : d.read.linger = c.read.linger := by
  obtain ⟨c₁, hroot, h⟩ := bind_ok h
  obtain ⟨⟨u, p⟩, -, h⟩ := bind_ok h
  obtain ⟨⟨c₂, t₂⟩, hcgi, h⟩ := bind_ok h
  obtain ⟨c₃, hpath, h⟩ := bind_ok h
  obtain ⟨code', -, h⟩ := bind_ok h
  cases h
  rw [choosePath_read hpath, ← copyRoot_read hroot]
  simp only [HttpConn.afterCgi] at hcgi
  split_ifs at hcgi
  · exact cgiRequest_linger hcgi
  · cases hcgi
    rfl

lemma Form.doRequest (f : Form) (s : Accounts) (inserted : Bool) {r : ReadState} {root : List UInt8}
    (hr : Delivered f r) (h0 : 0 ∉ root) (hroot : root.length + 19 < filenameLen) :
    ∃ d : HttpConn, d.path = root ++ (f.outcome s inserted).1.url ∧ d.read.linger = f.head.keepsAlive ∧
      ∀ files, Http.doRequest files inserted (connection root r) s =
        .ok ((files (root ++ (f.outcome s inserted).1.url)).verdict, d, (f.outcome s inserted).2) := by
  obtain ⟨u, dirs, hurl, hdirs, hroom⟩ := hr.url
  obtain ⟨b, hb, hbody, hends⟩ := hr.body
  have hflag := f.flag
  have hreg : r.registers = some f.registers := by
    rw [hurl.registers, List.headD_eq_head?_getD, hflag, hr.cgi]
    cases f.registers <;> decide
  have haccount : credentials r.readBuf r.string = .ok (f.name, f.password) := by
    rw [hb, credentials_eq]
    exact credentialsWithin_mono (Nat.le_sub_one_of_lt hends)
      (credentialsWithin_ok hbody hends f.formBody f.fits.1 f.fits.2.1)
  have hpage := f.checkAccount s inserted
  generalize f.outcome s inserted = out at hpage ⊢
  obtain ⟨page, t⟩ := out
  have hshort := page.url_short
  have hreal : (r.urlReal u).length < 200 := by
    have hurlShort := f.short
    rw [hurl.urlReal_length (by intro hnil; rw [hnil] at hflag; cases hflag), ← hdirs]
    omega
  have hfits : root.length < filenameLen := by omega
  obtain ⟨c, hc⟩ := (rooted_rooted r hfits h0).cgiRequest_ok hreal haccount hpage (by omega)
  obtain ⟨a, page', d, ha, hpage', hpath, -, hrun⟩ := doRequest_page hurl hreg hfits h0 hc
  obtain rfl := Except.ok.inj (haccount.symm.trans ha)
  obtain ⟨rfl, -⟩ := Prod.mk.inj (Except.ok.inj (hpage.symm.trans hpage'))
  rw [List.take_of_length_le (by omega)] at hpath
  refine ⟨d, hpath, ?_, fun files => by rw [← hpath]; exact hrun files⟩
  exact (doRequest_linger (hrun fun _ => .missing)).trans hr.linger

end Requests

section Visits

variable {e : Environment} {w : WriteState} {size : ℤ} {c d : HttpConn} {chunks pre : List (List UInt8)}

lemma exchange_append (h : e.exchange w size c pre = (.waiting d, e.accounts)) (ys : List (List UInt8)) :
    e.exchange w size c (pre ++ ys) = e.exchange w size d ys := by
  induction pre generalizing c with
  | nil =>
    cases h
    rfl
  | cons x xs ih =>
    simp only [List.cons_append, Environment.exchange] at h ⊢
    split at h
    · exact ih h
    · rename_i hne
      exact absurd h (hne _ _)

lemma exchange_last {x : List UInt8} {o : Origin} {r : ReadState}
    (h : processRead e.junk (c.read.receive x) = some (.doRequest o r)) :
    e.exchange w size c [x] = e.answerRequest (c.withRead r) w size := by
  have hprocess : e.process (c.withRead (c.read.receive x)) w size = e.answerRequest (c.withRead r) w size := by
    rw [Environment.process, show (c.withRead (c.read.receive x)).read = c.read.receive x from rfl, h]
    rfl
  rw [Environment.exchange, hprocess]
  split
  · rename_i ha
    exact absurd (congrArg Prod.fst ha) (answerRequest_ne_waiting e w size _ _)
  · rfl

lemma Form.answered (f : Form) {v : Visit} (hv : f.SentBy v) (s : Accounts) :
    (v.run s).2 = (f.outcome s v.env.inserted).2 ∧
      v.reply s = some (f.replyOf v (f.outcome s v.env.inserted).1) := by
  obtain ⟨pre, x, hchunks, hprefix, hne, hbytes⟩ := hv.pieces
  have hlen := hprefix.length_le
  have hfit := hv.fit
  rw [Form.bytes, List.length_append] at hfit
  have hroom : ([] ++ pre.flatten).length ≤ readBufferSize := by
    rw [List.nil_append]
    omega
  -- up to the last piece the connection waits
  obtain ⟨d, hfeed⟩ := f.head.feed_part v.env.junk v.read hprefix hne (by omega)
  have hwait : (v.envWith s).exchange v.write.init v.size (connection v.root v.read.init) pre =
      (.waiting (connection v.root d), (v.envWith s).accounts) :=
    (exchange_feed (heading_init v.read) ((Nat.zero_add _).trans_le hroom)).1 d hfeed
  obtain ⟨r, hread, hr⟩ := f.received v.env.junk ((pending_init v.env.junk v.read).feed hroom hfeed) hbytes hv.fit
  obtain ⟨d', hpath, hlinger, hdo⟩ := f.doRequest s v.env.inserted hr hv.ends hv.room
  have hrun : v.run s = (v.envWith s).answerRequest (connection v.root r) v.write.init v.size := by
    rw [Visit.run, hchunks, exchange_append hwait]
    exact exchange_last hread
  have hchosen := hdo v.env.files
  rw [← hpath] at hchosen
  have hw : v.write.init.writeIdx = 0 := rfl
  obtain ⟨q, hanswer, hreply⟩ := answerRequest_reply (e := v.envWith s) hw v.size hchosen
  rw [hlinger, hpath] at hreply
  rw [Visit.reply, hrun, hanswer]
  exact ⟨rfl, hreply⟩

end Visits

end OceanServer.Http
