import OceanServer.Http.Credentials
import OceanServer.Library.LexicalPath

/-! The path that `do_request` builds in `m_real_file`, the pages it chooses, and where the path leads. -/

namespace OceanServer.Http

open Library Library.CString

section Root

structure Rooted (c : HttpConn) : Prop where
  fits : c.docRoot.length < filenameLen
  ends : 0 ∉ c.docRoot
  root : ∀ i (hi : i < c.docRoot.length), c.realFile i = c.docRoot[i]
  last : c.realFile (filenameLen - 1) = 0

variable {c d : HttpConn} {r : ReadState} {root text : List UInt8} {n : ℕ}

def rooted (r : ReadState) (root : List UInt8) : HttpConn where
  read := r
  realFile := Memory.write (fun _ => 0) 0 (root ++ [0])
  docRoot := root

lemma copyRoot_eq (h : root.length < filenameLen) :
    HttpConn.copyRoot ⟨r, fun _ => 0, root⟩ = .ok (rooted r root) := if_pos h

lemma copyRoot_fault (h : ¬ root.length < filenameLen) :
    HttpConn.copyRoot ⟨r, fun _ => 0, root⟩ = .error .realFile := if_neg h

lemma rooted_zero (r : ReadState) {root : List UInt8} {i : ℕ} (h : root.length ≤ i) :
    (rooted r root).realFile i = 0 := by
  rcases h.eq_or_lt with rfl | hlt
  · have hw := write_inside (fun _ => 0) 0 (root ++ [0]) (i := root.length) (by simp)
    rwa [Nat.zero_add, List.getElem_append_right le_rfl, List.getElem_singleton] at hw
  · refine write_outside (fun _ => 0) 0 (root ++ [0]) (.inr ?_)
    rw [List.length_append, List.length_singleton]
    omega

lemma rooted_rooted (r : ReadState) (h : root.length < filenameLen) (h0 : 0 ∉ root) : Rooted (rooted r root) where
  fits := h
  ends := h0
  root i hi := by
    change i < root.length at hi
    have hw := write_inside (fun _ => 0) 0 (root ++ [0]) (i := i) (by simp; omega)
    rwa [Nat.zero_add, List.getElem_append_left hi] at hw
  last := rooted_zero r (Nat.le_sub_one_of_lt h)

lemma setPath_ok (h : c.docRoot.length + n ≤ filenameLen) :
    c.setPath text n = .ok { c with realFile := strncpy c.realFile c.docRoot.length text n } := if_pos h

lemma Rooted.path (hc : Rooted c) (hd : c.setPath text n = .ok d) (h0 : 0 ∉ text)
    (hn : n ≤ text.length → c.realFile (c.docRoot.length + n) = 0 ∨ filenameLen ≤ c.docRoot.length + n) :
    d.path = c.docRoot ++ text.take n := by
  rw [HttpConn.setPath] at hd
  split_ifs at hd with hfit
  cases hd
  have hkeep : ∀ i (hi : i < c.docRoot.length),
      strncpy c.realFile c.docRoot.length text n (0 + i) = c.docRoot[i] := by
    intro i hi
    rw [Nat.zero_add, strncpy_outside _ _ (.inl hi), hc.root i hi]
  have htake := List.length_take_le n text
  change str filenameLen (strncpy c.realFile c.docRoot.length text n) 0 = _
  rw [str_eq_append hc.ends (by have := hc.fits; omega) hkeep, Nat.zero_add,
    str_strncpy h0 (by omega) hn]

lemma Rooted.rest_eq (hc : Rooted c) : c.docRoot.length + c.restOfPath = filenameLen - 1 := by
  have hfits := hc.fits
  rw [HttpConn.restOfPath]
  omega

lemma Rooted.rest (hc : Rooted c) (h0 : 0 ∉ text) : ∃ d, c.setPath text c.restOfPath = .ok d ∧ Rooted d ∧
    d.docRoot = c.docRoot ∧ d.path = c.docRoot ++ text.take c.restOfPath := by
  have hrest := hc.rest_eq
  have hfits := hc.fits
  have hok : c.setPath text c.restOfPath = .ok _ := setPath_ok (by omega)
  refine ⟨_, hok, ⟨hfits, hc.ends, fun i hi => ?_, ?_⟩, rfl, hc.path hok h0 fun _ => .inl ?_⟩
  · exact (strncpy_outside _ _ (.inl hi)).trans (hc.root i hi)
  · exact (strncpy_outside _ _ (.inr hrest.le)).trans hc.last
  · rw [hrest, hc.last]

lemma judgeFile_ok (h : c.path.length < filenameLen) (files : List UInt8 → FileStat) :
    c.judgeFile files = .ok (files c.path).verdict := if_pos h

end Root

section Choice

/-- `m_url` starts at `u` and ends in the buffer; `seg` is the text after its last slash. -/
structure Url (r : ReadState) (u : ℕ) (dirs seg : List UInt8) : Prop where
  pointer : r.url = some u
  text : str readBufferSize r.readBuf u = dirs ++ slash :: seg
  last : slash ∉ seg
  ends : u + (dirs ++ slash :: seg).length < readBufferSize

variable {r : ReadState} {u : ℕ} {dirs seg root page : List UInt8}

lemma Url.lastSlash (h : Url r u dirs seg) : r.lastSlash = .ok (u, u + dirs.length) := by
  simp only [ReadState.lastSlash, h.pointer, strrchr_eq h.text h.last]

lemma Url.flag (h : Url r u dirs seg) : r.readBuf (u + dirs.length + 1) = seg.headD 0 := by
  have hends := h.ends
  rw [List.length_append, List.length_cons] at hends
  have hseg : str readBufferSize r.readBuf (u + (dirs ++ [slash]).length) = seg :=
    str_behind h.text (by simp)
  rw [List.length_append, List.length_singleton, ← Nat.add_assoc] at hseg
  have hbyte : r.readBuf (u + dirs.length + 1) =
      (str readBufferSize r.readBuf (u + dirs.length + 1)).headD 0 := byte_eq_headD (by omega)
  rw [hbyte, hseg]

lemma digitPage_ends {b : UInt8} (h : digitPage b = some page) : 0 ∉ page := by
  rw [digitPage] at h
  split_ifs at h <;> cases h <;> decide

def pageOf (dirs seg : List UInt8) : List UInt8 := (digitPage (seg.headD 0)).getD (dirs ++ slash :: seg)

def ExactPath (r : ReadState) (root page : List UInt8) : Prop :=
  ∀ files inserted s, ∃ code d t, doRequest files inserted ⟨r, fun _ => 0, root⟩ s = .ok (code, d, t) ∧
    (code = .fileRequest → d.path = root ++ page)

lemma Url.registers (h : Url r u dirs seg) :
    r.registers = if r.cgi = 1 ∧ (seg.headD 0 = chr '2' ∨ seg.headD 0 = chr '3') then
      some (decide (seg.headD 0 = chr '3')) else none := by
  simp only [ReadState.registers, h.lastSlash, h.flag]

lemma Url.afterCgi (h : Url r u dirs seg) (inserted : Bool) (s : Accounts) :
    (rooted r root).afterCgi s inserted u (u + dirs.length) =
      match r.registers with
      | some b => (rooted r root).cgiRequest s inserted b u
      | none => .ok (rooted r root, s) := by
  have hflag : (rooted r root).read.readBuf (u + dirs.length + 1) = seg.headD 0 := h.flag
  have hcgi : (rooted r root).read.cgi = r.cgi := rfl
  simp only [HttpConn.afterCgi, hflag, hcgi, h.registers]
  split_ifs
  · rfl
  · rfl

lemma doRequest_eq (h : Url r u dirs seg) (hroot : root.length < filenameLen) (files : List UInt8 → FileStat)
    (inserted : Bool) (s : Accounts) :
    doRequest files inserted ⟨r, fun _ => 0, root⟩ s =
      (rooted r root).afterCgi s inserted u (u + dirs.length) >>= fun x =>
        x.1.choosePath u (u + dirs.length) >>= fun c => c.judgeFile files >>= fun code => .ok (code, c, x.2) := by
  have hslash : (rooted r root).read.lastSlash = .ok (u, u + dirs.length) := h.lastSlash
  rw [doRequest, copyRoot_eq hroot, ok_bind, hslash]
  rfl

lemma doRequest_plain (h : Url r u dirs seg) (hreg : r.registers = none) (hroot : root.length < filenameLen)
    (files : List UInt8 → FileStat) (inserted : Bool) (s : Accounts) :
    doRequest files inserted ⟨r, fun _ => 0, root⟩ s =
      (rooted r root).choosePath u (u + dirs.length) >>= fun c => c.judgeFile files >>= fun code => .ok (code, c, s) := by
  rw [doRequest_eq h hroot, h.afterCgi, hreg]
  rfl

lemma choosePath_digit (h : Url r u dirs seg) (hpage : digitPage (seg.headD 0) = some page) :
    (rooted r root).choosePath u (u + dirs.length) = (rooted r root).setPath page page.length := by
  have hflag : (rooted r root).read.readBuf (u + dirs.length + 1) = seg.headD 0 := h.flag
  rw [HttpConn.choosePath, hflag, hpage]

lemma choosePath_url (h : Url r u dirs seg) (hpage : digitPage (seg.headD 0) = none) :
    (rooted r root).choosePath u (u + dirs.length) =
      (rooted r root).setPath (dirs ++ slash :: seg) (rooted r root).restOfPath := by
  have hflag : (rooted r root).read.readBuf (u + dirs.length + 1) = seg.headD 0 := h.flag
  have htext : str readBufferSize (rooted r root).read.readBuf u = dirs ++ slash :: seg := h.text
  rw [HttpConn.choosePath, hflag, hpage, htext]

lemma Url.zero_not_mem (h : Url r u dirs seg) : 0 ∉ dirs ++ slash :: seg := h.text ▸ zero_not_mem_str _ _ _

lemma digit_path {d : HttpConn} (hroot : root.length < filenameLen) (h0 : 0 ∉ root) {b : UInt8}
    (hpage : digitPage b = some page) (hd : (rooted r root).setPath page page.length = .ok d) : d.path = root ++ page := by
  -- `strncpy` copies the page without its NUL; the byte behind it is still the one that `init` has cleared.
  rw [(rooted_rooted r hroot h0).path hd (digitPage_ends hpage), List.take_length]
  · rfl
  · exact fun _ => .inl (rooted_zero r (Nat.le_add_right _ _))

lemma exactPath_iff_path {d : HttpConn} (hd : ∀ files inserted s, doRequest files inserted ⟨r, fun _ => 0, root⟩ s =
      d.judgeFile files >>= fun code => .ok (code, d, s)) :
    ExactPath r root page ↔ d.path.length < filenameLen ∧ d.path = root ++ page := by
  constructor
  · intro h
    obtain ⟨code, e, t, hrun, hpath⟩ := h (fun _ => .found true false 0) true ⟨fun _ => none, []⟩
    rw [hd] at hrun
    obtain ⟨code', hjudge, he⟩ := bind_ok hrun
    cases he
    rw [HttpConn.judgeFile] at hjudge
    split_ifs at hjudge with hlen
    cases hjudge
    exact ⟨hlen, hpath rfl⟩
  · rintro ⟨hlen, hpath⟩ files inserted s
    refine ⟨(files d.path).verdict, d, s, ?_, fun _ => hpath⟩
    rw [hd, judgeFile_ok hlen, ok_bind]

lemma not_exactPath (h : ∀ files inserted s, doRequest files inserted ⟨r, fun _ => 0, root⟩ s = .error .realFile) :
    ¬ ExactPath r root page := by
  intro hex
  obtain ⟨code, d, t, hrun, -⟩ := hex (fun _ => .missing) true ⟨fun _ => none, []⟩
  cases (h _ _ _).symm.trans hrun

lemma exactPath_digit (h : Url r u dirs seg) (hreg : r.registers = none) (hroot : root.length < filenameLen)
    (h0 : 0 ∉ root) (hpage : digitPage (seg.headD 0) = some page) :
    ExactPath r root page ↔ root.length + page.length < filenameLen := by
  have hplain := doRequest_plain h hreg hroot
  simp only [choosePath_digit h hpage] at hplain
  by_cases hfit : root.length + page.length ≤ filenameLen
  · have hd : (rooted r root).setPath page page.length = .ok _ := setPath_ok hfit
    simp only [hd, ok_bind] at hplain
    rw [exactPath_iff_path hplain, digit_path hroot h0 hpage hd, List.length_append]
    exact and_iff_left rfl
  · have herr : (rooted r root).setPath page page.length = .error .realFile := if_neg hfit
    refine iff_of_false (not_exactPath fun files inserted s => ?_) (by omega)
    rw [hplain, herr]
    rfl

lemma exactPath_url (h : Url r u dirs seg) (hreg : r.registers = none) (hroot : root.length < filenameLen)
    (h0 : 0 ∉ root) (hpage : digitPage (seg.headD 0) = none) :
    ExactPath r root (dirs ++ slash :: seg) ↔ root.length + (dirs ++ slash :: seg).length < filenameLen := by
  have hplain := doRequest_plain h hreg hroot
  have hr := rooted_rooted r hroot h0
  obtain ⟨d, hd, -, -, hpath⟩ := hr.rest h.zero_not_mem
  simp only [choosePath_url h hpage, hd, ok_bind] at hplain
  have hrest : root.length + (rooted r root).restOfPath = filenameLen - 1 := hr.rest_eq
  have hdoc : (rooted r root).docRoot = root := rfl
  rw [exactPath_iff_path hplain, hpath, hdoc, List.append_right_inj, List.take_eq_self_iff, List.length_append,
    List.length_take]
  omega

theorem exact_path_iff (h : Url r u dirs seg) (hreg : r.registers = none) (h0 : 0 ∉ root) :
    ExactPath r root (pageOf dirs seg) ↔ root.length + (pageOf dirs seg).length < filenameLen := by
  by_cases hroot : root.length < filenameLen
  · cases hpage : digitPage (seg.headD 0) with
    | some page =>
      rw [pageOf, hpage]
      exact exactPath_digit h hreg hroot h0 hpage
    | none =>
      rw [pageOf, hpage]
      exact exactPath_url h hreg hroot h0 hpage
  · refine iff_of_false (not_exactPath fun files inserted s => ?_) (by omega)
    rw [doRequest, copyRoot_fault hroot]
    rfl

end Choice

def requested : Option Leave → Option (ℕ × List UInt8 × Option Bool)
  | some (.doRequest _ r) => r.url.map fun u => (u, str readBufferSize r.readBuf u, r.registers)
  | _ => none

lemma requested_url {l : Option Leave} {u : ℕ} {dirs seg : List UInt8} {b : Option Bool}
    (h : requested l = some (u, dirs ++ slash :: seg, b)) (hseg : slash ∉ seg)
    (hends : u + (dirs ++ slash :: seg).length < readBufferSize) :
    ∃ origin r, l = some (.doRequest origin r) ∧ Url r u dirs seg ∧ r.registers = b := by
  rcases l with - | ⟨code, c⟩ | ⟨origin, r⟩ | -
  · cases h
  · cases h
  · obtain ⟨u', hu, hr⟩ := Option.map_eq_some_iff.mp h
    simp only [Prod.mk.injEq] at hr
    obtain ⟨rfl, htext, hb⟩ := hr
    exact ⟨origin, r, rfl, ⟨hu, htext, hseg, hends⟩, hb⟩
  · cases h

def fetch (url : List Char) : Option Leave :=
  processRead (fun _ _ => .noRequest) (lineOf ("GET ".toList ++ url ++ " HTTP/1.1\r\n\r\n".toList))

theorem exact_path_of_digit : ∃ origin r, fetch "/a/6z".toList = some (.doRequest origin r) ∧
    ExactPath r (ascii "/root".toList) (ascii "/video.html".toList) := by
  have h : requested (fetch "/a/6z".toList) = some (4, ascii "/a".toList ++ slash :: ascii "6z".toList, none) := by
    decide +kernel
  obtain ⟨origin, r, hr, hurl, hreg⟩ := requested_url h (by decide) (by decide)
  exact ⟨origin, r, hr, (exact_path_iff hurl hreg (by decide)).mpr (by decide)⟩

def longName : List Char := List.replicate 199 'a'

theorem long_url_cut_off : ∃ origin r, fetch ('/' :: longName) = some (.doRequest origin r) ∧
    ¬ ExactPath r (ascii "/root".toList) (slash :: ascii longName) := by
  have h : requested (fetch ('/' :: longName)) = some (4, [] ++ slash :: ascii longName, none) := by
    decide +kernel
  obtain ⟨origin, r, hr, hurl, hreg⟩ := requested_url h (by decide +kernel) (by decide +kernel)
  refine ⟨origin, r, hr, fun hex => ?_⟩
  have hlen := (exactPath_url hurl hreg (by decide) (by decide) (by decide +kernel)).mp hex
  exact absurd hlen (by decide +kernel)

section Credential

variable {c d : HttpConn} {r : ReadState} {u : ℕ} {dirs seg root : List UInt8} {a : Account} {page : Page}
  {s t : Accounts} {inserted b : Bool}

lemma urlReal_ends (r : ReadState) (u : ℕ) : 0 ∉ r.urlReal u :=
  List.not_mem_cons_of_ne_of_not_mem (by decide) (zero_not_mem_str _ _ _)

lemma Url.urlReal_length (h : Url r u dirs seg) (hseg : seg ≠ []) :
    (r.urlReal u).length = (dirs ++ slash :: seg).length - 1 := by
  have hpos := List.length_pos_of_ne_nil hseg
  have hlen : 2 ≤ (dirs ++ slash :: seg).length := by
    rw [List.length_append, List.length_cons]
    omega
  rw [ReadState.urlReal, List.length_cons, str_drop (by rwa [h.text]), h.text, List.length_drop]
  omega

structure Replaced (c : HttpConn) (u : ℕ) (page : Page) (d : HttpConn) : Prop where
  base : Rooted d
  docRoot : d.docRoot = c.docRoot
  read : d.read = { c.read with readBuf := c.read.readBuf.write u (page.url ++ [0]) }
  room : u + page.url.length < readBufferSize

lemma Rooted.copyUrl (hc : Rooted c) (hd : c.copyUrl u = .ok d) : Rooted d ∧ d.docRoot = c.docRoot := by
  obtain ⟨e, he, hr, hdoc, -⟩ := hc.rest (urlReal_ends c.read u)
  rw [HttpConn.copyUrl] at hd
  split_ifs at hd
  obtain rfl := Except.ok.inj (he.symm.trans hd)
  exact ⟨hr, hdoc⟩

lemma Rooted.replaced (hc : Rooted c) (hrun : c.cgiRequest s inserted b u = .ok (d, t)) :
    ∃ a page, c.account = .ok a ∧ checkAccount s inserted b a = .ok (page, t) ∧ Replaced c u page d := by
  obtain ⟨c₁, hcopy, hrun⟩ := bind_ok hrun
  obtain ⟨a, ha, hrun⟩ := bind_ok hrun
  obtain ⟨⟨page, t'⟩, hpage, hrun⟩ := bind_ok hrun
  obtain ⟨c₂, hset, hrun⟩ := bind_ok hrun
  cases hrun
  have hread := copyUrl_read hcopy
  obtain ⟨hr, hdoc⟩ := hc.copyUrl hcopy
  rw [hread] at ha
  rw [HttpConn.setUrl] at hset
  split_ifs at hset with hroom
  cases hset
  exact ⟨a, page, ha, hpage, ⟨hr.fits, hr.ends, hr.root, hr.last⟩, hdoc, by rw [hread], hroom⟩

lemma Rooted.cgiRequest_ok (hc : Rooted c) (hreal : (c.read.urlReal u).length < 200) (ha : c.account = .ok a)
    (hpage : checkAccount s inserted b a = .ok (page, t)) (hroom : u + page.url.length < readBufferSize) :
    ∃ d, c.cgiRequest s inserted b u = .ok (d, t) := by
  obtain ⟨e, he, -⟩ := hc.rest (urlReal_ends c.read u)
  have hcopy : c.copyUrl u = .ok e := (if_pos hreal).trans he
  have ha' : credentials e.read.readBuf e.read.string = .ok a := by
    rw [copyUrl_read hcopy]
    exact ha
  have hset : e.setUrl u page = .ok _ := if_pos hroom
  exact ⟨_, by rw [HttpConn.cgiRequest, hcopy, ok_bind, ha', ok_bind, hpage, ok_bind, hset]; rfl⟩

lemma page_no_digit (page : Page) : ∀ x ∈ page.url ++ [0], digitPage x = none := by
  have hall : (page.url ++ [0]).all (fun x => (digitPage x).isNone) = true := by cases page <;> decide
  exact fun x hx => Option.isNone_iff_eq_none.mp (List.all_eq_true.mp hall x hx)

lemma Url.overwritten (h : Url r u dirs seg) (hb : r.registers = some b) (page : Page) :
    digitPage (r.readBuf.write u (page.url ++ [0]) (u + dirs.length + 1)) = none := by
  by_cases hi : dirs.length + 1 < (page.url ++ [0]).length
  · rw [Nat.add_assoc, write_inside _ _ _ hi]
    exact page_no_digit page _ (List.getElem_mem hi)
  · rw [h.registers] at hb
    split_ifs at hb with hflag
    rw [write_outside _ _ _ (.inr (by omega)), h.flag]
    rcases hflag.2 with hflag | hflag <;> rw [hflag] <;> decide

lemma Replaced.choosePath (hd : Replaced (rooted r root) u page d) (h : Url r u dirs seg) (hb : r.registers = some b) :
    digitPage (d.read.readBuf (u + dirs.length + 1)) = none ∧
      ∃ e, d.choosePath u (u + dirs.length) = .ok e ∧ e.read = d.read ∧
        e.path = root ++ page.url.take (filenameLen - root.length - 1) := by
  have hflag : digitPage (d.read.readBuf (u + dirs.length + 1)) = none := by
    rw [hd.read]
    exact h.overwritten hb page
  have htext : str readBufferSize d.read.readBuf u = page.url := by
    rw [hd.read]
    exact str_write_self _ page.url_ends hd.room.le
  obtain ⟨e, he, -, -, hpath⟩ := hd.base.rest page.url_ends
  have hchoose : d.choosePath u (u + dirs.length) = .ok e := by
    rw [HttpConn.choosePath, hflag, htext]
    exact he
  have hdoc : d.docRoot = root := hd.docRoot
  rw [HttpConn.restOfPath, hdoc] at hpath
  exact ⟨hflag, e, hchoose, choosePath_read hchoose, hpath⟩

lemma doRequest_page (h : Url r u dirs seg) (hb : r.registers = some b) (hroot : root.length < filenameLen)
    (h0 : 0 ∉ root) (hc : (rooted r root).cgiRequest s inserted b u = .ok (c, t)) :
    ∃ a page d, credentials r.readBuf r.string = .ok a ∧ checkAccount s inserted b a = .ok (page, t) ∧
      d.path = root ++ page.url.take (filenameLen - root.length - 1) ∧
      digitPage (d.read.readBuf (u + dirs.length + 1)) = none ∧
      ∀ files, doRequest files inserted ⟨r, fun _ => 0, root⟩ s = .ok ((files d.path).verdict, d, t) := by
  obtain ⟨a, page, ha, hpage, hrep⟩ := (rooted_rooted r hroot h0).replaced hc
  obtain ⟨hflag, d, hd, hread, hpath⟩ := hrep.choosePath h hb
  refine ⟨a, page, d, ha, hpage, hpath, by rw [hread]; exact hflag, fun files => ?_⟩
  have hlen : d.path.length < filenameLen := by
    rw [hpath, List.length_append, List.length_take]
    omega
  rw [doRequest_eq h hroot, h.afterCgi, hb]
  change ((rooted r root).cgiRequest s inserted b u >>= _) = _
  rw [hc, ok_bind, hd, ok_bind, judgeFile_ok hlen, ok_bind]

end Credential

lemma Page.url_short (page : Page) : page.url.length ≤ 19 := by cases page <;> decide

lemma checkAccount_ok {registers : Bool} {name password : List UInt8} (h : FitsArrays registers name password)
    (s : Accounts) (inserted : Bool) : ∃ page t, checkAccount s inserted registers (name, password) = .ok (page, t) := by
  cases registers with
  | true => exact ⟨_, _, if_pos (h.statement rfl)⟩
  | false => exact ⟨_, _, rfl⟩

theorem credential_page_served {c₀ r : ReadState} {s : LineStatus × ReadState} {junk : ℕ → ℕ → HttpCode} {u b : ℕ}
    {dirs seg name password root : List UInt8} {registers : Bool} (hs : Reading c₀ s)
    (hr : readStep junk s = .inr (.doRequest .content r)) (hcgi : r.cgi = 1) (hurl : Url r u dirs seg)
    (hshort : (dirs ++ slash :: seg).length < 200)
    (hflag : seg.head? = some (if registers then chr '3' else chr '2')) (hb : r.string = some b)
    (hends : b + (str readBufferSize r.readBuf b).length < readBufferSize)
    (hbody : FormBody (str readBufferSize r.readBuf b) name password) (hfit : FitsArrays registers name password)
    (h0 : 0 ∉ root) (hroot : root.length + 19 < filenameLen) (files : List UInt8 → FileStat) (inserted : Bool)
    (accounts : Accounts) :
    ∃ page t d, checkAccount accounts inserted registers (name, password) = .ok (page, t) ∧
      doRequest files inserted ⟨r, fun _ => 0, root⟩ accounts = .ok ((files (root ++ page.url)).verdict, d, t) ∧
      digitPage (d.read.readBuf (u + dirs.length + 1)) = none ∧ d.path = root ++ page.url := by
  have hreg : r.registers = some registers := by
    rw [hurl.registers, List.headD_eq_head?_getD, hflag, hcgi]
    cases registers <;> decide
  have haccount : credentials r.readBuf r.string = .ok (name, password) := by
    have hle : b + (str readBufferSize r.readBuf b).length ≤ readBufferSize - 1 := Nat.le_sub_one_of_lt hends
    rw [hb, credentials_eq]
    exact credentialsWithin_mono hle (credentialsWithin_ok rfl hends hbody hfit.1 hfit.2.1)
  obtain ⟨page, t, hpage⟩ := checkAccount_ok hfit accounts inserted
  have hpageLen := page.url_short
  have hroom : u + page.url.length < readBufferSize := by
    have hbefore := hs.url_before_body hr hurl.pointer hb
    have hlong := hbody.length_ge
    omega
  have hreal : (r.urlReal u).length < 200 := by
    rw [hurl.urlReal_length (by rintro rfl; cases hflag)]
    omega
  have hfits : root.length < filenameLen := by omega
  obtain ⟨c, hc⟩ := (rooted_rooted r hfits h0).cgiRequest_ok hreal haccount hpage hroom
  obtain ⟨a, page', d, ha, hpage', hpath, hdigit, hrun⟩ := doRequest_page hurl hreg hfits h0 hc
  obtain rfl := Except.ok.inj (haccount.symm.trans ha)
  obtain ⟨rfl, -⟩ := Prod.mk.inj (Except.ok.inj (hpage.symm.trans hpage'))
  rw [List.take_of_length_le (by omega)] at hpath
  exact ⟨page, t, d, hpage, by rw [hrun, hpath], hdigit, hpath⟩

def delivered (s : LineStatus × ReadState) : Option (ℕ × (ℕ × List UInt8) × ℕ × List UInt8) :=
  match readStep (fun _ _ => .noRequest) s with
  | .inr (.doRequest .content r) => r.url.bind fun u => r.string.map fun b =>
      (r.cgi, (u, str readBufferSize r.readBuf u), b, str readBufferSize r.readBuf b)
  | _ => none

lemma delivered_run {s : LineStatus × ReadState} {cgi u b : ℕ} {url body : List UInt8}
    (h : delivered s = some (cgi, (u, url), b, body)) :
    ∃ r, readStep (fun _ _ => .noRequest) s = .inr (.doRequest .content r) ∧ r.cgi = cgi ∧ r.url = some u ∧
      str readBufferSize r.readBuf u = url ∧ r.string = some b ∧ str readBufferSize r.readBuf b = body := by
  rw [delivered] at h
  split at h
  · rename_i r hr
    obtain ⟨u', hu, h⟩ := Option.bind_eq_some_iff.mp h
    obtain ⟨b', hb, h⟩ := Option.map_eq_some_iff.mp h
    simp only [Prod.mk.injEq] at h
    obtain ⟨hcgi, ⟨rfl, hurl⟩, rfl, hbody⟩ := h
    exact ⟨r, hr, hcgi, hu, hurl, hb, hbody⟩
  · cases h

theorem credential_page_of_registration : ∃ s r d t, Reading default s ∧
    readStep (fun _ _ => .noRequest) s = .inr (.doRequest .content r) ∧
    doRequest (fun _ => .missing) true ⟨r, fun _ => 0, ascii "/root".toList⟩ ⟨fun _ => none, []⟩ = .ok (.noResource, d, t) ∧
    d.path = ascii "/root/log.html".toList := by
  have hstart : Reading default (.ok, lineOf
      "POST /a/3 HTTP/1.1\r\nContent-length: 24\r\n\r\nuser=ann&password=secret".toList) := .start (by decide)
  have hrun : (Http.iterate (fun _ _ => .noRequest) 3 (.ok, lineOf
      "POST /a/3 HTTP/1.1\r\nContent-length: 24\r\n\r\nuser=ann&password=secret".toList)).bind delivered =
        some (1, (5, ascii "/a".toList ++ slash :: ascii "3".toList), 42, ascii "user=ann&password=secret".toList) := by
    decide +kernel
  obtain ⟨s, hs, hd⟩ := Option.bind_eq_some_iff.mp hrun
  obtain ⟨r, hr, hcgi, hu, hurl, hb, hbody⟩ := delivered_run hd
  have hform : FormBody (str readBufferSize r.readBuf 42) (ascii "ann".toList) (ascii "secret".toList) :=
    ⟨ascii "user=".toList, ascii "password=".toList, by rw [hbody]; decide, by decide⟩
  have hfit : FitsArrays true (ascii "ann".toList) (ascii "secret".toList) := by
    rw [FitsArrays]
    decide
  have hroot : 0 ∉ ascii "/root".toList := by decide
  obtain ⟨page, t, d, hpage, hserved, -, hpath⟩ := credential_page_served (hstart.iterates hs) hr hcgi
    ⟨hu, hurl, by decide, by decide⟩ (by decide) rfl hb (by rw [hbody]; decide) hform hfit hroot (by decide)
    (fun _ => .missing) true ⟨fun _ => none, []⟩
  cases hpage
  exact ⟨s, r, d, _, hstart.iterates hs, hr, hserved, hpath⟩

section Inside

open LexicalPath

variable {files : List UInt8 → FileStat} {inserted : Bool} {s t : Accounts} {code : HttpCode} {d : HttpConn}
  {r : ReadState} {u : ℕ} {dirs seg root page : List UInt8} {cwd : List (List UInt8)}

/-- The directories above `doc_root` that `url` climbs to are entered again by the names that follow. -/
def Returns (cwd : List (List UInt8)) (root url : List UInt8) : Prop :=
  (resolve slash (chr '.') cwd root).drop
    ((resolve slash (chr '.') cwd root).length - (net slash (chr '.') url).1) <+: (net slash (chr '.') url).2

instance : Decidable (Returns cwd root page) := inferInstanceAs (Decidable (_ <+: _))

lemma Page.climbs (page : Page) (k : ℕ) : (net slash (chr '.') (page.url.take k)).1 = 0 := by
  have hshort : ∀ k < 20, (net slash (chr '.') (page.url.take k)).1 = 0 := by cases page <;> decide
  by_cases hk : k < 20
  · exact hshort k hk
  · have hlen := page.url_short
    rw [List.take_of_length_le (by omega), ← List.take_of_length_le hlen]
    exact hshort 19 (by decide)

lemma Page.url_head (page : Page) : page.url.head? = some slash := by cases page <;> decide

lemma head_take {text : List UInt8} (h : text.head? = some slash) (k : ℕ) : ∀ x ∈ (text.take k).head?, x = slash := by
  intro x hx
  rw [List.head?_take] at hx
  split_ifs at hx
  · cases hx
  · exact Option.some.inj (hx.symm.trans h)

lemma digitPage_climbs {b : UInt8} (h : digitPage b = some page) :
    (net slash (chr '.') page).1 = 0 ∧ page.head? = some slash := by
  rw [digitPage] at h
  split_ifs at h <;> cases h <;> decide

theorem served_inside_iff (h : Url r u dirs seg) (hhead : (dirs ++ slash :: seg).head? = some slash) (h0 : 0 ∉ root)
    (hrun : doRequest files inserted ⟨r, fun _ => 0, root⟩ s = .ok (code, d, t)) :
    Inside slash (chr '.') cwd root d.path ↔
      r.registers ≠ none ∨ digitPage (seg.headD 0) ≠ none ∨
        Returns cwd root ((dirs ++ slash :: seg).take (filenameLen - root.length - 1)) := by
  have hroot : root.length < filenameLen := by
    by_contra hlong
    rw [doRequest, copyRoot_fault hlong] at hrun
    cases hrun
  cases hreg : r.registers with
  | some b =>
    refine iff_of_true ?_ (.inl (by simp))
    have hrun' := hrun
    rw [doRequest_eq h hroot, h.afterCgi, hreg] at hrun'
    obtain ⟨⟨c, t'⟩, hc, -⟩ := bind_ok hrun'
    obtain ⟨a, page, e, -, -, hpath, -, hserved⟩ := doRequest_page h hreg hroot h0 hc
    cases hrun.symm.trans (hserved files)
    rw [hpath]
    exact inside_of_not_climbs cwd root (head_take page.url_head _) (page.climbs _)
  | none =>
    rw [doRequest_plain h hreg hroot] at hrun
    obtain ⟨c, hc, hrun⟩ := bind_ok hrun
    obtain ⟨code', -, hrun⟩ := bind_ok hrun
    cases hrun
    cases hpage : digitPage (seg.headD 0) with
    | some page =>
      rw [choosePath_digit h hpage] at hc
      obtain ⟨hclimbs, hslash⟩ := digitPage_climbs hpage
      refine iff_of_true ?_ (.inr (.inl (by simp)))
      rw [digit_path hroot h0 hpage hc]
      exact inside_of_not_climbs cwd root (by simp [hslash]) hclimbs
    | none =>
      rw [choosePath_url h hpage] at hc
      obtain ⟨e, he, -, -, hpath⟩ := (rooted_rooted r hroot h0).rest h.zero_not_mem
      obtain rfl := Except.ok.inj (he.symm.trans hc)
      rw [hpath]
      refine (inside_append_iff cwd root (head_take hhead _)).trans ?_
      simp only [ne_eq, not_true_eq_false, false_or]
      rfl

end Inside

def servedFrom (root : List UInt8) : Option Leave → Option (List UInt8)
  | some (.doRequest _ r) =>
    match doRequest (fun _ => .found true false 1) true ⟨r, fun _ => 0, root⟩ ⟨fun _ => none, []⟩ with
    | .ok (.fileRequest, d, _) => some d.path
    | _ => none
  | _ => none

lemma servedFrom_run {l : Option Leave} {root path : List UInt8} (h : servedFrom root l = some path) :
    ∃ origin r d t, l = some (.doRequest origin r) ∧
      doRequest (fun _ => .found true false 1) true ⟨r, fun _ => 0, root⟩ ⟨fun _ => none, []⟩ = .ok (.fileRequest, d, t) ∧
      d.path = path := by
  rcases l with - | ⟨code, c⟩ | ⟨origin, r⟩ | -
  · cases h
  · cases h
  · simp only [servedFrom] at h
    split at h
    · rename_i d t hd
      exact ⟨origin, r, d, t, rfl, hd, Option.some.inj h⟩
    · cases h
  · cases h

theorem served_inside_of_dots : ∃ origin r d t, fetch "/a/../b".toList = some (.doRequest origin r) ∧
    doRequest (fun _ => .found true false 1) true ⟨r, fun _ => 0, ascii "/root".toList⟩ ⟨fun _ => none, []⟩ =
      .ok (.fileRequest, d, t) ∧ LexicalPath.Inside slash (chr '.') [] (ascii "/root".toList) d.path := by
  have hserved : servedFrom (ascii "/root".toList) (fetch "/a/../b".toList) = some (ascii "/root/a/../b".toList) := by
    decide +kernel
  have h : requested (fetch "/a/../b".toList) = some (4, ascii "/a/..".toList ++ slash :: ascii "b".toList, none) := by
    decide +kernel
  obtain ⟨origin, r, d, t, hr, hrun, -⟩ := servedFrom_run hserved
  obtain ⟨origin', r', hr', hurl, -⟩ := requested_url h (by decide) (by decide)
  cases hr.symm.trans hr'
  exact ⟨origin, r, d, t, hr, hrun, (served_inside_iff hurl (by decide) (by decide) hrun).mpr (.inr (.inr (by decide)))⟩

theorem served_outside_root : ∃ origin r d t, fetch "/../etc/passwd".toList = some (.doRequest origin r) ∧
    doRequest (fun _ => .found true false 1) true ⟨r, fun _ => 0, ascii "/root".toList⟩ ⟨fun _ => none, []⟩ =
      .ok (.fileRequest, d, t) ∧ ¬ LexicalPath.Inside slash (chr '.') [] (ascii "/root".toList) d.path := by
  have hserved : servedFrom (ascii "/root".toList) (fetch "/../etc/passwd".toList) =
      some (ascii "/root/../etc/passwd".toList) := by decide +kernel
  obtain ⟨origin, r, d, t, hr, hrun, hpath⟩ := servedFrom_run hserved
  exact ⟨origin, r, d, t, hr, hrun, by rw [hpath]; decide⟩

end OceanServer.Http
