import OceanServer.Http.LineSplitter

/-! The parsers of the request line and of a header line stay within the line they are given, so
they commute with bytes that arrive behind it. -/

namespace OceanServer.Http

open Library Library.CString

def later (ys : List UInt8) (r : HttpCode × ReadState) : HttpCode × ReadState := (r.1, r.2.receive ys)

lemma receive_buf (c : ReadState) (ys : List UInt8) :
    (c.receive ys).readBuf = c.readBuf.write c.readIdx ys := rfl

lemma hostEnd {m : Memory} {text z : ℕ} (hz : text ≤ z) (h0 : m z = 0) (hlt : z < readBufferSize)
    (h : strncasecmp readBufferSize m text hostKey 5 = true) : text + 5 ≤ z + 1 := by
  -- The comparison with `Host` covers five bytes, so its match ends at the NUL of the line.
  have hl : text + (str readBufferSize m text).length ≤ z := str_length_le hz hlt h0
  have hs := congrArg List.length (eq_of_beq h)
  simp only [List.length_map, List.length_take, hostKey, ascii, List.length_cons, List.length_nil] at hs
  omega

section Commute

variable {c : ReadState} {url text v z : ℕ} (ys : List UInt8) (hfit : c.readIdx ≤ readBufferSize)
include hfit

lemma judgePage_receive (hv : url ≤ v) (h0 : c.readBuf v = 0) (hroom : v + 10 < c.readIdx) :
    judgePage (c.receive ys) url = later ys (judgePage c url) := by
  have hb : (c.receive ys).readBuf url = c.readBuf url := receive_before c ys (by omega)
  have hs := str_write hv (by omega) hfit h0 ys
  by_cases hsl : c.readBuf url = slash
  · by_cases hl : (str readBufferSize c.readBuf url).length = 1
    · have hle : url + (str readBufferSize c.readBuf url).length ≤ v := str_length_le hv (by omega) h0
      have hc := strcat_write (s := ascii ['j', 'u', 'd', 'g', 'e', '.', 'h', 't', 'm', 'l']) hv
        (by omega) hfit h0 ys (by simp only [ascii, List.length_map, List.length_cons, List.length_nil]; omega)
      simp [judgePage, later, hb, hsl, receive_buf, hs, hl, hc]
      rfl
    · simp [judgePage, later, hb, hsl, receive_buf, hs, hl]
      rfl
  · simp [judgePage, later, hb, hsl]
    rfl

lemma stripHttps_receive (hv : url ≤ v) (h0 : c.readBuf v = 0) (hroom : v + 10 < c.readIdx) :
    stripHttps (c.receive ys) url = later ys (stripHttps c url) := by
  have hlt : v < c.readIdx := by omega
  rw [stripHttps, stripHttps, receive_buf, strncasecmp_write hv hlt hfit h0]
  split
  · rename_i hc
    have hu : url + 8 ≤ v := strncasecmp_length hv (by omega) h0 hc (by decide)
    rw [strchr_write hu hlt hfit h0]
    cases hq : strchr readBufferSize c.readBuf (url + 8) slash with
    | none => rfl
    | some u => exact judgePage_receive ys hfit (strchr_bounds hu (by omega) h0 hq).2.le h0 hroom
  · exact judgePage_receive ys hfit hv h0 hroom

lemma stripHttp_receive (hv : url ≤ v) (h0 : c.readBuf v = 0) (hroom : v + 10 < c.readIdx) :
    stripHttp (c.receive ys) url = (stripHttp c url).map (later ys) := by
  have hlt : v < c.readIdx := by omega
  rw [stripHttp, stripHttp, receive_buf, strncasecmp_write hv hlt hfit h0]
  split
  · rename_i hc
    have hu : url + 7 ≤ v := strncasecmp_length hv (by omega) h0 hc (by decide)
    rw [strchr_write hu hlt hfit h0]
    cases hq : strchr readBufferSize c.readBuf (url + 7) slash with
    | none => rfl
    | some u =>
      exact congrArg some (stripHttps_receive ys hfit (strchr_bounds hu (by omega) h0 hq).2.le h0 hroom)
  · exact congrArg some (stripHttps_receive ys hfit hv h0 hroom)

lemma parseVersion_receive (hz : url ≤ z) (h0 : c.readBuf z = 0) (hroom : z + 1 < c.readIdx) :
    parseVersion (c.receive ys) url = (parseVersion c url).map (later ys) := by
  have hlt : z < c.readIdx := by omega
  have hu := strspn_le hz (hlt.trans_le hfit) h0 blanks
  simp only [parseVersion, receive_buf]
  rw [strspn_write hz hlt hfit h0, strpbrk_write hu hlt hfit h0]
  cases hq : strpbrk readBufferSize c.readBuf (url + strspn readBufferSize c.readBuf url blanks) blanks with
  | none => rfl
  | some v =>
    obtain ⟨huv, hvz⟩ := strpbrk_bounds hu (hlt.trans_le hfit) h0 hq
    have h0' : c.readBuf.set v 0 z = 0 := by rw [set_of_ne _ _ (by omega), h0]
    have hw := strspn_le (p := v + 1) (by omega) (hlt.trans_le hfit) h0' blanks
    simp only [set_write _ _ _ (hvz.trans hlt)]
    rw [strspn_write (p := v + 1) (by omega) hlt hfit h0', strcasecmp_write hw hlt hfit h0']
    split
    · rename_i hc
      have hlen := strcasecmp_length hw (hlt.trans_le hfit) h0' hc
      simp only [ascii, List.length_map, List.length_cons, List.length_nil] at hlen
      exact stripHttp_receive (c := { c with readBuf := c.readBuf.set v 0, url := _, version := _ })
        ys hfit huv (set_self _ _ _) (show v + 10 < c.readIdx by omega)
    · rfl

lemma parseRequestLine_receive (hz : text ≤ z) (h0 : c.readBuf z = 0) (hroom : z + 1 < c.readIdx) :
    parseRequestLine (c.receive ys) text = (parseRequestLine c text).map (later ys) := by
  have hlt : z < c.readIdx := by omega
  simp only [parseRequestLine, receive_buf]
  rw [strpbrk_write hz hlt hfit h0]
  cases hq : strpbrk readBufferSize c.readBuf text blanks with
  | none => rfl
  | some sp =>
    obtain ⟨hts, hsz⟩ := strpbrk_bounds hz (hlt.trans_le hfit) h0 hq
    have h0' : c.readBuf.set sp 0 z = 0 := by rw [set_of_ne _ _ (by omega), h0]
    simp only [set_write _ _ _ (hsz.trans hlt), strcasecmp_write hz hlt hfit h0']
    split
    · exact parseVersion_receive
        (c := { c with readBuf := c.readBuf.set sp 0, url := some (sp + 1), method := .get })
        ys hfit hsz h0' hroom
    · split
      · exact parseVersion_receive
          (c := { c with readBuf := c.readBuf.set sp 0, url := some (sp + 1), method := .post, cgi := 1 })
          ys hfit hsz h0' hroom
      · rfl

lemma skipBlanks_receive {p : ℕ} (hp : p ≤ z) (h0 : c.readBuf z = 0) (hz : z < c.readIdx) :
    skipBlanks (c.receive ys).readBuf p = skipBlanks c.readBuf p := by
  rw [skipBlanks, skipBlanks, receive_buf, strspn_write hp hz hfit h0]

lemma parseHeaders_receive (hz : text ≤ z) (h0 : c.readBuf z = 0) (h1 : c.readBuf (z + 1) = 0)
    (hroom : z + 1 < c.readIdx) :
    parseHeaders (c.receive ys) text = later ys (parseHeaders c text) := by
  have hlt : z < c.readIdx := by omega
  have hb : (c.receive ys).readBuf text = c.readBuf text := receive_before c ys (by omega)
  have hk : ∀ s n, strncasecmp readBufferSize (c.receive ys).readBuf text s n =
      strncasecmp readBufferSize c.readBuf text s n := strncasecmp_write hz hlt hfit h0 ys
  have hl : (c.receive ys).contentLength = c.contentLength := rfl
  simp only [parseHeaders, hb, hk, hl]
  split
  · split <;> rfl
  · split
    · rename_i hc
      have h11 : text + 11 ≤ z := strncasecmp_length hz (hlt.trans_le hfit) h0 hc (by decide)
      have hsk : skipBlanks c.readBuf (text + 11) ≤ z := strspn_le h11 (hlt.trans_le hfit) h0 blanks
      rw [skipBlanks_receive ys hfit h11 h0 hlt, receive_buf, strcasecmp_write hsk hlt hfit h0]
      split <;> rfl
    · split
      · rename_i hc
        have h15 : text + 15 ≤ z := strncasecmp_length hz (hlt.trans_le hfit) h0 hc (by decide)
        have hsk : skipBlanks c.readBuf (text + 15) ≤ z := strspn_le h15 (hlt.trans_le hfit) h0 blanks
        rw [skipBlanks_receive ys hfit h15 h0 hlt]
        simp only [receive_buf]
        rw [atol_write hsk hlt hfit h0]
        rfl
      · split
        · rename_i hc
          have h5 : text + 5 ≤ z + 1 := hostEnd hz h0 (hlt.trans_le hfit) hc
          rw [skipBlanks_receive ys hfit h5 h1 hroom]
          rfl
        · rfl

end Commute

/-- What a parser does to the connection: it moves no index, writes no CR, and leaves `m_url` at a
string that ends before `n`. -/
structure Edits (n : ℕ) (c d : ReadState) : Prop where
  readIdx : d.readIdx = c.readIdx
  checkedIdx : d.checkedIdx = c.checkedIdx
  startLine : d.startLine = c.startLine
  noCr : ∀ i, c.readBuf i ≠ cr → d.readBuf i ≠ cr
  url : ∀ u, d.url = some u → ∃ w, u ≤ w ∧ w < n ∧ d.readBuf w = 0

lemma Edits.weaken {n k : ℕ} {b c d : ReadState} (h : Edits n c d) (hr : c.readIdx = b.readIdx)
    (hc : c.checkedIdx = b.checkedIdx) (hs : c.startLine = b.startLine)
    (hn : ∀ i, b.readBuf i ≠ cr → c.readBuf i ≠ cr) (hk : n ≤ k) : Edits k b d where
  readIdx := h.readIdx.trans hr
  checkedIdx := h.checkedIdx.trans hc
  startLine := h.startLine.trans hs
  noCr i hi := h.noCr i (hn i hi)
  url u hu := by
    obtain ⟨w, huw, hwn, hw⟩ := h.url u hu
    exact ⟨w, huw, hwn.trans_le hk, hw⟩

section Edits

variable {c d : ReadState} {code : HttpCode} {url text v z : ℕ}

lemma judgePage_edits (hv : url ≤ v) (hlt : v < readBufferSize) (h0 : c.readBuf v = 0) :
    Edits (v + 11) c (judgePage c url).2 := by
  have hurl : ∀ u, some url = some u → ∃ w, u ≤ w ∧ w < v + 11 ∧ c.readBuf w = 0 := by
    rintro u ⟨⟩
    exact ⟨v, hv, by omega, h0⟩
  simp only [judgePage]
  split
  · exact ⟨rfl, rfl, rfl, fun _ h => h, hurl⟩
  · split
    · rename_i hl
      have hle : url + (str readBufferSize c.readBuf url).length ≤ v := str_length_le hv hlt h0
      refine ⟨rfl, rfl, rfl, fun i hi => write_ne (by decide) hi, ?_⟩
      rintro u ⟨⟩
      refine ⟨url + 1 + 10, by omega, by omega, ?_⟩
      simp only [strcat, hl]
      exact write_inside _ _ _ (by decide)
    · exact ⟨rfl, rfl, rfl, fun _ h => h, hurl⟩

lemma stripHttps_edits (hv : url ≤ v) (hlt : v < readBufferSize) (h0 : c.readBuf v = 0) :
    Edits (v + 11) c (stripHttps c url).2 := by
  simp only [stripHttps]
  split
  · rename_i hc
    have hu : url + 8 ≤ v := strncasecmp_length hv hlt h0 hc (by decide)
    cases hq : strchr readBufferSize c.readBuf (url + 8) slash with
    | none => exact ⟨rfl, rfl, rfl, fun _ h => h, fun u hu => by cases hu⟩
    | some u => exact judgePage_edits (strchr_bounds hu hlt h0 hq).2.le hlt h0
  · exact judgePage_edits hv hlt h0

lemma stripHttp_edits (hv : url ≤ v) (hlt : v < readBufferSize) (h0 : c.readBuf v = 0)
    (h : stripHttp c url = some (code, d)) : Edits (v + 11) c d := by
  simp only [stripHttp] at h
  split at h
  · rename_i hc
    have hu : url + 7 ≤ v := strncasecmp_length hv hlt h0 hc (by decide)
    obtain ⟨u, hq, hd⟩ := Option.map_eq_some_iff.mp h
    rw [show d = (stripHttps c u).2 by rw [hd]]
    exact stripHttps_edits (strchr_bounds hu hlt h0 hq).2.le hlt h0
  · rw [show d = (stripHttps c url).2 by rw [Option.some.inj h]]
    exact stripHttps_edits hv hlt h0

lemma parseVersion_edits (hz : url ≤ z) (hlt : z < readBufferSize) (h0 : c.readBuf z = 0)
    (h : parseVersion c url = some (code, d)) : Edits (z + 2) c d := by
  have hu := strspn_le hz hlt h0 blanks
  simp only [parseVersion] at h
  cases hq : strpbrk readBufferSize c.readBuf (url + strspn readBufferSize c.readBuf url blanks) blanks with
  | none =>
    simp only [hq, Option.some.injEq, Prod.mk.injEq] at h
    obtain ⟨-, rfl⟩ := h
    refine ⟨rfl, rfl, rfl, fun _ h => h, ?_⟩
    rintro u ⟨⟩
    exact ⟨z, hu, by omega, h0⟩
  | some v =>
    obtain ⟨huv, hvz⟩ := strpbrk_bounds hu hlt h0 hq
    have h0' : c.readBuf.set v 0 z = 0 := by rw [set_of_ne _ _ (by omega), h0]
    have hw := strspn_le (p := v + 1) (by omega) hlt h0' blanks
    simp only [hq] at h
    split at h
    · rename_i hc
      have hlen := strcasecmp_length hw hlt h0' hc
      simp only [ascii, List.length_map, List.length_cons, List.length_nil] at hlen
      exact (stripHttp_edits huv (hvz.trans hlt) (set_self _ _ _) h).weaken rfl rfl rfl
        (fun i hi => set_ne (by decide) hi) (by omega)
    · simp only [Option.some.injEq, Prod.mk.injEq] at h
      obtain ⟨-, rfl⟩ := h
      refine ⟨rfl, rfl, rfl, fun i hi => set_ne (by decide) hi, ?_⟩
      rintro u ⟨⟩
      exact ⟨v, huv, by omega, set_self _ _ _⟩

lemma parseRequestLine_edits (hz : text ≤ z) (hlt : z < readBufferSize) (h0 : c.readBuf z = 0)
    (h : parseRequestLine c text = some (code, d)) : Edits (z + 2) c d := by
  simp only [parseRequestLine] at h
  cases hq : strpbrk readBufferSize c.readBuf text blanks with
  | none =>
    simp only [hq, Option.some.injEq, Prod.mk.injEq] at h
    obtain ⟨-, rfl⟩ := h
    exact ⟨rfl, rfl, rfl, fun _ h => h, fun u hu => by cases hu⟩
  | some sp =>
    obtain ⟨hts, hsz⟩ := strpbrk_bounds hz hlt h0 hq
    have h0' : c.readBuf.set sp 0 z = 0 := by rw [set_of_ne _ _ (by omega), h0]
    have hn : ∀ i, c.readBuf i ≠ cr → c.readBuf.set sp 0 i ≠ cr := fun i hi => set_ne (by decide) hi
    simp only [hq] at h
    split at h
    · exact (parseVersion_edits hsz hlt h0' h).weaken rfl rfl rfl hn le_rfl
    · split at h
      · exact (parseVersion_edits hsz hlt h0' h).weaken rfl rfl rfl hn le_rfl
      · simp only [Option.some.injEq, Prod.mk.injEq] at h
        obtain ⟨-, rfl⟩ := h
        refine ⟨rfl, rfl, rfl, hn, ?_⟩
        rintro u ⟨⟩
        exact ⟨z, hsz, by omega, h0'⟩

lemma parseHeaders_edits (text : ℕ)
    (hu : ∀ u, c.url = some u → ∃ w, u ≤ w ∧ w < c.readIdx ∧ c.readBuf w = 0) :
    Edits c.readIdx c (parseHeaders c text).2 := by
  simp only [parseHeaders]
  split_ifs <;> exact ⟨rfl, rfl, rfl, fun _ h => h, hu⟩

end Edits

end OceanServer.Http
