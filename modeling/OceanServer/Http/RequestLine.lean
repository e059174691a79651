import Mathlib.Data.List.TakeWhile
import OceanServer.Http.RequestHead

/-! The language of request lines that `parse_request_line` accepts, and the path it takes from one. -/

namespace OceanServer.Http

open Library Library.CString

section Grammar

def SameText (s t : List UInt8) : Prop := s.map toLower = t.map toLower

instance (s t : List UInt8) : Decidable (SameText s t) := inferInstanceAs (Decidable (_ = _))

def http : List UInt8 := ascii ['h', 't', 't', 'p', ':', '/', '/']
def https : List UInt8 := ascii ['h', 't', 't', 'p', 's', ':', '/', '/']
def http11 : List UInt8 := ascii ['H', 'T', 'T', 'P', '/', '1', '.', '1']

def methodName (s : List UInt8) : Option Method :=
  if SameText s (ascii ['G', 'E', 'T']) then some .get
  else if SameText s (ascii ['P', 'O', 'S', 'T']) then some .post
  else none

def Blanks (w : List UInt8) : Prop := w ≠ [] ∧ ∀ b ∈ w, b ∈ blanks

def Tokens (line method target version : List UInt8) : Prop :=
  ∃ w₁ w₂, line = method ++ (w₁ ++ (target ++ (w₂ ++ version))) ∧ Blanks w₁ ∧ Blanks w₂ ∧
    ∀ b ∈ target, b ∉ blanks

def Target (target path : List UInt8) : Prop :=
  path.head? = some slash ∧ (target = path ∨ ∃ scheme host, target = scheme ++ (host ++ path) ∧
    (SameText scheme http ∨ SameText scheme https) ∧ slash ∉ host)

def RequestLine (line : List UInt8) (method : Method) (path : List UInt8) : Prop :=
  ∃ m t v, Tokens line m t v ∧ methodName m = some method ∧ SameText v http11 ∧ Target t path

/-- A line that is right but for the path missing after `http://` and the authority. -/
def NoPath (line : List UInt8) : Prop :=
  ∃ m t v method, Tokens line m t v ∧ methodName m = some method ∧ SameText v http11 ∧
    ∃ scheme host, t = scheme ++ host ∧ SameText scheme http ∧ slash ∉ host

def withDefault (path : List UInt8) : List UInt8 :=
  if path = [slash] then slash :: ascii ['j', 'u', 'd', 'g', 'e', '.', 'h', 't', 'm', 'l'] else path

end Grammar

section Splitting

def isBlank (b : UInt8) : Bool := blanks.contains b

def afterMethod (line : List UInt8) : List UInt8 := (line.dropWhile (!isBlank ·)).dropWhile (isBlank ·)

def afterTarget (line : List UInt8) : List UInt8 := (afterMethod line).dropWhile (!isBlank ·)

def methodPart (line : List UInt8) : List UInt8 := line.takeWhile (!isBlank ·)

def targetPart (line : List UInt8) : List UInt8 := (afterMethod line).takeWhile (!isBlank ·)

def versionPart (line : List UInt8) : List UInt8 := (afterTarget line).dropWhile (isBlank ·)

lemma isBlank_iff {b : UInt8} : isBlank b = true ↔ b ∈ blanks := List.contains_iff_mem

lemma first_of_head {P : UInt8 → Bool} {l : List UInt8} (h : ∀ b ∈ l.head?, P b = false) (hl : 0 < l.length) :
    ¬ P l[0] := by
  rw [h l[0] (by rw [List.head?_eq_getElem?, List.getElem?_eq_getElem hl]; rfl)]
  exact Bool.false_ne_true

lemma Blanks.head {w l : List UInt8} (h : Blanks w) : ∀ b ∈ (w ++ l).head?, isBlank b = true := by
  obtain ⟨hne, hw⟩ := h
  cases w with
  | nil => exact absurd rfl hne
  | cons a w => simpa using isBlank_iff.mpr (hw a List.mem_cons_self)

lemma blanks_takeWhile {l : List UInt8} (hne : l ≠ []) (hhead : ∀ b ∈ l.head?, isBlank b = true) :
    Blanks (l.takeWhile (isBlank ·)) := by
  refine ⟨?_, fun b hb => isBlank_iff.mp (List.mem_takeWhile_imp hb)⟩
  cases l with
  | nil => exact absurd rfl hne
  | cons a l => simp [hhead a rfl]

lemma head_dropWhile_not (l : List UInt8) : ∀ b ∈ (l.dropWhile (!isBlank ·)).head?, isBlank b = true := by
  intro b hb
  have hstop := List.head?_dropWhile_not (!isBlank ·) l
  rw [hb] at hstop
  simpa using hstop

lemma tokens_of_parts {line : List UInt8} (h : afterTarget line ≠ []) :
    Tokens line (methodPart line) (targetPart line) (versionPart line) := by
  have hm : line.dropWhile (!isBlank ·) ≠ [] := by
    intro hn
    exact h (by simp [afterTarget, afterMethod, hn])
  refine ⟨(line.dropWhile (!isBlank ·)).takeWhile (isBlank ·), (afterTarget line).takeWhile (isBlank ·), ?_,
    blanks_takeWhile hm (head_dropWhile_not _), blanks_takeWhile h (head_dropWhile_not _), ?_⟩
  · rw [versionPart, List.takeWhile_append_dropWhile, targetPart, afterTarget, List.takeWhile_append_dropWhile,
      afterMethod, List.takeWhile_append_dropWhile, methodPart, List.takeWhile_append_dropWhile]
  · intro b hb hblank
    have hn := List.mem_takeWhile_imp hb
    rw [isBlank_iff.mpr hblank] at hn
    cases hn

lemma Tokens.parts {line m t v : List UInt8} (h : Tokens line m t v) (hm : ∀ b ∈ m, b ∉ blanks) (ht : t ≠ [])
    (hv : ∀ b ∈ v.head?, b ∉ blanks) :
    afterTarget line ≠ [] ∧ methodPart line = m ∧ targetPart line = t ∧ versionPart line = v := by
  obtain ⟨w₁, w₂, rfl, hw₁, hw₂, hblank⟩ := h
  have hnot {b : UInt8} (hb : b ∉ blanks) : isBlank b = false := by
    rw [← Bool.not_eq_true, isBlank_iff]
    exact hb
  have hm' : ∀ b ∈ m, (!isBlank b) = true := fun b hb => by rw [hnot (hm b hb)]; rfl
  have ht' : ∀ b ∈ t, (!isBlank b) = true := fun b hb => by rw [hnot (hblank b hb)]; rfl
  have hw {w : List UInt8} (h : Blanks w) : ∀ b ∈ w, isBlank b = true := fun b hb => isBlank_iff.mpr (h.2 b hb)
  have hhead {w l : List UInt8} (h : Blanks w) : ∀ b ∈ (w ++ l).head?, (!isBlank b) = false :=
    fun b hb => by rw [h.head b hb]; rfl
  have htarget : ∀ b ∈ (t ++ (w₂ ++ v)).head?, isBlank b = false := by
    cases t with
    | nil => exact absurd rfl ht
    | cons a t => simpa using hnot (hblank a List.mem_cons_self)
  have hafter : afterMethod (m ++ (w₁ ++ (t ++ (w₂ ++ v)))) = t ++ (w₂ ++ v) := by
    rw [afterMethod, List.dropWhile_append_of_pos hm', List.dropWhile_eq_self_iff.mpr (first_of_head (hhead hw₁)),
      List.dropWhile_append_of_pos (hw hw₁), List.dropWhile_eq_self_iff.mpr (first_of_head htarget)]
  have hrest : afterTarget (m ++ (w₁ ++ (t ++ (w₂ ++ v)))) = w₂ ++ v := by
    rw [afterTarget, hafter, List.dropWhile_append_of_pos ht',
      List.dropWhile_eq_self_iff.mpr (first_of_head (hhead hw₂))]
  refine ⟨?_, ?_, ?_, ?_⟩
  · rw [hrest]
    exact List.append_ne_nil_of_left_ne_nil hw₂.1 v
  · rw [methodPart, List.takeWhile_append_of_pos hm', List.takeWhile_eq_nil_iff.mpr (first_of_head (hhead hw₁)),
      List.append_nil]
  · rw [targetPart, hafter, List.takeWhile_append_of_pos ht',
      List.takeWhile_eq_nil_iff.mpr (first_of_head (hhead hw₂)), List.append_nil]
  · rw [versionPart, hrest, List.dropWhile_append_of_pos (hw hw₂),
      List.dropWhile_eq_self_iff.mpr (first_of_head fun b hb => hnot (hv b hb))]

end Splitting

section Target

lemma SameText.length {s t : List UInt8} (h : SameText s t) : s.length = t.length := by
  simpa using congrArg List.length h

lemma SameText.take_le {s t : List UInt8} {n : ℕ} (h : SameText (s.take n) t) (hn : t.length = n) : n ≤ s.length := by
  have hl := h.length
  rw [List.length_take] at hl
  omega

lemma toLower_of_blank {b : UInt8} (h : b ∈ blanks) : toLower b = b := by
  simp only [blanks, List.mem_cons, List.not_mem_nil, or_false] at h
  rcases h with rfl | rfl <;> rfl

lemma SameText.no_blank {s t : List UInt8} (h : SameText s t) (ht : (t.map toLower).all (!isBlank ·) = true) :
    ∀ b ∈ s, b ∉ blanks := by
  intro b hb hblank
  have hmem : toLower b ∈ t.map toLower := h ▸ List.mem_map_of_mem hb
  rw [toLower_of_blank hblank] at hmem
  have hnot := List.all_eq_true.mp ht b hmem
  rw [isBlank_iff.mpr hblank] at hnot
  cases hnot

lemma methodName_no_blank {s : List UInt8} {method : Method} (h : methodName s = some method) :
    ∀ b ∈ s, b ∉ blanks := by
  rw [methodName] at h
  split_ifs at h with hg hp
  · exact hg.no_blank (by decide)
  · exact hp.no_blank (by decide)

lemma version_no_blank {v : List UInt8} (h : SameText v http11) : ∀ b ∈ v.head?, b ∉ blanks :=
  fun b hb => h.no_blank (by decide) b (List.mem_of_mem_head? hb)

def pathAfter (n : ℕ) (target : List UInt8) : List UInt8 := (target.drop n).dropWhile (!· == slash)

def pathOf (target : List UInt8) : List UInt8 :=
  if SameText (target.take 7) http then pathAfter 7 target
  else if SameText (target.take 8) https then pathAfter 8 target
  else target

lemma pathAfter_append (scheme : List UInt8) {host path : List UInt8} (hhost : slash ∉ host)
    (hpath : ∀ b ∈ path.head?, b = slash) : pathAfter scheme.length (scheme ++ (host ++ path)) = path := by
  have hn : ∀ b ∈ host, (!b == slash) = true := by
    intro b hb
    have hne : b ≠ slash := fun he => hhost (he ▸ hb)
    simpa using hne
  have hstop : ∀ b ∈ path.head?, (!b == slash) = false := by
    intro b hb
    simp [hpath b hb]
  rw [pathAfter, List.drop_left, List.dropWhile_append_of_pos hn, List.dropWhile_eq_self_iff]
  exact first_of_head (P := (!· == slash)) hstop

lemma pathAfter_split (n : ℕ) (target : List UInt8) :
    ∃ host, target = target.take n ++ (host ++ pathAfter n target) ∧ slash ∉ host := by
  refine ⟨(target.drop n).takeWhile (!· == slash), ?_, fun h => ?_⟩
  · rw [pathAfter, List.takeWhile_append_dropWhile, List.take_append_drop]
  · simpa using List.mem_takeWhile_imp h

lemma pathAfter_head (n : ℕ) (target : List UInt8) : ∀ b ∈ (pathAfter n target).head?, b = slash := by
  intro b hb
  have hstop := List.head?_dropWhile_not (!· == slash) (target.drop n)
  rw [pathAfter] at hb
  rw [hb] at hstop
  simpa using hstop

lemma head_slash {path : List UInt8} (h : ∀ b ∈ path.head?, b = slash) : path = [] ∨ path.head? = some slash := by
  cases path with
  | nil => exact .inl rfl
  | cons b path => exact .inr (congrArg some (h b rfl))

lemma not_scheme {target scheme : List UInt8} {n : ℕ} (h : target.head? = some slash)
    (hs : (scheme.map toLower).head? ≠ some slash) (hn : 0 < n) : ¬ SameText (target.take n) scheme := by
  intro he
  obtain ⟨n, rfl⟩ := Nat.exists_eq_succ_of_ne_zero hn.ne'
  cases target with
  | nil => cases h
  | cons b target =>
    cases h
    rw [SameText, List.take_succ_cons, List.map_cons] at he
    rw [← he] at hs
    exact hs rfl

lemma target_iff {target path : List UInt8} :
    Target target path ↔ path.head? = some slash ∧ pathOf target = path := by
  refine and_congr_right fun hpath => ⟨?_, ?_⟩
  · have hh : ∀ b ∈ path.head?, b = slash := by simp [hpath]
    rintro (rfl | ⟨scheme, host, rfl, hs, hhost⟩)
    · rw [pathOf, if_neg (not_scheme hpath (by decide) (by decide)), if_neg (not_scheme hpath (by decide) (by decide))]
    · have hafter := pathAfter_append scheme hhost hh
      rcases hs with hs | hs
      · have hl : scheme.length = 7 := hs.length
        have ht : (scheme ++ (host ++ path)).take 7 = scheme := by rw [← hl, List.take_left]
        rw [pathOf, if_pos (by rwa [ht]), ← hl, hafter]
      · have hl : scheme.length = 8 := hs.length
        have ht : (scheme ++ (host ++ path)).take 8 = scheme := by rw [← hl, List.take_left]
        have hnot : ¬ SameText ((scheme ++ (host ++ path)).take 7) http := by
          intro he
          have h7 : (scheme ++ (host ++ path)).take 7 = scheme.take 7 := by
            rw [List.take_append_of_le_length (by omega)]
          rw [h7, SameText, List.map_take, hs] at he
          exact absurd he (by decide)
        rw [pathOf, if_neg hnot, if_pos (by rwa [ht]), ← hl, hafter]
  · rintro rfl
    rw [pathOf]
    split_ifs with h7 h8
    · obtain ⟨host, ht, hhost⟩ := pathAfter_split 7 target
      exact .inr ⟨_, host, ht, .inl h7, hhost⟩
    · obtain ⟨host, ht, hhost⟩ := pathAfter_split 8 target
      exact .inr ⟨_, host, ht, .inr h8, hhost⟩
    · exact .inl rfl

lemma no_path_iff {target : List UInt8} : (∃ scheme host, target = scheme ++ host ∧ SameText scheme http ∧ slash ∉ host) ↔
    SameText (target.take 7) http ∧ pathAfter 7 target = [] := by
  constructor
  · rintro ⟨scheme, host, rfl, hs, hhost⟩
    have hl : scheme.length = 7 := hs.length
    have hafter : pathAfter scheme.length (scheme ++ (host ++ [])) = [] := pathAfter_append scheme hhost (by simp)
    rw [List.append_nil, hl] at hafter
    exact ⟨by rw [← hl, List.take_left]; exact hs, hafter⟩
  · rintro ⟨hs, hafter⟩
    obtain ⟨host, ht, hhost⟩ := pathAfter_split 7 target
    rw [hafter, List.append_nil] at ht
    exact ⟨_, host, ht, hs, hhost⟩

lemma pathOf_length_le (target : List UInt8) : (pathOf target).length ≤ target.length := by
  have hafter (n : ℕ) : (pathAfter n target).length ≤ target.length :=
    (List.length_dropWhile_le _ _).trans (by rw [List.length_drop]; omega)
  rw [pathOf]
  split_ifs
  · exact hafter 7
  · exact hafter 8
  · exact le_rfl

lemma Target.ne_nil {target path : List UInt8} (h : Target target path) : target ≠ [] := by
  rintro rfl
  obtain ⟨hp, hpath⟩ := target_iff.mp h
  rw [← hpath] at hp
  exact absurd hp (by decide)

end Target

section Parser

/-- The request line is taken: the next line is a header, and `m_url` is `path`, which has ended at `stop`,
or its default page. -/
def Taken (c : ReadState) (path : List UInt8) (stop : ℕ) (r : HttpCode × ReadState) : Prop :=
  r.1 = .noRequest ∧ r.2.checkState = .header ∧ r.2.method = c.method ∧ r.2.cgi = c.cgi ∧
    ∃ u, r.2.url = some u ∧ u + path.length = stop ∧ str readBufferSize r.2.readBuf u = withDefault path

variable {c : ReadState} {url : ℕ}

lemma head_str {m : Memory} {p : ℕ} (hp : p < readBufferSize) :
    (str readBufferSize m p).head? = some slash ↔ m p = slash := by
  by_cases h0 : m p = 0
  · rw [str_eq_nil _ h0, h0]
    decide
  · rw [str_eq_cons hp h0]
    simp

lemma judgePage_rejects (hu : url < readBufferSize) (h : (str readBufferSize c.readBuf url).head? ≠ some slash) :
    (judgePage c url).1 = .badRequest := by
  rw [Ne, head_str hu] at h
  simp [judgePage, h]

lemma str_judge {m : Memory} (hroom : url + 10 < readBufferSize) (hslash : m url = slash)
    (hlen : (str readBufferSize m url).length = 1) :
    str readBufferSize (strcat readBufferSize m url (ascii ['j', 'u', 'd', 'g', 'e', '.', 'h', 't', 'm', 'l'])) url =
      slash :: ascii ['j', 'u', 'd', 'g', 'e', '.', 'h', 't', 'm', 'l'] := by
  have hfirst : strcat readBufferSize m url (ascii ['j', 'u', 'd', 'g', 'e', '.', 'h', 't', 'm', 'l']) url = slash := by
    rw [strcat, hlen, write_outside _ _ _ (.inl (by omega)), hslash]
  have hne : (slash : UInt8) ≠ 0 := by decide
  rw [str_eq_cons (by omega) (by rw [hfirst]; exact hne), hfirst, strcat, hlen,
    str_write_self _ (by decide) (by simp only [ascii, List.length_map, List.length_cons, List.length_nil]; omega)]

lemma judgePage_takes (hroom : url + 10 < readBufferSize)
    (h : (str readBufferSize c.readBuf url).head? = some slash) :
    Taken c (str readBufferSize c.readBuf url) (url + (str readBufferSize c.readBuf url).length) (judgePage c url) := by
  have hslash := (head_str (by omega)).mp h
  by_cases hlen : (str readBufferSize c.readBuf url).length = 1
  · have hone : str readBufferSize c.readBuf url = [slash] := by
      obtain ⟨b, hb⟩ := List.length_eq_one_iff.mp hlen
      rw [hb] at h ⊢
      cases h
      rfl
    simp only [judgePage, hslash, ne_eq, not_true_eq_false, if_false, hlen, if_true]
    exact ⟨rfl, rfl, rfl, rfl, url, rfl, by rw [hlen], by rw [withDefault, if_pos hone]; exact str_judge hroom hslash hlen⟩
  · have hone : str readBufferSize c.readBuf url ≠ [slash] := fun he => hlen (by rw [he]; rfl)
    simp only [judgePage, hslash, ne_eq, not_true_eq_false, if_false, hlen]
    exact ⟨rfl, rfl, rfl, rfl, url, rfl, rfl, by rw [withDefault, if_neg hone]⟩

lemma strncasecmp_iff {m : Memory} {p n : ℕ} {s : List UInt8} (hn : s.take n = s) :
    strncasecmp readBufferSize m p s n = true ↔ SameText ((str readBufferSize m p).take n) s := by
  rw [strncasecmp, beq_iff_eq, hn, SameText]

lemma strchr_slash {m : Memory} {p n : ℕ} (hn : n ≤ (str readBufferSize m p).length) :
    strchr readBufferSize m (p + n) slash = none ↔ pathAfter n (str readBufferSize m p) = [] := by
  rw [strchr_eq, str_drop hn, pathAfter]
  split_ifs with h
  · exact iff_of_true rfl h
  · exact iff_of_false (by simp) h

lemma str_path {m : Memory} {p n q : ℕ} (hn : n ≤ (str readBufferSize m p).length)
    (hq : strchr readBufferSize m (p + n) slash = some q) :
    str readBufferSize m q = pathAfter n (str readBufferSize m p) ∧
      q + (pathAfter n (str readBufferSize m p)).length = p + (str readBufferSize m p).length := by
  have hdrop := str_drop hn
  rw [strchr_eq, hdrop] at hq
  split_ifs at hq
  cases hq
  have hle := takeWhile_length_le (!· == slash) ((str readBufferSize m p).drop n)
  have hsplit := congrArg List.length
    (List.takeWhile_append_dropWhile (p := (!· == slash)) (l := (str readBufferSize m p).drop n))
  rw [str_drop (by rwa [hdrop]), hdrop, drop_takeWhile, pathAfter]
  simp only [List.length_append, List.length_drop] at hsplit hle
  exact ⟨rfl, by omega⟩

def Judged (c : ReadState) (path : List UInt8) (stop : ℕ) (r : HttpCode × ReadState) : Prop :=
  (path.head? = some slash → Taken c path stop r) ∧ (path.head? ≠ some slash → r.1 = .badRequest)

lemma judgePage_judged {path : List UInt8} {stop : ℕ} (hpath : str readBufferSize c.readBuf url = path)
    (hstop : url + path.length = stop) (hroom : stop + 9 < readBufferSize) :
    Judged c path stop (judgePage c url) := by
  subst hpath hstop
  refine ⟨fun h => judgePage_takes ?_ h, fun h => judgePage_rejects (by omega) h⟩
  have hpos : 0 < (str readBufferSize c.readBuf url).length := by
    refine List.length_pos_of_ne_nil fun hn => ?_
    rw [hn] at h
    cases h
  omega

lemma stripHttps_judged {t : List UInt8} {stop : ℕ} (ht : str readBufferSize c.readBuf url = t)
    (hstop : url + t.length = stop) (hroom : stop + 9 < readBufferSize) :
    Judged c (if SameText (t.take 8) https then pathAfter 8 t else t) stop (stripHttps c url) := by
  subst ht
  have hcmp := strncasecmp_iff (m := c.readBuf) (p := url) (n := 8) (s := https) rfl
  rw [stripHttps]
  change Judged c _ _ (if strncasecmp readBufferSize c.readBuf url https 8 = true then _ else _)
  by_cases hs : SameText ((str readBufferSize c.readBuf url).take 8) https
  · rw [if_pos hs, if_pos (hcmp.mpr hs)]
    cases hq : strchr readBufferSize c.readBuf (url + 8) slash with
    | none =>
      rw [(strchr_slash (hs.take_le rfl)).mp hq]
      exact ⟨fun h => absurd h (by simp), fun _ => rfl⟩
    | some u =>
      obtain ⟨hstr, hend⟩ := str_path (hs.take_le rfl) hq
      exact judgePage_judged hstr (hend.trans hstop) hroom
  · rw [if_neg hs, if_neg fun h => hs (hcmp.mp h)]
    exact judgePage_judged rfl hstop hroom

lemma stripHttp_fault {t : List UInt8} (ht : str readBufferSize c.readBuf url = t)
    (hs : SameText (t.take 7) http) (hn : pathAfter 7 t = []) : stripHttp c url = none := by
  subst ht
  have hcmp := (strncasecmp_iff (m := c.readBuf) (p := url) (n := 7) (s := http) rfl).mpr hs
  rw [stripHttp]
  change (if strncasecmp readBufferSize c.readBuf url http 7 = true then _ else _) = none
  rw [if_pos hcmp, (strchr_slash (hs.take_le rfl)).mpr hn]
  rfl

lemma stripHttp_judged {t : List UInt8} {stop : ℕ} (ht : str readBufferSize c.readBuf url = t)
    (hstop : url + t.length = stop) (hroom : stop + 9 < readBufferSize)
    (hok : ¬ (SameText (t.take 7) http ∧ pathAfter 7 t = [])) :
    ∃ r, stripHttp c url = some r ∧ Judged c (pathOf t) stop r := by
  subst ht
  have hcmp := strncasecmp_iff (m := c.readBuf) (p := url) (n := 7) (s := http) rfl
  rw [stripHttp, pathOf]
  change ∃ r, (if strncasecmp readBufferSize c.readBuf url http 7 = true then _ else _) = some r ∧ _
  by_cases hs : SameText ((str readBufferSize c.readBuf url).take 7) http
  · have hne : pathAfter 7 (str readBufferSize c.readBuf url) ≠ [] := fun h => hok ⟨hs, h⟩
    obtain ⟨u, hu⟩ := Option.ne_none_iff_exists'.mp fun h => hne ((strchr_slash (hs.take_le rfl)).mp h)
    obtain ⟨hstr, hend⟩ := str_path (hs.take_le rfl) hu
    -- what is left starts with a slash, so the comparison with `https://` fails
    have hhead := (head_slash (pathAfter_head 7 _)).resolve_left hne
    have hj := stripHttps_judged (c := c) hstr (hend.trans hstop) hroom
    rw [if_neg (not_scheme hhead (by decide) (by decide))] at hj
    rw [if_pos (hcmp.mpr hs), if_pos hs, hu]
    exact ⟨_, rfl, hj⟩
  · rw [if_neg fun h => hs (hcmp.mp h), if_neg hs]
    exact ⟨_, rfl, stripHttps_judged rfl hstop hroom⟩

lemma str_skipBlanks (m : Memory) (p : ℕ) : str readBufferSize m (p + strspn readBufferSize m p blanks) =
    (str readBufferSize m p).dropWhile (isBlank ·) := str_skip blanks

lemma strpbrk_blanks (m : Memory) (p : ℕ) : strpbrk readBufferSize m p blanks =
    if (str readBufferSize m p).dropWhile (!isBlank ·) = [] then none
    else some (p + ((str readBufferSize m p).takeWhile (!isBlank ·)).length) := strpbrk_eq blanks

lemma dropWhile_tail {l : List UInt8} (h : ∀ b ∈ l.head?, isBlank b = true) :
    l.tail.dropWhile (isBlank ·) = l.dropWhile (isBlank ·) := by
  cases l with
  | nil => rfl
  | cons b l => simp [h b rfl]

lemma cut_at_blank {m : Memory} {p q : ℕ} {s : List UInt8} (hs : str readBufferSize m p = s)
    (hne : s.dropWhile (!isBlank ·) ≠ []) (hq : q = p + (s.takeWhile (!isBlank ·)).length) :
    str readBufferSize (m.set q 0) p = s.takeWhile (!isBlank ·) ∧
      str readBufferSize (m.set q 0) (q + 1) = (s.dropWhile (!isBlank ·)).tail ∧
      q + (s.dropWhile (!isBlank ·)).length = p + s.length := by
  subst hs
  have hsplit := congrArg List.length (List.takeWhile_append_dropWhile (p := (!isBlank ·))
    (l := str readBufferSize m p))
  have hpos := List.length_pos_of_ne_nil hne
  rw [List.length_append] at hsplit
  refine ⟨?_, ?_, by omega⟩
  · rw [hq, str_set_take (by omega), take_takeWhile]
  · rw [str_set_before _ (by omega), hq, Nat.add_assoc, str_drop (by omega), ← drop_takeWhile, List.tail_drop]

lemma parseVersion_none {r : List UInt8} (hr : (str readBufferSize c.readBuf url).dropWhile (isBlank ·) = r)
    (hn : r.dropWhile (!isBlank ·) = []) : ∃ d, parseVersion c url = some (.badRequest, d) := by
  simp only [parseVersion]
  rw [strpbrk_blanks, str_skipBlanks, hr, if_pos hn]
  exact ⟨_, rfl⟩

lemma parseVersion_some {r v : List UInt8}
    (hr : (str readBufferSize c.readBuf url).dropWhile (isBlank ·) = r) (hne : r.dropWhile (!isBlank ·) ≠ [])
    (hv : (r.dropWhile (!isBlank ·)).dropWhile (isBlank ·) = v) :
    ∃ d u, url ≤ u ∧ d.method = c.method ∧ d.cgi = c.cgi ∧ str readBufferSize d.readBuf u = r.takeWhile (!isBlank ·) ∧
      (SameText v http11 → parseVersion c url = stripHttp d u ∧
        u + (r.takeWhile (!isBlank ·)).length + 9 ≤ url + (str readBufferSize c.readBuf url).length) ∧
      (¬ SameText v http11 → parseVersion c url = some (.badRequest, d)) := by
  have hstr := str_skipBlanks c.readBuf url
  have hskip : strspn readBufferSize c.readBuf url blanks + r.length =
      (str readBufferSize c.readBuf url).length := by
    rw [← hr, strspn, ← List.length_append]
    exact congrArg List.length List.takeWhile_append_dropWhile
  rw [hr] at hstr
  simp only [parseVersion]
  rw [strpbrk_blanks, hstr, if_neg hne]
  generalize hu : url + strspn readBufferSize c.readBuf url blanks = u at hstr ⊢
  generalize hq : u + (r.takeWhile (!isBlank ·)).length = q
  obtain ⟨htarget, hrest, hlen⟩ := cut_at_blank hstr hne hq.symm
  have hversion := str_skipBlanks (c.readBuf.set q 0) (q + 1)
  rw [hrest, dropWhile_tail (head_dropWhile_not r), hv] at hversion
  have hcmp : strcasecmp readBufferSize (c.readBuf.set q 0)
      (q + 1 + strspn readBufferSize (c.readBuf.set q 0) (q + 1) blanks) http11 = true ↔ SameText v http11 := by
    rw [strcasecmp, beq_iff_eq, hversion, SameText]
  refine ⟨{ c with readBuf := c.readBuf.set q 0, url := some u, version := some (q + 1 + _) }, u, by omega, rfl, rfl,
    htarget, fun hs => ⟨if_pos (hcmp.mpr hs), ?_⟩, fun hs => if_neg fun he => hs (hcmp.mp he)⟩
  have hl : v.length = 8 := hs.length
  have hv8 : v.length ≤ (r.dropWhile (!isBlank ·)).tail.length := by
    rw [← hv, ← dropWhile_tail (head_dropWhile_not r)]
    exact List.length_dropWhile_le _ _
  rw [List.length_tail] at hv8
  omega

def Wellformed (line : List UInt8) (method : Method) : Prop :=
  afterTarget line ≠ [] ∧ methodName (methodPart line) = some method ∧ SameText (versionPart line) http11

lemma Wellformed.tokens {line : List UInt8} {method : Method} (h : Wellformed line method) :
    Tokens line (methodPart line) (targetPart line) (versionPart line) := tokens_of_parts h.1

lemma Tokens.wellformed {line m t v : List UInt8} {method : Method} (h : Tokens line m t v)
    (hm : methodName m = some method) (ht : t ≠ []) (hv : SameText v http11) :
    Wellformed line method ∧ targetPart line = t := by
  obtain ⟨hne, rfl, htarget, rfl⟩ := h.parts (methodName_no_blank hm) ht (version_no_blank hv)
  exact ⟨⟨hne, hm, hv⟩, htarget⟩

def cgiOf (method : Method) (cgi : ℕ) : ℕ := if method = .post then 1 else cgi

lemma parseRequestLine_method {text : ℕ} {line : List UInt8}
    (hline : str readBufferSize c.readBuf text = line) (hne : line.dropWhile (!isBlank ·) ≠ []) :
    (methodName (methodPart line) = none → ∃ d, parseRequestLine c text = some (.badRequest, d)) ∧
      ∀ method, methodName (methodPart line) = some method → ∃ d url, text ≤ url ∧ d.method = method ∧
        d.cgi = cgiOf method c.cgi ∧ (str readBufferSize d.readBuf url).dropWhile (isBlank ·) = afterMethod line ∧
        url + (str readBufferSize d.readBuf url).length = text + line.length ∧
        parseRequestLine c text = parseVersion d url := by
  generalize hsp : text + (methodPart line).length = sp
  obtain ⟨hmethod, hrest, hlen⟩ := cut_at_blank hline hne hsp.symm
  have hpos := List.length_pos_of_ne_nil hne
  have hskip : (str readBufferSize (c.readBuf.set sp 0) (sp + 1)).dropWhile (isBlank ·) = afterMethod line := by
    rw [hrest, dropWhile_tail (head_dropWhile_not line), afterMethod]
  have hstop : sp + 1 + (str readBufferSize (c.readBuf.set sp 0) (sp + 1)).length = text + line.length := by
    rw [hrest, List.length_tail]
    omega
  have hcmp (s : List UInt8) : strcasecmp readBufferSize (c.readBuf.set sp 0) text s = true ↔
      SameText (methodPart line) s := by
    rw [strcasecmp, beq_iff_eq, hmethod, SameText, methodPart]
  simp only [parseRequestLine]
  rw [strpbrk_blanks, hline, if_neg hne, ← methodPart, hsp]
  simp only [hcmp, methodName]
  split_ifs
  · refine ⟨by simp, ?_⟩
    rintro _ ⟨⟩
    exact ⟨{ c with readBuf := c.readBuf.set sp 0, url := some (sp + 1), method := .get }, sp + 1, by omega, rfl, rfl,
      hskip, hstop, rfl⟩
  · refine ⟨by simp, ?_⟩
    rintro _ ⟨⟩
    exact ⟨{ c with readBuf := c.readBuf.set sp 0, url := some (sp + 1), method := .post, cgi := 1 }, sp + 1, by omega,
      rfl, rfl, hskip, hstop, rfl⟩
  · exact ⟨fun _ => ⟨_, rfl⟩, by simp⟩

lemma parseRequestLine_bad {text : ℕ} {line : List UInt8} (hline : str readBufferSize c.readBuf text = line)
    (h : ∀ method, ¬ Wellformed line method) :
    ∃ d, parseRequestLine c text = some (.badRequest, d) := by
  by_cases hne : line.dropWhile (!isBlank ·) = []
  · simp only [parseRequestLine]
    rw [strpbrk_blanks, hline, if_pos hne]
    exact ⟨_, rfl⟩
  obtain ⟨hbad, hok⟩ := parseRequestLine_method hline hne
  cases hm : methodName (methodPart line) with
  | none => exact hbad hm
  | some method =>
    obtain ⟨d, url, -, -, -, hr, -, hparse⟩ := hok method hm
    rw [hparse]
    by_cases htarget : afterTarget line = []
    · exact parseVersion_none hr htarget
    · obtain ⟨e, u, -, -, -, -, -, he⟩ := parseVersion_some hr htarget rfl
      exact ⟨e, he fun hv => h method ⟨htarget, hm, hv⟩⟩

lemma parseRequestLine_wellformed {text : ℕ} {line : List UInt8} {method : Method}
    (hline : str readBufferSize c.readBuf text = line) (h : Wellformed line method) :
    ∃ d u, text ≤ u ∧ d.method = method ∧ d.cgi = cgiOf method c.cgi ∧ str readBufferSize d.readBuf u = targetPart line ∧
      u + (targetPart line).length + 9 ≤ text + line.length ∧ parseRequestLine c text = stripHttp d u := by
  obtain ⟨htarget, hm, hv⟩ := h
  have hne : line.dropWhile (!isBlank ·) ≠ [] := by
    intro hn
    exact htarget (by simp [afterTarget, afterMethod, hn])
  obtain ⟨d, url, hurl, hd, hcgi, hr, hlen, hparse⟩ := (parseRequestLine_method hline hne).2 method hm
  obtain ⟨e, u, hle, he, hec, hu, hok, -⟩ := parseVersion_some hr htarget rfl
  obtain ⟨hstrip, hroom⟩ := hok hv
  exact ⟨e, u, hurl.trans hle, he.trans hd, hec.trans hcgi, hu, hroom.trans hlen.le, hparse.trans hstrip⟩

end Parser

section Frame

def Within (lo hi : ℕ) (m m' : Memory) : Prop := ∀ i, i < lo ∨ hi ≤ i → m' i = m i

lemma Within.mono {lo hi lo' hi' : ℕ} {m m' : Memory} (h : Within lo hi m m') (hl : lo' ≤ lo) (hh : hi ≤ hi') :
    Within lo' hi' m m' := fun i hi => h i (by omega)

lemma Within.trans {lo hi : ℕ} {m m' m'' : Memory} (h : Within lo hi m m') (h' : Within lo hi m' m'') :
    Within lo hi m m'' := fun i hi => (h' i hi).trans (h i hi)

lemma within_set (m : Memory) (b : UInt8) {lo hi k : ℕ} (hl : lo ≤ k) (hh : k < hi) : Within lo hi m (m.set k b) :=
  fun i hi => set_of_ne m b (by omega)

variable {c d : ReadState} {code : HttpCode} {url text v z : ℕ}

lemma judgePage_within (hv : url ≤ v) (hlt : v < readBufferSize) (h0 : c.readBuf v = 0) :
    Within url (v + 11) c.readBuf (judgePage c url).2.readBuf := by
  simp only [judgePage]
  split_ifs with hs hl
  · exact fun _ _ => rfl
  · intro i hi
    have hle : url + (str readBufferSize c.readBuf url).length ≤ v := str_length_le hv hlt h0
    refine write_outside _ _ _ ?_
    simp only [ascii, List.length_append, List.length_map, List.length_cons, List.length_nil]
    omega
  · exact fun _ _ => rfl

lemma stripHttps_within (hv : url ≤ v) (hlt : v < readBufferSize) (h0 : c.readBuf v = 0) :
    Within url (v + 11) c.readBuf (stripHttps c url).2.readBuf := by
  simp only [stripHttps]
  split_ifs with hc
  · have hu : url + 8 ≤ v := strncasecmp_length hv hlt h0 hc (by decide)
    cases hq : strchr readBufferSize c.readBuf (url + 8) slash with
    | none => exact fun _ _ => rfl
    | some u =>
      obtain ⟨hle, hlv⟩ := strchr_bounds hu hlt h0 hq
      exact (judgePage_within hlv.le hlt h0).mono (by omega) le_rfl
  · exact judgePage_within hv hlt h0

lemma stripHttp_within (hv : url ≤ v) (hlt : v < readBufferSize) (h0 : c.readBuf v = 0)
    (h : stripHttp c url = some (code, d)) : Within url (v + 11) c.readBuf d.readBuf := by
  simp only [stripHttp] at h
  split_ifs at h with hc
  · have hu : url + 7 ≤ v := strncasecmp_length hv hlt h0 hc (by decide)
    obtain ⟨u, hq, hd⟩ := Option.map_eq_some_iff.mp h
    obtain ⟨hle, hlv⟩ := strchr_bounds hu hlt h0 hq
    have hw := stripHttps_within hlv.le hlt h0
    rw [hd] at hw
    exact hw.mono (by omega) le_rfl
  · have hw := stripHttps_within hv hlt h0
    rwa [Option.some.inj h] at hw

lemma parseVersion_within (hz : url ≤ z) (hlt : z < readBufferSize) (h0 : c.readBuf z = 0)
    (h : parseVersion c url = some (code, d)) : Within url (z + 2) c.readBuf d.readBuf := by
  have hu := strspn_le hz hlt h0 blanks
  simp only [parseVersion] at h
  split at h
  · cases h
    exact fun _ _ => rfl
  · rename_i v hq
    obtain ⟨huv, hvz⟩ := strpbrk_bounds hu hlt h0 hq
    have h0' : c.readBuf.set v 0 z = 0 := by rw [set_of_ne _ _ (by omega), h0]
    have hw := strspn_le (p := v + 1) (by omega) hlt h0' blanks
    have hset : Within url (z + 2) c.readBuf (c.readBuf.set v 0) := within_set _ _ (by omega) (by omega)
    split_ifs at h with hc
    · have hlen := strcasecmp_length hw hlt h0' hc
      simp only [ascii, List.length_map, List.length_cons, List.length_nil] at hlen
      have hstrip := stripHttp_within huv (hvz.trans hlt) (set_self _ _ _) h
      exact hset.trans (hstrip.mono (by omega) (by omega))
    · cases h
      exact hset

lemma parseRequestLine_within (hz : text ≤ z) (hlt : z < readBufferSize) (h0 : c.readBuf z = 0)
    (h : parseRequestLine c text = some (code, d)) : Within text (z + 2) c.readBuf d.readBuf := by
  simp only [parseRequestLine] at h
  split at h
  · cases h
    exact fun _ _ => rfl
  · rename_i sp hq
    obtain ⟨hts, hsz⟩ := strpbrk_bounds hz hlt h0 hq
    have h0' : c.readBuf.set sp 0 z = 0 := by rw [set_of_ne _ _ (by omega), h0]
    have hset : Within text (z + 2) c.readBuf (c.readBuf.set sp 0) := within_set _ _ hts (by omega)
    split_ifs at h
    · exact hset.trans ((parseVersion_within hsz hlt h0' h).mono (by omega) le_rfl)
    · exact hset.trans ((parseVersion_within hsz hlt h0' h).mono (by omega) le_rfl)
    · cases h
      exact hset

end Frame

def Parses (c : ReadState) (text : ℕ) : Prop :=
  ∃ code d, parseRequestLine c text = some (code, d) ∧
    (∀ method path, RequestLine (str readBufferSize c.readBuf text) method path →
      code = .noRequest ∧ d.checkState = .header ∧ d.method = method ∧ d.cgi = cgiOf method c.cgi ∧
        ∃ u, d.url = some u ∧ str readBufferSize d.readBuf u = withDefault path) ∧
    ((∀ method path, ¬ RequestLine (str readBufferSize c.readBuf text) method path) → code = .badRequest)

lemma requestLine_iff {line path : List UInt8} {method : Method} : RequestLine line method path ↔
    Wellformed line method ∧ path.head? = some slash ∧ pathOf (targetPart line) = path := by
  constructor
  · rintro ⟨m, t, v, htok, hm, hv, ht⟩
    obtain ⟨hw, rfl⟩ := htok.wellformed hm ht.ne_nil hv
    exact ⟨hw, target_iff.mp ht⟩
  · rintro ⟨hw, ht⟩
    exact ⟨_, _, _, hw.tokens, hw.2.1, hw.2.2, target_iff.mpr ht⟩

lemma noPath_iff {line : List UInt8} : NoPath line ↔ ∃ method, Wellformed line method ∧
    SameText ((targetPart line).take 7) http ∧ pathAfter 7 (targetPart line) = [] := by
  constructor
  · rintro ⟨m, t, v, method, htok, hm, hv, hno⟩
    have hne : t ≠ [] := by
      rintro rfl
      have hnil := (no_path_iff.mp hno).1.length
      cases hnil
    obtain ⟨hw, rfl⟩ := htok.wellformed hm hne hv
    exact ⟨method, hw, no_path_iff.mp hno⟩
  · rintro ⟨method, hw, hno⟩
    exact ⟨_, _, _, method, hw.tokens, hw.2.1, hw.2.2, no_path_iff.mpr hno⟩

lemma RequestLine.unique {line path path' : List UInt8} {method method' : Method} (h : RequestLine line method path)
    (h' : RequestLine line method' path') : method = method' ∧ path = path' := by
  obtain ⟨hw, -, rfl⟩ := requestLine_iff.mp h
  obtain ⟨hw', -, rfl⟩ := requestLine_iff.mp h'
  exact ⟨Option.some.inj (hw.2.1.symm.trans hw'.2.1), rfl⟩

structure Accepted (c : ReadState) (text : ℕ) (method : Method) (path : List UInt8) (r : HttpCode × ReadState) : Prop where
  code : r.1 = .noRequest
  phase : r.2.checkState = .header
  sets : r.2.method = method ∧ r.2.cgi = cgiOf method c.cgi
  url : ∃ u, r.2.url = some u ∧ text ≤ u ∧ u + path.length + 9 ≤ text + (str readBufferSize c.readBuf text).length ∧
    str readBufferSize r.2.readBuf u = withDefault path

lemma parseRequestLine_cases {c : ReadState} {text : ℕ} {line : List UInt8}
    (hline : str readBufferSize c.readBuf text = line) (hend : text + line.length < readBufferSize) :
    NoPath line ∧ parseRequestLine c text = none ∨
      ¬ NoPath line ∧ ∃ r, parseRequestLine c text = some r ∧
        ((∀ method path, ¬ RequestLine line method path) ∧ r.1 = .badRequest ∨
          ∃ method path, RequestLine line method path ∧ Accepted c text method path r) := by
  simp only [requestLine_iff, noPath_iff]
  by_cases hw : ∃ method, Wellformed line method
  · obtain ⟨method, hw⟩ := hw
    obtain ⟨d, u, hle, hd, hcgi, hu, hroom, hparse⟩ := parseRequestLine_wellformed hline hw
    rw [hparse]
    by_cases hno : SameText ((targetPart line).take 7) http ∧ pathAfter 7 (targetPart line) = []
    · exact .inl ⟨⟨method, hw, hno⟩, stripHttp_fault hu hno.1 hno.2⟩
    · obtain ⟨r, hr, htaken, hbad⟩ := stripHttp_judged hu rfl (by omega) hno
      refine .inr ⟨fun ⟨_, _, h⟩ => hno h, r, hr, ?_⟩
      by_cases hpath : (pathOf (targetPart line)).head? = some slash
      · obtain ⟨hcode, hphase, hmethod, hec, u', hurl, hstop, hstr⟩ := htaken hpath
        have hshort := pathOf_length_le (targetPart line)
        exact .inr ⟨method, _, ⟨hw, hpath, rfl⟩, hcode, hphase, ⟨hmethod.trans hd, hec.trans hcgi⟩, u', hurl,
          by omega, by rw [hline]; omega, hstr⟩
      · exact .inl ⟨fun _ _ ⟨_, h, h'⟩ => hpath (h' ▸ h), hbad hpath⟩
  · obtain ⟨d, hd⟩ := parseRequestLine_bad hline (not_exists.mp hw)
    exact .inr ⟨fun ⟨method, h, _⟩ => hw ⟨method, h⟩, _, hd, .inl ⟨fun method _ h => hw ⟨method, h.1⟩, rfl⟩⟩

lemma parseRequestLine_accepted {c : ReadState} {text : ℕ} {line path : List UInt8} {method : Method}
    {r : HttpCode × ReadState} (hline : str readBufferSize c.readBuf text = line)
    (hend : text + line.length < readBufferSize) (h : RequestLine line method path)
    (hr : parseRequestLine c text = some r) : Accepted c text method path r := by
  rcases parseRequestLine_cases hline hend with ⟨-, hn⟩ | ⟨-, r', hr', ⟨hnone, -⟩ | ⟨method', path', h', ha⟩⟩
  · cases hr.symm.trans hn
  · exact absurd h (hnone method path)
  · obtain rfl := Option.some.inj (hr.symm.trans hr')
    obtain ⟨rfl, rfl⟩ := h.unique h'
    exact ha

theorem request_line_grammar_iff {c : ReadState} {text : ℕ}
    (hend : text + (str readBufferSize c.readBuf text).length < readBufferSize) :
    Parses c text ↔ ¬ NoPath (str readBufferSize c.readBuf text) := by
  rcases parseRequestLine_cases rfl hend with ⟨hno, hnone⟩ | ⟨hno, ⟨code, d⟩, hr, hcase⟩
  · refine iff_of_false ?_ (not_not.mpr hno)
    rintro ⟨code, d, hr, -⟩
    cases hnone.symm.trans hr
  · refine iff_of_true ⟨code, d, hr, fun method path h => ?_, fun hnone => ?_⟩ hno
    · obtain ⟨hcode, hphase, ⟨hmethod, hcgi⟩, u, hurl, -, -, hstr⟩ := parseRequestLine_accepted rfl hend h hr
      exact ⟨hcode, hphase, hmethod, hcgi, u, hurl, hstr⟩
    · rcases hcase with ⟨-, hbad⟩ | ⟨method, path, h, -⟩
      · exact hbad
      · exact absurd h (hnone method path)

def lineOf (text : List Char) : ReadState := (default : ReadState).init.receive (ascii text)

theorem request_line_grammar_get : Parses (lineOf "get  HTTP://host/a\tHTTP/1.1".toList) 0 := by
  refine (request_line_grammar_iff (by decide +kernel)).mpr fun h => ?_
  obtain ⟨method, -, -, hno⟩ := noPath_iff.mp h
  have hpath : pathAfter 7 (targetPart (str readBufferSize (lineOf "get  HTTP://host/a\tHTTP/1.1".toList).readBuf 0)) ≠ [] := by
    decide +kernel
  exact hpath hno

theorem request_line_null_url : ¬ Parses (lineOf "GET http://host HTTP/1.1".toList) 0 := by
  rintro ⟨code, d, h, -⟩
  have hnone : (parseRequestLine (lineOf "GET http://host HTTP/1.1".toList) 0).isNone = true := by decide +kernel
  rw [h] at hnone
  cases hnone

end OceanServer.Http
