import Mathlib.Data.List.TakeWhile
import OceanServer.Http.WriteBuffer

/-! The frame of a response: what `Content-Length` announces, the body that is queued behind the blank line, and
the number of bytes that `write` is told to send. -/

namespace OceanServer.Http

open Library Library.CString

/-- `bytes` is a status line, a `Content-Length` line with the text `length`, one more header line, the blank line
and `body`. -/
def Frame (bytes length body : List UInt8) : Prop :=
  ∃ status connection, cr ∉ status ∧ cr ∉ length ∧ cr ∉ connection ∧
    bytes = status ++ crlf ++ (ascii "Content-Length:".toList ++ length ++ crlf) ++ (connection ++ crlf) ++ crlf ++ body

def WriteState.fileBytes (w : WriteState) : ℤ := if w.ivCount = 2 then w.iov₁ else 0

def WriteState.iovTotal (w : WriteState) : ℤ := ([w.iov₀, w.iov₁].take w.ivCount).sum

def WriteState.Framed (w : WriteState) : Prop :=
  (∃ body, Frame w.queued (decimalText (body.length + w.fileBytes)) body) ∧ w.bytesToSend = w.iovTotal

section Frames

lemma line_unique {s s' x x' : List UInt8} (hs : cr ∉ s) (hs' : cr ∉ s') (h : s ++ (crlf ++ x) = s' ++ (crlf ++ x')) :
    s = s' ∧ x = x' := by
  obtain ⟨rfl, -, hx⟩ := first_break_unique (P := (· = cr)) (fun e he hc => hs (hc ▸ he)) (fun e he hc => hs' (hc ▸ he))
    rfl rfl h
  exact ⟨rfl, (List.cons.inj hx).2⟩

lemma Frame.unique {bytes length length' body body' : List UInt8} (h : Frame bytes length body)
    (h' : Frame bytes length' body') : length = length' ∧ body = body' := by
  obtain ⟨status, connection, hs, hl, hc, rfl⟩ := h
  obtain ⟨status', connection', hs', hl', hc', he⟩ := h'
  have hkey : cr ∉ ascii "Content-Length:".toList := by decide
  simp only [List.append_assoc] at he
  obtain ⟨-, he⟩ := line_unique hs hs' he
  simp only [← List.append_assoc (ascii "Content-Length:".toList)] at he
  obtain ⟨hlength, he⟩ := line_unique (fun hm => (List.mem_append.mp hm).elim hkey hl)
    (fun hm => (List.mem_append.mp hm).elim hkey hl') he
  obtain ⟨-, he⟩ := line_unique hc hc' he
  exact ⟨List.append_cancel_left hlength, List.append_cancel_left he⟩

end Frames

section Decimals

lemma decimalText_digits (n : ℕ) : decimalText n = ascii (Nat.toDigits 10 n) := by
  rw [decimalText, if_neg (by omega), Int.natAbs_natCast]

lemma decimalText_negative {n : ℕ} (hn : 0 < n) :
    decimalText (-n) = chr '-' :: ascii (Nat.toDigits 10 n) := by
  rw [decimalText, if_pos (by omega), Int.natAbs_neg, Int.natAbs_natCast]
  rfl

lemma digit_toNat {c : Char} (h : c.isDigit = true) :
    (UInt8.ofNat c.toNat).toNat = c.toNat ∧ 48 ≤ c.toNat ∧ c.toNat ≤ 57 := by
  simp only [Char.isDigit, Bool.and_eq_true, decide_eq_true_eq, UInt32.le_iff_toNat_le] at h
  have h₀ : 48 ≤ c.toNat := h.1
  have h₉ : c.toNat ≤ 57 := h.2
  exact ⟨by rw [UInt8.toNat_ofNat']; omega, h₀, h₉⟩

lemma isDigit_ascii {cs : List Char} (h : ∀ c ∈ cs, c.isDigit = true) : ∀ b ∈ ascii cs, isDigit b = true := by
  intro b hb
  obtain ⟨c, hc, rfl⟩ := List.mem_map.mp hb
  obtain ⟨hnat, h₀, h₉⟩ := digit_toNat (h c hc)
  simp only [isDigit, decide_eq_true_eq, UInt8.le_iff_toNat_le, hnat]
  exact ⟨h₀, h₉⟩

lemma decimal_ascii {cs : List Char} (h : ∀ c ∈ cs, c.isDigit = true) : decimal (ascii cs) = Nat.ofDigitChars 10 cs 0 := by
  have hfold : ∀ acc : ℕ, (ascii cs).foldl (fun acc b => 10 * acc + ((b.toNat : ℤ) - 48)) (acc : ℤ) =
      Nat.ofDigitChars 10 cs acc := by
    induction cs with
    | nil => exact fun acc => rfl
    | cons c cs ih =>
      intro acc
      obtain ⟨hnat, h₀, -⟩ := digit_toNat (h c List.mem_cons_self)
      have hstep : 10 * (acc : ℤ) + (((UInt8.ofNat c.toNat).toNat : ℤ) - 48) = (10 * acc + (c.toNat - 48) : ℕ) := by
        rw [hnat]
        omega
      have hrest := ih (fun d hd => h d (List.mem_cons_of_mem c hd)) (10 * acc + (c.toNat - 48))
      simp only [ascii, List.map_cons, List.foldl_cons, Nat.ofDigitChars] at hrest ⊢
      rw [hstep]
      exact hrest
  rw [decimal, List.takeWhile_eq_self_iff.mpr (isDigit_ascii h)]
  exact hfold 0

lemma decimal_toDigits (n : ℕ) : decimal (ascii (Nat.toDigits 10 n)) = n := by
  have hdigits : ∀ c ∈ Nat.toDigits 10 n, c.isDigit = true :=
    fun c hc => Nat.isDigit_of_mem_toDigits (by decide) (by decide) hc
  rw [decimal_ascii hdigits, Nat.ofDigitChars_toDigits (by decide) (by decide)]

lemma strtol_digits {bs : List UInt8} (hne : bs ≠ []) (h : ∀ b ∈ bs, isDigit b = true) :
    strtol bs = max longMin (min longMax (decimal bs)) := by
  cases bs with
  | nil => exact absurd rfl hne
  | cons b bs =>
    have hb := h b List.mem_cons_self
    simp only [isDigit, decide_eq_true_eq, UInt8.le_iff_toNat_le] at hb
    have hspace : isSpace b = false := by
      rw [isSpace, decide_eq_false_iff_not, not_or, UInt8.le_iff_toNat_le, UInt8.le_iff_toNat_le]
      have h48 : 48 ≤ b.toNat := hb.1
      exact ⟨fun he => by rw [he] at h48; exact absurd h48 (by decide), fun hle => by
        have h13 : b.toNat ≤ 13 := hle.2
        omega⟩
    rw [strtol, List.dropWhile_cons_of_neg (by simp [hspace])]
    split
    · rename_i heq
      obtain ⟨rfl, -⟩ := List.cons.inj heq
      exact absurd hb (by decide)
    · rename_i heq
      obtain ⟨rfl, -⟩ := List.cons.inj heq
      exact absurd hb (by decide)
    · rfl

lemma strtol_decimalText {n : ℤ} (hmin : longMin ≤ n) (hmax : n ≤ longMax) : strtol (decimalText n) = n := by
  have hdigits : ∀ k, ∀ b ∈ ascii (Nat.toDigits 10 k), isDigit b = true := fun k =>
    isDigit_ascii fun c hc => Nat.isDigit_of_mem_toDigits (by decide) (by decide) hc
  have hvalue : max longMin (min longMax n) = n := by rw [min_eq_right hmax, max_eq_right hmin]
  rcases lt_or_ge n 0 with hneg | hpos
  · obtain ⟨k, rfl⟩ : ∃ k : ℕ, n = -k := ⟨n.natAbs, by omega⟩
    have hstrtol : strtol (chr '-' :: ascii (Nat.toDigits 10 k)) =
      max longMin (min longMax (-decimal (ascii (Nat.toDigits 10 k)))) := rfl
    rw [decimalText_negative (by omega), hstrtol, decimal_toDigits, hvalue]
  · obtain ⟨k, rfl⟩ : ∃ k : ℕ, n = k := ⟨n.toNat, by omega⟩
    have hne : ascii (Nat.toDigits 10 k) ≠ [] := by simp [ascii, Nat.toDigits_ne_nil]
    rw [decimalText_digits, strtol_digits hne (hdigits k), decimal_toDigits, hvalue]

lemma decimalText_length (n : ℕ) : (decimalText n).length = (Nat.toDigits 10 n).length := by
  rw [decimalText_digits, ascii, List.length_map]

lemma decimalText_length_le {n : ℤ} (h : n.natAbs < 10 ^ 10) : (decimalText n).length ≤ 11 := by
  have hdigits := (Nat.length_toDigits_le_iff (b := 10) (k := 10) (by decide) (by decide)).mpr h
  rw [decimalText, ascii, List.length_map]
  split_ifs
  · rw [List.length_cons]
    omega
  · omega

lemma mem_decimalText {n : ℤ} {b : UInt8} (h : b ∈ decimalText n) : b = chr '-' ∨ isDigit b = true := by
  have hdigits : ∀ k, b ∈ ascii (Nat.toDigits 10 k) → isDigit b = true := fun k =>
    isDigit_ascii (fun c hc => Nat.isDigit_of_mem_toDigits (by decide) (by decide) hc) b
  rcases lt_or_ge n 0 with hneg | hpos
  · obtain ⟨k, rfl⟩ : ∃ k : ℕ, n = -k := ⟨n.natAbs, by omega⟩
    rw [decimalText_negative (by omega)] at h
    exact (List.mem_cons.mp h).imp id (hdigits k)
  · obtain ⟨k, rfl⟩ : ∃ k : ℕ, n = k := ⟨n.toNat, by omega⟩
    rw [decimalText_digits] at h
    exact .inr (hdigits k h)

lemma not_mem_decimalText {b : UInt8} (hsign : b ≠ chr '-') (hdigit : isDigit b = false) (n : ℤ) :
    b ∉ decimalText n := by
  intro h
  obtain h | h := mem_decimalText h
  · exact hsign h
  · exact absurd (hdigit.symm.trans h) nofun

lemma cr_not_mem_decimalText (n : ℤ) : cr ∉ decimalText n := not_mem_decimalText (by decide) (by decide) n

lemma toInt_bounds (n : ℤ) : -2 ^ 31 ≤ toInt n ∧ toInt n < 2 ^ 31 :=
  ⟨Int.le_bmod (by decide), Int.bmod_lt (by decide)⟩

lemma toInt_eq_iff {n : ℤ} : toInt n = n ↔ -2 ^ 31 ≤ n ∧ n < 2 ^ 31 := by
  refine ⟨fun h => h ▸ toInt_bounds n, fun h => Int.bmod_eq_of_le h.1 h.2⟩

end Decimals

section Queueing

variable {w w₁ w₂ : WriteState} {linger : Bool}

def Queues (w : WriteState) (text : List UInt8) (w' : WriteState) : Prop :=
  w'.queued = w.queued ++ text ∧ w'.writeIdx = w.writeIdx + text.length

lemma Queues.trans {text text' : List UInt8} (h : Queues w text w₁) (h' : Queues w₁ text' w₂) :
    Queues w (text ++ text') w₂ :=
  ⟨by rw [h'.1, h.1, List.append_assoc], by rw [h'.2, h.2, List.length_append, add_assoc]⟩

lemma addResponse_queues (text : List UInt8) (h : w.writeIdx + text.length ≤ writeBufferSize - 2) :
    (addResponse w text).1 = true ∧ Queues w text (addResponse w text).2 := by
  have happ := addResponse_appends (le_trans (Nat.le_add_right _ _) h) text
  generalize addResponse w text = r at happ ⊢
  cases happ with
  | whole m _ hm _ => exact ⟨rfl, hm, rfl⟩
  | refused m hlen _ _ => exact absurd h (Nat.not_le.mpr hlen)

def headersText (linger : Bool) (n : ℤ) : List UInt8 := contentLengthText n ++ lingerText linger ++ crlf

lemma addHeaders_queues {n : ℤ} (h : w.writeIdx + (headersText linger n).length ≤ writeBufferSize - 2) :
    Queues w (headersText linger n) (addHeaders w linger n).2 := by
  simp only [headersText, List.length_append] at h
  obtain ⟨h₁, q₁⟩ := addResponse_queues (w := w) (contentLengthText n) (by omega)
  simp only [addHeaders_eq]
  generalize addResponse w (contentLengthText n) = r₁ at h₁ q₁ ⊢
  obtain ⟨h₂, q₂⟩ := addResponse_queues (w := r₁.2) (lingerText linger) (by rw [q₁.2]; omega)
  generalize addResponse r₁.2 (lingerText linger) = r₂ at h₂ q₂ ⊢
  obtain ⟨-, q₃⟩ := addResponse_queues (w := r₂.2) crlf (by rw [q₂.2, q₁.2]; omega)
  rw [if_pos h₁, if_pos h₂]
  exact (q₁.trans q₂).trans q₃

def headText (linger : Bool) (status : ℤ) (title : List UInt8) (n : ℤ) : List UInt8 :=
  statusLineText status title ++ headersText linger n

lemma headText_length (linger : Bool) (status : ℤ) (title : List UInt8) (n : ℤ) :
    (headText linger status title n).length =
      (decimalText status).length + title.length + (decimalText n).length + if linger then 54 else 49 := by
  have hfixed : (ascii "HTTP/1.1 ".toList).length = 9 ∧ (ascii [' ']).length = 1 ∧ crlf.length = 2 ∧
      (ascii "Content-Length:".toList).length = 15 ∧ (lingerText true).length = 23 ∧ (lingerText false).length = 18 := by
    decide
  obtain ⟨hversion, hblank, hend, hkey, htrue, hfalse⟩ := hfixed
  simp only [headText, headersText, statusLineText, contentLengthText, List.length_append, hversion, hblank, hend, hkey]
  cases linger with
  | true =>
    rw [htrue, if_pos rfl]
    omega
  | false =>
    rw [hfalse, if_neg (by decide)]
    omega

lemma head_queues {status : ℤ} {title : List UInt8} {n : ℤ}
    (h : w.writeIdx + (headText linger status title n).length ≤ writeBufferSize - 2) :
    Queues w (headText linger status title n) (addHeaders (addStatusLine w status title).2 linger n).2 := by
  rw [headText, List.length_append] at h
  have q₁ : Queues w (statusLineText status title) (addStatusLine w status title).2 :=
    (addResponse_queues _ (by omega)).2
  exact q₁.trans (addHeaders_queues (by rw [q₁.2]; omega))

def pageText (linger : Bool) (status : ℤ) (title form : List UInt8) : List UInt8 :=
  headText linger status title form.length ++ form

lemma page_queues {status : ℕ} {title form : List UInt8}
    (h : w.writeIdx + (pageText linger status title form).length ≤ writeBufferSize - 2) :
    (page w linger status title form).1 = true ∧
      Queues w (pageText linger status title form) (page w linger status title form).2 := by
  rw [pageText, List.length_append] at h
  have q₁ : Queues w (headText linger status title form.length) _ := head_queues (by omega)
  obtain ⟨h₂, q₂⟩ := addResponse_queues form (by rw [q₁.2]; omega)
  exact ⟨h₂, q₁.trans q₂⟩

lemma builtInPage_short {ret : HttpCode} {status : ℕ} {title form : List UInt8}
    (h : builtInPage ret = some (status, title, form)) :
    status ≤ 500 ∧ title.length ≤ 14 ∧ 0 < form.length ∧ form.length ≤ 57 ∧ cr ∉ title := by
  cases ret with
  | internalError | badRequest | forbiddenRequest =>
    cases h
    simp [ascii, error500Title, error500Form, error404Title, error404Form, error403Title, error403Form, cr]
  | noRequest | getRequest | noResource | fileRequest | closedConnection => cases h

lemma builtInPage_fits {ret : HttpCode} {status : ℕ} {title form : List UInt8} (linger : Bool)
    (h : builtInPage ret = some (status, title, form)) :
    (pageText linger status title form).length ≤ writeBufferSize - 2 ∧ cr ∉ title ∧ form ≠ [] := by
  obtain ⟨hstatus, htitle, hpos, hform, hcr⟩ := builtInPage_short h
  refine ⟨?_, hcr, List.ne_nil_of_length_pos hpos⟩
  have hs : (decimalText status).length ≤ 11 := decimalText_length_le (by omega)
  have hn : (decimalText form.length).length ≤ 11 := decimalText_length_le (by omega)
  have hsize : writeBufferSize = 1024 := rfl
  rw [pageText, List.length_append, headText_length]
  split_ifs <;> omega

lemma processWrite_page {ret : HttpCode} {status : ℕ} {title form : List UInt8} (hw : w.writeIdx = 0)
    (linger : Bool) (size : ℤ)
    (h : builtInPage ret = some (status, title, form)) :
    ∃ w', processWrite w linger size ret =
        (true, { w' with iov₀ := w'.writeIdx, ivCount := 1, bytesToSend := w'.writeIdx }) ∧
      Queues w (pageText linger status title form) w' := by
  obtain ⟨hone, hqueues⟩ : (page w linger status title form).1 = true ∧ Queues w _ (page w linger status title form).2 :=
    page_queues (by rw [hw, Nat.zero_add]; exact (builtInPage_fits linger h).1)
  refine ⟨(page w linger status title form).2, ?_, hqueues⟩
  have hpage : errorPage w linger status title form = (true, { (page w linger status title form).2 with
      iov₀ := (page w linger status title form).2.writeIdx, ivCount := 1
      bytesToSend := (page w linger status title form).2.writeIdx }) := by
    rw [errorPage]
    generalize page w linger status title form = r at hone ⊢
    rcases r with ⟨- | -, w'⟩
    · cases hone
    · rfl
  rw [← hpage]
  cases ret with
  | internalError | badRequest | forbiddenRequest =>
    cases h
    rfl
  | noRequest | getRequest | noResource | fileRequest | closedConnection => cases h

lemma fileHead_length (linger : Bool) (n : ℤ) :
    (headText linger 200 ok200Title n).length = (decimalText n).length + if linger then 59 else 54 := by
  have hstatus : (decimalText 200).length = 3 ∧ ok200Title.length = 2 := by decide
  rw [headText_length, hstatus.1, hstatus.2]
  split_ifs <;> omega

lemma toInt_length_le (n : ℤ) : (decimalText (toInt n)).length ≤ 11 := by
  have hb := toInt_bounds n
  exact decimalText_length_le (by omega)

lemma processWrite_file {size : ℤ} (hw : w.writeIdx = 0) (linger : Bool) (hs : size ≠ 0) :
    ∃ w', processWrite w linger size .fileRequest =
        (true, { w' with
          iov₀ := w'.writeIdx, iov₁ := size, ivCount := 2, bytesToSend := toInt (w'.writeIdx + size) }) ∧
      Queues w (headText linger 200 ok200Title (toInt size)) w' := by
  have hlen := toInt_length_le size
  have hsize : writeBufferSize = 1024 := rfl
  refine ⟨_, ?_, head_queues (by rw [hw, fileHead_length]; split_ifs <;> omega)⟩
  rw [processWrite, if_pos hs]

end Queueing

section Framed

variable {w w' : WriteState} {linger : Bool}

lemma headText_frame (linger : Bool) (status n : ℤ) {title : List UInt8} (htitle : cr ∉ title) (body : List UInt8) :
    Frame (headText linger status title n ++ body) (decimalText n) body := by
  have hkeys : cr ∉ ascii "HTTP/1.1 ".toList ∧ cr ∉ ascii [' '] ∧ cr ∉ ascii "Connection:".toList ∧
      cr ∉ ascii "keep-alive".toList ∧ cr ∉ ascii "close".toList := by decide
  obtain ⟨hversion, hblank, hkey, hkeep, hclose⟩ := hkeys
  refine ⟨ascii "HTTP/1.1 ".toList ++ decimalText status ++ ascii [' '] ++ title,
    ascii "Connection:".toList ++ (if linger then ascii "keep-alive".toList else ascii "close".toList),
    ?_, cr_not_mem_decimalText n, ?_, ?_⟩
  · simp only [List.mem_append, not_or]
    exact ⟨⟨⟨hversion, cr_not_mem_decimalText status⟩, hblank⟩, htitle⟩
  · rw [List.mem_append, not_or]
    refine ⟨hkey, ?_⟩
    split_ifs
    · exact hkeep
    · exact hclose
  · simp only [headText, headersText, statusLineText, contentLengthText, lingerText, List.append_assoc]

lemma queued_of_empty (hw : w.writeIdx = 0) {text : List UInt8} (h : Queues w text w') :
    w'.queued = text ∧ w'.writeIdx = text.length := by
  refine ⟨by rw [h.1, WriteState.queued, hw]; rfl, by rw [h.2, hw, Nat.zero_add]⟩

lemma page_framed {ret : HttpCode} {status : ℕ} {title form : List UInt8} (hw : w.writeIdx = 0) (size : ℤ)
    (h : builtInPage ret = some (status, title, form)) : (processWrite w linger size ret).2.Framed := by
  obtain ⟨w', hpw, hq⟩ := processWrite_page hw linger size h
  obtain ⟨hqueued, -⟩ := queued_of_empty hw hq
  rw [hpw]
  refine ⟨⟨form, ?_⟩, rfl⟩
  change Frame w'.queued (decimalText (form.length + 0)) form
  rw [hqueued, add_zero]
  exact headText_frame linger status form.length (builtInPage_fits linger h).2.1 form

lemma announced_iff (linger : Bool) {size : ℤ} (h0 : 0 ≤ size) (h63 : size < 2 ^ 63) :
    (∃ body, Frame (headText linger 200 ok200Title (toInt size)) (decimalText (body.length + size)) body) ↔
      size < 2 ^ 31 := by
  have hframe : Frame (headText linger 200 ok200Title (toInt size)) (decimalText (toInt size)) [] := by
    have h := headText_frame linger 200 (toInt size) (show cr ∉ ok200Title by decide) []
    rwa [List.append_nil] at h
  constructor
  · rintro ⟨body, hbody⟩
    obtain ⟨htext, rfl⟩ := hbody.unique hframe
    have hb := toInt_bounds size
    have hread := congrArg strtol htext
    have hmax : longMax = 2 ^ 63 - 1 := rfl
    have hmin : longMin = -2 ^ 63 := rfl
    rw [List.length_nil, Nat.cast_zero, zero_add, strtol_decimalText (by omega) (by omega),
      strtol_decimalText (by omega) (by omega)] at hread
    omega
  · intro hlt
    refine ⟨[], ?_⟩
    rw [toInt_eq_iff.mpr ⟨by omega, hlt⟩] at hframe ⊢
    rwa [List.length_nil, Nat.cast_zero, zero_add]

-- The head has 59 or 54 bytes and the digits of the size. Below ten digits the sum is far from the bound.
lemma fileHead_sum {size : ℤ} (h0 : 0 ≤ size) (hlt : size < 2 ^ 31) :
    (headText linger 200 ok200Title (toInt size)).length + size < 2 ^ 31 ↔
      size + (if linger then 69 else 64) < 2 ^ 31 := by
  obtain ⟨k, rfl⟩ : ∃ k : ℕ, size = k := ⟨size.toNat, by omega⟩
  have h9 := Nat.length_toDigits_le_iff (b := 10) (n := k) (k := 9) (by decide) (by decide)
  have h10 := Nat.length_toDigits_le_iff (b := 10) (n := k) (k := 10) (by decide) (by decide)
  rw [toInt_eq_iff.mpr ⟨by omega, hlt⟩, fileHead_length, decimalText_length]
  cases linger with
  | true =>
    simp only [if_true]
    omega
  | false =>
    simp only [Bool.false_eq_true, if_false]
    omega

lemma file_framed_iff {size : ℤ} (hw : w.writeIdx = 0) (h0 : 0 < size) (h63 : size < 2 ^ 63) :
    (processWrite w linger size .fileRequest).2.Framed ↔ size + (if linger then 69 else 64) < 2 ^ 31 := by
  obtain ⟨w', hpw, hq⟩ := processWrite_file hw linger h0.ne'
  obtain ⟨hqueued, hidx⟩ := queued_of_empty hw hq
  have hannounced := announced_iff linger h0.le h63
  rw [← hqueued] at hannounced
  have htotal : toInt (w'.writeIdx + size) = w'.writeIdx + (size + 0) ↔ (w'.writeIdx : ℤ) + size < 2 ^ 31 := by
    rw [add_zero, toInt_eq_iff]
    exact ⟨fun h => h.2, fun h => ⟨by omega, h⟩⟩
  rw [hpw]
  refine (and_congr hannounced htotal).trans ?_
  rw [hidx]
  constructor
  · rintro ⟨hlt, hsum⟩
    exact (fileHead_sum h0.le hlt).mp hsum
  · intro hsum
    have hlt : size < 2 ^ 31 := by split_ifs at hsum <;> omega
    exact ⟨hlt, (fileHead_sum h0.le hlt).mpr hsum⟩

theorem response_framed_iff {size : ℤ} {ret : HttpCode} (hw : w.writeIdx = 0) (h0 : 0 ≤ size) (h63 : size < 2 ^ 63)
    (h : (processWrite w linger size ret).1 = true) :
    (processWrite w linger size ret).2.Framed ↔
      (ret = .fileRequest → size + (if linger then 69 else 64) < 2 ^ 31) := by
  rcases (processWrite_fst w linger size ret).mp h with ⟨rfl, hs⟩ | ⟨status, title, form, hpage, -⟩
  · rw [file_framed_iff hw (by omega) h63]
    exact ⟨fun hsum _ => hsum, fun hsum => hsum rfl⟩
  · have hret : ret ≠ .fileRequest := by
      rintro rfl
      cases hpage
    exact ⟨fun _ he => absurd he hret, fun _ => page_framed hw size hpage⟩

end Framed

theorem response_framed_of_small_file :
    (processWrite (default : WriteState).init true 4096 .fileRequest).2.Framed :=
  (response_framed_iff rfl (by decide) (by decide) rfl).mpr fun _ => by decide

-- The header announces a negative length, and the number of bytes to send is negative.
theorem response_not_framed_two_gibibytes :
    let r := processWrite (default : WriteState).init true (2 ^ 31) .fileRequest
    r.1 = true ∧ r.2.iov₁ = 2147483648 ∧ r.2.bytesToSend = -2147483578 ∧
      contentLengthText (toInt (2 ^ 31)) = ascii "Content-Length:-2147483648\r\n".toList ∧ ¬ r.2.Framed := by
  have hpos : (0 : ℤ) < 2 ^ 31 := by decide
  have hempty : (default : WriteState).init.writeIdx = 0 := rfl
  obtain ⟨w, hpw, hq⟩ := processWrite_file hempty true hpos.ne'
  have hdigits : decimalText (toInt (2 ^ 31)) = ascii "-2147483648".toList := by decide +kernel
  have hidx : w.writeIdx = 70 := by
    rw [hq.2, hempty, fileHead_length, hdigits]
    rfl
  have hbytes : toInt (w.writeIdx + 2 ^ 31) = -2147483578 := by
    rw [hidx]
    decide
  intro r
  have hr : r = (true, _) := hpw
  refine ⟨by rw [hr], by rw [hr]; rfl, ?_, ?_, ?_⟩
  · rw [hr]
    dsimp only
    exact hbytes
  · rw [contentLengthText, hdigits]
    rfl
  · intro h
    exact absurd ((file_framed_iff hempty hpos (by decide)).mp h) (by decide)

end OceanServer.Http
