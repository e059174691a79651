import OceanServer.Http.Framing
import OceanServer.Http.LineEndings

/-! `write_log`: the time, the level and the message of a line, and the buffer in which they are put together. -/

namespace OceanServer.Log

open Library Library.CString Http

structure Tm where
  year : ℤ
  mon : ℕ
  mday : ℕ
  hour : ℕ
  min : ℕ
  sec : ℕ
  year_fits : -2 ^ 31 ≤ year + 1900 ∧ year + 1900 < 2 ^ 31
  mon_lt : mon < 12
  mday_pos : 0 < mday
  mday_le : mday ≤ 31
  hour_lt : hour < 24
  min_lt : min < 60
  sec_le : sec ≤ 60
  deriving DecidableEq, Repr

structure Now where
  tm : Tm
  usec : ℕ
  usec_lt : usec < 10 ^ 6
  deriving DecidableEq, Repr

def morning : Now where
  tm := ⟨123, 10, 26, 10, 54, 51, by decide, by decide, by decide, by decide, by decide, by decide, by decide⟩
  usec := 0
  usec_lt := by decide

section Texts

def padded (width n : ℕ) : List UInt8 := ascii (List.leftpad width '0' (Nat.toDigits 10 n))

def yearText (tm : Tm) : List UInt8 := decimalText (tm.year + 1900)

def levelText : ℤ → List UInt8
  | 0 => ascii "[debug]:".toList
  | 1 => ascii "[info]:".toList
  | 2 => ascii "[warn]:".toList
  | 3 => ascii "[error]:".toList
  | _ => ascii "[info]:".toList

def headText (now : Now) (level : ℤ) : List UInt8 :=
  yearText now.tm ++ [chr '-'] ++ padded 2 (now.tm.mon + 1) ++ [chr '-'] ++ padded 2 now.tm.mday ++ [chr ' '] ++
    padded 2 now.tm.hour ++ [chr ':'] ++ padded 2 now.tm.min ++ [chr ':'] ++ padded 2 now.tm.sec ++ [chr '.'] ++
    padded 6 now.usec ++ [chr ' '] ++ levelText level ++ [chr ' ']

lemma padded_length {width n : ℕ} (hw : 0 < width) (hn : n < 10 ^ width) : (padded width n).length = width := by
  have hdigits := (Nat.length_toDigits_le_iff (b := 10) (k := width) (by decide) hw).mpr hn
  rw [padded, ascii, List.length_map, List.length_leftpad]
  exact max_eq_left hdigits

lemma yearText_length_le (tm : Tm) : (yearText tm).length ≤ 11 := by
  have hyear := tm.year_fits
  exact decimalText_length_le (by omega)

lemma levelText_length_le (level : ℤ) : (levelText level).length ≤ 8 := by
  unfold levelText
  split <;> decide

lemma headText_length (now : Now) (level : ℤ) :
    (headText now level).length = (yearText now.tm).length + 24 + (levelText level).length := by
  have hmon := now.tm.mon_lt
  have hmday := now.tm.mday_le
  have hhour := now.tm.hour_lt
  have hmin := now.tm.min_lt
  have hsec := now.tm.sec_le
  have hpair : ∀ k < 100, (padded 2 k).length = 2 := fun k hk => padded_length (by decide) hk
  simp only [headText, List.length_append, List.length_singleton, padded_length (by decide : 0 < 6) now.usec_lt,
    hpair (now.tm.mon + 1) (by omega), hpair now.tm.mday (by omega), hpair now.tm.hour (by omega),
    hpair now.tm.min (by omega), hpair now.tm.sec (by omega)]
  omega

lemma not_mem_padded {b : UInt8} (hb : isDigit b = false) (width n : ℕ) : b ∉ padded width n := by
  intro h
  have hdigits : ∀ c ∈ List.leftpad width '0' (Nat.toDigits 10 n), c.isDigit = true := by
    intro c hc
    rw [List.leftpad, List.mem_append] at hc
    obtain hc | hc := hc
    · rw [List.eq_of_mem_replicate hc]
      rfl
    · exact Nat.isDigit_of_mem_toDigits (by decide) (by decide) hc
  exact absurd (hb.symm.trans (isDigit_ascii hdigits b h)) nofun

lemma zero_not_mem_levelText (level : ℤ) : 0 ∉ levelText level := by
  unfold levelText
  split <;> decide

lemma zero_not_mem_headText (now : Now) (level : ℤ) : 0 ∉ headText now level := by
  have hyear : 0 ∉ yearText now.tm := not_mem_decimalText (by decide) (by decide) _
  have hnumber : ∀ width n, 0 ∉ padded width n := not_mem_padded (by decide)
  have hdash : (0 : UInt8) ≠ chr '-' := by decide
  have hblank : (0 : UInt8) ≠ chr ' ' := by decide
  have hcolon : (0 : UInt8) ≠ chr ':' := by decide
  have hdot : (0 : UInt8) ≠ chr '.' := by decide
  simp only [headText, List.mem_append, List.mem_singleton, hyear, hnumber, zero_not_mem_levelText level, hdash, hblank,
    hcolon, hdot, or_self, not_false_eq_true]

end Texts

section Buffer

structure Formatted where
  n : ℕ
  m : ℕ
  buf : Memory

def compose (size : ℕ) (buf : Memory) (head message : List UInt8) : Formatted :=
  let n := head.length
  let m := message.length
  let buf := vsnprintf buf 0 48 head
  let buf := vsnprintf buf n (size - n - 1) message
  ⟨n, m, (buf.set (n + m) lf).set (n + m + 1) 0⟩

def format (size : ℕ) (buf : Memory) (now : Now) (level : ℤ) (message : List UInt8) : Formatted :=
  compose size buf (headText now level) message

structure Formatted.Inside (f : Formatted) (size : ℕ) (head message : List UInt8) : Prop where
  newline : f.n + f.m < size
  terminator : f.n + f.m + 1 < size
  text : ∃ k, str size f.buf 0 = head ++ message.take k ++ [lf]

variable {size : ℕ} {buf : Memory} {now : Now} {level : ℤ} {message : List UInt8}

lemma headText_fits (now : Now) (level : ℤ) : (headText now level).length ≤ 43 := by
  have hyear := yearText_length_le now.tm
  have hlevel := levelText_length_le level
  rw [headText_length]
  omega

lemma printed_twice {head : List UInt8} {room : ℕ} (hhead : head.length < 48) (hroom : message.length < room)
    (buf : Memory) :
    bytesAt (vsnprintf (vsnprintf buf 0 48 head) head.length room message) 0 (head.length + message.length) =
      head ++ message := by
  have hfirst := vsnprintf_whole (m := buf) (p := 0) hhead
  rw [Nat.zero_add] at hfirst
  rw [vsnprintf_whole hroom, hfirst]
  rfl

lemma str_ended {s : List UInt8} {n : ℕ} (hbytes : bytesAt buf 0 n = s) (h0 : 0 ∉ s) (hsize : n + 2 ≤ size) :
    str size ((buf.set n lf).set (n + 1) 0) 0 = s ++ [lf] := by
  subst hbytes
  have hlen : (bytesAt buf 0 n).length = n := by simp [bytesAt]
  have hend : (bytesAt buf 0 n ++ [lf]).length = n + 1 := by rw [List.length_append, hlen, List.length_singleton]
  have hstr : str size ((buf.set n lf).set (n + 1) 0) 0 = (bytesAt buf 0 n ++ [lf]).takeWhile (· ≠ 0) := by
    apply str_takeWhile
    · omega
    · intro i hi
      rw [Nat.zero_add, set_of_ne _ _ (by omega)]
      obtain hlt | heq : i < n ∨ i = n := by omega
      · rw [set_of_ne _ _ (by omega), List.getElem_append_left (by omega)]
        simp [bytesAt]
      · subst heq
        rw [set_self, List.getElem_append_right (by omega)]
        simp
    · rw [hend, Nat.zero_add, set_self]
  rw [hstr]
  apply List.takeWhile_eq_self_iff.mpr
  intro b hb
  rw [decide_eq_true_eq]
  rintro rfl
  obtain hb | hb := List.mem_append.mp hb
  · exact h0 hb
  · exact absurd (List.mem_singleton.mp hb) (by decide)

lemma compose_inside_iff {head : List UInt8} (hhead : head.length < 48) (h0 : 0 ∉ head) (hmsg : 0 ∉ message)
    (buf : Memory) :
    (compose size buf head message).Inside size head message ↔ head.length + message.length + 2 ≤ size := by
  constructor
  · intro h
    exact h.terminator
  · intro h
    have h0 : 0 ∉ head ++ message := by
      rw [List.mem_append, not_or]
      exact ⟨h0, hmsg⟩
    refine ⟨Nat.lt_of_succ_lt h, h, message.length, ?_⟩
    rw [List.take_length]
    exact str_ended (printed_twice hhead (by omega) buf) h0 h

/-- For every size of the buffer, time, level and message: `write_log` stays inside its buffer and the
line is right, just if the digits of the year, 24 bytes, the name of the level, the message, the newline and the
NUL fit into it. -/
theorem log_line_inside_iff (size : ℕ) (buf : Memory) (now : Now) (level : ℤ) (message : List UInt8)
    (h0 : 0 ∉ message) :
    (format size buf now level message).Inside size (headText now level) message ↔
      (yearText now.tm).length + 24 + (levelText level).length + message.length + 2 ≤ size := by
  have hfits := headText_fits now level
  rw [← headText_length]
  exact compose_inside_iff (by omega) (zero_not_mem_headText now level) h0 buf

theorem log_line_inside_timer_tick :
    (format 2000 (fun _ => 0) morning 1 (ascii "timer tick".toList)).Inside 2000 (headText morning 1)
      (ascii "timer tick".toList) :=
  (log_line_inside_iff 2000 _ morning 1 _ (by decide)).mpr (by decide)

end Buffer

section Request

def loggedText (c : ReadState) : List UInt8 := str readBufferSize c.readBuf c.startLine

def longGet (k : ℕ) : List UInt8 := ascii "GET /".toList ++ List.replicate k 97 ++ ascii " HTTP/1.1".toList

lemma longGet_length (k : ℕ) : (longGet k).length = k + 14 := by
  have hget : (ascii "GET /".toList).length = 5 := by decide
  have hversion : (ascii " HTTP/1.1".toList).length = 9 := by decide
  simp only [longGet, List.length_append, List.length_replicate, hget, hversion]
  omega

lemma longGet_plain {k : ℕ} {b : UInt8} (hb : b ∈ longGet k) : b ≠ 0 ∧ ¬ (b = cr ∨ b = lf) := by
  have hends : (ascii "GET /".toList ++ 97 :: ascii " HTTP/1.1".toList).all
      (fun b => b ≠ 0 ∧ ¬ (b = cr ∨ b = lf)) = true := by decide
  apply of_decide_eq_true
  apply List.all_eq_true.mp hends
  simp only [longGet, List.mem_append, List.mem_replicate] at hb
  simp only [List.mem_append, List.mem_cons]
  tauto

lemma loggedText_first (c : ReadState) {bytes first : List UInt8} (hf : FirstLine bytes first)
    (hfit : bytes.length ≤ readBufferSize) :
    ∃ d, parseLine (c.init.receive bytes) = (.ok, d) ∧ loggedText d = cString first := by
  obtain ⟨f, hf', hparse⟩ | ⟨hno, -⟩ := ((atFirstLine_init c).receive bytes).scan
  · rw [List.nil_append] at hf' hparse
    obtain rfl := hf.unique hf'
    exact ⟨_, hparse, str_first c hf hfit⟩
  · exact absurd hf (hno first)

theorem long_request_line_overruns : FirstLine (longGet 1955 ++ crlf) (longGet 1955) ∧
    (longGet 1955 ++ crlf).length < readBufferSize ∧
    (∀ c : ReadState, ∃ d, parseLine (c.init.receive (longGet 1955 ++ crlf)) = (.ok, d) ∧
      loggedText d = longGet 1955) ∧
    (format 2000 (fun _ => 0) morning 1 (longGet 1955)).n = 35 ∧
    (format 2000 (fun _ => 0) morning 1 (longGet 1955)).m = 1969 ∧
    ¬ (format 2000 (fun _ => 0) morning 1 (longGet 1955)).Inside 2000 (headText morning 1) (longGet 1955) := by
  -- A request line of 1969 bytes, received in one piece, is logged as it is; its newline is written at 2004 and
  -- the NUL at 2005, in a buffer of the 2000 bytes that `webserver::log_write` asks for.
  have hlen : (longGet 1955).length = 1969 := longGet_length 1955
  have hbytes : (longGet 1955 ++ crlf).length = 1971 := by rw [List.length_append, hlen]; rfl
  have hn : (format 2000 (fun _ => 0) morning 1 (longGet 1955)).n = 35 := by
    change (headText morning 1).length = 35
    rw [headText_length]
    decide
  have hm : (format 2000 (fun _ => 0) morning 1 (longGet 1955)).m = 1969 := hlen
  have hfirst : FirstLine (longGet 1955 ++ crlf) (longGet 1955) :=
    ⟨fun b hb => (longGet_plain hb).2, [], by rw [List.append_nil]⟩
  have hsize : readBufferSize = 2048 := rfl
  refine ⟨hfirst, by omega, fun c => ?_, hn, hm, fun hin => ?_⟩
  · obtain ⟨d, hparse, hlogged⟩ := loggedText_first c hfirst (by omega)
    refine ⟨d, hparse, hlogged.trans ?_⟩
    apply List.takeWhile_eq_self_iff.mpr
    exact fun b hb => decide_eq_true (longGet_plain hb).1
  · have hterminator := hin.terminator
    rw [hn, hm] at hterminator
    omega

end Request

end OceanServer.Log
