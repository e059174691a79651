import OceanServer.Library.Runs
import OceanServer.Log.Format
import Mathlib.Data.List.DropRight

/-! `log::init` and the rotation in `write_log`: the names of the files, and which of them a line goes to. -/

namespace OceanServer.Log

open Library Library.CString Http

section Names

structure FileLog where
  dirName : List UInt8
  logName : List UInt8
  splitLines : ℤ
  count : ℤ
  today : ℤ
  -- the name of the file that `m_fp` is open on
  path : List UInt8
  deriving DecidableEq, Repr

def snprintf (size : ℕ) (text : List UInt8) : List UInt8 := text.take (size - 1)

def stem (tm : Tm) : List UInt8 :=
  yearText tm ++ [chr '_'] ++ padded 2 (tm.mon + 1) ++ [chr '_'] ++ padded 2 tm.mday

def dateText (tm : Tm) : List UInt8 := stem tm ++ [chr '_']

def dirPart (fileName : List UInt8) : List UInt8 := fileName.rdropWhile (· ≠ slash)

def basePart (fileName : List UInt8) : List UInt8 := fileName.rtakeWhile (· ≠ slash)

/-- `init` of the instance that `get_instance` makes, in which all arrays are zero; `none` where a part of the name
does not fit into its array. Without a slash both arrays stay as they are. -/
def init (fileName : List UInt8) (splitLines : ℤ) (tm : Tm) : Option FileLog :=
  if slash ∈ fileName then
    if (basePart fileName).length < 128 ∧ (dirPart fileName).length < 128 then
      some ⟨dirPart fileName, basePart fileName, splitLines, 0, tm.mday,
        snprintf 255 (dirPart fileName ++ dateText tm ++ fileName)⟩
    else none
  else some ⟨[], [], splitLines, 0, tm.mday, snprintf 255 (dateText tm ++ fileName)⟩

def dayChangePath (l : FileLog) (tm : Tm) : List UInt8 :=
  snprintf 255 (l.dirName ++ snprintf 16 (dateText tm) ++ l.logName)

def splitPath (l : FileLog) (tm : Tm) (number : ℤ) : List UInt8 :=
  snprintf 255 (l.dirName ++ snprintf 16 (dateText tm) ++ l.logName ++ [chr '.'] ++ decimalText number)

variable {fileName : List UInt8} {splitLines : ℤ} {tm : Tm} {l : FileLog}

lemma stem_length (tm : Tm) : (stem tm).length = (yearText tm).length + 6 := by
  have hmon := tm.mon_lt
  have hmday := tm.mday_le
  simp only [stem, List.length_append, List.length_singleton]
  rw [padded_length (by decide) (by omega), padded_length (by decide) (by omega)]

lemma dateText_length (tm : Tm) : (dateText tm).length = (yearText tm).length + 7 := by
  rw [dateText, List.length_append, stem_length, List.length_singleton]

lemma parts_append (fileName : List UInt8) : dirPart fileName ++ basePart fileName = fileName :=
  List.rdropWhile_append_rtakeWhile

lemma slash_not_mem_basePart : slash ∉ basePart fileName := by
  intro h
  exact of_decide_eq_true (List.mem_rtakeWhile_imp (p := fun b => decide (b ≠ slash)) h) rfl

lemma slash_mem_dirPart (h : slash ∈ fileName) : slash ∈ dirPart fileName := by
  rw [← parts_append fileName, List.mem_append] at h
  exact h.resolve_right slash_not_mem_basePart

lemma basePart_eq (h : slash ∉ fileName) : basePart fileName = fileName ∧ dirPart fileName = [] := by
  have hbase : basePart fileName = fileName := by
    apply List.rtakeWhile_eq_self_iff.mpr
    intro b hb
    apply decide_eq_true
    rintro rfl
    exact h hb
  have hparts := parts_append fileName
  rw [hbase] at hparts
  exact ⟨hbase, List.append_left_eq_self.mp hparts⟩

def NamesAlike (fileName : List UInt8) (splitLines : ℤ) (tm : Tm) : Prop :=
  ∃ l, init fileName splitLines tm = some l ∧ l.path = dirPart fileName ++ dateText tm ++ basePart fileName ∧
    dayChangePath l tm = dirPart fileName ++ dateText tm ++ basePart fileName

lemma rotated_eq_iff (a b : List UInt8) (tm : Tm) :
    snprintf 255 (a ++ snprintf 16 (dateText tm) ++ b) = a ++ dateText tm ++ b ↔
      (dateText tm).length ≤ 15 ∧ (a ++ dateText tm ++ b).length ≤ 254 := by
  constructor
  · intro h
    have hlen := congrArg List.length h
    simp only [snprintf, List.length_take, List.length_append] at hlen ⊢
    omega
  · rintro ⟨hdate, hwhole⟩
    simp only [snprintf]
    rw [List.take_of_length_le hdate, List.take_of_length_le hwhole]

lemma opened_eq_iff (h : slash ∈ fileName) (date : List UInt8) :
    snprintf 255 (dirPart fileName ++ date ++ fileName) = dirPart fileName ++ date ++ basePart fileName ↔
      (dirPart fileName ++ date ++ basePart fileName).length = 254 ∧ basePart fileName <+: dirPart fileName := by
  have hslash := slash_mem_dirPart h
  have hbase : slash ∉ basePart fileName := slash_not_mem_basePart
  nth_rewrite 2 [← parts_append fileName]
  generalize dirPart fileName = a at hslash ⊢
  generalize basePart fileName = b at hbase ⊢
  constructor
  · intro heq
    have hpos := List.length_pos_of_mem hslash
    have hlen := congrArg List.length heq
    simp only [snprintf, List.length_take, List.length_append] at hlen ⊢
    refine ⟨by omega, ?_⟩
    have hfront : a ++ date ++ b <+: a ++ date ++ (a ++ b) := heq ▸ List.take_prefix _ _
    have hb : b <+: a ++ b := (List.prefix_append_right_inj _).mp hfront
    -- the directory has a slash and the base name has none
    apply (List.prefix_or_prefix_of_prefix hb (List.prefix_append a b)).resolve_right
    intro ha
    exact hbase (ha.subset hslash)
  · rintro ⟨hlen, hb⟩
    have hfront : a ++ date ++ b <+: a ++ date ++ (a ++ b) :=
      (List.prefix_append_right_inj _).mpr (hb.trans (List.prefix_append a b))
    have htake := List.prefix_iff_eq_take.mp hfront
    rw [hlen] at htake
    exact htake.symm

/-- For every file name whose parts fit into their arrays, and every date: `init` and the rotation open the file of
the directory, the date and the base name just if the year has at most 8 characters, and the file name is empty, or
has a slash, a base name that its directory starts with, and a name of just 254 characters. -/
theorem init_rotation_names_iff (fileName : List UInt8) (splitLines : ℤ) (tm : Tm)
    (hdir : (dirPart fileName).length < 128) (hbase : (basePart fileName).length < 128) :
    NamesAlike fileName splitLines tm ↔ (yearText tm).length ≤ 8 ∧
      (fileName = [] ∨ slash ∈ fileName ∧ basePart fileName <+: dirPart fileName ∧
        (dirPart fileName ++ dateText tm ++ basePart fileName).length = 254) := by
  have hyear : (dateText tm).length ≤ 15 ↔ (yearText tm).length ≤ 8 := by
    rw [dateText_length]
    omega
  rw [NamesAlike, init]
  by_cases hslash : slash ∈ fileName
  · rw [if_pos hslash, if_pos ⟨hbase, hdir⟩]
    simp only [Option.some.injEq, exists_eq_left', dayChangePath]
    rw [opened_eq_iff hslash, rotated_eq_iff, hyear]
    have hne : fileName ≠ [] := List.ne_nil_of_mem hslash
    constructor
    · rintro ⟨⟨hlen, hstart⟩, hdate, -⟩
      exact ⟨hdate, .inr ⟨hslash, hstart, hlen⟩⟩
    · rintro ⟨hdate, hnil | ⟨-, hstart, hlen⟩⟩
      · exact absurd hnil hne
      · exact ⟨⟨hlen, hstart⟩, hdate, hlen.le⟩
  · obtain ⟨hb, hd⟩ := basePart_eq hslash
    rw [if_neg hslash, hb, hd]
    simp only [Option.some.injEq, exists_eq_left', dayChangePath, List.nil_append, List.append_nil]
    constructor
    · rintro ⟨-, hrotated⟩
      have hlen := congrArg List.length hrotated
      simp only [snprintf, List.length_take, List.length_append] at hlen
      exact ⟨by omega, .inl (List.eq_nil_of_length_eq_zero (by omega))⟩
    · rintro ⟨hdate, rfl | ⟨hmem, -⟩⟩
      · have hfit := hyear.mpr hdate
        simp only [snprintf, List.append_nil]
        rw [List.take_of_length_le hfit, List.take_of_length_le (hfit.trans (by decide))]
        exact ⟨rfl, rfl⟩
      · exact absurd hmem hslash

def repeatedName : List UInt8 :=
  List.replicate 121 (chr 'a') ++ [slash] ++ List.replicate 121 (chr 'a')

theorem init_rotation_names_254 : NamesAlike repeatedName 800000 morning.tm ∧
    (dirPart repeatedName ++ dateText morning.tm ++ basePart repeatedName).length = 254 := by
  have hlen : (dirPart repeatedName ++ dateText morning.tm ++ basePart repeatedName).length = 254 := by decide +kernel
  refine ⟨(init_rotation_names_iff repeatedName 800000 morning.tm (by decide +kernel) (by decide +kernel)).mpr
    ⟨by decide, .inr ⟨by decide +kernel, ?_, hlen⟩⟩, hlen⟩
  exact List.isPrefixOf_iff_prefix.mp (by decide +kernel)

theorem serverlog_names_differ :
    ((init (ascii "./serverlog".toList) 800000 morning.tm).map fun l => (l.path, dayChangePath l morning.tm)) =
      some (ascii "./2023_11_26_./serverlog".toList, ascii "./2023_11_26_serverlog".toList) ∧
    ¬ NamesAlike (ascii "./serverlog".toList) 800000 morning.tm ∧
    ((init (ascii "serverlog".toList) 800000 morning.tm).map fun l => (l.path, dayChangePath l morning.tm)) =
      some (ascii "2023_11_26_serverlog".toList, ascii "2023_11_26_".toList) := by
  refine ⟨by decide +kernel, ?_, by decide +kernel⟩
  rintro ⟨l, hinit, hpath, -⟩
  have hopened : (init (ascii "./serverlog".toList) 800000 morning.tm).map FileLog.path =
      some (ascii "./2023_11_26_./serverlog".toList) := by decide +kernel
  rw [hinit, Option.map_some, hpath] at hopened
  exact absurd hopened (by decide +kernel)

end Names

section Calls

structure Numbered where
  base : List UInt8
  number : ℤ
  deriving DecidableEq, Repr

inductive Event where
  | fopen (path : List UInt8) (name : Option Numbered)
  | fputs
  deriving DecidableEq, Repr

def rotatedName (l : FileLog) (tm : Tm) : List UInt8 := l.dirName ++ snprintf 16 (dateText tm) ++ l.logName

def rotate (l : FileLog) (tm : Tm) : Option (FileLog × List Event) :=
  let count := l.count + 1
  -- the change of the day is looked at first, so that it decides where both reasons to rotate meet
  if l.today ≠ tm.mday then
    some ({ l with today := tm.mday, count := 0, path := dayChangePath l tm }, [.fopen (dayChangePath l tm) none])
  else if l.splitLines = 0 then none
  else if count.tmod l.splitLines = 0 then
    let number := count.tdiv l.splitLines
    some ({ l with count := count, path := splitPath l tm number },
      [.fopen (splitPath l tm number) (some ⟨rotatedName l tm, number⟩)])
  else some ({ l with count := count }, [])

def writeLog (l : FileLog) (tm : Tm) : Option (FileLog × List Event) :=
  (rotate l tm).map fun r => (r.1, r.2 ++ [.fputs])

structure Session where
  log : FileLog
  last : Tm
  events : List Event

def Session.start (l : FileLog) (tm : Tm) : Session := ⟨l, tm, [.fopen l.path none]⟩

def Session.Call (s : Session) (tm : Tm) (t : Session) : Prop :=
  (writeLog s.log tm).map (fun r => ⟨r.1, tm, s.events ++ r.2⟩) = some t

inductive Session.Effect (s : Session) (tm : Tm) : Session → Prop
  | dayChange : s.log.today ≠ tm.mday →
      Effect s tm ⟨{ s.log with today := tm.mday, count := 0, path := dayChangePath s.log tm }, tm,
        s.events ++ [.fopen (dayChangePath s.log tm) none, .fputs]⟩
  | split : s.log.today = tm.mday → s.log.splitLines ∣ s.log.count + 1 →
      Effect s tm ⟨{ s.log with
          count := s.log.count + 1
          path := splitPath s.log tm ((s.log.count + 1).tdiv s.log.splitLines) }, tm,
        s.events ++ [.fopen (splitPath s.log tm ((s.log.count + 1).tdiv s.log.splitLines))
          (some ⟨rotatedName s.log tm, (s.log.count + 1).tdiv s.log.splitLines⟩), .fputs]⟩
  | same : s.log.today = tm.mday → ¬ s.log.splitLines ∣ s.log.count + 1 →
      Effect s tm ⟨{ s.log with count := s.log.count + 1 }, tm, s.events ++ [.fputs]⟩

variable {s t : Session} {tm : Tm}

lemma Session.Call.effect (h : s.Call tm t) : s.Effect tm t := by
  rw [Session.Call, writeLog, rotate] at h
  split_ifs at h with hday hzero hsplit
  · cases h
    exact .dayChange hday
  · cases h
  · cases h
    exact .split (not_not.mp hday) (Int.dvd_of_tmod_eq_zero hsplit)
  · cases h
    exact .same (not_not.mp hday) fun hdvd => hsplit (Int.tmod_eq_zero_of_dvd hdvd)

lemma Session.Call.of_writeLog {l : FileLog} {events : List Event} (h : writeLog s.log tm = some (l, events)) :
    s.Call tm ⟨l, tm, s.events ++ events⟩ := by
  rw [Session.Call, h]
  rfl

lemma Session.exists_call (h : s.log.splitLines ≠ 0) (tm : Tm) : ∃ t, s.Call tm t := by
  simp only [Session.Call, writeLog, rotate]
  split_ifs
  · exact ⟨_, rfl⟩
  · exact ⟨_, rfl⟩
  · exact ⟨_, rfl⟩

lemma Session.Effect.kept (h : s.Effect tm t) :
    t.last = tm ∧ t.log.today = tm.mday ∧ t.log.dirName = s.log.dirName ∧ t.log.splitLines = s.log.splitLines := by
  cases h with
  | dayChange => exact ⟨rfl, rfl, rfl, rfl⟩
  | split hday => exact ⟨rfl, hday, rfl, rfl⟩
  | same hday => exact ⟨rfl, hday, rfl, rfl⟩

end Calls

section Segments

variable {n : ℕ} {events : List Event} {s t : Session} {tm : Tm}

def Event.opensDay : Event → Bool
  | .fopen _ none => true
  | _ => false

def Event.name : Event → Option Numbered
  | .fopen _ name => name
  | .fputs => none

/-- For a file that a split opens, what its path has behind the dot; `none` inside where the path has no dot there. -/
def Event.suffix : Event → Option (Option (List UInt8))
  | .fopen path (some name) => some (path.dropPrefix? (name.base ++ [chr '.']))
  | _ => none

def oneTo (k : ℕ) : List ℤ := (List.range k).map fun i => ((i + 1 : ℕ) : ℤ)

def LinesBounded (n : ℕ) (events : List Event) : Prop :=
  ∀ pre path name lines post, events = pre ++ Event.fopen path name :: lines ++ post →
    (∀ e ∈ lines, e = Event.fputs) → lines.length ≤ n

def SuffixesInOrder (events : List Event) : Prop :=
  ∀ pre path between post, events = pre ++ Event.fopen path none :: between ++ post →
    (∀ e ∈ between, e.opensDay = false) →
    ∃ k, between.filterMap Event.suffix = (oneTo k).map fun number => some (decimalText number)

structure Segmented (n : ℕ) (events : List Event) : Prop where
  lines : LinesBounded n events
  suffixes : SuffixesInOrder events

def SuffixFits (s : Session) (tm : Tm) : Prop :=
  s.log.today = tm.mday → s.log.splitLines ∣ s.log.count + 1 →
    (rotatedName s.log tm ++ [chr '.'] ++ decimalText ((s.log.count + 1).tdiv s.log.splitLines)).length ≤ 254

def linesSince (events : List Event) : List Event := events.rtakeWhile (· = Event.fputs)

def daySince (events : List Event) : List Event := events.rtakeWhile (·.opensDay = false)

def numbers (events : List Event) : List ℤ := (events.filterMap Event.name).map Numbered.number

def Bounded (n : ℕ) (events : List Event) : Prop :=
  ∀ p, p <+: events → (linesSince p).length ≤ n ∧ ∃ k, numbers (daySince p) = oneTo k

structure Counted (n : ℕ) (s : Session) (q r : ℕ) : Prop where
  split : s.log.splitLines = n
  count : s.log.count = n * q + r
  lt : r < n
  lines : (linesSince s.events).length ≤ r + 1
  numbers : numbers (daySince s.events) = oneTo q

lemma linesSince_fputs (events : List Event) :
    linesSince (events ++ [Event.fputs]) = linesSince events ++ [Event.fputs] :=
  List.rtakeWhile_concat_pos _ _ _ rfl

lemma linesSince_fopen (events : List Event) (path : List UInt8) (name : Option Numbered) :
    linesSince (events ++ [Event.fopen path name]) = [] :=
  List.rtakeWhile_concat_neg _ _ _ nofun

lemma daySince_of_not {e : Event} (he : e.opensDay = false) (events : List Event) :
    daySince (events ++ [e]) = daySince events ++ [e] :=
  List.rtakeWhile_concat_pos _ _ _ (decide_eq_true he)

lemma daySince_day (events : List Event) (path : List UInt8) : daySince (events ++ [Event.fopen path none]) = [] :=
  List.rtakeWhile_concat_neg _ _ _ nofun

lemma oneTo_succ (k : ℕ) : oneTo (k + 1) = oneTo k ++ [((k + 1 : ℕ) : ℤ)] := by
  rw [oneTo, List.range_succ, List.map_append]
  rfl

lemma numbers_append (as bs : List Event) : numbers (as ++ bs) = numbers as ++ numbers bs := by
  rw [numbers, List.filterMap_append, List.map_append]
  rfl

lemma Bounded.snoc {e : Event} (h : Bounded n events) (hlines : (linesSince (events ++ [e])).length ≤ n)
    (hnumbers : ∃ k, numbers (daySince (events ++ [e])) = oneTo k) : Bounded n (events ++ [e]) := by
  intro p hp
  obtain rfl | hp := List.prefix_concat_iff.mp hp
  · exact ⟨hlines, hnumbers⟩
  · exact h p hp

lemma Bounded.opened {path : List UInt8} {name : Option Numbered} {k : ℕ} (h : Bounded n events) (hn : 0 < n)
    (hnumbers : numbers (daySince (events ++ [Event.fopen path name])) = oneTo k) :
    Bounded n (events ++ [Event.fopen path name, Event.fputs]) ∧
      (linesSince (events ++ [Event.fopen path name, Event.fputs])).length = 1 ∧
      numbers (daySince (events ++ [Event.fopen path name, Event.fputs])) = oneTo k := by
  have hopen : Bounded n (events ++ [Event.fopen path name]) := by
    apply h.snoc
    · rw [linesSince_fopen]
      exact Nat.zero_le n
    · exact ⟨k, hnumbers⟩
  have hlines : linesSince (events ++ [Event.fopen path name] ++ [Event.fputs]) = [Event.fputs] := by
    rw [linesSince_fputs, linesSince_fopen]
    rfl
  have hday : numbers (daySince (events ++ [Event.fopen path name] ++ [Event.fputs])) = oneTo k := by
    rw [daySince_of_not rfl, numbers_append, hnumbers]
    exact List.append_nil _
  rw [show events ++ [Event.fopen path name, Event.fputs] = events ++ [Event.fopen path name] ++ [Event.fputs] by simp]
  refine ⟨hopen.snoc ?_ ⟨k, hday⟩, ?_, hday⟩
  · rw [hlines]
    exact hn
  · rw [hlines]
    rfl

lemma next_multiple_iff {q r : ℕ} (h : r < n) : (n : ℤ) ∣ n * q + r + 1 ↔ r + 1 = n := by
  rw [add_assoc, dvd_add_right (dvd_mul_right _ _)]
  have hcast : (n : ℤ) ∣ (r : ℤ) + 1 ↔ n ∣ r + 1 := by
    rw [← Int.natCast_dvd_natCast]
    push_cast
    rfl
  rw [hcast]
  constructor
  · intro hdvd
    have hle := Nat.le_of_dvd (Nat.succ_pos r) hdvd
    omega
  · intro heq
    rw [heq]

lemma counted_step {q r : ℕ} (h : Counted n s q r) (hb : Bounded n s.events) (he : s.Effect tm t) :
    ∃ q r, Counted n t q r ∧ Bounded n t.events := by
  have hn : 0 < n := (Nat.zero_le r).trans_lt h.lt
  cases he with
  | dayChange =>
    have hday : numbers (daySince (s.events ++ [Event.fopen (dayChangePath s.log tm) none])) = oneTo 0 := by
      rw [daySince_day]
      rfl
    obtain ⟨hbound, hlines, hnumbers⟩ := hb.opened hn hday
    -- `m_count` starts again at 0 and not at 1, so that this segment takes `n` lines and not `n - 1`
    exact ⟨0, 0, ⟨h.split, by simp, hn, hlines.le, hnumbers⟩, hbound⟩
  | split _ hdvd =>
    rw [h.split, h.count, next_multiple_iff h.lt] at hdvd
    have hcount : s.log.count + 1 = n * ((q + 1 : ℕ) : ℤ) := by
      rw [h.count, add_assoc, ← Nat.cast_succ r, Nat.succ_eq_add_one, hdvd]
      push_cast
      ring
    have hnumber : (s.log.count + 1).tdiv s.log.splitLines = ((q + 1 : ℕ) : ℤ) := by
      rw [hcount, h.split, Int.mul_tdiv_cancel_left _ (by omega)]
    have hday : numbers (daySince (s.events ++ [Event.fopen
        (splitPath s.log tm ((s.log.count + 1).tdiv s.log.splitLines))
        (some ⟨rotatedName s.log tm, (s.log.count + 1).tdiv s.log.splitLines⟩)])) = oneTo (q + 1) := by
      rw [daySince_of_not rfl, numbers_append, h.numbers, oneTo_succ, hnumber]
      rfl
    obtain ⟨hbound, hlines, hnumbers⟩ := hb.opened hn hday
    exact ⟨q + 1, 0, ⟨h.split, by simp [hcount], hn, hlines.le, hnumbers⟩, hbound⟩
  | same _ hdvd =>
    rw [h.split, h.count, next_multiple_iff h.lt] at hdvd
    have hlt := h.lt
    have hlines : (linesSince (s.events ++ [Event.fputs])).length ≤ r + 2 := by
      rw [linesSince_fputs, List.length_append, List.length_singleton]
      exact Nat.succ_le_succ h.lines
    have hday : numbers (daySince (s.events ++ [Event.fputs])) = oneTo q := by
      rw [daySince_of_not rfl, numbers_append, h.numbers]
      exact List.append_nil _
    refine ⟨q, r + 1, ⟨h.split, ?_, by omega, hlines, hday⟩, hb.snoc (by omega) ⟨q, hday⟩⟩
    change s.log.count + 1 = _
    rw [h.count]
    push_cast
    ring

lemma counted_start {fileName : List UInt8} {l : FileLog} (hinit : init fileName n tm = some l) (hn : 0 < n) :
    Counted n (.start l tm) 0 0 ∧ Bounded n (Session.start l tm).events := by
  have hl : l.splitLines = n ∧ l.count = 0 := by
    rw [init] at hinit
    split_ifs at hinit
    · cases hinit
      exact ⟨rfl, rfl⟩
    · cases hinit
      exact ⟨rfl, rfl⟩
  refine ⟨⟨hl.1, by simp [Session.start, hl.2], hn, Nat.zero_le _, rfl⟩, ?_⟩
  have hnil : Bounded n [] := by
    intro p hp
    rw [List.prefix_nil.mp hp]
    exact ⟨Nat.zero_le n, 0, rfl⟩
  exact hnil.snoc (Nat.zero_le n) ⟨0, rfl⟩

lemma rtakeWhile_break {α : Type*} {p : α → Bool} {x : α} {pre mid : List α} (hx : p x = false)
    (hmid : ∀ e ∈ mid, p e = true) : (pre ++ x :: mid).rtakeWhile p = mid := by
  induction mid using List.reverseRecOn with
  | nil => exact List.rtakeWhile_concat_neg _ _ _ (by rw [hx]; exact nofun)
  | append_singleton mid e ih =>
    have hlast := hmid e (List.mem_append_right mid (List.mem_singleton_self e))
    rw [← List.cons_append, ← List.append_assoc, List.rtakeWhile_concat_pos _ _ _ hlast,
      ih fun e he => hmid e (List.mem_append_left _ he)]

lemma Bounded.lines (h : Bounded n events) : LinesBounded n events := by
  intro pre path name lines post hs hlines
  have hlast := (h _ ⟨post, hs.symm⟩).1
  rw [linesSince, rtakeWhile_break rfl fun e he => decide_eq_true (hlines e he)] at hlast
  exact hlast

lemma Bounded.between (h : Bounded n events) {pre between post : List Event} {path : List UInt8}
    (hs : events = pre ++ Event.fopen path none :: between ++ post) (hday : ∀ e ∈ between, e.opensDay = false) :
    ∃ k, numbers between = oneTo k := by
  have hlast := (h _ ⟨post, hs.symm⟩).2
  rw [daySince, rtakeWhile_break rfl fun e he => decide_eq_true (hday e he)] at hlast
  exact hlast

end Segments

section Suffixes

variable {n : ℕ} {events : List Event} {s t : Session} {tm : Tm}

def Numbered.text (name : Numbered) : List UInt8 := name.base ++ [chr '.'] ++ decimalText name.number

def Event.Cut (e : Event) : Prop := ∀ path name, e = .fopen path (some name) → path = snprintf 255 name.text

def Event.Fits (e : Event) : Prop := ∀ name ∈ e.name, name.text.length ≤ 254

lemma dropPrefix_eq_iff (name : Numbered) :
    (snprintf 255 name.text).dropPrefix? (name.base ++ [chr '.']) = some (decimalText name.number) ↔
      name.text.length ≤ 254 := by
  rw [List.dropPrefix?_eq_some_iff]
  constructor
  · rintro ⟨front, heq, hfront⟩
    rw [eq_of_beq hfront] at heq
    have hlen := congrArg List.length heq
    rw [snprintf, List.length_take] at hlen
    change min 254 name.text.length = name.text.length at hlen
    omega
  · intro hle
    exact ⟨_, List.take_of_length_le hle, beq_self_eq_true _⟩

lemma Event.Cut.fits_iff {e : Event} (h : e.Cut) :
    e.Fits ↔ e.suffix = e.name.map fun name => some (decimalText name.number) := by
  rcases e with ⟨path, _ | name⟩ | _
  · exact iff_of_true nofun rfl
  · rw [h path name rfl]
    change (∀ name' ∈ some name, _) ↔ some _ = some _
    rw [Option.some.injEq, dropPrefix_eq_iff]
    simp
  · exact iff_of_true nofun rfl

lemma filterMap_eq_iff {α β : Type*} {f g : α → Option β} (h : ∀ a, (f a).isSome = (g a).isSome) {as : List α} :
    as.filterMap f = as.filterMap g ↔ ∀ a ∈ as, f a = g a := by
  induction as with
  | nil => exact iff_of_true rfl nofun
  | cons a as ih =>
    rw [List.forall_mem_cons, ← ih]
    have ha := h a
    cases hf : f a with
    | none =>
      rw [hf, Option.isSome_none] at ha
      have hg : g a = none := Option.isSome_eq_false_iff.mp ha.symm |> Option.isNone_iff_eq_none.mp
      rw [List.filterMap_cons_none hf, List.filterMap_cons_none hg, hg]
      exact (and_iff_right rfl).symm
    | some b =>
      rw [hf, Option.isSome_some] at ha
      obtain ⟨c, hg⟩ := Option.isSome_iff_exists.mp ha.symm
      rw [List.filterMap_cons_some hf, List.filterMap_cons_some hg, hg, List.cons.injEq, Option.some.injEq]

lemma Event.suffix_isSome (e : Event) : e.suffix.isSome = e.name.isSome := by
  rcases e with ⟨path, _ | name⟩ | _
  · rfl
  · rfl
  · rfl

lemma between_iff {between : List Event} (hcut : ∀ e ∈ between, e.Cut) {k : ℕ} (hk : numbers between = oneTo k) :
    (∃ k, between.filterMap Event.suffix = (oneTo k).map fun number => some (decimalText number)) ↔
      ∀ e ∈ between, e.Fits := by
  let told (e : Event) : Option (Option (List UInt8)) := e.name.map fun name => some (decimalText name.number)
  have htold : between.filterMap told = (oneTo k).map fun number => some (decimalText number) := by
    rw [← hk, numbers, List.map_map, List.map_filterMap]
    rfl
  have hsome (e : Event) : e.suffix.isSome = (told e).isSome := by
    rw [Event.suffix_isSome, Option.isSome_map]
  have hlen : (between.filterMap Event.suffix).length = (between.filterMap told).length := by
    simp only [List.length_filterMap_eq_countP, hsome]
  -- as many suffixes are read off the paths as numbers are given, so that there is no other `k`
  have hall : (∃ k, between.filterMap Event.suffix = (oneTo k).map fun number => some (decimalText number)) ↔
      between.filterMap Event.suffix = between.filterMap told := by
    constructor
    · rintro ⟨k', hk'⟩
      rw [hk', htold] at hlen
      simp only [oneTo, List.length_map, List.length_range] at hlen
      rw [hk', hlen, htold]
    · intro heq
      exact ⟨k, heq.trans htold⟩
  rw [hall, filterMap_eq_iff hsome]
  exact forall₂_congr fun e he => (hcut e he).fits_iff.symm

lemma eq_append_daySince (first : List UInt8) (rest : List Event) :
    ∃ pre path, Event.fopen first none :: rest =
      pre ++ Event.fopen path none :: daySince (Event.fopen first none :: rest) := by
  induction rest using List.reverseRecOn with
  | nil => exact ⟨[], first, by rw [show daySince [Event.fopen first none] = [] from daySince_day [] first]; rfl⟩
  | append_singleton rest e ih =>
    rw [← List.cons_append]
    cases he : e.opensDay with
    | false =>
      obtain ⟨pre, path, heq⟩ := ih
      refine ⟨pre, path, ?_⟩
      rw [daySince_of_not he, ← List.cons_append, ← List.append_assoc, ← heq]
    | true =>
      rcases e with ⟨path, _ | name⟩ | _
      · exact ⟨_, path, by rw [daySince_day]⟩
      · cases he
      · cases he

lemma daySince_not_day : ∀ e ∈ daySince events, e.opensDay = false := by
  intro e he
  exact of_decide_eq_true (List.mem_rtakeWhile_imp (p := fun e : Event => decide (e.opensDay = false)) he)

lemma Event.fits_of_opensDay {e : Event} (h : e.opensDay = true) : e.Fits := by
  rcases e with ⟨path, _ | name⟩ | _
  · exact nofun
  · cases h
  · cases h

lemma suffixesInOrder_iff (hb : Bounded n events) (hcut : ∀ e ∈ events, e.Cut) {first : List UInt8} {rest : List Event}
    (hfirst : events = Event.fopen first none :: rest) : SuffixesInOrder events ↔ ∀ e ∈ events, e.Fits := by
  have hbetween {pre between post : List Event} {path : List UInt8}
      (hs : events = pre ++ Event.fopen path none :: between ++ post) : ∀ e ∈ between, e ∈ events := by
    intro e he
    rw [hs]
    exact List.mem_append_left _ (List.mem_append_right _ (List.mem_cons_of_mem _ he))
  constructor
  · intro h e he
    cases hday : e.opensDay with
    | true => exact Event.fits_of_opensDay hday
    | false =>
      obtain ⟨front, post, hs⟩ := List.append_of_mem he
      -- the file without a suffix that was opened last before `e`
      obtain ⟨rest', hfront⟩ : ∃ rest', front = Event.fopen first none :: rest' := by
        cases front with
        | nil =>
          rw [hfirst] at hs
          cases hs
          cases hday
        | cons e' front =>
          rw [hfirst] at hs
          cases hs
          exact ⟨front, rfl⟩
      obtain ⟨pre, path, heq⟩ := eq_append_daySince first rest'
      rw [← hfront] at heq
      have hcutAt : events = pre ++ Event.fopen path none :: (daySince front ++ [e]) ++ post := by
        rw [hs]
        nth_rewrite 1 [heq]
        simp
      have hnot : ∀ e' ∈ daySince front ++ [e], e'.opensDay = false := by
        intro e' he'
        rcases List.mem_append.mp he' with he' | he'
        · exact daySince_not_day e' he'
        · rw [List.mem_singleton.mp he']
          exact hday
      obtain ⟨k, hk⟩ := hb.between hcutAt hnot
      exact (between_iff (fun e' he' => hcut e' (hbetween hcutAt e' he')) hk).mp (h _ _ _ _ hcutAt hnot) e (by simp)
  · intro h pre path between post hs hday
    obtain ⟨k, hk⟩ := hb.between hs hday
    exact (between_iff (fun e he => hcut e (hbetween hs e he)) hk).mpr fun e he => h e (hbetween hs e he)

structure Session.Told (n : ℕ) (s : Session) : Prop where
  counted : ∃ q r, Counted n s q r
  bounded : Bounded n s.events
  cut : ∀ e ∈ s.events, e.Cut
  first : ∃ path rest, s.events = Event.fopen path none :: rest

lemma Session.Told.segmented_iff (h : s.Told n) : Segmented n s.events ↔ ∀ e ∈ s.events, e.Fits := by
  obtain ⟨path, rest, hfirst⟩ := h.first
  rw [← suffixesInOrder_iff h.bounded h.cut hfirst]
  exact ⟨fun hs => hs.suffixes, fun hs => ⟨h.bounded.lines, hs⟩⟩

lemma Session.Effect.added (he : s.Effect tm t) : ∃ new, t.events = s.events ++ new ∧
    (∀ e ∈ new, e.Cut) ∧ ((∀ e ∈ new, e.Fits) ↔ SuffixFits s tm) := by
  cases he with
  | dayChange hday =>
    refine ⟨_, rfl, ?_, iff_of_true ?_ fun hsame => absurd hsame hday⟩
    · simp [Event.Cut]
    · simp [Event.Fits, Event.name]
  | split hday hdvd =>
    refine ⟨_, rfl, ?_, ?_⟩
    · simp [Event.Cut, splitPath, Numbered.text, rotatedName]
    · simp [Event.Fits, Event.name, SuffixFits, hday, hdvd, Numbered.text]
  | same hday hdvd =>
    refine ⟨_, rfl, ?_, iff_of_true ?_ fun _ hmultiple => absurd hmultiple hdvd⟩
    · simp [Event.Cut]
    · simp [Event.Fits, Event.name]

lemma Session.Told.next (h : s.Told n) (he : s.Effect tm t) : t.Told n := by
  obtain ⟨q, r, hcounted⟩ := h.counted
  obtain ⟨path, rest, hfirst⟩ := h.first
  obtain ⟨q', r', hcounted', hbounded⟩ := counted_step hcounted h.bounded he
  obtain ⟨new, hnew, hcut, -⟩ := he.added
  refine ⟨⟨q', r', hcounted'⟩, hbounded, ?_, path, rest ++ new, ?_⟩
  · rw [hnew]
    exact List.forall_mem_append.mpr ⟨h.cut, hcut⟩
  · rw [hnew, hfirst]
    rfl

lemma told_start {fileName : List UInt8} {l : FileLog} (hinit : init fileName n tm = some l) (hn : 0 < n) :
    (Session.start l tm).Told n ∧ Segmented n (Session.start l tm).events := by
  obtain ⟨hcounted, hbounded⟩ := counted_start hinit hn
  have htold : (Session.start l tm).Told n := by
    refine ⟨⟨0, 0, hcounted⟩, hbounded, ?_, l.path, [], rfl⟩
    simp [Session.start, Event.Cut]
  refine ⟨htold, htold.segmented_iff.mpr ?_⟩
  simp [Session.start, Event.Fits, Event.name]

lemma call_segmented_iff (hs : s.Told n) (hsegmented : Segmented n s.events) (h : s.Call tm t) :
    Segmented n t.events ↔ SuffixFits s tm := by
  obtain ⟨new, hnew, -, hfits⟩ := h.effect.added
  rw [(hs.next h.effect).segmented_iff, hnew, List.forall_mem_append, hfits]
  exact and_iff_right (hs.segmented_iff.mp hsegmented)

lemma exists_told {fileName : List UInt8} {l : FileLog} (hn : 0 < n) (hinit : init fileName n tm = some l)
    (tms : List Tm) : ∃ s, Trace Session.Call (.start l tm) tms s ∧ s.Told n := by
  induction tms using List.reverseRecOn with
  | nil => exact ⟨_, .nil, (told_start hinit hn).1⟩
  | append_singleton tms tm' ih =>
    obtain ⟨s, htrace, htold⟩ := ih
    obtain ⟨q, r, hcounted⟩ := htold.counted
    have hsplit : s.log.splitLines ≠ 0 := by
      rw [hcounted.split]
      omega
    obtain ⟨t, ht⟩ := Session.exists_call hsplit tm'
    exact ⟨t, htrace.snoc ht, htold.next ht.effect⟩

/-- Every sequence of calls, at any times and with `m_split_lines` positive, runs, with at most that many lines
between two calls of `fopen`; and the suffixes of the files are in order just if the array has room for each name. -/
theorem rotation_bounds_iff {fileName : List UInt8} {n : ℕ} {tm : Tm} {l : FileLog} (hn : 0 < n)
    (hinit : init fileName n tm = some l) (tms : List Tm) :
    (∃ s, Trace Session.Call (.start l tm) tms s ∧ LinesBounded n s.events) ∧
      (Along Session.Call (fun _ _ t => Segmented n t.events) (.start l tm) tms ↔
        Along Session.Call (fun s tm _ => SuffixFits s tm) (.start l tm) tms) := by
  obtain ⟨s, htrace, htold⟩ := exists_told hn hinit tms
  obtain ⟨hstart, hsegmented⟩ := told_start hinit hn
  have hkeep : ∀ s tm t, Session.Told n s → s.Call tm t → t.Told n := fun s tm t hs ht => hs.next ht.effect
  refine ⟨⟨s, htrace, htold.bounded.lines⟩, ?_⟩
  rw [← along_iff (I := fun s => Segmented n s.events) (F := fun _ _ t => Segmented n t.events) hstart hsegmented hkeep
    fun s tm t hs hsegmented ht => (and_self_iff).trans (call_segmented_iff hs hsegmented ht)]
  simp only [and_self]

theorem rotation_bounds_two_files : ∃ l, init (ascii "log".toList) 1 morning.tm = some l ∧
    Along Session.Call (fun _ _ t => Segmented 1 t.events) (.start l morning.tm) [morning.tm, morning.tm] := by
  obtain ⟨l, hinit⟩ : ∃ l, init (ascii "log".toList) ((1 : ℕ) : ℤ) morning.tm = some l := ⟨_, rfl⟩
  refine ⟨l, hinit, (rotation_bounds_iff (by decide) hinit [morning.tm, morning.tm]).2.mpr ?_⟩
  cases hinit
  refine along_cons.mpr fun t ht => ⟨fun _ _ => by decide +kernel, along_singleton.mpr fun u hu => ?_⟩
  cases ht
  exact fun _ _ => by decide +kernel

def longDir : List UInt8 := List.replicate 126 (chr 'd') ++ [slash]

def longBase : List UInt8 := List.replicate 127 (chr 'b')

def cutPath : List UInt8 := longDir ++ dateText morning.tm ++ longBase.take 116

def cutLog : FileLog :=
  ⟨longDir, longBase, 1, 0, morning.tm.mday, longDir ++ dateText morning.tm ++ longDir.take 116⟩

def cutSplit (number : ℤ) : List Event :=
  [.fopen cutPath (some ⟨longDir ++ dateText morning.tm ++ longBase, number⟩), .fputs]

theorem suffix_cut_off : ∃ s, init (longDir ++ longBase) 1 morning.tm = some cutLog ∧
    Trace Session.Call (.start cutLog morning.tm) [morning.tm, morning.tm] s ∧
    s.events = [.fopen cutLog.path none] ++ cutSplit 1 ++ cutSplit 2 ∧ ¬ Segmented 1 s.events := by
  have hfirst : writeLog cutLog morning.tm = some ({ cutLog with count := 1, path := cutPath }, cutSplit 1) := by
    decide +kernel
  have hsecond : writeLog { cutLog with count := 1, path := cutPath } morning.tm =
      some ({ cutLog with count := 2, path := cutPath }, cutSplit 2) := by decide +kernel
  refine ⟨_, by decide +kernel, .snoc (.snoc .nil (.of_writeLog hfirst)) (.of_writeLog hsecond), rfl, fun h => ?_⟩
  obtain ⟨k, hk⟩ := h.suffixes [] cutLog.path (cutSplit 1 ++ cutSplit 2) [] rfl (by decide +kernel)
  have hnone : (cutSplit 1 ++ cutSplit 2).filterMap Event.suffix = [none, none] := by decide +kernel
  rw [hnone] at hk
  have hmem : none ∈ (oneTo k).map fun number => some (decimalText number) := hk ▸ List.mem_cons_self
  simp at hmem

end Suffixes

section Days

variable {a b tm : Tm} {l : FileLog} {s t : Session} {fileName : List UInt8} {splitLines : ℤ}

def SameDate (a b : Tm) : Prop := a.year = b.year ∧ a.mon = b.mon ∧ a.mday = b.mday

def FileLog.Carries (l : FileLog) (tm : Tm) : Prop := l.dirName ++ stem tm <+: l.path

/-- A call on another day of the month than the one before, or at a multiple of `m_split_lines`, opens a file; its
name has the date but for what a date of more than 15 characters loses. Any other call is on the date of the one
before. -/
def DateTold (s : Session) (tm : Tm) : Prop :=
  if s.last.mday ≠ tm.mday ∨ s.log.splitLines ∣ s.log.count + 1 then (stem tm).drop 15 <+: s.log.logName
  else SameDate s.last tm

lemma padded_injective {m n : ℕ} (hm : m < 100) (hn : n < 100) (h : padded 2 m = padded 2 n) : m = n := by
  have hvalue : ∀ k < 100, strtol (padded 2 k) = k := by decide +kernel
  have heq := (hvalue m hm).symm.trans ((congrArg strtol h).trans (hvalue n hn))
  omega

lemma yearText_injective (h : yearText a = yearText b) : a.year = b.year := by
  have hvalue : ∀ tm : Tm, strtol (yearText tm) = tm.year + 1900 := by
    intro tm
    have hyear := tm.year_fits
    have hmin : longMin = -2 ^ 63 := rfl
    have hmax : longMax = 2 ^ 63 - 1 := rfl
    exact strtol_decimalText (by omega) (by omega)
  have heq := (hvalue a).symm.trans ((congrArg strtol h).trans (hvalue b))
  omega

lemma sameDate_of_stem (h : stem a <+: stem b) : SameDate a b := by
  obtain ⟨rest, h⟩ := h
  have hyear : ∀ tm, ∀ c ∈ yearText tm, ¬ c = chr '_' := by
    rintro tm c hc rfl
    exact not_mem_decimalText (by decide) (by decide) _ hc
  have hmon : ∀ tm : Tm, (padded 2 (tm.mon + 1)).length = 2 := by
    intro tm
    have hmon := tm.mon_lt
    exact padded_length (by decide) (by omega)
  have hmday : ∀ tm : Tm, (padded 2 tm.mday).length = 2 := by
    intro tm
    have hmday := tm.mday_le
    exact padded_length (by decide) (by omega)
  simp only [stem, List.append_assoc, List.singleton_append] at h
  obtain ⟨hy, -, h⟩ := first_break_unique (hyear a) (hyear b) rfl rfl h
  obtain ⟨hm, h⟩ := List.append_inj h ((hmon a).trans (hmon b).symm)
  have hday : padded 2 a.mday ++ rest = padded 2 b.mday ++ [] := by
    rw [List.append_nil]
    exact (List.cons.inj h).2
  obtain ⟨hd, -⟩ := List.append_inj hday ((hmday a).trans (hmday b).symm)
  have hma := a.mon_lt
  have hmb := b.mon_lt
  have hda := a.mday_le
  have hdb := b.mday_le
  refine ⟨yearText_injective hy, ?_, padded_injective (by omega) (by omega) hd⟩
  exact Nat.succ_injective (padded_injective (by omega) (by omega) hm)

lemma SameDate.stem_eq (h : SameDate a b) : stem a = stem b := by
  simp only [stem, yearText, h.1, h.2.1, h.2.2]

lemma carries_iff (h : l.Carries a) : l.Carries b ↔ SameDate a b := by
  constructor
  · intro hb
    obtain hab | hba := List.prefix_or_prefix_of_prefix h hb
    · exact sameDate_of_stem ((List.prefix_append_right_inj _).mp hab)
    · obtain ⟨hyear, hmon, hmday⟩ := sameDate_of_stem ((List.prefix_append_right_inj _).mp hba)
      exact ⟨hyear.symm, hmon.symm, hmday.symm⟩
  · intro hdate
    rw [FileLog.Carries, ← hdate.stem_eq]
    exact h

lemma dot_not_mem_stem (tm : Tm) : chr '.' ∉ stem tm := by
  have hyear : chr '.' ∉ yearText tm := not_mem_decimalText (by decide) (by decide) _
  have hnumber : ∀ n, chr '.' ∉ padded 2 n := not_mem_padded (by decide) 2
  have hmark : chr '.' ≠ chr '_' := by decide
  simp [stem, hyear, hnumber, hmark]

lemma stem_length_le (tm : Tm) : (stem tm).length ≤ 17 := by
  have hyear := yearText_length_le tm
  rw [stem_length]
  omega

lemma rotated_carries_iff {dir : List UInt8} (hdir : dir.length < 128) (tm : Tm) (rest : List UInt8) :
    dir ++ stem tm <+: snprintf 255 (dir ++ snprintf 16 (dateText tm) ++ rest) ↔ (stem tm).drop 15 <+: rest := by
  have hlen := stem_length_le tm
  have hfit : (dir ++ stem tm).length ≤ 254 := by
    rw [List.length_append]
    omega
  simp only [snprintf]
  rw [List.prefix_take_iff, and_iff_left hfit, List.append_assoc, List.prefix_append_right_inj, dateText]
  obtain hshort | hlong := le_or_gt (stem tm).length 15
  · rw [List.drop_of_length_le hshort]
    refine iff_of_true ?_ List.nil_prefix
    apply List.IsPrefix.trans _ (List.prefix_append _ _)
    exact List.prefix_take_iff.mpr ⟨List.prefix_append _ _, hshort⟩
  · rw [List.take_append_of_le_length hlong.le]
    nth_rewrite 1 [← List.take_append_drop 15 (stem tm)]
    rw [List.prefix_append_right_inj]

lemma numbered_iff {d : List UInt8} (hd : chr '.' ∉ d) (name number : List UInt8) :
    d <+: name ++ [chr '.'] ++ number ↔ d <+: name := by
  constructor
  · intro h
    rw [List.append_assoc] at h
    obtain hname | hdot := List.prefix_or_prefix_of_prefix h
      ((List.prefix_append_right_inj name).mpr (List.prefix_append [chr '.'] number))
    · obtain hlast | hname := List.prefix_concat_iff.mp hname
      · exact absurd (hlast ▸ List.mem_append_right name (List.mem_singleton_self _)) hd
      · exact hname
    · exact absurd (hdot.subset (List.mem_append_right name (List.mem_singleton_self _))) hd
  · intro h
    rw [List.append_assoc]
    exact h.trans (List.prefix_append _ _)

def Session.Kept (s : Session) : Prop := s.log.dirName.length < 128 ∧ s.log.today = s.last.mday

lemma Session.Kept.next (h : s.Kept) (he : s.Effect tm t) : t.Kept := by
  obtain ⟨hlast, htoday, hdir, -⟩ := he.kept
  refine ⟨?_, ?_⟩
  · rw [hdir]
    exact h.1
  · rw [hlast]
    exact htoday

lemma carries_step (h : s.Kept) (hlast : s.log.Carries s.last) (he : s.Effect tm t) :
    t.log.Carries tm ↔ DateTold s tm := by
  obtain ⟨hdir, htoday⟩ := h
  rw [DateTold]
  cases he with
  | dayChange hday =>
    rw [if_pos (.inl fun hsame => hday (htoday.trans (congrArg _ hsame)))]
    exact rotated_carries_iff hdir tm s.log.logName
  | split hday hdvd =>
    have hdot : chr '.' ∉ (stem tm).drop 15 := fun hmem => dot_not_mem_stem tm (List.mem_of_mem_drop hmem)
    rw [if_pos (.inr hdvd),
      ← numbered_iff hdot s.log.logName (decimalText ((s.log.count + 1).tdiv s.log.splitLines)),
      ← rotated_carries_iff hdir, FileLog.Carries, splitPath]
    simp only [List.append_assoc]
  | same hday hdvd =>
    have hsame : s.last.mday = tm.mday := by
      have := htoday.symm.trans hday
      omega
    rw [if_neg (not_or.mpr ⟨not_not.mpr hsame, hdvd⟩)]
    exact carries_iff hlast

lemma init_carries (h : init fileName splitLines tm = some l) :
    (Session.start l tm).Kept ∧ l.Carries tm := by
  have hlen := stem_length_le tm
  have hopened : ∀ dir rest : List UInt8, dir.length < 128 →
      dir ++ stem tm <+: snprintf 255 (dir ++ dateText tm ++ rest) := by
    intro dir rest hdir
    refine List.prefix_take_iff.mpr ⟨?_, by rw [List.length_append]; omega⟩
    rw [dateText, ← List.append_assoc, List.append_assoc]
    exact List.prefix_append _ _
  rw [init] at h
  split_ifs at h with hslash hfit
  · cases h
    exact ⟨⟨hfit.2, rfl⟩, hopened _ _ hfit.2⟩
  · cases h
    exact ⟨⟨Nat.zero_lt_succ _, rfl⟩, hopened [] fileName (by decide)⟩

lemma call_carries_iff (hs : s.Kept) (hlast : s.log.Carries s.last) (h : s.Call tm t) :
    t.log.Carries t.last ∧ t.log.Carries tm ↔ DateTold s tm := by
  rw [h.effect.kept.1, and_self]
  exact carries_step hs hlast h.effect

/-- For every sequence of calls after `init`, at any times: each line goes to a file whose name carries its date,
just if each call is on the date of the one before it, or opens a file whose name has room for the date. -/
theorem line_in_file_of_its_day_iff (hinit : init fileName splitLines tm = some l) (tms : List Tm) :
    Along Session.Call (fun _ tm t => t.log.Carries tm) (.start l tm) tms ↔
      Along Session.Call (fun s tm _ => DateTold s tm) (.start l tm) tms := by
  obtain ⟨hkept, hcarries⟩ := init_carries hinit
  have hkeep : ∀ s tm t, Session.Kept s → s.Call tm t → t.Kept := fun s tm t hs ht => hs.next ht.effect
  rw [← along_iff (I := fun s => s.log.Carries s.last) hkept hcarries hkeep
    fun s tm t hs hlast ht => call_carries_iff hs hlast ht]
  constructor
  · intro h
    refine h.imp fun s tm t ht hline => ⟨?_, hline⟩
    rw [ht.effect.kept.1]
    exact hline
  · intro h
    exact h.imp fun s tm t _ hline => hline.2

def nextDay : Tm := { morning.tm with mday := 27, mday_pos := by decide, mday_le := by decide }

def nextMonth : Tm := { morning.tm with mon := 11, mon_lt := by decide }

theorem line_in_file_of_next_day : ∃ l, init (ascii "serverlog".toList) 800000 morning.tm = some l ∧
    Along Session.Call (fun _ tm t => t.log.Carries tm) (.start l morning.tm) [nextDay] := by
  obtain ⟨l, hinit⟩ : ∃ l, init (ascii "serverlog".toList) 800000 morning.tm = some l := ⟨_, rfl⟩
  refine ⟨l, hinit, (line_in_file_of_its_day_iff hinit [nextDay]).mpr ?_⟩
  rw [along_singleton]
  intro t _
  have hday : morning.tm.mday ≠ nextDay.mday := by decide
  rw [DateTold, if_pos (.inl hday)]
  exact List.nil_prefix

theorem line_in_file_of_last_month : ∃ l t, init (ascii "serverlog".toList) 800000 morning.tm = some l ∧
    (Session.start l morning.tm).Call nextMonth t ∧ t.log.path = ascii "2023_11_26_serverlog".toList ∧
    ¬ Along Session.Call (fun _ tm t => t.log.Carries tm) (.start l morning.tm) [nextMonth] := by
  refine ⟨_, _, rfl, rfl, by decide +kernel, fun h => ?_⟩
  have hcarries : _ ++ stem nextMonth <+: _ := along_singleton.mp h _ rfl
  exact absurd hcarries (by decide +kernel)

end Days

end OceanServer.Log
