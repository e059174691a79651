import OceanServer.Http.Parser

/-! What one call of `parse_line` does: it passes over bytes that are neither CR nor LF and stops at
the first one that is, and bytes that arrive later do not change what it did. -/

namespace OceanServer.Http

open Library Library.CString

lemma receive_nil (c : ReadState) : c.receive [] = c := by
  have hm : c.readBuf.write c.readIdx [] = c.readBuf :=
    funext fun j => write_outside _ _ _ (by simp only [List.length_nil]; omega)
  simp [ReadState.receive, hm]

lemma receive_append (c : ReadState) (xs ys : List UInt8) :
    c.receive (xs ++ ys) = (c.receive xs).receive ys := by
  simp [ReadState.receive, write_append, Nat.add_assoc]

lemma receive_before (c : ReadState) (ys : List UInt8) {i : ℕ} (h : i < c.readIdx) :
    (c.receive ys).readBuf i = c.readBuf i := write_outside _ _ _ (.inl h)

def Plain (m : Memory) (lo hi : ℕ) : Prop := ∀ i, lo ≤ i → i < hi → m i ≠ cr ∧ m i ≠ lf

lemma Plain.congr {m m' : Memory} {lo hi : ℕ} (h : Plain m lo hi)
    (hm : ∀ i, lo ≤ i → i < hi → m' i = m i) : Plain m' lo hi := by
  intro i hl hh
  rw [hm i hl hh]
  exact h i hl hh

lemma exists_break (m : Memory) {lo hi : ℕ} (h : lo ≤ hi) :
    ∃ k, lo ≤ k ∧ k ≤ hi ∧ Plain m lo k ∧ (k < hi → m k = cr ∨ m k = lf) := by
  induction hi, h using Nat.le_induction with
  | base => exact ⟨lo, le_rfl, le_rfl, fun i hl hh => absurd hl (by omega), fun hh => absurd hh (by omega)⟩
  | succ hi hle ih =>
    obtain ⟨k, hlk, hkh, hp, hb⟩ := ih
    by_cases hlt : k < hi
    · exact ⟨k, hlk, by omega, hp, fun _ => hb hlt⟩
    · obtain rfl : k = hi := by omega
      by_cases hc : m k = cr ∨ m k = lf
      · exact ⟨k, hlk, by omega, hp, fun _ => hc⟩
      · refine ⟨k + 1, by omega, le_rfl, ?_, fun hh => absurd hh (by omega)⟩
        intro i hl hh
        by_cases hi : i = k
        · subst hi
          exact not_or.mp hc
        · exact hp i hl (by omega)

def ReadState.seek (c : ReadState) (k : ℕ) : ReadState := { c with checkedIdx := k }

def endLine (c : ReadState) (k : ℕ) : ReadState :=
  { c with readBuf := (c.readBuf.set k 0).set (k + 1) 0, checkedIdx := k + 2 }

def endLineAtLf (c : ReadState) (k : ℕ) : ReadState :=
  { c with readBuf := (c.readBuf.set (k - 1) 0).set k 0, checkedIdx := k + 1 }

lemma parseLine_end (c : ReadState) : parseLine (c.seek c.readIdx) = (.open, c.seek c.readIdx) := by
  simp [parseLine, parseLineLoop, ReadState.seek]

lemma parseLine_unfold {c : ReadState} {k : ℕ} (h : k < c.readIdx) :
    parseLine (c.seek k) =
      if c.readBuf k = cr then
        if k + 1 = c.readIdx then (.open, c.seek k)
        else if c.readBuf (k + 1) = lf then (.ok, endLine c k)
        else (.bad, c.seek k)
      else if c.readBuf k = lf then
        if 1 < k ∧ c.readBuf (k - 1) = cr then (.ok, endLineAtLf c k) else (.bad, c.seek k)
      else parseLine (c.seek (k + 1)) := by
  obtain ⟨n, hn⟩ : ∃ n, c.readIdx - k = n + 1 := ⟨_, (Nat.succ_pred (by omega)).symm⟩
  have hm : c.readIdx - (k + 1) = n := by omega
  simp only [parseLine, ReadState.seek, hn, hm, parseLineLoop]
  rfl

lemma parseLine_skip {c : ReadState} {k : ℕ} (hk : c.checkedIdx ≤ k) (hr : k ≤ c.readIdx)
    (hp : Plain c.readBuf c.checkedIdx k) : parseLine c = parseLine (c.seek k) := by
  induction k, hk using Nat.le_induction with
  | base => rfl
  | succ k hle ih =>
    have hk := hp k hle (by omega)
    rw [ih (by omega) (fun i hl hh => hp i hl (by omega)), parseLine_unfold hr,
      if_neg hk.1, if_neg hk.2]

/-- The state between two calls of `parse_line`: the current line is read up to `m_checked_idx`, and
no CR stands right before it. -/
structure Scanning (c : ReadState) : Prop where
  start : c.startLine ≤ c.checkedIdx
  checked : c.checkedIdx ≤ c.readIdx
  plain : Plain c.readBuf c.startLine c.checkedIdx
  before : c.startLine = 0 ∨ c.readBuf (c.startLine - 1) ≠ cr

structure Resumable (c : ReadState) : Prop where
  checked : c.checkedIdx ≤ c.readIdx
  before : c.checkedIdx = 0 ∨ c.readBuf (c.checkedIdx - 1) ≠ cr

lemma Scanning.resumable {c : ReadState} (h : Scanning c) : Resumable c := by
  refine ⟨h.checked, or_iff_not_imp_left.mpr fun h0 => ?_⟩
  have hs := h.start
  by_cases hsl : c.startLine = c.checkedIdx
  · rw [← hsl] at h0 ⊢
    exact h.before.resolve_left h0
  · exact (h.plain (c.checkedIdx - 1) (by omega) (by omega)).1

lemma Resumable.no_cr_before {c : ReadState} (h : Resumable c) {k : ℕ} (hk : c.checkedIdx ≤ k)
    (hp : Plain c.readBuf c.checkedIdx k) (h0 : 0 < k) : c.readBuf (k - 1) ≠ cr := by
  by_cases hl : c.checkedIdx ≤ k - 1
  · exact (hp (k - 1) hl (by omega)).1
  · obtain he : c.checkedIdx = k := by omega
    rw [← he] at h0 ⊢
    exact h.before.resolve_left h0.ne'

inductive Scan (c : ReadState) : LineStatus × ReadState → Prop
  | line {k} : c.checkedIdx ≤ k → k + 1 < c.readIdx → Plain c.readBuf c.checkedIdx k →
      c.readBuf k = cr → c.readBuf (k + 1) = lf → Scan c (.ok, endLine c k)
  | wait {k} : c.checkedIdx ≤ k → Plain c.readBuf c.checkedIdx k →
      k = c.readIdx ∨ (k + 1 = c.readIdx ∧ c.readBuf k = cr) → Scan c (.open, c.seek k)
  | stray {k} : c.checkedIdx ≤ k → k < c.readIdx → Plain c.readBuf c.checkedIdx k →
      (c.readBuf k = cr ∧ k + 1 < c.readIdx ∧ c.readBuf (k + 1) ≠ lf) ∨ c.readBuf k = lf →
      Scan c (.bad, c.seek k)

lemma Resumable.scan {c : ReadState} (h : Resumable c) : Scan c (parseLine c) := by
  obtain ⟨k, hl, hh, hp, hb⟩ := exists_break c.readBuf h.checked
  rw [parseLine_skip hl hh hp]
  by_cases hk : k = c.readIdx
  · rw [hk, parseLine_end]
    exact .wait h.checked (hk ▸ hp) (.inl rfl)
  · have hlt : k < c.readIdx := by omega
    rw [parseLine_unfold hlt]
    rcases hb hlt with hcr | hlf
    · rw [if_pos hcr]
      split_ifs with he hn
      · exact .wait hl hp (.inr ⟨he, hcr⟩)
      · exact .line hl (by omega) hp hcr hn
      · exact .stray hl hlt hp (.inl ⟨hcr, by omega, hn⟩)
    · have hne : c.readBuf k ≠ cr := by rw [hlf]; decide
      have hbad : ¬ (1 < k ∧ c.readBuf (k - 1) = cr) := by
        rintro ⟨h1, hc⟩
        exact h.no_cr_before hl hp (by omega) hc
      rw [if_neg hne, if_pos hlf, if_neg hbad]
      exact .stray hl hlt hp (.inr hlf)

lemma parseLine_scan {c : ReadState} (h : Scanning c) : Scan c (parseLine c) := h.resumable.scan

lemma parseLine_receive {c d : ReadState} (h : Scanning c) (hp : parseLine c = (.ok, d))
    (ys : List UInt8) : parseLine (c.receive ys) = (.ok, d.receive ys) := by
  have hs := parseLine_scan h
  rw [hp] at hs
  cases hs with
  | @line k hl hk hpl hcr hlf =>
    have hplain : Plain (c.receive ys).readBuf (c.receive ys).checkedIdx k :=
      hpl.congr fun i _ hi => receive_before c ys (by omega)
    have hr : (c.receive ys).readIdx = c.readIdx + ys.length := rfl
    have hk' : (c.receive ys).readBuf k = cr := (receive_before c ys (by omega)).trans hcr
    have hk1 : (c.receive ys).readBuf (k + 1) = lf := (receive_before c ys hk).trans hlf
    rw [parseLine_skip (c := c.receive ys) hl (by omega) hplain, parseLine_unfold (by omega),
      if_pos hk', if_neg (by omega), if_pos hk1]
    simp only [endLine, ReadState.receive]
    rw [set_write _ _ _ (show k < c.readIdx by omega), set_write _ _ _ hk]

lemma parseLine_pending {c d : ReadState} {status : LineStatus} (h : Scanning c)
    (hp : parseLine c = (status, d)) (hs : status ≠ .ok) :
    ∃ k, c.checkedIdx ≤ k ∧ k ≤ c.readIdx ∧ Plain c.readBuf c.checkedIdx k ∧
      d = c.seek k := by
  have hsc := parseLine_scan h
  rw [hp] at hsc
  cases hsc with
  | line => exact absurd rfl hs
  | @wait k hl hpl hk => exact ⟨k, hl, by omega, hpl, rfl⟩
  | @stray k hl hk hpl _ => exact ⟨k, hl, hk.le, hpl, rfl⟩

lemma parseLine_resume {c d : ReadState} {status : LineStatus} (h : Scanning c)
    (hp : parseLine c = (status, d)) (hs : status ≠ .ok) (ys : List UInt8) :
    parseLine (c.receive ys) = parseLine (d.receive ys) := by
  obtain ⟨k, hl, hk, hpl, rfl⟩ := parseLine_pending h hp hs
  exact parseLine_skip hl (Nat.le_add_right_of_le hk)
    (hpl.congr fun i _ hi => receive_before c ys (by omega))

end OceanServer.Http
