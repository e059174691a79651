import Mathlib.Tactic

/-! String literals of MySQL: a machine that cuts a statement into its literals and the bytes between them, the
bodies of literals with the values they stand for, and the bodies that stand for themselves. -/

namespace OceanServer.Library.SqlLiteral

def quote : UInt8 := 39
def backslash : UInt8 := 92

def unescape (b : UInt8) : List UInt8 :=
  -- The value of a backslash and the byte behind it. Before `%` and `_` the backslash stays.
  if b = 48 then [0] else if b = 98 then [8] else if b = 110 then [10] else if b = 114 then [13]
  else if b = 116 then [9] else if b = 90 then [26] else if b = 37 ∨ b = 95 then [backslash, b] else [b]

inductive Token where
  | symbol (b : UInt8)
  | literal (value : List UInt8)
  deriving DecidableEq, Repr

/-- Outside of literals, in one, behind a quote in one, which ends it unless another quote follows, and behind a
backslash in one. -/
inductive State where
  | outside
  | inside (value : List UInt8)
  | quoted (value : List UInt8)
  | escaped (value : List UInt8)

def outsideStep (b : UInt8) : List Token × State := if b = quote then ([], .inside []) else ([.symbol b], .outside)

def step : State → UInt8 → List Token × State
  | .outside, b => outsideStep b
  | .inside v, b =>
    if b = quote then ([], .quoted v) else if b = backslash then ([], .escaped v) else ([], .inside (v ++ [b]))
  | .quoted v, b => if b = quote then ([], .inside (v ++ [quote])) else (.literal v :: (outsideStep b).1, (outsideStep b).2)
  | .escaped v, b => ([], .inside (v ++ unescape b))

def finish : State → Option (List Token)
  | .outside => some []
  | .quoted v => some [.literal v]
  | .inside _ | .escaped _ => none

def tokens : State → List UInt8 → Option (List Token)
  | s, [] => finish s
  | s, b :: bs => (tokens (step s b).2 bs).map ((step s b).1 ++ ·)

inductive Reads : List UInt8 → List UInt8 → Prop
  | nil : Reads [] []
  | byte {b s v} : b ≠ quote → b ≠ backslash → Reads s v → Reads (b :: s) (b :: v)
  | doubled {s v} : Reads s v → Reads (quote :: quote :: s) (quote :: v)
  | escape {s v} (b : UInt8) : Reads s v → Reads (backslash :: b :: s) (unescape b ++ v)

def Verbatim : List UInt8 → Prop
  | [] => True
  | b :: s => b ≠ quote ∧ (b = backslash → s.head? = some 37 ∨ s.head? = some 95) ∧ Verbatim s

section Bodies

lemma unescape_cases (b : UInt8) :
    (unescape b = [backslash, b] ∧ (b = 37 ∨ b = 95)) ∨ ∃ x, unescape b = [x] := by
  have hone : ∀ x : UInt8, ([x] = [backslash, b] ∧ (b = 37 ∨ b = 95)) ∨ ∃ y, [x] = [y] := fun x => .inr ⟨x, rfl⟩
  rw [unescape]
  iterate 6
    apply iteInduction (motive := fun l => (l = [backslash, b] ∧ (b = 37 ∨ b = 95)) ∨ ∃ x, l = [x]) fun _ => hone _
    intro _
  apply iteInduction (motive := fun l => (l = [backslash, b] ∧ (b = 37 ∨ b = 95)) ∨ ∃ x, l = [x])
  · exact fun h => .inl ⟨rfl, h⟩
  · exact fun _ => hone b

lemma unescape_length (b : UInt8) : (unescape b).length ≤ 2 := by
  rcases unescape_cases b with ⟨h, -⟩ | ⟨x, h⟩
  · rw [h]
    exact le_rfl
  · rw [h]
    exact Nat.le_succ 1

lemma unescape_keeps {b : UInt8} (h : (unescape b).length = 2) : unescape b = [backslash, b] ∧ (b = 37 ∨ b = 95) := by
  rcases unescape_cases b with hb | ⟨x, hx⟩
  · exact hb
  · rw [hx] at h
    cases h

lemma Reads.length_le {s v : List UInt8} (h : Reads s v) : v.length ≤ s.length := by
  induction h with
  | nil => exact le_rfl
  | byte _ _ _ ih => exact Nat.succ_le_succ ih
  | doubled _ ih =>
    simp only [List.length_cons]
    omega
  | escape b _ ih =>
    have hb := unescape_length b
    simp only [List.length_append, List.length_cons]
    omega

lemma Reads.verbatim {s v : List UInt8} (h : Reads s v) (hlen : s.length ≤ v.length) : Verbatim s := by
  induction h with
  | nil => trivial
  | byte hq hb _ ih => exact ⟨hq, fun he => absurd he hb, ih (Nat.le_of_succ_le_succ hlen)⟩
  | doubled hr _ =>
    have hle := hr.length_le
    simp only [List.length_cons] at hlen
    omega
  | escape b hr ih =>
    have hle := hr.length_le
    have hb := unescape_length b
    simp only [List.length_append, List.length_cons] at hlen
    obtain ⟨-, hkept⟩ := unescape_keeps (b := b) (by omega)
    have hplain : b ≠ quote ∧ b ≠ backslash := by rcases hkept with rfl | rfl <;> decide
    refine ⟨by decide, fun _ => ?_, hplain.1, fun he => absurd he hplain.2, ih (by omega)⟩
    rcases hkept with rfl | rfl
    · exact .inl rfl
    · exact .inr rfl

lemma Verbatim.reads : ∀ {s : List UInt8}, Verbatim s → Reads s s
  | [], _ => .nil
  | [b], h => by
    have hb : b ≠ backslash := fun he => by
      rcases h.2.1 he with hn | hn <;> cases hn
    exact .byte h.1 hb .nil
  | b :: c :: s, h => by
    by_cases hb : b = backslash
    · subst hb
      have hc : c = 37 ∨ c = 95 := (h.2.1 rfl).imp (fun hn => Option.some.inj hn) fun hn => Option.some.inj hn
      have hun : unescape c = [backslash, c] := by rcases hc with rfl | rfl <;> rfl
      have hr := Reads.escape c (Verbatim.reads (s := s) h.2.2.2.2)
      rw [hun] at hr
      exact hr
    · exact .byte h.1 hb (Verbatim.reads h.2.2)

end Bodies

section Tokens

variable {xs rest v w : List UInt8} {ts : List Token}

lemma tokens_symbol {b : UInt8} (hb : b ≠ quote) :
    tokens .outside (b :: xs) = (tokens .outside xs).map (.symbol b :: ·) := by
  simp only [tokens, step, outsideStep, if_neg hb, List.singleton_append]

lemma tokens_open : tokens .outside (quote :: xs) = tokens (.inside []) xs := by
  simp [tokens, step, outsideStep]

lemma tokens_symbols {bs : List UInt8} (hb : quote ∉ bs) :
    tokens .outside (bs ++ xs) = (tokens .outside xs).map (bs.map .symbol ++ ·) := by
  induction bs with
  | nil => simp
  | cons b bs ih =>
    have hne : b ≠ quote := fun he => hb (he ▸ List.mem_cons_self)
    rw [List.cons_append, tokens_symbol hne, ih (List.not_mem_of_not_mem_cons hb), Option.map_map]
    rfl

lemma tokens_byte {b : UInt8} (hq : b ≠ quote) (hb : b ≠ backslash) :
    tokens (.inside v) (b :: xs) = tokens (.inside (v ++ [b])) xs := by
  simp [tokens, step, if_neg hq, if_neg hb]

lemma tokens_doubled : tokens (.inside v) (quote :: quote :: xs) = tokens (.inside (v ++ [quote])) xs := by
  simp [tokens, step]

lemma tokens_escape (b : UInt8) :
    tokens (.inside v) (backslash :: b :: xs) = tokens (.inside (v ++ unescape b)) xs := by
  simp [tokens, step, show backslash ≠ quote by decide]

lemma tokens_close (h : xs.head? ≠ some quote) :
    tokens (.inside v) (quote :: xs) = (tokens .outside xs).map (.literal v :: ·) := by
  cases xs with
  | nil => simp [tokens, step, finish]
  | cons b xs =>
    have hb : b ≠ quote := fun he => h (congrArg some he)
    simp [tokens, step, if_neg hb, Option.map_map, Function.comp_def]

lemma tokens_reads {s : List UInt8} (hs : Reads s v) (hrest : rest.head? ≠ some quote) (w : List UInt8) :
    tokens (.inside w) (s ++ quote :: rest) = (tokens .outside rest).map (.literal (w ++ v) :: ·) := by
  induction hs generalizing w with
  | nil => rw [List.nil_append, List.append_nil, tokens_close hrest]
  | byte hq hb _ ih => rw [List.cons_append, tokens_byte hq hb, ih, List.append_assoc, List.singleton_append]
  | doubled _ ih => rw [List.cons_append, List.cons_append, tokens_doubled, ih, List.append_assoc, List.singleton_append]
  | escape b _ ih => rw [List.cons_append, List.cons_append, tokens_escape, ih, List.append_assoc]

lemma tokens_inside (h : tokens (.inside w) xs = some ts) :
    ∃ s v rest ts', xs = s ++ quote :: rest ∧ Reads s v ∧ ts = .literal (w ++ v) :: ts' ∧
      tokens .outside rest = some ts' := by
  induction hn : xs.length using Nat.strong_induction_on generalizing xs w with
  | _ n ih =>
  cases xs with
  | nil => cases h
  | cons b xs =>
    by_cases hq : b = quote
    · subst hq
      by_cases hd : xs.head? = some quote
      · obtain ⟨xs, rfl⟩ : ∃ ys, xs = quote :: ys := List.head?_eq_some_iff.mp hd
        rw [tokens_doubled] at h
        obtain ⟨s, v, rest, ts', rfl, hr, rfl, hts⟩ := ih xs.length (by simp only [List.length_cons] at hn; omega) h rfl
        exact ⟨quote :: quote :: s, quote :: v, rest, ts', rfl, .doubled hr, by rw [List.append_assoc, List.singleton_append], hts⟩
      · rw [tokens_close hd] at h
        obtain ⟨ts', hts, rfl⟩ := Option.map_eq_some_iff.mp h
        exact ⟨[], [], xs, ts', rfl, .nil, by rw [List.append_nil], hts⟩
    · by_cases hb : b = backslash
      · subst hb
        cases xs with
        | nil => cases h
        | cons c xs =>
          rw [tokens_escape] at h
          obtain ⟨s, v, rest, ts', rfl, hr, rfl, hts⟩ := ih xs.length (by simp only [List.length_cons] at hn; omega) h rfl
          exact ⟨backslash :: c :: s, unescape c ++ v, rest, ts', rfl, .escape c hr, by rw [List.append_assoc], hts⟩
      · rw [tokens_byte hq hb] at h
        obtain ⟨s, v, rest, ts', rfl, hr, rfl, hts⟩ := ih xs.length (by simp only [List.length_cons] at hn; omega) h rfl
        exact ⟨b :: s, b :: v, rest, ts', rfl, .byte hq hb hr, by rw [List.append_assoc, List.singleton_append], hts⟩

def Token.size : Token → ℕ
  | .symbol _ => 1
  | .literal v => v.length + 2

lemma size_le_length (h : tokens .outside xs = some ts) : (ts.map Token.size).sum ≤ xs.length := by
  induction hn : xs.length using Nat.strong_induction_on generalizing xs ts with
  | _ n ih =>
  cases xs with
  | nil =>
    cases h
    exact Nat.zero_le _
  | cons b xs =>
    rw [List.length_cons] at hn
    by_cases hq : b = quote
    · subst hq
      rw [tokens_open] at h
      obtain ⟨s, v, rest, ts', rfl, hr, rfl, hts⟩ := tokens_inside h
      have hle := hr.length_le
      rw [List.length_append, List.length_cons] at hn
      have hrest := ih rest.length (by omega) hts rfl
      simp only [List.nil_append, List.map_cons, List.sum_cons, Token.size]
      omega
    · rw [tokens_symbol hq] at h
      obtain ⟨ts', hts, rfl⟩ := Option.map_eq_some_iff.mp h
      have hrest := ih xs.length (by omega) hts rfl
      simp only [List.map_cons, List.sum_cons, Token.size]
      omega

lemma first_literal_unique {us us' : List UInt8} {ts' : List Token}
    (h : us.map Token.symbol ++ .literal v :: ts = us'.map Token.symbol ++ .literal w :: ts') :
    us = us' ∧ v = w ∧ ts = ts' := by
  induction us generalizing us' with
  | nil =>
    cases us' with
    | nil =>
      obtain ⟨hv, hts⟩ := List.cons.inj h
      exact ⟨rfl, Token.literal.inj hv, hts⟩
    | cons b us' => cases (List.cons.inj h).1
  | cons b us ih =>
    cases us' with
    | nil => cases (List.cons.inj h).1
    | cons c us' =>
      obtain ⟨hb, hrest⟩ := List.cons.inj h
      obtain ⟨rfl, hv, hts⟩ := ih hrest
      exact ⟨by rw [Token.symbol.inj hb], hv, hts⟩

end Tokens

end OceanServer.Library.SqlLiteral
