import OceanServer.Http.Parser

/-! The header block: what `parse_headers` makes of the lines of a request, one after the other, and what the lines
mean. -/

namespace OceanServer.Http

open Library Library.CString

@[ext] structure Fields where
  linger : Bool
  contentLength : ℤ
  host : Option (List UInt8)
  deriving DecidableEq

def ReadState.fields (c : ReadState) : Fields :=
  ⟨c.linger, c.contentLength, c.host.map (str readBufferSize c.readBuf)⟩

def headerBlock (lines : List (List UInt8)) : List UInt8 := lines.flatMap (· ++ [0, 0])

/-- A connection after `init`, with the lines and the empty line that ends them at offset `base`. -/
def ReadState.loaded (c : ReadState) (base : ℕ) (lines : List (List UInt8)) : ReadState :=
  { c.init with readBuf := c.readBuf.write base (headerBlock (lines ++ [[]])) }

def feedHeaders (c : ReadState) : ℕ → List (List UInt8) → ReadState
  | _, [] => c
  | p, line :: lines => feedHeaders (parseHeaders c p).2 (p + line.length + 2) lines

def readHeaders (c : ReadState) (base : ℕ) (lines : List (List UInt8)) : Fields :=
  (feedHeaders (c.loaded base lines) base (lines ++ [[]])).fields

section Meaning

def hostColon : List UInt8 := ascii ['H', 'o', 's', 't', ':']

def names (key line : List UInt8) : Bool := (line.take key.length).map toLower == key.map toLower

def valueOf (key line : List UInt8) : List UInt8 := (line.drop key.length).dropWhile (blanks.contains ·)

def keepsAlive (line : List UInt8) : Bool :=
  names connectionKey line && (valueOf connectionKey line).map toLower == keepAlive.map toLower

def lastValue (key : List UInt8) (lines : List (List UInt8)) : Option (List UInt8) :=
  (lines.filter (names key)).getLast?.map (valueOf key)

def headerName (line : List UInt8) : List UInt8 := (line.map toLower).takeWhile (· ≠ chr ':')

/-- The lines of each name come in the same order: lines of different names were permuted. -/
def SameOrder (lines lines' : List (List UInt8)) : Prop :=
  ∀ name, (lines'.filter fun line => headerName line = name) = lines.filter fun line => headerName line = name

structure HeaderMeaning (c : ReadState) (base : ℕ) (lines : List (List UInt8)) : Prop where
  linger : (readHeaders c base lines).linger = true ↔ ∃ line ∈ lines, keepsAlive line = true
  length : (readHeaders c base lines).contentLength = ((lastValue contentLengthKey lines).map strtol).getD 0
  host : (readHeaders c base lines).host = lastValue hostColon lines
  order : ∀ lines', SameOrder lines lines' → readHeaders c base lines' = readHeaders c base lines

def bareHost (line : List UInt8) : Bool := line.map toLower == hostKey.map toLower

end Meaning

def Fields.take (f : Fields) (line : List UInt8) : Fields :=
  if names connectionKey line then
    if (valueOf connectionKey line).map toLower == keepAlive.map toLower then { f with linger := true } else f
  else if names contentLengthKey line then { f with contentLength := strtol (valueOf contentLengthKey line) }
  else if bareHost line then { f with host := some [] }
  else f

section Lines

variable {c : ReadState} {m : Memory} {p : ℕ} {line key : List UInt8}

structure LineAt (m : Memory) (p : ℕ) (line : List UInt8) : Prop where
  text : str readBufferSize m p = line
  nul : m (p + line.length) = 0
  nul' : m (p + line.length + 1) = 0

lemma strncasecmp_names {n : ℕ} (h : LineAt m p line) (hn : key.length = n) :
    strncasecmp readBufferSize m p key n = names key line := by
  rw [← hn, strncasecmp, h.text, List.take_length, names]

lemma names_length (h : names key line = true) : key.length ≤ line.length := by
  have hlen := congrArg List.length (eq_of_beq h)
  simp only [List.length_map, List.length_take] at hlen
  omega

lemma str_value {n : ℕ} (h : LineAt m p line) (hn : key.length = n) (hkey : names key line = true) :
    str readBufferSize m (skipBlanks m (p + n)) = valueOf key line := by
  subst hn
  have hle : key.length ≤ (str readBufferSize m p).length := by
    rw [h.text]
    exact names_length hkey
  rw [skipBlanks, str_skip, str_drop hle, h.text, valueOf]

-- The comparison of five bytes with a word of four takes in the NUL that ends the word.
lemma strncasecmp_host (h : LineAt m p line) : strncasecmp readBufferSize m p hostKey 5 = bareHost line := by
  rw [strncasecmp, h.text, bareHost, Bool.eq_iff_iff, beq_iff_eq, beq_iff_eq, show hostKey.take 5 = hostKey from rfl]
  have hlen : hostKey.length = 4 := rfl
  constructor <;> intro he
  all_goals
    have hl := congrArg List.length he
    simp only [List.length_map, List.length_take, hlen] at hl
    have htake : line.take 5 = line := List.take_of_length_le (by omega)
  · rwa [htake] at he
  · rwa [htake]

lemma bareHost_length (h : bareHost line = true) : line.length = 4 := by
  have hl := congrArg List.length (eq_of_beq h)
  rw [List.length_map, List.length_map] at hl
  exact hl

lemma str_bareHost (h : LineAt m p line) (hb : bareHost line = true) :
    str readBufferSize m (skipBlanks m (p + 5)) = [] := by
  have hnul := h.nul'
  rw [bareHost_length hb] at hnul
  rw [skipBlanks, str_skip, str_eq_nil _ hnul]
  rfl

lemma take_nil (f : Fields) : f.take [] = f := rfl

lemma parseHeaders_readBuf (c : ReadState) (p : ℕ) : (parseHeaders c p).2.readBuf = c.readBuf := by
  rw [parseHeaders]
  split_ifs <;> rfl

lemma parseHeaders_fields (h : LineAt c.readBuf p line) : (parseHeaders c p).2.fields = c.fields.take line := by
  cases line with
  | nil =>
    have hnul : c.readBuf p = 0 := h.nul
    rw [parseHeaders, if_pos hnul, take_nil]
    split_ifs <;> rfl
  | cons b line =>
    have hne : c.readBuf p ≠ 0 := fun he => List.cons_ne_nil b line (h.text.symm.trans (str_eq_nil _ he))
    have hconn : connectionKey.length = 11 := rfl
    have hlen : contentLengthKey.length = 15 := rfl
    rw [parseHeaders, if_neg hne, strncasecmp_names h hconn, strncasecmp_names h hlen, strncasecmp_host h, Fields.take]
    by_cases h₁ : names connectionKey (b :: line) = true
    · rw [if_pos h₁, if_pos h₁, strcasecmp, str_value h hconn h₁]
      split_ifs <;> rfl
    · rw [if_neg h₁, if_neg h₁]
      by_cases h₂ : names contentLengthKey (b :: line) = true
      · rw [if_pos h₂, if_pos h₂, atol, str_value h hlen h₂]
        rfl
      · rw [if_neg h₂, if_neg h₂]
        by_cases h₃ : bareHost (b :: line) = true
        · rw [if_pos h₃, if_pos h₃, ← str_bareHost h h₃]
          rfl
        · rw [if_neg h₃, if_neg h₃]

def BlockAt (m : Memory) : ℕ → List (List UInt8) → Prop
  | _, [] => True
  | p, line :: lines => LineAt m p line ∧ BlockAt m (p + line.length + 2) lines

lemma feedHeaders_fields {lines : List (List UInt8)} (h : BlockAt c.readBuf p lines) :
    (feedHeaders c p lines).fields = lines.foldl Fields.take c.fields := by
  induction lines generalizing c p with
  | nil => rfl
  | cons line lines ih =>
    rw [feedHeaders, ih (by rw [parseHeaders_readBuf]; exact h.2), parseHeaders_fields h.1, List.foldl_cons]

lemma lineAt_write (m : Memory) (rest : List UInt8) (h0 : 0 ∉ line) (hp : p + line.length ≤ readBufferSize) :
    LineAt (m.write p (line ++ [0, 0] ++ rest)) p line := by
  have hin : ∀ i (hi : i < (line ++ [0, 0] ++ rest).length),
      m.write p (line ++ [0, 0] ++ rest) (p + i) = (line ++ [0, 0] ++ rest)[i] := fun i hi => write_inside _ _ _ hi
  have hlen : (line ++ [0, 0] ++ rest).length = line.length + 2 + rest.length := by
    rw [List.length_append, List.length_append]
    rfl
  have hnul : m.write p (line ++ [0, 0] ++ rest) (p + line.length) = 0 := by
    rw [hin line.length (by omega)]
    simp
  refine ⟨?_, hnul, ?_⟩
  · rw [str_eq_append h0 hp, str_eq_nil _ hnul, List.append_nil]
    intro i hi
    rw [hin i (by omega)]
    simp [hi]
  · rw [Nat.add_assoc, hin (line.length + 1) (by omega)]
    simp

lemma blockAt_write {lines : List (List UInt8)} (h0 : ∀ line ∈ lines, 0 ∉ line)
    (hfit : p + (headerBlock lines).length ≤ readBufferSize) : BlockAt (m.write p (headerBlock lines)) p lines := by
  induction lines generalizing m p with
  | nil => trivial
  | cons line lines ih =>
    have hcons : headerBlock (line :: lines) = line ++ [0, 0] ++ headerBlock lines := List.flatMap_cons
    have hlen : (line ++ [0, 0]).length = line.length + 2 := by simp
    rw [hcons] at hfit ⊢
    rw [List.length_append, hlen] at hfit
    refine ⟨lineAt_write m _ (h0 line List.mem_cons_self) (by omega), ?_⟩
    rw [write_append, hlen, ← Nat.add_assoc]
    exact ih (fun l hl => h0 l (List.mem_cons_of_mem line hl)) (by omega)

end Lines

lemma readHeaders_eq (c : ReadState) {base : ℕ} {lines : List (List UInt8)} (h0 : ∀ line ∈ lines, 0 ∉ line)
    (hfit : base + (headerBlock (lines ++ [[]])).length ≤ readBufferSize) :
    readHeaders c base lines = lines.foldl Fields.take ⟨false, 0, none⟩ := by
  have hblock : BlockAt (c.loaded base lines).readBuf base (lines ++ [[]]) := by
    refine blockAt_write (fun line hl => ?_) hfit
    rcases List.mem_append.mp hl with hl | hl
    · exact h0 line hl
    · rw [List.mem_singleton.mp hl]
      exact List.not_mem_nil
  rw [readHeaders, feedHeaders_fields hblock, List.foldl_append]
  rfl

section Effects

variable {line key : List UInt8} {f : Fields} {lines lines' : List (List UInt8)}

lemma names_take (h : names key line = true) {n : ℕ} (hn : n ≤ key.length) :
    (line.take n).map toLower = (key.take n).map toLower := by
  have heq := congrArg (List.take n) (eq_of_beq h)
  rwa [← List.map_take, ← List.map_take, List.take_take, min_eq_left hn] at heq

lemma names_exclusive (h : names contentLengthKey line = true) : names connectionKey line = false := by
  refine Bool.eq_false_iff.mpr fun hc => ?_
  have heq := (names_take h (n := 4) (by decide)).symm.trans (names_take hc (by decide))
  exact absurd heq (by decide)

lemma bareHost_exclusive (h : bareHost line = true) :
    names connectionKey line = false ∧ names contentLengthKey line = false := by
  have hlen := bareHost_length h
  refine ⟨Bool.eq_false_iff.mpr fun hc => ?_, Bool.eq_false_iff.mpr fun hc => ?_⟩
  · have hle : 11 ≤ line.length := names_length hc
    omega
  · have hle : 15 ≤ line.length := names_length hc
    omega

lemma take_linger (f : Fields) (line : List UInt8) : (f.take line).linger = (f.linger || keepsAlive line) := by
  rw [Fields.take, keepsAlive]
  split_ifs with h₁ h₂ h₃ h₄
  · rw [h₁, h₂, Bool.and_self, Bool.or_true]
  · rw [Bool.eq_false_iff.mpr h₂, Bool.and_false, Bool.or_false]
  all_goals rw [Bool.eq_false_iff.mpr h₁, Bool.false_and, Bool.or_false]

lemma take_contentLength (f : Fields) (line : List UInt8) :
    (f.take line).contentLength =
      if names contentLengthKey line then strtol (valueOf contentLengthKey line) else f.contentLength := by
  by_cases h : names contentLengthKey line = true
  · rw [Fields.take, names_exclusive h, h]
    rfl
  · rw [Fields.take, if_neg h, if_neg h]
    split_ifs <;> rfl

lemma take_host (f : Fields) (line : List UInt8) :
    (f.take line).host = if bareHost line then some [] else f.host := by
  by_cases h : bareHost line = true
  · rw [Fields.take, (bareHost_exclusive h).1, (bareHost_exclusive h).2, h]
    rfl
  · rw [Fields.take, if_neg h, if_neg h]
    split_ifs <;> rfl

lemma fold_linger : (lines.foldl Fields.take f).linger = (f.linger || lines.any keepsAlive) := by
  induction lines generalizing f with
  | nil => rw [List.foldl_nil, List.any_nil, Bool.or_false]
  | cons line lines ih => rw [List.foldl_cons, ih, take_linger, List.any_cons, Bool.or_assoc]

lemma fold_host : (lines.foldl Fields.take f).host = if lines.any bareHost then some [] else f.host := by
  induction lines generalizing f with
  | nil => rfl
  | cons line lines ih =>
    rw [List.foldl_cons, ih, take_host, List.any_cons]
    cases bareHost line <;> cases lines.any bareHost <;> rfl

lemma lastValue_concat (key : List UInt8) (lines : List (List UInt8)) (line : List UInt8) :
    lastValue key (lines ++ [line]) = if names key line then some (valueOf key line) else lastValue key lines := by
  rw [lastValue, List.filter_append]
  by_cases h : names key line = true
  · rw [if_pos h, List.filter_cons_of_pos h, List.filter_nil, List.getLast?_concat]
    rfl
  · rw [if_neg h, List.filter_cons_of_neg h, List.filter_nil, List.append_nil, lastValue]

-- From the right: the last line decides, or the lines before it do.
lemma fold_contentLength : (lines.foldl Fields.take f).contentLength =
    ((lastValue contentLengthKey lines).map strtol).getD f.contentLength := by
  induction lines using List.reverseRecOn with
  | nil => rfl
  | append_singleton lines line ih =>
    rw [List.foldl_append, List.foldl_cons, List.foldl_nil, take_contentLength, ih, lastValue_concat]
    split_ifs <;> rfl

end Effects

section Order

variable {lines lines' : List (List UInt8)}

lemma SameOrder.filter {P : List UInt8 → Bool} {name : List UInt8}
    (hP : ∀ line, P line = true → headerName line = name) (h : SameOrder lines lines') :
    lines'.filter P = lines.filter P := by
  have hsub : ∀ ls : List (List UInt8), ls.filter P = (ls.filter fun line => headerName line = name).filter P := by
    intro ls
    rw [List.filter_filter]
    refine List.filter_congr fun line _ => ?_
    cases hp : P line with
    | false => rfl
    | true => simp [hP line hp]
  rw [hsub, hsub lines, h name]

lemma SameOrder.any {P : List UInt8 → Bool} {name : List UInt8}
    (hP : ∀ line, P line = true → headerName line = name) (h : SameOrder lines lines') : lines'.any P = lines.any P := by
  have hany : ∀ ls : List (List UInt8), ls.any P = !(ls.filter P).isEmpty := by
    intro ls
    rw [Bool.eq_iff_iff]
    simp [List.any_eq_true, List.filter_eq_nil_iff]
  rw [hany, hany lines, h.filter hP]

lemma headerName_append {name line : List UInt8} (hname : chr ':' ∉ name) (rest : List UInt8)
    (h : line.map toLower = name ++ chr ':' :: rest) : headerName line = name := by
  rw [headerName, h, List.takeWhile_append_of_pos fun b hb => by
    simpa using fun he : b = chr ':' => hname (he ▸ hb)]
  simp

lemma headerName_of_names {name key line : List UInt8} (hkey : key.map toLower = name ++ [chr ':'])
    (hname : chr ':' ∉ name) (h : names key line = true) : headerName line = name := by
  refine headerName_append hname ((line.drop key.length).map toLower) ?_
  rw [← List.take_append_drop key.length line, List.map_append, eq_of_beq h, hkey]
  simp

lemma headerName_keepsAlive {line : List UInt8} (h : keepsAlive line = true) :
    headerName line = ascii ['c', 'o', 'n', 'n', 'e', 'c', 't', 'i', 'o', 'n'] :=
  headerName_of_names (by decide) (by decide) (Bool.and_eq_true_iff.mp h).1

lemma headerName_contentLength {line : List UInt8} (h : names contentLengthKey line = true) :
    headerName line = ascii ['c', 'o', 'n', 't', 'e', 'n', 't', '-', 'l', 'e', 'n', 'g', 't', 'h'] :=
  headerName_of_names (by decide) (by decide) h

lemma headerName_bareHost {line : List UInt8} (h : bareHost line = true) :
    headerName line = ascii ['h', 'o', 's', 't'] := by
  rw [headerName, eq_of_beq h]
  rfl

lemma SameOrder.perm (h : SameOrder lines lines') : lines'.Perm lines := by
  refine List.perm_iff_count.mpr fun line => ?_
  have hcount : ∀ ls : List (List UInt8),
      ls.count line = (ls.filter fun l => headerName l = headerName line).count line := fun ls =>
    (List.count_filter (by simp)).symm
  rw [hcount, hcount lines, h]

lemma fold_order (h : SameOrder lines lines') (f : Fields) :
    lines'.foldl Fields.take f = lines.foldl Fields.take f := by
  ext1
  · rw [fold_linger, fold_linger, h.any fun _ => headerName_keepsAlive]
  · rw [fold_contentLength, fold_contentLength, lastValue, lastValue, h.filter fun _ => headerName_contentLength]
  · rw [fold_host, fold_host, h.any fun _ => headerName_bareHost]

end Order

section Result

variable {c : ReadState} {base : ℕ} {lines : List (List UInt8)}

lemma headerBlock_perm {lines' : List (List UInt8)} (h : lines'.Perm lines) :
    (headerBlock (lines' ++ [[]])).length = (headerBlock (lines ++ [[]])).length :=
  ((h.append_right _).flatMap_right _).length_eq

lemma readHeaders_order {lines' : List (List UInt8)} (h0 : ∀ line ∈ lines, 0 ∉ line)
    (hfit : base + (headerBlock (lines ++ [[]])).length ≤ readBufferSize) (h : SameOrder lines lines') :
    readHeaders c base lines' = readHeaders c base lines := by
  rw [readHeaders_eq c h0 hfit, readHeaders_eq c (fun line hl => h0 line (h.perm.mem_iff.mp hl))
    (by rw [headerBlock_perm h.perm]; exact hfit), fold_order h]

lemma lastValue_eq_none {key : List UInt8} : lastValue key lines = none ↔ ∀ line ∈ lines, names key line = false := by
  rw [lastValue, Option.map_eq_none_iff, List.getLast?_eq_none_iff, List.filter_eq_nil_iff]
  simp only [Bool.not_eq_true]

lemma host_iff : (if lines.any bareHost then some [] else none) = lastValue hostColon lines ↔
    ((∀ line ∈ lines, names hostColon line = false ∧ bareHost line = false) ∨
      (∃ line ∈ lines, bareHost line = true) ∧ lastValue hostColon lines = some []) := by
  by_cases hb : lines.any bareHost = true
  · obtain ⟨line, hl, hline⟩ := List.any_eq_true.mp hb
    rw [if_pos hb]
    constructor
    · exact fun h => .inr ⟨⟨line, hl, hline⟩, h.symm⟩
    · rintro (hnone | ⟨-, hlast⟩)
      · rw [(hnone line hl).2] at hline
        cases hline
      · exact hlast.symm
  · have hno : ∀ line ∈ lines, bareHost line = false := fun line hl =>
      Bool.eq_false_iff.mpr fun hline => hb (List.any_eq_true.mpr ⟨line, hl, hline⟩)
    rw [if_neg hb, eq_comm, lastValue_eq_none]
    constructor
    · exact fun h => .inl fun line hl => ⟨h line hl, hno line hl⟩
    · rintro (hnone | ⟨⟨line, hl, hline⟩, -⟩)
      · exact fun line hl => (hnone line hl).1
      · rw [hno line hl] at hline
        cases hline

/-- All but `m_host` has the meaning of the lines; `m_host` is set by the word `Host` alone, to an empty string. -/
theorem header_meaning_iff (h0 : ∀ line ∈ lines, 0 ∉ line)
    (hfit : base + (headerBlock (lines ++ [[]])).length ≤ readBufferSize) :
    HeaderMeaning c base lines ↔
      ((∀ line ∈ lines, names hostColon line = false ∧ bareHost line = false) ∨
        (∃ line ∈ lines, bareHost line = true) ∧ lastValue hostColon lines = some []) := by
  have hread := readHeaders_eq c h0 hfit
  rw [← host_iff]
  constructor
  · intro h
    rw [← h.host, hread, fold_host]
  · intro h
    refine ⟨?_, ?_, ?_, fun lines' => readHeaders_order h0 hfit⟩
    · rw [hread, fold_linger, Bool.false_or, List.any_eq_true]
    · rw [hread, fold_contentLength]
    · rw [hread, fold_host, h]

end Result

theorem header_meaning_two_lines :
    HeaderMeaning default 40 [ascii "connection:  Keep-Alive".toList, ascii "Content-Length: 12".toList] :=
  (header_meaning_iff (by decide) (by decide)).mpr (.inl (by decide))

-- The line that every client sends leaves `m_host` null.
theorem host_line_ignored :
    (readHeaders default 40 [ascii "Host: x".toList]).host = none ∧
      lastValue hostColon [ascii "Host: x".toList] = some (ascii ['x']) ∧
      ¬ HeaderMeaning default 40 [ascii "Host: x".toList] := by
  have hread : (readHeaders default 40 [ascii "Host: x".toList]).host = none := by
    rw [readHeaders_eq default (by decide) (by decide)]
    decide
  refine ⟨hread, by decide, fun h => ?_⟩
  have hhost := h.host
  rw [hread] at hhost
  exact absurd hhost (by decide)

end OceanServer.Http
