import OceanServer.Library.CString
import OceanServer.Library.Loop

/-! `LogFormatter::init`: the scan of a pattern for literal text and items. -/

namespace OceanServer.Net

open Library Library.CString

section Model

structure Token where
  str : List UInt8
  fmt : List UInt8
  type : ℕ
  deriving DecidableEq, Repr

inductive FmtStatus where
  | name | format | closed
  deriving DecidableEq, Repr

structure Item where
  n : ℕ
  fmtStatus : FmtStatus
  fmtBegin : ℕ
  str : List UInt8
  fmt : List UInt8
  deriving DecidableEq, Repr

/-- The variables of the outer loop; `item` is `none` at its head. -/
structure Scanner where
  i : ℕ
  vstr : List UInt8
  vec : List Token
  item : Option Item
  deriving DecidableEq, Repr

def percent : UInt8 := chr '%'
def brace : UInt8 := chr '\x7b'
def endBrace : UInt8 := chr '\x7d'

def patternError : List UInt8 := ascii "<<pattern_error>>".toList

def substr (s : List UInt8) (pos count : ℕ) : Option (List UInt8) :=
  -- `none` where `std::out_of_range` is thrown.
  if pos ≤ s.length then some ((s.drop pos).take count) else none

def npos : ℕ := 2 ^ 64 - 1

def sizeSub (a b : ℕ) : ℕ := (a + 2 ^ 64 - b) % 2 ^ 64

def literal (vstr : List UInt8) : List Token := if vstr = [] then [] else [⟨vstr, [], 0⟩]

variable (pattern : List UInt8)

def itemStep (i : ℕ) (s : Item) : Item ⊕ Option Item :=
  match pattern[s.n]? with
  | none => .inr (some s)
  | some c =>
    if isSpace c then .inr (some s)
    else if s.fmtStatus = .name ∧ c = brace then
      match substr pattern (i + 1) (sizeSub s.n i) with
      | some str => .inl { s with str := str, fmtStatus := .format, n := s.n + 1, fmtBegin := s.n + 1 }
      | none => .inr none
    else if s.fmtStatus = .format ∧ c = endBrace then
      match substr pattern (s.fmtBegin + 1) (sizeSub (sizeSub s.n s.fmtBegin) 1) with
      | some fmt => .inr (some { s with fmt := fmt, fmtStatus := .closed })
      | none => .inr none
    -- no other character moves `n`
    else .inl s

def closeItem (s : Scanner) (t : Item) : Scanner ⊕ Option (List Token) :=
  match t.fmtStatus with
  | .name =>
    match substr pattern (s.i + 1) (sizeSub (sizeSub t.n s.i) 1) with
    | some str => .inl ⟨t.n + 1, s.vstr, s.vec ++ literal s.vstr ++ [⟨str, t.fmt, 1⟩], none⟩
    | none => .inr none
  | .format =>
    -- for the message on `std::cout`
    match substr pattern s.i pattern.length with
    | some _ => .inl ⟨s.i + 1, s.vstr, s.vec ++ [⟨patternError, t.fmt, 0⟩], none⟩
    | none => .inr none
  | .closed => .inl ⟨t.n + 1, s.vstr, s.vec ++ literal s.vstr ++ [⟨t.str, t.fmt, 1⟩], none⟩

/-- One iteration of either loop; the result is `vec`, or `none` for an exception. -/
def scanStep (s : Scanner) : Scanner ⊕ Option (List Token) :=
  match s.item with
  | some t =>
    match itemStep pattern s.i t with
    | .inl t => .inl { s with item := some t }
    | .inr (some t) => closeItem pattern s t
    | .inr none => .inr none
  | none =>
    match pattern[s.i]? with
    | none => .inr (some (s.vec ++ literal s.vstr))
    | some c =>
      if c ≠ percent then .inl { s with i := s.i + 1, vstr := s.vstr ++ [c] }
      else if pattern[s.i + 1]? = some percent then .inl { s with i := s.i + 1, vstr := s.vstr ++ [percent] }
      else .inl { s with item := some ⟨s.i + 1, .name, 0, [], []⟩ }

def Scanner.start : Scanner := ⟨0, [], [], none⟩

def Ends (vec : List Token) : Prop := Loop.Exits (scanStep pattern) .start (some vec)

def Scanner.Progress (s t : Scanner) : Prop :=
  match s.item, t.item with
  | none, none => s.i < t.i
  | none, some _ => t.i = s.i
  | some x, some y => t.i = s.i ∧ x.n < y.n
  | some _, none => s.i < t.i

structure Terminates : Prop where
  ends : ∃ vec, Ends pattern vec
  progress : ∀ s t, Loop.Reaches (scanStep pattern) .start s → scanStep pattern s = .inl t → s.Progress t
  inside : ∀ s, Loop.Reaches (scanStep pattern) .start s → scanStep pattern s ≠ .inr none

/-- What may follow a `%`: another one, a blank, the end, or a brace before a closing one, a blank or the end. -/
def Closed : List UInt8 → Prop
  | [] => True
  | b :: rest => b = percent ∨ isSpace b = true ∨ b = brace ∧
    match rest with
    | [] => True
    | d :: _ => isSpace d = true ∨ d = endBrace

def AllClosed : Prop := ∀ pre rest, pattern = pre ++ percent :: rest → Closed rest

def tokens : List UInt8 → List UInt8 → List Token → Option (List Token)
  | [], vstr, vec => some (vec ++ literal vstr)
  | c :: rest, vstr, vec =>
    if c ≠ percent then tokens rest (vstr ++ [c]) vec
    else match rest with
      | [] => some (vec ++ literal vstr ++ [⟨[], [], 1⟩] ++ literal vstr)
      | b :: tail =>
        if b = percent then tokens (b :: tail) (vstr ++ [percent]) vec
        else if isSpace b then tokens tail vstr (vec ++ literal vstr ++ [⟨[], [], 1⟩])
        else if b ≠ brace then none
        else match tail with
          | [] => tokens [b] vstr (vec ++ [⟨patternError, [], 0⟩])
          | d :: tail =>
            if isSpace d then tokens (b :: d :: tail) vstr (vec ++ [⟨patternError, [], 0⟩])
            else if d = endBrace then
              tokens tail vstr (vec ++ literal vstr ++ [⟨[brace], tail.take npos, 1⟩])
            else none

end Model

variable {pattern : List UInt8}

structure Item.Placed (pattern : List UInt8) (i : ℕ) (t : Item) : Prop where
  i_lt : i < t.n
  n_le : t.n ≤ pattern.length
  begin_le : t.fmtBegin ≤ t.n

lemma substr_of_le {s : List UInt8} {pos : ℕ} (h : pos ≤ s.length) (count : ℕ) :
    substr s pos count = some ((s.drop pos).take count) := if_pos h

lemma sizeSub_add (a : ℕ) {k : ℕ} (h : k < 2 ^ 64) : sizeSub (a + k) a = k := by
  have hk : a + k + 2 ^ 64 - a = k + 2 ^ 64 := by omega
  rw [sizeSub, hk, Nat.add_mod_right, Nat.mod_eq_of_lt h]

lemma sizeSub_self (a : ℕ) : sizeSub a a = 0 := sizeSub_add a (k := 0) (by decide)

lemma sizeSub_succ (a : ℕ) : sizeSub (a + 1) a = 1 := sizeSub_add a (by decide)

lemma sizeSub_zero_one : sizeSub 0 1 = npos := by decide

lemma getElem?_lt {i : ℕ} {c : UInt8} (h : pattern[i]? = some c) : i < pattern.length :=
  (List.getElem?_eq_some_iff.mp h).1

inductive ItemMoves (pattern : List UInt8) (i : ℕ) (t : Item) : Item ⊕ Option Item → Prop where
  | idle : ItemMoves pattern i t (.inl t)
  | moved {t' : Item} : t'.Placed pattern i → t.n < t'.n → ItemMoves pattern i t (.inl t')
  | left {t' : Item} : t'.n = t.n → ItemMoves pattern i t (.inr (some t'))

lemma itemStep_moves {i : ℕ} {t : Item} (h : t.Placed pattern i) : ItemMoves pattern i t (itemStep pattern i t) := by
  rw [itemStep]
  split
  · exact .left rfl
  · rename_i hc
    have hlt := getElem?_lt hc
    have hi := h.i_lt
    have hb := h.begin_le
    rw [substr_of_le (by omega), substr_of_le (by omega)]
    split
    · exact .left rfl
    · split
      · exact .moved ⟨Nat.lt_succ_of_lt hi, hlt, le_rfl⟩ (Nat.lt_succ_self _)
      · split
        · exact .left rfl
        · exact .idle

lemma closeItem_moves {s : Scanner} {t : Item} (hi : s.i < t.n) (hn : t.n ≤ pattern.length) :
    ∃ s', closeItem pattern s t = .inl s' ∧ s'.item = none ∧ s.i < s'.i := by
  rw [closeItem, substr_of_le (by omega), substr_of_le (by omega)]
  split
  · exact ⟨_, rfl, rfl, Nat.lt_succ_of_lt hi⟩
  · exact ⟨_, rfl, rfl, Nat.lt_succ_self _⟩
  · exact ⟨_, rfl, rfl, Nat.lt_succ_of_lt hi⟩

def Scanner.Placed (pattern : List UInt8) (s : Scanner) : Prop := ∀ t ∈ s.item, t.Placed pattern s.i

inductive Moves (pattern : List UInt8) (s : Scanner) : Scanner ⊕ Option (List Token) → Prop where
  | idle : Moves pattern s (.inl s)
  | moved {t : Scanner} : t.Placed pattern → s.Progress t → Moves pattern s (.inl t)
  | left {vec : List Token} : Moves pattern s (.inr (some vec))

lemma scanStep_moves {s : Scanner} (h : s.Placed pattern) : Moves pattern s (scanStep pattern s) := by
  obtain ⟨i, vstr, vec, item⟩ := s
  cases item with
  | some t =>
    have ht : t.Placed pattern i := h t rfl
    have hm := itemStep_moves ht
    simp only [scanStep]
    generalize itemStep pattern i t = r at hm ⊢
    cases hm with
    | idle => exact .idle
    | moved ht' hn =>
      refine .moved ?_ ⟨rfl, hn⟩
      rintro _ ⟨⟩
      exact ht'
    | left hn =>
      obtain ⟨s', hs, hnone, hlt⟩ := closeItem_moves (s := ⟨i, vstr, vec, some t⟩)
        (hn.symm ▸ ht.i_lt) (hn.symm ▸ ht.n_le)
      simp only [hs]
      exact .moved (by simp [Scanner.Placed, hnone]) (by simpa [Scanner.Progress, hnone] using hlt)
  | none =>
    simp only [scanStep]
    split
    · exact .left
    · rename_i hc
      split
      · exact .moved (by simp [Scanner.Placed]) (Nat.lt_succ_self _)
      · split
        · exact .moved (by simp [Scanner.Placed]) (Nat.lt_succ_self _)
        · refine .moved ?_ rfl
          rintro t ⟨⟩
          exact ⟨Nat.lt_succ_self _, getElem?_lt hc, Nat.zero_le _⟩

lemma reaches_placed {s : Scanner} (h : Loop.Reaches (scanStep pattern) .start s) : s.Placed pattern := by
  induction h with
  | refl => simp [Scanner.Placed, Scanner.start]
  | tail _ hs ih =>
    have hm := hs ▸ scanStep_moves ih
    cases hm with
    | idle => exact ih
    | moved ht _ => exact ht

lemma cons_of_drop {i : ℕ} {c : UInt8} {rest : List UInt8} (h : pattern.drop i = c :: rest) :
    pattern[i]? = some c ∧ pattern.drop (i + 1) = rest := by
  constructor
  · rw [← List.head?_drop, h, List.head?_cons]
  · rw [← List.tail_drop, h, List.tail_cons]

section Exits

variable {i : ℕ} {vstr : List UInt8} {vec : List Token} {r : Option (List Token)}

lemma exits_item (hi : pattern[i]? = some percent) (hne : pattern[i + 1]? ≠ some percent) :
    Loop.Exits (scanStep pattern) ⟨i, vstr, vec, none⟩ r ↔
      Loop.Exits (scanStep pattern) ⟨i, vstr, vec, some ⟨i + 1, .name, 0, [], []⟩⟩ r := by
  apply Loop.exits_next
  simp [scanStep, hi, hne]

lemma itemStep_blank {t : Item} (h : ∀ b ∈ pattern[t.n]?, isSpace b = true) :
    itemStep pattern i t = .inr (some t) := by
  cases hb : pattern[t.n]? with
  | none => simp [itemStep, hb]
  | some b => simp [itemStep, hb, h b hb]

lemma exits_blank (hi : pattern[i]? = some percent) (h : ∀ b ∈ pattern[i + 1]?, isSpace b = true) :
    Loop.Exits (scanStep pattern) ⟨i, vstr, vec, none⟩ r ↔
      Loop.Exits (scanStep pattern) ⟨i + 2, vstr, vec ++ literal vstr ++ [⟨[], [], 1⟩], none⟩ r := by
  have hne : pattern[i + 1]? ≠ some percent := by
    intro hp
    exact absurd (h _ hp) (by decide)
  have hb := itemStep_blank (i := i) (t := ⟨i + 1, .name, 0, [], []⟩) h
  refine (exits_item hi hne).trans (Loop.exits_next ?_)
  simp [scanStep, hb, closeItem, sizeSub_succ, sizeSub_self, substr_of_le (Nat.succ_le_of_lt (getElem?_lt hi))]

lemma exits_brace (hi : pattern[i]? = some percent) (h : pattern[i + 1]? = some brace) :
    Loop.Exits (scanStep pattern) ⟨i, vstr, vec, none⟩ r ↔
      Loop.Exits (scanStep pattern) ⟨i, vstr, vec, some ⟨i + 2, .format, i + 2, [brace], []⟩⟩ r := by
  have hne : pattern[i + 1]? ≠ some percent := by
    rw [h]
    decide
  have hblank : isSpace brace = false := by decide
  have hstr : (pattern.drop (i + 1)).take 1 = [brace] := by
    rw [List.take_one, List.head?_drop, h]
    rfl
  refine (exits_item hi hne).trans (Loop.exits_next ?_)
  simp [scanStep, itemStep, h, hblank, sizeSub_succ, substr_of_le (getElem?_lt h).le, hstr]

lemma exits_unclosed (hi : pattern[i]? = some percent) (hb : pattern[i + 1]? = some brace)
    (h : ∀ d ∈ pattern[i + 2]?, isSpace d = true) :
    Loop.Exits (scanStep pattern) ⟨i, vstr, vec, none⟩ r ↔
      Loop.Exits (scanStep pattern) ⟨i + 1, vstr, vec ++ [⟨patternError, [], 0⟩], none⟩ r := by
  have hs := itemStep_blank (i := i) (t := ⟨i + 2, .format, i + 2, [brace], []⟩) h
  refine (exits_brace hi hb).trans (Loop.exits_next ?_)
  simp [scanStep, hs, closeItem, substr_of_le (getElem?_lt hi).le]

lemma exits_closed (hi : pattern[i]? = some percent) (hb : pattern[i + 1]? = some brace)
    (h : pattern[i + 2]? = some endBrace) :
    Loop.Exits (scanStep pattern) ⟨i, vstr, vec, none⟩ r ↔ Loop.Exits (scanStep pattern) ⟨i + 3, vstr,
      vec ++ literal vstr ++ [⟨[brace], (pattern.drop (i + 3)).take npos, 1⟩], none⟩ r := by
  have hblank : isSpace endBrace = false := by decide
  refine (exits_brace hi hb).trans (Loop.exits_next ?_)
  simp [scanStep, itemStep, h, hblank, closeItem, sizeSub_self, sizeSub_zero_one, substr_of_le (getElem?_lt h)]

lemma not_exits_name {b : UInt8} (hi : pattern[i]? = some percent) (hb : pattern[i + 1]? = some b)
    (hp : b ≠ percent) (hs : ¬ isSpace b = true) (hbrace : b ≠ brace) :
    ¬ Loop.Exits (scanStep pattern) ⟨i, vstr, vec, none⟩ r := by
  rw [exits_item hi (by simpa [hb] using hp)]
  apply Loop.not_exits_of_idle
  simp [scanStep, itemStep, hb, hs, hbrace]

lemma not_exits_format {d : UInt8} (hi : pattern[i]? = some percent) (hb : pattern[i + 1]? = some brace)
    (hd : pattern[i + 2]? = some d) (hs : ¬ isSpace d = true) (hbrace : d ≠ endBrace) :
    ¬ Loop.Exits (scanStep pattern) ⟨i, vstr, vec, none⟩ r := by
  rw [exits_brace hi hb]
  apply Loop.not_exits_of_idle
  simp [scanStep, itemStep, hd, hs, hbrace]

lemma exits_end (h : pattern.length ≤ i) :
    Loop.Exits (scanStep pattern) ⟨i, vstr, vec, none⟩ r ↔ r = some (vec ++ literal vstr) := by
  apply Loop.exits_stop
  simp [scanStep, h]

lemma exits_iff {rest : List UInt8} (h : pattern.drop i = rest) :
    Loop.Exits (scanStep pattern) ⟨i, vstr, vec, none⟩ r ↔ ∃ v, r = some v ∧ tokens rest vstr vec = some v := by
  fun_induction tokens rest vstr vec generalizing i with
  | case1 vstr vec =>
    rw [exits_end (List.drop_eq_nil_iff.mp h)]
    simp
  | case2 c rest vstr vec hc ih =>
    obtain ⟨hi, hrest⟩ := cons_of_drop h
    have hs : scanStep pattern ⟨i, vstr, vec, none⟩ = .inl ⟨i + 1, vstr ++ [c], vec, none⟩ := by
      simp [scanStep, hi, hc]
    exact (Loop.exits_next hs).trans (ih hrest)
  | case3 c vstr vec hc =>
    obtain rfl := not_not.mp hc
    obtain ⟨hi, hnil⟩ := cons_of_drop h
    have hend := List.drop_eq_nil_iff.mp hnil
    rw [exits_blank hi (by simp [hend]), exits_end (hend.trans (Nat.le_succ _))]
    simp
  | case4 c vstr vec hc tail ih =>
    obtain rfl := not_not.mp hc
    obtain ⟨hi, hrest⟩ := cons_of_drop h
    have hs : scanStep pattern ⟨i, vstr, vec, none⟩ = .inl ⟨i + 1, vstr ++ [percent], vec, none⟩ := by
      simp [scanStep, hi, (cons_of_drop hrest).1]
    exact (Loop.exits_next hs).trans (ih hrest)
  | case5 c vstr vec hc b tail _ hspace ih =>
    obtain rfl := not_not.mp hc
    obtain ⟨hi, hrest⟩ := cons_of_drop h
    obtain ⟨hb, htail⟩ := cons_of_drop hrest
    exact (exits_blank hi (by simp [hb, hspace])).trans (ih htail)
  | case6 c vstr vec hc b tail hp hspace hbrace =>
    obtain rfl := not_not.mp hc
    obtain ⟨hi, hrest⟩ := cons_of_drop h
    simp [not_exits_name hi (cons_of_drop hrest).1 hp hspace hbrace]
  | case7 c vstr vec hc b _ _ hbrace ih =>
    obtain rfl := not_not.mp hc
    obtain rfl := not_not.mp hbrace
    obtain ⟨hi, hrest⟩ := cons_of_drop h
    obtain ⟨hb, hnil⟩ := cons_of_drop hrest
    have hend := List.drop_eq_nil_iff.mp hnil
    exact (exits_unclosed hi hb (by simp [hend])).trans (ih hrest)
  | case8 c vstr vec hc b _ _ hbrace d tail hspace ih =>
    obtain rfl := not_not.mp hc
    obtain rfl := not_not.mp hbrace
    obtain ⟨hi, hrest⟩ := cons_of_drop h
    obtain ⟨hb, htail⟩ := cons_of_drop hrest
    exact (exits_unclosed hi hb (by simp [(cons_of_drop htail).1, hspace])).trans (ih hrest)
  | case9 c vstr vec hc b _ _ hbrace tail _ ih =>
    obtain rfl := not_not.mp hc
    obtain rfl := not_not.mp hbrace
    obtain ⟨hi, hrest⟩ := cons_of_drop h
    obtain ⟨hb, htail⟩ := cons_of_drop hrest
    obtain ⟨hd, hlast⟩ := cons_of_drop htail
    rw [exits_closed hi hb hd, hlast]
    exact ih hlast
  | case10 c vstr vec hc b _ _ hbrace d tail hspace hd =>
    obtain rfl := not_not.mp hc
    obtain rfl := not_not.mp hbrace
    obtain ⟨hi, hrest⟩ := cons_of_drop h
    obtain ⟨hb, htail⟩ := cons_of_drop hrest
    simp [not_exits_format hi hb (cons_of_drop htail).1 hspace hd]

end Exits

lemma ends_iff {vec : List Token} : Ends pattern vec ↔ tokens pattern [] [] = some vec := by
  have h : Loop.Exits (scanStep pattern) ⟨0, [], [], none⟩ (some vec) ↔ _ := exits_iff pattern.drop_zero
  simpa [Ends, Scanner.start] using h

lemma allClosed_cons {c : UInt8} {rest : List UInt8} :
    AllClosed (c :: rest) ↔ (c = percent → Closed rest) ∧ AllClosed rest := by
  constructor
  · intro h
    refine ⟨fun hc => h [] rest (by rw [hc]; rfl), fun pre r hr => h (c :: pre) r (by rw [hr]; rfl)⟩
  · rintro ⟨hc, h⟩ pre r hr
    cases pre with
    | nil =>
      obtain ⟨rfl, rfl⟩ := List.cons.inj hr
      exact hc rfl
    | cons b pre => exact h pre r (List.cons.inj hr).2

lemma not_closed {b : UInt8} {rest : List UInt8} (hp : b ≠ percent) (hs : ¬ isSpace b = true) (hb : b ≠ brace) :
    ¬ Closed (b :: rest) := by
  simp [Closed, hp, hs, hb]

lemma allClosed_nil : AllClosed [] := by
  intro pre rest h
  simp at h

lemma tokens_some_iff (rest vstr : List UInt8) (vec : List Token) :
    (∃ v, tokens rest vstr vec = some v) ↔ AllClosed rest := by
  have hne : ¬ brace = percent := by decide
  fun_induction tokens rest vstr vec with
  | case1 => simp [allClosed_nil]
  | case2 c rest vstr vec hc ih => simp [ih, allClosed_cons, hc]
  | case3 => simp [allClosed_cons, allClosed_nil, Closed]
  | case4 c vstr vec hc tail ih => simp [ih, allClosed_cons, Closed]
  | case5 c vstr vec hc b tail hp hspace ih =>
    refine ih.trans ?_
    simp [allClosed_cons, hp, Closed, hspace]
  | case6 c vstr vec hc b tail hp hspace hbrace =>
    obtain rfl := not_not.mp hc
    simp [allClosed_cons, not_closed hp hspace hbrace]
  | case7 c vstr vec hc b hp hspace hbrace ih =>
    obtain rfl := not_not.mp hbrace
    simp [ih, allClosed_cons, hne, Closed]
  | case8 c vstr vec hc b hp hspace hbrace d tail hd ih =>
    obtain rfl := not_not.mp hbrace
    simp [ih, allClosed_cons, hne, Closed, hd]
  | case9 c vstr vec hc b hp hspace hbrace tail hd ih =>
    obtain rfl := not_not.mp hbrace
    have hend : ¬ endBrace = percent := by decide
    refine ih.trans ?_
    simp [allClosed_cons, hne, hend, Closed]
  | case10 c vstr vec hc b hp hspace hbrace d tail hd hend =>
    obtain rfl := not_not.mp hc
    obtain rfl := not_not.mp hbrace
    have hnot : ¬ Closed (brace :: d :: tail) := by simp [Closed, hne, hspace, hd, hend]
    simp [allClosed_cons, hnot]

lemma ends_some_iff : (∃ vec, Ends pattern vec) ↔ AllClosed pattern := by
  simp only [ends_iff]
  exact tokens_some_iff pattern [] []

theorem init_terminates_iff (pattern : List UInt8) : Terminates pattern ↔ AllClosed pattern := by
  constructor
  · intro h
    exact ends_some_iff.mp h.ends
  · intro h
    have hends := ends_some_iff.mpr h
    refine ⟨hends, ?_, ?_⟩
    · intro s t hs ht
      have hm := ht ▸ scanStep_moves (reaches_placed hs)
      cases hm with
      | idle =>
        obtain ⟨vec, hvec⟩ := hends
        exact absurd (hs.exits_iff.mp hvec) (Loop.not_exits_of_idle ht)
      | moved _ hp => exact hp
    · intro s hs hr
      have hm := hr ▸ scanStep_moves (reaches_placed hs)
      cases hm

theorem init_percent_d_idle :
    let pattern := ascii "%d".toList
    let s : Scanner := ⟨0, [], [], some ⟨1, .name, 0, [], []⟩⟩
    Loop.Reaches (scanStep pattern) .start s ∧ scanStep pattern s = .inl s ∧ ¬ s.Progress s ∧
      ∀ vec, ¬ Ends pattern vec := by
  have hs : Loop.Reaches (scanStep (ascii "%d".toList)) .start ⟨0, [], [], some ⟨1, .name, 0, [], []⟩⟩ :=
    .single (by decide)
  refine ⟨hs, by decide, by simp [Scanner.Progress], ?_⟩
  intro vec hvec
  exact Loop.not_exits_of_idle (by decide) (hs.exits_iff.mp hvec)

end OceanServer.Net
