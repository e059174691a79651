import Mathlib.Tactic

/-! Byte memory and the string functions of the C library on it. A string starts at an offset and
ends before its first NUL; `limit` is the size of the buffer it lives in. -/

namespace OceanServer.Library.CString

abbrev Memory := ℕ → UInt8

def Memory.set (m : Memory) (i : ℕ) (b : UInt8) : Memory := fun j => if j = i then b else m j

def Memory.write (m : Memory) (p : ℕ) (bs : List UInt8) : Memory :=
  fun j => if p ≤ j ∧ j < p + bs.length then bs.getD (j - p) 0 else m j

def bytesAt (m : Memory) (p n : ℕ) : List UInt8 := (List.range n).map fun i => m (p + i)

def ascii (cs : List Char) : List UInt8 := cs.map fun c => UInt8.ofNat c.toNat

def toLower (b : UInt8) : UInt8 := if 65 ≤ b ∧ b ≤ 90 then b + 32 else b

def isSpace (b : UInt8) : Bool := b = 32 ∨ (9 ≤ b ∧ b ≤ 13)

def isDigit (b : UInt8) : Bool := 48 ≤ b ∧ b ≤ 57

def chr (c : Char) : UInt8 := UInt8.ofNat c.toNat

def strncpy (m : Memory) (p : ℕ) (src : List UInt8) (n : ℕ) : Memory :=
  m.write p (src.take n ++ List.replicate (n - src.length) 0)

def scan (m : Memory) : ℕ → ℕ → List UInt8
  | 0, _ => []
  | n + 1, p => if m p = 0 then [] else m p :: scan m n (p + 1)

def longMax : ℤ := 2 ^ 63 - 1
def longMin : ℤ := -2 ^ 63

def decimal (bs : List UInt8) : ℤ :=
  (bs.takeWhile isDigit).foldl (fun acc b => 10 * acc + ((b.toNat : ℤ) - 48)) 0

def strtol (bs : List UInt8) : ℤ :=
  let value := match bs.dropWhile isSpace with
    | 45 :: rest => -decimal rest
    | 43 :: rest => decimal rest
    | rest => decimal rest
  max longMin (min longMax value)

section Strings

variable (limit : ℕ) (m : Memory) (p : ℕ)

def str : List UInt8 := scan m (limit - p) p

def strpbrk (accept : List UInt8) : Option ℕ :=
  ((str limit m p).findIdx? (accept.contains ·)).map (p + ·)

def strchr (c : UInt8) : Option ℕ := ((str limit m p).findIdx? (· == c)).map (p + ·)

def strrchr (c : UInt8) : Option ℕ :=
  ((str limit m p).reverse.findIdx? (· == c)).map fun i => p + ((str limit m p).length - 1 - i)

def strspn (accept : List UInt8) : ℕ := ((str limit m p).takeWhile (accept.contains ·)).length

def strcasecmp (s : List UInt8) : Bool := (str limit m p).map toLower == s.map toLower

def strncasecmp (s : List UInt8) (n : ℕ) : Bool :=
  ((str limit m p).take n).map toLower == (s.take n).map toLower

def strcat (s : List UInt8) : Memory := m.write (p + (str limit m p).length) (s ++ [0])

def atol : ℤ := strtol (str limit m p)

end Strings

lemma longMin_le_atol (limit : ℕ) (m : Memory) (p : ℕ) : longMin ≤ atol limit m p := le_max_left _ _

lemma atol_le_longMax (limit : ℕ) (m : Memory) (p : ℕ) : atol limit m p ≤ longMax :=
  max_le (by decide) (min_le_left _ _)

@[simp] lemma set_self (m : Memory) (i : ℕ) (b : UInt8) : m.set i b i = b := if_pos rfl

lemma set_of_ne (m : Memory) {i j : ℕ} (b : UInt8) (h : j ≠ i) : m.set i b j = m j := if_neg h

lemma set_of_eq {m : Memory} {i j : ℕ} {b : UInt8} (h : m j = b) : m.set i b j = b := by
  by_cases hj : j = i
  · rw [hj, set_self]
  · rw [set_of_ne m b hj, h]

lemma set_ne {m : Memory} {i j : ℕ} {b x : UInt8} (hb : b ≠ x) (hm : m j ≠ x) : m.set i b j ≠ x := by
  by_cases h : j = i
  · rwa [h, set_self]
  · rwa [set_of_ne m b h]

lemma write_outside (m : Memory) (p : ℕ) (bs : List UInt8) {j : ℕ} (h : j < p ∨ p + bs.length ≤ j) :
    m.write p bs j = m j := if_neg (by omega)

lemma write_inside (m : Memory) (p : ℕ) (bs : List UInt8) {i : ℕ} (h : i < bs.length) :
    m.write p bs (p + i) = bs[i] := by
  simp [Memory.write, h]

lemma write_ne {m : Memory} {p j : ℕ} {bs : List UInt8} {b : UInt8} (hb : b ∉ bs) (hm : m j ≠ b) :
    m.write p bs j ≠ b := by
  by_cases h : p ≤ j ∧ j < p + bs.length
  · obtain ⟨i, rfl⟩ := Nat.exists_eq_add_of_le h.1
    have hi : i < bs.length := by omega
    rw [write_inside m p bs hi]
    exact fun he => hb (he ▸ List.getElem_mem hi)
  · rw [write_outside m p bs (by omega)]
    exact hm

lemma write_append (m : Memory) (p : ℕ) (xs ys : List UInt8) :
    m.write p (xs ++ ys) = (m.write p xs).write (p + xs.length) ys := by
  funext j
  by_cases hy : p + xs.length ≤ j ∧ j < p + xs.length + ys.length
  · have hj : j - p - xs.length = j - (p + xs.length) := by omega
    simp [Memory.write, hy, show p ≤ j by omega, show j < p + (xs.length + ys.length) by omega,
      List.getElem?_append_right (show xs.length ≤ j - p by omega), hj]
  · by_cases hx : p ≤ j ∧ j < p + xs.length
    · simp [Memory.write, hy, hx, show j < p + (xs.length + ys.length) by omega,
        List.getElem?_append_left (show j - p < xs.length by omega)]
    · have hn : ¬ (p ≤ j ∧ j < p + (xs.length + ys.length)) := by omega
      simp [Memory.write, hy, hx, hn]

lemma bytesAt_add (m : Memory) (p n k : ℕ) : bytesAt m p (n + k) = bytesAt m p n ++ bytesAt m (p + n) k := by
  simp only [bytesAt, List.range_add, List.map_append, List.map_map, Function.comp_def, add_assoc]

lemma bytesAt_cut (m : Memory) {lo k hi : ℕ} (hl : lo ≤ k) (hk : k < hi) :
    bytesAt m lo (hi - lo) = bytesAt m lo (k - lo) ++ m k :: bytesAt m (k + 1) (hi - (k + 1)) := by
  have hlen : hi - lo = (k - lo) + (1 + (hi - (k + 1))) := by omega
  have hlo : lo + (k - lo) = k := by omega
  rw [hlen, bytesAt_add, bytesAt_add, hlo]
  simp [bytesAt]

lemma bytesAt_congr {m m' : Memory} {p n : ℕ} (h : ∀ i, p ≤ i → i < p + n → m i = m' i) :
    bytesAt m p n = bytesAt m' p n := by
  apply List.map_congr_left
  intro i hi
  have hlt := List.mem_range.mp hi
  exact h (p + i) (by omega) (by omega)

lemma bytesAt_write_behind (m : Memory) {p n q : ℕ} (bs : List UInt8) (h : p + n ≤ q) :
    bytesAt (m.write q bs) p n = bytesAt m p n := by
  apply bytesAt_congr
  intro i _ hi
  exact write_outside m q bs (.inl (by omega))

lemma bytesAt_write_next (m : Memory) (p n : ℕ) (bs : List UInt8) :
    bytesAt (m.write (p + n) bs) p (n + bs.length) = bytesAt m p n ++ bs := by
  have hold : bytesAt (m.write (p + n) bs) p n = bytesAt m p n := bytesAt_write_behind m bs le_rfl
  have hnew : bytesAt (m.write (p + n) bs) (p + n) bs.length = bs := by
    refine List.ext_getElem (by simp [bytesAt]) fun i hi hi' => ?_
    simp only [bytesAt, List.getElem_map, List.getElem_range]
    exact write_inside m (p + n) bs hi'
  rw [bytesAt_add, hold, hnew]

lemma set_write (m : Memory) {p i : ℕ} (b : UInt8) (bs : List UInt8) (h : i < p) :
    (m.write p bs).set i b = (m.set i b).write p bs := by
  funext j
  by_cases hj : j = i
  · subst j
    rw [set_self, write_outside _ _ _ (.inl h), set_self]
  · rw [set_of_ne _ _ hj]
    simp only [Memory.write, Memory.set, hj, if_false]

lemma write_write (m : Memory) {p q : ℕ} (as bs : List UInt8) (h : q + as.length ≤ p) :
    (m.write p bs).write q as = (m.write q as).write p bs := by
  funext j
  by_cases hj : q ≤ j ∧ j < q + as.length
  · have hn : ¬ (p ≤ j ∧ j < p + bs.length) := by omega
    simp only [Memory.write, hj, hn, and_self, if_true, if_false]
  · simp only [Memory.write, hj, if_false]

lemma scan_congr {m m' : Memory} {n p z : ℕ} (hp : p ≤ z) (hz : z < p + n) (h0 : m z = 0)
    (h : ∀ i, p ≤ i → i ≤ z → m i = m' i) : scan m n p = scan m' n p := by
  induction n generalizing p with
  | zero => omega
  | succ n ih =>
    have hh := h p le_rfl hp
    by_cases hc : m p = 0
    · simp only [scan, hc, ← hh, if_true]
    · have hne : p ≠ z := fun he => hc (he ▸ h0)
      simp only [scan, ← hh, hc, if_false]
      rw [ih (by omega) (by omega) (fun i hi => h i (by omega))]

lemma scan_length_le {m : Memory} {n p z : ℕ} (hp : p ≤ z) (hz : z < p + n) (h0 : m z = 0) :
    p + (scan m n p).length ≤ z := by
  induction n generalizing p with
  | zero => omega
  | succ n ih =>
    by_cases hc : m p = 0
    · simpa [scan, hc] using hp
    · have hne : p ≠ z := fun he => hc (he ▸ h0)
      have hr := ih (p := p + 1) (by omega) (by omega)
      simp only [scan, hc, if_false, List.length_cons]
      omega

lemma scan_write (m : Memory) {s : List UInt8} (hs : 0 ∉ s) {n : ℕ} (hn : s.length ≤ n) (p : ℕ) :
    scan (m.write p (s ++ [0])) n p = s := by
  induction s generalizing m n p with
  | nil =>
    cases n with
    | zero => rfl
    | succ n => simp [scan, Memory.write]
  | cons b s ih =>
    cases n with
    | zero => cases hn
    | succ n =>
      have hb : m.write p (b :: s ++ [0]) p = b := by simp [Memory.write]
      have hm : m.write p (b :: s ++ [0]) = (m.write p [b]).write (p + 1) (s ++ [0]) :=
        write_append m p [b] (s ++ [0])
      have hne : b ≠ 0 := fun h => hs (h ▸ List.mem_cons_self)
      rw [scan, hb, if_neg hne, hm, ih _ (List.not_mem_of_not_mem_cons hs) (Nat.le_of_succ_le_succ hn)]

lemma str_write_self (m : Memory) {limit p : ℕ} {s : List UInt8} (hs : 0 ∉ s) (hl : p + s.length ≤ limit) :
    str limit (m.write p (s ++ [0])) p = s := scan_write m hs (by omega) p

lemma str_eq_cons {m : Memory} {limit p : ℕ} (hp : p < limit) (h : m p ≠ 0) :
    str limit m p = m p :: str limit m (p + 1) := by
  rw [str, str, show limit - p = limit - (p + 1) + 1 by omega, scan, if_neg h]

lemma str_eq_nil {m : Memory} {p : ℕ} (limit : ℕ) (h : m p = 0) : str limit m p = [] := by
  rw [str]
  cases limit - p with
  | zero => rfl
  | succ n => rw [scan, if_pos h]

lemma zero_not_mem_scan (m : Memory) (n p : ℕ) : 0 ∉ scan m n p := by
  induction n generalizing p with
  | zero => exact List.not_mem_nil
  | succ n ih =>
    rw [scan]
    split_ifs with h
    · exact List.not_mem_nil
    · exact List.not_mem_cons_of_ne_of_not_mem (Ne.symm h) (ih (p + 1))

lemma zero_not_mem_str (limit : ℕ) (m : Memory) (p : ℕ) : 0 ∉ str limit m p := zero_not_mem_scan m _ p

lemma scan_local {m m' : Memory} {n p : ℕ} (h : ∀ i, p ≤ i → i < p + n → m i = m' i) :
    scan m n p = scan m' n p := by
  induction n generalizing p with
  | zero => rfl
  | succ n ih =>
    rw [scan, scan, h p le_rfl (by omega), ih fun i hi hn => h i (by omega) (by omega)]

lemma scan_drop {m : Memory} {n p k : ℕ} (hk : k ≤ (scan m n p).length) :
    scan m (n - k) (p + k) = (scan m n p).drop k := by
  induction k generalizing n p with
  | zero => rfl
  | succ k ih =>
    cases n with
    | zero => simp [scan] at hk
    | succ n =>
      by_cases hc : m p = 0
      · simp [scan, hc] at hk
      · simp only [scan, hc, if_false, List.length_cons, List.drop_succ_cons] at hk ⊢
        rw [← ih (by omega), Nat.succ_sub_succ, Nat.add_right_comm, Nat.add_assoc]

lemma scan_set_take {m : Memory} {n p k : ℕ} (hk : k ≤ (scan m n p).length) :
    scan (m.set (p + k) 0) n p = (scan m n p).take k := by
  induction k generalizing n p with
  | zero =>
    cases n with
    | zero => rfl
    | succ n => simp [scan]
  | succ k ih =>
    cases n with
    | zero => simp [scan] at hk
    | succ n =>
      by_cases hc : m p = 0
      · simp [scan, hc] at hk
      · simp only [scan, hc, if_false, List.length_cons] at hk
        have hp : m.set (p + (k + 1)) 0 p = m p := set_of_ne _ _ (by omega)
        have hi := ih (n := n) (p := p + 1) (by omega)
        rw [show p + 1 + k = p + (k + 1) by omega] at hi
        simp only [scan, hp, hc, if_false, List.take_succ_cons, hi]

lemma findIdx?_eq_takeWhile {α : Type*} (P : α → Bool) (l : List α) :
    l.findIdx? P = if l.dropWhile (!P ·) = [] then none else some (l.takeWhile (!P ·)).length := by
  induction l with
  | nil => rfl
  | cons a l ih =>
    cases ha : P a with
    | true => simp [List.findIdx?_cons, ha]
    | false =>
      simp only [List.findIdx?_cons, ha, ih, List.dropWhile_cons, List.takeWhile_cons, Bool.not_false]
      split_ifs <;> simp_all

lemma drop_takeWhile {α : Type*} (P : α → Bool) (l : List α) : l.drop (l.takeWhile P).length = l.dropWhile P := by
  have h : (l.takeWhile P ++ l.dropWhile P).drop (l.takeWhile P).length = l.dropWhile P := List.drop_left
  rwa [List.takeWhile_append_dropWhile] at h

lemma take_takeWhile {α : Type*} (P : α → Bool) (l : List α) : l.take (l.takeWhile P).length = l.takeWhile P := by
  have h : (l.takeWhile P ++ l.dropWhile P).take (l.takeWhile P).length = l.takeWhile P := List.take_left
  rwa [List.takeWhile_append_dropWhile] at h

section Suffixes

variable {limit : ℕ} {m : Memory} {p k q : ℕ}

lemma str_drop (hk : k ≤ (str limit m p).length) : str limit m (p + k) = (str limit m p).drop k := by
  rw [str, ← Nat.sub_sub]
  exact scan_drop hk

lemma str_set_take (hk : k ≤ (str limit m p).length) : str limit (m.set (p + k) 0) p = (str limit m p).take k :=
  scan_set_take hk

lemma str_set_before (b : UInt8) (hq : q < p) : str limit (m.set q b) p = str limit m p :=
  scan_local fun _ hi _ => set_of_ne _ _ (by omega)

lemma takeWhile_length_le {α : Type*} (P : α → Bool) (l : List α) : (l.takeWhile P).length ≤ l.length :=
  (List.takeWhile_sublist P).length_le

lemma str_skip (accept : List UInt8) :
    str limit m (p + strspn limit m p accept) = (str limit m p).dropWhile (accept.contains ·) := by
  rw [strspn, str_drop (takeWhile_length_le _ _), drop_takeWhile]

lemma strpbrk_eq (accept : List UInt8) :
    strpbrk limit m p accept = if (str limit m p).dropWhile (!accept.contains ·) = [] then none
      else some (p + ((str limit m p).takeWhile (!accept.contains ·)).length) := by
  rw [strpbrk, findIdx?_eq_takeWhile]
  split_ifs <;> rfl

lemma strchr_eq (c : UInt8) :
    strchr limit m p c = if (str limit m p).dropWhile (!· == c) = [] then none
      else some (p + ((str limit m p).takeWhile (!· == c)).length) := by
  rw [strchr, findIdx?_eq_takeWhile]
  split_ifs <;> rfl

end Suffixes

lemma byte_eq_headD {m : Memory} {limit p : ℕ} (hp : p < limit) : m p = (str limit m p).headD 0 := by
  by_cases h : m p = 0
  · rw [str_eq_nil limit h, h]
    rfl
  · rw [str_eq_cons hp h]
    rfl

lemma str_eq_append {m : Memory} {limit p : ℕ} {s : List UInt8} (hs : 0 ∉ s) (hp : p + s.length ≤ limit)
    (h : ∀ i (hi : i < s.length), m (p + i) = s[i]) : str limit m p = s ++ str limit m (p + s.length) := by
  induction s generalizing p with
  | nil => rfl
  | cons b s ih =>
    have hb : m p = b := h 0 (Nat.succ_pos _)
    rw [List.length_cons] at hp
    have hrest : ∀ i (hi : i < s.length), m (p + 1 + i) = s[i] := by
      intro i hi
      have hnext := h (i + 1) (Nat.succ_lt_succ hi)
      rwa [show p + (i + 1) = p + 1 + i by omega] at hnext
    have hne : m p ≠ 0 := fun h0 => hs (by simp [← hb, h0])
    rw [str_eq_cons (by omega) hne, hb, ih (List.not_mem_of_not_mem_cons hs) (by omega) hrest,
      List.length_cons, show p + 1 + s.length = p + (s.length + 1) by omega, List.cons_append]

lemma str_takeWhile {m : Memory} {limit p : ℕ} {s : List UInt8} (hp : p + s.length < limit)
    (h : ∀ i (hi : i < s.length), m (p + i) = s[i]) (h0 : m (p + s.length) = 0) :
    str limit m p = s.takeWhile (· ≠ 0) := by
  induction s generalizing p with
  | nil => exact str_eq_nil limit h0
  | cons b s ih =>
    have hb : m p = b := h 0 (Nat.zero_lt_succ _)
    rw [List.length_cons] at hp h0
    by_cases hz : b = 0
    · rw [str_eq_nil limit (hb.trans hz), List.takeWhile_cons_of_neg (by simp [hz])]
    · have hrest := ih (p := p + 1) (by omega)
        (fun i hi => by rw [Nat.add_assoc, Nat.add_comm 1]; exact h (i + 1) (Nat.succ_lt_succ hi))
        (by rw [Nat.add_assoc, Nat.add_comm 1]; exact h0)
      rw [str_eq_cons (by omega) (by rw [hb]; exact hz), hb, hrest, List.takeWhile_cons_of_pos (by simp [hz])]

lemma first_break_unique {α : Type*} {P : α → Prop} {s s' x y : List α} {a b : α} (hs : ∀ e ∈ s, ¬ P e)
    (hs' : ∀ e ∈ s', ¬ P e) (ha : P a) (hb : P b) (h : s ++ a :: x = s' ++ b :: y) : s = s' ∧ a = b ∧ x = y := by
  induction s generalizing s' with
  | nil =>
    cases s' with
    | nil => exact ⟨rfl, List.cons.inj h⟩
    | cons e s' => exact absurd ha ((List.cons.inj h).1 ▸ hs' e List.mem_cons_self)
  | cons d s ih =>
    cases s' with
    | nil => exact absurd hb ((List.cons.inj h).1 ▸ hs d List.mem_cons_self)
    | cons e s' =>
      obtain ⟨rfl, hrest⟩ := List.cons.inj h
      obtain ⟨rfl, hab⟩ := ih (fun e he => hs e (List.mem_cons_of_mem _ he))
        (fun e he => hs' e (List.mem_cons_of_mem _ he)) hrest
      exact ⟨rfl, hab⟩

lemma str_beyond {m : Memory} {limit p : ℕ} (h : limit ≤ p) : str limit m p = [] := by
  rw [str, Nat.sub_eq_zero_of_le h]
  rfl

lemma strncpy_outside (m : Memory) (text : List UInt8) {p n j : ℕ} (h : j < p ∨ p + n ≤ j) :
    strncpy m p text n j = m j := by
  refine write_outside _ _ _ (h.imp_right fun hj => ?_)
  simp only [List.length_append, List.length_take, List.length_replicate]
  omega

lemma str_strncpy {m : Memory} {limit p n : ℕ} {text : List UInt8} (h0 : 0 ∉ text)
    (hp : p + (text.take n).length ≤ limit) (hn : n ≤ text.length → m (p + n) = 0 ∨ limit ≤ p + n) :
    str limit (strncpy m p text n) p = text.take n := by
  have hcopy : ∀ i (hi : i < (text.take n).length), strncpy m p text n (p + i) = (text.take n)[i] := by
    intro i hi
    rw [strncpy, write_inside _ _ _ (by rw [List.length_append]; omega), List.getElem_append_left]
  have hend : str limit (strncpy m p text n) (p + (text.take n).length) = [] := by
    by_cases hle : n ≤ text.length
    · rw [List.length_take, Nat.min_eq_left hle]
      rcases hn hle with hz | hl
      · refine str_eq_nil limit ?_
        rw [strncpy_outside _ _ (.inr le_rfl), hz]
      · exact str_beyond hl
    · refine str_eq_nil limit ?_
      have hlen : (text.take n).length = text.length := by
        rw [List.length_take]
        omega
      rw [strncpy, write_inside _ _ _ (by rw [List.length_append, List.length_replicate]; omega),
        List.getElem_append_right le_rfl, List.getElem_replicate]
  rw [str_eq_append (fun h => h0 (List.mem_of_mem_take h)) hp hcopy, hend, List.append_nil]

lemma strrchr_eq {m : Memory} {limit p : ℕ} {c : UInt8} {a s : List UInt8} (h : str limit m p = a ++ c :: s)
    (hs : c ∉ s) : strrchr limit m p c = some (p + a.length) := by
  have hn : ∀ b ∈ s.reverse, (!b == c) = true := by
    intro b hb
    have hne : b ≠ c := fun he => hs (he ▸ List.mem_reverse.mp hb)
    simpa using hne
  have hidx : (a ++ c :: s).reverse.findIdx? (· == c) = some s.length := by
    rw [List.reverse_append, List.reverse_cons, List.append_assoc, findIdx?_eq_takeWhile,
      List.dropWhile_append_of_pos hn, List.takeWhile_append_of_pos hn]
    simp
  rw [strrchr, h, hidx]
  simp

section Ended

variable {limit : ℕ} {m m' : Memory} {p q z : ℕ} (hp : p ≤ z) (hz : z < limit) (h0 : m z = 0)
include hp hz h0

lemma str_congr (h : ∀ i, p ≤ i → i ≤ z → m i = m' i) : str limit m p = str limit m' p :=
  scan_congr hp (by omega) h0 h

lemma str_length_le : p + (str limit m p).length ≤ z := scan_length_le hp (by omega) h0

lemma strpbrk_bounds {accept : List UInt8} (h : strpbrk limit m p accept = some q) :
    p ≤ q ∧ q < z := by
  have hl := str_length_le hp hz h0
  simp only [strpbrk, Option.map_eq_some_iff] at h
  obtain ⟨i, hi, rfl⟩ := h
  have hlt := (List.findIdx?_eq_some_iff_getElem.mp hi).1
  omega

lemma strchr_bounds {c : UInt8} (h : strchr limit m p c = some q) : p ≤ q ∧ q < z := by
  have hl := str_length_le hp hz h0
  simp only [strchr, Option.map_eq_some_iff] at h
  obtain ⟨i, hi, rfl⟩ := h
  have hlt := (List.findIdx?_eq_some_iff_getElem.mp hi).1
  omega

lemma strspn_le (accept : List UInt8) : p + strspn limit m p accept ≤ z := by
  have hl := str_length_le hp hz h0
  have ht := (List.takeWhile_sublist (p := (accept.contains ·)) (l := str limit m p)).length_le
  simp only [strspn]
  omega

lemma strcasecmp_length {s : List UInt8} (h : strcasecmp limit m p s = true) :
    p + s.length ≤ z := by
  have hl := str_length_le hp hz h0
  have hs := congrArg List.length (eq_of_beq h)
  simp only [List.length_map] at hs
  omega

lemma strncasecmp_length {s : List UInt8} {n : ℕ} (h : strncasecmp limit m p s n = true)
    (hn : n ≤ s.length) : p + n ≤ z := by
  have hl := str_length_le hp hz h0
  have hs := congrArg List.length (eq_of_beq h)
  simp only [List.length_map, List.length_take] at hs
  omega

end Ended

section Written

variable {limit : ℕ} {m : Memory} {p r z : ℕ} (hp : p ≤ z) (hz : z < r) (hr : r ≤ limit) (h0 : m z = 0)
include hp hz hr h0

lemma str_write (bs : List UInt8) : str limit (m.write r bs) p = str limit m p :=
  (str_congr hp (hz.trans_le hr) h0 fun _ _ hi => (write_outside _ _ _ (.inl (by omega))).symm).symm

lemma strpbrk_write (bs accept : List UInt8) :
    strpbrk limit (m.write r bs) p accept = strpbrk limit m p accept := by
  simp only [strpbrk, str_write hp hz hr h0]

lemma strchr_write (bs : List UInt8) (c : UInt8) :
    strchr limit (m.write r bs) p c = strchr limit m p c := by
  simp only [strchr, str_write hp hz hr h0]

lemma strspn_write (bs accept : List UInt8) :
    strspn limit (m.write r bs) p accept = strspn limit m p accept := by
  simp only [strspn, str_write hp hz hr h0]

lemma strcasecmp_write (bs s : List UInt8) :
    strcasecmp limit (m.write r bs) p s = strcasecmp limit m p s := by
  simp only [strcasecmp, str_write hp hz hr h0]

lemma strncasecmp_write (bs s : List UInt8) (n : ℕ) :
    strncasecmp limit (m.write r bs) p s n = strncasecmp limit m p s n := by
  simp only [strncasecmp, str_write hp hz hr h0]

lemma atol_write (bs : List UInt8) : atol limit (m.write r bs) p = atol limit m p := by
  simp only [atol, str_write hp hz hr h0]

lemma strcat_write {s : List UInt8} (bs : List UInt8)
    (hs : p + (str limit m p).length + s.length < r) :
    strcat limit (m.write r bs) p s = (strcat limit m p s).write r bs := by
  rw [strcat, strcat, str_write hp hz hr h0]
  exact write_write _ _ _ (by simp only [List.length_append, List.length_singleton]; omega)

end Written

end OceanServer.Library.CString
