import OceanServer.Library.CString

/-! `sscanf` for formats of plain characters, `%ld` and `%d`. -/

namespace OceanServer.Library.Scanf

open CString (longMin longMax)

def isBlank (c : Char) : Bool := c.toNat = 32 ∨ (9 ≤ c.toNat ∧ c.toNat ≤ 13)

def readNat (text : List Char) : Option (ℕ × List Char) :=
  let digits := text.takeWhile Char.isDigit
  if digits = [] then none else some (Nat.ofDigitChars 10 digits 0, text.dropWhile Char.isDigit)

def readInteger (text : List Char) : Option (ℤ × List Char) :=
  match text.dropWhile isBlank with
  | '-' :: rest => (readNat rest).map fun x => (-x.1, x.2)
  | '+' :: rest => (readNat rest).map fun x => (x.1, x.2)
  | rest => (readNat rest).map fun x => (x.1, x.2)

inductive Directive where
  | char (c : Char)
  | long
  | int
  deriving DecidableEq, Repr

def directives : List Char → List Directive
  | '%' :: 'l' :: 'd' :: rest => .long :: directives rest
  | '%' :: 'd' :: rest => .int :: directives rest
  | c :: rest => .char c :: directives rest
  | [] => []

def toLong (n : ℤ) : ℤ := max longMin (min longMax n)

def toInt (n : ℤ) : ℤ := (toLong n).bmod (2 ^ 32)

def assigned : List Directive → List Char → List ℤ
  | [], _ => []
  | .char _ :: _, [] => []
  | .char c :: ds, d :: text => if d = c then assigned ds text else []
  | .long :: ds, text =>
    match readInteger text with
    | some (n, rest) => toLong n :: assigned ds rest
    | none => []
  | .int :: ds, text =>
    match readInteger text with
    | some (n, rest) => toInt n :: assigned ds rest
    | none => []

def sscanf (text : List Char) (format : String) : List ℤ := assigned (directives format.toList) text

def NoDigit (rest : List Char) : Prop := ∀ c ∈ rest.head?, c.isDigit = false

lemma digit_ne {c : Char} (h : c.isDigit = true) : isBlank c = false ∧ c ≠ '-' ∧ c ≠ '+' := by
  refine ⟨?_, ?_, ?_⟩
  · simp only [Char.isDigit, Bool.and_eq_true, decide_eq_true_eq] at h
    have hle : 48 ≤ c.toNat := UInt32.le_iff_toNat_le.mp h.1
    rw [isBlank, decide_eq_false_iff_not]
    omega
  · rintro rfl
    exact absurd h (by decide)
  · rintro rfl
    exact absurd h (by decide)

lemma readNat_toDigits (n : ℕ) {rest : List Char} (h : NoDigit rest) :
    readNat (Nat.toDigits 10 n ++ rest) = some (n, rest) := by
  have hdigits : ∀ c ∈ Nat.toDigits 10 n, c.isDigit = true := fun c hc =>
    Nat.isDigit_of_mem_toDigits (by decide) (by decide) hc
  have htake : rest.takeWhile Char.isDigit = [] := by
    cases rest with
    | nil => rfl
    | cons c rest => simp [h c rfl]
  have hdrop : rest.dropWhile Char.isDigit = rest := by
    cases rest with
    | nil => rfl
    | cons c rest => simp [h c rfl]
  simp [readNat, List.takeWhile_append_of_pos hdigits, List.dropWhile_append_of_pos hdigits, htake, hdrop,
    Nat.ofDigitChars_toDigits]

lemma readInteger_toDigits (n : ℕ) {rest : List Char} (h : NoDigit rest) :
    readInteger (Nat.toDigits 10 n ++ rest) = some ((n : ℤ), rest) := by
  have hread := readNat_toDigits n h
  cases hd : Nat.toDigits 10 n with
  | nil => exact absurd hd (by simp)
  | cons c w =>
    have hc : c.isDigit = true :=
      Nat.isDigit_of_mem_toDigits (b := 10) (n := n) (by decide) (by decide) (hd ▸ List.mem_cons_self)
    obtain ⟨hblank, hminus, hplus⟩ := digit_ne hc
    rw [hd, List.cons_append] at hread
    simp [readInteger, hblank, hread, hminus, hplus]

lemma readInteger_negative (n : ℕ) {rest : List Char} (h : NoDigit rest) :
    readInteger ('-' :: (Nat.toDigits 10 n ++ rest)) = some (-(n : ℤ), rest) := by
  have hminus : isBlank '-' = false := by decide
  simp [readInteger, hminus, readNat_toDigits n h]

def number : ℤ → List Char
  | .ofNat n => Nat.toDigits 10 n
  | .negSucc n => '-' :: Nat.toDigits 10 (n + 1)

def atoi (text : List Char) : Int32 :=
  match readInteger text with
  | some (n, _) => Int32.ofInt (toLong n)
  | none => 0

end OceanServer.Library.Scanf
