import OceanServer.Net.Pattern

/-! Patterns written from a list of literal texts and items, and what the scan makes of them. -/

namespace OceanServer.Net

open Library Library.CString

inductive Piece where
  | literal (text : List UInt8)
  | item (name fmt : List UInt8)
  deriving DecidableEq, Repr

namespace Piece

def Valid : Piece → Prop
  | .literal text => text ≠ []
  | .item name fmt => name ≠ [] ∧
    (∀ c ∈ name, isSpace c = false ∧ c ≠ percent ∧ c ≠ brace ∧ c ≠ endBrace) ∧
    ∀ c ∈ fmt, isSpace c = false ∧ c ≠ brace ∧ c ≠ endBrace

def text : Piece → List UInt8
  | .literal text => text
  | .item _ _ => []

end Piece

def escape (text : List UInt8) : List UInt8 :=
  text.flatMap fun c => if c = percent then [percent, percent] else [c]

def Piece.render : Piece → List UInt8
  | .literal text => escape text
  | .item name fmt => percent :: name ++ brace :: fmt ++ [endBrace]

def render (ts : List Piece) : List UInt8 := ts.flatMap Piece.render

def mergeFrom : List UInt8 → List Piece → List Token
  | acc, [] => literal acc
  | acc, .literal text :: ts => mergeFrom (acc ++ text) ts
  | acc, .item name fmt :: ts => literal acc ++ ⟨name, fmt, 1⟩ :: mergeFrom [] ts

def merge (ts : List Piece) : List Token := mergeFrom [] ts

def text (ts : List Piece) : List UInt8 := ts.flatMap Piece.text

/-- Only a literal text with a `%`, in a pattern whose scan ends, comes back changed. -/
def Recovered (ts : List Piece) : Prop :=
  (∃ name fmt, Piece.item name fmt ∈ ts) ∨ percent ∉ text ts ∨ ¬ AllClosed (text ts)

section Literals

lemma literal_length_le (vstr w : List UInt8) : (literal vstr).length ≤ (literal (vstr ++ w)).length := by
  cases vstr <;> simp [literal]

lemma literal_length {vstr : List UInt8} (h : vstr ≠ []) : (literal vstr).length = 1 := by
  simp [literal, h]

lemma tokens_cons {c : UInt8} (hc : c ≠ percent) (rest vstr : List UInt8) (vec : List Token) :
    tokens (c :: rest) vstr vec = tokens rest (vstr ++ [c]) vec := by
  rw [tokens.eq_def]
  simp [hc]

lemma tokens_percent (rest vstr : List UInt8) (vec : List Token) :
    tokens (percent :: percent :: rest) vstr vec = tokens (percent :: rest) (vstr ++ [percent]) vec := by
  conv_lhs => rw [tokens.eq_def]
  simp

lemma tokens_plain {rest : List UInt8} (h : percent ∉ rest) (vstr : List UInt8) (vec : List Token) :
    tokens rest vstr vec = some (vec ++ literal (vstr ++ rest)) := by
  induction rest generalizing vstr with
  | nil => simp [tokens]
  | cons c rest ih =>
    simp only [List.mem_cons, not_or] at h
    simp [tokens_cons (Ne.symm h.1), ih h.2]

lemma tokens_length {rest vstr : List UInt8} {vec v : List Token} (h : tokens rest vstr vec = some v) :
    vec.length + (literal vstr).length ≤ v.length := by
  fun_induction tokens rest vstr vec with
  | case1 vstr vec =>
    cases h
    simp
  | case2 c rest vstr vec _ ih =>
    have := literal_length_le vstr [c]
    have := ih h
    omega
  | case3 c vstr vec =>
    cases h
    simp
  | case4 c vstr vec _ tail ih =>
    have := literal_length_le vstr [percent]
    have := ih h
    omega
  | case6 | case10 => cases h
  | case5 c vstr vec _ b tail _ _ ih | case9 c vstr vec _ b _ _ _ tail _ ih =>
    have hlen := ih h
    simp at hlen
    omega
  | case7 c vstr vec _ b _ _ _ ih | case8 c vstr vec _ b _ _ _ d tail _ ih =>
    have hlen := ih h
    simp at hlen
    omega

lemma tokens_twice {rest vstr : List UInt8} {vec v : List Token} (hp : percent ∈ rest) (hv : vstr ≠ [])
    (h : tokens rest vstr vec = some v) : vec.length + 2 ≤ v.length := by
  -- `vstr` is never cleared: an item behind a literal text writes it, and the end writes it again.
  fun_induction tokens rest vstr vec with
  | case1 => cases hp
  | case2 c rest vstr vec hc ih =>
    apply ih _ (by simp) h
    simpa [Ne.symm hc] using hp
  | case3 c vstr vec =>
    cases h
    simp [literal_length hv]
  | case4 c vstr vec _ tail ih => exact ih (by simp) (by simp) h
  | case6 | case10 => cases h
  | case5 c vstr vec _ b tail _ _ ih | case9 c vstr vec _ b _ _ _ tail _ ih =>
    have hlen := tokens_length h
    simp [literal_length hv] at hlen
    omega
  | case7 c vstr vec _ b _ _ _ ih | case8 c vstr vec _ b _ _ _ d tail _ ih =>
    have hlen := tokens_length h
    simp [literal_length hv] at hlen
    omega

end Literals

section Rendered

lemma escape_cons (c : UInt8) (rest : List UInt8) :
    escape (c :: rest) = if c = percent then percent :: percent :: escape rest else c :: escape rest := by
  by_cases h : c = percent <;> simp [escape, h]

lemma escape_eq_self {text : List UInt8} (h : percent ∉ text) : escape text = text := by
  induction text with
  | nil => rfl
  | cons c rest ih =>
    simp only [List.mem_cons, not_or] at h
    simp [escape_cons, Ne.symm h.1, ih h.2]

lemma percent_mem_escape {text : List UInt8} (h : percent ∈ text) : percent ∈ escape text :=
  List.mem_flatMap.mpr ⟨percent, h, by simp⟩

lemma closed_escape (text : List UInt8) : Closed (escape text) ↔ Closed text := by
  cases text with
  | nil => simp [escape]
  | cons b rest =>
    by_cases hb : b = percent
    · simp [escape_cons, hb, Closed]
    · cases rest with
      | nil => simp [hb, escape]
      | cons d rest => by_cases hd : d = percent <;> simp [escape_cons, hb, hd, Closed]

lemma allClosed_escape (text : List UInt8) : AllClosed (escape text) ↔ AllClosed text := by
  induction text with
  | nil => simp [escape]
  | cons c rest ih =>
    by_cases hc : c = percent
    · have hp : Closed (percent :: escape rest) := .inl rfl
      simp [escape_cons, hc, allClosed_cons, closed_escape, ih, hp]
    · simp [escape_cons, hc, allClosed_cons, ih]

variable {ts : List Piece}

lemma not_allClosed_item {name fmt : List UInt8} (hvalid : (Piece.item name fmt).Valid)
    (h : Piece.item name fmt ∈ ts) : ¬ AllClosed (render ts) := by
  intro hclosed
  obtain ⟨hne, hname, -⟩ := hvalid
  obtain ⟨front, back, rfl⟩ := List.append_of_mem h
  cases name with
  | nil => exact hne rfl
  | cons c name =>
    obtain ⟨hspace, hp, hb, -⟩ := hname c List.mem_cons_self
    have hr : render (front ++ Piece.item (c :: name) fmt :: back) =
        render front ++ percent :: c :: (name ++ brace :: fmt ++ [endBrace] ++ render back) := by
      simp [render, Piece.render]
    exact not_closed hp (by simp [hspace]) hb (hclosed _ _ hr)

lemma render_literals (h : ∀ name fmt, Piece.item name fmt ∉ ts) : render ts = escape (text ts) := by
  induction ts with
  | nil => rfl
  | cons t ts ih =>
    have hts : render ts = escape (text ts) := ih fun name fmt hm => h name fmt (List.mem_cons_of_mem _ hm)
    cases t with
    | literal w => simpa [render, text, Piece.render, Piece.text, escape] using hts
    | item name fmt => exact absurd List.mem_cons_self (h name fmt)

lemma mergeFrom_literals (h : ∀ name fmt, Piece.item name fmt ∉ ts) (acc : List UInt8) :
    mergeFrom acc ts = literal (acc ++ text ts) := by
  induction ts generalizing acc with
  | nil => simp [mergeFrom, text]
  | cons t ts ih =>
    cases t with
    | literal w =>
      rw [mergeFrom, ih fun name fmt hm => h name fmt (List.mem_cons_of_mem _ hm)]
      simp [text, Piece.text]
    | item name fmt => exact absurd List.mem_cons_self (h name fmt)

lemma escaped_twice {text : List UInt8} {v : List Token} (hp : percent ∈ text)
    (h : tokens (escape text) [] [] = some v) : 2 ≤ v.length := by
  cases text with
  | nil => cases hp
  | cons c rest =>
    by_cases hc : c = percent
    · -- the second of the two `%` is scanned again, now behind a literal text
      rw [hc, escape_cons, if_pos rfl, tokens_percent] at h
      simpa using tokens_twice List.mem_cons_self (by simp) h
    · have hrest : percent ∈ rest := by simpa [Ne.symm hc] using hp
      rw [escape_cons, if_neg hc, tokens_cons hc] at h
      simpa using tokens_twice (percent_mem_escape hrest) (by simp) h

theorem scan_recovers_iff (ts : List Piece) (hvalid : ∀ t ∈ ts, t.Valid) :
    (∀ vec, Ends (render ts) vec → vec = merge ts) ↔ Recovered ts := by
  by_cases hitem : ∃ name fmt, Piece.item name fmt ∈ ts
  · have hopen : ¬ AllClosed (render ts) := by
      obtain ⟨name, fmt, hm⟩ := hitem
      exact not_allClosed_item (hvalid _ hm) hm
    refine ⟨fun _ => .inl hitem, fun _ vec hvec => ?_⟩
    exact absurd (ends_some_iff.mp ⟨vec, hvec⟩) hopen
  · have hno : ∀ name fmt, Piece.item name fmt ∉ ts := fun name fmt hm => hitem ⟨name, fmt, hm⟩
    have hmerge : merge ts = literal (text ts) := mergeFrom_literals hno []
    rw [Recovered, or_iff_right hitem, render_literals hno, hmerge]
    constructor
    · intro h
      by_contra hnot
      obtain ⟨hp, hclosed⟩ := not_or.mp hnot
      obtain ⟨vec, hvec⟩ := ends_some_iff.mpr ((allClosed_escape _).mpr (not_not.mp hclosed))
      have htwo := escaped_twice (not_not.mp hp) (ends_iff.mp hvec)
      have hone : (literal (text ts)).length = 1 := literal_length (List.ne_nil_of_mem (not_not.mp hp))
      rw [h vec hvec] at htwo
      omega
    · rintro (hp | hopen) vec hvec
      · rw [escape_eq_self hp, ends_iff, tokens_plain hp] at hvec
        simpa using (Option.some.inj hvec).symm
      · exact absurd (ends_some_iff.mp ⟨vec, hvec⟩) (mt (allClosed_escape _).mp hopen)

theorem scan_recovers_literal :
    (∀ t ∈ [Piece.literal (ascii "pid".toList)], t.Valid) ∧
      ∀ vec, Ends (render [.literal (ascii "pid".toList)]) vec → vec = merge [.literal (ascii "pid".toList)] := by
  have hvalid : ∀ t ∈ [Piece.literal (ascii "pid".toList)], t.Valid := by
    simp [Piece.Valid, ascii]
  refine ⟨hvalid, (scan_recovers_iff _ hvalid).mpr (.inr (.inl ?_))⟩
  decide

theorem scan_percent_twice :
    let ts := [Piece.literal (ascii "100%".toList)]
    let token : Token := ⟨ascii "100%".toList, [], 0⟩
    (∀ t ∈ ts, t.Valid) ∧ render ts = ascii "100%%".toList ∧ merge ts = [token] ∧
      Ends (render ts) [token, ⟨[], [], 1⟩, token] := by
  refine ⟨?_, by decide, by decide, ?_⟩
  · simp [Piece.Valid, ascii]
  · rw [ends_iff]
    decide

end Rendered

end OceanServer.Net
