import OceanServer.Http.Credentials
import OceanServer.Library.SqlLiteral

/-! The `INSERT` statement that `do_request` builds from a submitted account, read by the rules for string
literals. -/

namespace OceanServer.Http

open Library Library.CString Library.SqlLiteral

def insertText : List UInt8 := ascii "INSERT INTO user(username,passwd) VALUES(".toList

def Carries (a : Account) : Prop :=
  ∃ sep : List UInt8, (sep.filter fun b => !isSpace b) = [chr ','] ∧
    tokens .outside (sqlInsert a) =
      some (insertText.map .symbol ++ .literal a.1 :: (sep.map .symbol ++ [.literal a.2, .symbol (chr ')')]))

def behindName (password : List UInt8) : List UInt8 := chr ',' :: chr ' ' :: quote :: (password ++ [quote, chr ')'])

lemma sqlInsert_eq (a : Account) :
    sqlInsert a = insertText ++ quote :: (a.1 ++ quote :: behindName a.2) := by
  simp only [sqlInsert, behindName, insertText, List.append_assoc]
  rfl

lemma tokens_sqlInsert (a : Account) :
    tokens .outside (sqlInsert a) =
      (tokens (.inside []) (a.1 ++ quote :: behindName a.2)).map (insertText.map .symbol ++ ·) := by
  rw [sqlInsert_eq, tokens_symbols (by decide), tokens_open]

lemma tokens_behindName (password : List UInt8) :
    tokens .outside (behindName password) =
      (tokens (.inside []) (password ++ [quote, chr ')'])).map ([chr ',', chr ' '].map .symbol ++ ·) := by
  have hquote : quote ∉ [chr ',', chr ' '] := by decide
  rw [← tokens_open, ← tokens_symbols hquote]
  rfl

lemma carries_of_verbatim {a : Account} (hn : Verbatim a.1) (hp : Verbatim a.2) : Carries a := by
  refine ⟨[chr ',', chr ' '], by decide, ?_⟩
  have hend : tokens .outside [chr ')'] = some [.symbol (chr ')')] := rfl
  have hnext : (behindName a.2).head? ≠ some quote := fun hq => absurd (Option.some.inj hq) (by decide)
  rw [tokens_sqlInsert, tokens_reads hn.reads hnext,
    tokens_behindName, tokens_reads hp.reads (by decide), hend]
  rfl

-- The literal ends at the quote behind the name: the next quotes are too far for the password to follow.
lemma name_body {name password s rest sep : List UInt8}
    (hsplit : name ++ quote :: behindName password = s ++ quote :: rest) (hs : Reads s name)
    (hrest : tokens .outside rest = some (sep.map .symbol ++ [.literal password, .symbol (chr ')')])) :
    s = name ∧ rest = behindName password := by
  have hle := hs.length_le
  have hsize := size_le_length hrest
  have htotal := congrArg List.length hsplit
  simp only [behindName, List.length_append, List.length_cons, List.length_nil] at htotal
  simp only [List.map_append, List.map_cons, List.map_nil, List.sum_append, List.sum_cons, List.sum_nil,
    Token.size] at hsize
  have hget : ∀ i : ℕ, (name ++ quote :: behindName password)[i]? = (s ++ quote :: rest)[i]? := fun i => by rw [hsplit]
  have hquote := hget s.length
  rw [List.getElem?_append_right le_rfl, Nat.sub_self, List.getElem?_cons_zero,
    List.getElem?_append_right hle] at hquote
  have hlen : s.length = name.length := by
    obtain ⟨d, hd⟩ := Nat.exists_eq_add_of_le hle
    rw [hd, Nat.add_sub_cancel_left] at hquote
    rcases d with - | - | - | d
    · exact hd
    · exact absurd (show some (chr ',') = some quote from hquote) (by decide)
    · exact absurd (show some (chr ' ') = some quote from hquote) (by decide)
    · omega
  obtain ⟨rfl, htail⟩ := List.append_inj hsplit hlen.symm
  exact ⟨rfl, (List.cons.inj htail).2.symm⟩

lemma password_body {password s rest : List UInt8} (hsplit : password ++ [quote, chr ')'] = s ++ quote :: rest)
    (hs : Reads s password) : s = password := by
  have hle := hs.length_le
  have htotal := congrArg List.length hsplit
  simp only [List.length_append, List.length_cons, List.length_nil] at htotal
  have hlen : s.length = password.length := by
    by_contra hne
    obtain rfl : rest = [] := List.length_eq_zero_iff.mp (by omega)
    have hlast := congrArg List.getLast? hsplit
    simp only [List.getLast?_append, List.getLast?_cons_cons, List.getLast?_singleton, Option.some_or] at hlast
    exact absurd hlast (by decide)
  exact (List.append_inj hsplit hlen.symm).1.symm

lemma verbatim_of_carries {a : Account} (h : Carries a) : Verbatim a.1 ∧ Verbatim a.2 := by
  obtain ⟨sep, -, h⟩ := h
  rw [tokens_sqlInsert] at h
  obtain ⟨ts, hts, hcancel⟩ := Option.map_eq_some_iff.mp h
  obtain rfl := List.append_cancel_left hcancel
  obtain ⟨s, v, rest, ts', hsplit, hs, heq, hrest⟩ := tokens_inside hts
  obtain ⟨hv, rfl⟩ := List.cons.inj heq
  obtain rfl : a.1 = v := Token.literal.inj hv
  obtain ⟨rfl, rfl⟩ := name_body hsplit hs hrest
  rw [tokens_behindName] at hrest
  obtain ⟨ts, hts, hcancel⟩ := Option.map_eq_some_iff.mp hrest
  obtain ⟨s', v', rest', ts', hsplit', hs', rfl, -⟩ := tokens_inside hts
  obtain ⟨-, hv', -⟩ := first_literal_unique hcancel
  obtain rfl : v' = a.2 := hv'
  obtain rfl := password_body hsplit' hs'
  exact ⟨hs.verbatim le_rfl, hs'.verbatim le_rfl⟩

theorem statement_carries_iff (a : Account) : Carries a ↔ Verbatim a.1 ∧ Verbatim a.2 :=
  ⟨verbatim_of_carries, fun h => carries_of_verbatim h.1 h.2⟩

-- The quote in the name ends the first literal, and the last quote of the statement opens one that never ends.
theorem statement_broken_by_quote :
    credentials (lineOf "user=o'neill&password=x".toList).readBuf (some 0) =
        .ok (ascii "o'neill".toList, ascii "x".toList) ∧
      (sqlInsert (ascii "o'neill".toList, ascii "x".toList)).length < 200 ∧
      tokens .outside (sqlInsert (ascii "o'neill".toList, ascii "x".toList)) = none ∧
      ¬ Carries (ascii "o'neill".toList, ascii "x".toList) := by
  refine ⟨by decide +kernel, by decide +kernel, by decide +kernel, fun h => ?_⟩
  exact absurd (verbatim_of_carries h).1.2.2.1 (by decide)

end OceanServer.Http
