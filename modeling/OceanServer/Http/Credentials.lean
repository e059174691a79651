import OceanServer.Http.DoRequest
import OceanServer.Http.Reception

/-! The loops of `do_request` that take name and password out of the body: what they read of `m_string`, and
what fits the arrays they fill. -/

namespace OceanServer.Http

open Library Library.CString

def copyWithin (last : ℕ) (stop : UInt8) (full : Fault) (m : Memory) : ℕ → ℕ → Except Fault (List UInt8)
  | 0, _ => .error full
  | room + 1, i =>
    if last < i then .error .string
    else if m i = stop then .ok []
    else (copyWithin last stop full m room (i + 1)).map (m i :: ·)

def credentialsWithin (last : ℕ) (m : Memory) (s : ℕ) : Except Fault Account := do
  let name ← copyWithin last (chr '&') .name m 100 (s + 5)
  let password ← copyWithin last 0 .password m 100 (s + 5 + name.length + 10)
  return (name.takeWhile (· ≠ 0), password)

/-- The loops read `m_string` up to its NUL at most, and the arrays they fill hold what they write. -/
def SafeExtraction (m : Memory) (s : ℕ) (registers : Bool) : Prop :=
  ∃ a, credentialsWithin (s + (str readBufferSize m s).length) m s = .ok a ∧
    (registers = true → (sqlInsert a).length < 200)

def FormBody (body name password : List UInt8) : Prop :=
  ∃ key sep, body = key ++ (name ++ chr '&' :: (sep ++ password)) ∧ key.length = 5 ∧ sep.length = 9 ∧ chr '&' ∉ name

def FitsArrays (registers : Bool) (name password : List UInt8) : Prop :=
  name.length ≤ 99 ∧ password.length ≤ 99 ∧ (registers = true → name.length + password.length ≤ 151)

section Copies

variable {last room i : ℕ} {stop : UInt8} {full : Fault} {m : Memory} {t out : List UInt8}

lemma copyUntil_eq (stop : UInt8) (full : Fault) (m : Memory) (room i : ℕ) :
    copyUntil stop full m room i = copyWithin (readBufferSize - 1) stop full m room i := by
  induction room generalizing i with
  | zero => rfl
  | succ room ih =>
    have hread : readBufferSize ≤ i ↔ readBufferSize - 1 < i := by
      simp only [readBufferSize]
      omega
    rw [copyUntil, copyWithin, ih]
    simp only [hread]

lemma credentials_eq (m : Memory) (s : ℕ) : credentials m (some s) = credentialsWithin (readBufferSize - 1) m s := by
  simp only [credentials, credentialsWithin, copyUntil_eq]

lemma map_ok {α β : Type} {x : Except Fault α} {f : α → β} {r : β} :
    x.map f = .ok r ↔ ∃ a, x = .ok a ∧ f a = r := by
  cases x with
  | error e => simp [Except.map]
  | ok a => simp [Except.map]

lemma copyWithin_mono {last' : ℕ} (hl : last ≤ last') (h : copyWithin last stop full m room i = .ok out) :
    copyWithin last' stop full m room i = .ok out := by
  induction room generalizing i out with
  | zero => cases h
  | succ room ih =>
    rw [copyWithin] at h ⊢
    split_ifs at h with hi hstop
    · rw [if_neg (by omega), if_pos hstop]
      exact h
    · obtain ⟨o, ho, hout⟩ := map_ok.mp h
      rw [if_neg (by omega), if_neg hstop]
      exact map_ok.mpr ⟨o, ih ho, hout⟩

lemma copyWithin_beyond (h : last < i) : copyWithin last stop full m room i ≠ .ok out := by
  cases room with
  | zero => simp [copyWithin]
  | succ room => simp [copyWithin, h]

lemma copyWithin_iff (hstop : stop ≠ 0) (ht : str readBufferSize m i = t) (hlast : i + t.length = last)
    (hlt : last < readBufferSize) :
    copyWithin last stop full m room i = .ok out ↔
      ∃ rest, t = out ++ stop :: rest ∧ stop ∉ out ∧ out.length < room := by
  induction room generalizing i t out with
  | zero => simp [copyWithin]
  | succ room ih =>
    rw [copyWithin, if_neg (by omega)]
    by_cases h0 : m i = 0
    · have hnil : t = [] := ht.symm.trans (str_eq_nil _ h0)
      subst hnil
      rw [h0, if_neg hstop.symm, map_ok]
      simp only [List.length_nil, Nat.add_zero] at hlast
      constructor
      · rintro ⟨o, ho, -⟩
        exact absurd ho (copyWithin_beyond (by omega))
      · rintro ⟨rest, he, -⟩
        cases out <;> cases he
    · have hcons := ht.symm.trans (str_eq_cons (by omega) h0)
      subst hcons
      rw [List.length_cons] at hlast
      by_cases hm : m i = stop
      · rw [if_pos hm]
        constructor
        · rintro ⟨⟩
          exact ⟨_, by rw [hm]; rfl, by simp, by simp⟩
        · rintro ⟨rest, he, hnot, -⟩
          cases out with
          | nil => rfl
          | cons b out =>
            rw [List.cons_append, List.cons.injEq] at he
            exact absurd (List.mem_cons.mpr (.inl (hm.symm.trans he.1))) hnot
      · rw [if_neg hm, map_ok]
        constructor
        · rintro ⟨o, ho, rfl⟩
          obtain ⟨rest, he, hnot, hlen⟩ := (ih rfl (by omega)).mp ho
          refine ⟨rest, by rw [he]; rfl, ?_, Nat.succ_lt_succ hlen⟩
          simp [hnot, Ne.symm hm]
        · rintro ⟨rest, he, hnot, hlen⟩
          cases out with
          | nil => exact absurd (List.cons.inj he).1 hm
          | cons b out =>
            rw [List.cons_append, List.cons.injEq] at he
            obtain ⟨rfl, he⟩ := he
            exact ⟨out, (ih rfl (by omega)).mpr ⟨rest, he, List.not_mem_of_not_mem_cons hnot,
              Nat.lt_of_succ_lt_succ hlen⟩, rfl⟩

lemma copyWithin_nul_iff (ht : str readBufferSize m i = t) (hlast : i + t.length = last)
    (hlt : last < readBufferSize) :
    copyWithin last 0 full m room i = .ok out ↔ out = t ∧ t.length < room := by
  induction room generalizing i t out with
  | zero => simp [copyWithin]
  | succ room ih =>
    rw [copyWithin, if_neg (by omega)]
    by_cases h0 : m i = 0
    · have hnil : t = [] := ht.symm.trans (str_eq_nil _ h0)
      subst hnil
      rw [if_pos h0]
      simp [eq_comm]
    · have hcons := ht.symm.trans (str_eq_cons (by omega) h0)
      subst hcons
      rw [List.length_cons] at hlast
      rw [if_neg h0, map_ok, List.length_cons]
      constructor
      · rintro ⟨o, ho, rfl⟩
        obtain ⟨rfl, hlen⟩ := (ih rfl (by omega)).mp ho
        exact ⟨rfl, Nat.succ_lt_succ hlen⟩
      · rintro ⟨rfl, hlen⟩
        exact ⟨_, (ih rfl (by omega)).mpr ⟨rfl, Nat.lt_of_succ_lt_succ hlen⟩, rfl⟩

end Copies

section Extraction

variable {m : Memory} {s : ℕ} {body name password : List UInt8}

lemma sqlInsert_length (a : Account) : (sqlInsert a).length = 48 + a.1.length + a.2.length := by
  have htext : "INSERT INTO user(username,passwd) VALUES(".toList.length = 41 := by decide
  simp only [sqlInsert, ascii, List.length_append, List.length_map, htext, List.length_cons, List.length_nil]
  omega

lemma FitsArrays.statement {registers : Bool} (h : FitsArrays registers name password) (hr : registers = true) :
    (sqlInsert (name, password)).length < 200 := by
  have hsum := h.2.2 hr
  rw [sqlInsert_length]
  change 48 + name.length + password.length < 200
  omega

lemma ok_bind {α β : Type} (a : α) (f : α → Except Fault β) : (Except.ok a >>= f) = f a := rfl

lemma takeWhile_name (hbody : 0 ∉ body) (h : FormBody body name password) : name.takeWhile (· ≠ 0) = name := by
  obtain ⟨key, sep, rfl, -⟩ := h
  refine List.takeWhile_eq_self_iff.mpr fun b hb => ?_
  have hne : b ≠ 0 := fun he => hbody (by simp [← he, hb])
  simpa using hne

lemma str_behind (hb : str readBufferSize m s = body) {pre post : List UInt8} (hsplit : body = pre ++ post) :
    str readBufferSize m (s + pre.length) = post := by
  subst hsplit
  rw [str_drop (by rw [hb]; simp), hb, List.drop_left]

lemma FormBody.split (h : FormBody body name password) : ∃ key sep, key.length = 5 ∧ sep.length = 9 ∧
    body = key ++ (name ++ chr '&' :: (sep ++ password)) ∧
    body = (key ++ name ++ chr '&' :: sep) ++ password := by
  obtain ⟨key, sep, rfl, hk, hs, -⟩ := h
  exact ⟨key, sep, hk, hs, rfl, by simp⟩

lemma credentialsWithin_ok (hb : str readBufferSize m s = body) (hend : s + body.length < readBufferSize)
    (h : FormBody body name password) (hn : name.length ≤ 99) (hp : password.length ≤ 99) :
    credentialsWithin (s + body.length) m s = .ok (name, password) := by
  obtain ⟨key, sep, hk, hs, hbody, hbody'⟩ := h.split
  have hnot : chr '&' ∉ name := by
    obtain ⟨_, _, _, _, _, hnot⟩ := h
    exact hnot
  have hlen := congrArg List.length hbody
  simp only [List.length_append, List.length_cons] at hlen
  have hname : copyWithin (s + body.length) (chr '&') .name m 100 (s + 5) = .ok name := by
    have ht := str_behind hb hbody
    rw [hk] at ht
    refine (copyWithin_iff (by decide) ht ?_ hend).mpr ⟨_, rfl, hnot, by omega⟩
    simp only [List.length_append, List.length_cons]
    omega
  have hpassword : copyWithin (s + body.length) 0 .password m 100 (s + 5 + name.length + 10) = .ok password := by
    have ht := str_behind hb hbody'
    have hpre : s + (key ++ name ++ chr '&' :: sep).length = s + 5 + name.length + 10 := by
      simp only [List.length_append, List.length_cons]
      omega
    rw [hpre] at ht
    exact (copyWithin_nul_iff ht (by omega) hend).mpr ⟨rfl, by omega⟩
  have hzero := takeWhile_name (hb ▸ zero_not_mem_str _ _ _) h
  rw [credentialsWithin, hname, ok_bind, hpassword, ok_bind, hzero]
  rfl

lemma credentialsWithin_mono {a : Account} {last last' : ℕ} (hl : last ≤ last')
    (h : credentialsWithin last m s = .ok a) : credentialsWithin last' m s = .ok a := by
  obtain ⟨name, hname, h⟩ := bind_ok h
  obtain ⟨password, hpassword, h⟩ := bind_ok h
  rw [credentialsWithin, copyWithin_mono hl hname, ok_bind, copyWithin_mono hl hpassword, ok_bind]
  exact h

lemma FormBody.length_ge (h : FormBody body name password) : 15 ≤ body.length := by
  obtain ⟨key, sep, rfl, hk, hs, -⟩ := h
  simp only [List.length_append, List.length_cons]
  omega

lemma credentialsWithin_form {a : Account} (hb : str readBufferSize m s = body)
    (hend : s + body.length < readBufferSize) (h : credentialsWithin (s + body.length) m s = .ok a) :
    FormBody body a.1 a.2 ∧ a.1.length ≤ 99 ∧ a.2.length ≤ 99 := by
  obtain ⟨name, hname, h⟩ := bind_ok h
  obtain ⟨password, hpassword, h⟩ := bind_ok h
  have h5 : 5 ≤ body.length := by
    by_contra hlt
    exact copyWithin_beyond (by omega) hname
  have hkey : (body.take 5).length = 5 := by
    rw [List.length_take]
    omega
  have ht := str_behind hb (List.take_append_drop 5 body).symm
  rw [hkey] at ht
  obtain ⟨rest, hrest, hnot, hn⟩ := (copyWithin_iff (by decide) ht (by rw [List.length_drop]; omega) hend).mp hname
  have hlen := congrArg List.length hrest
  simp only [List.length_drop, List.length_append, List.length_cons] at hlen
  have h9 : 9 ≤ rest.length := by
    by_contra hlt
    exact copyWithin_beyond (by omega) hpassword
  have hsep : (rest.take 9).length = 9 := by
    rw [List.length_take]
    omega
  have hbody : body = (body.take 5 ++ name ++ chr '&' :: rest.take 9) ++ rest.drop 9 := by
    conv_lhs => rw [← List.take_append_drop 5 body, hrest, ← List.take_append_drop 9 rest]
    simp
  have hform : FormBody body name (rest.drop 9) :=
    ⟨body.take 5, rest.take 9, by rw [List.take_append_drop, ← hrest, List.take_append_drop], hkey, hsep, hnot⟩
  have ht' := str_behind hb hbody
  have hpre : s + (body.take 5 ++ name ++ chr '&' :: rest.take 9).length = s + 5 + name.length + 10 := by
    simp only [List.length_append, List.length_cons, hkey, hsep]
    omega
  rw [hpre] at ht'
  obtain ⟨rfl, hp⟩ := (copyWithin_nul_iff ht' (by rw [List.length_drop]; omega) hend).mp hpassword
  cases h
  rw [takeWhile_name (hb ▸ zero_not_mem_str _ _ _) hform]
  exact ⟨hform, Nat.le_of_lt_succ hn, Nat.le_of_lt_succ hp⟩

theorem credentials_safe_iff {registers : Bool} (hend : s + (str readBufferSize m s).length < readBufferSize) :
    SafeExtraction m s registers ↔
      ∃ name password, FormBody (str readBufferSize m s) name password ∧ FitsArrays registers name password := by
  constructor
  · rintro ⟨a, ha, hsql⟩
    obtain ⟨hform, hn, hp⟩ := credentialsWithin_form rfl hend ha
    rw [sqlInsert_length] at hsql
    exact ⟨a.1, a.2, hform, hn, hp, fun hr => by have := hsql hr; omega⟩
  · rintro ⟨name, password, hform, hfit⟩
    exact ⟨(name, password), credentialsWithin_ok rfl hend hform hfit.1 hfit.2.1, hfit.statement⟩

def formText (name password : List UInt8) : List UInt8 :=
  ascii "user=".toList ++ (name ++ chr '&' :: (ascii "password=".toList ++ password))

lemma formText_formBody (hname : chr '&' ∉ name) : FormBody (formText name password) name password :=
  ⟨ascii "user=".toList, ascii "password=".toList, rfl, rfl, rfl, hname⟩

lemma zero_not_mem_formText (hname : 0 ∉ name) (hpassword : 0 ∉ password) : 0 ∉ formText name password := by
  have hkeys : 0 ∉ ascii "user=".toList ∧ 0 ≠ chr '&' ∧ 0 ∉ ascii "password=".toList := by decide
  simp only [formText, List.mem_append, List.mem_cons, not_or]
  exact ⟨hkeys.1, hname, hkeys.2.1, hkeys.2.2, hpassword⟩

theorem credentials_formText (m : Memory) (hn : name.length ≤ 99) (hnot : chr '&' ∉ name) (hn₀ : 0 ∉ name)
    (hp : password.length ≤ 99) (hp₀ : 0 ∉ password) (hroom : s + (formText name password).length < readBufferSize) :
    credentials (m.write s (formText name password ++ [0])) (some s) = .ok (name, password) := by
  have hstr := str_write_self m (zero_not_mem_formText hn₀ hp₀) hroom.le
  rw [credentials_eq]
  exact credentialsWithin_mono (Nat.le_sub_one_of_lt hroom)
    (credentialsWithin_ok hstr hroom (formText_formBody hnot) hn hp)

end Extraction

-- An empty name, and a password with both of the form's separators in it.
theorem credentials_formText_separators :
    credentials (Memory.write (fun _ => 7) 40 (formText [] (ascii "a&user=b".toList) ++ [0])) (some 40) =
      .ok ([], ascii "a&user=b".toList) :=
  credentials_formText (fun _ => 7) (by decide) (by decide) (by decide) (by decide) (by decide) (by decide)

theorem credentials_safe_short_form : SafeExtraction (lineOf "user=ann&password=secret".toList).readBuf 0 true := by
  have hstr : str readBufferSize (lineOf "user=ann&password=secret".toList).readBuf 0 =
      ascii "user=ann&password=secret".toList := by decide +kernel
  refine (credentials_safe_iff (by rw [hstr]; decide)).mpr
    ⟨ascii "ann".toList, ascii "secret".toList, ⟨ascii "user=".toList, ascii "password=".toList, ?_, ?_⟩, ?_⟩
  · rw [hstr]
    decide
  · decide
  · rw [FitsArrays]
    decide

def extraction : Option Leave → Option (List UInt8 × Bool)
  | some (.doRequest .content c) => c.string.map fun s =>
      (str readBufferSize c.readBuf s,
        (credentialsWithin (s + (str readBufferSize c.readBuf s).length) c.readBuf s).toBool)
  | _ => none

theorem credentials_unsafe_without_ampersand : ∃ c s,
    processRead (fun _ _ => .noRequest)
      (lineOf "POST /3 HTTP/1.1\r\nContent-length: 8\r\n\r\nuser=ann".toList) = some (.doRequest .content c) ∧
      c.string = some s ∧ str readBufferSize c.readBuf s = ascii "user=ann".toList ∧
      ¬ SafeExtraction c.readBuf s true := by
  have h : extraction (processRead (fun _ _ => .noRequest)
      (lineOf "POST /3 HTTP/1.1\r\nContent-length: 8\r\n\r\nuser=ann".toList)) =
        some (ascii "user=ann".toList, false) := by decide +kernel
  generalize processRead (fun _ _ => .noRequest)
    (lineOf "POST /3 HTTP/1.1\r\nContent-length: 8\r\n\r\nuser=ann".toList) = l at h
  rcases l with - | ⟨code, c⟩ | ⟨- | - | -, c⟩ | -
  all_goals try cases h
  obtain ⟨s, hs, hbody⟩ := Option.map_eq_some_iff.mp h
  simp only [Prod.mk.injEq] at hbody
  refine ⟨c, s, rfl, hs, hbody.1, ?_⟩
  rintro ⟨a, ha, -⟩
  rw [ha] at hbody
  cases hbody.2

end OceanServer.Http
