import OceanServer.Http.DoRequest
import OceanServer.Library.Runs

/-! The map `users` against the table `user`: requests handled one after another, where the database may
refuse an INSERT. -/

namespace OceanServer.Http

open Library Library.CString

def initmysqlResult (table : List Account) : Accounts where
  users := table.foldl (fun users row => Function.update users row.1 (some row.2)) fun _ => none
  table := table

structure Call where
  conn : HttpConn
  files : List UInt8 → FileStat
  inserted : Bool

def Call.run (r : Call) (s : Accounts) : Except Fault (HttpCode × HttpConn × Accounts) :=
  doRequest r.files r.inserted r.conn s

def Call.registers (r : Call) : Option Bool := r.conn.read.registers

inductive Handles (s : Accounts) (r : Call) (t : Accounts) : Prop
  | intro {b code d} : r.registers = some b → r.run s = .ok (code, d, t) → Handles s r t

def Call.AnsweredWith (r : Call) (s : Accounts) (page : Page) : Prop :=
  ∃ code d t, r.run s = .ok (code, d, t) ∧ d.answer = some page.url

def Agrees (s : Accounts) : Prop := ∀ name password, s.users name = some password ↔ (name, password) ∈ s.table

structure AnswersRight (s : Accounts) (r : Call) (t : Accounts) : Prop where
  registration : r.registers = some true → r.AnsweredWith s .registerError → t.users = s.users
  login : r.registers = some false → ∀ a, r.conn.account = .ok a → (r.AnsweredWith s .welcome ↔ a ∈ s.table)

def Consistent (table : List Account) : Prop :=
  ∀ name password password', (name, password) ∈ table → (name, password') ∈ table → password = password'

def Call.Inserts (r : Call) (s : Accounts) : Prop :=
  r.registers = some true ∧ ∃ a, r.conn.account = .ok a ∧ s.users a.1 = none

lemma initmysqlResult_snoc (table : List Account) (row : Account) :
    (initmysqlResult (table ++ [row])).users =
      Function.update (initmysqlResult table).users row.1 (some row.2) := by
  simp [initmysqlResult]

lemma mem_of_initmysqlResult {table : List Account} {name password : List UInt8}
    (h : (initmysqlResult table).users name = some password) : (name, password) ∈ table := by
  induction table using List.reverseRecOn with
  | nil => cases h
  | append_singleton table row ih =>
    rw [initmysqlResult_snoc] at h
    rw [List.mem_append, List.mem_singleton]
    by_cases hn : name = row.1
    · subst hn
      rw [Function.update_self] at h
      cases h
      exact .inr rfl
    · rw [Function.update_of_ne hn] at h
      exact .inl (ih h)

lemma initmysqlResult_of_mem {table : List Account} {name password : List UInt8}
    (h : (name, password) ∈ table) : ∃ password', (initmysqlResult table).users name = some password' := by
  induction table using List.reverseRecOn with
  | nil => cases h
  | append_singleton table row ih =>
    rw [initmysqlResult_snoc]
    by_cases hn : name = row.1
    · exact ⟨row.2, by rw [hn, Function.update_self]⟩
    · rw [Function.update_of_ne hn]
      rw [List.mem_append, List.mem_singleton] at h
      rcases h with h | rfl
      · exact ih h
      · exact absurd rfl hn

lemma agrees_initmysqlResult (table : List Account) : Agrees (initmysqlResult table) ↔ Consistent table := by
  constructor
  · intro h name password password' hp hp'
    have hu := (h name password).mpr hp
    rw [(h name password').mpr hp'] at hu
    cases hu
    rfl
  · intro h name password
    change _ ↔ (name, password) ∈ table
    refine ⟨mem_of_initmysqlResult, fun hm => ?_⟩
    obtain ⟨password', hu⟩ := initmysqlResult_of_mem hm
    rw [hu, h name password password' hm (mem_of_initmysqlResult hu)]

lemma answeredWith_iff {r : Call} {s t : Accounts} {code : HttpCode} {d : HttpConn} {page page' : Page}
    (h : r.run s = .ok (code, d, t)) (hd : d.answer = some page.url) :
    r.AnsweredWith s page' ↔ page = page' := by
  constructor
  · rintro ⟨code', d', t', h', hd'⟩
    rw [h] at h'
    cases h'
    rw [hd] at hd'
    exact Page.url_injective (Option.some.inj hd')
  · rintro rfl
    exact ⟨code, d, t, h, hd⟩

lemma users_insert_new {s : Accounts} {a : Account} (inserted : Bool) (h : s.users a.1 = none) :
    (s.insert inserted a).users a.1 = some a.2 := by
  simp only [Accounts.insert, h, if_true, Function.update_self]

lemma users_insert_of_ne (s : Accounts) (inserted : Bool) {a : Account} {name : List UInt8}
    (hn : name ≠ a.1) : (s.insert inserted a).users name = s.users name := by
  unfold Accounts.insert
  split
  · exact Function.update_of_ne hn _ _
  · rfl

lemma users_insert_old {s : Accounts} {a : Account} (inserted : Bool) (h : s.users a.1 ≠ none) :
    (s.insert inserted a).users = s.users := if_neg h

lemma users_insert_self (s : Accounts) (inserted : Bool) (a : Account) :
    (s.insert inserted a).users a.1 ≠ none := by
  by_cases h : s.users a.1 = none
  · rw [users_insert_new inserted h]
    exact Option.some_ne_none _
  · rwa [users_insert_old inserted h]

lemma users_insert_ne_none {s : Accounts} {name : List UInt8} (inserted : Bool) (a : Account)
    (h : s.users name ≠ none) : (s.insert inserted a).users name ≠ none := by
  by_cases hn : name = a.1
  · rw [hn]
    exact users_insert_self s inserted a
  · rwa [users_insert_of_ne s inserted hn]

lemma Agrees.insert {s : Accounts} (h : Agrees s) {a : Account} (ha : s.users a.1 = none) :
    Agrees (s.insert true a) := by
  intro name password
  change _ ↔ (name, password) ∈ s.table ++ [a]
  rw [List.mem_append, List.mem_singleton]
  by_cases hn : name = a.1
  · subst hn
    rw [users_insert_new true ha]
    constructor
    · rintro ⟨⟩
      exact .inr rfl
    · rintro (hm | hm)
      · cases ha.symm.trans ((h _ _).mpr hm)
      · rw [← hm]
  · rw [users_insert_of_ne s true hn]
    refine (h name password).trans ⟨.inl, ?_⟩
    rintro (hm | rfl)
    · exact hm
    · exact absurd rfl hn

inductive Effect (s : Accounts) (r : Call) : Page → Accounts → Prop
  | login {a} : r.registers = some false → r.conn.account = .ok a → Effect s r (s.login a) s
  | known {a} : r.registers = some true → r.conn.account = .ok a → s.users a.1 ≠ none →
      Effect s r .registerError s
  | insert {a} : r.registers = some true → r.conn.account = .ok a → s.users a.1 = none →
      Effect s r (insertPage r.inserted) (s.insert r.inserted a)

lemma Handles.effect {s t : Accounts} {r : Call} (h : Handles s r t) :
    ∃ page, Effect s r page t ∧ ∀ page', r.AnsweredWith s page' ↔ page = page' := by
  obtain ⟨hb, hrun⟩ := h
  rename_i b code d
  obtain ⟨a, page, ha, hcheck, hans⟩ := doRequest_account hb hrun
  refine ⟨page, ?_, fun page' => answeredWith_iff hrun hans⟩
  cases b with
  | false =>
    cases hcheck
    exact .login hb ha
  | true =>
    simp only [checkAccount, if_true, Accounts.register] at hcheck
    split at hcheck
    · split at hcheck
      · cases hcheck
        exact .insert hb ha ‹_›
      · cases hcheck
        exact .known hb ha ‹_›
    · cases hcheck

lemma Call.handles {r : Call} {s : Accounts} {b : Bool} (hb : r.registers = some b)
    (h : (r.run s).isOk = true) : ∃ t, Handles s r t := by
  cases hr : r.run s with
  | error e =>
    rw [hr] at h
    cases h
  | ok x => exact ⟨x.2.2, hb, hr⟩

lemma login_eq_welcome (s : Accounts) (a : Account) : s.login a = .welcome ↔ s.users a.1 = some a.2 := by
  unfold Accounts.login
  split
  · exact iff_of_true rfl ‹_›
  · exact iff_of_false (by decide) ‹_›

lemma insert_users_ne {s : Accounts} {a : Account} (inserted : Bool) (ha : s.users a.1 = none) :
    (s.insert inserted a).users ≠ s.users := by
  intro h
  have hself := congrFun h a.1
  rw [users_insert_new inserted ha, ha] at hself
  cases hself

lemma handles_agrees {s t : Accounts} {r : Call} (hs : Agrees s) (h : Handles s r t) :
    Agrees t ∧ AnswersRight s r t ↔ (r.Inserts s → r.inserted = true) := by
  obtain ⟨page, heff, hpage⟩ := h.effect
  cases heff with
  | @login a hb ha =>
    refine iff_of_true ⟨hs, fun hr => ?_, fun _ a' ha' => ?_⟩ fun ⟨hr, _⟩ => ?_
    · exact nomatch hb.symm.trans hr
    · cases ha.symm.trans ha'
      rw [hpage, login_eq_welcome, hs a.1 a.2]
    · exact nomatch hb.symm.trans hr
  | @known a hb ha hold =>
    refine iff_of_true ⟨hs, fun _ _ => rfl, fun hr => ?_⟩ fun ⟨_, a', ha', hnew⟩ => ?_
    · exact nomatch hb.symm.trans hr
    · cases ha.symm.trans ha'
      exact absurd hnew hold
  | @insert a hb ha hnew =>
    have hi : r.Inserts s := ⟨hb, a, ha, hnew⟩
    cases hins : r.inserted with
    | true =>
      refine iff_of_true ⟨hs.insert hnew, fun _ hp => ?_, fun hr => ?_⟩ fun _ => rfl
      · rw [hpage, hins] at hp
        cases hp
      · exact nomatch hb.symm.trans hr
    | false =>
      refine iff_of_false (fun ⟨_, hr⟩ => ?_) fun hA => nomatch hA hi
      have hans : r.AnsweredWith s .registerError := (hpage _).mpr (by rw [hins]; rfl)
      exact insert_users_ne false hnew (hr.registration hb hans)

def Mirrors (table : List Account) (calls : List Call) : Prop :=
  Agrees (initmysqlResult table) ∧
    Along Handles (fun s r t => Agrees t ∧ AnswersRight s r t) (initmysqlResult table) calls

theorem accounts_mirror_table_iff (table : List Account) (calls : List Call) :
    Mirrors table calls ↔
      Consistent table ∧
        Along Handles (fun s r _ => r.Inserts s → r.inserted = true) (initmysqlResult table) calls := by
  refine Iff.trans ?_ (and_congr_left' (agrees_initmysqlResult table))
  exact and_congr_right fun h0 => along_iff (B := fun _ => True) trivial h0 (fun _ _ _ _ _ => trivial)
    (fun _ _ _ _ hs h => handles_agrees hs h) calls

def postForm (page : Char) : List UInt8 :=
  ascii ['P', 'O', 'S', 'T', ' ', '/', page, ' ', 'H', 'T', 'T', 'P', '/', '1', '.', '1'] ++ [cr, lf] ++
    ascii ['C', 'o', 'n', 't', 'e', 'n', 't', '-', 'l', 'e', 'n', 'g', 't', 'h', ':', ' ', '1', '7'] ++
    [cr, lf, cr, lf] ++
    ascii ['u', 's', 'e', 'r', '=', 'a', '&', 'p', 'a', 's', 's', 'w', 'o', 'r', 'd', '=', 'b']

def received (bytes : List UInt8) : HttpConn :=
  let c := (default : HttpConn).init (ascii ['/', 'w'])
  match processRead (fun _ _ => .noRequest) (c.read.receive bytes) with
  | some (.doRequest _ d) => { c with read := d }
  | _ => c

def formCall (page : Char) (inserted : Bool) : Call where
  conn := received (postForm page)
  files := fun _ => .found true false 10
  inserted := inserted

theorem accounts_mirror_table_failed_insert :
    ∃ s, Handles (initmysqlResult []) (formCall '3' false) s ∧
      (formCall '3' false).AnsweredWith (initmysqlResult []) .registerError ∧
      s.users (ascii ['a']) = some (ascii ['b']) ∧ s.table = [] ∧
      (formCall '2' false).AnsweredWith s .welcome ∧ ¬ Mirrors [] [formCall '3' false] := by
  -- The INSERT of `a` fails on an empty table. The answer is `/registerError.html`, the map has the account all
  -- the same, and the login that follows is answered with `/welcome.html`.
  have hb : (formCall '3' false).registers = some true := by decide +kernel
  have ha : (formCall '3' false).conn.account = .ok (ascii ['a'], ascii ['b']) := by decide +kernel
  obtain ⟨s, hs⟩ := Call.handles hb (show ((formCall '3' false).run (initmysqlResult [])).isOk = true by
    decide +kernel)
  obtain ⟨page, heff, hpage⟩ := hs.effect
  cases heff with
  | login hb' => exact nomatch hb.symm.trans hb'
  | known _ _ hold => exact absurd rfl hold
  | insert _ ha' hnew =>
    cases ha.symm.trans ha'
    refine ⟨_, hs, (hpage _).mpr rfl, rfl, rfl, ?_, ?_⟩
    · have hb₂ : (formCall '2' false).registers = some false := by decide +kernel
      have ha₂ : (formCall '2' false).conn.account = .ok (ascii ['a'], ascii ['b']) := by decide +kernel
      obtain ⟨t, ht⟩ := Call.handles hb₂ (show ((formCall '2' false).run
        ((initmysqlResult []).insert false (ascii ['a'], ascii ['b']))).isOk = true by decide +kernel)
      obtain ⟨page₂, heff₂, hpage₂⟩ := ht.effect
      cases heff₂ with
      | login _ ha₃ =>
        cases ha₂.symm.trans ha₃
        exact (hpage₂ _).mpr rfl
      | known hb₃ => exact nomatch hb₂.symm.trans hb₃
      | insert hb₃ => exact nomatch hb₂.symm.trans hb₃
    · intro hm
      have hright := hm.2 [] _ [] _ _ rfl .nil hs
      exact nomatch (handles_agrees hm.1 hs).mp hright ⟨hb, _, ha, hnew⟩

end OceanServer.Http
