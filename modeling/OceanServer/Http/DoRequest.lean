import OceanServer.Http.Response

/-! `do_request`: the credential branch with its copies into fixed buffers, the registration and the
login against the map `users`, and the path of the page that is served. -/

namespace OceanServer.Http

open Library Library.CString

def filenameLen : ℕ := 200

abbrev Account := List UInt8 × List UInt8

structure Accounts where
  users : List UInt8 → Option (List UInt8)
  table : List Account

inductive Fault where
  | url | urlReal | string | name | password | statement | readBuf | realFile
  deriving DecidableEq, Repr

structure HttpConn where
  read : ReadState
  realFile : Memory
  docRoot : List UInt8
  deriving Inhabited

def HttpConn.init (c : HttpConn) (root : List UInt8) : HttpConn :=
  { read := c.read.init, realFile := fun _ => 0, docRoot := root }

inductive Page where
  | log | registerError | welcome | logError
  deriving DecidableEq, Repr

def Page.url : Page → List UInt8
  | .log => ascii ['/', 'l', 'o', 'g', '.', 'h', 't', 'm', 'l']
  | .registerError =>
    ascii ['/', 'r', 'e', 'g', 'i', 's', 't', 'e', 'r', 'E', 'r', 'r', 'o', 'r', '.', 'h', 't', 'm', 'l']
  | .welcome => ascii ['/', 'w', 'e', 'l', 'c', 'o', 'm', 'e', '.', 'h', 't', 'm', 'l']
  | .logError => ascii ['/', 'l', 'o', 'g', 'E', 'r', 'r', 'o', 'r', '.', 'h', 't', 'm', 'l']

def copyUntil (stop : UInt8) (full : Fault) (m : Memory) : ℕ → ℕ → Except Fault (List UInt8)
  | 0, _ => .error full
  | room + 1, i =>
    if readBufferSize ≤ i then .error .string
    else if m i = stop then .ok []
    else (copyUntil stop full m room (i + 1)).map (m i :: ·)

def credentials (m : Memory) : Option ℕ → Except Fault Account
  | none => .error .string
  | some s => do
    let name ← copyUntil (chr '&') .name m 100 (s + 5)
    let password ← copyUntil 0 .password m 100 (s + 5 + name.length + 10)
    return (name.takeWhile (· ≠ 0), password)

def sqlInsert (a : Account) : List UInt8 :=
  ascii "INSERT INTO user(username,passwd) VALUES(".toList ++ ascii ['\''] ++ a.1 ++
    ascii ['\'', ',', ' ', '\''] ++ a.2 ++ ascii ['\'', ')']

def Accounts.insert (s : Accounts) (inserted : Bool) (a : Account) : Accounts where
  -- `std::map::insert` keeps the value of a key that is there
  users := if s.users a.1 = none then Function.update s.users a.1 (some a.2) else s.users
  table := if inserted then s.table ++ [a] else s.table

def insertPage (inserted : Bool) : Page := if inserted then .log else .registerError

def Accounts.register (s : Accounts) (inserted : Bool) (a : Account) : Page × Accounts :=
  if s.users a.1 = none then (insertPage inserted, s.insert inserted a) else (.registerError, s)

def Accounts.login (s : Accounts) (a : Account) : Page :=
  if s.users a.1 = some a.2 then .welcome else .logError

def HttpConn.setPath (c : HttpConn) (text : List UInt8) (n : ℕ) : Except Fault HttpConn :=
  if c.docRoot.length + n ≤ filenameLen then
    .ok { c with realFile := strncpy c.realFile c.docRoot.length text n }
  else .error .realFile

def HttpConn.restOfPath (c : HttpConn) : ℕ := filenameLen - c.docRoot.length - 1

def HttpConn.setUrl (c : HttpConn) (u : ℕ) (page : Page) : Except Fault HttpConn :=
  if u + page.url.length < readBufferSize then
    .ok { c with read := { c.read with readBuf := c.read.readBuf.write u (page.url ++ [0]) } }
  else .error .readBuf

def checkAccount (s : Accounts) (inserted registers : Bool) (a : Account) : Except Fault (Page × Accounts) :=
  if registers then
    if (sqlInsert a).length < 200 then .ok (s.register inserted a) else .error .statement
  else .ok (s.login a, s)

def ReadState.urlReal (c : ReadState) (u : ℕ) : List UInt8 := slash :: str readBufferSize c.readBuf (u + 2)

def HttpConn.copyUrl (c : HttpConn) (u : ℕ) : Except Fault HttpConn :=
  if (c.read.urlReal u).length < 200 then c.setPath (c.read.urlReal u) c.restOfPath else .error .urlReal

def HttpConn.cgiRequest (c : HttpConn) (s : Accounts) (inserted registers : Bool) (u : ℕ) :
    Except Fault (HttpConn × Accounts) := do
  let c ← c.copyUrl u
  let a ← credentials c.read.readBuf c.read.string
  let r ← checkAccount s inserted registers a
  let c ← c.setUrl u r.1
  return (c, r.2)

def digitPage (b : UInt8) : Option (List UInt8) :=
  if b = chr '0' then some (ascii "/register.html".toList)
  else if b = chr '1' then some (ascii "/log.html".toList)
  else if b = chr '5' then some (ascii "/picture.html".toList)
  else if b = chr '6' then some (ascii "/video.html".toList)
  else if b = chr '7' then some (ascii "/fans.html".toList)
  else none

def HttpConn.choosePath (c : HttpConn) (u p : ℕ) : Except Fault HttpConn :=
  match digitPage (c.read.readBuf (p + 1)) with
  | some page => c.setPath page page.length
  | none => c.setPath (str readBufferSize c.read.readBuf u) c.restOfPath

def HttpConn.path (c : HttpConn) : List UInt8 := str filenameLen c.realFile 0

def HttpConn.judgeFile (c : HttpConn) (files : List UInt8 → FileStat) : Except Fault HttpCode :=
  if c.path.length < filenameLen then .ok (files c.path).verdict else .error .realFile

def HttpConn.copyRoot (c : HttpConn) : Except Fault HttpConn :=
  if c.docRoot.length < filenameLen then .ok { c with realFile := c.realFile.write 0 (c.docRoot ++ [0]) }
  else .error .realFile

def ReadState.lastSlash (c : ReadState) : Except Fault (ℕ × ℕ) :=
  match c.url with
  | none => .error .url
  | some u =>
    match strrchr readBufferSize c.readBuf u slash with
    | none => .error .url
    | some p => .ok (u, p)

def HttpConn.afterCgi (c : HttpConn) (s : Accounts) (inserted : Bool) (u p : ℕ) :
    Except Fault (HttpConn × Accounts) :=
  let flag := c.read.readBuf (p + 1)
  if c.read.cgi = 1 ∧ (flag = chr '2' ∨ flag = chr '3') then
    c.cgiRequest s inserted (flag = chr '3') u
  else .ok (c, s)

def doRequest (files : List UInt8 → FileStat) (inserted : Bool) (c : HttpConn) (s : Accounts) :
    Except Fault (HttpCode × HttpConn × Accounts) := do
  let c ← c.copyRoot
  let (u, p) ← c.read.lastSlash
  let (c, s) ← c.afterCgi s inserted u p
  let c ← c.choosePath u p
  let code ← c.judgeFile files
  return (code, c, s)

def ReadState.registers (c : ReadState) : Option Bool :=
  match c.lastSlash with
  | .error _ => none
  | .ok (_, p) =>
    if c.cgi = 1 ∧ (c.readBuf (p + 1) = chr '2' ∨ c.readBuf (p + 1) = chr '3') then
      some (c.readBuf (p + 1) = chr '3')
    else none

def HttpConn.account (c : HttpConn) : Except Fault Account := credentials c.read.readBuf c.read.string

def HttpConn.answer (c : HttpConn) : Option (List UInt8) :=
  c.read.url.map (str readBufferSize c.read.readBuf)

lemma bind_ok {α β : Type} {x : Except Fault α} {f : α → Except Fault β} {r : β}
    (h : x >>= f = .ok r) : ∃ a, x = .ok a ∧ f a = .ok r := by
  cases x with
  | error e => cases h
  | ok a => exact ⟨a, rfl, h⟩

lemma Page.url_ends (page : Page) : 0 ∉ page.url := by cases page <;> decide

lemma Page.url_injective {page page' : Page} (h : page.url = page'.url) : page = page' := by
  cases page <;> cases page' <;> first | rfl | exact absurd h (by decide)

lemma setPath_read {c d : HttpConn} {text : List UInt8} {n : ℕ} (h : c.setPath text n = .ok d) :
    d.read = c.read := by
  unfold HttpConn.setPath at h
  split at h
  · cases h
    rfl
  · cases h

lemma copyRoot_read {c d : HttpConn} (h : c.copyRoot = .ok d) : d.read = c.read := by
  unfold HttpConn.copyRoot at h
  split at h
  · cases h
    rfl
  · cases h

lemma copyUrl_read {c d : HttpConn} {u : ℕ} (h : c.copyUrl u = .ok d) : d.read = c.read := by
  unfold HttpConn.copyUrl at h
  split at h
  · exact setPath_read h
  · cases h

lemma choosePath_read {c d : HttpConn} {u p : ℕ} (h : c.choosePath u p = .ok d) : d.read = c.read := by
  unfold HttpConn.choosePath at h
  split at h <;> exact setPath_read h

lemma setUrl_answer {c d : HttpConn} {u : ℕ} {page : Page} (h : c.setUrl u page = .ok d)
    (hu : c.read.url = some u) : d.answer = some page.url := by
  unfold HttpConn.setUrl at h
  split at h
  · rename_i hl
    cases h
    change Option.map _ c.read.url = _
    rw [hu]
    exact congrArg some (str_write_self _ page.url_ends hl.le)
  · cases h

lemma cgiRequest_ok {c d : HttpConn} {s t : Accounts} {inserted registers : Bool} {u : ℕ}
    (h : c.cgiRequest s inserted registers u = .ok (d, t)) (hu : c.read.url = some u) :
    ∃ a page, c.account = .ok a ∧ checkAccount s inserted registers a = .ok (page, t) ∧
      d.answer = some page.url := by
  obtain ⟨c₁, hc, h⟩ := bind_ok h
  obtain ⟨a, ha, h⟩ := bind_ok h
  obtain ⟨r, hr, h⟩ := bind_ok h
  obtain ⟨c₂, hs, h⟩ := bind_ok h
  cases h
  have hread := copyUrl_read hc
  rw [hread] at ha
  exact ⟨a, r.1, ha, hr, setUrl_answer hs (by rw [hread, hu])⟩

lemma lastSlash_url {c : ReadState} {u p : ℕ} (h : c.lastSlash = .ok (u, p)) : c.url = some u := by
  unfold ReadState.lastSlash at h
  split at h
  · cases h
  · rename_i hu
    split at h
    · cases h
    · cases h
      exact hu

lemma doRequest_account {files : List UInt8 → FileStat} {inserted b : Bool} {c d : HttpConn}
    {s t : Accounts} {code : HttpCode} (hb : c.read.registers = some b)
    (h : doRequest files inserted c s = .ok (code, d, t)) :
    ∃ a page, c.account = .ok a ∧ checkAccount s inserted b a = .ok (page, t) ∧
      d.answer = some page.url := by
  obtain ⟨c₁, hc, h⟩ := bind_ok h
  obtain ⟨⟨u, p⟩, hp, h⟩ := bind_ok h
  obtain ⟨⟨c₂, t₂⟩, hcgi, h⟩ := bind_ok h
  obtain ⟨c₃, hpath, h⟩ := bind_ok h
  obtain ⟨code', -, h⟩ := bind_ok h
  cases h
  have hread := copyRoot_read hc
  have hu : c₁.read.url = some u := lastSlash_url hp
  simp only [← hread, ReadState.registers, hp] at hb
  simp only [HttpConn.afterCgi] at hcgi
  split at hb
  · rename_i hflag
    cases hb
    rw [if_pos hflag] at hcgi
    obtain ⟨a, page, ha, hr, hans⟩ := cgiRequest_ok hcgi hu
    refine ⟨a, page, ?_, hr, ?_⟩
    · rw [← ha, HttpConn.account, HttpConn.account, hread]
    · rw [← hans, HttpConn.answer, HttpConn.answer, choosePath_read hpath]
  · cases hb

end OceanServer.Http
