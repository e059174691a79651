import OceanServer.Http.Accounts
import OceanServer.Http.Body

/-! A slot of `users` serves one connection after another. `init` clears everything that reading a
request uses but `m_string`, which only a delivered body sets. -/

namespace OceanServer.Http

open Library Library.CString

def ReadState.withString (c : ReadState) (x : Option ℕ) : ReadState := { c with string := x }

def Leave.withString (x : Option ℕ) : Leave → Leave
  | .returned code c => .returned code (c.withString x)
  | .doRequest .content c => .doRequest .content c
  | .doRequest o c => .doRequest o (c.withString x)
  | .fault => .fault

lemma ite_map {α β : Type} {p : Prop} {d d' : Decidable p} (f : α → β) {a b : β} {a' b' : α}
    (ha : p → a = f a') (hb : ¬ p → b = f b') : @ite _ p d a b = f (@ite _ p d' a' b') := by
  by_cases h : p
  · rw [if_pos h, if_pos h, ha h]
  · rw [if_neg h, if_neg h, hb h]

section Parsers

variable (x : Option ℕ) (c : ReadState)

def keepString (r : HttpCode × ReadState) : HttpCode × ReadState := (r.1, r.2.withString x)

def stepString (r : LineStatus × ReadState) : LineStatus × ReadState := (r.1, r.2.withString x)

lemma withString_readBuf : (c.withString x).readBuf = c.readBuf := rfl

lemma parseLineLoop_withString (n : ℕ) :
    parseLineLoop n (c.withString x) = stepString x (parseLineLoop n c) := by
  induction n generalizing c with
  | zero => rfl
  | succ n ih =>
    refine ite_map (stepString x) (fun _ => ?_) fun _ => ?_
    · exact ite_map (stepString x) (fun _ => rfl) fun _ => ite_map (stepString x) (fun _ => rfl) fun _ => rfl
    · refine ite_map (stepString x) (fun _ => ?_) fun _ => ?_
      · exact ite_map (stepString x) (fun _ => rfl) fun _ => rfl
      · exact ih { c with checkedIdx := c.checkedIdx + 1 }

lemma judgePage_withString (url : ℕ) :
    judgePage (c.withString x) url = keepString x (judgePage c url) :=
  ite_map (keepString x) (fun _ => rfl) fun _ => ite_map (keepString x) (fun _ => rfl) fun _ => rfl

lemma stripHttps_withString (url : ℕ) :
    stripHttps (c.withString x) url = keepString x (stripHttps c url) := by
  refine ite_map (keepString x) (fun _ => ?_) fun _ => judgePage_withString x c url
  rw [withString_readBuf]
  cases strchr readBufferSize c.readBuf (url + 8) slash with
  | none => rfl
  | some u => exact judgePage_withString x c u

lemma stripHttp_withString (url : ℕ) :
    stripHttp (c.withString x) url = (stripHttp c url).map (keepString x) := by
  refine ite_map (Option.map (keepString x)) (fun _ => ?_) fun _ =>
    congrArg some (stripHttps_withString x c url)
  rw [withString_readBuf]
  cases strchr readBufferSize c.readBuf (url + 7) slash with
  | none => rfl
  | some u => exact congrArg some (stripHttps_withString x c u)

lemma parseVersion_withString (url : ℕ) :
    parseVersion (c.withString x) url = (parseVersion c url).map (keepString x) := by
  simp only [parseVersion, withString_readBuf]
  cases strpbrk readBufferSize c.readBuf (url + strspn readBufferSize c.readBuf url blanks) blanks with
  | none => rfl
  | some v =>
    refine ite_map (Option.map (keepString x)) (fun _ => ?_) fun _ => rfl
    exact stripHttp_withString x { c with readBuf := c.readBuf.set v 0, url := some _, version := some _ } _

lemma parseRequestLine_withString (text : ℕ) :
    parseRequestLine (c.withString x) text = (parseRequestLine c text).map (keepString x) := by
  simp only [parseRequestLine, withString_readBuf]
  cases strpbrk readBufferSize c.readBuf text blanks with
  | none => rfl
  | some sp =>
    let d : ReadState := { c with readBuf := c.readBuf.set sp 0, url := some (sp + 1) }
    refine ite_map (Option.map (keepString x)) (fun _ => ?_) fun _ =>
      ite_map (Option.map (keepString x)) (fun _ => ?_) fun _ => rfl
    · exact parseVersion_withString x { d with method := .get } _
    · exact parseVersion_withString x { d with method := .post, cgi := 1 } _

lemma parseHeaders_withString (text : ℕ) :
    parseHeaders (c.withString x) text = keepString x (parseHeaders c text) := by
  rw [parseHeaders, parseHeaders, withString_readBuf]
  refine ite_map (keepString x) (fun _ => ite_map (keepString x) (fun _ => rfl) fun _ => rfl) fun _ => ?_
  refine ite_map (keepString x) (fun _ => ite_map (keepString x) (fun _ => rfl) fun _ => rfl) fun _ => ?_
  exact ite_map (keepString x) (fun _ => rfl) fun _ => ite_map (keepString x) (fun _ => rfl) fun _ => rfl

lemma onRequestLine_withString (r : Option (HttpCode × ReadState)) :
    onRequestLine (r.map (keepString x)) = (onRequestLine r).map (stepString x) (Leave.withString x) := by
  cases r with
  | none => rfl
  | some r =>
    exact ite_map (Sum.map (stepString x) (Leave.withString x)) (fun _ => rfl) fun _ => rfl

lemma onHeaders_withString (r : HttpCode × ReadState) :
    onHeaders (keepString x r) = (onHeaders r).map (stepString x) (Leave.withString x) := by
  refine ite_map (Sum.map (stepString x) (Leave.withString x)) (fun _ => rfl) fun _ => ?_
  exact ite_map (Sum.map (stepString x) (Leave.withString x)) (fun _ => rfl) fun _ => rfl

variable (junk : ℕ → ℕ → HttpCode)

lemma content_withString (text : ℕ) :
    onContent junk (parseContent (c.withString x) text) =
      (onContent junk (parseContent c text)).map (stepString x) (Leave.withString x) := by
  let d : ReadState :=
    { c with readBuf := c.readBuf.set ((text : ℤ) + c.contentLength).toNat 0, string := some text }
  change onContent junk (if longMax < c.contentLength + c.checkedIdx then none
    else if c.contentLength + c.checkedIdx ≤ c.readIdx then
      if 0 ≤ (text : ℤ) + c.contentLength ∧ (text : ℤ) + c.contentLength < readBufferSize then
        some (some .getRequest, d) else none
    else some (none, c.withString x)) = Sum.map _ _ (onContent junk (if _ then none
      else if _ then if _ then some (some .getRequest, d) else none else some (none, c)))
  split
  · rfl
  · split
    · split <;> rfl
    · exact ite_map (Sum.map (stepString x) (Leave.withString x)) (fun _ => rfl) fun _ => rfl

lemma switchState_withString :
    switchState junk (c.withString x) = (switchState junk c).map (stepString x) (Leave.withString x) := by
  cases hc : c.checkState with
  | requestLine =>
    have hc' : (c.withString x).checkState = .requestLine := hc
    simp only [switchState, hc, hc']
    rw [← onRequestLine_withString, ← parseRequestLine_withString]
    rfl
  | header =>
    have hc' : (c.withString x).checkState = .header := hc
    simp only [switchState, hc, hc']
    rw [← onHeaders_withString, ← parseHeaders_withString]
    rfl
  | content =>
    have hc' : (c.withString x).checkState = .content := hc
    simp only [switchState, hc, hc']
    exact content_withString x c.takeLine junk _

lemma onLine_withString (r : LineStatus × ReadState) :
    onLine junk (stepString x r) = (onLine junk r).map (stepString x) (Leave.withString x) := by
  obtain ⟨status, c⟩ := r
  cases status with
  | ok => exact switchState_withString x c junk
  | bad => rfl
  | «open» => rfl

lemma readStep_withString (r : LineStatus × ReadState) :
    readStep junk (stepString x r) = (readStep junk r).map (stepString x) (Leave.withString x) := by
  refine ite_map (Sum.map (stepString x) (Leave.withString x)) (fun _ => switchState_withString x r.2 junk) fun _ => ?_
  rw [← onLine_withString]
  exact congrArg (onLine junk) (parseLineLoop_withString x r.2 _)

lemma processRead_withString :
    processRead junk (c.withString x) = (processRead junk c).map (Leave.withString x) :=
  Loop.eval_map (stepString x) (Leave.withString x) (readStep_withString x junk) (iterations c) (.ok, c)

end Parsers

structure Environment where
  junk : ℕ → ℕ → HttpCode
  files : List UInt8 → FileStat
  inserted : Bool
  accounts : Accounts

inductive Event where
  | verdict (code : HttpCode)
  | request (code : HttpCode) (path : List UInt8) (account : Option Account)
  | undefined (fault : Option Fault)
  deriving DecidableEq

def HttpConn.usedAccount (c : HttpConn) : Option Account :=
  if c.read.registers.isSome then c.account.toOption else none

def HttpConn.withRead (c : HttpConn) (d : ReadState) : HttpConn := { c with read := d }

def Environment.request (e : Environment) (c : HttpConn) : Event × HttpConn :=
  match doRequest e.files e.inserted c e.accounts with
  | .ok (code, d, _) => (.request code d.path c.usedAccount, d)
  | .error f => (.undefined (some f), c)

/-- The calls of `process_read` on one connection, up to the first that returns a verdict other than
`NO_REQUEST`. After it the socket waits for `write`, which reads nothing and arms nothing. -/
def Environment.converse (e : Environment) : HttpConn → List (List UInt8) → List Event × HttpConn
  | c, [] => ([], c)
  | c, x :: xs =>
    match processRead e.junk (c.read.receive x) with
    | some (.returned .noRequest d) => (e.converse (c.withRead d) xs).map (.verdict .noRequest :: ·) id
    | some (.returned code d) => ([.verdict code], c.withRead d)
    | some (.doRequest _ d) => (e.request (c.withRead d)).map ([·]) id
    | some .fault => ([.undefined none], c)
    | none => ([.undefined none], c)

def connection (root : List UInt8) (c : ReadState) : HttpConn where
  read := c
  realFile := fun _ => 0
  docRoot := root

inductive Served : HttpConn → Prop
  | fresh {c} : c.read.string = none → Served c
  | reused {c} (e : Environment) (root : List UInt8) (chunks : List (List UInt8)) :
      Served c → Served (e.converse (c.init root) chunks).2

def Independent (e : Environment) (root : List UInt8) (chunks : List (List UInt8)) : Prop :=
  ∀ c c', Served c → Served c' → (e.converse (c.init root) chunks).1 = (e.converse (c'.init root) chunks).1

structure ReadsForm (c : HttpConn) : Prop where
  credential : c.read.registers.isSome
  root : c.docRoot.length < filenameLen
  url : ∀ u, c.read.url = some u → (c.read.urlReal u).length < 200

def BodyFirst (e : Environment) (root : List UInt8) (chunks : List (List UInt8)) : Prop :=
  ∀ pre x post d o c, chunks = pre ++ x :: post → serve e.junk (default : ReadState).init pre = some d →
    processRead e.junk (d.receive x) = some (.doRequest o c) →
    ReadsForm (connection root c) → o = .content

def HttpConn.withString (c : HttpConn) (x : Option ℕ) : HttpConn := c.withRead (c.read.withString x)

lemma bind_map {α α' β β' : Type} {y : Except Fault α} {f : α → α'} {g : α → Except Fault β}
    {g' : α' → Except Fault β'} {k : β → β'} (h : ∀ a, y = .ok a → g' (f a) = (g a).map k) :
    (y.map f >>= g') = (y >>= g).map k := by
  cases y with
  | error => rfl
  | ok a => exact h a rfl

section Form

variable (x : Option ℕ) (c : HttpConn)

lemma setPath_withString (text : List UInt8) (n : ℕ) :
    (c.withString x).setPath text n = (c.setPath text n).map (·.withString x) :=
  ite_map (Except.map (HttpConn.withString · x)) (fun _ => rfl) fun _ => rfl

lemma copyRoot_withString : (c.withString x).copyRoot = c.copyRoot.map (·.withString x) :=
  ite_map (Except.map (HttpConn.withString · x)) (fun _ => rfl) fun _ => rfl

lemma choosePath_withString (u p : ℕ) :
    (c.withString x).choosePath u p = (c.choosePath u p).map (·.withString x) := by
  have hb : (c.withString x).read.readBuf = c.read.readBuf := rfl
  rw [HttpConn.choosePath, HttpConn.choosePath, hb]
  cases digitPage (c.read.readBuf (p + 1)) with
  | none => exact setPath_withString x c _ _
  | some page => exact setPath_withString x c _ _

def withAccounts (r : HttpConn × Accounts) : HttpConn × Accounts := (r.1.withString x, r.2)

def withVerdict (r : HttpCode × HttpConn × Accounts) : HttpCode × HttpConn × Accounts :=
  (r.1, r.2.1.withString x, r.2.2)

lemma ReadsForm.of_afterCgi {c : HttpConn} {u p : ℕ} (hp : c.read.lastSlash = .ok (u, p))
    (hroot : c.docRoot.length < filenameLen) (hurl : (c.read.urlReal u).length < 200)
    (hflag : c.read.cgi = 1 ∧ (c.read.readBuf (p + 1) = chr '2' ∨ c.read.readBuf (p + 1) = chr '3')) :
    ReadsForm c := by
  refine ⟨?_, hroot, fun u' hu => ?_⟩
  · simp only [ReadState.registers, hp, if_pos hflag, Option.isSome_some]
  · cases (lastSlash_url hp).symm.trans hu
    exact hurl

lemma afterCgi_withString {c : HttpConn} (hno : ¬ ReadsForm c) (hroot : c.docRoot.length < filenameLen)
    (s : Accounts) (inserted : Bool) {u p : ℕ} (hp : c.read.lastSlash = .ok (u, p)) :
    (c.withString x).afterCgi s inserted u p = (c.afterCgi s inserted u p).map (withAccounts x) := by
  refine ite_map (Except.map (withAccounts x)) (fun hflag => ?_) fun _ => rfl
  have hlong : ¬ (c.read.urlReal u).length < 200 := fun hurl => hno (.of_afterCgi hp hroot hurl hflag)
  have hcopy : c.copyUrl u = .error .urlReal := if_neg hlong
  have hcopy' : (c.withString x).copyUrl u = .error .urlReal := if_neg hlong
  rw [HttpConn.cgiRequest, HttpConn.cgiRequest, hcopy, hcopy']
  rfl

lemma doRequest_withString (files : List UInt8 → FileStat) (inserted : Bool) {c : HttpConn} (s : Accounts)
    (hno : ¬ ReadsForm c) :
    doRequest files inserted (c.withString x) s = (doRequest files inserted c s).map (withVerdict x) := by
  rw [doRequest, doRequest, copyRoot_withString]
  refine bind_map fun c₁ hc => ?_
  have hread : c₁.read = c.read := copyRoot_read hc
  have hroot : c₁.docRoot = c.docRoot ∧ c.docRoot.length < filenameLen := by
    rw [HttpConn.copyRoot] at hc
    split at hc
    · cases hc
      exact ⟨rfl, ‹_›⟩
    · cases hc
  have hno₁ : ¬ ReadsForm c₁ := fun h => hno ⟨hread ▸ h.credential, hroot.2, hread ▸ h.url⟩
  cases hp : c₁.read.lastSlash with
  | error e =>
    have hp' : (c₁.withString x).read.lastSlash = .error e := hp
    rw [hp']
    rfl
  | ok up =>
    obtain ⟨u, p⟩ := up
    have hp' : (c₁.withString x).read.lastSlash = .ok (u, p) := hp
    rw [hp']
    change ((c₁.withString x).afterCgi s inserted u p >>= _) = (c₁.afterCgi s inserted u p >>= _).map _
    rw [afterCgi_withString x hno₁ (hroot.1 ▸ hroot.2) s inserted hp]
    refine bind_map fun r _ => ?_
    change ((r.1.withString x).choosePath u p >>= _) = (r.1.choosePath u p >>= _).map _
    rw [choosePath_withString]
    refine bind_map fun c₂ _ => ?_
    change (c₂.judgeFile files >>= _) = (c₂.judgeFile files >>= _).map _
    cases c₂.judgeFile files <;> rfl

lemma copyUntil_inside {stop : UInt8} {full : Fault} (hfull : full ≠ .string) (m : Memory) {room i : ℕ}
    (h : i + room ≤ readBufferSize) : copyUntil stop full m room i ≠ .error .string := by
  induction room generalizing i with
  | zero => exact fun he => hfull (Except.error.inj he)
  | succ room ih =>
    rw [copyUntil, if_neg (by omega)]
    split
    · exact fun he => nomatch he
    · have hr := ih (i := i + 1) (by omega)
      cases hc : copyUntil stop full m room (i + 1) with
      | error f =>
        rw [hc] at hr
        exact fun he => hr (congrArg Except.error (Except.error.inj he))
      | ok bs => exact fun he => nomatch he

lemma copyUntil_length {stop : UInt8} {full : Fault} {m : Memory} {room i : ℕ} {bs : List UInt8}
    (h : copyUntil stop full m room i = .ok bs) : bs.length < room := by
  induction room generalizing i bs with
  | zero => cases h
  | succ room ih =>
    rw [copyUntil] at h
    split at h
    · cases h
    · split at h
      · cases h
        exact Nat.succ_pos room
      · cases hc : copyUntil stop full m room (i + 1) with
        | error f =>
          rw [hc] at h
          cases h
        | ok bs' =>
          rw [hc] at h
          cases h
          exact Nat.succ_lt_succ (ih hc)

lemma bind_error {α β : Type} {y : Except Fault α} {f : α → Except Fault β} {e : Fault}
    (h : y >>= f = .error e) : y = .error e ∨ ∃ a, y = .ok a ∧ f a = .error e := by
  cases y with
  | error e' => exact .inl (congrArg Except.error (Except.error.inj h))
  | ok a => exact .inr ⟨a, rfl, h⟩

lemma credentials_inside (m : Memory) {k : ℕ} (h : k + 214 ≤ readBufferSize) :
    credentials m (some k) ≠ .error .string := by
  intro he
  rcases bind_error he with he | ⟨name, hn, he⟩
  · exact copyUntil_inside (by decide) m (by omega) he
  · have hl := copyUntil_length hn
    rcases bind_error he with he | ⟨password, -, he⟩
    · exact copyUntil_inside (by decide) m (by omega) he
    · cases he

lemma ite_error {α : Type} {p : Prop} [Decidable p] {a : α} {e e' : Fault}
    (h : (if p then .ok a else .error e : Except Fault α) = .error e') : e = e' := by
  split at h
  · cases h
  · exact Except.error.inj h

lemma setPath_error {c : HttpConn} {text : List UInt8} {n : ℕ} {e : Fault} (h : c.setPath text n = .error e) :
    e = .realFile := (ite_error h).symm

lemma choosePath_error {c : HttpConn} {u p : ℕ} {e : Fault} (h : c.choosePath u p = .error e) :
    e = .realFile := by
  rw [HttpConn.choosePath] at h
  split at h <;> exact setPath_error h

lemma copyUrl_error {c : HttpConn} {u : ℕ} {e : Fault} (h : c.copyUrl u = .error e) : e ≠ .string := by
  rw [HttpConn.copyUrl] at h
  split at h
  · rw [setPath_error h]
    decide
  · cases h
    decide

lemma checkAccount_error {s : Accounts} {inserted registers : Bool} {a : Account} {e : Fault}
    (h : checkAccount s inserted registers a = .error e) : e = .statement := by
  rw [checkAccount] at h
  split at h
  · exact (ite_error h).symm
  · cases h

lemma lastSlash_error {c : ReadState} {e : Fault} (h : c.lastSlash = .error e) : e = .url := by
  rw [ReadState.lastSlash] at h
  split at h
  · cases h
    rfl
  · split at h <;> cases h
    rfl

lemma cgiRequest_error {c : HttpConn} {s : Accounts} {inserted registers : Bool} {u : ℕ}
    (h : c.cgiRequest s inserted registers u = .error .string) : c.account = .error .string := by
  rcases bind_error h with h | ⟨c₁, hc, h⟩
  · exact absurd rfl (copyUrl_error h)
  · rcases bind_error h with h | ⟨a, -, h⟩
    · rwa [copyUrl_read hc] at h
    · rcases bind_error h with h | ⟨r, -, h⟩
      · cases checkAccount_error h
      · rcases bind_error h with h | ⟨c₂, -, h⟩
        · cases ite_error h
        · cases h

lemma doRequest_error {files : List UInt8 → FileStat} {inserted : Bool} {c : HttpConn} {s : Accounts}
    (h : doRequest files inserted c s = .error .string) : c.account = .error .string := by
  rcases bind_error h with h | ⟨c₁, hc, h⟩
  · cases ite_error h
  rcases bind_error h with h | ⟨⟨u, p⟩, -, h⟩
  · cases lastSlash_error h
  rcases bind_error h with h | ⟨r, -, h⟩
  · rw [HttpConn.afterCgi] at h
    split at h
    · rw [← cgiRequest_error h, HttpConn.account, HttpConn.account, copyRoot_read hc]
    · cases h
  rcases bind_error h with h | ⟨c₂, -, h⟩
  · cases choosePath_error h
  rcases bind_error h with h | ⟨code, -, h⟩
  · cases ite_error h
  · cases h

lemma registers_some {c : ReadState} (h : c.registers.isSome) :
    ∃ u p, c.lastSlash = .ok (u, p) ∧
      c.cgi = 1 ∧ (c.readBuf (p + 1) = chr '2' ∨ c.readBuf (p + 1) = chr '3') := by
  rw [ReadState.registers] at h
  split at h
  · cases h
  · split at h
    · exact ⟨_, _, ‹_›, ‹_›⟩
    · cases h

lemma copyUrl_ok {c : HttpConn} {u : ℕ} (hroot : c.docRoot.length < filenameLen)
    (hurl : (c.read.urlReal u).length < 200) : ∃ d, c.copyUrl u = .ok d := by
  have hfit : c.docRoot.length + c.restOfPath ≤ filenameLen := by
    rw [HttpConn.restOfPath]
    omega
  exact ⟨_, (if_pos hurl).trans (if_pos hfit)⟩

lemma cgiRequest_null {c : HttpConn} {s : Accounts} {inserted registers : Bool} {u : ℕ}
    (hroot : c.docRoot.length < filenameLen) (hurl : (c.read.urlReal u).length < 200)
    (hs : c.read.string = none) : c.cgiRequest s inserted registers u = .error .string := by
  obtain ⟨d, hd⟩ := copyUrl_ok hroot hurl
  rw [HttpConn.cgiRequest, hd]
  change (credentials d.read.readBuf d.read.string >>= _) = _
  rw [copyUrl_read hd, hs]
  rfl

lemma doRequest_null {files : List UInt8 → FileStat} {inserted : Bool} {c : HttpConn} {s : Accounts}
    (h : ReadsForm c) (hs : c.read.string = none) : doRequest files inserted c s = .error .string := by
  obtain ⟨u, p, hp, hflag⟩ := registers_some h.credential
  let c₁ : HttpConn := { c with realFile := c.realFile.write 0 (c.docRoot ++ [0]) }
  have hc : c.copyRoot = .ok c₁ := if_pos h.root
  have hcgi : c₁.afterCgi s inserted u p = .error .string :=
    (if_pos hflag).trans (cgiRequest_null h.root (h.url u (lastSlash_url hp)) hs)
  rw [doRequest, hc]
  change (c.read.lastSlash >>= _) = _
  rw [hp]
  change (c₁.afterCgi s inserted u p >>= _) = _
  rw [hcgi]
  rfl

end Form

lemma readsForm_of_ok {files : List UInt8 → FileStat} {inserted : Bool} {c : HttpConn} {s : Accounts}
    {r : HttpCode × HttpConn × Accounts} (h : doRequest files inserted c s = .ok r)
    (hb : c.read.registers.isSome) : ReadsForm c := by
  obtain ⟨c₁, hc, h⟩ := bind_ok h
  obtain ⟨⟨u, p⟩, hp, h⟩ := bind_ok h
  obtain ⟨r', hcgi, -⟩ := bind_ok h
  obtain ⟨u', p', hp', hflag⟩ := registers_some hb
  rw [copyRoot_read hc] at hp
  cases hp.symm.trans hp'
  have hroot : c.docRoot.length < filenameLen := by
    by_contra hlong
    cases hc.symm.trans (if_neg hlong)
  rw [HttpConn.afterCgi, copyRoot_read hc, if_pos hflag] at hcgi
  obtain ⟨c₂, hurl, -⟩ := bind_ok hcgi
  refine .of_afterCgi hp hroot ?_ hflag
  by_contra hlong
  rw [← copyRoot_read hc] at hlong
  cases hurl.symm.trans (if_neg hlong)

section Runs

variable (e : Environment) (x : Option ℕ)

lemma request_withString {c : HttpConn} (hno : ¬ ReadsForm c) :
    (e.request (c.withString x)).1 = (e.request c).1 := by
  rw [Environment.request, Environment.request, doRequest_withString x e.files e.inserted e.accounts hno]
  cases hr : doRequest e.files e.inserted c e.accounts with
  | error f => rfl
  | ok r =>
    have hb : ¬ c.read.registers.isSome := fun hb => hno (readsForm_of_ok hr hb)
    have hused : c.usedAccount = none := if_neg hb
    have hused' : (c.withString x).usedAccount = none := if_neg hb
    change Event.request r.1 r.2.1.path (c.withString x).usedAccount = .request r.1 r.2.1.path c.usedAccount
    rw [hused, hused']

lemma serve_withString (junk : ℕ → ℕ → HttpCode) (c : ReadState) (chunks : List (List UInt8)) :
    serve junk (c.withString x) chunks = (serve junk c chunks).map (·.withString x) := by
  induction chunks generalizing c with
  | nil => rfl
  | cons y ys ih =>
    have hread : processRead junk ((c.withString x).receive y) = _ := processRead_withString x (c.receive y) junk
    rw [serve, serve, hread]
    cases processRead junk (c.receive y) with
    | none => rfl
    | some leave =>
      cases leave with
      | returned code d =>
        cases code with
        | noRequest => exact ih d
        | _ => rfl
      | doRequest o d => cases o <;> rfl
      | fault => rfl

lemma converse_serve (root : List UInt8) {c d : ReadState} {pre : List (List UInt8)} (rest : List (List UInt8))
    (h : serve e.junk c pre = some d) :
    (e.converse (connection root c) (pre ++ rest)).1 =
      List.replicate pre.length (.verdict .noRequest) ++ (e.converse (connection root d) rest).1 := by
  induction pre generalizing c with
  | nil =>
    cases h
    rfl
  | cons y ys ih =>
    rw [serve] at h
    split at h
    · rename_i d' hread
      have hread' : processRead e.junk ((connection root c).read.receive y) = some (.returned .noRequest d') := hread
      rw [List.cons_append, Environment.converse, hread']
      exact congrArg (Event.verdict .noRequest :: ·) (ih h)
    · cases h

lemma converse_withString {root : List UInt8} {c : ReadState} {chunks : List (List UInt8)}
    (h : ∀ pre y post d o c', chunks = pre ++ y :: post → serve e.junk c pre = some d →
      processRead e.junk (d.receive y) = some (.doRequest o c') → ReadsForm (connection root c') → o = .content) :
    (e.converse (connection root (c.withString x)) chunks).1 = (e.converse (connection root c) chunks).1 := by
  induction chunks generalizing c with
  | nil => rfl
  | cons y ys ih =>
    have hread : processRead e.junk ((connection root (c.withString x)).read.receive y) = _ :=
      processRead_withString x (c.receive y) e.junk
    rw [Environment.converse, Environment.converse, hread]
    change _ = (match processRead e.junk (c.receive y) with
      | some (.returned .noRequest d) => _ | some (.returned code d) => _ | some (.doRequest _ d) => _
      | some .fault => _ | none => _ : List Event × HttpConn).1
    cases hr : processRead e.junk (c.receive y) with
    | none => rfl
    | some leave =>
      cases leave with
      | fault => rfl
      | returned code d =>
        cases code with
        | noRequest =>
          refine congrArg (Event.verdict .noRequest :: ·) (ih fun pre z post d' o c' hys hd => ?_)
          refine h (y :: pre) z post d' o c' (congrArg (y :: ·) hys) ?_
          rw [serve, hr]
          exact hd
        | _ => rfl
      | doRequest o d =>
        by_cases ho : o = .content
        · subst ho
          rfl
        · have hno : ¬ ReadsForm (connection root d) := fun hf => ho (h [] y ys c o d rfl rfl hr hf)
          have hreq := congrArg (fun v => [v]) (request_withString e x hno)
          cases o with
          | content => exact absurd rfl ho
          | headers => exact hreq
          | fallThrough => exact hreq

lemma converse_call {root : List UInt8} {c d d' : ReadState} {pre post : List (List UInt8)} {y : List UInt8}
    {o : Origin} (hd : serve e.junk c pre = some d)
    (hread : processRead e.junk (d.receive y) = some (.doRequest o d')) (ho : o ≠ .content) :
    (e.converse (connection root (c.withString x)) (pre ++ y :: post)).1 =
      List.replicate pre.length (.verdict .noRequest) ++ [(e.request (connection root (d'.withString x))).1] := by
  have hserve : serve e.junk (c.withString x) pre = some (d.withString x) := by
    rw [serve_withString, hd]
    rfl
  have hleave : Leave.withString x (.doRequest o d') = .doRequest o (d'.withString x) := by
    cases o with
    | content => exact absurd rfl ho
    | headers => rfl
    | fallThrough => rfl
  have hcall : processRead e.junk ((connection root (d.withString x)).read.receive y) =
      some (.doRequest o (d'.withString x)) := by
    rw [← hleave]
    exact (processRead_withString x (d.receive y) e.junk).trans (by rw [hread]; rfl)
  rw [converse_serve e root (y :: post) hserve, Environment.converse, hcall]
  rfl

variable {e}

lemma request_null {c : HttpConn} (h : ReadsForm c) (hs : c.read.string = none) :
    (e.request c).1 = .undefined (some .string) := by
  rw [Environment.request, doRequest_null h hs]

lemma request_string {c : HttpConn} (h : (e.request c).1 = .undefined (some .string)) :
    c.account = .error .string := by
  rw [Environment.request] at h
  split at h
  · cases h
  · rename_i f hf
    cases h
    exact doRequest_error hf

end Runs

def quiet : Environment where
  junk := fun _ _ => .noRequest
  files := fun _ => .found true false 10
  inserted := true
  accounts := initmysqlResult []

def servedSlot : HttpConn := (quiet.converse ((default : HttpConn).init (ascii ['/', 'w'])) [postForm '3']).2

lemma servedSlot_served : Served servedSlot := .reused quiet _ _ (.fresh rfl)

lemma servedSlot_string : servedSlot.read.string = some 40 := by decide +kernel

theorem slot_reuse_independent_iff (e : Environment) (root : List UInt8) (chunks : List (List UInt8)) :
    Independent e root chunks ↔ BodyFirst e root chunks := by
  constructor
  · intro h pre y post d o c hchunks hd hread hform
    by_contra ho
    have hsame : (e.converse (connection root ((default : ReadState).init.withString none)) chunks).1 =
        (e.converse (connection root ((default : ReadState).init.withString servedSlot.read.string)) chunks).1 :=
      h default servedSlot (.fresh rfl) servedSlot_served
    rw [hchunks, converse_call e none hd hread ho, converse_call e _ hd hread ho, servedSlot_string] at hsame
    have hevent := List.head_eq_of_cons_eq (List.append_cancel_left hsame)
    rw [request_null (c := connection root (c.withString none)) ⟨hform.credential, hform.root, hform.url⟩ rfl] at hevent
    exact credentials_inside c.readBuf (by decide) (request_string hevent.symm)
  · intro h c c' _ _
    exact (converse_withString e c.read.string h).trans (converse_withString e c'.read.string h).symm

def laterForm : List UInt8 :=
  ascii ['P', 'O', 'S', 'T', ' ', '/', '3', ' ', 'H', 'T', 'T', 'P', '/', '1', '.', '1'] ++ [cr, lf] ++
    ascii ['A', ':'] ++ [cr, lf] ++
    ascii ['C', 'o', 'n', 't', 'e', 'n', 't', '-', 'l', 'e', 'n', 'g', 't', 'h', ':', ' ', '1', '7'] ++
    [cr, lf, cr, lf] ++
    ascii ['u', 's', 'e', 'r', '=', 'a', '&', 'p', 'a', 's', 's', 'w', 'o', 'r', 'd', '=', 'b']

def bodiless : List UInt8 :=
  ascii ['P', 'O', 'S', 'T', ' ', '/', '3', ' ', 'H', 'T', 'T', 'P', '/', '1', '.', '1'] ++ [cr, lf] ++
    ascii (List.replicate 22 'X') ++ ascii ['u', 's', 'e', 'r', '=', 'a', '&', 'p', 'a', 's', 's', 'w', 'o', 'r', 'd', '='] ++
    ascii ['b', '&', 'c', 'c', 'c', 'c', 'c', 'c', 'c', 'c', 'c', 'd'] ++ [cr, lf, cr, lf]

def laterSlot : HttpConn := (quiet.converse ((default : HttpConn).init (ascii ['/', 'w'])) [laterForm]).2

theorem slot_reuse_stale_form :
    Served servedSlot ∧ Served laterSlot ∧
      (quiet.converse (servedSlot.init (ascii ['/', 'w'])) [bodiless]).1 =
        [.request .fileRequest (ascii ['/', 'w'] ++ Page.log.url)
          (some (ascii ['a'], ascii ['b', '&', 'c', 'c', 'c', 'c', 'c', 'c', 'c', 'c', 'c', 'd']))] ∧
      (quiet.converse (laterSlot.init (ascii ['/', 'w'])) [bodiless]).1 =
        [.request .fileRequest (ascii ['/', 'w'] ++ Page.log.url)
          (some (ascii ['s', 's', 'w', 'o', 'r', 'd', '=', 'b'], ascii ['d']))] ∧
      ¬ Independent quiet (ascii ['/', 'w']) [bodiless] := by
  have h₁ : Served laterSlot := .reused quiet _ _ (.fresh rfl)
  have h₂ : (quiet.converse (servedSlot.init (ascii ['/', 'w'])) [bodiless]).1 =
      [.request .fileRequest (ascii ['/', 'w'] ++ Page.log.url)
        (some (ascii ['a'], ascii ['b', '&', 'c', 'c', 'c', 'c', 'c', 'c', 'c', 'c', 'c', 'd']))] := by decide +kernel
  have h₃ : (quiet.converse (laterSlot.init (ascii ['/', 'w'])) [bodiless]).1 =
      [.request .fileRequest (ascii ['/', 'w'] ++ Page.log.url)
        (some (ascii ['s', 's', 'w', 'o', 'r', 'd', '=', 'b'], ascii ['d']))] := by decide +kernel
  refine ⟨servedSlot_served, h₁, h₂, h₃, fun h => ?_⟩
  have hsame := h _ _ servedSlot_served h₁
  rw [h₂, h₃] at hsame
  exact absurd hsame (by decide)

end OceanServer.Http
