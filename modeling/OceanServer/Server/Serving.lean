import OceanServer.Http.SignIn
import OceanServer.Server.OneAnswer

/-! The server together with the bytes that its clients send, the files and the accounts: what a client is answered on
its connection, whatever the other connections and the workers do meanwhile. -/

namespace OceanServer.Http

open Library

section Fed

variable {junk : ℕ → ℕ → HttpCode} {c d : ReadState} {bytes more : List UInt8} {h : Head}

/-- A connection has received `bytes` since it was set up, has parsed some of them, and waits for more. -/
def Fed (junk : ℕ → ℕ → HttpCode) (bytes : List UInt8) (c : ReadState) : Prop :=
  ∃ c₀ d parsed rest, Pending junk c₀ d parsed ∧ bytes = parsed ++ rest ∧ c = d.receive rest

lemma Pending.fed {c₀ : ReadState} (h : Pending junk c₀ d bytes) : Fed junk bytes d :=
  ⟨c₀, d, bytes, [], h, (List.append_nil _).symm, (receive_nil _).symm⟩

lemma fed_init (c : ReadState) : Fed junk [] c.init := (pending_init junk c).fed

lemma Fed.receive (h : Fed junk bytes c) (more : List UInt8) : Fed junk (bytes ++ more) (c.receive more) := by
  obtain ⟨c₀, d, parsed, rest, hp, rfl, rfl⟩ := h
  exact ⟨c₀, d, parsed, rest ++ more, hp, List.append_assoc _ _ _, (receive_append _ _ _).symm⟩

lemma Fed.exits (hf : Fed junk bytes c) (hfit : bytes.length ≤ readBufferSize) :
    Heading c ∧ c.readIdx = bytes.length ∧ ∃ c₀ : ReadState,
      ∀ q, Loop.Exits (headerStep junk) (c₀.init.receive bytes) q ↔ Loop.Exits (headerStep junk) c q := by
  obtain ⟨c₀, d, parsed, rest, hp, rfl, rfl⟩ := hf
  rw [List.length_append] at hfit ⊢
  have hread := hp.received
  exact ⟨hp.heading.receive (by omega), congrArg (· + rest.length) hread, c₀, fun q => hp.same rest q⟩

lemma Fed.part (hf : Fed junk bytes c) (hpre : bytes <+: h.bytes) (hne : bytes ≠ h.bytes)
    (hfit : h.bytes.length ≤ readBufferSize) :
    ∃ d, processRead junk c = some (.returned .noRequest d) ∧ Fed junk bytes d := by
  have hlen := hpre.length_le
  obtain ⟨hc, -, c₀, hsame⟩ := hf.exits (hlen.trans hfit)
  have hflat : [bytes].flatten = bytes := List.append_nil _
  have hone : [bytes].flatten <+: h.bytes := by rwa [hflat]
  obtain ⟨d, hd⟩ := h.feed_part junk c₀ hone (by rwa [hflat]) hfit
  have hpending := (pending_init junk c₀).feed (by rw [hflat]; exact hlen.trans hfit) hd
  rw [hflat] at hpending
  have hexit : Loop.Exits (headerStep junk) (c₀.init.receive bytes) (.waiting d) := by
    rw [← headerPhase_iff (heading_receive_init c₀ (hlen.trans hfit))]
    simp only [feed] at hd
    split at hd
    · rename_i hw
      cases hd
      exact hw
    · exact hd
  have hgo : GoesOn junk c (.waiting d) := exits_header hc ((hsame _).mp hexit)
  exact ⟨d, (processRead_iff hc.scanning.checked).mpr hgo, hpending.fed⟩

lemma Fed.whole {root : List UInt8} (hf : Fed junk h.bytes c) (hlen : h.length = 0) (hcred : h.credential = false)
    (hfit : h.bytes.length ≤ readBufferSize) (h0 : 0 ∉ root) (hroot : root.length + h.page.length < filenameLen) :
    ∃ d, processRead junk c = some (.doRequest .headers d) ∧ d.linger = h.keepsAlive ∧
      ∃ r : HttpConn, r.path = root ++ h.page ∧ ∀ files inserted s,
        doRequest files inserted (connection root d) s = .ok ((files (root ++ h.page)).verdict, r, s) := by
  obtain ⟨hc, hread, c₀, hsame⟩ := hf.exits hfit
  rw [← List.append_nil h.bytes] at hfit
  obtain ⟨d, hexit, hin, -⟩ := h.read junk c₀ hfit
  rw [List.append_nil] at hexit hfit
  rw [Fields.verdict, if_pos (h.fields_length.trans hlen), hsame] at hexit
  have hgo : GoesOn junk c (.left .doRequest d) := exits_header hc hexit
  obtain ⟨hends, hread', -⟩ := exits_left hc hexit rfl
  obtain ⟨u, z, hu, -, -, -, -, htext⟩ := hin.url
  have hurl : d.url.map (CString.str readBufferSize d.readBuf) = some h.url := by
    rw [hu, Option.map_some, htext]
  obtain ⟨r, -, hpath, hdo⟩ := h.doRequest hcred hin.cgi hurl hends (by omega) h0 hroot
  exact ⟨d, (processRead_iff hc.scanning.checked).mpr hgo, hin.linger.trans h.fields_linger, r, hpath, hdo⟩

end Fed

end OceanServer.Http

namespace OceanServer.Server

open Library Library.CString Http

section Model

structure Site where
  web : WebServer
  -- the bytes received on each connection since it was accepted
  heard : ℕ → List UInt8
  realFile : ℕ → Memory
  accounts : Accounts

def Site.start (slots : ℕ → Slot) (users : ℕ → User) (now : ℤ) (realFile : ℕ → Memory) (accounts : Accounts) : Site :=
  ⟨.start slots users now, fun _ => [], realFile, accounts⟩

def Site.hear (x : Site) (fd : ℕ) (bytes : List UInt8) (t : WebServer) : Site :=
  { x with web := t, heard := Function.update x.heard fd (x.heard fd ++ bytes) }

def Site.Fits (x : Site) (fd : ℕ) (bytes : List UInt8) : Prop :=
  (x.web.users fd).read.readIdx + bytes.length ≤ readBufferSize

variable (cfg : Config) (root : List UInt8) (files : List UInt8 → FileStat)

inductive Serve : Site → Actor → Site → Prop
  | accept {x t batch} (fd p : ℕ) : x.web.main = .handling (.listen :: batch) → fd ∉ x.web.opened →
      x.web.userCount < maxFd → x.web.timers.heap.cell p = none → startTimer x.web fd p = some t →
      Serve x .main { x with
        web := t.goTo (.handling (if cfg.listenEt then .listen :: batch else batch))
        heard := Function.update x.heard fd []
        realFile := Function.update x.realFile fd fun _ => 0 }
  | readable {x t fd batch} (ok : Bool) (bytes : List UInt8) : cfg.reactor = false →
      x.web.main = .handling (.readable fd :: batch) → x.Fits fd bytes →
      dealWithRead cfg x.web fd ⟨ok, (x.web.users fd).read.receive bytes⟩ batch = some t →
      Serve x .main (x.hear fd bytes t)
  | read {x i fd} (ok : Bool) (bytes : List UInt8) : cfg.reactor = true → x.web.workers i = some (.picked fd) →
      (x.web.users fd).state = 0 → x.Fits fd bytes →
      Serve x (.worker i) (x.hear fd bytes ((x.web.setUser fd
        { x.web.users fd with read := (x.web.users fd).read.receive bytes }).setWorker i (some (.flagging fd true ok))))
  | parse {x i fd code c u w} : x.web.workers i = some (.reading fd) →
      processRead cfg.junk (x.web.users fd).read = some (.returned code c) →
      afterRead (x.web.users fd) fd .missing (.returned code c) = some (u, w) →
      Serve x (.worker i) { x with web := (x.web.setUser fd u).setWorker i (some w) }
  | request {x i fd origin c code d acc} (inserted : Bool) : x.web.workers i = some (.reading fd) →
      processRead cfg.junk (x.web.users fd).read = some (.doRequest origin c) →
      doRequest files inserted ⟨c, x.realFile fd, root⟩ x.accounts = .ok (code, d, acc) →
      Serve x (.worker i) { x with
        web := (x.web.setUser fd { x.web.users fd with
          read := c, fileSize := (files d.path).sizeOr (x.web.users fd).fileSize }).setWorker i
            (some (.writing fd code))
        realFile := Function.update x.realFile fd d.realFile
        accounts := acc }
  | other {x a t} : Step cfg x.web a t → (∀ k, (t.users k).read = (x.web.users k).read) →
      (∀ k ∈ t.opened, k ∈ x.web.opened) → (∀ i k, a = .worker i → x.web.workers i ≠ some (.reading k)) →
      Serve x a { x with web := t }

def CarefulServe (x : Site) (a : Actor) (y : Site) : Prop := Serve cfg root files x a y ∧ Careful x.web a y.web

def Site.reply (x : Site) (fd : ℕ) (ret : HttpCode) : Option Reply :=
  (HttpConn.answerWith ⟨(x.web.users fd).read, x.realFile fd, root⟩ (x.web.users fd).write (x.web.users fd).fileSize
    ret).reply

variable {cfg root files} {x y : Site} {a : Actor}

lemma doRequest_code {inserted : Bool} {c d : HttpConn} {s acc : Accounts} {code : HttpCode}
    (h : doRequest files inserted c s = .ok (code, d, acc)) : code = (files d.path).verdict := by
  obtain ⟨c₁, -, h⟩ := bind_ok h
  obtain ⟨⟨u, p⟩, -, h⟩ := bind_ok h
  obtain ⟨⟨c₂, s₂⟩, -, h⟩ := bind_ok h
  obtain ⟨c₃, -, h⟩ := bind_ok h
  obtain ⟨code', hcode, h⟩ := bind_ok h
  cases h
  rw [HttpConn.judgeFile] at hcode
  split at hcode
  · cases hcode
    rfl
  · cases hcode

lemma Serve.step (h : Serve cfg root files x a y) : Step cfg x.web a y.web := by
  cases h with
  | accept fd p hm ho hc hp ht => exact .accept fd p hm ho hc hp ht
  | readable ok bytes hr hm hfit ht => exact .readable _ hm ht
  | read ok bytes hr hw hstate hfit => exact .read ⟨ok, _⟩ hw hr hstate
  | parse hw hp hafter => exact .parse _ hw hp hafter
  | @request _ _ _ _ _ d _ _ hw hp hdo =>
    rw [doRequest_code hdo]
    exact .parse (files d.path) hw hp rfl
  | other hs => exact hs

lemma CarefulServe.step (h : CarefulServe cfg root files x a y) : CarefulStep cfg x.web a y.web := ⟨h.1.step, h.2⟩

end Model

section Frames

variable {cfg : Config} {s t : WebServer} {k fd i : ℕ} {timer : Option ℕ}

def User.output (u : User) : WriteState × ℤ := (u.write, u.fileSize)

lemma Retimed.users {fds : List ℕ} (h : Retimed s t fds) : t.users = s.users ∧ t.workers = s.workers := by
  obtain ⟨l, touched, rfl⟩ := h
  exact ⟨rfl, rfl⟩

lemma appendP_users (cfg : Config) (s : WebServer) (k : ℕ) :
    (appendP cfg s k).users = s.users ∧ (appendP cfg s k).workers = s.workers := by
  rw [appendP]
  split_ifs <;> exact ⟨rfl, rfl⟩

lemma dealWithRead_users {io : Io} {batch : List Ready} (hr : cfg.reactor = false)
    (h : dealWithRead cfg s k io batch = some t) :
    t.users = Function.update s.users k { s.users k with read := io.read } ∧ t.workers = s.workers := by
  rw [dealWithRead, hr] at h
  obtain ⟨u, hu, rfl⟩ := Option.map_eq_some_iff.mp h
  split at hu
  · obtain ⟨husers, hworkers⟩ := (adjust_retimed hu).users
    obtain ⟨husers', hworkers'⟩ := appendP_users cfg (s.setUser k { s.users k with read := io.read }) k
    exact ⟨husers.trans husers', hworkers.trans hworkers'⟩
  · exact (dealTimer_retimed hu).users

lemma dealWithRead_opened {io : Io} {batch : List Ready} (hr : cfg.reactor = false)
    (h : dealWithRead cfg s k io batch = some t) (ho : fd ∈ t.opened) : fd ∈ s.opened := by
  rw [dealWithRead, hr] at h
  obtain ⟨u, hu, rfl⟩ := Option.map_eq_some_iff.mp h
  split at hu
  · have hopened : (appendP cfg (s.setUser k { s.users k with read := io.read }) k).opened = s.opened := by
      rw [appendP]
      split_ifs <;> rfl
    exact hopened ▸ (adjust_retimed hu).sublist.subset ho
  · exact (dealTimer_retimed hu).sublist.subset ho

structure Silent (s t : WebServer) (fd : ℕ) : Prop where
  output : (t.users fd).output = (s.users fd).output
  workers : t.workers = s.workers

lemma Silent.of_users (h : t.users = s.users ∧ t.workers = s.workers) : Silent s t fd :=
  ⟨by rw [h.1], h.2⟩

lemma Silent.trans {u : WebServer} (h : Silent s t fd) (h' : Silent t u fd) : Silent s u fd :=
  ⟨h'.output.trans h.output, h'.workers.trans h.workers⟩

lemma Silent.goTo (h : Silent s t fd) (m : Main) : Silent s (t.goTo m) fd := ⟨h.output, h.workers⟩

lemma setUser_output {v : User} (hv : k = fd → v.output = (s.users k).output) :
    ((s.setUser k v).users fd).output = (s.users fd).output := by
  change (Function.update s.users k v fd).output = _
  by_cases hk : k = fd
  · subst hk
    rw [Function.update_self]
    exact hv rfl
  · rw [Function.update_of_ne (Ne.symm hk)]

lemma setUser_silent {v : User} (hv : v.output = (s.users k).output) : Silent s (s.setUser k v) fd :=
  ⟨setUser_output fun _ => hv, rfl⟩

lemma append_silent (cfg : Config) (s : WebServer) (k state : ℕ) : Silent s (append cfg s k state) fd := by
  rw [append]
  split_ifs
  · exact ⟨rfl, rfl⟩
  · exact ⟨setUser_output fun _ => rfl, rfl⟩

lemma dealWithRead_silent {io : Io} {batch : List Ready} (h : dealWithRead cfg s k io batch = some t) :
    Silent s t fd := by
  cases hr : cfg.reactor with
  | true =>
    rw [dealWithRead, if_pos hr] at h
    obtain ⟨u, hu, h⟩ := Option.bind_eq_some_iff.mp h
    cases h
    exact ((Silent.of_users (adjust_retimed hu).users).trans (append_silent cfg u k 0)).goTo _
  | false =>
    obtain ⟨husers, hworkers⟩ := dealWithRead_users hr h
    have hread : Silent s (s.setUser k { s.users k with read := io.read }) fd := setUser_silent rfl
    exact hread.trans (.of_users ⟨husers, hworkers⟩)

lemma dealWithWrite_silent {io : Io} {batch : List Ready} (h : dealWithWrite cfg s k io batch = some t) :
    Silent s t fd := by
  rw [dealWithWrite] at h
  by_cases hr : cfg.reactor = true
  · rw [if_pos hr] at h
    obtain ⟨u, hu, h⟩ := Option.bind_eq_some_iff.mp h
    cases h
    exact ((Silent.of_users (adjust_retimed hu).users).trans (append_silent cfg u k 1)).goTo _
  · rw [if_neg hr] at h
    obtain ⟨u, hu, rfl⟩ := Option.map_eq_some_iff.mp h
    split at hu
    · exact (Silent.of_users (adjust_retimed hu).users).goTo _
    · exact (Silent.of_users (dealTimer_retimed hu).users).goTo _

lemma main_silent (hs : Step cfg s .main t) (ho : fd ∈ s.opened) : Silent s t fd := by
  cases hs with
  | wait | leave | busy | acceptFail | signals | poll | unflagged | idle => exact ⟨rfl, rfl⟩
  | @accept u batch k p hm hk hc hp hu =>
    obtain ⟨l, -, rfl⟩ := Option.map_eq_some_iff.mp hu
    have hne : fd ≠ k := fun he => hk (he ▸ ho)
    exact ⟨congrArg User.output (Function.update_of_ne hne _ _), rfl⟩
  | hangup hm ht => exact (Silent.of_users (dealTimer_retimed ht).users).goTo _
  | readable io hm ht => exact dealWithRead_silent ht
  | writable io hm ht => exact dealWithWrite_silent ht
  | @flagged u k timer batch hm hf ht =>
    have hflag : Silent u (u.setUser k { u.users k with timerFlag := false }) fd := setUser_silent rfl
    exact ((Silent.of_users (dealTimer_retimed ht).users).trans hflag).goTo _
  | @clear k batch hm => exact (setUser_silent (v := { s.users k with improv := false }) rfl).goTo _
  | tick hm hf ht =>
    obtain ⟨fds, hticked⟩ := tickServer_retimed ht
    obtain ⟨husers, hworkers⟩ := hticked.users
    exact .of_users ⟨husers, hworkers⟩

lemma worker_output (hs : Step cfg s (.worker i) t) (hr : ∀ k, s.workers i ≠ some (.reading k)) :
    (∃ ret, s.workers i = some (.writing fd ret)) ∨
      (t.users fd).output = (s.users fd).output ∧
        ∃ w, t.workers = Function.update s.workers i w ∧ ∀ k ret, w ≠ some (.writing k ret) := by
  cases hs with
  | dequeue | process | write | closed | close | discount => exact .inr ⟨rfl, _, rfl, by simp⟩
  | read | fail | reset => exact .inr ⟨setUser_output fun _ => rfl, _, rfl, by simp⟩
  | @flag _ k isRead ok hw =>
    refine .inr ⟨setUser_output fun _ => rfl, _, rfl, fun j ret => ?_⟩
    cases ok <;> cases isRead <;> simp [afterFlag]
  | parse stat hw => exact absurd hw (hr _)
  | @answer _ k ret hw =>
    by_cases hk : k = fd
    · exact .inl ⟨ret, hk ▸ hw⟩
    · refine .inr ⟨setUser_output fun he => absurd he hk, _, rfl, fun j ret' => ?_⟩
      rw [afterWrite]
      split <;> simp
  | @rearm _ k interest hw =>
    refine .inr ⟨?_, none, ?_, by simp⟩
    · cases h : (s.users k).sockfd with
      | none => rfl
      | some j =>
        rw [modfd]
        split <;> rfl
    · cases h : (s.users k).sockfd with
      | none => rfl
      | some j =>
        rw [modfd]
        split <;> rfl

end Frames

section Phases

variable {cfg : Config} {root : List UInt8} {files : List UInt8 → FileStat} {x y : Site} {a : Actor} {fd : ℕ} {h : Head}

structure Still (x y : Site) (fd : ℕ) : Prop where
  output : (y.web.users fd).output = (x.web.users fd).output
  realFile : y.realFile fd = x.realFile fd
  writers : ∀ j ret, y.web.workers j = some (.writing fd ret) ↔ x.web.workers j = some (.writing fd ret)

def Unwritten (x : Site) (fd : ℕ) : Prop := ∀ j ret, x.web.workers j ≠ some (.writing fd ret)

variable (cfg root files) in
inductive Change (x : Site) (a : Actor) (y : Site) (fd : ℕ) : Prop
  | none : Still x y fd → (y.web.users fd).read = (x.web.users fd).read → y.heard fd = x.heard fd → Change x a y fd
  | received (bytes : List UInt8) : Still x y fd → Unwritten x fd →
      (y.web.users fd).read = (x.web.users fd).read.receive bytes → y.heard fd = x.heard fd ++ bytes → Change x a y fd
  | parsed {i : ℕ} {code : HttpCode} {c : ReadState} : x.web.workers i = some (.reading fd) →
      processRead cfg.junk (x.web.users fd).read = some (.returned code c) → (code = .noRequest → Still x y fd) →
      (y.web.users fd).read = c → y.heard fd = x.heard fd → Change x a y fd
  | requested {i : ℕ} {origin : Origin} {c : ReadState} {inserted : Bool} {code : HttpCode} {d : HttpConn}
      {acc : Accounts} : x.web.workers i = some (.reading fd) →
      processRead cfg.junk (x.web.users fd).read = some (.doRequest origin c) →
      doRequest files inserted ⟨c, x.realFile fd, root⟩ x.accounts = .ok (code, d, acc) →
      y.web.workers i = some (.writing fd code) → (y.web.users fd).read = c →
      (y.web.users fd).output =
        ((x.web.users fd).write, (files d.path).sizeOr (x.web.users fd).fileSize) →
      y.realFile fd = d.realFile → y.heard fd = x.heard fd → Change x a y fd
  | answered {i : ℕ} {ret : HttpCode} : a = .worker i → x.web.workers i = some (.writing fd ret) →
      y.heard fd = x.heard fd → Change x a y fd

lemma Silent.still (hq : Silent x.web y.web fd) (hfile : y.realFile fd = x.realFile fd) : Still x y fd :=
  ⟨hq.output, hfile, fun j ret => by rw [hq.workers]⟩

lemma Still.of_update {i : ℕ} {w : Option Worker} (hout : (y.web.users fd).output = (x.web.users fd).output)
    (hfile : y.realFile fd = x.realFile fd) (hworkers : y.web.workers = Function.update x.web.workers i w)
    (hbefore : ∀ ret, x.web.workers i ≠ some (.writing fd ret)) (hafter : ∀ ret, w ≠ some (.writing fd ret)) :
    Still x y fd := by
  refine ⟨hout, hfile, fun j ret => ?_⟩
  rw [hworkers]
  by_cases hj : j = i
  · subst hj
    rw [Function.update_self]
    exact ⟨fun he => absurd he (hafter ret), fun he => absurd he (hbefore ret)⟩
  · rw [Function.update_of_ne hj]

lemma Solo.unwritten {i : ℕ} {w : Worker} (hsolo : Solo x.web) (hw : x.web.workers i = some w) (hfd : w.fd = fd)
    (hne : ∀ ret, w ≠ .writing fd ret) : Unwritten x fd := by
  intro j ret hj
  obtain rfl := hsolo.single i j w _ hw hj hfd
  exact hne ret (Option.some.inj (hw.symm.trans hj))

lemma Solo.unwritten_token (hsolo : Solo x.web) (hin : fd ∈ x.web.tokens) : Unwritten x fd :=
  fun j _ hj => (hsolo.waits fd hin).2.2 ⟨j, _, hj, rfl⟩

lemma readUser_of_ne {s : WebServer} {k : ℕ} {v : User} {i : ℕ} {w : Option Worker} (hk : fd ≠ k) :
    (((s.setUser k v).setWorker i w).users fd) = s.users fd := Function.update_of_ne hk _ _

lemma readUser_self {s : WebServer} {v : User} {i : ℕ} {w : Option Worker} :
    (((s.setUser fd v).setWorker i w).users fd) = v := Function.update_self _ _ _

lemma Serve.change (hs : Serve cfg root files x a y) (hsolo : Solo x.web) (ho : fd ∈ x.web.opened) :
    Change cfg root files x a y fd := by
  have hstep := hs.step
  cases hs with
  | @accept t batch k p hm hk hc hp ht =>
    have hne : fd ≠ k := fun he => hk (he ▸ ho)
    have hq : Silent x.web _ fd := main_silent hstep ho
    obtain ⟨l, -, rfl⟩ := Option.map_eq_some_iff.mp ht
    exact .none (hq.still (Function.update_of_ne hne _ _)) (congrArg User.read (Function.update_of_ne hne _ _))
      (Function.update_of_ne hne _ _)
  | @readable t k batch ok bytes hr hm hfit ht =>
    have hq : Silent x.web t fd := main_silent hstep ho
    obtain ⟨husers, -⟩ := dealWithRead_users hr ht
    by_cases hk : fd = k
    · subst hk
      have htoken : fd ∈ x.web.tokens := by
        rw [tokens_head hm rfl]
        exact List.mem_cons_self
      refine .received bytes (hq.still rfl) (hsolo.unwritten_token htoken) ?_ (Function.update_self _ _ _)
      change (t.users fd).read = _
      rw [husers, Function.update_self]
    · refine .none (hq.still rfl) ?_ (Function.update_of_ne hk _ _)
      change (t.users fd).read = _
      rw [husers, Function.update_of_ne hk]
  | @read i k ok bytes hr hw hstate hfit =>
    by_cases hk : fd = k
    · subst hk
      have hun : Unwritten x fd := hsolo.unwritten hw rfl (by simp)
      exact .received bytes (.of_update (setUser_output fun _ => rfl) rfl rfl (hun i) (by simp)) hun
        (congrArg User.read readUser_self) (Function.update_self _ _ _)
    · refine .none (.of_update ?_ rfl rfl (by simp [hw]) (by simp)) ?_ (Function.update_of_ne hk _ _)
      · exact congrArg User.output (readUser_of_ne hk)
      · exact congrArg User.read (readUser_of_ne hk)
  | @parse i k code c u w hw hp hafter =>
    have hwriting (ret : HttpCode) : x.web.workers i ≠ some (.writing fd ret) := by simp [hw]
    obtain ⟨-, hwfd, -⟩ := afterRead_worker hafter (hsolo.stage i _ hw)
    by_cases hk : fd = k
    · subst hk
      refine .parsed hw hp ?_ ?_ rfl
      · rintro rfl
        cases hafter
        exact .of_update (setUser_output fun _ => rfl) rfl rfl hwriting (by simp)
      · refine (congrArg User.read readUser_self).trans ?_
        cases code <;> cases hafter <;> rfl
    · refine .none (.of_update (congrArg User.output (readUser_of_ne hk)) rfl rfl hwriting ?_)
        (congrArg User.read (readUser_of_ne hk)) rfl
      rintro ret ⟨⟩
      exact hk hwfd
  | @request i k origin c code d acc inserted hw hp hdo =>
    by_cases hk : fd = k
    · subst hk
      exact .requested hw hp hdo (Function.update_self _ _ _) (congrArg User.read readUser_self)
        (congrArg User.output readUser_self) (Function.update_self _ _ _) rfl
    · refine .none (.of_update (congrArg User.output (readUser_of_ne hk)) (Function.update_of_ne hk _ _) rfl
        (by simp [hw]) ?_) (congrArg User.read (readUser_of_ne hk)) rfl
      rintro ret ⟨⟩
      exact hk rfl
  | @other a t hother hreads hopened hreading =>
    cases a with
    | clock =>
      cases hother with
      | clock => exact .none ⟨rfl, rfl, fun _ _ => Iff.rfl⟩ rfl rfl
    | main => exact .none ((main_silent hother ho).still rfl) (hreads fd) rfl
    | worker i =>
      by_cases hwriting : ∃ ret, x.web.workers i = some (.writing fd ret)
      · obtain ⟨ret, hwriting⟩ := hwriting
        exact .answered rfl hwriting rfl
      · obtain ⟨hout, w, hworkers, hw⟩ := (worker_output hother fun k => hreading i k rfl).resolve_left hwriting
        exact .none (.of_update hout rfl hworkers (fun ret he => hwriting ⟨ret, he⟩) (hw fd)) (hreads fd) rfl

variable (cfg) in
structure Listening (x : Site) (fd : ℕ) : Prop where
  fed : Fed cfg.junk (x.heard fd) (x.web.users fd).read
  empty : (x.web.users fd).write.writeIdx = 0
  cleared : x.realFile fd = fun _ => 0
  unwritten : Unwritten x fd

variable (root files h) in
structure Chosen (x : Site) (fd : ℕ) : Prop where
  heard : x.heard fd = h.bytes
  empty : (x.web.users fd).write.writeIdx = 0
  linger : (x.web.users fd).read.linger = h.keepsAlive
  path : str filenameLen (x.realFile fd) 0 = root ++ h.page
  size : ∃ n, (x.web.users fd).fileSize = (files (root ++ h.page)).sizeOr n
  worker : ∃ i, x.web.workers i = some (.writing fd (files (root ++ h.page)).verdict)

variable (cfg root files h) in
inductive Phase (x : Site) (fd : ℕ) : Prop
  | listening : Listening cfg x fd → Phase x fd
  | chosen : Chosen root files h x fd → Phase x fd
  | answered : HasAnswer cfg x.web fd → Phase x fd

lemma Listening.still (hl : Listening cfg x fd) (hs : Still x y fd)
    (hfed : Fed cfg.junk (y.heard fd) (y.web.users fd).read) : Listening cfg y fd where
  fed := hfed
  empty := (congrArg (fun o => o.1.writeIdx) hs.output).trans hl.empty
  cleared := hs.realFile.trans hl.cleared
  unwritten j ret hj := hl.unwritten j ret ((hs.writers j ret).mp hj)

lemma Chosen.still (hc : Chosen root files h x fd) (hs : Still x y fd)
    (hread : (y.web.users fd).read = (x.web.users fd).read) (hheard : y.heard fd = x.heard fd) :
    Chosen root files h y fd where
  heard := hheard.trans hc.heard
  empty := (congrArg (fun o => o.1.writeIdx) hs.output).trans hc.empty
  linger := by rw [hread, hc.linger]
  path := by rw [hs.realFile, hc.path]
  size := hc.size.imp fun n hn => (congrArg Prod.snd hs.output).trans hn
  worker := hc.worker.imp fun i hi => (hs.writers i _).mpr hi

structure Plain (root : List UInt8) (h : Head) : Prop where
  bodyless : h.length = 0
  guest : h.credential = false
  fits : h.bytes.length ≤ readBufferSize
  text : 0 ∉ root
  room : root.length + h.page.length < filenameLen

lemma Listening.step (hl : Listening cfg x fd) (hp : Plain root h) (hc : Change cfg root files x a y fd)
    (hpre : y.heard fd <+: h.bytes) : Phase cfg root files h y fd := by
  cases hc with
  | none hs hread hheard =>
    refine .listening (hl.still hs ?_)
    rw [hread, hheard]
    exact hl.fed
  | received bytes hs hun hread hheard =>
    refine .listening (hl.still hs ?_)
    rw [hread, hheard]
    exact hl.fed.receive bytes
  | parsed hw hread hs hc hheard =>
    rw [hheard] at hpre
    by_cases hall : x.heard fd = h.bytes
    · obtain ⟨d, hd, -⟩ := (hall ▸ hl.fed).whole hp.bodyless hp.guest hp.fits hp.text hp.room
      cases hread.symm.trans hd
    · obtain ⟨d, hd, hfed⟩ := hl.fed.part hpre hall hp.fits
      cases hread.symm.trans hd
      refine .listening (hl.still (hs rfl) ?_)
      rw [hc, hheard]
      exact hfed
  | @requested i origin c inserted code d acc hw hread hdo hworker hc hout hfile hheard =>
    rw [hheard] at hpre
    by_cases hall : x.heard fd = h.bytes
    · obtain ⟨e, he, hlinger, r, hpath, hr⟩ := (hall ▸ hl.fed).whole hp.bodyless hp.guest hp.fits hp.text hp.room
      cases hread.symm.trans he
      rw [hl.cleared] at hdo
      cases hdo.symm.trans (hr files inserted x.accounts)
      refine .chosen ⟨hheard.trans hall, ?_, hc ▸ hlinger, hfile ▸ hpath,
        ⟨(x.web.users fd).fileSize, ?_⟩, i, hworker⟩
      · exact (congrArg (fun o => o.1.writeIdx) hout).trans hl.empty
      · exact (congrArg Prod.snd hout).trans (by rw [hpath])
    · obtain ⟨e, he, -⟩ := hl.fed.part hpre hall hp.fits
      cases hread.symm.trans he
  | answered ha hw => exact absurd hw (hl.unwritten _ _)

lemma Chosen.step (hch : Chosen root files h x fd) (hsolo : Solo x.web) (hs : Serve cfg root files x a y)
    (hc : Change cfg root files x a y fd) : Phase cfg root files h y fd := by
  obtain ⟨i, hi⟩ := hch.worker
  cases hc with
  | none hs hread hheard => exact .chosen (hch.still hs hread hheard)
  | received bytes hs hun => exact absurd hi (hun i _)
  | parsed hw | requested hw =>
    have hun : Unwritten x fd := hsolo.unwritten hw rfl (by simp)
    exact absurd hi (hun i _)
  | answered ha hw =>
    subst ha
    exact .answered (hasAnswer_of_answer hsolo hw hs.step)

lemma Change.heard (hc : Change cfg root files x a y fd) : x.heard fd <+: y.heard fd := by
  cases hc with
  | none hs hread hheard => rw [hheard]
  | received bytes hs hun hread hheard =>
    rw [hheard]
    exact List.prefix_append _ _
  | parsed hw hread hs hc hheard => rw [hheard]
  | requested hw hread hdo hworker hc hout hfile hheard => rw [hheard]
  | answered ha hw hheard => rw [hheard]

lemma Phase.step (hph : Phase cfg root files h x fd) (hp : Plain root h) (hsolo : Solo x.web)
    (ho : fd ∈ x.web.opened) (hs : Serve cfg root files x a y) (hpre : y.heard fd <+: h.bytes) :
    Phase cfg root files h y fd := by
  have hc := hs.change hsolo ho
  cases hph with
  | listening hl => exact hl.step hp hc hpre
  | chosen hch => exact hch.step hsolo hs hc
  | answered ha => exact .answered (ha.step hsolo ho hs.step)

lemma Serve.opens (hs : Serve cfg root files x a y) (hsolo : Solo x.web) (ho : fd ∈ y.web.opened)
    (hno : fd ∉ x.web.opened) : Listening cfg y fd := by
  cases hs with
  | @accept t batch k p hm hk hc hp ht =>
    obtain ⟨l, -, rfl⟩ := Option.map_eq_some_iff.mp ht
    obtain rfl : fd = k := (List.mem_cons.mp ho).resolve_right hno
    have huser : (Function.update x.web.users fd ((x.web.users fd).init fd)) fd = (x.web.users fd).init fd :=
      Function.update_self _ _ _
    refine ⟨?_, ?_, Function.update_self _ _ _, fun j ret hj => hno (hsolo.stage j _ hj)⟩
    · change Fed cfg.junk (Function.update x.heard fd [] fd) (Function.update x.web.users fd _ fd).read
      rw [Function.update_self, huser]
      exact fed_init _
    · change (Function.update x.web.users fd _ fd).write.writeIdx = 0
      rw [huser]
      rfl
  | readable ok bytes hr hm hfit ht => exact absurd (dealWithRead_opened hr ht ho) hno
  | read | parse | request => exact absurd ho hno
  | other hother hreads hopened => exact absurd (hopened fd ho) hno

variable (cfg root files h) in
structure Served (x : Site) : Prop where
  solo : Solo x.web
  phases : ∀ fd ∈ x.web.opened, x.heard fd <+: h.bytes → Phase cfg root files h x fd

lemma served_start (slots : ℕ → Slot) (users : ℕ → User) (now : ℤ) (realFile : ℕ → Memory) (accounts : Accounts) :
    Served cfg root files h (.start slots users now realFile accounts) :=
  ⟨solo_start slots users now, fun _ ho => absurd ho List.not_mem_nil⟩

lemma Served.step (hx : Served cfg root files h x) (hp : Plain root h) (hs : CarefulServe cfg root files x a y) :
    Served cfg root files h y := by
  refine ⟨step_solo x.web a y.web hx.solo hs.step, fun fd ho hpre => ?_⟩
  by_cases hin : fd ∈ x.web.opened
  · have hbefore := (hs.1.change hx.solo hin).heard.trans hpre
    exact (hx.phases fd hin hbefore).step hp hx.solo hin hs.1 hpre
  · exact .listening (hs.1.opens hx.solo ho hin)

end Phases

section Result

variable {cfg : Config} {root : List UInt8} {files : List UInt8 → FileStat} {x : Site} {fd i : ℕ} {h : Head}
  {slots : ℕ → Slot} {users : ℕ → User} {now : ℤ} {realFile : ℕ → Memory} {accounts : Accounts}

lemma Chosen.reply (hc : Chosen root files h x fd) :
    x.reply root fd (files (root ++ h.page)).verdict =
      some (replyWith h.keepsAlive (root ++ h.page) (files (root ++ h.page))) := by
  obtain ⟨n, hn⟩ := hc.size
  rw [Site.reply, hn, answerWith_reply _ hc.empty]
  simp only [HttpConn.path]
  rw [hc.path, hc.linger]

lemma Quiet.serve {s t : WebServer} {a : Actor} (h : Quiet cfg s a t) (heard : ℕ → List UInt8) :
    CarefulServe cfg root files ⟨s, heard, realFile, accounts⟩ a ⟨t, heard, realFile, accounts⟩ :=
  ⟨.other h.step h.reads (h.opened ▸ fun _ => id) fun i k ha => (h.worker i k ha).1, .same h.opened⟩

end Result

end OceanServer.Server
