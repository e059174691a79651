import OceanServer.Library.CString
import OceanServer.Library.Loop

/-! The request parser of a connection: the line splitter, the request line, the headers, the body
and the loop of `process_read` that drives them over the receive buffer. -/

namespace OceanServer.Http

open Library Library.CString

def readBufferSize : ℕ := 2048

inductive Method where
  | get | post | head | put | delete | trace | options | connect | path
  deriving DecidableEq, Repr, Inhabited

inductive CheckState where
  | requestLine | header | content
  deriving DecidableEq, Repr, Inhabited

inductive HttpCode where
  | noRequest | getRequest | badRequest | noResource | forbiddenRequest | fileRequest
  | internalError | closedConnection
  deriving DecidableEq, Repr, Inhabited

inductive LineStatus where
  | ok | bad | open
  deriving DecidableEq, Repr, Inhabited

/-- The members of `http_conn` that reading a request uses. A `char *` into `m_read_buf` is its
offset there, `none` when it is null. -/
structure ReadState where
  readBuf : Memory
  readIdx : ℕ
  checkedIdx : ℕ
  startLine : ℕ
  checkState : CheckState
  method : Method
  url : Option ℕ
  version : Option ℕ
  host : Option ℕ
  contentLength : ℤ
  linger : Bool
  cgi : ℕ
  string : Option ℕ
  deriving Inhabited

def ReadState.init (c : ReadState) : ReadState :=
  -- `init` clears every member but `m_string`.
  { c with
    readBuf := fun _ => 0, readIdx := 0, checkedIdx := 0, startLine := 0
    checkState := .requestLine, method := .get, url := none, version := none, host := none
    contentLength := 0, linger := false, cgi := 0 }

def ReadState.receive (c : ReadState) (bytes : List UInt8) : ReadState :=
  { c with readBuf := c.readBuf.write c.readIdx bytes, readIdx := c.readIdx + bytes.length }

def cr : UInt8 := 13
def lf : UInt8 := 10
def slash : UInt8 := 47
def blanks : List UInt8 := [32, 9]

def parseLineLoop : ℕ → ReadState → LineStatus × ReadState
  | 0, c => (.open, c)
  | n + 1, c =>
    let i := c.checkedIdx
    if c.readBuf i = cr then
      if i + 1 = c.readIdx then (.open, c)
      else if c.readBuf (i + 1) = lf then
        (.ok, { c with readBuf := (c.readBuf.set i 0).set (i + 1) 0, checkedIdx := i + 2 })
      else (.bad, c)
    else if c.readBuf i = lf then
      if 1 < i ∧ c.readBuf (i - 1) = cr then
        (.ok, { c with readBuf := (c.readBuf.set (i - 1) 0).set i 0, checkedIdx := i + 1 })
      else (.bad, c)
    else parseLineLoop n { c with checkedIdx := i + 1 }

def parseLine (c : ReadState) : LineStatus × ReadState := parseLineLoop (c.readIdx - c.checkedIdx) c

def judgePage (c : ReadState) (url : ℕ) : HttpCode × ReadState :=
  let c := { c with url := some url }
  if c.readBuf url ≠ slash then (.badRequest, c)
  else if (str readBufferSize c.readBuf url).length = 1 then
    (.noRequest, { c with
      readBuf := strcat readBufferSize c.readBuf url
        (ascii ['j', 'u', 'd', 'g', 'e', '.', 'h', 't', 'm', 'l'])
      checkState := .header })
  else (.noRequest, { c with checkState := .header })

def stripHttps (c : ReadState) (url : ℕ) : HttpCode × ReadState :=
  if strncasecmp readBufferSize c.readBuf url (ascii ['h', 't', 't', 'p', 's', ':', '/', '/']) 8 then
    match strchr readBufferSize c.readBuf (url + 8) slash with
    | none => (.badRequest, { c with url := none })
    | some u => judgePage c u
  else judgePage c url

def stripHttp (c : ReadState) (url : ℕ) : Option (HttpCode × ReadState) :=
  -- The result is `none` where `strchr` has left `m_url` null and the code compares it again.
  if strncasecmp readBufferSize c.readBuf url (ascii ['h', 't', 't', 'p', ':', '/', '/']) 7 then
    (strchr readBufferSize c.readBuf (url + 7) slash).map (stripHttps c)
  else some (stripHttps c url)

def parseVersion (c : ReadState) (url : ℕ) : Option (HttpCode × ReadState) :=
  let url := url + strspn readBufferSize c.readBuf url blanks
  match strpbrk readBufferSize c.readBuf url blanks with
  | none => some (.badRequest, { c with url := some url, version := none })
  | some v =>
    let buf := c.readBuf.set v 0
    let version := v + 1 + strspn readBufferSize buf (v + 1) blanks
    let c := { c with readBuf := buf, url := some url, version := some version }
    if strcasecmp readBufferSize buf version (ascii ['H', 'T', 'T', 'P', '/', '1', '.', '1']) then
      stripHttp c url
    else some (.badRequest, c)

def parseRequestLine (c : ReadState) (text : ℕ) : Option (HttpCode × ReadState) :=
  match strpbrk readBufferSize c.readBuf text blanks with
  | none => some (.badRequest, { c with url := none })
  | some sp =>
    let c := { c with readBuf := c.readBuf.set sp 0, url := some (sp + 1) }
    if strcasecmp readBufferSize c.readBuf text (ascii ['G', 'E', 'T']) then
      parseVersion { c with method := .get } (sp + 1)
    else if strcasecmp readBufferSize c.readBuf text (ascii ['P', 'O', 'S', 'T']) then
      parseVersion { c with method := .post, cgi := 1 } (sp + 1)
    else some (.badRequest, c)

def connectionKey : List UInt8 := ascii ['C', 'o', 'n', 'n', 'e', 'c', 't', 'i', 'o', 'n', ':']
def keepAlive : List UInt8 := ascii ['k', 'e', 'e', 'p', '-', 'a', 'l', 'i', 'v', 'e']
def contentLengthKey : List UInt8 :=
  ascii ['C', 'o', 'n', 't', 'e', 'n', 't', '-', 'l', 'e', 'n', 'g', 't', 'h', ':']
def hostKey : List UInt8 := ascii ['H', 'o', 's', 't']

def skipBlanks (buf : Memory) (p : ℕ) : ℕ := p + strspn readBufferSize buf p blanks

def parseHeaders (c : ReadState) (text : ℕ) : HttpCode × ReadState :=
  if c.readBuf text = 0 then
    if c.contentLength ≠ 0 then (.noRequest, { c with checkState := .content })
    else (.getRequest, c)
  else if strncasecmp readBufferSize c.readBuf text connectionKey 11 then
    if strcasecmp readBufferSize c.readBuf (skipBlanks c.readBuf (text + 11)) keepAlive then
      (.noRequest, { c with linger := true })
    else (.noRequest, c)
  else if strncasecmp readBufferSize c.readBuf text contentLengthKey 15 then
    (.noRequest, { c with
      contentLength := atol readBufferSize c.readBuf (skipBlanks c.readBuf (text + 15)) })
  else if strncasecmp readBufferSize c.readBuf text hostKey 5 then
    (.noRequest, { c with host := some (skipBlanks c.readBuf (text + 5)) })
  else (.noRequest, c)

/-- The outer `none` is a signed overflow or a write outside `m_read_buf`; the inner one is the path
that reaches the end of `parse_content` without a `return`. -/
def parseContent (c : ReadState) (text : ℕ) : Option (Option HttpCode × ReadState) :=
  let needed := c.contentLength + c.checkedIdx
  let stop := (text : ℤ) + c.contentLength
  if longMax < needed then none
  else if needed ≤ c.readIdx then
    if 0 ≤ stop ∧ stop < readBufferSize then
      some (some .getRequest,
        { c with readBuf := c.readBuf.set stop.toNat 0, string := some text })
    else none
  else some (none, c)

inductive Origin where
  | headers | content | fallThrough
  deriving DecidableEq, Repr, Inhabited

inductive Leave where
  | returned (code : HttpCode) (c : ReadState)
  | doRequest (origin : Origin) (c : ReadState)
  | fault

def ReadState.takeLine (c : ReadState) : ReadState := { c with startLine := c.checkedIdx }

def onRequestLine : Option (HttpCode × ReadState) → (LineStatus × ReadState) ⊕ Leave
  | none => .inr .fault
  | some (ret, c) => if ret = .badRequest then .inr (.returned .badRequest c) else .inl (.ok, c)

def onHeaders : HttpCode × ReadState → (LineStatus × ReadState) ⊕ Leave
  | (ret, c) =>
    if ret = .badRequest then .inr (.returned .badRequest c)
    else if ret = .getRequest then .inr (.doRequest .headers c)
    else .inl (.ok, c)

/-- `junk` is what the caller of `parse_content` finds when no `return` was reached, as a function of
`m_read_idx` and `m_checked_idx` at that call. -/
def onContent (junk : ℕ → ℕ → HttpCode) :
    Option (Option HttpCode × ReadState) → (LineStatus × ReadState) ⊕ Leave
  | none => .inr .fault
  | some (some ret, c) =>
    if ret = .getRequest then .inr (.doRequest .content c) else .inl (.open, c)
  | some (none, c) =>
    if junk c.readIdx c.checkedIdx = .getRequest then .inr (.doRequest .fallThrough c)
    else .inl (.open, c)

def switchState (junk : ℕ → ℕ → HttpCode) (c : ReadState) : (LineStatus × ReadState) ⊕ Leave :=
  match c.checkState with
  | .requestLine => onRequestLine (parseRequestLine c.takeLine c.startLine)
  | .header => onHeaders (parseHeaders c.takeLine c.startLine)
  | .content => onContent junk (parseContent c.takeLine c.startLine)

def onLine (junk : ℕ → ℕ → HttpCode) :
    LineStatus × ReadState → (LineStatus × ReadState) ⊕ Leave
  | (.ok, c) => switchState junk c
  | (_, c) => .inr (.returned .noRequest c)

def readStep (junk : ℕ → ℕ → HttpCode) (s : LineStatus × ReadState) :
    (LineStatus × ReadState) ⊕ Leave :=
  if s.2.checkState = .content ∧ s.1 = .ok then switchState junk s.2
  else onLine junk (parseLine s.2)

def iterations (c : ReadState) : ℕ := 2 * (c.readIdx - c.checkedIdx) + 2

def processRead (junk : ℕ → ℕ → HttpCode) (c : ReadState) : Option Leave :=
  Loop.eval (readStep junk) (iterations c) (.ok, c)

end OceanServer.Http
