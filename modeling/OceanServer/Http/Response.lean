import OceanServer.Http.Parser

/-! The answer to a request: the texts that `process_write` puts into the write buffer for each verdict,
and the verdicts that it answers at all. -/

namespace OceanServer.Http

open Library Library.CString

def writeBufferSize : ℕ := 1024

def ok200Title : List UInt8 := ascii "OK".toList
def error403Title : List UInt8 := ascii "Forbidden".toList
def error403Form : List UInt8 := ascii "You do not have permission to get file form this server.\n".toList
def error404Title : List UInt8 := ascii "Not Found".toList
def error404Form : List UInt8 := ascii "The requested file was not found on this server.\n".toList
def error500Title : List UInt8 := ascii "Internal Error".toList
def error500Form : List UInt8 := ascii "There was an unusual problem serving the request file.\n".toList
def okString : List UInt8 := ascii "<html><body></body></html>".toList

structure WriteState where
  writeBuf : Memory
  writeIdx : ℕ
  iov₀ : ℤ
  iov₁ : ℤ
  ivCount : ℕ
  bytesToSend : ℤ
  deriving Inhabited

def WriteState.init (w : WriteState) : WriteState :=
  { w with writeBuf := fun _ => 0, writeIdx := 0, bytesToSend := 0 }

def vsnprintf (m : Memory) (p room : ℕ) (text : List UInt8) : Memory :=
  if room = 0 then m else m.write p (text.take (room - 1) ++ [0])

def addResponse (w : WriteState) (text : List UInt8) : Bool × WriteState :=
  if writeBufferSize ≤ w.writeIdx then (false, w)
  else
    let room := writeBufferSize - 1 - w.writeIdx
    let w := { w with writeBuf := vsnprintf w.writeBuf w.writeIdx room text }
    if room ≤ text.length then (false, w) else (true, { w with writeIdx := w.writeIdx + text.length })

def decimalText (n : ℤ) : List UInt8 :=
  ascii (if n < 0 then '-' :: Nat.toDigits 10 n.natAbs else Nat.toDigits 10 n.natAbs)

def crlf : List UInt8 := [cr, lf]

def addContent (w : WriteState) (content : List UInt8) : Bool × WriteState := addResponse w content

def addStatusLine (w : WriteState) (status : ℤ) (title : List UInt8) : Bool × WriteState :=
  addResponse w (ascii "HTTP/1.1 ".toList ++ decimalText status ++ ascii [' '] ++ title ++ crlf)

def addContentLength (w : WriteState) (contentLength : ℤ) : Bool × WriteState :=
  addResponse w (ascii "Content-Length:".toList ++ decimalText contentLength ++ crlf)

def addLinger (w : WriteState) (linger : Bool) : Bool × WriteState :=
  addResponse w (ascii "Connection:".toList ++
    (if linger then ascii "keep-alive".toList else ascii "close".toList) ++ crlf)

def addBlankLine (w : WriteState) : Bool × WriteState := addResponse w crlf

def addHeaders (w : WriteState) (linger : Bool) (contentLength : ℤ) : Bool × WriteState :=
  match addContentLength w contentLength with
  | (false, w) => (false, w)
  | (true, w) =>
    match addLinger w linger with
    | (false, w) => (false, w)
    | (true, w) => addBlankLine w

def toInt (n : ℤ) : ℤ := n.bmod (2 ^ 32)

def page (w : WriteState) (linger : Bool) (status : ℕ) (title form : List UInt8) : Bool × WriteState :=
  addContent (addHeaders (addStatusLine w status title).2 linger form.length).2 form

def errorPage (w : WriteState) (linger : Bool) (status : ℕ) (title form : List UInt8) :
    Bool × WriteState :=
  match page w linger status title form with
  | (false, w) => (false, w)
  | (true, w) => (true, { w with iov₀ := w.writeIdx, ivCount := 1, bytesToSend := w.writeIdx })

def processWrite (w : WriteState) (linger : Bool) (size : ℤ) : HttpCode → Bool × WriteState
  | .internalError => errorPage w linger 500 error500Title error500Form
  | .badRequest => errorPage w linger 404 error404Title error404Form
  | .forbiddenRequest => errorPage w linger 403 error403Title error403Form
  | .fileRequest =>
    if size ≠ 0 then
      let w := (addHeaders (addStatusLine w 200 ok200Title).2 linger (toInt size)).2
      (true, { w with
        iov₀ := w.writeIdx, iov₁ := size, ivCount := 2, bytesToSend := toInt (w.writeIdx + size) })
    -- the case of an empty file runs on into the default case
    else (false, (page w linger 200 ok200Title okString).2)
  | .noRequest | .getRequest | .noResource | .closedConnection => (false, w)

inductive FileStat where
  | missing
  | found (othersRead directory : Bool) (size : ℤ)
  deriving DecidableEq, Repr

def FileStat.verdict : FileStat → HttpCode
  | .missing => .noResource
  | .found othersRead directory _ =>
    if othersRead then if directory then .badRequest else .fileRequest else .forbiddenRequest

def FileStat.sizeOr (old : ℤ) : FileStat → ℤ
  | .missing => old
  | .found _ _ size => size

def builtInPage : HttpCode → Option (ℕ × List UInt8 × List UInt8)
  | .internalError => some (500, error500Title, error500Form)
  | .badRequest => some (404, error404Title, error404Form)
  | .forbiddenRequest => some (403, error403Title, error403Form)
  | _ => none

/-- The verdicts that are answered: a file that is not empty, and a built-in page for which the write
buffer has room. -/
def Answered (w : WriteState) (linger : Bool) (size : ℤ) (ret : HttpCode) : Prop :=
  (ret = .fileRequest ∧ size ≠ 0) ∨
    ∃ status title form, builtInPage ret = some (status, title, form) ∧
      (page w linger status title form).1 = true

lemma errorPage_fst (w : WriteState) (linger : Bool) (status : ℕ) (title form : List UInt8) :
    (errorPage w linger status title form).1 = (page w linger status title form).1 := by
  unfold errorPage
  split
  · rename_i he
    rw [he]
  · rename_i he
    rw [he]

lemma processWrite_fst (w : WriteState) (linger : Bool) (size : ℤ) (ret : HttpCode) :
    (processWrite w linger size ret).1 = true ↔ Answered w linger size ret := by
  cases ret with
  | internalError | badRequest | forbiddenRequest =>
    simp only [processWrite, errorPage_fst]
    constructor
    · exact fun h => .inr ⟨_, _, _, rfl, h⟩
    · rintro (⟨hr, -⟩ | ⟨_, _, _, hp, h⟩)
      · cases hr
      · cases hp
        exact h
  | fileRequest =>
    by_cases hs : size = 0 <;> simp [processWrite, Answered, builtInPage, hs]
  | noRequest | getRequest | noResource | closedConnection => simp [processWrite, Answered, builtInPage]

end OceanServer.Http
