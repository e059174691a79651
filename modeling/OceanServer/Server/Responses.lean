import OceanServer.Http.Framing
import OceanServer.Server.Model

/-! What `process` does with a completed request: the verdicts that get a response, and those for which the
connection is closed without one. -/

namespace OceanServer.Server

open Library Library.CString Http

def completed : List HttpCode := [.badRequest, .noResource, .forbiddenRequest, .internalError, .fileRequest]

def HasResponse (linger : Bool) (w : WriteState) : Prop :=
  ∃ status title n body, cr ∉ title ∧ w.queued = headText linger status title n ++ body ∧ w.iov₀ = w.writeIdx ∧
    (w.ivCount = 1 ∧ body ≠ [] ∨ w.ivCount = 2 ∧ body = [] ∧ 0 < w.iov₁)

def Responds (u : User) (fd : ℕ) (ret : HttpCode) : Prop :=
  ∃ w, processWrite u.write u.read.linger u.fileSize ret = (true, w) ∧ HasResponse u.read.linger w ∧
    afterWrite u fd ret = ({ u with write := w }, .rearming fd .output)

section Responses

variable {u : User} {fd : ℕ} {ret : HttpCode}

lemma afterWrite_true {w : WriteState} (h : processWrite u.write u.read.linger u.fileSize ret = (true, w)) :
    afterWrite u fd ret = ({ u with write := w }, .rearming fd .output) := by
  rw [afterWrite, h]

lemma page_responds {status : ℕ} {title form : List UInt8} (hw : u.write.writeIdx = 0)
    (h : builtInPage ret = some (status, title, form)) : Responds u fd ret := by
  obtain ⟨w, hpw, hq⟩ := processWrite_page hw u.read.linger u.fileSize h
  obtain ⟨hqueued, -⟩ := queued_of_empty hw hq
  obtain ⟨-, htitle, hform⟩ := builtInPage_fits u.read.linger h
  exact ⟨_, hpw, ⟨status, title, form.length, form, htitle, hqueued, rfl, .inl ⟨rfl, hform⟩⟩, afterWrite_true hpw⟩

lemma file_responds (hw : u.write.writeIdx = 0) (hs : 0 < u.fileSize) : Responds u fd .fileRequest := by
  obtain ⟨w, hpw, hq⟩ := processWrite_file hw u.read.linger hs.ne'
  obtain ⟨hqueued, -⟩ := queued_of_empty hw hq
  refine ⟨_, hpw, ⟨200, ok200Title, toInt u.fileSize, [], by decide, ?_, rfl, .inr ⟨rfl, rfl, hs⟩⟩, afterWrite_true hpw⟩
  rw [List.append_nil]
  exact hqueued

lemma not_responds_of_closing (h : (afterWrite u fd ret).2 = .closing fd) : ¬ Responds u fd ret := by
  rintro ⟨w, -, -, ha⟩
  rw [ha] at h
  cases h

theorem responds_iff (hw : u.write.writeIdx = 0) (hsize : 0 ≤ u.fileSize) (hret : ret ∈ completed) :
    Responds u fd ret ↔ ret ≠ .noResource ∧ (ret = .fileRequest → u.fileSize ≠ 0) := by
  constructor
  · rintro ⟨w, hpw, -⟩
    have hanswered := (processWrite_fst u.write u.read.linger u.fileSize ret).mp (by rw [hpw])
    rcases hanswered with ⟨rfl, hs⟩ | ⟨status, title, form, hpage, -⟩
    · exact ⟨by decide, fun _ => hs⟩
    · constructor
      · rintro rfl
        cases hpage
      · rintro rfl
        cases hpage
  · rintro ⟨hmissing, hempty⟩
    cases ret with
    | internalError | badRequest | forbiddenRequest => exact page_responds hw rfl
    | fileRequest => exact file_responds hw (hsize.lt_of_ne (hempty rfl).symm)
    | noResource => exact absurd rfl hmissing
    | noRequest | getRequest | closedConnection => exact absurd hret (by decide)

end Responses

theorem responds_to_bad_request : Responds (default : User) 7 .badRequest :=
  (responds_iff rfl (by decide) (by decide)).mpr ⟨by decide, fun h => HttpCode.noConfusion h⟩

def getFor (text : String) : User :=
  { (default : User) with read := (default : ReadState).init.receive (ascii text.toList), write := (default : WriteState).init }

-- The same request, once for a file that does not exist and once for an empty one.
theorem missing_and_empty_file_unanswered :
    ∃ leave u u', processRead (fun _ _ => .noRequest) (getFor "GET /x HTTP/1.1\r\n\r\n").read = some leave ∧
      afterRead (getFor "GET /x HTTP/1.1\r\n\r\n") 7 .missing leave = some (u, .writing 7 .noResource) ∧
      (afterWrite u 7 .noResource).2 = .closing 7 ∧ ¬ Responds u 7 .noResource ∧
      afterRead (getFor "GET /x HTTP/1.1\r\n\r\n") 7 (.found true false 0) leave = some (u', .writing 7 .fileRequest) ∧
      (afterWrite u' 7 .fileRequest).2 = .closing 7 ∧ ¬ Responds u' 7 .fileRequest :=
  ⟨_, _, _, rfl, rfl, rfl, not_responds_of_closing rfl, rfl, rfl, not_responds_of_closing rfl⟩

end OceanServer.Server
