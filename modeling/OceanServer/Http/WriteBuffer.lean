import OceanServer.Http.Response

/-! The write buffer under any sequence of `add_*` calls: each `add_response` appends its whole text or leaves
what is queued as it was. -/

namespace OceanServer.Http

open Library Library.CString

def WriteState.queued (w : WriteState) : List UInt8 := bytesAt w.writeBuf 0 w.writeIdx

def WriteState.Bounded (w : WriteState) : Prop := w.writeIdx ≤ writeBufferSize - 2

inductive Appends (w : WriteState) (text : List UInt8) : Bool × WriteState → Prop
  | whole (m : Memory) : w.writeIdx + text.length ≤ writeBufferSize - 2 →
      bytesAt m 0 (w.writeIdx + text.length) = w.queued ++ text →
      (∀ j, writeBufferSize ≤ j → m j = w.writeBuf j) →
      Appends w text (true, { w with writeBuf := m, writeIdx := w.writeIdx + text.length })
  | refused (m : Memory) : writeBufferSize - 2 < w.writeIdx + text.length →
      bytesAt m 0 w.writeIdx = w.queued → (∀ j, writeBufferSize ≤ j → m j = w.writeBuf j) →
      Appends w text (false, { w with writeBuf := m })

section Response

variable {w : WriteState} {text : List UInt8}

lemma vsnprintf_beyond {m : Memory} {p room : ℕ} (hroom : 0 < room) (hp : p + room ≤ writeBufferSize) {j : ℕ}
    (hj : writeBufferSize ≤ j) : vsnprintf m p room text j = m j := by
  rw [vsnprintf, if_neg hroom.ne']
  refine write_outside m p _ (.inr ?_)
  rw [List.length_append, List.length_take, List.length_singleton]
  omega

lemma vsnprintf_before (m : Memory) (p room : ℕ) : bytesAt (vsnprintf m p room text) 0 p = bytesAt m 0 p := by
  rw [vsnprintf]
  split_ifs
  · rfl
  · exact bytesAt_write_behind m _ (by omega)

lemma vsnprintf_whole {m : Memory} {p room : ℕ} (h : text.length < room) :
    bytesAt (vsnprintf m p room text) 0 (p + text.length) = bytesAt m 0 p ++ text := by
  have hnext := bytesAt_write_next m 0 p text
  rw [Nat.zero_add] at hnext
  rw [vsnprintf, if_neg (by omega), List.take_of_length_le (by omega), write_append,
    bytesAt_write_behind _ _ (by omega), hnext]

lemma addResponse_appends (hw : w.Bounded) (text : List UInt8) : Appends w text (addResponse w text) := by
  rw [WriteState.Bounded] at hw
  have hsize : writeBufferSize = 1024 := rfl
  have hbeyond : ∀ j, writeBufferSize ≤ j →
      vsnprintf w.writeBuf w.writeIdx (writeBufferSize - 1 - w.writeIdx) text j = w.writeBuf j :=
    fun j hj => vsnprintf_beyond (by omega) (by omega) hj
  rw [addResponse, if_neg (by omega)]
  by_cases h : writeBufferSize - 1 - w.writeIdx ≤ text.length
  · rw [if_pos h]
    exact .refused _ (by omega) (vsnprintf_before _ _ _) hbeyond
  · rw [if_neg h]
    exact .whole _ (by omega) (vsnprintf_whole (by omega)) hbeyond

end Response

inductive AddCall where
  | statusLine (status : ℤ) (title : List UInt8)
  | contentLength (contentLength : ℤ)
  | linger (keep : Bool)
  | blankLine
  | content (text : List UInt8)
  | headers (keep : Bool) (contentLength : ℤ)

def AddCall.exec (w : WriteState) : AddCall → Bool × WriteState
  | .statusLine status title => addStatusLine w status title
  | .contentLength n => addContentLength w n
  | .linger keep => addLinger w keep
  | .blankLine => addBlankLine w
  | .content text => addContent w text
  | .headers keep n => addHeaders w keep n

def statusLineText (status : ℤ) (title : List UInt8) : List UInt8 :=
  ascii "HTTP/1.1 ".toList ++ decimalText status ++ ascii [' '] ++ title ++ crlf

def contentLengthText (contentLength : ℤ) : List UInt8 :=
  ascii "Content-Length:".toList ++ decimalText contentLength ++ crlf

def lingerText (linger : Bool) : List UInt8 :=
  ascii "Connection:".toList ++ (if linger then ascii "keep-alive".toList else ascii "close".toList) ++ crlf

def AddCall.texts : AddCall → List (List UInt8)
  | .statusLine status title => [statusLineText status title]
  | .contentLength n => [contentLengthText n]
  | .linger keep => [lingerText keep]
  | .blankLine => [crlf]
  | .content text => [text]
  | .headers keep n => [contentLengthText n, lingerText keep, crlf]

structure Response where
  before : WriteState
  text : List UInt8

def Response.result (r : Response) : Bool := (addResponse r.before r.text).1
def Response.after (r : Response) : WriteState := (addResponse r.before r.text).2

def responses (w : WriteState) : List (List UInt8) → List Response
  | [] => []
  | text :: texts =>
    ⟨w, text⟩ :: if (addResponse w text).1 then responses (addResponse w text).2 texts else []

def perform (w : WriteState) (calls : List AddCall) : WriteState := calls.foldl (fun w call => (call.exec w).2) w

def performed (w : WriteState) : List AddCall → List Response
  | [] => []
  | call :: calls => responses w call.texts ++ performed (call.exec w).2 calls

def appended (rs : List Response) : List UInt8 := (rs.filter (·.result)).flatMap (·.text)

lemma appended_append (rs rs' : List Response) : appended (rs ++ rs') = appended rs ++ appended rs' := by
  simp only [appended, List.filter_append, List.flatMap_append]

structure Performed (w : WriteState) (rs : List Response) (w' : WriteState) : Prop where
  bounded : w'.Bounded
  queued : w'.queued = w.queued ++ appended rs
  starts : ∀ r ∈ rs, r.before.Bounded

lemma Performed.nil {w : WriteState} (hw : w.Bounded) : Performed w [] w :=
  ⟨hw, (List.append_nil _).symm, fun _ hr => absurd hr List.not_mem_nil⟩

lemma Performed.trans {w w₁ w₂ : WriteState} {rs rs' : List Response} (h : Performed w rs w₁)
    (h' : Performed w₁ rs' w₂) : Performed w (rs ++ rs') w₂ where
  bounded := h'.bounded
  queued := by rw [h'.queued, h.queued, appended_append, List.append_assoc]
  starts r hr := (List.mem_append.mp hr).elim (h.starts r) (h'.starts r)

lemma addResponse_performed {w : WriteState} (hw : w.Bounded) (text : List UInt8) :
    Performed w [⟨w, text⟩] (addResponse w text).2 := by
  have happ : appended [⟨w, text⟩] = if (addResponse w text).1 then text else [] := by
    cases h : (addResponse w text).1 <;> simp [appended, Response.result, h]
  have hstarts : ∀ r ∈ [(⟨w, text⟩ : Response)], r.before.Bounded := by simpa using hw
  have h := addResponse_appends hw text
  generalize addResponse w text = r at h happ
  cases h with
  | whole m hlen hm hbeyond => exact ⟨hlen, by rw [happ]; exact hm, hstarts⟩
  | refused m hlen hm hbeyond =>
    exact ⟨hw, by rw [happ]; exact hm.trans (List.append_nil _).symm, hstarts⟩

def ending (w : WriteState) : List Response → WriteState
  | [] => w
  | r :: rs => ending r.after rs

lemma responses_performed {w : WriteState} (hw : w.Bounded) (texts : List (List UInt8)) :
    Performed w (responses w texts) (ending w (responses w texts)) := by
  induction texts generalizing w with
  | nil => exact .nil hw
  | cons text texts ih =>
    have hfirst := addResponse_performed hw text
    rw [responses, ending]
    by_cases h : (addResponse w text).1 = true
    · rw [if_pos h]
      exact hfirst.trans (ih hfirst.bounded)
    · rw [if_neg h]
      exact hfirst

lemma responses_single (w : WriteState) (text : List UInt8) : responses w [text] = [⟨w, text⟩] := by
  simp only [responses, ite_self]

lemma addHeaders_eq (w : WriteState) (linger : Bool) (n : ℤ) :
    addHeaders w linger n =
      let r₁ := addResponse w (contentLengthText n)
      let r₂ := addResponse r₁.2 (lingerText linger)
      if r₁.1 then if r₂.1 then addResponse r₂.2 crlf else r₂ else r₁ := by
  have hlength : addContentLength w n = addResponse w (contentLengthText n) := rfl
  rw [addHeaders, hlength]
  rcases addResponse w (contentLengthText n) with ⟨- | -, w₁⟩
  · rfl
  · have hlinger : addLinger w₁ linger = addResponse w₁ (lingerText linger) := rfl
    dsimp only
    rw [hlinger]
    rcases addResponse w₁ (lingerText linger) with ⟨- | -, w₂⟩
    · rfl
    · rfl

lemma AddCall.exec_ending (w : WriteState) (call : AddCall) : (call.exec w).2 = ending w (responses w call.texts) := by
  cases call with
  | statusLine _ _ | contentLength _ | linger _ | blankLine | content _ =>
    rw [AddCall.texts, responses_single]
    rfl
  | headers keep n =>
    simp only [AddCall.exec, addHeaders_eq, AddCall.texts, responses, Response.after, ending]
    split_ifs <;> rfl

lemma perform_performed {w : WriteState} (hw : w.Bounded) (calls : List AddCall) :
    Performed w (performed w calls) (perform w calls) := by
  induction calls generalizing w with
  | nil => exact .nil hw
  | cons call calls ih =>
    have hcall := responses_performed hw call.texts
    rw [← call.exec_ending] at hcall
    exact hcall.trans (ih hcall.bounded)

/-- What holds of each `add_response`: an index within bounds, nothing stored behind the buffer and, where it
returns false, nothing changed in front of the index. -/
def Response.Atomic (r : Response) : Prop :=
  r.after.Bounded ∧ (∀ j, writeBufferSize ≤ j → r.after.writeBuf j = r.before.writeBuf j) ∧
    (r.result = false → r.after.writeIdx = r.before.writeIdx ∧ r.after.queued = r.before.queued)

lemma Response.atomic {r : Response} (h : r.before.Bounded) : r.Atomic := by
  have happ := addResponse_appends h r.text
  rw [Response.Atomic, Response.after, Response.result]
  generalize addResponse r.before r.text = s at happ
  cases happ with
  | whole m hlen hm hbeyond => exact ⟨hlen, hbeyond, fun hf => Bool.noConfusion hf⟩
  | refused m hlen hm hbeyond => exact ⟨h, hbeyond, fun _ => ⟨rfl, hm⟩⟩

lemma init_bounded (w : WriteState) : w.init.Bounded := Nat.zero_le _

theorem write_buffer_appends (w : WriteState) (calls : List AddCall) :
    (perform w.init calls).writeIdx ≤ writeBufferSize - 2 ∧
    (perform w.init calls).queued = ((performed w.init calls).filter (·.result)).flatMap (·.text) ∧
    ∀ r ∈ performed w.init calls, r.Atomic := by
  have h := perform_performed (init_bounded w) calls
  exact ⟨h.bounded, h.queued, fun r hr => Response.atomic (h.starts r hr)⟩

end OceanServer.Http
