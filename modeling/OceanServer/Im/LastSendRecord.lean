import OceanServer.Im.LastSend
import OceanServer.Im.Sessions
import OceanServer.Library.Scanf

/-! The text that Redis keeps for the last message of a user: what the script of `SetUserLastSendData_`
writes, what `GetUserLastSendData` reads from it, and updates that come in any order. -/

namespace OceanServer.Im.LastSend

open Library Redis Sessions

section Texts

def jsonString (text : Text) : Text := '"' :: text ++ ['"']

def jsonEncode (ws : List Text) : Text := '[' :: [','].intercalate (ws.map jsonString) ++ [']']

def jsonStrings : Option Text → Text → List Text
  | _, [] => []
  | none, c :: rest => if c = '"' then jsonStrings (some []) rest else jsonStrings none rest
  | some cur, c :: rest => if c = '"' then cur :: jsonStrings none rest else jsonStrings (some (cur ++ [c])) rest

def jsonDecode (text : Text) : List Text := jsonStrings none text

def tonumber (text : Text) : Option ℤ :=
  match Scanf.readInteger text with
  | some (n, []) => some n
  | _ => none

def arguments (user : ℤ) (d : UserLastSendData) : Text :=
  "1 \x7b".toList ++ decimal user ++ "\x7du ".toList ++ decimal d.msgId ++ ' ' :: decimal d.clientTime ++
    ' ' :: decimal d.msgTime

def setex (s : Store) (key a₁ a₂ a₃ : Text) : Store := Function.update s key (some (jsonEncode [a₁, a₂, a₃]))

/-- The script, with the number of keys, the key and the arguments. Where `tonumber` gives `nil` the
comparison is an error. -/
def script (s : Store) : List Text → Store
  | [_, key, a₁, a₂, a₃] =>
    match s key with
    | none => setex s key a₁ a₂ a₃
    | some a =>
      match (jsonDecode a)[1]?.bind tonumber, tonumber a₂ with
      | some old, some new => if old < new then setex s key a₁ a₂ a₃ else s
      | _, _ => s
  | _ => s

def runScript (s : Store) (user : ℤ) (d : UserLastSendData) : Store := script s (addCommand (arguments user d) [] none)

/-- The variables of `GetUserLastSendData`, which start at 0, after its `sscanf`. -/
def readRecord (text : Text) : UserLastSendData :=
  let values := Scanf.sscanf (cStr text) "[%ld,%d,%d]"
  ⟨values.getD 0 0, values.getD 1 0, values.getD 2 0⟩

def getUserLastSendData (s : Store) (user : ℤ) : Option UserLastSendData :=
  match command "GET \x7b%ld\x7du" [decimal user] with
  | [_, key] => (s key).map readRecord
  | _ => none

end Texts

section Records

def recordKey (user : ℤ) : Text := '\x7b' :: (decimal user ++ ['\x7d', 'u'])

def record (d : UserLastSendData) : Text := jsonEncode [decimal d.msgId, decimal d.clientTime, decimal d.msgTime]

def Writes (s : Store) (user : ℤ) (d : UserLastSendData) : Prop :=
  ∀ old, s (recordKey user) = some old → ∃ n, (jsonDecode old)[1]?.bind tonumber = some n ∧ n < d.clientTime

lemma recordKey_injective {u v : ℤ} (h : recordKey u = recordKey v) : u = v :=
  decimal_injective (List.append_cancel_right (List.cons.inj h).2)

lemma decimal_ne_nil (n : ℤ) : decimal n ≠ [] := by
  cases n <;> simp [decimal]

lemma not_mem_decimal {n : ℤ} {c : Char} (hd : c.isDigit = false) (hm : c ≠ '-') : c ∉ decimal n := by
  intro h
  rcases decimal_char h with hc | hc
  · simp [hd] at hc
  · exact hm hc

lemma decimal_no_space {n : ℤ} {c : Char} (h : c ∈ decimal n) : c ≠ ' ' := by
  rintro rfl
  exact not_mem_decimal (by decide) (by decide) h

lemma readInteger_decimal (n : ℤ) {rest : Text} (h : Scanf.NoDigit rest) :
    Scanf.readInteger (decimal n ++ rest) = some (n, rest) := by
  cases n with
  | ofNat n => exact Scanf.readInteger_toDigits n h
  | negSucc n => exact Scanf.readInteger_negative (n + 1) h

lemma tonumber_decimal (n : ℤ) : tonumber (decimal n) = some n := by
  have hend : Scanf.NoDigit [] := by simp [Scanf.NoDigit]
  have h := readInteger_decimal n hend
  rw [List.append_nil] at h
  simp [tonumber, h]

lemma jsonStrings_open {w : Text} (h : '"' ∉ w) (cur rest : Text) :
    jsonStrings (some cur) (w ++ '"' :: rest) = (cur ++ w) :: jsonStrings none rest := by
  induction w generalizing cur with
  | nil => simp [jsonStrings]
  | cons c w ih =>
    simp only [List.mem_cons, not_or] at h
    simp [jsonStrings, Ne.symm h.1, ih h.2]

lemma jsonStrings_string {w : Text} (h : '"' ∉ w) (rest : Text) :
    jsonStrings none (jsonString w ++ rest) = w :: jsonStrings none rest := by
  simpa [jsonString, jsonStrings] using jsonStrings_open h [] rest

lemma jsonDecode_record (d : UserLastSendData) :
    jsonDecode (record d) = [decimal d.msgId, decimal d.clientTime, decimal d.msgTime] := by
  have hquote (n : ℤ) : '"' ∉ decimal n := not_mem_decimal (by decide) (by decide)
  simp [jsonDecode, record, jsonEncode, jsonStrings, jsonStrings_string (hquote _)]

lemma arguments_components (user : ℤ) (d : UserLastSendData) :
    addCommand (arguments user d) [] none =
      [['1'], recordKey user, decimal d.msgId, decimal d.clientTime, decimal d.msgTime] := by
  have hjoin : arguments user d =
      [' '].intercalate [['1'], recordKey user, decimal d.msgId, decimal d.clientTime, decimal d.msgTime] := by
    change ['1', ' ', '\x7b'] ++ decimal user ++ ['\x7d', 'u', ' '] ++ decimal d.msgId ++ ' ' :: decimal d.clientTime ++
      ' ' :: decimal d.msgTime = _
    simp [recordKey]
  rw [hjoin]
  apply addCommand_words
  · simp [recordKey, decimal_ne_nil]
  · have hkey : ∀ c ∈ recordKey user, c ≠ ' ' := by
      simp only [recordKey, List.forall_mem_cons, List.forall_mem_append]
      exact ⟨by decide, fun c hc => decimal_no_space hc, by decide, by decide, by simp⟩
    simp only [List.forall_mem_cons]
    exact ⟨by simp, hkey, fun c hc => decimal_no_space hc, fun c hc => decimal_no_space hc,
      fun c hc => decimal_no_space hc, by simp⟩

variable {s : Store} {user : ℤ} {d : UserLastSendData}

lemma runScript_none (h : s (recordKey user) = none) :
    runScript s user d = Function.update s (recordKey user) (some (record d)) := by
  simp [runScript, arguments_components, script, h, setex, record]

lemma runScript_some {old : Text} {n : ℤ} (h : s (recordKey user) = some old)
    (hn : (jsonDecode old)[1]?.bind tonumber = some n) :
    runScript s user d =
      if n < d.clientTime then Function.update s (recordKey user) (some (record d)) else s := by
  simp [runScript, arguments_components, script, h, hn, tonumber_decimal, setex, record]

lemma Writes.runScript (h : Writes s user d) :
    runScript s user d = Function.update s (recordKey user) (some (record d)) := by
  cases hs : s (recordKey user) with
  | none => exact runScript_none hs
  | some old =>
    obtain ⟨n, hn, hlt⟩ := h old hs
    rw [runScript_some hs hn, if_pos hlt]

lemma runScript_record {f : ℤ → Option UserLastSendData} (h : ∀ u, s (recordKey u) = (f u).map record)
    (user : ℤ) (d : UserLastSendData) (u : ℤ) : runScript s user d (recordKey u) =
      (Latest.put UserLastSendData.clientTime f user d u).map record := by
  have hne (hu : u ≠ user) : recordKey u ≠ recordKey user := fun he => hu (recordKey_injective he)
  cases hf : f user with
  | none =>
    rw [runScript_none (by rw [h, hf]; rfl)]
    by_cases hu : u = user
    · simp [hu, Latest.put, hf, Latest.offer]
    · simp [Function.update_of_ne (hne hu), Function.update_of_ne hu, Latest.put, h]
  | some old =>
    have hn : (jsonDecode (record old))[1]?.bind tonumber = some old.clientTime := by
      simp [jsonDecode_record, tonumber_decimal]
    rw [runScript_some (by rw [h, hf]; rfl) hn]
    by_cases hu : u = user
    · subst hu
      by_cases hlt : old.clientTime < d.clientTime <;> simp [hlt, Latest.put, hf, Latest.offer, h]
    · split <;> simp [Function.update_of_ne (hne hu), Function.update_of_ne hu, Latest.put, h]

lemma getUserLastSendData_eq (s : Store) (user : ℤ) :
    getUserLastSendData s user = (s (recordKey user)).map readRecord := by
  simp [getUserLastSendData, command, addCommand, recordKey]

lemma readRecord_record (d : UserLastSendData) : readRecord (record d) = ⟨0, 0, 0⟩ := by
  -- `sscanf` stops at the first quote, before it has assigned anything.
  have hread (w : Text) : Scanf.readInteger ('"' :: w) = none := by
    simp [Scanf.readInteger, Scanf.isBlank, Scanf.readNat]
  have hassigned : Scanf.sscanf (cStr (record d)) "[%ld,%d,%d]" = [] := by
    simp [cStr, record, jsonEncode, jsonString, Scanf.sscanf, Scanf.directives, Scanf.assigned, hread]
  simp [readRecord, hassigned]

lemma readRecord_unquoted (hid : CString.longMin ≤ d.msgId ∧ d.msgId ≤ CString.longMax)
    (hclient : -2 ^ 31 ≤ d.clientTime ∧ d.clientTime < 2 ^ 31) (hmsg : -2 ^ 31 ≤ d.msgTime ∧ d.msgTime < 2 ^ 31) :
    readRecord ('[' :: decimal d.msgId ++ ',' :: decimal d.clientTime ++ ',' :: decimal d.msgTime ++ [']']) = d := by
  have hdigit (rest : Text) : Scanf.NoDigit (',' :: rest) ∧ Scanf.NoDigit (']' :: rest) := by
    simp [Scanf.NoDigit]
  have hnul (n : ℤ) : '\x00' ∉ decimal n := not_mem_decimal (by decide) (by decide)
  have hcut : cStr ('[' :: decimal d.msgId ++ ',' :: decimal d.clientTime ++ ',' :: decimal d.msgTime ++ [']']) = _ :=
    cStr_eq_self.mpr (by simp [hnul])
  have hlong : Scanf.toLong d.msgId = d.msgId := by
    rw [Scanf.toLong, min_eq_right hid.2, max_eq_right hid.1]
  have hint (n : ℤ) (hn : -2 ^ 31 ≤ n ∧ n < 2 ^ 31) : Scanf.toInt n = n := by
    rw [Scanf.toInt, Scanf.toLong, CString.longMin, CString.longMax, min_eq_right (by omega), max_eq_right (by omega)]
    exact Int.bmod_eq_of_le (by omega) (by omega)
  rw [readRecord, hcut]
  simp [Scanf.sscanf, Scanf.directives, Scanf.assigned, readInteger_decimal, hdigit, hlong,
    hint _ hclient, hint _ hmsg]

theorem last_send_round_trip_iff (s : Store) (user : ℤ) (d : UserLastSendData) (hwrites : Writes s user d) :
    getUserLastSendData (runScript s user d) user = some d ↔ d = ⟨0, 0, 0⟩ := by
  rw [getUserLastSendData_eq, hwrites.runScript, Function.update_self, Option.map_some, readRecord_record,
    Option.some.injEq, eq_comm]

theorem last_send_round_trip_zero :
    Writes (fun _ => none) 1 ⟨0, 0, 0⟩ ∧
      getUserLastSendData (runScript (fun _ => none) 1 ⟨0, 0, 0⟩) 1 = some ⟨0, 0, 0⟩ := by
  have hwrites : Writes (fun _ => none) 1 ⟨0, 0, 0⟩ := by simp [Writes]
  exact ⟨hwrites, (last_send_round_trip_iff _ 1 ⟨0, 0, 0⟩ hwrites).mpr rfl⟩

theorem last_send_reads_zero :
    let s := runScript (fun _ => none) 1 ⟨5, 100, 100⟩
    s "\x7b1\x7du".toList = some "[\"5\",\"100\",\"100\"]".toList ∧ getUserLastSendData s 1 = some ⟨0, 0, 0⟩ := by
  intro s
  have hs : s = Function.update (fun _ => none) (recordKey 1) (some (record ⟨5, 100, 100⟩)) := runScript_none rfl
  have hkey : recordKey 1 = "\x7b1\x7du".toList := by decide
  have htext : record ⟨5, 100, 100⟩ = "[\"5\",\"100\",\"100\"]".toList := by decide
  refine ⟨?_, ?_⟩
  · rw [hs, ← hkey, Function.update_self, htext]
  · rw [getUserLastSendData_eq, hs, Function.update_self, Option.map_some, readRecord_record]

end Records

section Updates

variable {P : Type}

def update (s : Dbproxy P) (c : ℤ × UserLastSendData) : Dbproxy P := (setUserLastSendData true c.1 c.2 s).2

def Offered (s : Dbproxy P) (updates : Multiset (ℤ × UserLastSendData)) (user : ℤ) (d : UserLastSendData) : Prop :=
  s.lastSend user = some d ∨ (user, d) ∈ updates

def Executes (updates : Multiset (ℤ × UserLastSendData)) (xs : List (ℤ × UserLastSendData)) : Prop :=
  ∀ c, c ∈ xs ↔ c ∈ updates

def offers (s : Dbproxy P) (xs : List (ℤ × UserLastSendData)) (user : ℤ) : List UserLastSendData :=
  (s.lastSend user).toList ++ (xs.filter (·.1 = user)).map (·.2)

lemma lastSend_foldl (s : Dbproxy P) (xs : List (ℤ × UserLastSendData)) (user : ℤ) :
    (xs.foldl update s).lastSend user =
      (offers s xs user).foldl (Latest.offer UserLastSendData.clientTime) none := by
  rw [offers, ← Latest.foldl_offer_toList]
  induction xs generalizing s with
  | nil => rfl
  | cons c xs ih =>
    rw [List.foldl_cons, ih]
    by_cases hu : c.1 = user
    · subst hu
      simp [update, setUserLastSendData, Latest.put]
    · simp [update, setUserLastSendData, Latest.put, hu, Function.update_of_ne (Ne.symm hu)]

variable {s : Dbproxy P} {updates : Multiset (ℤ × UserLastSendData)} {xs : List (ℤ × UserLastSendData)}

lemma mem_offers (hxs : Executes updates xs) (user : ℤ) (d : UserLastSendData) :
    d ∈ offers s xs user ↔ Offered s updates user d := by
  simp [offers, Offered, ← hxs (user, d)]

lemma update_le {user : ℤ} {d : UserLastSendData} (h : s.lastSend user = some d) (c : ℤ × UserLastSendData) :
    ∃ e, (update s c).lastSend user = some e ∧ d.clientTime ≤ e.clientTime := by
  by_cases hu : c.1 = user
  · subst hu
    simpa [update, setUserLastSendData, Latest.put] using Latest.le_offer h c.2
  · refine ⟨d, ?_, le_rfl⟩
    simpa [update, setUserLastSendData, Latest.put, Function.update_of_ne (Ne.symm hu)] using h

section Order

variable (hunique : ∀ user d e, Offered s updates user d → Offered s updates user e →
  d.clientTime = e.clientTime → d = e)
include hunique

lemma lastSend_eq_some_iff (hxs : Executes updates xs) (user : ℤ) (d : UserLastSendData) :
    (xs.foldl update s).lastSend user = some d ↔
      Offered s updates user d ∧ ∀ e, Offered s updates user e → e.clientTime ≤ d.clientTime := by
  have hdistinct : Latest.Distinct UserLastSendData.clientTime (offers s xs user) := by
    intro d hd e he
    exact hunique user d e ((mem_offers hxs user d).mp hd) ((mem_offers hxs user e).mp he)
  rw [lastSend_foldl, Latest.foldl_offer_eq_some_iff hdistinct]
  simp only [Latest.IsLatest, mem_offers hxs]

theorem last_send_order_independent (xs : List (ℤ × UserLastSendData)) (hxs : Executes updates xs) :
    (∀ ys, Executes updates ys → (ys.foldl update s).lastSend = (xs.foldl update s).lastSend) ∧
    (∀ user d, (xs.foldl update s).lastSend user = some d ↔
      Offered s updates user d ∧ ∀ e, Offered s updates user e → e.clientTime ≤ d.clientTime) ∧
    ∀ before c after, xs = before ++ c :: after → ∀ user d, (before.foldl update s).lastSend user = some d →
      ∃ e, ((before ++ [c]).foldl update s).lastSend user = some e ∧ d.clientTime ≤ e.clientTime := by
  refine ⟨?_, lastSend_eq_some_iff hunique hxs, ?_⟩
  · intro ys hys
    funext user
    apply Option.ext
    intro d
    exact (lastSend_eq_some_iff hunique hys user d).trans (lastSend_eq_some_iff hunique hxs user d).symm
  · intro before c after _ user d hd
    rw [List.foldl_append]
    exact update_le hd c

end Order

theorem last_send_any_order :
    let updates : Multiset (ℤ × UserLastSendData) := {(1, ⟨6, 200, 201⟩), (1, ⟨5, 100, 101⟩)}
    let xs : List (ℤ × UserLastSendData) := [(1, ⟨6, 200, 201⟩), (1, ⟨5, 100, 101⟩), (1, ⟨6, 200, 201⟩)]
    let s : Dbproxy Unit := .empty
    Executes updates xs ∧ (∀ ys, Executes updates ys → (ys.foldl update s).lastSend = (xs.foldl update s).lastSend) ∧
      (xs.foldl update s).lastSend 1 = some ⟨6, 200, 201⟩ := by
  intro updates xs s
  have hxs : Executes updates xs := by
    intro c
    simp only [xs, updates, Multiset.insert_eq_cons, Multiset.mem_cons, Multiset.mem_singleton, List.mem_cons,
      List.not_mem_nil]
    tauto
  have hunique : ∀ user d e, Offered s updates user d → Offered s updates user e →
      d.clientTime = e.clientTime → d = e := by
    intro user d e hd he
    simp only [Offered, s, Dbproxy.empty, updates, Multiset.insert_eq_cons, Multiset.mem_cons,
      Multiset.mem_singleton, Prod.mk.injEq, reduceCtorEq, false_or] at hd he
    rcases hd with ⟨-, rfl⟩ | ⟨-, rfl⟩ <;> rcases he with ⟨-, rfl⟩ | ⟨-, rfl⟩ <;> simp
  exact ⟨hxs, (last_send_order_independent hunique xs hxs).1, by decide⟩

end Updates

end OceanServer.Im.LastSend
