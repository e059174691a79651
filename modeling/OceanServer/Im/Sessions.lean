import Mathlib.Data.List.TakeWhile
import OceanServer.Im.Redis

/-! The session directory of `DbproxyServiceImpl`, kept in Redis. -/

namespace OceanServer.Im.Sessions

open Redis

def cStr (text : Text) : Text := text.takeWhile (· ≠ '\x00')

def decimal : ℤ → Text
  | .ofNat n => Nat.toDigits 10 n
  | .negSucc n => '-' :: Nat.toDigits 10 (n + 1)

structure Session where
  userId : ℤ
  hasSession : Bool
  addr : Text
  deriving DecidableEq, Repr

section Service

def authAndSaveSession (s : Store) (user : ℤ) (accessAddr : Text) : Store :=
  (execute s (command "SET \x7b%ld\x7da %s EX 3600" [decimal user, cStr accessAddr])).1

def clearSession (s : Store) (user : ℤ) : Store :=
  (execute s (command "DEL \x7b%ld\x7da" [decimal user])).1

def query (ids : List ℤ) : Text := "MGET ".toList ++ ids.flatMap fun u => '\x7b' :: (decimal u ++ ['\x7d', 'a'])

def session (user : ℤ) : Option Text → Session
  | some text => ⟨user, true, cStr text⟩
  | none => ⟨user, false, []⟩

def getSessions (errorSize : ℕ) (s : Store) (ids : List ℤ) : Option (List Session) :=
  -- `none` where `CHECK_EQ` ends the program.
  let reply := (execute s (addCommand (query ids) [] none)).2
  if reply.size errorSize = ids.length then
    match reply with
    | .array items => some (List.zipWith session ids items)
    | _ => some []
  else none

end Service

inductive Op where
  | save (user : ℤ) (addr : Text)
  | clear (user : ℤ)
  deriving DecidableEq, Repr

def Op.user : Op → ℤ
  | .save user _ => user
  | .clear user => user

def Op.addr : Op → Option Text
  | .save _ addr => some addr
  | .clear _ => none

def Op.run (s : Store) : Op → Store
  | .save user addr => authAndSaveSession s user addr
  | .clear user => clearSession s user

def stored (ops : List Op) : Store := ops.foldl Op.run fun _ => none

def lastSaved (ops : List Op) (user : ℤ) : Option Text :=
  (ops.filter (·.user = user)).getLast?.bind Op.addr

def Answered (errorSize : ℕ) (ops : List Op) (ids : List ℤ) : Prop :=
  ∃ sessions, getSessions errorSize (stored ops) ids = some sessions ∧ sessions.map (·.userId) = ids ∧
    ∀ session ∈ sessions, ∀ addr,
      session.hasSession = true ∧ session.addr = addr ↔ lastSaved ops session.userId = some addr

section Keys

def key (user : ℤ) : Text := '\x7b' :: (decimal user ++ ['\x7d', 'a'])

lemma decimal_char {user : ℤ} {c : Char} (h : c ∈ decimal user) : c.isDigit = true ∨ c = '-' := by
  cases user with
  | ofNat n => exact .inl (Nat.isDigit_of_mem_toDigits (by decide) (by decide) h)
  | negSucc n =>
    obtain rfl | h := List.mem_cons.mp h
    · exact .inr rfl
    · exact .inl (Nat.isDigit_of_mem_toDigits (by decide) (by decide) h)

lemma toDigits_injective {m n : ℕ} (h : Nat.toDigits 10 m = Nat.toDigits 10 n) : m = n := by
  have hval := congrArg (Nat.ofDigitChars 10 · 0) h
  simpa [Nat.ofDigitChars_toDigits] using hval

lemma decimal_injective {u v : ℤ} (h : decimal u = decimal v) : u = v := by
  have hsign : ∀ {m n : ℕ}, Nat.toDigits 10 m ≠ '-' :: Nat.toDigits 10 (n + 1) := by
    intro m n heq
    have hmem : '-' ∈ Nat.toDigits 10 m := by
      rw [heq]
      exact List.mem_cons_self
    exact absurd (Nat.isDigit_of_mem_toDigits (by decide) (by decide) hmem) (by decide)
  cases u with
  | ofNat m =>
    cases v with
    | ofNat n => exact congrArg Int.ofNat (toDigits_injective h)
    | negSucc n => exact absurd h hsign
  | negSucc m =>
    cases v with
    | ofNat n => exact absurd h.symm hsign
    | negSucc n => exact congrArg Int.negSucc (Nat.succ.inj (toDigits_injective (List.cons.inj h).2))

lemma key_injective {u v : ℤ} (h : key u = key v) : u = v :=
  decimal_injective (List.append_cancel_right (List.cons.inj h).2)

lemma key_no_space {u : ℤ} {c : Char} (h : c ∈ key u) : c ≠ ' ' := by
  rw [key, List.mem_cons, List.mem_append] at h
  obtain rfl | h | h := h
  · decide
  · rintro rfl
    exact absurd (decimal_char h) (by decide)
  · rintro rfl
    exact absurd h (by decide)

end Keys

section Commands

variable {s : Store} {u : ℤ} {addr : Text}

lemma authAndSaveSession_eq : authAndSaveSession s u addr = Function.update s (key u) (some (cStr addr)) := by
  have hcommand : command "SET \x7b%ld\x7da %s EX 3600" [decimal u, cStr addr] =
      ["SET".toList, key u, cStr addr, "EX".toList, "3600".toList] := by
    simp [command, addCommand, key]
  rw [authAndSaveSession, hcommand, execute, if_pos rfl]
  rfl

lemma clearSession_eq : clearSession s u = Function.update s (key u) none := by
  have hcommand : command "DEL \x7b%ld\x7da" [decimal u] = ["DEL".toList, key u] := by
    simp [command, addCommand, key]
  rw [clearSession, hcommand, execute, if_neg (by decide), if_pos rfl]
  funext k
  change (if k ∈ [key u] then none else s k) = _
  simp only [List.mem_singleton, Function.update_apply]

lemma query_eq (ids : List ℤ) : query ids = ['M', 'G', 'E', 'T', ' '] ++ ids.flatMap key := rfl

lemma query_components_nil : addCommand (query []) [] none = ["MGET".toList] := by
  simp [query_eq, addCommand]

lemma query_components_cons (ids : List ℤ) :
    addCommand (query (u :: ids)) [] none = ["MGET".toList, (u :: ids).flatMap key] := by
  have hspace : ∀ c ∈ (u :: ids).flatMap key, c ≠ ' ' := by
    intro c hc
    obtain ⟨v, -, hv⟩ := List.mem_flatMap.mp hc
    exact key_no_space hv
  have hquery : query (u :: ids) = 'M' :: (['G', 'E', 'T'] ++ ' ' :: (u :: ids).flatMap key) := query_eq _
  rw [hquery, addCommand_cons (by decide), addCommand_append (by simp)]
  exact congrArg _ (addCommand_start hspace)

end Commands

section Directory

variable {ops : List Op} {op : Op} {u : ℤ}

lemma run_eq (s : Store) (op : Op) : op.run s = Function.update s (key op.user) (op.addr.map cStr) := by
  cases op with
  | save user addr => exact authAndSaveSession_eq
  | clear user => exact clearSession_eq

lemma lastSaved_append_self : lastSaved (ops ++ [op]) op.user = op.addr := by
  simp [lastSaved, List.filter_append]

lemma lastSaved_append_of_ne (h : op.user ≠ u) : lastSaved (ops ++ [op]) u = lastSaved ops u := by
  simp [lastSaved, List.filter_append, h]

lemma stored_key (ops : List Op) (u : ℤ) : stored ops (key u) = (lastSaved ops u).map cStr := by
  induction ops using List.reverseRecOn with
  | nil => rfl
  | append_singleton ops op ih =>
    rw [stored, List.foldl_append]
    change op.run (stored ops) (key u) = _
    rw [run_eq]
    by_cases huser : op.user = u
    · subst huser
      rw [Function.update_self, lastSaved_append_self]
    · rw [Function.update_of_ne fun hkey => huser (key_injective hkey).symm, lastSaved_append_of_ne huser, ih]

lemma cStr_eq_self {text : Text} : cStr text = text ↔ '\x00' ∉ text := by
  rw [cStr, List.takeWhile_eq_self_iff]
  constructor
  · intro h hmem
    exact absurd (h _ hmem) (by decide)
  · intro h c hc
    rw [decide_eq_true_eq]
    rintro rfl
    exact h hc

end Directory

section Answers

variable {errorSize : ℕ} {s : Store}

lemma getSessions_nil : getSessions errorSize s [] = if errorSize = 0 then some [] else none := by
  rw [getSessions, query_components_nil, execute_mget]
  rfl

lemma getSessions_cons (u : ℤ) (ids : List ℤ) :
    getSessions errorSize s (u :: ids) =
      if ids = [] then some [session u (s (key u))] else none := by
  rw [getSessions, query_components_cons, execute_mget]
  -- whatever the number of ids, the command has one key
  change (if 1 = ids.length + 1 then some (List.zipWith session (u :: ids) [s ((u :: ids).flatMap key)]) else none) = _
  cases ids with
  | nil =>
    rw [if_pos rfl, List.flatMap_singleton]
    exact if_pos rfl
  | cons v ids => rw [if_neg (by simp), if_neg (List.cons_ne_nil v ids)]

lemma session_userId (u : ℤ) (text : Option Text) : (session u text).userId = u := by
  cases text <;> rfl

lemma answered_nil (ops : List Op) : Answered errorSize ops [] ↔ errorSize = 0 := by
  rw [Answered, getSessions_nil]
  split
  · rename_i h
    exact iff_of_true ⟨[], rfl, rfl, nofun⟩ h
  · rename_i h
    exact iff_of_false (fun ⟨_, hnone, _⟩ => by cases hnone) h

lemma answered_singleton (ops : List Op) (u : ℤ) :
    Answered errorSize ops [u] ↔ ∀ addr, lastSaved ops u = some addr → '\x00' ∉ addr := by
  have hone : Answered errorSize ops [u] ↔ ∀ addr,
      (session u (stored ops (key u))).hasSession = true ∧ (session u (stored ops (key u))).addr = addr ↔
        lastSaved ops u = some addr := by
    rw [Answered, getSessions_cons, if_pos rfl]
    constructor
    · rintro ⟨sessions, hsome, -, h⟩
      cases hsome
      have hsession := h _ (List.mem_singleton.mpr rfl)
      rw [session_userId] at hsession
      exact hsession
    · intro h
      refine ⟨_, rfl, congrArg (fun v => [v]) (session_userId u _), fun session hmem => ?_⟩
      rw [List.mem_singleton.mp hmem, session_userId]
      exact h
  rw [hone, stored_key]
  cases hlast : lastSaved ops u with
  | none => exact iff_of_true (fun addr => ⟨fun h => (by cases h.1), nofun⟩) nofun
  | some a =>
    have haddr : (session u (Option.map cStr (some a))).addr = cStr a := List.takeWhile_idem
    have hall : (∀ addr, some a = some addr → '\x00' ∉ addr) ↔ '\x00' ∉ a :=
      ⟨fun h => h a rfl, fun h addr heq => Option.some.inj heq ▸ h⟩
    rw [haddr, hall, ← cStr_eq_self]
    constructor
    · intro h
      exact ((h a).mpr rfl).2
    · intro h addr
      rw [h, Option.some_inj]
      exact ⟨And.right, fun heq => ⟨rfl, heq⟩⟩

/-- For every sequence of operations and every list of ids: the reply has one session for each id, in order,
and says of each what the last operation for it was, just if there is one id (or none, should `size` of an
error reply be 0) and no address that was saved last for it holds a NUL. -/
theorem sessions_answered_iff (errorSize : ℕ) (ops : List Op) (ids : List ℤ) :
    Answered errorSize ops ids ↔ (ids.length = 1 ∨ ids = [] ∧ errorSize = 0) ∧
      ∀ u ∈ ids, ∀ addr, lastSaved ops u = some addr → '\x00' ∉ addr := by
  cases ids with
  | nil =>
    rw [answered_nil]
    exact ⟨fun h => ⟨.inr ⟨rfl, h⟩, nofun⟩, fun h => (h.1.resolve_left nofun).2⟩
  | cons u ids =>
    cases ids with
    | nil =>
      rw [answered_singleton, List.forall_mem_singleton]
      exact ⟨fun h => ⟨.inl rfl, h⟩, And.right⟩
    | cons v ids =>
      refine iff_of_false (fun ⟨sessions, hsome, _⟩ => ?_) (fun h => ?_)
      · rw [getSessions_cons, if_neg (List.cons_ne_nil v ids)] at hsome
        cases hsome
      · obtain hlen | ⟨hnil, -⟩ := h.1
        · exact absurd hlen (by simp)
        · cases hnil

theorem sessions_answered_two_ids :
    addCommand (query [1, 2]) [] none = ["MGET".toList, "\x7b1\x7da\x7b2\x7da".toList] ∧
    getSessions 0 (stored [.save 1 ['x'], .save 2 ['y']]) [1, 2] = none ∧
    ¬ Answered 0 [.save 1 ['x'], .save 2 ['y']] [1, 2] := by
  have hnone : getSessions 0 (stored [.save 1 ['x'], .save 2 ['y']]) [1, 2] = none := by
    rw [getSessions_cons]
    rfl
  refine ⟨?_, hnone, fun ⟨sessions, hsome, _⟩ => ?_⟩
  · decide +kernel
  · cases hnone.symm.trans hsome

end Answers

end OceanServer.Im.Sessions
