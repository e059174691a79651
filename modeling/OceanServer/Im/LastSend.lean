import Mathlib.Data.List.ReduceOption
import OceanServer.Library.Latest
import OceanServer.Library.Runs

/-! The last message of a user in `DbproxyServiceImpl`: the rows and the Redis record that saving a
message writes, and the query that stands in for the record. -/

namespace OceanServer.Im.LastSend

open Library

structure Row where
  userId : ℤ
  sender : ℤ
  receiver : ℤ
  msgId : ℤ
  groupId : ℤ
  message : String
  clientTime : Option ℤ
  msgTime : Option ℤ
  deriving DecidableEq, Repr

structure NewPrivateMsg where
  sender : ℤ
  senderMsgId : ℤ
  receiver : ℤ
  receiverMsgId : ℤ
  message : String
  msgTime : ℤ
  clientTime : ℤ
  deriving DecidableEq, Repr

structure UserAndMsgId where
  userId : ℤ
  msgId : ℤ
  deriving DecidableEq, Repr

structure NewGroupMsg where
  groupId : ℤ
  userAndMsgids : List UserAndMsgId
  senderUserId : ℤ
  senderMsgId : ℤ
  message : String
  msgTime : ℤ
  clientTime : ℤ
  deriving DecidableEq, Repr

structure UserLastSendData where
  msgId : ℤ
  clientTime : ℤ
  msgTime : ℤ
  deriving DecidableEq, Repr

structure Dbproxy (P : Type) where
  messages : P → List Row
  lastSend : ℤ → Option UserLastSendData

def Dbproxy.empty {P : Type} : Dbproxy P := ⟨fun _ => [], fun _ => none⟩

/-- The time zone of the session: the DATETIME of a time, and the time that a DATETIME is read as. -/
structure Zone where
  datetime : ℤ → ℤ
  timestamp : ℤ → ℤ

namespace Zone

def utc : Zone := ⟨id, id⟩

/-- `UNIX_TIMESTAMP` undoes `FROM_UNIXTIME`, as it does not where a clock is set back for the winter. -/
structure Lossless (zone : Zone) : Prop where
  back : ∀ time, 0 ≤ time → zone.timestamp (zone.datetime time) = time
  mono : ∀ time other, 0 ≤ time → time ≤ other → zone.datetime time ≤ zone.datetime other

def fromUnixtime (zone : Zone) (time : ℤ) : Option ℤ := if 0 ≤ time then some (zone.datetime time) else none

variable {zone : Zone} {time x : ℤ}

lemma fromUnixtime_eq_some : zone.fromUnixtime time = some x ↔ 0 ≤ time ∧ zone.datetime time = x := by
  rw [fromUnixtime]
  split
  · simp [*]
  · simp [*]

lemma Lossless.timestamp_eq_some (h : zone.Lossless) :
    (zone.fromUnixtime time).map zone.timestamp = some x ↔ 0 ≤ time ∧ time = x := by
  rw [Option.map_eq_some_iff]
  constructor
  · rintro ⟨d, hd, rfl⟩
    obtain ⟨hpos, rfl⟩ := fromUnixtime_eq_some.mp hd
    exact ⟨hpos, (h.back time hpos).symm⟩
  · rintro ⟨hpos, rfl⟩
    exact ⟨_, fromUnixtime_eq_some.mpr ⟨hpos, rfl⟩, h.back time hpos⟩

lemma Lossless.not_datetime_le (h : zone.Lossless) (hpos : 0 ≤ time) (hlt : time < x) :
    ¬ zone.datetime x ≤ zone.datetime time := by
  intro hle
  have heq : zone.datetime time = zone.datetime x := le_antisymm (h.mono time x hpos hlt.le) hle
  have hback := congrArg zone.timestamp heq
  rw [h.back time hpos, h.back x (by omega)] at hback
  omega

lemma utc_lossless : utc.Lossless := ⟨fun _ _ => rfl, fun _ _ _ hle => hle⟩

end Zone

section Service

variable {P : Type} [DecidableEq P] (zone : Zone) (chooseDatabase : ℤ → P)

def insertAll (throws : ℕ → Bool) : ℕ → List (P × List Row) → (P → List Row) → Bool × (P → List Row)
  | _, [], t => (true, t)
  | i, (p, rows) :: rest, t =>
    if throws i then (false, t) else insertAll throws (i + 1) rest (Function.update t p (t p ++ rows))

def setUserLastSendData (redis : Bool) (user : ℤ) (d : UserLastSendData) (s : Dbproxy P) : Bool × Dbproxy P :=
  -- `redis` tells whether the call that runs the script has come back.
  if redis then (true, { s with lastSend := Latest.put UserLastSendData.clientTime s.lastSend user d })
  else (false, s)

def save (throws : ℕ → Bool) (redis : Bool) (inserts : List (P × List Row)) (user : ℤ) (d : UserLastSendData)
    (s : Dbproxy P) : Bool × Dbproxy P :=
  match insertAll throws 0 inserts s.messages with
  | (false, t) => (false, { s with messages := t })
  | (true, t) => setUserLastSendData redis user d { s with messages := t }

def NewPrivateMsg.senderRow (m : NewPrivateMsg) : Row :=
  ⟨m.sender, m.sender, m.receiver, m.senderMsgId, 0, m.message, zone.fromUnixtime m.clientTime,
    zone.fromUnixtime m.msgTime⟩

def NewPrivateMsg.receiverRow (m : NewPrivateMsg) : Row :=
  ⟨m.receiver, m.sender, m.receiver, m.receiverMsgId, 0, m.message, zone.fromUnixtime m.clientTime,
    zone.fromUnixtime m.msgTime⟩

def NewPrivateMsg.inserts (m : NewPrivateMsg) : List (P × List Row) :=
  if chooseDatabase m.sender = chooseDatabase m.receiver then
    [(chooseDatabase m.sender, [m.senderRow zone, m.receiverRow zone])]
  else [(chooseDatabase m.sender, [m.senderRow zone]), (chooseDatabase m.receiver, [m.receiverRow zone])]

def savePrivateMsg (throws : ℕ → Bool) (redis : Bool) (m : NewPrivateMsg) : Dbproxy P → Bool × Dbproxy P :=
  save throws redis (m.inserts zone chooseDatabase) m.sender ⟨m.senderMsgId, m.clientTime, m.msgTime⟩

def NewGroupMsg.row (m : NewGroupMsg) (x : UserAndMsgId) : Row :=
  ⟨x.userId, m.senderUserId, m.groupId, x.msgId, m.groupId, m.message, zone.fromUnixtime m.clientTime,
    zone.fromUnixtime m.msgTime⟩

def NewGroupMsg.inserts (m : NewGroupMsg) : List (P × List Row) :=
  m.userAndMsgids.map fun x => (chooseDatabase x.userId, [m.row zone x])

def saveGroupMsg (throws : ℕ → Bool) (redis : Bool) (m : NewGroupMsg) : Dbproxy P → Bool × Dbproxy P :=
  save throws redis (m.inserts zone chooseDatabase) m.senderUserId ⟨m.senderMsgId, m.clientTime, m.msgTime⟩

def Row.sentBy (r : Row) (user : ℤ) : Bool := r.userId = user ∧ r.sender = user

def selectLast (rows : List Row) (user : ℤ) : List (ℤ × Option ℤ × Option ℤ) :=
  -- `MAX` leaves out NULL, and NULL equals nothing
  let last := ((rows.filter (·.sentBy user)).map (·.clientTime)).reduceOption.max?
  (rows.filter fun r => r.sentBy user ∧ r.clientTime ≠ none ∧ r.clientTime = last).map
    fun r => (r.msgId, r.clientTime.map zone.timestamp, r.msgTime.map zone.timestamp)

end Service

inductive SaveMsg where
  | privateMsg (m : NewPrivateMsg)
  | groupMsg (m : NewGroupMsg)
  deriving DecidableEq, Repr

namespace SaveMsg

def sender : SaveMsg → ℤ
  | privateMsg m => m.sender
  | groupMsg m => m.senderUserId

def lastSend : SaveMsg → UserLastSendData
  | privateMsg m => ⟨m.senderMsgId, m.clientTime, m.msgTime⟩
  | groupMsg m => ⟨m.senderMsgId, m.clientTime, m.msgTime⟩

def rows (zone : Zone) : SaveMsg → List Row
  | privateMsg m => [m.senderRow zone, m.receiverRow zone]
  | groupMsg m => m.userAndMsgids.map (m.row zone)

def ListsSender : SaveMsg → Prop
  | privateMsg _ => True
  | groupMsg m => ⟨m.senderUserId, m.senderMsgId⟩ ∈ m.userAndMsgids

def OneId : SaveMsg → Prop
  | privateMsg m => m.receiver = m.sender → m.receiverMsgId = m.senderMsgId
  | groupMsg m => ∀ x ∈ m.userAndMsgids, x.userId = m.senderUserId → x.msgId = m.senderMsgId

variable {zone : Zone} {m : SaveMsg} {r : Row}

lemma mem_rows (h : r ∈ m.rows zone) : r.sender = m.sender ∧ r.clientTime = zone.fromUnixtime m.lastSend.clientTime ∧
    r.msgTime = zone.fromUnixtime m.lastSend.msgTime := by
  cases m with
  | privateMsg m =>
    simp only [rows, List.mem_cons, List.not_mem_nil, or_false] at h
    rcases h with rfl | rfl
    · exact ⟨rfl, rfl, rfl⟩
    · exact ⟨rfl, rfl, rfl⟩
  | groupMsg m =>
    obtain ⟨x, -, rfl⟩ := List.mem_map.mp h
    exact ⟨rfl, rfl, rfl⟩

lemma ListsSender.own_row (zone : Zone) (h : m.ListsSender) :
    ∃ r ∈ m.rows zone, r.userId = m.sender ∧ r.msgId = m.lastSend.msgId := by
  cases m with
  | privateMsg m => exact ⟨m.senderRow zone, List.mem_cons_self, rfl, rfl⟩
  | groupMsg m => exact ⟨_, List.mem_map.mpr ⟨_, h, rfl⟩, rfl, rfl⟩

lemma oneId_iff (zone : Zone) : m.OneId ↔ ∀ r ∈ m.rows zone, r.userId = m.sender → r.msgId = m.lastSend.msgId := by
  cases m with
  | privateMsg m =>
    simp only [rows, List.forall_mem_cons, List.not_mem_nil, false_implies, implies_true, and_true]
    exact ⟨fun h => ⟨fun _ => rfl, h⟩, fun h => h.2⟩
  | groupMsg m => simp only [rows, List.forall_mem_map]; rfl

variable {P : Type} [DecidableEq P] (zone) (chooseDatabase : ℤ → P)

def run (throws : ℕ → Bool) (redis : Bool) : SaveMsg → Dbproxy P → Bool × Dbproxy P
  | privateMsg m => savePrivateMsg zone chooseDatabase throws redis m
  | groupMsg m => saveGroupMsg zone chooseDatabase throws redis m

end SaveMsg

lemma mem_selectLast {zone : Zone} {rows : List Row} {user : ℤ} {x : ℤ × Option ℤ × Option ℤ} :
    x ∈ selectLast zone rows user ↔ ∃ r ∈ rows, r.sentBy user = true ∧
      (∃ time, r.clientTime = some time ∧
        ∀ q ∈ rows, q.sentBy user = true → ∀ other, q.clientTime = some other → other ≤ time) ∧
      x = (r.msgId, r.clientTime.map zone.timestamp, r.msgTime.map zone.timestamp) := by
  have hlast (time : ℤ) : ((rows.filter (·.sentBy user)).map (·.clientTime)).reduceOption.max? = some time ↔
      (∃ q ∈ rows, q.sentBy user = true ∧ q.clientTime = some time) ∧
        ∀ q ∈ rows, q.sentBy user = true → ∀ other, q.clientTime = some other → other ≤ time := by
    rw [List.max?_eq_some_iff]
    simp only [List.reduceOption_mem_iff, List.mem_map, List.mem_filter]
    grind
  simp only [selectLast, List.mem_map, List.mem_filter, decide_eq_true_eq]
  constructor
  · rintro ⟨r, ⟨hr, hs, hne, hmax⟩, rfl⟩
    obtain ⟨time, htime⟩ := Option.ne_none_iff_exists'.mp hne
    exact ⟨r, hr, hs, ⟨time, htime, ((hlast time).mp (hmax.symm.trans htime)).2⟩, rfl⟩
  · rintro ⟨r, hr, hs, ⟨time, htime, hmax⟩, rfl⟩
    have hm := (hlast time).mpr ⟨⟨r, hr, hs, htime⟩, hmax⟩
    exact ⟨r, ⟨hr, hs, by simp [htime], htime.trans hm.symm⟩, rfl⟩

section Histories

variable {P : Type} [DecidableEq P] (zone : Zone) (chooseDatabase : ℤ → P)

def Saved (s : Dbproxy P) (m : SaveMsg) (t : Dbproxy P) : Prop :=
  ∃ throws redis, m.run zone chooseDatabase throws redis s = (true, t)

def Agrees (s : Dbproxy P) (user : ℤ) : Prop :=
  ∃ d, s.lastSend user = some d ∧
    ∀ x ∈ selectLast zone (s.messages (chooseDatabase user)) user, x = (d.msgId, some d.clientTime, some d.msgTime)

lemma insertAll_ok {throws : ℕ → Bool} {i : ℕ} {xs : List (P × List Row)} {t u : P → List Row}
    (h : insertAll throws i xs t = (true, u)) (p : P) (r : Row) :
    r ∈ u p ↔ r ∈ t p ∨ ∃ x ∈ xs, x.1 = p ∧ r ∈ x.2 := by
  induction xs generalizing i t with
  | nil =>
    cases h
    simp
  | cons x xs ih =>
    obtain ⟨q, rows⟩ := x
    rw [insertAll] at h
    split at h
    · cases h
    · rw [ih h, List.exists_mem_cons_iff]
      by_cases hq : q = p
      · subst hq
        simp only [Function.update_self, List.mem_append, true_and, or_assoc]
      · simp only [Function.update_of_ne (Ne.symm hq), hq, false_and, false_or]

lemma insertAll_of_quiet (i : ℕ) (xs : List (P × List Row)) (t : P → List Row) :
    (insertAll (fun _ => false) i xs t).1 = true := by
  induction xs generalizing i t with
  | nil => rfl
  | cons x xs ih => exact ih (i + 1) _

lemma save_ok {throws : ℕ → Bool} {redis : Bool} {inserts : List (P × List Row)} {user : ℤ}
    {d : UserLastSendData} {s t : Dbproxy P} (h : save throws redis inserts user d s = (true, t)) :
    insertAll throws 0 inserts s.messages = (true, t.messages) ∧
      t.lastSend = Latest.put UserLastSendData.clientTime s.lastSend user d := by
  rw [save] at h
  split at h
  · cases h
  · rename_i u hu
    rw [setUserLastSendData] at h
    split at h
    · cases h
      exact ⟨hu, rfl⟩
    · cases h

lemma save_of_quiet (inserts : List (P × List Row)) (user : ℤ) (d : UserLastSendData) (s : Dbproxy P) :
    ∃ t, save (fun _ => false) true inserts user d s = (true, t) := by
  have hok := insertAll_of_quiet 0 inserts s.messages
  rw [save]
  split
  · rename_i h
    rw [h] at hok
    cases hok
  · exact ⟨_, rfl⟩

lemma mem_privateInserts (m : NewPrivateMsg) (p : P) (r : Row) :
    (∃ x ∈ m.inserts zone chooseDatabase, x.1 = p ∧ r ∈ x.2) ↔
      r ∈ [m.senderRow zone, m.receiverRow zone] ∧ chooseDatabase r.userId = p := by
  have hs : (m.senderRow zone).userId = m.sender := rfl
  have hr : (m.receiverRow zone).userId = m.receiver := rfl
  rw [NewPrivateMsg.inserts]
  split
  · rename_i hc
    simp only [exists_eq_left, List.mem_cons, List.not_mem_nil, or_false]
    constructor
    · rintro ⟨rfl, rfl | rfl⟩
      · exact ⟨.inl rfl, by rw [hs]⟩
      · exact ⟨.inr rfl, by rw [hr, hc]⟩
    · rintro ⟨rfl | rfl, rfl⟩
      · exact ⟨by rw [hs], .inl rfl⟩
      · exact ⟨by rw [hr, hc], .inr rfl⟩
  · simp only [List.mem_cons, List.not_mem_nil, or_false, exists_eq_or_imp, exists_eq_left]
    constructor
    · rintro (⟨rfl, rfl⟩ | ⟨rfl, rfl⟩)
      · exact ⟨.inl rfl, by rw [hs]⟩
      · exact ⟨.inr rfl, by rw [hr]⟩
    · rintro ⟨rfl | rfl, rfl⟩
      · exact .inl ⟨by rw [hs], rfl⟩
      · exact .inr ⟨by rw [hr], rfl⟩

omit [DecidableEq P] in
lemma mem_groupInserts (m : NewGroupMsg) (p : P) (r : Row) :
    (∃ x ∈ m.inserts zone chooseDatabase, x.1 = p ∧ r ∈ x.2) ↔
      r ∈ m.userAndMsgids.map (m.row zone) ∧ chooseDatabase r.userId = p := by
  simp only [NewGroupMsg.inserts, List.mem_map]
  constructor
  · rintro ⟨_, ⟨x, hx, rfl⟩, rfl, hr⟩
    rw [List.mem_singleton.mp hr]
    exact ⟨⟨x, hx, rfl⟩, rfl⟩
  · rintro ⟨⟨x, hx, rfl⟩, rfl⟩
    exact ⟨_, ⟨x, hx, rfl⟩, rfl, List.mem_singleton.mpr rfl⟩

variable {zone chooseDatabase}

lemma Saved.messages {s t : Dbproxy P} {m : SaveMsg} (h : Saved zone chooseDatabase s m t) (p : P) (r : Row) :
    r ∈ t.messages p ↔ r ∈ s.messages p ∨ r ∈ m.rows zone ∧ chooseDatabase r.userId = p := by
  obtain ⟨throws, redis, h⟩ := h
  cases m with
  | privateMsg m => rw [insertAll_ok (save_ok h).1, mem_privateInserts, SaveMsg.rows]
  | groupMsg m => rw [insertAll_ok (save_ok h).1, mem_groupInserts, SaveMsg.rows]

lemma Saved.lastSend {s t : Dbproxy P} {m : SaveMsg} (h : Saved zone chooseDatabase s m t) :
    t.lastSend = Latest.put UserLastSendData.clientTime s.lastSend m.sender m.lastSend := by
  obtain ⟨throws, redis, h⟩ := h
  cases m with
  | privateMsg m => exact (save_ok h).2
  | groupMsg m => exact (save_ok h).2

lemma exists_saved (s : Dbproxy P) (m : SaveMsg) : ∃ t, Saved zone chooseDatabase s m t := by
  obtain ⟨t, ht⟩ : ∃ t, m.run zone chooseDatabase (fun _ => false) true s = (true, t) := by
    cases m with
    | privateMsg m => exact save_of_quiet _ _ _ s
    | groupMsg m => exact save_of_quiet _ _ _ s
  exact ⟨t, _, _, ht⟩

def sentBy (user : ℤ) (ms : List SaveMsg) : List UserLastSendData :=
  (ms.filter (·.sender = user)).map SaveMsg.lastSend

lemma messages_of_trace {s : Dbproxy P} {ms : List SaveMsg} (h : Trace (Saved zone chooseDatabase) .empty ms s)
    (p : P) (r : Row) : r ∈ s.messages p ↔ (∃ m ∈ ms, r ∈ m.rows zone) ∧ chooseDatabase r.userId = p := by
  induction h with
  | nil => simp [Dbproxy.empty]
  | snoc _ hs ih =>
    rw [hs.messages, ih]
    simp only [List.mem_append, List.mem_singleton, or_and_right, exists_or, exists_eq_left]

lemma lastSend_of_trace {s : Dbproxy P} {ms : List SaveMsg} (h : Trace (Saved zone chooseDatabase) .empty ms s)
    (user : ℤ) : s.lastSend user = (sentBy user ms).foldl (Latest.offer UserLastSendData.clientTime) none := by
  induction h with
  | nil => rfl
  | @snoc ms s m t _ hs ih =>
    rw [hs.lastSend, Latest.put]
    by_cases hu : m.sender = user
    · subst hu
      simp [sentBy, ih]
    · simp [sentBy, ih, hu, Function.update_of_ne (Ne.symm hu)]

section History

variable {s : Dbproxy P} {ms : List SaveMsg} (hs : Trace (Saved zone chooseDatabase) .empty ms s)
include hs

lemma mem_own {user : ℤ} {r : Row} : r ∈ s.messages (chooseDatabase user) ∧ r.sentBy user = true ↔
    ∃ m ∈ ms, r ∈ m.rows zone ∧ m.sender = user ∧ r.userId = user := by
  rw [messages_of_trace hs, Row.sentBy, decide_eq_true_eq]
  constructor
  · rintro ⟨⟨⟨m, hm, hr⟩, -⟩, hu, hsender⟩
    exact ⟨m, hm, hr, (SaveMsg.mem_rows hr).1.symm.trans hsender, hu⟩
  · rintro ⟨m, hm, hr, hsender, hu⟩
    exact ⟨⟨⟨m, hm, hr⟩, congrArg chooseDatabase hu⟩, hu, (SaveMsg.mem_rows hr).1.trans hsender⟩

variable (hzone : zone.Lossless)
  (hdistinct : ms.Pairwise fun m n => m.sender = n.sender → m.lastSend.clientTime ≠ n.lastSend.clientTime)
  (hlists : ∀ m ∈ ms, m.ListsSender)
include hzone hdistinct hlists

lemma mem_selectLast_of_latest {m : SaveMsg} (hm : m ∈ ms)
    (hlast : ∀ n ∈ ms, n.sender = m.sender → n.lastSend.clientTime ≤ m.lastSend.clientTime)
    {x : ℤ × Option ℤ × Option ℤ} :
    x ∈ selectLast zone (s.messages (chooseDatabase m.sender)) m.sender ↔ 0 ≤ m.lastSend.clientTime ∧
      ∃ r ∈ m.rows zone, r.userId = m.sender ∧
        x = (r.msgId, some m.lastSend.clientTime, (zone.fromUnixtime m.lastSend.msgTime).map zone.timestamp) := by
  have hsymm : Std.Symm fun m n : SaveMsg =>
      m.sender = n.sender → m.lastSend.clientTime ≠ n.lastSend.clientTime :=
    ⟨fun _ _ h he => (h he.symm).symm⟩
  rw [mem_selectLast]
  constructor
  · rintro ⟨r, hr, hown, ⟨time, htime, hmax⟩, rfl⟩
    obtain ⟨n, hn, hrow, hsender, hu⟩ := (mem_own hs).mp ⟨hr, hown⟩
    obtain ⟨-, hclient, hmsg⟩ := SaveMsg.mem_rows hrow
    obtain ⟨hpos, rfl⟩ := Zone.fromUnixtime_eq_some.mp (hclient.symm.trans htime)
    -- a later message of the user would have left a row with a greater time
    obtain rfl : n = m := by
      by_contra hne
      have hlt : n.lastSend.clientTime < m.lastSend.clientTime :=
        lt_of_le_of_ne (hlast n hn hsender) (hdistinct.forall hn hm hne hsender)
      obtain ⟨q, hq, hqu, -⟩ := (hlists m hm).own_row zone
      obtain ⟨hqm, hqs⟩ := (mem_own hs).mpr ⟨m, hm, hq, rfl, hqu⟩
      have hle := hmax q hqm hqs (zone.datetime m.lastSend.clientTime)
        ((SaveMsg.mem_rows hq).2.1.trans (Zone.fromUnixtime_eq_some.mpr ⟨by omega, rfl⟩))
      exact hzone.not_datetime_le hpos hlt hle
    exact ⟨hpos, r, hrow, hu, by rw [htime, hmsg, Option.map_some, hzone.back _ hpos]⟩
  · rintro ⟨hpos, r, hrow, hu, rfl⟩
    obtain ⟨-, hclient, hmsg⟩ := SaveMsg.mem_rows hrow
    have htime := hclient.trans (Zone.fromUnixtime_eq_some.mpr ⟨hpos, rfl⟩)
    obtain ⟨hr, hown⟩ := (mem_own hs).mpr ⟨m, hm, hrow, rfl, hu⟩
    refine ⟨r, hr, hown, ⟨_, htime, ?_⟩, by rw [htime, hmsg, Option.map_some, hzone.back _ hpos]⟩
    intro q hq hqs other hother
    obtain ⟨n, hn, hqr, hns, -⟩ := (mem_own hs).mp ⟨hq, hqs⟩
    obtain ⟨hpos', rfl⟩ := Zone.fromUnixtime_eq_some.mp ((SaveMsg.mem_rows hqr).2.1.symm.trans hother)
    exact hzone.mono _ _ hpos' (hlast n hn hns)

omit hzone hdistinct hlists in
lemma lastSend_isLatest {m : SaveMsg} (hm : m ∈ ms) :
    ∃ n ∈ ms, n.sender = m.sender ∧ s.lastSend m.sender = some n.lastSend ∧
      ∀ k ∈ ms, k.sender = n.sender → k.lastSend.clientTime ≤ n.lastSend.clientTime := by
  have hmem (d : UserLastSendData) : d ∈ sentBy m.sender ms ↔
      ∃ k ∈ ms, k.sender = m.sender ∧ k.lastSend = d := by
    simp [sentBy, and_assoc]
  obtain ⟨d, hd⟩ : ∃ d, s.lastSend m.sender = some d := by
    rw [lastSend_of_trace hs]
    cases hl : sentBy m.sender ms with
    | nil => exact absurd ((hmem m.lastSend).mpr ⟨m, hm, rfl, rfl⟩) (by simp [hl])
    | cons x xs => exact Latest.foldl_offer_cons _ x xs
  have hlatest := Latest.isLatest_foldl ((lastSend_of_trace hs m.sender).symm.trans hd)
  obtain ⟨n, hn, hsender, rfl⟩ := (hmem d).mp hlatest.1
  refine ⟨n, hn, hsender, hd, fun k hk hks => ?_⟩
  exact hlatest.2 _ ((hmem _).mpr ⟨k, hk, hks.trans hsender, rfl⟩)

theorem last_send_agrees_iff : (∀ user, (∃ m ∈ ms, m.sender = user) → Agrees zone chooseDatabase s user) ↔
    ∀ m ∈ ms, (∀ n ∈ ms, n.sender = m.sender → n.lastSend.clientTime ≤ m.lastSend.clientTime) →
      0 ≤ m.lastSend.clientTime → 0 ≤ m.lastSend.msgTime ∧ m.OneId := by
  constructor
  · intro h m hm hlast hpos
    obtain ⟨d, -, hd⟩ := h m.sender ⟨m, hm, rfl⟩
    have hrows (r : Row) (hr : r ∈ m.rows zone) (hu : r.userId = m.sender) :=
      hd _ ((mem_selectLast_of_latest hs hzone hdistinct hlists hm hlast).mpr ⟨hpos, r, hr, hu, rfl⟩)
    obtain ⟨q, hq, hqu, hid⟩ := (hlists m hm).own_row zone
    have hown := hrows q hq hqu
    simp only [Prod.mk.injEq] at hown
    refine ⟨(hzone.timestamp_eq_some.mp hown.2.2).1, (SaveMsg.oneId_iff zone).mpr fun r hr hu => ?_⟩
    have hrow := hrows r hr hu
    simp only [Prod.mk.injEq] at hrow
    exact hrow.1.trans (hown.1.symm.trans hid)
  · rintro h user ⟨m, hm, rfl⟩
    obtain ⟨n, hn, hsender, hd, hlast⟩ := lastSend_isLatest hs hm
    refine ⟨n.lastSend, hd, fun x hx => ?_⟩
    rw [← hsender] at hx
    obtain ⟨hpos, r, hr, hu, rfl⟩ := (mem_selectLast_of_latest hs hzone hdistinct hlists hn hlast).mp hx
    obtain ⟨hmsg, hone⟩ := h n hn hlast hpos
    rw [(SaveMsg.oneId_iff zone).mp hone r hr hu, hzone.timestamp_eq_some.mpr ⟨hmsg, rfl⟩]

end History

end Histories

def toOther : SaveMsg := .privateMsg ⟨1, 5, 2, 9, "hello", 201, 200⟩

def toGroup : SaveMsg := .groupMsg ⟨7, [⟨1, 6⟩, ⟨2, 10⟩], 1, 6, "hello all", 202, 100⟩

def toSelf : SaveMsg := .privateMsg ⟨1, 5, 1, 6, "note", 100, 100⟩

theorem last_send_agrees_out_of_order : ∃ s : Dbproxy Unit,
    Trace (Saved .utc fun _ => ()) .empty [toOther, toGroup] s ∧ Agrees .utc (fun _ => ()) s 1 := by
  obtain ⟨s, hs₁⟩ := exists_saved (.empty : Dbproxy Unit) toOther
  obtain ⟨t, hs₂⟩ := exists_saved s toGroup
  have hs : Trace (Saved .utc fun _ => ()) .empty [toOther, toGroup] t := (Trace.nil.snoc hs₁).snoc hs₂
  refine ⟨_, hs, (last_send_agrees_iff hs Zone.utc_lossless (by decide) ?_).mpr ?_ 1 ⟨toOther, by decide, rfl⟩⟩
  · simp [SaveMsg.ListsSender, toOther, toGroup]
  · simp [SaveMsg.OneId, SaveMsg.lastSend, SaveMsg.sender, toOther, toGroup]

theorem last_send_disagrees_on_self_message : ∃ s : Dbproxy Unit,
    Trace (Saved .utc fun _ => ()) .empty [toSelf] s ∧ toSelf.ListsSender ∧ toSelf.sender = 1 ∧
      s.lastSend 1 = some ⟨5, 100, 100⟩ ∧ (6, some 100, some 100) ∈ selectLast .utc (s.messages ()) 1 ∧
      ¬ Agrees .utc (fun _ => ()) s 1 := by
  have hs : Saved .utc (fun _ => ()) .empty toSelf (toSelf.run .utc (fun _ => ()) (fun _ => false) true .empty).2 :=
    ⟨fun _ => false, true, rfl⟩
  have hrow : (6, some 100, some 100) ∈
      selectLast .utc ((toSelf.run .utc (fun _ => ()) (fun _ => false) true .empty).2.messages ()) 1 := by decide
  refine ⟨_, Trace.nil.snoc hs, trivial, rfl, rfl, hrow, ?_⟩
  rintro ⟨d, hd, hrows⟩
  cases hd
  exact absurd (hrows _ hrow) (by decide)

end OceanServer.Im.LastSend
