import OceanServer.Im.GroupMsg

/-! What `GetMsgs` returns after any history of `SavePrivateMsg` and `SaveGroupMsg`, whichever of their statements
fail. What the schema and the driver decide is a parameter. -/

namespace OceanServer.Im.Messages

open LastSend

section Reading

inductive Thrown where
  | badCast
  | sociError
  deriving DecidableEq, Repr

variable {R α : Type} {wanted held : DataType} {value : Option α} {e : Thrown}

variable {read : R → α × Option Thrown} {rows : List R}

end Reading

section Query

structure Msg where
  userId : ℤ
  msgId : ℤ
  sender : ℤ
  receiver : ℤ
  message : String
  groupId : ℤ
  clientTime : ℤ
  msgTime : ℤ
  deriving DecidableEq, Repr

structure MsgIdRange where
  userId : ℤ
  startMsgId : ℤ
  endMsgId : ℤ
  deriving DecidableEq, Repr

def MsgIdRange.covers (q : MsgIdRange) (user msg : ℤ) : Bool :=
  user = q.userId ∧ q.startMsgId ≤ msg ∧ msg ≤ q.endMsgId

variable (b : Backend)

inductive Outcome where
  | ok
  | failed (text : String)
  -- only a `soci_error` is caught
  | escaped
  deriving DecidableEq, Repr

def outcome : Option Thrown → Outcome
  | none => .ok
  | some .sociError => .failed "fail to select from messages. "
  | some .badCast => .escaped

def Msg.row (zone : Zone) (c : Msg) : Row :=
  ⟨c.userId, c.sender, c.receiver, c.msgId, c.groupId, c.message, zone.fromUnixtime c.clientTime,
    zone.fromUnixtime c.msgTime⟩

variable {b} {user : ℤ} {c : Msg}

end Query

section Copies

def passed {α : Type} (throws : ℕ → Bool) : ℕ → List α → List α
  | _, [] => []
  | i, x :: xs => if throws i then [] else x :: passed throws (i + 1) xs

def senderCopy (m : NewPrivateMsg) : Msg :=
  ⟨m.sender, m.senderMsgId, m.sender, m.receiver, m.message, 0, m.clientTime, m.msgTime⟩

def receiverCopy (m : NewPrivateMsg) : Msg :=
  ⟨m.receiver, m.receiverMsgId, m.sender, m.receiver, m.message, 0, m.clientTime, m.msgTime⟩

def memberCopy (m : NewGroupMsg) (x : UserAndMsgId) : Msg :=
  ⟨x.userId, x.msgId, m.senderUserId, m.groupId, m.message, m.groupId, m.clientTime, m.msgTime⟩

variable {P : Type} [DecidableEq P] (chooseDatabase : ℤ → P)

def statements : SaveMsg → List (P × List Msg)
  | .privateMsg m =>
    if chooseDatabase m.sender = chooseDatabase m.receiver then
      [(chooseDatabase m.sender, [senderCopy m, receiverCopy m])]
    else [(chooseDatabase m.sender, [senderCopy m]), (chooseDatabase m.receiver, [receiverCopy m])]
  | .groupMsg m => m.userAndMsgids.map fun x => (chooseDatabase x.userId, [memberCopy m x])

structure Attempt where
  message : SaveMsg
  throws : ℕ → Bool
  redis : Bool

def Attempt.stored (a : Attempt) : List Msg :=
  (passed a.throws 0 (statements chooseDatabase a.message)).flatMap (·.2)

def Attempt.run (zone : Zone) (s : Dbproxy P) (a : Attempt) : Dbproxy P :=
  (a.message.run zone chooseDatabase a.throws a.redis s).2

end Copies

section Passed

variable {α β : Type} {throws : ℕ → Bool} {i : ℕ}

variable {P : Type} [DecidableEq P]

end Passed

section Histories

variable {P : Type} [DecidableEq P] {zone : Zone} {chooseDatabase : ℤ → P}

def kept (chooseDatabase : ℤ → P) (as : List Attempt) (q : MsgIdRange) : List Msg :=
  (as.flatMap (Attempt.stored chooseDatabase)).filter fun c => q.covers c.userId c.msgId

end Histories

end OceanServer.Im.Messages
