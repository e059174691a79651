import OceanServer.Library.LinkedHeap

/-! The sorted timer list: `sort_timer_lst` over a heap of `util_timer` cells. An operation is `none`
where the code follows a null or freed pointer, or a loop that never ends. -/

namespace OceanServer.Timer

open Library.LinkedHeap

structure UtilTimer where
  expire : ℤ
  userData : ℕ
  deriving DecidableEq, Repr

structure TimerList where
  heap : Heap UtilTimer
  head : Option ℕ
  tail : Option ℕ

def TimerList.empty : TimerList := ⟨.empty, none, none⟩

def insertLoop (l : TimerList) (timer : ℕ) : ℕ → ℕ → Option ℕ → Option TimerList
  -- The loop of the private `add_timer`, with `prev` and `tmp` the two cells it walks along.
  | 0, _, _ => none
  | _ + 1, prev, none => do
    let h ← l.heap.setNext prev (some timer)
    let h ← h.setPrev timer (some prev)
    let h ← h.setNext timer none
    some { l with heap := h, tail := some timer }
  | n + 1, prev, some tmp => do
    let t ← l.heap.cell timer
    let c ← l.heap.cell tmp
    if t.data.expire < c.data.expire then
      let h ← l.heap.setNext prev (some timer)
      let h ← h.setNext timer (some tmp)
      let h ← h.setPrev tmp (some timer)
      let h ← h.setPrev timer (some prev)
      some { l with heap := h }
    else insertLoop l timer n tmp c.next

def addTimerFrom (l : TimerList) (timer lstHead : ℕ) : Option TimerList := do
  let c ← l.heap.cell lstHead
  insertLoop l timer (l.heap.top + 1) lstHead c.next

def addTimer (l : TimerList) : Option ℕ → Option TimerList
  | none => some l
  | some timer =>
    match l.head with
    | none => some { l with head := some timer, tail := some timer }
    | some head => do
      let t ← l.heap.cell timer
      let c ← l.heap.cell head
      if t.data.expire < c.data.expire then
        let h ← l.heap.setNext timer (some head)
        let h ← h.setPrev head (some timer)
        some { l with heap := h, head := some timer }
      else addTimerFrom l timer head

def adjustTimer (l : TimerList) : Option ℕ → Option TimerList
  | none => some l
  | some timer => do
    let t ← l.heap.cell timer
    match t.next with
    | none => some l
    | some tmp =>
      let c ← l.heap.cell tmp
      if t.data.expire < c.data.expire then some l
      else if l.head = some timer then
        let h ← l.heap.setPrev tmp none
        let h ← h.setNext timer none
        addTimerFrom { l with heap := h, head := some tmp } timer tmp
      else
        let prev ← t.prev
        let h ← l.heap.setNext prev t.next
        let t ← h.cell timer
        let next ← t.next
        let h ← h.setPrev next t.prev
        let t ← h.cell timer
        let next ← t.next
        addTimerFrom { l with heap := h } timer next

def delTimer (l : TimerList) : Option ℕ → Option TimerList
  | none => some l
  | some timer =>
    if l.head = some timer ∧ l.tail = some timer then do
      let _ ← l.heap.cell timer
      some { heap := l.heap.free timer, head := none, tail := none }
    else if l.head = some timer then do
      let t ← l.heap.cell timer
      let head ← t.next
      let h ← l.heap.setPrev head none
      some { l with heap := h.free timer, head := some head }
    else if l.tail = some timer then do
      let t ← l.heap.cell timer
      let tail ← t.prev
      let h ← l.heap.setNext tail none
      some { l with heap := h.free timer, tail := some tail }
    else do
      let t ← l.heap.cell timer
      let prev ← t.prev
      let h ← l.heap.setNext prev t.next
      let t ← h.cell timer
      let next ← t.next
      let h ← h.setPrev next t.prev
      some { l with heap := h.free timer }

def clearPrev (h : Heap UtilTimer) : Option ℕ → Option (Heap UtilTimer)
  | none => some h
  | some head => h.setPrev head none

def tickLoop (cur : ℤ) : ℕ → TimerList → Option ℕ → Option (TimerList × List (ℕ × UtilTimer))
  -- The timers whose `cb_func` is called come back in the order of the calls.
  | 0, _, _ => none
  | _ + 1, l, none => some (l, [])
  | n + 1, l, some tmp => do
    let c ← l.heap.cell tmp
    if cur < c.data.expire then some (l, [])
    else
      let h ← clearPrev l.heap c.next
      let (l, fired) ← tickLoop cur n { l with heap := h.free tmp, head := c.next } c.next
      some (l, (tmp, c.data) :: fired)

def tick (l : TimerList) (cur : ℤ) : Option (TimerList × List (ℕ × UtilTimer)) :=
  tickLoop cur (l.heap.top + 1) l l.head

def destroyLoop : ℕ → TimerList → Option ℕ → Option (TimerList × List ℕ)
  | 0, _, _ => none
  | _ + 1, l, none => some (l, [])
  | n + 1, l, some tmp => do
    let c ← l.heap.cell tmp
    let (l, freed) ← destroyLoop n { l with heap := l.heap.free tmp, head := c.next } c.next
    some (l, tmp :: freed)

def destroy (l : TimerList) : Option (TimerList × List ℕ) := destroyLoop (l.heap.top + 1) l l.head

def TimerList.new (l : TimerList) (p : ℕ) (t : UtilTimer) : TimerList :=
  { l with heap := l.heap.store p ⟨t, none, none⟩ }

def TimerList.setExpire (l : TimerList) (p : ℕ) (expire : ℤ) : Option TimerList := do
  let c ← l.heap.cell p
  let h ← l.heap.setData p { c.data with expire := expire }
  some { l with heap := h }

def follow (h : Heap UtilTimer) : ℕ → Option ℕ → Option (List (ℕ × UtilTimer))
  | 0, _ => none
  | _ + 1, none => some []
  | n + 1, some p => do
    let c ← h.cell p
    let rest ← follow h n c.next
    some ((p, c.data) :: rest)

def TimerList.walk (l : TimerList) : Option (List (ℕ × UtilTimer)) := follow l.heap (l.heap.top + 1) l.head

end OceanServer.Timer
