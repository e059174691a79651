import OceanServer.Library.FileStream
import OceanServer.Library.Semaphore
import OceanServer.Log.Rotation

/-! The macros `LOG_DEBUG` to `LOG_ERROR` in synchronous mode, called by any number of threads: `write_log` with
its three sections under the mutex, then `flush`. -/

namespace OceanServer.Log.Sync

open Library Library.CString

inductive Place where
  -- Where a thread stands: `put` has the number of its `fputs` call.
  | outside
  | counted
  | formatted (line : List UInt8)
  | put (n : ℕ)
  deriving DecidableEq, Repr

def Place.number : Place → Option ℕ
  | put n => some n
  | _ => none

/-- `puts` has the file and the line of each `fputs` call, in their order, `done` the numbers of those whose macro has
ended, and `opens` whether each `fopen` has succeeded, that of `init` first. -/
structure Journal (T : Type*) where
  log : FileLog
  stream : FileStream (List UInt8) UInt8
  place : T → Place
  puts : List (List UInt8 × List UInt8)
  done : List ℕ
  opens : List Bool

inductive Action (T : Type*) where
  | count (i : T) (tm : Tm)
  | rotate (i : T) (tm : Tm) (opened : Bool)
  | format (i : T) (line : List UInt8)
  | fputs (i : T)
  | spill (k : ℕ)
  | flush (i : T)

section Model

variable {T : Type*}

def Journal.start (l : FileLog) (disk : List UInt8 → List UInt8) (opened : Bool) : Journal T :=
  ⟨l, ⟨disk, if opened then some (l.path, []) else none⟩, fun _ => .outside, [], [], [opened]⟩

variable [DecidableEq T]

def Journal.goTo (s : Journal T) (i : T) (p : Place) : Journal T := { s with place := Function.update s.place i p }

-- where an `fopen` has failed, `m_fp` is NULL: `fclose` and `fputs` have then no defined behaviour and so no step,
-- while `fflush` flushes what is open
inductive Step : Journal T → Action T → Journal T → Prop
  -- the time is read before the mutex is taken, so that it may be older than that of the last rotation
  | same {s i l} (tm : Tm) : s.place i = .outside → rotate s.log tm = some (l, []) →
      Step s (.count i tm) { s.goTo i .counted with log := l }
  | rotated {s i l path name} (tm : Tm) (opened : Bool) : s.place i = .outside →
      rotate s.log tm = some (l, [.fopen path name]) → s.stream.path ≠ none →
      Step s (.rotate i tm opened) { s.goTo i .counted with
        log := l, stream := s.stream.reopen path opened, opens := s.opens ++ [opened] }
  | format {s i} (line : List UInt8) : s.place i = .counted → Step s (.format i line) (s.goTo i (.formatted line))
  | fputs {s i line path} : s.place i = .formatted line → s.stream.path = some path →
      Step s (.fputs i) { s.goTo i (.put s.puts.length) with
        stream := s.stream.put line, puts := s.puts ++ [(path, line)] }
  | spill {s} (k : ℕ) : Step s (.spill k) { s with stream := s.stream.spill k }
  | flush {s i n} : s.place i = .put n →
      Step s (.flush i) { s.goTo i .outside with stream := s.stream.flush, done := s.done ++ [n] }

end Model

section Durable

variable {T : Type*}

def textOf (p : List UInt8) (puts : List (List UInt8 × List UInt8)) : List UInt8 :=
  (puts.filter (·.1 = p)).flatMap (·.2)

structure Kept (disk : List UInt8 → List UInt8) (s : Journal T) (k : ℕ) : Prop where
  contents : ∀ p, s.stream.contents p = disk p ++ textOf p s.puts
  written : ∀ p, disk p ++ textOf p (s.puts.take k) <+: s.stream.disk p
  bound : k ≤ s.puts.length
  ended : ∀ n ∈ s.done, n < k

def Once (s : Journal T) : Prop := Shared (List.range s.puts.length) s.done (Place.number ∘ s.place)

variable {disk : List UInt8 → List UInt8} {s t : Journal T} {k : ℕ}

variable [DecidableEq T] {a : Action T}

omit [DecidableEq T] in
lemma Once.lt (h : Once s) {n : ℕ} (hn : n ∈ s.done ∨ ∃ i, s.place i = .put n) : n < s.puts.length := by
  rw [← List.mem_range, h.mem n]
  refine hn.imp_right ?_
  rintro ⟨i, hi⟩
  exact ⟨i, congrArg Place.number hi⟩

end Durable

end OceanServer.Log.Sync
