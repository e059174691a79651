import Mathlib.Tactic

/-! Files that one buffered stream appends to, one file at a time: what is on the disk, and what is not yet there. -/

namespace OceanServer.Library

structure FileStream (P B : Type*) where
  disk : P → List B
  -- the open file and what has not been written to it
  file : Option (P × List B)

namespace FileStream

variable {P B : Type*}

def path (s : FileStream P B) : Option P := s.file.map Prod.fst

def put (s : FileStream P B) (bs : List B) : FileStream P B :=
  { s with file := s.file.map fun f => (f.1, f.2 ++ bs) }

variable [DecidableEq P]

def pending (s : FileStream P B) (p : P) : List B :=
  match s.file with
  | none => []
  | some (q, bs) => if p = q then bs else []

def contents (s : FileStream P B) (p : P) : List B := s.disk p ++ s.pending p

def spill (s : FileStream P B) (k : ℕ) : FileStream P B :=
  -- a stream may write pending bytes at any time
  ⟨fun p => s.disk p ++ (s.pending p).take k, s.file.map fun f => (f.1, f.2.drop k)⟩

def flush (s : FileStream P B) : FileStream P B := ⟨s.contents, s.file.map fun f => (f.1, [])⟩

def reopen (s : FileStream P B) (p : P) (opened : Bool) : FileStream P B :=
  ⟨s.contents, if opened then some (p, []) else none⟩

variable {s : FileStream P B} {p q : P}

end FileStream

end OceanServer.Library
