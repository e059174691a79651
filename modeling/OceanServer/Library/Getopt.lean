import OceanServer.Library.Scanf

/-! `getopt`, called until it has gone through the command line. Operands are passed over, wherever they stand. -/

namespace OceanServer.Library.Getopt

inductive Found where
  | option (c : Char) (arg : Option (List Char))
  | unknown (c : Char)
  | missing (c : Char)
  deriving DecidableEq, Repr

def takes : List Char → Char → Option Bool
  | [], _ => none
  | d :: ':' :: rest, c => if c = ':' then none else if c = d then some true else takes rest c
  | d :: rest, c => if c = ':' then none else if c = d then some false else takes rest c

section Scan

variable (arity : Char → Option Bool)

/-- One element that starts with `-`: the options in it, and the one that still waits for its argument. -/
def cluster : List Char → List Found × Option Char
  | [] => ([], none)
  | c :: cs =>
    match arity c with
    | none => (.unknown c :: (cluster cs).1, (cluster cs).2)
    | some false => (.option c none :: (cluster cs).1, (cluster cs).2)
    | some true => if cs = [] then ([], some c) else ([.option c (some cs)], none)

def options : Option Char → List (List Char) → List Found
  | none, [] => []
  | some c, [] => [.missing c]
  | some c, a :: args => .option c (some a) :: options none args
  | none, a :: args =>
    match a with
    | ['-', '-'] => []
    | '-' :: c :: cs => (cluster arity (c :: cs)).1 ++ options (cluster arity (c :: cs)).2 args
    | _ => options none args

inductive Word where
  | attached (c : Char) (arg : List Char) (known : arity c = some true) (text : arg ≠ [])
  | separate (c : Char) (arg : List Char) (known : arity c = some true) (single : c ≠ '-')
  | stray (c : Char) (known : arity c = none) (single : c ≠ '-')
  | operand (arg : List Char) (plain : arg.head? ≠ some '-')

end Scan

section Words

variable {arity : Char → Option Bool}

def Word.args : Word arity → List (List Char)
  | .attached c arg _ _ => ['-' :: c :: arg]
  | .separate c arg _ _ => [['-', c], arg]
  | .stray c _ _ => [['-', c]]
  | .operand arg _ => [arg]

def Word.found : Word arity → List Found
  | .attached c arg _ _ | .separate c arg _ _ => [.option c (some arg)]
  | .stray c _ _ => [.unknown c]
  | .operand _ _ => []

end Words

end OceanServer.Library.Getopt
