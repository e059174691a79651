import Mathlib.Tactic

/-! Paths resolved by their text: `.` and empty components stand for nothing, `..` for the directory above,
and above the topmost directory there is none. -/

namespace OceanServer.Library.LexicalPath

variable {α : Type*} [DecidableEq α] (sep dot : α)

def components (path : List α) : List (List α) := path.splitOnP (· == sep)

def move (dir : List (List α)) (x : List α) : List (List α) :=
  if x = [] ∨ x = [dot] then dir else if x = [dot, dot] then dir.dropLast else dir ++ [x]

/-- A path that starts with the separator starts from the top, and so does the empty one, which is only used
in front of such a path. -/
def resolve (cwd : List (List α)) (path : List α) : List (List α) :=
  (components sep path).foldl (move dot) (if path = [] ∨ path.head? = some sep then [] else cwd)

def Inside (cwd : List (List α)) (root path : List α) : Prop := resolve sep dot cwd root <+: resolve sep dot cwd path

instance (cwd : List (List α)) (root path : List α) : Decidable (Inside sep dot cwd root path) :=
  inferInstanceAs (Decidable (_ <+: _))

/-- How many directories a path climbs above where it starts, and the names it goes down from there. -/
def pass (mark : ℕ × List (List α)) (x : List α) : ℕ × List (List α) :=
  if x = [] ∨ x = [dot] then mark
  else if x = [dot, dot] then if mark.2 = [] then (mark.1 + 1, []) else (mark.1, mark.2.dropLast)
  else (mark.1, mark.2 ++ [x])

def net (path : List α) : ℕ × List (List α) := (components sep path).foldl (pass dot) (0, [])

variable {sep dot}

lemma move_take (dir : List (List α)) (mark : ℕ × List (List α)) (x : List α) :
    move dot (dir.take (dir.length - mark.1) ++ mark.2) x =
      dir.take (dir.length - (pass dot mark x).1) ++ (pass dot mark x).2 := by
  rw [move, pass]
  split_ifs with hskip hup hnil
  · rfl
  · rw [hnil, List.append_nil, List.append_nil, List.dropLast_eq_take, List.take_take, List.length_take]
    congr 1
    omega
  · rw [List.dropLast_append_of_ne_nil hnil]
  · rw [List.append_assoc]

lemma foldl_move (dir : List (List α)) (mark : ℕ × List (List α)) (xs : List (List α)) :
    xs.foldl (move dot) (dir.take (dir.length - mark.1) ++ mark.2) =
      dir.take (dir.length - (xs.foldl (pass dot) mark).1) ++ (xs.foldl (pass dot) mark).2 := by
  induction xs generalizing mark with
  | nil => rfl
  | cons x xs ih => rw [List.foldl_cons, List.foldl_cons, move_take, ih]

lemma resolve_append (cwd : List (List α)) (root rest : List α) :
    resolve sep dot cwd (root ++ sep :: rest) =
      (components sep rest).foldl (move dot) (resolve sep dot cwd root) := by
  rw [resolve, resolve, components, List.splitOnP_append_cons _ _ (by simp), List.foldl_append]
  cases root with
  | nil => simp [components]
  | cons b root => simp [components]

lemma inside_append_iff (cwd : List (List α)) (root : List α) {rest : List α} (h : ∀ x ∈ rest.head?, x = sep) :
    Inside sep dot cwd root (root ++ rest) ↔
      (resolve sep dot cwd root).drop ((resolve sep dot cwd root).length - (net sep dot rest).1) <+:
        (net sep dot rest).2 := by
  cases rest with
  | nil =>
    have hnet : net sep dot [] = (0, []) := by simp [net, components, pass]
    rw [hnet, List.append_nil, Nat.sub_zero, List.drop_length]
    exact iff_of_true (List.prefix_refl _) (List.prefix_refl _)
  | cons x rest =>
    obtain rfl := h x rfl
    have hnet : net x dot (x :: rest) = net x dot rest := by simp [net, components, List.splitOnP_cons_eq_if_modifyHead, pass]
    rw [Inside, resolve_append, hnet]
    generalize resolve x dot cwd root = dir
    have hfold : (components x rest).foldl (move dot) (dir.take (dir.length - 0) ++ []) = _ :=
      foldl_move dir (0, []) (components x rest)
    rw [Nat.sub_zero, List.take_length, List.append_nil, ← net] at hfold
    rw [hfold]
    conv_lhs => lhs; rw [← List.take_append_drop (dir.length - (net x dot rest).1) dir]
    rw [List.prefix_append_right_inj]

lemma inside_of_not_climbs (cwd : List (List α)) (root : List α) {rest : List α} (h : ∀ x ∈ rest.head?, x = sep)
    (hnet : (net sep dot rest).1 = 0) : Inside sep dot cwd root (root ++ rest) := by
  rw [inside_append_iff cwd root h, hnet, Nat.sub_zero, List.drop_length]
  exact List.nil_prefix

end OceanServer.Library.LexicalPath
