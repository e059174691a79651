import Mathlib.Tactic

/-! What the service uses of Redis and of its client: commands made from a format, and `SET`, `DEL` and
`MGET` without expiry. -/

namespace OceanServer.Im

abbrev Text := List Char

namespace Redis

/-- The components of a command. A space outside of the arguments ends one; an argument stays in its
component whatever it holds. -/
def addCommand : Text → List Text → Option Text → List Text
  | [], _, cur => cur.toList
  | ' ' :: fmt, args, cur => cur.toList ++ addCommand fmt args none
  | '%' :: 'l' :: 'd' :: fmt, arg :: args, cur => addCommand fmt args (some (cur.getD [] ++ arg))
  | '%' :: 's' :: fmt, arg :: args, cur => addCommand fmt args (some (cur.getD [] ++ arg))
  | c :: fmt, args, cur => addCommand fmt args (some (cur.getD [] ++ [c]))

def command (fmt : String) (args : List Text) : List Text := addCommand fmt.toList args none

abbrev Store := Text → Option Text

inductive Reply where
  | status (text : Text)
  | integer (n : ℕ)
  | error
  | array (items : List (Option Text))
  deriving DecidableEq, Repr

def set (s : Store) : List Text → Store × Reply
  | key :: value :: _ => (Function.update s key (some value), .status "OK".toList)
  | _ => (s, .error)

def del (s : Store) : List Text → Store × Reply
  | [] => (s, .error)
  | keys => (fun k => if k ∈ keys then none else s k, .integer (keys.dedup.countP fun k => (s k).isSome))

def mget (s : Store) : List Text → Store × Reply
  | [] => (s, .error)
  | keys => (s, .array (keys.map s))

def execute (s : Store) : List Text → Store × Reply
  | [] => (s, .error)
  | name :: args =>
    if name = "SET".toList then set s args
    else if name = "DEL".toList then del s args
    else if name = "MGET".toList then mget s args
    else (s, .error)

def Reply.size (errorSize : ℕ) : Reply → ℕ
  -- `size` of a reply. For an error its declaration promises 0 and its definition returns the length of the
  -- text.
  | .status text => text.length
  | .integer _ => 0
  | .error => errorSize
  | .array items => items.length

lemma addCommand_cons {c : Char} (hc : c ≠ ' ') (w : Text) (cur : Option Text) :
    addCommand (c :: w) [] cur = addCommand w [] (some (cur.getD [] ++ [c])) := by
  rw [addCommand]
  · exact hc
  all_goals
    -- there is no argument for a specifier
    intro _ _ _ hargs
    cases hargs

lemma addCommand_word {w : Text} (h : ∀ c ∈ w, c ≠ ' ') (cur : Text) : addCommand w [] (some cur) = [cur ++ w] := by
  induction w generalizing cur with
  | nil => simp [addCommand]
  | cons c w ih =>
    obtain ⟨hc, hw⟩ := List.forall_mem_cons.mp h
    rw [addCommand_cons hc, ih hw]
    simp

lemma addCommand_append {w : Text} (h : ∀ c ∈ w, c ≠ ' ') (cur rest : Text) :
    addCommand (w ++ ' ' :: rest) [] (some cur) = (cur ++ w) :: addCommand rest [] none := by
  induction w generalizing cur with
  | nil => simp [addCommand]
  | cons c w ih =>
    obtain ⟨hc, hw⟩ := List.forall_mem_cons.mp h
    rw [List.cons_append, addCommand_cons hc, ih hw]
    simp

lemma addCommand_start {c : Char} {w : Text} (h : ∀ d ∈ c :: w, d ≠ ' ') : addCommand (c :: w) [] none = [c :: w] := by
  obtain ⟨hc, hw⟩ := List.forall_mem_cons.mp h
  rw [addCommand_cons hc]
  exact addCommand_word hw [c]

lemma addCommand_words {ws : List Text} (hne : ∀ w ∈ ws, w ≠ []) (h : ∀ w ∈ ws, ∀ c ∈ w, c ≠ ' ') :
    addCommand ([' '].intercalate ws) [] none = ws := by
  induction ws with
  | nil => rfl
  | cons w ws ih =>
    obtain ⟨hw, hws⟩ := List.forall_mem_cons.mp h
    obtain ⟨hwne, hwsne⟩ := List.forall_mem_cons.mp hne
    cases w with
    | nil => exact absurd rfl hwne
    | cons c w =>
      obtain ⟨hc, hrest⟩ := List.forall_mem_cons.mp hw
      cases ws with
      | nil => simpa using addCommand_start hw
      | cons v ws =>
        rw [List.intercalate_cons_cons, List.cons_append, List.cons_append, addCommand_cons hc]
        simpa using (addCommand_append hrest [c] _).trans (congrArg _ (ih hwsne hws))

lemma execute_mget (s : Store) (keys : List Text) : execute s ("MGET".toList :: keys) = mget s keys := by
  rw [execute, if_neg (by decide), if_neg (by decide), if_pos rfl]

end Redis

end OceanServer.Im
