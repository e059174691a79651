import Mathlib.Tactic

/-! The formatters of a `Logger` of `ocean_net` and of its appenders. A `shared_ptr` to a formatter is an
option, `none` when it is null. -/

namespace OceanServer.Net

variable {A F : Type}

structure LogAppender (F : Type) where
  formatter : Option F
  hasFormatter : Bool
  deriving DecidableEq, Repr

def LogAppender.setLogFormatter (a : LogAppender F) (val : Option F) : LogAppender F := { a with formatter := val }

structure Logger (A F : Type) where
  appenders : List A
  formatter : Option F
  appender : A → LogAppender F

inductive Call (A F : Type) where
  | addAppender (a : A)
  | delAppender (a : A)
  | setLogFormatter (val : Option F)
  | setAppenderFormatter (a : A) (val : Option F)
  deriving DecidableEq, Repr

namespace Logger

def new : Logger A F := ⟨[], none, fun _ => ⟨none, false⟩⟩

variable [DecidableEq A]

def addAppender (l : Logger A F) (a : A) : Logger A F where
  appenders := l.appenders ++ [a]
  formatter := l.formatter
  appender :=
    if (l.appender a).formatter.isNone then
      Function.update l.appender a { l.appender a with formatter := l.formatter }
    else l.appender

def delAppender (l : Logger A F) (a : A) : Logger A F := { l with appenders := l.appenders.erase a }

def give (val : Option F) (objects : A → LogAppender F) (a : A) : A → LogAppender F :=
  if !(objects a).hasFormatter then Function.update objects a { objects a with formatter := val } else objects

def setLogFormatter (l : Logger A F) (val : Option F) : Logger A F :=
  { l with formatter := val, appender := l.appenders.foldl (give val) l.appender }

def setAppenderFormatter (l : Logger A F) (a : A) (val : Option F) : Logger A F :=
  { l with appender := Function.update l.appender a ((l.appender a).setLogFormatter val) }

def call (l : Logger A F) : Call A F → Logger A F
  | .addAppender a => l.addAppender a
  | .delAppender a => l.delAppender a
  | .setLogFormatter val => l.setLogFormatter val
  | .setAppenderFormatter a val => l.setAppenderFormatter a val

def after (calls : List (Call A F)) : Logger A F := calls.foldl call new

lemma after_append (calls : List (Call A F)) (c : Call A F) : after (calls ++ [c]) = (after calls).call c := by
  rw [after, List.foldl_append]
  rfl

@[simp] lemma addAppender_appenders (l : Logger A F) (a : A) : (l.addAppender a).appenders = l.appenders ++ [a] := rfl

@[simp] lemma addAppender_logger (l : Logger A F) (a : A) : (l.addAppender a).formatter = l.formatter := rfl

@[simp] lemma setLogFormatter_appenders (l : Logger A F) (val : Option F) :
    (l.setLogFormatter val).appenders = l.appenders := rfl

lemma addAppender_formatter (l : Logger A F) (a b : A) : ((l.addAppender a).appender b).formatter =
    if b = a then (l.appender a).formatter.or l.formatter else (l.appender b).formatter := by
  simp only [addAppender]
  by_cases hb : b = a
  · subst hb
    cases hf : (l.appender b).formatter with
    | none => simp
    | some f => simp [hf]
  · cases hf : (l.appender a).formatter with
    | none => simp [hb]
    | some f => simp [hb]

lemma give_eq {val : Option F} {objects : A → LogAppender F} {a : A} (h : (objects a).hasFormatter = false) :
    give val objects a = Function.update objects a ⟨val, false⟩ := by
  simp [give, h]

lemma foldl_give (val : Option F) (xs : List A) {objects : A → LogAppender F}
    (h : ∀ a, (objects a).hasFormatter = false) (b : A) :
    xs.foldl (give val) objects b = if b ∈ xs then ⟨val, false⟩ else objects b := by
  induction xs generalizing objects with
  | nil => simp
  | cons a xs ih =>
    have h' : ∀ c, (Function.update objects a ⟨val, false⟩ c).hasFormatter = false := by
      intro c
      by_cases hc : c = a
      · simp [hc]
      · simp [hc, h]
    rw [List.foldl_cons, give_eq (h a), ih h']
    by_cases hb : b = a
    · simp [hb]
    · simp [hb]

lemma after_hasFormatter (calls : List (Call A F)) (a : A) : ((after calls).appender a).hasFormatter = false := by
  induction calls using List.reverseRecOn generalizing a with
  | nil => rfl
  | append_singleton calls c ih =>
    rw [after_append]
    cases c with
    | addAppender b =>
      simp only [call, addAppender]
      split
      · by_cases hb : a = b
        · simp [hb, ih]
        · simp [hb, ih]
      · exact ih a
    | delAppender b => exact ih a
    | setLogFormatter val =>
      simp only [call, setLogFormatter, foldl_give val _ ih]
      split
      · rfl
      · exact ih a
    | setAppenderFormatter b val =>
      simp only [call, setAppenderFormatter, LogAppender.setLogFormatter]
      by_cases hb : a = b
      · simp [hb, ih]
      · simp [hb, ih]

end Logger

section Ownership

variable [DecidableEq A]

def Call.sets (a : A) : Call A F → Option (Option F)
  | .setAppenderFormatter b val => if b = a then some val else none
  | _ => none

def lastSet (calls : List (Call A F)) (a : A) : Option (Option F) := (calls.filterMap (Call.sets a)).getLast?

def Owned (calls : List (Call A F)) : Prop :=
  ∀ a ∈ (Logger.after calls).appenders,
    ((Logger.after calls).appender a).formatter = (lastSet calls a).getD (Logger.after calls).formatter

/-- The call neither takes an appender's own formatter away nor lists an appender with an old one. -/
def Respects (calls : List (Call A F)) : Call A F → Prop
  | .addAppender a =>
    match lastSet calls a with
    | some val => val = none → (Logger.after calls).formatter = none
    | none => ∀ f, ((Logger.after calls).appender a).formatter = some f → (Logger.after calls).formatter = some f
  | .setLogFormatter val => ∀ a ∈ (Logger.after calls).appenders, ∀ own, lastSet calls a = some own → own = val
  | .delAppender _ => True
  | .setAppenderFormatter _ _ => True

lemma lastSet_append (calls : List (Call A F)) (c : Call A F) (a : A) :
    lastSet (calls ++ [c]) a = (c.sets a).or (lastSet calls a) := by
  rw [lastSet, lastSet, List.filterMap_append]
  cases hc : c.sets a with
  | none => simp [List.filterMap, hc]
  | some val => simp [List.filterMap, hc]

structure Good (calls : List (Call A F)) : Prop where
  owned : Owned calls
  own : ∀ a val, lastSet calls a = some val → ((Logger.after calls).appender a).formatter = val

variable {calls : List (Call A F)} {a : A} {val : Option F}

lemma owned_add (h : Good calls) :
    Owned (calls ++ [.addAppender a]) ↔ Respects calls (.addAppender a) := by
  have hown : Owned (calls ++ [.addAppender a]) ↔
      ((Logger.after calls).appender a).formatter.or (Logger.after calls).formatter =
        (lastSet calls a).getD (Logger.after calls).formatter := by
    simp only [Owned, Logger.after_append, Logger.call, Logger.addAppender_formatter, lastSet_append, Call.sets,
      Option.none_or]
    constructor
    · intro ho
      simpa using ho a (by simp)
    · intro ha b hb
      by_cases hba : b = a
      · simpa [hba] using ha
      · rw [if_neg hba]
        exact h.owned b (by simpa [hba] using hb)
  rw [hown, Respects]
  cases hl : lastSet calls a with
  | none =>
    cases ((Logger.after calls).appender a).formatter with
    | none => simp
    | some f => simp [eq_comm]
  | some own =>
    rw [h.own a own hl]
    cases own with
    | none => simp
    | some f => simp

lemma owned_del (h : Good calls) : Owned (calls ++ [.delAppender a]) := by
  intro b hb
  rw [Logger.after_append] at hb ⊢
  rw [lastSet_append]
  exact h.owned b (List.mem_of_mem_erase hb)

lemma setLogFormatter_formatter (b : A) : ((Logger.after (calls ++ [.setLogFormatter val])).appender b).formatter =
    if b ∈ (Logger.after calls).appenders then val else ((Logger.after calls).appender b).formatter := by
  rw [Logger.after_append]
  simp only [Logger.call, Logger.setLogFormatter, Logger.foldl_give val _ (Logger.after_hasFormatter calls)]
  split
  · rfl
  · rfl

lemma owned_setLogFormatter : Owned (calls ++ [.setLogFormatter val]) ↔ Respects calls (.setLogFormatter val) := by
  have hlist : (Logger.after (calls ++ [.setLogFormatter val])).appenders = (Logger.after calls).appenders := by
    rw [Logger.after_append, Logger.call, Logger.setLogFormatter_appenders]
  have hval : (Logger.after (calls ++ [.setLogFormatter val])).formatter = val := by
    rw [Logger.after_append]
    rfl
  rw [Owned, hlist, hval, Respects]
  refine forall₂_congr fun b hb => ?_
  rw [setLogFormatter_formatter, if_pos hb, lastSet_append]
  cases lastSet calls b with
  | none => simp [Call.sets]
  | some own => simp [Call.sets, eq_comm]

lemma setAppenderFormatter_formatter (b : A) :
    ((Logger.after (calls ++ [.setAppenderFormatter a val])).appender b).formatter =
      if b = a then val else ((Logger.after calls).appender b).formatter := by
  rw [Logger.after_append]
  simp only [Logger.call, Logger.setAppenderFormatter, LogAppender.setLogFormatter]
  by_cases hb : b = a
  · simp [hb]
  · simp [hb]

lemma lastSet_setAppenderFormatter (b : A) : lastSet (calls ++ [.setAppenderFormatter a val]) b =
    if b = a then some val else lastSet calls b := by
  rw [lastSet_append, Call.sets]
  by_cases hb : b = a
  · simp [hb]
  · simp [hb, Ne.symm hb]

lemma owned_setAppenderFormatter (h : Good calls) : Owned (calls ++ [.setAppenderFormatter a val]) := by
  intro b hb
  rw [setAppenderFormatter_formatter, lastSet_setAppenderFormatter]
  rw [Logger.after_append] at hb ⊢
  by_cases hba : b = a
  · simp [hba]
  · simpa [hba] using! h.owned b hb

lemma owned_step (h : Good calls) (c : Call A F) : Owned (calls ++ [c]) ↔ Respects calls c := by
  cases c with
  | addAppender a => exact owned_add h
  | delAppender a => exact iff_of_true (owned_del h) trivial
  | setLogFormatter val => exact owned_setLogFormatter
  | setAppenderFormatter a val => exact iff_of_true (owned_setAppenderFormatter h) trivial

lemma Good.step (h : Good calls) {c : Call A F} (ho : Owned (calls ++ [c])) : Good (calls ++ [c]) := by
  refine ⟨ho, fun b own hb => ?_⟩
  by_cases hlist : b ∈ (Logger.after (calls ++ [c])).appenders
  · rw [ho b hlist, hb]
    rfl
  cases c with
  | addAppender a =>
    rw [Logger.after_append, Logger.call, Logger.addAppender_formatter]
    rw [Logger.after_append] at hlist
    have hba : b ≠ a := by
      rintro rfl
      exact hlist (by simp [Logger.call])
    rw [if_neg hba]
    exact h.own b own (by simpa [lastSet_append, Call.sets] using hb)
  | delAppender a =>
    rw [Logger.after_append]
    exact h.own b own (by simpa [lastSet_append, Call.sets] using hb)
  | setLogFormatter val =>
    rw [Logger.after_append, Logger.call, Logger.setLogFormatter_appenders] at hlist
    rw [setLogFormatter_formatter, if_neg hlist]
    exact h.own b own (by simpa [lastSet_append, Call.sets] using hb)
  | setAppenderFormatter a val =>
    rw [lastSet_setAppenderFormatter] at hb
    rw [setAppenderFormatter_formatter]
    by_cases hba : b = a
    · simpa [hba] using hb
    · rw [if_neg hba] at hb ⊢
      exact h.own b own hb

lemma good_nil : Good ([] : List (Call A F)) :=
  ⟨fun _ h => absurd h List.not_mem_nil, fun _ _ h => by cases h⟩

theorem formatter_owned_iff (calls : List (Call A F)) :
    (∀ pre, pre <+: calls → Owned pre) ↔ ∀ pre c, pre ++ [c] <+: calls → Respects pre c := by
  constructor
  · intro h pre c hpre
    have hgood : ∀ p, p <+: calls → Good p := by
      intro p hp
      induction p using List.reverseRecOn with
      | nil => exact good_nil
      | append_singleton p c ih => exact (ih ((List.prefix_append p [c]).trans hp)).step (h _ hp)
    exact (owned_step (hgood pre ((List.prefix_append pre [c]).trans hpre)) c).mp (h _ hpre)
  · intro h pre hpre
    have hgood : Good pre := by
      induction pre using List.reverseRecOn with
      | nil => exact good_nil
      | append_singleton pre c ih =>
        have hg := ih ((List.prefix_append pre [c]).trans hpre)
        exact hg.step ((owned_step hg c).mpr (h pre c hpre))
    exact hgood.owned

theorem explicit_formatter_taken_away :
    ¬ Owned [Call.addAppender 0, .setAppenderFormatter 0 (some 'a'), .setLogFormatter (some 'b')] := by
  intro h
  exact absurd (h 0 (by decide)) (by decide)

end Ownership

end OceanServer.Net
