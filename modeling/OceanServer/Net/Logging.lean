import OceanServer.Net.Logger

/-! Events that go through a `Logger` of `ocean_net` to its appenders, among calls that change the logger. -/

namespace OceanServer.Net

inductive LogLevel where
  | unknown
  | debug
  | info
  | warn
  | error
  | fatal
  deriving DecidableEq, Repr

def LogLevel.value : LogLevel → ℤ
  | unknown => 0
  | debug => 1
  | info => 2
  | warn => 3
  | error => 4
  | fatal => 5

variable {A F E : Type}

/-- The items write to a stream of their own, and an empty string is returned. -/
def format (_formatter : F) (_event : E) : String := ""

structure Settings (A F : Type) where
  logger : Logger A F
  -- the level of the logger, which its constructor does not set
  level : ℤ
  levels : A → ℤ

inductive Op (A F E : Type) where
  | call (c : Call A F)
  | setLogLevel (val : LogLevel)
  | setLevel (a : A) (val : LogLevel)
  | log (level : LogLevel) (event : E)

namespace Settings

def start (level : ℤ) : Settings A F := ⟨.new, level, fun _ => LogLevel.debug.value⟩

variable [DecidableEq A]

/-- An appender writes what its formatter makes of the event; `none` stands for a call through a null pointer. -/
def append (s : Settings A F) (level : LogLevel) (event : E) (out : A → String) (a : A) :
    Option (A → String) :=
  if s.levels a ≤ level.value then
    match (s.logger.appender a).formatter with
    | none => none
    | some f => some (Function.update out a (out a ++ format f event))
  else some out

def log (s : Settings A F) (level : LogLevel) (event : E) (out : A → String) : Option (A → String) :=
  if s.level ≤ level.value then s.logger.appenders.foldlM (s.append level event) out else some out

def apply (s : Settings A F) : Op A F E → Settings A F
  | .call c => { s with logger := s.logger.call c }
  | .setLogLevel val => { s with level := val.value }
  | .setLevel a val => { s with levels := Function.update s.levels a val.value }
  | .log _ _ => s

end Settings

section Runs

variable [DecidableEq A]

def Op.run (s : Settings A F × (A → String)) : Op A F E → Option (Settings A F × (A → String))
  | .log level event => (s.1.log level event s.2).map (s.1, ·)
  | op => some (s.1.apply op, s.2)

def logging (level : ℤ) (ops : List (Op A F E)) : Option (Settings A F × (A → String)) :=
  ops.foldlM Op.run (.start level, fun _ => "")

def Op.callOf : Op A F E → Option (Call A F)
  | .call c => some c
  | _ => none

def settings (level : ℤ) (ops : List (Op A F E)) : Settings A F := ops.foldl Settings.apply (.start level)

def Call.NonNull : Call A F → Prop
  | .setLogFormatter val => val ≠ none
  | .setAppenderFormatter _ val => val ≠ none
  | _ => True

structure Given (calls : List (Call A F)) : Prop where
  logger : (Logger.after calls).formatter = none ↔ ∀ f, Call.setLogFormatter (some f) ∉ calls
  unset : ∀ a, ((Logger.after calls).appender a).formatter = none →
    (∀ f, Call.setAppenderFormatter a (some f) ∉ calls) ∧
      (a ∈ (Logger.after calls).appenders → (Logger.after calls).formatter = none)
  source : ∀ a, (∀ f, Call.setLogFormatter (some f) ∉ calls) → (∀ f, Call.setAppenderFormatter a (some f) ∉ calls) →
    ((Logger.after calls).appender a).formatter = none

variable {calls : List (Call A F)} {a : A}

lemma Given.add (h : Given calls) (a : A) : Given (calls ++ [.addAppender a]) := by
  have hformatter (b : A) : ((Logger.after (calls ++ [.addAppender a])).appender b).formatter =
      if b = a then ((Logger.after calls).appender a).formatter.or (Logger.after calls).formatter
      else ((Logger.after calls).appender b).formatter := by
    rw [Logger.after_append, Logger.call, Logger.addAppender_formatter]
  have hlogger : (Logger.after (calls ++ [.addAppender a])).formatter = (Logger.after calls).formatter := by
    rw [Logger.after_append, Logger.call, Logger.addAppender_logger]
  have hlist : (Logger.after (calls ++ [.addAppender a])).appenders = (Logger.after calls).appenders ++ [a] := by
    rw [Logger.after_append, Logger.call, Logger.addAppender_appenders]
  refine ⟨by simpa [hlogger] using h.logger, fun b hb => ?_, fun b hset hown => ?_⟩
  · rw [hformatter] at hb
    rw [hlogger, hlist]
    by_cases hba : b = a
    · rw [if_pos hba, Option.or_eq_none_iff, ← hba] at hb
      exact ⟨by simpa using (h.unset b hb.1).1, fun _ => hb.2⟩
    · rw [if_neg hba] at hb
      obtain ⟨hown, hattached⟩ := h.unset b hb
      exact ⟨by simpa using hown, fun hmem => hattached (by simpa [hba] using hmem)⟩
  · have hbefore : ∀ f, Call.setLogFormatter (some f) ∉ calls := by simpa using hset
    have hnone := h.source b hbefore (by simpa using hown)
    rw [hformatter]
    by_cases hba : b = a
    · subst hba
      rw [if_pos rfl, hnone, h.logger.mpr hbefore]
      rfl
    · rw [if_neg hba, hnone]

lemma Given.del (h : Given calls) (a : A) : Given (calls ++ [.delAppender a]) := by
  refine ⟨by simpa [Logger.after_append] using! h.logger, fun b hb => ?_, fun b hset hown => ?_⟩
  · rw [Logger.after_append] at hb ⊢
    obtain ⟨hown, hattached⟩ := h.unset b hb
    exact ⟨by simpa using hown, fun hmem => hattached (List.mem_of_mem_erase hmem)⟩
  · rw [Logger.after_append]
    exact h.source b (by simpa using hset) (by simpa using hown)

lemma Given.setLogFormatter (h : Given calls) (f : F) : Given (calls ++ [.setLogFormatter (some f)]) := by
  have hlogger : (Logger.after (calls ++ [.setLogFormatter (some f)])).formatter = some f := by
    rw [Logger.after_append]
    rfl
  have hsome : ¬∀ g, Call.setLogFormatter (some g) ∉ calls ++ [.setLogFormatter (some f)] :=
    fun hset => hset f (by simp)
  refine ⟨iff_of_false (by simp [hlogger]) hsome, fun b hb => ?_, fun b hset _ => absurd hset hsome⟩
  rw [setLogFormatter_formatter] at hb
  have hmem : b ∉ (Logger.after calls).appenders := by
    intro hmem
    rw [if_pos hmem] at hb
    cases hb
  rw [if_neg hmem] at hb
  rw [Logger.after_append]
  exact ⟨by simpa using (h.unset b hb).1, fun hmem' => absurd hmem' hmem⟩

lemma Given.setAppenderFormatter (h : Given calls) (a : A) (f : F) :
    Given (calls ++ [.setAppenderFormatter a (some f)]) := by
  refine ⟨by simpa [Logger.after_append] using! h.logger, fun b hb => ?_, fun b hset hown => ?_⟩
  · rw [setAppenderFormatter_formatter] at hb
    have hba : b ≠ a := by
      rintro rfl
      rw [if_pos rfl] at hb
      cases hb
    rw [if_neg hba] at hb
    obtain ⟨hown, hattached⟩ := h.unset b hb
    rw [Logger.after_append]
    exact ⟨by simpa [hba] using hown, hattached⟩
  · have hba : b ≠ a := by
      rintro rfl
      exact hown f (by simp)
    rw [setAppenderFormatter_formatter, if_neg hba]
    exact h.source b (by simpa using hset) fun g hg => hown g (List.mem_append_left _ hg)

lemma given (hcalls : ∀ c ∈ calls, c.NonNull) : Given calls := by
  induction calls using List.reverseRecOn with
  | nil => exact ⟨by simp [Logger.after, Logger.new], fun _ _ => ⟨by simp, fun _ => rfl⟩, fun _ _ _ => rfl⟩
  | append_singleton calls c ih =>
    have h := ih fun c' hc' => hcalls c' (List.mem_append_left _ hc')
    have hc := hcalls c (by simp)
    cases c with
    | addAppender a => exact h.add a
    | delAppender a => exact h.del a
    | setLogFormatter val =>
      obtain ⟨f, rfl⟩ := Option.ne_none_iff_exists'.mp hc
      exact h.setLogFormatter f
    | setAppenderFormatter a val =>
      obtain ⟨f, rfl⟩ := Option.ne_none_iff_exists'.mp hc
      exact h.setAppenderFormatter a f

lemma Given.appender_iff (h : Given calls) (ha : a ∈ (Logger.after calls).appenders) :
    ((Logger.after calls).appender a).formatter ≠ none ↔
      (∃ f, Call.setLogFormatter (some f) ∈ calls) ∨ ∃ f, Call.setAppenderFormatter a (some f) ∈ calls := by
  rw [ne_eq, ← not_iff_not, not_not, not_or, not_exists, not_exists]
  constructor
  · intro hnone
    obtain ⟨hown, hattached⟩ := h.unset a hnone
    exact ⟨h.logger.mp (hattached ha), hown⟩
  · rintro ⟨hset, hown⟩
    exact h.source a hset hown

section Log

variable {s : Settings A F} {level : LogLevel} {event : E}

def Settings.Ready (s : Settings A F) (level : LogLevel) : Prop :=
  s.level ≤ level.value → ∀ a ∈ s.logger.appenders, s.levels a ≤ level.value → (s.logger.appender a).formatter ≠ none

lemma append_iff {out out' : A → String} : s.append level event out a = some out' ↔
    out' = out ∧ (s.levels a ≤ level.value → (s.logger.appender a).formatter ≠ none) := by
  rw [Settings.append]
  split
  · rename_i hle
    cases hf : (s.logger.appender a).formatter with
    | none => simp [hle]
    | some f => simp [hle, format, eq_comm]
  · rename_i hle
    simp [hle, eq_comm]

lemma foldlM_append_iff (xs : List A) {out out' : A → String} : xs.foldlM (s.append level event) out = some out' ↔
    out' = out ∧ ∀ a ∈ xs, s.levels a ≤ level.value → (s.logger.appender a).formatter ≠ none := by
  induction xs generalizing out with
  | nil => simp [eq_comm]
  | cons a xs ih =>
    simp only [List.foldlM_cons, Option.bind_eq_bind, Option.bind_eq_some_iff, append_iff, ih, List.forall_mem_cons]
    grind

lemma log_iff {out out' : A → String} : s.log level event out = some out' ↔ out' = out ∧ s.Ready level := by
  rw [Settings.log, Settings.Ready]
  split
  · rename_i hle
    simp only [foldlM_append_iff, hle, true_imp_iff]
  · rename_i hle
    simp [hle, eq_comm]

end Log

lemma settings_append (level : ℤ) (ops : List (Op A F E)) (op : Op A F E) :
    settings level (ops ++ [op]) = (settings level ops).apply op := by
  rw [settings, List.foldl_append]
  rfl

lemma settings_logger (level : ℤ) (ops : List (Op A F E)) :
    (settings level ops).logger = Logger.after (ops.filterMap Op.callOf) := by
  induction ops using List.reverseRecOn with
  | nil => rfl
  | append_singleton ops op ih =>
    rw [settings_append, List.filterMap_append]
    cases op with
    | call c => exact (congrArg (Logger.call · c) ih).trans (Logger.after_append _ c).symm
    | setLogLevel val => exact ih.trans (congrArg Logger.after (List.append_nil _).symm)
    | setLevel a val => exact ih.trans (congrArg Logger.after (List.append_nil _).symm)
    | log level event => exact ih.trans (congrArg Logger.after (List.append_nil _).symm)

omit [DecidableEq A] in
lemma mem_calls {ops : List (Op A F E)} {c : Call A F} : c ∈ ops.filterMap Op.callOf ↔ .call c ∈ ops := by
  rw [List.mem_filterMap]
  constructor
  · rintro ⟨op, hop, hc⟩
    cases op with
    | call c' =>
      cases hc
      exact hop
    | setLogLevel val => cases hc
    | setLevel a val => cases hc
    | log level event => cases hc
  · exact fun hc => ⟨_, hc, rfl⟩

lemma run_iff {s : Settings A F} {op : Op A F E} {r : Settings A F × (A → String)} {out : A → String} :
    op.run (s, out) = some r ↔ r = (s.apply op, out) ∧ ∀ v e, op = .log v e → s.Ready v := by
  cases op with
  | call c => simp [Op.run, eq_comm]
  | setLogLevel val => simp [Op.run, eq_comm]
  | setLevel a val => simp [Op.run, eq_comm]
  | log v e =>
    rw [Op.run, Option.map_eq_some_iff]
    simp only [log_iff]
    constructor
    · rintro ⟨_, ⟨rfl, hready⟩, rfl⟩
      refine ⟨rfl, fun v' e' h => ?_⟩
      cases h
      exact hready
    · rintro ⟨rfl, hready⟩
      exact ⟨out, ⟨rfl, hready v e rfl⟩, rfl⟩

lemma logging_append (level : ℤ) (ops : List (Op A F E)) (op : Op A F E) :
    logging level (ops ++ [op]) = (logging level ops).bind op.run := by
  rw [logging, logging, List.foldlM_append]
  simp

lemma logging_iff (level : ℤ) (ops : List (Op A F E)) (r : Settings A F × (A → String)) :
    logging level ops = some r ↔ r = (settings level ops, fun _ => "") ∧
      ∀ pre v e, pre ++ [.log v e] <+: ops → (settings level pre).Ready v := by
  induction ops using List.reverseRecOn generalizing r with
  | nil =>
    have hnone : ∀ pre v e, ¬(pre ++ [Op.log v e] : List (Op A F E)) <+: [] := by
      intro pre v e h
      simp at h
    constructor
    · intro h
      cases h
      exact ⟨rfl, fun pre v e h => absurd h (hnone pre v e)⟩
    · rintro ⟨rfl, -⟩
      rfl
  | append_singleton ops op ih =>
    rw [logging_append, Option.bind_eq_some_iff, settings_append]
    simp only [ih, List.prefix_concat_iff]
    constructor
    · rintro ⟨_, ⟨rfl, hready⟩, hrun⟩
      obtain ⟨rfl, hop⟩ := run_iff.mp hrun
      refine ⟨rfl, fun pre v e hpre => ?_⟩
      rcases hpre with hpre | hpre
      · obtain ⟨rfl, hlast⟩ := List.append_inj' hpre rfl
        exact hop v e (List.singleton_inj.mp hlast).symm
      · exact hready pre v e hpre
    · rintro ⟨rfl, hready⟩
      refine ⟨_, ⟨rfl, fun pre v e hpre => hready pre v e (.inr hpre)⟩, run_iff.mpr ⟨rfl, ?_⟩⟩
      rintro v e rfl
      exact hready ops v e (.inl rfl)

/-- A run of calls that pass no null pointer reaches a null formatter just at an event that some appender takes
before that appender or the logger was given a formatter; and no event ever writes anything. -/
theorem logging_runs_iff (level : ℤ) (ops : List (Op A F E)) (hops : ∀ c, .call c ∈ ops → c.NonNull) :
    ((logging level ops).isSome ↔ ∀ pre v e, pre ++ [.log v e] <+: ops → (settings level pre).level ≤ v.value →
      (∃ f, .call (.setLogFormatter (some f)) ∈ pre) ∨
        ∀ a ∈ (settings level pre).logger.appenders, (settings level pre).levels a ≤ v.value →
          ∃ f, .call (.setAppenderFormatter a (some f)) ∈ pre) ∧
      ∀ r ∈ logging level ops, ∀ a, r.2 a = "" := by
  constructor
  · rw [Option.isSome_iff_exists]
    simp only [logging_iff, exists_eq_left]
    refine forall₃_congr fun pre v e => imp_congr_right fun hpre => ?_
    have hgiven : Given (pre.filterMap Op.callOf) := by
      apply given
      intro c hc
      exact hops c (hpre.subset (List.mem_append_left _ (mem_calls.mp hc)))
    rw [Settings.Ready]
    refine imp_congr_right fun _ => ?_
    rw [settings_logger]
    constructor
    · intro hready
      by_cases hset : ∃ f, .call (.setLogFormatter (some f)) ∈ pre
      · exact .inl hset
      · refine .inr fun a ha hle => ?_
        rcases (hgiven.appender_iff ha).mp (hready a ha hle) with ⟨f, hf⟩ | ⟨f, hf⟩
        · exact absurd ⟨f, mem_calls.mp hf⟩ hset
        · exact ⟨f, mem_calls.mp hf⟩
    · intro h a ha hle
      rw [hgiven.appender_iff ha]
      rcases h with ⟨f, hf⟩ | h
      · exact .inl ⟨f, mem_calls.mpr hf⟩
      · obtain ⟨f, hf⟩ := h a ha hle
        exact .inr ⟨f, mem_calls.mpr hf⟩
  · intro r hr a
    rw [((logging_iff level ops r).mp hr).1]

def unformatted : List (Op ℕ Char Unit) := [.call (.addAppender 0), .setLevel 0 .warn, .log .info ()]

theorem logging_runs_unformatted : ¬(logging 0 (unformatted ++ [.log .error ()])).isSome := by
  intro hsome
  have hops : ∀ c, .call c ∈ unformatted ++ [.log .error ()] → c.NonNull := by
    intro c hc
    obtain rfl : c = .addAppender 0 := by simpa [unformatted] using hc
    trivial
  rcases (logging_runs_iff 0 _ hops).1.mp hsome unformatted .error () List.prefix_rfl (by decide) with ⟨f, hf⟩ | hown
  · simp [unformatted] at hf
  · obtain ⟨f, hf⟩ := hown 0 (by decide) (by decide)
    simp [unformatted] at hf

end Runs

end OceanServer.Net
