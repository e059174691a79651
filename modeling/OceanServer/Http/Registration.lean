import OceanServer.Http.Accounts

/-! Registrations by several workers at once: each looks its name up in `users` and then enters the
section under `m_lock`, with any steps of the others in between. -/

namespace OceanServer.Http

open Library Library.CString

namespace Registration

inductive Place where
  | outside
  | absent (a : Account)
  deriving DecidableEq

structure Workers (I : Type) where
  accounts : Accounts
  place : I → Place
  inserted : List Account
  answers : List (Account × Page)

inductive Label (I : Type) where
  | lookup (i : I) (a : Account)
  | insert (i : I) (a : Account)

variable {I : Type}

def Workers.start (accounts : Accounts) : Workers I where
  accounts := accounts
  place := fun _ => .outside
  inserted := []
  answers := []

def Workers.logged (s : Workers I) : List Account :=
  (s.answers.filter fun r => r.2 = .log).map Prod.fst

structure Serial (s : Workers I) : Prop where
  answered : (s.logged.map Prod.fst).Nodup
  inserted : (s.inserted.map Prod.fst).Nodup
  stored : ∀ a ∈ s.inserted, s.accounts.users a.1 = some a.2

section Steps

variable [DecidableEq I]

inductive Step (s : Workers I) : Label I → Workers I → Prop
  | absent {i a} : s.place i = .outside → s.accounts.users a.1 = none →
      Step s (.lookup i a) { s with place := Function.update s.place i (.absent a) }
  | known {i a} : s.place i = .outside → s.accounts.users a.1 ≠ none →
      Step s (.lookup i a) { s with answers := s.answers ++ [(a, .registerError)] }
  | insert {i a} : s.place i = .absent a →
      Step s (.insert i a)
        { accounts := s.accounts.insert true a
          place := Function.update s.place i .outside
          inserted := s.inserted ++ [a]
          answers := s.answers ++ [(a, insertPage true)] }

def StillAbsent (s : Workers I) : Label I → Prop
  | .lookup _ _ => True
  | .insert _ a => s.accounts.users a.1 = none

structure Recorded (s : Workers I) : Prop where
  logged : s.logged = s.inserted
  found : ∀ a ∈ s.inserted, s.accounts.users a.1 ≠ none
  taken : ∀ i a, s.place i = .absent a → s.accounts.users a.1 ≠ none → ∃ b ∈ s.inserted, b.1 = a.1

end Steps

lemma logged_snoc (s : Workers I) (a : Account) (page : Page) :
    Workers.logged { s with answers := s.answers ++ [(a, page)] } =
      s.logged ++ if page = .log then [a] else [] := by
  by_cases h : page = .log <;> simp [Workers.logged, List.filter_append, h]

lemma serial_start (accounts : Accounts) : Serial (.start accounts : Workers I) :=
  ⟨List.nodup_nil, List.nodup_nil, fun _ h => nomatch h⟩

lemma recorded_start (accounts : Accounts) : Recorded (.start accounts : Workers I) :=
  ⟨rfl, fun _ h => (nomatch h), fun _ _ h => (nomatch h)⟩

variable [DecidableEq I] {s t : Workers I} {l : Label I}

lemma step_recorded (h : Step s l t) (hs : Recorded s) : Recorded t := by
  cases h with
  | @absent i a hi ha =>
    refine ⟨hs.logged, hs.found, fun j b hj hb => ?_⟩
    by_cases hji : j = i
    · subst hji
      cases (Function.update_self j _ s.place).symm.trans hj
      exact absurd ha hb
    · exact hs.taken j b ((Function.update_of_ne hji _ _).symm.trans hj) hb
  | known hi ha => exact ⟨(logged_snoc s _ _).trans ((List.append_nil _).trans hs.logged), hs.found, hs.taken⟩
  | @insert i a hi =>
    have hlog := logged_snoc s a (insertPage true)
    refine ⟨hlog.trans (congrArg (· ++ [a]) hs.logged), fun b hb => ?_, fun j b hj hb => ?_⟩
    · rcases List.mem_append.mp hb with hb | hb
      · exact users_insert_ne_none true a (hs.found b hb)
      · rw [List.mem_singleton.mp hb]
        exact users_insert_self s.accounts true a
    · by_cases hn : b.1 = a.1
      · exact ⟨a, List.mem_append_right _ (List.mem_singleton_self a), hn.symm⟩
      · have hji : j ≠ i := fun he => by
          subst he
          cases (Function.update_self j _ s.place).symm.trans hj
        obtain ⟨c, hc, hcb⟩ := hs.taken j b ((Function.update_of_ne hji _ _).symm.trans hj)
          (users_insert_of_ne s.accounts true hn ▸ hb)
        exact ⟨c, List.mem_append_left _ hc, hcb⟩

lemma nodup_snoc {rows : List Account} {a : Account} :
    ((rows ++ [a]).map Prod.fst).Nodup ↔ (rows.map Prod.fst).Nodup ∧ ∀ b ∈ rows, b.1 ≠ a.1 := by
  rw [List.map_append, List.map_singleton, List.nodup_append]
  simp

lemma step_serial (h : Step s l t) (hr : Recorded s) (hs : Serial s) : Serial t ↔ StillAbsent s l := by
  have hlog := (step_recorded h hr).logged
  cases h with
  | absent => exact iff_of_true ⟨hs.answered, hs.inserted, hs.stored⟩ trivial
  | known => exact iff_of_true ⟨by rw [hlog]; exact hs.inserted, hs.inserted, hs.stored⟩ trivial
  | @insert i a hi =>
    constructor
    · intro ht
      by_contra hold
      obtain ⟨b, hb, hba⟩ := hr.taken i a hi hold
      exact (nodup_snoc.mp ht.inserted).2 b hb hba
    · intro hnew
      have hne (b : Account) (hb : b ∈ s.inserted) : b.1 ≠ a.1 := fun he => hr.found b hb (he ▸ hnew)
      have hnd := nodup_snoc.mpr ⟨hs.inserted, hne⟩
      refine ⟨by rw [hlog]; exact hnd, hnd, fun b hb => ?_⟩
      rcases List.mem_append.mp hb with hb | hb
      · exact (users_insert_of_ne s.accounts true (hne b hb)).trans (hs.stored b hb)
      · rw [List.mem_singleton.mp hb]
        exact users_insert_new true hnew

lemma undisturbed {i : I} {a : Account} (hi : s.place i = .outside) :
    ∃ ls t, Trace Step s ls t ∧ t.accounts = (s.accounts.register true a).2 ∧
      t.answers = s.answers ++ [(a, (s.accounts.register true a).1)] := by
  unfold Accounts.register
  by_cases ha : s.accounts.users a.1 = none
  · rw [if_pos ha]
    have hl := Step.absent hi ha
    have ht := (Trace.nil.snoc hl).snoc (.insert (Function.update_self i _ _))
    exact ⟨_, _, ht, rfl, rfl⟩
  · rw [if_neg ha]
    have hl := Step.known hi ha
    exact ⟨_, _, Trace.nil.snoc hl, rfl, rfl⟩

theorem registrations_serial_iff (accounts : Accounts) (labels : List (Label I)) :
    Along Step (fun _ _ t => Serial t) (.start accounts) labels ↔
      Along Step (fun s l _ => StillAbsent s l) (.start accounts) labels := by
  have hstep (s : Workers I) (l : Label I) (t : Workers I) (hr : Recorded s) (hs : Serial s) (h : Step s l t) :
      Serial t ∧ True ↔ StillAbsent s l := by
    rw [and_true]
    exact step_serial h hr hs
  have hiff := along_iff (recorded_start accounts) (serial_start accounts)
    (fun _ _ _ hr h => step_recorded h hr) hstep labels
  simpa only [and_true] using hiff

theorem registrations_serial_race :
    ∃ t : Workers Bool,
      Trace Step (.start (initmysqlResult []))
        [.lookup true (ascii ['a'], ascii ['b']), .lookup false (ascii ['a'], ascii ['c']),
          .insert true (ascii ['a'], ascii ['b']), .insert false (ascii ['a'], ascii ['c'])] t ∧
      t.logged = [(ascii ['a'], ascii ['b']), (ascii ['a'], ascii ['c'])] ∧
      t.accounts.table = [(ascii ['a'], ascii ['b']), (ascii ['a'], ascii ['c'])] ∧
      t.accounts.users (ascii ['a']) = some (ascii ['b']) ∧ ¬ Serial t := by
  refine ⟨_, (((Trace.nil.snoc (.absent rfl rfl)).snoc (.absent rfl rfl)).snoc (.insert rfl)).snoc (.insert rfl),
    rfl, rfl, rfl, fun h => ?_⟩
  exact absurd h.inserted (by decide)

end Registration

end OceanServer.Http
