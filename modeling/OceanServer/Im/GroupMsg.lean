import OceanServer.Im.LastSend

/-! What `SaveGroupMsg` leaves behind when an INSERT throws or Redis does not answer. -/

namespace OceanServer.Im.LastSend

variable {P : Type} [DecidableEq P]

section Inserts

def appended (xs : List (P × List Row)) (t : P → List Row) : P → List Row :=
  fun p => t p ++ (xs.filter (·.1 = p)).flatMap (·.2)

lemma appended_cons (x : P × List Row) (xs : List (P × List Row)) (t : P → List Row) :
    appended (x :: xs) t = appended xs (Function.update t x.1 (t x.1 ++ x.2)) := by
  funext p
  by_cases hp : x.1 = p
  · subst hp
    simp [appended]
  · simp [appended, hp, Function.update_of_ne (Ne.symm hp)]

lemma insertAll_take {throws : ℕ → Bool} {i k : ℕ} {xs : List (P × List Row)} (t : P → List Row)
    (hk : k ≤ xs.length) (hquiet : ∀ j < k, throws (i + j) = false) :
    insertAll throws i xs t = insertAll throws (i + k) (xs.drop k) (appended (xs.take k) t) := by
  induction k generalizing i xs t with
  | zero =>
    have hnil : appended [] t = t := by
      funext p
      simp [appended]
    simp [hnil]
  | succ k ih =>
    cases xs with
    | nil => cases hk
    | cons x xs =>
      have hi : throws i = false := hquiet 0 k.succ_pos
      have hrest : ∀ j < k, throws (i + 1 + j) = false := by
        intro j hj
        rw [Nat.add_right_comm]
        exact hquiet (j + 1) (Nat.succ_lt_succ hj)
      simp only [insertAll, hi, Bool.false_eq_true, if_false, List.drop_succ_cons, List.take_succ_cons, appended_cons]
      rw [ih _ (Nat.le_of_succ_le_succ hk) hrest, Nat.add_right_comm]
      rfl

variable {throws : ℕ → Bool} {xs : List (P × List Row)}

lemma insertAll_all (t : P → List Row) (hquiet : ∀ j < xs.length, throws j = false) :
    insertAll throws 0 xs t = (true, appended xs t) := by
  rw [insertAll_take t le_rfl (by simpa using hquiet)]
  simp [insertAll]

lemma insertAll_throws {k : ℕ} (t : P → List Row) (hk : k < xs.length) (hquiet : ∀ j < k, throws j = false)
    (hthrow : throws k = true) : insertAll throws 0 xs t = (false, appended (xs.take k) t) := by
  rw [insertAll_take t hk.le (by simpa using hquiet), List.drop_eq_getElem_cons hk]
  simp [insertAll, hthrow]

end Inserts

section GroupMsg

variable (zone : Zone) (chooseDatabase : ℤ → P)

structure AllOrNothing (m : NewGroupMsg) (s : Dbproxy P) (r : Bool × Dbproxy P) : Prop where
  failed : r.1 = false → r.2.messages = s.messages ∧ r.2.lastSend = s.lastSend
  saved : r.1 = true → ∀ x ∈ m.userAndMsgids, ∀ p, ∃ added, r.2.messages p = s.messages p ++ added ∧
    added.filter (fun row => row.userId = x.userId ∧ row.msgId = x.msgId) =
      if p = chooseDatabase x.userId then [m.row zone x] else []

def NewGroupMsg.stored (m : NewGroupMsg) (xs : List UserAndMsgId) (s : Dbproxy P) : Dbproxy P :=
  ⟨fun p => s.messages p ++ (xs.filter (chooseDatabase ·.userId = p)).map (m.row zone), s.lastSend⟩

variable {zone chooseDatabase} {m : NewGroupMsg} {s : Dbproxy P} {throws : ℕ → Bool} {redis : Bool}

lemma appended_group (xs : List UserAndMsgId) :
    appended (xs.map fun x => (chooseDatabase x.userId, [m.row zone x])) s.messages =
      (m.stored zone chooseDatabase xs s).messages := by
  funext p
  induction xs with
  | nil => simp [appended, NewGroupMsg.stored]
  | cons x xs ih =>
    simp only [appended, NewGroupMsg.stored, List.append_cancel_left_eq] at ih ⊢
    by_cases hp : chooseDatabase x.userId = p <;> simp [hp, ih]

lemma rows_of_member (xs : List UserAndMsgId) (x : UserAndMsgId) (p : P) :
    ((xs.filter (chooseDatabase ·.userId = p)).map (m.row zone)).filter
        (fun row => row.userId = x.userId ∧ row.msgId = x.msgId) =
      if p = chooseDatabase x.userId then List.replicate (xs.count x) (m.row zone x) else [] := by
  have hrow : ∀ y, (m.row zone y).userId = x.userId ∧ (m.row zone y).msgId = x.msgId ↔ y = x := by
    intro y
    cases x
    cases y
    simp [NewGroupMsg.row]
  simp only [List.filter_map, List.filter_filter, Function.comp_def, hrow]
  by_cases hp : p = chooseDatabase x.userId
  · have hx : ∀ y, (decide (y = x) && decide (chooseDatabase y.userId = p)) = (y == x) := by
      intro y
      by_cases hy : y = x <;> simp [hy, hp]
    simp only [hx, List.filter_beq, List.map_replicate, if_pos hp]
  · rw [if_neg hp, List.map_eq_nil_iff, List.filter_eq_nil_iff]
    rintro y - hy
    simp only [Bool.and_eq_true, decide_eq_true_eq] at hy
    obtain ⟨rfl, hy⟩ := hy
    exact hp hy.symm

lemma stored_ne {xs : List UserAndMsgId} (h : xs ≠ []) :
    (m.stored zone chooseDatabase xs s).messages ≠ s.messages := by
  cases xs with
  | nil => exact absurd rfl h
  | cons x xs =>
    intro heq
    have hp := congrFun heq (chooseDatabase x.userId)
    simp [NewGroupMsg.stored] at hp

lemma saveGroupMsg_throws {k : ℕ} (hk : k < m.userAndMsgids.length) (hquiet : ∀ j < k, throws j = false)
    (hthrow : throws k = true) :
    saveGroupMsg zone chooseDatabase throws redis m s =
      (false, m.stored zone chooseDatabase (m.userAndMsgids.take k) s) := by
  have hlen : k < (m.inserts zone chooseDatabase).length := by simpa [NewGroupMsg.inserts] using hk
  have h : insertAll throws 0 (m.inserts zone chooseDatabase) s.messages =
      (false, (m.stored zone chooseDatabase (m.userAndMsgids.take k) s).messages) := by
    rw [← appended_group, List.map_take]
    exact insertAll_throws s.messages hlen hquiet hthrow
  rw [saveGroupMsg, save, h]
  rfl

lemma saveGroupMsg_quiet (hquiet : ∀ j < m.userAndMsgids.length, throws j = false) :
    saveGroupMsg zone chooseDatabase throws redis m s = setUserLastSendData redis m.senderUserId
      ⟨m.senderMsgId, m.clientTime, m.msgTime⟩ (m.stored zone chooseDatabase m.userAndMsgids s) := by
  have hall : ∀ j < (m.inserts zone chooseDatabase).length, throws j = false := by
    simpa [NewGroupMsg.inserts] using hquiet
  have h : insertAll throws 0 (m.inserts zone chooseDatabase) s.messages =
      (true, (m.stored zone chooseDatabase m.userAndMsgids s).messages) := by
    rw [← appended_group]
    exact insertAll_all s.messages hall
  rw [saveGroupMsg, save, h]
  rfl

lemma exists_first_throw (throws : ℕ → Bool) (n : ℕ) :
    (∀ j < n, throws j = false) ∨ ∃ k < n, (∀ j < k, throws j = false) ∧ throws k = true := by
  induction n with
  | zero => simp
  | succ n ih =>
    obtain hquiet | ⟨k, hk, hfirst⟩ := ih
    · cases hn : throws n with
      | false =>
        refine .inl fun j hj => ?_
        obtain hj | rfl := Nat.lt_succ_iff_lt_or_eq.mp hj
        · exact hquiet j hj
        · exact hn
      | true => exact .inr ⟨n, n.lt_succ_self, hquiet, hn⟩
    · exact .inr ⟨k, hk.trans n.lt_succ_self, hfirst⟩

lemma allOrNothing_throws_iff {k : ℕ} (hk : k < m.userAndMsgids.length) (hquiet : ∀ j < k, throws j = false)
    (hthrow : throws k = true) :
    AllOrNothing zone chooseDatabase m s (saveGroupMsg zone chooseDatabase throws redis m s) ↔ k = 0 := by
  rw [saveGroupMsg_throws hk hquiet hthrow]
  constructor
  · intro h
    by_contra hne
    refine stored_ne ?_ (h.failed rfl).1
    simpa [List.take_eq_nil_iff, hne] using List.ne_nil_of_length_pos (k.zero_le.trans_lt hk)
  · rintro rfl
    refine ⟨fun _ => ⟨?_, rfl⟩, by simp⟩
    funext p
    simp [NewGroupMsg.stored]

lemma allOrNothing_quiet_iff (hquiet : ∀ j < m.userAndMsgids.length, throws j = false)
    (hne : m.userAndMsgids ≠ []) :
    AllOrNothing zone chooseDatabase m s (saveGroupMsg zone chooseDatabase throws redis m s) ↔
      redis = true ∧ m.userAndMsgids.Nodup := by
  rw [saveGroupMsg_quiet hquiet]
  cases redis with
  | false =>
    refine ⟨fun h => absurd (h.failed rfl).1 (stored_ne hne), ?_⟩
    rintro ⟨⟨⟩, -⟩
  | true =>
    rw [List.nodup_iff_count_eq_one, and_iff_right rfl]
    constructor
    · intro h x hx
      obtain ⟨added, hadded, hfilter⟩ := h.saved rfl x hx (chooseDatabase x.userId)
      obtain rfl := List.append_cancel_left hadded
      rw [rows_of_member, if_pos rfl, if_pos rfl] at hfilter
      simpa using congrArg List.length hfilter
    · intro h
      refine ⟨by simp [setUserLastSendData], fun _ x hx p => ⟨_, rfl, ?_⟩⟩
      rw [rows_of_member, h x hx]
      rfl

variable (zone chooseDatabase throws redis m s)

theorem saveGroupMsg_allOrNothing_iff :
    AllOrNothing zone chooseDatabase m s (saveGroupMsg zone chooseDatabase throws redis m s) ↔
      m.userAndMsgids = [] ∨ throws 0 = true ∨
        (∀ j < m.userAndMsgids.length, throws j = false) ∧ redis = true ∧ m.userAndMsgids.Nodup := by
  by_cases hnil : m.userAndMsgids = []
  · refine iff_of_true ?_ (.inl hnil)
    have hquiet : ∀ j < m.userAndMsgids.length, throws j = false := by simp [hnil]
    rw [saveGroupMsg_quiet hquiet]
    refine ⟨fun hfail => ?_, by simp [hnil]⟩
    cases redis with
    | true => cases hfail
    | false =>
      refine ⟨?_, rfl⟩
      funext p
      simp [setUserLastSendData, NewGroupMsg.stored, hnil]
  · rw [or_iff_right hnil]
    have hlen := List.length_pos_iff.mpr hnil
    obtain hquiet | ⟨k, hk, hquiet, hthrow⟩ := exists_first_throw throws m.userAndMsgids.length
    · have hzero := hquiet 0 hlen
      rw [allOrNothing_quiet_iff hquiet hnil]
      simp [hzero, and_iff_right hquiet]
    · rw [allOrNothing_throws_iff hk hquiet hthrow]
      constructor
      · rintro rfl
        exact .inl hthrow
      · rintro (hzero | ⟨hall, -⟩)
        · by_contra hne
          simp [hquiet 0 (Nat.pos_of_ne_zero hne)] at hzero
        · simp [hall k hk] at hthrow

theorem saveGroupMsg_leaves_row :
    let m : NewGroupMsg := ⟨7, [⟨1, 6⟩, ⟨2, 10⟩], 1, 6, "hello all", 202, 100⟩
    let r := saveGroupMsg .utc (fun _ => ()) (· = 1) true m .empty
    let retry := saveGroupMsg .utc (fun _ => ()) (fun _ => false) true m r.2
    r.1 = false ∧ r.2.messages () = [m.row .utc ⟨1, 6⟩] ∧ ¬ AllOrNothing .utc (fun _ => ()) m .empty r ∧
      retry.1 = true ∧ retry.2.messages () = [m.row .utc ⟨1, 6⟩, m.row .utc ⟨1, 6⟩, m.row .utc ⟨2, 10⟩] := by
  refine ⟨rfl, rfl, ?_, rfl, rfl⟩
  intro h
  have hm := congrFun (h.failed rfl).1 ()
  cases hm

end GroupMsg

end OceanServer.Im.LastSend
