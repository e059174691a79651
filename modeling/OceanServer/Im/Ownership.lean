import OceanServer.Im.ConsistentHash
import OceanServer.Library.ArcCount

/-! `ConsistentHash::find` with its assertion, and the numbers `Describe` prints against the hashes found. -/

namespace OceanServer.Im.ConsistentHash

open Library Finset

section Lookup

inductive Lookup where
  | aborted
  | returned (nodeId : Int32)
  -- the end of the map is dereferenced
  | invalid
  deriving DecidableEq, Repr

def findAsserting (ndebug : Bool) (r : ConsistentHash) (hash : Key) : Lookup :=
  if ndebug || r.nodes.entries.isEmpty then
    match r.find hash with
    | some nodeId => .returned nodeId
    | none => .invalid
  else .aborted

def Owner (r : ConsistentHash) (hash : Key) (e : Key × Vnode) : Prop :=
  e ∈ r.nodes ∧ ((hash ≤ e.1 ∧ ∀ e' ∈ r.nodes, hash ≤ e'.1 → e.1 ≤ e'.1) ∨
    ((∀ e' ∈ r.nodes, e'.1 < hash) ∧ ∀ e' ∈ r.nodes, e.1 ≤ e'.1))

def LooksUp (ndebug : Bool) (r : ConsistentHash) (hash : Key) : Prop :=
  if r.nodes.entries = [] then r.findAsserting ndebug hash = .aborted
  else ∃ e, r.Owner hash e ∧ r.findAsserting ndebug hash = .returned e.2.nodeId

variable {r : ConsistentHash} {hash : Key} {e : Key × Vnode}

lemma owner_of_around (h : r.nodes.around hash = some e) : r.Owner hash e := by
  obtain ⟨hmem, hmeets⟩ := OrderedMap.around_spec h
  refine ⟨hmem, ?_⟩
  obtain hle | hlt := le_or_gt hash e.1
  · refine .inl ⟨hle, fun e' he' hle' => ?_⟩
    obtain ⟨-, hle | hlt⟩ | ⟨-, hlt, -⟩ := hmeets e' he'
    · exact hle
    · exact absurd hle' (not_le.mpr hlt)
    · exact absurd hle' (not_le.mpr hlt)
  · refine .inr ⟨fun e' he' => ?_, fun e' he' => ?_⟩
    all_goals obtain ⟨hle, -⟩ | ⟨-, hlt', hle⟩ := hmeets e' he'
    · exact absurd hle (not_le.mpr hlt)
    · exact hlt'
    · exact absurd hle (not_le.mpr hlt)
    · exact hle

lemma find_isSome (h : r.nodes.entries ≠ []) (hash : Key) :
    ∃ e, r.nodes.around hash = some e ∧ r.find hash = some e.2.nodeId := by
  obtain ⟨e, he⟩ := List.exists_mem_of_ne_nil _ h
  obtain ⟨f, hf⟩ := Option.ne_none_iff_exists'.mp fun hnone => OrderedMap.around_eq_none.mp hnone e he
  refine ⟨f, hf, ?_⟩
  change (r.nodes.around hash).map (·.2.nodeId) = _
  rw [hf, Option.map_some]

theorem find_looks_up_iff (ndebug : Bool) (r : ConsistentHash) (hash : Key) :
    r.LooksUp ndebug hash ↔ ndebug = true ∧ r.nodes.entries ≠ [] := by
  rw [LooksUp]
  split
  · rename_i hempty
    have hfind : r.find hash = none := by
      rw [find, OrderedMap.lowerBound, OrderedMap.begin, hempty]
      rfl
    refine iff_of_false ?_ fun h => h.2 hempty
    rw [findAsserting, hempty, hfind, List.isEmpty_nil, Bool.or_true, if_pos rfl]
    intro h
    cases h
  · rename_i hne
    obtain ⟨f, hf, hfind⟩ := find_isSome hne hash
    have hcons : r.nodes.entries.isEmpty = false := List.isEmpty_eq_false_iff.mpr hne
    rw [findAsserting, hcons, hfind, Bool.or_false]
    cases ndebug with
    | false =>
      refine iff_of_false ?_ fun h => Bool.false_ne_true h.1
      rintro ⟨e, -, h⟩
      cases h
    | true => exact iff_of_true ⟨f, owner_of_around hf, rfl⟩ ⟨rfl, hne⟩

theorem find_aborts_on_one_vnode :
    (new.insert hashValue ⟨1, 0⟩).1.findAsserting false (hashValue ⟨1, 0⟩) = .aborted ∧
      ¬ (new.insert hashValue ⟨1, 0⟩).1.LooksUp false (hashValue ⟨1, 0⟩) ∧
      new.findAsserting false 0 = .invalid ∧ new.findAsserting true 0 = .invalid := by
  have habort : (new.insert hashValue ⟨1, 0⟩).1.findAsserting false (hashValue ⟨1, 0⟩) = .aborted := by
    decide +kernel
  have hne : (new.insert hashValue ⟨1, 0⟩).1.nodes.entries ≠ [] := by decide +kernel
  refine ⟨habort, ?_, by decide +kernel, by decide +kernel⟩
  rw [LooksUp, if_neg hne, habort]
  rintro ⟨e, -, h⟩
  cases h

end Lookup

section Describe

def bump (sums : List ℤ) (id : Int32) (n : ℕ) : Option (List ℤ) :=
  if 0 ≤ id.toInt ∧ id.toInt < sums.length then some (sums.modify id.toInt.toNat (· + n)) else none

def describeLoop : List ℤ → Key → List (Key × Vnode) → Option (List ℤ)
  -- The `while` loop; the difference of the keys is one of 32-bit numbers.
  | sums, _, [] => some sums
  | sums, priv, i :: rest => do
    let sums ← bump sums i.2.nodeId ((i.1 - priv : Key) : ℕ)
    describeLoop sums i.1 rest

def maxNodeId (r : ConsistentHash) : ℤ := r.nodes.entries.foldl (fun m e => max m e.2.nodeId.toInt) (-1)

def uint32Max : Key := ⟨2 ^ 32 - 1, by norm_num⟩

/-- The numbers that `Describe` prints, from that of node 0 on; `none` where an end of the empty map is
dereferenced, the length of the array overflows or an index is outside it. -/
def describe (r : ConsistentHash) : Option (List ℤ) :=
  match r.nodes.entries, r.nodes.rbegin with
  | i :: rest, some j =>
    if r.maxNodeId + 1 < 2 ^ 31 then do
      let sums ← bump (.replicate (r.maxNodeId + 1).toNat 0) i.2.nodeId ((uint32Max - j.1 + i.1 : Key) : ℕ)
      describeLoop sums i.1 rest
    else none
  | _, _ => none

def owned (r : ConsistentHash) (k : ℕ) : ℕ :=
  #(univ.filter fun hash : Key => (r.find hash).any (·.toInt = (k : ℤ)) = true)

def Reports (r : ConsistentHash) (k : ℕ) : Prop :=
  ∃ sums, r.describe = some sums ∧ sums[k]? = some (r.owned k : ℤ)

variable {r : ConsistentHash} {sums : List ℤ} {id : Int32} {k n : ℕ} {i j : Key × Vnode} {rest : List (Key × Vnode)}

structure Added (sums sums' : List ℤ) (part : ℕ → ℕ) (total : ℕ) : Prop where
  length : sums'.length = sums.length
  cell : ∀ k < sums.length, sums'[k]? = sums[k]?.map (· + (part k : ℤ))
  sum : sums'.sum = sums.sum + total

lemma sum_modify_add {l : List ℤ} {k : ℕ} (hk : k < l.length) (n : ℤ) : (l.modify k (· + n)).sum = l.sum + n := by
  induction l generalizing k with
  | nil => exact absurd hk (Nat.not_lt_zero k)
  | cons x l ih =>
    cases k with
    | zero =>
      rw [List.modify_zero_cons, List.sum_cons, List.sum_cons]
      exact add_right_comm x n l.sum
    | succ k =>
      rw [List.modify_succ_cons, List.sum_cons, List.sum_cons, ih (Nat.lt_of_succ_lt_succ hk), add_assoc]

lemma bump_added (h0 : 0 ≤ id.toInt) (hlt : id.toInt < sums.length) (n : ℕ) :
    ∃ sums', bump sums id n = some sums' ∧ Added sums sums' (fun k => if id.toInt = k then n else 0) n := by
  refine ⟨_, if_pos ⟨h0, hlt⟩, ?_⟩
  obtain ⟨c, hc⟩ := Int.eq_ofNat_of_zero_le h0
  rw [hc, Int.toNat_natCast]
  have hlt : c < sums.length := by omega
  refine ⟨List.length_modify .., fun k hk => ?_, sum_modify_add hlt n⟩
  rw [List.getElem?_modify]
  by_cases hck : c = k
  · simp [hck]
  · simp [hck]

lemma Added.trans {a b c : List ℤ} {p q : ℕ → ℕ} {m n : ℕ} (h : Added a b p m) (h' : Added b c q n) :
    Added a c (fun k => p k + q k) (m + n) := by
  refine ⟨h'.length.trans h.length, fun k hk => ?_, ?_⟩
  · rw [h'.cell k (h.length ▸ hk), h.cell k hk, Option.map_map]
    congr 1
    funext x
    simp [add_assoc]
  · rw [h'.sum, h.sum]
    push_cast
    ring

lemma sub_val {x y : Key} (h : x < y) : ((y - x : Key) : ℕ) = y - x := Fin.sub_val_of_le h.le

lemma firstArc_val {x y : Key} (h : x ≤ y) : ((uint32Max - y + x : Key) : ℕ) + 1 = 2 ^ 32 - ((y : ℕ) - x) := by
  -- the first arc is counted with one hash too few
  have hle : (x : ℕ) ≤ y := h
  have hy : (y : ℕ) ≤ 2 ^ 32 - 1 := Nat.le_sub_one_of_lt y.isLt
  have hsub : ((uint32Max - y : Key) : ℕ) = 2 ^ 32 - 1 - y := Fin.sub_val_of_le hy
  rw [Fin.val_add, hsub, Nat.mod_eq_of_lt (by omega)]
  omega

lemma describeLoop_added (sums : List ℤ) (hl : (i :: rest).Pairwise fun a b => a.1 < b.1)
    (hid : ∀ e ∈ rest, 0 ≤ e.2.nodeId.toInt ∧ e.2.nodeId.toInt < sums.length) :
    ∃ sums', describeLoop sums i.1 rest = some sums' ∧
      Added sums sums' (fun k => OrderedMap.arcSum (·.nodeId.toInt = (k : ℤ)) i.1 rest)
        (OrderedMap.arcSum (fun _ => true) i.1 rest) := by
  induction rest generalizing i sums with
  | nil => exact ⟨sums, rfl, rfl, fun k _ => by simp [OrderedMap.arcSum], by simp [OrderedMap.arcSum]⟩
  | cons e rest ih =>
    obtain ⟨hlt, hl⟩ := List.pairwise_cons.mp hl
    obtain ⟨h0, hlen⟩ := hid e List.mem_cons_self
    obtain ⟨mid, hmid, hadd⟩ := bump_added h0 hlen ((e.1 - i.1 : Key) : ℕ)
    obtain ⟨sums', hloop, hrest⟩ := ih mid hl fun f hf => by
      rw [hadd.length]
      exact hid f (List.mem_cons_of_mem e hf)
    refine ⟨sums', ?_, ?_⟩
    · rw [describeLoop, hmid]
      exact hloop
    · have hall := hadd.trans hrest
      rw [sub_val (hlt e List.mem_cons_self)] at hall
      simpa only [OrderedMap.arcSum, decide_eq_true_eq, if_true] using hall

lemma owned_eq (hm : r.nodes.entries = i :: rest) (hlast : r.nodes.rbegin = some j) (k : ℕ) :
    r.owned k = (if i.2.nodeId.toInt = k then 2 ^ 32 - ((j.1 : ℕ) - i.1) else 0) +
      OrderedMap.arcSum (·.nodeId.toInt = (k : ℤ)) i.1 rest := by
  have hcard := OrderedMap.card_around hm hlast (·.nodeId.toInt = (k : ℤ))
  simp only [decide_eq_true_eq] at hcard
  have hfind : ∀ hash, (r.find hash).any (·.toInt = (k : ℤ)) =
      (r.nodes.around hash).any (·.2.nodeId.toInt = (k : ℤ)) := fun hash => Option.any_map
  rw [← hcard, owned]
  simp only [hfind]

lemma maxNodeId_spec (l : List (Key × Vnode)) (m : ℤ) :
    let top := l.foldl (fun m e => max m e.2.nodeId.toInt) m
    (m ≤ top ∧ ∀ e ∈ l, e.2.nodeId.toInt ≤ top) ∧ (top = m ∨ ∃ e ∈ l, top = e.2.nodeId.toInt) := by
  induction l generalizing m with
  | nil => simp
  | cons e l ih =>
    obtain ⟨⟨hle, hall⟩, hmem⟩ := ih (max m e.2.nodeId.toInt)
    simp only [List.foldl_cons, List.mem_cons, forall_eq_or_imp, exists_eq_or_imp]
    refine ⟨⟨(le_max_left _ _).trans hle, (le_max_right _ _).trans hle, hall⟩, ?_⟩
    obtain heq | hmem := hmem
    · obtain hm | he := max_choice m e.2.nodeId.toInt
      · exact .inl (heq.trans hm)
      · exact .inr (.inl (heq.trans he))
    · exact .inr (.inr hmem)

lemma maxNodeId_of_mem (hid : ∀ e ∈ r.nodes, 0 ≤ e.2.nodeId.toInt) (hm : r.nodes.entries = i :: rest) :
    (∀ e ∈ r.nodes, e.2.nodeId.toInt ≤ r.maxNodeId) ∧ ∃ e ∈ r.nodes, r.maxNodeId = e.2.nodeId.toInt := by
  obtain ⟨⟨-, hle⟩, hmem⟩ := maxNodeId_spec r.nodes.entries (-1)
  have hi : i ∈ r.nodes.entries := hm ▸ List.mem_cons_self
  refine ⟨hle, hmem.resolve_left fun htop => ?_⟩
  have hi0 := hid i hi
  have hi1 := hle i hi
  omega

lemma describe_none (h : 2 ^ 31 ≤ r.maxNodeId + 1) : r.describe = none := by
  rw [describe]
  split
  · exact if_neg (not_lt.mpr h)
  · rfl

lemma describe_added (hid : ∀ e ∈ r.nodes, 0 ≤ e.2.nodeId.toInt) (hm : r.nodes.entries = i :: rest)
    (hlast : r.nodes.rbegin = some j) (hmax : r.maxNodeId + 1 < 2 ^ 31) :
    ∃ sums, r.describe = some sums ∧ Added (.replicate (r.maxNodeId + 1).toNat 0) sums
      (fun k => (if i.2.nodeId.toInt = k then 2 ^ 32 - ((j.1 : ℕ) - i.1) - 1 else 0) +
        OrderedMap.arcSum (·.nodeId.toInt = (k : ℤ)) i.1 rest) (2 ^ 32 - 1) := by
  have hl := hm ▸ r.nodes.sorted
  have hle : i.1 ≤ j.1 := (OrderedMap.rbegin_spec hlast).2 i (hm ▸ List.mem_cons_self : i ∈ r.nodes.entries)
  have hroom : ∀ e ∈ i :: rest, 0 ≤ e.2.nodeId.toInt ∧
      e.2.nodeId.toInt < (List.replicate (r.maxNodeId + 1).toNat (0 : ℤ)).length := by
    intro e he
    have he : e ∈ r.nodes := (hm ▸ he : e ∈ r.nodes.entries)
    have h0 := hid e he
    have htop := (maxNodeId_of_mem hid hm).1 e he
    rw [List.length_replicate]
    omega
  obtain ⟨h0, hlt⟩ := hroom i List.mem_cons_self
  obtain ⟨mid, hmid, hfirst⟩ := bump_added h0 hlt ((uint32Max - j.1 + i.1 : Key) : ℕ)
  obtain ⟨sums, hloop, hrest⟩ := describeLoop_added mid hl fun e he => by
    rw [hfirst.length]
    exact hroom e (List.mem_cons_of_mem i he)
  refine ⟨sums, ?_, ?_⟩
  · rw [describe, hm, hlast]
    dsimp only
    rw [if_pos hmax, hmid]
    exact hloop
  · have harc := firstArc_val hle
    have hgetLast : (i :: rest).getLast? = some j := by
      rw [← hm]
      exact hlast
    have hsum := OrderedMap.arcSum_all hl hgetLast
    have hval : ((uint32Max - j.1 + i.1 : Key) : ℕ) = 2 ^ 32 - ((j.1 : ℕ) - i.1) - 1 := by omega
    have htotal : 2 ^ 32 - ((j.1 : ℕ) - i.1) - 1 + OrderedMap.arcSum (fun _ => true) i.1 rest = 2 ^ 32 - 1 := by
      have hj := j.1.isLt
      omega
    have hall := hfirst.trans hrest
    rw [hval, htotal] at hall
    exact hall

lemma maxNodeId_lt_iff (hid : ∀ e ∈ r.nodes, 0 ≤ e.2.nodeId.toInt) (hm : r.nodes.entries = i :: rest) :
    r.maxNodeId + 1 < 2 ^ 31 ↔ ∀ e ∈ r.nodes, e.2.nodeId.toInt ≠ 2 ^ 31 - 1 := by
  obtain ⟨hle, e, he, htop⟩ := maxNodeId_of_mem hid hm
  constructor
  · intro hlt f hf
    have hf := hle f hf
    omega
  · intro hne
    have hbound : e.2.nodeId.toInt < 2 ^ 31 := e.2.nodeId.toInt_lt
    have hne := hne e he
    omega

lemma exists_rbegin (hm : r.nodes.entries = i :: rest) : ∃ j, r.nodes.rbegin = some j := by
  apply Option.ne_none_iff_exists'.mp
  intro hnone
  exact OrderedMap.rbegin_eq_none.mp hnone i (hm ▸ List.mem_cons_self : i ∈ r.nodes.entries)

lemma reports_iff (hid : ∀ e ∈ r.nodes, 0 ≤ e.2.nodeId.toInt) (hm : r.nodes.entries = i :: rest)
    (hmax : r.maxNodeId + 1 < 2 ^ 31) (hk : (k : ℤ) ≤ r.maxNodeId) : r.Reports k ↔ i.2.nodeId.toInt ≠ k := by
  obtain ⟨j, hlast⟩ := exists_rbegin hm
  obtain ⟨sums, hsums, hadd⟩ := describe_added hid hm hlast hmax
  have hlt : k < (r.maxNodeId + 1).toNat := by omega
  have hcell := hadd.cell k (List.length_replicate.symm ▸ hlt)
  rw [List.getElem?_replicate, if_pos hlt, Option.map_some, zero_add] at hcell
  have hreports : r.Reports k ↔ sums[k]? = some (r.owned k : ℤ) := by
    constructor
    · rintro ⟨sums', hsums', h⟩
      cases hsums.symm.trans hsums'
      exact h
    · intro h
      exact ⟨sums, hsums, h⟩
  rw [hreports, hcell, owned_eq hm hlast, Option.some.injEq, Nat.cast_inj]
  have hj := j.1.isLt
  split
  · rename_i heq
    exact iff_of_false (by omega) (not_not.mpr heq)
  · rename_i hne
    exact iff_of_true rfl hne

/-- On a ring with entries and no negative node id, the number printed for a node is that of its hashes just if
the node is not that of the least key, as long as no id is the greatest `int`. The numbers printed add up to
one less than there are hashes. -/
theorem describe_reports_iff (r : ConsistentHash) (hne : r.nodes.entries ≠ [])
    (hid : ∀ e ∈ r.nodes, 0 ≤ e.2.nodeId.toInt) :
    (∀ k : ℕ, (∃ e ∈ r.nodes, (k : ℤ) ≤ e.2.nodeId.toInt) →
      (r.Reports k ↔ (∀ e ∈ r.nodes, e.2.nodeId.toInt ≠ 2 ^ 31 - 1) ∧
        ∀ e, r.nodes.begin = some e → e.2.nodeId.toInt ≠ k)) ∧
    ∀ sums, r.describe = some sums → sums.sum = 2 ^ 32 - 1 := by
  obtain ⟨i, rest, hm⟩ := List.exists_cons_of_ne_nil hne
  constructor
  · rintro k ⟨e, he, hk⟩
    have hbegin : r.nodes.begin = some i := by
      rw [OrderedMap.begin, hm]
      rfl
    rw [← maxNodeId_lt_iff hid hm, hbegin]
    by_cases hmax : r.maxNodeId + 1 < 2 ^ 31
    · rw [reports_iff hid hm hmax (hk.trans ((maxNodeId_of_mem hid hm).1 e he)), and_iff_right hmax]
      exact ⟨fun h e he => Option.some.inj he ▸ h, fun h => h i rfl⟩
    · refine iff_of_false ?_ fun h => hmax h.1
      rintro ⟨sums, hsums, -⟩
      rw [describe_none (not_lt.mp hmax)] at hsums
      cases hsums
  · intro sums hsums
    by_cases hmax : r.maxNodeId + 1 < 2 ^ 31
    · obtain ⟨j, hlast⟩ := exists_rbegin hm
      obtain ⟨sums', hsums', hadd⟩ := describe_added hid hm hlast hmax
      cases hsums.symm.trans hsums'
      rw [hadd.sum, List.sum_replicate, smul_zero, zero_add]
      norm_num
    · rw [describe_none (not_lt.mp hmax)] at hsums
      cases hsums

theorem describe_reports_two_vnodes :
    ((new.insert hashValue ⟨0, 0⟩).1.insert hashValue ⟨1, 0⟩).1.Reports 1 ∧
      ∀ sums, ((new.insert hashValue ⟨0, 0⟩).1.insert hashValue ⟨1, 0⟩).1.describe = some sums →
        sums.sum = 2 ^ 32 - 1 := by
  have hm : ((new.insert hashValue ⟨0, 0⟩).1.insert hashValue ⟨1, 0⟩).1.nodes.entries =
      [(hashValue ⟨0, 0⟩, ⟨0, 0⟩), (hashValue ⟨1, 0⟩, ⟨1, 0⟩)] := by decide +kernel
  generalize ((new.insert hashValue ⟨0, 0⟩).1.insert hashValue ⟨1, 0⟩).1 = r at hm ⊢
  have hmem : ∀ e ∈ r.nodes, e = (hashValue ⟨0, 0⟩, ⟨0, 0⟩) ∨ e = (hashValue ⟨1, 0⟩, ⟨1, 0⟩) :=
    fun e he => List.mem_pair.mp (hm ▸ he)
  have hsecond : (hashValue ⟨1, 0⟩, ⟨1, 0⟩) ∈ r.nodes.entries := hm ▸ List.mem_cons_of_mem _ List.mem_cons_self
  have hid : ∀ e ∈ r.nodes, 0 ≤ e.2.nodeId.toInt ∧ e.2.nodeId.toInt ≠ 2 ^ 31 - 1 := by
    intro e he
    obtain rfl | rfl := hmem e he
    · decide
    · decide
  obtain ⟨hreports, hsum⟩ := describe_reports_iff r (List.ne_nil_of_mem hsecond) fun e he => (hid e he).1
  refine ⟨(hreports 1 ⟨_, hsecond, by decide⟩).mpr ⟨fun e he => (hid e he).2, fun e he => ?_⟩, hsum⟩
  rw [OrderedMap.begin, hm] at he
  cases he
  decide

theorem describe_one_vnode_short :
    (new.insert hashValue ⟨0, 0⟩).1.describe = some [2 ^ 32 - 1] ∧
      (new.insert hashValue ⟨0, 0⟩).1.owned 0 = 2 ^ 32 ∧ ¬ (new.insert hashValue ⟨0, 0⟩).1.Reports 0 := by
  have hprinted : (new.insert hashValue ⟨0, 0⟩).1.describe = some [2 ^ 32 - 1] := by decide +kernel
  have howned : (new.insert hashValue ⟨0, 0⟩).1.owned 0 = 2 ^ 32 := by
    have hm : (new.insert hashValue ⟨0, 0⟩).1.nodes.entries = [(hashValue ⟨0, 0⟩, ⟨0, 0⟩)] := by decide +kernel
    rw [owned_eq hm (congrArg List.getLast? hm)]
    decide +kernel
  refine ⟨hprinted, howned, ?_⟩
  rintro ⟨sums, hsums, hcell⟩
  cases hprinted.symm.trans hsums
  rw [howned] at hcell
  exact absurd hcell (by decide +kernel)

end Describe

end OceanServer.Im.ConsistentHash
