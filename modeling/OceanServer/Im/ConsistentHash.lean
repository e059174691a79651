import OceanServer.Library.OrderedMap
import OceanServer.Library.Runs

/-! `ConsistentHash`: virtual nodes on a ring of 32-bit keys. -/

namespace OceanServer.Im

open Library

abbrev Key := Fin (2 ^ 32)

structure Vnode where
  nodeId : Int32
  vnodeId : Int32
  deriving DecidableEq, Repr

structure ConsistentHash where
  nodes : OrderedMap Key Vnode

section Hash

def crcBit (c : BitVec 32) : BitVec 32 := if c &&& 1 = 1 then (c >>> 1) ^^^ 0x82f63b78 else c >>> 1

def crcByte (c : BitVec 32) (byte : BitVec 8) : BitVec 32 := crcBit^[8] (c ^^^ byte.setWidth 32)

def crc32c (data : List (BitVec 8)) : BitVec 32 := data.foldl crcByte 0xffffffff ^^^ 0xffffffff

-- the check value of the Castagnoli polynomial, on the digits `1` to `9`
example : crc32c [0x31, 0x32, 0x33, 0x34, 0x35, 0x36, 0x37, 0x38, 0x39] = 0xe3069283 := by decide +kernel

def littleEndian (n : Int32) : List (BitVec 8) := [0, 8, 16, 24].map fun k => n.toBitVec.extractLsb' k 8

/-- The number of bytes is `sizeof(&val)`, that of a pointer, which is also that of the object. -/
def hashValue (val : Vnode) : Key := (crc32c ((littleEndian val.nodeId ++ littleEndian val.vnodeId).take 8)).toFin

end Hash

namespace ConsistentHash

def new : ConsistentHash := ⟨.empty⟩

/-- `find` with `assert` compiled out; `none` where it dereferences the end of the map. -/
def find (r : ConsistentHash) (hash : Key) : Option Int32 :=
  ((r.nodes.lowerBound hash).or r.nodes.begin).map (·.2.nodeId)

def earseAt (r : ConsistentHash) (it : Key × Vnode) : ConsistentHash := ⟨(r.nodes.erase it.1).1⟩

section Operations

variable (hash : Vnode → Key)

def insert (r : ConsistentHash) (node : Vnode) : ConsistentHash × Bool :=
  (⟨(r.nodes.emplace (hash node) node).1⟩, (r.nodes.emplace (hash node) node).2)

def earse (r : ConsistentHash) (node : Vnode) : ConsistentHash × ℕ :=
  (⟨(r.nodes.erase (hash node)).1⟩, (r.nodes.erase (hash node)).2)

def insertAll (r : ConsistentHash) (vs : List Vnode) : ConsistentHash :=
  vs.foldl (fun r v => (r.insert hash v).1) r

end Operations

section Arcs

variable {hash : Vnode → Key} {r : ConsistentHash} {v : Vnode}

lemma insert_snd_iff : (r.insert hash v).2 = true ↔ ∀ it ∈ r.nodes, it.1 ≠ hash v := by
  have hsnd : (r.insert hash v).2 = !r.nodes.contains (hash v) := OrderedMap.emplace_snd
  rw [hsnd, Bool.not_eq_true', ← Bool.not_eq_true, OrderedMap.contains_iff]
  push Not
  rfl

lemma insert_true (h : (r.insert hash v).2 = true) :
    r.nodes.contains (hash v) = false ∧ (r.insert hash v).1.nodes = r.nodes.put (hash v) v := by
  have hk : r.nodes.contains (hash v) = false := by
    rw [← Bool.not_eq_true, OrderedMap.contains_iff]
    rintro ⟨it, hit, hkey⟩
    exact insert_snd_iff.mp h it hit hkey
  refine ⟨hk, ?_⟩
  change (r.nodes.emplace (hash v) v).1 = _
  rw [OrderedMap.emplace, hk]
  rfl

lemma insert_arc (h : (r.insert hash v).2 = true) (x : Key) :
    ((r.insert hash v).1.nodes.InArc (hash v) x → (r.insert hash v).1.find x = some v.nodeId) ∧
      (¬ (r.insert hash v).1.nodes.InArc (hash v) x → (r.insert hash v).1.find x = r.find x) := by
  obtain ⟨hk, hput⟩ := insert_true h
  obtain ⟨hin, hout⟩ := OrderedMap.around_put (a := v) hk x
  have hfind : (r.insert hash v).1.find x = ((r.nodes.put (hash v) v).around x).map (·.2.nodeId) := by
    rw [← hput]
    rfl
  rw [hput, hfind]
  exact ⟨fun h => congrArg _ (hin h), fun h => congrArg _ (hout h)⟩

lemma earse_arc {it : Key × Vnode} (h : it ∈ r.nodes) (x : Key) :
    (r.nodes.InArc it.1 x →
      (r.earseAt it).find x = ((r.earseAt it).nodes.successor it.1).map (·.2.nodeId)) ∧
      (¬ r.nodes.InArc it.1 x → (r.earseAt it).find x = r.find x) := by
  obtain ⟨hin, hout⟩ := OrderedMap.around_erase h x
  exact ⟨fun h => congrArg _ (hin h), fun h => congrArg _ (hout h)⟩

lemma insertAll_perm {vs ws : List Vnode} (h : vs.Perm ws) (hnd : (vs.map hash).Nodup) :
    r.insertAll hash vs = r.insertAll hash ws := by
  apply h.foldl_eq'
  intro v hv w hw r
  by_cases hkey : hash v = hash w
  · rw [List.inj_on_of_nodup_map hnd hv hw hkey]
  · exact congrArg mk (OrderedMap.emplace_comm hkey)

lemma earse_of_mem {it : Key × Vnode} (h : it ∈ r.nodes) (hkey : it.1 = hash v) :
    r.earse hash v = (r.earseAt it, 1) := by
  have hk : r.nodes.contains (hash v) = true := OrderedMap.contains_iff.mpr ⟨it, h, hkey⟩
  have hsnd : (r.nodes.erase (hash v)).2 = 1 := Bool.toNat_eq_one.mpr hk
  rw [earse, earseAt, hkey, hsnd]

/-- On every ring: a vnode whose key is free is inserted, takes over the arc that ends at its key and no other
hash; an entry is erased, by its iterator or by a vnode with its key, its arc goes to the next entry and no other
hash is affected; and vnodes with distinct hashes may be inserted in any order. -/
theorem ring_moves_arc (hash : Vnode → Key) (r : ConsistentHash) :
    (∀ v, ((r.insert hash v).2 = true ↔ ∀ it ∈ r.nodes, it.1 ≠ hash v) ∧
      ((r.insert hash v).2 = true → ∀ x,
        ((r.insert hash v).1.nodes.InArc (hash v) x → (r.insert hash v).1.find x = some v.nodeId) ∧
        (¬ (r.insert hash v).1.nodes.InArc (hash v) x → (r.insert hash v).1.find x = r.find x))) ∧
    (∀ it ∈ r.nodes, ∀ x,
      (r.nodes.InArc it.1 x →
        (r.earseAt it).find x = ((r.earseAt it).nodes.successor it.1).map (·.2.nodeId)) ∧
      (¬ r.nodes.InArc it.1 x → (r.earseAt it).find x = r.find x)) ∧
    (∀ v, (∃ it ∈ r.nodes, it.1 = hash v) → (r.earse hash v).2 = 1 ∧ ∀ x,
      (r.nodes.InArc (hash v) x →
        (r.earse hash v).1.find x = ((r.earse hash v).1.nodes.successor (hash v)).map (·.2.nodeId)) ∧
      (¬ r.nodes.InArc (hash v) x → (r.earse hash v).1.find x = r.find x)) ∧
    ∀ vs ws : List Vnode, vs.Perm ws → (vs.map hash).Nodup →
      ∀ x, (r.insertAll hash vs).find x = (r.insertAll hash ws).find x := by
  refine ⟨fun v => ⟨insert_snd_iff, fun hv x => insert_arc hv x⟩, fun it hit x => earse_arc hit x, ?_,
    fun vs ws hperm hnd x => ?_⟩
  · rintro v ⟨it, hit, hkey⟩
    rw [earse_of_mem hit hkey, ← hkey]
    exact ⟨rfl, fun x => earse_arc hit x⟩
  · rw [insertAll_perm hperm hnd]

def twoVnodes : ConsistentHash := ((new.insert hashValue ⟨1, 0⟩).1.insert hashValue ⟨2, 0⟩).1

theorem ring_moves_arc_two_vnodes :
    ((new.insert hashValue ⟨1, 0⟩).1.insert hashValue ⟨2, 0⟩).2 = true ∧
      twoVnodes.find (hashValue ⟨2, 0⟩) = some 2 ∧ (twoVnodes.earse hashValue ⟨2, 0⟩).2 = 1 ∧
      (twoVnodes.earse hashValue ⟨2, 0⟩).1.find (hashValue ⟨2, 0⟩) = some 1 := by
  obtain ⟨hfree, harc⟩ := (ring_moves_arc hashValue (new.insert hashValue ⟨1, 0⟩).1).1 ⟨2, 0⟩
  have hin : ((new.insert hashValue ⟨1, 0⟩).1.insert hashValue ⟨2, 0⟩).2 = true := hfree.mpr (by decide +kernel)
  obtain ⟨hone, hearse⟩ := (ring_moves_arc hashValue twoVnodes).2.2.1 ⟨2, 0⟩
    (OrderedMap.contains_iff.mp (by decide +kernel))
  refine ⟨hin, (harc hin _).1 (by decide +kernel), hone, ?_⟩
  rw [(hearse _).1 (by decide +kernel)]
  decide +kernel

end Arcs

section Set

variable {hash : Vnode → Key} {r : ConsistentHash} {v w : Vnode}

def stored (r : ConsistentHash) : List Vnode := r.nodes.entries.map Prod.snd

inductive Op where
  | insert (node : Vnode)
  | earse (node : Vnode)
  deriving DecidableEq, Repr

def apply (hash : Vnode → Key) (s : ConsistentHash × Finset Vnode) : Op → ConsistentHash × Finset Vnode
  | .insert v => ((s.1.insert hash v).1, Insert.insert v s.2)
  | .earse v => ((s.1.earse hash v).1, s.2.erase v)

def Faithful (hash : Vnode → Key) (r : ConsistentHash) : Op → Prop
  | .insert v => ((r.insert hash v).2 = true ↔ v ∉ r.stored) ∧
      ∀ w, w ∈ (r.insert hash v).1.stored ↔ w = v ∨ w ∈ r.stored
  | .earse v => ((r.earse hash v).2 = 1 ↔ v ∈ r.stored) ∧
      ∀ w, w ∈ (r.earse hash v).1.stored ↔ w ≠ v ∧ w ∈ r.stored

def NoClash (hash : Vnode → Key) (r : ConsistentHash) : Op → Prop
  | .insert v | .earse v => ∀ w ∈ r.stored, hash w = hash v → w = v

def Keyed (hash : Vnode → Key) (r : ConsistentHash) : Prop := ∀ e ∈ r.nodes, e.1 = hash e.2

lemma Keyed.mem_stored (h : r.Keyed hash) : w ∈ r.stored ↔ (hash w, w) ∈ r.nodes := by
  rw [stored, List.mem_map]
  constructor
  · rintro ⟨⟨k, w⟩, hmem, rfl⟩
    rw [← h _ hmem]
    exact hmem
  · intro hmem
    exact ⟨_, hmem, rfl⟩

lemma Keyed.contains_iff (h : r.Keyed hash) {k : Key} :
    r.nodes.contains k = true ↔ ∃ w ∈ r.stored, hash w = k := by
  rw [OrderedMap.contains_iff]
  constructor
  · rintro ⟨⟨k, w⟩, hmem, rfl⟩
    have hk := h _ hmem
    exact ⟨w, h.mem_stored.mpr (hk ▸ hmem), hk.symm⟩
  · rintro ⟨w, hw, rfl⟩
    exact ⟨_, h.mem_stored.mp hw, rfl⟩

lemma Keyed.eq_of_hash_eq (h : r.Keyed hash) (hv : v ∈ r.stored) (hw : w ∈ r.stored) (heq : hash w = hash v) :
    w = v :=
  congrArg Prod.snd (OrderedMap.eq_of_key_eq (h.mem_stored.mp hw) (h.mem_stored.mp hv) heq)

lemma keyed_new : new.Keyed hash := fun _ he => absurd he OrderedMap.not_mem_empty

lemma Keyed.insert (h : r.Keyed hash) (v : Vnode) : (r.insert hash v).1.Keyed hash := by
  intro e he
  obtain he | ⟨rfl, -⟩ := OrderedMap.mem_emplace.mp he
  · exact h e he
  · rfl

lemma Keyed.earse (h : r.Keyed hash) (v : Vnode) : (r.earse hash v).1.Keyed hash :=
  fun e he => h e (OrderedMap.mem_erase.mp he).1

lemma Keyed.stored_insert (h : r.Keyed hash) :
    w ∈ (r.insert hash v).1.stored ↔ w ∈ r.stored ∨ (w = v ∧ r.nodes.contains (hash v) = false) := by
  rw [(h.insert v).mem_stored, h.mem_stored]
  refine OrderedMap.mem_emplace.trans (or_congr Iff.rfl (and_congr_left' ⟨congrArg Prod.snd, ?_⟩))
  rintro rfl
  rfl

lemma Keyed.stored_earse (h : r.Keyed hash) :
    w ∈ (r.earse hash v).1.stored ↔ w ∈ r.stored ∧ hash w ≠ hash v := by
  rw [(h.earse v).mem_stored, h.mem_stored]
  exact OrderedMap.mem_erase

lemma Keyed.noClash_iff (h : r.Keyed hash) :
    (∀ w ∈ r.stored, hash w = hash v → w = v) ↔ (r.nodes.contains (hash v) = true ↔ v ∈ r.stored) := by
  rw [h.contains_iff]
  constructor
  · intro hclash
    refine ⟨fun ⟨w, hw, heq⟩ => ?_, fun hv => ⟨v, hv, rfl⟩⟩
    rw [← hclash w hw heq]
    exact hw
  · intro hiff w hw heq
    exact h.eq_of_hash_eq (hiff.mp ⟨w, hw, heq⟩) hw heq

lemma Keyed.faithful_insert (h : r.Keyed hash) :
    r.Faithful hash (.insert v) ↔ (r.nodes.contains (hash v) = true ↔ v ∈ r.stored) := by
  have hsnd : (r.insert hash v).2 = true ↔ ¬ r.nodes.contains (hash v) = true := by
    rw [show (r.insert hash v).2 = !r.nodes.contains (hash v) from OrderedMap.emplace_snd, Bool.not_eq_true',
      Bool.not_eq_true]
  rw [Faithful, hsnd, not_iff_not]
  refine ⟨And.left, fun hiff => ⟨hiff, fun w => ?_⟩⟩
  rw [h.stored_insert, ← Bool.not_eq_true, hiff, or_comm]
  constructor
  · rintro (⟨hw, -⟩ | hw)
    · exact .inl hw
    · exact .inr hw
  · rintro (rfl | hw)
    · exact (em (w ∈ r.stored)).symm.imp (fun hout => ⟨rfl, hout⟩) id
    · exact .inr hw

lemma Keyed.faithful_earse (h : r.Keyed hash) :
    r.Faithful hash (.earse v) ↔ (r.nodes.contains (hash v) = true ↔ v ∈ r.stored) := by
  have hsnd : (r.earse hash v).2 = 1 ↔ r.nodes.contains (hash v) = true := Bool.toNat_eq_one
  rw [Faithful, hsnd]
  refine ⟨And.left, fun hiff => ⟨hiff, fun w => ?_⟩⟩
  rw [h.stored_earse, and_comm]
  apply and_congr_left
  intro hw
  apply not_congr
  exact ⟨h.noClash_iff.mpr hiff w hw, congrArg hash⟩

lemma Keyed.faithful_iff (h : r.Keyed hash) (op : Op) : r.Faithful hash op ↔ r.NoClash hash op := by
  cases op with
  | insert v => exact h.faithful_insert.trans h.noClash_iff.symm
  | earse v => exact h.faithful_earse.trans h.noClash_iff.symm

lemma Faithful.expected {s : ConsistentHash × Finset Vnode} {op : Op} (h : s.1.Faithful hash op)
    (hs : ∀ w, w ∈ s.1.stored ↔ w ∈ s.2) (w : Vnode) :
    w ∈ (apply hash s op).1.stored ↔ w ∈ (apply hash s op).2 := by
  cases op with
  | insert v =>
    rw [apply, h.2 w, Finset.mem_insert, hs w]
  | earse v =>
    rw [apply, h.2 w, Finset.mem_erase, hs w]

/-- Whatever the hash function, in a sequence of calls every call is faithful and the vnodes stored are those
inserted and not erased since, just if no call is for a vnode that has the hash of another one stored. -/
theorem ring_faithful_iff (hash : Vnode → Key) (ops : List Op) :
    Along (fun s op t => apply hash s op = t)
        (fun s op t => (∀ w, w ∈ t.1.stored ↔ w ∈ t.2) ∧ s.1.Faithful hash op) (new, ∅) ops ↔
      Along (fun s op t => apply hash s op = t) (fun s op _ => s.1.NoClash hash op) (new, ∅) ops := by
  have hkeep : ∀ (s : ConsistentHash × Finset Vnode) op t, s.1.Keyed hash → apply hash s op = t →
      t.1.Keyed hash := by
    rintro s op t hs rfl
    cases op with
    | insert v => exact hs.insert v
    | earse v => exact hs.earse v
  refine along_iff (B := fun s => s.1.Keyed hash) keyed_new (fun w => ?_) hkeep (fun s op t hs hstored ht => ?_) ops
  · exact iff_of_false List.not_mem_nil (Finset.notMem_empty w)
  · subst ht
    rw [hs.faithful_iff, and_iff_right_iff_imp]
    exact fun hclash => ((hs.faithful_iff op).mpr hclash).expected hstored

theorem ring_faithful_clash : hashValue ⟨36941, 44419⟩ = hashValue ⟨0, 0⟩ ∧
    ((new.insert hashValue ⟨0, 0⟩).1.insert hashValue ⟨36941, 44419⟩).2 = false ∧
    (new.insert hashValue ⟨0, 0⟩).1.stored = [⟨0, 0⟩] ∧
    ((new.insert hashValue ⟨0, 0⟩).1.earse hashValue ⟨36941, 44419⟩).2 = 1 ∧
    ((new.insert hashValue ⟨0, 0⟩).1.earse hashValue ⟨36941, 44419⟩).1.stored = [] := by
  decide +kernel

end Set

end ConsistentHash

end OceanServer.Im
