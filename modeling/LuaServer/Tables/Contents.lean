import Mathlib.Data.Finset.Card
import LuaServer.Tables.Insertion

/-!
# Contents

What a table holds under each key, and how placing a key, storing a value and
clearing a dead entry change it.
-/

namespace LuaServer

open Library

namespace LuaTable

variable {H : Hashing} {t : LuaTable}

/-!
# Reading
-/

theorem lookup_nil : t.lookup H .nil = .nil := rfl

theorem lookup_inArray {key : Value} (h : t.InArray H key) :
    t.lookup H key = t.array (arrayindex H key - 1).toNat := by
  unfold lookup
  rw [luaHGet_array h]
  rfl

theorem HashSound.lookup_node (h : t.HashSound H) {i : Nat} {key : Value}
    (hkey : (t.node i).key = .key key) : t.lookup H key = (t.node i).val := by
  unfold lookup
  rw [h.luaHGet_node hkey]
  rfl

theorem lookup_none {key : Value} (hin : ¬t.InArray H key)
    (hnone : forall i, (t.node i).key ≠ .key key) :
    t.lookup H key = .nil := by
  by_cases hnil : key = .nil
  · rw [hnil]
    exact lookup_nil
  · unfold lookup
    rw [luaHGet_none hnil hin hnone]
    rfl

theorem HashSound.lookup_eq_iff (h : t.HashSound H) {key v : Value}
    (hin : ¬t.InArray H key) (hv : v ≠ .nil) :
    t.lookup H key = v <-> t.Entry key v := by
  constructor
  · intro hlookup
    by_cases hnode : exists i, (t.node i).key = .key key
    · rcases hnode with ⟨i, hi⟩
      rw [h.lookup_node hi] at hlookup
      exact ⟨i, hi, hlookup⟩
    · have hnone := lookup_none (t := t) hin (fun i hi => hnode ⟨i, hi⟩)
      rw [hnone] at hlookup
      exact absurd hlookup.symm hv
  · rintro ⟨i, hi, hiv⟩
    rw [h.lookup_node hi]
    exact hiv

theorem eq_of_same_values {a b : Value}
    (h : forall v, v ≠ .nil -> (a = v <-> b = v)) : a = b := by
  by_cases ha : a = .nil
  · by_cases hb : b = .nil
    · rw [ha, hb]
    · exact (h b hb).mpr rfl
  · exact ((h a ha).mp rfl).symm

theorem SameShape.inArray_iff {t' : LuaTable} (h : SameShape t t')
    (key : Value) : t'.InArray H key <-> t.InArray H key := by
  unfold InArray
  rw [h.sizearray]

theorem Places.lookup {t' : LuaTable} {key : Value} {i : Nat}
    (hp : Places H t key t' i) (h : t.HashSound H) (k : Value) :
    t'.lookup H k = t.lookup H k := by
  by_cases hin : t.InArray H k
  · rw [lookup_inArray hin, lookup_inArray ((hp.shape.inArray_iff k).mpr hin),
      hp.shape.array]
  · apply eq_of_same_values
    intro v hv
    rw [hp.sound.lookup_eq_iff (fun h' => hin ((hp.shape.inArray_iff k).mp h'))
      hv, h.lookup_eq_iff hin hv]
    exact hp.entries k v hv

/-!
# Storing a value
-/

/-- The same table up to the values. -/
structure SameKeys (t t' : LuaTable) : Prop where
  sizearray : t'.sizearray = t.sizearray
  dummy : t'.dummy = t.dummy
  lsizenode : t'.lsizenode = t.lsizenode
  lastfree : t'.lastfree = t.lastfree
  key : forall i, (t'.node i).key = (t.node i).key
  next : t'.next = t.next

theorem SameKeys.luaHGet {t' : LuaTable} (h : SameKeys t t') (key : Value) :
    t'.luaHGet H key = t.luaHGet H key := by
  have hmain : forall k, t'.mainposition H k = t.mainposition H k :=
    mainposition_congr h.lsizenode
  have hsize : t'.sizenode = t.sizenode := by
    unfold sizenode
    rw [h.lsizenode]
  by_cases hnil : key = .nil
  · rw [hnil]
    rfl
  · by_cases hin : t.InArray H key
    · rw [luaHGet_array hin, luaHGet_array (t := t')]
      unfold InArray at hin ⊢
      rw [h.sizearray]
      exact hin
    · have hin' : ¬t'.InArray H key := by
        unfold InArray at hin ⊢
        rw [h.sizearray]
        exact hin
      rw [luaHGet_any hnil hin, luaHGet_any hnil hin']
      unfold luaHGetany findNode
      rw [hmain, hsize, h.next]
      simp only [h.key]

theorem SameKeys.sound {t' : LuaTable} (h : SameKeys t t') (hs : t.Sound H)
    (hvals : forall i, (forall k, (t.node i).key ≠ .key k) ->
      (t'.node i).val = .nil) : t'.Sound H := by
  have hmain : forall k, t'.mainposition H k = t.mainposition H k :=
    mainposition_congr h.lsizenode
  have hsize : t'.sizenode = t.sizenode := by
    unfold sizenode
    rw [h.lsizenode]
  constructor
  · constructor
    · rw [h.next]
      exact hs.hash.linear
    · rw [h.next, hsize]
      exact hs.hash.bound
    · intro i hi
      rw [h.key] at hi
      rw [hsize]
      exact hs.hash.inside i hi
    · intro i hi
      have hkey := hi
      rw [h.key] at hkey
      rw [h.next]
      refine ⟨hvals i fun k hk => ?_, (hs.hash.empty i hkey).2⟩
      rw [hkey] at hk
      cases hk
    · intro i a hi
      rw [h.key] at hi
      refine hvals i fun k hk => ?_
      rw [hi] at hk
      cases hk
    · intro i k hi
      rw [h.key] at hi
      rw [h.next, hmain]
      exact hs.hash.found i k hi
    · intro i j k hi hj
      rw [h.key] at hi hj
      exact hs.hash.unique i j k hi hj
    · intro i hi j k hj
      rw [h.key] at hj
      rw [hmain]
      refine hs.hash.home i ?_ j k hj
      unfold Homeless at hi ⊢
      simp only [h.key, hmain] at hi
      exact hi
    · intro i k hi
      rw [h.key] at hi
      exact hs.hash.proper i k hi
    · intro i k hi hin
      rw [h.key] at hi
      unfold InArray at hin
      rw [h.sizearray] at hin
      exact hs.hash.apart i k hi hin
  · intro hdummy i hlast hi
    rw [h.dummy] at hdummy
    rw [h.lastfree] at hlast
    rw [hsize] at hi
    rw [h.key]
    exact hs.freeBefore hdummy i hlast hi
  · rw [h.lastfree, hsize]
    exact hs.last
  · rw [h.dummy, h.lsizenode, h.lastfree, h.key]
    exact hs.dummy

theorem SameKeys.clear {t' : LuaTable} (h : SameKeys t t')
    (hclear : t.Clear H) : t'.Clear H := by
  intro i k hk hcollect
  rw [h.key] at hk
  rw [h.next, mainposition_congr h.lsizenode]
  simp only [h.key]
  exact hclear i k hk hcollect

theorem sameKeys_write (slot : Slot) (v : Value) :
    SameKeys t (t.write slot v) := by
  cases slot with
  | array i => exact ⟨rfl, rfl, rfl, rfl, fun _ => rfl, rfl⟩
  | node i =>
      refine ⟨rfl, rfl, rfl, rfl, ?_, ?_⟩
      · intro j
        unfold write setNode
        simp only
        split
        · rename_i hj
          rw [hj]
        · rfl
      · funext j
        unfold next write setNode
        simp only
        split
        · rename_i hj
          rw [hj]
        · rfl

theorem read_write (slot other : Slot) (v : Value) :
    (t.write slot v).read other = if other = slot then v else t.read other := by
  cases slot with
  | array i =>
      cases other with
      | array j =>
          unfold write read setArray
          simp only [Slot.array.injEq]
      | node j =>
          rw [if_neg Slot.noConfusion]
          rfl
  | node i =>
      cases other with
      | array j =>
          rw [if_neg Slot.noConfusion]
          rfl
      | node j =>
          unfold write read setNode
          simp only [Slot.node.injEq]
          split
          · rfl
          · rfl

theorem arrayindex_eq {key : Value} (h : 1 ≤ arrayindex H key) :
    key = .number (.ofInt (arrayindex H key)) := by
  cases key with
  | number n =>
      by_cases hint : (LuaNumber.ofInt (number2int H n)).numEq n = true
      · rw [arrayindex_number hint, (LuaNumber.numEq_iff.mp hint).1]
      · rw [arrayindex_of_ne hint] at h
        omega
  | nil | boolean | lightuserdata | string | table | cfunction | closure
  | userdata | thread => exact absurd h (by simp [arrayindex])

theorem HashSound.slot_inj (h : t.HashSound H) {k k' : Value} {slot : Slot}
    (hk : t.luaHGet H k = some slot) (hk' : t.luaHGet H k' = some slot) :
    k = k' := by
  have hnil : forall {x}, t.luaHGet H x = some slot -> x ≠ .nil := by
    rintro x hx rfl
    cases hx
  rcases h.luaHGet_cases (hnil hk) with ⟨hin, hget⟩ | ⟨_, i, hi, hget⟩ |
    ⟨_, _, hget⟩
  · rcases h.luaHGet_cases (hnil hk') with ⟨hin', hget'⟩ | ⟨_, i', _, hget'⟩ |
      ⟨_, _, hget'⟩
    · rw [hk, Option.some.injEq] at hget
      rw [hk', Option.some.injEq, hget, Slot.array.injEq] at hget'
      have heq : arrayindex H k = arrayindex H k' := by
        have h1 := hin.1
        have h2 := hin'.1
        omega
      rw [arrayindex_eq hin.1, arrayindex_eq hin'.1, heq]
    · rw [hk, Option.some.injEq] at hget
      rw [hk', Option.some.injEq, hget] at hget'
      cases hget'
    · rw [hk'] at hget'
      cases hget'
  · rcases h.luaHGet_cases (hnil hk') with ⟨_, hget'⟩ | ⟨_, i', hi', hget'⟩ |
      ⟨_, _, hget'⟩
    · rw [hk, Option.some.injEq] at hget
      rw [hk', Option.some.injEq, hget] at hget'
      cases hget'
    · rw [hk, Option.some.injEq] at hget
      rw [hk', Option.some.injEq, hget, Slot.node.injEq] at hget'
      rw [← hget', hi, NodeKey.key.injEq] at hi'
      exact hi'
    · rw [hk'] at hget'
      cases hget'
  · rw [hk] at hget
    cases hget

theorem Sound.write (h : t.Sound H) {key : Value} {slot : Slot}
    (hget : t.luaHGet H key = some slot) (v : Value) :
    (t.write slot v).Sound H ∧ forall k, (t.write slot v).lookup H k =
      if k = key then v else t.lookup H k := by
  have hkeys := sameKeys_write (t := t) slot v
  constructor
  · refine hkeys.sound h ?_
    intro i hi
    have hold : (t.node i).val = .nil := by
      by_contra hval
      rcases h.hash.key_of_val hval with ⟨k, hk⟩
      exact hi k hk
    have hslot : Slot.node i ≠ slot := by
      rintro rfl
      have hnil : key ≠ .nil := by
        rintro rfl
        cases hget
      rcases h.hash.luaHGet_cases hnil with ⟨_, hother⟩ | ⟨_, j, hj, hother⟩ |
        ⟨_, _, hother⟩
      · rw [hget] at hother
        cases hother
      · rw [hget, Option.some.injEq, Slot.node.injEq] at hother
        rw [← hother] at hj
        exact hi key hj
      · rw [hget] at hother
        cases hother
    have hread := read_write (t := t) slot (.node i) v
    rw [if_neg hslot] at hread
    exact hread.trans hold
  · intro k
    unfold lookup
    rw [hkeys.luaHGet]
    split
    · rename_i hk
      rw [hk, hget]
      show (t.write slot v).read slot = v
      rw [read_write, if_pos rfl]
    · rename_i hk
      cases hk' : t.luaHGet H k with
      | none => rfl
      | some other =>
          show (t.write slot v).read other = t.read other
          rw [read_write, if_neg]
          rintro rfl
          exact hk (h.hash.slot_inj hk' hget)

/-!
# Nodes in use
-/

def usedNodes (t : LuaTable) : Nat :=
  ((Finset.range t.sizenode).filter fun i => (t.node i).key ≠ .nil).card

theorem SameKeys.usedNodes {t' : LuaTable} (h : SameKeys t t') :
    t'.usedNodes = t.usedNodes := by
  unfold LuaTable.usedNodes sizenode
  rw [h.lsizenode]
  simp only [h.key]

theorem Places.usedNodes_le {t' : LuaTable} {key : Value} {i : Nat}
    (h : Places H t key t' i) : t'.usedNodes ≤ t.usedNodes + 1 := by
  rcases h.fresh with ⟨n, hn⟩
  have hsub : ((Finset.range t'.sizenode).filter
      fun j => (t'.node j).key ≠ .nil) ⊆
        insert n ((Finset.range t.sizenode).filter
          fun j => (t.node j).key ≠ .nil) := by
    intro j hj
    rw [Finset.mem_filter, Finset.mem_range] at hj
    rw [Finset.mem_insert, Finset.mem_filter, Finset.mem_range]
    rcases hn j hj.2 with heq | hold
    · exact Or.inl heq
    · refine Or.inr ⟨?_, hold⟩
      have hlt := hj.1
      unfold sizenode at hlt ⊢
      rw [h.shape.lsizenode] at hlt
      exact hlt
  exact Nat.le_trans (Finset.card_le_card hsub) (Finset.card_insert_le _ _)

theorem usedNodes_full (h : forall i, i < t.sizenode -> (t.node i).key ≠ .nil) :
    t.usedNodes = t.sizenode := by
  unfold usedNodes
  rw [Finset.filter_true_of_mem, Finset.card_range]
  intro i hi
  exact h i (Finset.mem_range.mp hi)

theorem Absent.of_luaHGet (h : t.HashSound H) {key : Value}
    (hkey : key.IsKey) (hget : t.luaHGet H key = none) : t.Absent H key := by
  rcases h.luaHGet_cases hkey.1 with ⟨_, hother⟩ | ⟨_, _, _, hother⟩ |
    ⟨hin, hnone, _⟩
  · rw [hget] at hother
    cases hother
  · rw [hget] at hother
    cases hother
  · exact ⟨hkey, hin, hnone⟩

theorem Sound.place_of_usedNodes (h : t.Sound H) {key : Value}
    (habsent : t.Absent H key) (hdummy : t.dummy = false)
    (hused : t.usedNodes < t.sizenode) :
    exists t' i, t.place H key = .placed t' i ∧ Places H t key t' i ∧
      t'.Sound H := by
  rcases h.place_cases habsent with hplaced | ⟨_, hfull⟩
  · exact hplaced
  · rw [usedNodes_full (hfull hdummy)] at hused
    exact absurd hused (Nat.lt_irrefl _)

/-!
# Clearing an entry
-/

/--
`removeentry` of `lgc.c`: a collectable key of an empty entry is dead from now
on.
-/
def removeentry (H : Hashing) (t : LuaTable) (i : Nat) : LuaTable :=
  match (t.node i).key with
  | .key k =>
      if k.isCollectable then
        t.setNode i { t.node i with key := .dead (H.address k) }
      else t
  | _ => t

theorem removeentry_cases (i : Nat) :
    t.removeentry H i = t ∨ exists k, (t.node i).key = .key k ∧
      t.removeentry H i =
        t.setNode i { t.node i with key := .dead (H.address k) } := by
  unfold removeentry
  split
  · rename_i k hk
    split
    · exact Or.inr ⟨k, hk, rfl⟩
    · exact Or.inl rfl
  · exact Or.inl rfl

section DeadKey

variable {i : Nat} {k : Value} {a : Nat}
variable (hk : (t.node i).key = .key k) (hval : (t.node i).val = .nil)

include hk hval

/-- An empty entry may lose its key: nothing that is found gets lost. -/
theorem HashSound.deadKey (h : t.HashSound H) :
    (t.setNode i { t.node i with key := .dead a }).HashSound H := by
  have hmain : forall x, (t.setNode i
      { t.node i with key := .dead a }).mainposition H x =
        t.mainposition H x := mainposition_congr rfl
  have hnext : (t.setNode i { t.node i with key := .dead a }).next = t.next := by
    funext j
    unfold setNode next
    simp only
    split
    · rename_i hj
      rw [hj]
    · rfl
  have hself : ((t.setNode i { t.node i with key := .dead a }).node i).key =
      .dead a := by
    simp [setNode]
  have hvals : forall j, ((t.setNode i
      { t.node i with key := .dead a }).node j).val = (t.node j).val := by
    intro j
    unfold setNode
    simp only
    split
    · rename_i hj
      rw [hj]
    · rfl
  have hother : forall j, j ≠ i ->
      ((t.setNode i { t.node i with key := .dead a }).node j).key =
        (t.node j).key := by
    intro j hj
    simp [setNode, hj]
  have hsize : (t.setNode i { t.node i with key := .dead a }).sizenode =
    t.sizenode := rfl
  have hin : forall x, (t.setNode i
      { t.node i with key := .dead a }).InArray H x <-> t.InArray H x :=
    fun _ => Iff.rfl
  generalize t.setNode i { t.node i with key := .dead a } = t' at *
  have hold : forall j x, (t'.node j).key = .key x ->
      (t.node j).key = .key x := by
    intro j x hj
    by_cases hji : j = i
    · rw [hji, hself] at hj
      cases hj
    · rw [hother j hji] at hj
      exact hj
  have hnil : forall j, (t'.node j).key = .nil -> (t.node j).key = .nil := by
    intro j hj
    by_cases hji : j = i
    · rw [hji, hself] at hj
      cases hj
    · rw [hother j hji] at hj
      exact hj
  constructor
  · rw [hnext]
    exact h.linear
  · rw [hnext, hsize]
    exact h.bound
  · intro j hj
    rw [hsize]
    by_cases hji : j = i
    · rw [hji]
      exact h.inside i (by rw [hk]; exact NodeKey.noConfusion)
    · rw [hother j hji] at hj
      exact h.inside j hj
  · intro j hj
    rw [hvals, hnext]
    exact h.empty j (hnil j hj)
  · intro j b hj
    rw [hvals]
    by_cases hji : j = i
    · rw [hji]
      exact hval
    · rw [hother j hji] at hj
      exact h.dead j b hj
  · intro j x hj
    rw [hnext, hmain]
    exact h.found j x (hold j x hj)
  · intro j j' x hj hj'
    exact h.unique j j' x (hold j x hj) (hold j' x hj')
  · intro j hj j' x hj'
    rw [hmain]
    refine h.home j ?_ j' x (hold j' x hj')
    rcases hj with hj | ⟨y, hy, hne⟩
    · exact Or.inl (hnil j hj)
    · rw [hmain] at hne
      exact Or.inr ⟨y, hold j y hy, hne⟩
  · intro j x hj
    exact h.proper j x (hold j x hj)
  · intro j x hj
    rw [hin]
    exact h.apart j x (hold j x hj)

theorem HashSound.deadKey_lookup (h : t.HashSound H) (x : Value) :
    (t.setNode i { t.node i with key := .dead a }).lookup H x =
      t.lookup H x := by
  by_cases hin : t.InArray H x
  · rw [lookup_inArray hin]
    exact lookup_inArray hin
  · apply eq_of_same_values
    intro v hv
    rw [(h.deadKey hk hval).lookup_eq_iff hin hv, h.lookup_eq_iff hin hv]
    constructor
    · rintro ⟨j, hj, hjv⟩
      by_cases hji : j = i
      · rw [hji] at hj
        simp [setNode] at hj
      · simp only [setNode, if_neg hji] at hj hjv
        exact ⟨j, hj, hjv⟩
    · rintro ⟨j, hj, hjv⟩
      have hji : j ≠ i := by
        rintro rfl
        rw [hval] at hjv
        exact hv hjv.symm
      refine ⟨j, ?_, ?_⟩
      · simp only [setNode, if_neg hji]
        exact hj
      · simp only [setNode, if_neg hji]
        exact hjv

end DeadKey

/-- The objects that are keys of a table at one time have their own addresses. -/
def DistinctAddresses (H : Hashing) (t : LuaTable) : Prop :=
  forall i j k k', (t.node i).key = .key k -> (t.node j).key = .key k' ->
    k.isCollectable = true -> k'.isCollectable = true ->
      H.address k = H.address k' -> k = k'

theorem Clear.removeentry (hclear : t.Clear H) (h : t.HashSound H)
    (hdistinct : t.DistinctAddresses H) (i : Nat) :
    (t.removeentry H i).Clear H := by
  by_cases hdies : exists k, (t.node i).key = .key k ∧ k.isCollectable = true
  · rcases hdies with ⟨k, hk, hcollect⟩
    have heq : t.removeentry H i =
        t.setNode i { t.node i with key := .dead (H.address k) } := by
      unfold LuaTable.removeentry
      simp only [hk, hcollect, if_true]
    rw [heq]
    have hmain : forall x, (t.setNode i
        { t.node i with key := .dead (H.address k) }).mainposition H x =
          t.mainposition H x := mainposition_congr rfl
    have hnext : (t.setNode i
        { t.node i with key := .dead (H.address k) }).next = t.next := by
      funext j
      unfold setNode next
      simp only
      split
      · rename_i hj
        rw [hj]
      · rfl
    intro j x hx hcollect'
    rw [hmain, hnext]
    have hji : j ≠ i := by
      rintro rfl
      simp [setNode] at hx
    simp only [setNode, if_neg hji] at hx
    refine (hclear j x hx hcollect').mono ?_
    intro p hp
    by_cases hpi : p = i
    · simp only [setNode, if_pos hpi]
      intro hdead
      rw [NodeKey.dead.injEq] at hdead
      have hsame := hdistinct i j k x hk hx hcollect hcollect' hdead
      rw [hsame] at hk
      exact hji (h.unique j i x hx hk)
    · simp only [setNode, if_neg hpi]
      exact hp
  · have heq : t.removeentry H i = t := by
      unfold LuaTable.removeentry
      split
      · rename_i k hk
        split
        · rename_i hcollect
          exact absurd ⟨k, hk, hcollect⟩ hdies
        · rfl
      · rfl
    rw [heq]
    exact hclear

theorem Sound.removeentry (h : t.Sound H) {i : Nat}
    (hval : (t.node i).val = .nil) :
    (t.removeentry H i).Sound H ∧
      forall k, (t.removeentry H i).lookup H k = t.lookup H k := by
  rcases removeentry_cases (H := H) (t := t) i with heq | ⟨k, hk, heq⟩
  · rw [heq]
    exact ⟨h, fun _ => rfl⟩
  · rw [heq]
    refine ⟨⟨h.hash.deadKey hk hval, ?_, h.last, ?_⟩,
      h.hash.deadKey_lookup hk hval⟩
    · intro hdummy j hlast hj
      by_cases hji : j = i
      · rw [hji]
        simp [setNode]
      · simp only [setNode, if_neg hji]
        exact h.freeBefore hdummy j hlast hj
    · intro hdummy
      rcases h.dummy hdummy with ⟨hsize, hlast, hkey⟩
      refine ⟨hsize, hlast, ?_⟩
      have hi : i ≠ 0 := by
        rintro rfl
        rw [hk] at hkey
        cases hkey
      simp only [setNode, if_neg (Ne.symm hi)]
      exact hkey

end LuaTable

end LuaServer
