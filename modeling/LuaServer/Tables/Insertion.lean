import LuaServer.Tables.Lookup

/-!
# Placing a new key

A new key goes to its main position if that is empty.  Otherwise it needs a free
position: if the colliding element is not in its own main position it moves
there, else the new key does.
-/

namespace LuaServer

open Library

/-- What comes of placing a key: a node for it, or a full node vector. -/
inductive Placement where
  | placed (t : LuaTable) (i : Nat)
  | full (t : LuaTable)
  | crash

namespace LuaTable

variable (H : Hashing)

/-- The loop of `getfreepos`, downwards from `lastfree`. -/
def freeposLoop (node : Nat -> Node) : Nat -> Nat × Option Nat
  | 0 => (0, none)
  | i + 1 =>
      if (node i).key = .nil then (i, some i) else freeposLoop node i

def getfreepos (t : LuaTable) : LuaTable × Option Nat :=
  let r := freeposLoop t.node t.lastfree
  ({ t with lastfree := r.1 }, r.2)

def setKey (t : LuaTable) (i : Nat) (key : Value) : LuaTable :=
  t.setNode i { t.node i with key := .key key }

/-- The node on the chain of `othern` whose successor is `mp`. -/
def findPrevious (t : LuaTable) (mp othern : Nat) : Option Nat :=
  chainFind t.next (fun i => decide (t.next i = some mp)) t.sizenode othern

/-- The colliding node moves into the free position `n`. -/
def moveNode (t : LuaTable) (prev mp n : Nat) : LuaTable :=
  let t1 := t.setNode prev { t.node prev with next := some n }
  let t2 := t1.setNode n (t1.node mp)
  t2.setNode mp { t2.node mp with next := none, val := .nil }

/-- The free position `n` is chained behind the main position. -/
def chainNode (t : LuaTable) (mp n : Nat) : LuaTable :=
  let t1 := t.setNode n { t.node n with next := (t.node mp).next }
  t1.setNode mp { t1.node mp with next := some n }

/-- `newkey` up to the rehash of a full table. -/
def place (t : LuaTable) (key : Value) : Placement :=
  let mp := t.mainposition H key
  if (t.node mp).val ≠ .nil ∨ t.dummy = true then
    match t.getfreepos with
    | (t, none) => .full t
    | (t, some n) =>
        let othern := t.mainposition H (t.node mp).key.toValue
        if othern ≠ mp then
          match t.findPrevious mp othern with
          | none => .crash
          | some prev => .placed ((t.moveNode prev mp n).setKey mp key) mp
        else .placed ((t.chainNode mp n).setKey n key) n
  else .placed (t.setKey mp key) mp

variable {H} {t : LuaTable}

/-!
# The free position
-/

theorem freeposLoop_some {node : Nat -> Node} {last n m : Nat}
    (h : freeposLoop node last = (m, some n)) :
    m = n ∧ n < last ∧ (node n).key = .nil ∧
      forall i, n < i -> i < last -> (node i).key ≠ .nil := by
  induction last with
  | zero => cases h
  | succ last ih =>
      simp only [freeposLoop] at h
      split at h
      · rename_i hnil
        cases h
        refine ⟨rfl, Nat.lt_succ_self _, hnil, ?_⟩
        intro i hlow hhigh
        omega
      · rename_i hkey
        rcases ih h with ⟨hm, hlt, hnil, hused⟩
        refine ⟨hm, Nat.lt_succ_of_lt hlt, hnil, ?_⟩
        intro i hlow hhigh
        rcases Nat.lt_or_eq_of_le (Nat.le_of_lt_succ hhigh) with hi | rfl
        · exact hused i hlow hi
        · exact hkey

theorem freeposLoop_none {node : Nat -> Node} {last m : Nat}
    (h : freeposLoop node last = (m, none)) :
    m = 0 ∧ forall i, i < last -> (node i).key ≠ .nil := by
  induction last with
  | zero =>
      cases h
      exact ⟨rfl, fun i hi => absurd hi (Nat.not_lt_zero i)⟩
  | succ last ih =>
      simp only [freeposLoop] at h
      split at h
      · cases h
      · rename_i hkey
        rcases ih h with ⟨hm, hused⟩
        refine ⟨hm, ?_⟩
        intro i hi
        rcases Nat.lt_or_eq_of_le (Nat.le_of_lt_succ hi) with hi | rfl
        · exact hused i hi
        · exact hkey

def FreeBefore (t : LuaTable) : Prop :=
  t.dummy = false -> forall i, t.lastfree ≤ i -> i < t.sizenode ->
    (t.node i).key ≠ .nil

/-!
# Positions do not depend on the nodes
-/

theorem mainposition_congr {t' : LuaTable} (h : t'.lsizenode = t.lsizenode)
    (key : Value) : t'.mainposition H key = t.mainposition H key := by
  have hsize : t'.sizenode = t.sizenode := by
    unfold sizenode
    rw [h]
  cases key with
  | number n =>
      show t'.hashnum H n = t.hashnum H n
      unfold hashnum hashmod
      rw [hsize]
  | string s =>
      show t'.hashpow2 _ = t.hashpow2 _
      unfold hashpow2
      rw [hsize]
  | boolean b =>
      show t'.hashpow2 _ = t.hashpow2 _
      unfold hashpow2
      rw [hsize]
  | nil | lightuserdata | table | cfunction | closure | userdata | thread =>
      show t'.hashmod _ = t.hashmod _
      unfold hashmod
      rw [hsize]

def Entry (t : LuaTable) (k v : Value) : Prop :=
  exists i, (t.node i).key = .key k ∧ (t.node i).val = v

/-- What placing a key leaves as it was. -/
structure SameShape (t t' : LuaTable) : Prop where
  sizearray : t'.sizearray = t.sizearray
  array : t'.array = t.array
  dummy : t'.dummy = t.dummy
  lsizenode : t'.lsizenode = t.lsizenode

/-- A key that is in neither part of the table. -/
structure Absent (H : Hashing) (t : LuaTable) (key : Value) : Prop where
  isKey : key.IsKey
  notInArray : ¬t.InArray H key
  noNode : forall i, (t.node i).key ≠ .key key

/--
On the way to a key the search meets no dead key with the same address: an
object may get the address of one that was collected.
-/
def Clear (H : Hashing) (t : LuaTable) : Prop :=
  forall i k, (t.node i).key = .key k -> k.isCollectable = true ->
    FollowsVia t.next (fun j => (t.node j).key ≠ .dead (H.address k))
      (t.mainposition H k) i

/-- The new key has an empty node, and no other entry is lost or changed. -/
structure Places (H : Hashing) (t : LuaTable) (key : Value) (t' : LuaTable)
    (i : Nat) : Prop where
  shape : SameShape t t'
  sound : t'.HashSound H
  key : (t'.node i).key = .key key
  val : (t'.node i).val = .nil
  entries : forall k v, v ≠ .nil -> (t'.Entry k v <-> t.Entry k v)
  used : forall j, (t.node j).key ≠ .nil -> (t'.node j).key ≠ .nil
  clear : t.Clear H -> t'.Clear H
  fresh : exists n, forall j, (t'.node j).key ≠ .nil ->
    j = n ∨ (t.node j).key ≠ .nil

theorem HashSound.key_of_val (h : t.HashSound H) {i : Nat}
    (hval : (t.node i).val ≠ .nil) : exists k, (t.node i).key = .key k := by
  cases hkey : (t.node i).key with
  | nil => exact absurd (h.empty i hkey).1 hval
  | dead a => exact absurd (h.dead i a hkey) hval
  | key k => exact ⟨k, rfl⟩

section Cases

variable {key : Value} (h : t.HashSound H) (habsent : t.Absent H key)

include h habsent

/--
The nodes after a placement are sound if each kept key, moved from `j` to
`moved j`, is still on the chain of its main position, and no position has lost
its own element.
-/
theorem HashSound.placed {t' : LuaTable} (q : Nat) (moved : Nat -> Nat)
    (hshape : SameShape t t') (hlinear : Linear t'.next)
    (hbound : forall i j, t'.next i = some j ->
      i < t.sizenode ∧ j < t.sizenode)
    (hkeys : forall i k, (t'.node i).key = .key k ->
      (i = q ∧ k = key) ∨ exists j, moved j = i ∧ (t.node j).key = .key k)
    (hinside : forall i, (t'.node i).key ≠ .nil -> i < t.sizenode)
    (hempty : forall i, (t'.node i).key = .nil ->
      (t'.node i).val = .nil ∧ t'.next i = none ∧
        forall j, t'.next j ≠ some i)
    (hdead : forall i a, (t'.node i).key = .dead a -> (t'.node i).val = .nil)
    (hnew : Follows t'.next (t.mainposition H key) q)
    (hfound : forall j k, (t.node j).key = .key k ->
      Follows t'.next (t.mainposition H k) (moved j))
    (hhome : forall i, t'.Homeless H i ->
      t.Homeless H i ∧ t.mainposition H key ≠ i) : t'.HashSound H := by
  have hmain : forall k, t'.mainposition H k = t.mainposition H k :=
    mainposition_congr hshape.lsizenode
  have hsize : t'.sizenode = t.sizenode := by
    unfold sizenode
    rw [hshape.lsizenode]
  have harray : forall k, t'.InArray H k <-> t.InArray H k := by
    intro k
    unfold InArray
    rw [hshape.sizearray]
  constructor
  · exact hlinear
  · rw [hsize]
    exact hbound
  · rw [hsize]
    exact hinside
  · exact hempty
  · exact hdead
  · intro i k hk
    rw [hmain]
    rcases hkeys i k hk with ⟨rfl, rfl⟩ | ⟨j, rfl, hj⟩
    · exact hnew
    · exact hfound j k hj
  · intro i i' k hi hi'
    rcases hkeys i k hi with ⟨rfl, rfl⟩ | ⟨j, rfl, hj⟩
    · rcases hkeys i' _ hi' with ⟨rfl, _⟩ | ⟨j', _, hj'⟩
      · rfl
      · exact absurd hj' (habsent.noNode j')
    · rcases hkeys i' k hi' with ⟨_, rfl⟩ | ⟨j', rfl, hj'⟩
      · exact absurd hj (habsent.noNode j)
      · rw [h.unique j j' k hj hj']
  · intro i hi i' k hk
    rw [hmain]
    rcases hhome i hi with ⟨hless, hne⟩
    rcases hkeys i' k hk with ⟨_, rfl⟩ | ⟨j, _, hj⟩
    · exact hne
    · exact h.home i hless j k hj
  · intro i k hk
    rcases hkeys i k hk with ⟨_, rfl⟩ | ⟨j, _, hj⟩
    · exact habsent.isKey
    · exact h.proper j k hj
  · intro i k hk
    rw [harray]
    rcases hkeys i k hk with ⟨_, rfl⟩ | ⟨j, _, hj⟩
    · exact habsent.notInArray
    · exact h.apart j k hj

theorem places_home (hval : (t.node (t.mainposition H key)).val = .nil) :
    Places H t key (t.setKey (t.mainposition H key) key)
      (t.mainposition H key) := by
  have hmain : forall k, (t.setKey (t.mainposition H key) key).mainposition H k
      = t.mainposition H k := mainposition_congr rfl
  have hlt : t.mainposition H key < t.sizenode := mainposition_lt key
  have hnext : (t.setKey (t.mainposition H key) key).next = t.next := by
    funext i
    unfold setKey setNode next
    simp only
    split
    · rename_i hi
      rw [hi]
    · rfl
  have hself : ((t.setKey (t.mainposition H key) key).node
      (t.mainposition H key)).key = .key key := by
    simp [setKey, setNode]
  have hother : forall i, i ≠ t.mainposition H key ->
      (t.setKey (t.mainposition H key) key).node i = t.node i := by
    intro i hi
    simp [setKey, setNode, hi]
  have hvals : forall i, ((t.setKey (t.mainposition H key) key).node i).val =
      (t.node i).val := by
    intro i
    by_cases hi : i = t.mainposition H key
    · rw [hi]
      simp [setKey, setNode]
    · rw [hother i hi]
  have hkept : forall i, (t.node i).val ≠ .nil ->
      i ≠ t.mainposition H key := by
    rintro i hi rfl
    exact hi hval
  generalize hmp : t.mainposition H key = mp at *
  generalize ht' : t.setKey mp key = t' at *
  have hne : forall i, (t'.node i).key ≠ .key key -> i ≠ mp := by
    rintro i hi rfl
    exact hi hself
  have hshape : SameShape t t' := by
    rw [← ht']
    exact ⟨rfl, rfl, rfl, rfl⟩
  refine ⟨hshape, ?_, hself, (hvals mp).trans hval, ?_, ?_, ?_, mp, ?_⟩
  · refine h.placed habsent mp id hshape ?_ ?_ ?_ ?_ ?_ ?_ ?_ ?_ ?_
    · rw [hnext]
      exact h.linear
    · rw [hnext]
      exact h.bound
    · intro i k hk
      by_cases hi : i = mp
      · rw [hi, hself] at hk
        cases hk
        exact Or.inl ⟨hi, rfl⟩
      · rw [hother i hi] at hk
        exact Or.inr ⟨i, rfl, hk⟩
    · intro i hkey
      by_cases hi : i = mp
      · rw [hi]
        exact hlt
      · rw [hother i hi] at hkey
        exact h.inside i hkey
    · intro i hkey
      have hi := hne i (by rw [hkey]; exact NodeKey.noConfusion)
      rw [hother i hi] at hkey ⊢
      rw [hnext]
      exact h.empty i hkey
    · intro i a hkey
      have hi := hne i (by rw [hkey]; exact NodeKey.noConfusion)
      rw [hother i hi] at hkey ⊢
      exact h.dead i a hkey
    · rw [hmp]
      exact Follows.refl mp
    · rw [hnext]
      exact h.found
    · intro i hless
      have hi : i ≠ mp := by
        rintro rfl
        rcases hless with hnil | ⟨k, hk, hk'⟩
        · rw [hself] at hnil
          cases hnil
        · rw [hself] at hk
          cases hk
          exact hk' ((hmain key).trans hmp)
      refine ⟨?_, by rw [hmp]; exact Ne.symm hi⟩
      unfold Homeless at hless ⊢
      simp only [hother i hi, hmain] at hless
      exact hless
  · intro k v hv
    constructor
    · rintro ⟨i, hi, hiv⟩
      rw [hvals] at hiv
      have hmpi := hkept i (by rw [hiv]; exact hv)
      rw [hother i hmpi] at hi
      exact ⟨i, hi, hiv⟩
    · rintro ⟨i, hi, hiv⟩
      have hmpi := hkept i (by rw [hiv]; exact hv)
      exact ⟨i, by rw [hother i hmpi]; exact hi, (hvals i).trans hiv⟩
  · intro j hj
    by_cases hi : j = mp
    · rw [hi, hself]
      exact NodeKey.noConfusion
    · rw [hother j hi]
      exact hj
  · intro hclear i k hk hcollect
    rw [hnext, hmain]
    by_cases hi : i = mp
    · rw [hi, hself] at hk
      cases hk
      rw [hi, hmp]
      exact FollowsVia.refl mp
    · rw [hother i hi] at hk
      refine (hclear i k hk hcollect).mono ?_
      intro j hj
      by_cases hjm : j = mp
      · rw [hjm, hself]
        exact NodeKey.noConfusion
      · rw [hother j hjm]
        exact hj
  · intro j hj
    by_cases hi : j = mp
    · exact Or.inl hi
    · rw [hother j hi] at hj
      exact Or.inr hj

section Chained

variable {mp n : Nat} (hmp : t.mainposition H key = mp)
variable (hmpkey : (t.node mp).key ≠ .nil) (hhome : ¬t.Homeless H mp)
variable (hmpdead : forall a, (t.node mp).key ≠ .dead a)
variable (hfree : (t.node n).key = .nil) (hn : n < t.sizenode)

include hmp hmpkey hhome hmpdead hfree hn

/-- The colliding element is at home: the new key goes behind it. -/
theorem places_chained :
    Places H t key ((t.chainNode mp n).setKey n key) n := by
  have hne : n ≠ mp := by
    rintro rfl
    exact hmpkey hfree
  have hmplt : mp < t.sizenode := hmp ▸ mainposition_lt key
  have hmain : forall k, ((t.chainNode mp n).setKey n key).mainposition H k =
      t.mainposition H k := mainposition_congr rfl
  have hnext : ((t.chainNode mp n).setKey n key).next =
      insertAfter t.next mp n := by
    funext i
    unfold setKey chainNode setNode next insertAfter
    by_cases hin : i = n
    · simp [hin, hne]
    · by_cases him : i = mp
      · simp [him, Ne.symm hne]
      · simp [hin, him]
  have hself : (((t.chainNode mp n).setKey n key).node n).key = .key key := by
    simp [setKey, setNode]
  have hother : forall i, i ≠ n ->
      (((t.chainNode mp n).setKey n key).node i).key = (t.node i).key := by
    intro i hi
    by_cases him : i = mp
    · simp [setKey, chainNode, setNode, him, Ne.symm hne]
    · simp [setKey, chainNode, setNode, hi, him]
  have hvals : forall i, (((t.chainNode mp n).setKey n key).node i).val =
      (t.node i).val := by
    intro i
    by_cases hin : i = n
    · simp [setKey, chainNode, setNode, hin, hne]
    · by_cases him : i = mp
      · simp [setKey, chainNode, setNode, him, Ne.symm hne]
      · simp [setKey, chainNode, setNode, hin, him]
  generalize ht' : (t.chainNode mp n).setKey n key = t' at *
  have hshape : SameShape t t' := by
    rw [← ht']
    exact ⟨rfl, rfl, rfl, rfl⟩
  rcases h.empty n hfree with ⟨hnval, hnend, hnfresh⟩
  have hnew : forall i, (t'.node i).key ≠ .key key -> i ≠ n := by
    rintro i hi rfl
    exact hi hself
  have hused : forall i, (t.node i).key ≠ .nil -> i ≠ n := by
    rintro i hi rfl
    exact hi hfree
  refine ⟨hshape, ?_, hself, (hvals n).trans hnval, ?_, ?_, ?_, n, ?_⟩
  · refine h.placed habsent n id hshape ?_ ?_ ?_ ?_ ?_ ?_ ?_ ?_ ?_
    · rw [hnext]
      exact h.linear.insertAfter hnend hnfresh hne
    · intro i j hij
      rw [hnext] at hij
      unfold insertAfter at hij
      split at hij
      · rename_i him
        cases hij
        exact ⟨him ▸ hmplt, hn⟩
      · split at hij
        · rename_i hin
          exact ⟨hin ▸ hn, (h.bound mp j hij).2⟩
        · exact h.bound i j hij
    · intro i k hk
      by_cases hi : i = n
      · rw [hi, hself] at hk
        cases hk
        exact Or.inl ⟨hi, rfl⟩
      · rw [hother i hi] at hk
        exact Or.inr ⟨i, rfl, hk⟩
    · intro i hkey
      by_cases hi : i = n
      · rw [hi]
        exact hn
      · rw [hother i hi] at hkey
        exact h.inside i hkey
    · intro i hkey
      have hi := hnew i (by rw [hkey]; exact NodeKey.noConfusion)
      rw [hother i hi] at hkey
      rcases h.empty i hkey with ⟨hval, hend, hfresh⟩
      have him : i ≠ mp := by
        rintro rfl
        exact hmpkey hkey
      refine ⟨(hvals i).trans hval, ?_, ?_⟩
      · rw [hnext, insertAfter_other him hi]
        exact hend
      · intro j hj
        rw [hnext] at hj
        unfold insertAfter at hj
        split at hj
        · cases hj
          exact hi rfl
        · split at hj
          · exact hfresh mp hj
          · exact hfresh j hj
    · intro i a hkey
      have hi := hnew i (by rw [hkey]; exact NodeKey.noConfusion)
      rw [hother i hi] at hkey
      rw [hvals]
      exact h.dead i a hkey
    · rw [hnext, hmp]
      exact (Follows.refl mp).tail insertAfter_self
    · intro j k hk
      rw [hnext]
      exact (h.found j k hk).insertAfter hnend hne
    · intro i hless
      by_cases hi : i = n
      · rw [hi, hmp]
        exact ⟨Or.inl hfree, Ne.symm hne⟩
      · have hold : t.Homeless H i := by
          unfold Homeless at hless ⊢
          simp only [hother i hi, hmain] at hless
          exact hless
        refine ⟨hold, ?_⟩
        rw [hmp]
        rintro rfl
        exact hhome hold
  · intro k v hv
    constructor
    · rintro ⟨i, hi, hiv⟩
      rw [hvals] at hiv
      have hin : i ≠ n := by
        rintro rfl
        rw [hnval] at hiv
        exact hv hiv.symm
      rw [hother i hin] at hi
      exact ⟨i, hi, hiv⟩
    · rintro ⟨i, hi, hiv⟩
      have hin := hused i (by rw [hi]; exact NodeKey.noConfusion)
      exact ⟨i, by rw [hother i hin]; exact hi, (hvals i).trans hiv⟩
  · intro j hj
    rw [hother j (hused j hj)]
    exact hj
  · intro hclear i k hk hcollect
    rw [hnext, hmain]
    have hkeep : forall j, (t.node j).key ≠ .dead (H.address k) ->
        (t'.node j).key ≠ .dead (H.address k) := by
      intro j hj
      by_cases hjn : j = n
      · rw [hjn, hself]
        exact NodeKey.noConfusion
      · rw [hother j hjn]
        exact hj
    have hnew' : (t'.node n).key ≠ .dead (H.address k) := by
      rw [hself]
      exact NodeKey.noConfusion
    by_cases hi : i = n
    · rw [hi, hself] at hk
      cases hk
      rw [hi, hmp]
      refine (FollowsVia.refl mp).tail (hkeep mp ?_) insertAfter_self
      intro hdead
      exact hmpdead _ hdead
    · rw [hother i hi] at hk
      exact (hclear i k hk hcollect).insertAfter hnend hne hkeep hnew'
  · intro j hj
    by_cases hi : j = n
    · exact Or.inl hi
    · rw [hother j hi] at hj
      exact Or.inr hj

end Chained

section Moved

variable {mp n prev : Nat} {old : Value} (hmp : t.mainposition H key = mp)
variable (hold : (t.node mp).key = .key old)
variable (hprev : t.next prev = some mp)
variable (hfree : (t.node n).key = .nil) (hn : n < t.sizenode)

include hmp hold hprev hfree hn

/-- The colliding element is not at home: it moves to the free position. -/
theorem places_moved (hless : t.mainposition H old ≠ mp) :
    Places H t key ((t.moveNode prev mp n).setKey mp key) mp ∧
      (((t.moveNode prev mp n).setKey mp key).node n).key ≠ .nil := by
  have hne : n ≠ mp := by
    rintro rfl
    rw [hold] at hfree
    cases hfree
  rcases h.empty n hfree with ⟨hnval, hnend, hnfresh⟩
  have hprevmp : prev ≠ mp := h.linear.ne_of_next hprev
  have hprevn : prev ≠ n := by
    rintro rfl
    rw [hnend] at hprev
    cases hprev
  have hmain : forall k,
      ((t.moveNode prev mp n).setKey mp key).mainposition H k =
        t.mainposition H k := mainposition_congr rfl
  have hnext : ((t.moveNode prev mp n).setKey mp key).next =
      takeOver t.next prev mp n := by
    funext i
    unfold setKey moveNode setNode next takeOver
    by_cases hip : i = prev
    · simp [hip, hprevmp, hprevn]
    · by_cases hin : i = n
      · simp [hin, hne, Ne.symm hprevn, Ne.symm hprevmp]
      · by_cases him : i = mp
        · simp [him, Ne.symm hprevmp, Ne.symm hne]
        · simp [hip, hin, him]
  have hself : (((t.moveNode prev mp n).setKey mp key).node mp).key =
      .key key := by
    simp [setKey, setNode]
  have hselfval : (((t.moveNode prev mp n).setKey mp key).node mp).val =
      .nil := by
    simp [setKey, moveNode, setNode]
  have hnew : (((t.moveNode prev mp n).setKey mp key).node n).key =
      .key old := by
    simp [setKey, moveNode, setNode, hne, Ne.symm hprevmp, hold]
  have hnewval : (((t.moveNode prev mp n).setKey mp key).node n).val =
      (t.node mp).val := by
    simp [setKey, moveNode, setNode, hne, Ne.symm hprevmp]
  have hother : forall i, i ≠ n -> i ≠ mp ->
      (((t.moveNode prev mp n).setKey mp key).node i).key = (t.node i).key ∧
        (((t.moveNode prev mp n).setKey mp key).node i).val =
          (t.node i).val := by
    intro i hin him
    by_cases hip : i = prev
    · simp [setKey, moveNode, setNode, hip, hprevn, hprevmp]
    · simp [setKey, moveNode, setNode, hin, him, hip]
  generalize ht' : (t.moveNode prev mp n).setKey mp key = t' at *
  have hshape : SameShape t t' := by
    rw [← ht']
    exact ⟨rfl, rfl, rfl, rfl⟩
  have hmplt : mp < t.sizenode := hmp ▸ mainposition_lt key
  have hless' : t.Homeless H mp := Or.inr ⟨old, hold, hless⟩
  have hused : forall i, (t.node i).key ≠ .nil -> i ≠ n := by
    rintro i hi rfl
    exact hi hfree
  refine ⟨⟨hshape, ?_, hself, hselfval, ?_, ?_, ?_, n, ?_⟩,
    by rw [hnew]; exact NodeKey.noConfusion⟩
  · refine h.placed habsent mp (fun j => if j = mp then n else j) hshape ?_ ?_
      ?_ ?_ ?_ ?_ ?_ ?_ ?_
    · rw [hnext]
      exact h.linear.takeOver hprev hnend hnfresh
    · intro i j hij
      rw [hnext] at hij
      rcases takeOver_cases hij with ⟨rfl, rfl⟩ | ⟨rfl, _, hj⟩ | ⟨_, _, _, hj⟩
      · exact ⟨(h.bound _ _ hprev).1, hn⟩
      · exact ⟨hn, (h.bound _ _ hj).2⟩
      · exact h.bound _ _ hj
    · intro i k hk
      by_cases him : i = mp
      · rw [him, hself] at hk
        cases hk
        exact Or.inl ⟨him, rfl⟩
      · by_cases hin : i = n
        · rw [hin, hnew] at hk
          cases hk
          exact Or.inr ⟨mp, (if_pos rfl).trans hin.symm, hold⟩
        · rw [(hother i hin him).1] at hk
          exact Or.inr ⟨i, if_neg him, hk⟩
    · intro i hkey
      by_cases him : i = mp
      · rw [him]
        exact hmplt
      · by_cases hin : i = n
        · rw [hin]
          exact hn
        · rw [(hother i hin him).1] at hkey
          exact h.inside i hkey
    · intro i hkey
      have him : i ≠ mp := by
        rintro rfl
        rw [hself] at hkey
        cases hkey
      have hin : i ≠ n := by
        rintro rfl
        rw [hnew] at hkey
        cases hkey
      rw [(hother i hin him).1] at hkey
      rcases h.empty i hkey with ⟨hval, hend, hfresh⟩
      have hip : i ≠ prev := by
        rintro rfl
        rw [hend] at hprev
        cases hprev
      refine ⟨(hother i hin him).2.trans hval, ?_, ?_⟩
      · rw [hnext, takeOver_other hip hin him]
        exact hend
      · intro j hj
        rw [hnext] at hj
        rcases takeOver_cases hj with ⟨_, hi⟩ | ⟨_, _, hj⟩ | ⟨_, _, _, hj⟩
        · exact hin hi
        · exact hfresh _ hj
        · exact hfresh _ hj
    · intro i a hkey
      have him : i ≠ mp := by
        rintro rfl
        rw [hself] at hkey
        cases hkey
      have hin : i ≠ n := by
        rintro rfl
        rw [hnew] at hkey
        cases hkey
      rw [(hother i hin him).1] at hkey
      rw [(hother i hin him).2]
      exact h.dead i a hkey
    · rw [hmp]
      exact Follows.refl mp
    · intro j k hk
      rw [hnext]
      have hstart : t.mainposition H k ≠ mp := h.home mp hless' j k hk
      exact Follows.takeOver h.linear hprev hnend hnfresh hstart
        (h.found j k hk)
    · intro i hi
      have him : i ≠ mp := by
        rintro rfl
        rcases hi with hnil | ⟨k, hk, hk'⟩
        · rw [hself] at hnil
          cases hnil
        · rw [hself] at hk
          cases hk
          exact hk' ((hmain key).trans hmp)
      refine ⟨?_, by rw [hmp]; exact Ne.symm him⟩
      by_cases hin : i = n
      · rw [hin]
        exact Or.inl hfree
      · unfold Homeless at hi ⊢
        simp only [(hother i hin him).1, hmain] at hi
        exact hi
  · intro k v hv
    constructor
    · rintro ⟨i, hi, hiv⟩
      have him : i ≠ mp := by
        rintro rfl
        rw [hselfval] at hiv
        exact hv hiv.symm
      by_cases hin : i = n
      · rw [hin, hnew] at hi
        rw [hin, hnewval] at hiv
        exact ⟨mp, by rw [hold]; exact hi, hiv⟩
      · rw [(hother i hin him).1] at hi
        rw [(hother i hin him).2] at hiv
        exact ⟨i, hi, hiv⟩
    · rintro ⟨i, hi, hiv⟩
      by_cases him : i = mp
      · rw [him] at hi hiv
        rw [hold] at hi
        exact ⟨n, hnew.trans hi, hnewval.trans hiv⟩
      · have hin := hused i (by rw [hi]; exact NodeKey.noConfusion)
        exact ⟨i, (hother i hin him).1.trans hi,
          (hother i hin him).2.trans hiv⟩
  · intro j hj
    by_cases hjm : j = mp
    · rw [hjm, hself]
      exact NodeKey.noConfusion
    · rw [(hother j (hused j hj) hjm).1]
      exact hj
  · intro hclear i k hk hcollect
    rw [hnext, hmain]
    by_cases him : i = mp
    · rw [him, hself] at hk
      cases hk
      rw [him, hmp]
      exact FollowsVia.refl mp
    · have hkeep : forall j, (t.node j).key ≠ .dead (H.address k) ->
          (t'.node j).key ≠ .dead (H.address k) := by
        intro j hj
        by_cases hjm : j = mp
        · rw [hjm, hself]
          exact NodeKey.noConfusion
        · by_cases hjn : j = n
          · rw [hjn, hnew]
            exact NodeKey.noConfusion
          · rw [(hother j hjn hjm).1]
            exact hj
      have hnew' : (t'.node n).key ≠ .dead (H.address k) := by
        rw [hnew]
        exact NodeKey.noConfusion
      by_cases hin : i = n
      · rw [hin, hnew] at hk
        cases hk
        have hway := FollowsVia.takeOver h.linear hprev hnend hnfresh hless
          hkeep hnew' (hclear mp _ hold hcollect)
        rw [if_pos rfl] at hway
        rw [hin]
        exact hway
      · rw [(hother i hin him).1] at hk
        have hway := FollowsVia.takeOver h.linear hprev hnend hnfresh
          (h.home mp hless' i k hk) hkeep hnew' (hclear i k hk hcollect)
        rw [if_neg him] at hway
        exact hway
  · intro j hj
    by_cases hjn : j = n
    · exact Or.inl hjn
    · right
      by_cases hjm : j = mp
      · rw [hjm, hold]
        exact NodeKey.noConfusion
      · rw [(hother j hjn hjm).1] at hj
        exact hj

end Moved

end Cases

/-!
# Placing a key
-/

/-- The table between two operations. -/
structure Sound (H : Hashing) (t : LuaTable) : Prop where
  hash : t.HashSound H
  freeBefore : t.FreeBefore
  last : t.lastfree ≤ t.sizenode
  dummy : t.dummy = true ->
    t.lsizenode = 0 ∧ t.lastfree = 0 ∧ (t.node 0).key = .nil

theorem HashSound.withLastfree (h : t.HashSound H) (n : Nat) :
    ({ t with lastfree := n } : LuaTable).HashSound H := by
  have hmain : forall k, ({ t with lastfree := n } : LuaTable).mainposition H k
      = t.mainposition H k := mainposition_congr rfl
  refine ⟨h.linear, h.bound, h.inside, h.empty, h.dead, ?_, h.unique, ?_,
    h.proper, h.apart⟩
  · intro i k hk
    rw [hmain]
    exact h.found i k hk
  · intro i hi j k hk
    unfold Homeless at hi
    simp only [hmain] at hi ⊢
    exact h.home i hi j k hk

theorem Clear.withLastfree (h : t.Clear H) (n : Nat) :
    ({ t with lastfree := n } : LuaTable).Clear H := by
  have hmain : forall k, ({ t with lastfree := n } : LuaTable).mainposition H k
      = t.mainposition H k := mainposition_congr rfl
  intro i k hk hcollect
  rw [hmain]
  exact h i k hk hcollect

theorem Absent.withLastfree {key : Value} (h : t.Absent H key) (n : Nat) :
    ({ t with lastfree := n } : LuaTable).Absent H key :=
  ⟨h.isKey, h.notInArray, h.noNode⟩

theorem Places.withLastfree {key : Value} {n i : Nat} {t' : LuaTable}
    (h : Places H { t with lastfree := n } key t' i) :
    Places H t key t' i :=
  ⟨⟨h.shape.sizearray, h.shape.array, h.shape.dummy, h.shape.lsizenode⟩,
    h.sound, h.key, h.val, h.entries, h.used,
    fun hclear => h.clear (hclear.withLastfree n), h.fresh⟩

theorem HashSound.findPrevious_some (h : t.HashSound H) {mp : Nat}
    {old : Value} (hold : (t.node mp).key = .key old)
    (hless : t.mainposition H old ≠ mp) :
    exists prev, t.findPrevious mp (t.mainposition H old) = some prev ∧
      t.next prev = some mp := by
  rcases (h.found mp old hold).pred with heq | ⟨j, hj, hjmp⟩
  · exact absurd heq.symm hless
  · have hsome := h.linear.chainFind_isSome h.next_lt
      (fun i => decide (t.next i = some mp)) (mainposition_lt old) hj
      (by simpa using hjmp)
    rcases Option.isSome_iff_exists.mp hsome with ⟨prev, hprev⟩
    exact ⟨prev, hprev, by simpa using (chainFind_sound hprev).2⟩

/-- A key that is nowhere gets an empty node, or the node vector is full. -/
theorem Sound.place_cases (h : t.Sound H) {key : Value}
    (habsent : t.Absent H key) :
    (exists t' i, t.place H key = .placed t' i ∧ Places H t key t' i ∧
      t'.Sound H) ∨
    (t.place H key = .full { t with lastfree := 0 } ∧
      (t.dummy = false -> forall i, i < t.sizenode ->
        (t.node i).key ≠ .nil)) := by
  by_cases hcond : (t.node (t.mainposition H key)).val ≠ .nil ∨ t.dummy = true
  · cases hfree : freeposLoop t.node t.lastfree with
    | mk m result =>
        cases result with
        | none =>
            right
            rcases freeposLoop_none hfree with ⟨rfl, hused⟩
            constructor
            · unfold place getfreepos
              simp only [if_pos hcond, hfree]
            · intro hdummy i hi
              rcases Nat.lt_or_ge i t.lastfree with hlt | hge
              · exact hused i hlt
              · exact h.freeBefore hdummy i hge hi
        | some n =>
            left
            rcases freeposLoop_some hfree with ⟨rfl, hlast, hnil, hused⟩
            have hdummy : t.dummy = false := by
              cases hd : t.dummy with
              | false => rfl
              | true =>
                  rw [(h.dummy hd).2.1] at hlast
                  exact absurd hlast (Nat.not_lt_zero _)
            have hval : (t.node (t.mainposition H key)).val ≠ .nil := by
              rcases hcond with hval | hd
              · exact hval
              · rw [hdummy] at hd
                cases hd
            rcases h.hash.key_of_val hval with ⟨old, hold⟩
            have hu := h.hash.withLastfree m
            have habsent' := habsent.withLastfree m
            have hmain : forall k,
                ({ t with lastfree := m } : LuaTable).mainposition H k =
                  t.mainposition H k := mainposition_congr rfl
            have hm : m < t.sizenode := Nat.lt_of_lt_of_le hlast h.last
            have hbefore : forall i, i ≠ m -> m ≤ i -> i < t.sizenode ->
                (t.node i).key ≠ .nil := by
              intro i hne hle hi
              rcases Nat.lt_or_ge i t.lastfree with hlt | hge
              · exact hused i (by omega) hlt
              · exact h.freeBefore hdummy i hge hi
            by_cases hless : t.mainposition H old ≠ t.mainposition H key
            · rcases hu.findPrevious_some hold
                (by rw [hmain]; exact hless) with ⟨prev, hfind, hprev⟩
              rcases places_moved hu habsent' (hmain key) hold hprev hnil hm
                (by rw [hmain]; exact hless) with ⟨hplaces, hnew⟩
              refine ⟨_, _, ?_, hplaces.withLastfree, hplaces.sound, ?_, ?_, ?_⟩
              · unfold place getfreepos
                rw [hmain] at hfind
                simp only [if_pos hcond, hfree, hold, NodeKey.toValue, hmain,
                  if_pos hless, hfind]
              · intro _ i hi hlt
                by_cases him : i = m
                · rw [him]
                  exact hnew
                · exact hplaces.used i (hbefore i him hi hlt)
              · exact Nat.le_of_lt hm
              · intro hd
                rw [show _ = false from hdummy] at hd
                cases hd
            · have hhome : ¬({ t with lastfree := m } : LuaTable).Homeless H
                  (t.mainposition H key) := by
                rintro (hkey | ⟨k, hk, hne⟩)
                · rw [show _ = NodeKey.key old from hold] at hkey
                  cases hkey
                · rw [show _ = NodeKey.key old from hold] at hk
                  cases hk
                  rw [hmain] at hne
                  exact hless hne
              have hplaces := places_chained hu habsent' (hmain key)
                (by rw [show _ = NodeKey.key old from hold]; exact
                  NodeKey.noConfusion) hhome
                (by rw [show _ = NodeKey.key old from hold]; exact
                  fun _ => NodeKey.noConfusion) hnil hm
              refine ⟨_, _, ?_, hplaces.withLastfree, hplaces.sound, ?_, ?_, ?_⟩
              · unfold place getfreepos
                simp only [if_pos hcond, hfree, hold, NodeKey.toValue, hmain,
                  if_neg hless]
              · intro _ i hi hlt
                by_cases him : i = m
                · rw [him, hplaces.key]
                  exact NodeKey.noConfusion
                · exact hplaces.used i (hbefore i him hi hlt)
              · exact Nat.le_of_lt hm
              · intro hd
                rw [show _ = false from hdummy] at hd
                cases hd
  · left
    rw [not_or, not_not] at hcond
    have hplaces := places_home h.hash habsent hcond.1
    refine ⟨_, _, ?_, hplaces, hplaces.sound, ?_, ?_, ?_⟩
    · unfold place
      simp only [hcond.1, hcond.2, ne_eq, not_true_eq_false, false_or]
      rfl
    · intro hdummy i hlast hi
      exact hplaces.used i (h.freeBefore hdummy i hlast hi)
    · exact h.last
    · intro hdummy
      exact absurd hdummy hcond.2

end LuaTable

end LuaServer
