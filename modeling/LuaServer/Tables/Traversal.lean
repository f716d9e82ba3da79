import LuaServer.Tables.Runs

/-!
# Traversal

A traversal goes through the positions of a table, first those of the array part
and then the nodes.  It may assign to the fields that it finds, and the collector
may take the keys of those that it empties.
-/

namespace LuaServer

open Library

namespace LuaTable

section Next

variable (H : Hashing)

/-- The test of `findindex`: a dead key is known by the address of its object. -/
def isTraversed (key : Value) : NodeKey -> Bool
  | .nil => false
  | .dead a => key.isCollectable && decide (a = H.address key)
  | .key k => k.rawEqual key

/-- `findindex`; there is none for an invalid key to `next`. -/
def findindex (t : LuaTable) (key : Value) : Option Int :=
  if key = .nil then some (-1)
  else
    let i := arrayindex H key
    if 0 < i ∧ i ≤ t.sizearray then some (i - 1)
    else
      (t.findNode (isTraversed H key) (t.mainposition H key)).map
        fun i : Nat => (i : Int) + t.sizearray

/-- The loop of `luaH_next` over the array part. -/
def nextInArray (t : LuaTable) : Nat -> Nat -> Option (Value × Value)
  | 0, _ => none
  | fuel + 1, i =>
      if t.array i ≠ .nil then
        some (.number (.ofInt ((i : Int) + 1)), t.array i)
      else nextInArray t fuel (i + 1)

/-- The loop of `luaH_next` over the nodes. -/
def nextInNodes (t : LuaTable) : Nat -> Nat -> Option (Value × Value)
  | 0, _ => none
  | fuel + 1, i =>
      if (t.node i).val ≠ .nil then
        some ((t.node i).key.toValue, (t.node i).val)
      else nextInNodes t fuel (i + 1)

/--
`luaH_next`: the next key with its value, if there is one; none at all for an
invalid key.
-/
def luaHNext (t : LuaTable) (key : Value) : Option (Option (Value × Value)) :=
  match t.findindex H key with
  | none => none
  | some index =>
      let i := (index + 1).toNat
      match t.nextInArray (t.sizearray - i) i with
      | some entry => some (some entry)
      | none =>
          let i := max i t.sizearray - t.sizearray
          some (t.nextInNodes (t.sizenode - i) i)

end Next

variable {H : Hashing} {t t' : LuaTable}

/-!
# Positions
-/

def positions (t : LuaTable) : Nat := t.sizearray + t.sizenode

def valueAtPosition (t : LuaTable) (p : Nat) : Value :=
  if p < t.sizearray then t.array p else (t.node (p - t.sizearray)).val

def keyAtPosition (t : LuaTable) (p : Nat) : Value :=
  if p < t.sizearray then .number (.ofInt ((p : Int) + 1))
  else (t.node (p - t.sizearray)).key.toValue

/-- What `luaH_next` finds from a position on. -/
def FirstFrom (t : LuaTable) (p : Nat) : Option (Value × Value) -> Prop
  | none => forall r, p ≤ r -> r < t.positions -> t.valueAtPosition r = .nil
  | some entry => exists q, p ≤ q ∧ q < t.positions ∧
      t.valueAtPosition q ≠ .nil ∧
      (forall r, p ≤ r -> r < q -> t.valueAtPosition r = .nil) ∧
      entry = (t.keyAtPosition q, t.valueAtPosition q)

def firstValue (val : Nat -> Value) : Nat -> Nat -> Option Nat
  | 0, _ => none
  | fuel + 1, i =>
      if val i ≠ .nil then some i else firstValue val fuel (i + 1)

theorem firstValue_cases (val : Nat -> Value) {fuel i n : Nat}
    (hfuel : fuel + i = n) :
    (firstValue val fuel i = none ∧
      forall r, i ≤ r -> r < n -> val r = .nil) ∨
    exists q, firstValue val fuel i = some q ∧ i ≤ q ∧ q < n ∧
      val q ≠ .nil ∧ forall r, i ≤ r -> r < q -> val r = .nil := by
  induction fuel generalizing i with
  | zero =>
      refine Or.inl ⟨rfl, ?_⟩
      intro r hr hlt
      omega
  | succ fuel ih =>
      rw [firstValue]
      split
      · rename_i hval
        refine Or.inr ⟨i, rfl, Nat.le_refl i, by omega, hval, ?_⟩
        intro r hr hlt
        omega
      · rename_i hval
        rw [not_not] at hval
        have hfirst : forall {r}, i ≤ r ->
            (i + 1 ≤ r -> val r = .nil) -> val r = .nil := by
          intro r hr hrest
          rcases Nat.eq_or_lt_of_le hr with rfl | hr
          · exact hval
          · exact hrest hr
        rcases ih (i := i + 1) (by omega) with ⟨hnone, hall⟩ |
          ⟨q, hsome, hiq, hq, hqval, hall⟩
        · exact Or.inl ⟨hnone, fun r hr hlt => hfirst hr
            fun hr' => hall r hr' hlt⟩
        · exact Or.inr ⟨q, hsome, by omega, hq, hqval,
            fun r hr hlt => hfirst hr fun hr' => hall r hr' hlt⟩

theorem nextInArray_eq (fuel i : Nat) :
    t.nextInArray fuel i = (firstValue t.array fuel i).map fun q =>
      (.number (.ofInt ((q : Int) + 1)), t.array q) := by
  induction fuel generalizing i with
  | zero => rfl
  | succ fuel ih =>
      rw [nextInArray, firstValue]
      split
      · rfl
      · exact ih (i + 1)

theorem nextInNodes_eq (fuel i : Nat) :
    t.nextInNodes fuel i =
      (firstValue (fun j => (t.node j).val) fuel i).map fun q =>
        ((t.node q).key.toValue, (t.node q).val) := by
  induction fuel generalizing i with
  | zero => rfl
  | succ fuel ih =>
      rw [nextInNodes, firstValue]
      split
      · rfl
      · exact ih (i + 1)

theorem luaHNext_of_findindex {key : Value} {index : Int}
    (hindex : t.findindex H key = some index)
    (hlow : -1 ≤ index) (hhigh : index < t.positions) :
    exists found, t.luaHNext H key = some found ∧
      t.FirstFrom (index + 1).toNat found := by
  unfold luaHNext
  simp only [hindex]
  generalize hp : (index + 1).toNat = p
  have hple : p ≤ t.positions := by omega
  unfold positions at hple
  -- the array part, or nothing if the position is behind it
  have harray : (firstValue t.array (t.sizearray - p) p = none ∧
      forall r, p ≤ r -> r < t.sizearray -> t.array r = .nil) ∨
      exists q, firstValue t.array (t.sizearray - p) p = some q ∧ p ≤ q ∧
        q < t.sizearray ∧ t.array q ≠ .nil ∧
          forall r, p ≤ r -> r < q -> t.array r = .nil := by
    by_cases hin : p ≤ t.sizearray
    · exact firstValue_cases t.array (Nat.sub_add_cancel hin)
    · rw [Nat.sub_eq_zero_of_le (by omega)]
      refine Or.inl ⟨rfl, ?_⟩
      intro r hr hlt
      omega
  rw [nextInArray_eq]
  rcases harray with ⟨hnone, hall⟩ | ⟨q, hsome, hpq, hq, hval, hall⟩
  · simp only [hnone, Option.map_none]
    have hfuel : t.sizenode - (max p t.sizearray - t.sizearray) +
        (max p t.sizearray - t.sizearray) = t.sizenode := by
      omega
    have hfar : forall {r}, p ≤ r -> r < t.sizearray ->
        t.valueAtPosition r = .nil := by
      intro r hr hra
      unfold valueAtPosition
      rw [if_pos hra]
      exact hall r hr hra
    rw [nextInNodes_eq]
    rcases firstValue_cases (fun j => (t.node j).val) hfuel with
      ⟨hnone', hall'⟩ | ⟨q, hsome, hpq, hq, hval, hall'⟩
    · rw [hnone']
      refine ⟨none, rfl, ?_⟩
      intro r hr hlt
      by_cases hra : r < t.sizearray
      · exact hfar hr hra
      · unfold positions at hlt
        unfold valueAtPosition
        rw [if_neg hra]
        exact hall' _ (by omega) (by omega)
    · rw [hsome]
      refine ⟨_, rfl, t.sizearray + q, by omega, ?_, ?_, ?_, ?_⟩
      · unfold positions
        omega
      · unfold valueAtPosition
        rw [if_neg (by omega), Nat.add_sub_cancel_left]
        exact hval
      · intro r hr hlt
        by_cases hra : r < t.sizearray
        · exact hfar hr hra
        · unfold valueAtPosition
          rw [if_neg hra]
          exact hall' _ (by omega) (by omega)
      · unfold keyAtPosition valueAtPosition
        rw [if_neg (by omega), if_neg (by omega), Nat.add_sub_cancel_left]
  · simp only [hsome, Option.map_some]
    refine ⟨_, rfl, q, hpq, ?_, ?_, ?_, ?_⟩
    · unfold positions
      omega
    · unfold valueAtPosition
      rw [if_pos hq]
      exact hval
    · intro r hr hlt
      unfold valueAtPosition
      rw [if_pos (by omega)]
      exact hall r hr hlt
    · unfold keyAtPosition valueAtPosition
      rw [if_pos hq, if_pos hq]

/-!
# Changes during a traversal
-/

/-- Assigning to a field that the table has, or collecting an emptied one. -/
inductive Change (H : Hashing) (t : LuaTable) : LuaTable -> Prop where
  | assign {key : Value} {slot : Slot} (hget : t.luaHGet H key = some slot)
      (v : Value) : Change H t (t.write slot v)
  | collect {i : Nat} (hval : (t.node i).val = .nil) :
      Change H t (t.removeentry H i)

/-- The same table but for its values and for keys that are dead now. -/
structure Continues (H : Hashing) (t t' : LuaTable) : Prop where
  sizearray : t'.sizearray = t.sizearray
  lsizenode : t'.lsizenode = t.lsizenode
  next : t'.next = t.next
  key : forall i, (t'.node i).key = (t.node i).key ∨
    exists k, (t.node i).key = .key k ∧ k.isCollectable = true ∧
      (t'.node i).key = .dead (H.address k)

theorem Continues.refl (t : LuaTable) : Continues H t t :=
  ⟨rfl, rfl, rfl, fun _ => Or.inl rfl⟩

theorem Continues.trans {t'' : LuaTable} (h : Continues H t t')
    (h' : Continues H t' t'') : Continues H t t'' := by
  refine ⟨h'.sizearray.trans h.sizearray, h'.lsizenode.trans h.lsizenode,
    h'.next.trans h.next, ?_⟩
  intro i
  rcases h'.key i with heq | ⟨k, hk, hcollect, hdead⟩
  · rw [heq]
    exact h.key i
  · rcases h.key i with heq | ⟨k', _, _, hdead'⟩
    · rw [heq] at hk
      exact Or.inr ⟨k, hk, hcollect, hdead⟩
    · rw [hdead'] at hk
      cases hk

theorem Change.continues (h : Change H t t') : Continues H t t' := by
  cases h with
  | @assign key slot hget v =>
      have hkeys := sameKeys_write (t := t) slot v
      exact ⟨hkeys.sizearray, hkeys.lsizenode, hkeys.next,
        fun i => Or.inl (hkeys.key i)⟩
  | @collect i hval =>
      by_cases hdies : exists k, (t.node i).key = .key k ∧
          k.isCollectable = true
      · rcases hdies with ⟨k, hk, hcollect⟩
        have heq : t.removeentry H i =
            t.setNode i { t.node i with key := .dead (H.address k) } := by
          unfold removeentry
          simp only [hk, hcollect, if_true]
        rw [heq]
        refine ⟨rfl, rfl, ?_, ?_⟩
        · funext j
          unfold setNode LuaTable.next
          simp only
          split
          · rename_i hj
            rw [hj]
          · rfl
        · intro j
          by_cases hj : j = i
          · rw [hj]
            refine Or.inr ⟨k, hk, hcollect, ?_⟩
            simp [setNode]
          · left
            simp only [setNode, if_neg hj]
      · have heq : t.removeentry H i = t := by
          unfold removeentry
          split
          · rename_i k hk
            split
            · rename_i hcollect
              exact absurd ⟨k, hk, hcollect⟩ hdies
            · rfl
          · rfl
        rw [heq]
        exact Continues.refl t

theorem Change.valid (h : Change H t t') (hvalid : t.Valid H) :
    t'.Valid H := by
  have hsame := h.continues
  refine ⟨?_, ?_, ?_⟩
  · cases h with
    | assign hget v => exact (hvalid.sound.write hget v).1
    | collect hval => exact (hvalid.sound.removeentry hval).1
  · rw [hsame.sizearray]
    exact hvalid.sizearray
  · rw [hsame.lsizenode]
    exact hvalid.lsizenode

/-!
# Keys and their positions
-/

def KeyAt (t : LuaTable) (p : Nat) (key : Value) : Prop :=
  (p < t.sizearray ∧ key = .number (.ofInt ((p : Int) + 1))) ∨
    exists i, p = t.sizearray + i ∧ (t.node i).key = .key key

theorem KeyAt.eq {p : Nat} {key : Value} (h : t.KeyAt p key) :
    t.keyAtPosition p = key := by
  unfold keyAtPosition
  rcases h with ⟨hp, rfl⟩ | ⟨i, rfl, hi⟩
  · rw [if_pos hp]
  · rw [if_neg (by omega), Nat.add_sub_cancel_left, hi]
    rfl

theorem Continues.keyAt_of_lookup (hc : Continues H t t') {key : Value}
    (hval : t'.lookup H key ≠ .nil) : exists p, t.KeyAt p key := by
  by_cases hin : t'.InArray H key
  · have hlow := hin.1
    have hhigh := hin.2
    rw [hc.sizearray] at hhigh
    refine ⟨(arrayindex H key - 1).toNat, Or.inl ⟨by omega, ?_⟩⟩
    rw [show (((arrayindex H key - 1).toNat : Nat) : Int) + 1 =
      arrayindex H key by omega]
    exact arrayindex_eq hlow
  · by_cases hnode : exists i, (t'.node i).key = .key key
    · rcases hnode with ⟨i, hi⟩
      refine ⟨t.sizearray + i, Or.inr ⟨i, rfl, ?_⟩⟩
      rcases hc.key i with heq | ⟨_, _, _, hdead⟩
      · rw [← heq]
        exact hi
      · rw [hi] at hdead
        cases hdead
    · exact absurd (lookup_none hin fun i hi => hnode ⟨i, hi⟩) hval

theorem Continues.keyAt_of_value (hc : Continues H t t') {p : Nat}
    (h' : t'.Valid H) (hval : t'.valueAtPosition p ≠ .nil) :
    t.KeyAt p (t'.keyAtPosition p) := by
  unfold valueAtPosition at hval
  unfold keyAtPosition
  rw [hc.sizearray] at hval ⊢
  by_cases hp : p < t.sizearray
  · rw [if_pos hp]
    exact Or.inl ⟨hp, rfl⟩
  · rw [if_neg hp] at hval ⊢
    rcases h'.sound.hash.key_of_val hval with ⟨k, hk⟩
    rw [hk]
    refine Or.inr ⟨p - t.sizearray, by omega, ?_⟩
    rcases hc.key (p - t.sizearray) with heq | ⟨_, _, _, hdead⟩
    · rw [← heq]
      exact hk
    · rw [hk] at hdead
      cases hdead

section Keys

variable (h : t.Valid H) {p : Nat} {key : Value}

include h

theorem Valid.arrayindex_position (hp : p < t.sizearray) :
    arrayindex H (.number (.ofInt ((p : Int) + 1))) = p + 1 := by
  have hmax := maxASize_lt
  have hsize := h.sizearray
  exact arrayindex_ofInt (by omega) (by omega)

theorem Valid.keyAt_injective {q : Nat} (hp : t.KeyAt p key)
    (hq : t.KeyAt q key) : p = q := by
  have hside : forall {p q}, p < t.sizearray ->
      key = .number (.ofInt ((p : Int) + 1)) ->
      (t.node q).key = .key key -> False := by
    intro p q hp hkey hq
    refine h.sound.hash.apart q key hq ?_
    rw [hkey]
    unfold InArray
    rw [h.arrayindex_position hp]
    omega
  rcases hp with ⟨hp, hkey⟩ | ⟨i, rfl, hi⟩
  · rcases hq with ⟨_, hkey'⟩ | ⟨j, _, hj⟩
    · rw [hkey] at hkey'
      have := ofInt_injective hkey'
      omega
    · exact absurd (hside hp hkey hj) id
  · rcases hq with ⟨hq, hkey⟩ | ⟨j, rfl, hj⟩
    · exact absurd (hside hq hkey hi) id
    · rw [h.sound.hash.unique i j key hi hj]

theorem Valid.keyAt_lt (hp : t.KeyAt p key) : p < t.positions := by
  unfold positions
  rcases hp with ⟨hp, _⟩ | ⟨i, rfl, hi⟩
  · omega
  · have hlt := h.sound.hash.inside i (by rw [hi]; exact NodeKey.noConfusion)
    omega

theorem Valid.lookup_keyAt (h' : t'.Valid H) (hc : Continues H t t')
    (hp : t.KeyAt p key) : t'.lookup H key = t'.valueAtPosition p := by
  unfold valueAtPosition
  rw [hc.sizearray]
  rcases hp with ⟨hp, rfl⟩ | ⟨i, rfl, hi⟩
  · have hindex := h.arrayindex_position hp
    have hin : t'.InArray H (.number (.ofInt ((p : Int) + 1))) := by
      unfold InArray
      rw [hindex, hc.sizearray]
      omega
    rw [if_pos hp, lookup_inArray hin, hindex, Int.add_sub_cancel,
      Int.toNat_natCast]
  · rw [if_neg (by omega), Nat.add_sub_cancel_left]
    rcases hc.key i with heq | ⟨k, _, _, hdead⟩
    · rw [hi] at heq
      exact h'.sound.hash.lookup_node heq
    · rw [h'.sound.hash.dead i _ hdead]
      refine lookup_none ?_ ?_
      · intro hin
        refine h.sound.hash.apart i key hi ?_
        unfold InArray at hin ⊢
        rw [hc.sizearray] at hin
        exact hin
      · intro j hj
        rcases hc.key j with heq | ⟨_, _, _, hdead'⟩
        · rw [hj] at heq
          have hij := h.sound.hash.unique i j key hi heq.symm
          rw [hij, hj] at hdead
          cases hdead
        · rw [hj] at hdead'
          cases hdead'

/-- `findindex` finds a key where it was, also when it is dead by now. -/
theorem Valid.findindex_keyAt (hclear : t.Clear H)
    (hdistinct : t.DistinctAddresses H) (hc : Continues H t t')
    (hp : t.KeyAt p key) : t'.findindex H key = some (p : Int) := by
  unfold findindex
  rcases hp with ⟨hp, rfl⟩ | ⟨i, rfl, hi⟩
  · rw [if_neg Value.noConfusion]
    simp only [h.arrayindex_position hp, hc.sizearray]
    rw [if_pos (by omega), Int.add_sub_cancel]
  · have hproper := h.sound.hash.proper i key hi
    have hapart : ¬(0 < arrayindex H key ∧
        arrayindex H key ≤ t'.sizearray) := by
      rw [hc.sizearray]
      exact h.sound.hash.apart i key hi
    rw [if_neg hproper.1]
    simp only [if_neg hapart]
    have hvia : FollowsVia t.next
        (fun j => (key.isCollectable = true ->
          (t.node j).key ≠ .dead (H.address key)) ∧ j ≠ i)
        (t.mainposition H key) i := by
      apply h.sound.hash.linear.via_ne
      by_cases hcollect : key.isCollectable = true
      · exact (hclear i key hi hcollect).mono fun _ hj _ => hj
      · exact (follows_iff_via.mp (h.sound.hash.found i key hi)).mono
          fun _ _ htrue => absurd htrue hcollect
    -- no node on the way looks like the key
    have htest : forall j, ((key.isCollectable = true ->
        (t.node j).key ≠ .dead (H.address key)) ∧ j ≠ i) ->
          isTraversed H key (t'.node j).key = false := by
      rintro j ⟨hdead, hji⟩
      rcases hc.key j with heq | ⟨k, hk, hcollect, heq⟩
      · rw [heq]
        cases hkey : (t.node j).key with
        | nil => rfl
        | dead a =>
            unfold isTraversed
            rw [Bool.and_eq_false_iff]
            by_cases hcollect : key.isCollectable = true
            · right
              rw [decide_eq_false_iff_not]
              rintro rfl
              exact hdead hcollect hkey
            · exact Or.inl (Bool.eq_false_iff.mpr hcollect)
        | key k =>
            unfold isTraversed
            rw [Bool.eq_false_iff]
            intro hsame
            rw [(Value.rawEqual_iff.mp hsame).1] at hkey
            exact hji (h.sound.hash.unique j i key hkey hi)
      · rw [heq]
        unfold isTraversed
        rw [Bool.and_eq_false_iff]
        by_cases hcollect' : key.isCollectable = true
        · right
          rw [decide_eq_false_iff_not]
          intro haddress
          have hsame := hdistinct j i k key hk hi hcollect hcollect' haddress
          rw [hsame] at hk
          exact hji (h.sound.hash.unique j i key hk hi)
        · exact Or.inl (Bool.eq_false_iff.mpr hcollect')
    have hself : isTraversed H key (t'.node i).key = true := by
      rcases hc.key i with heq | ⟨k, hk, hcollect, heq⟩
      · rw [heq, hi]
        exact hproper.2
      · rw [hi, NodeKey.key.injEq] at hk
        rw [heq, ← hk]
        unfold isTraversed
        rw [hk, hcollect]
        simp
    have hsize : t'.sizenode = t.sizenode := by
      unfold sizenode
      rw [hc.lsizenode]
    have hfind : t'.findNode (isTraversed H key) (t'.mainposition H key) =
        some i := by
      unfold findNode
      rw [hc.next, hsize, mainposition_congr hc.lsizenode]
      exact h.sound.hash.linear.chainFind_of_via h.sound.hash.next_lt _
        (mainposition_lt key) (hvia.mono htest) hself
    rw [hfind, hc.sizearray, Option.map_some]
    congr 1
    push_cast
    omega

end Keys

/-!
# Whole traversals
-/

/--
A traversal that began at the first table: the calls of `luaH_next` so far, each
with the table at that time, the key and the value, and the table and the key of
the next call.
-/
inductive Visiting (H : Hashing) (t0 : LuaTable) :
    List (LuaTable × Value × Value) -> LuaTable -> Value -> Prop where
  | start : Visiting H t0 [] t0 .nil
  | change {visits : List (LuaTable × Value × Value)} {t t' : LuaTable}
      {key : Value} (h : Visiting H t0 visits t key)
      (hchange : Change H t t') : Visiting H t0 visits t' key
  | next {visits : List (LuaTable × Value × Value)} {t : LuaTable}
      {key k v : Value} (h : Visiting H t0 visits t key)
      (hnext : t.luaHNext H key = some (some (k, v))) :
      Visiting H t0 (visits ++ [(t, k, v)]) t k

/-- How far a traversal has come: `index` is the position of the last key. -/
structure Progress (H : Hashing) (t0 : LuaTable)
    (visits : List (LuaTable × Value × Value)) (t : LuaTable) (key : Value)
    (visited : List Nat) (index : Int) : Prop where
  valid : t.Valid H
  continues : Continues H t0 t
  current : (key = .nil ∧ index = -1) ∨
    exists p : Nat, t0.KeyAt p key ∧ index = p
  keys : visits.map (fun visit => visit.2.1) = visited.map t0.keyAtPosition
  places : forall p, p ∈ visited -> t0.KeyAt p (t0.keyAtPosition p)
  increasing : visited.Pairwise (· < ·)
  upTo : forall p, p ∈ visited -> (p : Int) ≤ index
  skipped : forall p : Nat, (p : Int) ≤ index -> p ∉ visited ->
    exists visit, visit ∈ visits ∧ visit.1.valueAtPosition p = .nil
  tables : forall visit, visit ∈ visits ->
    visit.1.Valid H ∧ Continues H t0 visit.1
  values : forall visit, visit ∈ visits ->
    visit.2.2 ≠ .nil ∧ visit.1.lookup H visit.2.1 = visit.2.2

section Traversal

variable {t0 : LuaTable} (h0 : t0.Valid H) (hclear : t0.Clear H)
variable (hdistinct : t0.DistinctAddresses H)
variable {visits : List (LuaTable × Value × Value)} {key : Value}

include h0 hclear hdistinct

theorem Progress.luaHNext {visited : List Nat} {index : Int}
    (h : Progress H t0 visits t key visited index) :
    -1 ≤ index ∧ exists found, t.luaHNext H key = some found ∧
      t.FirstFrom (index + 1).toNat found := by
  have hpositions : t.positions = t0.positions := by
    unfold positions sizenode
    rw [h.continues.sizearray, h.continues.lsizenode]
  rcases h.current with ⟨rfl, rfl⟩ | ⟨p, hp, rfl⟩
  · refine ⟨Int.le_refl _, luaHNext_of_findindex rfl (Int.le_refl _) ?_⟩
    omega
  · refine ⟨by omega, luaHNext_of_findindex
      (h0.findindex_keyAt hclear hdistinct h.continues hp) (by omega) ?_⟩
    have hlt := h0.keyAt_lt hp
    rw [hpositions]
    omega

theorem Visiting.progress (h : Visiting H t0 visits t key) :
    exists visited index, Progress H t0 visits t key visited index := by
  induction h with
  | start =>
      refine ⟨[], -1, h0, Continues.refl t0, Or.inl ⟨rfl, rfl⟩, rfl, ?_, .nil,
        ?_, ?_, ?_, ?_⟩
      · intro p hp
        cases hp
      · intro p hp
        cases hp
      · intro p hp
        omega
      · intro visit hvisit
        cases hvisit
      · intro visit hvisit
        cases hvisit
  | change _ hchange ih =>
      rcases ih with ⟨visited, index, hp⟩
      exact ⟨visited, index, hchange.valid hp.valid,
        hp.continues.trans hchange.continues, hp.current, hp.keys, hp.places,
        hp.increasing, hp.upTo, hp.skipped, hp.tables, hp.values⟩
  | @next visits t key k v _ hnext ih =>
      rcases ih with ⟨visited, index, hp⟩
      rcases hp.luaHNext h0 hclear hdistinct with
        ⟨hlow, found, hfound, hfirst⟩
      rw [hnext, Option.some.injEq] at hfound
      subst hfound
      rcases hfirst with ⟨q, hq, _, hval, hskip, heq⟩
      rw [Prod.mk.injEq] at heq
      rcases heq with ⟨rfl, rfl⟩
      have hkey := hp.continues.keyAt_of_value hp.valid hval
      have hnew : forall p, p ∈ visited -> p < q := by
        intro p hmem
        have hle := hp.upTo p hmem
        omega
      refine ⟨visited ++ [q], q, hp.valid, hp.continues,
        Or.inr ⟨q, hkey, rfl⟩, ?_, ?_, ?_, ?_, ?_, ?_, ?_⟩
      · rw [List.map_append, List.map_append, hp.keys]
        simp only [List.map_cons, List.map_nil, hkey.eq]
      · intro p hmem
        rw [List.mem_append, List.mem_singleton] at hmem
        rcases hmem with hmem | rfl
        · exact hp.places p hmem
        · rw [hkey.eq]
          exact hkey
      · rw [List.pairwise_append]
        refine ⟨hp.increasing, List.pairwise_singleton _ q, ?_⟩
        intro p hmem r hr
        rw [List.mem_singleton] at hr
        rw [hr]
        exact hnew p hmem
      · intro p hmem
        rw [List.mem_append, List.mem_singleton] at hmem
        rcases hmem with hmem | rfl
        · have := hnew p hmem
          omega
        · exact Int.le_refl _
      · intro p hpq hnot
        rw [List.mem_append, List.mem_singleton, not_or] at hnot
        by_cases hold : (p : Int) ≤ index
        · rcases hp.skipped p hold hnot.1 with ⟨visit, hmem, hnil⟩
          exact ⟨visit, List.mem_append_left _ hmem, hnil⟩
        · refine ⟨_, List.mem_append_right _ (List.mem_singleton.mpr rfl), ?_⟩
          exact hskip p (by omega) (by omega)
      · intro visit hmem
        rw [List.mem_append, List.mem_singleton] at hmem
        rcases hmem with hmem | rfl
        · exact hp.tables visit hmem
        · exact ⟨hp.valid, hp.continues⟩
      · intro visit hmem
        rw [List.mem_append, List.mem_singleton] at hmem
        rcases hmem with hmem | rfl
        · exact hp.values visit hmem
        · exact ⟨hval, h0.lookup_keyAt hp.valid hp.continues hkey⟩

end Traversal

/--
A traversal of a reachable table, with assignments to existing fields and dead
keys on the way: `luaH_next` always knows its key; no key comes twice, and each
comes with its value; a key that has a value at every call has come by the end.
-/
theorem Reached.traversal {t0 : LuaTable} (h : Reached H t0)
    (hdistinct : t0.DistinctAddresses H)
    {visits : List (LuaTable × Value × Value)} {key : Value}
    (hvisiting : Visiting H t0 visits t key) :
    t.luaHNext H key ≠ none ∧
    (visits.map fun visit => visit.2.1).Nodup ∧
    visits.length ≤ t0.positions ∧
    (forall visit, visit ∈ visits ->
      visit.2.2 ≠ .nil ∧ visit.1.lookup H visit.2.1 = visit.2.2) ∧
    (t.luaHNext H key = some none -> forall k,
      (forall visit, visit ∈ visits -> visit.1.lookup H k ≠ .nil) ->
      t.lookup H k ≠ .nil -> k ∈ visits.map fun visit => visit.2.1) := by
  rcases h.invariant with ⟨h0, hclear, _⟩
  rcases hvisiting.progress h0 hclear hdistinct with ⟨visited, index, hp⟩
  rcases hp.luaHNext h0 hclear hdistinct with ⟨hlow, found, hfound, hfirst⟩
  have hnodup : visited.Nodup := hp.increasing.imp fun hlt => Nat.ne_of_lt hlt
  refine ⟨by rw [hfound]; exact Option.some_ne_none _, ?_, ?_, hp.values, ?_⟩
  · rw [hp.keys]
    apply hnodup.map_on
    intro p hmem q hmem' hsame
    have hp' := hp.places p hmem
    rw [hsame] at hp'
    exact h0.keyAt_injective hp' (hp.places q hmem')
  · have hlength := congrArg List.length hp.keys
    rw [List.length_map, List.length_map] at hlength
    rw [hlength]
    have hsub : visited ⊆ List.range t0.positions := by
      intro p hmem
      exact List.mem_range.mpr (h0.keyAt_lt (hp.places p hmem))
    have hle := (List.subperm_of_subset hnodup hsub).length_le
    rw [List.length_range] at hle
    exact hle
  · intro hend k halways hval
    rw [hfound, Option.some.injEq] at hend
    subst hend
    rcases hp.continues.keyAt_of_lookup hval with ⟨p, hkey⟩
    have hpositions : t.positions = t0.positions := by
      unfold positions sizenode
      rw [hp.continues.sizearray, hp.continues.lsizenode]
    have hreached : (p : Int) ≤ index := by
      by_contra hlater
      refine hval ?_
      rw [h0.lookup_keyAt hp.valid hp.continues hkey]
      exact hfirst p (by omega) (by rw [hpositions]; exact h0.keyAt_lt hkey)
    have hmem : p ∈ visited := by
      by_contra hnot
      rcases hp.skipped p hreached hnot with ⟨visit, hvisit, hnil⟩
      rcases hp.tables visit hvisit with ⟨hvalid, hcontinues⟩
      refine halways visit hvisit ?_
      rw [h0.lookup_keyAt hvalid hcontinues hkey]
      exact hnil
    rw [hp.keys, List.mem_map]
    exact ⟨p, hmem, hkey.eq⟩

/-- The first table among the keys has lost its value and is dead. -/
def emptied : LuaTable :=
  (collidingTable.write (.node 0) .nil).removeentry collidingTables 0

/-- The key dies after its visit. -/
def visits : List (LuaTable × Value × Value) :=
  [(collidingTable, .number (.ofInt 1), .boolean true),
    (collidingTable, .number (.ofInt 2), .boolean true),
    (collidingTable, .table 1, .boolean true),
    (emptied, .number (.ofInt 3), .boolean true),
    (emptied, .table 2, .boolean true)]

theorem visiting_emptied :
    Visiting collidingTables collidingTable visits emptied (.table 2) := by
  have hfirst : Visiting collidingTables collidingTable _ _ _ :=
    .next .start (k := .number (.ofInt 1)) (v := .boolean true) (by decide +kernel)
  have hsecond := hfirst.next (k := .number (.ofInt 2)) (v := .boolean true)
    (by decide +kernel)
  have hthird := hsecond.next (k := .table 1) (v := .boolean true)
    (by decide +kernel)
  have hassigned := hthird.change (@Change.assign _ _ (.table 1) (.node 0)
    (by decide +kernel) .nil)
  have hdead := hassigned.change (Change.collect (i := 0) (by decide +kernel))
  have hfourth := hdead.next (k := .number (.ofInt 3)) (v := .boolean true)
    (by decide +kernel)
  exact hfourth.next (by decide +kernel)

theorem traversal_emptied :
    (emptied.node 0).key = .dead 1 ∧
      emptied.luaHNext collidingTables (.table 2) = some none ∧
      (visits.map fun visit => visit.2.1).Nodup ∧
      visits.length ≤ collidingTable.positions ∧
      (forall visit, visit ∈ visits ->
        visit.2.2 ≠ .nil ∧
          visit.1.lookup collidingTables visit.2.1 = visit.2.2) ∧
      forall k, (forall visit, visit ∈ visits ->
          visit.1.lookup collidingTables k ≠ .nil) ->
        emptied.lookup collidingTables k ≠ .nil ->
          k ∈ visits.map fun visit => visit.2.1 := by
  have hend : emptied.luaHNext collidingTables (.table 2) = some none := by
    decide +kernel
  rcases reached_collidingTable.traversal
    (reached_collidingTable.distinctAddresses (by decide +kernel))
    visiting_emptied with ⟨_, hnodup, hlength, hvalues, hall⟩
  exact ⟨by decide +kernel, hend, hnodup, hlength, hvalues, hall hend⟩

end LuaTable

end LuaServer
