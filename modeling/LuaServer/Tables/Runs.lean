import LuaServer.Tables.Operations

/-!
# Runs

Whatever is done to a table of `ltable.c`, it holds the same as the table of the
Lua state on which the same is done.
-/

namespace LuaServer

inductive TableOp where
  /-- `luaH_set` and the store of a value. -/
  | set (key v : Value)
  /-- `luaH_setnum` and the store of a value. -/
  | setnum (key : Int) (v : Value)
  /-- `luaH_setstr` and the store of a value. -/
  | setstr (s : LuaString) (v : Value)
  /-- The growth of the array part before `OP_SETLIST`. -/
  | resizearray (last : Nat)
  /-- The collector comes across a node without a value. -/
  | removeentry (i : Nat)

/-- The key is an int, and no array part is larger than `MAXASIZE`. -/
def TableOp.Proper : TableOp -> Prop
  | setnum key _ => -2147483648 ≤ key ∧ key ≤ 2147483647
  | resizearray last => last ≤ maxASize
  | _ => True

/-- What the operation does to a table of the Lua state. -/
def TableOp.effect (T : Table) : TableOp -> Table
  | set key v => T.set key v
  | setnum key v => T.set (.number (.ofInt key)) v
  | setstr s v => T.set (.string s) v
  | _ => T

namespace LuaTable

variable (H : Hashing)

def store (v : Value) :
    Except TableError (LuaTable × Slot) -> Except TableError LuaTable
  | .error e => .error e
  | .ok (t, slot) => .ok (t.write slot v)

def perform (t : LuaTable) : TableOp -> Except TableError LuaTable
  | .set key v => store v (luaHSet H t key)
  | .setnum key v => store v (luaHSetnum H t key)
  | .setstr s v => store v (luaHSetstr H t s)
  | .resizearray last =>
      if t.sizearray < last then luaHResizearray H t last else .ok t
  | .removeentry i =>
      .ok (if (t.node i).val = .nil then t.removeentry H i else t)

def performAll : List TableOp -> LuaTable -> Except TableError LuaTable
  | [], t => .ok t
  | op :: rest, t =>
      match perform H t op with
      | .error e => .error e
      | .ok t => performAll rest t

/-- The table holds under every key what the table of the Lua state holds. -/
def Represents (t : LuaTable) (T : Table) : Prop :=
  forall key, t.lookup H key = T.get key

/-- When an operation on a table with this content may fail, and how. -/
inductive Fails (T : Table) : TableOp -> TableError -> Prop where
  | indexNil (v : Value) : Fails T (.set .nil v) .indexNil
  | indexNaN (v : Value) : Fails T (.set (.number .nan) v) .indexNaN
  | overflow (op : TableOp) (keys : List Value) (hnodup : keys.Nodup)
      (hmany : 2 ^ maxBits ≤ keys.length)
      (hvalues : forall k, k ∈ keys -> T.get k ≠ .nil) : Fails T op .overflow

variable {H} {t : LuaTable} {T : Table}

theorem Represents.crowded (h : Represents H t T) (hcrowded : t.Crowded H)
    (op : TableOp) : Fails T op .overflow := by
  rcases hcrowded with ⟨keys, hnodup, hmany, hvalues⟩
  refine .overflow op keys hnodup hmany ?_
  intro k hk
  rw [← h k]
  exact hvalues k hk

theorem isKey_cases (key : Value) :
    key = .nil ∨ key = .number .nan ∨ key.IsKey := by
  cases key with
  | nil => exact Or.inl rfl
  | number n =>
      cases n with
      | nan => exact Or.inr (Or.inl rfl)
      | inf negative =>
          exact Or.inr (Or.inr ⟨Value.noConfusion, by simp [Value.rawEqual,
            LuaNumber.numEq]⟩)
      | fin q =>
          exact Or.inr (Or.inr ⟨Value.noConfusion, by simp [Value.rawEqual,
            LuaNumber.numEq]⟩)
  | boolean | lightuserdata | string | table | cfunction | closure | userdata
  | thread =>
      exact Or.inr (Or.inr ⟨Value.noConfusion, by simp [Value.rawEqual]⟩)

theorem Valid.write (h : t.Valid H) {key : Value} {slot : Slot}
    (hget : t.luaHGet H key = some slot) (v : Value) :
    (t.write slot v).Valid H := by
  have hkeys := sameKeys_write (t := t) slot v
  refine ⟨(h.sound.write hget v).1, ?_, ?_⟩
  · rw [hkeys.sizearray]
    exact h.sizearray
  · rw [hkeys.lsizenode]
    exact h.lsizenode

theorem Valid.set_cases (h : t.Valid H) (hrep : Represents H t T)
    (key v : Value) :
    (exists t', store v (luaHSet H t key) = .ok t' ∧ t'.Valid H ∧
      Represents H t' (T.set key v) ∧ (t.Clear H -> t'.Clear H)) ∨
    exists e, store v (luaHSet H t key) = .error e ∧
      (Fails T (.set key v) e ∨ key.IsKey ∧ e = .overflow ∧ t.Crowded H) := by
  rcases isKey_cases key with rfl | rfl | hkey
  · right
    exact ⟨_, by rw [luaHSet_nil]; rfl, Or.inl (.indexNil v)⟩
  · right
    exact ⟨_, by rw [luaHSet_nan]; rfl, Or.inl (.indexNaN v)⟩
  · rcases h.luaHSet_cases hkey with ⟨hover, hcrowded⟩ |
      ⟨t', slot, hset, hvalid, hassign, _⟩
    · right
      exact ⟨_, by rw [hover]; rfl, Or.inr ⟨hkey, rfl, hcrowded⟩⟩
    · left
      rw [hset]
      refine ⟨_, rfl, hvalid.write hassign.slot v, ?_, ?_⟩
      · intro k
        rw [(hassign.sound.write hassign.slot v).2, hassign.lookup, hrep k]
        split
        · rename_i hk
          rw [hk, Table.get_set_self]
        · rename_i hk
          exact (Table.get_set_of_ne T v hk).symm
      · intro hclear
        exact (sameKeys_write slot v).clear (hassign.clear hclear)

theorem nodePairs_length (node : Nat -> Node) (n : Nat) :
    (nodePairs node n).length ≤ n := by
  induction n with
  | zero => exact Nat.le_refl 0
  | succ n ih =>
      rw [nodePairs]
      split
      · rw [List.length_cons]
        omega
      · omega

/-- Before a list of values is stored, the array grows: this never fails. -/
theorem Valid.luaHResizearray_ok (h : t.Valid H) {last : Nat}
    (hgrow : t.sizearray < last) (hlast : last ≤ maxASize) :
    exists t', luaHResizearray H t last = .ok t' ∧ t'.Valid H ∧
      (forall k, t'.lookup H k = t.lookup H k) ∧ t'.Clear H := by
  have hmoved : t.movedPairs last = nodePairs t.node t.sizenode := by
    unfold movedPairs
    rw [Nat.sub_eq_zero_of_le (by omega)]
    rfl
  have hroom : outside H last (t.movedPairs last) ≤
      if t.dummy then 0 else t.sizenode := by
    rw [hmoved]
    split
    · rename_i hd
      rcases h.sound.dummy hd with ⟨hsize, _, hkey⟩
      have hnone : nodePairs t.node t.sizenode = [] := by
        have hone : t.sizenode = 1 := by
          unfold sizenode
          rw [hsize]
          rfl
        rw [hone, nodePairs, if_neg]
        · rfl
        · rw [not_not]
          exact (h.sound.hash.empty 0 hkey).1
      rw [hnone]
      exact Nat.le_refl 0
    · exact Nat.le_trans List.countP_le_length (nodePairs_length _ _)
  have hbits : (if t.dummy then 0 else t.sizenode) ≤ 2 ^ maxBits := by
    split
    · exact Nat.zero_le _
    · exact Nat.pow_le_pow_right (by decide) h.lsizenode
  unfold luaHResizearray
  rcases h.sound.hash.resize_cases (newkey_placesFirst 1) h.sizearray hroom with
    ⟨_, hbig⟩ | ⟨t', hok, hresized⟩
  · omega
  · refine ⟨t', hok, ⟨hresized.sound, ?_, hresized.lsizenode⟩,
      hresized.lookup, hresized.clear⟩
    rw [hresized.sizearray]
    exact hlast

theorem Valid.perform_cases (h : t.Valid H) (hrep : Represents H t T)
    {op : TableOp} (hproper : op.Proper) :
    (exists t', perform H t op = .ok t' ∧ t'.Valid H ∧
      Represents H t' (op.effect T) ∧
      (t.Clear H -> t.DistinctAddresses H -> t'.Clear H)) ∨
    exists e, perform H t op = .error e ∧ Fails T op e := by
  cases op with
  | set key v =>
      rcases h.set_cases hrep key v with ⟨t', hok, hvalid, hrep', hclear⟩ |
        ⟨e, herror, hfails | ⟨_, rfl, hcrowded⟩⟩
      · exact Or.inl ⟨t', hok, hvalid, hrep', fun hc _ => hclear hc⟩
      · exact Or.inr ⟨e, herror, hfails⟩
      · exact Or.inr ⟨_, herror, hrep.crowded hcrowded _⟩
  | setnum key v =>
      simp only [perform, luaHSetnum_eq hproper.1 hproper.2]
      rcases h.set_cases hrep (.number (.ofInt key)) v with
        ⟨t', hok, hvalid, hrep', hclear⟩ |
        ⟨e, herror, hfails | ⟨_, rfl, hcrowded⟩⟩
      · exact Or.inl ⟨t', hok, hvalid, hrep', fun hc _ => hclear hc⟩
      · cases hfails with
        | overflow _ keys hnodup hmany hvalues =>
            exact Or.inr ⟨_, herror, .overflow _ keys hnodup hmany hvalues⟩
      · exact Or.inr ⟨_, herror, hrep.crowded hcrowded _⟩
  | setstr s v =>
      simp only [perform, luaHSetstr_eq]
      rcases h.set_cases hrep (.string s) v with
        ⟨t', hok, hvalid, hrep', hclear⟩ |
        ⟨e, herror, hfails | ⟨_, rfl, hcrowded⟩⟩
      · exact Or.inl ⟨t', hok, hvalid, hrep', fun hc _ => hclear hc⟩
      · cases hfails with
        | overflow _ keys hnodup hmany hvalues =>
            exact Or.inr ⟨_, herror, .overflow _ keys hnodup hmany hvalues⟩
      · exact Or.inr ⟨_, herror, hrep.crowded hcrowded _⟩
  | resizearray last =>
      left
      simp only [perform]
      split
      · rename_i hgrow
        rcases h.luaHResizearray_ok hgrow hproper with
          ⟨t', hok, hvalid, hlookup, hclear⟩
        exact ⟨t', hok, hvalid, fun k => (hlookup k).trans (hrep k),
          fun _ _ => hclear⟩
      · exact ⟨t, rfl, h, hrep, fun hc _ => hc⟩
  | removeentry i =>
      left
      simp only [perform]
      split
      · rename_i hval
        rcases h.sound.removeentry hval with ⟨hsound, hlookup⟩
        refine ⟨_, rfl, ⟨hsound, ?_, ?_⟩, fun k => (hlookup k).trans (hrep k),
          fun hc hdistinct => hc.removeentry h.sound.hash hdistinct i⟩
        · rcases removeentry_cases (H := H) (t := t) i with heq | ⟨_, _, heq⟩
          · rw [heq]
            exact h.sizearray
          · rw [heq]
            exact h.sizearray
        · rcases removeentry_cases (H := H) (t := t) i with heq | ⟨_, _, heq⟩
          · rw [heq]
            exact h.lsizenode
          · rw [heq]
            exact h.lsizenode
      · exact ⟨t, rfl, h, hrep, fun hc _ => hc⟩

/-!
# From the new table on
-/

theorem luaHNew_valid {narray nhash : Nat} (hnarray : narray ≤ maxASize)
    (h : luaHNew narray nhash = .ok t) :
    t.Valid H ∧ t.Clear H ∧ forall k, t.lookup H k = .nil := by
  unfold luaHNew at h
  rcases setnodevector_cases (setarrayvector
    { sizearray := 0, array := fun _ => .nil, dummy := true, lsizenode := 0,
      node := fun _ => {}, lastfree := 0 } narray) nhash with ⟨hover, _⟩ |
    ⟨t', hok, hfresh, hsize, harray, _, _, hbits⟩
  · simp only [hover] at h
    cases h
  · simp only [hok, Except.ok.injEq] at h
    subst h
    refine ⟨⟨hfresh.sound, ?_, hbits⟩, hfresh.clear, ?_⟩
    · rw [hsize]
      exact hnarray
    · intro k
      rw [hfresh.lookup, harray]
      split
      · unfold setarrayvector
        simp only [ite_self]
      · rfl

theorem Valid.performAll_cases {ops : List TableOp} (h : t.Valid H)
    (hrep : Represents H t T) (hproper : forall op, op ∈ ops -> op.Proper) :
    (exists t', performAll H ops t = .ok t' ∧ t'.Valid H ∧
      Represents H t' (ops.foldl TableOp.effect T)) ∨
    exists done op rest e, ops = done ++ op :: rest ∧
      performAll H ops t = .error e ∧
      Fails (done.foldl TableOp.effect T) op e := by
  induction ops generalizing t T with
  | nil => exact Or.inl ⟨t, rfl, h, hrep⟩
  | cons op rest ih =>
      rcases h.perform_cases hrep (hproper op List.mem_cons_self) with
        ⟨t', hok, hvalid, hrep', _⟩ | ⟨e, herror, hfails⟩
      · rw [performAll, hok]
        rcases ih hvalid hrep'
          (fun op' hop' => hproper op' (List.mem_cons_of_mem _ hop')) with
          hgood | ⟨done, op', rest', e, rfl, herror, hfails⟩
        · exact Or.inl hgood
        · exact Or.inr ⟨op :: done, op', rest', e, rfl, herror, hfails⟩
      · right
        refine ⟨[], op, rest, e, rfl, ?_, hfails⟩
        rw [performAll, herror]

/--
A run of operations on a new table ends as the same run on the table of the Lua
state does.  It fails only at an assignment with the key nil or NaN, or when the
table holds as many values as a node vector can have nodes.
-/
theorem performAll_represents {narray nhash : Nat}
    (hnarray : narray ≤ maxASize) {ops : List TableOp}
    (hproper : forall op, op ∈ ops -> op.Proper)
    (hnew : luaHNew narray nhash = .ok t) :
    (exists t', performAll H ops t = .ok t' ∧
      Represents H t' (ops.foldl TableOp.effect {})) ∨
    exists done op rest e, ops = done ++ op :: rest ∧
      performAll H ops t = .error e ∧
      Fails (done.foldl TableOp.effect {}) op e := by
  rcases luaHNew_valid (H := H) hnarray hnew with ⟨hvalid, _, hempty⟩
  rcases hvalid.performAll_cases (T := {}) hempty hproper with
    ⟨t', hok, _, hrep⟩ | hfails
  · exact Or.inl ⟨t', hok, hrep⟩
  · exact Or.inr hfails

def collidingHashing : Hashing where
  address _ := 0
  intPoint _ := 0
  words _ := 0
  string _ := 0
  number2int _ := 0

def emptyTable : LuaTable where
  sizearray := 0
  array _ := .nil
  dummy := true
  lsizenode := 0
  node _ := {}
  lastfree := 0

theorem performAll_represents_store :
    (exists t', performAll collidingHashing
        [.set (.boolean true) (.boolean false), .setnum 1 .nil] emptyTable =
          .ok t' ∧
      Represents collidingHashing t'
        ([.set (.boolean true) (.boolean false), .setnum 1 .nil].foldl
          TableOp.effect {})) ∨
    exists done op rest e,
      [.set (.boolean true) (.boolean false), .setnum 1 .nil] =
        done ++ op :: rest ∧
      performAll collidingHashing
        [.set (.boolean true) (.boolean false), .setnum 1 .nil] emptyTable =
          .error e ∧
      Fails (done.foldl TableOp.effect {}) op e := by
  refine performAll_represents (Nat.zero_le _) ?_
    (show luaHNew 0 0 = _ from rfl)
  intro op hop
  simp only [List.mem_cons, List.not_mem_nil, or_false] at hop
  rcases hop with rfl | rfl
  · trivial
  · constructor
    · decide
    · decide

/-!
# Reachable tables
-/

/--
A table that comes about by operations.  An object may get the address of one
that was collected, but not of one that is a key of the table.
-/
inductive Reached (H : Hashing) : LuaTable -> Prop where
  | new {t : LuaTable} {narray nhash : Nat} (hnarray : narray ≤ maxASize)
      (hnew : luaHNew narray nhash = .ok t) : Reached H t
  | step {t t' : LuaTable} {op : TableOp} (h : Reached H t)
      (hdistinct : t.DistinctAddresses H) (hproper : op.Proper)
      (hok : perform H t op = .ok t') : Reached H t'

theorem Reached.invariant (h : Reached H t) :
    t.Valid H ∧ t.Clear H ∧ exists T, Represents H t T := by
  induction h with
  | new hnarray hnew =>
      rcases luaHNew_valid (H := H) hnarray hnew with ⟨hvalid, hclear, hempty⟩
      exact ⟨hvalid, hclear, {}, hempty⟩
  | step _ hdistinct hproper hok ih =>
      rcases ih with ⟨hvalid, hclear, T, hrep⟩
      rcases hvalid.perform_cases hrep hproper with
        ⟨t', hok', hvalid', hrep', hclear'⟩ | ⟨e, herror, _⟩
      · rw [hok, Except.ok.injEq] at hok'
        subst hok'
        exact ⟨hvalid', hclear' hclear hdistinct, _, hrep'⟩
      · rw [hok] at herror
        cases herror

theorem Reached.valid (h : Reached H t) : t.Valid H := h.invariant.1

/--
A new key in a reachable table never meets a broken chain and never leads to a
rehash within a rehash.  The sizes change only if no node is free, and then the
array part gets the best size for the integer keys.
-/
theorem Reached.luaHSet_sizing (h : Reached H t) {key : Value}
    (hkey : key.IsKey) :
    (luaHSet H t key = .error .overflow ∧ t.Crowded H) ∨
    exists t' slot, luaHSet H t key = .ok (t', slot) ∧
      t'.luaHGet H key = some slot ∧
      (forall k, t'.lookup H k = t.lookup H k) ∧ Sizing H t key t' := by
  rcases h.valid.luaHSet_cases hkey with hover |
    ⟨t', slot, hok, _, hassign, hsizing⟩
  · exact Or.inl hover
  · exact Or.inr ⟨t', slot, hok, hassign.slot, hassign.lookup, hsizing⟩

theorem luaHSet_sizing_first :
    (luaHSet collidingHashing emptyTable (.boolean true) = .error .overflow ∧
      emptyTable.Crowded collidingHashing) ∨
    exists t' slot, luaHSet collidingHashing emptyTable (.boolean true) =
        .ok (t', slot) ∧
      t'.luaHGet collidingHashing (.boolean true) = some slot ∧
      (forall k, t'.lookup collidingHashing k =
        emptyTable.lookup collidingHashing k) ∧
      Sizing collidingHashing emptyTable (.boolean true) t' :=
  Reached.luaHSet_sizing (.new (Nat.zero_le _) (show luaHNew 0 0 = _ from rfl))
    (by decide)

/-!
# A table with collisions
-/

theorem Reached.distinctAddresses (h : Reached H t)
    (hnodes : forall i, i < t.sizenode -> forall j, j < t.sizenode ->
      (t.node i).key.toValue.isCollectable = true ->
      (t.node j).key.toValue.isCollectable = true ->
      H.address (t.node i).key.toValue = H.address (t.node j).key.toValue ->
        (t.node i).key.toValue = (t.node j).key.toValue) :
    t.DistinctAddresses H := by
  intro i j k k' hi hj hk hk' haddress
  have hinside := h.valid.sound.hash.inside
  have hsame := hnodes i (hinside i (by rw [hi]; exact NodeKey.noConfusion))
    j (hinside j (by rw [hj]; exact NodeKey.noConfusion))
  rw [hi, hj] at hsame
  exact hsame hk hk' haddress

/-- All keys have one main position, and tables have their own addresses. -/
def collidingTables : Hashing where
  address
    | .table n => n
    | _ => 0
  intPoint _ := 0
  words _ := 0
  string _ := 0
  number2int _ := 0

def stored (t : LuaTable) (op : TableOp) : LuaTable :=
  match perform collidingTables t op with
  | .ok t' => t'
  | .error _ => t

theorem Reached.stored (h : Reached collidingTables t) (op : TableOp)
    (hdistinct : t.DistinctAddresses collidingTables) (hproper : op.Proper) :
    Reached collidingTables (t.stored op) := by
  unfold LuaTable.stored
  split
  · rename_i hok
    exact h.step hdistinct hproper hok
  · exact h

/-- `lua_createtable(L, 2, 4)`. -/
def newTable : LuaTable where
  sizearray := 2
  array _ := .nil
  dummy := false
  lsizenode := 2
  node _ := {}
  lastfree := 4

/-- The array part is full. -/
def arrayTable : LuaTable :=
  (newTable.stored (.setnum 1 (.boolean true))).stored
    (.setnum 2 (.boolean true))

/-- The nodes have two tables and an integer as keys, all on one chain. -/
def collidingTable : LuaTable :=
  ((arrayTable.stored (.set (.table 1) (.boolean true))).stored
    (.set (.table 2) (.boolean true))).stored (.setnum 3 (.boolean true))

theorem reached_arrayTable : Reached collidingTables arrayTable := by
  have hnew : Reached collidingTables newTable :=
    .new (show 2 ≤ maxASize by decide) (show luaHNew 2 4 = _ from rfl)
  have hfirst := hnew.stored (.setnum 1 (.boolean true))
    (hnew.distinctAddresses (by decide +kernel)) ⟨by decide, by decide⟩
  exact hfirst.stored _ (hfirst.distinctAddresses (by decide +kernel))
    ⟨by decide, by decide⟩

theorem reached_collidingTable : Reached collidingTables collidingTable := by
  have hfirst := reached_arrayTable.stored (.set (.table 1) (.boolean true))
    (reached_arrayTable.distinctAddresses (by decide +kernel)) trivial
  have hsecond := hfirst.stored (.set (.table 2) (.boolean true))
    (hfirst.distinctAddresses (by decide +kernel)) trivial
  exact hsecond.stored _ (hsecond.distinctAddresses (by decide +kernel))
    ⟨by decide, by decide⟩

end LuaTable

end LuaServer
