import LuaServer.Gc.Creation

/-!
# The functions that create objects

Each of them links the object where the collector looks for it and leaves it on
the stack of the running thread.
-/

namespace LuaServer
namespace Gc
namespace GlobalState

variable {g g' : GlobalState}

/-!
# Objects in the list of all objects
-/

/-- Nothing that is allocated refers through an object that is not. -/
theorem slots_of_objs {x : GCObject} (hfresh : ¬g.Allocated x) (hg : g.Upvals)
    (hobjs : forall y, y ≠ x -> g'.objs y = g.objs y) {y : GCObject}
    (hy : g.Allocated y) : g'.slots y = g.slots y := by
  have hne : forall z, g.Allocated z -> g'.objs z = g.objs z := by
    intro z hz
    refine hobjs z ?_
    intro heq
    subst heq
    exact hfresh hz
  have hself := hne y hy
  cases y with
  | string n => rfl
  | udata n => simp only [slots, udata, hself]
  | function n => simp only [slots, function, hself]
  | table n => simp only [slots, table, hself]
  | thread n => simp only [slots, thread, hself]
  | proto n => simp only [slots, proto, hself]
  | upval n =>
      have hup : g'.upval n = g.upval n := hself
      simp only [slots, upvalValue, hup]
      cases hopen : g.upval n with
      | closed v => rfl
      | opened t l =>
          have ht : g'.thread t = g.thread t :=
            hne (.thread t) (hg.opened n t l hy hopen).1
          simp only [stackAt, ht]

theorem Inserted.objs {x : GCObject} (h : Inserted g g' x) :
    g'.objs = g.objs := by
  rw [h.frame]

theorem Inserted.objs_self {x : GCObject} {p : x.Payload}
    (h : Inserted (g.create x p) g' x) : g'.objs x = p := by
  rw [h.objs]
  exact objs_write_self g x p

theorem Inserted.objs_of_ne {x : GCObject} {p : x.Payload}
    (h : Inserted (g.create x p) g' x) {y : GCObject} (hy : y ≠ x) :
    g'.objs y = g.objs y := by
  rw [h.objs]
  exact objs_write_of_ne g x p hy

theorem Inserted.created {x : GCObject} {p : x.Payload}
    (h : Inserted (g.create x p) g' x) (hfresh : ¬g.Allocated x)
    (hg : g.Upvals) (hself : forall y, y ∈ g'.slots x -> g.Alive y) :
    Created g g' x := by
  have hne : forall y, g.Allocated y -> y ≠ x := by
    intro y hy heq
    subst heq
    exact hfresh hy
  have hupval : forall n, g.Allocated (.upval n) -> g'.upval n = g.upval n :=
    fun n hn => h.objs_of_ne (hne _ hn)
  refine ⟨hfresh, ?_, fun y hy => slots_of_objs hfresh hg
    (fun z hz => h.objs_of_ne hz) hy, hupval, hself, ?_⟩
  · rw [h.frame]
    rfl
  · intro y hy hu
    have hstate : g'.gcstate = g.gcstate := by
      rw [h.frame]
      rfl
    have hstrt : g'.strt = g.strt := by
      rw [h.frame]
      rfl
    have hpos : g'.sweepstrgc = g.sweepstrgc := by
      rw [h.frame]
      rfl
    unfold Unswept at hu ⊢
    rw [hstate, hstrt, hpos]
    refine hu.imp_right fun ⟨hs, hrest⟩ => ⟨hs, ?_⟩
    rcases hrest with hmem | ⟨n, t, l, rfl, hup, hth⟩
    · exact Or.inl (h.kept y hmem)
    · exact Or.inr ⟨n, t, l, rfl, (hupval n hy).trans hup, h.kept _ hth⟩

theorem Inserted.inv {x : GCObject} {p : x.Payload}
    (h : Inserted (g.create x p) g' x) (hfresh : ¬g.Allocated x) (hg : g.Inv)
    (hself : forall y, y ∈ g'.slots x -> g.Alive y)
    (hrooted : g'.rooted x = true)
    (hthread : forall t, x = .thread t -> (g'.thread t).openupval = []) :
    Created g g' x ∧ g'.Inv := by
  have hcreated := h.created hfresh hg.upvals hself
  have hstrt : g'.strt = g.strt := by
    rw [h.frame]
    rfl
  refine ⟨hcreated, hcreated.inv hg
    (hcreated.linked hg.linked (Or.inl ⟨hrooted, h.perm⟩) (Or.inr ⟨?_, ?_⟩) ?_)
    (hcreated.upvals hg.upvals ?_ hthread ?_ ?_)⟩
  · intro n heq
    subst heq
    cases hrooted
  · rw [strings, hstrt]
    exact List.Perm.refl _
  · rw [hstrt]
    exact hg.linked.table
  · intro t ht
    exact h.objs_of_ne (hcreated.ne ht)
  · intro n heq
    subst heq
    rw [rooted_upval] at hrooted
    cases hopen : g'.isOpened n with
    | false => rfl
    | true =>
        rw [hopen] at hrooted
        cases hrooted
  · rw [h.frame]
    rfl

/-- `luaC_link` of a new object that is neither a thread nor an upvalue. -/
theorem Inv.link (hg : g.Inv) {x : GCObject} {p : x.Payload}
    (hfresh : ¬g.Allocated x) (hkind : GCObject.inert x = true)
    (hstring : forall n, x ≠ .string n)
    (hself : forall y, y ∈ (g.link x p).slots x -> g.Alive y) :
    Created g (g.link x p) x ∧ (g.link x p).Inv := by
  refine (inserted_linkroot (g.create x p) x).inv hfresh hg hself ?_ ?_
  · cases x with
    | string n => exact absurd rfl (hstring n)
    | upval n => cases hkind
    | _ => rfl
  · intro t heq
    subst heq
    cases hkind

theorem objs_link (x : GCObject) (p : x.Payload) : (g.link x p).objs x = p :=
  (inserted_linkroot (g.create x p) x).objs_self

/-!
# Tables, userdata, prototypes and threads
-/

theorem referents_replicate_nil (n : Nat) :
    referents (List.replicate n .nil) = [] := by
  rw [referents, List.filterMap_eq_nil_iff]
  intro v hv
  rw [List.eq_of_mem_replicate hv]
  rfl

theorem newtable_slots (narray nhash n : Nat) :
    (g.newtable narray nhash n).slots (.table n) = [] := by
  have htable : (g.newtable narray nhash n).table n =
      { metatable := none
        array := List.replicate narray .nil
        node := List.replicate nhash { key := .nil, val := .nil }
        keyweak := false
        valueweak := false } := objs_link (.table n) _
  have hlive : (List.replicate nhash ({ key := .nil, val := .nil } : Node)).filter
      (fun n => n.val ≠ .nil) = [] := by
    rw [List.filter_eq_nil_iff]
    intro m hm
    rw [List.eq_of_mem_replicate hm]
    simp
  simp only [slots, htable, Table.slots, Table.live, hlive,
    referents_replicate_nil]
  rfl

theorem Inv.newtable (hg : g.Inv) {narray nhash n : Nat}
    (hfresh : ¬g.Allocated (.table n)) :
    Created g (g.newtable narray nhash n) (.table n) ∧
      (g.newtable narray nhash n).Inv := by
  refine hg.link hfresh rfl (fun _ => GCObject.noConfusion) ?_
  intro y hy
  have hnil := newtable_slots (g := g) narray nhash n
  unfold GlobalState.newtable at hnil
  rw [hnil] at hy
  cases hy

theorem Inv.createtable (hg : g.Inv) {narray nhash n : Nat}
    (hfresh : ¬g.Allocated (.table n)) :
    (g.createtable narray nhash n).Inv := by
  rcases @Inv.newtable g hg narray nhash n hfresh with ⟨hcreated, hinv⟩
  refine hinv.push ?_
  intro x hx
  cases hx
  exact (hcreated.alive _).mpr (Or.inl rfl)

theorem Inv.newuserdata (hg : g.Inv) {env n : Nat}
    (hfresh : ¬g.Allocated (.udata n)) (henv : g.Alive (.table env)) :
    (g.newuserdata env n).Inv := by
  have hins := inserted_linkudata (g := g.create (.udata n)
    { metatable := none, env := env, finalized := false }) (.udata n)
    hg.linked.main
  have hself := hins.objs_self
  rcases hins.inv hfresh hg (by
    intro y hy
    have hudata : (g.newudata env n).udata n =
        { metatable := none, env := env, finalized := false } := hself
    have hy' : y ∈ (g.newudata env n).slots (.udata n) := hy
    simp only [slots, hudata, Udata.slots] at hy'
    rw [List.mem_singleton.mp hy']
    exact henv) rfl (fun _ => GCObject.noConfusion) with ⟨hcreated, hinv⟩
  refine Inv.push (g := g.newudata env n) hinv ?_
  intro x hx
  cases hx
  exact (hcreated.alive _).mpr (Or.inl rfl)

theorem Inv.newproto (hg : g.Inv) {source : Option Nat} {n : Nat}
    (hfresh : ¬g.Allocated (.proto n))
    (hsource : forall s, source = some s -> g.Alive (.string s)) :
    (g.newproto source n).Inv := by
  let f : Proto :=
    { source := source, k := [], upvalues := [], p := [], locvars := [] }
  have hself : (g.link (.proto n) f).proto n = f := objs_link (.proto n) f
  rcases hg.link (x := .proto n) (p := f) hfresh rfl
    (fun _ => GCObject.noConfusion) (by
      intro y hy
      simp only [slots, hself] at hy
      have hy' : y ∈ source.toList.map GCObject.string := by
        simpa [Proto.slots, f, referents] using hy
      rcases List.mem_map.mp hy' with ⟨s, hs, rfl⟩
      exact hsource s (Option.mem_toList.mp hs)) with ⟨hcreated, hinv⟩
  refine hinv.push ?_
  intro x hx
  cases hx
  exact (hcreated.alive _).mpr (Or.inl rfl)

theorem Closed.running (hg : g.Closed) : g.Alive (.thread g.running) :=
  hg.roots _ (List.mem_append_left _ (List.mem_append_left _
    (List.mem_cons_of_mem _ List.mem_cons_self)))

theorem Inv.newthread (hg : g.Inv) {n : Nat}
    (hfresh : ¬g.Allocated (.thread n)) : (g.newthread n).Inv := by
  let th : Thread :=
    { globals := (g.thread g.running).globals, stack := [], openupval := [] }
  have hself : (g.link (.thread n) th).thread n = th := objs_link (.thread n) th
  have hins := inserted_linkroot (g.create (.thread n) th) (.thread n)
  rcases hins.inv hfresh hg (by
      intro y hy
      have hy' : y ∈ (g.link (.thread n) th).slots (.thread n) := hy
      simp only [slots, hself] at hy'
      refine hg.closed.slots _ y hg.closed.running ?_
      rcases mem_referents.mp hy' with ⟨v, hv, hgc⟩
      have hglobals : v = (g.thread g.running).globals := List.mem_singleton.mp hv
      exact mem_referents.mpr ⟨v, hglobals ▸ List.mem_cons_self, hgc⟩) rfl (by
      intro t ht
      cases ht
      exact congrArg Thread.openupval hself) with ⟨hcreated, hinv⟩
  refine Inv.push (g := g.link (.thread n) th) hinv ?_
  intro x hx
  cases hx
  exact (hcreated.alive _).mpr (Or.inl rfl)

/-!
# Strings
-/

theorem lmod_lt (h : UInt32) {size : Nat} (hsize : 0 < size) :
    lmod h size < size := by
  have hle : lmod h size ≤ size - 1 := Nat.and_le_right
  omega

theorem perm_flatten_modify {l : List (List Nat)} {i : Nat} (hi : i < l.length)
    (n : Nat) :
    (l.modify i fun list => n :: list).flatten.Perm (n :: l.flatten) := by
  induction l generalizing i with
  | nil => cases hi
  | cons list rest ih =>
      cases i with
      | zero => exact List.Perm.refl _
      | succ i =>
          rw [List.modify_succ_cons, List.flatten_cons, List.flatten_cons]
          exact ((ih (Nat.lt_of_succ_lt_succ hi)).append_left list).trans
            List.perm_middle

theorem length_chain (g : GlobalState) (l : List (List Nat)) (n : Nat) :
    (g.chain l n).length = l.length := List.length_modify _ _ _

theorem perm_chain {l : List (List Nat)} (hl : 0 < l.length) (n : Nat) :
    (g.chain l n).flatten.Perm (n :: l.flatten) :=
  perm_flatten_modify (lmod_lt _ hl) n

theorem mem_drop_modify {l : List (List Nat)} {i k n m : Nat}
    (hm : m ∈ (l.drop k).flatten) :
    m ∈ ((l.modify i fun list => n :: list).drop k).flatten := by
  induction l generalizing i k with
  | nil => simp at hm
  | cons list rest ih =>
      cases i with
      | zero =>
          cases k with
          | zero => exact List.mem_cons_of_mem n hm
          | succ k => exact hm
      | succ i =>
          rw [List.modify_succ_cons]
          cases k with
          | zero =>
              rw [List.drop_zero, List.flatten_cons, List.mem_append] at hm ⊢
              refine hm.imp_right fun hrest => ?_
              have hnext := ih (i := i) (k := 0) hrest
              exact hnext
          | succ k => exact ih hm

theorem perm_rechain (ns : List Nat) {l : List (List Nat)} (hl : 0 < l.length) :
    (ns.foldl g.chain l).flatten.Perm (ns ++ l.flatten) := by
  induction ns generalizing l with
  | nil => exact List.Perm.refl _
  | cons n rest ih =>
      rw [List.foldl_cons]
      refine (ih (l := g.chain l n) ?_).trans ?_
      · rw [length_chain]
        exact hl
      · refine ((perm_chain hl n).append_left rest).trans ?_
        exact List.perm_middle

theorem length_rechain (ns : List Nat) (l : List (List Nat)) :
    (ns.foldl g.chain l).length = l.length := by
  induction ns generalizing l with
  | nil => rfl
  | cons n rest ih => rw [List.foldl_cons, ih, length_chain]

theorem Inv.restring (hg : g.Inv) (hne : g.gcstate ≠ .sweepstring)
    {strt : List (List Nat)} (hperm : strt.flatten.Perm g.strings)
    (htable : 0 < strt.length) :
    Inv { g with strt := strt } where
  closed := { hg.closed with }
  linked :=
    { hg.linked with
      strings := by
        intro n
        exact (hg.linked.strings n).trans hperm.mem_iff.symm
      stringsNodup := hperm.nodup_iff.mpr hg.linked.stringsNodup
      table := htable }
  upvals := { hg.upvals with }
  colors := { hg.colors with }
  propagating := fun hstate => { hg.propagating hstate with
    lists := { (hg.propagating hstate).lists with } }
  swept := by
    intro hstate x hx
    rcases hg.swept hstate x hx with hw | hu | hd
    · exact Or.inl hw
    · rcases hu with ⟨hs, _⟩ | hrest
      · exact absurd hs hne
      · exact Or.inr (Or.inl (Or.inr hrest))
    · exact Or.inr (Or.inr hd)

theorem Inv.resize (hg : g.Inv) {newsize : Nat} (hsize : 0 < newsize) :
    (g.resize newsize).Inv := by
  unfold GlobalState.resize
  split
  · exact hg
  · rename_i hne
    have hempty : 0 < (List.replicate newsize ([] : List Nat)).length := by
      rw [List.length_replicate]
      exact hsize
    refine hg.restring hne ?_ ?_
    · refine (perm_rechain g.strings hempty).trans ?_
      have hnil : (List.replicate newsize ([] : List Nat)).flatten = [] := by
        rw [List.flatten_eq_nil_iff]
        exact fun l hl => List.eq_of_mem_replicate hl
      rw [hnil, List.append_nil]
    · rw [length_rechain]
      exact hempty

/-- The string has been chained, and the table has not grown yet. -/
def newstring (g : GlobalState) (str : LuaString) (n : Nat) : GlobalState :=
  { g.create (.string n) str with
    strt := (g.create (.string n) str).chain g.strt n }

theorem Inv.newstring (hg : g.Inv) {str : LuaString} {n : Nat}
    (hfresh : ¬g.Allocated (.string n)) :
    Created g (g.newstring str n) (.string n) ∧ (g.newstring str n).Inv := by
  have hobjs : forall y, y ≠ .string n ->
      (g.newstring str n).objs y = g.objs y :=
    fun y hy => objs_write_of_ne g (.string n) str hy
  have hcreated : Created g (g.newstring str n) (.string n) := by
    refine ⟨hfresh, rfl, fun y hy => slots_of_objs hfresh hg.upvals hobjs hy,
      fun m _ => hobjs (.upval m) GCObject.noConfusion,
      (fun _ h => absurd h List.not_mem_nil), ?_⟩
    intro y hy hth
    rcases hth with ⟨hs, m, rfl, hm⟩ | ⟨hs, hmem | ⟨m, t, l, rfl, hup, hth⟩⟩
    · exact Or.inl ⟨hs, m, rfl, mem_drop_modify hm⟩
    · exact Or.inr ⟨hs, Or.inl hmem⟩
    · refine Or.inr ⟨hs, Or.inr ⟨m, t, l, rfl, ?_, hth⟩⟩
      exact (hobjs (.upval m) GCObject.noConfusion).trans hup
  refine ⟨hcreated, hcreated.inv hg
    (hcreated.linked hg.linked (Or.inr ⟨rfl, rfl⟩)
      (Or.inl ⟨n, rfl, perm_chain hg.linked.table n⟩) ?_)
    (hcreated.upvals hg.upvals ?_ (fun _ => GCObject.noConfusion)
      (fun _ => GCObject.noConfusion) rfl)⟩
  · exact (length_chain _ _ _).symm ▸ hg.linked.table
  · intro t _
    exact hobjs (.thread t) GCObject.noConfusion

theorem alive_resize (newsize : Nat) (x : GCObject) :
    (g.resize newsize).Alive x <-> g.Alive x := by
  unfold resize
  split
  · exact Iff.rfl
  · exact Iff.rfl

theorem Inv.newlstr (hg : g.Inv) {str : LuaString} {n : Nat}
    (hfresh : ¬g.Allocated (.string n)) :
    (g.newlstr str n).Inv ∧ (g.newlstr str n).Alive (.string n) := by
  rcases @Inv.newstring g hg str n hfresh with ⟨hcreated, hinv⟩
  have halive := (hcreated.alive (.string n)).mpr (Or.inl rfl)
  have hlength : (g.newstring str n).strt.length = g.strt.length :=
    length_chain _ _ _
  have hdef : g.newlstr str n =
      if (g.newstring str n).strt.length < (g.newstring str n).strings.length &&
          (g.newstring str n).strt.length ≤ maxInt / 2 then
        (g.newstring str n).resize ((g.newstring str n).strt.length * 2)
      else g.newstring str n := rfl
  rw [hdef]
  split
  · refine ⟨hinv.resize ?_, (alive_resize _ _).mpr halive⟩
    have htable := hg.linked.table
    omega
  · exact ⟨hinv, halive⟩

theorem Inv.resurrect (hg : g.Inv) {x : GCObject} (hx : g.Allocated x)
    (hslots : forall y, y ∈ g.slots x -> g.Alive y) :
    (g.resurrect x).Inv ∧
      forall y, (g.resurrect x).Alive y <-> y = x ∨ g.Alive y := by
  unfold GlobalState.resurrect
  cases hdead : g.isdead x with
  | false =>
      refine ⟨hg, fun y => ⟨Or.inr, ?_⟩⟩
      intro hy
      rcases hy with rfl | hy
      · exact ⟨hx, hdead⟩
      · exact hy
  | true =>
      rw [if_pos rfl]
      refine ⟨hg.makewhite ?_ hx hslots, alive_makewhite hx⟩
      intro hstate
      rw [(hg.propagating hstate).noDead x] at hdead
      cases hdead

/-- `luaS_newlstr` returns a string that is not dead. -/
theorem Inv.internlstr (hg : g.Inv) {str : LuaString} {n : Nat}
    (hfresh : ¬g.Allocated (.string n)) :
    (g.internlstr str n).1.Inv ∧
      (g.internlstr str n).1.Alive (.string (g.internlstr str n).2) := by
  unfold GlobalState.internlstr
  cases hfind : (g.bucket (hash str)).find? fun m => g.text m = str with
  | none => exact hg.newlstr hfresh
  | some m =>
      have hmem := List.mem_of_find?_eq_some hfind
      have halloc : g.Allocated (.string m) := by
        rw [hg.linked.strings]
        unfold bucket at hmem
        rw [List.getD_eq_getElem?_getD] at hmem
        cases hget : g.strt[lmod (hash str) g.strt.length]? with
        | none =>
            rw [hget] at hmem
            cases hmem
        | some list =>
            rw [hget] at hmem
            exact List.mem_flatten.mpr ⟨list, List.mem_of_getElem? hget, hmem⟩
      rcases hg.resurrect halloc (fun _ h => absurd h List.not_mem_nil) with
        ⟨hinv, halive⟩
      exact ⟨hinv, (halive _).mpr (Or.inl rfl)⟩

theorem Inv.pushlstring (hg : g.Inv) {str : LuaString} {n : Nat}
    (hfresh : ¬g.Allocated (.string n)) :
    (g.pushlstring str n).Inv := by
  rcases @Inv.internlstr g hg str n hfresh with ⟨hinv, halive⟩
  refine hinv.push ?_
  intro x hx
  cases hx
  exact halive

end GlobalState
end Gc
end LuaServer
