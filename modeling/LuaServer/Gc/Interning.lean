import LuaServer.Gc.Untouched

/-!
# The string table over whole runs

The collector takes dead strings off the table and the program puts new ones on
it.  In every state that a run gets to, two strings in use with the same characters
are one object, so that `luaO_rawequalObj` and `luaH_getstr` may compare addresses.
-/

namespace LuaServer
namespace Gc
namespace GlobalState

variable {g g' : GlobalState}

/-!
# Strings in their lists
-/

/-- Every string is in the list that its hash selects. -/
def Placed (g : GlobalState) (table : List (List Nat)) : Prop :=
  forall i n, n ∈ table.getD i [] ->
    i = lmod (hash (g.text n)) table.length

/-- No two strings of the table have the same characters. -/
structure Interned (g : GlobalState) : Prop where
  placed : g.Placed g.strt
  unique : forall m n, m ∈ g.strings -> n ∈ g.strings ->
    g.text m = g.text n -> m = n

theorem mem_strings {n : Nat} :
    n ∈ g.strings <-> exists i, n ∈ g.strt.getD i [] := by
  unfold strings
  constructor
  · intro hn
    rcases List.mem_flatten.mp hn with ⟨list, hlist, hn⟩
    rcases List.getElem?_of_mem hlist with ⟨i, hi⟩
    refine ⟨i, ?_⟩
    rw [List.getD_eq_getElem?_getD, hi]
    exact hn
  · intro hn
    rcases hn with ⟨i, hn⟩
    rw [List.getD_eq_getElem?_getD] at hn
    cases hi : g.strt[i]? with
    | none =>
        rw [hi] at hn
        cases hn
    | some list =>
        rw [hi] at hn
        exact List.mem_flatten.mpr ⟨list, List.mem_of_getElem? hi, hn⟩

theorem Interned.mem_bucket (h : g.Interned) {n : Nat} (hn : n ∈ g.strings) :
    n ∈ g.bucket (hash (g.text n)) := by
  rcases mem_strings.mp hn with ⟨i, hi⟩
  unfold bucket
  rw [← h.placed i n hi]
  exact hi

theorem placed_nil (g : GlobalState) (size : Nat) :
    g.Placed (List.replicate size []) := by
  intro i n hn
  rw [List.getD_eq_getElem?_getD, List.getElem?_replicate] at hn
  split at hn
  · cases hn
  · cases hn

theorem Placed.chain {table : List (List Nat)} (h : g.Placed table) (n : Nat) :
    g.Placed (g.chain table n) := by
  intro i m hm
  rw [length_chain]
  unfold GlobalState.chain at hm
  rw [List.getD_eq_getElem?_getD, List.getElem?_modify] at hm
  cases hlist : table[i]? with
  | none =>
      rw [hlist] at hm
      cases hm
  | some list =>
      rw [hlist] at hm
      have hold : m ∈ list -> i = lmod (hash (g.text m)) table.length := by
        intro hmem
        refine h i m ?_
        rw [List.getD_eq_getElem?_getD, hlist]
        exact hmem
      simp only [Option.map_eq_map, Option.map_some, Option.getD_some] at hm
      split at hm
      · rename_i hi
        rcases List.mem_cons.mp hm with rfl | hmem
        · exact hi.symm
        · exact hold hmem
      · exact hold hm

theorem Placed.rechain {table : List (List Nat)} (h : g.Placed table)
    (ns : List Nat) : g.Placed (ns.foldl g.chain table) := by
  induction ns generalizing table with
  | nil => exact h
  | cons n rest ih => exact ih (h.chain n)

/-!
# Strings taken off the table
-/

/-- Some strings are taken off their lists. -/
structure Thins (g g' : GlobalState) : Prop where
  length : g'.strt.length = g.strt.length
  lists : forall i n, n ∈ g'.strt.getD i [] -> n ∈ g.strt.getD i []
  text : forall n, g'.text n = g.text n

theorem SameStrings.thins (h : SameStrings g g') : Thins g g' where
  length := congrArg List.length h.strt
  lists := by
    intro i n hn
    rw [h.strt] at hn
    exact hn
  text := h.text

theorem Interned.thins (hg : g.Interned) (h : Thins g g') : g'.Interned where
  placed := by
    intro i n hn
    rw [h.text, h.length]
    exact hg.placed i n (h.lists i n hn)
  unique := by
    intro m n hm hn htext
    have hold : forall k, k ∈ g'.strings -> k ∈ g.strings := by
      intro k hk
      rcases mem_strings.mp hk with ⟨i, hi⟩
      exact mem_strings.mpr ⟨i, h.lists i k hi⟩
    rw [h.text, h.text] at htext
    exact hg.unique m n (hold m hm) (hold n hn) htext

theorem Interned.same (hg : g.Interned) (h : SameStrings g g') : g'.Interned :=
  hg.thins h.thins

theorem mem_sweepwholelist {obj : Nat -> GCObject}
    {free : GlobalState -> Nat -> GlobalState} {ns : List Nat} {m : Nat}
    (hm : m ∈ (sweepwholelist obj free g ns).2) : m ∈ ns := by
  induction ns generalizing g with
  | nil => exact hm
  | cons n rest ih =>
      unfold sweepwholelist at hm
      split at hm
      · rcases List.mem_cons.mp hm with rfl | hm
        · exact List.mem_cons_self
        · exact List.mem_cons_of_mem n (ih hm)
      · exact List.mem_cons_of_mem n (ih hm)

theorem thins_sweepstrings (g : GlobalState) : Thins g g.sweepstrings := by
  have hfree : forall (g : GlobalState) (n : Nat),
      SameStrings g (g.release (.string n)) :=
    fun _ _ => SameStrings.of_objs rfl rfl
  have hsame := @SameStrings.sweepwholelist GCObject.string _ hfree
    (g.strt.getD g.sweepstrgc []) g
  have hmem := fun m => @mem_sweepwholelist g GCObject.string
    (fun g n => g.release (.string n)) (g.strt.getD g.sweepstrgc []) m
  unfold sweepstrings
  generalize sweepwholelist GCObject.string
    (fun g n => g.release (.string n)) g (g.strt.getD g.sweepstrgc []) = r
    at hsame hmem ⊢
  refine ⟨?_, ?_, hsame.text⟩
  · exact List.length_set.trans (congrArg List.length hsame.strt)
  · intro i n hn
    simp only at hn
    rw [hsame.strt, List.getD_eq_getElem?_getD, List.getElem?_set] at hn
    split at hn
    · rename_i hi
      split at hn
      · rw [← hi]
        exact hmem n hn
      · cases hn
    · rw [List.getD_eq_getElem?_getD]
      exact hn

/-!
# Strings put on the table
-/

theorem Interned.resize (hg : g.Interned) {newsize : Nat} (hsize : 0 < newsize) :
    (g.resize newsize).Interned := by
  unfold GlobalState.resize
  split
  · exact hg
  · have hempty : 0 < (List.replicate newsize ([] : List Nat)).length := by
      rw [List.length_replicate]
      exact hsize
    have hnil : (List.replicate newsize ([] : List Nat)).flatten = [] := by
      rw [List.flatten_eq_nil_iff]
      exact fun l hl => List.eq_of_mem_replicate hl
    have hperm := perm_rechain (g := g) g.strings hempty
    rw [hnil, List.append_nil] at hperm
    refine ⟨(g.placed_nil newsize).rechain g.strings, ?_⟩
    intro m n hm hn
    exact hg.unique m n (hperm.mem_iff.mp hm) (hperm.mem_iff.mp hn)

theorem Interned.newstring (hi : g.Interned) (hg : g.Linked) {str : LuaString}
    {n : Nat} (hfresh : ¬g.Allocated (.string n))
    (hnew : forall m, m ∈ g.strings -> g.text m ≠ str) :
    (g.newstring str n).Interned := by
  have hself : (g.newstring str n).text n = str :=
    objs_write_self g (.string n) str
  have hother : forall m, m ≠ n -> (g.newstring str n).text m = g.text m :=
    fun m hm => objs_write_of_ne g (.string n) str
      fun heq => hm (GCObject.string.inj heq)
  have hne : forall m, m ∈ g.strings -> m ≠ n := by
    intro m hm heq
    subst heq
    exact hfresh ((hg.strings m).mpr hm)
  have hplaced : (g.newstring str n).Placed g.strt := by
    intro i m hm
    rw [hother m (hne m (mem_strings.mpr ⟨i, hm⟩))]
    exact hi.placed i m hm
  have hmem : forall m, m ∈ (g.newstring str n).strings ->
      m = n ∨ m ∈ g.strings := by
    intro m hm
    exact List.mem_cons.mp ((perm_chain hg.table n).mem_iff.mp hm)
  refine ⟨hplaced.chain n, ?_⟩
  intro m k hm hk htext
  rcases hmem m hm with rfl | hmold
  · rcases hmem k hk with rfl | hkold
    · rfl
    · rw [hself, hother k (hne k hkold)] at htext
      exact absurd htext.symm (hnew k hkold)
  · rcases hmem k hk with rfl | hkold
    · rw [hself, hother m (hne m hmold)] at htext
      exact absurd htext (hnew m hmold)
    · rw [hother m (hne m hmold), hother k (hne k hkold)] at htext
      exact hi.unique m k hmold hkold htext

theorem Interned.newlstr (hi : g.Interned) (hg : g.Linked) {str : LuaString}
    {n : Nat} (hfresh : ¬g.Allocated (.string n))
    (hnew : forall m, m ∈ g.strings -> g.text m ≠ str) :
    (g.newlstr str n).Interned := by
  have hstring := hi.newstring hg hfresh hnew
  have hdef : g.newlstr str n =
      if (g.newstring str n).strt.length < (g.newstring str n).strings.length &&
          (g.newstring str n).strt.length ≤ maxInt / 2 then
        (g.newstring str n).resize ((g.newstring str n).strt.length * 2)
      else g.newstring str n := rfl
  have hlength : (g.newstring str n).strt.length = g.strt.length :=
    length_chain _ _ _
  rw [hdef]
  split
  · refine hstring.resize ?_
    have htable := hg.table
    omega
  · exact hstring

theorem Interned.absent (hi : g.Interned) {str : LuaString}
    (hnone : (g.bucket (hash str)).find? (fun m => g.text m = str) = none) :
    forall m, m ∈ g.strings -> g.text m ≠ str := by
  intro m hm heq
  subst heq
  have hfalse := List.find?_eq_none.mp hnone m (hi.mem_bucket hm)
  simp at hfalse

theorem Interned.internlstr (hi : g.Interned) (hg : g.Linked) {str : LuaString}
    {n : Nat} (hfresh : ¬g.Allocated (.string n)) :
    (g.internlstr str n).1.Interned := by
  unfold GlobalState.internlstr
  cases hfind : (g.bucket (hash str)).find? fun m => g.text m = str with
  | none => exact hi.newlstr hg hfresh (hi.absent hfind)
  | some m => exact hi.same (SameStrings.resurrect _)

theorem Interned.internlstr_found (hi : g.Interned) {m : Nat}
    (hm : m ∈ g.strings) (n : Nat) : (g.internlstr (g.text m) n).2 = m := by
  unfold GlobalState.internlstr
  cases hfind : (g.bucket (hash (g.text m))).find? fun k =>
      g.text k = g.text m with
  | none => exact absurd rfl (hi.absent hfind m hm)
  | some k =>
      have htext : g.text k = g.text m := by
        simpa using List.find?_some hfind
      have hk : k ∈ g.strings :=
        mem_strings.mpr ⟨_, List.mem_of_find?_eq_some hfind⟩
      exact hi.unique k m hk hm htext

/-!
# Every run keeps the strings apart
-/

theorem Interned.checkSizes (hi : g.Interned) : g.checkSizes.Interned := by
  unfold GlobalState.checkSizes
  split
  · rename_i hsmall
    simp only [minStrTabSize, Bool.and_eq_true, decide_eq_true_eq] at hsmall
    refine hi.resize ?_
    omega
  · exact hi

theorem Interned.singlestep (hi : g.Interned) : g.singlestep.Interned := by
  unfold GlobalState.singlestep
  split
  · exact hi.same (SameStrings.markroot g)
  · split
    · exact hi.same (SameStrings.atomic g)
    · exact hi.same (SameStrings.propagatemark g)
  · have hswept := hi.thins (thins_sweepstrings g)
    generalize g.sweepstrings = g1 at hswept ⊢
    simp only
    split
    · exact hswept.same (SameStrings.of_objs rfl rfl)
    · exact hswept
  · have hswept := hi.same (SameStrings.sweeplist gcSweepMax g)
    generalize sweeplist gcSweepMax g = g1 at hswept ⊢
    simp only
    split
    · exact hswept.checkSizes.same (SameStrings.of_objs rfl rfl)
    · exact hswept
  · split
    · exact hi.same (SameStrings.of_objs rfl rfl)
    · exact hi.same (SameStrings.gctm g)

theorem interned_luaopen (gc mode : Nat) : (luaopen gc mode).Interned := by
  have hfirst : (newstate gc mode).Interned :=
    ⟨fun _ _ hn => absurd hn List.not_mem_nil,
      fun _ _ hm _ => absurd hm List.not_mem_nil⟩
  have hglobals := (hfirst.same (SameStrings.newtable 0 2 0)).same
    (SameStrings.setGlobals 0 (.table 0))
  have hregistry := (hglobals.same (SameStrings.newtable 0 2 1)).same
    (SameStrings.setRegistry (.table 1))
  have hsize : 0 < minStrTabSize := by decide
  exact hregistry.resize hsize

theorem Step.interned (h : Step g g') (hg : g.Inv) (hi : g.Interned) :
    g'.Interned := by
  cases h with
  | singlestep => exact hi.singlestep
  | resetcycle _ => exact hi.same (SameStrings.of_objs rfl rfl)
  | restart _ => exact hi.same (SameStrings.markroot g)
  | restack _ _ => exact hi.same (SameStrings.restack _ _)
  | setGlobals _ _ => exact hi.same (SameStrings.setGlobals _ _)
  | switch _ => exact hi.same (SameStrings.of_objs rfl rfl)
  | close limit _ => exact hi.same (SameStrings.close _ limit)
  | pushlstring str hfresh =>
      exact (hi.internlstr hg.linked hfresh).same (SameStrings.push _)
  | fixstring str hfresh =>
      exact (hi.internlstr hg.linked hfresh).same (SameStrings.of_objs rfl rfl)
  | createtable narray nhash _ =>
      exact hi.same (SameStrings.createtable narray nhash _)
  | newuserdata _ _ => exact hi.same (SameStrings.newuserdata _ _)
  | pushcclosure _ _ => exact hi.same (SameStrings.pushcclosure _ _ _)
  | pushclosure _ _ _ _ => exact hi.same (SameStrings.pushclosure _ _ _ _)
  | loaded _ _ _ _ _ => exact hi.same (SameStrings.loaded _ _ _ _)
  | newproto _ _ => exact hi.same (SameStrings.newproto _ _)
  | newthread _ => exact hi.same (SameStrings.newthread _)
  | settable _ _ _ _ => exact hi.same (SameStrings.settable _ _ _ _)
  | setmetatable _ _ => exact hi.same (SameStrings.setmetatable _ _)
  | setudatamt _ _ => exact hi.same (SameStrings.setudatamt _ _)
  | settypemt ty _ => exact hi.same (SameStrings.of_objs rfl rfl)
  | setfenv _ _ => exact hi.same (SameStrings.setfenv _ _)
  | setudataenv _ _ => exact hi.same (SameStrings.setudataenv _ _)
  | opSetupval _ _ =>
      exact (hi.same (SameStrings.setupvalue _ _)).same (SameStrings.barrier _ _)
  | setcupvalue i _ _ => exact hi.same (SameStrings.setcupvalue _ i _)
  | luaSetupvalue _ _ _ _ =>
      exact (hi.same (SameStrings.setupvalue _ _)).same (SameStrings.barrier _ _)
  | storeproto _ _ _ => exact hi.same (SameStrings.storeproto _ _ _)
  | undump _ _ _ _ => exact hi.same (SameStrings.setProto _ _)
  | setregistry _ _ => exact hi.same (SameStrings.setRegistry _)

theorem Reached.interned (h : Reached g) : g.Interned := by
  induction h with
  | start gc mode => exact interned_luaopen gc mode
  | next hreached hstep ih => exact hstep.interned hreached.inv ih

/--
Two strings that the program can get at are one object if they have the same
characters, and `luaS_newlstr` gives this object for these characters.
-/
theorem Reached.string_identity (h : Reached g) {m : Nat}
    (hm : g.Accessible (.string m)) :
    (forall n, g.Accessible (.string n) -> g.text n = g.text m -> n = m) ∧
      forall n, (g.internlstr (g.text m) n).2 = m := by
  have hmem : forall n, g.Accessible (.string n) -> n ∈ g.strings :=
    fun n hn => (h.inv.linked.strings n).mp (h.inv.closed.accessible hn).1
  refine ⟨?_, h.interned.internlstr_found (hmem m hm)⟩
  intro n hn htext
  exact h.interned.unique n m (hmem n hn) (hmem m hm) htext

/-- The string is on the stack when its characters come again. -/
theorem string_identity_pushed :
    (((luaopen 0 1).pushlstring [97] 0).internlstr [97] 5).2 = 0 := by
  have hreached : Reached ((luaopen 0 1).pushlstring [97] 0) :=
    Reached.next (Reached.start 0 1) (Step.pushlstring [97] fun h => h rfl)
  exact (hreached.string_identity (m := 0) (Library.Reaches.step
    (x := .thread 0) (Library.Reaches.root List.mem_cons_self)
    (by decide))).2 5

end GlobalState
end Gc
end LuaServer
