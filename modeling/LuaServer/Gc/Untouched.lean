import LuaServer.Gc.Runs

/-!
# What leaves the strings alone

Only `lstring.c` and the sweep of its table change the string table; no other
function writes to a string.
-/

namespace LuaServer
namespace Gc
namespace GlobalState

variable {g g' g'' : GlobalState}

structure SameStrings (g g' : GlobalState) : Prop where
  strt : g'.strt = g.strt
  text : forall n, g'.text n = g.text n

namespace SameStrings

theorem refl (g : GlobalState) : SameStrings g g := ⟨rfl, fun _ => rfl⟩

theorem trans (h : SameStrings g g') (h' : SameStrings g' g'') :
    SameStrings g g'' :=
  ⟨h'.strt.trans h.strt, fun n => (h'.text n).trans (h.text n)⟩

theorem of_objs (hstrt : g'.strt = g.strt) (hobjs : g'.objs = g.objs) :
    SameStrings g g' where
  strt := hstrt
  text := by
    intro n
    rw [GlobalState.text, GlobalState.text, hobjs]

theorem foldl {item : Type} {f : GlobalState -> item -> GlobalState}
    (hf : forall g a, SameStrings g (f g a)) (items : List item)
    (g : GlobalState) : SameStrings g (items.foldl f g) := by
  induction items generalizing g with
  | nil => exact refl g
  | cons a rest ih => exact (hf g a).trans (ih (f g a))

theorem write {x : GCObject} (hx : forall n, x ≠ .string n) (p : x.Payload) :
    SameStrings g (g.write x p) where
  strt := rfl
  text := fun n => objs_write_of_ne g x p (hx n).symm

theorem create {x : GCObject} (hx : forall n, x ≠ .string n) (p : x.Payload) :
    SameStrings g (g.create x p) where
  strt := rfl
  text := fun n => objs_write_of_ne g x p (hx n).symm

theorem paint (x : GCObject) (c : Color) : SameStrings g (g.paint x c) :=
  of_objs rfl rfl

theorem setTable (t : Nat) (h : Table) : SameStrings g (g.setTable t h) :=
  write (x := .table t) (fun _ => GCObject.noConfusion) h

theorem setUdata (n : Nat) (u : Udata) : SameStrings g (g.setUdata n u) :=
  write (x := .udata n) (fun _ => GCObject.noConfusion) u

theorem setUpval (n : Nat) (uv : UpVal) : SameStrings g (g.setUpval n uv) :=
  write (x := .upval n) (fun _ => GCObject.noConfusion) uv

theorem setFunction (n : Nat) (cl : Closure) :
    SameStrings g (g.setFunction n cl) :=
  write (x := .function n) (fun _ => GCObject.noConfusion) cl

theorem setThread (n : Nat) (th : Thread) : SameStrings g (g.setThread n th) :=
  write (x := .thread n) (fun _ => GCObject.noConfusion) th

theorem setProto (n : Nat) (f : Proto) : SameStrings g (g.setProto n f) :=
  write (x := .proto n) (fun _ => GCObject.noConfusion) f

end SameStrings

/-!
# Marking
-/

theorem Marks.sameStrings (h : Marks g g') : SameStrings g g' :=
  SameStrings.of_objs h.sameLinks.strt h.objs

theorem Clears.sameStrings (h : Clears g g') : SameStrings g g' where
  strt := h.sameLinks.strt
  text := fun n => h.objs (.string n) fun _ => GCObject.noConfusion

theorem Finalizes.sameStrings (h : Finalizes g g') : SameStrings g g' where
  strt := h.sameLinks.strt
  text := fun n => h.other (.string n) fun _ => GCObject.noConfusion

namespace SameStrings

theorem marktable (n : Nat) : SameStrings g (g.marktable n) :=
  (marks_marktable g n).sameStrings

theorem traversetable (n : Nat) : SameStrings g (g.traversetable n).1 := by
  rcases g.marks_traversetable n with ⟨g0, hsame, _, hmarks⟩
  have h := hmarks.sameStrings
  refine ⟨h.strt, fun m => (h.text m).trans ?_⟩
  exact hsame.other (.string m) fun _ => GCObject.noConfusion

theorem traverseproto (n : Nat) : SameStrings g (g.traverseproto n) := by
  have h1 := marks_stringmarks g (g.proto n).source.toList
  have h2 := h1.trans (marks_markvalues _ (g.proto n).k)
  have h3 := h2.trans
    (marks_stringmarks _ ((g.proto n).upvalues.flatMap Option.toList))
  have h4 := h3.trans
    (marks_markobjects _ (((g.proto n).p.flatMap Option.toList).map .proto))
  exact (h4.trans (marks_stringmarks _ _)).sameStrings

theorem traverseclosure (n : Nat) : SameStrings g (g.traverseclosure n) := by
  unfold GlobalState.traverseclosure
  split
  · exact ((g.marks_markobject _).trans (marks_markvalues _ _)).sameStrings
  · exact (((g.marks_markobject _).trans (marks_markobject _ _)).trans
      (marks_markobjects _ _)).sameStrings

theorem traversestack (n : Nat) : SameStrings g (g.traversestack n) :=
  ((g.marks_markvalue _).trans (marks_markvalues _ _)).sameStrings

theorem propagatemark (g : GlobalState) : SameStrings g g.propagatemark := by
  unfold GlobalState.propagatemark
  split
  · exact refl g
  · rename_i o rest _
    have hpop : SameStrings g { g.paint o .black with gray := rest } :=
      of_objs rfl rfl
    simp only
    split
    · split
      · exact (hpop.trans (traversetable _)).trans (paint _ _)
      · exact hpop.trans (traversetable _)
    · exact hpop.trans (traverseclosure _)
    · refine SameStrings.trans ?_ (traversestack _)
      exact of_objs rfl rfl
    · exact hpop.trans (traverseproto _)
    · exact refl g

theorem propagateLoop (fuel : Nat) (g : GlobalState) :
    SameStrings g (propagateLoop fuel g) := by
  induction fuel generalizing g with
  | zero => exact refl g
  | succ fuel ih =>
      unfold GlobalState.propagateLoop
      split
      · exact refl g
      · exact (propagatemark g).trans (ih _)

theorem propagateall (g : GlobalState) : SameStrings g g.propagateall :=
  propagateLoop _ g

theorem markroot (g : GlobalState) : SameStrings g g.markroot := by
  have hstart : SameStrings g g.cycleStart := of_objs rfl rfl
  exact hstart.trans g.marks_markroot.1.sameStrings

/-!
# The atomic step
-/

theorem separateudata (all : Bool) : SameStrings g (g.separateudata all) := by
  have hfin := (separateLoop_spec all g g.udataList).1
  exact hfin.sameStrings.trans (of_objs rfl rfl)

theorem marktmu (g : GlobalState) : SameStrings g g.marktmu := by
  refine foldl (fun g n => ?_) g.tmudata g
  unfold marktmuTurn
  have hudata : SameStrings (g.makewhite (.udata n))
      ((g.makewhite (.udata n)).reallymarkudata n) := by
    unfold reallymarkudata
    refine SameStrings.trans ?_ (marktable _)
    split
    · exact paint _ _
    · exact (paint _ _).trans (marktable _)
  exact (paint (.udata n) _).trans hudata

theorem cleartable (l : List GCObject) : SameStrings g (g.cleartable l) := by
  refine foldl (fun g x => ?_) l g
  split
  · exact (g.clears_clearone _).sameStrings
  · exact refl g

theorem finishmark (g : GlobalState) : SameStrings g g.finishmark := by
  have h1 := g.marks_remarkupvals.sameStrings.trans (propagateall _)
  rw [finishmark_eq]
  simp only
  generalize g.remarkupvals.propagateall = g1 at h1 ⊢
  have hweak : SameStrings g1 g1.remarkWeak := of_objs rfl rfl
  have h2 := ((h1.trans hweak).trans (marks_remarkRoots _).sameStrings).trans
    (propagateall _)
  generalize g1.remarkWeak.remarkRoots.propagateall = g2 at h2 ⊢
  have hagain : SameStrings g2 g2.remarkAgain := of_objs rfl rfl
  have h3 := (h2.trans hagain).trans (propagateall _)
  generalize g2.remarkAgain.propagateall = g3 at h3 ⊢
  have h4 := ((h3.trans (separateudata false)).trans (marktmu _)).trans
    (propagateall _)
  exact h4.trans (cleartable _)

theorem atomic (g : GlobalState) : SameStrings g g.atomic := by
  have h := finishmark g
  unfold GlobalState.atomic
  generalize g.finishmark = g1 at h ⊢
  exact h.trans (of_objs rfl rfl)

/-!
# Links, barriers and upvalues
-/

theorem linkroot (x : GCObject) : SameStrings g (g.linkroot x) := by
  unfold GlobalState.linkroot
  split
  · exact of_objs rfl rfl
  · exact of_objs rfl rfl

theorem link {x : GCObject} (hx : forall n, x ≠ .string n) (p : x.Payload) :
    SameStrings g (g.link x p) :=
  (create hx p).trans (linkroot x)

theorem linkudata (x : GCObject) : SameStrings g (g.linkudata x) := by
  unfold GlobalState.linkudata
  simp only
  split
  · split
    · exact of_objs rfl rfl
    · exact of_objs rfl rfl
  · exact of_objs rfl rfl

theorem objbarrier (p o : GCObject) : SameStrings g (g.objbarrier p o) := by
  unfold GlobalState.objbarrier
  split
  · rename_i hwhite
    rw [Bool.and_eq_true] at hwhite
    unfold barrierf
    split
    · exact (g.marks_reallymarkobject hwhite.1).1.sameStrings
    · exact paint _ _
  · exact refl g

theorem barrier (p : GCObject) (v : TValue) :
    SameStrings g (g.barrier p v) := by
  unfold GlobalState.barrier
  split
  · exact refl g
  · exact objbarrier _ _

theorem objbarriert (t : Nat) (o : GCObject) :
    SameStrings g (g.objbarriert t o) := by
  unfold GlobalState.objbarriert
  split
  · exact of_objs rfl rfl
  · exact refl g

theorem barriert (t : Nat) (v : TValue) : SameStrings g (g.barriert t v) := by
  unfold GlobalState.barriert
  split
  · exact refl g
  · exact objbarriert _ _

theorem linkupval (n : Nat) : SameStrings g (g.linkupval n) := by
  unfold GlobalState.linkupval
  refine (linkroot (.upval n)).trans ?_
  generalize g.linkroot (.upval n) = g1
  simp only
  split
  · split
    · exact (paint _ _).trans (barrier _ _)
    · exact paint _ _
  · exact refl g1

theorem setOpenupval (th : Nat) (ns : List Nat) :
    SameStrings g (g.setOpenupval th ns) := setThread _ _

theorem closeLoop (th limit : Nat) (ns : List Nat) (g : GlobalState) :
    SameStrings g (closeLoop th limit ns g) := by
  induction ns generalizing g with
  | nil => exact refl g
  | cons n rest ih =>
      unfold GlobalState.closeLoop
      split
      · refine SameStrings.trans ?_ (ih _)
        refine (setOpenupval th rest).trans ?_
        generalize g.setOpenupval th rest = g1
        split
        · exact of_objs rfl rfl
        · refine SameStrings.trans ?_ (linkupval n)
          refine SameStrings.trans ?_ (setUpval n _)
          exact of_objs rfl rfl
      · exact refl g

theorem close (th limit : Nat) : SameStrings g (g.close th limit) :=
  closeLoop th limit _ g

theorem resurrect (x : GCObject) : SameStrings g (g.resurrect x) := by
  unfold GlobalState.resurrect
  split
  · exact paint _ _
  · exact refl g

theorem findupval (th limit uv : Nat) :
    SameStrings g (g.findupval th limit uv).1 := by
  unfold GlobalState.findupval
  split
  · exact resurrect _
  · have hcreate : SameStrings g
        (g.create (.upval uv) (UpVal.opened th limit)) :=
      create (fun _ => GCObject.noConfusion) _
    exact (hcreate.trans (setOpenupval th _)).trans (of_objs rfl rfl)

/-!
# The sweep of the other lists
-/

theorem sweepwholelist {obj : Nat -> GCObject}
    {free : GlobalState -> Nat -> GlobalState}
    (hfree : forall g n, SameStrings g (free g n)) (ns : List Nat)
    (g : GlobalState) : SameStrings g (sweepwholelist obj free g ns).1 := by
  induction ns generalizing g with
  | nil => exact refl g
  | cons n rest ih =>
      unfold GlobalState.sweepwholelist
      split
      · exact (paint _ _).trans (ih _)
      · exact (hfree g n).trans (ih _)

theorem sweepupvals (th : Nat) : SameStrings g (g.sweepupvals th) := by
  have hfree : forall g n, SameStrings g (freeupval g n) :=
    fun _ _ => of_objs rfl rfl
  exact (sweepwholelist hfree _ g).trans (setOpenupval th _)

theorem freeobj (x : GCObject) : SameStrings g (g.freeobj x) := by
  unfold GlobalState.freeobj
  split
  · exact (close _ 0).trans (of_objs rfl rfl)
  · exact of_objs rfl rfl

theorem sweepone (g : GlobalState) : SameStrings g g.sweepone := by
  cases hsweep : g.sweepgc with
  | nil =>
      unfold GlobalState.sweepone
      rw [hsweep]
      exact refl g
  | cons x rest =>
      have hopen : SameStrings g (g.sweepopen x) := by
        unfold sweepopen
        split
        · exact sweepupvals _
        · exact refl g
      rw [sweepone_cons hsweep]
      refine hopen.trans ?_
      generalize g.sweepopen x = g1
      split
      · exact of_objs rfl rfl
      · refine SameStrings.trans ?_ (freeobj x)
        exact of_objs rfl rfl

theorem sweeplist (count : Nat) (g : GlobalState) :
    SameStrings g (sweeplist count g) := by
  induction count generalizing g with
  | zero => exact refl g
  | succ count ih =>
      unfold GlobalState.sweeplist
      split
      · exact refl g
      · exact (sweepone g).trans (ih _)

theorem push (v : TValue) : SameStrings g (g.push v) := setThread _ _

theorem gctm (g : GlobalState) : SameStrings g g.gctm := by
  unfold GlobalState.gctm
  split
  · exact refl g
  · rename_i n rest _
    have hqueue : SameStrings g { g with tmudata := rest } := of_objs rfl rfl
    have hlink := hqueue.trans (linkudata (.udata n))
    simp only
    refine hlink.trans ?_
    generalize GlobalState.linkudata { g with tmudata := rest } (.udata n) = g1
    have hwhite : SameStrings g1 (g1.makewhite (.udata n)) := paint _ _
    split
    · exact hwhite
    · exact (hwhite.trans (push _)).trans (push _)

/-!
# The program
-/

theorem setStack (th : Nat) (values : List TValue) :
    SameStrings g (g.setStack th values) := setThread _ _

theorem restack (th : Nat) (values : List TValue) :
    SameStrings g (g.restack th values) :=
  (close th values.length).trans (setStack th values)

theorem setGlobals (th : Nat) (v : TValue) :
    SameStrings g (g.setGlobals th v) := setThread _ _

theorem setRegistry (v : TValue) : SameStrings g { g with registry := v } :=
  of_objs rfl rfl

theorem newtable (narray nhash n : Nat) :
    SameStrings g (g.newtable narray nhash n) :=
  link (fun _ => GCObject.noConfusion) _

theorem createtable (narray nhash n : Nat) :
    SameStrings g (g.createtable narray nhash n) :=
  (newtable narray nhash n).trans (push _)

theorem newuserdata (env n : Nat) : SameStrings g (g.newuserdata env n) := by
  have hcreate : SameStrings g (g.create (.udata n)
      ({ metatable := none, env := env, finalized := false } : Udata)) :=
    create (fun _ => GCObject.noConfusion) _
  exact (hcreate.trans (linkudata _)).trans (push _)

theorem linkfunction (n : Nat) (cl : Closure) :
    SameStrings g (g.link (.function n) cl) :=
  link (x := .function n) (fun _ => GCObject.noConfusion) cl

theorem pushcclosure (env count n : Nat) :
    SameStrings g (g.pushcclosure env count n) :=
  (linkfunction n _).trans (restack _ _)

theorem captures (cs : List Capture) (g : GlobalState) :
    SameStrings g (g.captures cs).1 := by
  induction cs generalizing g with
  | nil => exact refl g
  | cons c rest ih =>
      have hcapture : SameStrings g (g.capture c).1 := by
        cases c with
        | outer uv => exact refl g
        | stack level uv => exact findupval _ level uv
      exact hcapture.trans (ih _)

theorem pushclosure (env p : Nat) (cs : List Capture) (n : Nat) :
    SameStrings g (g.pushclosure env p cs n) :=
  (((linkfunction n _).trans (captures cs _)).trans (setFunction n _)).trans
    (push _)

theorem loaded (env p : Nat) (ns : List Nat) (n : Nat) :
    SameStrings g (g.loaded env p ns n) := by
  have hupvals : SameStrings (g.link (.function n) (Closure.lua env p []))
      ((g.link (.function n) (Closure.lua env p [])).newupvals ns) :=
    foldl (fun g m =>
      link (x := .upval m) (fun _ => GCObject.noConfusion) (UpVal.closed .nil))
      ns _
  exact (((linkfunction n _).trans hupvals).trans (setFunction n _)).trans
    (push _)

theorem newproto (source : Option Nat) (n : Nat) :
    SameStrings g (g.newproto source n) := by
  have hlink : SameStrings g (g.link (.proto n)
      ({ source := source, k := [], upvalues := [], p := [],
         locvars := [] } : Proto)) :=
    link (fun _ => GCObject.noConfusion) _
  exact hlink.trans (push _)

theorem newthread (n : Nat) : SameStrings g (g.newthread n) := by
  have hlink : SameStrings g (g.link (.thread n)
      ({ globals := (g.thread g.running).globals, stack := [],
         openupval := [] } : Thread)) :=
    link (fun _ => GCObject.noConfusion) _
  exact hlink.trans (push _)

theorem settable (t : Nat) (h : Table) (key val : TValue) :
    SameStrings g (g.settable t h key val) :=
  ((setTable t h).trans (barriert t key)).trans (barriert t val)

theorem setmetatable (t : Nat) (mt : Option Nat) :
    SameStrings g (g.setmetatable t mt) := by
  unfold GlobalState.setmetatable
  cases mt with
  | none => exact setTable t _
  | some m => exact (setTable t _).trans (objbarriert t _)

theorem setudatamt (n : Nat) (mt : Option Nat) :
    SameStrings g (g.setudatamt n mt) := by
  unfold GlobalState.setudatamt
  cases mt with
  | none => exact setUdata n _
  | some m => exact (setUdata n _).trans (objbarrier _ _)

theorem setfenv (n env : Nat) : SameStrings g (g.setfenv n env) :=
  (setFunction n _).trans (objbarrier _ _)

theorem setudataenv (n env : Nat) : SameStrings g (g.setudataenv n env) :=
  (setUdata n _).trans (objbarrier _ _)

theorem setupvalue (n : Nat) (v : TValue) :
    SameStrings g (g.setupvalue n v) := by
  unfold GlobalState.setupvalue
  split
  · exact setUpval n _
  · exact setStack _ _

theorem setcupvalue (f i : Nat) (v : TValue) :
    SameStrings g (g.setcupvalue f i v) := by
  unfold GlobalState.setcupvalue
  split
  · exact (setFunction f _).trans (barrier _ v)
  · exact refl g

theorem storeproto (n : Nat) (f : Proto) (v : TValue) :
    SameStrings g (g.storeproto n f v) :=
  (setProto n f).trans (barrier _ v)

end SameStrings

end GlobalState
end Gc
end LuaServer
