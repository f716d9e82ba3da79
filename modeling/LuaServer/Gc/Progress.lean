import LuaServer.Gc.Interning
import LuaServer.Gc.Safety
import Mathlib.Data.Nat.Find

/-!
# Every cycle ends

Each step of the collector has less to do than the one before it, as long as the
program does nothing in between: the loops of `luaC_fullgc` end.
-/

namespace LuaServer
namespace Gc
namespace GlobalState

variable {g g' : GlobalState}

/-!
# The sweep of the objects
-/

/-- What the sweep has still to visit at most: closing an upvalue links it. -/
def work (g : GlobalState) : Nat := g.sweepgc.length + g.uvhead.length

theorem sweepgc_linkroot_le (x : GCObject) :
    (g.linkroot x).sweepgc.length ≤ g.sweepgc.length + 1 := by
  unfold linkroot
  split
  · exact Nat.le_refl _
  · exact Nat.le_succ _

theorem work_closeTurn (hg : g.Inv) (hne : g.gcstate ≠ .propagate)
    {th n : Nat} {rest : List Nat} (hopenin : OpenIn g th n rest) :
    (g.closeTurn th n rest).work ≤ g.work := by
  have hmem : n ∈ g.uvhead :=
    (hg.upvals.uvhead n).mpr
      ⟨(hopenin.opened hg.upvals).1, hopenin.isOpened hg.upvals⟩
  have herase := List.length_erase_of_mem hmem
  have hpos := List.length_pos_of_mem hmem
  have hmoved : (g.moveupval th n rest).work ≤ g.work := by
    have huvhead := (moved_moveupval g th n rest).taken.uvhead
    have hsweep : (g.moveupval th n rest).sweepgc.length ≤
        g.sweepgc.length + 1 := sweepgc_linkroot_le (.upval n)
    unfold work
    rw [huvhead]
    omega
  rw [closeTurn_eq hne]
  split
  · have hfreed : ((g.setOpenupval th rest).freeupval n).work =
        g.sweepgc.length + (g.uvhead.erase n).length := rfl
    rw [hfreed]
    unfold work
    omega
  · split
    · exact hmoved
    · exact hmoved

theorem work_closeLoop (th limit : Nat) (ns : List Nat) (hg : g.Inv)
    (hne : g.gcstate ≠ .propagate) (halloc : g.Allocated (.thread th))
    (hns : (g.thread th).openupval = ns) :
    (closeLoop th limit ns g).work ≤ g.work := by
  induction ns generalizing g with
  | nil => exact Nat.le_refl _
  | cons n rest ih =>
      rw [closeLoop_cons]
      split
      · have hopenin : OpenIn g th n rest := OpenIn.of_cons halloc hns
        have hturn := hg.closing hopenin
        have hopen : ((g.closeTurn th n rest).thread th).openupval = rest := by
          rw [(hg.closeTurn hopenin).2.taken.openupval, if_pos rfl]
        refine Nat.le_trans ?_ (work_closeTurn hg hne hopenin)
        have hth := (hturn.allocated (.thread th)
          fun _ => GCObject.noConfusion).mpr halloc
        refine ih hturn.inv ?_ hth hopen
        rw [hturn.gcstate]
        exact hne
      · exact Nat.le_refl _

theorem uvhead_sweepwholelist (ns : List Nat) (g : GlobalState) :
    (sweepwholelist .upval freeupval g ns).1.uvhead.length ≤
      g.uvhead.length := by
  induction ns generalizing g with
  | nil => exact Nat.le_refl _
  | cons n rest ih =>
      unfold sweepwholelist
      split
      · exact ih (g.makewhite (.upval n))
      · exact Nat.le_trans (ih (g.freeupval n)) List.length_erase_le

theorem work_sweepopen (hg : g.Inv) (hne : g.gcstate ≠ .propagate)
    {x : GCObject} (halloc : g.Allocated x) :
    (g.sweepopen x).work ≤ g.work := by
  have hsweep := (hg.sweepopen hne halloc).sweepgc
  have huvhead : (g.sweepopen x).uvhead.length ≤ g.uvhead.length := by
    unfold GlobalState.sweepopen
    split
    · exact uvhead_sweepwholelist _ g
    · exact Nat.le_refl _
  unfold work
  rw [hsweep]
  omega

theorem work_unlink {x : GCObject} (hmem : x ∈ g.sweepgc) :
    (g.unlink x).work < g.work := by
  have herase := List.length_erase_of_mem hmem
  have hpos := List.length_pos_of_mem hmem
  have hwork : (g.unlink x).work =
      (g.sweepgc.erase x).length + g.uvhead.length := rfl
  rw [hwork]
  unfold work
  omega

theorem work_freeobj (hg : g.Inv) (hne : g.gcstate ≠ .propagate)
    {x : GCObject} (hmem : x ∈ g.sweepgc) :
    ((g.unlink x).freeobj x).work < g.work := by
  unfold freeobj
  split
  · rename_i th
    have halloc := (hg.linked.allocated _ (List.mem_append_right _ hmem)).1
    have hclosing := (hg.close halloc 0).1
    have hcomm : (g.unlink (.thread th)).close th 0 =
        (g.close th 0).unlink (.thread th) :=
      closeLoop_unlink th 0 _ hne fun _ => GCObject.noConfusion
    rw [hcomm]
    have hclose := work_closeLoop th 0 _ hg hne halloc rfl
    exact Nat.lt_of_lt_of_le (work_unlink (hclosing.kept _ hmem)) hclose
  · exact work_unlink hmem

theorem work_sweepone (hg : g.Inv) (hne : g.gcstate ≠ .propagate)
    (hsweep : g.sweepgc ≠ []) : g.sweepone.work < g.work := by
  cases hlist : g.sweepgc with
  | nil => exact absurd hlist hsweep
  | cons x rest =>
      have hmem : x ∈ g.rootgc := by
        refine List.mem_append_right _ ?_
        rw [hlist]
        exact List.mem_cons_self
      have halloc := (hg.linked.allocated x hmem).1
      have hopen := hg.sweepopen hne halloc
      have hwork := work_sweepopen hg hne halloc
      rw [sweepone_cons hlist]
      generalize g.sweepopen x = s at hopen hwork ⊢
      have hnes : s.gcstate ≠ .propagate := fun h => hne (hopen.gcstate ▸ h)
      have hrest : s.sweepgc = x :: rest := hopen.sweepgc.trans hlist
      have hunlink : { s with sweepgc := rest } = s.unlink x := by
        unfold unlink
        rw [hrest, List.erase_cons_head]
      have hmems : x ∈ s.sweepgc := hrest ▸ List.mem_cons_self
      refine Nat.lt_of_lt_of_le ?_ hwork
      split
      · have hpass := work_unlink hmems
        rw [← hunlink] at hpass
        exact hpass
      · rw [hunlink]
        exact work_freeobj hopen.inv hnes hmems

theorem work_sweeplist_le (count : Nat) (hg : g.Inv)
    (hne : g.gcstate ≠ .propagate) : (sweeplist count g).work ≤ g.work := by
  induction count generalizing g with
  | zero => exact Nat.le_refl _
  | succ count ih =>
      unfold sweeplist
      cases hlist : g.sweepgc with
      | nil => exact Nat.le_refl _
      | cons x rest =>
          rcases hg.sweepone hne with ⟨hinv, hstate⟩
          have hlt := work_sweepone hg hne
            (hlist ▸ List.cons_ne_nil x rest)
          exact Nat.le_trans (ih hinv (hstate ▸ hne)) (Nat.le_of_lt hlt)

theorem work_sweeplist (count : Nat) (hg : g.Inv)
    (hne : g.gcstate ≠ .propagate) (hsweep : g.sweepgc ≠ []) :
    (sweeplist (count + 1) g).work < g.work := by
  unfold sweeplist
  cases hlist : g.sweepgc with
  | nil => exact absurd hlist hsweep
  | cons x rest =>
      rcases hg.sweepone hne with ⟨hinv, hstate⟩
      exact Nat.lt_of_le_of_lt
        (work_sweeplist_le count hinv (hstate ▸ hne))
        (work_sweepone hg hne hsweep)

/-!
# The phases of a cycle
-/

def Leads (g : GlobalState) (s : GCState) : Prop :=
  exists n, (singlestep^[n] g).gcstate = s

theorem Leads.step {s : GCState} (h : g.singlestep.Leads s) : g.Leads s := by
  rcases h with ⟨n, hn⟩
  exact ⟨n + 1, hn⟩

theorem Inv.iterate (hg : g.Inv) (n : Nat) :
    (GlobalState.singlestep^[n] g).Inv := by
  induction n generalizing g with
  | zero => exact hg
  | succ n ih => exact ih hg.singlestep

theorem Leads.trans {s s' : GCState} (h : g.Leads s) (hg : g.Inv)
    (hnext : forall g', Inv g' -> g'.gcstate = s -> g'.Leads s') :
    g.Leads s' := by
  rcases h with ⟨n, hn⟩
  rcases hnext _ (hg.iterate n) hn with ⟨m, hm⟩
  refine ⟨m + n, ?_⟩
  rw [Function.iterate_add_apply]
  exact hm

/-- Every gray object is traversed, and then comes the atomic step. -/
theorem Inv.propagate_ends (hg : g.Inv) (hstate : g.gcstate = .propagate) :
    g.Leads .sweepstring := by
  induction hm : g.measure using Nat.strong_induction_on generalizing g with
  | _ m ih =>
      cases hgray : g.gray with
      | nil =>
          refine ⟨1, ?_⟩
          show g.singlestep.gcstate = .sweepstring
          unfold GlobalState.singlestep
          rw [hstate]
          simp only
          rw [hgray]
          rfl
      | cons o rest =>
          have hsingle : g.singlestep = g.propagatemark := by
            unfold GlobalState.singlestep
            rw [hstate]
            simp only
            rw [hgray]
          have hmarking := hg.marking hstate
          have hkind : o.traversed = true := by
            refine hmarking.kinds o (List.mem_append_left _ ?_)
            rw [hgray]
            exact List.mem_cons_self
          rcases propagatemark_step hgray hkind with ⟨base, hpopped, hmarks, _⟩
          have hbase := hmarking.advances (hpopped.advances hgray)
          have h1 := hpopped.measure_lt hgray
          have h2 := hmarks.measure_le fun x hx htrav =>
            hbase.linked.traversed (allocated_of_iswhite hx) htrav
          have hstate' : g.propagatemark.gcstate = .propagate :=
            (hmarks.gcstate.trans hpopped.gcstate).trans hstate
          refine Leads.step ?_
          rw [hsingle]
          exact ih _ (by omega) (hg.propagatemark hstate) hstate' rfl

theorem Inv.sweepstring_ends (hg : g.Inv) (hstate : g.gcstate = .sweepstring) :
    g.Leads .sweep := by
  induction hm : g.strt.length - g.sweepstrgc using Nat.strong_induction_on
    generalizing g with
  | _ m ih =>
      have hkeep := (hg.sweepstrings hstate).2
      have hlength := (thins_sweepstrings g).length
      have hnext : g.sweepstrings.sweepstrgc = g.sweepstrgc + 1 := rfl
      have hinv := hg.singlestep
      have hsingle : g.singlestep =
          if g.sweepstrings.strt.length ≤ g.sweepstrings.sweepstrgc then
            { g.sweepstrings with gcstate := .sweep }
          else g.sweepstrings := by
        unfold GlobalState.singlestep
        rw [hstate]
      refine Leads.step ?_
      rw [hsingle] at hinv ⊢
      by_cases hlast : g.sweepstrings.strt.length ≤ g.sweepstrings.sweepstrgc
      · rw [if_pos hlast]
        exact ⟨0, rfl⟩
      · rw [if_neg hlast] at hinv ⊢
        rw [hlength, hnext] at hlast
        refine ih _ ?_ hinv (hkeep.trans hstate) rfl
        rw [hlength, hnext]
        omega

theorem Inv.sweep_ends (hg : g.Inv) (hstate : g.gcstate = .sweep) :
    g.Leads .finalize := by
  induction hm : g.work using Nat.strong_induction_on generalizing g with
  | _ m ih =>
      have hne : g.gcstate ≠ .propagate := by
        rw [hstate]
        exact GCState.noConfusion
      rcases hg.sweeplist hne gcSweepMax with ⟨hinv, hkeep⟩
      have hless : (GlobalState.sweeplist gcSweepMax g).sweepgc ≠ [] ->
          (GlobalState.sweeplist gcSweepMax g).work < g.work := by
        intro hrest
        refine work_sweeplist 39 hg hne ?_
        intro hnil
        refine hrest ?_
        unfold gcSweepMax GlobalState.sweeplist
        rw [hnil]
        exact hnil
      cases hrest : (GlobalState.sweeplist gcSweepMax g).sweepgc with
      | nil =>
          refine ⟨1, ?_⟩
          show g.singlestep.gcstate = .finalize
          unfold GlobalState.singlestep
          rw [hstate]
          simp only
          rw [hrest]
      | cons x rest =>
          have hsingle : g.singlestep = GlobalState.sweeplist gcSweepMax g := by
            unfold GlobalState.singlestep
            rw [hstate]
            simp only
            rw [hrest]
          have hlt := hless (hrest ▸ List.cons_ne_nil x rest)
          refine Leads.step ?_
          rw [hsingle]
          exact ih _ (hm ▸ hlt) hinv (hkeep.trans hstate) rfl

theorem gctm_cons {n : Nat} {rest : List Nat} (h : g.tmudata = n :: rest) :
    g.gctm.tmudata = rest ∧ g.gctm.gcstate = g.gcstate := by
  have hlink : ({ g with tmudata := rest }.linkudata (.udata n)).tmudata = rest ∧
      ({ g with tmudata := rest }.linkudata (.udata n)).gcstate = g.gcstate := by
    unfold linkudata
    simp only
    split
    · split
      · exact ⟨rfl, rfl⟩
      · exact ⟨rfl, rfl⟩
    · exact ⟨rfl, rfl⟩
  unfold gctm
  rw [h]
  simp only
  generalize linkudata { g with tmudata := rest } (.udata n) = s at hlink ⊢
  split
  · exact hlink
  · exact hlink

theorem Inv.finalize_ends (hg : g.Inv) (hstate : g.gcstate = .finalize) :
    g.Leads .pause := by
  induction hdue : g.tmudata generalizing g with
  | nil =>
      refine ⟨1, ?_⟩
      show g.singlestep.gcstate = .pause
      unfold GlobalState.singlestep
      rw [hstate]
      simp only
      rw [hdue]
  | cons n rest ih =>
      have hsingle : g.singlestep = g.gctm := by
        unfold GlobalState.singlestep
        rw [hstate]
        simp only
        rw [hdue]
      have hinv := hg.singlestep
      rcases gctm_cons hdue with ⟨hrest, hkeep⟩
      refine Leads.step ?_
      rw [hsingle] at hinv ⊢
      exact ih hinv (hkeep.trans hstate) hrest

/-!
# The loops of luaC_fullgc
-/

theorem Inv.sweepstring_leads (hg : g.Inv) (hstate : g.gcstate = .sweepstring) :
    g.Leads .finalize :=
  (hg.sweepstring_ends hstate).trans hg fun _ hinv hs => hinv.sweep_ends hs

theorem Inv.propagate_leads (hg : g.Inv) (hstate : g.gcstate = .propagate) :
    g.Leads .finalize :=
  (hg.propagate_ends hstate).trans hg fun _ hinv hs => hinv.sweepstring_leads hs

def fullgcStart (g : GlobalState) : GlobalState :=
  if g.gcstate = .pause ∨ g.gcstate = .propagate then g.resetcycle else g

theorem Inv.fullgcStart_leads (hg : g.Inv) : g.fullgcStart.Leads .finalize := by
  unfold fullgcStart
  split
  · exact hg.resetcycle.sweepstring_leads rfl
  · rename_i hmarked
    cases hstate : g.gcstate with
    | pause => exact absurd (Or.inl hstate) hmarked
    | propagate => exact absurd (Or.inr hstate) hmarked
    | sweepstring => exact hg.sweepstring_leads hstate
    | sweep => exact hg.sweep_ends hstate
    | finalize => exact ⟨0, hstate⟩

theorem Inv.fullgcStart (hg : g.Inv) : g.fullgcStart.Inv := by
  unfold GlobalState.fullgcStart
  split
  · exact hg.resetcycle
  · exact hg

/-- A loop of single steps that ends when the phase is reached. -/
theorem Leads.first {s : GCState} (h : g.Leads s) :
    exists n, (forall i, i < n -> (singlestep^[i] g).gcstate ≠ s) ∧
      (singlestep^[n] g).gcstate = s :=
  ⟨Nat.find h, fun _ hi => Nat.find_min h hi, Nat.find_spec h⟩

/--
The first loop of `luaC_fullgc` stops when the finalizers are due, and the second
one, which marks and sweeps anew, at the end of the cycle if no finalizer does
anything.
-/
theorem Reached.fullgc_ends (h : Reached g) :
    exists n, (forall i, i < n ->
        (singlestep^[i] g.fullgcStart).gcstate ≠ .finalize) ∧
      (singlestep^[n] g.fullgcStart).gcstate = .finalize ∧
        exists m, (forall i, i < m ->
            (singlestep^[i] (singlestep^[n] g.fullgcStart).markroot).gcstate ≠
              .pause) ∧
          (singlestep^[m] (singlestep^[n] g.fullgcStart).markroot).gcstate =
            .pause := by
  rcases h.inv.fullgcStart_leads.first with ⟨n, hbefore, hn⟩
  have hinv := (h.inv.fullgcStart.iterate n).markroot (Or.inr hn)
  have hleads : (singlestep^[n] g.fullgcStart).markroot.Leads .pause :=
    (hinv.propagate_leads rfl).trans hinv fun _ hs => hs.finalize_ends
  exact ⟨n, hbefore, hn, hleads.first⟩

/-- The sweep that is under way comes to a dead thread. -/
theorem fullgc_sweeping :
    sweeping.gcstate = .sweepstring ∧ sweeping.isdead (.thread 1) = true ∧
      exists n, (forall i, i < n ->
          (singlestep^[i] sweeping.fullgcStart).gcstate ≠ .finalize) ∧
        (singlestep^[n] sweeping.fullgcStart).gcstate = .finalize ∧
          exists m, (forall i, i < m -> (singlestep^[i]
              (singlestep^[n] sweeping.fullgcStart).markroot).gcstate ≠
                .pause) ∧
            (singlestep^[m]
              (singlestep^[n] sweeping.fullgcStart).markroot).gcstate =
                .pause := by
  refine ⟨?_, ?_, (reached_dropped.iterate 11).fullgc_ends⟩
  · decide +kernel
  · decide +kernel

end GlobalState
end Gc
end LuaServer
