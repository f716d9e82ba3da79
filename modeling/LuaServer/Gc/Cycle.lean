import LuaServer.Gc.Capturing

/-!
# The cycle of the collector

`singlestep` takes the collector from one state to the next, and `luaC_fullgc`
may give up a cycle and start another one.
-/

namespace LuaServer
namespace Gc
namespace GlobalState

variable {g g' : GlobalState}

/-!
# Finalizers
-/

theorem Inv.requeue (hg : g.Inv) (hne : g.gcstate ≠ .propagate) {n : Nat}
    {rest : List Nat} (htm : g.tmudata = n :: rest)
    {passed sweepgc : List GCObject}
    (hperm : (passed ++ sweepgc).Perm (.udata n :: g.rootgc))
    (hkept : forall y, y ∈ g.sweepgc -> y ∈ sweepgc) :
    Inv (GlobalState.makewhite { g with
      tmudata := rest
      passed := passed
      sweepgc := sweepgc } (.udata n)) := by
  have hsub : forall m, m ∈ rest -> m ∈ g.tmudata := by
    intro m hm
    rw [htm]
    exact List.mem_cons_of_mem n hm
  have hn : n ∈ g.tmudata := htm ▸ List.mem_cons_self
  have hnodup := hg.linked.dueNodup
  rw [htm, List.nodup_cons] at hnodup
  have hmem : forall y, y ∈ passed ++ sweepgc <-> y = .udata n ∨ y ∈ g.rootgc := by
    intro y
    rw [hperm.mem_iff, List.mem_cons]
  have hdue : forall y, g.Due y -> y ≠ .udata n ->
      exists m, y = .udata m ∧ m ∈ rest := by
    intro y hm hne
    rcases hm with ⟨m, rfl, hm⟩
    rw [htm] at hm
    refine ⟨m, rfl, (List.mem_cons.mp hm).resolve_left ?_⟩
    intro heq
    subst heq
    exact hne rfl
  refine makewhite_inv (g := { g with
      tmudata := rest
      passed := passed
      sweepgc := sweepgc })
    ⟨hg.closed.slots, hg.closed.roots, fun m hm => hg.closed.due m (hsub m hm)⟩
    ⟨?_, hg.linked.fixed, hg.linked.fixedKinds, ?_, ?_, ?_, ?_, hnodup.2,
      hg.linked.strings, hg.linked.stringsNodup, hg.linked.table⟩
    { hg.upvals with } { hg.colors with } hne (hg.linked.due n hn).1 ?_ ?_
  · exact (hmem _).mpr (Or.inr hg.linked.main)
  · exact hperm.nodup_iff.mpr
      (List.nodup_cons.mpr ⟨(hg.linked.due n hn).2, hg.linked.nodup⟩)
  · intro y hy
    rcases (hmem y).mp hy with rfl | hy
    · exact ⟨(hg.linked.due n hn).1, rfl⟩
    · exact hg.linked.allocated y hy
  · intro y hy hr
    by_cases hyn : y = .udata n
    · exact Or.inl ((hmem y).mpr (Or.inl hyn))
    · rcases hg.linked.listed y hy hr with hin | hd
      · exact Or.inl ((hmem y).mpr (Or.inr hin))
      · exact Or.inr (hdue y hd hyn)
  · intro m hm
    rcases hg.linked.due m (hsub m hm) with ⟨halloc, hout⟩
    refine ⟨halloc, fun hin => ?_⟩
    rcases (hmem _).mp hin with heq | hin
    · cases heq
      exact hnodup.1 hm
    · exact hout hin
  · exact fun y hy => hg.closed.slots _ y (hg.closed.due n hn) hy
  · intro y hyn hy
    rcases hg.swept hne y hy with hw | hu | hd
    · exact Or.inl hw
    · refine Or.inr (Or.inl ?_)
      rcases hu with hstring | ⟨hs, hin | ⟨m, t, l, rfl, hup, ht⟩⟩
      · exact Or.inl hstring
      · exact Or.inr ⟨hs, Or.inl (hkept y hin)⟩
      · exact Or.inr ⟨hs, Or.inr ⟨m, t, l, rfl, hup, hkept _ ht⟩⟩
    · exact Or.inr (Or.inr (hdue y hd hyn))

theorem getstr_slots {h : Table} {name : Nat} {x : GCObject}
    (hx : (getstr h.node name).gcvalue = some x) : x ∈ h.slots := by
  unfold getstr at hx
  cases hfind : h.node.find? fun n => n.key = .string name with
  | none =>
      rw [hfind] at hx
      cases hx
  | some m =>
      rw [hfind] at hx
      replace hx : m.val.gcvalue = some x := hx
      have hlive : m ∈ h.live := by
        refine List.mem_filter.mpr ⟨List.mem_of_find?_eq_some hfind, ?_⟩
        cases hval : m.val with
        | nil =>
            rw [hval] at hx
            cases hx
        | _ => rfl
      refine List.mem_append_right _ (List.mem_append_right _ ?_)
      exact mem_referents.mpr ⟨m.val, List.mem_map_of_mem hlive, hx⟩

theorem Closed.gfasttm (hg : g.Closed) {n name : Nat}
    (hn : g.Alive (.udata n)) {x : GCObject}
    (hx : (g.gfasttm (g.udata n).metatable name).gcvalue = some x) :
    g.Alive x := by
  unfold GlobalState.gfasttm at hx
  cases hmt : (g.udata n).metatable with
  | none =>
      rw [hmt] at hx
      cases hx
  | some mt =>
      rw [hmt] at hx
      have htable : g.Alive (.table mt) := by
        refine hg.slots _ _ hn ?_
        simp [GlobalState.slots, Udata.slots, hmt]
      exact hg.slots _ x htable (getstr_slots hx)

theorem Inv.gctm (hg : g.Inv) (hne : g.gcstate ≠ .propagate) : g.gctm.Inv := by
  unfold GlobalState.gctm
  cases htm : g.tmudata with
  | nil => exact hg
  | cons n rest =>
      simp only
      have hins := inserted_linkudata (g := { g with tmudata := rest })
        (.udata n) hg.linked.main
      have hinv := hg.requeue hne htm hins.perm hins.kept
      rw [hins.frame]
      generalize hs : GlobalState.makewhite { g with
        tmudata := rest
        passed := (linkudata { g with tmudata := rest } (.udata n)).passed
        sweepgc := (linkudata { g with tmudata := rest } (.udata n)).sweepgc }
        (.udata n) = s at hinv
      have hn : s.Alive (.udata n) := by
        rw [← hs]
        refine (alive_makewhite ?_ _).mpr (Or.inl rfl)
        exact (hg.linked.due n (htm ▸ List.mem_cons_self)).1
      split
      · exact hinv
      · have hfirst : (s.push (s.gfasttm (s.udata n).metatable s.tmGc)).Inv :=
          hinv.push fun x hx => hinv.closed.gfasttm hn hx
        refine hfirst.push ?_
        intro x hx
        cases hx
        exact hn

/-!
# One step
-/

theorem checkSizes_inv (hg : g.Inv) : g.checkSizes.Inv := by
  unfold checkSizes
  split
  · rename_i hcut
    refine hg.resize ?_
    rw [Bool.and_eq_true, decide_eq_true_eq, decide_eq_true_eq] at hcut
    have hsize := hcut.2
    unfold minStrTabSize at hsize
    omega
  · exact hg

theorem sweepgc_checkSizes (g : GlobalState) :
    g.checkSizes.sweepgc = g.sweepgc := by
  unfold checkSizes
  split
  · unfold resize
    split <;> rfl
  · rfl

theorem gcstate_checkSizes (g : GlobalState) :
    g.checkSizes.gcstate = g.gcstate := by
  unfold checkSizes
  split
  · unfold resize
    split <;> rfl
  · rfl

theorem Inv.advance (hg : g.Inv) {s : GCState} (hne : g.gcstate ≠ .propagate)
    (hs : s ≠ .propagate)
    (hunswept : forall x, g.Unswept x -> Unswept { g with gcstate := s } x) :
    Inv { g with gcstate := s } := by
  refine Relisted.inv (g := g) ⟨rfl, rfl, List.Perm.refl _, id⟩ hg hs ?_
  intro x hx
  rcases hg.swept hne x hx with hw | hu | hd
  · exact Or.inl hw
  · exact Or.inr (Or.inl (hunswept x hu))
  · exact Or.inr (Or.inr hd)

theorem Inv.sweepstringStep (hg : g.Inv) (hstate : g.gcstate = .sweepstring) :
    g.singlestep.Inv := by
  rcases hg.sweepstrings hstate with ⟨hinv, hkeep⟩
  unfold singlestep
  rw [hstate]
  simp only
  split
  · rename_i hdone
    refine hinv.advance ?_ GCState.noConfusion ?_
    · rw [hkeep, hstate]
      exact GCState.noConfusion
    · intro x hrest
      rcases hrest with ⟨_, n, rfl, hn⟩ | ⟨_, hrest⟩
      · rw [List.drop_eq_nil_of_le hdone] at hn
        cases hn
      · exact Or.inr ⟨Or.inr rfl, hrest⟩
  · exact hinv

theorem Inv.sweepStep (hg : g.Inv) (hstate : g.gcstate = .sweep) :
    g.singlestep.Inv := by
  have hne : g.gcstate ≠ .propagate := by
    rw [hstate]
    exact GCState.noConfusion
  rcases hg.sweeplist hne gcSweepMax with ⟨hinv, hkeep⟩
  unfold singlestep
  rw [hstate]
  simp only
  cases hsweep : (GlobalState.sweeplist gcSweepMax g).sweepgc with
  | cons x rest => exact hinv
  | nil =>
      refine (checkSizes_inv hinv).advance ?_ GCState.noConfusion ?_
      · rw [gcstate_checkSizes, hkeep]
        exact hne
      · intro x ht
        rcases ht with ⟨hs, _⟩ | ⟨_, hmem | ⟨n, t, l, rfl, hup, ht⟩⟩
        · rw [gcstate_checkSizes, hkeep, hstate] at hs
          cases hs
        · rw [sweepgc_checkSizes, hsweep] at hmem
          cases hmem
        · rw [sweepgc_checkSizes, hsweep] at ht
          cases ht

theorem Inv.singlestep (hg : g.Inv) : g.singlestep.Inv := by
  cases hstate : g.gcstate with
  | pause =>
      unfold GlobalState.singlestep
      rw [hstate]
      exact hg.markroot (Or.inl hstate)
  | propagate =>
      unfold GlobalState.singlestep
      rw [hstate]
      simp only
      split
      · exact hg.atomic hstate
      · exact hg.propagatemark hstate
  | sweepstring => exact hg.sweepstringStep hstate
  | sweep => exact hg.sweepStep hstate
  | finalize =>
      have hne : g.gcstate ≠ .propagate := by
        rw [hstate]
        exact GCState.noConfusion
      unfold GlobalState.singlestep
      rw [hstate]
      simp only
      split
      · refine hg.advance hne GCState.noConfusion ?_
        rintro x (⟨hs, _⟩ | ⟨hs | hs, _⟩) <;> rw [hstate] at hs <;> cases hs
      · exact hg.gctm hne

/-!
# luaC_fullgc
-/

/-- A cycle may be given up: everything is swept back to white. -/
theorem Inv.resetcycle (hg : g.Inv) : g.resetcycle.Inv := by
  refine Relisted.inv (g := g) ⟨rfl, rfl, List.Perm.refl _, id⟩ hg
    GCState.noConfusion ?_
  intro x hx
  cases hr : g.rooted x with
  | true =>
      rcases hg.linked.listed x hx hr with hmem | hdue
      · exact Or.inr (Or.inl (Or.inr ⟨Or.inl rfl, Or.inl hmem⟩))
      · exact Or.inr (Or.inr hdue)
  | false =>
      cases x with
      | string n =>
          exact Or.inr (Or.inl (Or.inl ⟨rfl, n, rfl, (hg.linked.strings n).mp hx⟩))
      | upval n =>
          have hopen : g.isOpened n = true := by
            rw [rooted_upval] at hr
            cases hopen : g.isOpened n with
            | true => rfl
            | false =>
                rw [hopen] at hr
                cases hr
          cases hup : g.upval n with
          | closed v =>
              unfold isOpened at hopen
              rw [hup] at hopen
              cases hopen
          | opened t l =>
              have ht := (hg.upvals.opened n t l hx hup).1
              have hmem := (hg.linked.listed (.thread t) ht rfl).resolve_right (by
                intro hm
                rcases hm with ⟨m, hm, _⟩
                cases hm)
              exact Or.inr (Or.inl (Or.inr ⟨Or.inl rfl,
                Or.inr ⟨n, t, l, rfl, hup, hmem⟩⟩))
      | _ => cases hr

end GlobalState
end Gc
end LuaServer
