import LuaServer.Interpreter.Confinement
import LuaServer.Interpreter.Step

/-!
# The registered metatable

The metatable that the library registers for its sockets is a table of its own:
no full userdata ever gets it, whatever a script does and however the calls that
register it are interleaved with the script.
-/

namespace LuaServer

def filesTable : Nat := 4

namespace LuaState

/-- A table that the library has made for itself. -/
structure Own (L : LuaState) (m : Nat) : Prop where
  lt : m < L.nextTable
  ne_files : m ≠ filesTable
  ne_registry : m ≠ L.registry
  notMem_proxies : m ∉ L.proxies

/-- Full userdata have the metatable of files or one that `newproxy` made. -/
structure Registers (L : LuaState) : Prop where
  registry_lt : L.registry < L.nextTable
  files_lt : filesTable < L.nextTable
  proxies : forall m, m ∈ L.proxies -> m < L.nextTable ∧ m ≠ L.registry
  plain : (L.tables L.registry).metatable = none
  files : forall m,
    L.registryField fileHandleName = .table m -> m = filesTable
  udata : forall u m, (L.udata u).metatable = some m ->
    m = filesTable ∨ m ∈ L.proxies
  socket : L.registryField socketDataName = .nil ∨
    exists m, L.registryField socketDataName = .table m ∧ L.Own m

/-- The metatable that the library registers is the one of all light userdata. -/
def SharesMetatable (L : LuaState) : Prop :=
  exists m, L.mt .lightuserdata = some m ∧
    L.registryField socketDataName = .table m

/-- Later states have more tables, and `newproxy` only takes new ones. -/
structure Extends (L L' : LuaState) : Prop where
  registry : L'.registry = L.registry
  nextTable : L.nextTable ≤ L'.nextTable
  proxies : forall m, m ∈ L'.proxies ->
    m ∈ L.proxies ∨ (L.nextTable ≤ m ∧ m < L'.nextTable)

section Tables

variable {L L' : LuaState} {allowed : Ptr -> Prop} {m : Nat}

theorem Extends.of_eq (hregistry : L'.registry = L.registry)
    (hnext : L'.nextTable = L.nextTable) (hproxies : L'.proxies = L.proxies) :
    L.Extends L' where
  registry := hregistry
  nextTable := Nat.le_of_eq hnext.symm
  proxies := by
    intro m hm
    rw [hproxies] at hm
    exact Or.inl hm

theorem Extends.refl (L : LuaState) : L.Extends L := .of_eq rfl rfl rfl

theorem Extends.trans {L'' : LuaState} (h : L.Extends L')
    (h' : L'.Extends L'') : L.Extends L'' where
  registry := h'.registry.trans h.registry
  nextTable := Nat.le_trans h.nextTable h'.nextTable
  proxies := by
    intro m hm
    rcases h'.proxies m hm with hmid | ⟨hlow, hhigh⟩
    · rcases h.proxies m hmid with hold | ⟨hlow, hhigh⟩
      · exact Or.inl hold
      · exact Or.inr ⟨hlow, Nat.lt_of_lt_of_le hhigh h'.nextTable⟩
    · exact Or.inr ⟨Nat.le_trans h.nextTable hlow, hhigh⟩

theorem Own.extends (h : L.Own m) (hext : L.Extends L') : L'.Own m where
  lt := Nat.lt_of_lt_of_le h.lt hext.nextTable
  ne_files := h.ne_files
  ne_registry := by
    rw [hext.registry]
    exact h.ne_registry
  notMem_proxies := by
    intro hmem
    rcases hext.proxies m hmem with hold | ⟨hnew, _⟩
    · exact h.notMem_proxies hold
    · exact Nat.lt_irrefl _ (Nat.lt_of_lt_of_le h.lt hnew)

theorem registryField_of_table
    (h : L'.tables L'.registry = L.tables L.registry) {name : LuaString} :
    L'.registryField name = L.registryField name :=
  congrArg (fun t => t.get (.string name)) h

theorem Registers.extends (h : L.Registers) (hext : L.Extends L')
    (htable : L'.tables L'.registry = L.tables L.registry)
    (hudata : forall u m, (L'.udata u).metatable = some m ->
      (L.udata u).metatable = some m ∨ m = filesTable ∨ m ∈ L'.proxies)
    (hkept : forall m, m ∈ L.proxies -> m ∈ L'.proxies) :
    L'.Registers where
  plain := by
    rw [htable]
    exact h.plain
  registry_lt := by
    rw [hext.registry]
    exact Nat.lt_of_lt_of_le h.registry_lt hext.nextTable
  files_lt := Nat.lt_of_lt_of_le h.files_lt hext.nextTable
  proxies := by
    intro m hm
    rw [hext.registry]
    rcases hext.proxies m hm with hold | ⟨hnew, hlt⟩
    · exact ⟨Nat.lt_of_lt_of_le (h.proxies m hold).1 hext.nextTable,
        (h.proxies m hold).2⟩
    · exact ⟨hlt, fun heq => Nat.lt_irrefl _
        (Nat.lt_of_lt_of_le (heq ▸ h.registry_lt) hnew)⟩
  files := by
    intro m hm
    rw [registryField_of_table htable] at hm
    exact h.files m hm
  udata := by
    intro u m hm
    rcases hudata u m hm with hold | hnew
    · rcases h.udata u m hold with hfiles | hproxy
      · exact Or.inl hfiles
      · exact Or.inr (hkept m hproxy)
    · exact hnew
  socket := by
    rw [registryField_of_table htable]
    rcases h.socket with hnil | ⟨m, hm, hown⟩
    · exact Or.inl hnil
    · exact Or.inr ⟨m, hm, hown.extends hext⟩

/-- A userdata does not pass for a socket. -/
theorem Registers.checkudata_userdata (h : L.Registers) (u : Nat) :
    L.checkudata (.userdata u) socketDataName = none := by
  cases hcheck : L.checkudata (.userdata u) socketDataName with
  | none => rfl
  | some p =>
      exfalso
      rcases checkudata_eq_some_iff.mp hcheck with ⟨_, _, m, hmeta, hfield⟩
      rcases h.socket with hnil | ⟨m', hm', hown⟩
      · rw [hnil] at hfield
        cases hfield
      · rw [hm', Value.table.injEq] at hfield
        rw [← hfield] at hmeta
        rcases h.udata u m' hmeta with hfiles | hproxy
        · exact hown.ne_files hfiles
        · exact hown.notMem_proxies hproxy

theorem registry_setTable {t : Nat} {table : Table} (ht : t ≠ L.registry) :
    (L.setTable t table).tables L.registry = L.tables L.registry :=
  if_neg (Ne.symm ht)

theorem registry_rawset {key v : Value} :
    (L.rawset L.registry key v).tables L.registry =
      (L.tables L.registry).set key v := if_pos rfl

theorem registryField_rawset (field name : LuaString) (v : Value) :
    (L.rawset L.registry (.string field) v).registryField name =
      if name = field then v else L.registryField name := by
  have htable : (L.rawset L.registry (.string field) v).registryField name =
      ((L.tables L.registry).set (.string field) v).get (.string name) :=
    congrArg (fun t => t.get (.string name)) registry_rawset
  rw [htable]
  by_cases hname : name = field
  · rw [if_pos hname, hname, Table.get_set_self]
  · rw [if_neg hname]
    apply Table.get_set_of_ne
    intro heq
    exact hname (Value.string.inj heq)

theorem Registers.registry_newTable (h : L.Registers) :
    L.newTable.1.tables L.registry = L.tables L.registry :=
  registry_setTable (Nat.ne_of_gt h.registry_lt)

theorem extends_newTable : L.Extends L.newTable.1 where
  registry := rfl
  nextTable := Nat.le_succ _
  proxies := fun _ hm => Or.inl hm

theorem Registers.newTable (h : L.Registers) : L.newTable.1.Registers :=
  h.extends extends_newTable h.registry_newTable
    (fun _ _ hm => Or.inl hm) fun _ hm => hm

theorem Registers.own_newTable (h : L.Registers) :
    L.newTable.1.Own L.newTable.2 where
  lt := Nat.lt_succ_self _
  ne_files := Nat.ne_of_gt h.files_lt
  ne_registry := Nat.ne_of_gt h.registry_lt
  notMem_proxies := fun hm => Nat.lt_irrefl _ (h.proxies _ hm).1

theorem udata_newUdata {x : Option Nat} {u : Nat}
    (hu : ((L.newUdata x).1.udata u).metatable = some m) :
    (L.udata u).metatable = some m ∨ x = some m := by
  change ((if u = L.nextUdata then { metatable := x }
    else L.udata u)).metatable = some m at hu
  by_cases hcase : u = L.nextUdata
  · rw [if_pos hcase] at hu
    exact Or.inr hu
  · rw [if_neg hcase] at hu
    exact Or.inl hu

end Tables

/-!
# Script steps
-/

section Scripts

variable {L L' : LuaState} {allowed : Ptr -> Prop}

theorem ScriptChange.extends (h : ScriptChange L allowed L') :
    L.Extends L' := by
  cases h with
  | pushed | forgotten | stored | setMetatable | madeUserdata | madeCell
  | setCell | setGlobals => exact Extends.of_eq rfl rfl rfl
  | madeTable => exact ⟨rfl, Nat.le_succ _, fun _ hm => Or.inl hm⟩
  | madeProxy =>
      refine ⟨rfl, Nat.le_succ _, ?_⟩
      intro m hm
      rcases List.mem_cons.mp hm with rfl | hold
      · exact Or.inr ⟨Nat.le_refl _, Nat.lt_succ_self _⟩
      · exact Or.inl hold

theorem ScriptChange.registry (hchange : ScriptChange L allowed L')
    (h : L.Registers) : L'.tables L'.registry = L.tables L.registry := by
  cases hchange with
  | pushed | forgotten | madeUserdata | madeCell | setCell | setGlobals => rfl
  | madeTable | madeProxy => exact h.registry_newTable
  | stored ht | setMetatable ht => exact registry_setTable ht

theorem ScriptChange.mt (hchange : ScriptChange L allowed L') :
    L'.mt = L.mt := by
  cases hchange with
  | pushed | forgotten | madeTable | stored | setMetatable | madeProxy
  | madeUserdata | madeCell | setCell | setGlobals => rfl

theorem ScriptChange.registers (hchange : ScriptChange L allowed L')
    (h : L.Registers) : L'.Registers := by
  apply h.extends hchange.extends (hchange.registry h)
  · intro u m hu
    cases hchange with
    | pushed | forgotten | madeTable | stored | setMetatable | madeCell
    | setCell | setGlobals => exact Or.inl hu
    | madeProxy =>
        rcases udata_newUdata hu with hold | hnew
        · exact Or.inl hold
        · cases hnew
          exact Or.inr (Or.inr List.mem_cons_self)
    | madeUserdata hm =>
        rcases udata_newUdata hu with hold | rfl
        · exact Or.inl hold
        · rcases hm m rfl with hproxy | hfield
          · exact Or.inr (Or.inr hproxy)
          · exact Or.inr (Or.inl (h.files m hfield))
  · intro m hm
    cases hchange with
    | pushed | forgotten | madeTable | stored | setMetatable | madeUserdata
    | madeCell | setCell | setGlobals => exact hm
    | madeProxy => exact List.mem_cons_of_mem _ hm

end Scripts

/-!
# The collector
-/

/-- The heap is the same but for the lists and the marks of the userdata. -/
structure SameHeap (L L' : LuaState) : Prop where
  tables : L'.tables = L.tables
  nextTable : L'.nextTable = L.nextTable
  udata : forall u, (L'.udata u).metatable = (L.udata u).metatable
  cells : L'.cells = L.cells
  mt : L'.mt = L.mt
  registry : L'.registry = L.registry
  globals : L'.globals = L.globals
  proxies : L'.proxies = L.proxies
  stack : L'.stack = L.stack

section Collector

variable {L L' : LuaState} {allowed : Ptr -> Prop}

theorem SameHeap.extends (h : SameHeap L L') : L.Extends L' :=
  .of_eq h.registry h.nextTable h.proxies

theorem SameHeap.confines (h : SameHeap L L') (hL : L.Confines allowed) :
    L'.Confines allowed where
  stack := by
    rw [h.stack, h.registry]
    exact hL.stack
  cells := by
    rw [h.cells, h.registry]
    exact hL.cells
  content := by
    rw [h.tables, h.registry]
    exact hL.content
  tableMeta := by
    rw [h.tables, h.registry]
    exact hL.tableMeta
  udataMeta := by
    intro u
    rw [h.udata, h.registry]
    exact hL.udataMeta u
  typeMeta := by
    rw [h.mt, h.registry]
    exact hL.typeMeta
  globals := by
    rw [h.globals, h.registry]
    exact hL.globals

theorem SameHeap.registers (h : SameHeap L L') (hL : L.Registers) :
    L'.Registers := by
  apply hL.extends h.extends
  · rw [h.tables, h.registry]
  · intro u m hm
    rw [h.udata] at hm
    exact Or.inl hm
  · intro m hm
    rw [h.proxies]
    exact hm

theorem separateLoop_state (white : Nat -> Bool) (all : Bool) (us : List Nat) :
    SameHeap L (separateLoop white all L us).1 := by
  induction us generalizing L with
  | nil => exact ⟨rfl, rfl, fun _ => rfl, rfl, rfl, rfl, rfl, rfl, rfl⟩
  | cons u rest ih =>
      have hmark : SameHeap L (L.markfinalized u) := by
        refine ⟨rfl, rfl, ?_, rfl, rfl, rfl, rfl, rfl, rfl⟩
        intro x
        show (if x = u then { L.udata u with finalized := true }
          else L.udata x).metatable = _
        by_cases hx : x = u
        · rw [if_pos hx, hx]
        · rw [if_neg hx]
      have hrest := @ih (L.markfinalized u)
      have hboth : SameHeap L (separateLoop white all (L.markfinalized u) rest).1 :=
        ⟨hrest.tables.trans hmark.tables, hrest.nextTable.trans hmark.nextTable,
          fun x => (hrest.udata x).trans (hmark.udata x),
          hrest.cells.trans hmark.cells, hrest.mt.trans hmark.mt,
          hrest.registry.trans hmark.registry, hrest.globals.trans hmark.globals,
          hrest.proxies.trans hmark.proxies, hrest.stack.trans hmark.stack⟩
      unfold separateLoop
      split
      · exact ih
      · split
        · exact hboth
        · exact hboth

theorem sameHeap_separateudata (white : Nat -> Bool) (all : Bool) :
    SameHeap L (L.separateudata white all) := by
  have h := @separateLoop_state L white all L.rootudata
  exact ⟨h.tables, h.nextTable, h.udata, h.cells, h.mt, h.registry, h.globals,
    h.proxies, h.stack⟩

theorem mem_cleartable {black : List Obj} {t : Nat} {entry : Value × Value}
    (h : entry ∈ ((L.cleartable black).tables t).content) :
    entry ∈ (L.tables t).content := by
  unfold cleartable at h
  simp only at h
  split at h
  · exact (List.mem_filter.mp h).1
  · exact h

theorem cleartable_metatable (black : List Obj) (t : Nat) :
    ((L.cleartable black).tables t).metatable = (L.tables t).metatable := by
  unfold cleartable
  simp only
  split
  · rfl
  · rfl

/-- A table without a metatable is not weak. -/
theorem cleartable_plain {t : Nat} (black : List Obj)
    (h : (L.tables t).metatable = none) :
    (L.cleartable black).tables t = L.tables t := by
  have hmode : forall letter, L.hasMode (L.tables t) letter = false := by
    intro letter
    unfold hasMode
    rw [h]
  unfold cleartable weakKey weakValue
  simp only [hmode, Bool.or_false, Bool.and_false, Bool.false_eq_true, if_false]

theorem Confines.cleartable (hL : L.Confines allowed) (black : List Obj) :
    (L.cleartable black).Confines allowed where
  stack := hL.stack
  cells := hL.cells
  content := fun t entry hentry => hL.content t entry (mem_cleartable hentry)
  tableMeta := by
    intro t
    rw [cleartable_metatable]
    exact hL.tableMeta t
  udataMeta := hL.udataMeta
  typeMeta := hL.typeMeta
  globals := hL.globals

theorem Registers.cleartable (h : L.Registers) (black : List Obj) :
    (L.cleartable black).Registers :=
  h.extends (.of_eq rfl rfl rfl) (cleartable_plain black h.plain)
    (fun _ _ hm => Or.inl hm) fun _ hm => hm

theorem sameHeap_sweepudata (black : List Obj) :
    SameHeap L (L.sweepudata black) :=
  ⟨rfl, rfl, fun _ => rfl, rfl, rfl, rfl, rfl, rfl, rfl⟩

theorem fullgc_eq (L : LuaState) (extra : List Value) :
    exists white black, L.fullgc extra =
      ((L.separateudata white false).cleartable black).sweepudata black :=
  ⟨_, _, rfl⟩

theorem extends_fullgc (extra : List Value) : L.Extends (L.fullgc extra) := by
  rcases L.fullgc_eq extra with ⟨white, black, hgc⟩
  have h := @sameHeap_separateudata L white false
  rw [hgc]
  exact .of_eq h.registry h.nextTable h.proxies

theorem Confines.fullgc (hL : L.Confines allowed) (extra : List Value) :
    (L.fullgc extra).Confines allowed := by
  rcases L.fullgc_eq extra with ⟨white, black, hgc⟩
  rw [hgc]
  exact (sameHeap_sweepudata black).confines
    (((sameHeap_separateudata white false).confines hL).cleartable black)

theorem Registers.fullgc (hL : L.Registers) (extra : List Value) :
    (L.fullgc extra).Registers := by
  rcases L.fullgc_eq extra with ⟨white, black, hgc⟩
  rw [hgc]
  exact (sameHeap_sweepudata black).registers
    (((sameHeap_separateudata white false).registers hL).cleartable black)

theorem sameHeap_takeDue {u : Nat} {tm : Value}
    (h : L.takeDue = some (L', u, tm)) : SameHeap L L' := by
  unfold takeDue at h
  split at h
  · cases h
  · cases h
    exact ⟨rfl, rfl, fun _ => rfl, rfl, rfl, rfl, rfl, rfl, rfl⟩

theorem Confines.takeDue (hL : L.Confines allowed) {u : Nat} {tm : Value}
    (h : L.takeDue = some (L', u, tm)) : Visible allowed L'.registry tm := by
  have hL' := (sameHeap_takeDue h).confines hL
  unfold LuaState.takeDue at h
  split at h
  · cases h
  · cases h
    unfold gcMetamethod
    split
    · trivial
    · exact hL'.get _ _

end Collector

end LuaState

/-!
# Calls in progress
-/

/-- What `init_socket_instance` still calls when the metatable is there. -/
def buildTail : List ApiCall :=
  [.getglobal (ascii "socket"), .setfield (ascii "__index"),
    .pushcfunction .onCollectSocket, .setfield (ascii "__gc"), .setmetatable]

/--
How far a call has come: the API calls still to make with the values on its
stack, the light userdata `v` at the bottom and a table of the library's own
above it.
-/
inductive Position (own : Nat -> Prop) (visible : Value -> Prop) (p : Ptr) :
    List ApiCall -> List Value -> Prop where
  | start : Position own visible p (initSocketInstanceCode p) []
  | pushed :
      Position own visible p (luaLNewmetatable socketDataName ++ buildTail)
        [.lightuserdata p]
  | missing :
      Position own visible p (.testNil socketDataName :: buildTail)
        [.nil, .lightuserdata p]
  | found {m : Nat} :
      own m ->
      Position own visible p (.testNil socketDataName :: buildTail)
        [.table m, .lightuserdata p]
  | creating :
      Position own visible p
        (luaLNewmetatableCreate socketDataName ++ buildTail)
        [.nil, .lightuserdata p]
  | popped :
      Position own visible p
        (.newtable :: .pushvalue :: .setregistry socketDataName :: buildTail)
        [.lightuserdata p]
  | made {m : Nat} :
      own m ->
      Position own visible p
        (.pushvalue :: .setregistry socketDataName :: buildTail)
        [.table m, .lightuserdata p]
  | copied {m : Nat} :
      own m ->
      Position own visible p (.setregistry socketDataName :: buildTail)
        [.table m, .table m, .lightuserdata p]
  | ready {m : Nat} :
      own m -> Position own visible p buildTail [.table m, .lightuserdata p]
  | fetched {m : Nat} {v : Value} :
      own m -> visible v ->
      Position own visible p buildTail.tail [v, .table m, .lightuserdata p]
  | indexed {m : Nat} :
      own m ->
      Position own visible p (buildTail.drop 2) [.table m, .lightuserdata p]
  | handler {m : Nat} {made : Option Nat} :
      own m ->
      Position own visible p (buildTail.drop 3)
        [.cfunction .onCollectSocket made, .table m, .lightuserdata p]
  | finishing {m : Nat} :
      own m -> Position own visible p [.setmetatable]
        [.table m, .lightuserdata p]
  | done : Position own visible p [] [.lightuserdata p]

theorem Position.mono {own own' : Nat -> Prop} {visible visible' : Value -> Prop}
    {p : Ptr} {code : List ApiCall} {stack : List Value}
    (h : Position own visible p code stack)
    (hown : forall m, own m -> own' m)
    (hvisible : forall v, visible v -> visible' v) :
    Position own' visible' p code stack := by
  cases h with
  | start => exact .start
  | pushed => exact .pushed
  | missing => exact .missing
  | found h => exact .found (hown _ h)
  | creating => exact .creating
  | popped => exact .popped
  | made h => exact .made (hown _ h)
  | copied h => exact .copied (hown _ h)
  | ready h => exact .ready (hown _ h)
  | fetched h hv => exact .fetched (hown _ h) (hvisible _ hv)
  | indexed h => exact .indexed (hown _ h)
  | handler h => exact .handler (hown _ h)
  | finishing h => exact .finishing (hown _ h)
  | done => exact .done

theorem Position.stack_of_done {own : Nat -> Prop} {visible : Value -> Prop}
    {p : Ptr} {code : List ApiCall} {stack : List Value}
    (h : Position own visible p code stack) (hcode : code = []) :
    stack = [.lightuserdata p] := by
  cases h with
  | done => rfl
  | start | pushed | missing | found | creating | popped | made | copied
  | ready | fetched | indexed | handler | finishing => cases hcode

/-- A field is only stored in the table above the socket. -/
theorem Position.stack_of_setfield {own : Nat -> Prop}
    {visible : Value -> Prop} {p : Ptr} {code rest : List ApiCall}
    {stack : List Value} {name : LuaString}
    (h : Position own visible p code stack)
    (hcode : code = .setfield name :: rest)
    (hhandler : forall made, visible (.cfunction .onCollectSocket made)) :
    exists v m, visible v ∧ own m ∧ stack = [v, .table m, .lightuserdata p] := by
  cases h with
  | fetched hown hv => exact ⟨_, _, hv, hown, rfl⟩
  | handler hown => exact ⟨_, _, hhandler _, hown, rfl⟩
  | start | pushed | missing | found | creating | popped | made | copied
  | ready | indexed | finishing | done => cases hcode

/-- What a call in progress can do to the Lua state. -/
inductive ApiChange (L : LuaState) (allowed : Ptr -> Prop) : LuaState -> Prop where
  | same : ApiChange L allowed L
  | madeTable : ApiChange L allowed L.newTable.1
  | registered {m : Nat} :
      L.Own m ->
      ApiChange L allowed
        (L.rawset L.registry (.string socketDataName) (.table m))
  | stored {t : Nat} {name : LuaString} {v : Value} :
      t ≠ L.registry -> Visible allowed L.registry v ->
      ApiChange L allowed (L.rawset t (.string name) v)
  | shared {p : Ptr} {m : Nat} :
      L.Own m ->
      ApiChange L allowed (L.setmetatable (.lightuserdata p) (some m))

/-- The place of a call in progress, as far as the state knows of it. -/
def Frame.At (fr : Frame) (L : LuaState) (allowed : Ptr -> Prop) : Prop :=
  Position L.Own (Visible allowed L.registry) (.block fr.issue.addr) fr.code
    fr.stack

section Calls

variable {L L' : LuaState} {allowed : Ptr -> Prop}

theorem api_getglobal {fr fr' : Frame} {result : Value} {name : LuaString}
    {rest : List ApiCall} (hL : L.Confines allowed)
    (hcode : fr.code = .getglobal name :: rest)
    (h : apiStep L fr result = some (L', fr')) :
    L' = L ∧ exists v, Visible allowed L.registry v ∧
      fr' = { fr with code := rest, stack := v :: fr.stack } := by
  have hchain := @LuaState.Confines.gettableLoop L allowed hL (.string name)
    LuaState.maxTagLoop (.table L.globals) hL.globals
  unfold apiStep at h
  rw [hcode] at h
  simp only at h
  split at h
  · rename_i v hv
    cases h
    exact ⟨rfl, v, hchain.1 v hv, rfl⟩
  · split at h
    · rename_i hresult
      cases h
      exact ⟨rfl, result, hL.holds hresult, rfl⟩
    · cases h
  · cases h

/-- What `lua_setfield` on a table does to the state. -/
inductive FieldStored (L : LuaState) (m : Nat) (key v : Value) :
    LuaState -> Prop where
  | stored {t : Nat} :
      L.settable (.table m) key = .stored t -> t ≠ L.registry ->
      FieldStored L m key v (L.rawset t key v)
  | called {tm obj : Value} :
      L.settable (.table m) key = .call tm obj -> FieldStored L m key v L

theorem api_setfield {fr fr' : Frame} {result v : Value} {m : Nat}
    {name : LuaString} {rest : List ApiCall} {stack : List Value}
    (hL : L.Confines allowed) (hm : m ≠ L.registry)
    (hcode : fr.code = .setfield name :: rest)
    (hstack : fr.stack = v :: .table m :: stack)
    (h : apiStep L fr result = some (L', fr')) :
    FieldStored L m (.string name) v L' ∧
      fr' = { fr with code := rest, stack := .table m :: stack } := by
  have hchain := @LuaState.Confines.settableLoop L allowed hL (.string name)
    LuaState.maxTagLoop (.table m) hm
  unfold apiStep at h
  rw [hcode, hstack] at h
  simp only at h
  split at h
  · rename_i t ht
    cases h
    exact ⟨FieldStored.stored ht (hchain.1 t ht), rfl⟩
  · rename_i hcall
    cases h
    exact ⟨FieldStored.called hcall, rfl⟩
  · cases h

theorem FieldStored.change {m : Nat} {name : LuaString} {v : Value}
    (h : FieldStored L m (.string name) v L')
    (hv : Visible allowed L.registry v) : ApiChange L allowed L' := by
  cases h with
  | stored _ ht => exact ApiChange.stored ht hv
  | called => exact ApiChange.same

theorem FieldStored.mt {m : Nat} {key v : Value}
    (h : FieldStored L m key v L') : L'.mt = L.mt := by
  cases h with
  | stored | called => rfl

theorem FieldStored.registryField {m : Nat} {key v : Value}
    (h : FieldStored L m key v L') {name : LuaString} :
    L'.registryField name = L.registryField name := by
  cases h with
  | stored _ ht =>
      exact LuaState.registryField_of_table (LuaState.registry_setTable ht)
  | called => rfl

theorem ApiChange.extends (h : ApiChange L allowed L') : L.Extends L' := by
  cases h with
  | madeTable => exact LuaState.extends_newTable
  | same | registered | stored | shared => exact .of_eq rfl rfl rfl

theorem api_change {fr fr' : Frame} {result : Value} (hL : L.Confines allowed)
    (hreg : L.Registers) (hfr : fr.At L allowed)
    (h : apiStep L fr result = some (L', fr')) :
    ApiChange L allowed L' ∧ fr'.At L' allowed := by
  rcases fr with ⟨caller, issue, code, stack⟩
  unfold Frame.At at hfr
  simp only at hfr
  cases hfr with
  | start =>
      cases h
      exact ⟨.same, .pushed⟩
  | pushed =>
      cases h
      refine ⟨.same, ?_⟩
      rcases hreg.socket with hnil | ⟨m, hm, hown⟩
      · unfold Frame.At
        simp only [hnil]
        exact .missing
      · unfold Frame.At
        simp only [hm]
        exact .found hown
  | missing =>
      cases h
      exact ⟨.same, .creating⟩
  | found hown =>
      cases h
      exact ⟨.same, .ready hown⟩
  | creating =>
      cases h
      exact ⟨.same, .popped⟩
  | popped =>
      cases h
      exact ⟨.madeTable, .made hreg.own_newTable⟩
  | made hown =>
      cases h
      exact ⟨.same, .copied hown⟩
  | copied hown =>
      cases h
      exact ⟨.registered hown, .ready (hown.extends (.of_eq rfl rfl rfl))⟩
  | ready hown =>
      rcases api_getglobal hL rfl h with ⟨rfl, v, hv, rfl⟩
      exact ⟨.same, .fetched hown hv⟩
  | fetched hown hv =>
      rcases api_setfield hL hown.ne_registry rfl rfl h with ⟨hstored, rfl⟩
      have hchange := hstored.change hv
      exact ⟨hchange, .indexed (hown.extends hchange.extends)⟩
  | indexed hown =>
      cases h
      exact ⟨.same, .handler hown⟩
  | @handler m made hown =>
      have hvisible :
          Visible allowed L.registry (.cfunction .onCollectSocket made) := trivial
      rcases api_setfield hL hown.ne_registry rfl rfl h with ⟨hstored, rfl⟩
      have hchange := hstored.change hvisible
      exact ⟨hchange, .finishing (hown.extends hchange.extends)⟩
  | finishing hown =>
      cases h
      exact ⟨.shared hown, .done⟩
  | done => cases h

theorem ApiChange.confines (hchange : ApiChange L allowed L')
    (hL : L.Confines allowed) : L'.Confines allowed := by
  cases hchange with
  | same => exact hL
  | madeTable => exact hL.newTable
  | registered hown => exact hL.rawset trivial hown.ne_registry
  | stored _ hv => exact hL.rawset trivial hv
  | shared hown =>
      apply hL.setmetatable
      intro hm
      exact hown.ne_registry (Option.some.inj hm)

theorem ApiChange.registers (hchange : ApiChange L allowed L')
    (h : L.Registers) : L'.Registers := by
  have hext := hchange.extends
  cases hchange with
  | same => exact h
  | madeTable => exact h.newTable
  | stored ht =>
      exact h.extends hext (LuaState.registry_setTable ht)
        (fun _ _ hm => Or.inl hm) fun _ hm => hm
  | shared =>
      exact h.extends hext rfl (fun _ _ hm => Or.inl hm)
        fun _ hm => hm
  | @registered m hown =>
      refine ⟨h.registry_lt, h.files_lt, h.proxies, ?_, ?_, h.udata, ?_⟩
      · show ((L.rawset L.registry (.string socketDataName)
          (.table m)).tables L.registry).metatable = none
        rw [LuaState.registry_rawset]
        exact h.plain
      · intro x hx
        rw [LuaState.registryField_rawset] at hx
        apply h.files x
        rwa [if_neg (by decide)] at hx
      · right
        refine ⟨m, ?_, hown.extends hext⟩
        rw [LuaState.registryField_rawset, if_pos rfl]

end Calls

end LuaServer
