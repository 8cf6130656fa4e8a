/-
`Proofs/Workspace/Reopen.lean` -- a saved value in a store that is opened anew.

A save turns the paths in a value into references, merges the value into the
document of its unit, and writes the text of the document unless it is there
already. A store that is opened later reads the text, takes the entry out and
turns the references into paths again. The value goes through all of this
unharmed, with one exception: what collapsing does to a string need not be undone
by expanding it (`MacroTable.clean`).

The component may share its unit with components of other scopes, and with
entries of nobody. All that is asked of those is that they can be read at all,
since one entry that cannot makes the whole unit unreadable.
-/
import ScopedState.Backing.Memory
import ScopedState.Proofs.Macros
import ScopedState.Proofs.Storage.Entry
import ScopedState.Proofs.Workspace.Save
set_option autoImplicit false

namespace ScopedState

open Bindings (Sorted get?)
open Document (Tells entryDepth)

variable {β δ : Type}

namespace Workspace

section Reopening

variable [Backing β] [LawfulBacking β] [DecidableEq δ] [Digest δ] {w : Workspace β δ}
  {root id : ScopeId} {s : Scope} {sub : Substitutor} {n : String} {e : Entry} {l : Location}
  {v : Json}

/-! ## 1. Opening a store -/

/-- A store that is opened anew: one scope that draws from a pool of its own, and a
component that is not registered yet. -/
def fresh (backing : β) (sub : Substitutor) (c : Component) : Workspace β δ :=
  (start backing).run [.addScope "" (some sub) 0, .addComponent c]

/-- The same once the scope maps a unit to a storage loaded for it. -/
def freshWith (backing : β) (sub : Substitutor) (c : Component) (st : Storage δ) :
    Workspace β δ :=
  ((fresh backing sub c).addStorage 0 st).mapUnit 0 st.unit 0

omit [LawfulBacking β] in
/-- A unit that can be read gets a storage of its own. -/
theorem storageFor_fresh {backing : β} {c : Component} {unit : Path} {bytes : Bytes} {d : Document}
    (hread : Backing.read backing unit = .ok (some bytes))
    (hparse : Document.parse unit bytes = .ok d) (template : String) :
    (fresh backing sub c : Workspace β δ).storageFor 0
        { name := "", substitutor := some sub, pool := 0 } unit template
      = .ok (0, freshWith backing sub c
          ⟨unit, template, d, some (Digest.ofBytes bytes)⟩) := by
  have hpool : (fresh backing sub c : Workspace β δ).pool 0 = [] := rfl
  have hfind : Pool.find? (fresh backing sub c : Workspace β δ).inUse [] unit = none := rfl
  have hbacking : (fresh backing sub c : Workspace β δ).vault.backing = backing := rfl
  have hsnapshot : (fresh backing sub c : Workspace β δ).vault.readSnapshot unit
      = .ok ⟨d, some (Digest.ofBytes bytes)⟩ := by
    rw [Vault.readSnapshot, hbacking, hread]
    simp only [Snapshot.ofContent, hparse]
  unfold storageFor Pool.obtain
  simp only [hpool, hfind, hsnapshot, Bindings.get?_nil]
  rfl

omit [LawfulBacking β] in
/-- The component is handed the entry of its name, references turned into paths. -/
theorem loadComponent_freshWith (backing : β) (sub : Substitutor) (c : Component) {st : Storage δ}
    (hentry : get? st.snapshot.document n = some v) :
    let loaded := (freshWith backing sub c st).loadComponent 0 n ⟨0, 0⟩
    (loaded.vault.component? 0).bind Component.value = some (sub.table.expandValue v) := by
  intro loaded
  have hstate : ((freshWith backing sub c st).vault.storage? 0).bind (fun s => s.state? n)
      = some v := hentry
  simp only [loaded, loadComponent, hstate]
  rfl

omit [LawfulBacking β] in
/-- **Registering in a fresh store** loads what is in the unit. -/
theorem addComponent_fresh {backing : β} {template : String} (c : Component) {bytes : Bytes}
    {d : Document}
    (hread : Backing.read backing ⟨sub.table.expand template⟩ = .ok (some bytes))
    (hparse : Document.parse ⟨sub.table.expand template⟩ bytes = .ok d)
    (hentry : get? d n = some v) :
    let out := (fresh backing sub c : Workspace β δ).addComponent 0 0 n template
    out.1 = .ok ⟨sub.table.expand template⟩ ∧
      (out.2.vault.component? 0).bind Component.value = some (sub.table.expandValue v) := by
  intro out
  -- Expanding the template only notes what it refers to and the table does not have.
  have hnew : ((fresh backing sub c : Workspace β δ).scope? 0).any
      (fun s => Bindings.binds s.components n) = false := rfl
  have hexpand : (fresh backing sub c : Workspace β δ).expandTemplate 0 template
      = (⟨sub.table.expand template⟩, fresh backing (sub.expand template).2 c) := rfl
  have hscope : (fresh backing (sub.expand template).2 c : Workspace β δ).scope? 0
      = some { name := "", substitutor := some (sub.expand template).2, pool := 0 } := rfl
  let st : Storage δ := ⟨⟨sub.table.expand template⟩, template, d, some (Digest.ofBytes bytes)⟩
  have hstate : get? st.snapshot.document n = some v := hentry
  have hload := loadComponent_freshWith backing (sub.expand template).2 c hstate
  simp only [out, addComponent, hnew, hexpand, hscope, storageFor_fresh hread hparse]
  exact ⟨rfl, hload⟩

/-! ## 2. The entry of a component -/

/-- The entries of a unit apart from one, those that are remembered and those that
scopes of a tree have there, can all be read. -/
def RereadableAt (w : Workspace β δ) (root : ScopeId) (l : Location) (d : Document) (n : String) :
    Prop :=
  ∀ m, m ≠ n → ∀ v, (get? d m = some v ∨
    ∃ id ∈ (w.tree root).scopes, get? (w.statesAt l id) m = some (some v)) → v.Rereadable

/-- A component of a scope that no other scope of the tree has at its location. -/
structure Owns (w : Workspace β δ) (root id : ScopeId) (s : Scope) (n : String) (e : Entry)
    (l : Location) : Prop where
  mem : id ∈ (w.tree root).scopes
  scope : w.scope? id = some s
  entry : get? s.components n = some e
  location : w.vault.location? e.storage = some l
  alone : ∀ j ∈ (w.tree root).scopes, ∀ u, w.unitOf? j n = some u → u.location = l → j = id

omit [Backing β] [LawfulBacking β] [DecidableEq δ] [Digest δ] in
theorem Owns.maps (h : w.Owns root id s n e l) (hkept : w.Kept) :
    w.Maps root id l e.storage := by
  obtain ⟨l', u, hmapped⟩ := (hkept.scope h.scope).mapped n e h.entry
  have hl := (hkept.scope h.scope).located l' u _ hmapped
  rw [h.location] at hl
  rw [← Option.some.inj hl] at hmapped
  exact ⟨h.mem, s, u, h.scope, hmapped⟩

omit [Backing β] [LawfulBacking β] [DecidableEq δ] [Digest δ] in
/-- What the scopes of the tree have for the name at the location: the one scope its
state, all others nothing. -/
theorem Owns.states (h : w.Owns root id s n e l) (hkept : w.Kept) {j : ScopeId}
    (hj : j ∈ (w.tree root).scopes) :
    get? (w.statesAt l j) n = if j = id then some (w.storedState s e.component) else none := by
  split
  · rename_i hjid
    rw [hjid, get?_statesAt hkept h.scope, h.entry, Option.filter_some,
      if_pos (decide_eq_true h.location), Option.map_some]
  · rename_i hjid
    cases hstate : get? (w.statesAt l j) n with
    | none => rfl
    | some x =>
      obtain ⟨u, hu, hul⟩ := unitOf?_of_statesAt hkept hstate
      exact absurd (h.alone j hj u hu hul) hjid

omit [LawfulBacking β] in
/-- The writes for the unit of the component are about its entry: they have the
state of the component, or leave the entry alone. -/
theorem Owns.about_of_write {st : Storage δ} {c : Json} (h : w.Owns root id s n e st.unit.location)
    (hstages : w.Stages root) (hstate : w.storedState s e.component = some c)
    (hst : w.vault.storage? e.storage = some st)
    (hmaps : w.Maps root id st.unit.location e.storage)
    (hothers : w.RereadableAt root st.unit.location st.snapshot.document n)
    {x : String × StagedWrite δ} (hx : x ∈ (w.stagedOn root w.vault).writes) :
    (x.2.storage = e.storage → x.2.unit = st.unit ∧ x.2.draft.About st.snapshot n c) ∧
      (x.2.storage ≠ e.storage → x.2.unit.location ≠ st.unit.location) := by
  obtain ⟨hmine, hother⟩ := write_for hstages hmaps hst hx
  refine ⟨fun hk => ?_, hother⟩
  obtain ⟨j, draft, hmaps', hstage, hx'⟩ := hmine hk
  rw [hx', (Snapshot.stage_eq_some hstage).1]
  refine ⟨rfl, sorted_statesAt hstages.kept _ j, rfl, ?_, fun m hm v hv =>
    hothers m hm v (Or.inr ⟨j, hmaps'.1, hv⟩)⟩
  show get? (w.statesAt st.unit.location j) n = none ∨
    get? (w.statesAt st.unit.location j) n = some (some c)
  rw [h.states hstages.kept hmaps'.1, hstate]
  split
  · exact Or.inr rfl
  · exact Or.inl rfl

/-- **After a save that goes well the unit tells the state** of the component, as it
is stored. -/
theorem tells_of_save (hfaithful : Digest.Faithful δ) (hw : w.Reachable Action.Alone)
    (hroot : root ∈ w.live) (h : w.Owns root id s n e l) {c : Json}
    (hstate : w.storedState s e.component = some c) (hc : c.Storable entryDepth)
    (hothers : w.RereadableAt root l (w.vault.snapshot e.storage).document n)
    (hok : (w.save root).1 = .ok ()) : Tells ((w.save root).2.vault.contents l) n c := by
  obtain ⟨hkept, hclosed, hcoherent⟩ := hw.coherent
  obtain ⟨hstages, hout, hturns⟩ := stages_of_save hkept hclosed hcoherent.apart hroot hok
  have hmaps := h.maps hkept
  obtain ⟨u, hu, hul⟩ := Option.map_eq_some_iff.mp h.location
  obtain ⟨st, hst, rfl⟩ := Vault.unit?_eq_some hu
  subst hul
  rw [Vault.snapshot_eq hst] at hothers
  have hdescribes := hcoherent.describes _ st (hmaps.inUse hstages) hst
  have hmine : get? (w.statesAt st.unit.location id) n = some (some c) := by
    rw [h.states hkept h.mem, if_pos rfl, hstate]
  have hwrites : ∀ x ∈ (w.stagedOn root w.vault).writes,
      (x.2.storage = e.storage → x.2.unit = st.unit ∧ x.2.draft.About st.snapshot n c) ∧
        (x.2.storage ≠ e.storage → x.2.unit.location ≠ st.unit.location) :=
    fun x hx => h.about_of_write hstages hstate hst hmaps hothers hx
  have hrest : st.snapshot.document.RereadableBut n := fun m hm v hv =>
    hothers m hm v (Or.inl hv)
  rw [hout]
  -- Either the scope has nothing to write, or its write is among the others.
  cases hdue : st.snapshot.stage (w.statesAt st.unit.location id) with
  | none =>
    have hsorted := sorted_statesAt hkept st.unit.location id
    have hidle := hdescribes.idle hfaithful hc hsorted hmine
      (hrest.merge hsorted fun m hm v hv => hothers m hm v (Or.inr ⟨id, h.mem, hv⟩)) hrest hdue
    exact Follows.perform true hfaithful hc hst hdescribes hrest (fun _ => hidle)
      hwrites hturns (Or.inl rfl)
  | some draft =>
    have hmem := write_mem hstages hmaps hst hdue
    have hsome : (get? draft.states n).isSome = true := by
      rw [(Snapshot.stage_eq_some hdue).1]
      show (get? (w.statesAt st.unit.location id) n).isSome = true
      rw [hmine]
      rfl
    refine Follows.perform false hfaithful hc hst hdescribes hrest (fun hno => ?_)
      hwrites hturns (Or.inr ⟨draft.states, ?_, hsome⟩)
    · cases hno
    · exact List.mem_map.mpr ⟨_, List.mem_filter.mpr ⟨hmem, decide_eq_true rfl⟩, rfl⟩

/-! ## 3. Saving and reopening -/

/-- **Saving and reopening.** One caller has brought a workspace about. A component of
a scope with proper path variables has a storable value, no other scope of the
tree has a component of its name in its unit, and all else in the unit can be
read. The tree is saved, and that goes well.

Then a component of that name is registered in a store that is opened anew, with
the same path variables and at a template that names the unit. If the unit is
there to be read, that goes well and loads the value collapsed and expanded. And
this is the value expanded, as it would have been without being saved, exactly
when each of its strings is clean. -/
theorem saved_value_reopened (hfaithful : Digest.Faithful δ) (hw : w.Reachable Action.Alone)
    (hroot : root ∈ w.live) (h : w.Owns root id s n e l) (hsub : s.substitutor = some sub)
    (htable : sub.table.Proper)
    (hvalue : (w.vault.component? e.component).bind Component.value = some v)
    (hstorable : v.Storable entryDepth)
    (hothers : w.RereadableAt root l (w.vault.snapshot e.storage).document n)
    (hok : (w.save root).1 = .ok ()) {template : String}
    (htemplate : Path.location ⟨sub.table.expand template⟩ = l) {content : Option Bytes}
    (hread : Backing.read (w.save root).2.vault.backing ⟨sub.table.expand template⟩ = .ok content)
    (c : Component) :
    let out := (fresh (w.save root).2.vault.backing sub c : Workspace β δ).addComponent 0 0 n
      template
    let loaded := sub.table.expandValue (sub.table.collapseValue v)
    out.1 = .ok ⟨sub.table.expand template⟩ ∧
      (out.2.vault.component? 0).bind Component.value = some loaded ∧
      (loaded = sub.table.expandValue v ↔ ∀ t ∈ v.strings, sub.table.clean t = true) := by
  intro out loaded
  have hstate : w.storedState s e.component = some (sub.table.collapseValue v) := by
    rw [storedState, hvalue, hsub]
    rfl
  have hcollapsed : (sub.table.collapseValue v).Storable entryDepth :=
    Json.storable_mapStrings _ v _ hstorable
  obtain ⟨bytes, hbytes, htells⟩ :=
    tells_of_save hfaithful hw hroot h hstate hcollapsed hothers hok
  obtain ⟨d, hparse, hentry⟩ := htells ⟨sub.table.expand template⟩
  have hcontent : content = some bytes := by
    rw [LawfulBacking.read_ok hread, htemplate]
    exact hbytes
  rw [hcontent] at hread
  obtain ⟨hout, hloaded⟩ := addComponent_fresh (δ := δ) c hread hparse hentry
  exact ⟨hout, hloaded, MacroTable.expandValue_collapseValue_iff htable v⟩

end Reopening

/-! ## 4. A reference that is not seen -/

/-- A unit with an entry of somebody else. -/
def pathUnit : Path := ⟨"/u.json"⟩

/-- One path variable. -/
def pathVariable : Substitutor := { table := MacroTable.define [] "X" ⟨"/p"⟩ }

theorem pathVariable_proper : pathVariable.table.Proper :=
  MacroTable.proper_nil.define (by decide +kernel) (by decide +kernel)

/-- A scope with the path variable and a component in the unit. -/
def pathScope : Scope :=
  { name := "root", substitutor := some pathVariable, components := [("c", ⟨0, 0⟩)]
    storages := [(pathUnit.location, (pathUnit, 0))], pool := 0 }

/-- The store with that unit. -/
def pathStore : Memory :=
  { files := [(pathUnit.location, Document.serialize [("x", .integer 1)])] }

/-- A component is registered in the scope, and gets a value. -/
def pathEvents (v : Json) : List (Action Memory) :=
  [.addScope "root" (some pathVariable) 0, .addComponent { name := "c" },
    .register 0 0 "c" pathUnit.text, .edit 0 fun c => c.set v]

/-- What that leads to. -/
def withPath (v : Json) : Workspace Memory Bytes := (start pathStore).run (pathEvents v)

/-- What a component is handed in a store that is opened after the value was
saved. -/
def reopenedValue (v : Json) : Option Json :=
  let reopened : Workspace Memory Bytes :=
    fresh ((withPath v).save 0).2.vault.backing pathVariable { name := "c" }
  ((reopened.addComponent 0 0 "c" pathUnit.text).2.vault.component? 0).bind Component.value

theorem withPath_reachable {v : Json}
    (h : (start pathStore : Workspace Memory Bytes).AllPossible (pathEvents v)) :
    (withPath v).Reachable Action.Alone := by
  refine ⟨pathStore, steps_run (fun a ha => ?_) h⟩
  simp only [pathEvents, List.mem_cons, List.not_mem_nil, or_false] at ha
  rcases ha with rfl | rfl | rfl | rfl <;> trivial

/-- A path behind a dollar sign that opens no name. -/
def plainDollar : Json := .string "$ /p/a"

theorem plainDollar_tree : ((withPath plainDollar).tree 0).scopes = [0] := by decide +kernel

theorem plainDollar_owned :
    (withPath plainDollar).Owns 0 0 pathScope "c" ⟨0, 0⟩ pathUnit.location := by
  refine ⟨by decide +kernel, rfl, rfl, by decide +kernel, fun j hj u _ _ => ?_⟩
  rw [plainDollar_tree] at hj
  exact List.mem_singleton.mp hj

/-- The other entry of the unit is a number, and no scope has anything else
there. -/
theorem plainDollar_rereadable : (withPath plainDollar).RereadableAt 0 pathUnit.location
    ((withPath plainDollar).vault.snapshot 0).document "c" := by
  have hdocument : ((withPath plainDollar).vault.snapshot 0).document = [("x", .integer 1)] := rfl
  have hstates : (withPath plainDollar).statesAt pathUnit.location 0
      = [("c", some (.string "$ $X$/a"))] := rfl
  rintro m hm v (hv | ⟨j, hj, hv⟩)
  · rw [hdocument] at hv
    obtain ⟨rfl, rfl⟩ := Prod.mk.inj (List.mem_singleton.mp (Bindings.mem_of_get? hv))
    exact Json.Storable.rereadable ⟨by decide, by decide⟩
  · rw [plainDollar_tree] at hj
    rw [List.mem_singleton.mp hj, hstates] at hv
    exact absurd (Prod.mk.inj (List.mem_singleton.mp (Bindings.mem_of_get? hv))).1 hm

theorem plainDollar_written : Backing.read ((withPath plainDollar).save 0).2.vault.backing
    ⟨pathVariable.table.expand pathUnit.text⟩
      = .ok (some (Document.serialize [("c", .string "$ $X$/a"), ("x", .integer 1)])) := by
  decide +kernel

/-- The path comes back. -/
theorem plainDollar_reopened : reopenedValue plainDollar = some plainDollar := by
  have hvalue : ((withPath plainDollar).vault.component? 0).bind Component.value
      = some plainDollar := rfl
  have hreachable : (withPath plainDollar).Reachable Action.Alone :=
    withPath_reachable (by decide +kernel)
  obtain ⟨_, hloaded, hiff⟩ := saved_value_reopened Digest.faithful_bytes hreachable
    (by decide +kernel) plainDollar_owned rfl pathVariable_proper hvalue trivial
    plainDollar_rereadable (by decide +kernel) (by decide +kernel) plainDollar_written
    { name := "c" }
  have hclean : pathVariable.table.expandValue (pathVariable.table.collapseValue plainDollar)
      = plainDollar := hiff.mpr (by decide +kernel)
  rw [hclean] at hloaded
  exact hloaded

/-- **A reference that is not seen.** A dollar sign and a name in front of a path
close around the first dollar sign of the reference that the path is collapsed
into. -/
theorem hidden_reference_reopened :
    ((withPath (.string "$A/p")).save 0).1 = .ok () ∧
      reopenedValue (.string "$A/p") = some (.string "$A$X$") ∧
      pathVariable.table.expandValue (.string "$A/p") = .string "$A/p" :=
  ⟨by decide +kernel, rfl, rfl⟩

end Workspace

end ScopedState
