/-
`Proofs/Project/Opened.lean` -- when a project opens, and what it is then.

Opening adds a scope for the project and one for each module, in a workspace that
starts out empty, and lists the modules in the registry of the project. Adding a
scope, attaching the registry and listing a scope keep the workspace sound, because
everything stays in use: the caller holds every scope that there is. So after each
scope it can be said what the project is so far (`Opened`): the records of its
scopes, which of them have which components, and that all are below the first one.

From this follow the two halves of what the rest needs. A project that has been
opened has its files in order, scope by scope. And a project whose files are in order
can be opened, wherever its disk came from.
-/
import ScopedState.Proofs.Project.Discovered
set_option autoImplicit false

namespace ScopedState

open Bindings (get? keys)
open Disk (FileName Lies names)
open Workspace (Framed)

variable {δ : Type}

/-! ## 1. Scopes and their registry -/

/-- A scope with a registry. -/
def Scope.withRegistry (r : RegistryId) (s : Scope) : Scope := { s with registry := some r }

namespace Workspace

variable {w : Workspace LocalFiles δ}

/-- Nothing goes out of use as long as the caller holds it. -/
theorem settle_of_held (h : ∀ id ∈ w.live, id ∈ w.held) : w.settle = w := by
  have hsweep : w.sweep = w := by
    have hlive : w.live.filter w.isReferred = w.live := by
      refine List.filter_eq_self.mpr fun id hid => ?_
      rw [isReferred, List.contains_iff_mem.mpr (h id hid), Bool.true_or]
    rw [sweep, hlive]
  refine settle_preserves (fun w' => w' = w) (fun w' hw' => ?_) rfl
  rw [hw', hsweep]

/-- The scopes with one more. -/
theorem scope?_addScope (w : Workspace LocalFiles δ) (s : Scope) (id : ScopeId) :
    (w.addScope s).2.scope? id = if id = w.scopes.length then some s else w.scope? id := by
  show (w.scopes ++ [s])[id]? = _
  split
  · rename_i hid
    rw [hid]
    exact List.getElem?_concat_length
  · rename_i hid
    rcases Nat.lt_or_gt_of_ne hid with hlt | hgt
    · exact List.getElem?_append_left hlt
    · rw [scope?, List.getElem?_eq_none (Nat.le_of_lt hgt), List.getElem?_eq_none]
      rw [List.length_append, List.length_singleton]
      exact hgt

/-- A scope without components and storages adds nothing to what can be looked up. -/
theorem views_addScope (w : Workspace LocalFiles δ) {s : Scope} (hcomponents : s.components = [])
    (hstorages : s.storages = []) :
    (w.addScope s).2.entryOf? = w.entryOf? ∧ (w.addScope s).2.mapped? = w.mapped? := by
  have hnone : w.scope? w.scopes.length = none := List.getElem?_eq_none (Nat.le_refl _)
  constructor
  · funext id n
    rw [entryOf?, scope?_addScope, entryOf?]
    split
    · rename_i hid
      rw [hid, hnone, Option.bind_some, hcomponents]
      rfl
    · rfl
  · funext id l
    rw [mapped?, scope?_addScope, mapped?]
    split
    · rename_i hid
      rw [hid, hnone, Option.bind_some, hstorages]
      rfl
    · rfl

/-- **Attaching a registry** gives it to the scope, and leaves the scopes otherwise as they
are. -/
theorem scopes_attach (w : Workspace LocalFiles δ) (id : ScopeId) : (w.attach id).2.scopes
    = (w.modifyScope id (Scope.withRegistry w.registries.length)).scopes :=
  settle_preserves (fun w' => w'.scopes = _) (fun _ h => h) rfl

theorem scope?_attach (w : Workspace LocalFiles δ) (id j : ScopeId) : (w.attach id).2.scope? j
    = if j = id then (w.scope? j).map (Scope.withRegistry w.registries.length)
      else w.scope? j := by
  rw [scope?, scopes_attach]
  exact scope?_modifyScope w id _ j

theorem length_attach (w : Workspace LocalFiles δ) (id : ScopeId) :
    (w.attach id).2.scopes.length = w.scopes.length := by
  rw [scopes_attach]
  exact List.length_modify ..

theorem registries_attach (w : Workspace LocalFiles δ) (id : ScopeId) :
    (w.attach id).2.registries = w.registries ++ [[]] :=
  settle_preserves (fun w' => w'.registries = _) (fun _ h => h) rfl

/-- Nothing that can be looked up by name or location changes. -/
theorem views_attach (w : Workspace LocalFiles δ) (id : ScopeId) :
    (w.attach id).2.entryOf? = w.entryOf? ∧ (w.attach id).2.mapped? = w.mapped? := by
  constructor
  · funext j n
    rw [entryOf?, scope?_attach, entryOf?]
    split
    · cases w.scope? j <;> rfl
    · rfl
  · funext j l
    rw [mapped?, scope?_attach, mapped?]
    split
    · cases w.scope? j <;> rfl
    · rfl

end Workspace

namespace Sound

variable [Digest δ] {d : Disk} {projectDir : Path} {dirs : List Path}
  {fresh : ScopeId → String → Prop} {w : Workspace LocalFiles δ}

/-- **An empty workspace** is sound. -/
theorem start (files : LocalFiles) (projectDir : Path) (fresh : ScopeId → String → Prop) :
    Sound files.disk projectDir [] fresh (Workspace.start files : Workspace LocalFiles δ) where
  kept := Workspace.kept_start files
  closed := Workspace.closed_start files
  disk := rfl
  pools := rfl
  frames := rfl
  held _ h := absurd h (Nat.not_lt_zero _)
  live _ h := absurd h (Nat.not_lt_zero _)
  pooled _ _ hst := nomatch hst
  mapped _ _ hst := nomatch hst
  source _ _ hst := nomatch hst
  entry _ _ _ he := nomatch he
  value _ _ _ he := nomatch he

/-- Every scope in use is held. -/
theorem held_of_live (h : Sound d projectDir dirs fresh w) : ∀ id ∈ w.live, id ∈ w.held :=
  fun id hid => h.held id (h.length ▸ h.closed.bound id hid)

variable [DecidableEq δ]

/-- **A scope may be added** for one more directory. -/
theorem addScope (h : Sound d projectDir dirs fresh w) (name : String) (dir : Path) :
    Sound d projectDir (dirs ++ [dir]) fresh (w.addScope
      { name, pool := 0, substitutor := some { table := scopeTable projectDir dir } }).2 := by
  obtain ⟨hentry, hmapped⟩ := w.views_addScope (s :=
    { name, pool := 0, substitutor := some { table := scopeTable projectDir dir } }) rfl rfl
  have hnext : ∀ id < (dirs ++ [dir]).length, id = w.scopes.length ∨ id < dirs.length := by
    intro id hid
    rw [List.length_append, List.length_singleton] at hid
    rw [h.length]
    exact (Nat.lt_succ_iff_lt_or_eq.mp hid).symm
  exact
    { kept := (h.kept.act (.addScope name (some { table := scopeTable projectDir dir }) 0)).1
      closed := h.closed.addScope rfl
      disk := h.disk
      pools := h.pools
      frames := by
        show (w.scopes ++ [_]).map _ = _
        rw [List.map_append, h.frames, List.map_append]
        rfl
      held := fun id hid => (hnext id hid).elim (fun heq => heq ▸ List.mem_cons_self)
        fun hlt => List.mem_cons_of_mem _ (h.held id hlt)
      live := fun id hid => (hnext id hid).elim (fun heq => heq ▸ List.mem_cons_self)
        fun hlt => List.mem_cons_of_mem _ (h.live id hlt)
      pooled := h.pooled
      mapped := fun k st hst => hmapped ▸ h.mapped k st hst
      source := fun k st hst => by
        obtain ⟨dir', hdir', hrest⟩ := h.source k st hst
        exact ⟨dir', List.mem_append_left _ hdir', hrest⟩
      entry := fun id n e he => by
        rw [hentry] at he
        obtain ⟨dir', f, hdir', hrest⟩ := h.entry id n e he
        refine ⟨dir', f, ?_, hrest⟩
        rw [List.getElem?_append_left (List.getElem?_eq_some_iff.mp hdir').1]
        exact hdir'
      value := fun id n e he => by
        rw [hentry] at he
        exact h.value id n e he }

/-- **A registry may be attached** to a scope. -/
theorem attach (h : Sound d projectDir dirs fresh w) (id : ScopeId) :
    Sound d projectDir dirs fresh (w.attach id).2 ∧ (w.attach id).1 = w.registries.length ∧
      (w.attach id).2.registries = w.registries ++ [[]] ∧ (w.attach id).2.entryOf? = w.entryOf? ∧
      ∀ j, (w.attach id).2.scope? j
        = if j = id then (w.scope? j).map (Scope.withRegistry w.registries.length)
          else w.scope? j := by
  have hattach : (w.attach id).2 = ({ w with
      registries := w.registries ++ [[]]
      heldRegistries := w.registries.length :: w.heldRegistries } : Workspace LocalFiles δ).modifyScope
        id (Scope.withRegistry w.registries.length) :=
    Workspace.settle_of_held h.held_of_live
  have hscope := w.scope?_attach id
  obtain ⟨hentry, hmapped⟩ := w.views_attach id
  have hvault : (w.attach id).2.vault = w.vault := by rw [hattach]; rfl
  have hpools : (w.attach id).2.pools = w.pools := by rw [hattach]; rfl
  refine ⟨?_, rfl, w.registries_attach id, hentry, hscope⟩
  exact
    { kept := (h.kept.act (.attach id)).1
      closed := h.closed.attach id
      disk := (congrArg (fun v => v.backing.disk) hvault).trans h.disk
      pools := (congrArg List.length hpools).trans h.pools
      frames := by
        rw [← h.frames]
        refine List.ext_getElem? fun j => ?_
        rw [List.getElem?_map, List.getElem?_map]
        refine (congrArg (Option.map _) (hscope j)).trans ?_
        split
        · rw [Option.map_map]
          rfl
        · rfl
      held := fun j hj => by
        rw [hattach]
        exact h.held j hj
      live := fun j hj => by
        rw [hattach]
        exact h.live j hj
      pooled := fun k st hst => by
        rw [hvault] at hst
        rw [Workspace.pool, hpools]
        exact h.pooled k st hst
      mapped := fun k st hst => by
        rw [hvault] at hst
        rw [hmapped]
        exact h.mapped k st hst
      source := fun k st hst => h.source k st (hvault ▸ hst)
      entry := fun j n e he => by
        rw [hentry] at he
        rw [hvault]
        exact h.entry j n e he
      value := fun j n e he => by
        rw [hentry] at he
        rw [hvault]
        exact h.value j n e he }

/-- **A scope may be listed.** -/
theorem list (h : Sound d projectDir dirs fresh w) (r : RegistryId) {child : ScopeId}
    (hchild : child < dirs.length) : Sound d projectDir dirs fresh (w.register r child) :=
  { kept := (h.kept.act (.list r child)).1
    closed := h.closed.list r (h.live child hchild)
    disk := h.disk
    pools := h.pools
    frames := h.frames
    held := h.held
    live := h.live
    pooled := h.pooled
    mapped := h.mapped
    source := h.source
    entry := h.entry
    value := h.value }

end Sound

/-! ## 2. Scope after scope -/

variable [Digest δ]

/-- **A project as far as it has been opened**: its scopes, each with a name and a
directory, and each with the components that its files have entries for. -/
structure Opened (d : Disk) (projectDir : Path) (parts : List (String × Path))
    (w : Workspace LocalFiles δ) (scopes : List ProjectScope) : Prop where
  sound : Sound d projectDir (parts.map Prod.snd) (fun _ _ => False) w
  frames : scopes.map ProjectScope.frame = parts.mapIdx fun id part => (part.1, part.2, id)
  entry : ∀ id part, parts[id]? = some part →
    ∀ n, (w.entryOf? id n).isSome = true ↔ d.Names part.2 n
  component : ∀ s ∈ scopes, ∀ n, n ∈ keys s.components ↔ d.Names s.dir n
  bound : ∀ s ∈ scopes, s.Bound w

/-- The one registry is that of the first scope, and lists the scopes behind it. -/
structure Workspace.Listing (w : Workspace LocalFiles δ) (count : Nat) : Prop where
  registry : (w.scope? 0).bind Scope.registry = some 0
  listed : ∃ ids, w.registries = [ids] ∧ ∀ id, 0 < id → id < count → id ∈ ids

omit [Digest δ] in
/-- The next scope is listed. -/
theorem Workspace.Listing.register {w : Workspace LocalFiles δ} {count : Nat}
    (h : w.Listing count) : (w.register 0 count).Listing (count + 1) := by
  obtain ⟨ids, hids, hlisted⟩ := h.listed
  refine ⟨h.registry, if ids.contains count then ids else ids ++ [count], ?_, fun id hpos hid => ?_⟩
  · rw [Workspace.register, hids]
    rfl
  · rcases Nat.lt_succ_iff_lt_or_eq.mp hid with hlt | rfl
    · split
      · exact hlisted id hpos hlt
      · exact List.mem_append_left _ (hlisted id hpos hlt)
    · split
      · rename_i hcontains
        exact List.contains_iff_mem.mp hcontains
      · exact List.mem_append_right _ List.mem_cons_self

namespace Opened

variable [DecidableEq δ] {d : Disk} {projectDir dir : Path} {parts : List (String × Path)}
  {w : Workspace LocalFiles δ} {scopes : List ProjectScope} {settings : Settings}

omit [DecidableEq δ] in
/-- The records of the scopes of a project are numbered in the order of its parts. -/
theorem part_of_mem (h : Opened d projectDir parts w scopes) {s : ProjectScope} (hs : s ∈ scopes) :
    parts[s.scope]? = some (s.name, s.dir) :=
  ProjectScope.part_of_frames h.frames hs

/-- **Opening one more scope** succeeds exactly if its files are in order. -/
theorem openScope_spec (h : Opened d projectDir parts w scopes) (hd : d.Tree)
    (hsettings : settings.Standard) (hordinary : d.Ordinary projectDir dir) (name : String) :
    (d.Orderly dir → ∃ s w',
        Project.openScope settings projectDir 0 name dir w = (.ok (), s, w') ∧
        Opened d projectDir (parts ++ [(name, dir)]) w' (scopes ++ [s]) ∧
        s.scope = parts.length ∧ w'.registries = w.registries ∧
        ∀ id < parts.length,
          (w'.scope? id).bind Scope.registry = (w.scope? id).bind Scope.registry) ∧
      ((Project.openScope settings projectDir 0 name dir w).1 = .ok () → d.Orderly dir) := by
  have hlength : w.scopes.length = parts.length := h.sound.length.trans (List.length_map _)
  have hadded := h.sound.addScope name dir
  obtain ⟨hentry, _⟩ := w.views_addScope (s :=
    { name, pool := 0, substitutor := some { table := scopeTable projectDir dir } }) rfl rfl
  have hspec := hadded.discover_spec (s := { name, dir, scope := w.scopes.length }) hd hsettings
    (by rw [h.sound.length]; exact List.getElem?_concat_length) hordinary (fun n => by
      rw [hentry, Workspace.entryOf?, Workspace.scope?, List.getElem?_eq_none (Nat.le_refl _)]
      rfl)
  refine ⟨fun horderly => ?_, hspec.2⟩
  obtain ⟨s, w', hok, hfound⟩ := hspec.1 horderly
  have hscope : s.scope = w.scopes.length := hfound.scope
  have hdir : s.dir = dir := congrArg (fun f => f.2.1) hfound.frame
  have hbefore : ∀ id < parts.length, id ≠ w.scopes.length := fun id hid heq =>
    Nat.lt_irrefl _ (hlength ▸ heq ▸ hid)
  refine ⟨s, w', hok, ⟨?_, ?_, fun id part hpart n => ?_, fun t ht n => ?_, fun t ht => ?_⟩,
    hscope.trans hlength, hfound.framed.registries, fun id hid => ?_⟩
  · rw [List.map_append]
    exact hfound.sound
  · rw [List.map_append, List.mapIdx_append, h.frames, List.map_singleton, hfound.frame]
    simp [ProjectScope.frame, hlength]
  · rcases Nat.lt_or_ge id parts.length with hid | hid
    · rw [List.getElem?_append_left hid] at hpart
      rw [hfound.other id n (hbefore id hid), hentry]
      exact h.entry id part hpart n
    · rw [List.getElem?_append_right hid, List.getElem?_singleton] at hpart
      split at hpart
      case isFalse => cases hpart
      rename_i hzero
      obtain rfl := Option.some.inj hpart
      obtain rfl : id = w.scopes.length :=
        (Nat.le_antisymm (Nat.le_of_sub_eq_zero hzero) hid).trans hlength.symm
      refine (hfound.entry n).trans (or_iff_right ?_)
      rw [hentry, Workspace.entryOf?, Workspace.scope?, List.getElem?_eq_none (Nat.le_refl _)]
      exact Bool.false_ne_true
  · rcases List.mem_append.mp ht with ht | ht
    · exact h.component t ht n
    · rw [List.mem_singleton.mp ht, hdir]
      exact (hfound.component n).trans (or_iff_right List.not_mem_nil)
  · rcases List.mem_append.mp ht with ht | ht
    · intro n
      have hid := (List.getElem?_eq_some_iff.mp (h.part_of_mem ht)).1
      rw [hfound.other t.scope n (hbefore _ hid), hentry]
      exact h.bound t ht n
    · rw [List.mem_singleton.mp ht]
      refine hfound.bound fun n => ?_
      rw [hentry, Workspace.entryOf?, Workspace.scope?, List.getElem?_eq_none (Nat.le_refl _)]
      rfl
  · rw [hfound.framed.registry, Workspace.scope?_addScope, if_neg (hbefore id hid)]

/-- The step to the next module. -/
theorem openModules_cons (settings : Settings) (projectDir : Path) (pool : PoolId)
    (registry : RegistryId) (m : ModuleEntry) (modules : List ModuleEntry)
    (scopes : List ProjectScope) (w : Workspace LocalFiles δ) :
    Project.openModules settings projectDir pool registry (m :: modules) scopes w
      = match Project.openScope settings projectDir pool m.name (projectDir.join m.dir) w with
        | (.error e, _, space) => { outcome := .error e, scopes, space }
        | (.ok (), s, space) =>
          Project.openModules settings projectDir pool registry modules (scopes ++ [s])
            (space.register registry s.scope) := by
  rfl

/-- **Opening the modules** succeeds exactly if the files of each are in order. -/
theorem openModules_spec (h : Opened d projectDir parts w scopes) (hd : d.Tree)
    (hsettings : settings.Standard) (hlisting : w.Listing parts.length) (hparts : 0 < parts.length)
    {modules : List ModuleEntry}
    (hordinary : ∀ m ∈ modules, d.Ordinary projectDir (projectDir.join m.dir)) :
    ((∀ m ∈ modules, d.Orderly (projectDir.join m.dir)) → ∃ scopes' w',
        Project.openModules settings projectDir 0 0 modules scopes w
          = { outcome := .ok (), scopes := scopes', space := w' } ∧
        Opened d projectDir (parts ++ modules.map fun m => (m.name, projectDir.join m.dir)) w'
          scopes' ∧
        w'.Listing (parts.length + modules.length)) ∧
      ((Project.openModules settings projectDir 0 0 modules scopes w).outcome = .ok () →
        ∀ m ∈ modules, d.Orderly (projectDir.join m.dir)) := by
  induction modules generalizing parts w scopes with
  | nil =>
    refine ⟨fun _ => ⟨scopes, w, rfl, ?_, hlisting⟩, fun _ m hm => absurd hm List.not_mem_nil⟩
    rw [List.map_nil, List.append_nil]
    exact h
  | cons m modules ih =>
    obtain ⟨hfirst, hrest⟩ := List.forall_mem_cons.mp hordinary
    obtain ⟨hopens, horderly⟩ := h.openScope_spec hd hsettings hfirst m.name
    have hthen : d.Orderly (projectDir.join m.dir) → ∃ s w₁,
        Project.openModules settings projectDir 0 0 (m :: modules) scopes w
          = Project.openModules settings projectDir 0 0 modules (scopes ++ [s]) w₁ ∧
        Opened d projectDir (parts ++ [(m.name, projectDir.join m.dir)]) w₁ (scopes ++ [s]) ∧
        w₁.Listing (parts ++ [(m.name, projectDir.join m.dir)]).length := by
      intro hhead
      obtain ⟨s, w₁, hok, hopened, hscope, hregistries, hregistry⟩ := hopens hhead
      have hlisting₁ : w₁.Listing parts.length :=
        ⟨(hregistry 0 hparts).trans hlisting.registry, hregistries ▸ hlisting.listed⟩
      refine ⟨s, w₁.register 0 s.scope, ?_, ⟨hopened.sound.list 0 ?_, hopened.frames, hopened.entry,
        hopened.component, hopened.bound⟩, ?_⟩
      · rw [openModules_cons, hok]
      · simp [hscope]
      · rw [hscope, List.length_append, List.length_singleton]
        exact hlisting₁.register
    refine ⟨fun hall => ?_, fun hok => ?_⟩
    · obtain ⟨hhead, htail⟩ := List.forall_mem_cons.mp hall
      obtain ⟨s, w₁, heq, hopened, hlisting₁⟩ := hthen hhead
      obtain ⟨scopes', w', hmodules, hopened', hlisting'⟩ :=
        (ih hopened hlisting₁ (by simp) hrest).1 htail
      refine ⟨scopes', w', heq.trans hmodules, ?_, ?_⟩
      · rw [List.append_assoc] at hopened'
        exact hopened'
      · rw [List.length_append, List.length_singleton, Nat.add_right_comm] at hlisting'
        exact hlisting'
    · have hhead : d.Orderly (projectDir.join m.dir) := by
        refine horderly ?_
        rw [openModules_cons] at hok
        split at hok
        · cases hok
        · rename_i hopened
          rw [hopened]
      obtain ⟨s, w₁, heq, hopened, hlisting₁⟩ := hthen hhead
      rw [heq] at hok
      exact List.forall_mem_cons.mpr
        ⟨hhead, (ih hopened hlisting₁ (by simp) hrest).2 hok⟩

omit [DecidableEq δ] in
/-- Before anything is opened. -/
theorem start (files : LocalFiles) (projectDir : Path) :
    Opened files.disk projectDir [] (Workspace.start files : Workspace LocalFiles δ) [] :=
  ⟨.start files projectDir _, rfl, fun _ _ hpart => (nomatch hpart), fun _ hs => (nomatch hs),
    fun _ hs => (nomatch hs)⟩

/-- The scope of the project is opened first, and gets the registry. -/
theorem openScopes_eq (settings : Settings) (manifest : Manifest) (dir : Path)
    (files : LocalFiles) :
    Project.openScopes settings manifest dir
        ({ vault := { backing := files } } : Workspace LocalFiles δ)
      = match Project.openScope settings dir 0 manifest.name dir (Workspace.start files) with
        | (.error e, _, space) => { outcome := .error e, space }
        | (.ok (), s, space) =>
          Project.openModules settings dir 0 (space.attach s.scope).1 manifest.modules [s]
            (space.attach s.scope).2 := by
  rfl

end Opened

/-- The scopes of a project, by name and directory: its own and those of its modules. -/
def Project.parts (manifest : Manifest) (dir : Path) : List (String × Path) :=
  (manifest.name, dir) :: manifest.modules.map fun m => (m.name, dir.join m.dir)

/-- **Opening the scopes of a project** succeeds exactly if the files of every scope
are in order. -/
theorem openScopes_spec [DecidableEq δ] {files : LocalFiles} (hd : files.disk.Tree)
    {settings : Settings} (hsettings : settings.Standard) (manifest : Manifest) (dir : Path)
    (hordinary : ∀ part ∈ Project.parts manifest dir, files.disk.Ordinary dir part.2) :
    ((∀ part ∈ Project.parts manifest dir, files.disk.Orderly part.2) → ∃ scopes w,
        Project.openScopes settings manifest dir
            ({ vault := { backing := files } } : Workspace LocalFiles δ)
          = { outcome := .ok (), scopes, space := w } ∧
        Opened files.disk dir (Project.parts manifest dir) w scopes ∧
        w.Listing (Project.parts manifest dir).length) ∧
      ((Project.openScopes settings manifest dir
          ({ vault := { backing := files } } : Workspace LocalFiles δ)).outcome = .ok () →
        ∀ part ∈ Project.parts manifest dir, files.disk.Orderly part.2) := by
  obtain ⟨hfirst, hrest⟩ := List.forall_mem_cons.mp hordinary
  have hmodules : ∀ m ∈ manifest.modules, files.disk.Ordinary dir (dir.join m.dir) :=
    fun m hm => hrest _ (List.mem_map_of_mem hm)
  obtain ⟨hopens, horderly⟩ :=
    (Opened.start (δ := δ) files dir).openScope_spec hd hsettings hfirst manifest.name
  have hthen : files.disk.Orderly dir → ∃ s w,
      Project.openScopes settings manifest dir
          ({ vault := { backing := files } } : Workspace LocalFiles δ)
        = Project.openModules settings dir 0 0 manifest.modules [s] w ∧
      Opened files.disk dir [(manifest.name, dir)] w [s] ∧ w.Listing 1 := by
    intro hhead
    obtain ⟨s, w, hok, hopened, hscope, hregistries, _⟩ := hopens hhead
    have hzero : s.scope = 0 := hscope
    obtain ⟨hsound, hregistry, hregistries', hentry, hscope'⟩ := hopened.sound.attach 0
    have hnone : w.registries = [] := hregistries
    rw [hnone] at hregistry hregistries' hscope'
    have hdir : ([(manifest.name, dir)].map Prod.snd)[0]? = some dir := rfl
    obtain ⟨t, _, ht, _⟩ := hopened.sound.scope hdir
    refine ⟨s, (w.attach 0).2, ?_, ⟨hsound, hopened.frames, fun id part hpart n => ?_,
      hopened.component, fun t ht n => ?_⟩, ?_, [], hregistries', fun id hpos hlt => ?_⟩
    · rw [Opened.openScopes_eq, hok]
      dsimp only
      rw [hzero, hregistry]
      rfl
    · rw [hentry]
      exact hopened.entry id part hpart n
    · rw [hentry]
      exact hopened.bound t ht n
    · rw [hscope', if_pos rfl, ht]
      rfl
    · exact absurd hlt (Nat.not_lt.mpr hpos)
  refine ⟨fun hall => ?_, fun hok => ?_⟩
  · obtain ⟨hhead, htail⟩ := List.forall_mem_cons.mp hall
    obtain ⟨s, w, heq, hopened, hlisting⟩ := hthen hhead
    obtain ⟨scopes, w', hopens, hopened', hlisting'⟩ :=
      (hopened.openModules_spec hd hsettings hlisting Nat.one_pos hmodules).1
        fun m hm => htail _ (List.mem_map_of_mem hm)
    refine ⟨scopes, w', heq.trans hopens, hopened', ?_⟩
    rw [Project.parts, List.length_cons, List.length_map, Nat.add_comm]
    exact hlisting'
  · have hhead : files.disk.Orderly dir := by
      refine horderly ?_
      rw [Opened.openScopes_eq] at hok
      split at hok
      · cases hok
      · rename_i hopened
        rw [hopened]
    obtain ⟨s, w, heq, hopened, hlisting⟩ := hthen hhead
    rw [heq] at hok
    have htail := (hopened.openModules_spec hd hsettings hlisting Nat.one_pos hmodules).2 hok
    refine List.forall_mem_cons.mpr ⟨hhead, fun part hpart => ?_⟩
    obtain ⟨m, hm, rfl⟩ := List.mem_map.mp hpart
    exact htail m hm

end ScopedState
