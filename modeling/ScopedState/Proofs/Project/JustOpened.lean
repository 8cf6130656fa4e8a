/-
`Proofs/Project/JustOpened.lean` -- a project that has just been opened.

Opening a project takes steps of four kinds: a scope is added, a component is
registered, a registry is attached, and a scope is listed. So a property of
workspaces that an empty one has, and that none of these steps takes away, is one of
every project that has been opened (`KeptByOpening.of_open`).

Such a property is that nothing has come between the files and the components
(`JustRead`): the disk is the one that was given, every storage remembers its unit as
it is there, and every component has what its storage remembers for it, references
turned into paths. It does not matter where the files are, how they are spelled and
what is in them; all that counts is that opening has succeeded.
-/
import ScopedState.Proofs.Project.Reopened
import ScopedState.Proofs.Workspace.Reload
import ScopedState.Proofs.Workspace.Sourced
set_option autoImplicit false

namespace ScopedState

open Bindings (get?)

variable {δ : Type} [DecidableEq δ] [Digest δ]

/-! ## 1. Opening, step by step -/

/-- **What opening a project keeps**: a property that no step of it takes away. -/
structure KeptByOpening (P : Workspace LocalFiles δ → Prop) : Prop where
  scope : ∀ w name table, P w →
    P (w.addScope { name, pool := 0, substitutor := some { table } }).2
  register : ∀ w s n template out w', P w → Project.register w s n template = (.ok out, w') → P w'
  attach : ∀ w id, P w → P (w.attach id).2
  list : ∀ w r id, P w → P (w.register r id)

namespace KeptByOpening

variable {P : Workspace LocalFiles δ → Prop} {w w' : Workspace LocalFiles δ}
  {s s' : ProjectScope} {settings : Settings} {projectDir : Path}

theorem registerAll (h : KeptByOpening P) {template : String} {names : List String} (hw : P w)
    (hok : Project.registerAll template names s w = (.ok (), s', w')) : P w' := by
  induction names generalizing s w with
  | nil =>
    obtain ⟨_, rfl⟩ := Prod.mk.inj (Prod.mk.inj hok).2
    exact hw
  | cons n names ih =>
    rw [Project.registerAll] at hok
    split at hok
    · cases hok
    · rename_i id s₁ w₁ hregister
      exact ih (h.register w s n template _ w₁ hw hregister) hok

theorem discoverFiles (h : KeptByOpening P) {files : List Path} (hw : P w)
    (hok : Project.discoverFiles settings files s w = (.ok (), s', w')) : P w' := by
  induction files generalizing s w with
  | nil =>
    obtain ⟨_, rfl⟩ := Prod.mk.inj (Prod.mk.inj hok).2
    exact hw
  | cons file files ih =>
    rw [Project.discoverFiles] at hok
    split at hok
    · cases hok
    · split at hok
      · exact ih hw hok
      · split at hok
        · cases hok
        · split at hok
          · exact ih hw hok
          · split at hok
            · cases hok
            · rename_i s₁ w₁ hregistered
              exact ih (h.registerAll hw hregistered) hok

theorem openScope (h : KeptByOpening P) {name : String} {dir : Path} (hw : P w)
    (hok : Project.openScope settings projectDir 0 name dir w = (.ok (), s', w')) : P w' := by
  have hadded := h.scope w name (scopeTable projectDir dir) hw
  unfold Project.openScope Project.discover at hok
  dsimp only at hok
  split at hok
  · split at hok
    · cases hok
    · exact h.discoverFiles hadded hok
  · obtain ⟨_, rfl⟩ := Prod.mk.inj (Prod.mk.inj hok).2
    exact hadded

theorem openModules (h : KeptByOpening P) {registry : RegistryId} {modules : List ModuleEntry}
    {scopes : List ProjectScope} (hw : P w)
    (hok : (Project.openModules settings projectDir 0 registry modules scopes w).outcome
      = .ok ()) :
    P (Project.openModules settings projectDir 0 registry modules scopes w).space := by
  induction modules generalizing scopes w with
  | nil => exact hw
  | cons m modules ih =>
    rw [Opened.openModules_cons] at hok ⊢
    split at hok
    · cases hok
    · rename_i s w₁ hopened
      exact ih (h.list w₁ registry s.scope (h.openScope hw hopened)) hok

/-- **A project that has been opened** has what an empty workspace has and opening
keeps. -/
theorem of_open (h : KeptByOpening P) {d : Disk} {dir : Path} {p : Project δ}
    (hstart : P (Workspace.start { disk := d, durable := settings.durableWrites }))
    (hopen : Project.open d dir settings = .ok p) : P p.space := by
  obtain ⟨_, _, _, _, hopening⟩ := Project.open_eq_ok_iff.mp hopen
  rw [Opened.openScopes_eq] at hopening
  split at hopening
  · cases congrArg Project.Opening.outcome hopening
  · -- The scope of the project has a registry for the modules, which are opened after it.
    rename_i s w hroot
    have hok : _ = Except.ok () := congrArg Project.Opening.outcome hopening
    have hspace : _ = p.space := congrArg Project.Opening.space hopening
    rw [← hspace]
    exact h.openModules (h.attach w s.scope (h.openScope hstart hroot)) hok

end KeptByOpening

/-! ## 2. Nothing in between -/

/-- **A workspace into which files have been read**, and where nothing has happened
since. -/
structure Workspace.JustRead (files : LocalFiles) (w : Workspace LocalFiles δ) : Prop where
  kept : w.Kept
  sourced : w.Sourced
  backing : w.vault.backing = files
  upToDate : ∀ k, w.vault.UpToDate k
  /-- Every scope has path variables. -/
  macros : ∀ id s, w.scope? id = some s → ∃ sub, s.substitutor = some sub
  /-- No component fails, and none has a default. -/
  plain : ∀ i c, w.vault.component? i = some c → c.failing = false ∧ c.default? = none
  value : ∀ id n e, w.entryOf? id n = some e → ∃ c table,
    w.vault.component? e.component = some c ∧ w.tableOf? id = some table ∧
      c.value = (get? (w.vault.snapshot e.storage).document n).map table.expandValue

namespace Workspace.JustRead

variable {files : LocalFiles} {w w' : Workspace LocalFiles δ}

omit [DecidableEq δ] in
theorem start (files : LocalFiles) :
    (Workspace.start files : Workspace LocalFiles δ).JustRead files where
  kept := kept_start files
  sourced := ⟨fun _ _ hs => (nomatch hs), fun _ he => absurd he List.not_mem_nil⟩
  backing := rfl
  upToDate _ _ hst := nomatch hst
  macros _ _ hs := nomatch hs
  plain _ _ hc := nomatch hc
  value _ _ _ he := nomatch he

omit [DecidableEq δ] [Digest δ] in
/-- The path variables of a scope with path variables. -/
theorem tableOf?_eq {id : ScopeId} {s : Scope} {sub : Substitutor} (hs : w.scope? id = some s)
    (hsub : s.substitutor = some sub) : w.tableOf? id = some sub.table := by
  rw [tableOf?, hs, Option.bind_some, hsub, Option.map_some]

/-- A scope with path variables may be added. -/
theorem addScope (h : w.JustRead files) (name : String) (table : MacroTable) :
    (w.addScope { name, pool := 0, substitutor := some { table } }).2.JustRead files := by
  obtain ⟨hentry, _⟩ := w.views_addScope (s :=
    { name, pool := 0, substitutor := some { table } }) rfl rfl
  have hact := (h.kept.act (.addScope name (some { table }) 0)).1
  refine
    { kept := hact
      sourced := h.sourced.act h.kept (.addScope name (some { table }) 0)
      backing := h.backing
      upToDate := h.upToDate
      macros := fun id s hs => ?_
      plain := h.plain
      value := fun id n e he => ?_ }
  · rw [scope?_addScope] at hs
    split at hs
    · rw [← Option.some.inj hs]
      exact ⟨_, rfl⟩
    · exact h.macros id s hs
  · rw [hentry] at he
    obtain ⟨c, table', hc, htable, hvalue⟩ := h.value id n e he
    refine ⟨c, table', hc, ?_, hvalue⟩
    -- The scope of an entry was there before, so it is not the new one.
    obtain ⟨s, hs, _⟩ := Option.bind_eq_some_iff.mp htable
    have hne : id ≠ w.scopes.length := Nat.ne_of_lt (List.getElem?_eq_some_iff.mp hs).1
    rw [tableOf?, scope?_addScope, if_neg hne]
    exact htable

omit [DecidableEq δ] in
/-- What changes neither the scopes nor the vault does not matter. -/
theorem of_views (h : w.JustRead files) (hkept : w'.Kept) (hsourced : w'.Sourced)
    (hvault : w'.vault = w.vault)
    (hmacros : ∀ id s, w'.scope? id = some s → ∃ t, w.scope? id = some t ∧
      t.substitutor = s.substitutor ∧ t.components = s.components) : w'.JustRead files := by
  refine
    { kept := hkept
      sourced := hsourced
      backing := hvault ▸ h.backing
      upToDate := hvault ▸ h.upToDate
      macros := fun id s hs => ?_
      plain := hvault ▸ h.plain
      value := fun id n e he => ?_ }
  · obtain ⟨t, ht, hsub, _⟩ := hmacros id s hs
    rw [← hsub]
    exact h.macros id t ht
  · obtain ⟨s, hs, hentry⟩ := Option.bind_eq_some_iff.mp he
    obtain ⟨t, ht, hsub, hcomponents⟩ := hmacros id s hs
    have htable : w'.tableOf? id = w.tableOf? id := by
      rw [tableOf?, tableOf?, hs, ht, Option.bind_some, Option.bind_some, hsub]
    rw [hvault, htable]
    refine h.value id n e ?_
    rw [entryOf?, ht, Option.bind_some, hcomponents]
    exact hentry

/-- A registry may be attached to a scope. -/
theorem attach (h : w.JustRead files) (id : ScopeId) : (w.attach id).2.JustRead files := by
  have hvault : (w.attach id).2.vault = w.vault := settle_vault _
  refine h.of_views (h.kept.act (.attach id)).1 (h.sourced.act h.kept (.attach id)) hvault ?_
  intro j s hs
  rw [scope?_attach] at hs
  split at hs
  · obtain ⟨t, ht, rfl⟩ := Option.map_eq_some_iff.mp hs
    exact ⟨t, ht, rfl, rfl⟩
  · exact ⟨s, hs, rfl, rfl⟩

/-- A scope may be listed. -/
theorem list (h : w.JustRead files) (r : RegistryId) (id : ScopeId) :
    (w.register r id).JustRead files :=
  h.of_views (h.kept.act (.list r id)).1 (h.sourced.act h.kept (.list r id)) rfl
    fun _ s hs => ⟨s, hs, rfl, rfl⟩

/-- A component that nothing refers to may be added. -/
theorem addComponent (h : w.JustRead files) (n : String) :
    JustRead files { w with vault := (w.vault.addComponent { name := n }).2 } := by
  have hold : ∀ {i c}, w.vault.component? i = some c →
      (w.vault.addComponent { name := n }).2.component? i = some c := fun hc =>
    (List.getElem?_append_left (List.getElem?_eq_some_iff.mp hc).1).trans hc
  refine
    { kept := (h.kept.act (.addComponent { name := n })).1
      sourced := h.sourced.act h.kept (.addComponent { name := n })
      backing := h.backing
      upToDate := h.upToDate
      macros := h.macros
      plain := fun i c hc => ?_
      value := fun id m e he => ?_ }
  · have hmem : c ∈ w.vault.components ++ [{ name := n }] := List.mem_of_getElem? hc
    rcases List.mem_append.mp hmem with hc | hc
    · obtain ⟨j, hj⟩ := List.getElem?_of_mem hc
      exact h.plain j c hj
    · rw [List.mem_singleton.mp hc]
      exact ⟨rfl, rfl⟩
  · obtain ⟨c, table, hc, hrest⟩ := h.value id m e he
    exact ⟨c, table, hold hc, hrest⟩

section Entering

variable {id : ScopeId} {table : MacroTable} {p : PoolId} {n template : String} {e : Entry}
  {unit : Path}

omit [DecidableEq δ] in
/-- Every entry is for a storage that there is. -/
theorem exists_storage (h : w.JustRead files) (he : w.entryOf? id n = some e) :
    ∃ st, w.vault.storage? e.storage = some st := by
  obtain ⟨s, hs, he⟩ := Option.bind_eq_some_iff.mp he
  obtain ⟨l, u, hl⟩ := (h.kept.scope hs).mapped n e he
  exact ((h.kept.scope hs).exists_storage hl).imp fun _ hst => hst.1

omit [DecidableEq δ] in
/-- **A component may be registered**: its unit has been read, now or before. -/
theorem entered (h : w.JustRead files) (hkept : w'.Kept) (hsourced : w'.Sourced)
    (hentered : Entered w w' id table p n e unit template) (htable : w.tableOf? id = some table)
    (hcomponent : (w.vault.component? e.component).isSome = true)
    (hapart : ∀ j m e', w.entryOf? j m = some e' → e'.component ≠ e.component) :
    w'.JustRead files := by
  have hbacking : w'.vault.backing = w.vault.backing := hentered.framed.backing
  have hread : ∀ u, w'.vault.readSnapshot u = w.vault.readSnapshot u := fun u => by
    rw [Vault.readSnapshot, Vault.readSnapshot, hbacking]
  refine
    { kept := hkept
      sourced := hsourced
      backing := hbacking.trans h.backing
      upToDate := fun k st hst => ?_
      macros := fun j s hs => ?_
      plain := fun i c hc => ?_
      value := fun j m x hx => ?_ }
  · -- The storage is an old one, or a new one that has just read its unit.
    rw [hread]
    cases hentered.storage with
    | known storages pools found =>
      rw [Vault.storage?, storages] at hst
      exact h.upToDate k st hst
    | loaded snapshot read number storages unused pools =>
      rw [Vault.storage?, storages] at hst
      rcases List.mem_append.mp (List.mem_of_getElem? hst) with hst | hst
      · obtain ⟨j, hj⟩ := List.getElem?_of_mem hst
        exact h.upToDate j st hj
      · rw [List.mem_singleton.mp hst]
        exact read
  · obtain ⟨t, ht, hframe⟩ := Option.map_eq_some_iff.mp
      ((hentered.framed.frame j).symm.trans (congrArg (Option.map Scope.frame) hs))
    obtain ⟨sub, hsub⟩ := h.macros j t ht
    have hsame : t.substitutor.map Substitutor.table = s.substitutor.map Substitutor.table :=
      congrArg (fun f => f.2.1) hframe
    rw [hsub, Option.map_some] at hsame
    obtain ⟨sub', hsub', _⟩ := Option.map_eq_some_iff.mp hsame.symm
    exact ⟨sub', hsub'⟩
  · rw [hentered.component] at hc
    split at hc
    · obtain ⟨x, hx, rfl⟩ := Option.map_eq_some_iff.mp hc
      exact h.plain i x hx
    · exact h.plain i c hc
  · rw [hentered.framed.tableOf?, hentered.component]
    rw [hentered.entry] at hx
    split at hx
    · -- The new component has been handed what its storage remembers.
      rename_i hat
      obtain rfl := Option.some.inj hx
      obtain ⟨c, hc⟩ := Option.isSome_iff_exists.mp hcomponent
      rw [if_pos rfl, hc, hat.1, hat.2]
      refine ⟨_, table, rfl, htable, ?_⟩
      simp only [Component.load, (h.plain _ c hc).2, Vault.snapshot]
      cases hst : w'.vault.storage? e.storage with
      | none => rfl
      | some st =>
        rw [Option.bind_some, Storage.state?]
        cases get? st.snapshot.document n <;> rfl
    · rw [if_neg (hapart j m x hx)]
      obtain ⟨st, hst⟩ := h.exists_storage hx
      have hsnapshot : w'.vault.snapshot x.storage = w.vault.snapshot x.storage := by
        rw [Vault.snapshot_eq hst, Vault.snapshot_eq (hentered.storage.storage? hst)]
      rw [hsnapshot]
      exact h.value j m x hx

end Entering

/-- **Registering** the component of a file leaves nothing in between. -/
theorem register (h : w.JustRead files) {s : ProjectScope} {n template : String}
    {out : ComponentId × ProjectScope} (hok : Project.register w s n template = (.ok out, w')) :
    w'.JustRead files := by
  rw [Sound.register_eq] at hok
  have hadded := h.addComponent n
  generalize hw₁ : ({ w with vault := (w.vault.addComponent { name := n }).2 } :
    Workspace LocalFiles δ) = w₁ at hok hadded
  split at hok
  · cases hok
  rename_i unit w₂ hregistered
  obtain rfl : w₂ = w' := (Prod.mk.inj hok).2
  have hnext : (w₁.addComponent s.scope w.vault.components.length n template).2 = w₂ :=
    congrArg Prod.snd hregistered
  cases hs : w₁.scope? s.scope with
  | none =>
    rw [addComponent_of_absent hs] at hnext
    exact hnext ▸ hadded
  | some t =>
    obtain ⟨sub, hsub⟩ := hadded.macros s.scope t hs
    cases hbound : get? t.components n with
    | some e =>
      rw [addComponent_of_bound hs _ (by rw [hbound]; rfl)] at hregistered
      cases hregistered
    | none =>
      rcases addComponent_spec hs hsub w.vault.components.length hbound template with
        ⟨_, k, hentered⟩ | ⟨⟨e, he⟩, _⟩
      · rw [hnext] at hentered
        refine hadded.entered ?_ ?_ hentered (tableOf?_eq hs hsub) ?_ fun j m e' he' => ?_
        · exact hnext ▸ (hadded.kept.addComponent _ _ _ _).1
        · exact hnext ▸ hadded.sourced.addComponent _ _ _ _
        · rw [← hw₁]
          simp [Vault.component?, Vault.addComponent]
        · -- The number of the new component was not in use.
          rw [← hw₁] at he'
          obtain ⟨c, _, hc, _⟩ := h.value j m e' he'
          exact Nat.ne_of_lt (List.getElem?_eq_some_iff.mp hc).1
      · rw [hregistered] at he
        cases he

theorem keptByOpening (files : LocalFiles) :
    KeptByOpening fun w : Workspace LocalFiles δ => w.JustRead files where
  scope _ name table h := h.addScope name table
  register _ _ _ _ _ _ h hok := h.register hok
  attach _ id h := h.attach id
  list _ r id h := h.list r id

end Workspace.JustRead

/-- **Nothing comes between the files and the components** of a project that has just been
opened. -/
theorem Project.justRead_of_open {d : Disk} {dir : Path} {settings : Settings} {p : Project δ}
    (hopen : Project.open d dir settings = .ok p) :
    p.space.JustRead { disk := d, durable := settings.durableWrites } :=
  (Workspace.JustRead.keptByOpening _).of_open (.start _) hopen

end ScopedState
