/-
`Proofs/Workspace/Reconciled.lean` -- reloading what an analysis has named.

An analysis goes by the units that a session has captured and by digests, a
reload by names, scope after scope, and each scope loads whole storages. They
fit all the same. A reload that goes well has loaded the storage of every
component it was told of, so that no difference shows there any more; and a
storage that it has not loaded has no component of a name that was found, so
there was no difference to begin with. Some storages are shared and loaded more
than once. As the store stays as it is, loading one again changes nothing.

`Reloaded` is what holds in the middle of a reload, with the registrations
behind it: their storages are as they are on disk, and each of their components
holds what is stored for one of its registrations, the last one, or its
default.
-/
import Mathlib.Data.List.TakeWhile
import ScopedState.Proofs.Workspace.Exact
set_option autoImplicit false

namespace ScopedState

open Bindings (get?)

variable {β δ : Type}

/-! ## 1. Storages that stay as they are on disk -/

/-- A snapshot has the document of the content that it was read from. -/
theorem Snapshot.document_ofContent [Digest δ] {unit : Path} {content : Option Bytes}
    {s : Snapshot δ} (h : Snapshot.ofContent unit content = .ok s) :
    Document.ofContent unit content = .ok s.document := by
  cases content with
  | none =>
    rw [← Except.ok.inj h]
    rfl
  | some bytes =>
    unfold Snapshot.ofContent at h
    simp only [] at h
    rw [Document.ofContent]
    split at h
    · rename_i d hd
      rw [← Except.ok.inj h]
      exact hd
    · cases h

namespace Vault

section Reading

variable [Backing β] [Digest δ] {v v' : Vault β δ} {k : StorageId}

/-- What can be loaded depends on the units and the store. -/
theorem Refreshed.loads (h : v.Refreshed v') (k : StorageId) : v'.loads k = v.loads k := by
  have hread : ∀ unit, v'.readSnapshot unit = v.readSnapshot unit := readSnapshot_congr h.backing
  rw [Vault.loads, Vault.loads, load_outcome, load_outcome]
  rcases h.storage k with hsame | hreread
  · simp only [hsame, hread]
  · rw [hreread]
    cases v.storage? k with
    | none => rfl
    | some s => simp only [Option.map_some, Option.elim_some, hread, reread_unit]

theorem Refreshed.reread (h : v.Refreshed v') : v'.reread = v.reread :=
  funext (reread_congr h.backing)

/-- A storage that is as it is on disk stays so. -/
theorem Refreshed.fresh {v₀ : Vault β δ} (h₀ : v₀.Refreshed v) (h : v.Refreshed v')
    (hfresh : v.storage? k = (v₀.storage? k).map v₀.reread) :
    v'.storage? k = (v₀.storage? k).map v₀.reread := by
  rcases h.storage k with hsame | hreread
  · rw [hsame, hfresh]
  · have htwice : v₀.reread ∘ v₀.reread = v₀.reread := funext v₀.reread_reread
    rw [hreread, hfresh, h₀.reread, Option.map_map, htwice]

/-- A storage that cannot be loaded keeps what it remembers. -/
theorem reread_of_not_loads (h : ¬ v.loads k = true) :
    (v.storage? k).map v.reread = v.storage? k := by
  rw [Vault.loads, load_outcome] at h
  cases hs : v.storage? k with
  | none => rfl
  | some s =>
    rw [hs, Option.elim_some] at h
    rw [Option.map_some, Vault.reread]
    cases hread : v.readSnapshot s.unit with
    | error e => rfl
    | ok snapshot =>
      rw [hread] at h
      exact absurd rfl h

/-- What a storage is read as is what is on disk. -/
theorem read_of_loads {s : Storage δ} (hs : v.storage? k = some s) (hloads : v.loads k = true) :
    ∃ content d, Backing.read v.backing s.unit = .ok content ∧
      Document.ofContent s.unit content = .ok d ∧ (v.reread s).snapshot.document = d := by
  rw [Vault.loads, load_outcome, hs, Option.elim_some] at hloads
  cases hsnapshot : v.readSnapshot s.unit with
  | error e =>
    rw [hsnapshot] at hloads
    cases hloads
  | ok snapshot =>
    have hdocument : (v.reread s).snapshot = snapshot := by rw [Vault.reread, hsnapshot]
    obtain ⟨content, hcontent, hparsed⟩ := readSnapshot_eq_ok_iff.mp hsnapshot
    rw [hdocument]
    exact ⟨content, _, hcontent, Snapshot.document_ofContent hparsed, rfl⟩

/-- What has been read of a unit is the document of its content. -/
theorem document_of_readSnapshot [LawfulBacking β] {unit : Path} {s : Snapshot δ}
    (h : v.readSnapshot unit = .ok s) :
    Document.ofContent unit (v.contents unit.location) = .ok s.document := by
  obtain ⟨content, hcontent, hparsed⟩ := readSnapshot_eq_ok_iff.mp h
  rw [contents, ← LawfulBacking.read_ok hcontent]
  exact Snapshot.document_ofContent hparsed

end Reading

end Vault

namespace Workspace

/-! ## 2. Path variables -/

/-- The path variables of a scope. -/
def table? (w : Workspace β δ) (id : ScopeId) : Option MacroTable :=
  ((w.scope? id).bind Scope.substitutor).map Substitutor.table

/-- A scope may take note of unknown names. -/
theorem table?_setSubstitutor (w : Workspace β δ) (id : ScopeId) {sub : Option Substitutor}
    (h : sub.map Substitutor.table = w.table? id) :
    (w.modifyScope id fun s => { s with substitutor := sub }).table? = w.table? := by
  funext j
  rw [table?, scope?_modifyScope]
  split
  · rename_i hj
    rw [hj, ← h]
    cases hs : w.scope? id with
    | none =>
      rw [table?, hs] at h
      exact h.symm
    | some s => rfl
  · rfl

/-- What a value expands to depends on the path variables alone. -/
theorem expandWith_of_tables {s s' : Option Substitutor}
    (h : s'.map Substitutor.table = s.map Substitutor.table) (v : Json) :
    (Substitutor.expandWith s' v).1 = (Substitutor.expandWith s v).1 := by
  cases s with
  | none => rw [Option.map_eq_none_iff.mp h]
  | some sub =>
    obtain ⟨sub', rfl, htable⟩ := Option.map_eq_some_iff.mp h
    rw [Substitutor.expandWith, Substitutor.expandWith]
    simp only [Substitutor.expandValue, htable]

/-! ## 3. Registrations -/

/-- A component of a scope under a name. -/
structure Registration where
  scope : ScopeId
  name : String
  entry : Entry

/-- What some scopes have registered under some names. -/
def registrations (w : Workspace β δ) (names : List String) (ids : List ScopeId) :
    List Registration :=
  ids.flatMap fun id =>
    ((w.scope? id).elim [] fun s => targets s names).map fun t => ⟨id, t.1, t.2⟩

theorem mem_registrations_iff {w : Workspace β δ} {names : List String} {ids : List ScopeId}
    {r : Registration} :
    r ∈ w.registrations names ids ↔ r.scope ∈ ids ∧ r.name ∈ names ∧
      ∃ s, w.scope? r.scope = some s ∧ get? s.components r.name = some r.entry := by
  obtain ⟨id, n, e⟩ := r
  simp only [registrations, List.mem_flatMap, List.mem_map, Registration.mk.injEq]
  constructor
  · rintro ⟨id', hid, ⟨m, e'⟩, ht, rfl, rfl, rfl⟩
    cases hs : w.scope? id' with
    | none =>
      rw [hs] at ht
      cases ht
    | some s =>
      rw [hs, Option.elim_some, targets, List.mem_filterMap] at ht
      obtain ⟨m', hm', he⟩ := ht
      obtain ⟨e'', he'', hpair⟩ := Option.map_eq_some_iff.mp he
      obtain ⟨rfl, rfl⟩ := Prod.mk.inj hpair
      exact ⟨hid, hm', s, rfl, he''⟩
  · rintro ⟨hid, hn, s, hs, he⟩
    refine ⟨id, hid, (n, e), ?_, rfl, rfl, rfl⟩
    rw [hs, Option.elim_some, targets, List.mem_filterMap]
    exact ⟨n, hn, by rw [he]; rfl⟩

section Reloading

variable [Backing β] [Digest δ] {w w' : Workspace β δ} {done : List Registration}

/-- What is stored on disk for a registration, references turned into paths. -/
def shown (w : Workspace β δ) (r : Registration) : Option Json :=
  (((w.vault.storage? r.entry.storage).map w.vault.reread).bind fun s => s.state? r.name).map
    fun v => (Substitutor.expandWith ((w.scope? r.scope).bind Scope.substitutor) v).1

/-- **In the middle of a reload** of a workspace `w`. -/
structure Reloaded (w w' : Workspace β δ) (done : List Registration) : Prop where
  effect : Effect w w'
  table : w'.table? = w.table?
  default : ∀ c, (w'.vault.component? c).map Component.default?
    = (w.vault.component? c).map Component.default?
  read : ∀ r ∈ done, w.vault.loads r.entry.storage = true ∧
    w'.vault.storage? r.entry.storage = (w.vault.storage? r.entry.storage).map w.vault.reread
  holds : ∀ r ∈ done, ∀ x, w'.vault.component? r.entry.component = some x →
    ∃ r' ∈ done, r'.entry.component = r.entry.component ∧ x.value = (w.shown r' <|> x.default?)

theorem Reloaded.refl (w : Workspace β δ) : w.Reloaded w [] :=
  ⟨Effect.refl w, rfl, fun _ => rfl, fun _ hr => absurd hr List.not_mem_nil,
    fun _ hr => absurd hr List.not_mem_nil⟩

omit [Backing β] [Digest δ] in
/-- **What handing over a state does**: one component is loaded. -/
theorem loadComponent_spec (w : Workspace β δ) (id : ScopeId) (name : String) (e : Entry) :
    (w.loadComponent id name e).table? = w.table? ∧
      (w.loadComponent id name e).vault.storage? = w.vault.storage? ∧
      ∀ c, (w.loadComponent id name e).vault.component? c
        = if c = e.component then (w.vault.component? c).map fun x => x.load
            (((w.vault.storage? e.storage).bind fun s => s.state? name).map fun v =>
              (Substitutor.expandWith ((w.scope? id).bind Scope.substitutor) v).1)
          else w.vault.component? c := by
  unfold loadComponent
  cases (w.vault.storage? e.storage).bind fun s => s.state? name with
  | none => exact ⟨rfl, rfl, fun c => w.vault.component?_modifyComponent _ _ c⟩
  | some stored =>
    -- Expanding takes note of unknown names and leaves the table as it is.
    have htable : ∀ s : Option Substitutor, (Substitutor.expandWith s stored).2.map
        Substitutor.table = s.map Substitutor.table := by
      intro s
      cases s <;> rfl
    exact ⟨table?_setSubstitutor { w with vault := _ } id (htable _), rfl,
      fun c => w.vault.component?_modifyComponent _ _ c⟩

/-- **One registration more**: its component is handed what is stored for it. -/
theorem Reloaded.load (h : w.Reloaded w' done) {r : Registration}
    (hread : w.vault.loads r.entry.storage = true ∧ w'.vault.storage? r.entry.storage
      = (w.vault.storage? r.entry.storage).map w.vault.reread) :
    w.Reloaded (w'.loadComponent r.scope r.name r.entry) (done ++ [r]) := by
  obtain ⟨htable, hstorage, hcomponent⟩ := w'.loadComponent_spec r.scope r.name r.entry
  have hstored : (((w'.vault.storage? r.entry.storage).bind fun s => s.state? r.name).map fun v =>
      (Substitutor.expandWith ((w'.scope? r.scope).bind Scope.substitutor) v).1) = w.shown r := by
    rw [shown, hread.2]
    congr 1
    funext v
    exact expandWith_of_tables (congrFun h.table r.scope) v
  rw [hstored] at hcomponent
  refine ⟨h.effect.trans (loadComponent_effect w' r.scope r.name r.entry), htable.trans h.table,
    fun c => ?_, fun r' hr' => ?_, fun r' hr' x hx => ?_⟩
  · rw [← h.default c, hcomponent]
    split
    · rw [Option.map_map]
      rfl
    · rfl
  · rw [hstorage]
    rcases List.mem_append.mp hr' with hr' | hr'
    · exact h.read r' hr'
    · rw [List.mem_singleton.mp hr']
      exact hread
  · rw [hcomponent] at hx
    by_cases hsame : r'.entry.component = r.entry.component
    · -- Whatever the component held before, it holds what is stored for this registration.
      rw [if_pos hsame] at hx
      obtain ⟨y, _, rfl⟩ := Option.map_eq_some_iff.mp hx
      exact ⟨r, List.mem_append_right _ List.mem_cons_self, hsame.symm, rfl⟩
    · rw [if_neg hsame] at hx
      have hr' : r' ∈ done := by
        refine (List.mem_append.mp hr').resolve_right fun hlast => hsame ?_
        rw [List.mem_singleton.mp hlast]
      obtain ⟨r'', hr'', hcomponent'', hvalue⟩ := h.holds r' hr' x hx
      exact ⟨r'', List.mem_append_left _ hr'', hcomponent'', hvalue⟩

/-- **Several registrations more**, one after the other. -/
theorem Reloaded.loadAll {id : ScopeId} {ts : List (String × Entry)} (h : w.Reloaded w' done)
    (hread : ∀ t ∈ ts, w.vault.loads t.2.storage = true ∧ w'.vault.storage? t.2.storage
      = (w.vault.storage? t.2.storage).map w.vault.reread) :
    w.Reloaded (ts.foldl (fun w t => w.loadComponent id t.1 t.2) w')
      (done ++ ts.map fun t => ⟨id, t.1, t.2⟩) := by
  induction ts generalizing w' done with
  | nil =>
    rw [List.map_nil, List.append_nil]
    exact h
  | cons t ts ih =>
    have hfirst := h.load (r := ⟨id, t.1, t.2⟩) (hread t List.mem_cons_self)
    have hstorage := (w'.loadComponent_spec id t.1 t.2).2.1
    have hrest := ih hfirst fun t' ht' => by
      rw [hstorage]
      exact hread t' (List.mem_cons_of_mem _ ht')
    rw [List.append_assoc] at hrest
    exact hrest

/-- Loading that goes well has found every storage readable. -/
theorem loads_of_loadStorages_ok {ks seen : List StorageId} {v : Vault β δ}
    (hseen : ∀ k ∈ seen, v.loads k = true) (hok : (loadStorages seen ks v).1 = .ok ()) :
    ∀ k ∈ ks, v.loads k = true := by
  induction ks generalizing seen v with
  | nil => exact fun k hk => absurd hk List.not_mem_nil
  | cons first ks ih =>
    intro k hk
    rcases loadStorages_cons seen first ks v with ⟨hmem, hout⟩ | ⟨hnot, hout⟩ | ⟨hloads, hout⟩
    · rw [hout] at hok
      rcases List.mem_cons.mp hk with rfl | hk
      · exact hseen k hmem
      · exact ih hseen hok k hk
    · rw [hout] at hok
      rw [Vault.loads, hok] at hnot
      exact absurd rfl hnot
    · rw [hout] at hok
      rcases List.mem_cons.mp hk with rfl | hk
      · exact hloads
      · rw [← Vault.loads_after_load v first k]
        exact ih (loads_done hseen hloads) hok k hk

/-- **The storages of one scope are loaded**, all of them if it goes well. -/
theorem Reloaded.storages (h : w.Reloaded w' done) {ks : List StorageId}
    (hok : (loadStorages [] ks w'.vault).1 = .ok ()) :
    w.Reloaded { w' with vault := (loadStorages [] ks w'.vault).2 } done ∧
      ∀ k ∈ ks, w.vault.loads k = true ∧
        (loadStorages [] ks w'.vault).2.storage? k = (w.vault.storage? k).map w.vault.reread := by
  have hnone : ∀ k ∈ ([] : List StorageId), w'.vault.loads k = true :=
    fun k hk => absurd hk List.not_mem_nil
  have hloads := loads_of_loadStorages_ok hnone hok
  obtain ⟨hbacking, hcomponents, hstorage⟩ :=
    loadStorages_spec ks hnone fun k hk => absurd hk List.not_mem_nil
  have hrefreshed := loadStorages_refreshed [] ks w'.vault
  have hreadable : w'.vault.readable ks = ks := List.takeWhile_eq_self_iff.mpr hloads
  have hcomponent : (loadStorages [] ks w'.vault).2.component? = w'.vault.component? := by
    funext c
    rw [Vault.component?, Vault.component?, hcomponents]
  refine ⟨⟨h.effect.trans ⟨rfl, hrefreshed⟩, h.table, ?_, fun r hr => ?_, ?_⟩, fun k hk => ?_⟩
  · simp only [hcomponent]
    exact h.default
  · obtain ⟨hr', hfresh⟩ := h.read r hr
    exact ⟨hr', h.effect.vault.fresh hrefreshed hfresh⟩
  · simp only [hcomponent]
    exact h.holds
  · refine ⟨(h.effect.vault.loads k).symm.trans (hloads k hk), ?_⟩
    have htwice : w.vault.reread ∘ w.vault.reread = w.vault.reread :=
      funext w.vault.reread_reread
    rw [hstorage, hreadable, if_pos hk, h.effect.vault.reread]
    rcases h.effect.vault.storage k with hsame | hreread
    · rw [hsame]
    · rw [hreread, Option.map_map, htwice]

/-- **One scope more.** -/
theorem Reloaded.own (h : w.Reloaded w' done) {id : ScopeId} {names : List String}
    (hok : (w'.reinitOwn id names true).1 = .ok ()) :
    w.Reloaded (w'.reinitOwn id names true).2 (done ++ w.registrations names [id]) := by
  have htargets : ((w'.scope? id).elim [] fun s => targets s names)
      = (w.scope? id).elim [] fun s => targets s names := by
    have hcomponents := components_of_outline h.effect.outline id
    have hof : ∀ o : Option Scope, (o.elim [] fun s => targets s names)
        = (o.map Scope.components).elim [] fun components => names.filterMap fun name =>
            (get? components name).map fun entry => (name, entry) := by
      intro o
      cases o <;> rfl
    rw [hof, hof, hcomponents]
  have hregistrations : w.registrations names [id]
      = ((w.scope? id).elim [] fun s => targets s names).map fun t => ⟨id, t.1, t.2⟩ := by
    rw [registrations, List.flatMap_singleton]
  unfold reinitOwn at hok ⊢
  simp only [if_true, htargets] at hok ⊢
  rw [hregistrations]
  split at hok
  · cases hok
  · rename_i hloaded
    obtain ⟨hstorages, hread⟩ := h.storages hloaded
    exact hstorages.loadAll fun t ht => hread _ (List.mem_map_of_mem ht)

mutual

/-- **A tree more**, each scope before those below it. -/
theorem Reloaded.tree (names : List String) : ∀ {t : ScopeTree} {w' : Workspace β δ}
    {done : List Registration}, w.Reloaded w' done → (reinitTree names true t w').1 = .ok () →
      w.Reloaded (reinitTree names true t w').2 (done ++ w.registrations names t.scopes)
  | .node id children, w', done, h, hok => by
    have hsplit : w.registrations names (ScopeTree.node id children).scopes
        = w.registrations names [id] ++ w.registrations names (ScopeTree.scopesOfAll children) := by
      rw [ScopeTree.scopes, registrations, registrations, registrations, ← List.flatMap_append,
        List.singleton_append]
    rw [reinitTree] at hok ⊢
    rw [hsplit, ← List.append_assoc]
    split at hok
    · cases hok
    · rename_i w'' hown
      have hfirst := h.own (congrArg Prod.fst hown)
      rw [hown] at hfirst
      exact hfirst.all names hok

theorem Reloaded.all (names : List String) : ∀ {ts : List ScopeTree} {w' : Workspace β δ}
    {done : List Registration}, w.Reloaded w' done → (reinitAll names true ts w').1 = .ok () →
      w.Reloaded (reinitAll names true ts w').2
        (done ++ w.registrations names (ScopeTree.scopesOfAll ts))
  | [], w', done, h, _ => by
    rw [reinitAll, ScopeTree.scopesOfAll, registrations, List.flatMap_nil, List.append_nil]
    exact h
  | t :: ts, w', done, h, hok => by
    have hsplit : w.registrations names (ScopeTree.scopesOfAll (t :: ts))
        = w.registrations names t.scopes ++ w.registrations names (ScopeTree.scopesOfAll ts) := by
      rw [ScopeTree.scopesOfAll, registrations, registrations, registrations, List.flatMap_append]
    rw [reinitAll] at hok ⊢
    rw [hsplit, ← List.append_assoc]
    split at hok
    · cases hok
    · rename_i w'' ht
      have hfirst := h.tree names (congrArg Prod.fst ht)
      rw [ht] at hfirst
      exact hfirst.all names hok

end

/-- **A reload that goes well** has gone through everything that the scopes of the
tree have registered under the names. -/
theorem reloaded_of_reinit {root : ScopeId} {names : List String}
    (hok : (w.reinit root names true).1 = .ok ()) :
    w.Reloaded (w.reinit root names true).2
      (w.registrations (Ascending.ofList names) (w.tree root).scopes) :=
  (Reloaded.refl w).tree _ hok

end Reloading

/-! ## 4. The next analysis -/

section Analysing

variable [Backing β] [DecidableEq δ] [Digest δ] {w w' : Workspace β δ} {root id : ScopeId}
  {changes : ChangeSet} {names : List String} {n : String} {c : ComponentId}

/-- Comparing looks at the store and at what is remembered. -/
theorem compared_congr {v v' : Vault β δ} {slot : Slot} (hbacking : v'.backing = v.backing)
    (hstorage : v'.storage? slot.storage = v.storage? slot.storage) :
    v'.compared slot = v.compared slot := by
  rw [Vault.compared, Vault.compared, Vault.changed, Vault.changed, hstorage, hbacking]

/-- **After a reload of what an analysis has named nothing differs.** A unit of
the session has been loaded again, or had no difference before. -/
theorem compared_after_reload (hkept : w.Kept)
    (hanalysis : ((w.startSave root).analyze changes w.vault).1 = .reloadable names)
    (hreloaded : w.Reloaded w' (w.registrations (Ascending.ofList names) (w.tree root).scopes))
    {slot : Slot} (hslot : SessionTree.Affected changes (w.startSave root).parts slot) :
    w'.vault.compared slot = .ok [] := by
  have hjudges := (SessionTree.analyze_judges changes (w.startSave root) w.vault).2
  rw [hanalysis] at hjudges
  obtain ⟨hok, hnames⟩ := hjudges
  obtain ⟨more, hmore⟩ := hok slot hslot
  have hbacking := hreloaded.effect.vault.backing
  have hcompared := hreloaded.effect.vault.storage slot.storage
  by_cases hdone : ∃ r ∈ w.registrations (Ascending.ofList names) (w.tree root).scopes,
      r.entry.storage = slot.storage
  · obtain ⟨r, hr, hstorage⟩ := hdone
    obtain ⟨hloads, hread⟩ := hreloaded.read r hr
    rw [hstorage] at hloads hread
    exact Vault.changed_of_reread hbacking hloads hread _
  · -- A name that differs would have been found, and its storage loaded.
    have hnothing : more = [] := by
      refine List.eq_nil_iff_forall_not_mem.mpr fun n hn => hdone ?_
      obtain ⟨id, hid, hlayout, _⟩ := affected_startSave_iff.mp hslot
      obtain ⟨s, hs, ⟨l, u, k⟩, _, rfl⟩ := mem_layout_iff.mp hlayout
      obtain ⟨e, he, hek⟩ := (mem_slotAt_iff hkept hs).mp ((Vault.mem_changed_iff hmore).mp hn).1
      have hfound : n ∈ names := (hnames n).mpr (Or.inr ⟨_, more, hslot, hmore, hn⟩)
      refine ⟨⟨id, n, e⟩, mem_registrations_iff.mpr ⟨hid, ?_, s, hs, he⟩, hek⟩
      exact (Ascending.mem_union [] names n).mpr (Or.inr hfound)
    subst hnothing
    rcases hcompared with hsame | hread
    · rw [compared_congr hbacking hsame]
      exact hmore
    · by_cases hloads : w.vault.loads slot.storage = true
      · exact Vault.changed_of_reread hbacking hloads hread _
      · rw [compared_congr hbacking (hread.trans (Vault.reread_of_not_loads hloads))]
        exact hmore

/-! ## 5. Reconciling -/

/-- A component that a scope of `w` has registered under a name holds in `w'` what
is stored for it on disk, references turned into paths, or its default if nothing
is. -/
def HoldsStored (w w' : Workspace β δ) (id : ScopeId) (n : String) (c : ComponentId) : Prop :=
  ∃ s e st content d, w.scope? id = some s ∧ get? s.components n = some e ∧ e.component = c ∧
    w.vault.storage? e.storage = some st ∧ Backing.read w.vault.backing st.unit = .ok content ∧
    Document.ofContent st.unit content = .ok d ∧
    ∀ x, w.vault.component? c = some x → ∃ x', w'.vault.component? c = some x' ∧
      x'.value = (((get? d n).map fun v => (Substitutor.expandWith s.substitutor v).1) <|> x.default?)

omit [DecidableEq δ] in
/-- What is shown for a registration is what is stored for it on disk. -/
theorem holdsStored_of_shown (hkept : w.Kept) {done : List Registration}
    (hreloaded : w.Reloaded w' done) {r : Registration} {s : Scope} (hr : r ∈ done)
    (hs : w.scope? r.scope = some s) (he : get? s.components r.name = some r.entry)
    (hshown : ∀ x, w.vault.component? r.entry.component = some x →
      ∃ x', w'.vault.component? r.entry.component = some x' ∧
        x'.value = (w.shown r <|> x.default?)) :
    w.HoldsStored w' r.scope r.name r.entry.component := by
  obtain ⟨l, u, hk⟩ := (hkept.scope hs).mapped r.name r.entry he
  obtain ⟨st, hst, _⟩ := (hkept.scope hs).exists_storage hk
  obtain ⟨content, d, hread, hdocument, hd⟩ := Vault.read_of_loads hst (hreloaded.read r hr).1
  refine ⟨s, r.entry, st, content, d, hs, he, rfl, hst, hread, hdocument, fun x hx => ?_⟩
  obtain ⟨x', hx', hvalue⟩ := hshown x hx
  refine ⟨x', hx', hvalue.trans ?_⟩
  rw [shown, hst, Option.map_some, Option.bind_some, Storage.state?, hd, hs, Option.bind_some]

/-- **Reconciling converges.** An analysis has named what was changed in the units
of a tree, and a reload of these names goes well. Then the next analysis of the
same changes finds nothing; and every component that some scope of the tree has
registered under one of the names holds what is now stored for it on disk, or its
default. One that is registered several times holds what is stored for one of its
registrations. -/
theorem reconcile_converges (hw : w.Reachable Action.Any)
    (hanalysis : ((w.startSave root).analyze changes w.vault).1 = .reloadable names)
    (hok : (w.reinit root names true).1 = .ok ()) :
    let w' := (w.reinit root names true).2
    ((w'.startSave root).analyze changes w'.vault).1 = .reloadable [] ∧
      ∀ id ∈ (w.tree root).scopes, ∀ n ∈ names, ∀ c, w.Registers id n c →
        (∃ id' ∈ (w.tree root).scopes, ∃ n' ∈ names, w.HoldsStored w' id' n' c) ∧
          ((∀ id' ∈ (w.tree root).scopes, ∀ n' ∈ names, w.Registers id' n' c →
            id' = id ∧ n' = n) → w.HoldsStored w' id n c) := by
  intro w'
  have hkept := hw.kept
  have hreloaded := reloaded_of_reinit hok
  have hnames := Ascending.mem_ofList names
  refine ⟨?_, ?_⟩
  · have htree := tree_of_outline hreloaded.effect.outline root
    have hjudges := (SessionTree.analyze_judges changes (w'.startSave root) w'.vault).2
    -- The new session captures what the old one did, and finds all of it unchanged.
    have hcompared : ∀ slot, SessionTree.Affected changes (w'.startSave root).parts slot →
        w'.vault.compared slot = .ok [] := by
      intro slot hslot
      refine compared_after_reload hkept hanalysis hreloaded ?_
      obtain ⟨id, hid, hlayout, haffects⟩ := affected_startSave_iff.mp hslot
      rw [htree] at hid
      rw [layout_of_outline hreloaded.effect.outline hreloaded.effect.vault.unit] at hlayout
      exact affected_startSave_iff.mpr ⟨id, hid, hlayout, haffects⟩
    have hsame : ∀ slot more, SessionTree.Affected changes (w'.startSave root).parts slot →
        w'.vault.compared slot = .ok more → more = [] := by
      intro slot more hslot hmore
      exact (Except.ok.inj ((hcompared slot hslot).symm.trans hmore)).symm
    rcases hjudges.unchanged hsame with ⟨hverdict, _⟩ | ⟨_, slot, e, hslot, he⟩
    · exact hverdict
    · rw [hcompared slot hslot] at he
      cases he
  · rintro id hid n hn c ⟨s, e, hs, he, rfl⟩
    have hr : (⟨id, n, e⟩ : Registration)
        ∈ w.registrations (Ascending.ofList names) (w.tree root).scopes :=
      mem_registrations_iff.mpr ⟨hid, (hnames n).mpr hn, s, hs, he⟩
    -- One of the registrations has had the last word.
    have hlast : ∃ r ∈ w.registrations (Ascending.ofList names) (w.tree root).scopes,
        r.entry.component = e.component ∧ ∀ x, w.vault.component? e.component = some x →
          ∃ x', w'.vault.component? e.component = some x' ∧
            x'.value = (w.shown r <|> x.default?) := by
      cases hx : w.vault.component? e.component with
      | none => exact ⟨_, hr, rfl, fun x hx' => by cases hx'⟩
      | some x =>
        have hdefault := hreloaded.default e.component
        rw [hx, Option.map_some] at hdefault
        obtain ⟨x', hx', hdefault'⟩ := Option.map_eq_some_iff.mp hdefault
        obtain ⟨r, hr', hcomponent, hvalue⟩ := hreloaded.holds _ hr x' hx'
        rw [hdefault'] at hvalue
        refine ⟨r, hr', hcomponent, fun y hy => ⟨x', hx', ?_⟩⟩
        rw [← Option.some.inj hy]
        exact hvalue
    obtain ⟨r, hr', hcomponent, hshown⟩ := hlast
    obtain ⟨hid', hn', s', hs', he'⟩ := mem_registrations_iff.mp hr'
    have hholds := holdsStored_of_shown hkept hreloaded hr' hs' he' (by rwa [hcomponent])
    rw [hcomponent] at hholds
    refine ⟨⟨r.scope, hid', r.name, (hnames _).mp hn', hholds⟩, fun hsole => ?_⟩
    obtain ⟨hscope, hname⟩ := hsole r.scope hid' r.name ((hnames _).mp hn')
      ⟨s', r.entry, hs', he', hcomponent⟩
    rw [hscope, hname] at hholds
    exact hholds

end Analysing

/-- A scope and one below it have a component each in one unit. That of the scope
below is edited and not saved, and then somebody else takes its entry away. -/
def entryTaken : Workspace Memory Bytes :=
  (start {}).run
    [.disturb fun m => m.putExternal ⟨"/u.json"⟩
        (Document.serialize [("a", .integer 1), ("b", .integer 1)]),
      .addScope "root" none 0, .addScope "m" none 0, .attach 0, .list 0 1,
      .addComponent { name := "a" }, .addComponent { name := "b", default? := some (.integer 7) },
      .register 0 0 "a" "/u.json", .register 1 1 "b" "/u.json",
      .edit 1 fun c => c.set (.integer 5),
      .disturb fun m => m.putExternal ⟨"/u.json"⟩ (Document.serialize [("a", .integer 1)])]

/-- What is noticed of it. -/
def unitChanged : ChangeSet := ChangeSet.ofList [⟨⟨"/u.json"⟩, none⟩]

/-- Only the component below was changed. It gets its default, and after that
nothing differs. -/
theorem entryTaken_reconciled :
    let w' := (entryTaken.reinit 0 ["b"] true).2
    ((entryTaken.startSave 0).analyze unitChanged entryTaken.vault).1 = .reloadable ["b"] ∧
      ((w'.startSave 0).analyze unitChanged w'.vault).1 = .reloadable [] ∧
      entryTaken.HoldsStored w' 1 "b" 1 ∧
      Json.sameOption ((w'.vault.component? 1).bind Component.value) (some (.integer 7)) = true := by
  intro w'
  have hw : entryTaken.Reachable Action.Any :=
    ⟨{}, steps_run (fun _ _ => trivial) (by decide +kernel)⟩
  have hanalysis : ((entryTaken.startSave 0).analyze unitChanged entryTaken.vault).1
      = .reloadable ["b"] := by decide +kernel
  obtain ⟨hnothing, hholds⟩ := reconcile_converges hw hanalysis (by decide +kernel)
  have hregisters : entryTaken.Registers 1 "b" 1 := registers_of_entry (by decide +kernel)
  refine ⟨hanalysis, hnothing, (hholds 1 (by decide +kernel) "b" (by decide) 1 hregisters).2 ?_,
    by decide +kernel⟩
  -- No other scope has the component.
  rintro id hid n hn ⟨s, e, hs, he, hc⟩
  obtain rfl := List.mem_singleton.mp hn
  have hothers : ∀ id ∈ (entryTaken.tree 0).scopes,
      ((entryTaken.scope? id).bind fun s => get? s.components "b").all
        (fun e => e.component = 1 → id = 1) := by decide +kernel
  have hother := hothers id hid
  rw [hs, Option.bind_some, he, Option.all_some] at hother
  exact ⟨of_decide_eq_true hother hc, rfl⟩

end Workspace

end ScopedState
