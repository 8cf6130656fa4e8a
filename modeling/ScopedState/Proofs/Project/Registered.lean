/-
`Proofs/Project/Registered.lean` -- registering the components of storage files.

While a project is being opened, components are registered one by one, each under
a name that a storage file has an entry for. The workspace that comes of it is sound
(`Sound`): every scope is in use, so every storage stays in use and is never read a
second time; a storage stands for one file of one scope and remembers what the file
held; and every entry of a scope is for a file of that scope which has its name.

A sound workspace stays so when one more component is registered. Registering fails
if the scope has the name, and can only fail otherwise if the file cannot be read,
which depends on the disk alone. That is what lets the same argument serve twice:
what an opening that succeeded tells about the files, and that an opening succeeds
when the files are in order.
-/
import ScopedState.Proofs.Project.Places
import ScopedState.Proofs.Storage.Names
import ScopedState.Proofs.Workspace.Entered
import ScopedState.Proofs.Workspace.Save
set_option autoImplicit false

namespace ScopedState

open Bindings (get? keys)
open Disk (FileName Spells Lies names)
open Document (entryDepth)

/-! ## 1. What a file has entries for -/

/-- A result as an option. -/
theorem toOption_eq_some_iff {ε α : Type} {x : Except ε α} {a : α} :
    x.toOption = some a ↔ x = .ok a := by
  cases x with
  | error e => exact ⟨nofun, nofun⟩
  | ok b => exact ⟨fun h => congrArg _ (Option.some.inj h), fun h => congrArg _ (Except.ok.inj h)⟩

namespace Disk

/-- The document of the file at a place. -/
def document? (d : Disk) (place : Place) : Option Document :=
  (d.contentAt place).bind fun bytes => (Document.parse ⟨""⟩ bytes).toOption

/-- The names that the file at a place has entries for. -/
def namesAt (d : Disk) (place : Place) : List String := (d.document? place).elim [] keys

/-- A place with no file, or with one that can be parsed. -/
def Legible (d : Disk) (place : Place) : Prop :=
  (d.contentAt place).isSome = true → (d.document? place).isSome = true

variable {d : Disk} {place : Place} {bytes : Bytes} {doc : Document} {unit : Path} {n : String}

theorem document?_eq_some_iff (hcontent : d.contentAt place = some bytes) (unit : Path) :
    d.document? place = some doc ↔ Document.parse unit bytes = .ok doc := by
  rw [document?, hcontent, Option.bind_some, toOption_eq_some_iff]
  exact ⟨fun h => Document.parse_congr h unit, fun h => Document.parse_congr h ⟨""⟩⟩

/-- A file with a document has content. -/
theorem content_of_document (h : (d.document? place).isSome = true) :
    (d.contentAt place).isSome = true := by
  unfold document? at h
  cases hcontent : d.contentAt place with
  | none =>
    rw [hcontent] at h
    cases h
  | some bytes => rfl

/-- A file with names has a document. -/
theorem document_of_names (h : n ∈ d.namesAt place) :
    (d.document? place).isSome = true := by
  unfold namesAt at h
  cases hdoc : d.document? place with
  | none =>
    rw [hdoc] at h
    cases h
  | some doc => rfl

/-- **What a snapshot of the file at a place remembers.** -/
theorem names_of_snapshot {δ : Type} [Digest δ] {s : Snapshot δ}
    (h : Snapshot.ofContent unit (d.contentAt place) = .ok s) :
    keys s.document = d.namesAt place ∧ s.document.Regular ∧ s.document.Shallow := by
  cases hcontent : d.contentAt place with
  | none =>
    rw [hcontent] at h
    rw [← Except.ok.inj h, namesAt, document?, hcontent]
    refine ⟨rfl, ?_, ?_⟩
    · intro n v hv
      cases hv
    · intro n v hv
      cases hv
  | some bytes =>
    rw [hcontent, Snapshot.ofContent] at h
    cases hparse : Document.parse unit bytes with
    | error e =>
      simp only [hparse] at h
      cases h
    | ok doc =>
      simp only [hparse] at h
      rw [← Except.ok.inj h, namesAt, (document?_eq_some_iff hcontent unit).mpr hparse]
      exact ⟨rfl, Document.within_of_parse hparse⟩

end Disk

section Reading

variable {δ : Type} [Digest δ] {d : Disk} {parent : Place} {f : String}
  {unit : Path} {v : Vault LocalFiles δ}

/-- Reading a unit gives a snapshot of the file that its path spells. -/
theorem Disk.Spells.snapshot (h : d.Spells unit parent f) (hd : d.Tree)
    (hv : v.backing.disk = d) {s : Snapshot δ} (hread : v.readSnapshot unit = .ok s) :
    Snapshot.ofContent unit (d.contentAt (parent ++ [f])) = .ok s := by
  obtain ⟨content, hcontent, hparsed⟩ := Vault.readSnapshot_eq_ok_iff.mp hread
  have hext : d.Extends v.backing.disk := hv ▸ Disk.Extends.refl d
  rw [h.content_of_read hext (hv ▸ hd) hcontent, hv] at hparsed
  exact hparsed

/-- A unit whose file is legible can be read. -/
theorem Disk.Spells.readSnapshot_isOk (h : d.Spells unit parent f) (hd : d.Tree)
    (hv : v.backing.disk = d) (hthere : (d.document? (parent ++ [f])).isSome = true) :
    ∃ s : Snapshot δ, v.readSnapshot unit = .ok s := by
  obtain ⟨doc, hdoc⟩ := Option.isSome_iff_exists.mp hthere
  cases hcontent : d.contentAt (parent ++ [f]) with
  | none =>
    rw [Disk.document?, hcontent] at hdoc
    cases hdoc
  | some bytes =>
    have hext : d.Extends v.backing.disk := hv ▸ Disk.Extends.refl d
    have hread : Backing.read v.backing unit = .ok (some bytes) :=
      h.read_unit hext (hv ▸ hd) (hv ▸ hcontent)
    rw [Vault.readSnapshot, hread]
    simp only [Snapshot.ofContent, (Disk.document?_eq_some_iff hcontent unit).mp hdoc]
    exact ⟨_, rfl⟩

end Reading

/-! ## 2. Sound workspaces -/

section Places

variable {d : Disk} {dir dir' : Path} {f g : String}

/-- The place of a storage file. -/
def Disk.filePlace (d : Disk) (dir : Path) (f : String) : Place := d.statePlace dir ++ [f]

/-- **Units of one location are one file.** -/
theorem filePlace_of_location (hdir : dir.isAbsolute = true) (hdir' : dir'.isAbsolute = true)
    (hf : FileName f) (hg : FileName g)
    (h : (unitPath dir f).location = (unitPath dir' g).location) :
    d.filePlace dir f = d.filePlace dir' g := by
  obtain ⟨hnames, rfl⟩ := (names_of_unitPath hdir hdir' hf hg).mp h
  rw [Disk.filePlace, Disk.filePlace, Disk.statePlace, Disk.statePlace, Disk.placeOf_congr d hnames]

end Places

variable {δ : Type} [Digest δ]

/-- **A storage stands for a file** of a directory: it has been read from the file, and
the name of the file is one that was found there or does not refer to a variable. -/
structure Storage.StandsFor (d : Disk) (dir : Path) (f : String) (st : Storage δ) : Prop where
  lies : d.Lies dir
  name : StorageName f
  unit : st.unit = unitPath dir f
  content : Snapshot.ofContent st.unit (d.contentAt (d.filePlace dir f)) = .ok st.snapshot
  known : (d.contentAt (d.filePlace dir f)).isSome = true ∨ '$' ∉ f.toList

/-- **A workspace with the scopes of some directories**, all of them in use. Entries
that are `fresh` need not be in their files yet. -/
structure Sound (d : Disk) (projectDir : Path) (dirs : List Path)
    (fresh : ScopeId → String → Prop) (w : Workspace LocalFiles δ) : Prop where
  kept : w.Kept
  closed : w.Closed
  disk : w.vault.backing.disk = d
  pools : w.pools.length = 1
  frames : w.scopes.map (fun s => (s.substitutor.map Substitutor.table, s.pool))
    = dirs.map fun dir => (some (scopeTable projectDir dir), 0)
  held : ∀ id < dirs.length, id ∈ w.held
  live : ∀ id < dirs.length, id ∈ w.live
  pooled : ∀ k st, w.vault.storage? k = some st → get? (w.pool 0) st.unit.location = some k
  mapped : ∀ k st, w.vault.storage? k = some st → ∃ id, w.mapped? id st.unit.location = some k
  source : ∀ k st, w.vault.storage? k = some st → ∃ dir ∈ dirs, ∃ f, st.StandsFor d dir f
  entry : ∀ id n e, w.entryOf? id n = some e → ∃ dir f, dirs[id]? = some dir ∧ d.Lies dir ∧
    StorageName f ∧ w.vault.location? e.storage = some (unitPath dir f).location ∧
    (fresh id n ∨ n ∈ d.namesAt (d.filePlace dir f))
  value : ∀ id n e, w.entryOf? id n = some e → ∃ c, w.vault.component? e.component = some c ∧
    (fresh id n ∨ ∃ v, c.value = some v ∧ v.Within entryDepth)

namespace Sound

variable {d : Disk} {projectDir : Path} {dirs : List Path} {fresh : ScopeId → String → Prop}
  {w w' : Workspace LocalFiles δ} {id : ScopeId} {dir : Path} {f n : String}

theorem length (h : Sound d projectDir dirs fresh w) : w.scopes.length = dirs.length := by
  have hlength := congrArg List.length h.frames
  rwa [List.length_map, List.length_map] at hlength

/-- The scope of a directory has the variables of the directory, and draws from the
pool of the project. -/
theorem scope (h : Sound d projectDir dirs fresh w) (hdir : dirs[id]? = some dir) :
    ∃ s sub, w.scope? id = some s ∧ s.substitutor = some sub ∧
      sub.table = scopeTable projectDir dir ∧ s.pool = 0 := by
  have hframe := congrArg (fun l => l[id]?) h.frames
  simp only [List.getElem?_map, hdir, Option.map_some] at hframe
  obtain ⟨s, hs, hframe⟩ := Option.map_eq_some_iff.mp hframe
  obtain ⟨sub, hsub, htable⟩ := Option.map_eq_some_iff.mp (congrArg Prod.fst hframe)
  exact ⟨s, sub, hs, hsub, htable, congrArg Prod.snd hframe⟩

/-- Every storage is in use. -/
theorem inUse (h : Sound d projectDir dirs fresh w) {k : StorageId} {st : Storage δ}
    (hst : w.vault.storage? k = some st) : w.inUse k = true := by
  obtain ⟨id, hmapped⟩ := h.mapped k st hst
  obtain ⟨s, hs, hmapped⟩ := Option.bind_eq_some_iff.mp hmapped
  obtain ⟨⟨u, _⟩, hentry, rfl⟩ := Option.map_eq_some_iff.mp hmapped
  have hlt : id < w.scopes.length := (List.getElem?_eq_some_iff.mp hs).1
  exact (Workspace.inUse_iff w _).mpr (Or.inl ⟨id, h.live id (h.length ▸ hlt), s, hs, _, u,
    Bindings.mem_of_get? hentry⟩)

/-- **One location, one storage.** -/
theorem storage_eq (h : Sound d projectDir dirs fresh w) {k k' : StorageId} {st st' : Storage δ}
    (hst : w.vault.storage? k = some st) (hst' : w.vault.storage? k' = some st')
    (hlocation : st.unit.location = st'.unit.location) : k = k' := by
  have hk := h.pooled k st hst
  rw [hlocation, h.pooled k' st' hst'] at hk
  exact (Option.some.inj hk).symm

theorem apart (h : Sound d projectDir dirs fresh w) : w.Apart := by
  intro k k' l _ _ hk hk'
  obtain ⟨u, hu, rfl⟩ := Option.map_eq_some_iff.mp hk
  obtain ⟨u', hu', hlocation⟩ := Option.map_eq_some_iff.mp hk'
  obtain ⟨st, hst, rfl⟩ := Option.map_eq_some_iff.mp hu
  obtain ⟨st', hst', rfl⟩ := Option.map_eq_some_iff.mp hu'
  exact h.storage_eq hst hst' hlocation.symm

/-- A component that nothing refers to may be added. -/
theorem addComponent (h : Sound d projectDir dirs fresh w) (c : Component) :
    Sound d projectDir dirs fresh { w with vault := (w.vault.addComponent c).2 } := by
  refine { h with
    kept := h.kept.withVault (Vault.Keeps.of_eq rfl)
    closed := h.closed.of_outline rfl
    value := fun id n e he => ?_ }
  obtain ⟨x, hx, hvalue⟩ := h.value id n e he
  exact ⟨x, (List.getElem?_append_left (List.getElem?_eq_some_iff.mp hx).1).trans hx, hvalue⟩

section Entering

variable {e : Entry} {template : String}

/-- The storage of the new component stands for the file, and the others stand for
theirs. -/
theorem pooled_of_entered (h : Sound d projectDir dirs fresh w) (hd : d.Tree)
    (hdir : dirs[id]? = some dir) (hlies : d.Lies dir) (hf : StorageName f)
    (hknown : (d.contentAt (d.filePlace dir f)).isSome = true ∨ '$' ∉ f.toList)
    (hentered : Workspace.Entered w w' id (scopeTable projectDir dir) 0 n e (unitPath dir f)
      template) {k : StorageId} {st : Storage δ} (hst : w'.vault.storage? k = some st) :
    get? (w'.pool 0) st.unit.location = some k ∧
      (∃ j, w'.mapped? j st.unit.location = some k) ∧ ∃ dir ∈ dirs, ∃ f, st.StandsFor d dir f := by
  cases hentered.storage with
  | known storages pools found =>
    rw [Vault.storage?, storages] at hst
    have hpooled := h.pooled k st hst
    have hpool : w'.pool 0 = w.pool 0 := by rw [Workspace.pool, Workspace.pool, pools]
    refine ⟨hpool ▸ hpooled, ?_, h.source k st hst⟩
    obtain ⟨j, hj⟩ := h.mapped k st hst
    refine ⟨j, ?_⟩
    rw [hentered.mapped]
    split
    · rename_i hat
      rw [hat.1, hat.2] at hj
      rw [hat.2] at hpooled
      rcases found with found | found
      · exact found.symm.trans hj
      · exact found.symm.trans hpooled
    · exact hj
  | loaded snapshot read number storages unused pools =>
    have hpool : w'.pool 0 = Bindings.insert (w.pool 0) (unitPath dir f).location e.storage := by
      have hlt : 0 < w.pools.length := h.pools ▸ Nat.one_pos
      rw [Workspace.pool, pools, List.getD_eq_getElem?_getD, List.getElem?_set_self hlt]
      rfl
    rw [hpool, Bindings.get?_insert]
    rw [Vault.storage?, storages] at hst
    rcases Nat.lt_or_ge k w.vault.storages.length with hk | hk
    · rw [List.getElem?_append_left hk] at hst
      have hpooled := h.pooled k st hst
      -- A storage of the unit would have been found, as it is in use.
      have hne : st.unit.location ≠ (unitPath dir f).location := by
        intro heq
        rw [Pool.find?, ← heq, hpooled] at unused
        simp only [h.inUse hst, if_true] at unused
        cases unused
      refine ⟨(if_neg hne).trans hpooled, ?_, h.source k st hst⟩
      obtain ⟨j, hj⟩ := h.mapped k st hst
      exact ⟨j, ((hentered.mapped j _).trans (if_neg fun hat => hne hat.2)).trans hj⟩
    · rw [List.getElem?_append_right hk, List.getElem?_singleton] at hst
      split at hst
      case isFalse => cases hst
      rename_i hzero
      obtain rfl := Option.some.inj hst
      have hk : k = e.storage :=
        (Nat.le_antisymm (Nat.le_of_sub_eq_zero hzero) hk).trans number.symm
      refine ⟨(if_pos rfl).trans (congrArg some hk.symm), ⟨id, ?_⟩, dir,
        List.mem_of_getElem? hdir, f, hlies, hf, rfl, ?_, hknown⟩
      · rw [hentered.mapped, if_pos ⟨rfl, rfl⟩, hk]
      · exact (hlies.unit hf.1).snapshot hd h.disk read

/-- **Registering a component keeps the workspace sound.** -/
theorem entered (h : Sound d projectDir dirs fresh w) (hd : d.Tree)
    (hdir : dirs[id]? = some dir) (hlies : d.Lies dir) (hf : StorageName f)
    (hknown : (d.contentAt (d.filePlace dir f)).isSome = true ∨ '$' ∉ f.toList)
    (hentered : Workspace.Entered w w' id (scopeTable projectDir dir) 0 n e (unitPath dir f)
      template) (hkept : w'.Kept) (hclosed : w'.Closed)
    (hcomponent : ∃ c, w.vault.component? e.component = some c ∧ c.default? = none)
    (hapart : ∀ j m e', w.entryOf? j m = some e' → e'.component ≠ e.component)
    (hnamed : fresh id n ∨ n ∈ d.namesAt (d.filePlace dir f)) :
    Sound d projectDir dirs fresh w' := by
  have hstorage := fun k (st : Storage δ) (hst : w'.vault.storage? k = some st) =>
    h.pooled_of_entered hd hdir hlies hf hknown hentered hst
  have hlocation := hentered.location? hkept
  refine
    { kept := hkept
      closed := hclosed
      disk := (congrArg LocalFiles.disk hentered.framed.backing).trans h.disk
      pools := hentered.framed.pools.trans h.pools
      frames := ?_
      held := fun j hj => hentered.framed.held ▸ h.held j hj
      live := fun j hj => hentered.framed.live ▸ h.live j hj
      pooled := fun k st hst => (hstorage k st hst).1
      mapped := fun k st hst => (hstorage k st hst).2.1
      source := fun k st hst => (hstorage k st hst).2.2
      entry := fun j m x hx => ?_
      value := fun j m x hx => ?_ }
  · have hframes := congrArg (List.map fun f => (f.2.1, f.2.2.1)) hentered.framed.scopes
    rw [List.map_map, List.map_map] at hframes
    exact hframes.trans h.frames
  · rw [hentered.entry] at hx
    split at hx
    · rename_i hat
      obtain rfl := Option.some.inj hx
      rw [hat.1, hat.2]
      exact ⟨dir, f, hdir, hlies, hf, hlocation, hnamed⟩
    · obtain ⟨dir', f', hdir', hlies', hf', hl, hnamed'⟩ := h.entry j m x hx
      exact ⟨dir', f', hdir', hlies', hf', hentered.storage.location? hl, hnamed'⟩
  · rw [hentered.entry] at hx
    rw [hentered.component]
    split at hx
    · rename_i hat
      obtain rfl := Option.some.inj hx
      obtain ⟨c, hc, hdefault⟩ := hcomponent
      rw [if_pos rfl, hc, hat.1, hat.2]
      refine ⟨_, rfl, hnamed.imp_right fun hin => ?_⟩
      obtain ⟨u, hu, hul⟩ := Option.map_eq_some_iff.mp hlocation
      obtain ⟨st, hst, rfl⟩ := Option.map_eq_some_iff.mp hu
      obtain ⟨_, _, dir', _, f', hfile⟩ := hstorage _ st hst
      -- The storage remembers what the file has under the name.
      rw [filePlace_of_location hlies.absolute hfile.lies.absolute hf.1 hfile.name.1
        (hfile.unit ▸ hul.symm)] at hin
      obtain ⟨hnames, hregular, hshallow⟩ := Disk.names_of_snapshot hfile.content
      rw [← hnames, Bindings.mem_keys_iff] at hin
      obtain ⟨v, hv⟩ := Option.isSome_iff_exists.mp hin
      refine ⟨(scopeTable projectDir dir).expandValue v, ?_,
        Json.Within.mapStrings ⟨hregular n v hv, hshallow n v hv⟩ _⟩
      rw [hst, Option.bind_some, Storage.state?, hv]
      rfl
    · rw [if_neg (hapart j m x hx)]
      exact h.value j m x hx

/-- The directory of a unit that a storage was found or loaded for has no zero
character in it: the system takes no such path, and neither does another path of the
same location. -/
theorem clean_of_provided (h : Sound d projectDir dirs fresh w) (habsolute : dir.isAbsolute = true)
    (hf : FileName f) {k : StorageId}
    (hprovided : Workspace.Provided w w' id 0 (unitPath dir f) template k) :
    '\x00' ∉ dir.text.toList := by
  intro hzero
  cases hprovided with
  | known storages pools found =>
    have hlocation : w.vault.location? k = some (unitPath dir f).location := by
      rcases found with found | found
      · obtain ⟨s, hs, hmapped⟩ := Option.bind_eq_some_iff.mp found
        obtain ⟨⟨u, j⟩, hentry, rfl⟩ := Option.map_eq_some_iff.mp hmapped
        exact (h.kept.scope hs).located _ u _ hentry
      · exact h.kept.pool 0 _ k found
    obtain ⟨u, hu, hul⟩ := Option.map_eq_some_iff.mp hlocation
    obtain ⟨st, hst, rfl⟩ := Option.map_eq_some_iff.mp hu
    obtain ⟨dir', _, f', hfile⟩ := h.source k st hst
    rw [hfile.unit] at hul
    have hnames := ((names_of_unitPath hfile.lies.absolute habsolute hfile.name.1 hf).mp hul).1
    exact hfile.lies.clean (Disk.mem_text_of_names (by decide) (by decide) hnames.symm hzero)
  | loaded snapshot read number storages unused pools =>
    have htrimmed : '\x00' ∈ dir.trimmed.toList := by
      have hnames : names dir = names ⟨dir.trimmed⟩ := by rw [names, names, Disk.steps_trimmed]
      exact Disk.mem_text_of_names (by decide) (by decide) hnames hzero
    have hcheck : Disk.check (unitPath dir f) = .error .zeroInPath := by
      rw [Disk.check, unitPath_toList, if_pos]
      simpa using Or.inl htrimmed
    have hrefused : Backing.read w.vault.backing (unitPath dir f)
        = .error (.backing (unitPath dir f) ("read failed: " ++ OsError.zeroInPath.message)) := by
      show LocalFiles.read _ _ = _
      rw [LocalFiles.read, Disk.read, Disk.stat, Disk.locate, hcheck]
      rfl
    rw [Vault.readSnapshot, hrefused] at read
    cases read

end Entering

/-! ## 3. One component -/

section Registering

variable [DecidableEq δ] {settings : Settings} {s : ProjectScope}

/-- The component is added first, and then registered. -/
theorem register_eq (w : Workspace LocalFiles δ) (s : ProjectScope) (n template : String) :
    Project.register w s n template
      = match ({ w with vault := (w.vault.addComponent { name := n }).2 }).addComponent s.scope
          w.vault.components.length n template with
        | (.error e, space) => (.error e, space)
        | (.ok _, space) => (.ok (w.vault.components.length,
            { s with components := Bindings.insert s.components n w.vault.components.length }),
              space) := rfl

/-- A name that the scope has is refused. -/
theorem register_of_bound (h : Sound d projectDir dirs fresh w) (hdir : dirs[s.scope]? = some dir)
    (hbound : (w.entryOf? s.scope n).isSome = true) (template : String) :
    ∃ e w', Project.register w s n template = (.error e, w') := by
  obtain ⟨t, sub, ht, _, _, _⟩ := h.scope hdir
  rw [Workspace.entryOf?, ht, Option.bind_some] at hbound
  have hrefused := Workspace.addComponent_of_bound
    (w := { w with vault := (w.vault.addComponent { name := n }).2 }) ht w.vault.components.length
    hbound template
  rw [register_eq, hrefused]
  exact ⟨_, _, rfl⟩

/-- **Registering a new component.** -/
theorem register_of_new (h : Sound d projectDir dirs fresh w) (hd : d.Tree)
    (hsettings : settings.Standard) (hdir : dirs[s.scope]? = some dir) (hstands : d.Stands dir)
    (hf : StorageName f) (hplain : (scopeTable projectDir dir).expand f = f)
    (hknown : (d.contentAt (d.filePlace dir f)).isSome = true ∨ '$' ∉ f.toList)
    (hnew : w.entryOf? s.scope n = none)
    (hnamed : fresh s.scope n ∨ n ∈ d.namesAt (d.filePlace dir f)) :
    (∃ c w', Project.register w s n (Project.template settings f)
          = (.ok (c, { s with components := Bindings.insert s.components n c }), w') ∧
        Sound d projectDir dirs fresh w' ∧ Workspace.Framed w w' ∧ d.Lies dir ∧
        ∃ k, ∀ j m, w'.entryOf? j m
          = if j = s.scope ∧ m = n then some ⟨c, k⟩ else w.entryOf? j m) ∨
      ((∃ e w', Project.register w s n (Project.template settings f) = (.error e, w')) ∧
        (d.Lies dir → d.document? (d.filePlace dir f) = none)) := by
  obtain ⟨t, sub, ht, hsub, htable, hpool⟩ := h.scope hdir
  have hadded := h.addComponent { name := n }
  have hfree : get? t.components n = none := by
    rw [Workspace.entryOf?, ht] at hnew
    exact hnew
  have hspec := Workspace.addComponent_spec
    (w := { w with vault := (w.vault.addComponent { name := n }).2 }) ht hsub
    w.vault.components.length hfree (Project.template settings f)
  have hunit : (⟨sub.table.expand (Project.template settings f)⟩ : Path) = unitPath dir f := by
    rw [htable, expand_template hsettings, hplain]
  rw [hunit] at hspec
  rw [register_eq]
  generalize hadd : ({ w with vault := (w.vault.addComponent { name := n }).2 } :
    Workspace LocalFiles δ).addComponent s.scope w.vault.components.length n
      (Project.template settings f) = out at hspec ⊢
  obtain ⟨outcome, w'⟩ := out
  rcases hspec with ⟨hok, k, hentered⟩ | ⟨⟨e, herror⟩, hunread⟩
  · obtain rfl : outcome = .ok (unitPath dir f) := hok
    rw [hpool, htable] at hentered
    have hlies : d.Lies dir := ⟨hstands,
      hadded.clean_of_provided hstands.absolute hf.1 hentered.storage⟩
    have hnext : _ = w' := congrArg Prod.snd hadd
    have hstart : Workspace.Framed w { w with vault := (w.vault.addComponent { name := n }).2 } :=
      ⟨rfl, rfl, rfl, rfl, rfl, rfl, rfl, rfl⟩
    refine Or.inl ⟨_, w', rfl, ?_, ?_, hlies, k, hentered.entry⟩
    · refine hadded.entered hd hdir hlies hf hknown hentered ?_ ?_ ?_ ?_ hnamed
      · rw [← hnext]
        exact (hadded.kept.addComponent _ _ _ _).1
      · rw [← hnext]
        exact hadded.closed.addComponent _ _ _ _
      · refine ⟨{ name := n }, ?_, rfl⟩
        exact List.getElem?_concat_length
      · intro j m e' he'
        obtain ⟨c, hc, _⟩ := h.value j m e' he'
        exact Nat.ne_of_lt (List.getElem?_eq_some_iff.mp hc).1
    · exact hstart.trans hentered.framed
  · obtain rfl : outcome = .error e := herror
    refine Or.inr ⟨⟨e, w', rfl⟩, fun hlies => ?_⟩
    cases hdoc : d.document? (d.filePlace dir f) with
    | none => rfl
    | some doc =>
      obtain ⟨snapshot, hread⟩ := (hlies.unit hf.1).readSnapshot_isOk (δ := δ) hd hadded.disk
        (by rw [← Disk.filePlace, hdoc]; rfl)
      exact absurd hread (hunread snapshot)

end Registering

end Sound

end ScopedState
