/-
`Proofs/Project/Addressed.lean` -- the scopes of a project by name.

A scope is asked for by its name, and the first record of the name is the one that is
found. The records stand in the order of the manifest, that of the project before those
of its modules. A manifest is refused if two modules have one name, so a module is found
by its name unless the project has the same one (`Project.scopes_addressed`): the two are
not compared, and then the name is that of the project.

A component that is set is therefore one of the module whenever the names differ. Its
unit is below the directory of the module, by the template that it has been named by, and
what the save leaves there and elsewhere is what it leaves after any edit of one component.
That holds for every disk and all configurations; what can get in the way are units that a
save writes anew although nobody has set anything in them.
-/
import ScopedState.Proofs.Project.Edited
import ScopedState.Proofs.Project.Request
set_option autoImplicit false

namespace ScopedState

open Bindings (get?)

/-! ## 1. The names of a manifest -/

namespace Manifest

/-- **Modules that nothing is wrong with** have names of their own, which those before them
do not have either. -/
theorem names_of_modulesFault? {before modules : List ModuleEntry}
    (h : modulesFault? before modules = none) :
    (modules.map ModuleEntry.name).Nodup ∧ ∀ m ∈ modules, ∀ b ∈ before, b.name ≠ m.name := by
  induction modules generalizing before with
  | nil => exact ⟨List.nodup_nil, fun m hm => absurd hm List.not_mem_nil⟩
  | cons m modules ih =>
    -- The module is checked against those before it, and is one of them for the others.
    rw [modulesFault?] at h
    split at h
    · cases h
    rename_i hgood
    have hfresh : ∀ b ∈ before, b.name ≠ m.name := by
      intro b hb hname
      have hrepeated : (before.any fun other => other.name = m.name) = true :=
        List.any_eq_true.mpr ⟨b, hb, decide_eq_true hname⟩
      rw [moduleFault?, hrepeated] at hgood
      split at hgood
      · cases hgood
      · split at hgood <;> cases hgood
    obtain ⟨hnodup, hbefore⟩ := ih h
    refine ⟨?_, List.forall_mem_cons.mpr ⟨hfresh, fun x hx b hb =>
      hbefore x hx b (List.mem_append_left _ hb)⟩⟩
    rw [List.map_cons, List.nodup_cons]
    refine ⟨fun hmem => ?_, hnodup⟩
    obtain ⟨x, hx, hname⟩ := List.mem_map.mp hmem
    exact hbefore x hx m (List.mem_append_right _ List.mem_cons_self) hname.symm

/-- **No two modules of a valid manifest** have one name. -/
theorem nodup_of_validate {m : Manifest} (h : m.validate = .ok ()) :
    (m.modules.map ModuleEntry.name).Nodup := by
  have hnone : m.fault? = none := by
    unfold validate at h
    split at h
    · cases h
    · assumption
  rw [fault?] at hnone
  split at hnone
  · cases hnone
  · exact (names_of_modulesFault? hnone).1

/-- A manifest that has been loaded is valid. -/
theorem validate_of_load {d : Disk} {root : Path} {m : Manifest} (h : load d root = .ok m) :
    m.validate = .ok () := by
  unfold load at h
  dsimp only at h
  split at h
  · cases h
  split at h
  · cases h
  split at h
  · cases h
  · rename_i hvalid
    rw [← Except.ok.inj h]
    exact hvalid

end Manifest

/-! ## 2. Finding a scope -/

variable {δ : Type}

/-- The records of a project stand in the order of its parts, and are numbered so. -/
theorem Recorded.frame_eq {d : Disk} {settings : Settings} {projectDir : Path}
    {parts : List (String × Path)} {w : Workspace LocalFiles δ} {scopes : List ProjectScope}
    (h : Recorded d settings projectDir parts w scopes) (i : Nat) :
    scopes[i]?.map ProjectScope.frame = parts[i]?.map fun part => (part.1, part.2, i) := by
  rw [← List.getElem?_map, h.frames, List.getElem?_mapIdx]

/-- A name is looked for in the first record, and then in the others. -/
theorem Project.scope?_of_cons {p : Project δ} {r : ProjectScope} {rest : List ProjectScope}
    (h : p.scopes = r :: rest) (name : String) :
    p.scope? name = if r.name = name then some r else rest.find? fun s => s.name = name := by
  rw [scope?, h, List.find?_cons]
  by_cases hname : r.name = name <;> simp [hname]

/-- Among records of different names each is found by its own. -/
theorem ProjectScope.find?_of_nodup {scopes : List ProjectScope}
    (h : (scopes.map ProjectScope.name).Nodup) {s : ProjectScope} (hs : s ∈ scopes) :
    (scopes.find? fun t => t.name = s.name) = some s := by
  obtain ⟨t, ht⟩ : ∃ t, (scopes.find? fun t => t.name = s.name) = some t :=
    Option.isSome_iff_exists.mp (List.find?_isSome.mpr ⟨s, hs, decide_eq_true rfl⟩)
  have hname : t.name = s.name := by simpa using List.find?_some ht
  rw [ht, List.inj_on_of_nodup_map h (List.mem_of_find?_eq_some ht) hs hname]

variable [DecidableEq δ] [Digest δ] {d : Disk} {dir : Path} {settings : Settings} {p : Project δ}

/-- **Which scope a name finds**: that of the project for its own name, and for the name of
a module that of the module, unless the project has the name. -/
theorem Project.scopes_addressed (hopen : Project.open d dir settings = .ok p) :
    (∃ s, p.scopes[0]? = some s ∧ s.dir = p.dir ∧ p.scope? p.manifest.name = some s) ∧
      ∀ (i : Nat) (m : ModuleEntry), p.manifest.modules[i]? = some m →
        ∃ s, p.scopes[i + 1]? = some s ∧ s.name = m.name ∧ s.dir = p.dir.join m.dir ∧
          (p.scope? m.name = some s ↔ m.name ≠ p.manifest.name) := by
  have hrecorded := recorded_of_open hopen
  have hnodup := Manifest.nodup_of_validate
    (Manifest.validate_of_load (open_eq_ok_iff.mp hopen).2.2.1)
  have hframe := hrecorded.frame_eq
  cases hscopes : p.scopes with
  | nil =>
    have hnone := hframe 0
    rw [hscopes] at hnone
    cases hnone
  | cons r rest =>
    rw [hscopes] at hframe
    have hroot : r.frame = (p.manifest.name, p.dir, 0) := Option.some.inj (hframe 0)
    have hname : r.name = p.manifest.name := congrArg (fun f => f.1) hroot
    refine ⟨⟨r, rfl, congrArg (fun f => f.2.1) hroot, ?_⟩, fun i m hm => ?_⟩
    · rw [scope?_of_cons hscopes, if_pos hname]
    -- Behind it there is one record for each module.
    have hmodule : ∀ j, rest[j]?.map ProjectScope.frame
        = p.manifest.modules[j]?.map fun m => (m.name, p.dir.join m.dir, j + 1) := by
      intro j
      have hbehind := hframe (j + 1)
      rwa [parts, List.getElem?_cons_succ, List.getElem?_cons_succ, List.getElem?_map,
        Option.map_map] at hbehind
    have hnames : rest.map ProjectScope.name = p.manifest.modules.map ModuleEntry.name := by
      refine List.ext_getElem? fun j => ?_
      have hj := congrArg (Option.map fun f => f.1) (hmodule j)
      rw [Option.map_map, Option.map_map] at hj
      rw [List.getElem?_map, List.getElem?_map]
      exact hj
    have hat := hmodule i
    rw [hm, Option.map_some] at hat
    obtain ⟨s, hs, hframe⟩ := Option.map_eq_some_iff.mp hat
    have hown : s.name = m.name := congrArg (fun f => f.1) hframe
    refine ⟨s, hs, hown, congrArg (fun f => f.2.1) hframe, ?_⟩
    rw [scope?_of_cons hscopes]
    constructor
    · -- The record that is found would have the number of the project.
      intro hfound hsame
      rw [if_pos (hname.trans hsame.symm)] at hfound
      have hnumber := congrArg (fun f => f.2.2) hframe
      rw [← Option.some.inj hfound, hroot] at hnumber
      cases hnumber
    · intro hne
      rw [if_neg fun h => hne (h.symm.trans hname), ← hown]
      exact ProjectScope.find?_of_nodup (hnames ▸ hnodup) (List.mem_of_getElem? hs)

/-! ## 3. All scopes are saved -/

namespace Workspace.Listing

variable {files : LocalFiles} {w w' : Workspace LocalFiles δ} {s : ProjectScope}
  {projectDir : Path} {scopes : List ProjectScope}

/-- A scope that is opened may be listed. -/
theorem openScope (h : w.Listing w.scopes.length) (hread : w.JustRead files)
    (hpos : 0 < w.scopes.length) {name : String}
    (hok : Project.openScope settings projectDir 0 name dir w = (.ok (), s, w')) :
    (w'.register 0 s.scope).Listing w'.scopes.length := by
  obtain ⟨htaken, -, -⟩ := TakenUp.of_openScope hread hok
  have hscope := w.scope?_addScope (scopeFor projectDir name dir) 0
  rw [if_neg (Nat.ne_of_lt hpos)] at hscope
  have hadded : (w.addScope (scopeFor projectDir name dir)).2.Listing w.scopes.length :=
    ⟨by rw [hscope]; exact h.registry, h.listed⟩
  have hnumber : s.scope = w.scopes.length := htaken.scope
  have hlength : w'.scopes.length = w.scopes.length + 1 :=
    htaken.framed.length.trans List.length_append
  rw [hnumber, hlength]
  exact (hadded.framed htaken.framed).register

/-- So may the modules, one after the other. -/
theorem openModules (h : w.Listing w.scopes.length) (hread : w.JustRead files)
    (hpos : 0 < w.scopes.length) {modules : List ModuleEntry}
    (hok : (Project.openModules settings projectDir 0 0 modules scopes w).outcome = .ok ()) :
    (Project.openModules settings projectDir 0 0 modules scopes w).space.Listing
      (Project.openModules settings projectDir 0 0 modules scopes w).space.scopes.length := by
  induction modules generalizing scopes w with
  | nil => exact h
  | cons m modules ih =>
    rw [Opened.openModules_cons] at hok ⊢
    split at hok
    · cases hok
    · rename_i s w₁ hopened
      obtain ⟨htaken, hread', -⟩ := TakenUp.of_openScope hread hopened
      refine ih (h.openScope hread hpos hopened) (hread'.list 0 s.scope) ?_ hok
      show 0 < w₁.scopes.length
      rw [htaken.framed.length]
      exact List.length_pos_of_ne_nil (List.append_ne_nil_of_right_ne_nil _ (List.cons_ne_nil _ _))

end Workspace.Listing

/-- **A project that has been opened** lists all its scopes. -/
theorem Project.listing_of_open (hopen : Project.open d dir settings = .ok p) :
    p.space.Listing p.space.scopes.length := by
  obtain ⟨_, _, _, _, hopening⟩ := Project.open_eq_ok_iff.mp hopen
  rw [Opened.openScopes_eq] at hopening
  split at hopening
  · cases congrArg Project.Opening.outcome hopening
  rename_i s w hroot
  let files : LocalFiles := { disk := d, durable := settings.durableWrites }
  have hempty : (Workspace.start files : Workspace LocalFiles δ).JustRead files := .start files
  obtain ⟨htaken, hread, -⟩ := TakenUp.of_openScope hempty hroot
  have hzero : s.scope = 0 := htaken.scope
  have hone : w.scopes.length = 1 := htaken.framed.length
  have hnone : w.registries = [] := htaken.framed.registries
  have hregistry : (w.attach s.scope).1 = 0 := congrArg List.length hnone
  have hlisting : (w.attach s.scope).2.Listing (w.attach s.scope).2.scopes.length := by
    rw [w.length_attach, hone]
    refine ⟨?_, [], ?_, fun id hpos hid => absurd hid (Nat.not_lt.mpr hpos)⟩
    · obtain ⟨t, ht⟩ : ∃ t, w.scope? 0 = some t :=
        ⟨_, List.getElem?_eq_getElem (hone ▸ Nat.one_pos)⟩
      rw [w.scope?_attach, if_pos hzero.symm, ht, Option.map_some, hnone]
      rfl
    · rw [w.registries_attach, hnone]
      rfl
  rw [hregistry] at hopening
  have hok : _ = Except.ok () := congrArg Project.Opening.outcome hopening
  have hspace : _ = p.space := congrArg Project.Opening.space hopening
  have hmodules := hlisting.openModules (hread.attach s.scope)
    (by rw [w.length_attach, hone]; exact Nat.one_pos) hok
  rwa [hspace] at hmodules

/-! ## 4. Setting a component -/

namespace Project

variable {q : Project δ} {s : ProjectScope} {component value : String} {id : ComponentId} {v : Json}

/-- **A project with a component in a scope**, all of whose files have just been read. -/
structure Made (files : LocalFiles) (q : Project δ) (s : ProjectScope) (component : String)
    (id : ComponentId) : Prop where
  read : q.space.JustRead files
  distinct : q.space.Distinct
  listing : q.space.Listing q.space.scopes.length
  root : q.root = 0
  record : ∃ t ∈ q.scopes, t.scope = s.scope ∧ t.dir = s.dir
  entry : ∃ e, q.space.entryOf? s.scope component = some e ∧ e.component = id

/-- **Asking an opened project for a component.** -/
theorem made_of_open (hopen : Project.open d dir settings = .ok p)
    {name : String} (hs : p.scope? name = some s)
    (hok : p.componentOrCreate name component = (.ok id, q)) :
    Made { disk := d, durable := settings.durableWrites } q s component id := by
  have hread := justRead_of_open hopen
  have hdistinct : p.space.Distinct :=
    ((Workspace.Distinct.keptByOpening { disk := d, durable := settings.durableWrites }).of_open
      ⟨.start _, fun _ _ _ _ _ _ he => nomatch he⟩ hopen).2
  have hlisting := listing_of_open hopen
  have hrecorded := recorded_of_open hopen
  have hroot := root_of_frames hrecorded.frames
  have hmem := List.mem_of_find?_eq_some hs
  have hagrees := hrecorded.agrees s hmem
  unfold Project.componentOrCreate at hok
  rw [hs] at hok
  dsimp only at hok
  split at hok
  · -- The component is there.
    rename_i id' hfound
    obtain ⟨hid, rfl⟩ := Prod.mk.inj hok
    obtain rfl := Except.ok.inj hid
    obtain ⟨e, he, hcomponent⟩ :=
      Option.map_eq_some_iff.mp ((hagrees.bound component).symm.trans hfound)
    exact ⟨hread, hdistinct, hlisting, hroot, ⟨s, hmem, rfl, rfl⟩, e, he, hcomponent⟩
  · -- It is registered, which gives it an entry and a record.
    split at hok
    · cases hok
    rename_i id' s' w hregistered
    obtain ⟨hid, rfl⟩ := Prod.mk.inj hok
    obtain rfl := Except.ok.inj hid
    obtain ⟨-, ⟨⟨f, hf⟩, -⟩ | ⟨c, k, -, hout, -, hentry, -⟩⟩ :=
      register_views hagrees.table hregistered
    · cases hf
    obtain ⟨rfl, rfl⟩ := Prod.mk.inj (Except.ok.inj hout)
    have htaken := TakenUp.of_register hread hagrees.table hregistered
    exact
      { read := hread.register hregistered
        distinct := hdistinct.register hread hregistered
        listing := by
          have hlisted := hlisting.framed htaken.framed
          rwa [← htaken.framed.length] at hlisted
        root := (root_withScope _ _).trans hroot
        record := ⟨_, List.mem_map.mpr ⟨s, hmem, if_pos rfl⟩, rfl, rfl⟩
        entry := ⟨⟨_, k⟩, (hentry _ _).trans (if_pos ⟨rfl, rfl⟩), rfl⟩ }

/-- **A component of a scope has been set**, and the project has been saved to a disk that
was `d` and is `d'` now.

The component has a unit, which is below the directory of the scope. Files read as before,
but for those that the unit touches and those that an unsettled one does. And the unit
holds the value with references put in, unless another unsettled unit is in the way. -/
structure SetIn (q : Project δ) (s : ProjectScope) (component : String) (v : Json)
    (d d' : Disk) (u : Path) : Prop where
  unit : q.space.unitOf? s.scope component = some u
  below : ∃ f, FileNamed q.settings f ∧ u.location = (⟨s.dir.trimmed ++
    (scopeTable q.dir s.dir).expand ("/" ++ q.settings.stateDir ++ "/" ++ f)⟩ : Path).location
  others : ∀ file bytes, d.read file = .ok bytes → d'.read file = .ok bytes ∨
    d'.Touches u file ∨ ∃ j x, q.space.Unsettled j x ∧ d'.Touches x file
  stored : (∀ j x, q.space.Unsettled j x → j = s.scope ∧ x = u ∨ ¬ d'.Touches x u) →
    ∃ bytes, d'.read u = .ok bytes ∧
      Workspace.Holds u bytes component ((scopeTable q.dir s.dir).collapseValue v)

/-- **Setting it and saving.** -/
theorem Made.setIn (hfaithful : Digest.Faithful δ) {files : LocalFiles} (hd : files.disk.Tree)
    (h : Made files q s component id) (hnamed : UnitsNamed q.settings q.dir q)
    (hok : (q.modify id fun c => c.set v).save.1 = .ok ()) :
    ∃ u, q.SetIn s component v files.disk (q.modify id fun c => c.set v).save.2.disk u := by
  obtain ⟨e, he, rfl⟩ := h.entry
  obtain ⟨t, ht, hscope, hdir⟩ := h.record
  have htable := hnamed.table t ht
  rw [hscope, hdir] at htable
  -- The unit of the component is one that the scope maps.
  obtain ⟨x, hx, hentry⟩ := Option.bind_eq_some_iff.mp he
  obtain ⟨l, u, hl⟩ := (h.read.kept.scope hx).mapped component e hentry
  obtain ⟨st, hst, hlocation⟩ := (h.read.kept.scope hx).exists_storage hl
  have hmapped : q.space.mapped? t.scope l = some e.storage := by
    rw [Workspace.mapped?, hscope, hx, Option.bind_some, hl]
    rfl
  obtain ⟨f, hf, hplace⟩ := hnamed.named t ht l e.storage hmapped
  rw [expand_template_eq, hdir, ← hlocation] at hplace
  have hroot : q.root = 0 := h.root
  have hmem : s.scope ∈ (q.space.tree q.root).scopes := by
    rw [hroot]
    exact h.listing.mem_tree rfl _ (List.getElem?_eq_some_iff.mp hx).1
  have hok' : ((q.space.edited e.component v).save q.root).1 = .ok () := hok
  obtain ⟨hothers, hstored⟩ := h.read.save_edited hfaithful h.distinct hd he hmem htable
    (Vault.unit?_of_storage? hst) hok'
  refine ⟨st.unit, ?_, ⟨f, hf, hplace⟩, hothers, hstored⟩
  rw [Workspace.unitOf?, hx, Option.bind_some, hentry, Option.bind_some, hst, Option.map_some]

end Project

namespace Command

variable {component value : String}

/-- A component is set to the value of a text that can be read. -/
theorem read_of_set {scope : String}
    (hok : (Command.set δ d dir scope component value settings).error = none) :
    ∃ v, Json.read value.toList = .ok v := by
  cases hread : Json.read value.toList with
  | error fault =>
    rw [Command.set, hread] at hok
    cases hok
  | ok v => exact ⟨v, rfl⟩

/-- **Every scope is found by its name, and is the one that a component is set in**, unless
it is one of a module that has the name of the project.

The name of the project finds the scope of its directory. The name of a module finds the
scope of the directory that the manifest has for it, if and only if the project has another
name; and then a component that is set in the module is stored below that directory. -/
theorem set_addressed (hfaithful : Digest.Faithful δ) (hd : d.Tree)
    (hopen : Project.open d dir settings = .ok p) :
    (∃ s, p.scopes[0]? = some s ∧ s.dir = p.dir ∧ p.scope? p.manifest.name = some s) ∧
      ∀ (i : Nat) (m : ModuleEntry), p.manifest.modules[i]? = some m →
        ∃ s, p.scopes[i + 1]? = some s ∧ s.name = m.name ∧ s.dir = p.dir.join m.dir ∧
          (p.scope? m.name = some s ↔ m.name ≠ p.manifest.name) ∧
          (m.name ≠ p.manifest.name → ∀ component value,
            (Command.set δ d dir m.name component value settings).error = none →
            ∃ v id q u, Json.read value.toList = .ok v ∧
              p.componentOrCreate m.name component = (.ok id, q) ∧
              q.SetIn s component v d
                (Command.set δ d dir m.name component value settings).disk u) := by
  obtain ⟨hproject, hmodules⟩ := Project.scopes_addressed hopen
  refine ⟨hproject, fun i m hm => ?_⟩
  obtain ⟨s, hs, hname, hdir, hfound⟩ := hmodules i m hm
  refine ⟨s, hs, hname, hdir, hfound, fun hne component value hok => ?_⟩
  obtain ⟨v, hread⟩ := read_of_set hok
  obtain ⟨id, q, hmade, hsaved, hdisk⟩ := set_cases hread hopen hok
  have hnamed := (Project.unitsNamed_of_open hopen).componentOrCreate m.name component
  rw [hmade] at hnamed
  rw [hdisk]
  obtain ⟨u, hset⟩ := (Project.made_of_open hopen (hfound.mpr hne) hmade).setIn hfaithful hd
    (by rw [hnamed.configured, hnamed.placed]; exact hnamed) hsaved
  exact ⟨v, id, q, u, hread, hmade, hset⟩

/-- A project `p` with a module of a name. -/
def moduleDisk (name : String) : Disk :=
  { nodes := [(["p"], .directory), (["p", "m"], .directory),
      (["p", "scopestore.toml"], .file (Utf8.encode
        ("name = \"p\"\nmodules = [\x7bname = \"" ++ name ++ "\", dir = \"m\"\x7d]\n").toList)
        false)] }

/-- A component of the module is made and set. -/
theorem set_addressed_module :
    let reply := Command.set Bytes (moduleDisk "m") ⟨"/p"⟩ "m" "c" "[true]" {}
    ∃ (p q : Project Bytes) (s : ProjectScope) (u : Path),
      Project.open (moduleDisk "m") ⟨"/p"⟩ {} = .ok p ∧
      p.scope? "m" = some s ∧ s.dir = ⟨"/p/m"⟩ ∧ reply.error = none ∧
      q.SetIn s "c" (.array [.bool true]) (moduleDisk "m") reply.disk u := by
  intro reply
  have hopens : (Project.open (δ := Bytes) (moduleDisk "m") ⟨"/p"⟩ {}).toOption.map
      (fun p => (p.dir, p.manifest)) = some (⟨"/p"⟩, ⟨"p", [⟨"m", ⟨"m"⟩⟩]⟩) := by decide +kernel
  obtain ⟨p, hp, hproject⟩ := Option.map_eq_some_iff.mp hopens
  obtain ⟨hdir, hmanifest⟩ := Prod.mk.inj hproject
  have hopen : Project.open (moduleDisk "m") ⟨"/p"⟩ {} = .ok p := toOption_eq_some_iff.mp hp
  have hok : reply.error = none := by decide +kernel
  have hne : "m" ≠ p.manifest.name := by
    rw [hmanifest]
    decide
  obtain ⟨s, -, -, hplace, hfound, hset⟩ := (set_addressed Digest.faithful_bytes
    (Disk.tree_of_nodes (by decide +kernel)) hopen).2 0 ⟨"m", ⟨"m"⟩⟩ (by rw [hmanifest]; rfl)
  obtain ⟨v, id, q, u, hread, -, hset⟩ := hset hne "c" "[true]" hok
  obtain rfl : Json.array [.bool true] = v := Except.ok.inj hread
  refine ⟨p, q, s, u, hopen, hfound.mpr hne, ?_, hok, hset⟩
  rw [hplace, hdir]
  rfl

/-- **A module of the project's name cannot be addressed.** The manifest is valid and the
project opens, but the name finds the scope of the project. What is set in it goes to a
file of the project, and there is none of the module. -/
theorem set_namesake :
    let reply := Command.set Bytes (moduleDisk "p") ⟨"/p"⟩ "p" "c" "2" {}
    ∃ p : Project Bytes, Project.open (moduleDisk "p") ⟨"/p"⟩ {} = .ok p ∧
      p.manifest.validate = .ok () ∧ p.manifest.modules = [⟨"p", ⟨"m"⟩⟩] ∧
      (p.scope? "p").map ProjectScope.dir = some ⟨"/p"⟩ ∧ p.dir.join ⟨"m"⟩ = ⟨"/p/m"⟩ ∧
      reply.error = none ∧
      reply.disk.contentAt ["p", ".scopestore", "misc.json"]
        = some (Utf8.encode "\x7b\n  \"c\": 2\n\x7d\n".toList) ∧
      reply.disk.contentAt ["p", "m", ".scopestore", "misc.json"] = none := by
  intro reply
  have hopens : (Project.open (δ := Bytes) (moduleDisk "p") ⟨"/p"⟩ {}).toOption.map
      (fun p => (p.dir, p.manifest, (p.scope? "p").map ProjectScope.dir))
      = some (⟨"/p"⟩, ⟨"p", [⟨"p", ⟨"m"⟩⟩]⟩, some ⟨"/p"⟩) := by decide +kernel
  obtain ⟨p, hp, hproject⟩ := Option.map_eq_some_iff.mp hopens
  obtain ⟨hdir, hproject⟩ := Prod.mk.inj hproject
  obtain ⟨hmanifest, hscope⟩ := Prod.mk.inj hproject
  refine ⟨p, toOption_eq_some_iff.mp hp, ?_, ?_, hscope, ?_, by decide +kernel⟩
  · rw [hmanifest]
    decide +kernel
  · rw [hmanifest]
  · rw [hdir]
    rfl

/-- **Another file may be rewritten with the one that is set**, so unsettled units have to be
named. The project refers to its directory as that of the scope, which is not what is put
back, and the save that stores a component of the module writes that file as well. -/
theorem set_rewrites_unsettled :
    let disk := referringDisk "$SCOPE_DIR$/x" "$SCOPE_DIR$/y"
    let reply := Command.set Bytes disk ⟨"/p"⟩ "m" "b" "2" {}
    reply.error = none ∧
      reply.disk.contentAt ["p", "m", ".scopestore", "b.json"]
        = some (Utf8.encode "\x7b\n  \"b\": 2\n\x7d\n".toList) ∧
      reply.disk.contentAt ["p", ".scopestore", "a.json"]
        = some (Utf8.encode "\x7b\n  \"a\": \"$PROJECT_DIR$/x\"\n\x7d\n".toList) := by
  decide +kernel

end Command

end ScopedState
