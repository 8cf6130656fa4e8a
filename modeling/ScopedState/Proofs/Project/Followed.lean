/-
`Proofs/Project/Followed.lean` -- which storage files of a project are followed.

The tracker leaves paths with the extension `tmp` out, because saving a file makes one of
that name for a moment. What the storage files of a project are called is decided
elsewhere: by the settings, by the names in its state directories, and by the path
variables that both may refer to. So the two have to be compared.

Every unit of a project comes from a template, and there are two kinds of names that
these end in (`Project.FileNamed`): that of the file that new components are made in, and
those of the files that are found, which have the configured extension. That is so when
the project is opened, since a scope maps nothing but the units of its components then
(`Workspace.Peopled`), and asking for components adds units of the first kind only. In
both a dot stands in front of the extension, and a dot is not part of a reference. So the
template can be expanded on both sides of it, and what matters is the text behind the
dot.

The outcome is that a unit is missed exactly if its file name has the extension `tmp`.
As long as the configured extension is what it says, these are the projects that are
configured so, whatever else the project is.
-/
import ScopedState.Proofs.Feed.Unseen
import ScopedState.Proofs.Path.Ending
import ScopedState.Proofs.Project.Recorded
import ScopedState.Proofs.Workspace.Untraced
set_option autoImplicit false

namespace ScopedState

open Bindings (get?)

variable {δ : Type}

/-! ## 1. Names of storage files -/

namespace Project

/-- What the storage files of a project may be called. -/
inductive FileNamed (settings : Settings) : String → Prop where
  /-- The file that components are made in on request. -/
  | default : FileNamed settings (defaultFile settings)
  /-- A file with the configured extension. -/
  | found (stem : String) (hne : stem ≠ "")
      (hslash : '/' ∉ (stem ++ "." ++ settings.extension).toList) :
      FileNamed settings (stem ++ "." ++ settings.extension)

end Project

/-- A text may be expanded on both sides of a character that is in no reference. -/
theorem MacroTable.expandFrom_append {c : Char} (hdollar : c ≠ '$') (hstarts : startsName c = false)
    (hcontinues : continuesName c = false) (table : MacroTable) (open? : Option (List Char))
    (text rest : List Char) : expandFrom table open? (text ++ c :: rest)
      = expandFrom table open? text ++ c :: expandFrom table none rest := by
  induction text generalizing open? with
  | nil =>
    rw [List.nil_append, expandFrom_cons]
    cases open? with
    | none =>
      have hplain : advance none c = ([.plain c], none) := if_neg hdollar
      rw [hplain]
      rfl
    | some seen =>
      rw [advance_flush hdollar (by rw [hstarts, hcontinues, ite_self]), expandFrom_open_nil,
        meant_plainly]
      simp
  | cons d text ih =>
    rw [List.cons_append, expandFrom_cons, expandFrom_cons, ih, List.append_assoc]

section Templates

variable {settings : Settings} {table : MacroTable} {f : String} {u : Path}

/-- **The unit of a template** ends in a dot and what the extension is expanded to. Unless
there is a name in front of the dot, the extension is a part of the name. -/
theorem Project.FileNamed.expand (h : Project.FileNamed settings f) (table : MacroTable) :
    ∃ base, (table.expand (Project.template settings f)).toList
        = base ++ '.' :: (table.expand settings.extension).toList ∧
      ((base ≠ [] ∧ base.getLast? ≠ some '/') ∨ '/' ∉ settings.extension.toList) := by
  have hends : ∀ stem : String, f = stem ++ "." ++ settings.extension →
      (table.expand (Project.template settings f)).toList
        = MacroTable.expandFrom table none (Project.template settings stem).toList
          ++ '.' :: (table.expand settings.extension).toList := by
    rintro stem rfl
    have htext : (Project.template settings (stem ++ "." ++ settings.extension)).toList
        = (Project.template settings stem).toList ++ '.' :: settings.extension.toList := by
      simp [Project.template]
    rw [MacroTable.expand_eq, MacroTable.expand_eq, String.toList_ofList, String.toList_ofList,
      htext, MacroTable.expandFrom_append (by decide) (by decide) (by decide)]
  cases h with
  | default =>
    refine ⟨_, hends "misc" rfl, Or.inl ?_⟩
    -- The slash in front of the name ends what may be open, so the name stays.
    have htext : (Project.template settings "misc").toList
        = ("$" ++ MacroTable.scopeDir ++ "$/" ++ settings.stateDir).toList
          ++ '/' :: ("misc".toList ++ []) := by
      simp [Project.template]
    rw [htext, MacroTable.expandFrom_append (by decide) (by decide) (by decide),
      MacroTable.expandFrom_plain (by decide)]
    have hlast : ∀ front : List Char, (front ++ '/' :: "misc".toList).getLast? = some 'c' := by
      intro front
      exact List.getLast?_append_of_ne_nil _ (by decide)
    have hnil : MacroTable.expandFrom table none [] = [] := rfl
    rw [hnil, List.append_nil, hlast]
    exact ⟨by simp, by decide⟩
  | found stem hne hslash =>
    refine ⟨_, hends stem rfl, Or.inr fun h => hslash ?_⟩
    rw [String.toList_append]
    exact List.mem_append_right _ h

/-- Valid settings have an extension without dots. -/
theorem Settings.extension_of_validate (hvalid : settings.validate = .ok ()) :
    settings.extension.toList ≠ [] ∧ '.' ∉ settings.extension.toList := by
  have hgood : ¬ (settings.extension.isEmpty || settings.extension.toList.contains '.') = true := by
    intro hbad
    unfold validate fault? at hvalid
    rw [if_pos hbad] at hvalid
    split at hvalid
    · cases hvalid
    · rename_i hnone
      split at hnone
      · cases hnone
      · split at hnone <;> cases hnone
  rw [Bool.or_eq_true, not_or] at hgood
  refine ⟨fun hnil => hgood.1 ?_, fun hdot => hgood.2 (List.contains_iff_mem.mpr hdot)⟩
  rw [String.toList_eq_nil_iff.mp hnil]
  rfl

/-- **Which units count as temporary.** When the configured extension has no references,
these are the ones of an extension `tmp`, but for a file that has no other name. -/
theorem Project.FileNamed.isTemporary_iff (h : Project.FileNamed settings f)
    (hvalid : settings.validate = .ok ())
    (hliteral : table.expand settings.extension = settings.extension)
    (hu : u.location = (⟨table.expand (Project.template settings f)⟩ : Path).location) :
    Feed.Tracker.isTemporary u = true ↔
      (⟨settings.extension⟩ : Path).trimmed = "tmp" ∧ u.fileName? ≠ some ".tmp" := by
  obtain ⟨hne, hdot⟩ := Settings.extension_of_validate hvalid
  obtain ⟨base, htext, hname⟩ := h.expand table
  rw [hliteral] at htext
  have hends := Path.extension?_append ⟨settings.extension⟩ (x := "tmp") (by decide) (by decide)
    htext hdot (hname.imp_right fun hslash => ⟨hslash, hne⟩)
  rw [Feed.Tracker.isTemporary_congr hu, Feed.Tracker.isTemporary, decide_eq_true_eq]
  have hfile : u.fileName? = (⟨table.expand (Project.template settings f)⟩ : Path).fileName? := by
    rw [Path.fileName?, Path.fileName?, hu]
  rw [hfile]
  exact hends

end Templates

/-- **A file that is found** has the configured extension. -/
theorem Disk.Shelved.fileNamed {d : Disk} {settings : Settings} {dir file : Path} {f : String}
    (h : d.Shelved settings dir file) (hname : file.fileName? = some f) :
    Project.FileNamed settings f := by
  obtain ⟨files, hlisted, hfile⟩ := h.listed
  rw [Project.storageFiles] at hlisted
  split at hlisted
  · cases hlisted
  rename_i names hlist
  rw [← Except.ok.inj hlisted] at hfile
  obtain ⟨entry, hentry, rfl⟩ := List.mem_map.mp hfile
  obtain ⟨p, hp, rfl⟩ := List.mem_map.mp ((Bindings.mem_ofList _).1 entry hentry)
  have hextension : p.extension? = some settings.extension := by
    have hkept := (List.mem_filter.mp hp).2
    rw [Bool.and_eq_true] at hkept
    exact of_decide_eq_true hkept.2
  obtain ⟨stem, hne, -, hstem⟩ := Path.extension?_eq_some_iff.mp hextension
  have hslash := Path.no_slash_of_fileName hstem
  rw [hstem] at hname
  rw [← Option.some.inj hname]
  exact .found stem hne hslash

/-! ## 2. Units and components -/

/-- **A workspace without idle units**: each that a scope maps is that of a component. -/
def Workspace.Peopled (w : Workspace LocalFiles δ) : Prop :=
  ∀ id l k, w.mapped? id l = some k → ∃ n e, w.entryOf? id n = some e ∧ e.storage = k

namespace Project

variable [DecidableEq δ] [Digest δ] {w w' : Workspace LocalFiles δ} {s : ProjectScope}
  {table : MacroTable} {n template : String} {out : Except Failure (ComponentId × ProjectScope)}

/-- **Registering** adds a component, with the next number, under a name that was free, and
maps the unit of the template and no other. If it fails, nothing is mapped. -/
theorem register_views (htable : w.tableOf? s.scope = some table)
    (h : register w s n template = (out, w')) :
    (∀ j, w'.tableOf? j = w.tableOf? j) ∧
      (((∃ f, out = .error f) ∧ w'.mapped? = w.mapped?) ∨
        ∃ c k, c = w.vault.components.length ∧
          out = .ok (c, { s with components := Bindings.insert s.components n c }) ∧
          w.entryOf? s.scope n = none ∧
          (∀ j m, w'.entryOf? j m
            = if j = s.scope ∧ m = n then some ⟨c, k⟩ else w.entryOf? j m) ∧
          ∀ j l, w'.mapped? j l
            = if j = s.scope ∧ l = (⟨table.expand template⟩ : Path).location then some k
              else w.mapped? j l) := by
  rw [Sound.register_eq] at h
  generalize hw₁ : ({ w with vault := (w.vault.addComponent { name := n }).2 } :
    Workspace LocalFiles δ) = w₁ at h
  have htable₁ : w₁.tableOf? = w.tableOf? := by rw [← hw₁]; rfl
  have hentry₁ : w₁.entryOf? = w.entryOf? := by rw [← hw₁]; rfl
  have hmapped₁ : w₁.mapped? = w.mapped? := by rw [← hw₁]; rfl
  obtain ⟨t, ht, hvariables⟩ := Option.bind_eq_some_iff.mp ((congrFun htable₁ _).trans htable)
  obtain ⟨sub, hsub, rfl⟩ := Option.map_eq_some_iff.mp hvariables
  split at h
  · rename_i f w₂ hfailed
    obtain ⟨rfl, rfl⟩ := Prod.mk.inj h
    -- Apart from noted names nothing has changed.
    have halike := (Workspace.addComponent_error (congrArg Prod.fst hfailed)).2
    rw [hfailed] at halike
    refine ⟨fun j => ?_, Or.inl ⟨⟨f, rfl⟩, ?_⟩⟩
    · rw [← htable₁]
      refine halike.bind_scope j fun x => ?_
      cases hx : x.substitutor <;> simp [Scope.forget, Substitutor.forget, hx]
    · rw [← hmapped₁]
      funext j l
      exact halike.bind_scope j fun _ => rfl
  · rename_i u w₂ hregistered
    obtain ⟨rfl, rfl⟩ := Prod.mk.inj h
    cases hbound : get? t.components n with
    | some e =>
      rw [Workspace.addComponent_of_bound ht _ (by rw [hbound]; rfl)] at hregistered
      cases hregistered
    | none =>
      have hfree : w.entryOf? s.scope n = none := by
        rw [← hentry₁, Workspace.entryOf?, ht]
        exact hbound
      rcases Workspace.addComponent_spec ht hsub w.vault.components.length hbound template with
        ⟨_, k, hentered⟩ | ⟨⟨e, he⟩, _⟩
      · rw [hregistered] at hentered
        refine ⟨fun j => ?_, Or.inr ⟨_, k, rfl, rfl, hfree, fun j m => ?_, fun j l => ?_⟩⟩
        · rw [hentered.framed.tableOf?, htable₁]
        · rw [hentered.entry, hentry₁]
        · rw [hentered.mapped, hmapped₁]
      · rw [hregistered] at he
        cases he

end Project

section Peopled

variable [DecidableEq δ] [Digest δ]

/-- **Opening a project** leaves no idle units. -/
theorem Workspace.Peopled.keptByOpening (files : LocalFiles) :
    KeptByOpening fun w : Workspace LocalFiles δ => w.JustRead files ∧ w.Peopled where
  scope w name table h := by
    obtain ⟨hentry, hmapped⟩ := w.views_addScope (s :=
      { name, pool := 0, substitutor := some { table } }) rfl rfl
    refine ⟨h.1.addScope name table, ?_⟩
    rw [Peopled, hentry, hmapped]
    exact h.2
  register w s n template out w' h hok := by
    refine ⟨h.1.register hok, ?_⟩
    cases hs : w.scope? s.scope with
    | none =>
      -- There is nothing to register in.
      rw [Sound.register_eq, addComponent_of_absent
        (w := { w with vault := (w.vault.addComponent { name := n }).2 }) hs] at hok
      rw [← (Prod.mk.inj hok).2]
      exact h.2
    | some t =>
      obtain ⟨sub, hsub⟩ := h.1.macros s.scope t hs
      have htable := JustRead.tableOf?_eq hs hsub
      obtain ⟨-, ⟨⟨f, hf⟩, -⟩ | ⟨c, k, -, -, hfree, hentry, hmapped⟩⟩ :=
        Project.register_views htable hok
      · cases hf
      intro j l k' hk
      rw [hmapped] at hk
      split at hk
      · rename_i hat
        refine ⟨n, ⟨c, k⟩, ?_, Option.some.inj hk⟩
        rw [hentry, if_pos ⟨hat.1, rfl⟩]
      · obtain ⟨m, e', he', hstorage⟩ := h.2 j l k' hk
        refine ⟨m, e', ?_, hstorage⟩
        rw [hentry, if_neg, he']
        -- The name was free, and this one was not.
        rintro ⟨rfl, rfl⟩
        rw [hfree] at he'
        cases he'
  attach w id h := by
    obtain ⟨hentry, hmapped⟩ := w.views_attach id
    refine ⟨h.1.attach id, ?_⟩
    rw [Peopled, hentry, hmapped]
    exact h.2
  list w r id h := ⟨h.1.list r id, h.2⟩

end Peopled

/-! ## 3. The units of a project -/

namespace Project

/-- A unit that some scope of the project has. -/
def HasUnit (q : Project δ) (u : Path) : Prop :=
  ∃ s ∈ q.scopes, ∃ t, q.space.scope? s.scope = some t ∧ t.maps u = true

/-- **A project whose units are all named by templates** for its storage files. -/
structure UnitsNamed (settings : Settings) (dir : Path) (q : Project δ) : Prop where
  configured : q.settings = settings
  placed : q.dir = dir
  table : ∀ s ∈ q.scopes, q.space.tableOf? s.scope = some (scopeTable dir s.dir)
  named : ∀ s ∈ q.scopes, ∀ l k, q.space.mapped? s.scope l = some k →
    ∃ f, FileNamed settings f ∧
      l = (⟨(scopeTable dir s.dir).expand (template settings f)⟩ : Path).location

variable [DecidableEq δ] [Digest δ] {d : Disk} {dir : Path} {settings : Settings}
  {p q : Project δ}

/-- **An opened project** is one. -/
theorem unitsNamed_of_open (hopen : Project.open d dir settings = .ok p) :
    UnitsNamed settings p.dir p := by
  have hrecorded := recorded_of_open hopen
  have hpeopled : p.space.Peopled :=
    ((Workspace.Peopled.keptByOpening { disk := d, durable := settings.durableWrites }).of_open
      ⟨.start _, fun _ _ _ hk => nomatch hk⟩ hopen).2
  refine
    { configured := (open_eq_ok_iff.mp hopen).2.2.2.1
      placed := rfl
      table := fun s hs => (hrecorded.agrees s hs).table
      named := fun s hs l k hk => ?_ }
  have hagrees := hrecorded.agrees s hs
  -- The unit is that of a component, which is that of a file.
  obtain ⟨n, e, he, rfl⟩ := hpeopled s.scope l k hk
  obtain ⟨u, file, hshelved, f, doc, hdoc, hn, rfl⟩ := hagrees.only n e he
  obtain ⟨e', he', hlocation⟩ := hagrees.filed n _ ⟨file, hshelved, f, doc, hdoc, hn, rfl⟩
  rw [he] at he'
  obtain rfl := Option.some.inj he'
  refine ⟨f, hshelved.fileNamed hdoc.name, ?_⟩
  obtain ⟨t, ht, hl⟩ := Option.bind_eq_some_iff.mp hk
  obtain ⟨⟨u, k⟩, hstorage, rfl⟩ := Option.map_eq_some_iff.mp hl
  have hat := ((justRead_of_open hopen).kept.scope ht).located l u _ hstorage
  rw [hat] at hlocation
  exact Option.some.inj hlocation

/-- **Asking for a component** keeps it one. -/
theorem UnitsNamed.componentOrCreate (h : UnitsNamed settings dir q) (scope name : String) :
    UnitsNamed settings dir (q.componentOrCreate scope name).2 := by
  unfold Project.componentOrCreate
  split
  · exact h
  rename_i s hfound
  have hs : s ∈ q.scopes := List.mem_of_find?_eq_some hfound
  split
  · exact h
  rename_i hnew
  obtain ⟨htables, hviews⟩ := register_views (h.table s hs)
    (Prod.mk.eta (p := register q.space s name (template q.settings (defaultFile q.settings)))).symm
  generalize hregister : register q.space s name (template q.settings (defaultFile q.settings))
    = out at htables hviews
  obtain ⟨outcome, w'⟩ := out
  simp only [] at htables hviews ⊢
  rcases hviews with ⟨⟨f, rfl⟩, hmapped⟩ | ⟨c, k, -, rfl, -, -, hmapped⟩
  · exact
      { configured := h.configured
        placed := h.placed
        table := fun t ht => (htables t.scope).trans (h.table t ht)
        named := fun t ht l k hk => h.named t ht l k (by rw [← hmapped]; exact hk) }
  · -- A record is one from before, or that of the scope with one more component.
    have hrecord : ∀ t, t ∈ (({ q with space := w' } : Project δ).withScope
        { s with components := Bindings.insert s.components name c }).scopes →
        ∃ t' ∈ q.scopes, t.scope = t'.scope ∧ t.dir = t'.dir := by
      intro t ht
      obtain ⟨t', ht', rfl⟩ := List.mem_map.mp ht
      split
      · exact ⟨s, hs, rfl, rfl⟩
      · exact ⟨t', ht', rfl, rfl⟩
    refine
      { configured := h.configured
        placed := h.placed
        table := fun t ht => ?_
        named := fun t ht l k' hk => ?_ }
    · obtain ⟨t', ht', hscope, hdir⟩ := hrecord t ht
      rw [hscope, hdir]
      exact (htables t'.scope).trans (h.table t' ht')
    · obtain ⟨t', ht', hscope, hdir⟩ := hrecord t ht
      have hk' : w'.mapped? t'.scope l = some k' := by rw [← hscope]; exact hk
      rw [hmapped] at hk'
      rw [hdir]
      split at hk'
      · -- The new unit is that of the default file.
        rename_i hat
        have hsame : scopeTable dir t'.dir = scopeTable dir s.dir := by
          have htable := h.table t' ht'
          rw [hat.1, h.table s hs] at htable
          exact (Option.some.inj htable).symm
        refine ⟨defaultFile settings, .default, ?_⟩
        rw [hat.2, hsame, h.configured]
      · exact h.named t' ht' l k' hk'

/-- A project that has been opened, and then asked for components. -/
inductive Asked (p : Project δ) : Project δ → Prop where
  | opened : Asked p p
  | asked {q : Project δ} (scope name : String) (h : Asked p q) :
      Asked p (q.componentOrCreate scope name).2

/-- **Its units are all named by templates.** -/
theorem Asked.unitsNamed (h : Asked p q) (hopen : Project.open d dir settings = .ok p) :
    UnitsNamed settings p.dir q := by
  induction h with
  | opened => exact unitsNamed_of_open hopen
  | asked scope name _ ih => exact ih.componentOrCreate scope name

/-! ## 4. Events about units -/

open Feed (Event Tracker)
open Feed.Tracker (after)

/-- **Which units are followed.** An event that names a unit of a project brings it into the
first snapshot after its batch, unless the file name of the unit has the extension `tmp`.
If the configured extension has no references, the units that are missed are those of a
project configured to have `tmp` for it, apart from slashes behind it and from a file of
that name alone. -/
theorem units_followed (hvalid : settings.validate = .ok ())
    (hopen : Project.open d dir settings = .ok p) (hasked : Asked p q) {u : Path}
    (hunit : q.HasUnit u) (before between : List Tracker.Call) (events : List Event) (event : Event)
    (path : Path) (hbetween : Tracker.Call.snapshot ∉ between) (hevent : event ∈ events)
    (hpath : path ∈ event.touched) (hlocation : path.location = u.location) :
    let snapshot := (after (before ++ .batch events :: between)).takeSnapshot.1
    (Bindings.binds snapshot (⟨u, none⟩ : ChangedUnit).key = true ↔ u.extension? ≠ some "tmp") ∧
      ((∀ s ∈ q.scopes, (scopeTable q.dir s.dir).expand settings.extension = settings.extension) →
        (Bindings.binds snapshot (⟨u, none⟩ : ChangedUnit).key = true ↔
          ¬ ((⟨settings.extension⟩ : Path).trimmed = "tmp" ∧ u.fileName? ≠ some ".tmp"))) := by
  intro snapshot
  have hfollowed : Bindings.binds snapshot (⟨u, none⟩ : ChangedUnit).key = true ↔
      ¬ Tracker.isTemporary u = true := by
    rw [Bool.not_eq_true]
    exact Tracker.snapshot_has_iff hbetween hevent hpath hlocation
  refine ⟨?_, fun hliteral => ?_⟩
  · rw [hfollowed, Tracker.isTemporary, decide_eq_true_eq]
  · have hnamed := hasked.unitsNamed hopen
    obtain ⟨s, hs, t, ht, hmaps⟩ := hunit
    obtain ⟨⟨text, k⟩, hk⟩ := Option.isSome_iff_exists.mp hmaps
    obtain ⟨f, hf, hl⟩ := hnamed.named s hs u.location k (by
      rw [Workspace.mapped?, ht, Option.bind_some, hk]
      rfl)
    have hliteral := hliteral s hs
    rw [hnamed.placed] at hliteral
    rw [hfollowed, hf.isTemporary_iff hvalid hliteral hl]

/-- A project with a manifest and nothing else. -/
def bareDisk : Disk :=
  { nodes := [(["p"], .directory),
      (["p", "scopestore.toml"], .file (Utf8.encode "name = \"p\"\n".toList) false)] }

/-- A component of it that is asked for has its unit in the default file. -/
theorem asked_bareDisk (settings : Settings) (u : Path)
    (hunit : (Project.open (δ := Bytes) bareDisk ⟨"/p"⟩ settings).toOption.map (fun p =>
      let q := (p.componentOrCreate "p" "a").2
      q.scopes.map fun s => (q.space.scope? s.scope).any fun t => t.maps u) = some [true]) :
    ∃ p : Project Bytes, Project.open bareDisk ⟨"/p"⟩ settings = .ok p ∧
      ((p.componentOrCreate "p" "a").2).HasUnit u := by
  obtain ⟨p, hp, hscopes⟩ := Option.map_eq_some_iff.mp hunit
  obtain ⟨s, hs, hmaps⟩ := List.mem_map.mp (hscopes ▸ List.mem_singleton_self true)
  rw [Option.any_eq_true] at hmaps
  obtain ⟨t, ht, hmaps⟩ := hmaps
  exact ⟨p, toOption_eq_some_iff.mp hp, s, hs, t, ht, hmaps⟩

/-- With the default settings a rename of the unit is seen, after other events and
snapshots. -/
theorem units_followed_misc : ∃ (p : Project Bytes),
    Project.open bareDisk ⟨"/p"⟩ {} = .ok p ∧
      ((p.componentOrCreate "p" "a").2).HasUnit ⟨"/p/.scopestore/misc.json"⟩ ∧
      Bindings.binds (after ([.batch [.created ⟨"/x"⟩], .snapshot] ++
          .batch [.renamed ⟨"/p/.scopestore//misc.json"⟩ ⟨"/y"⟩] :: [.batch []])).takeSnapshot.1
        (⟨⟨"/p/.scopestore/misc.json"⟩, none⟩ : ChangedUnit).key = true := by
  obtain ⟨p, hopen, hunit⟩ := asked_bareDisk {} ⟨"/p/.scopestore/misc.json"⟩ (by decide +kernel)
  refine ⟨p, hopen, hunit, ?_⟩
  have hfollowed := units_followed (by rfl) hopen (.asked "p" "a" .opened) hunit
    [.batch [.created ⟨"/x"⟩], .snapshot] [.batch []]
    [.renamed ⟨"/p/.scopestore//misc.json"⟩ ⟨"/y"⟩]
    (.renamed ⟨"/p/.scopestore//misc.json"⟩ ⟨"/y"⟩) ⟨"/p/.scopestore//misc.json"⟩ (by decide)
    List.mem_cons_self List.mem_cons_self (by decide +kernel)
  refine (hfollowed.2 fun s _ => ?_).mpr (by decide +kernel)
  exact MacroTable.expand_of_no_dollar _ (by decide)

/-- **With the extension `tmp`**, which is a valid one, the storage file of the project is
taken for a temporary one, and no change of it is seen. -/
theorem units_missed : ∃ (settings : Settings) (p : Project Bytes) (u : Path),
    settings.validate = .ok () ∧ Project.open bareDisk ⟨"/p"⟩ settings = .ok p ∧
      ((p.componentOrCreate "p" "a").2).HasUnit u ∧
      Bindings.binds (after [.batch [.modified u]]).takeSnapshot.1
        (⟨u, none⟩ : ChangedUnit).key = false := by
  obtain ⟨p, hopen, hunit⟩ := asked_bareDisk { extension := "tmp" } ⟨"/p/.scopestore/misc.tmp"⟩
    (by decide +kernel)
  exact ⟨_, p, _, by rfl, hopen, hunit, by decide +kernel⟩

end Project

end ScopedState
