/-
`Proofs/Project/Recorded.lean` -- what the records of an opened project tell.

A project keeps a record of each of its scopes, beside the workspace that the scopes
are in. Opening writes both at once: a scope gets the next number and a record with
it, and a component that is registered is entered in the scope and in the record. So
the two agree when the opening has come to an end (`Project.recorded_of_open`): the
records are numbered like the scopes, and each of them has the components that its
scope has.

Which components these are is decided by the files. Going through the state directory
of a scope takes up one name after the other (`TakenUp`), each for the unit that the
template of its file names. A name that the scope has is refused, and a refusal ends
the opening. So when it succeeds each name was new when it came, and there is just one
file that it came from.

Nothing is asked of the directories here, nor of where the units of the templates are.
-/
import ScopedState.Proofs.Project.JustOpened
set_option autoImplicit false

namespace ScopedState

open Bindings (get? keys)
open Workspace (Framed)

variable {δ : Type}

/-! ## 1. Taking up components -/

/-- **Components have been taken up**: the scope of a record has been given some, each
for the unit that `R` says, under names that were free. -/
structure TakenUp (w w' : Workspace LocalFiles δ) (s s' : ProjectScope)
    (R : String → Path → Prop) : Prop where
  framed : Framed w w'
  frame : s'.frame = s.frame
  other : ∀ j m, j ≠ s.scope → w'.entryOf? j m = w.entryOf? j m
  located : ∀ k l, w.vault.location? k = some l → w'.vault.location? k = some l
  old : ∀ m e, w.entryOf? s.scope m = some e → w'.entryOf? s.scope m = some e
  new : ∀ m u, R m u → w.entryOf? s.scope m = none ∧ ∃ e, w'.entryOf? s.scope m = some e ∧
    w'.vault.location? e.storage = some u.location
  only : ∀ m e, w'.entryOf? s.scope m = some e → w.entryOf? s.scope m = some e ∨ ∃ u, R m u
  bound : s.Bound w → s'.Bound w'

namespace TakenUp

variable {w w' w'' : Workspace LocalFiles δ} {s s' s'' : ProjectScope}
  {P Q R : String → Path → Prop}

theorem scope (h : TakenUp w w' s s' P) : s'.scope = s.scope := congrArg (fun f => f.2.2) h.frame

theorem dir (h : TakenUp w w' s s' P) : s'.dir = s.dir := congrArg (fun f => f.2.1) h.frame

theorem refl (w : Workspace LocalFiles δ) (s : ProjectScope) (hP : ∀ m u, ¬ P m u) :
    TakenUp w w s s P :=
  ⟨.refl w, rfl, fun _ _ _ => rfl, fun _ _ h => h, fun _ _ h => h,
    fun m u h => absurd h (hP m u), fun _ _ h => Or.inl h, id⟩

/-- Names that are taken up later were free then, so they are not among those taken up
before. -/
theorem trans (h : TakenUp w w' s s' P) (h' : TakenUp w' w'' s' s'' Q)
    (hR : ∀ m u, R m u ↔ P m u ∨ Q m u) : TakenUp w w'' s s'' R where
  framed := h.framed.trans h'.framed
  frame := h'.frame.trans h.frame
  other j m hj := (h'.other j m (h.scope ▸ hj)).trans (h.other j m hj)
  located k l hl := h'.located k l (h.located k l hl)
  old m e he := by
    have he' := h'.old m e (h.scope ▸ h.old m e he)
    rwa [h.scope] at he'
  new m u hmu := by
    rcases (hR m u).mp hmu with hP | hQ
    · obtain ⟨hfree, e, he, hl⟩ := h.new m u hP
      have he' := h'.old m e (h.scope ▸ he)
      rw [h.scope] at he'
      exact ⟨hfree, e, he', h'.located _ _ hl⟩
    · obtain ⟨hfree, e, he, hl⟩ := h'.new m u hQ
      rw [h.scope] at hfree he
      refine ⟨Option.eq_none_iff_forall_ne_some.mpr fun e' he' => ?_, e, he, hl⟩
      rw [h.old m e' he'] at hfree
      cases hfree
  only m e he := by
    rcases h'.only m e (h.scope ▸ he) with hbefore | ⟨u, hQ⟩
    · rw [h.scope] at hbefore
      exact (h.only m e hbefore).imp_right fun ⟨u, hP⟩ => ⟨u, (hR m u).mpr (Or.inl hP)⟩
    · exact Or.inr ⟨u, (hR m u).mpr (Or.inr hQ)⟩
  bound hs := h'.bound (h.bound hs)

/-- A scope keeps its path variables. -/
theorem table (h : TakenUp w w' s s' P) {table : MacroTable}
    (htable : w.tableOf? s.scope = some table) : w'.tableOf? s'.scope = some table := by
  rw [h.scope, h.framed.tableOf?, htable]

end TakenUp

/-! ## 2. Going through the files of a scope -/

/-- What registering some names takes up: the names, for the unit that the template
names. -/
def NamedBy (table : MacroTable) (template : String) (ns : List String) (n : String) (u : Path) :
    Prop :=
  n ∈ ns ∧ u = ⟨table.expand template⟩

/-- A file that is not blank, with the name and the document that are read from it. -/
structure Disk.Documented (d : Disk) (file : Path) (f : String) (doc : Document) : Prop where
  name : file.fileName? = some f
  content : ∃ bytes, d.read file = .ok bytes ∧ Blank.isBlankContent bytes = false ∧
    Json.objectOfBytes bytes = .ok doc

/-- A file that can be read, and is blank or has a document. -/
def Disk.Passable (d : Disk) (file : Path) : Prop :=
  ∃ bytes, d.read file = .ok bytes ∧
    (Blank.isBlankContent bytes = false → ∃ doc, Json.objectOfBytes bytes = .ok doc)

/-- What a file takes up: the names of its document. -/
def FromFile (d : Disk) (settings : Settings) (table : MacroTable) (file : Path) (n : String)
    (u : Path) : Prop :=
  ∃ f doc, d.Documented file f doc ∧ NamedBy table (Project.template settings f) (keys doc) n u

/-- A file with a document takes up its names. -/
theorem Disk.Documented.fromFile_iff {d : Disk} {file : Path} {f : String} {doc : Document}
    (h : d.Documented file f doc) (settings : Settings) (table : MacroTable) (n : String)
    (u : Path) : FromFile d settings table file n u ↔
      NamedBy table (Project.template settings f) (keys doc) n u := by
  refine ⟨?_, fun hnamed => ⟨f, doc, h, hnamed⟩⟩
  rintro ⟨g, doc', ⟨hname, bytes', hread', _, hobject'⟩, hnamed⟩
  obtain ⟨bytes, hread, _, hobject⟩ := h.content
  rw [hread] at hread'
  obtain rfl := Except.ok.inj hread'
  rw [hobject] at hobject'
  rw [h.name] at hname
  rw [Except.ok.inj hobject', Option.some.inj hname]
  exact hnamed

/-- A file without one takes up nothing. -/
theorem not_fromFile {d : Disk} {file : Path} (h : ∀ f doc, ¬ d.Documented file f doc)
    (settings : Settings) (table : MacroTable) (n : String) (u : Path) :
    ¬ FromFile d settings table file n u := by
  rintro ⟨f, doc, hdoc, _⟩
  exact h f doc hdoc

section Going

variable [DecidableEq δ] [Digest δ] {files : LocalFiles} {w w' : Workspace LocalFiles δ}
  {s s' : ProjectScope} {settings : Settings} {table : MacroTable} {n template : String}

omit [DecidableEq δ] in
/-- A component that is entered under a free name is taken up. -/
theorem TakenUp.of_entered {p : PoolId} {e : Entry} {unit : Path}
    (hfree : w.entryOf? s.scope n = none)
    (h : Workspace.Entered w w' s.scope table p n e unit template) (hkept : w'.Kept) :
    TakenUp w w' s { s with components := Bindings.insert s.components n e.component }
      (fun m u => m ∈ [n] ∧ u = unit) := by
  refine
    { framed := h.framed
      frame := rfl
      other := fun j m hj => ?_
      located := fun k l hl => h.storage.location? hl
      old := fun m e he => ?_
      new := fun m u hmu => ?_
      only := fun m e he => ?_
      bound := fun hbound m => ?_ }
  · rw [h.entry, if_neg fun hat => hj hat.1]
  · rw [h.entry, if_neg, he]
    rintro ⟨_, rfl⟩
    rw [hfree] at he
    cases he
  · obtain ⟨hm, rfl⟩ := hmu
    obtain rfl := List.mem_singleton.mp hm
    exact ⟨hfree, _, (h.entry _ _).trans (if_pos ⟨rfl, rfl⟩), h.location? hkept⟩
  · rw [h.entry] at he
    split at he
    · rename_i hat
      exact Or.inr ⟨_, List.mem_singleton.mpr hat.2, rfl⟩
    · exact Or.inl he
  · rw [Bindings.get?_insert, h.entry]
    by_cases hm : m = n
    · rw [if_pos hm, if_pos ⟨rfl, hm⟩]
      rfl
    · rw [if_neg hm, if_neg fun hat => hm hat.2]
      exact hbound m

/-- **One component** is taken up for the unit of its template. -/
theorem TakenUp.of_register (h : w.JustRead files) (htable : w.tableOf? s.scope = some table)
    {out : ComponentId × ProjectScope}
    (hok : Project.register w s n template = (.ok out, w')) :
    TakenUp w w' s out.2 (NamedBy table template [n]) := by
  have hkept := (h.register hok).kept
  rw [Sound.register_eq] at hok
  -- Making the component touches neither the scopes nor the storages.
  generalize hw₁ : ({ w with vault := (w.vault.addComponent { name := n }).2 } :
    Workspace LocalFiles δ) = w₁ at hok
  have hmade : TakenUp w w₁ s s fun _ _ => False := by
    rw [← hw₁]
    exact ⟨⟨rfl, rfl, rfl, rfl, rfl, rfl, rfl, rfl⟩, rfl, fun _ _ _ => rfl, fun _ _ hl => hl,
      fun _ _ he => he, fun _ _ hno => hno.elim, fun _ _ he => Or.inl he, fun hbound => hbound⟩
  split at hok
  · cases hok
  rename_i unit w₂ hregistered
  obtain rfl : w₂ = w' := (Prod.mk.inj hok).2
  obtain rfl := Except.ok.inj (Prod.mk.inj hok).1
  obtain ⟨t, ht, hvariables⟩ := Option.bind_eq_some_iff.mp (hmade.table htable)
  obtain ⟨sub, hsub, rfl⟩ := Option.map_eq_some_iff.mp hvariables
  cases hbound : get? t.components n with
  | some e =>
    rw [Workspace.addComponent_of_bound ht _ (by rw [hbound]; rfl)] at hregistered
    cases hregistered
  | none =>
    rcases Workspace.addComponent_spec ht hsub w.vault.components.length hbound template with
      ⟨_, k, hentered⟩ | ⟨⟨e, he⟩, _⟩
    · rw [congrArg Prod.snd hregistered] at hentered
      have hfree : w₁.entryOf? s.scope n = none := by
        rw [Workspace.entryOf?, ht]
        exact hbound
      refine hmade.trans (TakenUp.of_entered hfree hentered hkept) fun m u => ?_
      rw [false_or]
      rfl
    · rw [hregistered] at he
      cases he

/-- **The names of a file** are taken up one after the other. -/
theorem TakenUp.of_registerAll {ns : List String} (h : w.JustRead files)
    (htable : w.tableOf? s.scope = some table)
    (hok : Project.registerAll template ns s w = (.ok (), s', w')) :
    TakenUp w w' s s' (NamedBy table template ns) ∧ w'.JustRead files := by
  induction ns generalizing s w with
  | nil =>
    obtain ⟨rfl, rfl⟩ := Prod.mk.inj (Prod.mk.inj hok).2
    exact ⟨.refl w s fun m u hmu => List.not_mem_nil hmu.1, h⟩
  | cons n ns ih =>
    rw [Project.registerAll] at hok
    split at hok
    · cases hok
    · rename_i id s₁ w₁ hregister
      have htaken := TakenUp.of_register h htable hregister
      obtain ⟨htaken', hread⟩ := ih (h.register hregister) (htaken.table htable) hok
      refine ⟨htaken.trans htaken' fun m u => ?_, hread⟩
      simp only [NamedBy, List.mem_cons, List.not_mem_nil, or_false, or_and_right]

/-- **The names of some files** are taken up, file by file, and every file has let it
pass. -/
theorem TakenUp.of_discoverFiles {paths : List Path} (h : w.JustRead files)
    (htable : w.tableOf? s.scope = some table)
    (hok : Project.discoverFiles settings paths s w = (.ok (), s', w')) :
    TakenUp w w' s s' (fun n u => ∃ file ∈ paths, FromFile files.disk settings table file n u) ∧
      w'.JustRead files ∧ ∀ file ∈ paths, files.disk.Passable file := by
  induction paths generalizing s w with
  | nil =>
    obtain ⟨rfl, rfl⟩ := Prod.mk.inj (Prod.mk.inj hok).2
    refine ⟨.refl w s fun m u hmu => ?_, h, fun file hfile => absurd hfile List.not_mem_nil⟩
    obtain ⟨file, hfile, _⟩ := hmu
    exact List.not_mem_nil hfile
  | cons file paths ih =>
    -- The first file is taken up, if only in that it has nothing, and the others behind it.
    have hthen : ∀ {s₁ w₁}, TakenUp w w₁ s s₁ (FromFile files.disk settings table file) →
        w₁.JustRead files → files.disk.Passable file →
        Project.discoverFiles settings paths s₁ w₁ = (.ok (), s', w') →
        TakenUp w w' s s'
          (fun n u => ∃ g ∈ file :: paths, FromFile files.disk settings table g n u) ∧
          w'.JustRead files ∧ ∀ g ∈ file :: paths, files.disk.Passable g := by
      intro s₁ w₁ htaken hread₁ hpass hrest
      obtain ⟨htaken', hread', hothers⟩ := ih hread₁ (htaken.table htable) hrest
      refine ⟨htaken.trans htaken' fun m u => ?_, hread', List.forall_mem_cons.mpr ⟨hpass, hothers⟩⟩
      simp only [List.mem_cons, or_and_right, exists_or, exists_eq_left]
    rw [Project.discoverFiles, h.backing] at hok
    split at hok
    · cases hok
    rename_i bytes hread
    have hsame : ∀ {f doc}, files.disk.Documented file f doc →
        Blank.isBlankContent bytes = false ∧ Json.objectOfBytes bytes = .ok doc := by
      rintro f doc ⟨_, bytes', hread', hcontent⟩
      rw [hread] at hread'
      rw [Except.ok.inj hread']
      exact hcontent
    have hnothing : (∀ f doc, ¬ files.disk.Documented file f doc) →
        TakenUp w w s s (FromFile files.disk settings table file) := fun hnone =>
      .refl w s (not_fromFile hnone settings table)
    split at hok
    · rename_i hblank
      refine hthen (hnothing fun f doc hdoc => ?_) h ⟨bytes, hread, fun hnot => ?_⟩ hok
      · rw [(hsame hdoc).1] at hblank
        cases hblank
      · rw [hnot] at hblank
        cases hblank
    · rename_i hblank
      split at hok
      · cases hok
      rename_i doc hobject
      split at hok
      · rename_i hname
        refine hthen (hnothing fun f doc hdoc => ?_) h ⟨bytes, hread, fun _ => ⟨doc, hobject⟩⟩ hok
        rw [hdoc.name] at hname
        cases hname
      · rename_i f hname
        split at hok
        · cases hok
        · rename_i s₁ w₁ hregistered
          have hdoc : files.disk.Documented file f doc :=
            ⟨hname, bytes, hread, Bool.eq_false_iff.mpr hblank, hobject⟩
          obtain ⟨htaken, hread₁⟩ := TakenUp.of_registerAll h htable hregistered
          have hsame : FromFile files.disk settings table file
              = NamedBy table (Project.template settings f) (keys doc) :=
            funext₂ fun n u => propext (hdoc.fromFile_iff settings table n u)
          exact hthen (hsame ▸ htaken) hread₁ ⟨bytes, hread, fun _ => ⟨doc, hobject⟩⟩ hok

/-- A file that the listing of the state directory of a scope has. -/
structure Disk.Shelved (d : Disk) (settings : Settings) (dir file : Path) : Prop where
  directory : d.isDirectory (settings.stateDirFor dir) = true
  listed : ∃ files, Project.storageFiles d settings (settings.stateDirFor dir) = .ok files ∧
    file ∈ files

/-- What a scope takes up: the names of the files in its state directory. -/
def FromDirectory (d : Disk) (settings : Settings) (table : MacroTable) (dir : Path) (n : String)
    (u : Path) : Prop :=
  ∃ file, d.Shelved settings dir file ∧ FromFile d settings table file n u

/-- The scope that is made for a directory. -/
def scopeFor (projectDir : Path) (name : String) (dir : Path) : Scope :=
  { name, pool := 0, substitutor := some { table := scopeTable projectDir dir } }

/-- **The names of a state directory** are taken up, and every file in it has let it
pass. -/
theorem TakenUp.of_discover (h : w.JustRead files) (htable : w.tableOf? s.scope = some table)
    (hok : Project.discover settings s w = (.ok (), s', w')) :
    TakenUp w w' s s' (FromDirectory files.disk settings table s.dir) ∧ w'.JustRead files ∧
      ∀ file, files.disk.Shelved settings s.dir file → files.disk.Passable file := by
  unfold Project.discover at hok
  simp only [h.backing] at hok
  split at hok
  · rename_i hthere
    split at hok
    · cases hok
    rename_i paths hlisted
    obtain ⟨htaken, hread, hpass⟩ := TakenUp.of_discoverFiles h htable hok
    have hshelved : ∀ file, files.disk.Shelved settings s.dir file ↔ file ∈ paths := by
      refine fun file => ⟨?_, fun hfile => ⟨hthere, paths, hlisted, hfile⟩⟩
      rintro ⟨_, paths', hlisted', hfile⟩
      rw [hlisted] at hlisted'
      rwa [Except.ok.inj hlisted']
    have hsame : FromDirectory files.disk settings table s.dir
        = fun n u => ∃ file ∈ paths, FromFile files.disk settings table file n u :=
      funext₂ fun n u => propext (exists_congr fun file => and_congr_left' (hshelved file))
    exact ⟨hsame ▸ htaken, hread, fun file hfile => hpass file ((hshelved file).mp hfile)⟩
  · rename_i hnone
    obtain ⟨rfl, rfl⟩ := Prod.mk.inj (Prod.mk.inj hok).2
    refine ⟨.refl w s fun n u htaken => ?_, h, fun file hfile => absurd hfile.directory hnone⟩
    obtain ⟨file, hfile, _⟩ := htaken
    exact hnone hfile.directory

/-- **Opening a scope** makes one, with the next number, which takes up the names of its
state directory. -/
theorem TakenUp.of_openScope (h : w.JustRead files) {projectDir dir : Path} {name : String}
    (hok : Project.openScope settings projectDir 0 name dir w = (.ok (), s', w')) :
    TakenUp (w.addScope (scopeFor projectDir name dir)).2 w' { name, dir, scope := w.scopes.length }
        s' (FromDirectory files.disk settings (scopeTable projectDir dir) dir) ∧
      w'.JustRead files ∧
      ∀ file, files.disk.Shelved settings dir file → files.disk.Passable file := by
  have hdiscovered : Project.discover settings { name, dir, scope := w.scopes.length }
    (w.addScope (scopeFor projectDir name dir)).2 = (.ok (), s', w') := hok
  refine TakenUp.of_discover (h.addScope name _) ?_ hdiscovered
  rw [Workspace.tableOf?, Workspace.scope?_addScope, if_pos rfl]
  rfl

end Going

/-! ## 3. Scope after scope -/

/-- **A record that agrees with its scope**, and with the files in its state
directory. -/
structure ProjectScope.Agrees (s : ProjectScope) (d : Disk) (settings : Settings)
    (projectDir : Path) (w : Workspace LocalFiles δ) : Prop where
  table : w.tableOf? s.scope = some (scopeTable projectDir s.dir)
  bound : s.Bound w
  filed : ∀ n u, FromDirectory d settings (scopeTable projectDir s.dir) s.dir n u →
    ∃ e, w.entryOf? s.scope n = some e ∧ w.vault.location? e.storage = some u.location
  only : ∀ n e, w.entryOf? s.scope n = some e →
    ∃ u, FromDirectory d settings (scopeTable projectDir s.dir) s.dir n u
  passable : ∀ file, d.Shelved settings s.dir file → d.Passable file

/-- Whatever leaves the scope and the units of storages alone does not matter. -/
theorem ProjectScope.Agrees.mono {s : ProjectScope} {d : Disk} {settings : Settings}
    {projectDir : Path} {w w' : Workspace LocalFiles δ} (h : s.Agrees d settings projectDir w)
    (htable : w'.tableOf? s.scope = w.tableOf? s.scope)
    (hentry : ∀ n, w'.entryOf? s.scope n = w.entryOf? s.scope n)
    (hlocated : ∀ k l, w.vault.location? k = some l → w'.vault.location? k = some l) :
    s.Agrees d settings projectDir w' where
  table := htable.trans h.table
  bound n := (h.bound n).trans (congrArg _ (hentry n).symm)
  filed n u hfrom := by
    obtain ⟨e, he, hl⟩ := h.filed n u hfrom
    exact ⟨e, (hentry n).trans he, hlocated _ _ hl⟩
  only n e he := h.only n e ((hentry n).symm.trans he)
  passable := h.passable

/-- **The records of a project as far as it has been opened**, in the order of its
parts. -/
structure Recorded (d : Disk) (settings : Settings) (projectDir : Path)
    (parts : List (String × Path)) (w : Workspace LocalFiles δ) (scopes : List ProjectScope) :
    Prop where
  frames : scopes.map ProjectScope.frame = parts.mapIdx fun id part => (part.1, part.2, id)
  length : w.scopes.length = parts.length
  agrees : ∀ s ∈ scopes, s.Agrees d settings projectDir w

namespace Recorded

variable {d : Disk} {settings : Settings} {projectDir dir : Path} {parts : List (String × Path)}
  {w w' : Workspace LocalFiles δ} {scopes : List ProjectScope}

/-- Every scope has a record. -/
theorem exists_record (h : Recorded d settings projectDir parts w scopes) {id : ScopeId}
    (hid : id < w.scopes.length) : ∃ s ∈ scopes, s.scope = id := by
  have hframe := congrArg (fun l => l[id]?) h.frames
  obtain ⟨part, hpart⟩ : ∃ part, parts[id]? = some part :=
    ⟨_, List.getElem?_eq_getElem (h.length ▸ hid)⟩
  simp only [List.getElem?_map, List.getElem?_mapIdx, hpart, Option.map_some] at hframe
  obtain ⟨s, hs, hframe⟩ := Option.map_eq_some_iff.mp hframe
  exact ⟨s, List.mem_of_getElem? hs, congrArg (fun f => f.2.2) hframe⟩

/-- The part of a record. -/
theorem part_of_mem (h : Recorded d settings projectDir parts w scopes) {s : ProjectScope}
    (hs : s ∈ scopes) : parts[s.scope]? = some (s.name, s.dir) :=
  ProjectScope.part_of_frames h.frames hs

theorem start (files : LocalFiles) (settings : Settings) (projectDir : Path) :
    Recorded files.disk settings projectDir []
      (Workspace.start files : Workspace LocalFiles δ) [] :=
  ⟨rfl, rfl, fun _ hs => absurd hs List.not_mem_nil⟩

/-- Steps that leave the scopes and the vault alone, as far as records go. -/
theorem mono (h : Recorded d settings projectDir parts w scopes)
    (hlength : w'.scopes.length = w.scopes.length)
    (htable : ∀ id, w'.tableOf? id = w.tableOf? id) (hentry : w'.entryOf? = w.entryOf?)
    (hvault : w'.vault = w.vault) : Recorded d settings projectDir parts w' scopes where
  frames := h.frames
  length := hlength.trans h.length
  agrees s hs := (h.agrees s hs).mono (htable _) (fun n => by rw [hentry]) fun _ _ hl => by
    rw [hvault]
    exact hl

/-- Attaching a registry is such a step. -/
theorem attach (h : Recorded d settings projectDir parts w scopes) (id : ScopeId) :
    Recorded d settings projectDir parts (w.attach id).2 scopes := by
  refine h.mono (w.length_attach id) (fun j => ?_) (w.views_attach id).1
    (Workspace.settle_vault _)
  rw [Workspace.tableOf?, Workspace.scope?_attach, Workspace.tableOf?]
  split
  · cases w.scope? j <;> rfl
  · rfl

variable [DecidableEq δ] [Digest δ] {files : LocalFiles} {s : ProjectScope}

/-- **One more scope** gets a record that agrees with it. -/
theorem openScope (h : Recorded files.disk settings projectDir parts w scopes)
    (hread : w.JustRead files) {name : String}
    (hok : Project.openScope settings projectDir 0 name dir w = (.ok (), s, w')) :
    Recorded files.disk settings projectDir (parts ++ [(name, dir)]) w' (scopes ++ [s]) ∧
      w'.JustRead files := by
  obtain ⟨hentry, _⟩ := w.views_addScope (s := scopeFor projectDir name dir) rfl rfl
  have hscope := w.scope?_addScope (scopeFor projectDir name dir)
  have hlength : (w.addScope (scopeFor projectDir name dir)).2.scopes.length
    = w.scopes.length + 1 := List.length_append
  have hvault : (w.addScope (scopeFor projectDir name dir)).2.vault = w.vault := rfl
  obtain ⟨htaken, hread', hpass⟩ := TakenUp.of_openScope hread hok
  generalize (w.addScope (scopeFor projectDir name dir)).2 = w₁ at *
  have htable : w₁.tableOf? w.scopes.length = some (scopeTable projectDir dir) := by
    rw [Workspace.tableOf?, hscope, if_pos rfl]
    rfl
  have hnumber : s.scope = w.scopes.length := htaken.scope
  have hdir : s.dir = dir := htaken.dir
  have hnone : ∀ n, w₁.entryOf? w.scopes.length n = none := fun n => by
    rw [hentry, Workspace.entryOf?, Workspace.scope?, List.getElem?_eq_none (Nat.le_refl _)]
    rfl
  refine ⟨⟨?_, ?_, fun t ht => ?_⟩, hread'⟩
  · rw [List.map_append, List.mapIdx_append, h.frames, List.map_singleton, htaken.frame]
    simp [ProjectScope.frame, h.length]
  · rw [htaken.framed.length, hlength, h.length, List.length_append, List.length_singleton]
  rcases List.mem_append.mp ht with ht | ht
  · -- The scopes before are left alone.
    have hne : t.scope ≠ w.scopes.length := by
      have hlt := (List.getElem?_eq_some_iff.mp (h.part_of_mem ht)).1
      rw [h.length]
      exact Nat.ne_of_lt hlt
    refine (h.agrees t ht).mono ?_ (fun n => ?_) fun k l hl => htaken.located k l ?_
    · rw [htaken.framed.tableOf?, Workspace.tableOf?, hscope, if_neg hne, Workspace.tableOf?]
    · rw [htaken.other t.scope n hne, hentry]
    · rw [hvault]
      exact hl
  · obtain rfl := List.mem_singleton.mp ht
    refine
      { table := hdir.symm ▸ htaken.table htable
        bound := htaken.bound fun n => ?_
        filed := fun n u hfrom => ?_
        only := fun n e he => ?_
        passable := hdir.symm ▸ hpass }
    · rw [hnone]
      rfl
    · rw [hnumber]
      exact (htaken.new n u (hdir ▸ hfrom)).2
    · rw [hnumber] at he
      rcases htaken.only n e he with hold | hfrom
      · rw [hnone] at hold
        cases hold
      · exact hdir.symm ▸ hfrom

/-- **The modules** get theirs, one after the other. -/
theorem openModules (h : Recorded files.disk settings projectDir parts w scopes)
    (hread : w.JustRead files) {registry : RegistryId} {modules : List ModuleEntry}
    (hok : (Project.openModules settings projectDir 0 registry modules scopes w).outcome = .ok ()) :
    Recorded files.disk settings projectDir
      (parts ++ modules.map fun m => (m.name, projectDir.join m.dir))
      (Project.openModules settings projectDir 0 registry modules scopes w).space
      (Project.openModules settings projectDir 0 registry modules scopes w).scopes := by
  induction modules generalizing parts scopes w with
  | nil =>
    rw [List.map_nil, List.append_nil]
    exact h
  | cons m modules ih =>
    rw [Opened.openModules_cons] at hok ⊢
    split at hok
    · cases hok
    · rename_i s w₁ hopened
      obtain ⟨hrecorded, hread'⟩ := h.openScope hread hopened
      have hlisted : Recorded files.disk settings projectDir _ (w₁.register registry s.scope) _ :=
        hrecorded.mono rfl (fun _ => rfl) rfl rfl
      have hrest := ih hlisted (hread'.list registry s.scope) hok
      rw [List.append_assoc] at hrest
      exact hrest

end Recorded

/-- **The records of a project that has been opened** agree with its scopes, and are those
of its parts. -/
theorem Project.recorded_of_open [DecidableEq δ] [Digest δ] {d : Disk} {dir : Path}
    {settings : Settings} {p : Project δ} (hopen : Project.open d dir settings = .ok p) :
    Recorded d settings p.dir (Project.parts p.manifest p.dir) p.space p.scopes := by
  obtain ⟨_, _, _, _, hopening⟩ := Project.open_eq_ok_iff.mp hopen
  rw [Opened.openScopes_eq] at hopening
  split at hopening
  · cases congrArg Project.Opening.outcome hopening
  · rename_i s w hroot
    have hok : _ = Except.ok () := congrArg Project.Opening.outcome hopening
    have hspace : _ = p.space := congrArg Project.Opening.space hopening
    have hscopes : _ = p.scopes := congrArg Project.Opening.scopes hopening
    let files : LocalFiles := { disk := d, durable := settings.durableWrites }
    obtain ⟨hrecorded, hread⟩ := (Recorded.start (δ := δ) files settings p.dir).openScope
      (.start files) hroot
    have hmodules := (hrecorded.attach s.scope).openModules (hread.attach s.scope) hok
    rw [List.nil_append, List.nil_append, hspace, hscopes] at hmodules
    exact hmodules

end ScopedState
