/-
`Proofs/Project/Reopened.lean` -- a project whose files have been written opens again.

What a project opens as depends on its directory, its manifest and the files of its
scopes. A save leaves the first two as they are, wherever the project is, as long as
the disk has room for it (`Housed`). So the project opens again exactly if the save
has left its files in order, and then with the scopes it had before.

It has if the names it has added are of components that no file of their scope had:
then each file can be read, and no name has come into a second file.
-/
import ScopedState.Command
import ScopedState.Proofs.Project.Opened
import ScopedState.Proofs.Project.Written
set_option autoImplicit false

namespace ScopedState

open Bindings (get? keys)
open Disk (FileName Lies names steps Temporary)
open Document (entryDepth)

/-! ## 1. The directory of a project -/

namespace Disk

variable {d d' : Disk} {place : Place} {dir root : Path}

/-- Whatever is on the disk is under names that something can have. -/
theorem Tree.fileNames (hd : d.Tree) (h : (d.node? place).isSome = true) :
    ∀ step ∈ place, FileName step := by
  induction place using List.reverseRecOn with
  | nil => exact fun step hstep => absurd hstep List.not_mem_nil
  | append_singleton above last ih =>
    intro step hstep
    rcases List.mem_append.mp hstep with habove | hlast
    · exact ih (by rw [hd.parent above last h]; rfl) step habove
    · rw [List.mem_singleton.mp hlast]
      exact hd.name above last h

theorem stepsOf_intercalate : ∀ {place : Place}, (∀ step ∈ place, FileName step) →
    stepsOf (['/'].intercalate (place.map String.toList)) = place
  | [], _ => rfl
  | [step], h => by
    obtain ⟨hne, _, _, hslash, _⟩ := h step List.mem_cons_self
    rw [List.map_singleton, List.intercalate_singleton,
      stepsOf_of_no_slash hslash (by simpa using hne), String.ofList_toList]
  | step :: next :: rest, h => by
    obtain ⟨hfirst, hrest⟩ := List.forall_mem_cons.mp h
    rw [List.map_cons, List.map_cons, List.intercalate_cons_cons, List.append_assoc,
      List.singleton_append, stepsOf_append_slash,
      stepsOf_of_no_slash hfirst.2.2.2.1 (by simpa using hfirst.1), String.ofList_toList,
      ← List.map_cons, stepsOf_intercalate hrest]
    rfl

/-- **The steps of a canonical path** are the place. -/
theorem steps_textOf (h : ∀ step ∈ place, FileName step) : steps ⟨textOf place⟩ = place := by
  have htext : (textOf place).toList = '/' :: ['/'].intercalate (place.map String.toList) := by
    rw [textOf, String.toList_append, String.toList_intercalate]
    rfl
  rw [steps_eq, htext]
  exact (stepsOf_append_slash [] _).trans (stepsOf_intercalate h)

/-- A path that names something is one that the system takes. -/
theorem check_of_isFile {p : Path} (h : d.isFile p = true) : check p = .ok () := by
  cases hcheck : check p with
  | error e =>
    rw [isFile, stat, locate, hcheck] at h
    cases h
  | ok u => rfl

theorem isAbsolute_textOf (place : Place) : (⟨textOf place⟩ : Path).isAbsolute = true := by
  rw [Path.isAbsolute, textOf, String.toList_append]
  rfl

/-- A file in the directory that a canonical path names. -/
theorem spells_below_canonical {name : String} (hname : FileName name)
    (hplace : ∀ step ∈ place, FileName step)
    (hfile : d.isFile ((⟨textOf place⟩ : Path).join ⟨name⟩) = true) :
    d.Spells ((⟨textOf place⟩ : Path).join ⟨name⟩) place name := by
  obtain ⟨front, htext, _⟩ := join_text (p := ⟨textOf place⟩) hname
  have hup : ".." ∉ place := fun h => (hplace ".." h).2.2.1 rfl
  have hleads : d.Leads place place := by
    have hdots := leads_of_noUp d hup
    rwa [List.filter_eq_self.mpr fun step hstep => decide_eq_true (hplace step hstep).2.1] at hdots
  exact
    { absolute := isAbsolute_join (isAbsolute_textOf place)
      check := check_of_isFile hfile
      closed := endsInSlash_of_text hname htext
      leads := ⟨place, by rw [steps_join_name _ hname.2.2.2.1 hname.1, steps_textOf hplace],
        hleads⟩
      named := ⟨hname.2.1, hname.2.2.1⟩ }

theorem isAbsolute_of_canonical (h : d.canonical dir = .ok root) : root.isAbsolute = true := by
  unfold canonical at h
  split at h
  · cases h
  · rename_i place _
    obtain rfl := Except.ok.inj h
    exact isAbsolute_textOf place

/-- **The directory of a project stays where it is**, and its manifest is read as
before, when the disk is extended around the manifest. -/
theorem manifest_stays (hd : d.Tree) (hcwd : d.node? d.cwd = some .directory) (hd' : d'.Tree)
    (hcwd' : d'.cwd = d.cwd) (hext : d.Extends d')
    (hother : ∀ place, d.Stays d' (place ++ [Manifest.fileName]))
    (hroot : d.canonical dir = .ok root)
    (hfile : d.isFile (root.join ⟨Manifest.fileName⟩) = true) :
    d'.canonical dir = .ok root ∧ d'.isFile (root.join ⟨Manifest.fileName⟩) = true ∧
      Manifest.load d' root = Manifest.load d root := by
  unfold canonical at hroot
  split at hroot
  · cases hroot
  rename_i place hlocate
  obtain rfl := Except.ok.inj hroot
  have hname : FileName Manifest.fileName := by decide
  -- The place is a directory, as the manifest is in it.
  have hcheck : check dir = .ok () := by
    cases hcheck : check dir with
    | error e =>
      rw [locate, hcheck] at hlocate
      cases hlocate
    | ok u => rfl
  have hstart : (d.node? (d.start dir)).isSome = true := by
    rw [start]
    split
    · rfl
    · rw [hcwd]
      rfl
  rw [locate, hcheck] at hlocate
  have hspells := spells_below_canonical hname
    (hd.fileNames (hd.node?_of_follow hstart hlocate)) hfile
  have hcontent := (hspells.isFile_iff (.refl d) hd).mp hfile
  obtain ⟨bytes, hbytes⟩ := Option.isSome_iff_exists.mp hcontent
  have hbytes' : d'.contentAt (place ++ [Manifest.fileName]) = some bytes := by
    rw [(hother place).contentAt_eq, hbytes]
  have hdirectory : d.node? place = some .directory := by
    obtain ⟨readOnly, hnode⟩ := contentAt_eq_some.mp hbytes
    exact hd.parent place _ (by rw [hnode]; rfl)
  refine ⟨?_, (hspells.isFile_iff hext hd').mpr (by rw [hbytes']; rfl), ?_⟩
  · have hstart' : d'.start dir = d.start dir := start_of_cwd hcwd' dir
    have hlocate' : d'.locate dir = .ok place := by
      rw [locate, hcheck, hstart']
      exact follow_of_extends hext hdirectory hlocate
    rw [canonical, hlocate']
  · have hread := (hspells.read (.refl d) hd hbytes).trans (hspells.read hext hd' hbytes').symm
    unfold Manifest.load readText
    dsimp only
    rw [hread]

end Disk

/-! ## 2. The files after a save -/

section Files

variable {d d' : Disk} {projectDir dir : Path} {dirs : List Path}
  {added : Location → String → Prop}

/-- **A directory of a project stays an ordinary one.** -/
theorem Disk.Rewritten.ordinary (h : d.Rewritten d' dirs) (hdir : dir ∈ dirs)
    (hordinary : d.Ordinary projectDir dir) :
    d'.Ordinary projectDir dir ∧ ∀ f, d'.filePlace dir f = d.filePlace dir f := by
  obtain ⟨hstands, hplace⟩ := hordinary.toStands.extends h.extend
  have hfile : ∀ f, d'.filePlace dir f = d.filePlace dir f := fun f =>
    congrArg (· ++ [f]) hplace
  refine ⟨⟨hstands, fun f hf hcontent => ?_⟩, hfile⟩
  rw [hfile] at hcontent
  rcases h.known dir hdir f hf hcontent with hbefore | hplain
  · exact hordinary.plain f hf hbefore
  · exact MacroTable.expand_of_no_dollar _ hplain

variable {δ : Type} [Digest δ] {fresh : ScopeId → String → Prop} {w : Workspace LocalFiles δ}

/-- **What is kept in a file**: components that the file has entries for, and such as
are fresh. -/
theorem Sound.kept_cases (h : Sound d projectDir dirs fresh w) (hdir : dir.isAbsolute = true)
    {f n : String} (hf : StorageName f) (hkept : w.KeptAt (unitPath dir f).location n) :
    n ∈ d.namesAt (d.filePlace dir f) ∨ ∃ id dir', fresh id n ∧ dirs[id]? = some dir' ∧
      (∀ g, d.filePlace dir g = d.filePlace dir' g) ∧
      ∃ e, w.entryOf? id n = some e ∧
        w.vault.location? e.storage = some (unitPath dir f).location := by
  obtain ⟨id, e, he, hlocation⟩ := hkept
  obtain ⟨dir', f', hdir', hlies, hf', hlocation', hnamed⟩ := h.entry id n e he
  have heq := Option.some.inj (hlocation.symm.trans hlocation')
  have hfile : d.filePlace dir f = d.filePlace dir' f' :=
    filePlace_of_location hdir hlies.absolute hf.1 hf'.1 heq
  rcases hnamed with hfresh | hname
  · have hnames := ((names_of_unitPath hdir hlies.absolute hf.1 hf'.1).mp heq).1
    refine Or.inr ⟨id, dir', hfresh, hdir', fun g => ?_, e, he, hlocation⟩
    rw [Disk.filePlace, Disk.filePlace, Disk.statePlace, Disk.statePlace,
      Disk.placeOf_congr d hnames]
  · exact Or.inl (hfile ▸ hname)

/-- **The files of a project stay in order** if what is fresh is one component, of a
name that no file of its scope has. -/
theorem Disk.Saved.orderly (h : d.Saved d' dirs w.KeptAt)
    (hsound : Sound d projectDir dirs fresh w)
    (hordinary : ∀ dir ∈ dirs, d.Ordinary projectDir dir)
    (horderly : ∀ dir ∈ dirs, d.Orderly dir)
    (honce : ∀ id id' n, fresh id n → fresh id' n → id = id')
    (hnew : ∀ id n dir, fresh id n → dirs[id]? = some dir → ¬ d.Names dir n) :
    ∀ dir ∈ dirs, d'.Orderly dir := by
  intro dir hdir
  have habsolute := (hordinary dir hdir).absolute
  have hfile := (h.ordinary hdir (hordinary dir hdir)).2
  obtain ⟨hlegible, hapart⟩ := horderly dir hdir
  refine ⟨fun f hf => ?_, fun f g n hf hg hn hn' => ?_⟩
  · rw [hfile]
    exact h.legible dir hdir f hf (hlegible f hf)
  · -- A name comes from before, or it is the fresh one.
    have hcases : ∀ f, StorageName f → n ∈ d'.namesAt (d'.filePlace dir f) →
        n ∈ d.namesAt (d.filePlace dir f) ∨ _ := fun f hf hn =>
      ((h.names dir hdir f hf n).mp (hfile f ▸ hn)).elim Or.inl
        (hsound.kept_cases habsolute hf)
    rcases hcases f hf hn with hn | ⟨id, dir₁, hfresh, hdir₁, hplace, e, he, hlocation⟩ <;>
      rcases hcases g hg hn' with hn' | ⟨id', dir₂, hfresh', hdir₂, hplace', e', he', hlocation'⟩
    · exact hapart f g n hf hg hn hn'
    · exact absurd ⟨f, hf, hplace' f ▸ hn⟩ (hnew id' n dir₂ hfresh' hdir₂)
    · exact absurd ⟨g, hg, hplace g ▸ hn'⟩ (hnew id n dir₁ hfresh hdir₁)
    · obtain rfl := honce id id' n hfresh hfresh'
      obtain rfl := Option.some.inj (he.symm.trans he')
      exact ((names_of_unitPath habsolute habsolute hf.1 hg.1).mp
        (Option.some.inj (hlocation.symm.trans hlocation'))).2

end Files

/-! ## 3. Opening again -/

section Opening

variable {δ : Type} [DecidableEq δ] [Digest δ] {d : Disk} {dir : Path} {settings : Settings}
  {p : Project δ} {scope component value : String} {v : Json}

/-- **What it takes to open a project**: its directory, its manifest and its scopes. -/
theorem Project.open_eq_ok_iff :
    Project.open d dir settings = .ok p ↔
      d.canonical dir = .ok p.dir ∧ d.isFile (p.dir.join ⟨Manifest.fileName⟩) = true ∧
      Manifest.load d p.dir = .ok p.manifest ∧ p.settings = settings ∧
      Project.openScopes settings p.manifest p.dir
          ({ vault := { backing := { disk := d, durable := settings.durableWrites } } } :
            Workspace LocalFiles δ)
        = { outcome := .ok (), scopes := p.scopes, space := p.space } := by
  rw [Project.open, Project.attempt]
  constructor
  · intro h
    split at h
    · cases h
    rename_i root hroot
    split at h
    case isFalse => cases h
    rename_i hfile
    split at h
    · cases h
    rename_i manifest hmanifest
    dsimp only at h
    generalize hopening : Project.openScopes settings manifest root
      ({ vault := { backing := { disk := d, durable := settings.durableWrites } } } :
        Workspace LocalFiles δ) = opening at h
    obtain ⟨outcome, scopes, space⟩ := opening
    cases outcome with
    | error e => cases h
    | ok u =>
      obtain rfl := Except.ok.inj h
      exact ⟨hroot, hfile, hmanifest, rfl, hopening⟩
  · rintro ⟨hroot, hfile, hmanifest, rfl, hopening⟩
    rw [hroot]
    simp only [hfile, if_true, hmanifest, hopening]
    rfl

/-- The directories of the scopes of a project. -/
def Project.dirs (p : Project δ) : List Path := (Project.parts p.manifest p.dir).map Prod.snd

/-- **A disk that has room for a project**: a tree with a working directory, on which
the directory of every scope is written without steps up or is there, leaves room for the names of
storage files, and has none whose name refers to a path variable; and no two of them
lead to one place under different names. -/
structure Project.Housed (p : Project δ) (d : Disk) : Prop where
  tree : d.Tree
  cwd : d.node? d.cwd = some .directory
  settled : ∀ dir ∈ p.dirs, d.Settled dir
  short : ∀ dir ∈ p.dirs, (dir.join ⟨".scopestore"⟩).text.utf8ByteSize + 257 < 4096
  plain : ∀ dir ∈ p.dirs, ∀ f, StorageName f →
    (d.contentAt (d.filePlace dir f)).isSome = true → (scopeTable p.dir dir).expand f = f
  apart : d.Apart p.dirs

omit [DecidableEq δ] [Digest δ] in
theorem Project.Housed.ordinary (h : p.Housed d) (hroot : p.dir.isAbsolute = true) :
    ∀ dir ∈ p.dirs, d.Ordinary p.dir dir := by
  intro dir hdir
  refine ⟨⟨?_, h.settled dir hdir, h.short dir hdir⟩, h.plain dir hdir⟩
  rcases List.mem_cons.mp hdir with rfl | hmodule
  · exact hroot
  · obtain ⟨_, hpart, rfl⟩ := List.mem_map.mp hmodule
    obtain ⟨m, _, rfl⟩ := List.mem_map.mp hpart
    exact Disk.isAbsolute_join hroot

omit [DecidableEq δ] [Digest δ] in
/-- A scope is found by the records of scopes alone. -/
theorem Project.scope?_frame {p' : Project δ}
    (h : p'.scopes.map ProjectScope.frame = p.scopes.map ProjectScope.frame) (name : String) :
    (p'.scope? name).map ProjectScope.frame = (p.scope? name).map ProjectScope.frame := by
  have hfound := congrArg (List.find? fun f => f.1 = name) h
  rw [List.find?_map, List.find?_map] at hfound
  exact hfound

/-- The manifest is no file that a save writes to. -/
theorem Disk.Rewritten.manifest {d' : Disk} {dirs : List Path} (h : d.Rewritten d' dirs)
    (place : Place) : d.Stays d' (place ++ [Manifest.fileName]) := by
  refine h.other _ Manifest.fileName List.getLast?_concat (by decide) ?_
  rintro ⟨name, hname⟩
  rw [List.getLast?_concat, Option.some.injEq] at hname
  have hlast := congrArg (fun t : String => t.toList.getLast?) hname
  rw [String.toList_append, List.getLast?_append_of_ne_nil _ (by decide)] at hlast
  exact absurd hlast (by decide)

/-- **A project that has been opened** has its files in order. -/
theorem Project.Housed.opened (hhoused : p.Housed d) (hsettings : settings.Standard)
    (hopen : Project.open d dir settings = .ok p) :
    Opened d p.dir (Project.parts p.manifest p.dir) p.space p.scopes ∧
      p.space.Listing (Project.parts p.manifest p.dir).length ∧ ∀ dir ∈ p.dirs, d.Orderly dir := by
  obtain ⟨hroot, _, _, rfl, hopening⟩ := Project.open_eq_ok_iff.mp hopen
  let files : LocalFiles := { disk := d, durable := p.settings.durableWrites }
  have htree : files.disk.Tree := hhoused.tree
  obtain ⟨hopens, horderly⟩ := openScopes_spec (δ := δ) htree hsettings p.manifest p.dir
    fun part hpart => hhoused.ordinary (Disk.isAbsolute_of_canonical hroot) _
      (List.mem_map_of_mem hpart)
  have horderly := horderly (by rw [hopening])
  obtain ⟨scopes, w, heq, hopened, hlisting⟩ := hopens horderly
  rw [hopening] at heq
  obtain ⟨_, rfl, rfl⟩ := Project.Opening.mk.inj heq
  refine ⟨hopened, hlisting, fun dir hdir => ?_⟩
  obtain ⟨part, hpart, rfl⟩ := List.mem_map.mp hdir
  exact horderly part hpart

/-- **A project opens again exactly if its files are in order**, when nothing else has
changed; and then it has the scopes it had. -/
theorem Project.Housed.reopens_spec (hhoused : p.Housed d) (hsettings : settings.Standard)
    (hopen : Project.open d dir settings = .ok p) {d' : Disk} (hleft : d.Rewritten d' p.dirs) :
    ((∀ dir ∈ p.dirs, d'.Orderly dir) → ∃ p' : Project δ, Project.open d' dir settings = .ok p' ∧
        Opened d' p.dir (Project.parts p.manifest p.dir) p'.space p'.scopes) ∧
      ∀ p' : Project δ, Project.open d' dir settings = .ok p' →
        ∀ dir ∈ p.dirs, d'.Orderly dir := by
  obtain ⟨hroot, hfile, hmanifest, rfl, _⟩ := Project.open_eq_ok_iff.mp hopen
  have hordinary := hhoused.ordinary (Disk.isAbsolute_of_canonical hroot)
  obtain ⟨hroot', hfile', hmanifest'⟩ := Disk.manifest_stays hhoused.tree hhoused.cwd hleft.tree
    hleft.cwd hleft.extend hleft.manifest hroot hfile
  let files' : LocalFiles := { disk := d', durable := p.settings.durableWrites }
  have htree' : files'.disk.Tree := hleft.tree
  obtain ⟨hopens, horderly⟩ := openScopes_spec (δ := δ) htree' hsettings p.manifest p.dir
    fun part hpart => (hleft.ordinary (List.mem_map_of_mem hpart)
      (hordinary _ (List.mem_map_of_mem hpart))).1
  refine ⟨fun hall => ?_, fun p' hopen' dir hdir => ?_⟩
  · obtain ⟨scopes, w, hopening, hopened, _⟩ := hopens fun part hpart =>
      hall _ (List.mem_map_of_mem hpart)
    exact ⟨{ p with scopes, space := w }, Project.open_eq_ok_iff.mpr
      ⟨hroot', hfile', hmanifest'.trans hmanifest, rfl, hopening⟩, hopened⟩
  · obtain ⟨hroot'', _, hmanifest'', _, hopening⟩ := Project.open_eq_ok_iff.mp hopen'
    obtain ⟨part, hpart, rfl⟩ := List.mem_map.mp hdir
    -- It has the directory and the manifest that it had.
    have hdir' : p'.dir = p.dir := Except.ok.inj (hroot''.symm.trans hroot')
    rw [hdir', hmanifest'.trans hmanifest] at hmanifest''
    rw [hdir', ← Except.ok.inj hmanifest''] at hopening
    exact horderly (by rw [hopening]) part hpart

end Opening

end ScopedState
