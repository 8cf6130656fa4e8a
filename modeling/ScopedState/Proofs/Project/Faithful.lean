/-
`Proofs/Project/Faithful.lean` -- which component stands for which stored key.

A storage file is found under one path and handed on under another. It is listed in the
state directory of its scope and read there. Its keys are registered by a template, the
directory of the scope as a variable with the rest of the path behind it, and a template
is expanded. What is expanded is not only the variable in front: the name of the state
directory and that of the file are text like any other, and `$PROJECT_DIR$.json` is a
name that a file can have.

So a key need not lead back to its file. What it is mapped to is always the unit of the
expanded template, and what it has is what is stored there (`Project.keys_of_open`). That
is the file itself exactly when the two paths have one location, and then the component
has the value of the key. A name without references is such a case, whatever spelling the
directory of the scope has: the two paths have the same names then, and paths with the
same names that can be read have the same content.
-/
import ScopedState.Proofs.Path.Pieces
import ScopedState.Proofs.Project.Recorded
import ScopedState.Proofs.Workspace.Exact
set_option autoImplicit false

namespace ScopedState

open Bindings (get? keys)
open Disk (FileName names steps)

variable {δ : Type}

/-! ## 1. Paths of one location -/

theorem Path.fileName?_congr {p q : Path} (h : p.location = q.location) :
    p.fileName? = q.fileName? := by
  rw [Path.fileName?, Path.fileName?, h]

namespace Disk

variable {d : Disk} {p q : Path} {place here : Place} {bytes : Bytes}

/-- What an absolute path leads to, its names lead to. -/
theorem follow_names (hp : p.isAbsolute = true) (h : d.locate p = .ok place) :
    d.follow [] (names p) = .ok place := by
  cases hcheck : check p with
  | error e =>
    rw [locate, hcheck] at h
    cases h
  | ok _ =>
    have hstart : d.start p = [] := if_pos hp
    rw [locate_eq_follow hcheck, hstart] at h
    rw [← filter_route]
    exact follow_filter h

/-- A file that is read is where the names of its path lead. -/
theorem exists_file_of_read (h : d.read p = .ok bytes) (hp : p.isAbsolute = true) :
    ∃ place readOnly, d.follow [] (names p) = .ok place ∧
      d.node? place = some (.file bytes readOnly) := by
  rw [read] at h
  split at h
  · cases h
  · cases h
  · rename_i content readOnly hstat
    obtain rfl := Except.ok.inj h
    rw [stat] at hstat
    split at hstat
    · cases hstat
    · rename_i place hlocate
      refine ⟨place, readOnly, follow_names hp hlocate, ?_⟩
      cases hnode : d.node? place with
      | none =>
        rw [hnode] at hstat
        cases hstat
      | some node =>
        rw [hnode] at hstat
        exact congrArg some (Except.ok.inj hstat)

/-- **Steps do not miss what their names find.** A dot behind a file is refused, but as a
file that is no directory. -/
theorem Tree.follow_ne_notFound (hd : d.Tree) {σ : List String}
    (hhere : (d.node? here).isSome = true) (h : d.follow here (σ.filter (· ≠ ".")) = .ok place) :
    d.follow here σ ≠ .error .notFound := by
  induction σ generalizing here with
  | nil =>
    intro hmissing
    cases hmissing
  | cons step σ ih =>
    intro hmissing
    by_cases hdot : step = "."
    · rw [List.filter_cons_of_neg (by simp [hdot])] at h
      obtain ⟨node, hnode⟩ := Option.isSome_iff_exists.mp hhere
      cases node with
      | directory =>
        have hstay : d.follow here [step] = .ok here :=
          follow_step_iff.mpr ⟨hnode, Or.inl ⟨hdot, rfl⟩⟩
        rw [← List.singleton_append, follow_append, hstay] at hmissing
        exact ih hhere h hmissing
      | file bytes readOnly =>
        rw [Disk.follow, hnode] at hmissing
        cases hmissing
    · rw [List.filter_cons_of_pos (by simpa using hdot)] at h
      obtain ⟨next, hstep, hrest⟩ := follow_cons_iff.mp h
      rw [← List.singleton_append, follow_append, hstep] at hmissing
      exact ih (hd.node?_of_follow hhere hstep) hrest hmissing

/-- **Paths of one location have one content**, as far as they can be read. -/
theorem Tree.content_of_location (hd : d.Tree) (hq : q.isAbsolute = true)
    (hlocation : p.location = q.location) (hread : d.read q = .ok bytes)
    {l : LocalFiles} (hl : l.disk = d) {content : Option Bytes} (hunit : l.read p = .ok content) :
    content = some bytes := by
  obtain ⟨hsame, hnames⟩ := names_eq_of_location hlocation
  have hp : p.isAbsolute = true := hsame.trans hq
  obtain ⟨place, readOnly, hfollow, hnode⟩ := exists_file_of_read hread hq
  rw [← hnames] at hfollow
  rw [LocalFiles.read, hl] at hunit
  split at hunit
  · rename_i found hfound
    obtain ⟨place', readOnly', hfollow', hnode'⟩ := exists_file_of_read hfound hp
    rw [hfollow] at hfollow'
    rw [← Except.ok.inj hfollow', hnode] at hnode'
    obtain ⟨rfl, _⟩ := Node.file.inj (Option.some.inj hnode')
    exact (Except.ok.inj hunit).symm
  · -- The path is not empty, so it is the steps that would have found nothing.
    rename_i hmissing
    have hlocate : d.locate p = .error .notFound := by
      unfold read stat at hmissing
      split at hmissing
      · rename_i e hstat
        split at hstat
        · rename_i e' hlocate
          rw [hlocate, Except.error.inj hstat, Except.error.inj hmissing]
        · cases hstat
      · cases hmissing
      · cases hmissing
    have hcheck : check p = .ok () := by
      have hfull : p.text.isEmpty = false := by
        rw [Bool.eq_false_iff]
        intro hempty
        rw [Path.isAbsolute, String.isEmpty_iff.mp hempty] at hp
        cases hp
      cases hcheck : check p with
      | ok _ => rfl
      | error e =>
        rw [locate, hcheck] at hlocate
        have he : e = .notFound := Except.error.inj hlocate
        rw [he, check, hfull] at hcheck
        split at hcheck
        · cases hcheck
        · rw [if_neg Bool.false_ne_true] at hcheck
          split at hcheck <;> cases hcheck
    have hstart : d.start p = [] := if_pos hp
    rw [locate_eq_follow hcheck, hstart] at hlocate
    exact absurd hlocate (hd.follow_ne_notFound rfl ((filter_route p).symm ▸ hfollow))
  · cases hunit

end Disk

/-! ## 2. The storage files of a scope -/

/-- The path that a file in the state directory of a scope is found under. -/
def Settings.fileIn (settings : Settings) (dir : Path) (f : String) : Path :=
  (settings.stateDirFor dir).join ⟨f⟩

/-- A file of the configured extension right in the state directory of a scope. -/
structure Disk.StorageFile (d : Disk) (settings : Settings) (dir : Path) (f : String) : Prop where
  listed : ∃ fs, d.list (settings.stateDirFor dir) = .ok fs ∧ f ∈ fs
  file : d.isFile (settings.fileIn dir f) = true
  extension : (settings.fileIn dir f).extension? = some settings.extension

/-- Such a file that is not blank, and the document that it holds. -/
structure Disk.Stores (d : Disk) (settings : Settings) (dir : Path) (f : String) (doc : Document) :
    Prop extends Disk.StorageFile d settings dir f where
  content : ∃ bytes, d.read (settings.fileIn dir f) = .ok bytes ∧
    Blank.isBlankContent bytes = false ∧ Json.objectOfBytes bytes = .ok doc

section Files

variable {d : Disk} {settings : Settings} {dir file : Path} {f n : String} {doc : Document}

/-- What is listed is a directory. -/
theorem Disk.isDirectory_of_list {p : Path} {fs : List String} (h : d.list p = .ok fs) :
    d.isDirectory p = true ∧ ∃ place, fs = d.childrenOf place := by
  rw [Disk.list] at h
  split at h
  · cases h
  · rename_i place hlocate
    split at h
    · rename_i hnode
      have hstat : d.stat p = .ok .directory := by
        rw [Disk.stat, hlocate]
        simp only [hnode, Option.getD_some]
      rw [Disk.isDirectory, hstat]
      exact ⟨rfl, place, (Except.ok.inj h).symm⟩
    · cases h

/-- A file that is listed has a proper name. -/
theorem Disk.StorageFile.fileName (h : d.StorageFile settings dir f) (hd : d.Tree) :
    FileName f := by
  obtain ⟨fs, hlist, hf⟩ := h.listed
  obtain ⟨_, place, rfl⟩ := Disk.isDirectory_of_list hlist
  exact hd.name place f (Disk.mem_childrenOf.mp hf)

theorem Settings.isAbsolute_stateDirFor (hdir : dir.isAbsolute = true) :
    (settings.stateDirFor dir).isAbsolute = true := Disk.isAbsolute_join hdir

theorem Settings.isAbsolute_fileIn (hdir : dir.isAbsolute = true) (f : String) :
    (settings.fileIn dir f).isAbsolute = true :=
  Disk.isAbsolute_join (Settings.isAbsolute_stateDirFor hdir)

/-- **What the state directory of a scope shelves** are its storage files. -/
theorem Disk.shelved_iff (hd : d.Tree) (hdir : dir.isAbsolute = true) :
    d.Shelved settings dir file ↔
      ∃ f, d.StorageFile settings dir f ∧ file = settings.fileIn dir f := by
  have habsolute : (settings.stateDirFor dir).isAbsolute = true :=
    Settings.isAbsolute_stateDirFor hdir
  -- The listed paths have different names, so none of them stands for another one.
  have hfiles : ∀ fs, d.list (settings.stateDirFor dir) = .ok fs → ∀ p,
      p ∈ (Paths.ofList ((fs.map fun name => (settings.stateDirFor dir).join ⟨name⟩).filter
        fun file => d.isFile file && file.extension? = some settings.extension)).toList ↔
        ∃ f, d.StorageFile settings dir f ∧ p = settings.fileIn dir f := by
    intro fs hlist p
    have hmem : ∀ q, q ∈ (fs.map fun name => (settings.stateDirFor dir).join ⟨name⟩).filter
        (fun file => d.isFile file && file.extension? = some settings.extension) ↔
          ∃ f, d.StorageFile settings dir f ∧ q = settings.fileIn dir f := by
      intro q
      rw [List.mem_filter, List.mem_map]
      constructor
      · rintro ⟨⟨f, hf, rfl⟩, hkept⟩
        obtain ⟨hfile, hextension⟩ := Bool.and_eq_true _ _ |>.mp hkept
        exact ⟨f, ⟨⟨fs, hlist, hf⟩, hfile, of_decide_eq_true hextension⟩, rfl⟩
      · rintro ⟨f, ⟨⟨fs', hlist', hf⟩, hfile, hextension⟩, rfl⟩
        rw [hlist] at hlist'
        rw [← Except.ok.inj hlist'] at hf
        exact ⟨⟨f, hf, rfl⟩, Bool.and_eq_true _ _ |>.mpr ⟨hfile, decide_eq_true hextension⟩⟩
    refine Iff.trans ((Paths.ofList_spec fun q hq q' hq' hlocation => ?_).2 p) (hmem p)
    obtain ⟨g, hg, rfl⟩ := (hmem q).mp hq
    obtain ⟨g', hg', rfl⟩ := (hmem q').mp hq'
    have hnames := Path.fileName?_congr hlocation
    rw [Settings.fileIn, Settings.fileIn, Disk.fileName?_join habsolute (hg.fileName hd),
      Disk.fileName?_join habsolute (hg'.fileName hd)] at hnames
    rw [Option.some.inj hnames]
  constructor
  · rintro ⟨_, files, hlisted, hfile⟩
    rw [Project.storageFiles] at hlisted
    split at hlisted
    · cases hlisted
    · rename_i fs hlist
      rw [← Except.ok.inj hlisted] at hfile
      exact (hfiles fs hlist file).mp hfile
  · rintro ⟨f, hf, rfl⟩
    obtain ⟨fs, hlist, _⟩ := hf.listed
    refine ⟨(Disk.isDirectory_of_list hlist).1, _, ?_, (hfiles fs hlist _).mpr ⟨f, hf, rfl⟩⟩
    rw [Project.storageFiles, hlist]

/-- A storage file is found under its name. -/
theorem Disk.StorageFile.documented_iff (h : d.StorageFile settings dir f) (hd : d.Tree)
    (hdir : dir.isAbsolute = true) {g : String} :
    d.Documented (settings.fileIn dir f) g doc ↔ g = f ∧ d.Stores settings dir f doc := by
  have hname : (settings.fileIn dir f).fileName? = some f :=
    Disk.fileName?_join (Settings.isAbsolute_stateDirFor hdir) (h.fileName hd)
  constructor
  · rintro ⟨hname', hcontent⟩
    rw [hname] at hname'
    exact ⟨(Option.some.inj hname').symm, h, hcontent⟩
  · rintro ⟨rfl, hstores⟩
    exact ⟨hname, hstores.content⟩

/-- **What a scope takes up** are the keys of its storage files, for the units of their
templates. -/
theorem fromDirectory_iff (hd : d.Tree) (hdir : dir.isAbsolute = true) (table : MacroTable)
    (u : Path) : FromDirectory d settings table dir n u ↔
      ∃ f doc, d.Stores settings dir f doc ∧ n ∈ keys doc ∧
        u = ⟨table.expand (Project.template settings f)⟩ := by
  constructor
  · rintro ⟨file, hshelved, g, doc, hdoc, hn, hu⟩
    obtain ⟨f, hf, rfl⟩ := (Disk.shelved_iff hd hdir).mp hshelved
    obtain ⟨rfl, hstores⟩ := (hf.documented_iff hd hdir).mp hdoc
    exact ⟨g, doc, hstores, hn, hu⟩
  · rintro ⟨f, doc, hstores, hn, hu⟩
    have hf := hstores.toStorageFile
    exact ⟨_, (Disk.shelved_iff hd hdir).mpr ⟨f, hf, rfl⟩, f, doc,
      (hf.documented_iff hd hdir).mpr ⟨rfl, hstores⟩, hn, hu⟩

/-- Valid settings have a relative state directory. -/
theorem Settings.relative_of_validate (hvalid : settings.validate = .ok ()) :
    (⟨settings.stateDir⟩ : Path).isAbsolute = false := by
  rw [Bool.eq_false_iff]
  intro habsolute
  unfold validate fault? at hvalid
  rw [habsolute, Bool.or_true] at hvalid
  split at hvalid
  · cases hvalid
  · rename_i hnone
    split at hnone
    · cases hnone
    · cases hnone

/-- **A path without references is expanded to the file itself**, up to its spelling. -/
theorem location_of_plain {projectDir : Path} (hvalid : settings.validate = .ok ())
    (hdir : dir.isAbsolute = true) (hf : FileName f)
    (hplain : (scopeTable projectDir dir).expand ("/" ++ settings.stateDir ++ "/" ++ f)
      = "/" ++ settings.stateDir ++ "/" ++ f) :
    (⟨(scopeTable projectDir dir).expand (Project.template settings f)⟩ : Path).location
      = (settings.fileIn dir f).location := by
  have htext : (dir.trimmed ++ ("/" ++ settings.stateDir ++ "/" ++ f)).toList
      = dir.trimmed.toList ++ '/' :: (settings.stateDir.toList ++ '/' :: f.toList) := by
    simp
  have habsolute : (⟨dir.trimmed ++ ("/" ++ settings.stateDir ++ "/" ++ f)⟩ : Path).isAbsolute
      = true := by
    rw [Path.isAbsolute, htext, List.head?_append, (Disk.trimmed_eq hdir).1]
    rfl
  have hne : f.toList ≠ [] := by simpa using hf.1
  have hsteps : steps ⟨dir.trimmed ++ ("/" ++ settings.stateDir ++ "/" ++ f)⟩
      = steps (settings.fileIn dir f) := by
    rw [Settings.fileIn, Settings.stateDirFor, Disk.steps_join_name _ hf.2.2.2.1 hf.1,
      Disk.steps_join _ (Settings.relative_of_validate hvalid), Disk.steps_eq, htext,
      Disk.stepsOf_append_slash, Disk.stepsOf_append_slash,
      Disk.stepsOf_of_no_slash hf.2.2.2.1 hne, String.ofList_toList, ← Disk.steps_trimmed dir,
      List.append_assoc]
    rfl
  rw [expand_template_eq, hplain,
    Disk.location_eq_iff habsolute (Settings.isAbsolute_fileIn hdir f), names, names, hsteps]

end Files

/-! ## 3. The components of a scope -/

namespace Project

variable [DecidableEq δ] [Digest δ] {d : Disk} {dir : Path} {settings : Settings} {p : Project δ}
  {s : ProjectScope} {f n : String} {doc : Document} {v : Json}

/-- **A key stands for a component** of a scope that is kept in the file, with the value. -/
def Keeps (p : Project δ) (s : ProjectScope) (n : String) (file : Path) (v : Json) : Prop :=
  ∃ c u, get? s.components n = some c ∧ p.space.unitOf? s.scope n = some u ∧
    u.location = file.location ∧ p.value? c = some v

/-- The unit that the keys of a file are registered for. -/
def unitFor (p : Project δ) (settings : Settings) (s : ProjectScope) (f : String) : Path :=
  ⟨(scopeTable p.dir s.dir).expand (template settings f)⟩

/-- The scopes of a project are in absolute directories. -/
theorem isAbsolute_of_mem (hopen : Project.open d dir settings = .ok p) (hs : s ∈ p.scopes) :
    s.dir.isAbsolute = true := by
  have hroot := Disk.isAbsolute_of_canonical (Project.open_eq_ok_iff.mp hopen).1
  have hpart := List.mem_of_getElem? ((Project.recorded_of_open hopen).part_of_mem hs)
  rcases List.mem_cons.mp hpart with hown | hmodule
  · have hdir : s.dir = p.dir := congrArg Prod.snd hown
    rw [hdir]
    exact hroot
  · obtain ⟨m, _, heq⟩ := List.mem_map.mp hmodule
    have hdir : p.dir.join m.dir = s.dir := congrArg Prod.snd heq
    rw [← hdir]
    exact Disk.isAbsolute_join hroot

/-- **Each key of a storage file** is a component for the unit of its template, and has
what is stored there under the key. -/
theorem component_of_key (hd : d.Tree) (hopen : Project.open d dir settings = .ok p)
    (hs : s ∈ p.scopes) (hstores : d.Stores settings s.dir f doc) (hn : n ∈ keys doc) :
    ∃ c u content document, get? s.components n = some c ∧
      p.space.unitOf? s.scope n = some u ∧ u.location = (p.unitFor settings s f).location ∧
      ({ disk := d } : LocalFiles).read u = .ok content ∧
      Document.ofContent u content = .ok document ∧
      p.value? c = (get? document n).map (scopeTable p.dir s.dir).expandValue := by
  have hread := Project.justRead_of_open hopen
  have hagrees := (Project.recorded_of_open hopen).agrees s hs
  obtain ⟨e, he, hlocation⟩ := hagrees.filed n _ ((fromDirectory_iff hd
    (isAbsolute_of_mem hopen hs) _ _).mpr ⟨f, doc, hstores, hn, rfl⟩)
  obtain ⟨u, hu, hul⟩ := Option.map_eq_some_iff.mp hlocation
  obtain ⟨st, hst, rfl⟩ := Option.map_eq_some_iff.mp hu
  obtain ⟨c, table, hc, htable, hvalue⟩ := hread.value s.scope n e he
  rw [hagrees.table] at htable
  obtain rfl := Option.some.inj htable
  -- The storage remembers what its unit has.
  have hsnapshot := hread.upToDate e.storage st hst
  rw [Vault.readSnapshot, hread.backing] at hsnapshot
  split at hsnapshot
  · cases hsnapshot
  rename_i content hcontent
  refine ⟨e.component, st.unit, content, st.snapshot.document, ?_, ?_, hul, hcontent, ?_, ?_⟩
  · rw [hagrees.bound n, he]
    rfl
  · rw [Workspace.unitOf?]
    show ((p.space.entryOf? s.scope n).bind fun entry => _) = _
    rw [he, Option.bind_some, hst]
    rfl
  · cases content with
    | none =>
      rw [← Except.ok.inj hsnapshot]
      rfl
    | some bytes =>
      rw [Snapshot.ofContent] at hsnapshot
      rw [Document.ofContent]
      split at hsnapshot
      · rename_i document hparse
        rw [hparse, ← Except.ok.inj hsnapshot]
      · cases hsnapshot
  · rw [Project.value?, hc, Option.bind_some, hvalue, Vault.snapshot_eq hst]

/-- **The components of a scope** are the keys of its storage files. -/
theorem mem_components_iff (hd : d.Tree) (hopen : Project.open d dir settings = .ok p)
    (hs : s ∈ p.scopes) :
    n ∈ keys s.components ↔ ∃ f doc, d.Stores settings s.dir f doc ∧ n ∈ keys doc := by
  have hagrees := (Project.recorded_of_open hopen).agrees s hs
  have hfrom : ∀ u, FromDirectory d settings (scopeTable p.dir s.dir) s.dir n u ↔
      ∃ f doc, d.Stores settings s.dir f doc ∧ n ∈ keys doc ∧
        u = ⟨(scopeTable p.dir s.dir).expand (template settings f)⟩ :=
    fromDirectory_iff hd (isAbsolute_of_mem hopen hs) _
  rw [Bindings.mem_keys_iff, hagrees.bound n, Option.isSome_map]
  constructor
  · intro hsome
    obtain ⟨e, he⟩ := Option.isSome_iff_exists.mp hsome
    obtain ⟨u, hu⟩ := hagrees.only n e he
    obtain ⟨f, doc, hstores, hn, _⟩ := (hfrom u).mp hu
    exact ⟨f, doc, hstores, hn⟩
  · rintro ⟨f, doc, hstores, hn⟩
    obtain ⟨e, he, _⟩ := hagrees.filed n _ ((hfrom _).mpr ⟨f, doc, hstores, hn, rfl⟩)
    rw [he]
    rfl

/-- A key is kept in its file, with its value, exactly if the template of the file names
the file. -/
theorem keeps_iff (hd : d.Tree) (hopen : Project.open d dir settings = .ok p) (hs : s ∈ p.scopes)
    (hstores : d.Stores settings s.dir f doc) (hv : get? doc n = some v) :
    p.Keeps s n (settings.fileIn s.dir f) ((scopeTable p.dir s.dir).expandValue v) ↔
      (p.unitFor settings s f).location = (settings.fileIn s.dir f).location := by
  obtain ⟨c, u, content, document, hc, hu, hlocation, hcontent, hdocument, hvalue⟩ :=
    component_of_key hd hopen hs hstores (Bindings.mem_keys_iff.mpr (by rw [hv]; rfl))
  constructor
  · rintro ⟨c', u', _, hu', hfile, _⟩
    rw [hu] at hu'
    rw [← hlocation, Option.some.inj hu']
    exact hfile
  · intro hsame
    refine ⟨c, u, hc, hu, hlocation.trans hsame, ?_⟩
    -- The unit is read as the file is, so its document is that of the file.
    obtain ⟨bytes, hread, hblank, hobject⟩ := hstores.content
    have hdir := isAbsolute_of_mem hopen hs
    obtain rfl := hd.content_of_location (Settings.isAbsolute_fileIn hdir f)
      (hlocation.trans hsame) hread rfl hcontent
    have hparse : Document.parse u bytes = .ok doc := by
      rw [Document.parse, if_neg (by rw [hblank]; exact Bool.false_ne_true), hobject]
    rw [Document.ofContent, hparse] at hdocument
    rw [hvalue, ← Except.ok.inj hdocument, hv]
    rfl

/-- **What becomes of the stored keys** when a project is opened. Every storage file that
is not blank has a document; the components of a scope are the keys of its documents; and
each is kept in the unit of its template and has what is stored there. This is the key's
own file, with the key's value, exactly when the template names the file, and so whenever
the path of the file below the directory of the scope is expanded to itself. -/
theorem keys_of_open (hd : d.Tree) (hvalid : settings.validate = .ok ())
    (hopen : Project.open d dir settings = .ok p) (hs : s ∈ p.scopes) :
    (∀ f bytes, d.StorageFile settings s.dir f → d.read (settings.fileIn s.dir f) = .ok bytes →
      Blank.isBlankContent bytes = false → ∃ doc, d.Stores settings s.dir f doc) ∧
    (∀ n, n ∈ keys s.components ↔ ∃ f doc, d.Stores settings s.dir f doc ∧ n ∈ keys doc) ∧
    ∀ f doc n v, d.Stores settings s.dir f doc → get? doc n = some v →
      (p.Keeps s n (settings.fileIn s.dir f) ((scopeTable p.dir s.dir).expandValue v) ↔
        (p.unitFor settings s f).location = (settings.fileIn s.dir f).location) ∧
      ((scopeTable p.dir s.dir).expand ("/" ++ settings.stateDir ++ "/" ++ f)
          = "/" ++ settings.stateDir ++ "/" ++ f →
        p.Keeps s n (settings.fileIn s.dir f) ((scopeTable p.dir s.dir).expandValue v)) ∧
      ∃ c u content document, get? s.components n = some c ∧
        p.space.unitOf? s.scope n = some u ∧ u.location = (p.unitFor settings s f).location ∧
        ({ disk := d } : LocalFiles).read u = .ok content ∧
        Document.ofContent u content = .ok document ∧
        p.value? c = (get? document n).map (scopeTable p.dir s.dir).expandValue := by
  have hdir := isAbsolute_of_mem hopen hs
  refine ⟨fun f bytes hfile hread hblank => ?_, fun n => mem_components_iff hd hopen hs,
    fun f doc n v hstores hv => ?_⟩
  · obtain ⟨bytes', hread', hdocument⟩ := ((Project.recorded_of_open hopen).agrees s hs).passable _
      ((Disk.shelved_iff hd hdir).mpr ⟨f, hfile, rfl⟩)
    rw [hread] at hread'
    rw [← Except.ok.inj hread'] at hdocument
    obtain ⟨doc, hobject⟩ := hdocument hblank
    exact ⟨doc, hfile, bytes, hread, hblank, hobject⟩
  · have hkeeps := keeps_iff hd hopen hs hstores hv
    refine ⟨hkeeps, fun hplain => hkeeps.mpr ?_, component_of_key hd hopen hs hstores
      (Bindings.mem_keys_iff.mpr (by rw [hv]; rfl))⟩
    exact location_of_plain hvalid hdir (hstores.fileName hd) hplain

end Project

/-- A file that is found and can be read stores its keys. -/
theorem Disk.exists_stores {d : Disk} {settings : Settings} {dir : Path} {f n : String}
    (fs names : List String) {bytes : Bytes} (hlist : d.list (settings.stateDirFor dir) = .ok fs)
    (hf : f ∈ fs) (hextension : (settings.fileIn dir f).extension? = some settings.extension)
    (hread : d.read (settings.fileIn dir f) = .ok bytes)
    (hblank : Blank.isBlankContent bytes = false)
    (hkeys : (Json.objectOfBytes bytes).toOption.map keys = some names) (hn : n ∈ names) :
    ∃ doc v, d.Stores settings dir f doc ∧ get? doc n = some v := by
  have hfile : d.isFile (settings.fileIn dir f) = true := by
    unfold Disk.read at hread
    unfold Disk.isFile
    split at hread
    · cases hread
    · cases hread
    · rename_i hstat
      rw [hstat]
  obtain ⟨doc, hdoc, rfl⟩ := Option.map_eq_some_iff.mp hkeys
  obtain ⟨v, hv⟩ := Option.isSome_iff_exists.mp (Bindings.mem_keys_iff.mp hn)
  exact ⟨doc, v, ⟨⟨⟨fs, hlist, hf⟩, hfile, hextension⟩, bytes, hread, hblank,
    toOption_eq_some_iff.mp hdoc⟩, hv⟩

/-- A project with two storage files, of which one has a reference for a name. -/
def referenceNamedDisk : Disk :=
  { nodes := [(["p"], .directory), (["p", ".scopestore"], .directory),
      (["p", ".scopestore", "$PROJECT_DIR$.json"],
        .file (Utf8.encode "\x7b\"a\": true\x7d".toList) false),
      (["p", ".scopestore", "b.json"], .file (Utf8.encode "\x7b\"b\": true\x7d".toList) false),
      (["p", "scopestore.toml"], .file (Utf8.encode "name = \"p\"\n".toList) false)] }

/-- It has both keys, the one of the file with the reference for a unit elsewhere. -/
theorem open_referenceNamedDisk : ∃ (p : Project Bytes) (s : ProjectScope),
    Project.open referenceNamedDisk ⟨"/p"⟩ {} = .ok p ∧ s ∈ p.scopes ∧ s.dir = ⟨"/p"⟩ ∧
      keys s.components = ["a", "b"] ∧
      p.space.unitOf? s.scope "a" = some ⟨"/p/.scopestore//p.json"⟩ := by
  have hopens : (Project.open (δ := Bytes) referenceNamedDisk ⟨"/p"⟩ {}).toOption.map (fun p =>
      p.scopes.map fun s => (s.dir, keys s.components, p.space.unitOf? s.scope "a"))
      = some [(⟨"/p"⟩, ["a", "b"], some ⟨"/p/.scopestore//p.json"⟩)] := by decide +kernel
  obtain ⟨p, hp, hscopes⟩ := Option.map_eq_some_iff.mp hopens
  obtain ⟨s, hs, heq⟩ := List.mem_map.mp (hscopes ▸ List.mem_singleton_self _)
  obtain ⟨hdir, hrest⟩ := Prod.mk.inj heq
  obtain ⟨hkeys, hunit⟩ := Prod.mk.inj hrest
  exact ⟨p, s, toOption_eq_some_iff.mp hp, hs, hdir, hkeys, hunit⟩

/-- The key of the file without references is kept there. -/
theorem Project.keys_of_open_beside_reference :
    ∃ (p : Project Bytes) (s : ProjectScope) (doc : Document) (v : Json),
      Project.open referenceNamedDisk ⟨"/p"⟩ {} = .ok p ∧ s ∈ p.scopes ∧
        keys s.components = ["a", "b"] ∧
        referenceNamedDisk.Stores {} s.dir "b.json" doc ∧ get? doc "b" = some v ∧
        p.Keeps s "b" (Settings.fileIn {} s.dir "b.json")
          ((scopeTable p.dir s.dir).expandValue v) := by
  have htree : referenceNamedDisk.Tree := Disk.tree_of_nodes (by decide +kernel)
  obtain ⟨p, s, hopen, hs, hdir, hkeys, _⟩ := open_referenceNamedDisk
  obtain ⟨doc, v, hstores, hv⟩ : ∃ doc v,
      referenceNamedDisk.Stores {} ⟨"/p"⟩ "b.json" doc ∧ get? doc "b" = some v :=
    Disk.exists_stores ["$PROJECT_DIR$.json", "b.json"] ["b"]
      (by decide +kernel) (by decide) (by decide +kernel) (by rfl) (by decide +kernel)
      (by decide +kernel) (by decide)
  rw [← hdir] at hstores
  have hplain := (keys_of_open htree (by rfl) hopen hs).2.2 "b.json" doc "b" v hstores hv
  refine ⟨p, s, doc, v, hopen, hs, hkeys, hstores, hv, hplain.2.1 ?_⟩
  exact MacroTable.expand_of_no_dollar _ (by decide)

/-- **A key may be lost on the way to its file.** The template of a file whose name is a
reference is another file's, and what is stored under the key is not found there. -/
theorem Project.key_of_reference_lost :
    ∃ (p : Project Bytes) (s : ProjectScope) (doc : Document) (v : Json),
      Settings.validate {} = .ok () ∧ Project.open referenceNamedDisk ⟨"/p"⟩ {} = .ok p ∧
        s ∈ p.scopes ∧ referenceNamedDisk.Stores {} s.dir "$PROJECT_DIR$.json" doc ∧
        get? doc "a" = some v ∧
        ¬ p.Keeps s "a" (Settings.fileIn {} s.dir "$PROJECT_DIR$.json")
          ((scopeTable p.dir s.dir).expandValue v) := by
  obtain ⟨p, s, hopen, hs, hdir, _, hunit⟩ := open_referenceNamedDisk
  obtain ⟨doc, v, hstores, hv⟩ : ∃ doc v,
      referenceNamedDisk.Stores {} ⟨"/p"⟩ "$PROJECT_DIR$.json" doc ∧ get? doc "a" = some v :=
    Disk.exists_stores ["$PROJECT_DIR$.json", "b.json"] ["a"]
      (by decide +kernel) (by decide) (by decide +kernel) (by rfl) (by decide +kernel)
      (by decide +kernel) (by decide)
  refine ⟨p, s, doc, v, by rfl, hopen, hs, hdir ▸ hstores, hv, ?_⟩
  rintro ⟨c, u, _, hu, hlocation, _⟩
  rw [hunit] at hu
  rw [← Option.some.inj hu, hdir] at hlocation
  revert hlocation
  decide +kernel

end ScopedState
