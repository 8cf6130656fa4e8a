/-
`Proofs/Project/Discovered.lean` -- when a project can be opened.

A scope is opened by going through the files of its state directory and registering
every name that a file has an entry for. Nothing but the files decides how that ends.
They are in order (`Orderly`) if each can be parsed and no two have an entry for one
name; then the components of the scope are the names of all files, in whatever
order these are listed, and otherwise the scope cannot be opened.

The modules of a project are opened one after the other in a workspace that they
share. So the project can be opened exactly if the files of every scope are in order.
-/
import ScopedState.Proofs.Project.Registered
set_option autoImplicit false

namespace ScopedState

open Bindings (get? keys)
open Disk (FileName Lies names)
open Workspace (Framed)

/-- What a record of a scope is about: its name, directory and number. -/
def ProjectScope.frame (s : ProjectScope) : String × Path × ScopeId := (s.name, s.dir, s.scope)

/-- Records that are numbered in the order of some parts have these names and
directories. -/
theorem ProjectScope.part_of_frames {scopes : List ProjectScope} {parts : List (String × Path)}
    (hframes : scopes.map frame = parts.mapIdx fun id part => (part.1, part.2, id))
    {s : ProjectScope} (hs : s ∈ scopes) : parts[s.scope]? = some (s.name, s.dir) := by
  obtain ⟨id, hid⟩ := List.getElem?_of_mem hs
  have hframe := congrArg (fun l => l[id]?) hframes
  simp only [List.getElem?_map, hid, Option.map_some, List.getElem?_mapIdx] at hframe
  obtain ⟨part, hpart, heq⟩ := Option.map_eq_some_iff.mp hframe.symm
  have hscope : s.scope = id := (congrArg (fun f => f.2.2) heq).symm
  rw [hscope, hpart]
  exact congrArg some (Prod.ext (congrArg (fun f => f.1) heq) (congrArg (fun f => f.2.1) heq))

/-- A record of a scope has the components that the scope has. -/
def ProjectScope.Bound {δ : Type} (s : ProjectScope) (w : Workspace LocalFiles δ) : Prop :=
  ∀ n, get? s.components n = (w.entryOf? s.scope n).map Entry.component

/-! ## 1. The files of one scope -/

/-- **Files in order**: each storage file of a directory can be parsed, and no two of
them have an entry for one name. -/
structure Disk.Orderly (d : Disk) (dir : Path) : Prop where
  legible : ∀ f, StorageName f → d.Legible (d.filePlace dir f)
  apart : ∀ f g n, StorageName f → StorageName g → n ∈ d.namesAt (d.filePlace dir f) →
    n ∈ d.namesAt (d.filePlace dir g) → f = g

/-- **An ordinary directory** for a scope of a project: no name of a storage file in it
refers to a path variable. -/
structure Disk.Ordinary (d : Disk) (projectDir dir : Path) : Prop extends Disk.Stands d dir where
  plain : ∀ f, StorageName f → (d.contentAt (d.filePlace dir f)).isSome = true →
    (scopeTable projectDir dir).expand f = f

/-- The names that the storage files of a directory have entries for. -/
def Disk.Names (d : Disk) (dir : Path) (n : String) : Prop :=
  ∃ f, StorageName f ∧ n ∈ d.namesAt (d.filePlace dir f)

/-- Files that can be parsed, with entries for different names of which none is taken. -/
structure Disk.Fit (d : Disk) (dir : Path) (taken : String → Prop) (fs : List String) : Prop where
  legible : ∀ f ∈ fs, (d.document? (d.filePlace dir f)).isSome = true
  free : ∀ f ∈ fs, ∀ n ∈ d.namesAt (d.filePlace dir f), ¬ taken n
  apart : ∀ f ∈ fs, ∀ g ∈ fs, ∀ n ∈ d.namesAt (d.filePlace dir f),
    n ∈ d.namesAt (d.filePlace dir g) → f = g

section Files

variable {d : Disk} {dir : Path} {f n : String} {fs : List String} {taken taken' : String → Prop}

theorem Disk.fit_cons (hf : f ∉ fs) : d.Fit dir taken (f :: fs) ↔
    ((d.document? (d.filePlace dir f)).isSome = true ∧
        ∀ n ∈ d.namesAt (d.filePlace dir f), ¬ taken n) ∧
      d.Fit dir (fun n => taken n ∨ n ∈ d.namesAt (d.filePlace dir f)) fs := by
  constructor
  · rintro ⟨hlegible, hfree, hapart⟩
    have hhead := List.mem_cons_self (a := f) (l := fs)
    refine ⟨⟨hlegible f hhead, hfree f hhead⟩, fun g hg => hlegible g (List.mem_cons_of_mem _ hg),
      fun g hg n hn => ?_, fun g hg g' hg' => ?_⟩
    · rintro (htaken | hin)
      · exact hfree g (List.mem_cons_of_mem _ hg) n hn htaken
      · exact hf (hapart f hhead g (List.mem_cons_of_mem _ hg) n hin hn ▸ hg)
    · exact hapart g (List.mem_cons_of_mem _ hg) g' (List.mem_cons_of_mem _ hg')
  · rintro ⟨⟨hdoc, hfirst⟩, hlegible, hfree, hapart⟩
    refine ⟨List.forall_mem_cons.mpr ⟨hdoc, hlegible⟩, List.forall_mem_cons.mpr
      ⟨hfirst, fun g hg n hn htaken => hfree g hg n hn (Or.inl htaken)⟩, ?_⟩
    intro g hg g' hg' n hn hn'
    rcases List.mem_cons.mp hg with rfl | hrest <;> rcases List.mem_cons.mp hg' with rfl | hrest'
    · rfl
    · exact absurd (Or.inr hn) (hfree g' hrest' n hn')
    · exact absurd (Or.inr hn') (hfree g hrest n hn)
    · exact hapart g hrest g' hrest' n hn hn'

theorem Disk.Fit.congr (h : d.Fit dir taken fs) (htaken : ∀ n, taken' n → taken n) :
    d.Fit dir taken' fs :=
  ⟨h.legible, fun f hf n hn hn' => h.free f hf n hn (htaken n hn'), h.apart⟩

/-- **Files are in order** if they fit once they are all listed. -/
theorem Disk.orderly_iff
    (hfs : ∀ f, f ∈ fs ↔ StorageName f ∧ (d.contentAt (d.filePlace dir f)).isSome = true) :
    d.Orderly dir ↔ d.Fit dir (fun _ => False) fs := by
  have hmem : ∀ f n, StorageName f → n ∈ d.namesAt (d.filePlace dir f) → f ∈ fs := fun f n hf hn =>
    (hfs f).mpr ⟨hf, Disk.content_of_document (Disk.document_of_names hn)⟩
  constructor
  · rintro ⟨hlegible, hapart⟩
    refine ⟨fun f hf => ?_, fun _ _ _ _ => id, fun f hf g hg n hn hn' => ?_⟩
    · exact hlegible f ((hfs f).mp hf).1 ((hfs f).mp hf).2
    · exact hapart f g n ((hfs f).mp hf).1 ((hfs g).mp hg).1 hn hn'
  · rintro ⟨hlegible, _, hapart⟩
    refine ⟨fun f hf hcontent => hlegible f ((hfs f).mpr ⟨hf, hcontent⟩), ?_⟩
    exact fun f g n hf hg hn hn' => hapart f (hmem f n hf hn) g (hmem g n hg hn') n hn hn'

end Files

/-! ## 2. Going through the files -/

variable {δ : Type} [Digest δ]

/-- **Components have been found**: the scope of a record has been given some, under
the names that `P` says. -/
structure Found (d : Disk) (projectDir : Path) (dirs : List Path) (w w' : Workspace LocalFiles δ)
    (s s' : ProjectScope) (P : String → Prop) : Prop where
  sound : Sound d projectDir dirs (fun _ _ => False) w'
  framed : Framed w w'
  frame : s'.frame = s.frame
  other : ∀ j m, j ≠ s.scope → w'.entryOf? j m = w.entryOf? j m
  entry : ∀ m, (w'.entryOf? s.scope m).isSome = true ↔ (w.entryOf? s.scope m).isSome = true ∨ P m
  component : ∀ m, m ∈ keys s'.components ↔ m ∈ keys s.components ∨ P m
  bound : s.Bound w → s'.Bound w'

namespace Found

variable {d : Disk} {projectDir : Path} {dirs : List Path} {w w' w'' : Workspace LocalFiles δ}
  {s s' s'' : ProjectScope} {P Q R : String → Prop}

theorem scope (h : Found d projectDir dirs w w' s s' P) : s'.scope = s.scope :=
  congrArg (fun f => f.2.2) h.frame

theorem refl (h : Sound d projectDir dirs (fun _ _ => False) w) (s : ProjectScope)
    (hP : ∀ m, ¬ P m) : Found d projectDir dirs w w s s P :=
  ⟨h, .refl w, rfl, fun _ _ _ => rfl, fun m => (or_iff_left (hP m)).symm,
    fun m => (or_iff_left (hP m)).symm, id⟩

theorem congr (h : Found d projectDir dirs w w' s s' P) (hQ : ∀ m, Q m ↔ P m) :
    Found d projectDir dirs w w' s s' Q :=
  { h with
    entry := fun m => by rw [h.entry, hQ]
    component := fun m => by rw [h.component, hQ] }

theorem trans (h : Found d projectDir dirs w w' s s' P)
    (h' : Found d projectDir dirs w' w'' s' s'' Q)
    (hR : ∀ m, R m ↔ P m ∨ Q m) : Found d projectDir dirs w w'' s s'' R where
  sound := h'.sound
  framed := h.framed.trans h'.framed
  frame := h'.frame.trans h.frame
  other j m hj := (h'.other j m (h.scope ▸ hj)).trans (h.other j m hj)
  entry m := by rw [← h.scope, h'.entry, h.scope, h.entry, hR, or_assoc]
  component m := by rw [h'.component, h.component, hR, or_assoc]
  bound hs := h'.bound (h.bound hs)

end Found

namespace Sound

variable [DecidableEq δ] {d : Disk} {projectDir : Path} {dirs : List Path}
  {w : Workspace LocalFiles δ} {settings : Settings} {s : ProjectScope} {dir : Path} {f n : String}
  {ns fs : List String}

/-- A name of a file is registered unless the scope has it. -/
theorem register_name (h : Sound d projectDir dirs (fun _ _ => False) w) (hd : d.Tree)
    (hsettings : settings.Standard) (hdir : dirs[s.scope]? = some dir) (hlies : d.Lies dir)
    (hf : StorageName f) (hplain : (scopeTable projectDir dir).expand f = f)
    (hname : n ∈ d.namesAt (d.filePlace dir f)) (hnew : w.entryOf? s.scope n = none) :
    ∃ c s' w', Project.register w s n (Project.template settings f) = (.ok (c, s'), w') ∧
      Found d projectDir dirs w w' s s' (· = n) := by
  have hknown := Disk.content_of_document (Disk.document_of_names hname)
  rcases h.register_of_new hd hsettings hdir hlies.toStands hf hplain (Or.inl hknown) hnew
      (Or.inr hname) with
    ⟨c, w', hok, hsound, hframed, _, k, hentry⟩ | ⟨_, hillegible⟩
  · refine ⟨c, _, w', hok, hsound, hframed, rfl, fun j m hj => ?_, fun m => ?_, fun m => ?_,
      fun hbound m => ?_⟩
    · rw [hentry, if_neg fun hat => hj hat.1]
    · rw [hentry]
      split
      · rename_i hat
        simp [hat.2]
      · rename_i hat
        exact (or_iff_left fun hm => hat ⟨rfl, hm⟩).symm
    · rw [Bindings.mem_keys_iff, Bindings.mem_keys_iff, Bindings.get?_insert]
      split
      · rename_i hm
        simp [hm]
      · rename_i hm
        exact (or_iff_left hm).symm
    · rw [Bindings.get?_insert, hentry]
      by_cases hm : m = n
      · rw [if_pos hm, if_pos ⟨rfl, hm⟩]
        rfl
      · rw [if_neg hm, if_neg fun hat => hm hat.2]
        exact hbound m
  · have hdoc := Disk.document_of_names hname
    rw [hillegible hlies] at hdoc
    cases hdoc

/-- **The names of a file are registered** if the scope has none of them. -/
theorem registerAll_of_new (h : Sound d projectDir dirs (fun _ _ => False) w) (hd : d.Tree)
    (hsettings : settings.Standard) (hdir : dirs[s.scope]? = some dir) (hlies : d.Lies dir)
    (hf : StorageName f) (hplain : (scopeTable projectDir dir).expand f = f) (hnodup : ns.Nodup)
    (hnames : ∀ n ∈ ns, n ∈ d.namesAt (d.filePlace dir f))
    (hnew : ∀ n ∈ ns, w.entryOf? s.scope n = none) :
    ∃ s' w', Project.registerAll (Project.template settings f) ns s w = (.ok (), s', w') ∧
      Found d projectDir dirs w w' s s' (· ∈ ns) := by
  induction ns generalizing s w with
  | nil => exact ⟨s, w, rfl, .refl h s fun m => List.not_mem_nil⟩
  | cons n ns ih =>
    obtain ⟨hhead, hrest⟩ := List.forall_mem_cons.mp hnames
    obtain ⟨hfirst, hothers⟩ := List.forall_mem_cons.mp hnew
    obtain ⟨hn, hnodup⟩ := List.nodup_cons.mp hnodup
    obtain ⟨c, s₁, w₁, hok, hfound⟩ :=
      h.register_name hd hsettings hdir hlies hf hplain hhead hfirst
    have hscope := hfound.scope
    obtain ⟨s', w', hall, hfound'⟩ := ih hfound.sound (hscope ▸ hdir) hnodup hrest (by
      intro m hm
      have hfree := (hfound.entry m).not.mpr (not_or.mpr ⟨by simp [hothers m hm], fun heq =>
        hn (heq ▸ hm)⟩)
      rw [hscope]
      simpa using hfree)
    refine ⟨s', w', ?_, hfound.trans hfound' fun m => List.mem_cons⟩
    rw [Project.registerAll, hok]
    exact hall

/-- A file with a name that the scope has is refused. -/
theorem registerAll_of_bound (h : Sound d projectDir dirs (fun _ _ => False) w) (hd : d.Tree)
    (hsettings : settings.Standard) (hdir : dirs[s.scope]? = some dir) (hlies : d.Lies dir)
    (hf : StorageName f) (hplain : (scopeTable projectDir dir).expand f = f)
    (hnames : ∀ n ∈ ns, n ∈ d.namesAt (d.filePlace dir f))
    (hbound : ∃ n ∈ ns, (w.entryOf? s.scope n).isSome = true) :
    ∃ e s' w', Project.registerAll (Project.template settings f) ns s w = (.error e, s', w') := by
  induction ns generalizing s w with
  | nil =>
    obtain ⟨n, hn, _⟩ := hbound
    cases hn
  | cons n ns ih =>
    obtain ⟨hhead, hrest⟩ := List.forall_mem_cons.mp hnames
    rw [Project.registerAll]
    cases hentry : w.entryOf? s.scope n with
    | some e =>
      obtain ⟨e, w', herror⟩ := h.register_of_bound hdir (by rw [hentry]; rfl)
        (Project.template settings f)
      rw [herror]
      exact ⟨e, s, w', rfl⟩
    | none =>
      obtain ⟨c, s₁, w₁, hok, hfound⟩ :=
        h.register_name hd hsettings hdir hlies hf hplain hhead hentry
      have hscope := hfound.scope
      rw [hok]
      refine ih hfound.sound (hscope ▸ hdir) hrest ?_
      obtain ⟨m, hm, hbound⟩ := hbound
      rcases List.mem_cons.mp hm with rfl | hm
      · rw [hentry] at hbound
        cases hbound
      · refine ⟨m, hm, ?_⟩
        rw [hscope, hfound.entry]
        exact Or.inl hbound

/-- **The step to the next file.** Its names are registered before those of the files
behind it; without a document it ends the discovery. -/
theorem discoverFiles_cons (h : Sound d projectDir dirs (fun _ _ => False) w) (hd : d.Tree)
    (hsettings : settings.Standard) (hlies : d.Lies dir) (hf : StorageName f)
    (hcontent : (d.contentAt (d.filePlace dir f)).isSome = true) (rest : List Path)
    (s : ProjectScope) :
    (∀ doc, d.document? (d.filePlace dir f) = some doc →
      Project.discoverFiles settings ((settings.stateDirFor dir).join ⟨f⟩ :: rest) s w
        = match Project.registerAll (Project.template settings f) (keys doc) s w with
          | (.error e, s, w) => (.error e, s, w)
          | (.ok (), s, w) => Project.discoverFiles settings rest s w) ∧
      (d.document? (d.filePlace dir f) = none → ∃ e s' w',
        Project.discoverFiles settings ((settings.stateDirFor dir).join ⟨f⟩ :: rest) s w
          = (.error e, s', w')) := by
  obtain ⟨bytes, hbytes⟩ := Option.isSome_iff_exists.mp hcontent
  have hstate : settings.stateDirFor dir = dir.join ⟨".scopestore"⟩ := by
    rw [Settings.stateDirFor, hsettings.stateDir]
  have hread : w.vault.backing.disk.read ((dir.join ⟨".scopestore"⟩).join ⟨f⟩) = .ok bytes := by
    rw [h.disk]
    exact (hlies.listed hf.1).read (.refl d) hd hbytes
  have hname : ((dir.join ⟨".scopestore"⟩).join ⟨f⟩).fileName? = some f :=
    Disk.fileName?_join (Disk.isAbsolute_join hlies.absolute) hf.1
  have hparse : ∀ doc, d.document? (d.filePlace dir f) = some doc ↔
      Document.parse ⟨""⟩ bytes = .ok doc := fun _ => Disk.document?_eq_some_iff hbytes ⟨""⟩
  rw [hstate, Project.discoverFiles, hread]
  simp only [hname]
  by_cases hblank : Blank.isBlankContent bytes = true
  · have hempty : Document.parse ⟨""⟩ bytes = .ok [] := by rw [Document.parse, if_pos hblank]
    rw [if_pos hblank]
    refine ⟨fun doc hdoc => ?_, fun hnone => ?_⟩
    · rw [(hparse doc).mp hdoc] at hempty
      rw [Except.ok.inj hempty]
      rfl
    · rw [(hparse []).mpr hempty] at hnone
      cases hnone
  · rw [if_neg hblank]
    cases hobject : Json.objectOfBytes bytes with
    | error fault =>
      have hfault : ∀ doc, Document.parse ⟨""⟩ bytes ≠ .ok doc := by
        intro doc hdoc
        rw [Document.parse, if_neg hblank, hobject] at hdoc
        cases hdoc
      exact ⟨fun doc hdoc => absurd ((hparse doc).mp hdoc) (hfault doc), fun _ => ⟨_, s, w, rfl⟩⟩
    | ok fields =>
      have hfields : Document.parse ⟨""⟩ bytes = .ok fields := by
        rw [Document.parse, if_neg hblank, hobject]
      refine ⟨fun doc hdoc => ?_, fun hnone => ?_⟩
      · rw [(hparse doc).mp hdoc] at hfields
        obtain rfl := Except.ok.inj hfields
        rcases hall : Project.registerAll (Project.template settings f) (keys doc) s w
          with ⟨_ | _, _⟩
        · simp only [hall]
        · simp only [hall]
      · rw [(hparse fields).mpr hfields] at hnone
        cases hnone

/-- The names of a document are what its file has entries for, each once. -/
theorem keys_of_document {place : Place} {doc : Document} (hdoc : d.document? place = some doc) :
    (keys doc).Nodup ∧ keys doc = d.namesAt place := by
  have hnames : keys doc = d.namesAt place := by
    rw [Disk.namesAt, hdoc]
    rfl
  obtain ⟨bytes, hbytes⟩ :=
    Option.isSome_iff_exists.mp (Disk.content_of_document (by rw [hdoc]; rfl))
  exact ⟨(Document.sorted_of_parse ((Disk.document?_eq_some_iff hbytes ⟨""⟩).mp hdoc)).nodup_keys,
    hnames⟩

/-- **Files that fit are gone through to the end.** -/
theorem discoverFiles_of_fit (h : Sound d projectDir dirs (fun _ _ => False) w) (hd : d.Tree)
    (hsettings : settings.Standard) (hdir : dirs[s.scope]? = some dir) (hlies : d.Lies dir)
    (hnodup : fs.Nodup) (hfs : ∀ f ∈ fs, StorageName f ∧
      (d.contentAt (d.filePlace dir f)).isSome = true ∧ (scopeTable projectDir dir).expand f = f)
    (hfit : d.Fit dir (fun n => (w.entryOf? s.scope n).isSome = true) fs) :
    ∃ s' w', Project.discoverFiles settings
          (fs.map fun f => (settings.stateDirFor dir).join ⟨f⟩) s w = (.ok (), s', w') ∧
      Found d projectDir dirs w w' s s' fun n => ∃ f ∈ fs, n ∈ d.namesAt (d.filePlace dir f) := by
  induction fs generalizing s w with
  | nil => exact ⟨s, w, rfl, .refl h s fun m hm => absurd hm (by simp)⟩
  | cons f fs ih =>
    obtain ⟨⟨hf, hcontent, hplain⟩, hrest⟩ := List.forall_mem_cons.mp hfs
    obtain ⟨hnot, hnodup⟩ := List.nodup_cons.mp hnodup
    obtain ⟨⟨hdoc, hfree⟩, hfit⟩ := (Disk.fit_cons hnot).mp hfit
    obtain ⟨doc, hdoc⟩ := Option.isSome_iff_exists.mp hdoc
    obtain ⟨hkeys, hnames⟩ := keys_of_document hdoc
    obtain ⟨s₁, w₁, hall, hfound⟩ := h.registerAll_of_new hd hsettings hdir hlies hf hplain hkeys
      (fun n hn => hnames ▸ hn) (fun n hn => by simpa using hfree n (hnames ▸ hn))
    have hscope := hfound.scope
    obtain ⟨s', w', hthen, hfound'⟩ := ih hfound.sound (hscope ▸ hdir) hnodup hrest
      (hfit.congr fun n hn => by
        rw [hscope, hfound.entry, hnames] at hn
        exact hn)
    refine ⟨s', w', ?_, hfound.trans hfound' fun m => ?_⟩
    · rw [List.map_cons, (h.discoverFiles_cons hd hsettings hlies hf hcontent _ s).1 doc hdoc, hall]
      exact hthen
    · rw [hnames]
      simp

/-- **Files that are gone through to the end fit.** -/
theorem fit_of_discoverFiles (h : Sound d projectDir dirs (fun _ _ => False) w) (hd : d.Tree)
    (hsettings : settings.Standard) (hdir : dirs[s.scope]? = some dir) (hlies : d.Lies dir)
    (hnodup : fs.Nodup) (hfs : ∀ f ∈ fs, StorageName f ∧
      (d.contentAt (d.filePlace dir f)).isSome = true ∧ (scopeTable projectDir dir).expand f = f)
    (hok : (Project.discoverFiles settings
      (fs.map fun f => (settings.stateDirFor dir).join ⟨f⟩) s w).1 = .ok ()) :
    d.Fit dir (fun n => (w.entryOf? s.scope n).isSome = true) fs := by
  induction fs generalizing s w with
  | nil => exact ⟨by simp, by simp, by simp⟩
  | cons f fs ih =>
    obtain ⟨⟨hf, hcontent, hplain⟩, hrest⟩ := List.forall_mem_cons.mp hfs
    obtain ⟨hnot, hnodup⟩ := List.nodup_cons.mp hnodup
    obtain ⟨hlegible, hillegible⟩ := h.discoverFiles_cons hd hsettings hlies hf hcontent
      (fs.map fun f => (settings.stateDirFor dir).join ⟨f⟩) s
    rw [List.map_cons] at hok
    cases hdoc : d.document? (d.filePlace dir f) with
    | none =>
      obtain ⟨e, s', w', herror⟩ := hillegible hdoc
      rw [herror] at hok
      cases hok
    | some doc =>
      obtain ⟨hkeys, hnames⟩ := keys_of_document hdoc
      rw [hlegible doc hdoc] at hok
      by_cases hbound : ∃ n ∈ keys doc, (w.entryOf? s.scope n).isSome = true
      · obtain ⟨e, s', w', herror⟩ := h.registerAll_of_bound hd hsettings hdir hlies hf hplain
          (fun n hn => hnames ▸ hn) hbound
        rw [herror] at hok
        cases hok
      · have hfree : ∀ n ∈ keys doc, ¬ (w.entryOf? s.scope n).isSome = true :=
          fun n hn hn' => hbound ⟨n, hn, hn'⟩
        obtain ⟨s₁, w₁, hall, hfound⟩ := h.registerAll_of_new hd hsettings hdir hlies hf hplain hkeys
          (fun n hn => hnames ▸ hn) (fun n hn => by simpa using hfree n hn)
        have hscope := hfound.scope
        rw [hall] at hok
        refine (Disk.fit_cons hnot).mpr ⟨⟨by rw [hdoc]; rfl, hnames ▸ hfree⟩, ?_⟩
        refine (ih hfound.sound (hscope ▸ hdir) hnodup hrest hok).congr fun n hn => ?_
        rw [hscope, hfound.entry, hnames]
        exact hn

/-! ## 3. A scope -/

/-- **What it takes to discover a scope**: that its files are in order. -/
theorem discover_spec (h : Sound d projectDir dirs (fun _ _ => False) w) (hd : d.Tree)
    (hsettings : settings.Standard) (hdir : dirs[s.scope]? = some s.dir)
    (hordinary : d.Ordinary projectDir s.dir) (hnew : ∀ n, w.entryOf? s.scope n = none) :
    (d.Orderly s.dir → ∃ s' w', Project.discover settings s w = (.ok (), s', w') ∧
        Found d projectDir dirs w w' s s' (d.Names s.dir)) ∧
      ((Project.discover settings s w).1 = .ok () → d.Orderly s.dir) := by
  have hstate : settings.stateDirFor s.dir = s.dir.join ⟨".scopestore"⟩ := by
    rw [Settings.stateDirFor, hsettings.stateDir]
  unfold Project.discover
  simp only [h.disk]
  cases hthere : d.isDirectory (settings.stateDirFor s.dir) with
  | true =>
    have hlies := hordinary.lies (hstate ▸ hthere)
    obtain ⟨fs, hnodup, hlist, hfs⟩ := storageFiles_spec hsettings hlies hd hthere
    have hfs' : ∀ f ∈ fs, StorageName f ∧ (d.contentAt (d.filePlace s.dir f)).isSome = true ∧
        (scopeTable projectDir s.dir).expand f = f := by
      intro f hf
      obtain ⟨hname, hcontent⟩ := (hfs f).mp hf
      exact ⟨hname, hcontent, hordinary.plain f hname hcontent⟩
    simp only [if_true, hlist]
    refine ⟨fun horderly => ?_, fun hok => ?_⟩
    · obtain ⟨s', w', hok, hfound⟩ := h.discoverFiles_of_fit hd hsettings hdir hlies hnodup hfs'
        (((Disk.orderly_iff hfs).mp horderly).congr fun n hn => by
          rw [hnew] at hn
          cases hn)
      refine ⟨s', w', hok, hfound.congr fun n => ⟨?_, ?_⟩⟩
      · rintro ⟨f, hf, hn⟩
        exact ⟨f, (hfs f).mpr ⟨hf, Disk.content_of_document (Disk.document_of_names hn)⟩, hn⟩
      · rintro ⟨f, hf, hn⟩
        exact ⟨f, ((hfs f).mp hf).1, hn⟩
    · refine (Disk.orderly_iff hfs).mpr ?_
      exact (h.fit_of_discoverFiles hd hsettings hdir hlies hnodup hfs' hok).congr fun n => False.elim
  | false =>
    -- Without a state directory there is nothing to find.
    have hnone : ∀ f n, n ∉ d.namesAt (d.filePlace s.dir f) := by
      intro f n hn
      have hcontent := Disk.content_of_document (Disk.document_of_names hn)
      rw [Disk.filePlace, hordinary.contentAt_eq_none hd (hstate ▸ hthere)] at hcontent
      cases hcontent
    refine ⟨fun _ => ⟨s, w, rfl, .refl h s fun n hn => ?_⟩, fun _ => ⟨fun f _ hcontent => ?_, ?_⟩⟩
    · obtain ⟨f, _, hn⟩ := hn
      exact hnone f n hn
    · rw [Disk.filePlace, hordinary.contentAt_eq_none hd (hstate ▸ hthere)] at hcontent
      cases hcontent
    · exact fun f g n _ _ hn => absurd hn (hnone f n)

end Sound

end ScopedState
