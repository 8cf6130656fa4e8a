/-
`Proofs/Project/Untouched.lean` -- saving a project that nobody has touched.

Opening turns the references in a file into paths, and saving turns paths into
references again. What comes out for a text is not always what the file has. A path
may have been written out, and a scope whose directory is that of the project has two
variables for one path, of which only one is ever put back. So a project that nobody
has touched is saved without a write exactly if its files are settled: each text in
them comes back from being expanded and collapsed.

That the writing depends on nothing else takes two steps. A component of a project
that has just been opened has what its storage remembers, so what is staged for a unit
is its own document, respelled. And a document that is equal to its respelling, or has
a text that is read as the document itself, has the very strings of the respelling.
-/
import ScopedState.Command
import ScopedState.Proofs.Macros.Plain
import ScopedState.Proofs.Project.JustOpened
import ScopedState.Proofs.Workspace.Again
import ScopedState.Proofs.Workspace.ReadOnly
set_option autoImplicit false

namespace ScopedState

open Bindings (Sorted get? keys)
open Document (entryDepth)

/-! ## 1. Documents, respelled -/

/-- **A text as it is put back**: expanded, and collapsed again. -/
def MacroTable.respell (table : MacroTable) (text : String) : String :=
  table.collapse (table.expand text)

theorem MacroTable.collapseValue_expandValue (table : MacroTable) (v : Json) :
    table.collapseValue (table.expandValue v) = v.mapStrings table.respell := by
  rw [collapseValue, expandValue, Json.mapStrings_mapStrings]
  rfl

namespace Document

variable {f : String → String} {d : Document} {states : States}

/-- States that are the entries of a document, with other strings. -/
structure Respelled (f : String → String) (d : Document) (states : States) : Prop where
  sorted : Sorted states
  entry : ∀ n state, get? states n = some state → state = (get? d n).map (Json.mapStrings f)

/-- The strings of the entries under some names stay when they are replaced. -/
def Stays (f : String → String) (d : Document) (states : States) : Prop :=
  ∀ n, (get? states n).isSome = true → ∀ v, get? d n = some v → ∀ t ∈ v.strings, f t = t

/-- A value that comes out as it was has the strings that it had. -/
theorem strings_of_mapStrings {v : Json} (h : v.mapStrings f = v) : ∀ t ∈ v.strings, f t = t :=
  Json.mapStrings_eq_iff v |>.mp (h.trans (Json.mapStrings_id v).symm)

/-- **Merging a respelled document** into itself leaves it equal exactly if the strings
stay. -/
theorem Respelled.same_iff (h : Respelled f d states) (hd : Sorted d) :
    (d.merge states).same d = true ↔ Stays f d states := by
  rw [same_merge_iff hd h.sorted]
  constructor
  · intro hsame n hn v hv
    obtain ⟨state, hstate⟩ := Option.isSome_iff_exists.mp hn
    have hentry := hsame n state hstate
    rw [h.entry n state hstate, hv] at hentry
    exact strings_of_mapStrings (Json.mapStrings_eq_of_same f v hentry)
  · intro hstays n state hstate
    rw [h.entry n state hstate]
    cases hv : get? d n with
    | none => rfl
    | some v =>
      have hid : v.mapStrings f = v.mapStrings id :=
        (Json.mapStrings_eq_iff v).mpr (hstays n (by rw [hstate]; rfl) v hv)
      rw [Option.map_some, hid, Json.mapStrings_id]
      exact Json.sameOption_refl _

/-- **A document that is read from the text of its respelling** has strings that stay. -/
theorem Respelled.stays_of_parse (h : Respelled f d states) {unit : Path}
    (hparse : parse unit (d.merge states).serialize = .ok d) : Stays f d states := by
  have hd := sorted_of_parse hparse
  obtain ⟨hregular, hshallow⟩ := within_of_parse hparse
  have hwithin : ∀ n v, get? d n = some v → v.Within entryDepth := fun n v hv =>
    ⟨hregular n v hv, hshallow n v hv⟩
  have hmerged : ∀ n v, get? (d.merge states) n = some v → v.Rereadable := by
    intro n v hv
    rw [get?_merge h.sorted] at hv
    cases hstate : get? states n with
    | none =>
      rw [hstate, Option.getD_none] at hv
      exact (hwithin n v hv).rereadable
    | some state =>
      rw [hstate, Option.getD_some, h.entry n state hstate] at hv
      obtain ⟨w, hw, rfl⟩ := Option.map_eq_some_iff.mp hv
      exact ((hwithin n w hw).mapStrings f).rereadable
  obtain ⟨e, he, _, hentries⟩ := parse_serialize (sorted_merge hd states) hmerged unit
  obtain rfl : d = e := Except.ok.inj (hparse.symm.trans he)
  intro n hn v hv
  obtain ⟨state, hstate⟩ := Option.isSome_iff_exists.mp hn
  have hmapped : get? (d.merge states) n = some (v.mapStrings f) := by
    rw [get?_merge h.sorted, hstate, Option.getD_some, h.entry n state hstate, hv, Option.map_some]
  -- What the entry is read as is the entry of the document.
  obtain ⟨v', hreads⟩ := hmerged n _ hmapped
  have hsame : v' = v := Option.some.inj ((hentries n _ v' hmapped hreads).symm.trans hv)
  rw [hsame] at hreads
  exact strings_of_mapStrings (Json.mapStrings_eq_of_readsAs f v _ 1 (hwithin n v hv) hreads)

end Document

open Document (Respelled Stays)

section Staging

variable {δ : Type} [DecidableEq δ] [Digest δ] {s : Snapshot δ} {f : String → String}
  {states : States} {unit : Path} {content : Option Bytes}

/-- **Nothing is staged for a unit** if the strings in it stay, when it is its own document
that is staged, respelled. -/
theorem Snapshot.stage_of_stays (hread : Snapshot.ofContent unit content = .ok s)
    (h : Respelled f s.document states) (hstays : Stays f s.document states) :
    s.stage states = none := by
  have hdescribes := describes_ofContent hread
  exact stage_eq_none_iff.mpr (Or.inl (redundant_of_same hdescribes.hash hdescribes.absent
    ((h.same_iff hdescribes.sorted).mpr hstays)))

/-- **And only then**: where the text comes out as the one that was read, it is read as the
document. -/
theorem Snapshot.stays_of_stage (hfaithful : Digest.Faithful δ)
    (hread : Snapshot.ofContent unit content = .ok s) (h : Respelled f s.document states)
    (hnone : s.stage states = none) : Stays f s.document states := by
  have hdescribes := describes_ofContent hread
  -- Nothing is staged for a document equal to its respelling, or for a text that is there.
  rcases stage_eq_none_iff.mp hnone with ⟨hsame, _⟩ | hwritten
  · exact (h.same_iff hdescribes.sorted).mp hsame
  · have hcontent : content = some (s.document.merge states).serialize := by
      refine content_eq_of_hash_eq (δ := δ) hfaithful ?_
      rw [← hdescribes.hash]
      exact hwritten
    rw [hcontent, Snapshot.ofContent] at hread
    split at hread
    · rename_i d hparse
      obtain rfl : d = s.document := congrArg Snapshot.document (Except.ok.inj hread)
      exact h.stays_of_parse hparse
    · cases hread

end Staging

/-! ## 2. Settled files -/

section Settling

variable {δ : Type} [DecidableEq δ] [Digest δ] {files : LocalFiles} {w : Workspace LocalFiles δ}
  {id : ScopeId} {s : Scope} {root : ScopeId}

/-- **The files of a scope are settled**: each text that they have for a component comes
back from being expanded and collapsed. -/
def Scope.Settled (s : Scope) (v : Vault LocalFiles δ) : Prop :=
  ∀ c ∈ s.components, ∀ sub ∈ s.substitutor,
    ∀ x ∈ get? (v.snapshot c.2.storage).document c.1, ∀ t ∈ x.strings, sub.table.respell t = t

/-- The files of a tree are settled if those of every scope are. -/
def Workspace.Settled (w : Workspace LocalFiles δ) (root : ScopeId) : Prop :=
  ∀ id ∈ (w.tree root).scopes, ∀ s ∈ w.scope? id, s.Settled w.vault

/-- The files of a project are settled. -/
def Project.Settled (p : Project δ) : Prop := p.space.Settled p.root

instance (s : Scope) (v : Vault LocalFiles δ) : Decidable (s.Settled v) := by
  unfold Scope.Settled
  infer_instance

instance (p : Project δ) : Decidable p.Settled := by
  unfold Project.Settled Workspace.Settled
  infer_instance

omit [DecidableEq δ] [Digest δ] in
/-- **What is collected for a unit**, name by name, in whichever vault: the states of the
components that the scope keeps there. -/
theorem Workspace.get?_collect_slotAt (hcomponents : Sorted s.components) (held : Path × StorageId)
    {macros : Option MacroTable} {v : Vault LocalFiles δ} {states : States}
    (hcollect : ScopeSession.collect macros v (w.slotAt s held).components = .ok states)
    (n : String) :
    get? states n = ((get? s.components n).filter fun e => e.storage = held.2).map fun e =>
      ((v.component? e.component).bind Component.value).map (Substitutor.collapseWith macros) := by
  have hslot : Sorted (w.slotAt s held).components :=
    (hcomponents.filter _).mapValues fun c => c.2.component
  have hstates : states = (w.slotAt s held).components.map fun c =>
      (c.1, ((v.component? c.2).bind Component.value).map (Substitutor.collapseWith macros)) :=
    ScopeSession.collect_eq hslot hcollect
  rw [hstates, Bindings.get?_mapEntries _ fun c : String × ComponentId =>
      ((v.component? c.2).bind Component.value).map (Substitutor.collapseWith macros),
    Workspace.slotAt, Bindings.get?_mapEntries _ fun c : String × Entry => c.2.component,
    hcomponents.get?_filter, Option.map_map]
  rfl

namespace Workspace.JustRead

omit [DecidableEq δ] in
/-- No component of a tree fails. -/
theorem noneFails (h : w.JustRead files) : w.NoneFails root :=
  fun _ _ _ _ _ _ component hcomponent => (h.plain _ component hcomponent).1

omit [DecidableEq δ] in
/-- **What is collected for a unit** is its own document, respelled, as far as the scope
has components there. -/
theorem collected (h : w.JustRead files) (hs : w.scope? id = some s) {sub : Substitutor}
    (hsub : s.substitutor = some sub) (held : Path × StorageId) {states : States}
    (hcollect : ScopeSession.collect (s.substitutor.map Substitutor.table) w.vault
      (w.slotAt s held).components = .ok states) :
    Respelled sub.table.respell (w.vault.snapshot held.2).document states ∧
      ∀ n, (get? states n).isSome = true
        ↔ ∃ e, get? s.components n = some e ∧ e.storage = held.2 := by
  have hget : ∀ n, get? states n = ((get? s.components n).filter fun e => e.storage = held.2).map
      fun e => w.storedState s e.component :=
    get?_collect_slotAt (h.kept.scope hs).components held hcollect
  refine ⟨⟨ScopeSession.sorted_collect hcollect, fun n state hstate => ?_⟩, fun n => ?_⟩
  · -- The state of a component is what its storage had for it, expanded and collapsed.
    rw [hget, Option.map_eq_some_iff] at hstate
    obtain ⟨e, he, rfl⟩ := hstate
    obtain ⟨hentry, hstorage⟩ := Option.filter_eq_some_iff.mp he
    obtain ⟨c, table, hc, htable, hvalue⟩ := h.value id n e (by
      rw [entryOf?, hs, Option.bind_some]
      exact hentry)
    obtain rfl := Option.some.inj ((tableOf?_eq hs hsub).symm.trans htable)
    rw [storedState, hc, Option.bind_some, hvalue, hsub, Option.map_some,
      of_decide_eq_true hstorage, Option.map_map]
    congr 1
    funext v
    exact sub.table.collapseValue_expandValue v
  · rw [hget, Option.isSome_map, Option.isSome_iff_exists]
    simp only [Option.filter_eq_some_iff, decide_eq_true_eq]

omit [DecidableEq δ] in
/-- **What has been read into a storage.** -/
theorem exists_content (h : w.JustRead files) {k : StorageId} {st : Storage δ}
    (hst : w.vault.storage? k = some st) :
    ∃ content, Backing.read files st.unit = .ok content ∧
      Snapshot.ofContent st.unit content = .ok st.snapshot := by
  rw [← h.backing]
  exact Vault.readSnapshot_eq_ok_iff.mp (h.upToDate k st hst)

/-- **What a scope stages for a unit**, which has been read, is its own document,
respelled. -/
theorem slotWrite_spec (h : w.JustRead files) (hid : id ∈ (w.tree root).scopes)
    (hs : w.scope? id = some s) {sub : Substitutor} (hsub : s.substitutor = some sub)
    {l : Location} {u : Path} {k : StorageId} (hl : get? s.storages l = some (u, k)) :
    ∃ st unit content states, w.vault.snapshot k = st ∧
      Snapshot.ofContent unit content = .ok st ∧
      Respelled sub.table.respell st.document states ∧
      (∀ n, (get? states n).isSome = true
        ↔ ∃ e, get? s.components n = some e ∧ e.storage = k) ∧
      (ScopeSession.slotWrite (s.substitutor.map Substitutor.table) w.vault (w.slotAt s (u, k))
        = none ↔ st.stage states = none) := by
  obtain ⟨st, hst, _⟩ := (h.kept.scope hs).exists_storage hl
  obtain ⟨content, _, hread⟩ := h.exists_content hst
  have hgives : ScopeSession.tells (s.substitutor.map Substitutor.table) w.vault
      (w.slotAt s (u, k)) = true := by
    have hall := h.noneFails.tells hid
    simp only [openScope, hs, layout_eq, List.all_map, List.all_eq_true] at hall
    exact hall _ (Bindings.mem_of_get? hl)
  cases hcollect : ScopeSession.collect (s.substitutor.map Substitutor.table) w.vault
      (w.slotAt s (u, k)).components with
  | error e =>
    rw [ScopeSession.tells, hcollect] at hgives
    cases hgives
  | ok states =>
    obtain ⟨hrespelled, hnames⟩ := h.collected hs hsub (u, k) hcollect
    rw [Vault.snapshot_eq hst] at hrespelled ⊢
    refine ⟨_, st.unit, content, states, rfl, hread, hrespelled, hnames, ?_⟩
    rw [ScopeSession.slotWrite, ScopeSession.stageSlot, hcollect]
    show w.vault.stage k states = none ↔ _
    rw [Vault.stage, hst, Option.map_eq_none_iff]

/-- A scope wants to write nothing if it does not for any of its units. -/
theorem wanted_eq_nil_iff (hs : w.scope? id = some s) :
    (w.openScope id).wanted w.vault = [] ↔ ∀ x ∈ s.storages,
      ScopeSession.slotWrite (s.substitutor.map Substitutor.table) w.vault (w.slotAt s x.2)
        = none := by
  simp only [ScopeSession.wanted, openScope, hs, layout_eq, List.filterMap_map,
    List.filterMap_eq_nil_iff, Function.comp_apply]

/-- **A scope whose files are settled** wants to write nothing. -/
theorem wanted_of_settled (h : w.JustRead files) (hid : id ∈ (w.tree root).scopes)
    (hs : w.scope? id = some s) (hsettled : s.Settled w.vault) :
    (w.openScope id).wanted w.vault = [] := by
  obtain ⟨sub, hsub⟩ := h.macros id s hs
  rw [wanted_eq_nil_iff hs]
  rintro ⟨l, u, k⟩ hx
  have hl := (h.kept.scope hs).storages.get?_of_mem hx
  obtain ⟨st, _, _, states, hst, hread, hrespelled, hnames, hstage⟩ :=
    h.slotWrite_spec hid hs hsub hl
  refine hstage.mpr (Snapshot.stage_of_stays hread hrespelled fun n hn v hv => ?_)
  obtain ⟨e, he, rfl⟩ := (hnames n).mp hn
  rw [← hst] at hv
  exact hsettled (n, e) (Bindings.mem_of_get? he) sub hsub v hv

/-- **A scope that wants to write nothing** has settled files. -/
theorem settled_of_wanted (hfaithful : Digest.Faithful δ) (h : w.JustRead files)
    (hid : id ∈ (w.tree root).scopes) (hs : w.scope? id = some s)
    (hwanted : (w.openScope id).wanted w.vault = []) : s.Settled w.vault := by
  rintro ⟨n, e⟩ hc sub hsub v hv
  have he := (h.kept.scope hs).components.get?_of_mem hc
  obtain ⟨l, u, hl⟩ := (h.kept.scope hs).mapped n e he
  obtain ⟨st, _, _, states, hst, hread, hrespelled, hnames, hstage⟩ :=
    h.slotWrite_spec hid hs hsub hl
  have hnone := hstage.mp ((wanted_eq_nil_iff hs).mp hwanted _ (Bindings.mem_of_get? hl))
  have hstays := Snapshot.stays_of_stage hfaithful hread hrespelled hnone
  refine hstays n ((hnames n).mpr ⟨e, he, rfl⟩) v ?_
  rw [← hst]
  exact hv

end Workspace.JustRead

end Settling

/-! ## 3. The command -/

section Listing

variable {β δ : Type}

/-- A session that has been staged lists no unit exactly if it has nothing to write. -/
theorem Workspace.filesToSave_stagedOn [Backing β] [DecidableEq δ] [Digest δ]
    (w : Workspace β δ) (root : ScopeId) (v v' : Vault β δ) :
    ((w.stagedOn root v).filesToSave true v').1 = [] ↔ (w.stagedOn root v).writes = [] :=
  SessionTree.filesToSave_eq_nil_iff ((w.layered_openTree (w.tree root)).save v) v'

end Listing

/-- **The reply tells whether something has been saved.** -/
theorem Command.savedText_eq_nil_iff (format : Format) (files : Paths) :
    savedText format files = savedText format [] ↔ files = [] := by
  constructor
  · intro h
    cases files with
    | nil => rfl
    | cons f files =>
      have htext := congrArg String.toList h
      cases format with
      | human => simp [savedText, Report.marked, Report.Mark.symbol] at htext
      | json =>
        -- The text of an array with items goes on with a new line.
        simp only [savedText, pathDocument, document, Paths.toList, Bindings.values, List.map_cons,
          List.map_nil, Json.toPretty, Json.pretty, String.toList_append, String.toList_ofList]
          at htext
        cases files <;> simp [Json.prettyItems, Json.newLine] at htext
  · rintro rfl
    rfl

section Saving

variable {δ : Type} [DecidableEq δ] [Digest δ] {d : Disk} {dir : Path} {settings : Settings}
  {p : Project δ} {format : Format}

/-- **What the command replies** once the project is open. It goes well if no unit is
refused, and staging and finishing go well; then it tells the units that were listed. -/
theorem Command.save_spec (hopen : Project.open d dir settings = .ok p) (format : Format) :
    let staged := (p.space.startSave p.root).save p.space.vault
    let finished := staged.session.finish staged.world
    let reply := Command.save δ d dir settings format
    (reply.error = none ↔
        staged.readOnly = [] ∧ staged.outcome = .ok () ∧ finished.outcome = .ok ()) ∧
      (reply.error = none → reply.disk = finished.world.backing.disk ∧
        reply.stdout = savedText format (staged.session.filesToSave true staged.world).1) := by
  obtain ⟨events, hattempt⟩ : ∃ events, Project.attempt (δ := δ) d dir settings
      = (.ok p, events) := ⟨_, Prod.ext hopen rfl⟩
  simp only [Command.save, Command.withProject, hattempt]
  generalize (p.space.startSave p.root).save p.space.vault = staged
  by_cases hreadOnly : staged.readOnly = []
  · simp only [hreadOnly, List.isEmpty_nil, if_true, true_and]
    rw [← SessionTree.firstFailure_eq_ok_iff]
    cases firstFailure staged.outcome (staged.session.finish staged.world).outcome with
    | error e => simp
    | ok u => simp
  · simp [hreadOnly]

/-- **A project that nobody has touched is saved without a write** if its files are
settled: the command goes well, leaves the disk as it is, and lists no unit. And only
then, as long as different texts have different digests: when the command goes well and
lists no unit, the files are settled. -/
theorem Command.save_untouched (hopen : Project.open d dir settings = .ok p) (format : Format) :
    let reply := Command.save δ d dir settings format
    (p.Settled →
      reply.error = none ∧ reply.stdout = savedText format [] ∧ reply.disk = d) ∧
      (Digest.Faithful δ → reply.error = none → reply.stdout = savedText format [] →
        p.Settled) := by
  intro reply
  obtain ⟨herror, hreply⟩ := Command.save_spec hopen format
  have hread := Project.justRead_of_open hopen
  have hsession : ((p.space.startSave p.root).save p.space.vault).session
      = p.space.stagedOn p.root p.space.vault := rfl
  constructor
  · -- No scope wants to write, so nothing is staged, and nothing is left to finish.
    intro hsettled
    have hwanted : ∀ id ∈ (p.space.tree p.root).scopes,
        (p.space.openScope id).layout.all
            (ScopeSession.tells (p.space.openScope id).macros p.space.vault) = true ∧
          (p.space.openScope id).wanted p.space.vault = [] := by
      intro id hid
      refine ⟨hread.noneFails.tells hid, ?_⟩
      cases hs : p.space.scope? id with
      | none =>
        unfold Workspace.openScope
        rw [hs]
        rfl
      | some s => exact hread.wanted_of_settled hid hs (hsettled id hid s hs)
    obtain ⟨hstaged, hnone, hworld, hwrites, hok, hsame⟩ :=
      Workspace.staging_of_nothing_wanted hwanted
    rw [hsession, hworld] at herror hreply
    have hgood : reply.error = none := herror.mpr ⟨hnone, hstaged, hok⟩
    obtain ⟨hdisk, hstdout⟩ := hreply hgood
    refine ⟨hgood, ?_, ?_⟩
    · rw [(p.space.filesToSave_stagedOn p.root _ _).mpr hwrites] at hstdout
      exact hstdout
    · rw [hsame, hread.backing] at hdisk
      exact hdisk
  · -- What the reply lists are the units with a write, and it is the reply without any.
    intro hfaithful hgood hstdout id hid s hs
    obtain ⟨hnone, hstaged, _⟩ := herror.mp hgood
    have hfiles := (hreply hgood).2.symm.trans hstdout
    rw [Command.savedText_eq_nil_iff, hsession, p.space.filesToSave_stagedOn] at hfiles
    exact hread.settled_of_wanted hfaithful hid hs
      (Workspace.nothing_wanted_of_staging hstaged hnone hfiles id hid)

end Saving

/-! ## 4. A scope that refers to its directory -/

/-- A project with a module, and a storage file with a reference in each. The files are
not laid out as a save would have them. -/
def referringDisk (own below : String) : Disk :=
  { nodes := [(["p"], .directory), (["p", ".scopestore"], .directory),
      (["p", ".scopestore", "a.json"],
        .file (Utf8.encode ("\x7b\"a\":\"" ++ own ++ "\"\x7d").toList) false),
      (["p", "m"], .directory), (["p", "m", ".scopestore"], .directory),
      (["p", "m", ".scopestore", "b.json"],
        .file (Utf8.encode ("\x7b\"b\":\"" ++ below ++ "\"\x7d").toList) false),
      (["p", "scopestore.toml"], .file (Utf8.encode
        "name = \"p\"\nmodules = [\x7bname = \"m\", dir = \"m\"\x7d]\n".toList) false)] }

/-- The project refers to its directory as the project's, and the module to its own as the
scope's. -/
theorem Command.save_settled :
    let disk := referringDisk "$PROJECT_DIR$/x" "$SCOPE_DIR$/y"
    ∃ p : Project Bytes, Project.open disk ⟨"/p"⟩ {} = .ok p ∧ p.Settled ∧
      (Command.save Bytes disk ⟨"/p"⟩ {} .json).error = none ∧
      (Command.save Bytes disk ⟨"/p"⟩ {} .json).stdout = "[]\n" ∧
      (Command.save Bytes disk ⟨"/p"⟩ {} .json).disk = disk := by
  intro disk
  have hopens : (Project.open (δ := Bytes) disk ⟨"/p"⟩ {}).toOption.map
      (fun p => decide p.Settled) = some true := by decide +kernel
  obtain ⟨p, hp, hsettled⟩ := Option.map_eq_some_iff.mp hopens
  have hopen : Project.open disk ⟨"/p"⟩ {} = .ok p := toOption_eq_some_iff.mp hp
  obtain ⟨hsaves, hback⟩ := Command.save_untouched hopen .json
  obtain ⟨hgood, hstdout, hdisk⟩ := hsaves (of_decide_eq_true hsettled)
  exact ⟨p, hopen, hback Digest.faithful_bytes hgood hstdout, hgood, hstdout.trans (by rfl), hdisk⟩

/-- **A project may be rewritten although nobody has touched it.** Its own scope has two
variables for its directory, and the one that the file has is not the one that is put
back. -/
theorem Command.save_rewrites_reference :
    let disk := referringDisk "$SCOPE_DIR$/x" "$SCOPE_DIR$/y"
    let reply := Command.save Bytes disk ⟨"/p"⟩ {} .json
    (Project.open (δ := Bytes) disk ⟨"/p"⟩ {}).isOk = true ∧ reply.error = none ∧
      reply.stdout = "[\n  \"/p/.scopestore/a.json\"\n]\n" ∧
      reply.disk.contentAt ["p", ".scopestore", "a.json"]
        = some (Utf8.encode "\x7b\n  \"a\": \"$PROJECT_DIR$/x\"\n\x7d\n".toList) := by
  decide +kernel

end ScopedState
