/-
`Proofs/Project/Written.lean` -- what saving a project leaves in its files.

In a sound workspace every storage stands for a file of one of the scopes, and the
storages have places of their own as long as no two directories lead to one place
under different names. So what is known of staged writes on a disk applies: each file
of a storage has the names it had and those of the states that were staged for it,
and whatever else is on the disk stays.

Said of a project (`Saved`): a storage file can be read if it could be read before,
and it has an entry for a name exactly if it had one or some scope keeps a component
of that name in it.
-/
import ScopedState.Proofs.Project.Registered
import ScopedState.Proofs.Storage.Files
set_option autoImplicit false

namespace ScopedState

open Bindings (Sorted get? keys)
open Disk (FileName Lies names Temporary)
open Document (entryDepth)

/-! ## 1. The states of a workspace -/

namespace Workspace

variable {β δ : Type} {w : Workspace β δ} {id : ScopeId} {l : Location} {k : StorageId} {n : String}

/-- **Every component has a value**, and a regular one. -/
def Valued (w : Workspace β δ) : Prop :=
  ∀ id n e, w.entryOf? id n = some e →
    ∃ c v, w.vault.component? e.component = some c ∧ c.value = some v ∧ v.Regular

/-- No component has a value that nests deeper than an entry may that is to be read. -/
def Shallow (w : Workspace β δ) : Prop :=
  ∀ id n e, w.entryOf? id n = some e → ∀ c v, w.vault.component? e.component = some c →
    c.value = some v → v.depth ≤ entryDepth

/-- Some scope keeps a component of a name at a location. -/
def KeptAt (w : Workspace β δ) (l : Location) (n : String) : Prop :=
  ∃ id e, w.entryOf? id n = some e ∧ w.vault.location? e.storage = some l

/-- **The states at a location** are the values of the components that are kept there,
with the references of their scope put in. -/
theorem get?_statesAt_iff (h : w.Kept) (id : ScopeId) : ∃ table, ∀ l n x,
    get? (w.statesAt l id) n = some x ↔ ∃ e, w.entryOf? id n = some e ∧
      w.vault.location? e.storage = some l ∧
      x = ((w.vault.component? e.component).bind Component.value).map
        (Substitutor.collapseWith table) := by
  cases hs : w.scope? id with
  | none =>
    refine ⟨none, fun l n x => ?_⟩
    rw [statesAt, hs]
    simp [entryOf?, hs]
  | some s =>
    refine ⟨s.substitutor.map Substitutor.table, fun l n x => ?_⟩
    rw [get?_statesAt h hs, Option.map_eq_some_iff, entryOf?, hs, Option.bind_some]
    simp only [Option.filter_eq_some_iff, decide_eq_true_eq, and_assoc]
    exact exists_congr fun e => and_congr_right fun _ => and_congr_right fun _ => eq_comm

/-- The names of the states at a location are those of the components kept there. -/
theorem mem_keys_statesAt (h : w.Kept) :
    n ∈ keys (w.statesAt l id) ↔
      ∃ e, w.entryOf? id n = some e ∧ w.vault.location? e.storage = some l := by
  obtain ⟨table, hstates⟩ := get?_statesAt_iff h id
  rw [Bindings.mem_keys_iff, Option.isSome_iff_exists]
  simp only [hstates]
  constructor
  · rintro ⟨_, e, he, hl, _⟩
    exact ⟨e, he, hl⟩
  · rintro ⟨e, he, hl⟩
    exact ⟨_, e, he, hl, rfl⟩

/-- A value stays as deep as it is when references are put in. -/
theorem depth_collapseWith (table : Option MacroTable) (v : Json) :
    (Substitutor.collapseWith table v).depth = v.depth := by
  cases table with
  | none => rfl
  | some table => exact Json.depth_mapStrings _ v

/-- **The states of components with values are regular.** -/
theorem Valued.regular_statesAt (hvalued : w.Valued) (h : w.Kept) (l : Location) (id : ScopeId) :
    (w.statesAt l id).Regular := by
  obtain ⟨table, hstates⟩ := get?_statesAt_iff h id
  refine ⟨sorted_statesAt h l id, fun n x hx => ?_⟩
  obtain ⟨e, he, _, rfl⟩ := (hstates l n x).mp hx
  obtain ⟨c, v, hc, hv, hregular⟩ := hvalued id n e he
  refine ⟨Substitutor.collapseWith table v, by rw [hc, Option.bind_some, hv, Option.map_some], ?_⟩
  cases table with
  | none => exact hregular
  | some table => exact Json.regular_mapStrings _ v hregular

/-- **The states of shallow components are shallow.** -/
theorem Shallow.statesAt (hshallow : w.Shallow) (h : w.Kept) (l : Location) (id : ScopeId) :
    (w.statesAt l id).Shallow := by
  obtain ⟨table, hstates⟩ := get?_statesAt_iff h id
  intro n v hv
  obtain ⟨e, he, _, heq⟩ := (hstates l n _).mp hv
  obtain ⟨u, hu, rfl⟩ := Option.map_eq_some_iff.mp heq.symm
  obtain ⟨c, hc, hvalue⟩ := Option.bind_eq_some_iff.mp hu
  rw [depth_collapseWith]
  exact hshallow id n e he c u hc hvalue

section Staging

variable [Backing β] [DecidableEq δ] [Digest δ] {root : ScopeId} {states : States}

omit [Backing β] in
/-- What is staged is a draft of the states for the storage. -/
theorem stage_cases {x : StagedWrite δ} (h : w.vault.stage k states = some x) :
    ∃ st, w.vault.storage? k = some st ∧ x = ⟨k, st.unit, st.snapshot.draft states⟩ := by
  unfold Vault.stage at h
  split at h
  · cases h
  · rename_i st hst
    obtain ⟨draft, hdraft, rfl⟩ := Option.map_eq_some_iff.mp h
    exact ⟨st, hst, by rw [(Snapshot.stage_eq_some hdraft).1]⟩

/-- **What is staged for a storage** are the states of the scopes that map it, as far
as there is something to write. -/
theorem Stages.mem_statesFor (h : w.Stages root) :
    states ∈ statesFor k (w.stagedOn root w.vault).writes ↔
      ∃ id l, w.Maps root id l k ∧ states = w.statesAt l id ∧
        (w.vault.stage k states).isSome = true := by
  rw [statesFor, List.mem_map]
  constructor
  · rintro ⟨x, hx, rfl⟩
    obtain ⟨hx, hk⟩ := List.mem_filter.mp hx
    obtain ⟨id, l, hmaps, _, hstage⟩ := write_at h hx
    rw [of_decide_eq_true hk] at hmaps hstage
    obtain ⟨st, _, heq⟩ := stage_cases hstage
    have hstates : x.2.draft.states = w.statesAt l id := by rw [heq]; rfl
    refine ⟨id, l, hmaps, hstates, ?_⟩
    rw [hstates, hstage]
    rfl
  · rintro ⟨id, l, hmaps, rfl, hstage⟩
    obtain ⟨x, hx⟩ := Option.isSome_iff_exists.mp hstage
    obtain ⟨st, _, rfl⟩ := stage_cases hx
    exact ⟨_, List.mem_filter.mpr ⟨(mem_writes_iff h (w.nameOf id, _)).mpr
      ⟨id, l, k, hmaps, hx, rfl⟩, decide_eq_true rfl⟩, rfl⟩

/-- **The names that a save adds to a storage**: those of the components kept there
that it does not remember yet. -/
theorem Stages.mem_keys_iff (h : w.Stages root) (hvalued : w.Valued)
    (hfaithful : Digest.Faithful δ)
    (htree : ∀ id n e, w.entryOf? id n = some e → id ∈ (w.tree root).scopes)
    {st : Storage δ} (hst : w.vault.storage? k = some st) {content : Option Bytes}
    (hdescribes : st.snapshot.Describes content) (hregular : st.snapshot.document.Regular)
    (hl : st.unit.location = l)
    (honce : ∀ k', w.vault.location? k' = some l → k' = k) (n : String) :
    (n ∈ keys st.snapshot.document ∨
        ∃ states ∈ statesFor k (w.stagedOn root w.vault).writes, n ∈ keys states) ↔
      n ∈ keys st.snapshot.document ∨ w.KeptAt l n := by
  constructor
  · rintro (hn | ⟨states, hstates, hn⟩)
    · exact Or.inl hn
    · obtain ⟨id, l', hmaps, rfl, _⟩ := h.mem_statesFor.mp hstates
      obtain ⟨e, he, hlocation⟩ := (mem_keys_statesAt h.kept).mp hn
      rw [← unit_of_maps h.kept hmaps hst, hl] at hlocation
      exact Or.inr ⟨id, e, he, hlocation⟩
  · rintro (hn | ⟨id, e, he, hlocation⟩)
    · exact Or.inl hn
    · have hn := (mem_keys_statesAt (l := l) h.kept).mpr ⟨e, he, hlocation⟩
      obtain ⟨x, hx⟩ := Option.isSome_iff_exists.mp (Bindings.mem_keys_iff.mp hn)
      obtain ⟨k', hmaps⟩ := maps_of_statesAt h (htree id n e he) hx
      obtain rfl := honce k' (hmaps.location h.kept)
      cases hstage : w.vault.stage k' (w.statesAt l id) with
      | some x =>
        exact Or.inr ⟨_, h.mem_statesFor.mpr ⟨id, l, hmaps, rfl, by rw [hstage]; rfl⟩, hn⟩
      | none =>
        rw [Vault.stage, hst] at hstage
        exact Or.inl (hdescribes.mem_keys_of_idle hfaithful hregular
          (hvalued.regular_statesAt h.kept l id) (Option.map_eq_none_iff.mp hstage) hn)

end Staging

end Workspace

/-! ## 2. The places of storages -/

/-- No two directories lead to one place unless they have the same names. -/
def Disk.Apart (d : Disk) (dirs : List Path) : Prop :=
  ∀ dir ∈ dirs, ∀ dir' ∈ dirs, d.placeOf dir = d.placeOf dir' → dir.location = dir'.location

variable {δ : Type} [Digest δ]

/-- Storages at their places. -/
def Vault.Placed (v : Vault LocalFiles δ) (d : Disk) (dirs : List Path)
    (place : StorageId → Place) : Prop :=
  ∀ k st, v.storage? k = some st →
    ∃ dir ∈ dirs, ∃ f, st.StandsFor d dir f ∧ place k = d.filePlace dir f

/-- A place of a file tells the names of its directory. -/
theorem Disk.Apart.eq_of_filePlace {d : Disk} {dirs : List Path} (h : d.Apart dirs)
    {dir dir' : Path} {f g : String} (hdir : dir ∈ dirs) (hdir' : dir' ∈ dirs)
    (habsolute : dir.isAbsolute = true) (habsolute' : dir'.isAbsolute = true)
    (heq : d.filePlace dir f = d.filePlace dir' g) : names dir = names dir' ∧ f = g := by
  obtain ⟨hstate, hname⟩ := List.append_inj' heq rfl
  obtain ⟨hplace, _⟩ := List.append_inj' hstate rfl
  exact ⟨(Disk.location_eq_iff habsolute habsolute').mp (h dir hdir dir' hdir' hplace),
    (List.cons.inj hname).1⟩

namespace Sound

variable {d : Disk} {projectDir : Path} {dirs : List Path} {fresh : ScopeId → String → Prop}
  {w : Workspace LocalFiles δ} {place : StorageId → Place}

/-- Every storage of a sound workspace has a place. -/
theorem exists_placed (h : Sound d projectDir dirs fresh w) :
    ∃ place, w.vault.Placed d dirs place := by
  have hplace : ∀ k, ∃ q, ∀ st, w.vault.storage? k = some st →
      ∃ dir ∈ dirs, ∃ f, st.StandsFor d dir f ∧ q = d.filePlace dir f := by
    intro k
    cases hst : w.vault.storage? k with
    | none => exact ⟨[], fun st h => nomatch h⟩
    | some st =>
      obtain ⟨dir, hdir, f, hstands⟩ := h.source k st hst
      refine ⟨d.filePlace dir f, fun st' h => ?_⟩
      rw [← Option.some.inj h]
      exact ⟨dir, hdir, f, hstands, rfl⟩
  exact ⟨fun k => (hplace k).choose, fun k => (hplace k).choose_spec⟩

/-- **The storages of a sound workspace are in files**, each at its place. -/
theorem filed (h : Sound d projectDir dirs fresh w) (hd : d.Tree) (hapart : d.Apart dirs)
    (hplaced : w.vault.Placed d dirs place) : w.vault.Filed place where
  tree := h.disk ▸ hd
  spells k st hst := by
    obtain ⟨dir, _, f, hstands, hplace⟩ := hplaced k st hst
    rw [hstands.unit, h.disk]
    exact ⟨d.statePlace dir, f, hplace, hstands.lies.unit hstands.name.1⟩
  lasting k st hst := by
    obtain ⟨dir, _, f, hstands, hplace⟩ := hplaced k st hst
    rw [hplace]
    exact hstands.name.lasting _
  apart k st k' st' hst hst' heq := by
    obtain ⟨dir, hdir, f, hstands, hplace⟩ := hplaced k st hst
    obtain ⟨dir', hdir', f', hstands', hplace'⟩ := hplaced k' st' hst'
    refine h.storage_eq hst hst' ?_
    rw [hstands.unit, hstands'.unit]
    refine (names_of_unitPath hstands.lies.absolute hstands'.lies.absolute hstands.name.1
      hstands'.name.1).mpr (hapart.eq_of_filePlace hdir hdir' hstands.lies.absolute
        hstands'.lies.absolute ?_)
    rw [← hplace, ← hplace', heq]
  describes k st hst := by
    obtain ⟨dir, _, f, hstands, hplace⟩ := hplaced k st hst
    rw [hplace, h.disk]
    exact Snapshot.describes_ofContent hstands.content
  regular k st hst := by
    obtain ⟨dir, _, f, hstands, _⟩ := hplaced k st hst
    exact (Disk.names_of_snapshot hstands.content).2.1

end Sound

/-! ## 3. What a save leaves -/

/-- A file that is described by something shallow can be read, and has its names. -/
theorem Snapshot.Describes.names {d : Disk} {q : Place} {s : Snapshot δ}
    (hs : s.Describes (d.contentAt q)) (hregular : s.document.Regular)
    (hshallow : s.document.Shallow) :
    d.Legible q ∧ ∀ n, n ∈ d.namesAt q ↔ n ∈ keys s.document := by
  cases hcontent : d.contentAt q with
  | none =>
    rw [hcontent] at hs
    rw [Disk.Legible, Disk.namesAt, Disk.document?, hcontent, hs.absent rfl]
    exact ⟨fun hsome => absurd hsome Bool.false_ne_true, fun n => Iff.rfl⟩
  | some bytes =>
    rw [hcontent] at hs
    obtain ⟨e, hparse, hkeys⟩ := (hs.parse_iff hregular ⟨""⟩).mpr hshallow
    rw [Disk.Legible, Disk.namesAt, (Disk.document?_eq_some_iff hcontent ⟨""⟩).mpr hparse]
    exact ⟨fun _ => rfl, hkeys⟩

/-- A file that is described by something with a deep entry cannot be read. -/
theorem Snapshot.Describes.not_legible {d : Disk} {q : Place} {s : Snapshot δ} {n : String}
    (hs : s.Describes (d.contentAt q)) (hregular : s.document.Regular)
    (hdeep : s.document.DeepAt n) : ¬ d.Legible q := by
  intro hlegible
  cases hcontent : d.contentAt q with
  | none =>
    obtain ⟨v, hv, _⟩ := hdeep
    rw [hs.absent hcontent] at hv
    cases hv
  | some bytes =>
    obtain ⟨doc, hdoc⟩ := Option.isSome_iff_exists.mp (hlegible (by rw [hcontent]; rfl))
    rcases hs.present bytes hcontent with ⟨unit, hparse⟩ | rfl
    · exact (Document.within_of_parse hparse).2.not_deepAt n hdeep
    · have hparse := (Disk.document?_eq_some_iff hcontent ⟨""⟩).mp hdoc
      exact (Document.shallow_of_serialized hs.sorted hregular hparse).not_deepAt n hdeep

/-- **A disk some of whose storage files have been written**, those of some directories.
Nothing else has changed, but for temporary files and for directories that have been
made. -/
structure Disk.Rewritten (d d' : Disk) (dirs : List Path) : Prop where
  tree : d'.Tree
  cwd : d'.cwd = d.cwd
  extend : d.Extends d'
  known : ∀ dir ∈ dirs, ∀ f, StorageName f → (d'.contentAt (d.filePlace dir f)).isSome = true →
    (d.contentAt (d.filePlace dir f)).isSome = true ∨ '$' ∉ f.toList
  other : ∀ q name, q.getLast? = some name → ¬ StorageName name → ¬ Temporary q → d.Stays d' q

/-- **What a save leaves on a disk.** The storage files have the names they had and those
that were `added`. -/
structure Disk.Saved (d d' : Disk) (dirs : List Path) (added : Location → String → Prop) : Prop
    extends d.Rewritten d' dirs where
  legible : ∀ dir ∈ dirs, ∀ f, StorageName f → d.Legible (d.filePlace dir f) →
    d'.Legible (d.filePlace dir f)
  names : ∀ dir ∈ dirs, ∀ f, StorageName f → ∀ n, n ∈ d'.namesAt (d.filePlace dir f) ↔
    n ∈ d.namesAt (d.filePlace dir f) ∨ added (unitPath dir f).location n

section Saving

variable [DecidableEq δ] {d : Disk} {projectDir : Path} {dirs : List Path}
  {fresh : ScopeId → String → Prop} {w : Workspace LocalFiles δ}

/-- **The writes of a save are fresh.** -/
theorem Workspace.Stages.writes_fresh {root : ScopeId} (h : w.Stages root) (hvalued : w.Valued) :
    ∀ x ∈ (w.stagedOn root w.vault).writes, ∃ st, x.2.Fresh w.vault st := by
  intro x hx
  obtain ⟨id, l, _, _, hstage⟩ := Workspace.write_at h hx
  obtain ⟨st, hst, heq⟩ := Workspace.stage_cases hstage
  rw [heq]
  exact ⟨st, hst, rfl, rfl, hvalued.regular_statesAt h.kept l id⟩

omit [DecidableEq δ] in
/-- A file has a storage, which is about the location of its unit, or no component is
kept in it. -/
theorem Vault.Placed.storage_or {place : StorageId → Place}
    (hplaced : w.vault.Placed d dirs place) (hapart : d.Apart dirs)
    (habsolute : ∀ dir ∈ dirs, dir.isAbsolute = true) {dir : Path} (hdir : dir ∈ dirs) {f : String}
    (hf : StorageName f) :
    (∃ k st, w.vault.storage? k = some st ∧ place k = d.filePlace dir f ∧
        st.unit.location = (unitPath dir f).location ∧
        ((d.contentAt (d.filePlace dir f)).isSome = true ∨ '$' ∉ f.toList)) ∨
      ((∀ k st, w.vault.storage? k = some st → d.filePlace dir f ≠ place k) ∧
        ∀ n, ¬ w.KeptAt (unitPath dir f).location n) := by
  by_cases hthere : ∃ k st, w.vault.storage? k = some st ∧ d.filePlace dir f = place k
  · obtain ⟨k, st, hst, heq⟩ := hthere
    obtain ⟨dir', hdir', f', hstands, hplace⟩ := hplaced k st hst
    have hnames := hapart.eq_of_filePlace hdir hdir' (habsolute dir hdir)
      (habsolute dir' hdir') (heq.trans hplace)
    have hlocation := (names_of_unitPath (habsolute dir hdir) (habsolute dir' hdir') hf.1
      hstands.name.1).mpr hnames
    refine Or.inl ⟨k, st, hst, heq.symm, hstands.unit ▸ hlocation.symm, ?_⟩
    rw [heq, hplace, hnames.2]
    exact hstands.known
  · refine Or.inr ⟨fun k st hst heq => hthere ⟨k, st, hst, heq⟩, ?_⟩
    rintro n ⟨id, e, _, hlocation⟩
    obtain ⟨u, hu, hul⟩ := Option.map_eq_some_iff.mp hlocation
    obtain ⟨st, hst, rfl⟩ := Option.map_eq_some_iff.mp hu
    obtain ⟨dir', hdir', f', hstands, hplace⟩ := hplaced _ st hst
    refine hthere ⟨e.storage, st, hst, hplace ▸ ?_⟩
    rw [hstands.unit] at hul
    exact filePlace_of_location (habsolute dir hdir) (habsolute dir' hdir') hf.1 hstands.name.1
      hul.symm

/-- **A save that succeeds** has carried out all writes of a sound workspace. -/
theorem Sound.written (hfaithful : Digest.Faithful δ) (h : Sound d projectDir dirs fresh w)
    (hd : d.Tree) (hapart : d.Apart dirs) (hvalued : w.Valued) {root : ScopeId}
    (hroot : root ∈ w.live) (hok : (w.save root).1 = .ok ()) :
    w.Stages root ∧ ∃ place v, w.vault.Placed d dirs place ∧ w.vault.Filed place ∧
      (w.save root).2.vault.backing.disk = v.backing.disk ∧
      w.vault.Written place (fun k => statesFor k (w.stagedOn root w.vault).writes) v := by
  obtain ⟨hstages, hout, hanswers⟩ :=
    Workspace.stages_of_save h.kept h.closed h.apart hroot hok
  obtain ⟨place, hplaced⟩ := h.exists_placed
  have hfiled := h.filed hd hapart hplaced
  refine ⟨hstages, place, _, hplaced, hfiled, by rw [hout], ?_⟩
  exact (Vault.Written.start hfiled).perform hfaithful hfiled (hstages.writes_fresh hvalued)
    hanswers

omit [DecidableEq δ] in
/-- **The disk of a workspace whose writes are carried out.** -/
theorem Sound.rewritten (h : Sound d projectDir dirs fresh w)
    (habsolute : ∀ dir ∈ dirs, dir.isAbsolute = true) (hapart : d.Apart dirs)
    {place : StorageId → Place} (hplaced : w.vault.Placed d dirs place)
    {l : StorageId → List States} {v : Vault LocalFiles δ} (hv : w.vault.Written place l v) :
    d.Rewritten v.backing.disk dirs := by
  obtain ⟨htree, hcwd, hext, _, hother⟩ := hv
  rw [h.disk] at hcwd hext hother
  refine ⟨htree, hcwd, hext, fun dir hdir f hf hthere => ?_, fun q name hname hnot htemporary =>
    hother q (fun k st hst heq => ?_) htemporary⟩
  · rcases hplaced.storage_or hapart habsolute hdir hf with ⟨_, _, _, _, _, hknown⟩ | ⟨hnone, _⟩
    · exact hknown
    · rw [(hother _ hnone (hf.lasting _)).contentAt_eq] at hthere
      exact Or.inl hthere
  · obtain ⟨dir, _, f, hstands, hplace⟩ := hplaced k st hst
    rw [heq, hplace, Disk.filePlace, List.getLast?_concat] at hname
    exact hnot (Option.some.inj hname ▸ hstands.name)

theorem Sound.rewritten_of_save (hfaithful : Digest.Faithful δ) (h : Sound d projectDir dirs fresh w)
    (hd : d.Tree) (habsolute : ∀ dir ∈ dirs, dir.isAbsolute = true) (hapart : d.Apart dirs)
    (hvalued : w.Valued) {root : ScopeId} (hroot : root ∈ w.live)
    (hok : (w.save root).1 = .ok ()) : d.Rewritten (w.save root).2.vault.backing.disk dirs := by
  obtain ⟨_, place, v, hplaced, _, hdisk, hwritten⟩ :=
    h.written hfaithful hd hapart hvalued hroot hok
  rw [hdisk]
  exact h.rewritten habsolute hapart hplaced hwritten

/-- **Saving a sound workspace** with all its scopes. -/
theorem Sound.saved (hfaithful : Digest.Faithful δ) (h : Sound d projectDir dirs fresh w)
    (hd : d.Tree) (habsolute : ∀ dir ∈ dirs, dir.isAbsolute = true) (hapart : d.Apart dirs)
    (hvalued : w.Valued) (hshallow : w.Shallow) {root : ScopeId} (hroot : root ∈ w.live)
    (htree : ∀ id < dirs.length, id ∈ (w.tree root).scopes) (hok : (w.save root).1 = .ok ()) :
    d.Saved (w.save root).2.vault.backing.disk dirs w.KeptAt := by
  obtain ⟨hstages, place, v, hplaced, hfiled, hdisk, hwritten⟩ :=
    h.written hfaithful hd hapart hvalued hroot hok
  have hentries : ∀ id n e, w.entryOf? id n = some e → id ∈ (w.tree root).scopes := by
    intro id n e he
    obtain ⟨dir, _, hdir, _⟩ := h.entry id n e he
    exact htree id (List.getElem?_eq_some_iff.mp hdir).1
  rw [hdisk]
  -- What has become of one file.
  have hfile : ∀ dir ∈ dirs, ∀ f, StorageName f →
      (d.Legible (d.filePlace dir f) → v.backing.disk.Legible (d.filePlace dir f)) ∧
      ∀ n, n ∈ v.backing.disk.namesAt (d.filePlace dir f) ↔
        n ∈ d.namesAt (d.filePlace dir f) ∨ w.KeptAt (unitPath dir f).location n := by
    intro dir hdir f hf
    rcases hplaced.storage_or hapart habsolute hdir hf with
      ⟨k, st, hst, hplace, hlocation, _⟩ | ⟨hnone, hunkept⟩
    · have hdescribes := hfiled.describes k st hst
      have hregular := hfiled.regular k st hst
      obtain ⟨s, _, hcarried⟩ := hwritten.storage k st hst
      rw [h.disk, hplace] at hdescribes hcarried
      obtain ⟨_, _, f', hstands⟩ := h.source k st hst
      have hbase := (Disk.names_of_snapshot hstands.content).2.2
      obtain ⟨_, hbefore⟩ := hdescribes.names hregular hbase
      obtain ⟨hlegible, hnames⟩ := (hcarried.describes hdescribes).names hcarried.regular
        (hcarried.shallow hbase fun states hstates => by
          obtain ⟨id, l, _, rfl, _⟩ := hstages.mem_statesFor.mp hstates
          exact hshallow.statesAt hstages.kept l id)
      have hadded := hstages.mem_keys_iff hvalued hfaithful hentries hst hdescribes hregular
        hlocation fun k' hk' => by
          obtain ⟨u, hu, hul⟩ := Option.map_eq_some_iff.mp hk'
          obtain ⟨st', hst', rfl⟩ := Option.map_eq_some_iff.mp hu
          exact h.storage_eq hst' hst (hul.trans hlocation.symm)
      refine ⟨fun _ => hlegible, fun n => ?_⟩
      rw [hnames, hcarried.names, hbefore]
      exact hadded n
    · have hother := hwritten.other _ hnone (hf.lasting _)
      rw [h.disk] at hother
      have hdocument : v.backing.disk.document? (d.filePlace dir f)
          = d.document? (d.filePlace dir f) := by
        rw [Disk.document?, Disk.document?, hother.contentAt_eq]
      rw [Disk.Legible, Disk.Legible, Disk.namesAt, Disk.namesAt, hdocument, hother.contentAt_eq]
      exact ⟨id, fun n => (or_iff_left (hunkept n)).symm⟩
  exact
    { h.rewritten habsolute hapart hplaced hwritten with
      legible := fun dir hdir f hf => (hfile dir hdir f hf).1
      names := fun dir hdir f hf => (hfile dir hdir f hf).2 }

omit [DecidableEq δ] in
/-- A scope that has its directory to itself is the one that has states for the files
there. -/
theorem Sound.eq_of_statesAt (h : Sound d projectDir dirs fresh w) {id id' : ScopeId}
    {l : Location} {dir : Path} {f n : String} {x : Option Json} (hlies : d.Lies dir)
    (hf : StorageName f) (hl : (unitPath dir f).location = l)
    (halone : ∀ id' dir', dirs[id']? = some dir' → dir'.location = dir.location → id' = id)
    (hx : get? (w.statesAt l id') n = some x) : id' = id := by
  obtain ⟨table, hstates⟩ := Workspace.get?_statesAt_iff h.kept id'
  obtain ⟨e, he, hlocation, _⟩ := (hstates l n x).mp hx
  obtain ⟨dir', f', hdir', hlies', hf', hlocation', _⟩ := h.entry id' n e he
  have heq := Option.some.inj (hlocation'.symm.trans hlocation)
  have hnames := ((names_of_unitPath hlies'.absolute hlies.absolute hf'.1 hf.1).mp
    (heq.trans hl.symm)).1
  exact halone id' dir' hdir' ((Disk.location_eq_iff hlies'.absolute hlies.absolute).mpr hnames)

/-- **A value that nests too deep locks its file**: if no other scope has the directory,
nothing overwrites the value, and the file cannot be read any more. -/
theorem Sound.locked (hfaithful : Digest.Faithful δ) (h : Sound d projectDir dirs fresh w)
    (hd : d.Tree) (hapart : d.Apart dirs) (hvalued : w.Valued) {root : ScopeId}
    (hroot : root ∈ w.live) (htree : ∀ id < dirs.length, id ∈ (w.tree root).scopes)
    (hok : (w.save root).1 = .ok ()) {id : ScopeId} {n : String} {e : Entry}
    (he : w.entryOf? id n = some e) {c : Component} {v : Json}
    (hc : w.vault.component? e.component = some c) (hv : c.value = some v)
    (hdeep : entryDepth < v.depth) {dir : Path} (hdir : dirs[id]? = some dir)
    (halone : ∀ id' dir', dirs[id']? = some dir' → dir'.location = dir.location → id' = id) :
    ∃ f, StorageName f ∧
      ¬ (w.save root).2.vault.backing.disk.Legible (d.filePlace dir f) := by
  obtain ⟨hstages, place, v', hplaced, hfiled, hdisk, hwritten⟩ :=
    h.written hfaithful hd hapart hvalued hroot hok
  obtain ⟨dir', f, hdir', hlies, hf, hlocation, _⟩ := h.entry id n e he
  obtain rfl := Option.some.inj (hdir.symm.trans hdir')
  refine ⟨f, hf, ?_⟩
  rw [hdisk]
  -- The storage of the component, and its file.
  obtain ⟨u, hu, hul⟩ := Option.map_eq_some_iff.mp hlocation
  obtain ⟨st, hst, rfl⟩ := Option.map_eq_some_iff.mp hu
  obtain ⟨_, _, f', hstands, hplace⟩ := hplaced _ st hst
  have hfile : place e.storage = d.filePlace dir f := hplace.trans
    (filePlace_of_location hstands.lies.absolute hlies.absolute hstands.name.1 hf.1
      (hstands.unit ▸ hul))
  have hdescribes := hfiled.describes _ st hst
  have hregular := hfiled.regular _ st hst
  have hbase := (Disk.names_of_snapshot hstands.content).2.2
  obtain ⟨s, _, hcarried⟩ := hwritten.storage _ st hst
  rw [h.disk, hfile] at hdescribes hcarried
  -- The state that is written for it.
  obtain ⟨table, hstates⟩ := Workspace.get?_statesAt_iff h.kept id
  have hstate := (hstates _ n _).mpr ⟨e, he, hlocation, rfl⟩
  rw [hc, Option.bind_some, hv, Option.map_some] at hstate
  have hdeep' : entryDepth < (Substitutor.collapseWith table v).depth := by
    rwa [Workspace.depth_collapseWith]
  refine (hcarried.describes hdescribes).not_legible hcarried.regular (n := n) ?_
  cases hlast : (statesFor e.storage (w.stagedOn root w.vault).writes).getLast? with
  | none =>
    -- The state is not written, so it is there; but what has been read is shallow.
    have hnone : st.snapshot.stage (w.statesAt (unitPath dir f).location id) = none := by
      by_contra hsome
      obtain ⟨k, hmaps⟩ := Workspace.maps_of_statesAt hstages
        (htree id (List.getElem?_eq_some_iff.mp hdir).1) hstate
      obtain ⟨u', hu', hul'⟩ := Option.map_eq_some_iff.mp (hmaps.location h.kept)
      obtain ⟨st', hst', rfl⟩ := Option.map_eq_some_iff.mp hu'
      obtain rfl := h.storage_eq hst' hst (hul'.trans hul.symm)
      have hmem := hstages.mem_statesFor.mpr ⟨id, _, hmaps, rfl, by
        rw [Vault.stage, hst, Option.isSome_map]
        exact Option.isSome_iff_ne_none.mpr hsome⟩
      rw [List.getLast?_eq_none_iff.mp hlast] at hmem
      cases hmem
    exact absurd (hdescribes.deepAt_of_idle hfaithful hregular
      (hvalued.regular_statesAt h.kept _ id) hnone hstate hdeep') (hbase.not_deepAt n)
  | some states =>
    -- Whatever is written is what this scope has staged.
    obtain ⟨id', l, hmaps, rfl, hstage⟩ := hstages.mem_statesFor.mp
      (List.mem_of_getLast? hlast)
    obtain rfl := (Workspace.unit_of_maps h.kept hmaps hst).symm.trans hul
    obtain ⟨m, x, hx⟩ : ∃ m x, get? (w.statesAt (unitPath dir f).location id') m = some x := by
      cases hempty : w.statesAt (unitPath dir f).location id' with
      | nil =>
        rw [hempty, Vault.stage, hst, Option.isSome_map, Snapshot.stage_eq_none_iff.mpr
          (Or.inl (Snapshot.redundant_of_same hdescribes.hash hdescribes.absent
            (Document.same_refl _)))] at hstage
        cases hstage
      | cons entry rest => exact ⟨entry.1, entry.2, if_pos rfl⟩
    obtain rfl := h.eq_of_statesAt hlies hf rfl halone hx
    exact hcarried.last _ hlast n _ hstate hdeep'

end Saving

end ScopedState
