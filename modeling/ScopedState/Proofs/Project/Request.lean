/-
`Proofs/Project/Request.lean` -- a component of a project is set.

A component is set by opening the project, making the component if there is none,
and saving. A component that has been made is one that no file of the scope had, so
the save leaves the files in order and the project opens again, with the component
among those of its scope.

That is so for every value that may be an entry. The command line takes one container
more than that: it reads the value by itself, and what is read back is the document
around it. A component that is set to such a value locks the project: the command
succeeds, and the file it has written is one that nobody can read.
-/
import ScopedState.Proofs.Project.Reopened
set_option autoImplicit false

namespace ScopedState

open Bindings (get? keys)
open Document (entryDepth)

/-! ## 1. A component on request -/

section Request

variable {δ : Type} [Digest δ] {d : Disk} {projectDir : Path} {dirs : List Path}
  {fresh fresh' : ScopeId → String → Prop} {w : Workspace LocalFiles δ}

/-- A component of a scope that none of its files has an entry for. -/
def Requested (d : Disk) (s : ProjectScope) (component : String) (id : ScopeId) (n : String) :
    Prop :=
  id = s.scope ∧ n = component ∧ ¬ d.Names s.dir component

theorem Sound.mono (h : Sound d projectDir dirs fresh w) (hle : ∀ id n, fresh id n → fresh' id n) :
    Sound d projectDir dirs fresh' w :=
  { h with
    entry := fun id n e he => by
      obtain ⟨dir, f, hdir, hlies, hf, hlocation, hnamed⟩ := h.entry id n e he
      exact ⟨dir, f, hdir, hlies, hf, hlocation, hnamed.imp_left (hle id n)⟩
    value := fun id n e he => by
      obtain ⟨c, hc, hvalue⟩ := h.value id n e he
      exact ⟨c, hc, hvalue.imp_left (hle id n)⟩ }

section Setting

variable {id : ComponentId} {v : Json}
  (hfresh : ∀ j n e, w.entryOf? j n = some e → fresh j n → e.component = id)
include hfresh

/-- The values of components when one of them is set, which all fresh ones are. -/
theorem Sound.value_set (h : Sound d projectDir dirs fresh w) {j : ScopeId} {n : String} {e : Entry}
    (he : w.entryOf? j n = some e) : ∃ c v',
      (w.vault.modifyComponent id fun c => c.set v).component? e.component = some c ∧
        c.value = some v' ∧ (v' = v ∨ v'.Within entryDepth) := by
  have hcomponent : (w.vault.modifyComponent id fun c => c.set v).component? e.component
      = (w.vault.component? e.component).map fun c => if id = e.component then c.set v else c :=
    List.getElem?_modify _ _ _ _
  obtain ⟨c, hc, hvalue⟩ := h.value j n e he
  rw [hcomponent, hc, Option.map_some]
  by_cases hid : id = e.component
  · rw [if_pos hid]
    exact ⟨_, v, rfl, rfl, Or.inl rfl⟩
  · rw [if_neg hid]
    obtain ⟨v', hv', hwithin⟩ := hvalue.resolve_left fun hj => hid (hfresh j n e he hj).symm
    exact ⟨c, v', rfl, hv', Or.inr hwithin⟩

/-- **A component is set**: the workspace stays sound, if the value may be that of an
entry, or nothing is asked of values. -/
theorem Sound.set (h : Sound d projectDir dirs fresh w) (hle : ∀ j n, fresh j n → fresh' j n)
    (hv : v.Within entryDepth ∨ ∀ j n, fresh' j n) :
    Sound d projectDir dirs fresh'
      { w with vault := w.vault.modifyComponent id fun c => c.set v } :=
  { h.mono hle with
    kept := h.kept.withVault (Vault.Keeps.of_eq rfl)
    closed := h.closed.of_outline rfl
    value := fun j n e he => by
      obtain ⟨c, v', hc, hv', hcases⟩ := h.value_set hfresh (v := v) he
      refine ⟨c, hc, hv.elim (fun hv => Or.inr ⟨v', hv', ?_⟩) fun hall => Or.inl (hall j n)⟩
      rcases hcases with rfl | hwithin
      · exact hv
      · exact hwithin }

/-- Then every component has a value. -/
theorem Sound.valued_set (h : Sound d projectDir dirs fresh w) (hv : v.Regular) :
    Workspace.Valued { w with vault := w.vault.modifyComponent id fun c => c.set v } := by
  intro j n e he
  obtain ⟨c, v', hc, hv', hcases⟩ := h.value_set hfresh (v := v) he
  refine ⟨c, v', hc, hv', ?_⟩
  rcases hcases with rfl | hwithin
  · exact hv
  · exact hwithin.1

/-- No value is too deep if the one that is set is not. -/
theorem Sound.shallow_set (h : Sound d projectDir dirs fresh w) (hv : v.depth ≤ entryDepth) :
    Workspace.Shallow { w with vault := w.vault.modifyComponent id fun c => c.set v } := by
  intro j n e he c v' hc hv'
  obtain ⟨c₁, v₁, hc₁, hv₁, hcases⟩ := h.value_set hfresh (v := v) he
  obtain rfl := Option.some.inj (hc₁.symm.trans hc)
  obtain rfl := Option.some.inj (hv₁.symm.trans hv')
  rcases hcases with rfl | hwithin
  · exact hv
  · exact hwithin.2

end Setting

omit [Digest δ] in
/-- A listing stays as long as scopes and registries do. -/
theorem Workspace.Listing.framed {w' : Workspace LocalFiles δ} {count : Nat}
    (h : w.Listing count) (hframed : Workspace.Framed w w') : w'.Listing count :=
  ⟨(hframed.registry 0).trans h.registry, hframed.registries ▸ h.listed⟩

omit [Digest δ] in
/-- **All scopes are below the first one**, which is saved with them. -/
theorem Workspace.Listing.mem_tree {count : Nat} (h : w.Listing count)
    (hcount : w.scopes.length = count) : ∀ id < count, id ∈ (w.tree 0).scopes := by
  intro id hid
  obtain ⟨ids, hids, hlisted⟩ := h.listed
  obtain ⟨fuel, hfuel⟩ := Nat.exists_eq_add_one_of_ne_zero (Nat.ne_of_gt (Nat.zero_lt_of_lt hid))
  have hchildren : w.children 0 = ids := by
    rw [Workspace.children, h.registry, Option.elim_some, Workspace.listed, hids]
    rfl
  rw [Workspace.tree, hcount, hfuel, Workspace.treeWithin, hchildren, ScopeTree.scopes,
    List.mem_cons, ScopeTree.mem_scopesOfAll]
  rcases Nat.eq_zero_or_pos id with hzero | hpos
  · exact Or.inl hzero
  · refine Or.inr ⟨_, List.mem_map_of_mem (hlisted id hpos hid), ?_⟩
    cases fuel with
    | zero => exact List.mem_cons_self
    | succ n => exact List.mem_cons_self

section Making

variable [DecidableEq δ] {parts : List (String × Path)} {scopes : List ProjectScope}
  {s : ProjectScope} {p p' : Project δ} {scope component : String} {id : ComponentId}

omit [DecidableEq δ] [Digest δ] in
/-- The first record is that of the project. -/
theorem Project.root_of_frames
    (h : p.scopes.map ProjectScope.frame = parts.mapIdx fun id part => (part.1, part.2, id)) :
    p.root = 0 := by
  have hframe := congrArg List.head? h
  rw [List.head?_map, List.head?_mapIdx] at hframe
  rw [Project.root]
  cases hhead : p.scopes.head? with
  | none => rfl
  | some s =>
    rw [hhead] at hframe
    obtain ⟨part, _, heq⟩ := Option.map_eq_some_iff.mp hframe.symm
    exact (congrArg (fun f => f.2.2) heq).symm

omit [DecidableEq δ] [Digest δ] in
/-- Replacing a record by one of its number replaces no number. -/
theorem Project.root_withScope (p : Project δ) (s : ProjectScope) :
    (p.withScope s).root = p.root := by
  rw [root, root, withScope, List.head?_map]
  cases p.scopes.head? with
  | none => rfl
  | some t =>
    rw [Option.map_some, Option.elim_some, Option.elim_some]
    split
    · rename_i ht
      exact ht.symm
    · rfl

/-- **A project with a component that was asked for**: it is sound, and the component
is an entry of its scope, if not of a file. -/
structure Asked (d : Disk) (projectDir : Path) (dirs : List Path) (p : Project δ)
    (s : ProjectScope) (component : String) (id : ComponentId) : Prop where
  sound : Sound d projectDir dirs (Requested d s component) p.space
  listing : p.space.Listing dirs.length
  root : p.root = 0
  entry : ∃ e, p.space.entryOf? s.scope component = some e
  made : ∀ e, p.space.entryOf? s.scope component = some e → e.component = id

/-- **Asking for a component.** -/
theorem Opened.componentOrCreate_spec (h : Opened d p.dir parts p.space p.scopes)
    (hlisting : p.space.Listing parts.length) (hd : d.Tree) (hsettings : p.settings.Standard)
    (hstands : ∀ part ∈ parts, d.Stands part.2)
    (hok : p.componentOrCreate scope component = (.ok id, p')) :
    ∃ s, p.scope? scope = some s ∧ parts[s.scope]? = some (s.name, s.dir) ∧
      Asked d p.dir (parts.map Prod.snd) p' s component id := by
  have hlength : parts.length = (parts.map Prod.snd).length := (List.length_map _).symm
  unfold Project.componentOrCreate at hok
  split at hok
  · cases hok
  rename_i s hs
  have hpart := h.part_of_mem (List.mem_of_find?_eq_some hs)
  have hnames := h.component s (List.mem_of_find?_eq_some hs) component
  have hentry := h.entry s.scope _ hpart component
  rw [Bindings.mem_keys_iff] at hnames
  refine ⟨s, hs, hpart, ?_⟩
  split at hok
  · -- The component is there.
    rename_i id' hid
    obtain ⟨hid', rfl⟩ := Prod.mk.inj hok
    obtain rfl := Except.ok.inj hid'
    have hthere : d.Names s.dir component := hnames.mp (by rw [hid]; rfl)
    exact
      { sound := h.sound.mono fun _ _ hfalse => hfalse.elim
        listing := hlength ▸ hlisting
        root := Project.root_of_frames h.frames
        entry := Option.isSome_iff_exists.mp (hentry.mpr hthere)
        made := fun e he => by
          have hbound := h.bound s (List.mem_of_find?_eq_some hs) component
          rw [hid, he] at hbound
          exact (Option.some.inj hbound).symm }
  · -- It is made in the default file.
    rename_i hnone
    have hnew : ¬ d.Names s.dir component := fun hthere => by
      have hsome := hnames.mpr hthere
      rw [hnone] at hsome
      cases hsome
    have hfile : Project.defaultFile p.settings = "misc.json" := by
      rw [Project.defaultFile, hsettings.extension]
      decide
    rw [hfile] at hok
    have hf : StorageName "misc.json" := by decide
    have hplain : '$' ∉ "misc.json".toList := by decide
    have hdir : (parts.map Prod.snd)[s.scope]? = some s.dir := by simp [hpart]
    have hsound : Sound d p.dir (parts.map Prod.snd) (Requested d s component) p.space :=
      h.sound.mono fun _ _ hfalse => hfalse.elim
    rcases hsound.register_of_new hd hsettings hdir (hstands _ (List.mem_of_getElem? hpart)) hf
        (MacroTable.expand_of_no_dollar _ hplain) (Or.inr hplain)
        (by simpa using hentry.not.mpr hnew) (Or.inl ⟨rfl, rfl, hnew⟩) with
      ⟨c, w', hregister, hsound, hframed, _, k, hviews⟩ | ⟨⟨e, w', herror⟩, _⟩
    · rw [hregister] at hok
      obtain ⟨hid, rfl⟩ := Prod.mk.inj hok
      obtain rfl := Except.ok.inj hid
      have hown : w'.entryOf? s.scope component = some ⟨c, k⟩ := by rw [hviews, if_pos ⟨rfl, rfl⟩]
      exact
        { sound := hsound
          listing := hlength ▸ hlisting.framed hframed
          root := (Project.root_withScope _ _).trans (Project.root_of_frames h.frames)
          entry := ⟨_, hown⟩
          made := fun e he => by rw [← Option.some.inj (hown.symm.trans he)] }
    · rw [herror] at hok
      cases hok

omit [DecidableEq δ] in
/-- Components that were asked for are those of the one entry. -/
theorem Asked.made_of_requested (h : Asked d projectDir dirs p s component id) : ∀ j n e,
    p.space.entryOf? j n = some e → Requested d s component j n → e.component = id := by
  rintro _ _ e he ⟨rfl, rfl, _⟩
  exact h.made e he

omit [DecidableEq δ] in
/-- All scopes are saved with the first one. -/
theorem Asked.mem_tree (h : Asked d projectDir dirs p s component id) (f : Component → Component) :
    ∀ j < dirs.length, j ∈ ((p.modify id f).space.tree 0).scopes :=
  Workspace.Listing.mem_tree (w := (p.modify id f).space) ⟨h.listing.registry, h.listing.listed⟩
    h.sound.length

/-- **What is left when a component has been set**: files in order, one of which has
the component. -/
theorem Asked.saved (hfaithful : Digest.Faithful δ) (h : Asked d projectDir dirs p s component id)
    (hd : d.Tree) (hordinary : ∀ dir ∈ dirs, d.Ordinary projectDir dir) (hapart : d.Apart dirs)
    (horderly : ∀ dir ∈ dirs, d.Orderly dir) (hdir : dirs[s.scope]? = some s.dir) {v : Json}
    (hv : v.Within entryDepth) (hok : (p.modify id fun c => c.set v).save.1 = .ok ()) :
    d.Rewritten (p.modify id fun c => c.set v).save.2.disk dirs ∧
      (∀ dir ∈ dirs, (p.modify id fun c => c.set v).save.2.disk.Orderly dir) ∧
      (p.modify id fun c => c.set v).save.2.disk.Names s.dir component := by
  have hsound := h.sound.set h.made_of_requested (fun _ _ hj => hj) (Or.inl hv)
  have hcount : 0 < dirs.length := Nat.zero_lt_of_lt (List.getElem?_eq_some_iff.mp hdir).1
  have hroot : (p.modify id fun c => c.set v).root = 0 := h.root
  rw [Project.save, hroot] at hok
  have hsaved : d.Saved (p.modify id fun c => c.set v).save.2.disk dirs
      (p.modify id fun c => c.set v).space.KeptAt := by
    rw [Project.save, hroot]
    exact hsound.saved hfaithful hd (fun dir hdir => (hordinary dir hdir).absolute) hapart
      (h.sound.valued_set h.made_of_requested hv.1) (h.sound.shallow_set h.made_of_requested hv.2)
      (hsound.live 0 hcount) (h.mem_tree _) hok
  generalize (p.modify id fun c => c.set v).save.2.disk = d' at hsaved ⊢
  refine ⟨hsaved.toRewritten, hsaved.orderly hsound hordinary horderly ?_ ?_, ?_⟩
  · exact fun j k n hj hk => hj.1.trans hk.1.symm
  · intro j n dir hj hdir'
    rw [hj.1, hdir] at hdir'
    rw [← Option.some.inj hdir', hj.2.1]
    exact hj.2.2
  · obtain ⟨e, he⟩ := h.entry
    obtain ⟨dir, f, hdir', _, hf, hlocation, _⟩ := hsound.entry s.scope component e he
    obtain rfl := Option.some.inj (hdir.symm.trans hdir')
    have hmem := List.mem_of_getElem? hdir
    refine ⟨f, hf, ?_⟩
    rw [(hsaved.ordinary hmem (hordinary _ hmem)).2]
    exact (hsaved.names _ hmem f hf component).mpr (Or.inr ⟨s.scope, e, he, hlocation⟩)

/-- **What is left when a component has been set to a value that nests too deep**: a file
that cannot be read, unless another scope has the same directory and may have
overwritten the value. -/
theorem Asked.locked (hfaithful : Digest.Faithful δ) (h : Asked d projectDir dirs p s component id)
    (hd : d.Tree) (habsolute : ∀ dir ∈ dirs, dir.isAbsolute = true) (hapart : d.Apart dirs)
    (hdir : dirs[s.scope]? = some s.dir)
    (halone : ∀ j dir, dirs[j]? = some dir → dir.location = s.dir.location → j = s.scope) {v : Json}
    (hv : v.Regular) (hdeep : entryDepth < v.depth)
    (hok : (p.modify id fun c => c.set v).save.1 = .ok ()) :
    d.Rewritten (p.modify id fun c => c.set v).save.2.disk dirs ∧ ∃ f, StorageName f ∧
      ¬ (p.modify id fun c => c.set v).save.2.disk.Legible (d.filePlace s.dir f) := by
  have hsound := h.sound.set (v := v) h.made_of_requested (fun _ _ _ => trivial)
    (Or.inr fun _ _ => trivial)
  have hvalued := h.sound.valued_set h.made_of_requested hv
  have hcount : 0 < dirs.length := Nat.zero_lt_of_lt (List.getElem?_eq_some_iff.mp hdir).1
  have hroot : (p.modify id fun c => c.set v).root = 0 := h.root
  rw [Project.save, hroot] at hok ⊢
  have hlive := hsound.live 0 hcount
  refine ⟨hsound.rewritten_of_save hfaithful hd habsolute hapart hvalued hlive hok, ?_⟩
  -- The component has the value.
  obtain ⟨e, he⟩ := h.entry
  obtain ⟨c, hc, _⟩ := h.sound.value s.scope component e he
  have hset : (p.modify id fun c => c.set v).space.vault.component? e.component
      = some (c.set v) := by
    have hcomponent : (p.space.vault.modifyComponent id fun c => c.set v).component? e.component
        = (p.space.vault.component? e.component).map fun c =>
          if id = e.component then c.set v else c := List.getElem?_modify _ _ _ _
    rw [Project.modify, hcomponent, hc, Option.map_some, if_pos (h.made e he).symm]
  exact hsound.locked hfaithful hd hapart hvalued hlive (h.mem_tree _) hok he hset rfl hdeep hdir
    halone

end Making

end Request

/-! ## 2. The command -/

section Setting

variable {δ : Type} [DecidableEq δ] [Digest δ] {d : Disk} {dir : Path} {settings : Settings}
  {p : Project δ} {scope component value : String} {v : Json}

/-- **What a component is set by**: opening, asking for the component, and saving. -/
theorem Command.set_cases (hread : Json.read value.toList = .ok v)
    (hopen : Project.open d dir settings = .ok p)
    (hok : (Command.set δ d dir scope component value settings).error = none) :
    ∃ id p', p.componentOrCreate scope component = (.ok id, p') ∧
      ((p'.modify id fun c => c.set v).save).1 = .ok () ∧
      (Command.set δ d dir scope component value settings).disk
        = ((p'.modify id fun c => c.set v).save).2.disk := by
  generalize hreply : Command.set δ d dir scope component value settings = reply at hok ⊢
  unfold Command.set at hreply
  rw [hread] at hreply
  unfold Project.open at hopen
  generalize hattempt : Project.attempt (δ := δ) d dir settings = attempt at hopen
  obtain ⟨outcome, events⟩ := attempt
  obtain rfl : outcome = .ok p := hopen
  simp only [Command.withProject, hattempt] at hreply
  generalize hmade : p.componentOrCreate scope component = made at hreply
  obtain ⟨outcome, p'⟩ := made
  cases outcome with
  | error e =>
    rw [← hreply] at hok
    cases hok
  | ok id =>
    refine ⟨id, p', rfl, ?_⟩
    dsimp only at hreply
    generalize (p'.modify id fun c => c.set v).save = out at hreply ⊢
    obtain ⟨outcome, after⟩ := out
    cases outcome with
    | error e =>
      rw [← hreply] at hok
      cases hok
    | ok u =>
      rw [← hreply]
      exact ⟨rfl, rfl⟩

/-- **A component that has been set is listed when the project is opened again**, if its
value is nested no deeper than an entry of a storage file may be. -/
theorem Command.set_reopens (hfaithful : Digest.Faithful δ) (hsettings : settings.Standard)
    (hopen : Project.open d dir settings = .ok p) (hhoused : p.Housed d)
    (hread : Json.read value.toList = .ok v) (hdepth : v.depth ≤ entryDepth)
    (hok : (Command.set δ d dir scope component value settings).error = none) :
    ∃ p' : Project δ,
      Project.open (Command.set δ d dir scope component value settings).disk dir settings
        = .ok p' ∧
      ∃ s, p'.scope? scope = some s ∧ component ∈ keys s.components := by
  obtain ⟨id, p₁, hmade, hsaved, hdisk⟩ := Command.set_cases hread hopen hok
  have hroot := Disk.isAbsolute_of_canonical (Project.open_eq_ok_iff.mp hopen).1
  have hordinary := hhoused.ordinary hroot
  obtain ⟨hopened, hlisting, horderly⟩ := hhoused.opened hsettings hopen
  obtain ⟨s, hs, hpart, hasked⟩ := hopened.componentOrCreate_spec hlisting hhoused.tree
    ((Project.open_eq_ok_iff.mp hopen).2.2.2.1 ▸ hsettings)
    (fun part hpart => (hordinary _ (List.mem_map_of_mem hpart)).toStands) hmade
  -- The disk as it is left, and the project as it opens again.
  obtain ⟨hleft, horderly', hnames⟩ := hasked.saved hfaithful hhoused.tree hordinary
    hhoused.apart horderly (by simp [hpart]) ⟨(Json.within_read hread).1, hdepth⟩ hsaved
  rw [hdisk]
  obtain ⟨p', hopen', hopened'⟩ := (hhoused.reopens_spec hsettings hopen hleft).1 horderly'
  refine ⟨p', hopen', ?_⟩
  have hframe := Project.scope?_frame (hopened'.frames.trans hopened.frames.symm) scope
  rw [hs] at hframe
  obtain ⟨s', hs', hframe⟩ := Option.map_eq_some_iff.mp hframe
  have hdir : s'.dir = s.dir := congrArg (fun f => f.2.1) hframe
  refine ⟨s', hs', (hopened'.component s' (List.mem_of_find?_eq_some hs') component).mpr ?_⟩
  rw [hdir]
  exact hnames

/-- **A component that has been set to a value that nests deeper locks the project**: it
does not open again, unless two of its scopes have one directory, so that one may have
overwritten what the other had written. -/
theorem Command.set_locks (hfaithful : Digest.Faithful δ) (hsettings : settings.Standard)
    (hopen : Project.open d dir settings = .ok p) (hhoused : p.Housed d)
    (hdistinct : (p.dirs.map Path.location).Nodup) (hread : Json.read value.toList = .ok v)
    (hdeep : entryDepth < v.depth)
    (hok : (Command.set δ d dir scope component value settings).error = none) (p' : Project δ) :
    Project.open (Command.set δ d dir scope component value settings).disk dir settings
      ≠ .ok p' := by
  intro hopen'
  obtain ⟨id, p₁, hmade, hsaved, hdisk⟩ := Command.set_cases hread hopen hok
  have hroot := Disk.isAbsolute_of_canonical (Project.open_eq_ok_iff.mp hopen).1
  have hordinary := hhoused.ordinary hroot
  obtain ⟨hopened, hlisting, _⟩ := hhoused.opened hsettings hopen
  obtain ⟨s, _, hpart, hasked⟩ := hopened.componentOrCreate_spec hlisting hhoused.tree
    ((Project.open_eq_ok_iff.mp hopen).2.2.2.1 ▸ hsettings)
    (fun part hpart => (hordinary _ (List.mem_map_of_mem hpart)).toStands) hmade
  have hdir : p.dirs[s.scope]? = some s.dir := by simp [Project.dirs, hpart]
  have halone : ∀ j dir, p.dirs[j]? = some dir → dir.location = s.dir.location → j = s.scope := by
    intro j dir hj hlocation
    have hlt : j < (p.dirs.map Path.location).length := by
      rw [List.length_map]
      exact (List.getElem?_eq_some_iff.mp hj).1
    refine (List.getElem?_inj hlt hdistinct).mp ?_
    rw [List.getElem?_map, List.getElem?_map, hj, hdir, Option.map_some, Option.map_some, hlocation]
  obtain ⟨hleft, f, hf, hillegible⟩ := hasked.locked hfaithful hhoused.tree
    (fun dir hdir => (hordinary dir hdir).absolute) hhoused.apart hdir halone
    (Json.within_read hread).1 hdeep hsaved
  rw [hdisk] at hopen'
  -- If the project opened, the file could be read.
  have hmem := List.mem_of_getElem? hdir
  have horderly' := (hhoused.reopens_spec hsettings hopen hleft).2 p' hopen' _ hmem
  refine hillegible ?_
  rw [← (hleft.ordinary hmem (hordinary _ hmem)).2]
  exact horderly'.legible f hf

/-- **What becomes of a project in which a component has been set.** It opens again and
lists the component, if the value may be an entry of a storage file; otherwise it does not
open again. -/
theorem Command.set_then_open (hfaithful : Digest.Faithful δ) (hsettings : settings.Standard)
    (hopen : Project.open d dir settings = .ok p) (hhoused : p.Housed d)
    (hread : Json.read value.toList = .ok v)
    (hok : (Command.set δ d dir scope component value settings).error = none) :
    (v.depth ≤ entryDepth → ∃ p' : Project δ,
      Project.open (Command.set δ d dir scope component value settings).disk dir settings
        = .ok p' ∧
      ∃ s, p'.scope? scope = some s ∧ component ∈ keys s.components) ∧
    ((p.dirs.map Path.location).Nodup → entryDepth < v.depth → ∀ p' : Project δ,
      Project.open (Command.set δ d dir scope component value settings).disk dir settings
        ≠ .ok p') :=
  ⟨fun hdepth => Command.set_reopens hfaithful hsettings hopen hhoused hread hdepth hok,
    fun hdistinct hdeep => Command.set_locks hfaithful hsettings hopen hhoused hdistinct hread
      hdeep hok⟩

end Setting

/-! ## 3. Projects that lock themselves -/

/-- A project with a module, and with a storage file of its own. -/
def housedDisk : Disk :=
  { nodes := [(["p"], .directory), (["p", ".scopestore"], .directory),
      (["p", ".scopestore", "a.json"], .file (Utf8.encode "\x7b\"a\":1\x7d".toList) false),
      (["p", "scopestore.toml"], .file (Utf8.encode
        "name = \"p\"\nmodules = [\x7bname = \"m\", dir = \"m\"\x7d]\n".toList) false)] }

/-- Where no name has a dollar sign, no file refers to a path variable. -/
theorem Disk.plain_of_nodes {d : Disk}
    (h : ∀ e ∈ d.nodes, '$' ∉ (e.1.getLast?.getD "").toList) {place : Place} {f : String}
    (hcontent : (d.contentAt (place ++ [f])).isSome = true) : '$' ∉ f.toList := by
  obtain ⟨bytes, hbytes⟩ := Option.isSome_iff_exists.mp hcontent
  obtain ⟨readOnly, hnode⟩ := Disk.contentAt_eq_some.mp hbytes
  rw [Disk.node?_concat] at hnode
  have hname := h _ (Bindings.mem_of_get? hnode)
  rwa [List.getLast?_concat, Option.getD_some] at hname

theorem housedDisk_opens : ∃ p : Project Bytes,
    Project.open housedDisk ⟨"/p"⟩ {} = .ok p ∧ p.Housed housedDisk ∧
      p.dirs = [⟨"/p"⟩, ⟨"/p/m"⟩] := by
  have hopens : (Project.open (δ := Bytes) housedDisk ⟨"/p"⟩ {}).toOption.map Project.dirs
      = some [⟨"/p"⟩, ⟨"/p/m"⟩] := by decide +kernel
  obtain ⟨p, hp, hdirs⟩ := Option.map_eq_some_iff.mp hopens
  refine ⟨p, toOption_eq_some_iff.mp hp, ?_, hdirs⟩
  exact
    { tree := Disk.tree_of_nodes (by decide +kernel)
      cwd := rfl
      settled := by
        rw [hdirs]
        exact fun dir hdir => Or.inl (by revert dir; decide)
      short := by
        rw [hdirs]
        decide
      plain := fun dir _ f _ hcontent =>
        MacroTable.expand_of_no_dollar _ (Disk.plain_of_nodes (by decide +kernel) hcontent)
      apart := by
        rw [Disk.Apart, hdirs]
        decide }

/-- As many arrays in one another as the command line takes. -/
def deepestText : String := String.ofList (List.replicate 127 '[' ++ List.replicate 127 ']')

/-- The command line takes the deepest value, and says that it has been set. -/
theorem set_deepest_ok : (∃ v, Json.read deepestText.toList = .ok v ∧ entryDepth < v.depth) ∧
    (Command.set Bytes housedDisk ⟨"/p"⟩ "m" "c" deepestText {}).error = none := by
  refine ⟨?_, by decide +kernel⟩
  have hdepth : (Json.read deepestText.toList).toOption.map Json.depth = some 127 := by
    decide +kernel
  obtain ⟨v, hv, hdepth⟩ := Option.map_eq_some_iff.mp hdepth
  exact ⟨v, toOption_eq_some_iff.mp hv, by rw [hdepth]; decide⟩

/-- A component is set in the module, which has no files yet: the project opens again
with one value, and does not with the other. -/
theorem Command.set_then_open_module :
    (∃ p' : Project Bytes,
      Project.open (Command.set Bytes housedDisk ⟨"/p"⟩ "m" "c" "[true]" {}).disk ⟨"/p"⟩ {} = .ok p' ∧
      ∃ s, p'.scope? "m" = some s ∧ "c" ∈ keys s.components) ∧
    ∀ p' : Project Bytes,
      Project.open (Command.set Bytes housedDisk ⟨"/p"⟩ "m" "c" deepestText {}).disk ⟨"/p"⟩ {}
        ≠ .ok p' := by
  obtain ⟨p, hopen, hhoused, hdirs⟩ := housedDisk_opens
  obtain ⟨⟨v, hread, hdeep⟩, hok⟩ := set_deepest_ok
  have hdistinct : (p.dirs.map Path.location).Nodup := by
    rw [hdirs]
    decide
  exact ⟨(Command.set_then_open Digest.faithful_bytes ⟨rfl, rfl⟩ hopen hhoused
      (v := .array [.bool true]) (by rfl) (by decide +kernel)).1 (by decide),
    (Command.set_then_open Digest.faithful_bytes ⟨rfl, rfl⟩ hopen hhoused hread hok).2 hdistinct
      hdeep⟩

/-- **A value that the command line takes locks the project.** The project opens, the
component is set, and the project does not open any more. -/
theorem Command.set_deepest_locks :
    (Project.open (δ := Bytes) housedDisk ⟨"/p"⟩ {}).isOk = true ∧
      (Command.set Bytes housedDisk ⟨"/p"⟩ "m" "c" deepestText {}).error = none ∧
      ∀ p' : Project Bytes,
        Project.open (Command.set Bytes housedDisk ⟨"/p"⟩ "m" "c" deepestText {}).disk ⟨"/p"⟩ {}
          ≠ .ok p' := by
  obtain ⟨p, hopen, hhoused, hdirs⟩ := housedDisk_opens
  obtain ⟨⟨v, hread, hdeep⟩, hok⟩ := set_deepest_ok
  refine ⟨by rw [hopen]; rfl, hok, ?_⟩
  exact Command.set_locks Digest.faithful_bytes ⟨rfl, rfl⟩ hopen hhoused (by rw [hdirs]; decide)
    hread hdeep hok

/-- A project whose module is reached by way of a directory that is not there. -/
def detourDisk : Disk :=
  { nodes := [(["p"], .directory), (["p", "m"], .directory),
      (["p", "m", ".scopestore"], .directory),
      (["p", "m", ".scopestore", "a.json"], .file (Utf8.encode "\x7b\"c\":1\x7d".toList) false),
      (["p", "scopestore.toml"], .file (Utf8.encode
        "name = \"p\"\nmodules = [\x7bname = \"m\", dir = \"x/../m\"\x7d]\n".toList) false)] }

/-- **A write may make files appear**, so directories are to be settled. The files of the
module are not found as long as the directory on the way to them is missing. Setting a
component makes it, and then a second file of the module has the name. -/
theorem Command.set_detour_locks :
    (Command.set Bytes detourDisk ⟨"/p"⟩ "m" "c" "2" {}).error = none ∧
      (Project.open (δ := Bytes) (Command.set Bytes detourDisk ⟨"/p"⟩ "m" "c" "2" {}).disk
        ⟨"/p"⟩ {}).isOk = false := by
  decide +kernel

/-- A project with a file whose name refers to its directory. -/
def namedDisk : Disk :=
  { nodes := [(["p"], .directory), (["p", ".scopestore"], .directory),
      (["p", ".scopestore", "$PROJECT_DIR$.json"],
        .file (Utf8.encode "\x7b\"c\":1\x7d".toList) false),
      (["p", "scopestore.toml"], .file (Utf8.encode "name = \"p\"\n".toList) false)] }

/-- **A component may be kept in another file than the one it was found in**, so names are
to be plain. The other file is written, and has the component a second time. -/
theorem Command.set_named_locks :
    (Command.set Bytes namedDisk ⟨"/p"⟩ "p" "c" "2" {}).error = none ∧
      (Project.open (δ := Bytes) (Command.set Bytes namedDisk ⟨"/p"⟩ "p" "c" "2" {}).disk
        ⟨"/p"⟩ {}).isOk = false := by
  decide +kernel

/-- A project with a module in its own directory, by another spelling. -/
def twiceDisk : Disk :=
  { nodes := [(["p"], .directory), (["p", "x"], .directory), (["p", ".scopestore"], .directory),
      (["p", ".scopestore", "misc.json"],
        .file (Utf8.encode "\x7b\"a\":\"/p\"\x7d".toList) false),
      (["p", "scopestore.toml"], .file (Utf8.encode
        "name = \"p\"\nmodules = [\x7bname = \"m\", dir = \"x/..\"\x7d]\n".toList) false)] }

/-- **A file with two storages may be written twice**, so places are to be apart. The
second write knows nothing of the first one, and takes the component away. -/
theorem Command.set_twice_forgets :
    (Command.set Bytes twiceDisk ⟨"/p"⟩ "m" "c" "2" {}).error = none ∧
      ((Project.open (δ := Bytes) (Command.set Bytes twiceDisk ⟨"/p"⟩ "m" "c" "2" {}).disk
        ⟨"/p"⟩ {}).toOption.bind fun p => (p.scope? "m").map fun s => keys s.components)
        = some ["a"] := by
  decide +kernel

end ScopedState
