import Haybarn.Io.WebFiles

/-!
# The indexes of the web filesystem agree

`Inv` is what every call keeps (`step_inv`); with it the three indexes agree in every state of
an orderly run (`directory_agrees`). The three calls that are not orderly break it:
`moved_onto_other_file` moves a file to a name that is taken, `open_failed` opens a file that
cannot be opened.
-/

namespace Haybarn.Io.WebFiles

open Haybarn.Lib WebFileSystem

/-! ## Indexes -/

section

variable {K : Type} [DecidableEq K] {m : Index K} {k k' : K} {p q : Ptr}

theorem lookup_erase_some (h : (m.erase k).lookup k' = some q) :
    k' ≠ k ∧ m.lookup k' = some q := by
  by_cases hk : k' = k
  · rw [hk, AList.lookup_erase] at h
    cases h
  · rw [AList.lookup_erase_ne hk] at h
    exact ⟨hk, h⟩

theorem lookup_insertNew_of_ne (hk : k' ≠ k) : (insertNew m k p).lookup k' = m.lookup k' := by
  unfold insertNew
  split
  · rfl
  · exact AList.lookup_insert_ne hk

theorem lookup_insertNew_of_none (hk : m.lookup k = none) : (insertNew m k p).lookup k = some p := by
  rw [insertNew, if_neg (AList.lookup_eq_none.mp hk), AList.lookup_insert]

/-- What is under the key is what was there, or the new entry. -/
theorem lookup_insertNew_some (h : (insertNew m k p).lookup k' = some q) :
    m.lookup k' = some q ∨ k' = k ∧ q = p ∧ m.lookup k = none := by
  by_cases hk : k' = k
  · subst hk
    cases hm : m.lookup k' with
    | none =>
      rw [lookup_insertNew_of_none hm] at h
      exact .inr ⟨rfl, (Option.some.inj h).symm, rfl⟩
    | some r =>
      have hmem : k' ∈ m := AList.lookup_isSome.mp (by rw [hm]; rfl)
      rw [insertNew, if_pos hmem, hm] at h
      exact .inl h
  · rw [lookup_insertNew_of_ne hk] at h
    exact .inl h

end

namespace WebFileSystem

variable {s : WebFileSystem} {p : Ptr} {f : WebFile} {h : HandleId} {closing : Closing}

/-! ## The invariant -/

structure Inv (s : WebFileSystem) : Prop where
  by_name : ∀ n p, s.files_by_name.lookup n = some p → ∃ f, s.Indexed p f ∧ f.file_name = n
  by_url : ∀ u p, s.files_by_url.lookup u = some p → ∃ f, s.Indexed p f ∧ f.data_url = some u
  by_id : ∀ i p, s.files_by_id.lookup i = some p →
    ∃ f, s.Indexed p f ∧ f.file_id = i ∧ s.files_by_name.lookup f.file_name = some p
  fresh : ∀ p, s.nextPtr ≤ p → s.files p = none
  defined : s.undefined = false

theorem initial_inv (protocol : DataProtocol) : (initial protocol).Inv := by
  refine ⟨?_, ?_, ?_, fun _ _ => rfl, rfl⟩ <;>
  · intro k p h
    rw [initial, AList.lookup_empty] at h
    cases h

theorem Inv.named (hinv : s.Inv) (hf : s.Indexed p f) :
    s.files_by_name.lookup f.file_name = some p := by
  obtain ⟨g, hg, -, hname⟩ := hinv.by_id _ _ hf.2
  obtain rfl : g = f := Option.some.inj (hg.1.symm.trans hf.1)
  exact hname

/-- The claims of `Agree` about pairs of files follow. -/
theorem Inv.agree (hinv : s.Inv) : s.Agree where
  by_name := hinv.by_name
  by_url := hinv.by_url
  by_id := hinv.by_id
  unique p q f g hf hg hsame := by
    rcases hsame with hid | hname | ⟨u, hp, hq⟩
    · have hlookup := hf.2
      rw [hid, hg.2] at hlookup
      exact (Option.some.inj hlookup).symm
    · have hlookup := hinv.named hf
      rw [hname, hinv.named hg] at hlookup
      exact (Option.some.inj hlookup).symm
    · exact Option.some.inj (hp.symm.trans hq)
  defined := hinv.defined

/-- Which handles there are plays no part. -/
theorem Inv.of_handles {handles : HandleId → Option Ptr} {next : HandleId} (hinv : s.Inv) :
    { s with handles := handles, nextHandle := next }.Inv :=
  ⟨hinv.by_name, hinv.by_url, hinv.by_id, hinv.fresh, hinv.defined⟩

/-! ## Changes that leave the keys of a file -/

/-- The change leaves what the indexes go by. -/
def KeepsKeys (k : WebFile → WebFile) : Prop :=
  ∀ f, (k f).file_id = f.file_id ∧ (k f).file_name = f.file_name ∧ (k f).data_url = f.data_url

theorem modify_files (k : WebFile → WebFile) (q : Ptr) :
    (s.modify p k).files q = if q = p then (s.files q).map k else s.files q := by
  rw [modify]
  by_cases hq : q = p
  · rw [hq, if_pos rfl]
    exact Function.update_self ..
  · rw [if_neg hq]
    exact Function.update_of_ne hq ..

theorem modify_indexed {k : WebFile → WebFile} (hk : KeepsKeys k) {q : Ptr}
    (hf : s.Indexed q f) : ∃ g, (s.modify p k).Indexed q g ∧ g.file_id = f.file_id ∧
      g.file_name = f.file_name ∧ g.data_url = f.data_url := by
  by_cases hq : q = p
  · refine ⟨k f, ⟨?_, ?_⟩, hk f⟩
    · rw [modify_files, if_pos hq, hf.1]; rfl
    · rw [(hk f).1]; exact hf.2
  · refine ⟨f, ⟨?_, hf.2⟩, rfl, rfl, rfl⟩
    rw [modify_files, if_neg hq]; exact hf.1

theorem Inv.modify {k : WebFile → WebFile} (hinv : s.Inv) (hk : KeepsKeys k) :
    (s.modify p k).Inv where
  by_name n q hn := by
    obtain ⟨f, hf, hname⟩ := hinv.by_name n q hn
    obtain ⟨g, hg, -, hgname, -⟩ := modify_indexed (p := p) hk hf
    exact ⟨g, hg, hgname.trans hname⟩
  by_url u q hu := by
    obtain ⟨f, hf, hurl⟩ := hinv.by_url u q hu
    obtain ⟨g, hg, -, -, hgurl⟩ := modify_indexed (p := p) hk hf
    exact ⟨g, hg, hgurl.trans hurl⟩
  by_id i q hi := by
    obtain ⟨f, hf, hid, hname⟩ := hinv.by_id i q hi
    obtain ⟨g, hg, hgid, hgname, -⟩ := modify_indexed (p := p) hk hf
    exact ⟨g, hg, hgid.trans hid, by rw [hgname]; exact hname⟩
  fresh q hq := by
    rw [modify_files, hinv.fresh q hq]
    exact ite_self _
  defined := hinv.defined

theorem raised_keeps : KeepsKeys raised := fun _ => ⟨rfl, rfl, rfl⟩

theorem lowered_keeps : KeepsKeys lowered := fun _ => ⟨rfl, rfl, rfl⟩

theorem overwriteWithBuffer_keeps : KeepsKeys overwriteWithBuffer := by
  intro f
  unfold overwriteWithBuffer
  split <;> exact ⟨rfl, rfl, rfl⟩

theorem afterOpen_keeps (flags : OpenFlags) (buffer : Bool) : KeepsKeys (afterOpen flags buffer) := by
  intro f
  unfold afterOpen
  split <;> exact ⟨rfl, rfl, rfl⟩

theorem restoreProtocol_keeps (s : WebFileSystem) :
    KeepsKeys fun f => s.restoreProtocol (lowered f) := by
  intro f
  dsimp only
  unfold restoreProtocol
  split <;> exact ⟨rfl, rfl, rfl⟩

theorem Inv.makeHandle (hinv : s.Inv) (p : Ptr) : (s.makeHandle p).Inv :=
  (hinv.modify raised_keeps).of_handles

theorem makeHandle_indexed (hf : s.Indexed p f) : ∃ g, (s.makeHandle p).Indexed p g := by
  obtain ⟨g, hg, -⟩ := modify_indexed (p := p) raised_keeps hf
  exact ⟨g, hg⟩

/-! ## Creating -/

theorem create_indexed (n : String) (protocol : DataProtocol) (url : Option String)
    (hid : s.IdIsNew) : ∃ f, (s.create n protocol url).Indexed s.nextPtr f ∧
      f.file_id = s.allocateFileID ∧ f.file_name = n ∧ f.data_url = url :=
  ⟨_, ⟨Function.update_self .., lookup_insertNew_of_none hid⟩, rfl, rfl, rfl⟩

/-- The files that were there are where they were. -/
theorem create_keeps {n : String} {protocol : DataProtocol} {url : Option String}
    (hfresh : s.files s.nextPtr = none) (hid : s.IdIsNew) (hf : s.Indexed p f) :
    (s.create n protocol url).Indexed p f := by
  have hne : p ≠ s.nextPtr := by
    rintro rfl
    rw [hf.1] at hfresh
    cases hfresh
  have hidne : f.file_id ≠ s.allocateFileID := by
    intro heq
    have hnone : s.files_by_id.lookup s.allocateFileID = none := hid
    rw [← heq, hf.2] at hnone
    cases hnone
  exact ⟨(Function.update_of_ne hne ..).trans hf.1, (lookup_insertNew_of_ne hidne).trans hf.2⟩

theorem Inv.create {n : String} {protocol : DataProtocol} {url : Option String} (hinv : s.Inv)
    (hid : s.IdIsNew) (hname : s.files_by_name.lookup n = none) :
    (s.create n protocol url).Inv := by
  obtain ⟨f, hf, hfid, hfname, hfurl⟩ := create_indexed n protocol url hid
  have hold : ∀ {p f}, s.Indexed p f → (s.create n protocol url).Indexed p f :=
    create_keeps (hinv.fresh _ (Nat.le_refl _)) hid
  refine ⟨fun n' q hq => ?_, fun u q hq => ?_, fun i q hq => ?_, fun q hq => ?_, hinv.defined⟩
  · rcases lookup_insertNew_some hq with hq | ⟨rfl, rfl, -⟩
    · obtain ⟨g, hg, hgname⟩ := hinv.by_name n' q hq
      exact ⟨g, hold hg, hgname⟩
    · exact ⟨f, hf, hfname⟩
  · have hcases : s.files_by_url.lookup u = some q ∨ url = some u ∧ q = s.nextPtr := by
      cases url with
      | none => exact .inl hq
      | some url' =>
        rcases lookup_insertNew_some hq with hq | ⟨rfl, rfl, -⟩
        · exact .inl hq
        · exact .inr ⟨rfl, rfl⟩
    rcases hcases with hq | ⟨hu, rfl⟩
    · obtain ⟨g, hg, hgurl⟩ := hinv.by_url u q hq
      exact ⟨g, hold hg, hgurl⟩
    · exact ⟨f, hf, hfurl.trans hu⟩
  · rcases lookup_insertNew_some hq with hq | ⟨rfl, rfl, -⟩
    · obtain ⟨g, hg, hgid, hgname⟩ := hinv.by_id i q hq
      refine ⟨g, hold hg, hgid, ?_⟩
      have hne : g.file_name ≠ n := by
        rintro heq
        rw [heq, hname] at hgname
        cases hgname
      exact (lookup_insertNew_of_ne hne).trans hgname
    · refine ⟨f, hf, hfid, ?_⟩
      rw [hfname]
      exact lookup_insertNew_of_none hname
  · have hlt : s.nextPtr < q := hq
    exact (Function.update_of_ne (Nat.ne_of_gt hlt) ..).trans (hinv.fresh q (Nat.le_of_lt hlt))

/-! ## Forgetting -/

/-- Files with another id stay where they are. -/
theorem forget_indexed {g : WebFile} {q : Ptr} (hg : s.Indexed q g) (hid : g.file_id ≠ f.file_id) :
    (s.forget f).Indexed q g :=
  ⟨hg.1, (AList.lookup_erase_ne hid).trans hg.2⟩

theorem Inv.forget (hinv : s.Inv) (hf : s.Indexed p f) : (s.forget f).Inv := by
  have hsame : ∀ {q g}, s.Indexed q g → g.file_id = f.file_id → q = p ∧ g = f := by
    intro q g hg hid
    have hlookup := hg.2
    rw [hid, hf.2] at hlookup
    obtain rfl := Option.some.inj hlookup
    exact ⟨rfl, Option.some.inj (hg.1.symm.trans hf.1)⟩
  refine ⟨fun n q hq => ?_, fun u q hq => ?_, fun i q hq => ?_, hinv.fresh, hinv.defined⟩
  · obtain ⟨hne, hq⟩ := lookup_erase_some hq
    obtain ⟨g, hg, hgname⟩ := hinv.by_name n q hq
    refine ⟨g, forget_indexed hg fun hid => hne ?_, hgname⟩
    rw [← hgname, (hsame hg hid).2]
  · have hq' : f.data_url ≠ some u ∧ s.files_by_url.lookup u = some q := by
      cases hurl : f.data_url with
      | none => 
        rw [WebFileSystem.forget, hurl] at hq
        exact ⟨nofun, hq⟩
      | some url =>
        rw [WebFileSystem.forget, hurl] at hq
        obtain ⟨hne, hq⟩ := lookup_erase_some hq
        exact ⟨fun heq => hne (Option.some.inj heq).symm, hq⟩
    obtain ⟨g, hg, hgurl⟩ := hinv.by_url u q hq'.2
    refine ⟨g, forget_indexed hg fun hid => hq'.1 ?_, hgurl⟩
    rw [← (hsame hg hid).2]
    exact hgurl
  · obtain ⟨hne, hq⟩ := lookup_erase_some hq
    obtain ⟨g, hg, hgid, hgname⟩ := hinv.by_id i q hq
    have hid : g.file_id ≠ f.file_id := by rw [hgid]; exact hne
    refine ⟨g, forget_indexed hg hid, hgid, ?_⟩
    have hname : g.file_name ≠ f.file_name := by
      intro heq
      have hlookup := hinv.named hf
      rw [← heq, hgname] at hlookup
      obtain rfl := Option.some.inj hlookup
      exact hid (congrArg WebFile.file_id (Option.some.inj (hg.1.symm.trans hf.1)))
    exact (AList.lookup_erase_ne hname).trans hgname

theorem forgetFound_of_indexed (hf : s.Indexed p f) : s.forgetFound f = s.forget f := by
  have hmem : f.file_id ∈ s.files_by_id := AList.lookup_isSome.mp (by rw [hf.2]; rfl)
  rw [forgetFound, if_pos hmem]

/-! ## Closing -/

theorem Inv.close (hinv : s.Inv) (hok : s.ClosesIndexed h closing) : (s.Close h closing).1.Inv := by
  unfold Close
  split
  next => exact hinv
  next p hp =>
    have hreleased : { s with handles := Function.update s.handles h none }.Inv := hinv.of_handles
    dsimp only
    split
    next => exact hreleased
    next f hf =>
      split
      next => exact hreleased.modify lowered_keeps
      next => exact hreleased.modify (restoreProtocol_keeps s)
      next herase =>
        -- The indexes go by the keys of the file as it was.
        have hindexed := hok p hp f hf herase
        obtain ⟨g, hg, hid, hname, hurl⟩ := modify_indexed
          (s := { s with handles := Function.update s.handles h none }) (p := p)
          (restoreProtocol_keeps s) hindexed
        have hforget : ∀ t : WebFileSystem, t.forget f = t.forget g := by
          intro t
          rw [WebFileSystem.forget, WebFileSystem.forget, hid, hname, hurl]
        have hfound : ∀ t : WebFileSystem, t.forgetFound f = t.forgetFound g := by
          intro t
          rw [forgetFound, forgetFound, hforget, hid]
        rw [hfound, forgetFound_of_indexed hg]
        exact (hreleased.modify (restoreProtocol_keeps s)).forget hg

/-! ## Opening -/

theorem Inv.abortOpen (hinv : s.Inv) (hf : s.Indexed p f) (hh : s.handles h = some p)
    (hkeep : (lowered f).closeAction closing ≠ .erase) : (s.abortOpen p h closing).1.Inv := by
  unfold WebFileSystem.abortOpen
  rw [hf.1]
  dsimp only
  rw [forgetFound_of_indexed hf]
  refine (hinv.forget hf).close fun q hq g hg herase => ?_
  obtain rfl : p = q := Option.some.inj (hh.symm.trans hq)
  obtain rfl : f = g := Option.some.inj (hf.1.symm.trans hg)
  exact absurd herase hkeep

/-- What `OpenFile` opens is indexed. -/
theorem findOrCreate_spec {url : String} (hinv : s.Inv)
    (hid : s.files_by_name.lookup url = none → s.IdIsNew) :
    (s.findOrCreate url).1.Inv ∧ ∃ f, (s.findOrCreate url).1.Indexed (s.findOrCreate url).2 f := by
  unfold findOrCreate
  split
  next p hp =>
    obtain ⟨f, hf, -⟩ := hinv.by_name url p hp
    exact ⟨hinv, f, hf⟩
  next hnone =>
    obtain ⟨f, hf, -⟩ := create_indexed url (s.inferDataProtocol url) (some url) (hid hnone)
    have hcreated : (s.create url (s.inferDataProtocol url) (some url)).Inv :=
      hinv.create (hid hnone) hnone
    exact ⟨hcreated, f, hf⟩

theorem Inv.openInRuntime {flags : OpenFlags} {opened : Opened} (hinv : s.Inv)
    (hf : s.Indexed p f) (hh : s.handles h = some p) (hok : s.AbortsOpen p flags opened closing) :
    (s.openInRuntime p h flags opened closing).1.Inv := by
  unfold WebFileSystem.openInRuntime
  rw [hf.1]
  split
  next => exact hinv
  next hbuffer =>
    have hprotocol : f.data_protocol ≠ .BUFFER := fun heq => hbuffer (congrArg some heq)
    have hkeep : aborts flags opened = true →
        (lowered (atEnd flags opened f)).closeAction closing ≠ .erase :=
      fun haborts => hok haborts f hf.1 hprotocol
    split
    next => exact hinv.abortOpen hf hh (hkeep rfl)
    next =>
      split
      next =>
        refine hinv.close fun q hq g hg _ => ?_
        obtain rfl : p = q := Option.some.inj (hh.symm.trans hq)
        obtain rfl : f = g := Option.some.inj (hf.1.symm.trans hg)
        exact hf
      next hreturn =>
        exact hinv.abortOpen hf hh (hkeep (by rw [aborts, Bool.eq_false_iff.mpr hreturn]; rfl))
    next buffer truncateThrows =>
      have hchanged := hinv.modify (p := p) (afterOpen_keeps flags buffer)
      split
      next hthrows =>
        refine hchanged.abortOpen (f := afterOpen flags buffer f) ⟨?_, ?_⟩ hh (hkeep hthrows)
        · rw [modify_files, if_pos rfl, hf.1]; rfl
        · rw [(afterOpen_keeps flags buffer f).1]; exact hf.2
      next => exact hchanged

/-! ## Dropping and moving -/

/-- Files of different entries of the id index are forgotten one after the other. -/
theorem Inv.forgetAll {pick : (Sigma fun _ : UInt32 => Ptr) → Option WebFile}
    (entries : List (Sigma fun _ : UInt32 => Ptr)) : ∀ {s : WebFileSystem}, s.Inv →
    (∀ e ∈ entries, ∀ f, pick e = some f → s.Indexed e.2 f ∧ f.file_id = e.1) →
    (entries.map Sigma.fst).Nodup →
    ((entries.filterMap pick).foldl WebFileSystem.forget s).Inv := by
  induction entries with
  | nil => intro s hinv _ _; exact hinv
  | cons e rest ih =>
    intro s hinv hpick hnodup
    rw [List.map_cons, List.nodup_cons] at hnodup
    have hrest : ∀ e' ∈ rest, ∀ f, pick e' = some f → s.Indexed e'.2 f ∧ f.file_id = e'.1 :=
      fun e' he' => hpick e' (List.mem_cons_of_mem _ he')
    cases he : pick e with
    | none =>
      rw [List.filterMap_cons_none he]
      exact ih hinv hrest hnodup.2
    | some f =>
      obtain ⟨hf, hid⟩ := hpick e List.mem_cons_self f he
      rw [List.filterMap_cons_some he, List.foldl_cons]
      refine ih (hinv.forget hf) (fun e' he' g hg => ?_) hnodup.2
      obtain ⟨hg', hgid⟩ := hrest e' he' g hg
      refine ⟨forget_indexed hg' fun heq => hnodup.1 ?_, hgid⟩
      rw [← hid, ← heq, hgid]
      exact List.mem_map_of_mem he'

theorem Inv.dropDanglingFiles (hinv : s.Inv) : s.DropDanglingFiles.1.Inv := by
  refine hinv.forgetAll s.files_by_id.entries (fun e he f hpick => ?_) s.files_by_id.nodupKeys
  obtain ⟨g, hg, hid, -⟩ := hinv.by_id e.1 e.2 (AList.mem_lookup_iff.mpr he)
  rw [hg.1, Option.filter_some] at hpick
  split at hpick
  · obtain rfl := Option.some.inj hpick
    exact ⟨hg, hid⟩
  · cases hpick

theorem Inv.tryDropFile (hinv : s.Inv) (n : String) : (s.TryDropFile n).1.Inv := by
  unfold TryDropFile
  split
  next => exact hinv
  next f hf =>
    split
    next =>
      obtain ⟨p, hp, hfile⟩ := Option.bind_eq_some_iff.mp hf
      obtain ⟨g, hg, -⟩ := hinv.by_name n p hp
      obtain rfl : g = f := Option.some.inj (hg.1.symm.trans hfile)
      exact hinv.forget hg
    next => exact hinv

/-- The URL of one file changes, and its entry with it. -/
theorem Inv.moveUrl (hinv : s.Inv) (source target : String) : (s.moveUrl source target).Inv := by
  unfold WebFileSystem.moveUrl
  split
  next => exact hinv
  next p hp =>
    obtain ⟨f, hf, hfurl⟩ := hinv.by_url source p hp
    have hmoved : ∀ {q g}, s.Indexed q g → ∃ g', (s.modify p fun f =>
        { f with data_url := some target }).Indexed q g' ∧ g'.file_id = g.file_id ∧
        g'.file_name = g.file_name ∧ (q ≠ p → g' = g) := by
      intro q g hg
      by_cases hq : q = p
      · refine ⟨{ g with data_url := some target }, ⟨?_, hg.2⟩, rfl, rfl, fun hne => absurd hq hne⟩
        rw [modify_files, if_pos hq, hg.1]; rfl
      · refine ⟨g, ⟨?_, hg.2⟩, rfl, rfl, fun _ => rfl⟩
        rw [modify_files, if_neg hq]; exact hg.1
    refine ⟨fun n q hq => ?_, fun u q hq => ?_, fun i q hq => ?_, fun q hq => ?_, hinv.defined⟩
    · obtain ⟨g, hg, hname⟩ := hinv.by_name n q hq
      obtain ⟨g', hg', -, hname', -⟩ := hmoved hg
      exact ⟨g', hg', hname'.trans hname⟩
    · rcases lookup_insertNew_some hq with hq | ⟨rfl, rfl, -⟩
      · obtain ⟨hne, hq⟩ := lookup_erase_some hq
        obtain ⟨g, hg, hgurl⟩ := hinv.by_url u q hq
        have hqp : q ≠ p := by
          rintro rfl
          obtain rfl : g = f := Option.some.inj (hg.1.symm.trans hf.1)
          exact hne (Option.some.inj (hgurl.symm.trans hfurl))
        obtain ⟨g', hg', -, -, hsame⟩ := hmoved hg
        exact ⟨g', hg', by rw [hsame hqp]; exact hgurl⟩
      · refine ⟨{ f with data_url := some u }, ⟨?_, hf.2⟩, rfl⟩
        exact (modify_files ..).trans (by rw [if_pos rfl, hf.1]; rfl)
    · obtain ⟨g, hg, hid, hname⟩ := hinv.by_id i q hq
      obtain ⟨g', hg', hid', hname', -⟩ := hmoved hg
      exact ⟨g', hg', hid'.trans hid, by rw [hname']; exact hname⟩
    · exact (modify_files ..).trans (by rw [hinv.fresh q hq]; exact ite_self _)

/-- The name of one file changes, and its entry with it; the target is not taken. -/
theorem Inv.moveName {source target : String} (hinv : s.Inv)
    (hok : source ≠ target → s.files_by_name.lookup source ≠ none →
      s.files_by_name.lookup target = none) : (s.moveName source target).Inv := by
  unfold WebFileSystem.moveName
  split
  next => exact hinv
  next p hp =>
    obtain ⟨f, hf, hfname⟩ := hinv.by_name source p hp
    have hfree : (s.files_by_name.erase source).lookup target = none := by
      by_cases heq : source = target
      · rw [heq, AList.lookup_erase]
      · rw [AList.lookup_erase_ne (Ne.symm heq)]
        exact hok heq (by rw [hp]; nofun)
    have hmoved : ∀ {q g}, s.Indexed q g → ∃ g', (s.modify p fun f =>
        { f with file_name := target }).Indexed q g' ∧ g'.file_id = g.file_id ∧
        g'.data_url = g.data_url ∧ (q ≠ p → g' = g) ∧ (q = p → g'.file_name = target) := by
      intro q g hg
      by_cases hq : q = p
      · refine ⟨{ g with file_name := target }, ⟨?_, hg.2⟩, rfl, rfl, fun hne => absurd hq hne,
          fun _ => rfl⟩
        rw [modify_files, if_pos hq, hg.1]; rfl
      · refine ⟨g, ⟨?_, hg.2⟩, rfl, rfl, fun _ => rfl, fun heq => absurd heq hq⟩
        rw [modify_files, if_neg hq]; exact hg.1
    refine ⟨fun n q hq => ?_, fun u q hq => ?_, fun i q hq => ?_, fun q hq => ?_, hinv.defined⟩
    · rcases lookup_insertNew_some hq with hq | ⟨rfl, rfl, -⟩
      · obtain ⟨hne, hq⟩ := lookup_erase_some hq
        obtain ⟨g, hg, hgname⟩ := hinv.by_name n q hq
        have hqp : q ≠ p := by
          rintro rfl
          obtain rfl : g = f := Option.some.inj (hg.1.symm.trans hf.1)
          exact hne (hgname.symm.trans hfname)
        obtain ⟨g', hg', -, -, hsame, -⟩ := hmoved hg
        exact ⟨g', hg', by rw [hsame hqp]; exact hgname⟩
      · obtain ⟨g', hg', -, -, -, hname⟩ := hmoved hf
        exact ⟨g', hg', hname rfl⟩
    · obtain ⟨g, hg, hgurl⟩ := hinv.by_url u q hq
      obtain ⟨g', hg', -, hurl, -⟩ := hmoved hg
      exact ⟨g', hg', hurl.trans hgurl⟩
    · obtain ⟨g, hg, hid, hname⟩ := hinv.by_id i q hq
      obtain ⟨g', hg', hid', -, hsame, htarget⟩ := hmoved hg
      refine ⟨g', hg', hid'.trans hid, ?_⟩
      by_cases hqp : q = p
      · rw [htarget hqp, hqp]
        exact lookup_insertNew_of_none hfree
      · rw [hsame hqp]
        have hsource : g.file_name ≠ source := by
          intro heq
          rw [heq, hp] at hname
          exact hqp (Option.some.inj hname).symm
        have hkept : (s.files_by_name.erase source).lookup g.file_name = some q :=
          (AList.lookup_erase_ne hsource).trans hname
        have htargetne : g.file_name ≠ target := by
          intro heq
          rw [heq, hfree] at hkept
          cases hkept
        exact (lookup_insertNew_of_ne htargetne).trans hkept
    · exact (modify_files ..).trans (by rw [hinv.fresh q hq]; exact ite_self _)

/-- The first half of a move leaves the names. -/
theorem moveUrl_names (source target : String) :
    (s.moveUrl source target).files_by_name = s.files_by_name := by
  unfold WebFileSystem.moveUrl
  split <;> rfl

end WebFileSystem

/-! ## Runs -/

/-- **Every orderly call keeps the invariant.** -/
theorem step_inv {s s' : WebFileSystem} {e : Event} (hinv : s.Inv) (hok : Orderly s e)
    (hs : step s e = some s') : s'.Inv := by
  obtain rfl := Option.some.inj hs
  cases e with
  | RegisterFileURL file_name file_url protocol =>
    rw [call, WebFileSystem.RegisterFileURL]
    split
    next p hp =>
      split
      · exact hinv.makeHandle p
      · exact hinv
    next hnone => exact (hinv.create (hok hnone) hnone).makeHandle _
  | RegisterFileBuffer file_name =>
    rw [call, WebFileSystem.RegisterFileBuffer]
    split
    next p hp => exact (hinv.modify overwriteWithBuffer_keeps).makeHandle p
    next hnone => exact (hinv.create (hok hnone) hnone).makeHandle _
  | OpenFile url flags opened closing =>
    obtain ⟨hfound, f, hf⟩ := findOrCreate_spec hinv hok.1
    obtain ⟨g, hg⟩ := makeHandle_indexed hf
    have hhandle : (s.findOrCreate url).1.nextHandle = s.nextHandle := by
      rw [findOrCreate]
      split <;> rfl
    refine (hfound.makeHandle _).openInRuntime hg ?_ hok.2
    rw [← hhandle]
    exact Function.update_self ..
  | Close h closing => exact hinv.close hok
  | TryDropFile file_name => exact hinv.tryDropFile file_name
  | DropDanglingFiles => exact hinv.dropDanglingFiles
  | MoveFile source target =>
    refine (hinv.moveUrl source target).moveName ?_
    rw [moveUrl_names]
    exact hok

/-- **The directory of the web filesystem agrees with itself** in every state of an orderly
run. -/
theorem directory_agrees {protocol : DataProtocol} {es : List Event} {s : WebFileSystem}
    (hrun : Run step Orderly (initial protocol) es s) : s.Agree :=
  (hrun.invariant (initial_inv protocol) fun _ _ _ hinv hok hs => step_inv hinv hok hs).agree

/-- Two files with one URL; the first is closed, the other one is renamed, a file is opened
twice, and a buffer is dropped. -/
def sharedUrl : List Event :=
  [.RegisterFileURL "a" "http://x" .HTTP, .RegisterFileURL "b" "http://x" .HTTP, .Close 0 {},
    .MoveFile "b" "c", .OpenFile "c" {} (.opened false false) {}, .RegisterFileBuffer "d",
    .Close 3 {}, .DropDanglingFiles, .Close 1 {}]

theorem directory_agrees_shared_url : ∃ s, Run step Orderly (initial .NODE_FS) sharedUrl s ∧
    s.files_by_name.keys = ["c"] ∧ s.Agree := by
  obtain ⟨s, hrun, hs⟩ := Run.exists_of_execute
    (show (execute step Orderly (initial .NODE_FS) sharedUrl).map
      (fun s => decide (s.files_by_name.keys = ["c"])) = some true by decide +kernel)
  exact ⟨s, hrun, of_decide_eq_true hs, directory_agrees hrun⟩

/-- A file is moved to the name of another one: it bears a name that leads to the other. -/
theorem moved_onto_other_file : ∃ s, Run step Always (initial .NODE_FS)
    [.RegisterFileBuffer "a", .RegisterFileBuffer "b", .MoveFile "a" "b"] s ∧ ¬ s.Agree := by
  refine ⟨_, .of_execute rfl, fun hagree => ?_⟩
  have hsame := hagree.unique 0 1 ⟨1, "b", .BUFFER, 1, none, false⟩ ⟨2, "b", .BUFFER, 1, none, false⟩
    (by decide +kernel) (by decide +kernel) (.inr (.inl rfl))
  cases hsame

/-- A file that cannot be opened: it is erased, and then erased again when its handle is
closed. -/
theorem open_failed : ∃ s, Run step Always (initial .NODE_FS)
    [.OpenFile "http://x" {} .missing {}] s ∧ s.undefined = true :=
  ⟨_, .of_execute rfl, by decide +kernel⟩

end Haybarn.Io.WebFiles
