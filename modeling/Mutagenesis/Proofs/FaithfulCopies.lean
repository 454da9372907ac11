import Mutagenesis.Proofs.ImageChanges

/-!
# Copies of trees

What is on the disk after a tree was copied. The entries of a folder are copied one after another,
and each step puts one file or one new folder at its place (`Disk.Sets`); all steps together lay
what is copied of the source over what is at the target (`Disk.Laid`). Folders that are made for the
target are all else that is new (`Disk.Made`).
-/

set_option autoImplicit false

namespace Mutagenesis

namespace Folder

/-! ## Tidy folders -/

/-- A name is proper, and no entry has it yet. -/
def isFresh (name : String) (f : Folder) : Bool :=
  name ∉ "." :: ".." :: f.names

/-- Every entry has a proper name, which no other entry of its folder has. -/
def isTidy : Folder → Bool
  | empty => true
  | file name _ rest => isFresh name rest && rest.isTidy
  | link name _ rest => isFresh name rest && rest.isTidy
  | sub name children rest => isFresh name rest && children.isTidy && rest.isTidy

section

variable {f c : Folder} {name other : String} {e : Entry}

theorem isFresh_iff :
    isFresh name f = true ↔ (name ≠ "." ∧ name ≠ "..") ∧ name ∉ f.names := by
  simp [isFresh, and_assoc]

/-- A folder has no child under a name that is none of its names. -/
theorem child?_eq_none (h : name ∉ f.names) : f.child? name = none := by
  induction f with
  | empty => rfl
  | file n _ rest ih | link n _ rest ih | sub n _ rest _ ih =>
    obtain ⟨hn, hrest⟩ : name ≠ n ∧ name ∉ rest.names := by simpa [names] using h
    rw [child?, if_neg (Ne.symm hn), ih hrest]

/-- The names after an entry is put are its own and those before. -/
theorem mem_names_put : other ∈ (f.put name e).names ↔ other = name ∨ other ∈ f.names := by
  have hcons (rest : Folder) : other ∈ (cons name e rest).names ↔
      other = name ∨ other ∈ rest.names := by
    cases e <;> simp [cons, names]
  induction f with
  | empty => exact hcons empty
  | file n _ rest ih | link n _ rest ih | sub n _ rest _ ih =>
    unfold put
    split
    · next hn => simp [hcons, names, hn]
    · simp only [names, List.mem_cons, ih]
      tauto

/-- Removing an entry brings no names. -/
theorem names_erase_subset (h : other ∈ (f.erase name).names) : other ∈ f.names := by
  induction f with
  | empty => exact h
  | file n _ rest ih | link n _ rest ih | sub n _ rest _ ih =>
    unfold erase at h
    split at h
    · exact List.mem_cons_of_mem _ h
    · obtain rfl | hrest := List.mem_cons.mp h
      · exact List.mem_cons_self
      · exact List.mem_cons_of_mem _ (ih hrest)

variable (hf : f.isTidy = true)
include hf

/-- An entry that is taken away from a tidy folder is gone. -/
theorem child?_erase_self : child? name (f.erase name) = none := by
  induction f with
  | empty => rfl
  | file n _ rest ih | link n _ rest ih | sub n _ rest _ ih =>
    simp only [isTidy, Bool.and_eq_true, isFresh_iff] at hf
    unfold erase
    split
    · next hn => exact child?_eq_none (hn ▸ by tauto)
    · next hn => rw [child?, if_neg hn, ih (by tauto)]

/-- A tidy folder stays tidy when a tidy entry is put in. -/
theorem isTidy_put (hname : name ≠ "." ∧ name ≠ "..")
    (hchildren : ∀ c, e = .folder c → c.isTidy = true) : (f.put name e).isTidy = true := by
  have hcons (rest : Folder) (hnew : name ∉ rest.names) (hrest : rest.isTidy = true) :
      (cons name e rest).isTidy = true := by
    cases e with
    | folder c => simp_all [cons, isTidy, isFresh_iff]
    | file _ | link _ => simp_all [cons, isTidy, isFresh_iff]
  induction f with
  | empty => exact hcons empty (by simp [names]) rfl
  | file n _ rest ih | link n _ rest ih | sub n _ rest _ ih =>
    simp only [isTidy, Bool.and_eq_true, isFresh_iff] at hf
    unfold put
    split
    · next hn => exact hcons rest (hn ▸ by tauto) (by tauto)
    · next hn =>
      simp only [isTidy, Bool.and_eq_true, isFresh_iff, mem_names_put]
      have := ih (by tauto)
      tauto

/-- A tidy folder stays tidy when an entry is removed. -/
theorem isTidy_erase : (f.erase name).isTidy = true := by
  induction f with
  | empty => rfl
  | file n _ rest ih | link n _ rest ih | sub n _ rest _ ih =>
    simp only [isTidy, Bool.and_eq_true, isFresh_iff] at hf
    unfold erase
    split
    · tauto
    · have hsubset := @names_erase_subset rest name n
      have := ih (by tauto)
      simp only [isTidy, Bool.and_eq_true, isFresh_iff]
      tauto

/-- The entries of a tidy folder have proper names and are tidy. -/
theorem isTidy_of_entry (h : f.child? name = some e) :
    (name ≠ "." ∧ name ≠ "..") ∧ ∀ c, e = .folder c → c.isTidy = true := by
  induction f with
  | empty => cases h
  | file n _ rest ih | link n _ rest ih =>
    simp only [isTidy, Bool.and_eq_true, isFresh_iff] at hf
    unfold child? at h
    split at h
    · next hn =>
      cases h
      exact ⟨hn ▸ by tauto, by simp⟩
    · exact ih (by tauto) h
  | sub n _ rest _ ih =>
    simp only [isTidy, Bool.and_eq_true, isFresh_iff] at hf
    unfold child? at h
    split at h
    · next hn =>
      cases h
      refine ⟨hn ▸ by tauto, ?_⟩
      rintro _ ⟨⟩
      tauto
    · exact ih (by tauto) h

/-- All names in a tidy folder are proper. -/
theorem every_of_isTidy : f.every LocalStore.isProper = true := by
  induction f with
  | empty => rfl
  | file n _ rest ih | link n _ rest ih | sub n _ rest _ ih =>
    simp only [isTidy, Bool.and_eq_true, isFresh_iff] at hf
    simp_all [every, LocalStore.isProper]

end

theorem entrywise_isTidy :
    Entrywise (·.isTidy = true) fun name _ => name ≠ "." ∧ name ≠ ".." :=
  ⟨fun _ _ _ => isTidy_put, fun _ _ _ => isTidy_of_entry⟩

/-! ## What is copied -/

/-- What is seen at a path of the copy of a folder: no links, and nothing that is left out. -/
def copied (skip : String → Bool) (f : Folder) (path : List String) : Option Entry :=
  if path.any skip then none else (f.look path).filter (LocalStore.isSolid "")

section

variable {f : Folder} {skip : String → Bool}

theorem copied_nil (skip : String → Bool) (f : Folder) :
    f.copied skip [] = some (.folder .empty) := rfl

/-- A copy goes down by the names that are not left out, and has no links. -/
theorem copied_cons (name : String) (path : List String) : f.copied skip (name :: path) =
    if skip name then none else
      match f.child? name with
      | some (.folder children) => children.copied skip path
      | some (.file content) => if path = [] then some (.file content) else none
      | _ => none := by
  unfold copied look
  rw [List.any_cons, at?_cons]
  cases skip name with
  | true => rfl
  | false =>
    cases f.child? name with
    | none => simp
    | some e =>
      cases e with
      | folder children => rfl
      | file content => cases path <;> simp [Entry.at?, Entry.shallow, LocalStore.isSolid]
      | link target => cases path <;> simp [Entry.at?, Entry.shallow, LocalStore.isSolid]

/-- What is copied under a name depends on the entry of that name only. -/
theorem copied_congr {g : Folder} {name : String} (h : f.child? name = g.child? name)
    (path : List String) : f.copied skip (name :: path) = g.copied skip (name :: path) := by
  rw [copied_cons, copied_cons, h]

/-- An entry that is not copied might as well not be there. -/
theorem copied_rest {rest : Folder} {name : String}
    (hnone : ∀ path, f.copied skip (name :: path) = none) (hnew : rest.child? name = none)
    (hothers : ∀ other, other ≠ name → f.child? other = rest.child? other) :
    f.copied skip = rest.copied skip := by
  funext path
  cases path with
  | nil => rfl
  | cons other path =>
    by_cases hname : other = name
    · rw [hname, hnone, copied_cons, hnew]
      split <;> rfl
    · exact copied_congr (hothers other hname) path

/-- A copy holds exactly the files and folders of the source at paths without a name that is left
out. -/
theorem copied_eq_some_iff {path : List String} {e : Entry} : f.copied skip path = some e ↔
    f.look path = some e ∧ LocalStore.isSolid "" e = true ∧ ∀ name ∈ path, skip name = false := by
  unfold copied
  split
  · next hskip =>
    obtain ⟨name, hname, hskipped⟩ := List.any_eq_true.mp hskip
    exact ⟨nofun, fun h => by simp [h.2.2 name hname] at hskipped⟩
  · next hskip =>
    have hkept : ∀ name ∈ path, skip name = false := by simpa using hskip
    rw [Option.filter_eq_some_iff]
    exact ⟨fun h => ⟨h.1, h.2, hkept⟩, fun h => ⟨h.1, h.2.1⟩⟩

end

end Folder

namespace Disk

/-! ## One step -/

/-- If an operation succeeds, something holds. -/
abbrev Gives {α : Type} (act : DiskAction α) (d : Disk) (done : α → Disk → Prop) : Prop :=
  Keeps (fun _ => True) act d done

variable {d d' : Disk}

theorem Gives.of_ok {α : Type} {act : DiskAction α} {done : α → Disk → Prop} {a : α}
    (h : Gives act d done) (hact : act d = .ok a d') : done a d' := by
  unfold Gives Keeps at h
  rw [hact] at h
  exact h.2

/-- What an action gives may be weakened. -/
theorem Gives.mono {α : Type} {act : DiskAction α} {done done' : α → Disk → Prop}
    (h : Gives act d done) (himp : ∀ a d', done a d' → done' a d') : Gives act d done' := by
  unfold Gives Keeps at h ⊢
  split at h
  · exact ⟨trivial, himp _ _ h.2⟩
  · trivial

theorem gives_outcome {α : Type} (act : DiskAction α) (d : Disk) :
    Gives act d fun a d' => act d = .ok a d' := by
  unfold Gives Keeps
  cases act d with
  | ok a d' => exact ⟨trivial, rfl⟩
  | error fault d' => trivial

/-- Something is at a place now, and all else is as before. -/
structure Sets (place : List String) (e : Entry) (d d' : Disk) : Prop where
  look : ∀ q, d'.top.look q = if q = place then some e else d.top.look q
  workingFolder : d'.workingFolder = d.workingFolder
  tidy : d.top.isTidy = true → d'.top.isTidy = true

section

variable {d : Disk} {target : List String} {name : String}

/-- A name in a folder that is there, which is no link. -/
structure Open (d : Disk) (target : List String) (name : String) : Prop where
  folder : View.FolderAt d.top.look target
  names : ∀ n ∈ target ++ [name], n ≠ "." ∧ n ≠ ".."
  noLink : ∀ link, d.top.look (target ++ [name]) ≠ some (.link link)

/-- The place of an open name is where it is looked for. -/
theorem Open.place_eq (h : Open d target name) {r : List String}
    (hr : d.place true true (target ++ [name]) = .ok r) : r = target ++ [name] := by
  refine place_down h.names (fun q link hq => ?_) hr
  obtain rfl | hbefore := List.prefix_concat_iff.mp hq
  · exact h.noLink link
  · rw [Folder.look_of_prefix h.folder hbefore]
    nofun

/-- A tidy disk stays tidy when an entry is put under an open name. -/
theorem Open.tidy_putAt (h : Open d target name) {e : Entry}
    (he : ∀ c, e = .folder c → c.isTidy = true) (hd : d.top.isTidy = true) :
    (d.top.putAt (target ++ [name]) e).isTidy = true := by
  rw [Folder.putAt_eq_within]
  exact Folder.entrywise_isTidy.within hd fun c hc =>
    Folder.isTidy_put hc (h.names name (by simp)) he

/-- A folder that is entered in a copy is there afterwards, and nothing else has changed. -/
theorem gives_enterFolder (h : Open d target name) :
    Gives (enterFolder target name) d fun r d' =>
      r = target ++ [name] ∧ Sets (target ++ [name]) (.folder .empty) d d' := by
  refine (keeps_lift trivial _).bind ?_
  rintro r d - ⟨hr, rfl⟩
  obtain rfl := h.place_eq hr
  refine (keeps_get trivial).bind ?_
  rintro _ d - ⟨rfl, rfl⟩
  split
  · next children hat =>
    have hthere := Folder.look_eq_folder.mpr ⟨children, hat⟩
    refine ⟨trivial, rfl, fun q => ?_, rfl, id⟩
    split
    · next heq => rw [heq, hthere]
    · rfl
  · trivial
  · next hnone =>
    refine (keeps_get trivial).bind ?_
    rintro _ d - ⟨rfl, rfl⟩
    rw [hnone]
    refine (keeps_modify trivial).bind ?_
    rintro _ _ - rfl
    have hlook : d.top.look (target ++ [name]) = none := by rw [Folder.look, hnone]; rfl
    refine ⟨trivial, rfl, fun q => ?_, rfl, h.tidy_putAt ?_⟩
    · obtain ⟨entries, hentries⟩ := Folder.look_eq_folder.mp h.folder
      have hat := Folder.at?_putAt hentries name (.folder .empty)
      split
      · next heq =>
        rw [heq]
        exact Folder.look_eq_folder.mpr ⟨_, hat⟩
      · next hne => exact (Folder.look_putAt_new hlook q).resolve_right fun hnew => hne hnew.1
    · rintro _ ⟨⟩
      rfl

/-- A file that is copied has its content, and nothing else has changed; it took no folder's
place. -/
theorem gives_copyFile (h : Open d target name) {source : List String} (hne : source ≠ target)
    (content : Content) : Gives (copyFile source target name content) d fun _ d' =>
      Sets (target ++ [name]) (.file content) d d' ∧
        ¬View.FolderAt d.top.look (target ++ [name]) := by
  refine (keeps_lift trivial _).bind ?_
  rintro r d - ⟨hr, rfl⟩
  obtain rfl := h.place_eq hr
  have hother : target ++ [name] ≠ source ++ [name] := fun heq =>
    hne (List.append_cancel_right heq).symm
  rw [if_neg hother]
  refine (keeps_get trivial).bind ?_
  rintro _ d - ⟨rfl, rfl⟩
  split
  · trivial
  · next hnot =>
    have hbefore : ¬View.FolderAt d.top.look (target ++ [name]) := fun hfolder => by
      obtain ⟨entries, hat⟩ := Folder.look_eq_folder.mp hfolder
      exact hnot entries hat
    obtain ⟨entries, hentries⟩ := Folder.look_eq_folder.mp h.folder
    have hat := Folder.at?_putAt hentries name (.file content)
    refine ⟨trivial, ⟨fun q => ?_, rfl, h.tidy_putAt nofun⟩, hbefore⟩
    split
    · next heq => rw [heq, Folder.look, hat]; rfl
    · next hq => exact (replaced_putAt h.folder hbefore content).same q hq

end

/-! ## All steps -/

/-- What is seen of a view is laid over what is below a place, and all else is as before. -/
structure Laid (upper : View) (target : List String) (d d' : Disk) : Prop where
  inside : ∀ p, d'.top.look (target ++ p) = (upper p).or (d.top.look (target ++ p))
  outside : ∀ q, ¬target <+: q → d'.top.look q = d.top.look q
  folders : ∀ q, View.FolderAt d.top.look q → View.FolderAt d'.top.look q
  workingFolder : d'.workingFolder = d.workingFolder
  tidy : d.top.isTidy = true → d'.top.isTidy = true

section

variable {d d₁ d' : Disk} {target : List String} {name : String} {skip : String → Bool}

theorem Sets.same {place q : List String} {e : Entry} (h : Sets place e d d') (hq : q ≠ place) :
    d'.top.look q = d.top.look q := by
  rw [h.look, if_neg hq]

/-- Outside the place that is set, all is as before. -/
theorem Sets.outside {place q : List String} {e : Entry} (h : Sets place e d d')
    (hq : ¬place <+: q) : d'.top.look q = d.top.look q := by
  refine h.same ?_
  rintro rfl
  exact hq List.prefix_rfl

/-- A file that is set is laid over what was there. -/
theorem Sets.laid_file {content : Content} (h : Sets (target ++ [name]) (.file content) d d')
    (hnot : ¬View.FolderAt d.top.look (target ++ [name])) :
    Laid (fun p => if p = [] then some (.file content) else none) (target ++ [name]) d d' := by
  refine ⟨fun p => ?_, fun q hq => h.outside hq, fun q hq => ?_, h.workingFolder, h.tidy⟩
  · rw [h.look]
    cases p <;> simp
  · refine (h.same ?_).trans hq
    rintro rfl
    exact hnot hq

/-- What is copied into a folder that was made for it is laid over what was there before. -/
theorem Sets.laid_folder {children : Folder} (h : Sets (target ++ [name]) (.folder .empty) d d₁)
    (hchildren : Laid (children.copied skip) (target ++ [name]) d₁ d') :
    Laid (children.copied skip) (target ++ [name]) d d' := by
  refine ⟨fun p => ?_, fun q hq => ?_, fun q hq => hchildren.folders q ?_,
    hchildren.workingFolder.trans h.workingFolder, fun hd => hchildren.tidy (h.tidy hd)⟩
  · cases p with
    | nil => rw [hchildren.inside, Folder.copied_nil]; rfl
    | cons next p => rw [hchildren.inside, h.same (by simp)]
  · rw [hchildren.outside q hq, h.outside hq]
  · rw [View.FolderAt, h.look]
    split
    · rfl
    · exact hq

/-- One entry, and then the others. -/
theorem Laid.cons {f rest : Folder} {upper : View} (hfirst : Laid upper (target ++ [name]) d d₁)
    (hrest : Laid (rest.copied skip) target d₁ d') (hnew : rest.child? name = none)
    (hhere : ∀ p, f.copied skip (name :: p) = upper p)
    (hothers : ∀ other p, other ≠ name →
      f.copied skip (other :: p) = rest.copied skip (other :: p)) :
    Laid (f.copied skip) target d d' := by
  refine ⟨fun p => ?_, fun q hq => ?_, fun q hq => hrest.folders q (hfirst.folders q hq),
    hrest.workingFolder.trans hfirst.workingFolder, fun hd => hrest.tidy (hfirst.tidy hd)⟩
  · cases p with
    | nil => rw [hrest.inside, Folder.copied_nil, Folder.copied_nil]; rfl
    | cons other p =>
      by_cases hname : other = name
      · subst hname
        have hnone : rest.copied skip (other :: p) = none := by
          rw [Folder.copied_cons, hnew]
          split <;> rfl
        rw [hrest.inside, hnone, hhere, List.append_cons, hfirst.inside]
        rfl
      · rw [hrest.inside, hothers other p hname, hfirst.outside]
        intro hbelow
        rw [List.prefix_append_right_inj] at hbelow
        exact hname (List.cons_prefix_cons.mp hbelow).1.symm
  · have hbeside : ¬target ++ [name] <+: q := fun hbelow =>
      hq ((List.prefix_append ..).trans hbelow)
    rw [hrest.outside q hq, hfirst.outside q hbeside]

/-- A folder that entries can be copied into: its path is proper, and there is no link in it. -/
structure Ready (d : Disk) (target : List String) : Prop where
  folder : View.FolderAt d.top.look target
  names : ∀ n ∈ target, n ≠ "." ∧ n ≠ ".."
  noLink : ∀ p link, d.top.look (target ++ p) ≠ some (.link link)

theorem Ready.opens (h : Ready d target) (hname : name ≠ "." ∧ name ≠ "..") :
    Open d target name :=
  ⟨h.folder, LocalStore.proper_concat h.names hname, h.noLink [name]⟩

/-- A folder stays ready when something without links is laid over an entry of it. -/
theorem Ready.laid {upper : View} (h : Ready d target) (hlaid : Laid upper (target ++ [name]) d d')
    (hupper : ∀ p link, upper p ≠ some (.link link)) : Ready d' target := by
  refine ⟨hlaid.folders _ h.folder, h.names, fun p link => ?_⟩
  by_cases hbelow : target ++ [name] <+: target ++ p
  · obtain ⟨rest, hrest⟩ := hbelow
    rw [← hrest, hlaid.inside]
    cases hseen : upper rest with
    | none =>
      rw [List.append_assoc]
      exact h.noLink _ link
    | some e => exact fun heq => hupper rest link (hseen.trans heq)
  · rw [hlaid.outside _ hbelow]
    exact h.noLink p link

/-- A folder that was entered in a ready one is ready. -/
theorem Ready.entered (h : Ready d target) (hname : name ≠ "." ∧ name ≠ "..")
    (hset : Sets (target ++ [name]) (.folder .empty) d d') : Ready d' (target ++ [name]) := by
  refine ⟨?_, LocalStore.proper_concat h.names hname, fun p link => ?_⟩
  · rw [View.FolderAt, hset.look, if_pos rfl]
  · rw [hset.look]
    split
    · simp
    · rw [List.append_assoc]
      exact h.noLink _ link

/-- Copying the entries into a folder that is ready lays a copy of them over it. -/
def Copies (skip : String → Bool) (entries : Folder) : Prop :=
  ∀ source target d, source ≠ target → Ready d target →
    Gives (copyEntries skip source target entries) d fun _ d' =>
      Laid (entries.copied skip) target d d'

/-- After the first entry is laid, the copy of the others completes it. -/
theorem Copies.after {f rest : Folder} {upper : View} {source : List String}
    (hrest : Copies skip rest) (hne : source ≠ target) (hready : Ready d target)
    (hfirst : Laid upper (target ++ [name]) d d₁) (hupper : ∀ p link, upper p ≠ some (.link link))
    (hnew : rest.child? name = none) (hhere : ∀ p, f.copied skip (name :: p) = upper p)
    (hothers : ∀ other, other ≠ name → f.child? other = rest.child? other) :
    Gives (copyEntries skip source target rest) d₁ fun _ d' => Laid (f.copied skip) target d d' :=
  (hrest source target d₁ hne (hready.laid hfirst hupper)).mono fun _ _ hlaid =>
    hfirst.cons hlaid hnew hhere fun other p hother => Folder.copied_congr (hothers other hother) p

section

variable {rest : Folder} (hrest : Copies skip rest) (hnew : rest.child? name = none)
include hrest hnew

/-- A link is left out. -/
theorem Copies.link (link : String) : Copies skip (.link name link rest) := by
  intro source target d hne hready
  have hcopied : (Folder.link name link rest).copied skip = rest.copied skip := by
    refine Folder.copied_rest (fun path => ?_) hnew fun other h => if_neg (Ne.symm h)
    rw [Folder.copied_cons, Folder.child?, if_pos rfl]
    split <;> rfl
  rw [hcopied]
  exact hrest source target d hne hready

/-- A file is copied, unless its name is left out. -/
theorem Copies.file (hname : name ≠ "." ∧ name ≠ "..") (content : Content) :
    Copies skip (.file name content rest) := by
  intro source target d hne hready
  have hothers (other : String) (h : other ≠ name) :
      Folder.child? other (.file name content rest) = rest.child? other := if_neg (Ne.symm h)
  rw [copyEntries]
  cases hskip : skip name with
  | true =>
    rw [Folder.copied_rest (fun path => by rw [Folder.copied_cons, hskip]; rfl) hnew hothers]
    exact hrest source target d hne hready
  | false =>
    refine (gives_copyFile (hready.opens hname) hne content).bind ?_
    rintro _ d₁ - ⟨hset, hnot⟩
    refine hrest.after hne hready (hset.laid_file hnot) (fun p link => by split <;> simp) hnew
      (fun p => ?_) hothers
    rw [Folder.copied_cons, hskip, Folder.child?, if_pos rfl]
    rfl

/-- A folder is made and its entries are copied, unless its name is left out. -/
theorem Copies.sub {children : Folder} (hchildren : Copies skip children)
    (hname : name ≠ "." ∧ name ≠ "..") : Copies skip (.sub name children rest) := by
  intro source target d hne hready
  have hothers (other : String) (h : other ≠ name) :
      Folder.child? other (.sub name children rest) = rest.child? other := if_neg (Ne.symm h)
  rw [copyEntries]
  cases hskip : skip name with
  | true =>
    rw [Folder.copied_rest (fun path => by rw [Folder.copied_cons, hskip]; rfl) hnew hothers]
    exact hrest source target d hne hready
  | false =>
    refine (gives_enterFolder (hready.opens hname)).bind ?_
    rintro _ d₁ - ⟨rfl, hset⟩
    refine (hchildren _ _ d₁ (fun heq => hne (List.append_cancel_right heq))
      (hready.entered hname hset)).bind fun _ d₂ _ hlaid => ?_
    have hsolid (p : List String) (link : String) :
        children.copied skip p ≠ some (.link link) := fun heq => by
      cases (Folder.copied_eq_some_iff.mp heq).2.1
    refine hrest.after hne hready (hset.laid_folder hlaid) hsolid hnew (fun p => ?_) hothers
    rw [Folder.copied_cons, hskip, Folder.child?, if_pos rfl]
    rfl

end

end

/-- The entries of a tidy folder are copied as they are, but for links and names left out. -/
theorem copies_of_isTidy (skip : String → Bool) {entries : Folder}
    (h : entries.isTidy = true) : Copies skip entries := by
  induction entries with
  | empty =>
    refine fun source target d hne hready => ⟨trivial, fun p => ?_, fun _ _ => rfl, fun _ h => h,
      rfl, id⟩
    cases p with
    | nil => rw [List.append_nil, hready.folder]; rfl
    | cons name p => rw [Folder.copied_cons]; cases skip name <;> rfl
  | link name link rest ih =>
    simp only [Folder.isTidy, Bool.and_eq_true, Folder.isFresh_iff] at h
    exact (ih h.2).link (Folder.child?_eq_none h.1.2) link
  | file name content rest ih =>
    simp only [Folder.isTidy, Bool.and_eq_true, Folder.isFresh_iff] at h
    exact (ih h.2).file (Folder.child?_eq_none h.1.2) h.1.1 content
  | sub name children rest ihChildren ih =>
    simp only [Folder.isTidy, Bool.and_eq_true, Folder.isFresh_iff] at h
    exact (ih h.2).sub (Folder.child?_eq_none h.1.1.2) (ihChildren h.1.2) h.1.1.1

/-! ## Whole trees -/

/-- Folders were made where nothing was, and all else is as before. -/
structure Made (d d' : Disk) : Prop where
  look : ∀ q, d'.top.look q = d.top.look q ∨
    d.top.look q = none ∧ View.FolderAt d'.top.look q
  workingFolder : d'.workingFolder = d.workingFolder
  tidy : d.top.isTidy = true → d'.top.isTidy = true

theorem Made.refl (d : Disk) : Made d d :=
  ⟨fun _ => .inl rfl, rfl, id⟩

/-- Making folders twice makes folders. -/
theorem Made.trans {d₁ d₂ d₃ : Disk} (h : Made d₁ d₂) (h' : Made d₂ d₃) : Made d₁ d₃ := by
  refine ⟨fun q => ?_, h'.workingFolder.trans h.workingFolder, fun hd => h'.tidy (h.tidy hd)⟩
  obtain hsame' | ⟨hnone', hfolder'⟩ := h'.look q
  · rw [View.FolderAt, hsame']
    exact h.look q
  · obtain hsame | ⟨-, hfolder⟩ := h.look q
    · exact .inr ⟨hsame ▸ hnone', hfolder'⟩
    · cases hnone'.symm.trans hfolder

/-- Making a folder makes nothing but folders. -/
theorem made_of_makeFolder {path : String} (h : makeFolder path d = .ok () d') : Made d d' := by
  rw [makeFolder_eq] at h
  split at h
  · cases h
  · next names hgiven =>
    obtain rfl := names_of_namesOf hgiven
    split at h
    · cases h
    · next p hp =>
      split at h
      · cases h
      · next hnone =>
        cases h
        have hlook : d.top.look p = none := by rw [Folder.look, hnone]; rfl
        have hstart : Path.names path = [] → View.FolderAt d.top.look (d.start path) := by
          intro hnil
          cases habsolute : Path.isAbsolute path with
          | true =>
            rw [start, habsolute]
            rfl
          | false =>
            refine absurd hnil (Path.names_ne_nil ?_ habsolute)
            rintro rfl
            cases hgiven
        obtain ⟨place, name, rfl, hname, hplace⟩ := travel_parent hp hstart hlook
        refine ⟨fun q => ?_, rfl, fun hd => ?_⟩
        · obtain hsame | ⟨rfl, hnew⟩ := Folder.look_putAt_new hlook q
          · exact .inl hsame
          · exact .inr ⟨hlook, hnew⟩
        · change (d.top.putAt (place ++ [name]) _).isTidy = true
          rw [Folder.putAt_eq_within]
          refine Folder.entrywise_isTidy.within hd fun c hc =>
            Folder.isTidy_put hc ⟨hname.notDot, hname.notUp⟩ ?_
          rintro _ ⟨⟩
          rfl

/-- Making a folder and those above it makes nothing but folders. -/
theorem made_of_makeFolders {path : String} (h : makeFolders path d = .ok () d') : Made d d' :=
  makeFoldersWithin_rel Made.refl (fun _ _ _ => Made.trans) (fun _ _ _ => made_of_makeFolder) h

/-- The folder that a path leads to after it was made. -/
theorem folderAt_of_makeFolders {path : String} {goal : List String}
    (h : makeFolders path d = .ok () d') (hgoal : d'.resolve true path = .ok goal) :
    View.FolderAt d'.top.look goal := by
  have hgiven := namesOf_of_resolve hgoal
  cases hslash : Path.endsInSlash path with
  | true =>
    rw [resolve, hgiven, Except.ok_bind, hslash] at hgoal
    exact (travel_of_dot hgoal).2
  | false =>
    by_cases hnames : Path.names path = []
    · have habsolute : Path.isAbsolute path = true := by
        by_contra hrelative
        refine Path.names_ne_nil ?_ (by simpa using hrelative) hnames
        rintro rfl
        cases hgiven
      rw [resolve_eq hgiven hslash, hnames, start, habsolute] at hgoal
      cases hgoal
      rfl
    · obtain ⟨p, hp, hfolder⟩ := hasFolder_iff.mp ((makeFoldersWithin_ok h).2 hnames hslash)
      rw [hp] at hgoal
      cases hgoal
      exact hfolder

/-- The entries of a folder are those at the place where its path leads. -/
theorem at?_of_folder {path : String} {entries : Folder} {place : List String}
    (h : d.folder path = .ok entries) (hplace : d.resolve true path = .ok place) :
    d.top.at? place = some (.folder entries) := by
  rw [folder, entry, hplace] at h
  obtain ⟨e, he, hfolder⟩ := Except.bind_eq_ok_iff.mp h
  cases hat : d.top.at? place with
  | none =>
    rw [Except.ok_bind, hat] at he
    cases he
  | some found =>
    rw [Except.ok_bind, hat] at he
    cases he
    cases e with
    | folder children =>
      cases hfolder
      rfl
    | file _ | link _ => cases hfolder

/-- What copying a tree comes to when it succeeds. -/
theorem gives_copyTree (skip : String → Bool) (source target : String) (d : Disk) :
    Gives (copyTree skip source target) d fun _ d' => ∃ made start goal entries,
      makeFolders target d = .ok () made ∧ made.resolve true source = .ok start ∧
      made.top.at? start = some (.folder entries) ∧ made.resolve true target = .ok goal ∧
      copyEntries skip start goal entries made = .ok () d' := by
  refine (gives_outcome _ d).bind fun _ made _ hmade => ?_
  refine (keeps_lift trivial _).bind ?_
  rintro entries _ - ⟨hentries, rfl⟩
  refine (keeps_lift trivial _).bind ?_
  rintro start _ - ⟨hstart, rfl⟩
  refine (keeps_lift trivial _).bind ?_
  rintro goal made - ⟨hgoal, rfl⟩
  split
  · trivial
  · exact (gives_outcome _ made).mono fun _ d' hcopy =>
      ⟨made, start, goal, entries, hmade, hstart, at?_of_folder hentries hstart, hgoal, hcopy⟩

/-- Folders that are made change no files. -/
theorem Made.file_iff (h : Made d d') {q : List String} {content : Content} :
    d'.top.look q = some (.file content) ↔ d.top.look q = some (.file content) := by
  obtain hsame | ⟨hnone, hfolder⟩ := h.look q
  · rw [hsame]
  · rw [hnone, hfolder]
    exact ⟨nofun, nofun⟩

/-- A folder is still one when folders are made. -/
theorem Made.folders (h : Made d d') {q : List String} (hq : View.FolderAt d.top.look q) :
    View.FolderAt d'.top.look q := by
  obtain hsame | ⟨-, hfolder⟩ := h.look q
  · exact hsame.trans hq
  · exact hfolder

/-- There is nothing at a place, or an empty folder. -/
def Vacant (d : Disk) (place : List String) : Prop :=
  d.top.at? place = none ∨ d.top.at? place = some (.folder .empty)

/-- Below a vacant goal there are only folders that were made. -/
theorem Vacant.made {goal : List String} (h : Vacant d goal) (hmade : Made d d')
    (hgoal : View.FolderAt d'.top.look goal) (p : List String) :
    d'.top.look (goal ++ p) = none ∨ View.FolderAt d'.top.look (goal ++ p) := by
  cases p with
  | nil => exact .inr ((List.append_nil goal).symm ▸ hgoal)
  | cons name p =>
    refine (hmade.look (goal ++ name :: p)).imp (fun hsame => ?_) And.right
    rw [hsame, Folder.look, Folder.at?_append]
    obtain hnone | hempty := h
    · rw [hnone]
      rfl
    · rw [hempty]
      cases p <;> rfl

/-- What is left of copying a tree to where there was nothing. The folders that were made for the
target are there before anything is copied. -/
structure Copying (skip : String → Bool) (source target : String) (d made d' : Disk)
    (start goal : List String) : Prop where
  makes : makeFolders target d = .ok () made
  starts : made.resolve true source = .ok start
  ends : made.resolve true target = .ok goal
  laid : start ≠ goal → Vacant d goal → ∃ entries, made.top.at? start = some (.folder entries) ∧
    Laid (entries.copied skip) goal made d'

/-- Copying a tree makes the goal, finds the start and copies the entries. -/
theorem copying_of_copyTree {skip : String → Bool} {source target : String}
    (hd : d.top.isTidy = true) (h : copyTree skip source target d = .ok () d') :
    ∃ made start goal, Copying skip source target d made d' start goal := by
  obtain ⟨made, start, goal, entries, hmake, hstart, hentries, hgoal, hcopy⟩ :=
    (gives_copyTree skip source target d).of_ok h
  refine ⟨made, start, goal, hmake, hstart, hgoal, fun hne hvacant => ⟨entries, hentries, ?_⟩⟩
  have hmade := made_of_makeFolders hmake
  have htidy := hmade.tidy hd
  have hfolder := folderAt_of_makeFolders hmake hgoal
  have hready : Ready made goal := by
    refine ⟨hfolder, LocalStore.proper_of_look (Folder.every_of_isTidy htidy)
      (by rw [hfolder]; rfl), fun p link hlink => ?_⟩
    obtain hnone | hthere := hvacant.made hmade hfolder p
    · cases hnone.symm.trans hlink
    · cases hthere.symm.trans hlink
  have htree := (Folder.entrywise_isTidy.at? htidy hentries).2 _ rfl
  exact (copies_of_isTidy skip htree start goal made hne hready).of_ok hcopy

section

variable {skip : String → Bool} {source target : String} {d made d' : Disk}
  {start goal : List String}

/-- What is seen in the target afterwards was copied, or is a folder that was made before. -/
theorem Copying.look_iff (h : Copying skip source target d made d' start goal) (hne : start ≠ goal)
    (hvacant : Vacant d goal) (p : List String) (e : Entry) :
    d'.top.look (goal ++ p) = some e ↔ LocalStore.isSolid "" e = true ∧
      made.top.look (start ++ p) = some e ∧ (∀ name ∈ p, skip name = false) ∨
      View.FolderAt made.top.look (goal ++ p) ∧ e = .folder .empty := by
  obtain ⟨entries, hentries, hlaid⟩ := h.laid hne hvacant
  have hcopied : entries.copied skip p = some e ↔ LocalStore.isSolid "" e = true ∧
      made.top.look (start ++ p) = some e ∧ ∀ name ∈ p, skip name = false := by
    have hsource : entries.look p = made.top.look (start ++ p) := by
      rw [Folder.look, Folder.look, Folder.at?_append, hentries]
      rfl
    rw [Folder.copied_eq_some_iff, hsource]
    tauto
  have hbefore := hvacant.made (made_of_makeFolders h.makes)
    (folderAt_of_makeFolders h.makes h.ends) p
  rw [← hcopied]
  constructor
  · intro hlook
    rw [hlaid.inside, Option.or_eq_some_iff] at hlook
    refine hlook.imp_right fun hold => ?_
    obtain hnone | hfolder := hbefore
    · cases hnone.symm.trans hold.2
    · exact ⟨hfolder, Option.some.inj (hold.2.symm.trans hfolder)⟩
  · rintro (hcopied | ⟨hfolder, rfl⟩)
    · rw [hlaid.inside, hcopied]
      rfl
    · exact hlaid.folders _ hfolder

/-- After copying to a vacant goal, its files are exactly those of the start that are not left
out. -/
theorem Copying.file_iff (h : Copying skip source target d made d' start goal) (hne : start ≠ goal)
    (hvacant : Vacant d goal) (p : List String) (content : Content) :
    d'.top.at? (goal ++ p) = some (.file content) ↔
      d.top.at? (start ++ p) = some (.file content) ∧ ∀ name ∈ p, skip name = false := by
  rw [← Folder.look_eq_file, ← Folder.look_eq_file, h.look_iff hne hvacant,
    (made_of_makeFolders h.makes).file_iff]
  simp [LocalStore.isSolid]

end

/-- A tree was copied from one path to another. Folders were made on the way to the target; the
rest is about the places that the two paths then lead to. If there was nothing at the target, or an
empty folder, then the files in it are those of the source that can be reached without links and
under no name that is left out, and they hold the same. There are no links in the target, and no
folders but such folders of the source and those that were made before. Beside the target nothing
has changed. -/
def Copied (skip : String → Bool) (source target : String) (d d' : Disk) : Prop :=
  ∃ made start goal, makeFolders target d = .ok () made ∧ Made d made ∧
    made.resolve true source = .ok start ∧ made.resolve true target = .ok goal ∧
    (start ≠ goal → Vacant d goal →
      (∀ p content, d'.top.at? (goal ++ p) = some (.file content) ↔
        d.top.at? (start ++ p) = some (.file content) ∧ ∀ name ∈ p, skip name = false) ∧
      (∀ p link, d'.top.look (goal ++ p) ≠ some (.link link)) ∧
      (∀ p, View.FolderAt d'.top.look (goal ++ p) ↔ View.FolderAt made.top.look (goal ++ p) ∨
        View.FolderAt made.top.look (start ++ p) ∧ ∀ name ∈ p, skip name = false) ∧
      ∀ q, ¬goal <+: q → d'.top.look q = made.top.look q)

/-- A tree that is copied is a faithful copy. -/
theorem copied_of_copyTree {skip : String → Bool} {source target : String}
    (hd : d.top.isTidy = true) (h : copyTree skip source target d = .ok () d') :
    Copied skip source target d d' := by
  obtain ⟨made, start, goal, hcopying⟩ := copying_of_copyTree hd h
  refine ⟨made, start, goal, hcopying.makes, made_of_makeFolders hcopying.makes, hcopying.starts,
    hcopying.ends, fun hne hvacant => ⟨hcopying.file_iff hne hvacant, fun p link hlink => ?_,
      fun p => ?_, ?_⟩⟩
  · rw [hcopying.look_iff hne hvacant] at hlink
    simp [LocalStore.isSolid] at hlink
  · rw [View.FolderAt, hcopying.look_iff hne hvacant]
    simp only [LocalStore.isSolid, true_and, and_true]
    exact or_comm
  · obtain ⟨entries, -, hlaid⟩ := hcopying.laid hne hvacant
    exact hlaid.outside

end Disk

end Mutagenesis
