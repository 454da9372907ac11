import Mutagenesis.Proofs.Action
import Mutagenesis.Proofs.DiskPlaces

/-!
# What operations on the disk leave

Folders that are made are there then, and nothing else is gone (`Disk.makeFoldersWithin_ok`); those
that are there already are not made again (`Disk.makeFolders_of_hasFolder`). A text that can be read
can still be read after folders were made (`Disk.text_grown`). A file that takes a place in a folder
is read there, or blocks the way to that folder (`Disk.text_or_blocked`); if the place was free,
then nothing is blocked (`Disk.kept_of_replaceFile`).
-/

set_option autoImplicit false

namespace Mutagenesis

namespace Disk

/-! ## Folders that are made -/

/-- Nothing of a disk is gone. -/
structure Grown (d d' : Disk) : Prop where
  workingFolder : d'.workingFolder = d.workingFolder
  entries : ∀ q e, d.top.look q = some e → d'.top.look q = some e

theorem Grown.refl (d : Disk) : Grown d d :=
  ⟨rfl, fun _ _ h => h⟩

theorem Grown.trans {d₁ d₂ d₃ : Disk} (h₁ : Grown d₁ d₂) (h₂ : Grown d₂ d₃) : Grown d₁ d₃ :=
  ⟨h₂.workingFolder.trans h₁.workingFolder, fun q e h => h₂.entries q e (h₁.entries q e h)⟩

variable {path : String} {follow : Bool}

/-- The names of a path that is not too long are its names. -/
theorem names_of_namesOf {names : List String} (h : namesOf path = .ok names) :
    names = Path.names path := by
  unfold namesOf at h
  split at h
  · cases h
  · split at h
    · cases h
    · split at h
      · cases h
      · cases h
        rfl

/-- A path that leads somewhere is well formed. -/
theorem namesOf_of_resolve {d : Disk} {p : List String} (h : d.resolve follow path = .ok p) :
    namesOf path = .ok (Path.names path) := by
  cases hgiven : namesOf path with
  | error fault =>
    rw [resolve, hgiven] at h
    cases h
  | ok names => rw [names_of_namesOf hgiven]

theorem resolve_of_has {d : Disk} (h : d.has path = true) : ∃ p, d.resolve true path = .ok p := by
  unfold has entry at h
  cases hresolve : d.resolve true path with
  | error fault =>
    rw [hresolve] at h
    cases h
  | ok p => exact ⟨p, rfl⟩

theorem namesOf_ne_noEntry (h : path ≠ "") : namesOf path ≠ .error .noEntry := by
  intro hgiven
  unfold namesOf at hgiven
  rw [if_neg (by simpa using h)] at hgiven
  split at hgiven
  · cases hgiven
  · split at hgiven <;> cases hgiven

/-- The folder that a path is read from. -/
def start (d : Disk) (path : String) : List String :=
  if Path.isAbsolute path then [] else d.workingFolder

theorem resolve_eq {d : Disk} {names : List String} (h : namesOf path = .ok names)
    (hslash : Path.endsInSlash path = false) (follow : Bool) :
    d.resolve follow path =
      travel d.top follow (linkLimit + 1) (d.start path) (Path.names path) := by
  rw [resolve, h, names_of_namesOf h, hslash]
  change d.place follow _ (_ ++ []) = _
  rw [List.append_nil]
  rfl

/-- A path has a folder exactly if it leads to one. -/
theorem hasFolder_iff {d : Disk} : d.hasFolder path = true ↔
    ∃ p, d.resolve true path = .ok p ∧ View.FolderAt d.top.look p := by
  unfold hasFolder entry
  cases hresolve : d.resolve true path with
  | error fault => simp [bind, Except.bind]
  | ok p =>
    simp only [View.FolderAt, Folder.look_eq_folder, Except.ok.injEq, exists_eq_left']
    cases hat : d.top.at? p with
    | none => simp [bind, Except.bind, hat]
    | some e => cases e <;> simp [bind, Except.bind, hat, pure, Except.pure]

theorem get_apply (d : Disk) : (get : DiskAction Disk) d = .ok d d := rfl

/-- What making a folder does. -/
theorem makeFolder_eq (path : String) (d : Disk) :
    makeFolder path d =
      match namesOf path with
      | .error fault => .error fault d
      | .ok names =>
        match travel d.top false (linkLimit + 1) (d.start path) names with
        | .error fault => .error fault d
        | .ok p =>
          match d.top.at? p with
          | some _ => .error .alreadyThere d
          | none => .ok () { d with top := d.top.putAt p (.folder .empty) } := by
  unfold makeFolder lift
  simp only [bind, EStateM.bind, Except.bind, get_apply]
  cases hnames : namesOf path with
  | error fault => rfl
  | ok names =>
    have hplace : d.place false (Path.isAbsolute path) names =
        travel d.top false (linkLimit + 1) (d.start path) names := rfl
    dsimp only
    rw [hplace]
    cases travel d.top false (linkLimit + 1) (d.start path) names with
    | error fault => rfl
    | ok p =>
      dsimp only
      cases d.top.at? p <;> rfl

/-- A disk grows when an entry is put where none was. -/
theorem grown_putAt {d : Disk} {p : List String} (h : d.top.at? p = none) (e : Entry) :
    Grown d { d with top := d.top.putAt p e } := by
  refine ⟨rfl, fun q found hfound => ?_⟩
  have hnone : d.top.look p = none := by rw [Folder.look, h]; rfl
  by_cases hbelow : p <+: q
  · obtain ⟨rest, rfl⟩ := hbelow
    by_cases hrest : rest = []
    · rw [hrest, List.append_nil, hnone] at hfound
      cases hfound
    · rw [Folder.look_below hrest (by simp [hnone])] at hfound
      cases hfound
  · rw [Folder.look_putAt hbelow]
    exact hfound

/-- A walk that ends where nothing is ends in a folder. -/
theorem Walks.parent {top : Folder} {folder names p : List String} {stop : Stop}
    (h : Walks top.look follow folder names stop) (hstop : stop = .arrived p)
    (hfolder : names = [] → View.FolderAt top.look folder) (hp : top.look p = none) :
    ∃ place name, p = place ++ [name] ∧ Plain name ∧ View.FolderAt top.look place := by
  induction h with
  | here =>
    cases hstop
    rw [hfolder rfl] at hp
    cases hp
  | dot hat _ ih => exact ih hstop fun _ => hat
  | up hat _ ih => exact ih hstop fun _ => Folder.look_dropLast hat
  | into _ _ hsub _ ih => exact ih hstop fun _ => hsub
  | link => cases hstop
  | beside _ _ hlink =>
    cases hstop
    rw [hlink] at hp
    cases hp
  | file _ _ hfile =>
    cases hstop
    rw [hfile] at hp
    cases hp
  | nothing hat hname _ =>
    cases hstop
    exact ⟨_, _, rfl, hname, hat⟩

theorem Walks.folderAt_link {view : View} {folder names : List String} {stop : Stop}
    (h : Walks view follow folder names stop) {g rest : List String} {target : String}
    (hstop : stop = .atLink g target rest) : view.FolderAt g := by
  induction h with
  | dot _ _ ih | up _ _ ih | into _ _ _ _ ih => exact ih hstop
  | link hfolder =>
    cases hstop
    exact hfolder
  | here | beside | file | nothing => cases hstop

/-- A travel to a place where nothing is ends in a folder that is there. -/
theorem travel_parent {top : Folder} {links : Nat} {folder names p : List String}
    (h : travel top follow links folder names = .ok p)
    (hfolder : names = [] → View.FolderAt top.look folder) (hp : top.look p = none) :
    ∃ place name, p = place ++ [name] ∧ Plain name ∧ View.FolderAt top.look place := by
  induction links generalizing folder names with
  | zero => cases h
  | succ links ih =>
    obtain hwalk | ⟨g, target, rest, hwalk, h⟩ := travel_eq_ok h
    · exact hwalk.parent rfl hfolder hp
    · refine ih h fun _ => ?_
      unfold linkBase
      split
      · rfl
      · exact hwalk.folderAt_link rfl

variable {d d' : Disk} {path : String}

/-- A folder that was made is there. -/
theorem hasFolder_of_makeFolder (hnames : Path.names path ≠ [])
    (hslash : Path.endsInSlash path = false) (h : makeFolder path d = .ok () d') :
    Grown d d' ∧ d'.hasFolder path = true := by
  rw [makeFolder_eq] at h
  cases hgiven : namesOf path with
  | error fault =>
    rw [hgiven] at h
    cases h
  | ok names =>
    obtain rfl := names_of_namesOf hgiven
    rw [hgiven] at h
    dsimp only at h
    split at h
    · cases h
    · next p hp =>
      split at h
      · cases h
      · next hnone =>
        cases h
        have hgrown := grown_putAt hnone (.folder .empty)
        obtain ⟨place, name, rfl, -, hplace⟩ := travel_parent hp (fun hnil => absurd hnil hnames)
          (by rw [Folder.look, hnone]; rfl)
        obtain ⟨entries, hentries⟩ := Folder.look_eq_folder.mp hplace
        have hat := Folder.at?_putAt hentries name (.folder .empty)
        refine ⟨hgrown, hasFolder_iff.mpr ⟨place ++ [name], ?_, ?_⟩⟩
        · rw [resolve_eq hgiven hslash]
          exact travel_grown hp hgrown.entries hat fun _ hlink => by cases hlink
        · exact Folder.look_eq_folder.mpr ⟨_, hat⟩

/-- A disk grows when a folder is made. -/
theorem grown_of_makeFolder (h : makeFolder path d = .ok () d') : Grown d d' := by
  rw [makeFolder_eq] at h
  split at h
  · cases h
  · split at h
    · cases h
    · split at h
      · cases h
      · next hnone =>
        cases h
        exact grown_putAt hnone _

/-- A folder that is made, or else is there. -/
def settle (path : String) (d : Disk) : EStateM.Result DiskFault Disk Unit :=
  match makeFolder path d with
  | .ok _ d' => .ok () d'
  | .error fault _ => if d.hasFolder path then .ok () d else .error fault d

/-- What making a folder and those that hold it does. -/
theorem makeFoldersWithin_succ (steps : Nat) (hpath : path.isEmpty = false) (d : Disk) :
    makeFoldersWithin (steps + 1) path d =
      match makeFolder path d with
      | .error .noEntry _ =>
        match Path.parent? path with
        | none => .error .noEntry d
        | some parent =>
          match makeFoldersWithin steps parent d with
          | .ok _ d' => settle path d'
          | .error fault d' => .error fault d'
      | _ => settle path d := by
  have hchecked : ∀ fault (d : Disk), (do
      if (← get).hasFolder path then pure () else throw fault : DiskAction Unit) d =
        if d.hasFolder path then .ok () d else .error fault d := by
    intro fault d
    change (if d.hasFolder path then pure () else throw fault : DiskAction Unit) d = _
    split <;> rfl
  rw [makeFoldersWithin, hpath, if_neg (by decide)]
  change EStateM.bind get _ d = _
  dsimp only [EStateM.bind, get_apply]
  cases hmade : makeFolder path d with
  | ok u d' =>
    rw [settle, hmade]
    rfl
  | error fault d' =>
    cases fault
    case noEntry =>
      dsimp only
      cases Path.parent? path with
      | none => rfl
      | some parent =>
        dsimp only [bind, EStateM.bind]
        cases makeFoldersWithin steps parent d with
        | error fault d₁ => rfl
        | ok u d₁ =>
          dsimp only [get_apply]
          rw [settle]
          cases makeFolder path d₁ with
          | ok u d₂ => rfl
          | error fault d₂ => exact hchecked fault d₁
    all_goals
      rw [settle, hmade]
      exact hchecked _ d

/-- Settling for a folder makes it or finds it there. -/
theorem settle_ok (h : settle path d = .ok () d') :
    makeFolder path d = .ok () d' ∨ d' = d ∧ d.hasFolder path = true := by
  unfold settle at h
  split at h
  · next hmade =>
    cases h
    exact .inl hmade
  · split at h
    · next hthere =>
      cases h
      exact .inr ⟨rfl, hthere⟩
    · cases h

/-- Folders are made one after another. -/
theorem makeFoldersWithin_rel {rel : Disk → Disk → Prop} (hrefl : ∀ d, rel d d)
    (htrans : ∀ d₁ d₂ d₃, rel d₁ d₂ → rel d₂ d₃ → rel d₁ d₃)
    (hmake : ∀ path d d', makeFolder path d = .ok () d' → rel d d') {steps : Nat}
    (h : makeFoldersWithin steps path d = .ok () d') : rel d d' := by
  have hsettle {path : String} {d d' : Disk} (h : settle path d = .ok () d') : rel d d' := by
    obtain hmade | ⟨rfl, -⟩ := settle_ok h
    · exact hmake _ _ _ hmade
    · exact hrefl _
  induction steps generalizing path d d' with
  | zero => cases h
  | succ steps ih =>
    by_cases hpath : path.isEmpty = true
    · rw [makeFoldersWithin, if_pos hpath] at h
      cases h
      exact hrefl d
    · rw [makeFoldersWithin_succ steps (by simpa using hpath)] at h
      split at h
      · split at h
        · cases h
        · split at h
          · next hparent => exact htrans _ _ _ (ih hparent) (hsettle h)
          · cases h
      · exact hsettle h

/-- Making folders takes nothing away, and the folder is there then. -/
theorem makeFoldersWithin_ok {steps : Nat} (h : makeFoldersWithin steps path d = .ok () d') :
    Grown d d' ∧ (Path.names path ≠ [] → Path.endsInSlash path = false →
      d'.hasFolder path = true) := by
  refine ⟨makeFoldersWithin_rel Grown.refl (fun _ _ _ => Grown.trans)
    (fun _ _ _ => grown_of_makeFolder) h, fun hnames hslash => ?_⟩
  have hsettle {d d' : Disk} (h : settle path d = .ok () d') : d'.hasFolder path = true := by
    obtain hmade | ⟨rfl, hthere⟩ := settle_ok h
    · exact (hasFolder_of_makeFolder hnames hslash hmade).2
    · exact hthere
  have hpath : path.isEmpty = false := by
    refine Bool.eq_false_iff.mpr fun hempty => hnames ?_
    obtain rfl : path = "" := by simpa using hempty
    rfl
  cases steps with
  | zero => cases h
  | succ steps =>
    rw [makeFoldersWithin_succ steps hpath] at h
    split at h
    · split at h
      · cases h
      · split at h
        · exact hsettle h
        · cases h
    · exact hsettle h

/-- A folder that is there is not made again. -/
theorem makeFolders_of_hasFolder (hslash : Path.endsInSlash path = false)
    (h : d.hasFolder path = true) : makeFolders path d = .ok () d := by
  obtain ⟨p, hp, hfolder⟩ := hasFolder_iff.mp h
  have hgiven := namesOf_of_resolve hp
  rw [resolve_eq hgiven hslash] at hp
  obtain ⟨q, hq, hsome⟩ := travel_beside hp (by rw [hfolder]; rfl)
  have hmade : makeFolder path d = .error .alreadyThere d := by
    rw [makeFolder_eq, hgiven]
    dsimp only
    rw [hq]
    dsimp only
    cases hat : d.top.at? q with
    | none =>
      rw [Folder.look, hat] at hsome
      cases hsome
    | some e => rfl
  have hpath : path.isEmpty = false := by
    refine Bool.eq_false_iff.mpr fun hempty => ?_
    rw [namesOf, if_pos hempty] at hgiven
    cases hgiven
  rw [makeFolders, makeFoldersWithin_succ _ hpath, hmade]
  dsimp only
  rw [settle, hmade]
  exact if_pos h

/-- A folder cannot be made where the way is blocked. -/
theorem makeFolders_blocked (hslash : Path.endsInSlash path = false) (hpath : path ≠ "")
    (h : ∀ follow, travel d.top follow (linkLimit + 1) (d.start path) (Path.names path) =
      .error .notFolder) : makeFolders path d ≠ .ok () d' := by
  have hnot : d.hasFolder path = false := by
    refine Bool.eq_false_iff.mpr fun hfolder => ?_
    obtain ⟨p, hp, -⟩ := hasFolder_iff.mp hfolder
    rw [resolve_eq (namesOf_of_resolve hp) hslash, h] at hp
    cases hp
  have hmade : ∃ fault, fault ≠ .noEntry ∧ makeFolder path d = .error fault d := by
    rw [makeFolder_eq]
    cases hgiven : namesOf path with
    | error fault =>
      refine ⟨fault, ?_, rfl⟩
      rintro rfl
      exact namesOf_ne_noEntry hpath hgiven
    | ok names =>
      obtain rfl := names_of_namesOf hgiven
      exact ⟨.notFolder, nofun, by simp only [h]⟩
  obtain ⟨fault, hfault, hmade⟩ := hmade
  intro hok
  rw [makeFolders, makeFoldersWithin_succ _ (by simpa using hpath), hmade] at hok
  split at hok
  · next heq =>
    cases heq
    exact hfault rfl
  · rw [settle, hmade] at hok
    dsimp only at hok
    rw [if_neg (by simp [hnot])] at hok
    cases hok

/-! ## What is there stays there -/

/-- A path leads to the same place where nothing is gone. -/
theorem resolve_grown {p : List String} {e : Entry} (h : d.resolve follow path = .ok p)
    (hgrown : Grown d d') (hat : d'.top.at? p = some e) (hlink : ∀ target, e ≠ .link target) :
    d'.resolve true path = .ok p := by
  have hgiven := namesOf_of_resolve h
  rw [resolve, hgiven] at h ⊢
  change travel _ _ _ (if _ then [] else d.workingFolder) _ = _ at h
  change travel _ _ _ (if _ then [] else d'.workingFolder) _ = _
  rw [hgrown.workingFolder]
  exact travel_grown h hgrown.entries hat hlink

theorem hasFolder_grown (h : d.hasFolder path = true) (hgrown : Grown d d') :
    d'.hasFolder path = true := by
  obtain ⟨p, hp, hfolder⟩ := hasFolder_iff.mp h
  have hfolder' := hgrown.entries p _ hfolder
  obtain ⟨entries, hat⟩ := Folder.look_eq_folder.mp hfolder'
  exact hasFolder_iff.mpr
    ⟨p, resolve_grown hp hgrown hat (fun _ hlink => by cases hlink), hfolder'⟩

/-! ## Texts -/

/-- A text is read exactly if the path leads to a file with it. -/
theorem text_eq_ok_iff {s : String} : d.text path = .ok s ↔
    ∃ p, d.resolve true path = .ok p ∧ d.top.at? p = some (.file (.text s)) := by
  unfold text entry
  cases hresolve : d.resolve true path with
  | error fault => simp [bind, Except.bind]
  | ok p =>
    simp only [Except.ok.injEq, exists_eq_left']
    cases hat : d.top.at? p with
    | none => simp [bind, Except.bind, hat]
    | some e =>
      cases e with
      | file content => cases content <;> simp [bind, Except.bind, hat, pure, Except.pure]
      | link _ | folder _ => simp [bind, Except.bind, hat, pure, Except.pure]

/-- A text stays where nothing is gone. -/
theorem text_grown {s : String} (h : d.text path = .ok s) (hgrown : Grown d d') :
    d'.text path = .ok s := by
  obtain ⟨p, hp, hat⟩ := text_eq_ok_iff.mp h
  have hat' : d'.top.at? p = some (.file (.text s)) := by
    have hlook := hgrown.entries p (.file (.text s)) (by rw [Folder.look, hat]; rfl)
    obtain ⟨e, he, hshallow⟩ := Option.map_eq_some_iff.mp hlook
    cases e <;> cases hshallow
    exact he
  exact text_eq_ok_iff.mpr
    ⟨p, resolve_grown hp hgrown hat' (fun _ hlink => by cases hlink), hat'⟩

/-- No text is at a path whose last name is a single dot. -/
theorem text_of_dot {s : String} (h : (Path.names path).getLast? = some ".") :
    d.text path ≠ .ok s := by
  intro htext
  obtain ⟨p, hp, hat⟩ := text_eq_ok_iff.mp htext
  obtain ⟨before, hbefore⟩ : ∃ before,
      (Path.names path ++ if Path.endsInSlash path then ["."] else []) = before ++ ["."] := by
    split
    · exact ⟨Path.names path, rfl⟩
    · rw [List.append_nil]
      exact List.getLast?_eq_some_iff.mp h
  rw [resolve, namesOf_of_resolve hp] at hp
  change travel _ _ _ _ (Path.names path ++ _) = _ at hp
  rw [hbefore] at hp
  have hfolder := (travel_of_dot hp).2
  rw [View.FolderAt, Folder.look, hat] at hfolder
  cases hfolder

/-- A path is well formed if there is nothing to be read at it. -/
theorem namesOf_of_text (hpath : path ≠ "") (h : d.text path = .error .noEntry) :
    namesOf path = .ok (Path.names path) := by
  cases hgiven : namesOf path with
  | error fault =>
    rw [text, entry, resolve, hgiven] at h
    cases h
    exact absurd hgiven (namesOf_ne_noEntry hpath)
  | ok names => rw [names_of_namesOf hgiven]

/-- A file is put at any place but that of a folder; there, nothing changes. -/
theorem writeAt_cases (place : List String) (content : Content) (d : Disk) :
    (∃ fault, writeAt place content d = .error fault d) ∨
      ¬View.FolderAt d.top.look place ∧
        writeAt place content d = .ok () { d with top := d.top.putAt place (.file content) } := by
  unfold writeAt
  change (∃ fault, EStateM.bind get _ d = _) ∨ _ ∧ EStateM.bind get _ d = _
  dsimp only [EStateM.bind, get_apply]
  rw [View.FolderAt, Folder.look_eq_folder]
  cases hat : d.top.at? place with
  | none => exact .inr ⟨by simp, rfl⟩
  | some e =>
    cases e with
    | folder entries => exact .inl ⟨_, rfl⟩
    | file _ | link _ => exact .inr ⟨by simp, rfl⟩

/-- A new file is begun in a folder. -/
theorem draftPlace_ok {root : String} {place : List String} (h : d.draftPlace root = .ok place) :
    d.resolve true (orHere root) = .ok place ∧ View.FolderAt d.top.look place := by
  unfold draftPlace at h
  obtain ⟨_, -, h⟩ := Except.bind_eq_ok_iff.mp h
  obtain ⟨q, hresolve, h⟩ := Except.bind_eq_ok_iff.mp h
  split at h
  · next entries hat =>
    cases h
    exact ⟨hresolve, Folder.look_eq_folder.mpr ⟨entries, hat⟩⟩
  · cases h
  · cases h

/-- What putting a file into a folder does: nothing, or the file is there at once, and its path can
be written. -/
theorem replaceFile_cases (root name text : String) (d : Disk) :
    (∃ fault, replaceFile root name text d = .error fault d) ∨
      namesOf (Path.join root name) = .ok (Path.names (Path.join root name)) ∧
      ∃ place, d.resolve true (orHere root) = .ok place ∧ View.FolderAt d.top.look place ∧
        ¬View.FolderAt d.top.look (place ++ [name]) ∧ replaceFile root name text d =
          .ok () { d with top := d.top.putAt (place ++ [name]) (.file (.text text)) } := by
  unfold replaceFile
  simp only [bind, EStateM.bind, lift]
  cases hdraft : d.draftPlace root with
  | error fault => exact .inl ⟨fault, rfl⟩
  | ok place =>
    dsimp only
    cases hgiven : namesOf (Path.join root name) with
    | error fault => exact .inl ⟨fault, rfl⟩
    | ok names =>
      obtain ⟨hresolve, hfolder⟩ := draftPlace_ok hdraft
      refine (writeAt_cases (place ++ [name]) (.text text) d).imp_right fun ⟨hnot, hput⟩ => ?_
      exact ⟨by rw [names_of_namesOf hgiven], place, hresolve, hfolder, hnot, hput⟩

/-- A file is replaced in a folder, where no folder is in its place. -/
theorem replaceFile_ok {root name text : String} (h : replaceFile root name text d = .ok () d') :
    namesOf (Path.join root name) = .ok (Path.names (Path.join root name)) ∧
      ∃ place, d.resolve true (orHere root) = .ok place ∧ View.FolderAt d.top.look place ∧
        ¬View.FolderAt d.top.look (place ++ [name]) ∧
        d' = { d with top := d.top.putAt (place ++ [name]) (.file (.text text)) } := by
  obtain ⟨fault, hfails⟩ | ⟨hgiven, place, hresolve, hfolder, hnot, hput⟩ :=
    replaceFile_cases root name text d
  · cases hfails.symm.trans h
  · cases hput.symm.trans h
    exact ⟨hgiven, place, hresolve, hfolder, hnot, rfl⟩

/-- The root folder is found by a travel along the names of its path. -/
theorem travel_of_resolve {root : String} {place : List String}
    (h : d.resolve true (orHere root) = .ok place) :
    travel d.top true (linkLimit + 1) (d.start root) (Path.names root) = .ok place := by
  by_cases hroot : root = ""
  · subst hroot
    have hdot : travel d.top true (linkLimit + 1) d.workingFolder ([] ++ ["."]) = .ok place := h
    exact (travel_of_dot hdot).1
  · have hhere : orHere root = root := if_neg (by simpa using hroot)
    rw [hhere] at h
    have hgiven := namesOf_of_resolve h
    rw [resolve, hgiven] at h
    change travel d.top true (linkLimit + 1) (d.start root) _ = .ok place at h
    split at h
    · exact (travel_of_dot h).1
    · rwa [List.append_nil] at h

/-- The name of a file in a folder, which is a path too. -/
structure FileName (name : String) : Prop extends Plain name where
  relative : Path.isAbsolute name = false
  alone : Path.names name = [name]
  noSlash : Path.endsInSlash name = false

theorem FileName.ne_empty {name : String} (h : FileName name) : name ≠ "" := by
  rintro rfl
  cases h.alone

theorem start_join {root inner : String} (hinner : Path.isAbsolute inner = false) :
    d.start (Path.join root inner) = d.start root := by
  unfold start
  rw [Path.isAbsolute_join root hinner]

section

variable {root name s : String}

theorem resolve_join (hname : FileName name)
    (hgiven : namesOf (Path.join root name) = .ok (Path.names (Path.join root name)))
    (follow : Bool) : d.resolve follow (Path.join root name) =
      travel d.top follow (linkLimit + 1) (d.start root) (Path.names root ++ [name]) := by
  rw [resolve_eq hgiven ((Path.endsInSlash_join root hname.ne_empty).trans hname.noSlash),
    start_join hname.relative, Path.names_join root hname.relative, hname.alone]

/-- A folder in the root folder is found where that one is. -/
theorem hasFolder_join {place : List String} (hname : FileName name)
    (hgiven : namesOf (Path.join root name) = .ok (Path.names (Path.join root name)))
    (hway : travel d.top true (linkLimit + 1) (d.start root) (Path.names root) = .ok place)
    (hplace : View.FolderAt d.top.look place)
    (hfolder : View.FolderAt d.top.look (place ++ [name])) :
    d.hasFolder (Path.join root name) = true := by
  refine hasFolder_iff.mpr ⟨place ++ [name], ?_, hfolder⟩
  obtain ⟨left, hleft⟩ := @travel_append _ true _ _ _ _ _ hway hplace (List.cons_ne_nil name [])
  rw [resolve_join hname hgiven, hleft]
  exact travel_arrived (.into hplace hname.toPlain hfolder .here)

/-- A file that took a place in a folder is read there, or else it took the place of a link on the
way to the folder, and blocks the way to all that is in it. -/
theorem text_or_blocked (hname : FileName name) (h : replaceFile root name s d = .ok () d') :
    d'.text (Path.join root name) = .ok s ∨
      (∃ place, d.resolve true (orHere root) = .ok place ∧ View.FolderAt d.top.look place ∧
        Through d.top (place ++ [name]) place) ∧
      ∀ inner, Path.isAbsolute inner = false → Path.names inner ≠ [] → ∀ follow,
        travel d'.top follow (linkLimit + 1) (d'.start (Path.join root inner))
          (Path.names (Path.join root inner)) = .error .notFolder := by
  obtain ⟨hgiven, place, hresolve, hplace, hnot, rfl⟩ := replaceFile_ok h
  have hreplaced := replaced_putAt hplace hnot (.text s)
  obtain hsame | ⟨hthrough, hblocked⟩ := travel_replaced hreplaced (travel_of_resolve hresolve)
  · left
    obtain ⟨entries, hentries⟩ := Folder.look_eq_folder.mp hplace
    have hat := Folder.at?_putAt hentries name (.file (.text s))
    refine text_eq_ok_iff.mpr ⟨place ++ [name], ?_, hat⟩
    rw [resolve_join hname hgiven]
    exact travel_file hsame (hreplaced.folderAt hplace) hname.toPlain
      (by rw [Folder.look, hat]; rfl)
  · refine .inr ⟨⟨place, hresolve, hplace, hthrough⟩, fun inner hinner hinnerNames follow => ?_⟩
    rw [start_join hinner, Path.names_join root hinner]
    exact hblocked follow _ hinnerNames

/-- There is a text to be read at the path, or nothing is there. -/
def Free (d : Disk) (path : String) : Prop :=
  (∃ s, d.text path = .ok s) ∨ d.text path = .error .noEntry

theorem Free.namesOf (h : d.Free path) (hpath : path ≠ "") :
    namesOf path = .ok (Path.names path) := by
  obtain ⟨s, htext⟩ | hnone := h
  · obtain ⟨p, hp, -⟩ := text_eq_ok_iff.mp htext
    exact namesOf_of_resolve hp
  · exact namesOf_of_text hpath hnone

/-- Where a text is to be read or nothing is there, there is no folder. -/
theorem Free.not_folder {q : List String} (h : d.Free path) (hq : d.resolve true path = .ok q) :
    ¬View.FolderAt d.top.look q := by
  intro hfolder
  obtain ⟨entries, hat⟩ := Folder.look_eq_folder.mp hfolder
  have htext : d.text path = .error .isFolder := by
    rw [text, entry, hq]
    simp [bind, Except.bind, hat, pure, Except.pure]
  obtain ⟨_, hsome⟩ | hnone := h
  · cases hsome.symm.trans htext
  · cases hnone.symm.trans htext

/-- Where a text is to be read or nothing is there, no link leads to a folder. -/
theorem Free.not_through {place p : List String} (h : d.Free (Path.join root name))
    (hname : FileName name) (hresolve : d.resolve true (orHere root) = .ok place)
    (hplace : View.FolderAt d.top.look place) (hp : View.FolderAt d.top.look p) :
    ¬Through d.top (place ++ [name]) p := by
  intro hthrough
  obtain ⟨links, q, hq, hfolder⟩ := hthrough.leads hp hplace hname.toPlain
  obtain ⟨left, hleft⟩ : ∃ left, d.resolve true (Path.join root name) =
      travel d.top true (left + 1) place [name] := by
    rw [resolve_join hname (h.namesOf (Path.join_ne_empty root hname.ne_empty))]
    exact travel_append (travel_of_resolve hresolve) hplace (List.cons_ne_nil name [])
  have hend : d.resolve true (Path.join root name) ≠ .error .tooManyLinks := by
    intro hmany
    have htext : d.text (Path.join root name) = .error .tooManyLinks := by
      rw [text, entry, hmany]
      rfl
    obtain ⟨_, hsome⟩ | hnone := h
    · cases hsome.symm.trans htext
    · cases hnone.symm.trans htext
  -- Both travels end, so they end alike when each has the links of both.
  have hway : d.resolve true (Path.join root name) = .ok q := by
    rw [← travel_more hleft.symm hend links, Nat.add_comm]
    exact travel_more hq nofun (left + 1)
  exact h.not_folder hway hfolder

/-- A file that took a free place in a folder is read there, and the folders are there as before. -/
theorem kept_of_replaceFile (hname : FileName name)
    (h : replaceFile root name s d = .ok () d') (hfree : d.Free (Path.join root name)) :
    d'.text (Path.join root name) = .ok s ∧
      ∀ path, d.hasFolder path = true → d'.hasFolder path = true := by
  constructor
  · obtain htext | ⟨⟨place, hresolve, hplace, hthrough⟩, -⟩ := text_or_blocked hname h
    · exact htext
    · exact absurd hthrough (hfree.not_through hname hresolve hplace hplace)
  · intro path hpath
    obtain ⟨-, place, hresolve, hplace, hnot, rfl⟩ := replaceFile_ok h
    have hreplaced := replaced_putAt hplace hnot (.text s)
    obtain ⟨p, hp, hfolder⟩ := hasFolder_iff.mp hpath
    refine hasFolder_iff.mpr ⟨p, ?_, hreplaced.folderAt hfolder⟩
    have hgiven := namesOf_of_resolve hp
    rw [resolve, hgiven] at hp ⊢
    obtain hsame | ⟨hthrough, -⟩ := travel_replaced hreplaced hp
    · exact hsame
    · exact absurd hthrough (hfree.not_through hname hresolve hplace hfolder)

end

end Disk

end Mutagenesis
