import Mutagenesis.Disk

/-!
# Places on the disk

What is at a place is told by `Folder.look`, which says of a folder only that it is one. A walk
along names depends on this alone (`Disk.walk_eq_ok_iff`). So a travel that finds something ends
there too after folders were added (`Disk.travel_grown`). A travel stays as it is after a file was
put somewhere, unless it went through a link there and is blocked (`Disk.travel_replaced`).
-/

set_option autoImplicit false

namespace Mutagenesis

/-! ## Names of written paths -/

namespace Path

theorem pieces_ne_nil (separator : Char) (cs : List Char) : Text.pieces separator cs ≠ [] := by
  cases cs with
  | nil => simp [Text.pieces]
  | cons c cs =>
    unfold Text.pieces
    split
    · simp
    · split <;> simp

/-- A text is cut at a separator. -/
theorem pieces_append (separator : Char) (before after : List Char) :
    Text.pieces separator (before ++ separator :: after) =
      Text.pieces separator before ++ Text.pieces separator after := by
  induction before with
  | nil => simp [Text.pieces]
  | cons c before ih =>
    rw [List.cons_append, Text.pieces, Text.pieces, ih]
    by_cases hc : c = separator
    · simp [hc]
    · obtain ⟨piece, rest, hpieces⟩ :=
        List.exists_cons_of_ne_nil (pieces_ne_nil separator before)
      simp [hc, hpieces]

theorem names_slash (before after : String) :
    names (before ++ "/" ++ after) = names before ++ names after := by
  have hchars : (before ++ "/" ++ after).toList = before.toList ++ '/' :: after.toList := by simp
  rw [names, hchars, pieces_append, List.filter_append, List.map_append]
  rfl

/-- The names of a joined path are those of its parts. -/
theorem names_join (base : String) {path : String} (h : isAbsolute path = false) :
    names (join base path) = names base ++ names path := by
  unfold join
  by_cases hempty : base.isEmpty = true
  · obtain rfl : base = "" := by simpa using hempty
    simp [names, Text.pieces]
  · rw [if_neg (by simp [h, hempty])]
    split
    · next hslash =>
      obtain ⟨before, hbefore⟩ : ∃ before, base.toList = before ++ ['/'] := by
        have hlast : base.toList.getLast? = some '/' := by simpa [endsInSlash] using hslash
        exact List.getLast?_eq_some_iff.mp hlast
      obtain rfl : base = String.ofList before ++ "/" ++ "" := by
        rw [← String.toList_inj]
        simp [hbefore]
      rw [String.append_empty, names_slash,
        ← String.append_empty (s := String.ofList before ++ "/"), names_slash]
      simp [names, Text.pieces]
    · exact names_slash base path

/-- A path that is joined to a base is absolute exactly if the base is. -/
theorem isAbsolute_join (base : String) {path : String} (h : isAbsolute path = false) :
    isAbsolute (join base path) = isAbsolute base := by
  unfold join
  by_cases hbase : base = ""
  · rw [if_pos (by simp [hbase]), h, hbase]
    rfl
  · obtain ⟨c, cs, hcs⟩ : ∃ c cs, base.toList = c :: cs :=
      List.exists_cons_of_ne_nil (by simpa [String.toList_eq_nil_iff] using hbase)
    rw [if_neg (by simp [h, hbase])]
    split <;> simp [isAbsolute, hcs]

theorem endsInSlash_join (base : String) {path : String} (h : path ≠ "") :
    endsInSlash (join base path) = endsInSlash path := by
  have hpath : path.toList ≠ [] := by simpa [String.toList_eq_nil_iff] using h
  have hlast : ∀ before, (before ++ path.toList).getLast? = path.toList.getLast? := fun before => by
    rw [List.getLast?_append, List.getLast?_eq_some_getLast hpath, Option.some_or]
  unfold join endsInSlash
  split
  · rfl
  · split <;> rw [String.toList_append, hlast]

theorem join_ne_empty (base : String) {path : String} (h : path ≠ "") : join base path ≠ "" := by
  unfold join
  split
  · exact h
  · split <;> simp [h]

end Path

/-! ## What is at a place -/

namespace Entry

/-- An entry, without what is in it if it is a folder. -/
def shallow : Entry → Entry
  | folder _ => folder .empty
  | e => e

/-- What is at a path below an entry. -/
def at? : Entry → List String → Option Entry
  | folder children, path => children.at? path
  | e, [] => some e
  | _, _ :: _ => none

end Entry

variable {place : List String}

namespace Folder

/-- The children after an entry is put. -/
theorem child?_put (name other : String) (e : Entry) (f : Folder) :
    child? other (f.put name e) = if name = other then some e else f.child? other := by
  have hcons : ∀ rest : Folder, child? other (cons name e rest) =
      if name = other then some e else rest.child? other := by
    intro rest
    cases e <;> rfl
  induction f with
  | empty => exact hcons empty
  | file n _ rest ih | link n _ rest ih | sub n _ rest _ ih =>
    unfold put
    split
    · next hn =>
      rw [hcons, child?, hn]
      split <;> rfl
    · next hn =>
      rw [child?, child?, ih]
      by_cases hother : name = other
      · simp [← hother, hn]
      · simp [hother]

/-- A path goes down by its first name. -/
theorem at?_cons (f : Folder) (name : String) (rest : List String) :
    f.at? (name :: rest) = (f.child? name).bind (·.at? rest) := by
  cases rest with
  | nil =>
    rw [at?]
    cases hentry : f.child? name with
    | none => rfl
    | some e => cases e <;> rfl
  | cons next rest =>
    rw [at?]
    · cases hentry : f.child? name with
      | none => rfl
      | some e => cases e <;> rfl
    · simp

/-- A path goes down in two parts. -/
theorem at?_append (f : Folder) (path rest : List String) :
    f.at? (path ++ rest) = (f.at? path).bind (·.at? rest) := by
  induction path generalizing f with
  | nil => rfl
  | cons name path ih =>
    rw [List.cons_append, at?_cons, at?_cons, Option.bind_assoc]
    congr 1
    funext e
    cases e with
    | folder children => exact ih children
    | file _ | link _ => cases path <;> rfl

theorem putAt_cons {f children : Folder} {name : String}
    (h : f.child? name = some (.folder children))
    {rest : List String} (hrest : rest ≠ []) (e : Entry) :
    f.putAt (name :: rest) e = f.put name (.folder (children.putAt rest e)) := by
  cases rest with
  | nil => exact absurd rfl hrest
  | cons next rest => rw [putAt, h]; simp

/-- An entry that was put into a folder is there. -/
theorem at?_putAt {f entries : Folder} (h : f.at? place = some (.folder entries)) (name : String)
    (e : Entry) : (f.putAt (place ++ [name]) e).at? (place ++ [name]) = some e := by
  induction place generalizing f with
  | nil =>
    change child? name (f.put name e) = some e
    rw [child?_put, if_pos rfl]
  | cons next rest ih =>
    rw [at?_cons, Option.bind_eq_some_iff] at h
    obtain ⟨found, hfound, hrest⟩ := h
    cases found with
    | folder children =>
      rw [List.cons_append, putAt_cons hfound (by simp), at?_cons, child?_put, if_pos rfl]
      exact ih hrest
    | file _ | link _ => cases rest <;> cases hrest

/-- What is at a path; of a folder, only that it is one. -/
def look (f : Folder) (path : List String) : Option Entry :=
  (f.at? path).map Entry.shallow

variable {f : Folder}

/-- An entry that is put somewhere changes nothing but what is there and below. -/
theorem look_putAt {place path : List String} (h : ¬place <+: path) (e : Entry) :
    (f.putAt place e).look path = f.look path := by
  induction place generalizing f path with
  | nil => exact absurd List.nil_prefix h
  | cons name rest ih =>
    cases path with
    | nil => rfl
    | cons next path =>
      rw [List.cons_prefix_cons, not_and] at h
      unfold look
      rw [at?_cons, at?_cons]
      by_cases hrest : rest = []
      · subst hrest
        have hne : name ≠ next := fun heq => h heq List.nil_prefix
        change Option.map _ (( child? next (f.put name e)).bind _) = _
        rw [child?_put, if_neg hne]
      · cases hentry : f.child? name with
        | none => rw [show f.putAt (name :: rest) e = f by cases rest <;> simp_all [putAt]]
        | some found =>
          cases found with
          | folder children =>
            rw [putAt_cons hentry hrest, child?_put]
            split
            · next heq =>
              subst heq
              rw [hentry]
              exact ih (h rfl)
            · rfl
          | file _ | link _ =>
            rw [show f.putAt (name :: rest) e = f by cases rest <;> simp_all [putAt]]

/-- Below what is no folder, there is nothing. -/
theorem look_below {place rest : List String} (hrest : rest ≠ [])
    (h : f.look place ≠ some (.folder .empty)) : f.look (place ++ rest) = none := by
  unfold look at h ⊢
  rw [at?_append]
  cases hplace : f.at? place with
  | none => rfl
  | some e =>
    rw [hplace] at h
    obtain ⟨name, rest, rfl⟩ := List.exists_cons_of_ne_nil hrest
    cases e with
    | folder _ => exact absurd rfl h
    | file _ | link _ => rfl

theorem look_eq_folder {path : List String} :
    f.look path = some (.folder .empty) ↔ ∃ entries, f.at? path = some (.folder entries) := by
  unfold look
  cases h : f.at? path with
  | none => simp
  | some e => cases e <;> simp [Entry.shallow]

theorem look_eq_file {path : List String} {content : Content} :
    f.look path = some (.file content) ↔ f.at? path = some (.file content) := by
  unfold look
  cases f.at? path with
  | none => simp
  | some e => cases e <;> simp [Entry.shallow]

theorem look_eq_link {path : List String} {target : String} :
    f.look path = some (.link target) ↔ f.at? path = some (.link target) := by
  unfold look
  cases f.at? path with
  | none => simp
  | some e => cases e <;> simp [Entry.shallow]

/-- What holds a folder is a folder. -/
theorem look_dropLast {path : List String} (h : f.look path = some (.folder .empty)) :
    f.look path.dropLast = some (.folder .empty) := by
  by_cases hpath : path = []
  · rwa [hpath] at h ⊢
  · refine Classical.byContradiction fun hnot => ?_
    have hbelow : f.look (path.dropLast ++ [path.getLast hpath]) = none := look_below (by simp) hnot
    rw [List.dropLast_concat_getLast, h] at hbelow
    cases hbelow

end Folder

namespace Disk

/-! ## Walks -/

/-- A name that stands for an entry of a folder. -/
structure Plain (name : String) : Prop where
  notDot : name ≠ "."
  notUp : name ≠ ".."
  short : ¬nameLimit < name.utf8ByteSize

/-- What is seen at each place. -/
abbrev View := List String → Option Entry

/-- There is a folder to be seen at a place. -/
abbrev View.FolderAt (view : View) (place : List String) : Prop :=
  view place = some (.folder .empty)

/-- A walk along names from a folder ends somewhere. -/
inductive Walks (view : View) (follow : Bool) : (folder names : List String) → Stop → Prop
  | here {folder : List String} : Walks view follow folder [] (.arrived folder)
  | dot {folder rest : List String} {stop : Stop} : view.FolderAt folder →
      Walks view follow folder rest stop → Walks view follow folder ("." :: rest) stop
  | up {folder rest : List String} {stop : Stop} : view.FolderAt folder →
      Walks view follow folder.dropLast rest stop → Walks view follow folder (".." :: rest) stop
  | into {folder rest : List String} {name : String} {stop : Stop} : view.FolderAt folder →
      Plain name → view.FolderAt (folder ++ [name]) →
      Walks view follow (folder ++ [name]) rest stop → Walks view follow folder (name :: rest) stop
  | link {folder rest : List String} {name target : String} : view.FolderAt folder → Plain name →
      view (folder ++ [name]) = some (.link target) → (rest = [] → follow = true) →
      Walks view follow folder (name :: rest) (.atLink folder target rest)
  | beside {folder : List String} {name target : String} : view.FolderAt folder → Plain name →
      view (folder ++ [name]) = some (.link target) → follow = false →
      Walks view follow folder [name] (.arrived (folder ++ [name]))
  | file {folder : List String} {name : String} {content : Content} : view.FolderAt folder →
      Plain name → view (folder ++ [name]) = some (.file content) →
      Walks view follow folder [name] (.arrived (folder ++ [name]))
  | nothing {folder : List String} {name : String} : view.FolderAt folder → Plain name →
      view (folder ++ [name]) = none → Walks view follow folder [name] (.arrived (folder ++ [name]))

section

variable {top : Folder} {follow : Bool} {folder rest : List String} {name : String}

theorem walk_dot (h : View.FolderAt top.look folder) :
    walk top follow folder ("." :: rest) = walk top follow folder rest := by
  obtain ⟨entries, hentries⟩ := Folder.look_eq_folder.mp h
  rw [walk, hentries]
  exact if_pos rfl

theorem walk_up (h : View.FolderAt top.look folder) :
    walk top follow folder (".." :: rest) = walk top follow folder.dropLast rest := by
  obtain ⟨entries, hentries⟩ := Folder.look_eq_folder.mp h
  rw [walk, hentries]
  exact (if_neg (by decide)).trans (if_pos rfl)

/-- A plain name leads to what is under it: nothing, a file, a folder or a link. -/
theorem walk_plain (h : View.FolderAt top.look folder) (hname : Plain name) :
    walk top follow folder (name :: rest) =
      match top.look (folder ++ [name]) with
      | none => if rest.isEmpty then .ok (.arrived (folder ++ [name])) else .error .noEntry
      | some (.link target) =>
        if rest.isEmpty ∧ follow = false then .ok (.arrived (folder ++ [name]))
        else .ok (.atLink folder target rest)
      | some (.file _) =>
        if rest.isEmpty then .ok (.arrived (folder ++ [name])) else .error .notFolder
      | some (.folder _) => walk top follow (folder ++ [name]) rest := by
  obtain ⟨entries, hentries⟩ := Folder.look_eq_folder.mp h
  have hlook : top.look (folder ++ [name]) = (entries.child? name).map Entry.shallow := by
    rw [Folder.look, Folder.at?_append, hentries]
    rfl
  rw [walk, hentries, hlook]
  dsimp only
  rw [if_neg hname.notDot, if_neg hname.notUp, if_neg hname.short]
  cases hentry : entries.child? name with
  | none => rfl
  | some e => cases e <;> rfl

/-- A walk in the other direction: what its first name led to. -/
theorem walk_inv {stop : Stop} (h : walk top follow folder (name :: rest) = .ok stop) :
    View.FolderAt top.look folder ∧ (name = "." ∨ name = ".." ∨ Plain name) := by
  rw [walk] at h
  cases hfolder : top.at? folder with
  | none =>
    rw [hfolder] at h
    cases h
  | some e =>
    rw [hfolder] at h
    cases e with
    | folder entries =>
      refine ⟨Folder.look_eq_folder.mpr ⟨_, hfolder⟩, ?_⟩
      by_cases hdot : name = "."
      · exact .inl hdot
      by_cases hup : name = ".."
      · exact .inr (.inl hup)
      · refine .inr (.inr ⟨hdot, hup, fun hlong => ?_⟩)
        simp [hdot, hup, hlong] at h
    | file _ | link _ => cases h

/-- The walks along names that end are the ones that the rules allow. -/
theorem walk_eq_ok_iff {names : List String} {stop : Stop} :
    walk top follow folder names = .ok stop ↔ Walks top.look follow folder names stop := by
  constructor
  · intro h
    induction names generalizing folder with
    | nil =>
      cases h
      exact .here
    | cons name rest ih =>
      obtain ⟨hfolder, rfl | rfl | hname⟩ := walk_inv h
      · exact .dot hfolder (ih (walk_dot hfolder ▸ h))
      · exact .up hfolder (ih (walk_up hfolder ▸ h))
      · rw [walk_plain hfolder hname] at h
        split at h
        · next hnone =>
          split at h
          · next hrest =>
            cases h
            obtain rfl := List.isEmpty_iff.mp hrest
            exact .nothing hfolder hname hnone
          · cases h
        · next target hlink =>
          split at h
          · next hrest =>
            cases h
            obtain rfl := List.isEmpty_iff.mp hrest.1
            exact .beside hfolder hname hlink hrest.2
          · next hrest =>
            cases h
            exact .link hfolder hname hlink fun hnil => by simpa [hnil] using hrest
        · next content hfile =>
          split at h
          · next hrest =>
            cases h
            obtain rfl := List.isEmpty_iff.mp hrest
            exact .file hfolder hname hfile
          · cases h
        · next children hsub =>
          have hsub' : View.FolderAt top.look (folder ++ [name]) :=
            Folder.look_eq_folder.mpr (by
              unfold Folder.look at hsub
              obtain ⟨e, he, hshallow⟩ := Option.map_eq_some_iff.mp hsub
              cases e with
              | folder entries => exact ⟨_, he⟩
              | file _ | link _ => cases hshallow)
          exact .into hfolder hname hsub' (ih h)
  · intro h
    induction h with
    | here => rfl
    | dot hfolder _ ih => rw [walk_dot hfolder, ih]
    | up hfolder _ ih => rw [walk_up hfolder, ih]
    | into hfolder hname hsub _ ih => rw [walk_plain hfolder hname, hsub]; exact ih
    | link hfolder hname hlink hrest =>
      rw [walk_plain hfolder hname, hlink]
      refine if_neg fun hlast => ?_
      simpa [hlast.2] using hrest (List.isEmpty_iff.mp hlast.1)
    | beside hfolder hname hlink hfollow =>
      rw [walk_plain hfolder hname, hlink]
      exact if_pos ⟨rfl, hfollow⟩
    | file hfolder hname hfile => rw [walk_plain hfolder hname, hfile]; rfl
    | nothing hfolder hname hnone => rw [walk_plain hfolder hname, hnone]; rfl

end

variable {more : List String}

namespace Walks

variable {view view' : View} {follow : Bool} {folder names p : List String} {stop : Stop}

/-- Where more is to be seen, a walk that ends at something ends there too. -/
theorem grown (h : Walks view follow folder names stop)
    (hgrown : ∀ q e, view q = some e → view' q = some e)
    (hstop : ∀ p, stop = .arrived p → ∃ e, view' p = some e ∧ (∀ target, e ≠ .link target) ∧
      e.shallow = e) :
    Walks view' true folder names stop := by
  induction h with
  | here => exact .here
  | dot hfolder _ ih => exact .dot (hgrown _ _ hfolder) (ih hstop)
  | up hfolder _ ih => exact .up (hgrown _ _ hfolder) (ih hstop)
  | into hfolder hname hsub _ ih =>
    exact .into (hgrown _ _ hfolder) hname (hgrown _ _ hsub) (ih hstop)
  | link hfolder hname hlink _ =>
    exact .link (hgrown _ _ hfolder) hname (hgrown _ _ hlink) fun _ => rfl
  | beside hfolder hname hlink _ =>
    obtain ⟨e, he, hnot, -⟩ := hstop _ rfl
    rw [hgrown _ _ hlink] at he
    cases he
    exact absurd rfl (hnot _)
  | file hfolder hname hfile => exact .file (hgrown _ _ hfolder) hname (hgrown _ _ hfile)
  | nothing hfolder hname _ =>
    obtain ⟨e, he, hnot, hshallow⟩ := hstop _ rfl
    cases e with
    | folder entries =>
      cases hshallow
      exact .into (hgrown _ _ hfolder) hname he .here
    | file content => exact .file (hgrown _ _ hfolder) hname he
    | link target => exact absurd rfl (hnot target)

/-- A walk that does not follow a link under the last name ends at this link instead. -/
theorem beside_link (h : Walks view true folder names stop) :
    Walks view false folder names stop ∨ ∃ g name target, stop = .atLink g target [] ∧
      view (g ++ [name]) = some (.link target) ∧
      Walks view false folder names (.arrived (g ++ [name])) := by
  induction h with
  | here => exact .inl .here
  | dot hfolder _ ih =>
    exact ih.imp (.dot hfolder) fun ⟨g, name, target, hstop, hlink, h⟩ =>
      ⟨g, name, target, hstop, hlink, .dot hfolder h⟩
  | up hfolder _ ih =>
    exact ih.imp (.up hfolder) fun ⟨g, name, target, hstop, hlink, h⟩ =>
      ⟨g, name, target, hstop, hlink, .up hfolder h⟩
  | into hfolder hname hsub _ ih =>
    exact ih.imp (.into hfolder hname hsub) fun ⟨g, name, target, hstop, hlink, h⟩ =>
      ⟨g, name, target, hstop, hlink, .into hfolder hname hsub h⟩
  | @link g rest name target hfolder hname hlink _ =>
    by_cases hrest : rest = []
    · subst hrest
      exact .inr ⟨g, name, target, rfl, hlink, .beside hfolder hname hlink rfl⟩
    · exact .inl (.link hfolder hname hlink fun hnil => absurd hnil hrest)
  | beside _ _ _ hfollow => cases hfollow
  | file hfolder hname hfile => exact .inl (.file hfolder hname hfile)
  | nothing hfolder hname hnone => exact .inl (.nothing hfolder hname hnone)

/-- A walk starts in a folder, if it goes anywhere. -/
theorem folderAt (h : Walks view follow folder more stop) (hmore : more ≠ []) :
    view.FolderAt folder := by
  cases h with
  | here => exact absurd rfl hmore
  | dot hfolder | up hfolder | into hfolder | link hfolder | beside hfolder | file hfolder
    | nothing hfolder => exact hfolder

/-- A walk along more names stops at the same link. -/
theorem append_link {g rest more : List String} {target : String}
    (h : Walks view true folder names stop) (hstop : stop = .atLink g target rest)
    (hmore : more ≠ []) :
    Walks view follow folder (names ++ more) (.atLink g target (rest ++ more)) := by
  induction h with
  | here | file | nothing => cases hstop
  | dot hfolder _ ih => exact .dot hfolder (ih hstop)
  | up hfolder _ ih => exact .up hfolder (ih hstop)
  | into hfolder hname hsub _ ih => exact .into hfolder hname hsub (ih hstop)
  | link hfolder hname hat _ =>
    cases hstop
    exact .link hfolder hname hat fun hnil => absurd (List.append_eq_nil_iff.mp hnil).2 hmore
  | beside _ _ _ hfollow => cases hfollow

/-- A walk along names and more names is one along the names and then one along the others, unless
it stops at a link before. -/
theorem split (h : Walks view follow folder (names ++ more) stop) (hmore : more ≠ []) :
    (∃ q, Walks view true folder names (.arrived q) ∧ Walks view follow q more stop) ∨
      ∃ g target rest, stop = .atLink g target (rest ++ more) ∧
        Walks view true folder names (.atLink g target rest) := by
  induction names generalizing folder with
  | nil => exact .inl ⟨folder, .here, h⟩
  | cons name rest ih =>
    rw [List.cons_append] at h
    generalize hall : rest ++ more = all at h ih
    have hne : all ≠ [] := by simp [← hall, hmore]
    cases h with
    | dot hfolder h =>
      exact (ih h).imp (fun ⟨q, h, hrest⟩ => ⟨q, .dot hfolder h, hrest⟩)
        fun ⟨g, target, rest, hstop, h⟩ => ⟨g, target, rest, hstop, .dot hfolder h⟩
    | up hfolder h =>
      exact (ih h).imp (fun ⟨q, h, hrest⟩ => ⟨q, .up hfolder h, hrest⟩)
        fun ⟨g, target, rest, hstop, h⟩ => ⟨g, target, rest, hstop, .up hfolder h⟩
    | into hfolder hname hsub h =>
      exact (ih h).imp (fun ⟨q, h, hrest⟩ => ⟨q, .into hfolder hname hsub h, hrest⟩)
        fun ⟨g, target, rest, hstop, h⟩ => ⟨g, target, rest, hstop, .into hfolder hname hsub h⟩
    | link hfolder hname hlink _ =>
      exact .inr ⟨_, _, rest, by rw [hall], .link hfolder hname hlink fun _ => rfl⟩
    | beside | file | nothing => exact absurd rfl hne

theorem eq_of_dot (h : Walks view follow folder ["."] stop) : stop = .arrived folder := by
  generalize hdot : "." = dot at h
  cases h with
  | dot _ h =>
    cases h
    rfl
  | up => exact absurd hdot (by decide)
  | into _ hname | link _ hname | beside _ hname | file _ hname | nothing _ hname =>
    exact absurd hdot.symm hname.notDot

end Walks

/-! ## Walks and links -/

/-- The names to go on with at a link. -/
def linkNames (target : String) (rest : List String) : List String :=
  Path.names target ++ (if Path.endsInSlash target then ["."] else []) ++ rest

/-- The folder to go on from at a link. -/
def linkBase (folder : List String) (target : String) : List String :=
  if Path.isAbsolute target then [] else folder

section

variable {top top' : Folder} {follow : Bool} {links : Nat} {folder names p : List String}

theorem travel_arrived (h : Walks top.look follow folder names (.arrived p)) :
    travel top follow (links + 1) folder names = .ok p := by
  rw [travel, walk_eq_ok_iff.mpr h]

theorem travel_link {g rest : List String} {target : String}
    (h : Walks top.look follow folder names (.atLink g target rest)) :
    travel top follow (links + 1) folder names =
      travel top follow links (linkBase g target) (linkNames target rest) := by
  rw [travel, walk_eq_ok_iff.mpr h]
  rfl

/-- A travel that ends was a walk, or a walk up to a link and a travel from there. -/
theorem travel_eq_ok (h : travel top follow (links + 1) folder names = .ok p) :
    Walks top.look follow folder names (.arrived p) ∨ ∃ g target rest,
      Walks top.look follow folder names (.atLink g target rest) ∧
      travel top follow links (linkBase g target) (linkNames target rest) = .ok p := by
  rw [travel] at h
  cases hwalk : walk top follow folder names with
  | error fault =>
    rw [hwalk] at h
    cases h
  | ok stop =>
    rw [hwalk] at h
    cases stop with
    | arrived q =>
      cases h
      exact .inl (walk_eq_ok_iff.mp hwalk)
    | atLink g target rest => exact .inr ⟨g, target, rest, walk_eq_ok_iff.mp hwalk, h⟩

theorem linkNames_append (target : String) (rest more : List String) :
    linkNames target (rest ++ more) = linkNames target rest ++ more := by
  simp [linkNames]

/-- Where more is to be seen, a travel that ends at something ends there too. -/
theorem travel_grown (h : travel top follow links folder names = .ok p)
    (hgrown : ∀ q e, top.look q = some e → top'.look q = some e) {e : Entry}
    (hp : top'.at? p = some e) (hlink : ∀ target, e ≠ .link target) :
    travel top' true links folder names = .ok p := by
  induction links generalizing folder names with
  | zero => cases h
  | succ links ih =>
    obtain hwalk | ⟨g, target, rest, hwalk, h⟩ := travel_eq_ok h
    · refine travel_arrived (hwalk.grown hgrown ?_)
      rintro _ ⟨⟩
      refine ⟨e.shallow, by rw [Folder.look, hp]; rfl, ?_, by cases e <;> rfl⟩
      cases e with
      | link target => exact absurd rfl (hlink target)
      | file _ | folder _ => nofun
    · rw [travel_link (hwalk.grown hgrown nofun)]
      exact ih h

/-- Where a travel ends at something, one that does not follow a last link does too. -/
theorem travel_beside (h : travel top true links folder names = .ok p)
    (hp : (top.look p).isSome = true) :
    ∃ q, travel top false links folder names = .ok q ∧ (top.look q).isSome = true := by
  induction links generalizing folder names with
  | zero => cases h
  | succ links ih =>
    obtain hwalk | ⟨g, target, rest, hwalk, h⟩ := travel_eq_ok h
    · obtain hfalse | ⟨_, _, _, hstop, _⟩ := hwalk.beside_link
      · exact ⟨p, travel_arrived hfalse, hp⟩
      · cases hstop
    · obtain hfalse | ⟨g', name, target', _, hlink, hfalse⟩ := hwalk.beside_link
      · obtain ⟨q, hq, hsome⟩ := ih h
        exact ⟨q, (travel_link hfalse).trans hq, hsome⟩
      · exact ⟨_, travel_arrived hfalse, by rw [hlink]; rfl⟩

/-- A travel that ends does so with any more links. -/
theorem travel_more {result : Except DiskFault (List String)}
    (h : travel top follow links folder names = result) (hresult : result ≠ .error .tooManyLinks)
    (more : Nat) : travel top follow (links + more) folder names = result := by
  induction links generalizing folder names with
  | zero => exact absurd h.symm hresult
  | succ links ih =>
    rw [Nat.succ_add, travel]
    rw [travel] at h
    cases hwalk : walk top follow folder names with
    | error fault =>
      rw [hwalk] at h
      exact h
    | ok stop =>
      rw [hwalk] at h
      cases stop with
      | arrived q => exact h
      | atLink g target rest => exact ih h

/-- The way to a place leads through a folder. -/
theorem travel_split (h : travel top follow links folder (names ++ more) = .ok p)
    (hmore : more ≠ []) :
    ∃ q links', travel top true links folder names = .ok q ∧ View.FolderAt top.look q ∧
      travel top follow links' q more = .ok p := by
  induction links generalizing folder names with
  | zero => cases h
  | succ links ih =>
    obtain hwalk | ⟨g, target, rest, hwalk, h⟩ := travel_eq_ok h
    · obtain ⟨q, hnames, hrest⟩ | ⟨_, _, _, hstop, _⟩ := hwalk.split hmore
      · exact ⟨q, 1, travel_arrived hnames, hrest.folderAt hmore, travel_arrived hrest⟩
      · cases hstop
    · obtain ⟨q, hnames, hrest⟩ | ⟨_, _, rest', hstop, hnames⟩ := hwalk.split hmore
      · exact ⟨q, links + 1, travel_arrived hnames, hrest.folderAt hmore,
          (travel_link hrest).trans h⟩
      · cases hstop
        rw [travel_link hnames]
        exact ih (linkNames_append _ _ _ ▸ h)

/-- A travel whose last name is a single dot ends in a folder, and does so without the dot. -/
theorem travel_of_dot (h : travel top true links folder (names ++ ["."]) = .ok p) :
    travel top true links folder names = .ok p ∧ View.FolderAt top.look p := by
  obtain ⟨q, links', hnames, hfolder, hdot⟩ := travel_split h (by simp)
  cases links' with
  | zero => cases hdot
  | succ links' =>
    obtain hwalk | ⟨g, target, rest, hwalk, -⟩ := travel_eq_ok hdot
    · cases hwalk.eq_of_dot
      exact ⟨hnames, hfolder⟩
    · cases hwalk.eq_of_dot

/-- A walk goes on from the folder where its first part arrived. -/
theorem walk_append {stop : Stop} (h : Walks top.look true folder names stop)
    (hstop : stop = .arrived p) (hp : View.FolderAt top.look p) :
    walk top follow folder (names ++ more) = walk top follow p more := by
  induction h with
  | here =>
    cases hstop
    rfl
  | dot hfolder _ ih => exact (walk_dot hfolder).trans (ih hstop)
  | up hfolder _ ih => exact (walk_up hfolder).trans (ih hstop)
  | into hfolder hname hsub _ ih =>
    rw [List.cons_append, walk_plain hfolder hname, hsub]
    exact ih hstop
  | link => cases hstop
  | beside _ _ _ hfollow => cases hfollow
  | file _ _ hfile =>
    cases hstop
    cases hfile.symm.trans hp
  | nothing _ _ hnone =>
    cases hstop
    cases hnone.symm.trans hp

/-- From a folder, a travel goes on with the links that are left. -/
theorem travel_append {more : List String} (h : travel top true links folder names = .ok p)
    (hp : View.FolderAt top.look p) (hmore : more ≠ []) : ∃ left,
      travel top follow links folder (names ++ more) = travel top follow (left + 1) p more := by
  induction links generalizing folder names with
  | zero => cases h
  | succ links ih =>
    obtain hwalk | ⟨g, target, rest, hwalk, h⟩ := travel_eq_ok h
    · exact ⟨links, by rw [travel, travel, walk_append hwalk rfl hp]⟩
    · rw [travel_link (hwalk.append_link rfl hmore), linkNames_append]
      exact ih h

/-- From a folder, a travel goes on to a file in it. -/
theorem travel_file {name : String} {content : Content}
    (h : travel top true links folder names = .ok p) (hp : View.FolderAt top.look p)
    (hname : Plain name) (hfile : top.look (p ++ [name]) = some (.file content)) :
    travel top follow links folder (names ++ [name]) = .ok (p ++ [name]) := by
  obtain ⟨left, hleft⟩ := travel_append h hp (List.cons_ne_nil name [])
  exact hleft.trans (travel_arrived (.file hp hname hfile))

/-- A file stands where something else than a folder was, and all else is as before. -/
structure Replaced (top top' : Folder) (place : List String) : Prop where
  before : ¬View.FolderAt top.look place
  file : ∃ content, top'.look place = some (.file content)
  same : ∀ q, q ≠ place → top'.look q = top.look q

theorem Replaced.folderAt (h : Replaced top top' place) (hfolder : View.FolderAt top.look folder) :
    View.FolderAt top'.look folder := by
  have hne : folder ≠ place := by
    rintro rfl
    exact h.before hfolder
  rw [View.FolderAt, h.same folder hne]
  exact hfolder

/-- A walk stays as it is, or the file has taken the place of the link it stopped at, and it cannot
go on. -/
theorem Walks.replaced {stop : Stop} (hr : Replaced top top' place)
    (h : Walks top.look true folder names stop) :
    Walks top'.look true folder names stop ∨
      (∃ target rest, stop = .atLink place.dropLast target rest ∧
        top.look place = some (.link target)) ∧
      ∀ follow more, more ≠ [] → walk top' follow folder (names ++ more) = .error .notFolder := by
  induction h with
  | here => exact .inl .here
  | dot hfolder _ ih =>
    have hfolder := hr.folderAt hfolder
    exact ih.imp (.dot hfolder) (.imp_right fun h follow more hmore =>
      (walk_dot hfolder).trans (h _ _ hmore))
  | up hfolder _ ih =>
    have hfolder := hr.folderAt hfolder
    exact ih.imp (.up hfolder) (.imp_right fun h follow more hmore =>
      (walk_up hfolder).trans (h _ _ hmore))
  | into hfolder hname hsub _ ih =>
    have hfolder := hr.folderAt hfolder
    have hsub := hr.folderAt hsub
    refine ih.imp (.into hfolder hname hsub) (.imp_right fun h follow more hmore => ?_)
    rw [List.cons_append, walk_plain hfolder hname, hsub]
    exact h follow more hmore
  | @link folder rest name target hfolder hname hlink hrest =>
    have hfolder := hr.folderAt hfolder
    by_cases hplace : folder ++ [name] = place
    · obtain ⟨content, hfile⟩ := hr.file
      refine .inr ⟨⟨target, rest, ?_, hplace ▸ hlink⟩, fun follow more hmore => ?_⟩
      · rw [← hplace, List.dropLast_concat]
      · rw [List.cons_append, walk_plain hfolder hname, hplace, hfile]
        exact if_neg (by simp [hmore])
    · exact .inl (.link hfolder hname ((hr.same _ hplace).trans hlink) hrest)
  | beside _ _ _ hfollow => cases hfollow
  | @file folder name _ hfolder hname hfile =>
    have hfolder := hr.folderAt hfolder
    by_cases hplace : folder ++ [name] = place
    · obtain ⟨content, hnew⟩ := hr.file
      exact .inl (.file hfolder hname (hplace ▸ hnew))
    · exact .inl (.file hfolder hname ((hr.same _ hplace).trans hfile))
  | @nothing folder name hfolder hname hnone =>
    have hfolder := hr.folderAt hfolder
    by_cases hplace : folder ++ [name] = place
    · obtain ⟨content, hnew⟩ := hr.file
      exact .inl (.file hfolder hname (hplace ▸ hnew))
    · exact .inl (.nothing hfolder hname ((hr.same _ hplace).trans hnone))

/-- There is a link that a travel to a place goes on from. -/
def Through (top : Folder) (link p : List String) : Prop :=
  ∃ links target rest, top.look link = some (.link target) ∧
    travel top true links (linkBase link.dropLast target) (linkNames target rest) = .ok p

/-- A link that a travel to a folder goes on from leads to a folder itself. -/
theorem Through.leads {name : String} (h : Through top (place ++ [name]) p)
    (hp : View.FolderAt top.look p) (hplace : View.FolderAt top.look place) (hname : Plain name) :
    ∃ links q, travel top true links place [name] = .ok q ∧ View.FolderAt top.look q := by
  obtain ⟨links, target, rest, hlink, h⟩ := h
  rw [List.dropLast_concat] at h
  have hwalk : Walks top.look true place [name] (.atLink place target []) :=
    .link hplace hname hlink fun _ => rfl
  by_cases hrest : rest = []
  · subst hrest
    exact ⟨links + 1, p, (travel_link hwalk).trans h, hp⟩
  · rw [← List.nil_append rest, linkNames_append] at h
    obtain ⟨q, _, hq, hfolder, -⟩ := travel_split h hrest
    exact ⟨links + 1, q, (travel_link hwalk).trans hq, hfolder⟩

/-- A travel stays as it is, or the file has taken the place of a link it went on from, and it
cannot go on. -/
theorem travel_replaced (hr : Replaced top top' place)
    (h : travel top true links folder names = .ok p) :
    travel top' true links folder names = .ok p ∨ Through top place p ∧ ∀ follow more, more ≠ [] →
      travel top' follow links folder (names ++ more) = .error .notFolder := by
  induction links generalizing folder names with
  | zero => cases h
  | succ links ih =>
    obtain hwalk | ⟨g, target, rest, hwalk, h⟩ := travel_eq_ok h
    · obtain hsame | ⟨⟨_, _, hstop, -⟩, -⟩ := hwalk.replaced hr
      · exact .inl (travel_arrived hsame)
      · cases hstop
    · obtain hwalk | ⟨⟨_, _, hstop, hlink⟩, hblocked⟩ := hwalk.replaced hr
      · refine (ih h).imp (travel_link hwalk).trans
          (.imp_right fun hblocked follow more hmore => ?_)
        rw [travel_link (hwalk.append_link rfl hmore), linkNames_append]
        exact hblocked follow more hmore
      · cases hstop
        refine .inr ⟨⟨links, target, rest, hlink, h⟩, fun follow more hmore => ?_⟩
        rw [travel, hblocked follow more hmore]

/-- Putting a file where no folder is replaces what was there. -/
theorem replaced_putAt {name : String} (hplace : View.FolderAt top.look place)
    (hbefore : ¬View.FolderAt top.look (place ++ [name])) (content : Content) :
    Replaced top (top.putAt (place ++ [name]) (.file content)) (place ++ [name]) := by
  obtain ⟨entries, hentries⟩ := Folder.look_eq_folder.mp hplace
  have hfile : (top.putAt (place ++ [name]) (.file content)).look (place ++ [name]) =
      some (.file content) := by
    rw [Folder.look, Folder.at?_putAt hentries]
    rfl
  refine ⟨hbefore, ⟨content, hfile⟩, fun q hq => ?_⟩
  by_cases hbelow : place ++ [name] <+: q
  · obtain ⟨rest, rfl⟩ := hbelow
    have hrest : rest ≠ [] := fun hnil => hq (by simp [hnil])
    rw [Folder.look_below hrest hbefore, Folder.look_below hrest (by simp [hfile])]
  · exact Folder.look_putAt hbelow _

end

end Disk

end Mutagenesis
