import Mutagenesis.Proofs.DiskActions

/-!
# Changes inside a folder

Putting an entry at a path and taking one away both change the folder that holds the entry
(`Folder.within`). Such a change is seen at and below that folder only (`look_within`), and it keeps
what holds of folders entry by entry (`Entrywise.within`). The folder that holds what a path names
has a shorter path (`Path.names_parent?`).
-/

set_option autoImplicit false

namespace Mutagenesis

namespace Folder

/-- Something holds of folders entry by entry: it stays so when an entry is put that fits, if it
holds of what is in the entry, and all entries are such. -/
structure Entrywise (good : Folder → Prop) (fits : String → Entry → Prop) : Prop where
  put : ∀ f name e, good f → fits name e.shallow → (∀ c, e = .folder c → good c) →
    good (f.put name e)
  child : ∀ f name e, good f → f.child? name = some e →
    fits name e.shallow ∧ ∀ c, e = .folder c → good c

/-- Changes the folder at a path, if there is one. -/
def within (f : Folder) (path : List String) (change : Folder → Folder) : Folder :=
  match path with
  | [] => change f
  | name :: rest =>
    match f.child? name with
    | some (.folder children) => f.put name (.folder (children.within rest change))
    | _ => f

section

variable {f c : Folder} {place path : List String} {name : String} {change : Folder → Folder}

/-- Putting an entry at a path is putting it in the folder there. -/
theorem putAt_eq_within (f : Folder) (place : List String) (name : String) (e : Entry) :
    f.putAt (place ++ [name]) e = f.within place (put name e) := by
  induction place generalizing f with
  | nil => rfl
  | cons next rest ih =>
    obtain ⟨a, as, has⟩ : ∃ a as, rest ++ [name] = a :: as :=
      List.exists_cons_of_ne_nil (by simp)
    rw [List.cons_append, within, has, putAt]
    · cases f.child? next with
      | none => rfl
      | some found =>
        cases found with
        | folder children =>
          dsimp only
          rw [← has, ih]
        | file _ | link _ => rfl
    · simp

/-- Removing an entry at a path is removing it from the folder there. -/
theorem eraseAt_eq_within (f : Folder) (place : List String) (name : String) :
    f.eraseAt (place ++ [name]) = f.within place (erase name) := by
  induction place generalizing f with
  | nil => rfl
  | cons next rest ih =>
    obtain ⟨a, as, has⟩ : ∃ a as, rest ++ [name] = a :: as :=
      List.exists_cons_of_ne_nil (by simp)
    rw [List.cons_append, within, has, eraseAt]
    · cases f.child? next with
      | none => rfl
      | some found =>
        cases found with
        | folder children =>
          dsimp only
          rw [← has, ih]
        | file _ | link _ => rfl
    · simp

theorem within_append (f : Folder) (place rest : List String) (change : Folder → Folder) :
    f.within (place ++ rest) change = f.within place (·.within rest change) := by
  induction place generalizing f with
  | nil => rfl
  | cons name place ih =>
    rw [List.cons_append, within, within]
    split
    · rw [ih]
    · rfl

/-- What is at and below a folder that was changed. -/
theorem at?_within (h : f.at? place = some (.folder c)) (rest : List String) :
    (f.within place change).at? (place ++ rest) = (change c).at? rest := by
  induction place generalizing f with
  | nil =>
    cases h
    rfl
  | cons name place ih =>
    rw [at?_cons, Option.bind_eq_some_iff] at h
    obtain ⟨found, hfound, hrest⟩ := h
    cases found with
    | folder children =>
      rw [within, hfound, List.cons_append, at?_cons, child?_put, if_pos rfl]
      exact ih hrest
    | file _ | link _ => cases place <;> cases hrest

/-- A change to a folder is seen where it is seen from the folder. -/
theorem look_within (rest : List String) (h : ∀ c : Folder, (change c).look rest = c.look rest) :
    (f.within place change).look (place ++ rest) = f.look (place ++ rest) := by
  induction place generalizing f with
  | nil => exact h f
  | cons name place ih =>
    rw [within]
    split
    · next children hfound =>
      have hrest := @ih children
      unfold look at hrest ⊢
      rw [List.cons_append, at?_cons, at?_cons, child?_put, if_pos rfl, hfound]
      exact hrest
    · rfl

/-- A change to a folder is seen at and below it only. -/
theorem look_within_beside (h : ¬place <+: path) :
    (f.within place change).look path = f.look path := by
  induction place generalizing f path with
  | nil => exact absurd List.nil_prefix h
  | cons name place ih =>
    cases path with
    | nil => rfl
    | cons next path =>
      rw [List.cons_prefix_cons, not_and] at h
      rw [within]
      split
      · next children hfound =>
        unfold look
        rw [at?_cons, at?_cons, child?_put]
        split
        · next heq =>
          subst heq
          rw [hfound]
          exact ih (h rfl)
        · rfl
      · rfl

theorem child?_erase {other : String} (h : name ≠ other) (f : Folder) :
    child? other (f.erase name) = f.child? other := by
  induction f with
  | empty => rfl
  | file n _ rest ih | link n _ rest ih | sub n _ rest _ ih =>
    unfold erase
    split
    · next hn => rw [child?, if_neg (by rw [hn]; exact h)]
    · rw [child?, child?, ih]

/-- An entry that is taken away changes nothing but what is there and below. -/
theorem look_eraseAt (h : ¬place ++ [name] <+: path) :
    (f.eraseAt (place ++ [name])).look path = f.look path := by
  rw [eraseAt_eq_within]
  by_cases hplace : place <+: path
  · obtain ⟨rest, rfl⟩ := hplace
    refine look_within rest fun c => ?_
    cases rest with
    | nil => rfl
    | cons next rest =>
      have hne : name ≠ next := by
        rintro rfl
        exact h ⟨rest, by simp⟩
      rw [look, look, at?_cons, at?_cons, child?_erase hne]
  · exact look_within_beside hplace

/-- A folder that is made where nothing was is all that changes. -/
theorem look_putAt_new (h : f.look (place ++ [name]) = none) (path : List String) :
    (f.putAt (place ++ [name]) (.folder .empty)).look path = f.look path ∨
      path = place ++ [name] ∧
        (f.putAt (place ++ [name]) (.folder .empty)).look path = some (.folder .empty) := by
  by_cases hbelow : place ++ [name] <+: path
  · obtain ⟨rest, rfl⟩ := hbelow
    by_cases hplace : f.look place = some (.folder .empty)
    · obtain ⟨entries, hentries⟩ := look_eq_folder.mp hplace
      have hat := at?_putAt hentries name (.folder .empty)
      cases rest with
      | nil =>
        rw [List.append_nil]
        exact .inr ⟨rfl, look_eq_folder.mpr ⟨_, hat⟩⟩
      | cons next rest =>
        have hold : f.look (place ++ [name] ++ next :: rest) = none :=
          look_below (List.cons_ne_nil _ _) (by simp [h])
        left
        rw [hold, look, at?_append, hat]
        cases rest <;> rfl
    · have hplace' : (f.putAt (place ++ [name]) (.folder .empty)).look place ≠
          some (.folder .empty) := by
        have hlonger : ¬place ++ [name] <+: place := fun hle =>
          Nat.not_succ_le_self _ (List.length_append ▸ hle.length_le)
        rwa [look_putAt hlonger]
      left
      rw [List.append_assoc, look_below (by simp) hplace, look_below (by simp) hplace']
  · exact .inl (look_putAt hbelow _)

theorem look_folder {children : Folder} (h : f.look path = some (.folder children)) :
    f.look path = some (.folder .empty) := by
  obtain ⟨e, he, hshallow⟩ := Option.map_eq_some_iff.mp h
  cases e with
  | folder entries => exact look_eq_folder.mpr ⟨_, he⟩
  | file _ | link _ => cases hshallow

/-- What holds a folder, at any distance, is a folder. -/
theorem look_of_prefix (h : f.look path = some (.folder .empty)) (hplace : place <+: path) :
    f.look place = some (.folder .empty) := by
  obtain ⟨rest, rfl⟩ := hplace
  by_cases hrest : rest = []
  · rwa [hrest, List.append_nil] at h
  · refine Classical.byContradiction fun hnot => ?_
    rw [look_below hrest hnot] at h
    cases h

end

/-! ## What holds entry by entry -/

section

variable {good : Folder → Prop} {fits : String → Entry → Prop} (h : Entrywise good fits)
  {f : Folder} (hf : good f)
include h hf

/-- What holds of a folder still does when it is kept in a folder in it. -/
theorem Entrywise.within {place : List String} {change : Folder → Folder}
    (hchange : ∀ c, good c → good (change c)) : good (f.within place change) := by
  induction place generalizing f with
  | nil => exact hchange f hf
  | cons name place ih =>
    rw [Folder.within]
    split
    · next children hfound =>
      obtain ⟨hname, hchildren⟩ := h.child f name _ hf hfound
      refine h.put f name _ hf hname ?_
      rintro _ ⟨⟩
      exact ih (hchildren children rfl)
    · exact hf

/-- What holds of a folder holds of the folders at the paths in it, and all that is there fits. -/
theorem Entrywise.at? {path : List String} {e : Entry} (hat : f.at? path = some e) :
    (path ≠ [] → ∃ name, fits name e.shallow) ∧ ∀ c, e = .folder c → good c := by
  induction path generalizing f with
  | nil =>
    cases hat
    refine ⟨fun hne => absurd rfl hne, ?_⟩
    rintro _ ⟨⟩
    exact hf
  | cons name path ih =>
    rw [at?_cons, Option.bind_eq_some_iff] at hat
    obtain ⟨found, hfound, hrest⟩ := hat
    obtain ⟨hname, hchildren⟩ := h.child f name found hf hfound
    cases path with
    | nil =>
      obtain rfl : found = e := by
        cases found <;> cases hrest <;> rfl
      exact ⟨fun _ => ⟨name, hname⟩, hchildren⟩
    | cons next path =>
      cases found with
      | folder children =>
        exact (ih (hchildren children rfl) hrest).imp_left fun h _ => h (List.cons_ne_nil _ _)
      | file _ | link _ => cases hrest

end

/-- Something holds of the name and the kind of every entry of a folder and of the folders in it. -/
def every (ok : String → Entry → Bool) : Folder → Bool
  | empty => true
  | file name content rest => ok name (.file content) && every ok rest
  | link name target rest => ok name (.link target) && every ok rest
  | sub name children rest => ok name (.folder .empty) && every ok children && every ok rest

section

variable {ok : String → Entry → Bool} {f : Folder} {name : String} {e : Entry}
  (hf : f.every ok = true)
include hf

/-- What holds of every entry still does when one is put for which it does. -/
theorem every_put (he : ok name e.shallow = true)
    (hchildren : ∀ c, e = .folder c → c.every ok = true) : (f.put name e).every ok = true := by
  have hcons (rest : Folder) (hrest : rest.every ok = true) :
      (cons name e rest).every ok = true := by
    cases e with
    | folder c => simp_all [cons, every, Entry.shallow]
    | file _ | link _ => simp_all [cons, every, Entry.shallow]
  induction f with
  | empty => exact hcons empty rfl
  | file n _ rest ih | link n _ rest ih | sub n _ rest _ ih =>
    simp only [every, Bool.and_eq_true] at hf
    unfold put
    split
    · exact hcons rest hf.2
    · simp only [every, Bool.and_eq_true]
      exact ⟨hf.1, ih hf.2⟩

/-- What holds of every entry still does when one is removed. -/
theorem every_erase : (f.erase name).every ok = true := by
  induction f with
  | empty => rfl
  | file n _ rest ih | link n _ rest ih | sub n _ rest _ ih =>
    simp only [every, Bool.and_eq_true] at hf
    unfold erase
    split
    · exact hf.2
    · simp only [every, Bool.and_eq_true]
      exact ⟨hf.1, ih hf.2⟩

/-- What holds of every entry holds of a child and of every entry in it. -/
theorem every_child? (h : f.child? name = some e) :
    ok name e.shallow = true ∧ ∀ c, e = .folder c → c.every ok = true := by
  induction f with
  | empty => cases h
  | file n _ rest ih | link n _ rest ih =>
    simp only [every, Bool.and_eq_true] at hf
    unfold child? at h
    split at h
    · next hn =>
      cases h
      exact ⟨hn ▸ hf.1, fun _ hfolder => by cases hfolder⟩
    · exact ih hf.2 h
  | sub n children rest _ ih =>
    simp only [every, Bool.and_eq_true] at hf
    unfold child? at h
    split at h
    · next hn =>
      cases h
      refine ⟨hn ▸ hf.1.1, ?_⟩
      rintro _ ⟨⟩
      exact hf.1.2
    · exact ih hf.2 h

end

theorem entrywise_every (ok : String → Entry → Bool) :
    Entrywise (·.every ok = true) (ok · · = true) :=
  ⟨fun _ _ _ => every_put, fun _ _ _ => every_child?⟩

end Folder

/-! ## Paths of holding folders -/

namespace Path

/-- The tail of a path that is left out ends with a slash. -/
theorem withoutTail_spec (cs : List Char) : ∃ tail, cs = tail ++ withoutTail cs ∧
    (tail = [] ∨ tail.getLast? = some '/') := by
  fun_induction withoutTail cs with
  | case1 rest ih =>
    obtain ⟨tail, hrest, htail⟩ := ih
    refine ⟨'/' :: tail, by rw [List.cons_append, ← hrest], .inr ?_⟩
    obtain rfl | hlast := htail
    · rfl
    · rw [List.getLast?_cons, hlast]
      rfl
  | case2 rest ih =>
    obtain ⟨tail, hrest, htail⟩ := ih
    refine ⟨'.' :: '/' :: tail, by rw [List.cons_append, List.cons_append, ← hrest], .inr ?_⟩
    obtain rfl | hlast := htail
    · rfl
    · rw [List.getLast?_cons, List.getLast?_cons, hlast]
      rfl
  | case3 cs => exact ⟨[], rfl, .inl rfl⟩

/-- The path of the folder that holds what a path names is a part of the path, before a slash. -/
theorem names_parent? {path parent : String} (h : parent? path = some parent) (hne : parent ≠ "") :
    isAbsolute parent = isAbsolute path ∧ names parent <+: names path := by
  obtain ⟨x, hx, -⟩ := withoutTail_spec path.toList.reverse
  unfold parent? at h
  generalize withoutTail path.toList.reverse = backwards at h hx
  split at h
  · cases h
  · have hsplit : backwards.takeWhile (· != '/') ++ backwards.dropWhile (· != '/') = backwards :=
      List.takeWhile_append_dropWhile
    have hnext := List.head?_dropWhile_not (· != '/') backwards
    dsimp only at h
    generalize backwards.takeWhile (· != '/') = y at *
    generalize backwards.dropWhile (· != '/') = before at *
    split at h
    · cases h
      exact absurd rfl hne
    · next hbefore =>
      obtain ⟨c, rest, rfl⟩ : ∃ c rest, before = c :: rest :=
        List.exists_cons_of_ne_nil (by simpa using hbefore)
      obtain rfl : c = '/' := by simpa using hnext
      -- What is left out after the folder's path starts with a slash.
      obtain ⟨z, hz⟩ : ∃ z, '/' :: rest = z ++ '/' :: withoutTail ('/' :: rest) := by
        obtain ⟨z, hz, hlast⟩ := withoutTail_spec rest
        rw [withoutTail]
        obtain rfl | hlast := hlast
        · exact ⟨[], by rw [List.nil_append]; exact congrArg _ hz⟩
        · obtain ⟨z, rfl⟩ := List.getLast?_eq_some_iff.mp hlast
          exact ⟨'/' :: z, by rw [List.cons_append, List.append_cons, ← hz]⟩
      generalize withoutTail ('/' :: rest) = w at h hz
      obtain ⟨more, hmore⟩ : ∃ more, path.toList = w.reverse ++ '/' :: more := by
        refine ⟨(x ++ y ++ z).reverse, ?_⟩
        rw [← List.reverse_reverse path.toList, hx, ← hsplit, hz]
        simp
      split at h
      · next hempty =>
        obtain rfl := List.isEmpty_iff.mp hempty
        cases h
        exact ⟨by simp [isAbsolute, hmore], List.nil_prefix⟩
      · next hempty =>
        cases h
        have hpath : path = String.ofList w.reverse ++ "/" ++ String.ofList more := by
          rw [← String.toList_inj]
          simp [hmore]
        refine ⟨?_, ?_⟩
        · cases hw : w.reverse with
          | nil => simp_all
          | cons c cs => simp [isAbsolute, hmore, hw]
        · rw [hpath, names_slash]
          exact List.prefix_append ..

end Path

end Mutagenesis
