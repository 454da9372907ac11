import Mutagenesis.Local
import Mutagenesis.Proofs.Action
import Mutagenesis.Proofs.DiskActions
import Mutagenesis.Proofs.JsonForms
import Mutagenesis.Proofs.JsonText

/-!
# Records of snapshots outlive the backend

The text of the records is decoded to them, in their order and with every field, if their names
differ (`decodeState_text`). Each call that changes the records and succeeds leaves them on the disk
(`RecordCall.recorded`), so that a backend that is opened there again holds them.
-/

set_option autoImplicit false

namespace Mutagenesis

/-! ## The text of the records -/

/-- Records whose names differ are all kept. -/
theorem Roster.ofList_of_nodup {α κ : Type} [DecidableEq κ] {key : α → κ} {entries : List α}
    (h : (entries.map key).Nodup) : ofList key entries = entries := by
  have hput : ∀ x sofar, (∀ y ∈ sofar, key y ≠ key x) → put key x sofar = sofar ++ [x] :=
    fun x sofar hnew => put_of_absent (find?_eq_none_iff.mpr (by simpa using hnew))
  exact Json.foldl_put_of_increasing hput (List.pairwise_map.mp h)

theorem Roster.nodup_ofList {α κ : Type} [DecidableEq κ] {key : α → κ} (entries : List α) :
    ((ofList key entries).map key).Nodup := by
  suffices h : ∀ sofar : List α, (sofar.map key).Nodup →
      ((entries.foldl (fun sofar x => put key x sofar) sofar).map key).Nodup from h [] .nil
  induction entries with
  | nil => exact fun _ h => h
  | cons x rest ih => exact fun sofar h => ih _ (nodup_keys_put x h)

namespace Json

theorem readable_strings (values : List String) {depth : Nat} (h : 1 < depth) :
    Readable .everything depth (.strings values) := by
  have hitems : ∀ index, ReadableItems .everything index (depth - 1) (values.map .string) := by
    induction values with
    | nil => exact fun _ => trivial
    | cons value rest ih => exact fun index => ⟨trivial, ih (index + 1)⟩
  exact ⟨h, hitems 0⟩

/-- The form of a snapshot can be written and read. -/
theorem readable_snapshot (s : Snapshot) {depth : Nat} (h : 2 < depth) :
    Readable Snapshot.shape.want depth s.toJson := by
  have hoption : ∀ {value : Option String} {j : Json}, value.map .string = some j →
      Readable .everything (depth - 1) j := by
    intro value j hj
    obtain ⟨_, -, rfl⟩ := Option.map_eq_some_iff.mp hj
    trivial
  have hlist : ∀ {values : List String} {j : Json}, Snapshot.unlessEmpty values = some j →
      Readable .everything (depth - 1) j := by
    intro values j hj
    unfold Snapshot.unlessEmpty at hj
    split at hj
    · cases hj
    · cases hj
      exact readable_strings values (by omega)
  have hfields : ∀ p ∈ s.fields, ∀ j, p.2 = some j →
      ∃ w, Snapshot.shape.want.field? p.1 = some w ∧ Readable w (depth - 1) j := by
    simp only [Snapshot.fields, List.forall_mem_cons]
    refine ⟨?_, ?_, ?_, ?_, ?_, ?_, ?_, ?_, ?_, by simp⟩ <;> intro j hj
    · cases hj; exact ⟨_, rfl, trivial⟩
    · cases hj; exact ⟨_, rfl, trivial⟩
    · exact ⟨_, rfl, hoption hj⟩
    · cases hj; exact ⟨_, rfl, trivial⟩
    · exact ⟨_, rfl, hlist hj⟩
    · exact ⟨_, rfl, hoption hj⟩
    · exact ⟨_, rfl, hoption hj⟩
    · exact ⟨_, rfl, hoption hj⟩
    · exact ⟨_, rfl, hlist hj⟩
  rw [Snapshot.toJson_eq]
  refine ⟨by omega, readableFields_of_forall fun p hp => ?_⟩
  exact hfields (p.1, some p.2) (mem_present.mp hp) p.2 rfl

end Json

namespace LocalStore

variable {m : List Snapshot}

/-- Records are read back from their form. -/
theorem decodeState_form (h : (m.map Snapshot.name).Nodup) : decodeState (stateJson m) = .ok m := by
  have hlist : Json.decodeList Snapshot.decode (.array (m.map Snapshot.toJson)) = .ok m :=
    Json.decodeList_form Json.rearranges_id fun s _ => Snapshot.decode_form Json.rearranges_id s
  obtain ⟨record, hread, hlookup⟩ := Json.Shape.readIn_rearranged Json.rearranges_id stateShape
    false [("snapshots", .array (m.map Snapshot.toJson))] (by simp)
    (List.forall_mem_singleton.mpr ⟨_, rfl, Json.Field.check_optionalWith hlist⟩)
    (by simp [stateShape, Json.Field.optionalWith])
  rw [decodeState, stateJson, Json.Shape.read]
  change (Json.Shape.readIn stateShape false (id _) >>= _) = _
  rw [hread, Except.ok_bind, Json.Record.getD_eq (hlookup "snapshots") hlist]
  exact congrArg Except.ok (Roster.ofList_of_nodup h)

/-- The text of records with different names is decoded to them. -/
theorem decodeState_text (h : (m.map Snapshot.name).Nodup) (path : String) :
    decodeDocument path (stateJson m).pretty stateWant decodeState = .ok m := by
  have hreadable : Json.Readable stateWant Json.depthLimit (stateJson m) := by
    refine ⟨by decide, ⟨_, rfl, by decide, Json.readableItems_list fun j hj => ?_⟩, trivial⟩
    obtain ⟨s, -, rfl⟩ := List.mem_map.mp hj
    exact Json.readable_snapshot s (by decide)
  have hdocument := decodeDocument_pretty hreadable (decodeState_form h) path
    (show ∀ c ∈ ("" : String).toList, Json.isSpace c = true by simp)
  rwa [String.append_empty] at hdocument

theorem nodup_decodeState {j : Json} (h : decodeState j = .ok m) : (m.map Snapshot.name).Nodup := by
  obtain ⟨_, -, h⟩ := Except.bind_eq_ok_iff.mp h
  obtain ⟨_, -, h⟩ := Except.bind_eq_ok_iff.mp h
  cases h
  exact Roster.nodup_ofList _

/-! ## What operations of the backend do -/

variable {s s' : LocalStore}

/-- What an action on the disk does when it succeeds. -/
theorem onDisk_eq_ok_iff {α : Type} {doing : String} {act : DiskAction α} {a : α} :
    onDisk doing act s = .ok a s' ↔ ∃ d, act s.disk = .ok a d ∧ s' = { s with disk := d } := by
  unfold onDisk
  cases act s.disk with
  | ok b d =>
    constructor
    · intro h
      cases h
      exact ⟨d, rfl, rfl⟩
    · rintro ⟨d', hact, rfl⟩
      cases hact
      rfl
  | error fault d => exact ⟨nofun, nofun⟩

/-- The path of the folder of images. -/
def imagesPath (root : String) : String :=
  Path.join root "images"

/-- The path of the folder of containers. -/
def containersPath (root : String) : String :=
  Path.join root "containers"

/-- The backend is opened when its folders are there and its records can be read. -/
theorem prepare_eq_ok_iff : prepare s = .ok () s' ↔ ∃ d₁ d₂ m,
    Disk.makeFolders (imagesPath s.root) s.disk = .ok () d₁ ∧
    Disk.makeFolders (containersPath s.root) d₁ = .ok () d₂ ∧
    loadSnapshots d₂ s.root = .ok m ∧ s' = { s with disk := d₂, snapshots := m } := by
  constructor
  · intro h
    obtain ⟨_, _, hget, h⟩ := Action.bind_eq_ok_iff.mp h
    cases hget
    obtain ⟨_, s₁, hfirst, h⟩ := Action.bind_eq_ok_iff.mp h
    obtain ⟨d₁, himages, rfl⟩ := onDisk_eq_ok_iff.mp hfirst
    obtain ⟨_, s₂, hsecond, h⟩ := Action.bind_eq_ok_iff.mp h
    obtain ⟨d₂, hcontainers, rfl⟩ := onDisk_eq_ok_iff.mp hsecond
    obtain ⟨_, _, hget, h⟩ := Action.bind_eq_ok_iff.mp h
    cases hget
    obtain ⟨m, _, hthird, h⟩ := Action.bind_eq_ok_iff.mp h
    obtain ⟨hload, rfl⟩ := Action.ofExcept_eq_ok_iff.mp hthird
    cases h
    exact ⟨d₁, d₂, m, himages, hcontainers, hload, rfl⟩
  · rintro ⟨d₁, d₂, m, himages, hcontainers, hload, rfl⟩
    refine Action.bind_eq_ok_iff.mpr ⟨s, s, rfl, ?_⟩
    refine Action.bind_eq_ok_iff.mpr ⟨(), _, onDisk_eq_ok_iff.mpr ⟨d₁, himages, rfl⟩, ?_⟩
    refine Action.bind_eq_ok_iff.mpr ⟨(), _, onDisk_eq_ok_iff.mpr ⟨d₂, hcontainers, rfl⟩, ?_⟩
    refine Action.bind_eq_ok_iff.mpr ⟨_, _, rfl, ?_⟩
    exact Action.bind_eq_ok_iff.mpr ⟨m, _, Action.ofExcept_eq_ok_iff.mpr ⟨hload, rfl⟩, rfl⟩

/-- Records that are written are in the file, and only the disk has changed. -/
theorem saveSnapshots_ok (h : saveSnapshots s = .ok () s') : ∃ d,
    Disk.replaceFile s.root stateFile (stateJson s.snapshots).pretty s.disk = .ok () d ∧
      s' = { s with disk := d } := by
  unfold saveSnapshots at h
  dsimp only at h
  split at h
  · next hreplace =>
    cases h
    exact ⟨_, hreplace, rfl⟩
  · cases h

theorem clearImage_ok {folder : String} (h : clearImage folder s = .ok () s') :
    ∃ d, s' = { s with disk := d } := by
  obtain ⟨_, _, hget, h⟩ := Action.bind_eq_ok_iff.mp h
  cases hget
  split at h
  · obtain ⟨d, -, rfl⟩ := onDisk_eq_ok_iff.mp h
    exact ⟨d, rfl⟩
  · cases h
    exact ⟨s.disk, rfl⟩

/-! ## Records on the disk -/

theorem fileName_stateFile : Disk.FileName stateFile :=
  ⟨⟨by decide, by decide, by decide⟩, by decide, by decide, by decide⟩

/-- Records that are loaded have different names. -/
theorem loadSnapshots_ok {d : Disk} {root : String} (h : loadSnapshots d root = .ok m) :
    (m.map Snapshot.name).Nodup ∧ d.Free (statePath root) := by
  unfold loadSnapshots at h
  dsimp only at h
  cases htext : d.text (statePath root) with
  | ok text =>
    rw [htext] at h
    obtain ⟨j, hdecode⟩ := decodeDocument_ok h
    exact ⟨nodup_decodeState hdecode, .inl ⟨text, htext⟩⟩
  | error fault =>
    rw [htext] at h
    cases fault
    case noEntry =>
      cases h
      exact ⟨.nil, .inr htext⟩
    all_goals cases h

theorem loadSnapshots_of_text {d : Disk} {root : String}
    (h : d.text (statePath root) = .ok (stateJson m).pretty)
    (hdistinct : (m.map Snapshot.name).Nodup) : loadSnapshots d root = .ok m := by
  rw [loadSnapshots, h]
  exact decodeState_text hdistinct _

/-- The records in memory are those that a backend loads if it can be opened on the same disk. -/
structure Recorded (s : LocalStore) : Prop where
  distinct : (s.snapshots.map Snapshot.name).Nodup
  loaded : ∀ d₁ d₂, Disk.makeFolders (imagesPath s.root) s.disk = .ok () d₁ →
    Disk.makeFolders (containersPath s.root) d₁ = .ok () d₂ →
    loadSnapshots d₂ s.root = .ok s.snapshots

/-- Records that were saved are loaded by a backend that can be opened. -/
theorem recorded_of_save (h : saveSnapshots s = .ok () s')
    (hdistinct : (s.snapshots.map Snapshot.name).Nodup) : Recorded s' := by
  obtain ⟨d, hreplace, rfl⟩ := saveSnapshots_ok h
  refine ⟨hdistinct, fun d₁ d₂ himages hcontainers => ?_⟩
  obtain htext | ⟨-, hblocked⟩ := Disk.text_or_blocked fileName_stateFile hreplace
  · have hgrown : Disk.Grown d d₂ :=
      (Disk.makeFoldersWithin_ok himages).1.trans (Disk.makeFoldersWithin_ok hcontainers).1
    exact loadSnapshots_of_text (Disk.text_grown htext hgrown) hdistinct
  · exact absurd himages (Disk.makeFolders_blocked (Path.endsInSlash_join s.root (by decide))
      (Path.join_ne_empty s.root (by decide)) (hblocked "images" (by decide) (by decide)))

/-- The folders of the backend are there, and its records are on the disk. -/
structure Steady (s : LocalStore) : Prop where
  images : s.disk.hasFolder (imagesPath s.root) = true
  containers : s.disk.hasFolder (containersPath s.root) = true
  loaded : loadSnapshots s.disk s.root = .ok s.snapshots

theorem makeFolders_there {root inner : String} {d : Disk} (hinner : inner ≠ "")
    (hslash : Path.endsInSlash inner = false) (h : d.hasFolder (Path.join root inner) = true) :
    Disk.makeFolders (Path.join root inner) d = .ok () d :=
  Disk.makeFolders_of_hasFolder ((Path.endsInSlash_join root hinner).trans hslash) h

theorem Steady.recorded (h : Steady s) : Recorded s := by
  refine ⟨(loadSnapshots_ok h.loaded).1, fun d₁ d₂ himages hcontainers => ?_⟩
  cases (makeFolders_there (by decide) (by decide) h.images).symm.trans himages
  cases (makeFolders_there (by decide) (by decide) h.containers).symm.trans hcontainers
  exact h.loaded

theorem Recorded.steady (h : Recorded s) (himages : s.disk.hasFolder (imagesPath s.root) = true)
    (hcontainers : s.disk.hasFolder (containersPath s.root) = true) : Steady s :=
  ⟨himages, hcontainers, h.loaded s.disk s.disk (makeFolders_there (by decide) (by decide) himages)
    (makeFolders_there (by decide) (by decide) hcontainers)⟩

/-- A backend that was opened is steady. -/
theorem steady_of_prepare (h : prepare s = .ok () s') : Steady s' := by
  obtain ⟨d₁, d₂, m, himages, hcontainers, hload, rfl⟩ := prepare_eq_ok_iff.mp h
  have hmade : ∀ {inner : String} {d d' : Disk}, Path.isAbsolute inner = false →
      Path.names inner ≠ [] → inner ≠ "" → Path.endsInSlash inner = false →
      Disk.makeFolders (Path.join s.root inner) d = .ok () d' →
      d'.hasFolder (Path.join s.root inner) = true := by
    intro inner d d' hinner hnames hne hslash hmake
    refine (Disk.makeFoldersWithin_ok hmake).2 ?_ ((Path.endsInSlash_join s.root hne).trans hslash)
    rw [Path.names_join s.root hinner]
    exact List.append_ne_nil_of_right_ne_nil _ hnames
  refine ⟨Disk.hasFolder_grown ?_ (Disk.makeFoldersWithin_ok hcontainers).1, ?_, hload⟩
  · exact hmade (by decide) (by decide) (by decide) (by decide) himages
  · exact hmade (by decide) (by decide) (by decide) (by decide) hcontainers

/-- Saving records keeps the folders, if the records could be loaded before. -/
theorem steady_of_save (hs : Steady s) (h : saveSnapshots { s with snapshots := m } = .ok () s')
    (hdistinct : (m.map Snapshot.name).Nodup) : Steady s' := by
  obtain ⟨d, hreplace, rfl⟩ := saveSnapshots_ok h
  obtain ⟨htext, hfolders⟩ := Disk.kept_of_replaceFile fileName_stateFile hreplace
    (loadSnapshots_ok hs.loaded).2
  exact ⟨hfolders _ hs.images, hfolders _ hs.containers, loadSnapshots_of_text htext hdistinct⟩

/-! ## Calls that change the records -/

/-- A call that changes the records. -/
inductive RecordCall where
  | register (s : Snapshot)
  | deregister (name : String)
  | importProgram (s : Snapshot) (source : String)

namespace RecordCall

/-- Makes the call. -/
def act : RecordCall → Action LocalStore Unit
  | register s => LocalStore.register s
  | deregister name => LocalStore.deregister name
  | importProgram s source => discard (LocalStore.importProgram s source)

/-- The records after the call. -/
def records : RecordCall → List Snapshot → List Snapshot
  | register s, m => Roster.put Snapshot.name s m
  | deregister name, m => Roster.erase Snapshot.name name m
  | importProgram s _, m => Roster.put Snapshot.name { s with image := s.name } m

/-- The call takes a program from a folder. -/
def imports : RecordCall → Bool
  | importProgram _ _ => true
  | _ => false

theorem nodup_records (call : RecordCall) (h : (m.map Snapshot.name).Nodup) :
    ((call.records m).map Snapshot.name).Nodup := by
  cases call with
  | register s => exact Roster.nodup_keys_put s h
  | deregister name => exact h.sublist (List.filter_sublist.map _)
  | importProgram s source => exact Roster.nodup_keys_put _ h

/-- A call that succeeds ends by saving its records. Before that it changes the disk only, and only
if it takes a program from a folder. -/
theorem act_ok {call : RecordCall} (h : call.act s = .ok () s') :
    ∃ d, (call.imports = false → d = s.disk) ∧
      saveSnapshots { s with disk := d, snapshots := call.records s.snapshots } = .ok () s' := by
  cases call with
  | register snapshot => exact ⟨s.disk, fun _ => rfl, h⟩
  | deregister name =>
    obtain ⟨_, _, hget, h⟩ := Action.bind_eq_ok_iff.mp h
    cases hget
    split at h
    · cases h
    · exact ⟨s.disk, fun _ => rfl, h⟩
  | importProgram snapshot source =>
    obtain ⟨result, himport⟩ := Action.discard_eq_ok_iff.mp h
    obtain ⟨_, _, hget, hsteps⟩ := Action.bind_eq_ok_iff.mp himport
    cases hget
    obtain ⟨folder, s₁, hfolder, hcleared⟩ := Action.bind_eq_ok_iff.mp hsteps
    obtain ⟨-, rfl⟩ := Action.ofExcept_eq_ok_iff.mp hfolder
    obtain ⟨_, s₂, hclear, hcopied⟩ := Action.bind_eq_ok_iff.mp hcleared
    obtain ⟨d₁, rfl⟩ := clearImage_ok hclear
    obtain ⟨_, s₃, hcopy, hregistered⟩ := Action.bind_eq_ok_iff.mp hcopied
    obtain ⟨d₂, -, rfl⟩ := onDisk_eq_ok_iff.mp hcopy
    obtain ⟨_, s₄, hregister, hresult⟩ := Action.bind_eq_ok_iff.mp hregistered
    obtain ⟨-, rfl⟩ := Action.pure_eq_ok_iff.mp hresult
    exact ⟨d₂, nofun, hregister⟩

/-- A call that succeeds leaves its records on the disk. -/
theorem recorded {call : RecordCall} (h : call.act s = .ok () s') (hs : Recorded s) :
    Recorded s' ∧ s'.root = s.root ∧ s'.snapshots = call.records s.snapshots := by
  obtain ⟨d, -, hsave⟩ := act_ok h
  refine ⟨recorded_of_save hsave (call.nodup_records hs.distinct), ?_⟩
  obtain ⟨d', -, rfl⟩ := saveSnapshots_ok hsave
  exact ⟨rfl, rfl⟩

/-- Calls that all succeed leave their records on the disk. -/
theorem run_recorded {calls : List RecordCall} (h : calls.forM act s = .ok () s')
    (hs : Recorded s) :
    Recorded s' ∧ s'.root = s.root ∧
      s'.snapshots = calls.foldl (fun m call => call.records m) s.snapshots := by
  induction calls generalizing s with
  | nil =>
    cases h
    exact ⟨hs, rfl, rfl⟩
  | cons call rest ih =>
    obtain ⟨_, s₁, hcall, hrest⟩ := Action.bind_eq_ok_iff.mp h
    obtain ⟨hs₁, hroot, hrecords⟩ := recorded hcall hs
    obtain ⟨hs', hroot', hrecords'⟩ := ih hrest hs₁
    exact ⟨hs', hroot'.trans hroot, hrecords'.trans (by rw [hrecords]; rfl)⟩

theorem steady {call : RecordCall} (h : call.act s = .ok () s') (hcall : call.imports = false)
    (hs : Steady s) : Steady s' := by
  obtain ⟨d, hd, hsave⟩ := act_ok h
  obtain rfl := hd hcall
  exact steady_of_save hs hsave (call.nodup_records hs.recorded.distinct)

/-- Calls that all succeed, and take no program from a folder, keep the folders of the backend. -/
theorem run_steady {calls : List RecordCall} (h : calls.forM act s = .ok () s')
    (hcalls : ∀ call ∈ calls, call.imports = false) (hs : Steady s) : Steady s' := by
  induction calls generalizing s with
  | nil =>
    cases h
    exact hs
  | cons call rest ih =>
    obtain ⟨_, s₁, hcall, hrest⟩ := Action.bind_eq_ok_iff.mp h
    obtain ⟨hfirst, hothers⟩ := List.forall_mem_cons.mp hcalls
    exact ih hrest hothers (steady hcall hfirst hs)

end RecordCall

/-- A backend below the folder `root` of a disk with a program in the folder `src`. -/
def RecordSample.store (root : Folder) : LocalStore :=
  { disk := { top := .sub "src" (.file "a.c" (.text "int a;") .empty) (.sub "root" root .empty) }
    root := "root" }

end LocalStore

end Mutagenesis
