import Mutagenesis.Proofs.ImagesApart
import Mutagenesis.Proofs.SavedRecords

/-!
# Calls that end halfway

What is left of a call of the backend that fails. A program is imported into the place of the image
that was there, so an import that fails has lost that image; snapshots whose images lie apart from
it are as before (`failed_import`). The records in memory change before they are written, so a call
that could not write them has changed them all the same (`failed_records`), and memory is ahead of
the disk until the next call that succeeds.
-/

set_option autoImplicit false

namespace Mutagenesis

namespace LocalStore

variable {s s' : LocalStore}

/-- The outcome of looking a snapshot up. -/
def found (name : String) (s : LocalStore) : Except Fault Snapshot :=
  match lookup name s with
  | .ok q _ => .ok q
  | .error fault _ => .error fault

theorem found_eq (name : String) (s : LocalStore) : found name s =
    match Roster.find? Snapshot.name name s.snapshots with
    | some q => .ok q
    | none => .error (.snapshotNotFound name) := by
  unfold found lookup
  simp only [bind, EStateM.bind, Action.get_apply]
  cases Roster.find? Snapshot.name name s.snapshots <;> rfl

/-! ## Calls that change the records -/

theorem ensures_saveSnapshots_error (s : LocalStore) :
    saveSnapshots.Ensures s (fun _ _ => True) fun _ s' => s' = s := by
  unfold Action.Ensures saveSnapshots
  dsimp only
  obtain ⟨fault, hfails⟩ | ⟨-, _, -, -, -, hput⟩ := Disk.replaceFile_cases s.root stateFile
    (stateJson s.snapshots).pretty s.disk
  · rw [hfails]
  · rw [hput]
    trivial

namespace RecordCall

/-- The name of the snapshot that a call is about. -/
def name : RecordCall → String
  | register q => q.name
  | deregister name => name
  | importProgram q _ => q.name

/-- What looking its snapshot up gives after the call. -/
def left : RecordCall → Except Fault Snapshot
  | register q => .ok q
  | deregister name => .error (.snapshotNotFound name)
  | importProgram q _ => .ok { q with image := q.name }

/-- What a name leads to after a call changes the records. -/
theorem found_records (call : RecordCall) (name : String) :
    found name { s with snapshots := call.records s.snapshots } =
      if name = call.name then call.left else found name s := by
  simp only [found_eq]
  cases call with
  | register q | importProgram q source =>
    rw [records, Roster.find?_put]
    by_cases hname : q.name = name
    · simp [hname, RecordCall.name, left]
    · simp [hname, Ne.symm hname, RecordCall.name]
  | deregister other =>
    rw [records, Roster.find?_erase]
    by_cases hname : other = name
    · simp [hname, RecordCall.name, left]
    · simp [hname, Ne.symm hname, RecordCall.name]

/-- A call has nothing to change if its snapshot is looked up before as it is after. -/
theorem records_eq_iff (call : RecordCall) :
    call.records s.snapshots = s.snapshots ↔ found call.name s = call.left := by
  constructor
  · intro h
    have hfound := call.found_records (s := s) call.name
    rwa [h, if_pos rfl] at hfound
  · intro h
    rw [found_eq] at h
    cases call with
    | register q | importProgram q source =>
      refine Roster.put_of_found ?_
      dsimp only [RecordCall.name, left] at h ⊢
      split at h
      · next hfind => rw [hfind, Except.ok.inj h]
      · cases h
    | deregister name =>
      refine Roster.erase_of_absent ?_
      dsimp only [RecordCall.name, left] at h
      split at h
      · cases h
      · assumption

theorem nodup_foldl_records (calls : List RecordCall) {m : List Snapshot}
    (h : (m.map Snapshot.name).Nodup) :
    ((calls.foldl (fun m call => call.records m) m).map Snapshot.name).Nodup := by
  induction calls generalizing m with
  | nil => exact h
  | cons call rest ih => exact ih (call.nodup_records h)

/-- A call that fails, and does not take a program from a folder, changes the records in memory as
if it had succeeded, and changes nothing else. -/
theorem eq_of_error {call : RecordCall} {fault : Fault} (hcall : call.imports = false)
    (h : call.act s = .error fault s') : s' = { s with snapshots := call.records s.snapshots } := by
  cases call with
  | register q =>
    exact (ensures_saveSnapshots_error { s with snapshots := _ }).of_error h
  | deregister name =>
    have hact : (deregister name).act.Ensures s (fun _ _ => True) fun _ s' =>
        s' = { s with snapshots := (deregister name).records s.snapshots } := by
      unfold act LocalStore.deregister
      rw [Action.ensures_bind, Action.ensures_get]
      split
      · next hunknown =>
        have habsent : Roster.find? Snapshot.name name s.snapshots = none := by
          simpa [Roster.has_eq_isSome_find?] using hunknown
        change s = _
        rw [records, Roster.erase_of_absent habsent]
      · rw [Action.ensures_bind, Action.ensures_modify]
        exact ensures_saveSnapshots_error _
    exact hact.of_error h
  | importProgram q source => cases hcall

end RecordCall

/-! ## Programs that cannot be imported -/

theorem ensures_onDisk_only {α : Type} (doing : String) (act : DiskAction α) (s : LocalStore) :
    (onDisk doing act).Ensures s (fun _ s' => ∃ d, s' = { s with disk := d })
      fun _ s' => ∃ d, s' = { s with disk := d } := by
  unfold Action.Ensures onDisk
  cases act s.disk with
  | ok a d => exact ⟨d, rfl⟩
  | error fault d => exact ⟨d, rfl⟩

theorem ensures_clearImage_only (folder : String) (s : LocalStore) :
    (clearImage folder).Ensures s (fun _ s' => ∃ d, s' = { s with disk := d })
      fun _ s' => ∃ d, s' = { s with disk := d } := by
  unfold clearImage
  rw [Action.ensures_bind, Action.ensures_get]
  split
  · exact ensures_onDisk_only _ _ s
  · exact ⟨s.disk, rfl⟩

/-- An import that fails has changed the disk only, unless writing the records is what failed. -/
theorem ensures_importProgram_error (q : Snapshot) (source : String) (s : LocalStore) :
    (importProgram q source).Ensures s (fun _ _ => True) fun fault s' =>
      (∃ d, s' = { s with disk := d }) ∨ saveSnapshots s' = .error fault s' ∧
        ∃ d, s' = { s with
          disk := d, snapshots := (RecordCall.importProgram q source).records s.snapshots } := by
  unfold importProgram
  rw [Action.ensures_bind, Action.ensures_get, Action.ensures_bind, Action.ensures_ofExcept]
  refine ⟨fun folder _ => ?_, fun _ _ => .inl ⟨s.disk, rfl⟩⟩
  rw [Action.ensures_bind]
  refine (ensures_clearImage_only folder s).mono ?_ fun _ _ h => .inl h
  rintro _ _ ⟨d₁, rfl⟩
  rw [Action.ensures_bind]
  refine (ensures_onDisk_only _ _ _).mono ?_ fun _ _ h => .inl h
  rintro _ _ ⟨d₂, rfl⟩
  rw [Action.ensures_bind, register, Action.ensures_bind, Action.ensures_modify]
  refine (ensures_saveSnapshots_error _).withOutcome.mono (fun _ _ _ => trivial) ?_
  rintro fault s' ⟨hsave, rfl⟩
  exact .inr ⟨hsave, d₂, rfl⟩

/-- An import that fails because of the name of the snapshot has changed nothing. One that fails
otherwise has changed no record, unless it was the records that could not be written, and then none
but that of its own snapshot; and it has changed nothing that is read of a snapshot whose image lies
apart from the one that is imported. -/
theorem failed_import {q : Snapshot} {source : String} {s s' : LocalStore} {fault : Fault}
    (h : importProgram q source s = .error fault s') :
    (Path.isRelative q.name = false → s' = s) ∧
    ((∀ name, found name s' = found name s) ∧ s'.snapshots = s.snapshots ∨
      saveSnapshots s' = .error fault s' ∧ ∀ name, found name s' =
        if name = q.name then .ok { q with image := q.name } else found name s) ∧
    ∀ (place : List String) (p : Snapshot), Shelved s.root place s.disk → Apart q.name p.image →
      p.sourceDir = "" ∨ Path.isRelative p.sourceDir = true →
      (∀ name ∈ Path.names p.image, ¬Disk.nameLimit < name.utf8ByteSize) →
      ∀ path, reading p path s' = reading p path s := by
  refine ⟨fun hname => ?_, ?_, fun place p hs hapart hsource hshort path => ?_⟩
  · have hrefused : imageFolder s.root q.name = .error (.badFormat (.notRelative q.name)) := by
      rw [imageFolder, relative, hname]
      rfl
    unfold importProgram at h
    rw [Action.bind_of_ok (Action.get_apply s)] at h
    dsimp only at h
    rw [hrefused] at h
    cases h
    rfl
  · obtain ⟨d, rfl⟩ | ⟨hsave, d, rfl⟩ := (ensures_importProgram_error q source s).of_error h
    · exact .inl ⟨fun name => by rw [found_eq, found_eq], rfl⟩
    · refine .inr ⟨hsave, fun name => ?_⟩
      have hfound :=
        (RecordCall.importProgram q source).found_records (s := { s with disk := d }) name
      rwa [found_eq name { s with disk := d }, ← found_eq name s] at hfound
  · have hbelow : Path.lexical q.name ≠ [] := fun hnil => hapart.1 (hnil ▸ List.nil_prefix)
    have htouched := (Action.ensures_ignoring.mp
      (ensures_act hs (.imports q source) hbelow)).of_error h
    exact Touched.reading_eq htouched hs hapart hsource hshort path

namespace FailedSample

def missing (name : String) : Action LocalStore Snapshot :=
  importProgram { name, image := "" } "missing"

theorem import_runs : (ApartSample.setUp "a/b" "a/c").Ensures ApartSample.store (fun _ s =>
    (missing "a/b").Ensures s (fun _ _ => False) fun _ _ => True) fun _ _ => False := by
  decide +kernel

/-- The snapshot of a program that was imported. -/
def kept : Snapshot := { name := "x", image := "x" }

def imported : Action LocalStore Snapshot := do
  prepare
  importProgram { name := "x", image := "" } "src"

theorem lost_runs : imported.Ensures ApartSample.store (fun _ s =>
    (reading kept "f" s).toOption = some "x\n" ∧ (found "x" s).toOption = some kept ∧
    (missing "x").Ensures s (fun _ _ => False) fun _ s' => (reading kept "f" s').toOption = none)
    fun _ _ => False := by
  decide +kernel

end FailedSample

open FailedSample

/-- An import that fails keeps the image beside it. -/
theorem failed_import_sample : ∃ q c s s' fault,
    ApartSample.setUp "a/b" "a/c" ApartSample.store = .ok (q, c) s ∧
    missing "a/b" s = .error fault s' ∧ reading q "f" s' = .ok "x\n" := by
  obtain ⟨⟨q, c⟩, s, hsetUp, hroot, hhere, hproper, hfolder, hsolid, himage, hsource, hread, -⟩ :=
    ApartSample.apart_runs.exists_ok
  obtain ⟨fault, s', hfails, -⟩ := (import_runs.of_ok hsetUp).exists_error
  dsimp only at himage hsource hread
  have hshelved := ApartSample.shelved hroot hhere hproper hfolder hsolid
  have hapart : Apart "a/b" q.image := by
    rw [himage]
    decide
  have hshort : ∀ name ∈ Path.names q.image, ¬Disk.nameLimit < name.utf8ByteSize := by
    rw [himage]
    decide
  obtain ⟨-, -, hsame⟩ := failed_import hfails
  have hread := Except.eq_ok_of_toOption hread
  exact ⟨q, c, s, s', fault, hsetUp, hfails,
    (hsame _ q hshelved hapart (.inl hsource) hshort "f").trans hread⟩

/-- The image of a snapshot is lost when another program cannot be imported in its place. -/
theorem failed_import_lost : ∃ q s s' fault, imported ApartSample.store = .ok q s ∧
    found "x" s = .ok kept ∧ reading kept "f" s = .ok "x\n" ∧
    missing "x" s = .error fault s' ∧ ∀ text, reading kept "f" s' ≠ .ok text := by
  obtain ⟨q, s, hruns, hread, hfound, hmissing⟩ := lost_runs.exists_ok
  obtain ⟨fault, s', hfails, hlost⟩ := hmissing.exists_error
  refine ⟨q, s, s', fault, hruns, Except.eq_ok_of_toOption hfound, Except.eq_ok_of_toOption hread,
    hfails, fun text htext => ?_⟩
  rw [htext] at hlost
  cases hlost

/-! ## Records that cannot be written -/

/-- A backend that is opened on the same disk with the same root holds these records, if it can be
opened. -/
def Reloads (s : LocalStore) (records : List Snapshot) : Prop :=
  prepare.Ensures { disk := s.disk, root := s.root } (fun _ t => t.snapshots = records)
    fun _ _ => True

instance (s : LocalStore) (records : List Snapshot) : Decidable (Reloads s records) :=
  inferInstanceAs (Decidable (Action.Ensures ..))

theorem Recorded.reloads (h : Recorded s) : Reloads s s.snapshots := by
  unfold Reloads Action.Ensures
  split
  · next t hopen =>
    obtain ⟨d₁, d₂, m, himages, hcontainers, hload, rfl⟩ := prepare_eq_ok_iff.mp hopen
    exact Except.ok.inj (hload.symm.trans (h.loaded d₁ d₂ himages hcontainers))
  · trivial

/-- The states that a backend comes to after it was opened, each with the records of the last call
that succeeded, and with the calls that have failed since. Between calls the disk may change, also
by something else than the backend, but not so that it would hold other records when it is opened
again. -/
inductive History : LocalStore → List Snapshot → List RecordCall → Prop where
  | opened {s s' : LocalStore} : prepare s = .ok () s' → History s' s'.snapshots []
  | done {s s' : LocalStore} {saved : List Snapshot} {failed : List RecordCall}
      {call : RecordCall} : History s saved failed → call.act s = .ok () s' →
      History s' s'.snapshots []
  | failed {s s' : LocalStore} {saved : List Snapshot} {failed : List RecordCall}
      {call : RecordCall} {fault : Fault} : History s saved failed → call.imports = false →
      call.act s = .error fault s' → History s' saved (failed ++ [call])
  | changed {s s' : LocalStore} {saved : List Snapshot} {failed : List RecordCall} :
      History s saved failed → s'.root = s.root → s'.snapshots = s.snapshots →
      Reloads s' saved → History s' saved failed

/-- Memory is ahead of the disk by the calls that failed. -/
structure Ahead (s : LocalStore) (saved : List Snapshot) (failed : List RecordCall) : Prop where
  distinct : (saved.map Snapshot.name).Nodup
  reloads : Reloads s saved
  memory : s.snapshots = failed.foldl (fun m call => call.records m) saved

theorem Recorded.ahead (h : Recorded s) : Ahead s s.snapshots [] :=
  ⟨h.distinct, h.reloads, rfl⟩

theorem Ahead.nodup {saved : List Snapshot} {failed : List RecordCall} (h : Ahead s saved failed) :
    (s.snapshots.map Snapshot.name).Nodup := by
  rw [h.memory]
  exact RecordCall.nodup_foldl_records failed h.distinct

/-- A history leaves the records ahead of the saved ones by the calls that failed. -/
theorem History.ahead {saved : List Snapshot} {failed : List RecordCall}
    (h : History s saved failed) : Ahead s saved failed := by
  induction h with
  | opened hopen => exact (steady_of_prepare hopen).recorded.ahead
  | done _ hact ih =>
    obtain ⟨d, -, hsave⟩ := RecordCall.act_ok hact
    exact (recorded_of_save hsave (RecordCall.nodup_records _ ih.nodup)).ahead
  | failed _ hcall hact ih =>
    obtain rfl := RecordCall.eq_of_error hcall hact
    refine ⟨ih.distinct, ih.reloads, ?_⟩
    rw [List.foldl_append, ← ih.memory]
    rfl
  | changed _ _ hsame hreloads ih => exact ⟨ih.distinct, hreloads, hsame.trans ih.memory⟩

/-- A call that registers or deregisters a snapshot and fails has changed the record of this
snapshot in memory as if it had succeeded, and nothing else. So lookups and the list of records are
as before exactly if there was nothing to change, as when an unknown snapshot is deregistered. After
any calls, a backend that is opened again holds the records of the last call that succeeded, while
in memory there are those after all that have failed since. -/
theorem failed_records (s : LocalStore) :
    (∀ (s' : LocalStore) (call : RecordCall) (fault : Fault), call.imports = false →
      call.act s = .error fault s' →
      s' = { s with snapshots := call.records s.snapshots } ∧
      (∀ name, found name s' = if name = call.name then call.left else found name s) ∧
      ((∀ name, found name s' = found name s) ∧ s'.snapshots = s.snapshots ↔
        found call.name s = call.left)) ∧
    ∀ (saved : List Snapshot) (failed : List RecordCall),
      History s saved failed → Reloads s saved ∧
        s.snapshots = failed.foldl (fun m call => call.records m) saved := by
  refine ⟨fun s' call fault hcall hact => ?_, fun saved failed hhistory => ?_⟩
  · obtain rfl := RecordCall.eq_of_error hcall hact
    refine ⟨rfl, call.found_records, ?_⟩
    constructor
    · rintro ⟨-, hsame⟩
      exact call.records_eq_iff.mp hsame
    · intro hleft
      have hsame := call.records_eq_iff.mpr hleft
      exact ⟨fun name => by rw [found_eq, found_eq, hsame], hsame⟩
  · exact ⟨hhistory.ahead.reloads, hhistory.ahead.memory⟩

namespace FailedSample

def a : Snapshot := { name := "a", image := "i" }

def b : Snapshot := { name := "b", image := "i" }

/-- A backend with a record on the disk, before it is opened. -/
def store : LocalStore :=
  RecordSample.store (.file "snapshots.json" (.text (stateJson [a]).pretty) .empty)

/-- The state when there is a folder where the records should be. -/
def blocked (s : LocalStore) : LocalStore :=
  { s with
    disk := { s.disk with top := s.disk.top.putAt ["root", "snapshots.json"] (.folder .empty) } }

/-- The registration fails; then the folder is taken away again. -/
theorem record_runs : prepare.Ensures store (fun _ s =>
    s.snapshots = [a] ∧ Reloads (blocked s) [a] ∧
    (RecordCall.act (.register b)).Ensures (blocked s) (fun _ _ => False) fun _ s' =>
      prepare.Ensures { disk := s.disk, root := s'.root } (fun _ t => t.snapshots = [a])
        fun _ _ => False) fun _ _ => False := by
  decide +kernel

end FailedSample

/-- A snapshot that is registered while its record cannot be written. -/
theorem failed_records_sample : ∃ s s' fault, prepare store = .ok () s ∧
    register b (blocked s) = .error fault s' ∧ found "b" s' = .ok b ∧
    found "a" s' = found "a" (blocked s) ∧ History { s' with disk := s.disk } [a] [.register b] ∧
    Reloads { s' with disk := s.disk } [a] ∧ s'.snapshots = [a, b] := by
  obtain ⟨_, s, hopen, hsaved, hblocked, hruns⟩ := record_runs.exists_ok
  obtain ⟨fault, s', hfails, hrestored⟩ := hruns.exists_error
  have hopened : History s [a] [] := hsaved ▸ .opened hopen
  have hhistory : History (blocked s) [a] [] := hopened.changed rfl rfl hblocked
  have hend : History { s' with disk := s.disk } [a] [.register b] :=
    (hhistory.failed rfl hfails).changed rfl rfl
      (hrestored.mono (fun _ _ h => h) fun _ _ _ => trivial)
  obtain ⟨-, hfound, -⟩ := (failed_records (blocked s)).1 s' (.register b) fault rfl hfails
  obtain ⟨hreloads, hmemory⟩ := (failed_records _).2 _ _ hend
  exact ⟨s, s', fault, hopen, hfails, hfound "b", hfound "a", hend, hreloads, hmemory⟩

/-- A snapshot whose registration failed is found, but not by a backend that is opened again. -/
theorem failed_record_found : ∃ s s' t fault, prepare store = .ok () s ∧
    register b (blocked s) = .error fault s' ∧
    found "b" (blocked s) = .error (.snapshotNotFound "b") ∧ found "b" s' = .ok b ∧
    (blocked s).snapshots = [a] ∧ s'.snapshots = [a, b] ∧
    prepare { disk := s.disk, root := s'.root } = .ok () t ∧ t.snapshots = [a] := by
  obtain ⟨_, s, hopen, hsaved, -, hruns⟩ := record_runs.exists_ok
  obtain ⟨fault, s', hfails, hrestored⟩ := hruns.exists_error
  obtain ⟨_, t, hreopened, hheld⟩ := hrestored.exists_ok
  obtain rfl := RecordCall.eq_of_error rfl hfails
  have hmemory : (blocked s).snapshots = [a] := hsaved
  refine ⟨s, _, t, fault, hopen, hfails, ?_, ?_, hmemory, ?_, hreopened, hheld⟩
  · rw [found_eq, hmemory]
    rfl
  · exact RecordCall.found_records (.register b) "b"
  · dsimp only
    rw [hmemory]
    rfl

end LocalStore

end Mutagenesis
