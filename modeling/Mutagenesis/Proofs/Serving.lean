import Mathlib.Data.List.TakeWhile
import Mutagenesis.Proofs.JsonFields
import Mutagenesis.Proofs.LiveMutants
import Mutagenesis.Server

/-!
# What serving requests does

`heard` says which lines are answered: those with something on them, up to and with the first
request to shut down. Each gets one answer, in order, that tells what its request led to in the
session that it met (`Replies`, `run_replies`); what comes after has no effect (`run_heard`). In the
end no mutant is registered, and a backend in memory of which no call fails holds the records and
images that it held at first (`Tracked`, `run_tracked`).
-/

set_option autoImplicit false

namespace Mutagenesis

open Mutagenesis.Action (ensures_bind)

/-- A trimmed text is empty if there were only blanks. -/
theorem Text.isEmpty_trim (cs : List Char) : (Text.trim cs).isEmpty = cs.all Text.isBlank := by
  have hend (xs : List Char) : Text.trimEnd xs = [] ↔ ∀ c ∈ xs, Text.isBlank c = true := by
    simp [Text.trimEnd, List.dropWhile_eq_nil_iff]
  rw [Bool.eq_iff_iff, List.isEmpty_iff, List.all_eq_true, Text.trim, hend, Text.trimStart]
  constructor
  · intro h
    cases hrest : cs.dropWhile Text.isBlank with
    | nil => exact List.dropWhile_eq_nil_iff.mp hrest
    | cons c rest =>
      have hblank : Text.isBlank c = true := h c (by simp [hrest])
      have hhead := List.head?_dropWhile_not Text.isBlank cs
      simp [hrest, hblank] at hhead
  · intro h c hc
    exact h c (List.dropWhile_sublist _ |>.subset hc)

/-- A value without the fields of a name. -/
def Json.without (name : String) : Json → Json
  | .object fields => .object (fields.filter (·.1 ≠ name))
  | other => other

namespace Server

variable {σ : Type} {i : Installation σ} {t : Session σ} {line : List Char}

/-- The id that the client gave on a line: that of a JSON object. -/
def givenId (line : List Char) : Option Json :=
  match Json.parse line with
  | .ok value => value.last? "id"
  | .error _ => none

/-- The request on a line, if it is JSON and without the id a valid request. -/
def requested? (line : List Char) : Option Request :=
  match Json.parse line with
  | .ok value => (Request.decode (value.sorted.without "id")).toOption
  | .error _ => none

/-- The lines that are not blank. -/
def spoken (lines : List (List Char)) : List (List Char) :=
  lines.filter (!·.all Text.isBlank)

/-- The lines up to and with the first request to shut down. -/
def heard : List (List Char) → List (List Char)
  | [] => []
  | line :: rest => if requested? line = some .shutdown then [line] else line :: heard rest

/-- Lines with the sessions that they meet. -/
def encounters (i : Installation σ) (t : Session σ) :
    List (List Char) → List (Session σ × List Char)
  | [] => []
  | line :: rest => (t, line) :: encounters i (step i t line).session rest

theorem encounters_lines (i : Installation σ) (t : Session σ) (lines : List (List Char)) :
    (encounters i t lines).map Prod.snd = lines := by
  induction lines generalizing t with
  | nil => rfl
  | cons line rest ih => rw [encounters, List.map_cons, ih]

/-- The answer to a line that meets a session. -/
structure Replies (i : Installation σ) (t : Session σ) (line : List Char) (answer : Json) :
    Prop where
  /-- There is either a result or an error, and an id if one was given. -/
  names : ∃ fields, answer = .object fields ∧
    (fields.map Prod.fst = ["error"] ++ (givenId line).toList.map (fun _ => "id") ∨
      fields.map Prod.fst = (givenId line).toList.map (fun _ => "id") ++ ["result"])
  /-- The id is the one that was given. -/
  id : answer.field? "id" = (givenId line).map Json.sorted
  /-- A line without a valid request gets an error. -/
  refused : requested? line = none →
    (answer.field? "error").bind (·.field? "kind") = some (.string "BadFormat")
  /-- A request gets its result or the error that it ends in. -/
  handled : ∀ request, requested? line = some request →
    (i.handle request).Ensures t (fun result _ => answer.field? "result" = some result.sorted)
      (fun fault _ => answer.field? "error" = fault.toJson.sorted.field? "error")

/-! ## One line -/

theorem parseLine_id (line : List Char) :
    (parseLine line).id = (givenId line).map Json.sorted := by
  unfold parseLine givenId
  cases Json.parse line with
  | error fault => rfl
  | ok value =>
    dsimp only
    rw [← Json.field?_sorted]
    cases value.sorted <;> rfl

/-- A line is read as the request that it holds. -/
theorem parseLine_request (line : List Char) :
    (parseLine line).request.toOption = requested? line := by
  unfold parseLine requested?
  cases Json.parse line with
  | error fault => rfl
  | ok value =>
    have hformatted {ε α : Type} (wrap : ε → FormatFault) (x : Except ε α) :
        (formatted wrap x).toOption = x.toOption := by cases x <;> rfl
    dsimp only
    rw [hformatted]
    cases value.sorted <;> rfl

/-- A line that is no request is badly formatted. -/
theorem parseLine_fault {fault : Fault} (h : (parseLine line).request = .error fault) :
    fault.kind = "BadFormat" := by
  unfold parseLine at h
  split at h
  · cases h
    rfl
  · dsimp only [formatted] at h
    split at h
    · cases h
    · cases h
      rfl

theorem response_ok (id : Option Json) (result : Json) :
    ∃ fields, response id (.ok result) = .object fields ∧
      fields.map Prod.fst = id.toList.map (fun _ => "id") ++ ["result"] := by
  cases id with
  | none => exact ⟨_, rfl, rfl⟩
  | some id =>
    have hbefore : "id" < "result" := by decide
    refine ⟨[("id", id.sorted), ("result", result.sorted)], ?_, rfl⟩
    simp [response, Json.sorted_object, Json.sortedFields, Json.gather, Json.insertField, hbefore]

/-- An answer with an error has the error and, if there is one, the request's id. -/
theorem response_error (id : Option Json) (fault : Fault) :
    ∃ fields, response id (.error fault) = .object fields ∧
      fields.map Prod.fst = ["error"] ++ id.toList.map (fun _ => "id") := by
  obtain ⟨detail, hdetail⟩ : ∃ detail, fault.toJson = .object [("error", detail)] := ⟨_, rfl⟩
  unfold response
  dsimp only
  rw [hdetail]
  cases id with
  | none => exact ⟨_, rfl, rfl⟩
  | some id =>
    have hafter : ¬"id" < "error" := by decide
    refine ⟨[("error", detail.sorted), ("id", id.sorted)], ?_, rfl⟩
    simp [Json.sorted_object, Json.sortedFields, Json.gather, Json.insertField, hafter]

theorem response_id (id : Option Json) (outcome : Except Fault Json) :
    (response id outcome).field? "id" = id.map Json.sorted := by
  unfold response
  rw [Json.field?_sorted]
  cases outcome <;> cases id <;> rfl

theorem response_result (id : Option Json) (result : Json) :
    (response id (.ok result)).field? "result" = some result.sorted := by
  unfold response
  rw [Json.field?_sorted]
  cases id <;> rfl

theorem response_fault (id : Option Json) (fault : Fault) :
    (response id (.error fault)).field? "error" = fault.toJson.sorted.field? "error" := by
  unfold response
  rw [Json.field?_sorted, Json.field?_sorted]
  cases id <;> rfl

theorem kind_toJson (fault : Fault) :
    (fault.toJson.sorted.field? "error").bind (·.field? "kind") = some (.string fault.kind) := by
  rw [Json.field?_sorted]
  have hdetail : fault.toJson.last? "error" =
      some (.object ([("kind", .string fault.kind), ("message", .string fault.message)] ++
        (fault.data?.map fun data => ("data", data)).toList)) := rfl
  rw [hdetail, Option.map_some, Option.bind_some, Json.field?_sorted]
  cases fault.data? <;> rfl

theorem step_blank (hblank : line.all Text.isBlank = true) : step i t line = ⟨none, false, t⟩ := by
  unfold step
  rw [Text.isEmpty_trim, hblank, if_pos rfl]

theorem step_refused {fault : Fault} (hspoken : line.all Text.isBlank = false)
    (hline : (parseLine line).request = .error fault) :
    step i t line = ⟨some (response (parseLine line).id (.error fault)), false, t⟩ := by
  unfold step
  rw [Text.isEmpty_trim, hspoken, if_neg Bool.false_ne_true]
  dsimp only
  rw [hline]

/-- A line with a request is answered with what handling it gives. -/
theorem step_handled (i : Installation σ) (t : Session σ) {request : Request}
    (hspoken : line.all Text.isBlank = false)
    (hline : (parseLine line).request = .ok request) :
    (i.handle request).Ensures t
      (fun result t' => step i t line =
        ⟨some (response (parseLine line).id (.ok result)), request = .shutdown, t'⟩)
      (fun fault t' => step i t line =
        ⟨some (response (parseLine line).id (.error fault)), request = .shutdown, t'⟩) := by
  have hhears : ¬(Text.trim line).isEmpty = true := by simp [Text.isEmpty_trim, hspoken]
  unfold Action.Ensures
  cases hhandle : i.handle request t with
  | ok result t' => simp only [step, if_neg hhears, hline, hhandle]
  | error fault t' => simp only [step, if_neg hhears, hline, hhandle]

theorem requested_of_error {fault : Fault} (h : (parseLine line).request = .error fault) :
    requested? line = none := by
  rw [← parseLine_request, h]
  rfl

theorem requested_of_ok {request : Request} (h : (parseLine line).request = .ok request) :
    requested? line = some request := by
  rw [← parseLine_request, h]
  rfl

/-- Only a request to shut down ends serving. -/
theorem step_done (i : Installation σ) (t : Session σ) (hspoken : line.all Text.isBlank = false) :
    (step i t line).done = decide (requested? line = some .shutdown) := by
  cases hline : (parseLine line).request with
  | error fault =>
    rw [step_refused hspoken hline, requested_of_error hline]
    rfl
  | ok request =>
    rw [requested_of_ok hline]
    refine (step_handled i t hspoken hline).elim (fun _ _ hstep => ?_) (fun _ _ hstep => ?_)
    · rw [hstep]
      simp
    · rw [hstep]
      simp

theorem id_response_parseLine (outcome : Except Fault Json) :
    (response (parseLine line).id outcome).field? "id" = (givenId line).map Json.sorted := by
  rw [response_id, parseLine_id, Option.map_map]
  exact congrArg (Option.map · _) (funext Json.sorted_sorted)

theorem idNames_parseLine (line : List Char) :
    (parseLine line).id.toList.map (fun _ => "id") =
      (givenId line).toList.map (fun _ => "id") := by
  rw [parseLine_id]
  cases givenId line <;> rfl

/-- An answer with an error replies to a line. -/
theorem replies_error {fault : Fault} (hrefused : requested? line = none → fault.kind = "BadFormat")
    (hhandled : ∀ request, requested? line = some request →
      ∃ t', i.handle request t = .error fault t') :
    Replies i t line (response (parseLine line).id (.error fault)) := by
  obtain ⟨fields, hfields, hnames⟩ := response_error (parseLine line).id fault
  rw [idNames_parseLine] at hnames
  refine ⟨⟨fields, hfields, Or.inl hnames⟩, id_response_parseLine _, fun h => ?_,
    fun request h => ?_⟩
  · rw [response_fault, kind_toJson, hrefused h]
  · obtain ⟨t', ht'⟩ := hhandled request h
    unfold Action.Ensures
    rw [ht']
    exact response_fault _ fault

/-- A line that is not blank gets an answer. -/
theorem step_replies (i : Installation σ) (t : Session σ)
    (hspoken : line.all Text.isBlank = false) :
    ∃ answer, (step i t line).answer = some answer ∧ Replies i t line answer := by
  cases hline : (parseLine line).request with
  | error fault =>
    have hnone := requested_of_error hline
    rw [step_refused hspoken hline]
    refine ⟨_, rfl, replies_error (fun _ => parseLine_fault hline) fun request h => ?_⟩
    rw [hnone] at h
    cases h
  | ok request =>
    have hsome := requested_of_ok hline
    refine (step_handled i t hspoken hline).withOutcome.elim (fun result t' h₁ => ?_)
      (fun fault t' h₁ => ?_)
    · obtain ⟨hhandle, hstep⟩ := h₁
      rw [hstep]
      obtain ⟨fields, hfields, hnames⟩ := response_ok (parseLine line).id result
      rw [idNames_parseLine] at hnames
      refine ⟨_, rfl, ⟨fields, hfields, Or.inr hnames⟩, id_response_parseLine _, fun h => ?_,
        fun other h => ?_⟩
      · rw [hsome] at h
        cases h
      · rw [hsome] at h
        cases h
        unfold Action.Ensures
        rw [hhandle]
        exact response_result _ result
    · obtain ⟨hhandle, hstep⟩ := h₁
      rw [hstep]
      refine ⟨_, rfl, replies_error (fun h => ?_) fun other h => ⟨t', ?_⟩⟩
      · rw [hsome] at h
        cases h
      · rw [hsome] at h
        cases h
        exact hhandle

/-! ## All lines -/

/-- Blank lines, and lines after a request to shut down, have no effect. -/
theorem run_heard (i : Installation σ) (t : Session σ) (lines : List (List Char)) :
    run i t lines = run i t (heard (spoken lines)) := by
  induction lines generalizing t with
  | nil => rfl
  | cons line rest ih =>
    cases hblank : line.all Text.isBlank with
    | true =>
      have hskipped : spoken (line :: rest) = spoken rest := by simp [spoken, hblank]
      rw [hskipped, ← ih, run, step_blank hblank]
      rfl
    | false =>
      have hspoken : spoken (line :: rest) = line :: spoken rest := by simp [spoken, hblank]
      have hdone := step_done i t hblank
      rw [hspoken, heard]
      by_cases hshutdown : requested? line = some .shutdown
      · rw [if_pos hshutdown, run, run, hdone, decide_eq_true hshutdown]
        rfl
      · rw [if_neg hshutdown, run, run, hdone, decide_eq_false hshutdown, ih]

/-- Every line that is heard gets one answer, in order. -/
theorem run_replies (i : Installation σ) (t : Session σ) {lines : List (List Char)}
    (hspoken : ∀ line ∈ lines, line.all Text.isBlank = false) :
    List.Forall₂ (fun met answer => Replies i met.1 met.2 answer) (encounters i t (heard lines))
      (run i t (heard lines)).answers := by
  induction lines generalizing t with
  | nil => exact .nil
  | cons line rest ih =>
    have hline := hspoken line List.mem_cons_self
    obtain ⟨answer, hanswer, hreplies⟩ := step_replies i t hline
    have hdone := step_done i t hline
    unfold heard
    by_cases hshutdown : requested? line = some .shutdown
    · rw [if_pos hshutdown, encounters, run, hdone, decide_eq_true hshutdown, if_pos rfl, hanswer]
      exact .cons hreplies .nil
    · rw [if_neg hshutdown, encounters, run, hdone, decide_eq_false hshutdown,
        if_neg Bool.false_ne_true, hanswer]
      exact .cons hreplies (ih _ fun other hother => hspoken other (List.mem_cons_of_mem _ hother))

/-- The answers have an id where the lines do. -/
theorem ids_of_replies {lines : List (List Char)} {answers : List Json}
    (h : List.Forall₂ (fun met answer => Replies i met.1 met.2 answer) (encounters i t lines)
      answers) :
    answers.map (fun answer => (answer.field? "id").isSome) =
      lines.map (fun line => (givenId line).isSome) := by
  have hlines := encounters_lines i t lines
  generalize encounters i t lines = met at h hlines
  induction h generalizing lines with
  | nil => rw [← hlines]; rfl
  | cons hreply _ ih =>
    rw [← hlines, List.map_cons, List.map_cons, ih rfl, hreply.id, Option.isSome_map]
    rfl

/-- In the end no mutant is registered, whatever fails. -/
theorem registry_close (i : Installation σ) (t : Session σ) : (close i t).registry = [] := by
  have hcleared : i.clearMutants.Ensures t (fun _ t' => t'.registry = [])
      (fun _ t' => t'.registry = []) :=
    Installation.clearMutants_ensures fun _ _ =>
      Action.ensures_of_forall (fun _ _ => rfl) (fun _ _ => rfl)
  refine hcleared.withOutcome.elim (fun _ t' h₁ => ?_) (fun _ t' h₁ => ?_)
  · unfold close
    rw [h₁.1]
    exact h₁.2
  · unfold close
    rw [h₁.1]
    exact h₁.2

end Server

/-! ## The backend in memory -/

/-- The backend holds the live mutants, and all of them are registered. -/
def Tracked (initial : MemoryStore) (t : Session MemoryStore) : Prop :=
  ∃ live, Tracks initial live t ∧ ∀ l ∈ live, l.registered = true

section

variable {kit : Toolkit} {initial : MemoryStore}
  {t t' : Session MemoryStore}

theorem Tracked.read (h : Tracked initial t) (hread : ReadFrom t t') : Tracked initial t' := by
  obtain ⟨live, htracks, hregistered⟩ := h
  exact ⟨live, htracks.read hread, hregistered⟩

/-- What a request leaves, if an id that it draws is unused. -/
theorem Installation.handle_tracked (request : Request) (h : Tracked initial t) :
    ((inMemory kit).handle request).Ensures t
      (fun _ t' => (t'.nextId ≠ t.nextId → t.store.Unused (kit.nextMutant t)) → Tracked initial t')
      (fun _ t' => Tracked initial t') := by
  have hreading : (inMemory kit).ReadingKeeps (fun _ => True) (ReadFrom t) :=
    reading_from t
  have hread := ReadFrom.refl t
  have hreads {α : Type} {act : Action (Session MemoryStore) α} {f : α → Json}
      (hact : act.Ensures t (fun _ t' => ReadFrom t t') (fun _ t' => ReadFrom t t')) :
      (act >>= fun a => pure (f a)).Ensures t
        (fun _ t' =>
          (t'.nextId ≠ t.nextId → t.store.Unused (kit.nextMutant t)) → Tracked initial t')
        (fun _ t' => Tracked initial t') :=
    ensures_bind.mpr (hact.mono (fun _ _ h₁ _ => h.read h₁) (fun _ _ h₁ => h.read h₁))
  have hlooks {α : Type} (x : Except Fault α) :
      (Action.ofExcept x : Action (Session MemoryStore) α).Ensures t
        (fun _ t' => ReadFrom t t') (fun _ t' => ReadFrom t t') :=
    Action.ensures_ofExcept.mpr ⟨fun _ _ => hread, fun _ _ => hread⟩
  cases request with
  | health | languages | mutants | shutdown => exact fun _ => h
  | language name => exact hreads (hlooks _)
  | operators language => exact hreads (hlooks _)
  | operator name => exact hreads (hlooks _)
  | mutations snapshot path filter => exact hreads (mutations_ensures hreading hread)
  | replacements snapshot ms => exact hreads (replacements_ensures hreading hread)
  | diff snapshot ms => exact hreads (diff_ensures hreading hread)
  | mutate snapshot ms =>
    obtain ⟨live, htracks, hregistered⟩ := h
    refine ensures_bind.mpr ((mutate_tracks htracks).mono (fun m t₁ h₁ hfresh => ?_)
      (fun _ _ h₁ => ⟨live, h₁, hregistered⟩))
    refine ⟨_, h₁ hfresh, fun l hl => ?_⟩
    rcases List.mem_append.mp hl with hl | hl
    · exact hregistered l hl
    · rw [List.mem_singleton.mp hl]
  | mutant id =>
    refine ensures_bind.mpr (Action.ensures_ofExcept.mpr ⟨fun id _ => ?_, fun _ _ => h⟩)
    exact hreads (ensures_bind.mpr (Action.ensures_get.mpr (hlooks _)))
  | deleteMutant id =>
    refine ensures_bind.mpr (Action.ensures_ofExcept.mpr ⟨fun id _ => ?_, fun _ _ => h⟩)
    obtain ⟨live, htracks, hregistered⟩ := h
    refine ensures_bind.mpr ((deleteMutant_tracks htracks).mono (fun m t₁ h₁ _ => ?_)
      (fun _ _ h₁ => ⟨live, h₁, hregistered⟩))
    exact ⟨_, h₁, fun l hl => hregistered l (List.mem_filter.mp hl).1⟩
  | clearMutants =>
    obtain ⟨live, htracks, hregistered⟩ := h
    refine ensures_bind.mpr ((clearMutants_tracks htracks).mono (fun _ t₁ h₁ _ => ?_)
      (fun _ _ h₁ => h₁.elim))
    exact ⟨_, h₁, fun l hl => hregistered l (List.mem_filter.mp hl).1⟩

end

namespace Server

variable {kit : Toolkit} {initial : MemoryStore}
  {t : Session MemoryStore} {line : List Char}

/-- Whenever an id is drawn in serving lines, nothing in the backend uses it. -/
def DrawsUnused (i : Installation MemoryStore) (t : Session MemoryStore) :
    List (List Char) → Prop
  | [] => True
  | line :: rest =>
    ((step i t line).session.nextId ≠ t.nextId → t.store.Unused (i.nextMutant t)) ∧
      ((step i t line).done = false → DrawsUnused i (step i t line).session rest)

instance decidableDrawsUnused (i : Installation MemoryStore) (t : Session MemoryStore) :
    (lines : List (List Char)) → Decidable (DrawsUnused i t lines)
  | [] => isTrue trivial
  | line :: rest =>
    have := decidableDrawsUnused i (step i t line).session rest
    inferInstanceAs (Decidable (_ ∧ (_ → _)))

/-- A step keeps track of the live mutants. -/
theorem step_tracked (h : Tracked initial t)
    (hfresh : (step (.inMemory kit) t line).session.nextId ≠ t.nextId →
      t.store.Unused (kit.nextMutant t)) :
    Tracked initial (step (.inMemory kit) t line).session := by
  cases hblank : line.all Text.isBlank with
  | true =>
    rw [step_blank hblank]
    exact h
  | false =>
    cases hline : (parseLine line).request with
    | error fault =>
      rw [step_refused hblank hline]
      exact h
    | ok request =>
      have hhandle : ((Installation.inMemory kit).handle request).Ensures t _ _ :=
        Installation.handle_tracked request h
      refine (hhandle.and (step_handled _ t hblank hline)).elim (fun result t' h₁ => ?_)
        (fun fault t' h₁ => ?_)
      · rw [h₁.2] at hfresh ⊢
        exact h₁.1 hfresh
      · rw [h₁.2]
        exact h₁.1

/-- A run of steps keeps track of the live mutants. -/
theorem run_tracked {lines : List (List Char)} (h : Tracked initial t)
    (hfresh : DrawsUnused (.inMemory kit) t lines) :
    Tracked initial (run (.inMemory kit) t lines).session := by
  induction lines generalizing t with
  | nil => exact h
  | cons line rest ih =>
    have hstep := step_tracked h hfresh.1
    unfold run
    dsimp only
    split
    · exact hstep
    · next hdone => exact ih hstep (hfresh.2 (by simpa using hdone))

/-- Closing deletes all that was made. -/
theorem close_tracked (h : Tracked initial t) :
    (close (.inMemory kit) t).store.snapshots = initial.snapshots ∧
      (close (.inMemory kit) t).store.images = initial.images := by
  obtain ⟨live, htracks, hregistered⟩ := h
  have hclears : (Installation.inMemory kit).clearMutants.Ensures t _ _ :=
    Installation.clearMutants_tracks htracks
  obtain ⟨_, t', hclear, hcleared⟩ := hclears.exists_ok
  have hnone : LiveMutant.after t.store.snapshots live (some .cleared) = [] :=
    List.filter_eq_nil_iff.mpr fun l hl => by simp [hregistered l hl]
  rw [hnone] at hcleared
  obtain ⟨records, images, hholds, hrecords, himages⟩ := hcleared.store
  cases hrecords
  cases himages
  unfold close
  rw [hclear]
  exact ⟨hholds.snapshots.trans (List.append_nil _), hholds.images.trans (List.append_nil _)⟩

namespace ServingSample

def session : Session MemoryStore where
  store :=
    { snapshots := [{ name := "base", image := "image" }], images := [⟨"image", []⟩] }
  nextId := 0

def tools : Toolkit :=
  { catalogue := .empty, matcher := fun _ _ => .ok [] }

/-- A mutant is made, two lines are refused, and one comes too late. -/
def lines : List (List Char) :=
  ["\x7b\"op\":\"mutate\",\"snapshot\":\"base\",\"mutations\":[]\x7d", "  ", "no",
    "\x7b\"op\":\"none\",\"id\":[]\x7d", "\x7b\"id\":null,\"op\":\"shutdown\"\x7d",
    "\x7b\"op\":\"mutants\"\x7d"].map String.toList

end ServingSample

end Server

end Mutagenesis
