import Mutagenesis.Proofs.BackendCalls

/-!
# The calls that make a mutant

What an installation asks of its backend to make a mutant, over any backend and so over all ways in
which calls can fail. Files are read, then a container is taken, used, destroyed exactly once and
not used after that, and only then a record is added (`generate_calls`). `InOrder` says of each kind
of call what has to come before and after it.
-/

set_option autoImplicit false

namespace Mutagenesis

/-- The call works on the container. -/
def Call.Uses (c : Container) : Call → Prop
  | .applyPatch c' _ => c' = c
  | .build c' => c' = c
  | .persist c' _ => c' = c
  | _ => False

namespace Event

/-- A file is read. -/
def IsRead (e : Event) : Prop :=
  ∃ snapshot path, e.call = .fileText snapshot path

/-- The container was taken. -/
def taken (s : Snapshot) (c : Container) : Event :=
  ⟨.provision s, .ok c⟩

/-- The container was built, and the build succeeded. -/
def built (c : Container) : Event :=
  ⟨.build c, .ok .success⟩

/-- The files of the container were kept as an image. -/
def kept (c : Container) (image : String) : Event :=
  ⟨.persist c image, .ok ()⟩

/-- The container was to be destroyed, whatever came of it. -/
def destroyed (c : Container) (outcome : Except Fault Unit) : Event :=
  ⟨.destroy c, outcome⟩

/-- The record was refused. -/
def refused (record : Snapshot) (fault : Fault) : Event :=
  ⟨.register record, .error fault⟩

end Event

open Event (taken built kept destroyed refused)

/-- The call is in order between those before it and those after it. -/
def InOrder (before : List Event) (e : Event) (after : List Event) : Prop :=
  match e.call with
  | .fileText _ _ => ∀ e' ∈ before, e'.IsRead
  -- so there is no second container
  | .provision _ => ∀ e' ∈ before, e'.IsRead
  | .applyPatch c _ => ∃ s, taken s c ∈ before
  | .build c => ∃ s, taken s c ∈ before
  | .persist c _ => built c ∈ before
  | .destroy c => (∃ s, taken s c ∈ before) ∧ ∀ e' ∈ after, ¬e'.call.Uses c
  | .register record => ∃ c outcome, kept c record.image ∈ before ∧ destroyed c outcome ∈ before
  | .deleteImage image => ∃ record fault, record.image = image ∧ refused record fault ∈ before
  -- nothing else is asked for
  | .lookup _ => False
  | .deregister _ => False

/-- Every call is in order, and a container that was taken is destroyed exactly once. -/
structure CallDiscipline (events : List Event) : Prop where
  inOrder : ∀ before e after, events = before ++ e :: after → InOrder before e after
  destroyedOnce : ∀ s c, taken s c ∈ events → events.countP (·.call = .destroy c) = 1

/-- All of some calls are in order, after those that came before. -/
def AllInOrder (before : List Event) : List Event → Prop
  | [] => True
  | e :: after => InOrder before e after ∧ AllInOrder (before ++ [e]) after

/-- Each of some calls in order is in order among them. -/
theorem AllInOrder.inOrder {before events : List Event} (h : AllInOrder before events)
    {middle after : List Event} {e : Event} (hsplit : events = middle ++ e :: after) :
    InOrder (before ++ middle) e after := by
  induction middle generalizing before events with
  | nil =>
    subst hsplit
    rw [List.append_nil]
    exact h.1
  | cons first rest ih =>
    subst hsplit
    have hrest := ih h.2 rfl
    rwa [List.append_assoc] at hrest

/-- Reading files is in order at the start. -/
theorem allInOrder_reads {before reads rest : List Event} (hbefore : ∀ e ∈ before, e.IsRead)
    (hreads : ∀ e ∈ reads, e.IsRead) (hrest : AllInOrder (before ++ reads) rest) :
    AllInOrder before (reads ++ rest) := by
  induction reads generalizing before with
  | nil =>
    rw [List.append_nil] at hrest
    exact hrest
  | cons e others ih =>
    obtain ⟨s, path, hcall⟩ := hreads e (by simp)
    refine ⟨?_, ih ?_ (fun e' he' => hreads e' (by simp [he'])) (by simpa using hrest)⟩
    · unfold InOrder
      rw [hcall]
      exact hbefore
    · intro e' he'
      rcases List.mem_append.mp he' with he' | he'
      · exact hbefore e' he'
      · exact hreads e' (by simp_all)

/-- After reading files, the rest of the calls has to keep the discipline. -/
theorem callDiscipline_of_reads {reads rest : List Event} (hreads : ∀ e ∈ reads, e.IsRead)
    (hrest : AllInOrder reads rest)
    (honce : ∀ s c, taken s c ∈ rest → rest.countP (·.call = .destroy c) = 1) :
    CallDiscipline (reads ++ rest) := by
  refine ⟨fun before e after hsplit => ?_, fun s c htaken => ?_⟩
  · have hall : AllInOrder [] (reads ++ rest) := allInOrder_reads (by simp) hreads hrest
    exact hall.inOrder hsplit
  · have hnone : reads.countP (·.call = .destroy c) = 0 := by
      rw [List.countP_eq_zero]
      intro e he
      obtain ⟨s', path, hcall⟩ := hreads e he
      simp [hcall]
    rw [List.countP_append, hnone, Nat.zero_add]
    rcases List.mem_append.mp htaken with htaken | htaken
    · obtain ⟨s', path, hcall⟩ := hreads _ htaken
      cases hcall
    · exact honce s c htaken

/-! ## The calls of each step -/

/-- The calls of a build that does not get as far as its image. -/
inductive FailedBuild (c : Container) (diff image : String) : List Event → Prop
  | unpatched (fault : Fault) : FailedBuild c diff image [⟨.applyPatch c diff, .error fault⟩]
  | unbuilt (fault : Fault) :
      FailedBuild c diff image [⟨.applyPatch c diff, .ok ()⟩, ⟨.build c, .error fault⟩]
  | broken (output : String) :
      FailedBuild c diff image [⟨.applyPatch c diff, .ok ()⟩, ⟨.build c, .ok (.failure output)⟩]
  | unkept (fault : Fault) :
      FailedBuild c diff image
        [⟨.applyPatch c diff, .ok ()⟩, built c, ⟨.persist c image, .error fault⟩]

/-- The calls that do not get as far as an image. -/
inductive FailedImage (s : Snapshot) (diff image : String) : List Event → Prop
  | untaken (fault : Fault) : FailedImage s diff image [⟨.provision s, .error fault⟩]
  | failed {c : Container} {work : List Event} (outcome : Except Fault Unit) :
      FailedBuild c diff image work →
      FailedImage s diff image (taken s c :: (work ++ [destroyed c outcome]))

/-- The calls that leave an image. -/
def imageCalls (s : Snapshot) (diff image : String) (c : Container)
    (outcome : Except Fault Unit) : List Event :=
  [taken s c, ⟨.applyPatch c diff, .ok ()⟩, built c, kept c image, destroyed c outcome]

/-- The calls that end with a record, or without one and with the image deleted. -/
inductive RecordCalls (record : Snapshot) : List Event → Prop
  | added : RecordCalls record [⟨.register record, .ok ()⟩]
  | notAdded (fault : Fault) (outcome : Except Fault Unit) :
      RecordCalls record [refused record fault, ⟨.deleteImage record.image, outcome⟩]

/-- The calls of a build that fails keep the discipline. -/
theorem callDiscipline_failedImage {s : Snapshot} {diff image : String} {reads calls : List Event}
    (hreads : ∀ e ∈ reads, e.IsRead) (h : FailedImage s diff image calls) :
    CallDiscipline (reads ++ calls) := by
  apply callDiscipline_of_reads hreads
  · cases h with
    | untaken fault => exact ⟨hreads, trivial⟩
    | failed outcome hwork =>
      refine ⟨hreads, ?_⟩
      cases hwork <;> simp [AllInOrder, InOrder, Call.Uses, taken, built, destroyed]
  · intro s' c' htaken
    cases h with
    | untaken fault => simp [taken] at htaken
    | @failed c work outcome hwork =>
      have hsame : c = c' := by
        cases hwork <;> simp_all [taken, built, destroyed]
      subst hsame
      cases hwork <;> simp [taken, built, destroyed]

/-- The calls of a build that succeeds keep the discipline. -/
theorem callDiscipline_image {s record : Snapshot} {diff : String} {c : Container}
    {outcome : Except Fault Unit} {reads calls : List Event} (hreads : ∀ e ∈ reads, e.IsRead)
    (h : RecordCalls record calls) :
    CallDiscipline (reads ++ (imageCalls s diff record.image c outcome ++ calls)) := by
  apply callDiscipline_of_reads hreads
  · cases h with
    | added =>
      exact ⟨hreads, ⟨s, by simp⟩, ⟨s, by simp⟩, (by simp : built c ∈ _),
        ⟨⟨s, by simp⟩, by simp [Call.Uses]⟩, ⟨c, outcome, by simp, by simp⟩, trivial⟩
    | notAdded fault outcome' =>
      exact ⟨hreads, ⟨s, by simp⟩, ⟨s, by simp⟩, (by simp : built c ∈ _),
        ⟨⟨s, by simp⟩, by simp [Call.Uses, refused]⟩, ⟨c, outcome, by simp, by simp⟩,
        ⟨record, fault, rfl, by simp⟩, trivial⟩
  · intro s' c' htaken
    have hsame : c = c' := by
      cases h <;> simp_all [imageCalls, taken, built, kept, destroyed, refused]
    subst hsame
    cases h <;> simp [imageCalls, taken, built, kept, destroyed, refused]

namespace Installation

variable {σ : Type} (i : Installation σ)

/-- The calls of a build in a container: patch, build, keep, up to the first that fails. -/
theorem buildIn_calls (c : Container) (diff image : String) (r : Recorded σ) :
    (i.recorded.buildIn c diff image).Ensures r
      (fun _ r' => r'.events =
        r.events ++ [⟨.applyPatch c diff, .ok ()⟩, built c, kept c image])
      (fun _ r' => ∃ work, FailedBuild c diff image work ∧ r'.events = r.events ++ work) := by
  apply buildIn_ensures
  refine (i.backend.recorded_noted (.applyPatch c diff) r).mono ?_ ?_
  · rintro ⟨⟩ r₁ hr₁
    refine (i.backend.recorded_noted (.build c) r₁).mono ?_ ?_
    · rintro outcome r₂ hr₂
      cases outcome with
      | success =>
        refine (i.backend.recorded_noted (.persist c image) r₂).mono ?_ ?_
        · rintro ⟨⟩ r₃ hr₃
          rw [hr₃, hr₂, hr₁, List.append_assoc, List.append_assoc]
          rfl
        · intro fault r₃ hr₃
          refine ⟨_, .unkept fault, ?_⟩
          rw [hr₃, hr₂, hr₁, List.append_assoc, List.append_assoc]
          rfl
      | failure output =>
        refine ⟨_, .broken output, ?_⟩
        rw [hr₂, hr₁, List.append_assoc]
        rfl
    · intro fault r₂ hr₂
      refine ⟨_, .unbuilt fault, ?_⟩
      rw [hr₂, hr₁, List.append_assoc]
      rfl
  · intro fault r₁ hr₁
    exact ⟨_, .unpatched fault, hr₁⟩

/-- The calls of a build: provision, the build in the container, destroy. -/
theorem buildImage_calls (s : Snapshot) (diff image : String) (r : Recorded σ) :
    (i.recorded.buildImage s diff image).Ensures r
      (fun _ r' => ∃ c outcome, r'.events = r.events ++ imageCalls s diff image c outcome)
      (fun _ r' => ∃ calls, FailedImage s diff image calls ∧ r'.events = r.events ++ calls) := by
  apply buildImage_ensures
  refine (i.backend.recorded_noted (.provision s) r).mono ?_ ?_
  · intro c r₁ hr₁
    refine (i.buildIn_calls c diff image r₁).mono ?_ ?_
    · intro _ r₂ hr₂
      -- the outcome of destroying the container changes nothing
      have hdestroy : ∀ (outcome : Except Fault Unit) (r₃ : Recorded σ),
          r₃.events = r₂.events ++ [destroyed c outcome] →
          r₃.events = r.events ++ imageCalls s diff image c outcome := by
        intro outcome r₃ hr₃
        rw [hr₃, hr₂, hr₁, List.append_assoc, List.append_assoc]
        rfl
      exact (i.backend.recorded_noted (.destroy c) r₂).mono
        (fun _ r₃ hr₃ => ⟨c, .ok (), hdestroy _ r₃ hr₃⟩)
        (fun fault r₃ hr₃ => ⟨c, .error fault, hdestroy _ r₃ hr₃⟩)
    · rintro fault r₂ ⟨work, hwork, hr₂⟩
      have hdestroy : ∀ (outcome : Except Fault Unit) (r₃ : Recorded σ),
          r₃.events = r₂.events ++ [destroyed c outcome] →
          ∃ calls, FailedImage s diff image calls ∧ r₃.events = r.events ++ calls := by
        intro outcome r₃ hr₃
        refine ⟨_, .failed outcome hwork, ?_⟩
        rw [hr₃, hr₂, hr₁, List.append_assoc, List.append_assoc]
        rfl
      exact (i.backend.recorded_noted (.destroy c) r₂).mono
        (fun _ r₃ hr₃ => hdestroy (.ok ()) r₃ hr₃)
        (fun fault r₃ hr₃ => hdestroy (.error fault) r₃ hr₃)
  · intro fault r₁ hr₁
    exact ⟨_, .untaken fault, hr₁⟩

/-- The calls for a record: register, and delete the image if that fails. -/
theorem addRecord_calls (record : Snapshot) (r : Recorded σ) :
    (i.recorded.addRecord record).Ensures r
      (fun _ r' => ∃ calls, RecordCalls record calls ∧ r'.events = r.events ++ calls)
      (fun _ r' => ∃ calls, RecordCalls record calls ∧ r'.events = r.events ++ calls) := by
  apply addRecord_ensures
  refine (i.backend.recorded_noted (.register record) r).mono ?_ ?_
  · rintro ⟨⟩ r₁ hr₁
    exact ⟨_, .added, hr₁⟩
  · intro fault r₁ hr₁
    have hdelete : ∀ (outcome : Except Fault Unit) (r₂ : Recorded σ),
        r₂.events = r₁.events ++ [⟨.deleteImage record.image, outcome⟩] →
        ∃ calls, RecordCalls record calls ∧ r₂.events = r.events ++ calls := by
      intro outcome r₂ hr₂
      refine ⟨_, .notAdded fault outcome, ?_⟩
      rw [hr₂, hr₁, List.append_assoc]
      rfl
    exact (i.backend.recorded_noted (.deleteImage record.image) r₁).mono
      (fun _ r₂ hr₂ => hdelete (.ok ()) r₂ hr₂)
      (fun fault r₂ hr₂ => hdelete (.error fault) r₂ hr₂)

/-- Nothing but reads since the state with the given events. -/
def OnlyReads (events : List Event) (t : Session (Recorded σ)) : Prop :=
  ∃ reads, (∀ e ∈ reads, e.IsRead) ∧ t.store.events = events ++ reads

/-- Making a diff only reads. -/
theorem diffOf_calls (s : Snapshot) (ms : List Mutation) {events : List Event}
    {t : Session (Recorded σ)} (ht : OnlyReads events t) :
    (i.recorded.diffOf s ms).Ensures t (fun _ t' => OnlyReads events t')
      (fun _ t' => OnlyReads events t') := by
  refine diffOf_ensures (fun path t' ht' => ?_) ht
  refine Session.readSource_ensures (fun _ _ => ht') fun _ => ?_
  obtain ⟨reads, hreads, hevents⟩ := ht'
  have hmore : ∀ (outcome : Except Fault String) (r : Recorded σ),
      r.events = t'.store.events ++ [⟨.fileText s path, outcome⟩] →
      ∃ reads, (∀ e ∈ reads, e.IsRead) ∧ r.events = events ++ reads := by
    intro outcome r hr
    refine ⟨reads ++ [⟨.fileText s path, outcome⟩], ?_, by rw [hr, hevents, List.append_assoc]⟩
    intro e he
    rcases List.mem_append.mp he with he | he
    · exact hreads e he
    · obtain rfl := List.mem_singleton.mp he
      exact ⟨s, path, rfl⟩
  exact (i.backend.recorded_noted (.fileText s path) t'.store).mono
    (fun text r hr => hmore (.ok text) r hr) (fun fault r hr => hmore (.error fault) r hr)

/-- The calls made since the state `t` keep the discipline; there are none for several mutations,
and only reads if there is no diff. -/
def KeptDiscipline (s : Snapshot) (ms : List Mutation) (t t' : Session (Recorded σ)) : Prop :=
  ∃ calls, t'.store.events = t.store.events ++ calls ∧ CallDiscipline calls ∧
    (1 < ms.length → calls = []) ∧
    ((∀ diff t₁, i.recorded.diffOf s ms t.drawn ≠ .ok diff t₁) → ∀ e ∈ calls, e.IsRead)

theorem keptDiscipline_reads {s : Snapshot} {ms : List Mutation} {t t' : Session (Recorded σ)}
    (hlength : ms.length ≤ 1) (h : OnlyReads t.store.events t') :
    i.KeptDiscipline s ms t t' := by
  obtain ⟨reads, hreads, hevents⟩ := h
  have hdiscipline : CallDiscipline (reads ++ []) :=
    callDiscipline_of_reads hreads trivial (by simp)
  rw [List.append_nil] at hdiscipline
  exact ⟨reads, hevents, hdiscipline, fun h => absurd h (by omega), fun _ => hreads⟩

/-- Generating a mutant keeps the discipline, whether it succeeds or fails. -/
theorem generate_disciplined (s : Snapshot) (ms : List Mutation) (t : Session (Recorded σ)) :
    (i.recorded.generate s ms).Ensures t (fun _ t' => i.KeptDiscipline s ms t t')
      (fun _ t' => i.KeptDiscipline s ms t t') := by
  have hnone : ∀ t' : Session (Recorded σ), t'.store = t.store → i.KeptDiscipline s ms t t' := by
    intro t' ht'
    refine ⟨[], by rw [ht', List.append_nil], ⟨by simp, by simp⟩, fun _ => rfl, by simp⟩
  refine generate_ensures (fun _ => hnone t rfl) (fun _ => hnone t.drawn rfl) fun hlength _ => ?_
  have hstart : OnlyReads t.store.events t.drawn := ⟨[], by simp, (List.append_nil _).symm⟩
  refine (i.diffOf_calls s ms hstart).withOutcome.mono ?_ ?_
  · rintro diff t₁ ⟨hdiff, reads, hreads, hevents⟩
    -- from here on there is a diff and at most one mutation
    have hkept : ∀ (calls : List Event) (t' : Session (Recorded σ)),
        t'.store.events = t₁.store.events ++ calls → CallDiscipline (reads ++ calls) →
        i.KeptDiscipline s ms t t' := by
      intro calls t' ht' hcalls
      refine ⟨reads ++ calls, by rw [ht', hevents, List.append_assoc], hcalls,
        fun h => absurd h (by omega), fun h => absurd hdiff (h diff t₁)⟩
    refine (i.buildImage_calls s _ _ t₁.store).mono ?_ ?_
    · rintro _ r₁ ⟨c, outcome, hr₁⟩
      have hrecord : ∀ (calls : List Event) (t' : Session (Recorded σ)),
          RecordCalls (s.derive (i.recorded.nextMutant t).snapshotName
            (i.recorded.nextMutant t).imageName) calls →
          t'.store.events = r₁.events ++ calls → i.KeptDiscipline s ms t t' := by
        intro calls t' hcalls ht'
        refine hkept (imageCalls s (String.ofList diff) (i.recorded.nextMutant t).imageName c
          outcome ++ calls) t' ?_ (callDiscipline_image hreads hcalls)
        rw [ht', hr₁, List.append_assoc]
      exact (i.addRecord_calls _ r₁).mono
        (fun _ r₂ ⟨calls, hcalls, hr₂⟩ => hrecord calls _ hcalls hr₂)
        (fun _ r₂ ⟨calls, hcalls, hr₂⟩ => hrecord calls _ hcalls hr₂)
    · rintro fault r₁ ⟨calls, hcalls, hr₁⟩
      exact hkept calls _ hr₁ (callDiscipline_failedImage hreads hcalls)
  · rintro fault t₁ ⟨-, hreads⟩
    exact i.keptDiscipline_reads hlength hreads

/-- Whatever calls fail, making a mutant keeps the discipline: files are read, then at most one
container is taken, and it is destroyed exactly once, after all work on it and before a record is
added. Nothing is asked for with several mutations, and only reads are made if there is no diff. -/
theorem generate_calls (i : Installation σ) (s : Snapshot) (ms : List Mutation)
    (t : Session (Recorded σ)) :
    ∃ calls, (i.recorded.generate s ms).Ensures t
        (fun _ t' => t'.store.events = t.store.events ++ calls)
        (fun _ t' => t'.store.events = t.store.events ++ calls) ∧
      CallDiscipline calls ∧ (1 < ms.length → calls = []) ∧
      ((∀ diff t', i.recorded.diffOf s ms t.drawn ≠ .ok diff t') → ∀ e ∈ calls, e.IsRead) := by
  obtain ⟨t', hfinal, calls, hcalls, hdiscipline⟩ := (i.generate_disciplined s ms t).final
  refine ⟨calls, hfinal.mono ?_ ?_, hdiscipline⟩
  · rintro _ _ rfl
    exact hcalls
  · rintro _ _ rfl
    exact hcalls

end Installation

end Mutagenesis
